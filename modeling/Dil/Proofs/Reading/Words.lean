import Dil.Proofs.Peg.Choices
import Dil.Proofs.Reading.Tokens

namespace Dil.Reading

open Rule (isWordChar isWordStart spellings keyword)

def isWord : List Char → Bool
  | [] => false
  | c :: cs => isWordStart c && cs.all isWordChar

def reservedRules : List Rule :=
  [.kwClass, .kwLet, .kwGet, .kwAs, .kwLiteral, .kwIf, .kwThen, .kwElse, .kwEndif, .kwForeach,
    .kwIn, .kwDo, .kwEndforeach, .kwFor, .kwWhen, .kwEndfor]

def reservedWords : List (List Char) := reservedRules.flatMap fun kw => (spellings kw).map String.toList

def isName (w : List Char) : Bool := isWord w && !reservedWords.contains w

/-- Spellings of one keyword: words, of which none begins another. -/
def areSpellings (ss : List String) : Bool :=
  ss.all fun s => isWord s.toList && ss.all fun r => !r.toList.isPrefixOf s.toList || r == s

theorem isWordChar_of_start {c : Char} (start : isWordStart c = true) : isWordChar c = true := by
  simp only [isWordStart, isWordChar, Char.isAlphanum, Bool.or_eq_true] at start ⊢
  tauto

theorem isWordChar_of_mem {w : List Char} (word : isWord w = true) {c : Char} (member : c ∈ w) :
    isWordChar c = true := by
  cases w with
  | nil => cases member
  | cons d ds =>
      simp only [isWord, Bool.and_eq_true, List.all_eq_true] at word
      cases member with
      | head => exact isWordChar_of_start word.1
      | tail _ later => exact word.2 c later

section Leading

variable {w x : List Char}

theorem leading_split (x : List Char) :
    x = leading x ++ x.dropWhile isWordChar ∧
      ∀ c ∈ (x.dropWhile isWordChar).head?, isWordChar c = false :=
  ⟨List.takeWhile_append_dropWhile.symm, dropWhile_stops⟩

theorem leading_leading (x : List Char) : leading (leading x) = leading x := by
  have whole := leading_append_of_word (x := [])
    (List.all_eq_true.mp (List.all_takeWhile (l := x) (p := isWordChar))) nofun
  rwa [List.append_nil] at whole

theorem leading_of_begins (word : ∀ c ∈ w, isWordChar c = true) (begins : w <+: x) :
    w <+: leading x := by
  obtain ⟨rest, rfl⟩ := begins
  rw [leading, List.takeWhile_append_of_pos word]
  exact List.prefix_append w _

end Leading

section Keywords

variable {ss : List String} {s : String} {c : Cursor} {spaced : Bool}

theorem isWord_of_spelling (spelt : areSpellings ss = true) (member : s ∈ ss) :
    isWord s.toList = true := by
  simp only [areSpellings, List.all_eq_true, Bool.and_eq_true] at spelt
  exact (spelt s member).1

theorem spelling_word (spelt : areSpellings ss = true) (member : s ∈ ss) :
    ∀ c ∈ s.toList, isWordChar c = true :=
  fun _ inside => isWordChar_of_mem (isWord_of_spelling spelt member) inside

theorem spelling_unique (spelt : areSpellings ss = true) (member : s ∈ ss) {r : String}
    (other : r ∈ ss) (begins : r.toList <+: s.toList) : r = s := by
  simp only [areSpellings, List.all_eq_true, Bool.and_eq_true, Bool.or_eq_true,
    Bool.not_eq_true', beq_iff_eq] at spelt
  cases (spelt s member).2 r other with
  | inl apart => simp [List.isPrefixOf_iff_prefix.mpr begins] at apart
  | inr same => exact same

theorem settles_spelling (spelt : areSpellings ss = true) (member : s ∈ ss)
    (word : leading c.rest = s.toList) :
    grammar.Settles spaced (Peg.words ss) c
      (.matched [] (c.past s.toList (c.rest.dropWhile isWordChar))) := by
  obtain ⟨before, after, rfl, first⟩ := List.eq_append_cons_of_mem member
  have next := (leading_split c.rest).1
  rw [word] at next
  refine Grammar.settles_words (fun r earlier begins => ?_) next
  have among : r ∈ before ++ s :: after := List.mem_append_left _ earlier
  have within := leading_of_begins (spelling_word spelt among) begins
  rw [word] at within
  cases spelling_unique spelt member among within
  exact first earlier

theorem settles_keyword (spelt : areSpellings ss = true) (member : s ∈ ss)
    (word : leading c.rest = s.toList) :
    grammar.Settles false (keyword ss) c
      (.matched [] (c.past s.toList (c.rest.dropWhile isWordChar))) :=
  .seq_joined (settles_spelling spelt member word)
    (.absent (Grammar.settles_char_refused (leading_split c.rest).2))

/-- A keyword is refused where another word stands, even if the text begins like the keyword. -/
theorem settles_keyword_refused (spelt : areSpellings ss = true)
    (other : leading c.rest ∉ ss.map String.toList) :
    grammar.Settles false (keyword ss) c .refused := by
  by_cases some : ∃ s ∈ ss, s.toList <+: c.rest
  · have found : (ss.find? fun s => s.toList.isPrefixOf c.rest).isSome = true := by
      simpa [List.find?_isSome, List.isPrefixOf_iff_prefix] using some
    obtain ⟨s, found⟩ := Option.isSome_iff_exists.mp found
    obtain ⟨begins, before, after, rfl, others⟩ := List.find?_eq_some_iff_append.mp found
    rw [List.isPrefixOf_iff_prefix] at begins
    have member : s ∈ before ++ s :: after := by simp
    obtain ⟨rest, split⟩ := begins
    have longer := leading_of_begins (spelling_word spelt member) ⟨rest, split⟩
    obtain ⟨more, longest⟩ := longer
    have taken : grammar.Settles false (Peg.words (before ++ s :: after)) c
        (.matched [] (c.past s.toList rest)) := by
      refine Grammar.settles_words (fun r earlier begins => ?_) split.symm
      simpa [List.isPrefixOf_iff_prefix.mpr begins] using others r earlier
    cases more with
    | nil =>
        rw [List.append_nil] at longest
        exact absurd (List.mem_map.mpr ⟨s, member, longest⟩) other
    | cons y ys =>
        have whole := (leading_split c.rest).1
        rw [← longest, ← split, List.append_assoc, List.append_cancel_left_eq] at whole
        have wordly : isWordChar y = true := by
          have inside : y ∈ leading c.rest := by simp [← longest]
          exact List.all_eq_true.mp List.all_takeWhile y inside
        exact .seq_joined taken (.present (.char whole wordly))
  · push Not at some
    exact .seqRefused (Grammar.settles_words_refused some)

end Keywords

section Identifiers

variable {c : Cursor} {r : Rule} {w : List Char}

/-- The text behind a leading word. -/
def behindWord (c : Cursor) : Cursor := c.past (leading c.rest) (c.rest.dropWhile isWordChar)

theorem settles_keyIdent (word : isWord (leading c.rest) = true) :
    grammar.Settles false (Rule.body .keyIdent) c (.matched [] (behindWord c)) := by
  obtain ⟨split, ends⟩ := leading_split c.rest
  cases found : leading c.rest with
  | nil => simp [found, isWord] at word
  | cons x xs =>
      rw [found] at word split
      simp only [isWord, Bool.and_eq_true, List.all_eq_true] at word
      rw [behindWord, found]
      exact Grammar.settles_char_chars word.1 word.2 ends split

theorem settles_start_refused (other : isWord (leading c.rest) = false) :
    grammar.Settles false (.char isWordStart) c .refused := by
  refine Grammar.settles_char_refused fun x next => ?_
  by_contra start
  rw [Bool.not_eq_false] at start
  obtain ⟨xs, split⟩ : ∃ xs, c.rest = x :: xs := by
    cases h : c.rest with
    | nil => simp [h] at next
    | cons y ys => simp_all
  simp [split, leading, isWordChar_of_start start, isWord, start] at other

theorem settles_keyIdent_refused (other : isWord (leading c.rest) = false) :
    grammar.Settles false (Rule.body .keyIdent) c .refused :=
  .seqRefused (settles_start_refused other)

theorem spellings_areSpellings (r : Rule) : areSpellings (spellings r) = true := by
  cases r <;> decide

theorem reserved_body {kw : Rule} (member : kw ∈ reservedRules) :
    Rule.body kw = keyword (spellings kw) ∧ Rule.kind kw = .token := by
  simp only [reservedRules, List.mem_cons, List.not_mem_nil, or_false] at member
  rcases member with rfl | rfl | rfl | rfl | rfl | rfl | rfl | rfl | rfl | rfl | rfl | rfl | rfl
    | rfl | rfl | rfl <;> exact ⟨rfl, rfl⟩

theorem settles_reservedRule {kw : Rule} (member : kw ∈ reservedRules) :
    (leading c.rest ∉ (spellings kw).map String.toList
        → grammar.Settles false (.rule kw) c .refused)
      ∧ (leading c.rest ∈ (spellings kw).map String.toList
        → ∃ ts d, grammar.Settles false (.rule kw) c (.matched ts d)) := by
  obtain ⟨body, token⟩ := reserved_body member
  have spelt := spellings_areSpellings kw
  constructor
  · intro other
    have refused := settles_keyword_refused spelt other
    rw [← body] at refused
    exact Grammar.settles_token_refused token refused
  · intro among
    obtain ⟨s, spelling, word⟩ := List.mem_map.mp among
    have taken := settles_keyword spelt spelling word.symm
    rw [← body] at taken
    exact ⟨_, _, Grammar.settles_token token taken⟩

theorem mem_reservedWords_iff :
    w ∈ reservedWords ↔ ∃ kw ∈ reservedRules, w ∈ (spellings kw).map String.toList := by
  rw [reservedWords, List.mem_flatMap]

theorem settles_reserved_refused (free : leading c.rest ∉ reservedWords) :
    grammar.Settles false Rule.reserved c .refused := by
  refine Grammar.settles_first_refused fun q member => ?_
  obtain ⟨kw, among, rfl⟩ := List.mem_map.mp member
  refine (settles_reservedRule among).1 fun spelt => free ?_
  exact mem_reservedWords_iff.mpr ⟨kw, among, spelt⟩

theorem settles_reserved (reserved : leading c.rest ∈ reservedWords) :
    ∃ ts d, grammar.Settles false Rule.reserved c (.matched ts d) := by
  obtain ⟨kw, among, spelt⟩ := mem_reservedWords_iff.mp reserved
  obtain ⟨ts, d, taken⟩ := (settles_reservedRule among).2 spelt
  refine Grammar.settles_first_some (fun q member => ?_) (List.mem_map_of_mem among) taken
  obtain ⟨kw, among, rfl⟩ := List.mem_map.mp member
  by_cases spelt : leading c.rest ∈ (spellings kw).map String.toList
  · exact .inr ((settles_reservedRule among).2 spelt)
  · exact .inl ((settles_reservedRule among).1 spelt)

theorem isName_iff : isName w = true ↔ isWord w = true ∧ w ∉ reservedWords := by
  simp [isName]

theorem settles_identifier (name : isName (leading c.rest) = true) :
    grammar.Settles false (Rule.body .identifier) c (.matched [] (behindWord c)) := by
  obtain ⟨word, free⟩ := isName_iff.mp name
  exact .seq_joined (.absent (settles_reserved_refused free)) (settles_keyIdent word)

theorem settles_identifier_refused (other : isName (leading c.rest) = false) :
    grammar.Settles false (Rule.body .identifier) c .refused := by
  by_cases reserved : leading c.rest ∈ reservedWords
  · obtain ⟨ts, d, found⟩ := settles_reserved reserved
    exact .seqRefused (.present found)
  · have word : isWord (leading c.rest) = false := by
      simpa [isName, reserved] using other
    exact .seq_joined (.absent (settles_reserved_refused reserved)) (settles_keyIdent_refused word)

end Identifiers

end Dil.Reading
