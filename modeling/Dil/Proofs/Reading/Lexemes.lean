import Dil.Proofs.Reading.Glance
import Dil.Proofs.Reading.Integers
import Dil.Proofs.Text.Quoted

namespace Dil.Reading

open Rule (Part isWordChar spellings wholeWord)

section Words

variable {t : String} {left : List String} {c : Cursor} {rest : List Char}

theorem leading_of_word (word : isWord t.toList = true) : leading t.toList = t.toList := by
  simpa using leading_append_of_word (fun c member => isWordChar_of_mem word member) (x := []) nofun

theorem word_ahead (word : isWord t.toList = true) (next : c.rest = t.toList ++ rest)
    (apart : Apart t.toList rest) :
    leading c.rest = t.toList ∧ c.rest.dropWhile isWordChar = rest := by
  have nonempty : t.toList ≠ [] := by
    rintro empty
    simp [empty, isWord] at word
  have whole : leading c.rest = t.toList := by
    rw [next, apart.leading nonempty, leading_of_word word]
  have split := (leading_split c.rest).1
  rw [whole, next, List.append_cancel_left_eq, ← next] at split
  exact ⟨whole, split.symm⟩

theorem reads_keyword {r : Rule} {ss : List String} (token : Rule.kind r = .token)
    (body : Rule.body r = Rule.keyword ss) (spelt : areSpellings ss = true) (member : t ∈ ss) :
    Reads (.rule r) (t :: left) [.leaf r .nowhere t.toList] left := by
  refine reads_token token fun c rest next apart => ?_
  obtain ⟨whole, behind⟩ := word_ahead (isWord_of_spelling spelt member) next apart
  have reads := settles_keyword spelt member whole
  rwa [behind, ← body] at reads

theorem reads_keyIdent (word : isWord t.toList = true) :
    Reads (.rule .keyIdent) (t :: left) [.leaf .keyIdent .nowhere t.toList] left := by
  refine reads_token rfl fun c rest next apart => ?_
  obtain ⟨whole, behind⟩ := word_ahead word next apart
  have reads := settles_keyIdent (c := c) (by rw [whole, word])
  rwa [behindWord, whole, behind] at reads

theorem reads_identifier (name : isName t.toList = true) :
    Reads (.rule .identifier) (t :: left) [.leaf .identifier .nowhere t.toList] left := by
  refine reads_token rfl fun c rest next apart => ?_
  obtain ⟨whole, behind⟩ := word_ahead (isName_iff.mp name).1 next apart
  have reads := settles_identifier (c := c) (by rw [whole, name])
  rwa [behindWord, whole, behind] at reads

theorem keyword_of_spelling {kw : Rule} (member : t ∈ spellings kw) :
    Rule.kind kw = .token ∧ Rule.body kw = Rule.keyword (spellings kw) := by
  cases kw <;> first | exact ⟨rfl, rfl⟩ | cases member

theorem reads_wholeWord {kw : Rule} (member : t ∈ spellings kw) :
    Reads (wholeWord kw) (t :: left) [] left := by
  obtain ⟨token, body⟩ := keyword_of_spelling member
  have spelt := spellings_areSpellings kw
  refine reads_skip (reads_ahead (reads_keyword token body spelt member)) ?_
  intro c stands
  obtain ⟨rest, next, _, apart, laid⟩ := stands.cons
  obtain ⟨whole, behind⟩ := word_ahead (isWord_of_spelling spelt member) next apart
  have reads : grammar.Settles true (Peg.words (spellings kw)) c
      (.matched [] (c.past t.toList (c.rest.dropWhile Rule.isWordChar))) :=
    settles_spelling spelt member whole
  rw [behind] at reads
  exact ⟨[], _, reads, rfl, laid⟩

theorem declines_word {r : Rule} {tokens : List String}
    (other : refusesWord (firstWord tokens) r = true) : Declines (.rule r) tokens := by
  intro c stands
  rw [← stands.leading] at other
  exact refusesWord_refuses other

theorem declines_wholeWord {kw : Rule} {tokens : List String}
    (other : refusesWord (firstWord tokens) kw = true) : Declines (wholeWord kw) tokens :=
  declines_seq fun c stands => .aheadRefused (declines_word other c stands)

theorem reads_typeName (tag : Tag) :
    Reads (.rule .typeName) (tag.name :: left) [.leaf .typeName .nowhere tag.name.toList] left := by
  have word : isWord tag.name.toList = true ∧ tag.name.toList.head?.all Rule.isLetter := by
    cases tag <;> decide
  refine reads_token rfl fun c rest next apart => ?_
  obtain ⟨whole, behind⟩ := word_ahead word.1 next apart
  have ends := (leading_split c.rest).2
  rw [behind] at ends
  cases text : tag.name.toList with
  | nil => simp [text, isWord] at word
  | cons x xs =>
      rw [text] at word next
      simp only [isWord, Bool.and_eq_true, List.all_eq_true, List.head?_cons, Option.all_some] at word
      exact Grammar.settles_char_chars word.2 word.1.2 ends next

end Words

/-- Whether a text cannot begin where a token stands apart: it is not the start of the token, and
longer than the token only in a way in which nothing goes on behind it. -/
def conflicts (token text : List Char) : Bool :=
  !text.isPrefixOf token
    && (!token.isPrefixOf text
      || token.getLast?.any fun a => (text.drop token.length).head?.any (runsOn a))

section Operators

variable {t : List Char} {rest : List Char} {c : Cursor} {spaced : Bool} {ss : List String}

theorem not_begins {r : List Char} (apart : Apart t rest) (conflict : conflicts t r = true) :
    ¬ r <+: t ++ rest := by
  rintro ⟨z, same⟩
  simp only [conflicts, Bool.and_eq_true, Bool.or_eq_true, Bool.not_eq_true'] at conflict
  obtain ⟨shorter, longer⟩ := conflict
  cases List.append_eq_append_iff.mp same with
  | inl within =>
      obtain ⟨more, rfl, _⟩ := within
      simp [List.isPrefixOf_iff_prefix.mpr (List.prefix_append r more)] at shorter
  | inr beyond =>
      obtain ⟨more, rfl, split⟩ := beyond
      simp only [List.isPrefixOf_iff_prefix.mpr (List.prefix_append t more), Bool.true_eq_false,
        List.drop_left, Option.any_eq_true, false_or] at longer
      obtain ⟨a, last, b, next, joined⟩ := longer
      have other := apart a last b (by simp [split, List.head?_append, next])
      simp [joined] at other

theorem settles_words_token {t : String} (member : t ∈ ss)
    (others : ∀ r ∈ ss, r ≠ t → conflicts t.toList r.toList = true)
    (next : c.rest = t.toList ++ rest) (apart : Apart t.toList rest) :
    grammar.Settles spaced (Peg.words ss) c (.matched [] (c.past t.toList rest)) := by
  obtain ⟨before, after, rfl, first⟩ := List.eq_append_cons_of_mem member
  refine Grammar.settles_words (fun r earlier => ?_) next
  rw [next]
  refine not_begins apart (others r (List.mem_append_left _ earlier) ?_)
  rintro rfl
  exact first earlier

theorem settles_words_other (others : ∀ r ∈ ss, conflicts t r.toList = true)
    (next : c.rest = t ++ rest) (apart : Apart t rest) :
    grammar.Settles spaced (Peg.words ss) c .refused := by
  refine Grammar.settles_words_refused fun r member => ?_
  rw [next]
  exact not_begins apart (others r member)

end Operators

section Operators

variable {left : List String}

theorem settles_minus {c : Cursor} {rest : List Char} {sign other : Char}
    (next : c.rest = sign :: rest) (apart : Apart [sign] rest)
    (signs : runsOn sign other = true) :
    grammar.Settles false (.seq (.text [sign]) (.unless (.text [other]))) c
      (.matched [] (c.past [sign] rest)) := by
  refine .seq_joined (Grammar.settles_word next) (.absent (Grammar.settles_word_refused ?_))
  rintro ⟨more, split⟩
  have follows : rest = other :: more := split.symm
  have joined := apart sign rfl other (by simp [follows])
  simp [signs] at joined

theorem reads_unaryOp (op : UnaryOp) :
    Reads (.rule .unaryOp) (op.symbol :: left) [.leaf .unaryOp .nowhere op.symbol.toList] left := by
  refine reads_token rfl fun c rest next apart => ?_
  cases op with
  | neg => exact .altFirst (settles_minus next apart rfl)
  | not =>
      refine .altSecond (.seqRefused (Grammar.settles_word_refused ?_))
        (settles_minus next apart rfl)
      rw [next]
      exact not_begins apart rfl

/-- The operators that the grammar lists before the minus sign, and those behind it. -/
def earlyOps : List String := ["==", "!=", "<=", ">=", "&&", "||", "+"]

def lateOps : List String := ["*", "/", "%", "<", ">", "&", "|"]

theorem reads_binaryOp (op : BinaryOp) :
    Reads (.rule .binaryOp) (op.symbol :: left) [.leaf .binaryOp .nowhere op.symbol.toList] left := by
  refine reads_token rfl fun c rest next apart => ?_
  have early (member : op.symbol ∈ earlyOps)
      (others : ∀ r ∈ earlyOps, r ≠ op.symbol → conflicts op.symbol.toList r.toList = true) :
      grammar.Settles false (Rule.body .binaryOp) c (.matched [] (c.past op.symbol.toList rest)) :=
    .altFirst (settles_words_token member others next apart)
  have late (member : op.symbol ∈ lateOps)
      (others : ∀ r ∈ lateOps, r ≠ op.symbol → conflicts op.symbol.toList r.toList = true)
      (none : ∀ r ∈ "-" :: earlyOps, conflicts op.symbol.toList r.toList = true) :
      grammar.Settles false (Rule.body .binaryOp) c (.matched [] (c.past op.symbol.toList rest)) := by
    have notEarly : grammar.Settles false (Peg.words earlyOps) c .refused :=
      settles_words_other (fun r member => none r (List.mem_cons_of_mem _ member)) next apart
    have notMinus : grammar.Settles false (Peg.word "-") c .refused := by
      refine Grammar.settles_word_refused ?_
      rw [next]
      exact not_begins apart (none "-" List.mem_cons_self)
    exact .altSecond notEarly (.altSecond (.seqRefused notMinus)
      (settles_words_token member others next apart))
  cases op with
  | eq | ne | le | ge | and | or | add => exact early (by decide) (by decide)
  | mul | div | mod | lt | gt | bitAnd | bitOr => exact late (by decide) (by decide) (by decide)
  | sub =>
      have notEarly : grammar.Settles false (Peg.words earlyOps) c .refused :=
        settles_words_other (by decide) next apart
      exact .altSecond notEarly (.altFirst (settles_minus next apart rfl))

theorem declines_arrow : Declines (Peg.word "->") ("-" :: left) := by
  intro c stands
  obtain ⟨rest, next, _, apart, _⟩ := stands.cons
  refine Grammar.settles_word_refused ?_
  rw [next]
  exact not_begins apart rfl

end Operators

section Numbers

variable {w rest : List Char} {c : Cursor} {left : List String} {n : Int64}

theorem isWordChar_of_digit {x : Char} (digit : x.isDigit = true) : isWordChar x = true := by
  simp [isWordChar, Char.isAlphanum, digit]

theorem apart_of_digits (digits : ∀ x ∈ w, x.isDigit = true) (nonempty : w ≠ [])
    (apart : Apart w rest) : ∀ x ∈ rest.head?, isWordChar x = false ∧ x ≠ '.' := by
  intro x next
  have last := apart _ (List.getLast?_eq_some_getLast nonempty) x next
  have digit := isWordChar_of_digit (digits _ (List.getLast_mem nonempty))
  simp only [runsOn, digit, Bool.true_and, Bool.or_eq_false_iff, beq_eq_false_iff_ne] at last
  exact last.1

theorem settles_intLiteral (digits : ∀ x ∈ w, x.isDigit = true) (nonempty : w ≠ [])
    (next : c.rest = w ++ rest) (apart : Apart w rest) :
    grammar.Settles false (Rule.body .intLiteral) c (.matched [] (c.past w rest)) := by
  cases w with
  | nil => exact absurd rfl nonempty
  | cons x xs =>
      obtain ⟨first, others⟩ := List.forall_mem_cons.mp digits
      exact settles_decimal first (fun y member => .inl (others y member)) next fun y follows =>
        stops_decimal (apart_of_digits digits nonempty apart y follows).1

theorem settles_floatLiteral_refused (digits : ∀ x ∈ w, x.isDigit = true) (nonempty : w ≠ [])
    (next : c.rest = w ++ rest)
    (ends : ∀ x ∈ rest.head?, x.isDigit = false ∧ x ≠ '.' ∧ x ≠ 'e' ∧ x ≠ 'E') :
    grammar.Settles false (Rule.body .floatLiteral) c .refused := by
  have mantissa : grammar.Settles false (Peg.plus (.char Rule.isDigit)) c
      (.matched [] (c.past w rest)) := by
    cases w with
    | nil => exact absurd rfl nonempty
    | cons x xs =>
        exact Grammar.settles_char_chars (digits x List.mem_cons_self)
          (fun y member => digits y (List.mem_cons_of_mem _ member)) (fun y follows => (ends y follows).1) next
  refine .seq_joined mantissa (.altSecond (.seqRefused ?_) (.seqRefused ?_))
  · refine Grammar.settles_word_refused ?_
    rintro ⟨more, split⟩
    have follows : rest = '.' :: more := split.symm
    exact (ends '.' (by simp [follows])).2.1 rfl
  · refine Grammar.settles_char_refused fun x first => ?_
    obtain ⟨-, -, other⟩ := ends x first
    simpa using other

theorem int64Text_digits (positive : 0 ≤ n.toInt) :
    (∀ x ∈ (int64Text n).toList, x.isDigit = true) ∧ (int64Text n).toList ≠ [] := by
  rw [int64Text_toList positive]
  exact ⟨fun x member => Numeral.isDigit_of_decimal member, Numeral.ofNat_ne_nil 10 _⟩

theorem reads_int (positive : 0 ≤ n.toInt) :
    Reads (.rule .intLiteral) (int64Text n :: left)
      [.leaf .intLiteral .nowhere (int64Text n).toList] left := by
  obtain ⟨digits, nonempty⟩ := int64Text_digits positive
  exact reads_token rfl fun c rest next apart =>
    settles_intLiteral digits nonempty next apart

theorem declines_float (positive : 0 ≤ n.toInt) :
    Declines (.rule .floatLiteral) (int64Text n :: left) := by
  obtain ⟨digits, nonempty⟩ := int64Text_digits positive
  refine declines_token rfl fun c stands => ?_
  obtain ⟨rest, next, _, apart, _⟩ := stands.cons
  refine settles_floatLiteral_refused digits nonempty next fun x follows => ?_
  obtain ⟨other, point⟩ := apart_of_digits digits nonempty apart x follows
  refine ⟨?_, point, ?_, ?_⟩
  · by_contra digit
    rw [isWordChar_of_digit (Bool.of_not_eq_false digit)] at other
    cases other
  · rintro rfl
    cases other
  · rintro rfl
    cases other

theorem declines_of_digits {r : Rule} {t : String} (digits : ∀ x ∈ t.toList, x.isDigit = true)
    (keyword : wordsOf r ≠ [])
    (others : ∀ s ∈ wordsOf r, s.toList.all (·.isDigit) = false) :
    Declines (.rule r) (t :: left) := by
  have whole : firstWord (t :: left) = t.toList := by
    have word := leading_append_of_word (x := [])
      (fun x member => isWordChar_of_digit (digits x member)) nofun
    rwa [List.append_nil] at word
  have absent : t.toList ∉ (wordsOf r).map String.toList := by
    intro member
    obtain ⟨s, spelling, same⟩ := List.mem_map.mp member
    have all : s.toList.all (·.isDigit) = true :=
      List.all_eq_true.mpr fun x inside => digits x (same ▸ inside)
    exact Bool.false_ne_true ((others s spelling).symm.trans all)
  rw [← whole] at absent
  exact declines_word (refusesWord_of_absent keyword absent)

end Numbers

section Texts

variable {w rest : List Char} {c : Cursor} {spaced : Bool} {left : List String} {s : String}

/-- A character of a text, or a backslash and the character that it escapes. -/
def insidePart : Part :=
  .alt (.seq (Peg.word "\\") (.char fun _ => true))
    (.seq (.unless (Peg.words ["\"", "\\"])) (.char fun _ => true))

theorem settles_escape {x : Char} (next : c.rest = '\\' :: x :: rest) :
    grammar.Settles false insidePart c (.matched [] (c.past ['\\', x] rest)) := by
  have backslash : grammar.Settles false (Peg.word "\\") c (.matched [] (c.past ['\\'] (x :: rest))) :=
    Grammar.settles_word next
  have escaped : grammar.Settles false (.char fun _ => true) (c.past ['\\'] (x :: rest))
      (.matched [] ((c.past ['\\'] (x :: rest)).past [x] rest)) := Grammar.settles_char rfl rfl
  rw [Cursor.past_past] at escaped
  exact .altFirst (.seq_joined backslash escaped)

theorem settles_plain {x : Char} (next : c.rest = x :: rest) (plain : x ≠ '\\' ∧ x ≠ '"') :
    grammar.Settles false insidePart c (.matched [] (c.past [x] rest)) := by
  have others (r : List Char) (mark : Char) (begins : r = [mark]) (other : x ≠ mark) :
      ¬ r <+: c.rest := by
    rintro ⟨more, split⟩
    rw [next, begins] at split
    exact other (List.cons.inj split).1.symm
  have noBackslash := others ['\\'] '\\' rfl plain.1
  have noQuote := others ['"'] '"' rfl plain.2
  refine .altSecond (.seqRefused (Grammar.settles_word_refused noBackslash)) ?_
  refine .seq_joined (.absent (Grammar.settles_words_refused ?_)) (.char next rfl)
  intro r member
  simp only [List.mem_cons, List.not_mem_nil, or_false] at member
  rcases member with rfl | rfl
  · exact noQuote
  · exact noBackslash

theorem settles_quote_refused (next : c.rest = '"' :: rest) :
    grammar.Settles false insidePart c .refused := by
  have noBackslash : ¬ ['\\'] <+: c.rest := by
    rintro ⟨more, split⟩
    rw [next] at split
    cases (List.cons.inj split).1
  have quote : grammar.Settles false (Peg.words ["\"", "\\"]) c (.matched [] (c.past ['"'] rest)) :=
    .altFirst (Grammar.settles_word next)
  exact .altSecond (.seqRefused (Grammar.settles_word_refused noBackslash))
    (.seqRefused (.present quote))

theorem settles_inside (inside : Quoted.isInside w = true) (next : c.rest = w ++ '"' :: rest) :
    grammar.Settles false (Rule.body .stringInner) c (.matched [] (c.past w ('"' :: rest))) := by
  refine Grammar.Settles.star_of_more ?_
  fun_induction Quoted.isInside w generalizing c with
  | case1 =>
      rw [List.nil_append] at next
      rw [Cursor.past_nil next]
      exact .moreNone (settles_quote_refused next)
  | case2 x cs ih =>
      have others := ih (c := c.past ['\\', x] (cs ++ '"' :: rest)) inside rfl
      rw [Cursor.past_past] at others
      exact .more (settles_escape next) others
  | case3 x cs _ ih =>
      simp only [Bool.and_eq_true, bne_iff_ne] at inside
      have others := ih (c := c.past [x] (cs ++ '"' :: rest)) inside.2 rfl
      rw [Cursor.past_past] at others
      exact .more (settles_plain next inside.1) others

theorem settles_string (inside : Quoted.isInside w = true)
    (next : c.rest = '"' :: (w ++ '"' :: rest)) :
    grammar.Settles spaced (.rule .stringLiteral) c
      (.matched [.node .stringLiteral (c.spanTo (c.past ('"' :: (w ++ ['"'])) rest))
          [.leaf .stringInner ⟨c.offset + 1, c.offset + 1 + byteLength w⟩ w]]
        (c.past ('"' :: (w ++ ['"'])) rest)) := by
  let start := c.past ['"'] (w ++ '"' :: rest)
  let stop := start.past w ('"' :: rest)
  have opening : grammar.Settles false (Peg.word "\"") c (.matched [] start) :=
    Grammar.settles_word next
  have inner : grammar.Settles false (.rule .stringInner) start
      (.matched [.leaf .stringInner (start.spanTo stop) (start.textUpTo stop)] stop) :=
    Grammar.settles_token rfl (settles_inside inside rfl)
  have closing : grammar.Settles false (Peg.word "\"") stop (.matched [] (stop.past ['"'] rest)) :=
    Grammar.settles_word rfl
  have text : start.textUpTo stop = w := (Cursor.past_reads rfl).textUpTo
  have place : start.spanTo stop = ⟨c.offset + 1, c.offset + 1 + byteLength w⟩ := rfl
  have behind : stop.past ['"'] rest = c.past ('"' :: (w ++ ['"'])) rest := by
    rw [Cursor.past_past, Cursor.past_past]
    rfl
  rw [text, place] at inner
  rw [behind] at closing
  have whole : grammar.Settles spaced (.rule .stringLiteral) c _ :=
    .rule (.seq_joined opening (.seq_joined inner closing))
  exact whole

theorem quote_toList (s : String) :
    (Quoted.quote s).toList = '"' :: (Quoted.escape s.toList ++ ['"']) := by
  simp [Quoted.quote]

theorem reads_string :
    Reads (.rule .stringLiteral) (Quoted.quote s :: left)
      [.node .stringLiteral .nowhere [.leaf .stringInner .nowhere (Quoted.escape s.toList)]] left := by
  intro c stands
  obtain ⟨rest, next, _, _, laid⟩ := stands.cons
  rw [quote_toList, List.cons_append, List.append_assoc] at next
  exact ⟨_, _, settles_string (Quoted.isInside_escape s.toList) next, rfl, laid⟩

theorem isDigit_of_start {x : Char} (start : Rule.isWordStart x = true) : Rule.isDigit x = false := by
  by_contra other
  have digit : (decide ('0'.val ≤ x.val) && decide (x.val ≤ '9'.val)) = true :=
    Bool.of_not_eq_false other
  have letter : (decide ('A'.val ≤ x.val ∧ x.val ≤ 'Z'.val)
      || (decide ('a'.val ≤ x.val) && decide (x.val ≤ 'z'.val)) || x == '_') = true := start
  simp only [UInt32.le_iff_toNat_le, Bool.and_eq_true, Bool.or_eq_true, decide_eq_true_eq,
    beq_iff_eq] at digit letter
  rcases letter with letter | rfl
  · have codes : '0'.toNat = 48 ∧ '9'.toNat = 57 ∧ 'A'.toNat = 65 ∧ 'Z'.toNat = 90
        ∧ 'a'.toNat = 97 ∧ 'z'.toNat = 122 := by decide
    simp only [Char.toNat] at codes
    omega
  · simp at digit

theorem declines_of_isWord {t : String} (word : isWord t.toList = true) :
    ∀ r ∈ [Rule.floatLiteral, .intLiteral, .stringLiteral, .mapLiteral, .arrayLiteral],
      Declines (.rule r) (t :: left) := by
  intro r member c stands
  obtain ⟨rest, next, _⟩ := stands.cons
  obtain ⟨x, xs, next, start⟩ : ∃ x xs, c.rest = x :: xs ∧ Rule.isWordStart x = true := by
    cases text : t.toList with
    | nil => simp [text, isWord] at word
    | cons x xs =>
        rw [text] at word next
        simp only [isWord, Bool.and_eq_true] at word
        exact ⟨x, xs ++ rest, next, word.1⟩
  have noDigit : grammar.Settles false (.char Rule.isDigit) c .refused := by
    refine Grammar.settles_char_refused fun y first => ?_
    rw [next] at first
    cases first
    exact isDigit_of_start start
  have noText (spaced : Bool) (m : Char) (ms : List Char) (other : Rule.isWordStart m = false) :
      grammar.Settles spaced (.text (m :: ms)) c .refused := by
    refine Grammar.settles_word_refused ?_
    rintro ⟨more, split⟩
    rw [next] at split
    rw [(List.cons.inj split).1, start] at other
    cases other
  have noMarks (a b : List Char) (rest : Part) : grammar.Settles false
      (.seq (.alt (.text ('0' :: a)) (.text ('0' :: b))) rest) c .refused :=
    .seqRefused (.altSecond (noText false '0' a rfl) (noText false '0' b rfl))
  apply Grammar.settles_rule_refused
  simp only [List.mem_cons, List.not_mem_nil, or_false] at member
  rcases member with rfl | rfl | rfl | rfl | rfl
  · exact .seqRefused (.seqRefused noDigit)
  · exact .altSecond (noMarks _ _ _) (.altSecond (noMarks _ _ _) (.seqRefused noDigit))
  · exact .seqRefused (noText false '"' [] rfl)
  · exact .seqRefused (noText true '{' [] rfl)
  · exact .seqRefused (noText true '[' [] rfl)

end Texts

end Dil.Reading
