import Dil.Proofs.Seam.Follow
import Dil.Proofs.Slice.Cuts

/-!
Tokens before a cut. What reads a token looks a little ahead: where the whole goes on behind the cut, the
part has nothing. So a part of a token has to be read there as before, and what was refused before it has to
be refused still.
-/

namespace Dil.Slice

open Cursor (Cut)
open Reading (leading behindWord)
open Rule (Part spellings wholeWord)

variable {z : List Char} {n : Nat} {c c' d e : Cursor} {ts : List (Tree Rule)} {a b p : Part}

/-- What it reads before a cut it reads on the other side. -/
def Keeps (p : Part) : Prop :=
  ∀ ⦃z n c c' d ts⦄, Cut z n c c' → grammar.Settles false p c (.matched ts d) → z.length ≤ d.rest.length →
    ∃ us d', grammar.Settles false p c' (.matched us d') ∧ Cut z n d d'

def Misses (p : Part) : Prop :=
  ∀ ⦃z n c c'⦄, Cut z n c c' → grammar.Settles false p c .refused → grammar.Settles false p c' .refused

/-- If it reads anything on the other side, the same is read here. -/
def Fixed (p : Part) : Prop :=
  ∀ ⦃z n c c'⦄, Cut z n c c' → grammar.Settles false p c' .refused ∨
    ∃ us d', grammar.Settles false p c' (.matched us d') ∧
      ∀ ts d, grammar.Settles false p c (.matched ts d) → Cut z n d d'

def Always (p : Part) : Prop := ∀ {c : Cursor}, ¬ grammar.Settles false p c .refused

theorem within_of_settles {spaced : Bool} (settles : grammar.Settles spaced p e (.matched ts d))
    (within : z.length ≤ d.rest.length) : z.length ≤ e.rest.length := by
  have shorter := grammar_bounded.length_le settles
  omega

theorem past_of_reads {s : List Char} (reads : c.Reads s d) : c.past s d.rest = d := by
  rw [Cursor.past, ← reads.offset]

theorem settles_char_of_reads {spaced : Bool} {accepts : Char → Bool} {x : Char} (accepted : accepts x = true)
    (reads : c.Reads [x] d) : grammar.Settles spaced (.char accepts) c (.matched [] d) :=
  past_of_reads reads ▸ .char reads.rest accepted

theorem keeps_char (accepts : Char → Bool) : Keeps (.char accepts) := by
  intro z n c c' d ts cut settles within
  cases settles with
  | char next accepted =>
      obtain ⟨d', reads, cut'⟩ := cut.reads (Cursor.past_reads next) within
      exact ⟨[], d', settles_char_of_reads accepted reads, cut'⟩

theorem misses_char (accepts : Char → Bool) : Misses (.char accepts) := by
  intro z n c c' cut refused
  cases refused with
  | charRefused other =>
      refine .charRefused fun x xs next => other x (xs ++ z) ?_
      rw [cut.rest, next]
      rfl

theorem fixed_char (accepts : Char → Bool) : Fixed (.char accepts) := by
  intro z n c c' cut
  cases next : c'.rest with
  | nil => exact .inl (.charRefused fun x xs some => nomatch next.symm.trans some)
  | cons x xs =>
      have whole : c.rest = [x] ++ (xs ++ z) := by rw [cut.rest, next]; rfl
      by_cases accepted : accepts x = true
      · refine .inr ⟨[], _, .char next accepted, fun ts d settles => ?_⟩
        cases settles.unique (.char whole accepted)
        exact cut.behind (Cursor.past_reads whole) (Cursor.past_reads next)
      · refine .inl (.charRefused fun y ys other => ?_)
        cases next.symm.trans other
        simpa using accepted

theorem keeps_text (w : List Char) : Keeps (.text w) := by
  intro z n c c' d ts cut settles within
  cases settles with
  | text next =>
      obtain ⟨d', reads, cut'⟩ := cut.reads (Cursor.read?_eq_some_iff.mp next) within
      exact ⟨[], d', .text (Cursor.read?_eq_some_iff.mpr reads), cut'⟩

theorem begins_of_cut {w : List Char} (cut : Cut z n c c') (begins : w <+: c'.rest) : w <+: c.rest := by
  rw [cut.rest]
  exact begins.trans (List.prefix_append ..)

theorem words_begin {ss : List String} {s : String} (member : s ∈ ss) (begins : s.toList <+: c.rest) :
    ∃ us d, grammar.Settles false (Peg.words ss) c (.matched us d) := by
  have each : ∀ q ∈ ss.map Peg.word, grammar.Settles false q c .refused ∨
      ∃ ts d, grammar.Settles false q c (.matched ts d) := by
    intro q among
    obtain ⟨r, -, rfl⟩ := List.mem_map.mp among
    by_cases ahead : r.toList <+: c.rest
    · obtain ⟨_, next⟩ := ahead
      exact .inr ⟨_, _, Grammar.settles_word next.symm⟩
    · exact .inl (Grammar.settles_word_refused ahead)
  obtain ⟨rest, split⟩ := begins
  exact Grammar.settles_first_some each (List.mem_map_of_mem member) (Grammar.settles_word split.symm)

theorem words_settled (ss : List String) (c : Cursor) :
    grammar.Settles false (Peg.words ss) c .refused ∨
      ∃ s ∈ ss, ∃ us d, grammar.Settles false (Peg.words ss) c (.matched us d) ∧ c.Reads s.toList d := by
  by_cases some : ∃ s ∈ ss, s.toList <+: c.rest
  · obtain ⟨s, member, begins⟩ := some
    obtain ⟨us, d, found⟩ := words_begin member begins
    obtain ⟨r, among, read⟩ := Relayout.matched_words found
    exact .inr ⟨r, among, us, d, found, Seam.reads_of_settles found read⟩
  · push Not at some
    exact .inl (Grammar.settles_words_refused some)

theorem misses_words (ss : List String) : Misses (Peg.words ss) := by
  intro z n c c' cut refused
  rcases words_settled ss c' with refused' | ⟨s, member, -, d', -, reads⟩
  · exact refused'
  · obtain ⟨_, _, found⟩ := words_begin member (begins_of_cut cut ⟨_, reads.rest.symm⟩)
    cases refused.unique found

theorem fixed_words {ss : List String} {k : Nat} (long : ∀ s ∈ ss, s.toList.length = k) :
    Fixed (Peg.words ss) := by
  intro z n c c' cut
  rcases words_settled ss c' with refused | ⟨s, member, us, d', found, reads⟩
  · exact .inl refused
  · refine .inr ⟨us, d', found, fun ts d settles => ?_⟩
    obtain ⟨r, among, read⟩ := Relayout.matched_words settles
    have whole := cut.rest
    rw [read, reads.rest, List.append_assoc] at whole
    have same := (List.append_inj whole (by rw [long r among, long s member])).1
    exact cut.behind (same ▸ Seam.reads_of_settles settles read) reads

theorem keeps_seq (first : Keeps a) (second : Keeps b) : Keeps (.seq a b) := by
  intro z n c c' d ts cut settles within
  obtain ⟨us, e, vs, left, right, rfl⟩ := settles.matched_seq
  obtain ⟨us', e', left', cut'⟩ := first cut left (within_of_settles right within)
  obtain ⟨vs', d', right', cut''⟩ := second cut' right within
  exact ⟨us' ++ vs', d', .seq left' right', cut''⟩

theorem keeps_choice (first : Keeps a) (second : Keeps b)
    (refused : ∀ ⦃z n c c' us d'⦄, Cut z n c c' → grammar.Settles false a c .refused →
      grammar.Settles false b c' (.matched us d') → grammar.Settles false a c' .refused) :
    Keeps (.alt a b) := by
  intro z n c c' d ts cut settles within
  cases settles with
  | altFirst left =>
      obtain ⟨us, d', left', cut'⟩ := first cut left within
      exact ⟨us, d', .altFirst left', cut'⟩
  | altSecond left right =>
      obtain ⟨us, d', right', cut'⟩ := second cut right within
      exact ⟨us, d', .altSecond (refused cut left right') right', cut'⟩

theorem keeps_alt (first : Keeps a) (second : Keeps b) (misses : Misses a) : Keeps (.alt a b) :=
  keeps_choice first second fun _ _ _ _ _ _ cut refused _ => misses cut refused

theorem keeps_words : ∀ ss : List String, Keeps (Peg.words ss)
  | [] => by
      intro z n c c' d ts cut settles within
      cases settles with
      | absent nothing => cases nothing
  | [s] => keeps_text s.toList
  | s :: r :: ss => keeps_alt (keeps_text s.toList) (keeps_words (r :: ss)) (misses_words [s])

theorem keeps_opt (inner : Keeps a) (misses : Misses a) : Keeps (.opt a) := by
  intro z n c c' d ts cut settles within
  cases settles with
  | opt first =>
      obtain ⟨us, d', first', cut'⟩ := inner cut first within
      exact ⟨us, d', .opt first', cut'⟩
  | optNone first => exact ⟨[], c', .optNone (misses cut first), cut⟩

theorem keeps_star (inner : Keeps a) (misses : Misses a) : Keeps (.star a) := by
  intro z n c c' d ts cut settles within
  have further := Relayout.more_of_star settles
  suffices repeated : ∃ us d', grammar.Settles false (.more a) c' (.matched us d') ∧ Cut z n d d' by
    obtain ⟨us, d', others, cut'⟩ := repeated
    exact ⟨us, d', others.star_of_more, cut'⟩
  generalize layout : false = spaced at further
  generalize repetition : Peg.more a = p at further
  generalize verdict : Verdict.matched ts d = v at further
  clear settles
  induction further generalizing c' ts with
  | more first others _ ih =>
      cases repetition
      subst layout
      obtain ⟨vs, rfl, rfl⟩ := Verdict.of_after_matched verdict.symm
      obtain ⟨us, e', first', cut'⟩ := inner cut first (within_of_settles others within)
      obtain ⟨us', d', others', cut''⟩ := ih cut' rfl rfl rfl
      exact ⟨us ++ us', d', .more first' others', cut''⟩
  | moreNone first =>
      cases repetition
      subst layout
      cases verdict
      exact ⟨[], c', .moreNone (misses cut first), cut⟩
  | _ => cases repetition

theorem keeps_unless (misses : Misses a) : Keeps (.unless a) := by
  intro z n c c' d ts cut settles within
  cases settles with
  | absent first => exact ⟨[], c', .absent (misses cut first), cut⟩

theorem misses_seq (first : Misses a) (fixed : Fixed a) (second : Misses b) : Misses (.seq a b) := by
  intro z n c c' cut refused
  rcases refused.refused_seq with left | ⟨_, e, left, right⟩
  · exact .seqRefused (first cut left)
  · rcases fixed cut with left' | ⟨_, e', left', same⟩
    · exact .seqRefused left'
    · exact .seq_joined left' (second (same _ _ left) right)

theorem misses_first (first : Misses a) (always : Always b) : Misses (.seq a b) := by
  intro z n c c' cut refused
  rcases refused.refused_seq with left | ⟨_, e, -, right⟩
  · exact .seqRefused (first cut left)
  · exact absurd right always

theorem always_opt (a : Part) : Always (.opt a) := by
  intro c refused
  cases refused

theorem always_star (a : Part) : Always (.star a) := by
  intro c refused
  have further := Relayout.more_of_star refused
  generalize layout : false = spaced at further
  generalize repetition : Peg.more a = p at further
  generalize verdict : Verdict.refused = v at further
  clear refused
  induction further with
  | @more _ _ _ _ _ v first others _ ih =>
      cases v with
      | refused => exact ih layout repetition rfl
      | matched | unfinished => cases verdict
  | moreNone => cases verdict
  | _ => cases repetition

theorem always_seq (first : Always a) (second : Always b) : Always (.seq a b) := by
  intro c refused
  rcases refused.refused_seq with left | ⟨_, e, -, right⟩
  · exact first left
  · exact second right

theorem keeps_chars (starts accepts : Char → Bool) : Keeps (.seq (.char starts) (.star (.char accepts))) :=
  keeps_seq (keeps_char starts) (keeps_star (keeps_char accepts) (misses_char accepts))

theorem keeps_keyword (ss : List String) : Keeps (Rule.keyword ss) :=
  keeps_seq (keeps_words ss) (keeps_unless (misses_char _))

theorem keeps_digits (marks : List String) (base : Char → Bool) : Keeps (Rule.digits marks base) :=
  keeps_seq (keeps_words marks) (keeps_chars _ _)

theorem misses_digits {marks : List String} {k : Nat} (long : ∀ s ∈ marks, s.toList.length = k)
    (base : Char → Bool) : Misses (Rule.digits marks base) :=
  misses_seq (misses_words marks) (fixed_words long) (misses_first (misses_char base) (always_star _))

theorem keeps_intLiteral : Keeps (Rule.body .intLiteral) :=
  keeps_alt (keeps_digits _ _)
    (keeps_alt (keeps_digits _ _) (keeps_chars _ _) (misses_digits (k := 2) (by decide) _))
    (misses_digits (k := 2) (by decide) _)

theorem misses_signed : Misses (.seq (.opt (Peg.words ["+", "-"])) (Peg.plus (.char Rule.isDigit))) := by
  intro z n c c' cut refused
  rcases refused.refused_seq with never | ⟨_, e, sign, digits⟩
  · exact absurd never (always_opt _)
  by_cases nothing : c'.rest = []
  · have noSign : grammar.Settles false (Peg.words ["+", "-"]) c' .refused := by
      refine Grammar.settles_words_refused fun s member begins => ?_
      rw [nothing, List.prefix_nil] at begins
      revert member begins
      revert s
      decide
    have noDigit : grammar.Settles false (.char Rule.isDigit) c' .refused :=
      .charRefused fun x xs some => nomatch nothing.symm.trans some
    exact .seq_joined (v := .refused) (.optNone noSign) (.seqRefused noDigit)
  · have within : z.length ≤ e.rest.length := by
      have long := List.length_pos_iff.mpr nothing
      have whole := congrArg List.length cut.rest
      rw [List.length_append] at whole
      cases sign with
      | optNone => omega
      | opt found =>
          obtain ⟨s, member, read⟩ := Relayout.matched_words found
          have single : ∀ s ∈ ["+", "-"], s.toList.length = 1 := by decide
          have size := congrArg List.length read
          rw [List.length_append, single s member] at size
          omega
    obtain ⟨_, e', sign', cut'⟩ := keeps_opt (keeps_words _) (misses_words _) cut sign within
    exact .seq_joined (v := .refused) sign' (misses_first (misses_char _) (always_star _) cut' digits)

theorem misses_exponent : Misses Rule.exponent :=
  misses_seq (misses_char _) (fixed_char _) misses_signed

theorem keeps_exponent : Keeps Rule.exponent :=
  keeps_seq (keeps_char _) (keeps_seq (keeps_opt (keeps_words _) (misses_words _)) (keeps_chars _ _))

theorem keeps_floatLiteral : Keeps (Rule.body .floatLiteral) := by
  refine keeps_seq (keeps_chars _ _) (keeps_alt ?_ keeps_exponent ?_)
  · exact keeps_seq (keeps_text _) (keeps_seq (keeps_star (keeps_char _) (misses_char _))
      (keeps_opt keeps_exponent misses_exponent))
  · exact misses_first (misses_words ["."]) (always_seq (always_star _) (always_opt _))

theorem sign_refused_of_words (ss : List String) {x : Char} {xs : List Char} {us : List (Tree Rule)}
    (others : ∀ s ∈ ss, s.toList.head? ≠ some x) (some : ∀ s ∈ ss, s.toList ≠ [])
    (settles : grammar.Settles false (Peg.words ss) c (.matched us d)) :
    grammar.Settles false (.seq (.text (x :: xs)) b) c .refused := by
  obtain ⟨s, member, read⟩ := Relayout.matched_words settles
  have other := others s member
  cases text : s.toList with
  | nil => exact absurd text (some s member)
  | cons y ys =>
      have head : c.rest.head? = .some y := by rw [read, text]; rfl
      rw [text] at other
      exact .seqRefused (Seam.sign_refused head fun same => other (congrArg Option.some same))

theorem keeps_binaryOp : Keeps (Rule.body .binaryOp) := by
  refine keeps_alt (keeps_words _) (keeps_choice ?_ (keeps_words _) ?_) (misses_words _)
  · exact keeps_seq (keeps_text _) (keeps_unless (misses_words [">"]))
  · exact fun _ _ _ _ _ _ _ _ settles => sign_refused_of_words _ (by decide) (by decide) settles

theorem keeps_unaryOp : Keeps (Rule.body .unaryOp) := by
  refine keeps_choice ?_ ?_ ?_
  · exact keeps_seq (keeps_text _) (keeps_unless (misses_words [">"]))
  · exact keeps_seq (keeps_text _) (keeps_unless (misses_words ["="]))
  · intro _ _ _ _ _ _ _ _ settles
    obtain ⟨_, _, _, sign, -⟩ := settles.matched_seq
    exact sign_refused_of_words ["!"] (by decide) (by decide) sign

theorem leading_of_cut (cut : Cut z n c c') (within : z.length ≤ (behindWord c).rest.length) :
    leading c'.rest = leading c.rest ∧ Cut z n (behindWord c) (behindWord c') := by
  obtain ⟨split, ends⟩ := Reading.leading_split c.rest
  have first : c.Reads (leading c.rest) (behindWord c) := Cursor.past_reads split
  obtain ⟨d', second, cut'⟩ := cut.reads first within
  have same : leading c'.rest = leading c.rest := by
    rw [second.rest]
    refine Reading.leading_append_of_word (List.all_eq_true.mp List.all_takeWhile) fun x next => ends x ?_
    have rest : c.rest.dropWhile Rule.isWordChar = d'.rest ++ z := cut'.rest
    rw [rest, List.head?_append, next]
    rfl
  refine ⟨same, ?_⟩
  have word : c'.Reads (leading c'.rest) (behindWord c') := Cursor.past_reads (Reading.leading_split c'.rest).1
  exact cut.behind first (same ▸ word)

theorem keeps_keyIdent : Keeps (Rule.body .keyIdent) := keeps_chars _ _

theorem keeps_identifier : Keeps (Rule.body .identifier) := by
  intro z n c c' d ts cut settles within
  by_cases name : Reading.isName (leading c.rest) = true
  · cases settles.unique (Reading.settles_identifier name)
    obtain ⟨same, cut'⟩ := leading_of_cut cut within
    exact ⟨[], _, Reading.settles_identifier (same ▸ name), cut'⟩
  · cases settles.unique (Reading.settles_identifier_refused (by simpa using name))

theorem keeps_body {r : Rule} (token : Rule.kind r = .token) (other : r ≠ .stringInner) :
    Keeps (Rule.body r) := by
  cases r with
  | typeName => exact keeps_chars _ _
  | binaryOp => exact keeps_binaryOp
  | unaryOp => exact keeps_unaryOp
  | floatLiteral => exact keeps_floatLiteral
  | intLiteral => exact keeps_intLiteral
  | identifier => exact keeps_identifier
  | keyIdent => exact keeps_keyIdent
  | stringInner => exact absurd rfl other
  | _ => first | exact keeps_keyword _ | cases token

end Dil.Slice
