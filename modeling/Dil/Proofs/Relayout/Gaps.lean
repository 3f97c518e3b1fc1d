import Dil.Proofs.Peg.Gaps
import Dil.Proofs.Peg.Shape
import Dil.Proofs.Relayout.Twins

namespace Dil

def gapsIn (r : Rule) (source : String) : List Cursor :=
  grammar.gaps (stepLimit source) true (.rule r) (.ofSource source)

namespace Relayout

open Layout (Quiet behind isBlank)
open Rule (Part)

def paired : Part → Bool
  | .nothing | .endOfInput | .char _ | .ahead _ | .unless _ => true
  | .text word => word != ['/']
  | .rule r => r != .binaryOp
  | .seq (.rule .binaryOp) (.rule .prefixExpr) => true
  | .seq a b => paired a && paired b
  | .alt a b => paired a && paired b
  | .opt a | .star a | .more a => paired a

theorem paired_body {r : Rule} (other : r ≠ .binaryOp) : paired (Rule.body r) = true := by
  cases r <;> first | decide | exact absurd rfl other

theorem paired_seq {a b : Part} (pairs : paired (.seq a b) = true) :
    (a = .rule .binaryOp ∧ b = .rule .prefixExpr) ∨ (paired a = true ∧ paired b = true) := by
  unfold paired at pairs
  split at pairs <;> simp_all

section Tokens

variable {spaced : Bool} {c d : Cursor} {ts : List (Tree Rule)} {g y : List Char}

theorem matched_text {w : List Char} (settles : grammar.Settles spaced (.text w) c (.matched ts d)) :
    c.rest = w ++ d.rest := by
  cases settles with
  | text next => exact (Cursor.read?_eq_some_iff.mp next).rest

theorem matched_char {accepts : Char → Bool}
    (settles : grammar.Settles spaced (.char accepts) c (.matched ts d)) :
    ∃ x, accepts x = true ∧ c.rest = x :: d.rest := by
  cases settles with
  | char next accepted => exact ⟨_, accepted, next⟩

theorem matched_words {ss : List String}
    (settles : grammar.Settles spaced (Peg.words ss) c (.matched ts d)) :
    ∃ s ∈ ss, c.rest = s.toList ++ d.rest := by
  induction ss with
  | nil =>
      cases settles with
      | absent nothing => cases nothing
  | cons s ss ih =>
      cases ss with
      | nil => exact ⟨s, List.mem_singleton_self s, matched_text settles⟩
      | cons r rs =>
          cases settles with
          | altFirst first => exact ⟨s, List.mem_cons_self, matched_text first⟩
          | altSecond _ second =>
              obtain ⟨q, member, read⟩ := ih second
              exact ⟨q, List.mem_cons_of_mem _ member, read⟩

theorem matched_symbol (settles : grammar.Settles false (Rule.body .binaryOp) c (.matched ts d)) :
    ∃ op : BinaryOp, c.rest = op.symbol.toList ++ d.rest := by
  have among (ss : List String) (known : ∀ s ∈ ss, ∃ op ∈ BinaryOp.inOrder, op.symbol = s)
      (read : ∃ s ∈ ss, c.rest = s.toList ++ d.rest) :
      ∃ op : BinaryOp, c.rest = op.symbol.toList ++ d.rest := by
    obtain ⟨s, member, split⟩ := read
    obtain ⟨op, -, rfl⟩ := known s member
    exact ⟨op, split⟩
  cases settles with
  | altFirst first => exact among _ (by decide) (matched_words first)
  | altSecond _ second =>
      cases second with
      | altFirst first =>
          obtain ⟨_, e, _, minus, other, _⟩ := first.matched_seq
          cases other
          exact ⟨.sub, matched_text minus⟩
      | altSecond _ third => exact among _ (by decide) (matched_words third)

theorem matched_operator (settles : grammar.Settles spaced (.rule .binaryOp) c (.matched ts d)) :
    ∃ w, c.rest = w ++ d.rest ∧ (w.all isPlain = true ∨ w = ['/']) := by
  obtain ⟨us, _, inner⟩ := settles.matched_body
  obtain ⟨op, split⟩ := matched_symbol inner
  refine ⟨_, split, ?_⟩
  cases op <;> decide

theorem matched_insidePart (settles : grammar.Settles false Reading.insidePart c (.matched ts d)) :
    (∃ x, c.rest = '\\' :: x :: d.rest) ∨
    ∃ x, (x ≠ '\\' ∧ x ≠ '"') ∧ c.rest = x :: d.rest := by
  cases settles with
  | altFirst first =>
      obtain ⟨_, e, _, backslash, escaped, _⟩ := first.matched_seq
      obtain ⟨x, _, next⟩ := matched_char escaped
      refine .inl ⟨x, ?_⟩
      rw [matched_text backslash]
      exact congrArg ('\\' :: ·) next
  | altSecond _ second =>
      obtain ⟨_, e, _, plain, any, _⟩ := second.matched_seq
      obtain ⟨x, _, next⟩ := matched_char any
      cases plain with
      | absent neither =>
          refine .inr ⟨x, ?_, next⟩
          have differs {m : Char} (settles : grammar.Settles false (.text [m]) c .refused) : x ≠ m := by
            rintro rfl
            have read : grammar.Settles false (.text [x]) c _ := Grammar.settles_word next
            cases settles.unique read
          cases neither with
          | altSecond quote backslash => exact ⟨differs backslash, differs quote⟩

theorem matched_inside {p : Part} (settles : grammar.Settles false p c (.matched ts d))
    (inside : p = .more Reading.insidePart) :
    ∃ s, Quoted.isInside s = true ∧ c.rest = s ++ d.rest := by
  generalize layout : false = spaced at settles
  generalize verdict : Verdict.matched ts d = v at settles
  induction settles generalizing ts d with
  | more first _ _ ih =>
      cases inside
      subst layout
      obtain ⟨us, rfl, _⟩ := Verdict.of_after_matched verdict.symm
      obtain ⟨s, closed, read⟩ := ih rfl rfl rfl
      rcases matched_insidePart first with ⟨x, next⟩ | ⟨x, plain, next⟩
      · exact ⟨'\\' :: x :: s, by simpa [Quoted.isInside] using closed, next.trans (by rw [read]; rfl)⟩
      · exact ⟨x :: s, Quoted.isInside_plain (w := [x]) (by simpa using plain) closed,
          next.trans (by rw [read]; rfl)⟩
  | moreNone =>
      cases verdict
      exact ⟨[], rfl, rfl⟩
  | _ => cases inside

theorem more_of_star {a : Part} {v : Verdict Rule} (settles : grammar.Settles false (.star a) c v) :
    grammar.Settles false (.more a) c v := by
  cases settles with
  | star first others => exact .more first others
  | starNone first => exact .moreNone first

theorem matched_string (settles : grammar.Settles spaced (.rule .stringLiteral) c (.matched ts d)) :
    ∃ s, Quoted.isInside s = true ∧ c.rest = '"' :: (s ++ '"' :: d.rest) := by
  obtain ⟨_, _, inner⟩ := settles.matched_body
  obtain ⟨_, e, _, opening, others, _⟩ := inner.matched_seq
  obtain ⟨_, f, _, text, closing, _⟩ := others.matched_seq
  obtain ⟨_, _, star⟩ := text.matched_body
  obtain ⟨s, closed, read⟩ : ∃ s, Quoted.isInside s = true ∧ e.rest = s ++ f.rest :=
    matched_inside (more_of_star star) rfl
  refine ⟨s, closed, ?_⟩
  have last : f.rest = '"' :: d.rest := matched_text closing
  rw [matched_text opening, read, last]
  rfl

theorem skip_of_behind (still : behind c.rest = c.rest) : Layout.skip c = c := by
  obtain ⟨s, reads⟩ := Layout.skip_reads c
  have rest := Layout.skip_rest c
  rw [still] at rest
  have nothing : s = [] := by
    have split := reads.rest
    rw [rest] at split
    exact List.append_left_eq_self.mp split.symm
  have offset := reads.offset
  rw [nothing] at offset
  cases skipped : Layout.skip c
  cases c
  simp_all [byteLength]

theorem operand_ahead (settles : grammar.Settles true (.rule .prefixExpr) (Layout.skip d) (.matched ts c)) :
    d.rest.head? ≠ some '*' := by
  intro star
  obtain ⟨cs, next⟩ := List.head?_eq_some_iff.mp star
  have unblank : behind ('*' :: cs) = '*' :: cs := Layout.behind_unblank cs rfl (by decide)
  have still : Layout.skip d = d := skip_of_behind (by rw [next, unblank])
  rw [still] at settles
  have refused := Reading.glance_holds still Reading.glanceDepth (.rule .prefixExpr) true
  have noWord : Reading.leading d.rest = [] := by rw [next]; rfl
  rw [noWord, star] at refused
  cases settles.unique refused

end Tokens

/-- The text leads to `g` outside of comments and quotes. -/
def Clear (g t : List Char) : Prop := ∃ x, Quiet g x ∧ t = x ++ g

/-- A property of texts that does not depend on what a reader has behind it: a layout, a character of
its own, a quoted text. -/
structure Backward (C : List Char → Prop) : Prop where
  layout {t : List Char} (later : C (behind t)) : C t
  plain {c : Char} {t : List Char} (unblank : isBlank c = false) (other : c ≠ '/' ∧ c ≠ '"')
    (later : C t) : C (c :: t)
  slash {t : List Char} (alone : ∀ d ∈ t.head?, d ≠ '/' ∧ d ≠ '*') (later : C t) : C ('/' :: t)
  quoted {w t : List Char} (inside : Quoted.isInside w = true) (later : C t) :
    C ('"' :: (w ++ '"' :: t))

section Clear

variable {spaced still : Bool} {p : Part} {c d : Cursor} {ts : List (Tree Rule)} {g t w : List Char}
  {v : Verdict Rule} {C : List Char → Prop}

theorem clear_refl (g : List Char) : Clear g g := ⟨[], .nil, rfl⟩

theorem Clear.ne_nil (clear : Clear g t) (left : g ≠ []) : t ≠ [] := by
  obtain ⟨x, _, rfl⟩ := clear
  simp [left]

theorem clear_backward (left : g ≠ []) : Backward (Clear g) where
  layout clear := by
    obtain ⟨l, run, split⟩ := Layout.run_of_behind (clear.ne_nil left)
    obtain ⟨x, quiet, same⟩ := clear
    exact ⟨l ++ x, quiet.run run, by rw [split, same, List.append_assoc]⟩
  plain unblank other := fun ⟨x, quiet, same⟩ =>
    ⟨_ :: x, .plain unblank other quiet, congrArg (_ :: ·) same⟩
  slash alone := by
    rintro ⟨x, quiet, rfl⟩
    exact ⟨'/' :: x, .slash alone quiet, rfl⟩
  quoted inside := by
    rintro ⟨x, quiet, rfl⟩
    exact ⟨_, .quoted inside quiet, by simp⟩

theorem Backward.skipIf (back : Backward C) (later : C (grammar.skipIf spaced c).rest) :
    C c.rest := by
  cases spaced with
  | false => exact later
  | true =>
      have skipped : (grammar.skipIf true c).rest = behind c.rest := Layout.skip_rest c
      rw [skipped] at later
      exact back.layout later

theorem Backward.word (back : Backward C) (later : C t) (plain : w.all isPlain = true) :
    C (w ++ t) := by
  induction w with
  | nil => exact later
  | cons c w ih =>
      simp only [List.all_cons, Bool.and_eq_true] at plain
      have here := plain.1
      simp only [isPlain, Bool.and_eq_true, Bool.not_eq_true', bne_iff_ne, ne_eq] at here
      exact back.plain here.1.1 ⟨here.1.2, here.2⟩ (ih plain.2)

theorem line_moves (cs : List Char) : behind ('/' :: '/' :: cs) ≠ '/' :: '/' :: cs := by
  intro still
  obtain ⟨s, reads⟩ := Layout.scan_reads .line cs 2 ⟨cs, 2⟩ (.refl _) (by simp)
  have read : behind ('/' :: '/' :: cs) = (Layout.scan .line cs 2).rest := by
    simp [behind, Layout.skip, Layout.scan, isBlank]
  have split := congrArg List.length reads.rest
  rw [← read, still] at split
  simp at split
  omega

theorem Backward.operator (back : Backward C) (later : C d.rest)
    (settles : grammar.Settles spaced (.rule .binaryOp) c (.matched ts d))
    (settled : behind c.rest = c.rest) (star : d.rest.head? ≠ some '*') : C c.rest := by
  obtain ⟨w, read, plain | rfl⟩ := matched_operator settles
  · rw [read]
    exact back.word later plain
  · have slash : c.rest = '/' :: d.rest := read
    rw [slash] at settled ⊢
    refine back.slash (fun e next => ⟨?_, ?_⟩) later
    · rintro rfl
      obtain ⟨cs, rest⟩ := List.head?_eq_some_iff.mp next
      rw [rest] at settled
      exact line_moves cs settled
    · rintro rfl
      exact star next

theorem settled_skipIf (c : Cursor) :
    spaced = true → behind (grammar.skipIf spaced c).rest = (grammar.skipIf spaced c).rest := by
  rintro rfl
  have skipped : (grammar.skipIf true c).rest = behind c.rest := Layout.skip_rest c
  rw [skipped, Layout.behind_behind]

theorem Backward.before (back : Backward C) (settles : grammar.Settles spaced p c (.matched ts d))
    (fit : shy spaced still p = true) (pairs : paired p = true)
    (settled : still = true → behind c.rest = c.rest) (later : C d.rest) : C c.rest := by
  generalize verdict : Verdict.matched ts d = v at settles
  induction settles generalizing still ts d with
  | nothing | atEnd | optNone | starNone | moreNone | ahead | absent =>
      cases verdict
      exact later
  | beforeEnd | charRefused | textRefused | seqRefused | aheadRefused | present => cases verdict
  | @char _ _ _ x _ next accepted =>
      cases verdict
      rw [next]
      exact back.word (w := [x]) later (by simp [plain_of_accepted fit accepted])
  | @text _ word c d next =>
      cases verdict
      simp only [paired, bne_iff_ne, ne_eq] at pairs
      simp only [shy, Bool.or_eq_true, Bool.and_eq_true, beq_iff_eq, pairs, and_false, or_false] at fit
      rw [(Cursor.read?_eq_some_iff.mp next).rest]
      exact back.word later fit
  | @rule spaced r c v inner ih =>
      by_cases quoted : r = .stringLiteral
      · subst quoted
        have whole : grammar.Settles spaced (.rule .stringLiteral) c _ := .rule inner
        rw [← verdict] at whole
        obtain ⟨s, inside, read⟩ := matched_string whole
        rw [read]
        exact back.quoted inside later
      · obtain ⟨us, rfl⟩ := Verdict.of_gather_matched verdict.symm
        exact ih (shy_inside fit quoted) (paired_body (by simpa [paired] using pairs)) settled later rfl
  | @seq spaced a b c e us v first second ihA ihB =>
      obtain ⟨vs, rfl, rfl⟩ := Verdict.of_after_matched verdict.symm
      simp only [shy, Bool.and_eq_true] at fit
      rcases paired_seq pairs with ⟨rfl, rfl⟩ | ⟨pairsA, pairsB⟩
      -- The operator may be a slash, but it opens no comment since an operand comes next.
      · have operand := ihB fit.2 rfl (settled_skipIf e) later rfl
        have operator := fit.1
        simp only [shy, Bool.and_eq_true] at operator fit
        obtain rfl := fit.2.1.1
        exact back.operator (back.skipIf operand) first (settled operator.1.1) (operand_ahead second)
      · have second := ihB fit.2 pairsB (settled_skipIf e) later rfl
        exact ihA fit.1 pairsA settled (back.skipIf second) rfl
  | altFirst _ ih =>
      simp only [shy, paired, Bool.and_eq_true] at fit pairs
      exact ih fit.1 pairs.1 settled later verdict
  | altSecond _ _ _ ih =>
      simp only [shy, paired, Bool.and_eq_true] at fit pairs
      exact ih fit.2 pairs.2 settled later verdict
  | opt _ ih => exact ih fit pairs settled later verdict
  | @star spaced a _ _ _ _ _ _ ihA ihB =>
      obtain ⟨vs, rfl, rfl⟩ := Verdict.of_after_matched verdict.symm
      simp only [shy, Bool.and_eq_true] at fit
      have fits : shy spaced false (.more a) = true := fit.2
      exact ihA fit.1 pairs settled (ihB fits pairs Bool.false_ne_true.elim later rfl) rfl
  | @more spaced a c _ _ _ _ _ ihA ihB =>
      obtain ⟨vs, rfl, rfl⟩ := Verdict.of_after_matched verdict.symm
      have fits : shy spaced false (.more a) = true := fit
      have others := ihB fits pairs Bool.false_ne_true.elim later rfl
      exact back.skipIf (ihA fit pairs (settled_skipIf c) others rfl)

theorem star_of_gap (gap : behind g ≠ g) : g.head? ≠ some '*' := by
  intro star
  obtain ⟨cs, rfl⟩ := List.head?_eq_some_iff.mp star
  exact gap (Layout.behind_unblank cs rfl (by decide))

theorem ne_nil_of_gap (gap : behind g ≠ g) : g ≠ [] := by
  rintro rfl
  exact gap rfl

/-- From the start of a match to a gap in it, all comments and quoted texts are closed. -/
theorem clear_before_gap (skips : grammar.Skips d spaced p c) (fit : shy spaced still p = true)
    (pairs : paired p = true) (settled : still = true → behind c.rest = c.rest)
    (gap : behind d.rest ≠ d.rest) : Clear d.rest c.rest := by
  have back := clear_backward (ne_nil_of_gap gap)
  induction skips generalizing still with
  | @rule spaced r c inner ih =>
      have unquoted : r ≠ .stringLiteral := by
        rintro rfl
        cases Grammar.spaced_of_skips inner
      exact ih (shy_inside fit unquoted) (paired_body (by simpa [paired] using pairs)) settled
  | seqFirst inner ih =>
      simp only [shy, Bool.and_eq_true] at fit
      rcases paired_seq pairs with ⟨rfl, rfl⟩ | ⟨pairsA, _⟩
      · cases Grammar.kind_of_skips inner
      · exact ih fit.1 pairsA settled
  | @seqBetween a b c ts first =>
      simp only [shy, Bool.and_eq_true] at fit
      rcases paired_seq pairs with ⟨rfl, rfl⟩ | ⟨pairsA, _⟩
      · exact back.operator (clear_refl _) first (settled (still_of_shy fit.1)) (star_of_gap gap)
      · exact back.before first fit.1 pairsA settled (clear_refl _)
  | @seqSecond spaced a b c e f ts us first second inner ih =>
      obtain rfl := Grammar.spaced_of_skips inner
      simp only [shy, Bool.and_eq_true] at fit
      rcases paired_seq pairs with ⟨rfl, rfl⟩ | ⟨pairsA, pairsB⟩
      · have clear := back.skipIf (ih fit.2 rfl (settled_skipIf e))
        exact back.operator clear first (settled (still_of_shy fit.1)) (operand_ahead second)
      · have clear := back.skipIf (ih fit.2 pairsB (settled_skipIf e))
        exact back.before first fit.1 pairsA settled clear
  | altFirst _ ih =>
      simp only [shy, paired, Bool.and_eq_true] at fit pairs
      exact ih fit.1 pairs.1 settled
  | altSecond _ ih =>
      simp only [shy, paired, Bool.and_eq_true] at fit pairs
      exact ih fit.2 pairs.2 settled
  | opt _ ih => exact ih fit pairs settled
  | starFirst _ ih =>
      simp only [shy, Bool.and_eq_true] at fit
      exact ih fit.1 pairs settled
  | @starLater spaced a c e ts first _ ih =>
      simp only [shy, Bool.and_eq_true] at fit
      have fits : shy spaced false (.more a) = true := fit.2
      have clear := ih fits pairs Bool.false_ne_true.elim
      exact back.before first fit.1 pairs settled clear
  | moreBefore => exact clear_refl _
  | @moreFirst spaced a c _ ih => exact back.skipIf (ih fit pairs (settled_skipIf c))
  | @moreLater spaced a c e ts first _ ih =>
      have fits : shy spaced false (.more a) = true := fit
      have clear := ih fits pairs Bool.false_ne_true.elim
      exact back.skipIf (back.before first fit pairs (settled_skipIf c) clear)

end Clear

end Relayout

end Dil
