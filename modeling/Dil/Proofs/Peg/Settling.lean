import Dil.Peg.Match

/-!
What a parsing expression settles at a position: a match or a refusal, one rule for each way in
which an operator can end, and no limit on steps. A run that finishes has found what is settled, and
there is only one such thing.
-/

namespace Dil

variable {ρ : Type}

namespace Verdict

variable {v : Verdict ρ}

theorem of_after {ts : List (Tree ρ)} (finished : v.after ts ≠ .unfinished) : v ≠ .unfinished := by
  rintro rfl
  exact finished rfl

theorem of_gather {kind : RuleKind} {r : ρ} {c : Cursor}
    (finished : v.gather kind r c ≠ .unfinished) : v ≠ .unfinished := by
  rintro rfl
  exact finished rfl

end Verdict

/-- The parsing expression matches, or refuses, at the position. -/
inductive Grammar.Settles (g : Grammar ρ) : Bool → Peg ρ → Cursor → Verdict ρ → Prop where
  | nothing {spaced : Bool} {c : Cursor} : Settles g spaced .nothing c (.matched [] c)
  | atEnd {spaced : Bool} {c : Cursor} (nothingLeft : c.rest = []) :
      Settles g spaced .endOfInput c (.matched [] c)
  | beforeEnd {spaced : Bool} {c : Cursor} (left : c.rest ≠ []) :
      Settles g spaced .endOfInput c .refused
  | char {spaced : Bool} {accepts : Char → Bool} {c : Cursor} {x : Char} {xs : List Char}
      (next : c.rest = x :: xs) (accepted : accepts x = true) :
      Settles g spaced (.char accepts) c (.matched [] (c.past [x] xs))
  | charRefused {spaced : Bool} {accepts : Char → Bool} {c : Cursor}
      (refused : ∀ x xs, c.rest = x :: xs → accepts x = false) :
      Settles g spaced (.char accepts) c .refused
  | text {spaced : Bool} {word : List Char} {c d : Cursor} (next : c.read? word = some d) :
      Settles g spaced (.text word) c (.matched [] d)
  | textRefused {spaced : Bool} {word : List Char} {c : Cursor} (other : c.read? word = none) :
      Settles g spaced (.text word) c .refused
  | rule {spaced : Bool} {r : ρ} {c : Cursor} {v : Verdict ρ}
      (inner : Settles g ((g.kind r).spacing spaced) (g.body r) c v) :
      Settles g spaced (.rule r) c (v.gather (g.kind r) r c)
  | seq {spaced : Bool} {a b : Peg ρ} {c d : Cursor} {ts : List (Tree ρ)} {v : Verdict ρ}
      (first : Settles g spaced a c (.matched ts d))
      (second : Settles g spaced b (g.skipIf spaced d) v) :
      Settles g spaced (.seq a b) c (v.after ts)
  | seqRefused {spaced : Bool} {a b : Peg ρ} {c : Cursor} (first : Settles g spaced a c .refused) :
      Settles g spaced (.seq a b) c .refused
  | altFirst {spaced : Bool} {a b : Peg ρ} {c d : Cursor} {ts : List (Tree ρ)}
      (first : Settles g spaced a c (.matched ts d)) :
      Settles g spaced (.alt a b) c (.matched ts d)
  | altSecond {spaced : Bool} {a b : Peg ρ} {c : Cursor} {v : Verdict ρ}
      (first : Settles g spaced a c .refused) (second : Settles g spaced b c v) :
      Settles g spaced (.alt a b) c v
  | opt {spaced : Bool} {a : Peg ρ} {c d : Cursor} {ts : List (Tree ρ)}
      (first : Settles g spaced a c (.matched ts d)) :
      Settles g spaced (.opt a) c (.matched ts d)
  | optNone {spaced : Bool} {a : Peg ρ} {c : Cursor} (first : Settles g spaced a c .refused) :
      Settles g spaced (.opt a) c (.matched [] c)
  | star {spaced : Bool} {a : Peg ρ} {c d : Cursor} {ts : List (Tree ρ)} {v : Verdict ρ}
      (first : Settles g spaced a c (.matched ts d)) (others : Settles g spaced (.more a) d v) :
      Settles g spaced (.star a) c (v.after ts)
  | starNone {spaced : Bool} {a : Peg ρ} {c : Cursor} (first : Settles g spaced a c .refused) :
      Settles g spaced (.star a) c (.matched [] c)
  | more {spaced : Bool} {a : Peg ρ} {c d : Cursor} {ts : List (Tree ρ)} {v : Verdict ρ}
      (first : Settles g spaced a (g.skipIf spaced c) (.matched ts d))
      (others : Settles g spaced (.more a) d v) :
      Settles g spaced (.more a) c (v.after ts)
  | moreNone {spaced : Bool} {a : Peg ρ} {c : Cursor}
      (first : Settles g spaced a (g.skipIf spaced c) .refused) :
      Settles g spaced (.more a) c (.matched [] c)
  | ahead {spaced : Bool} {a : Peg ρ} {c d : Cursor} {ts : List (Tree ρ)}
      (first : Settles g spaced a c (.matched ts d)) :
      Settles g spaced (.ahead a) c (.matched [] c)
  | aheadRefused {spaced : Bool} {a : Peg ρ} {c : Cursor} (first : Settles g spaced a c .refused) :
      Settles g spaced (.ahead a) c .refused
  | absent {spaced : Bool} {a : Peg ρ} {c : Cursor} (first : Settles g spaced a c .refused) :
      Settles g spaced (.unless a) c (.matched [] c)
  | present {spaced : Bool} {a : Peg ρ} {c d : Cursor} {ts : List (Tree ρ)}
      (first : Settles g spaced a c (.matched ts d)) : Settles g spaced (.unless a) c .refused

namespace Grammar

variable {g : Grammar ρ} {spaced : Bool} {a b p : Peg ρ} {c d : Cursor} {v w : Verdict ρ}

/-- Only one thing is settled: choices are ordered and repetitions take all they can. -/
theorem Settles.unique (first : g.Settles spaced p c v) (second : g.Settles spaced p c w) :
    v = w := by
  induction first generalizing w with
  | nothing =>
      cases second
      rfl
  | atEnd nothingLeft =>
      cases second with
      | atEnd => rfl
      | beforeEnd left => exact absurd nothingLeft left
  | beforeEnd left =>
      cases second with
      | atEnd nothingLeft => exact absurd nothingLeft left
      | beforeEnd => rfl
  | char next accepted =>
      cases second with
      | char next' =>
          cases next.symm.trans next'
          rfl
      | charRefused refused =>
          rw [refused _ _ next] at accepted
          cases accepted
  | charRefused refused =>
      cases second with
      | char next accepted =>
          rw [refused _ _ next] at accepted
          cases accepted
      | charRefused => rfl
  | text next =>
      cases second with
      | text next' =>
          cases next.symm.trans next'
          rfl
      | textRefused other => cases next.symm.trans other
  | textRefused other =>
      cases second with
      | text next => cases other.symm.trans next
      | textRefused => rfl
  | rule _ ih =>
      cases second with
      | rule inner => rw [ih inner]
  | seq _ _ ihA ihB =>
      cases second with
      | seq first second =>
          cases ihA first
          rw [ihB second]
      | seqRefused first => cases ihA first
  | star _ _ ihA ihB =>
      cases second with
      | star first others =>
          cases ihA first
          rw [ihB others]
      | starNone first => cases ihA first
  | more _ _ ihA ihB =>
      cases second with
      | more first others =>
          cases ihA first
          rw [ihB others]
      | moreNone first => cases ihA first
  | altFirst _ ih =>
      cases second with
      | altFirst first => exact ih first
      | altSecond first => cases ih first
  | altSecond _ _ ihA ihB =>
      cases second with
      | altFirst first => cases ihA first
      | altSecond _ second => exact ihB second
  | opt _ ih =>
      cases second with
      | opt first => exact ih first
      | optNone first => cases ih first
  -- What is left depends on whether the first part matches, and only on that.
  | seqRefused _ ih | starNone _ ih | moreNone _ ih | optNone _ ih | ahead _ ih
  | aheadRefused _ ih | absent _ ih | present _ ih =>
      cases second
      all_goals first | rfl | cases ih ‹_›

def Sound (g : Grammar ρ) (n : Nat) : Prop :=
  ∀ ⦃spaced : Bool⦄ ⦃p : Peg ρ⦄ ⦃c : Cursor⦄ ⦃v : Verdict ρ⦄, v ≠ .unfinished →
    (g.run n spaced p c).verdict = v → g.Settles spaced p c v

section Step

attribute [local simp] run

variable {n : Nat} (sound : g.Sound n) (finished : v ≠ .unfinished)

theorem settles_end_of_run (found : (g.run (n + 1) spaced .endOfInput c).verdict = v) :
    g.Settles spaced .endOfInput c v := by
  subst found
  simp only [run]
  split
  · rename_i nothingLeft
    exact .atEnd (List.isEmpty_iff.mp nothingLeft)
  · rename_i left
    exact .beforeEnd fun empty => left (List.isEmpty_iff.mpr empty)

theorem settles_char_of_run {accepts : Char → Bool}
    (found : (g.run (n + 1) spaced (.char accepts) c).verdict = v) :
    g.Settles spaced (.char accepts) c v := by
  subst found
  simp only [run]
  split
  · rename_i x xs next
    by_cases accepted : accepts x = true
    · simp only [accepted]
      exact .char next accepted
    · simp only [accepted]
      refine .charRefused fun y ys other => ?_
      cases next.symm.trans other
      simpa using accepted
  · rename_i nothingLeft
    refine .charRefused fun y ys other => ?_
    cases nothingLeft.symm.trans other

theorem settles_text_of_run {word : List Char}
    (found : (g.run (n + 1) spaced (.text word) c).verdict = v) :
    g.Settles spaced (.text word) c v := by
  subst found
  simp only [run]
  split
  · rename_i d next
    exact .text next
  · rename_i other
    exact .textRefused other

include sound finished

theorem settles_rule_of_run {r : ρ} (found : (g.run (n + 1) spaced (.rule r) c).verdict = v) :
    g.Settles spaced (.rule r) c v := by
  subst found
  simp only [run] at finished ⊢
  exact .rule (sound (Verdict.of_gather finished) rfl)

theorem settles_seq_of_run (found : (g.run (n + 1) spaced (.seq a b) c).verdict = v) :
    g.Settles spaced (.seq a b) c v := by
  simp only [run] at found
  cases first : (g.run n spaced a c).verdict with
  | matched ts d =>
      simp only [first] at found
      subst found
      exact .seq (sound nofun first) (sound (Verdict.of_after finished) rfl)
  | refused =>
      simp only [first] at found
      exact found ▸ .seqRefused (sound nofun first)
  | unfinished =>
      simp only [first] at found
      exact absurd found.symm finished

theorem settles_alt_of_run (found : (g.run (n + 1) spaced (.alt a b) c).verdict = v) :
    g.Settles spaced (.alt a b) c v := by
  simp only [run] at found
  cases first : (g.run n spaced a c).verdict with
  | matched ts d =>
      simp only [first] at found
      exact found ▸ .altFirst (sound nofun first)
  | refused =>
      simp only [first] at found
      exact .altSecond (sound nofun first) (sound finished found)
  | unfinished =>
      simp only [first] at found
      exact absurd found.symm finished

theorem settles_opt_of_run (found : (g.run (n + 1) spaced (.opt a) c).verdict = v) :
    g.Settles spaced (.opt a) c v := by
  simp only [run] at found
  cases first : (g.run n spaced a c).verdict with
  | matched ts d =>
      simp only [first] at found
      exact found ▸ .opt (sound nofun first)
  | refused =>
      simp only [first] at found
      exact found ▸ .optNone (sound nofun first)
  | unfinished =>
      simp only [first] at found
      exact absurd found.symm finished

theorem settles_star_of_run (found : (g.run (n + 1) spaced (.star a) c).verdict = v) :
    g.Settles spaced (.star a) c v := by
  simp only [run] at found
  cases first : (g.run n spaced a c).verdict with
  | matched ts d =>
      simp only [first] at found
      subst found
      exact .star (sound nofun first) (sound (Verdict.of_after finished) rfl)
  | refused =>
      simp only [first] at found
      exact found ▸ .starNone (sound nofun first)
  | unfinished =>
      simp only [first] at found
      exact absurd found.symm finished

theorem settles_more_of_run (found : (g.run (n + 1) spaced (.more a) c).verdict = v) :
    g.Settles spaced (.more a) c v := by
  simp only [run] at found
  cases first : (g.run n spaced a (g.skipIf spaced c)).verdict with
  | matched ts d =>
      simp only [first] at found
      subst found
      exact .more (sound nofun first) (sound (Verdict.of_after finished) rfl)
  | refused =>
      simp only [first] at found
      exact found ▸ .moreNone (sound nofun first)
  | unfinished =>
      simp only [first] at found
      exact absurd found.symm finished

theorem settles_ahead_of_run (found : (g.run (n + 1) spaced (.ahead a) c).verdict = v) :
    g.Settles spaced (.ahead a) c v := by
  simp only [run] at found
  cases first : (g.run n spaced a c).verdict with
  | matched ts d =>
      simp only [first] at found
      exact found ▸ .ahead (sound nofun first)
  | refused =>
      simp only [first] at found
      exact found ▸ .aheadRefused (sound nofun first)
  | unfinished =>
      simp only [first] at found
      exact absurd found.symm finished

theorem settles_unless_of_run (found : (g.run (n + 1) spaced (.unless a) c).verdict = v) :
    g.Settles spaced (.unless a) c v := by
  simp only [run] at found
  cases first : (g.run n spaced a c).verdict with
  | matched ts d =>
      simp only [first] at found
      exact found ▸ .present (sound nofun first)
  | refused =>
      simp only [first] at found
      exact found ▸ .absent (sound nofun first)
  | unfinished =>
      simp only [first] at found
      exact absurd found.symm finished

end Step

theorem settles_of_run (n : Nat) : g.Sound n := by
  induction n with
  | zero => exact fun _ _ _ _ finished found => absurd found.symm finished
  | succ n sound =>
      intro spaced p c v finished found
      cases p with
      | nothing => exact found ▸ .nothing
      | endOfInput => exact settles_end_of_run found
      | char accepts => exact settles_char_of_run found
      | text word => exact settles_text_of_run found
      | rule r => exact settles_rule_of_run sound finished found
      | seq a b => exact settles_seq_of_run sound finished found
      | alt a b => exact settles_alt_of_run sound finished found
      | opt a => exact settles_opt_of_run sound finished found
      | star a => exact settles_star_of_run sound finished found
      | more a => exact settles_more_of_run sound finished found
      | ahead a => exact settles_ahead_of_run sound finished found
      | «unless» a => exact settles_unless_of_run sound finished found

end Grammar

end Dil
