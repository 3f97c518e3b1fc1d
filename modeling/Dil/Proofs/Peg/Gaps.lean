import Dil.Proofs.Peg.Depth

namespace Dil

variable {ρ : Type}

/-- The positions at which layout is skipped from one part of a match to the next, also where there is
none; what is tried in vain does not count. -/
def Grammar.gaps (g : Grammar ρ) : Nat → Bool → Peg ρ → Cursor → List Cursor
  | 0, _, _, _ => []
  | n + 1, spaced, p, c =>
    let here (d : Cursor) : List Cursor := if spaced then [d] else []
    match p with
    | .rule r => g.gaps n ((g.kind r).spacing spaced) (g.body r) c
    | .seq a b =>
      match (g.run n spaced a c).verdict with
      | .matched _ d => g.gaps n spaced a c ++ here d ++ g.gaps n spaced b (g.skipIf spaced d)
      | _ => []
    | .alt a b =>
      match (g.run n spaced a c).verdict with
      | .matched _ _ => g.gaps n spaced a c
      | _ => g.gaps n spaced b c
    | .opt a =>
      match (g.run n spaced a c).verdict with
      | .matched _ _ => g.gaps n spaced a c
      | _ => []
    | .star a =>
      match (g.run n spaced a c).verdict with
      | .matched _ d => g.gaps n spaced a c ++ g.gaps n spaced (.more a) d
      | _ => []
    | .more a =>
      match (g.run n spaced a (g.skipIf spaced c)).verdict with
      | .matched _ d =>
        here c ++ g.gaps n spaced a (g.skipIf spaced c) ++ g.gaps n spaced (.more a) d
      | _ => []
    | _ => []

/-- A match of the expression from the cursor skips layout at `d`. -/
inductive Grammar.Skips (g : Grammar ρ) (d : Cursor) : Bool → Peg ρ → Cursor → Prop where
  | rule {spaced : Bool} {r : ρ} {c : Cursor}
      (inner : Skips g d ((g.kind r).spacing spaced) (g.body r) c) : Skips g d spaced (.rule r) c
  | seqFirst {spaced : Bool} {a b : Peg ρ} {c : Cursor} (inner : Skips g d spaced a c) :
      Skips g d spaced (.seq a b) c
  | seqBetween {a b : Peg ρ} {c : Cursor} {ts : List (Tree ρ)}
      (first : g.Settles true a c (.matched ts d)) : Skips g d true (.seq a b) c
  | seqSecond {spaced : Bool} {a b : Peg ρ} {c e f : Cursor} {ts us : List (Tree ρ)}
      (first : g.Settles spaced a c (.matched ts e))
      (second : g.Settles spaced b (g.skipIf spaced e) (.matched us f))
      (inner : Skips g d spaced b (g.skipIf spaced e)) : Skips g d spaced (.seq a b) c
  | altFirst {spaced : Bool} {a b : Peg ρ} {c : Cursor} (inner : Skips g d spaced a c) :
      Skips g d spaced (.alt a b) c
  | altSecond {spaced : Bool} {a b : Peg ρ} {c : Cursor} (inner : Skips g d spaced b c) :
      Skips g d spaced (.alt a b) c
  | opt {spaced : Bool} {a : Peg ρ} {c : Cursor} (inner : Skips g d spaced a c) :
      Skips g d spaced (.opt a) c
  | starFirst {spaced : Bool} {a : Peg ρ} {c : Cursor} (inner : Skips g d spaced a c) :
      Skips g d spaced (.star a) c
  | starLater {spaced : Bool} {a : Peg ρ} {c e : Cursor} {ts : List (Tree ρ)}
      (first : g.Settles spaced a c (.matched ts e)) (others : Skips g d spaced (.more a) e) :
      Skips g d spaced (.star a) c
  | moreBefore {a : Peg ρ} : Skips g d true (.more a) d
  | moreFirst {spaced : Bool} {a : Peg ρ} {c : Cursor} (inner : Skips g d spaced a (g.skipIf spaced c)) :
      Skips g d spaced (.more a) c
  | moreLater {spaced : Bool} {a : Peg ρ} {c e : Cursor} {ts : List (Tree ρ)}
      (first : g.Settles spaced a (g.skipIf spaced c) (.matched ts e))
      (others : Skips g d spaced (.more a) e) : Skips g d spaced (.more a) c

section Gaps

variable {g : Grammar ρ} {spaced : Bool} {p : Peg ρ} {c d e : Cursor} {ts : List (Tree ρ)}

theorem spacing_eq_true {kind : RuleKind} (spacing : kind.spacing spaced = true) :
    kind = .spaced ∧ spaced = true := by
  cases kind with
  | spaced => exact ⟨rfl, spacing⟩
  | joined | token => cases spacing

theorem Grammar.spaced_of_skips (skips : g.Skips d spaced p c) : spaced = true := by
  induction skips with
  | rule _ ih => exact (spacing_eq_true ih).2
  | seqBetween | moreBefore => rfl
  | seqFirst _ ih | seqSecond _ _ _ ih | altFirst _ ih | altSecond _ ih | opt _ ih => exact ih
  | starFirst _ ih | starLater _ _ ih | moreFirst _ ih | moreLater _ _ ih => exact ih

theorem Grammar.kind_of_skips {r : ρ} (skips : g.Skips d spaced (.rule r) c) : g.kind r = .spaced := by
  cases skips with
  | rule inner => exact (spacing_eq_true (spaced_of_skips inner)).1

theorem Grammar.skips_of_gaps {n : Nat} (found : (g.run n spaced p c).verdict = .matched ts e)
    (among : d ∈ g.gaps n spaced p c) : g.Skips d spaced p c := by
  induction n generalizing spaced p c ts e with
  | zero => cases among
  | succ n ih =>
      have settle {p : Peg ρ} {c f : Cursor} {us : List (Tree ρ)}
          (found : (g.run n spaced p c).verdict = .matched us f) : g.Settles spaced p c (.matched us f) :=
        Grammar.settles_of_run n (by simp) found
      have here {f : Cursor} (inside : d ∈ if spaced then [f] else []) : spaced = true ∧ d = f := by
        cases spaced with
        | false => cases inside
        | true => exact ⟨rfl, List.mem_singleton.mp inside⟩
      cases p with
      | nothing | endOfInput | char | text | ahead | «unless» => cases among
      | rule r =>
          obtain ⟨us, inner⟩ := Verdict.of_gather_matched found
          exact .rule (ih inner among)
      | seq a b =>
          simp only [run] at found
          simp only [gaps] at among
          cases first : (g.run n spaced a c).verdict with
          | refused | unfinished => simp [first] at among
          | matched us f =>
              simp only [first, List.mem_append] at found among
              obtain ⟨vs, second, rfl⟩ := Verdict.of_after_matched found
              rcases among with (inside | between) | later
              · exact .seqFirst (ih first inside)
              · obtain ⟨rfl, rfl⟩ := here between
                exact .seqBetween (settle first)
              · exact .seqSecond (settle first) (settle second) (ih second later)
      | alt a b =>
          simp only [run] at found
          simp only [gaps] at among
          cases first : (g.run n spaced a c).verdict with
          | unfinished => simp [first] at found
          | matched us f =>
              simp only [first] at found among
              exact .altFirst (ih first among)
          | refused =>
              simp only [first] at found among
              exact .altSecond (ih found among)
      | opt a =>
          simp only [gaps] at among
          cases first : (g.run n spaced a c).verdict with
          | refused | unfinished => simp [first] at among
          | matched us f =>
              simp only [first] at among
              exact .opt (ih first among)
      | star a =>
          simp only [run] at found
          simp only [gaps] at among
          cases first : (g.run n spaced a c).verdict with
          | refused | unfinished => simp [first] at among
          | matched us f =>
              simp only [first, List.mem_append] at found among
              obtain ⟨vs, others, rfl⟩ := Verdict.of_after_matched found
              rcases among with inside | later
              · exact .starFirst (ih first inside)
              · exact .starLater (settle first) (ih others later)
      | more a =>
          simp only [run] at found
          simp only [gaps] at among
          cases first : (g.run n spaced a (g.skipIf spaced c)).verdict with
          | refused | unfinished => simp [first] at among
          | matched us f =>
              simp only [first, List.mem_append] at found among
              obtain ⟨vs, others, rfl⟩ := Verdict.of_after_matched found
              rcases among with (before | inside) | later
              · obtain ⟨rfl, rfl⟩ := here before
                exact .moreBefore
              · exact .moreFirst (ih first inside)
              · exact .moreLater (settle first) (ih others later)

end Gaps

end Dil
