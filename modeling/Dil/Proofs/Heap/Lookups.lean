import Dil.Heap.Equality
import Dil.Proofs.Heap.Paths
import Dil.Render.Shown

namespace Dil.Heap

/-- The other heap has every cell of this one, with the same content. -/
def Covered (h other : Heap) : Prop := ∀ r, h.InRange r → other.cell? r = h.cell? r

variable {h other : Heap}

theorem shownWithin_covered (closed : h.Closed) (covered : h.Covered other) (levels : Nat)
    (around : List Ref) {v : Value} (held : h.Holds v) :
    other.shownWithin levels around v = h.shownWithin levels around v := by
  induction levels generalizing around v with
  | zero => cases v <;> simp only [shownWithin]
  | succ n ih =>
      cases v with
      | ref r =>
          have inside := (h.holds_ref r).mp held
          obtain ⟨c, found⟩ := (h.inRange_iff r).mp inside
          have parts : ∀ w ∈ c.values,
              other.shownWithin n (r :: around) w = h.shownWithin n (r :: around) w :=
            fun w member => ih (r :: around) (closed r c found w member)
          simp only [shownWithin, covered r inside, found]
          split
          · rfl
          · cases c with
            | array items =>
                rw [values_array] at parts
                exact congrArg Shown.list (List.map_congr_left parts)
            | map body =>
                rw [values_map] at parts
                refine congrArg (Shown.record none) (List.map_congr_left fun e member => ?_)
                rw [parts e.2 (List.mem_map.mpr ⟨e, member, rfl⟩)]
            | object body =>
                rw [values_object] at parts
                refine congrArg (Shown.record _) (List.map_congr_left fun e member => ?_)
                have slot : e.2 ∈ body.slots.values := List.mem_map.mpr ⟨e, member, rfl⟩
                rw [parts e.2.value (List.mem_map.mpr ⟨e.2, slot, rfl⟩)]
      | _ => simp only [shownWithin]

private theorem all_congr_of_mem {α : Type} {items : List α} {f g : α → Bool}
    (agree : ∀ a ∈ items, f a = g a) : items.all f = items.all g := by
  rw [Bool.eq_iff_iff, List.all_eq_true, List.all_eq_true]
  exact forall₂_congr fun a member => by rw [agree a member]

theorem equalWithin_covered (closed : h.Closed) (covered : h.Covered other) (depth : Nat)
    (visiting : List (Ref × Ref)) {v w : Value} (left : h.Holds v) (right : h.Holds w) :
    other.equalWithin depth visiting v w = h.equalWithin depth visiting v w := by
  induction depth generalizing visiting v w with
  | zero => cases v <;> cases w <;> rfl
  | succ n ih =>
      cases v with
      | ref a =>
          cases w with
          | ref b =>
              have insideA := (h.holds_ref a).mp left
              have insideB := (h.holds_ref b).mp right
              obtain ⟨c, foundC⟩ := (h.inRange_iff a).mp insideA
              obtain ⟨d, foundD⟩ := (h.inRange_iff b).mp insideB
              have parts : ∀ p ∈ c.parts.zip d.parts,
                  other.equalWithin n ((a, b) :: visiting) p.1.2 p.2.2 =
                    h.equalWithin n ((a, b) :: visiting) p.1.2 p.2.2 := by
                intro p member
                have pair := List.of_mem_zip (a := p.1) (b := p.2) member
                have fromC : p.1.2 ∈ c.values := List.mem_map.mpr ⟨p.1, pair.1, rfl⟩
                have fromD : p.2.2 ∈ d.values := List.mem_map.mpr ⟨p.2, pair.2, rfl⟩
                exact ih _ (closed a c foundC _ fromC) (closed b d foundD _ fromD)
              unfold equalWithin
              simp only [covered a insideA, covered b insideB, foundC, foundD]
              rw [all_congr_of_mem fun p member => congrArg (p.1.1 == p.2.1 && ·) (parts p member)]
          | _ => rfl
      | _ => cases w <;> rfl

end Dil.Heap
