import Mathlib.Data.List.Forall2
import Dil.Class
import Dil.Proofs.Regime
import Dil.Proofs.Heap.Paths

/-!
How a heap grows during evaluation: by one new cell after the other, each with values in range
and, for an object, with slots as its class has them. Old cells stay as they are.
-/

namespace Dil

/-- A slot as a field definition has it. An overwritable slot may have taken a type of its own. -/
structure Slot.Fits (slot : Slot) (f : FieldDef) : Prop where
  overwritable : slot.overwritable = f.overwritable
  declared : f.overwritable = false → slot.type = f.type
  typed : ∀ t, slot.type = some t → slot.value.tag = t

theorem forall₂_mem {α β : Type} {R : α → β → Prop} {items : List α} {items' : List β} {a : α}
    (alike : List.Forall₂ R items items') (member : a ∈ items) : ∃ b ∈ items', R a b := by
  induction alike with
  | nil => cases member
  | cons first _ ih =>
      rcases List.mem_cons.mp member with rfl | later
      · exact ⟨_, List.mem_cons_self, first⟩
      · obtain ⟨b, inside, related⟩ := ih later
        exact ⟨b, List.mem_cons_of_mem _ inside, related⟩

structure Instance.Conforms (object : Instance) (c : ClassDef) : Prop where
  className : object.className = c.name
  slots : List.Forall₂ (fun e f => e.1 = f.name ∧ e.2.Fits f) object.slots.entries c.fields

theorem Instance.Conforms.keys {object : Instance} {c : ClassDef} (conforms : object.Conforms c) :
    object.slots.keys = c.fields.map FieldDef.name := by
  have names : List.Forall₂ Eq (object.slots.entries.map (·.1)) (c.fields.map FieldDef.name) :=
    List.forall₂_map_left_iff.mpr
      (List.forall₂_map_right_iff.mpr (conforms.slots.imp fun _ _ fits => fits.1))
  rwa [List.forall₂_eq_eq_eq] at names

def Cell.Admitted (classes : Classes) (c : Cell) : Prop :=
  ∀ object, c = .object object → ∃ name d, classes.find? name = some d ∧ object.Conforms d

namespace Heap

/-- Reached by adding admitted cells with values in range. -/
inductive Grows (classes : Classes) (h : Heap) : Heap → Prop where
  | refl : Grows classes h h
  | add {t : Heap} {c : Cell} (before : Grows classes h t) (held : ∀ v ∈ c.values, t.Holds v)
      (admitted : c.Admitted classes) (room : ¬ t.Full c.tag) : Grows classes h (t.add c).2

variable {classes : Classes} {h t u : Heap}

theorem Grows.trans (first : Grows classes h t) (second : Grows classes t u) :
    Grows classes h u := by
  induction second with
  | refl => exact first
  | add _ held admitted room ih => exact .add ih held admitted room

theorem Grows.closed (grows : Grows classes h t) (closed : h.Closed) : t.Closed := by
  induction grows with
  | refl => exact closed
  | add _ held _ _ ih => exact add_closed ih held

theorem Grows.inRange (grows : Grows classes h t) {r : Ref} (inside : h.InRange r) :
    t.InRange r := by
  induction grows with
  | refl => exact inside
  | add _ _ _ _ ih => exact (add_inRange _ _ r).mpr (Or.inr ih)

theorem Grows.holds (grows : Grows classes h t) {v : Value} (held : h.Holds v) : t.Holds v :=
  fun r same => grows.inRange (held r same)

theorem Grows.cell (grows : Grows classes h t) {r : Ref} (inside : h.InRange r) :
    t.cell? r = h.cell? r := by
  induction grows with
  | refl => rfl
  | add before _ _ _ ih =>
      rw [add_cell, if_neg, ih]
      intro new
      exact add_fresh _ _ (new ▸ before.inRange inside)

def growth (classes : Classes) : Regime Heap where
  Good := Closed
  Step := Grows classes
  refl _ := .refl
  trans := Grows.trans
  keep := Grows.closed

end Heap

end Dil
