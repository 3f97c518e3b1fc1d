import Dil.Proofs.Eval.Rules

namespace Dil

def Heap.HoldsAll (h : Heap) (vs : List Value) : Prop := ∀ v ∈ vs, h.Holds v

theorem Heap.Grows.holdsAll {classes : Classes} {h t : Heap} {vs : List Value}
    (grows : h.Grows classes t) (held : h.HoldsAll vs) : t.HoldsAll vs :=
  fun v member => grows.holds (held v member)

theorem Heap.holdsAll_nil (h : Heap) : h.HoldsAll [] :=
  fun _ member => absurd member List.not_mem_nil

section Rules

variable {classes : Classes} {h : Heap}

theorem growth_admits {c : Cell} (held : h.HoldsAll c.values) (admitted : c.Admitted classes) :
    (Heap.growth classes).Admits (fun v t => t.Holds v) c h :=
  fun _ room => ⟨.add .refl held admitted room, h.add_holds_new c⟩

theorem array_admitted (items : List Value) : (Cell.array items).Admitted classes :=
  fun _ => Cell.noConfusion

theorem map_admitted (body : Table Value) : (Cell.map body).Admitted classes :=
  fun _ => Cell.noConfusion

theorem Heap.growth_rules : Eval.Rules (Heap.growth classes) (fun _ => True) fun v t => t.Holds v where
  keep step held := Heap.Grows.holds step held
  scalar h scalar := h.holds_scalar _ scalar
  array held := growth_admits ((values_array _).symm ▸ held) (array_admitted _)
  map held _ := growth_admits ((values_map _).symm ▸ held) (map_admitted _)
  get := Heap.get_holds

theorem Heap.growth_objects :
    Eval.ObjectRule (Heap.growth classes) (fun v t => t.Holds v) classes := by
  intro name c object h found conforms held
  apply growth_admits
  · rw [values_object]
    exact held
  · rintro _ ⟨⟩
    exact ⟨name, c, found, conforms⟩

end Rules

section Evaluation

variable {classes : Classes} {create : String → Eval Value} {scope : Scope}

/-- A maker of objects that lets the heap grow and gives values in range. -/
def Grower (classes : Classes) (create : String → Eval Value) : Prop :=
  ∀ name s, (Heap.growth classes).Yields (create name) s fun v t => t.Holds v

theorem eval_grows (grower : Grower classes create) (e : Expr) (s : Store)
    (bound : s.heap.HoldsAll scope.values) :
    (Heap.growth classes).Yields (eval create scope e) s fun v t => t.Holds v :=
  eval_meets Heap.growth_rules grower e s (fun _ _ => trivial) bound

theorem evalSegments_grows (grower : Grower classes create) (segments : List Segment) (s : Store)
    (bound : s.heap.HoldsAll scope.values) :
    (Heap.growth classes).Yields (evalSegments create scope segments) s fun _ _ => True :=
  (evalSegments_meets Heap.growth_rules grower segments s (fun _ _ => trivial) bound).mono
    fun _ _ _ _ => trivial

theorem newSlot_grows (grower : Grower classes create) (f : FieldDef) (s : Store) :
    (Heap.growth classes).Yields (newSlot create f) s
      fun slot t => slot.Fits f ∧ t.Holds slot.value :=
  newSlot_meets Heap.growth_rules grower f s fun _ _ => trivial

theorem instantiate_grows (classes : Classes) (depth : Nat) :
    Grower classes (instantiate classes depth) :=
  instantiate_meets Heap.growth_rules Heap.growth_objects (fun _ _ _ _ _ _ => trivial) depth

theorem newObject_grows (classes : Classes) : Grower classes (newObject classes) :=
  instantiate_grows classes (classes.size + 1)

end Evaluation

end Dil
