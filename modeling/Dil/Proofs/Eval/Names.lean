import Dil.Proofs.Eval.Rules
import Dil.Proofs.Heap.Names

namespace Dil

variable {P : String → Prop} {α : Type} {h : Heap}

def Heap.naming (P : String → Prop) : Regime Heap where
  Good := Named P
  Step h t := h.Named P → t.Named P
  refl _ named := named
  trans first second named := second (first named)
  keep step := step

theorem naming_admits {c : Cell} (names : ∀ name ∈ c.names, P name) :
    (Heap.naming P).Admits (fun _ _ => True) c h :=
  fun _ _ => ⟨fun named => Heap.add_named named names, trivial⟩

theorem Heap.naming_rules : Eval.Rules (Heap.naming P) P fun _ _ => True where
  keep _ _ := trivial
  scalar _ _ := trivial
  array _ := naming_admits nofun
  map _ named := naming_admits named
  get _ _ _ := trivial

theorem Heap.naming_objects {classes : Classes}
    (known : ∀ c ∈ classes.values, ∀ name ∈ c.names, P name) :
    Eval.ObjectRule (Heap.naming P) (fun _ _ => True) classes := by
  intro name c object h found conforms _
  have names := known c (Table.value_of_find found)
  rw [ClassDef.names, List.forall_mem_cons, List.forall_mem_append] at names
  obtain ⟨own, fieldNames, _⟩ := names
  refine naming_admits ?_
  rw [Cell.names, conforms.className, conforms.keys]
  exact List.forall_mem_cons.mpr ⟨own, fieldNames⟩

section Evaluation

variable {create : String → Eval Value} {scope : Scope}

def Namer (P : String → Prop) (create : String → Eval Value) : Prop :=
  ∀ name s, (Heap.naming P).Yields (create name) s fun _ _ => True

theorem eval_names (namer : Namer P create) (e : Expr) (s : Store) (keys : ∀ key ∈ e.keys, P key) :
    (Heap.naming P).Yields (eval create scope e) s fun _ _ => True :=
  eval_meets Heap.naming_rules namer e s keys fun _ _ => trivial

theorem evalSegments_names (namer : Namer P create) (segments : List Segment) (s : Store)
    (keys : ∀ key ∈ Expr.segmentKeys segments, P key) :
    (Heap.naming P).Yields (evalSegments create scope segments) s
      fun steps _ => ∀ name, Step.field name ∈ steps → name ∈ pathFields segments :=
  evalSegments_meets Heap.naming_rules namer segments s keys fun _ _ => trivial

theorem newObject_names {classes : Classes}
    (known : ∀ c ∈ classes.values, ∀ name ∈ c.names, P name) : Namer P (newObject classes) := by
  refine instantiate_meets Heap.naming_rules (Heap.naming_objects known) ?_ (classes.size + 1)
  intro c among f field key member
  have names := known c among
  rw [ClassDef.names, List.forall_mem_cons, List.forall_mem_append] at names
  exact names.2.2 key (List.mem_flatMap.mpr ⟨f, field, member⟩)

end Evaluation

end Dil
