import Dil.Proofs.Eval.Rules

namespace Dil

namespace Heap

/-- The other heap begins with the cells of this one, kind by kind. -/
structure Begins (h t : Heap) : Prop where
  arrays : h.arrays.toList <+: t.arrays.toList
  maps : h.maps.toList <+: t.maps.toList
  objects : h.objects.toList <+: t.objects.toList

theorem Begins.refl (h : Heap) : h.Begins h :=
  ⟨List.prefix_rfl, List.prefix_rfl, List.prefix_rfl⟩

theorem Begins.trans {h t u : Heap} (first : h.Begins t) (second : t.Begins u) : h.Begins u :=
  ⟨first.arrays.trans second.arrays, first.maps.trans second.maps,
    first.objects.trans second.objects⟩

theorem add_begins (h : Heap) (c : Cell) : h.Begins (h.add c).2 := by
  cases c <;> constructor <;> simp [add]

private theorem content_kept {α : Type} {cells cells' : Array α} {i : Nat} {a : α}
    (begins : cells.toList <+: cells'.toList) (found : cells[i]? = some a) :
    cells'[i]? = some a := by
  rw [← Array.getElem?_toList] at found ⊢
  obtain ⟨added, split⟩ := begins
  rw [← split]
  exact List.getElem?_append_left (List.getElem?_eq_some_iff.mp found).1 ▸ found

theorem Begins.cell {h t : Heap} {r : Ref} {c : Cell} (begins : h.Begins t)
    (found : h.cell? r = some c) : t.cell? r = some c := by
  cases r with
  | array i =>
      obtain ⟨items, there, same⟩ := Option.map_eq_some_iff.mp found
      exact Option.map_eq_some_iff.mpr ⟨items, content_kept begins.arrays there, same⟩
  | map i =>
      obtain ⟨body, there, same⟩ := Option.map_eq_some_iff.mp found
      exact Option.map_eq_some_iff.mpr ⟨body, content_kept begins.maps there, same⟩
  | object i =>
      obtain ⟨object, there, same⟩ := Option.map_eq_some_iff.mp found
      exact Option.map_eq_some_iff.mpr ⟨object, content_kept begins.objects there, same⟩

def additions : Regime Heap where
  Good _ := True
  Step := Begins
  refl := Begins.refl
  trans := Begins.trans
  keep _ _ := trivial

end Heap

/-- An evaluation that only adds cells, whatever the heap is and whatever becomes of it. -/
def Eval.Adds {α : Type} (action : Eval α) : Prop :=
  ∀ s, Heap.additions.Yields action s fun _ _ => True

theorem Eval.Adds.keeps {α : Type} {action : Eval α} (adds : action.Adds) : action.Keeps :=
  fun s => (adds s trivial).1.2

section Evaluation

variable {α : Type} {create : String → Eval Value} {scope : Scope}

theorem look_adds (f : Heap → Except EvalError α) : Eval.Adds (Eval.look f) :=
  fun _ => look_meets f fun _ _ _ => trivial

theorem additions_admits (c : Cell) (h : Heap) : Heap.additions.Admits (fun _ _ => True) c h :=
  fun _ _ => ⟨h.add_begins c, trivial⟩

theorem Heap.additions_rules : Eval.Rules Heap.additions (fun _ => True) fun _ _ => True where
  keep _ _ := trivial
  scalar _ _ := trivial
  array _ := additions_admits _ _
  map _ _ := additions_admits _ _
  get _ _ _ := trivial

theorem eval_adds (maker : ∀ name, (create name).Adds) (e : Expr) :
    (eval create scope e).Adds :=
  fun s => eval_meets Heap.additions_rules maker e s (fun _ _ => trivial) fun _ _ => trivial

theorem evalSegments_adds (maker : ∀ name, (create name).Adds) (segments : List Segment) :
    (evalSegments create scope segments).Adds :=
  fun s => (evalSegments_meets Heap.additions_rules maker segments s (fun _ _ => trivial)
    fun _ _ => trivial).mono fun _ _ _ _ => trivial

theorem instantiate_adds (classes : Classes) (depth : Nat) (name : String) :
    (instantiate classes depth name).Adds :=
  instantiate_meets Heap.additions_rules (fun _ _ _ => additions_admits _ _)
    (fun _ _ _ _ _ _ => trivial) depth name

theorem newObject_adds (classes : Classes) (name : String) : (newObject classes name).Adds :=
  instantiate_adds classes (classes.size + 1) name

end Evaluation

end Dil
