import Dil.Proofs.Regime
import Dil.Proofs.Heap.Cells

namespace Dil.Eval

/-- A cell is added, or nothing changes and its kind is named as the one that no references are left
for. -/
theorem alloc_cases (c : Cell) (s : Store) :
    (¬ s.heap.Full c.tag ∧
      alloc c s = (.ok (.ref (s.heap.add c).1), ⟨(s.heap.add c).2, s.building⟩)) ∨
    (s.heap.Full c.tag ∧ alloc c s = (.error (.heapExhausted c.tag), s)) := by
  obtain ⟨heap, building⟩ := s
  simp only [alloc]
  rcases heap.alloc_cases c with ⟨room, done⟩ | ⟨full, refused⟩
  · exact Or.inl ⟨room, by rw [done]⟩
  · exact Or.inr ⟨full, by rw [refused]⟩

theorem inside_apply {α : Type} (className : String) (action : Eval α) (s : Store) :
    inside className action s =
      let (result, t) := action ⟨s.heap, className :: s.building⟩
      (result, ⟨t.heap, t.building.tail⟩) := rfl

theorem building_apply (s : Store) : building s = (.ok s.building, s) := rfl

/-- After the action objects of the same classes are being made as before it. -/
def Keeps {α : Type} (action : Eval α) : Prop := ∀ s, (action s).2.building = s.building

theorem Keeps.bind {α β : Type} {m : Eval α} {k : α → Eval β} (first : m.Keeps)
    (second : ∀ a, (k a).Keeps) : Keeps (m >>= k) := by
  intro s
  have kept := first s
  rw [bind_apply]
  rcases run : m s with ⟨e | a, t⟩
  · rwa [run] at kept
  · rw [run] at kept
    exact (second a t).trans kept

theorem alloc_keeps (c : Cell) : Keeps (alloc c) := by
  intro s
  rcases alloc_cases c s with ⟨_, done⟩ | ⟨_, refused⟩
  · rw [done]
  · rw [refused]

end Dil.Eval

namespace Dil.Session

variable {α : Type}

theorem evaluate_apply (s : Session) (action : Eval α) : s.evaluate action =
    ((action s.toStore).1, { s with toStore := (action s.toStore).2 }) := rfl

theorem evaluate_of (s : Session) {action : Eval α} {r : Except EvalError α} {t : Store}
    (run : action s.toStore = (r, t)) : s.evaluate action = (r, { s with toStore := t }) := by
  rw [evaluate_apply, run]

end Dil.Session
