import Dil.Proofs.Heap.Copies
import Dil.Proofs.Peg.Bare

namespace Dil

section Rules

variable {α β : Type} {t : Store}

/-- The evaluation only adds cells. What holds of its result may refer to a number of cells no greater
than what was added; without a result, there is no reference left for a cell. -/
def Store.Makes (t : Store) (action : Eval α) (Q : Heap → Nat → α → Prop) : Prop :=
  (∃ a u n, action t = (.ok a, u) ∧ t.heap.Begins u.heap ∧ t.heap.size + n ≤ u.heap.size ∧
    Q u.heap n a) ∨
  ∃ e u, action t = (.error e, u) ∧ u.heap.Exhausted e

theorem Store.Makes.bind {m : Eval α} {k : α → Eval β} {Q : Heap → Nat → α → Prop}
    {S : Heap → Nat → β → Prop} (first : t.Makes m Q)
    (second : ∀ a (u : Store) n, t.heap.Begins u.heap → Q u.heap n a →
      u.Makes (k a) fun w i b => S w (n + i) b) : t.Makes (m >>= k) S := by
  rcases first with ⟨a, u, n, run, begins, room, holds⟩ | ⟨e, u, run, full⟩
  · rcases second a u n begins holds with ⟨b, w, i, run', begins', room', holds'⟩ | ⟨e, w, run', full⟩
    · refine Or.inl ⟨b, w, n + i, ?_, begins.trans begins', by omega, holds'⟩
      rw [bind_of_ok k run, run']
    · refine Or.inr ⟨e, w, ?_, full⟩
      rw [bind_of_ok k run, run']
  · exact Or.inr ⟨e, u, bind_of_error k run, full⟩

theorem Store.Makes.mono {action : Eval α} {Q S : Heap → Nat → α → Prop} (makes : t.Makes action Q)
    (weaker : ∀ u n a, t.heap.Begins u → Q u n a → S u n a) : t.Makes action S := by
  rcases makes with ⟨a, u, n, run, begins, room, holds⟩ | out
  · exact Or.inl ⟨a, u, n, run, begins, room, weaker _ _ _ begins holds⟩
  · exact Or.inr out

end Rules

section Literals

variable {create : String → Eval Value} {scope : Scope} {h : Heap} {value : Value → Expr}

end Literals

end Dil
