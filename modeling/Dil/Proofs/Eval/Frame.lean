import Dil.Proofs.Eval.Additions

namespace Dil.Session

theorem evaluate_keeps {α : Type} (s : Session) {action : Eval α} (adds : action.Adds) :
    (s.evaluate action).2.scope = s.scope ∧ (s.evaluate action).2.classes = s.classes ∧
      (s.evaluate action).2.building = s.building ∧
      s.heap.Begins (s.evaluate action).2.heap := by
  have step := (adds s.toStore trivial).1
  exact ⟨rfl, rfl, step.2, step.1⟩

/-- Evaluating an expression only allocates. Take any session, inside the making of whatever objects,
and any names that the expression sees, be they those of the session or none. Whether it gives a value
or an error, the bindings, the classes and the list of the objects being made are the same after it, and
the arrays, maps and objects from before stand first and unchanged. -/
theorem evaluation_only_allocates (s : Session) (depth : Nat) (scope : Scope) (e : Expr) :
    let after := (s.evaluate (Dil.eval (Dil.instantiate s.classes depth) scope e)).2
    after.scope = s.scope ∧
    after.classes = s.classes ∧
    after.building = s.building ∧
    s.heap.Begins after.heap ∧
    ∀ r c, s.heap.cell? r = some c → after.heap.cell? r = some c := by
  intro after
  have adds : (Dil.eval (Dil.instantiate s.classes depth) scope e).Adds :=
    eval_adds (instantiate_adds s.classes depth) e
  obtain ⟨bindings, registry, building, begins⟩ := s.evaluate_keeps adds
  exact ⟨bindings, registry, building, begins, fun r c found => begins.cell found⟩

end Dil.Session
