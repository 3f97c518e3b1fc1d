import Mathlib.Logic.Relation
import Dil.Proofs.Eval.Growth

/-!
The single changes that a session can undergo. A run, whatever it meets and however it ends, is a
sequence of them, and so is an evaluation; what every change keeps, every session keeps.
-/

namespace Dil

open Relation (ReflTransGen)

/-- Every reference in a binding, and in a cell, has its cell. -/
structure Session.WellFormed (s : Session) : Prop where
  bindings : s.heap.HoldsAll s.scope.values
  cells : s.heap.Closed

inductive Session.Move (s : Session) : Session → Prop where
  | add {c : Cell} (held : s.heap.HoldsAll c.values) (admitted : c.Admitted s.classes)
      (room : ¬ s.heap.Full c.tag) : Move s { s with heap := (s.heap.add c).2 }
  | bind (name : String) {v : Value} (held : s.heap.Holds v) :
      Move s { s with scope := s.scope.insert name v }
  | drop (name : String) : Move s { s with scope := s.scope.erase name }
  | declare {c : ClassDef} (new : c.name ∉ s.classes.keys) :
      Move s { s with classes := s.classes.insert c.name c }
  | write {place : Locator} {v : Value} {heap : Heap} (inside : s.heap.InRange place.ref)
      (held : s.heap.Holds v) (written : s.heap.write place v = .ok heap) :
      Move s { s with heap := heap }

theorem Session.Move.inRange {s t : Session} (move : s.Move t) {r : Ref}
    (inside : s.heap.InRange r) : t.heap.InRange r := by
  cases move with
  | add => exact (Heap.add_inRange _ _ r).mpr (Or.inr inside)
  | bind | drop | declare => exact inside
  | write place _ written => exact (Heap.write_inRange place written r).mpr inside

theorem Session.Move.wellFormed {s t : Session} (move : s.Move t) (good : s.WellFormed) :
    t.WellFormed := by
  constructor
  · intro v member
    cases move with
    | bind name held =>
        rcases Table.value_of_insert member with rfl | old
        · exact held
        · exact good.bindings v old
    | drop name => exact good.bindings v (Table.value_of_erase member)
    | declare => exact good.bindings v member
    | add => exact Heap.add_holds _ (good.bindings v member)
    | write place _ written =>
        exact fun r same => (Heap.write_inRange place written r).mpr (good.bindings v member r same)
  · cases move with
    | add held => exact Heap.add_closed good.cells held
    | bind | drop | declare => exact good.cells
    | write place held written => exact Heap.write_closed good.cells place held written

theorem Session.Move.bounded {s t : Session} (move : s.Move t) (bounded : s.heap.Bounded) :
    t.heap.Bounded := by
  cases move with
  | add _ _ room => exact Heap.add_bounded bounded room
  | bind | drop | declare => exact bounded
  | write place _ written =>
      exact bounded.of_inRange fun r => (Heap.write_inRange place written r).mp

theorem Session.Move.building {s t : Session} (move : s.Move t) : t.building = s.building := by
  cases move <;> rfl

inductive Progress.Move (p : Progress) : Progress → Prop where
  | session {s : Session} (move : p.session.Move s) : Move p { p with session := s }
  | take {e : Emission} (held : p.session.heap.Holds e.value) :
      Move p { p with taken := e :: p.taken }

structure Progress.WellFormed (p : Progress) : Prop where
  session : p.session.WellFormed
  taken : p.session.heap.HoldsAll (p.taken.map Emission.value)

theorem Progress.Move.inRange {p q : Progress} (move : p.Move q) {r : Ref}
    (inside : p.session.heap.InRange r) : q.session.heap.InRange r := by
  cases move with
  | session move => exact move.inRange inside
  | take => exact inside

theorem Progress.Move.wellFormed {p q : Progress} (move : p.Move q) (good : p.WellFormed) :
    q.WellFormed := by
  cases move with
  | session move =>
      refine ⟨move.wellFormed good.session, ?_⟩
      exact fun v member r same => move.inRange (good.taken v member r same)
  | take held => exact ⟨good.session, List.forall_mem_cons.mpr ⟨held, good.taken⟩⟩

abbrev Progress.Moves : Progress → Progress → Prop := ReflTransGen Progress.Move

theorem Progress.Moves.inRange {p q : Progress} (moves : p.Moves q) {r : Ref}
    (inside : p.session.heap.InRange r) : q.session.heap.InRange r := by
  induction moves with
  | refl => exact inside
  | tail _ move ih => exact move.inRange ih

theorem Progress.Moves.holds {p q : Progress} (moves : p.Moves q) {v : Value}
    (held : p.session.heap.Holds v) : q.session.heap.Holds v :=
  fun r same => moves.inRange (held r same)

theorem Progress.Moves.wellFormed {p q : Progress} (moves : p.Moves q) (good : p.WellFormed) :
    q.WellFormed := by
  induction moves with
  | refl => exact good
  | tail _ move ih => exact move.wellFormed ih

def running : Regime Progress where
  Good := Progress.WellFormed
  Step := Progress.Moves
  refl _ := .refl
  trans := ReflTransGen.trans
  keep := Progress.Moves.wellFormed

theorem grows_moves {s : Session} {h : Heap} (grows : s.heap.Grows s.classes h) :
    ReflTransGen Session.Move s { s with heap := h } := by
  induction grows with
  | refl => exact .refl
  | add _ held admitted room ih => exact ih.tail (.add held admitted room)

theorem lift_moves {s t : Session} (moves : ReflTransGen Session.Move s t)
    (taken : List Emission) : Progress.Moves ⟨s, taken⟩ ⟨t, taken⟩ :=
  moves.lift (fun s => Progress.mk s taken) fun _ _ move => .session move

end Dil
