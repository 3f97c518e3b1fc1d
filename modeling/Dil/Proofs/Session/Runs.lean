import Dil.Proofs.Session.Moves
import Dil.Proofs.Session.Rules

namespace Dil

open Relation (ReflTransGen)

/-- The states that sessions reach from the new one by runs, evaluations and instantiations, each
of which may have failed or stopped midway. -/
inductive Session.Reached : Session → Prop where
  | new : Reached .new
  | run {s : Session} (before : Reached s) (rounds : Nat) (sink : Sink) (program : Program) :
      Reached (s.run rounds sink program).session
  | eval {s : Session} (before : Reached s) (e : Expr) : Reached (s.eval e).2
  | instantiate {s : Session} (before : Reached s) (className : String) :
      Reached (s.instantiate className).2

namespace Exec

theorem evaluate_moves {α : Type} {p : Progress} {Q : α → Heap → Prop} (span : Span)
    (action : Session → Eval α)
    (met : p.session.WellFormed →
      (Heap.growth p.session.classes).Yields (action p.session) p.session.toStore Q) :
    running.Meets (evaluate span action) p fun a q => Q a q.session.heap :=
  evaluate_meets span action (fun good => good.session.cells)
    (fun _ _ grows => lift_moves (grows_moves grows) p.taken) fun good => met good.session

theorem value_moves {p : Progress} (span : Span) (e : Expr) :
    running.Meets (value span e) p fun v q => q.session.heap.Holds v :=
  evaluate_moves span (fun s => Dil.eval (newObject s.classes) s.scope e) fun good =>
    eval_grows (newObject_grows p.session.classes) e p.session.toStore good.bindings

theorem segments_moves (span : Span) (segments : List Segment) (p : Progress) :
    running.Meets (evaluate span fun s => evalSegments (newObject s.classes) s.scope segments) p
      fun _ _ => True :=
  evaluate_moves span (fun s => evalSegments (newObject s.classes) s.scope segments) fun good =>
    evalSegments_grows (newObject_grows p.session.classes) segments p.session.toStore good.bindings

theorem locate_moves (span : Span) {root : Value} (steps : List Step) {p : Progress}
    (held : p.session.heap.Holds root) :
    running.Meets (evaluate span fun _ => Eval.look fun h => h.locate root steps) p
      fun place q => q.session.heap.InRange place.ref := by
  have met : (Heap.growth p.session.classes).Yields
      (Eval.look fun h => h.locate root steps) p.session.toStore fun place h => h.InRange place.ref :=
    look_meets _ fun closed _ located => Heap.locate_inRange closed held located
  exact evaluate_moves span (fun _ => Eval.look fun h => h.locate root steps) fun _ => met

theorem resolved_holds {s : Session} {name : String} {v : Value} (good : s.WellFormed)
    (resolved : s.scope.resolve name = .ok v) : s.heap.Holds v :=
  good.bindings v (value_of_resolve resolved)

theorem drops_moves (names : List String) (p : Progress) :
    p.Moves { p with session.scope := names.foldl Table.erase p.session.scope } := by
  induction names generalizing p with
  | nil => exact .refl
  | cons name names ih => exact .head (.session (.drop name)) (ih _)

theorem running_rules : Rules running (fun _ => True) (fun v p => p.session.heap.Holds v)
    fun place p => p.session.heap.InRange place.ref where
  keep moves held := Progress.Moves.holds moves held
  keepPlace moves inside := Progress.Moves.inRange moves inside
  scalar p scalar := p.session.heap.holds_scalar _ scalar
  bound good member := good.session.bindings _ member
  item good member := Heap.items_holds good.session.cells member
  entry good member := Heap.body_holds good.session.cells member
  value span _ _ := value_moves span _
  segments span p _ _ := (segments_moves span _ p).mono fun _ _ _ _ _ _ => trivial
  locate span held _ := locate_moves span _ held
  bind name _ held := .single (.session (.bind name held))
  register _ _ _ declared := by
    obtain ⟨new, rfl⟩ := declare_new declared
    exact .single (.session (.declare new))
  write _ inside held written := .single (.session (.write inside held written))
  take _ _ _ held := .single (.take held)
  locals _ met good := ⟨(met good).1.trans (drops_moves _ _), fun _ _ => trivial⟩

section Statements

variable {p : Progress}

theorem condition_moves (e : Expr) (p : Progress) :
    running.Meets (condition e) p fun _ _ => True :=
  condition_meets running_rules fun _ _ => trivial

theorem entries_moves (e : Expr) (p : Progress) :
    running.Meets (entries e) p fun found q =>
      ∀ x ∈ found, q.session.heap.Holds x.1 ∧ q.session.heap.Holds x.2 :=
  entries_meets running_rules fun _ _ => trivial

theorem bindNew_moves (name : String) {v : Value} (held : p.session.heap.Holds v) :
    running.Meets (bindNew name v) p fun _ _ => True :=
  bindNew_meets running_rules name held

theorem bindEntry_moves (item : Ident) (key : Option Ident) {x : Value × Value}
    (position : p.session.heap.Holds x.1) (value : p.session.heap.Holds x.2) :
    running.Meets (bindEntry item key x) p fun _ _ => True :=
  bindEntry_meets running_rules item key position value

theorem stmt_moves (rounds : Nat) (sink : Sink) (s : Stmt) (p : Progress) :
    running.Meets (stmt rounds sink s) p fun _ _ => True :=
  stmt_meets running_rules rounds sink s p fun _ _ => trivial

theorem block_moves (rounds : Nat) (sink : Sink) (ss : List Stmt) (p : Progress) :
    running.Meets (block rounds sink ss) p fun _ _ => True :=
  block_meets running_rules rounds sink ss p fun _ _ => trivial

end Statements

end Exec

theorem Progress.Moves.session {p q : Progress} (moves : p.Moves q) :
    ReflTransGen Session.Move p.session q.session := by
  induction moves with
  | refl => exact .refl
  | tail _ move ih =>
      cases move with
      | session move => exact ih.tail move
      | take => exact ih

def Ending.ofResult : Except Stop Unit → Ending
  | .ok () => .finished
  | .error (.failed e) => .failed e
  | .error .unfinished => .unfinished

namespace Session

theorem run_progress (rounds : Nat) (sink : Sink) (s : Session) (program : Program) :
    (s.run rounds sink program).session =
        (Exec.block rounds sink program.statements ⟨s, []⟩).2.session ∧
      (s.run rounds sink program).emissions =
        (Exec.block rounds sink program.statements ⟨s, []⟩).2.taken.reverse ∧
      (s.run rounds sink program).ending =
        .ofResult (Exec.block rounds sink program.statements ⟨s, []⟩).1 := by
  unfold run
  split <;> rename_i outcome <;> rw [outcome] <;> exact ⟨rfl, rfl, rfl⟩

theorem started_wellFormed {s : Session} (good : s.WellFormed) :
    Progress.WellFormed ⟨s, []⟩ := ⟨good, s.heap.holdsAll_nil⟩

theorem run_moves (rounds : Nat) (sink : Sink) {s : Session} (program : Program)
    (good : s.WellFormed) :
    ReflTransGen Session.Move s (s.run rounds sink program).session := by
  rw [(run_progress rounds sink s program).1]
  have met := Exec.block_moves rounds sink program.statements ⟨s, []⟩
  exact (met (started_wellFormed good)).1.session

theorem run_emissions_held (rounds : Nat) (sink : Sink) {s : Session} (program : Program)
    (good : s.WellFormed) {e : Emission} (emitted : e ∈ (s.run rounds sink program).emissions) :
    (s.run rounds sink program).session.heap.Holds e.value := by
  rw [(run_progress rounds sink s program).2.1, List.mem_reverse] at emitted
  rw [(run_progress rounds sink s program).1]
  have started := started_wellFormed good
  have moves := (Exec.block_moves rounds sink program.statements ⟨s, []⟩ started).1
  exact (moves.wellFormed started).taken e.value (List.mem_map.mpr ⟨e, emitted, rfl⟩)

theorem evaluate_session {s : Session} {action : Eval Value} (good : s.WellFormed)
    (met : (Heap.growth s.classes).Yields action s.toStore fun v t => t.Holds v) :
    ReflTransGen Session.Move s (s.evaluate action).2 ∧
      ∀ v, (s.evaluate action).1 = .ok v → (s.evaluate action).2.heap.Holds v := by
  obtain ⟨⟨grows, same⟩, result⟩ := met good.cells
  refine ⟨?_, result⟩
  have after : (s.evaluate action).2 = { s with heap := (action s.toStore).2.heap } := by
    rw [evaluate_apply, ← same]
  rw [after]
  exact grows_moves grows

theorem eval_session {s : Session} (good : s.WellFormed) (e : Expr) :
    ReflTransGen Session.Move s (s.eval e).2 ∧
      ∀ v, (s.eval e).1 = .ok v → (s.eval e).2.heap.Holds v :=
  evaluate_session good (eval_grows (newObject_grows s.classes) e s.toStore good.bindings)

theorem instantiate_session {s : Session} (good : s.WellFormed) (className : String) :
    ReflTransGen Session.Move s (s.instantiate className).2 ∧
      ∀ v, (s.instantiate className).1 = .ok v → (s.instantiate className).2.heap.Holds v :=
  evaluate_session good (newObject_grows s.classes className s.toStore)

theorem new_wellFormed : new.WellFormed :=
  ⟨Heap.empty.holdsAll_nil, Heap.empty_closed⟩

theorem moves_keep {P : Session → Prop} {s t : Session}
    (keep : ∀ {s t : Session}, s.Move t → P s → P t) (moves : ReflTransGen Session.Move s t)
    (good : P s) : P t := by
  induction moves with
  | refl => exact good
  | tail _ move ih => exact keep move ih

theorem moves_wellFormed {s t : Session} (moves : ReflTransGen Session.Move s t)
    (good : s.WellFormed) : t.WellFormed := moves_keep Move.wellFormed moves good

theorem moves_building {s t : Session} (moves : ReflTransGen Session.Move s t) :
    t.building = s.building :=
  moves_keep (fun move same => move.building.trans same) moves rfl

/-- Whatever the calls were and however they ended, they were moves from the new session. -/
theorem reached_moves {s : Session} (reached : s.Reached) :
    ReflTransGen Session.Move new s ∧ s.WellFormed := by
  induction reached with
  | new => exact ⟨.refl, new_wellFormed⟩
  | run _ rounds sink program ih =>
      have moves := run_moves rounds sink program ih.2
      exact ⟨ih.1.trans moves, moves_wellFormed moves ih.2⟩
  | eval _ e ih =>
      have moves := (eval_session ih.2 e).1
      exact ⟨ih.1.trans moves, moves_wellFormed moves ih.2⟩
  | instantiate _ className ih =>
      have moves := (instantiate_session ih.2 className).1
      exact ⟨ih.1.trans moves, moves_wellFormed moves ih.2⟩

theorem reached_building {s : Session} (reached : s.Reached) : s.building = [] :=
  moves_building (reached_moves reached).1

/-- A cell that is there has a number of 32 bits. -/
theorem reached_bounded {s : Session} (reached : s.Reached) : s.heap.Bounded :=
  moves_keep Move.bounded (reached_moves reached).1 Heap.empty_bounded

theorem eval_empty (s : Session) (sp : Span) :
    s.eval (.array sp []) = s.evaluate (Eval.alloc (.array [])) := rfl

theorem count_reached (n : Nat) (few : n ≤ Heap.handles) :
    ∃ s : Session, s.Reached ∧ s.heap.count .array = n := by
  induction n with
  | zero => exact ⟨new, .new, rfl⟩
  | succ n ih =>
      obtain ⟨s, reached, count⟩ := ih (Nat.le_of_succ_le few)
      refine ⟨_, reached.eval (.array ⟨0, 2⟩ []), ?_⟩
      have room : ¬ s.heap.Full .array := by
        unfold Heap.Full
        omega
      rcases Eval.alloc_cases (.array []) s.toStore with ⟨_, done⟩ | ⟨full, _⟩
      · calc (s.eval (.array ⟨0, 2⟩ [])).2.heap.count .array
          _ = (s.heap.add (.array [])).2.count .array := by rw [eval_empty, s.evaluate_of done]
          _ = s.heap.count .array + 1 := Heap.add_count s.heap (.array []) .array
          _ = n + 1 := by rw [count]
      · exact absurd full room

/-- A session that makes arrays for long enough comes to one that it cannot make. -/
theorem exhaustion_reached :
    ∃ s : Session, s.Reached ∧ ∀ sp, (s.eval (.array sp [])).1 = .error (.heapExhausted .array) := by
  obtain ⟨s, reached, count⟩ := count_reached Heap.handles (Nat.le_refl _)
  refine ⟨s, reached, fun sp => ?_⟩
  have full : s.heap.Full .array := Nat.le_of_eq count.symm
  rcases Eval.alloc_cases (.array []) s.toStore with ⟨room, _⟩ | ⟨_, refused⟩
  · exact absurd full room
  · rw [eval_empty, s.evaluate_of refused]
    rfl

end Session

end Dil
