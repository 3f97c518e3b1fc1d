import Dil.Proofs.Eval.Additions
import Dil.Proofs.Session.Runs

namespace Dil

def Stmt.IsLeaf : Stmt → Prop
  | .declare .. | .bind .. | .assign .. | .get .. => True
  | .branch .. | .each .. | .loop .. => False

/-- Nothing has happened but that cells were added. -/
structure Progress.Spares (p q : Progress) : Prop where
  scope : q.session.scope = p.session.scope
  classes : q.session.classes = p.session.classes
  building : q.session.building = p.session.building
  taken : q.taken = p.taken
  heap : p.session.heap.Begins q.session.heap

theorem Progress.Spares.refl (p : Progress) : p.Spares p :=
  ⟨rfl, rfl, rfl, rfl, Heap.Begins.refl _⟩

theorem Progress.Spares.trans {p q r : Progress} (first : p.Spares q) (second : q.Spares r) :
    p.Spares r :=
  ⟨second.scope.trans first.scope, second.classes.trans first.classes,
    second.building.trans first.building, second.taken.trans first.taken,
    first.heap.trans second.heap⟩

/-- The preparations of a statement: evaluating, resolving and locating. -/
def preparing : Regime Progress where
  Good _ := True
  Step := Progress.Spares
  refl := Progress.Spares.refl
  trans := Progress.Spares.trans
  keep _ _ := trivial

namespace Exec

variable {α β : Type}

/-- A computation that only prepares, also when it succeeds. -/
def Prepares (m : Exec α) : Prop := ∀ p, preparing.Meets m p fun _ _ => True

/-- A computation that may change things, but only if it succeeds. -/
def FailsClean (m : Exec α) : Prop := ∀ p stop q, m p = (.error stop, q) → p.Spares q

theorem Prepares.bind {m : Exec α} {k : α → Exec β} (first : Prepares m)
    (second : ∀ a, FailsClean (k a)) : FailsClean (m >>= k) := by
  intro p stop q failed
  have step := ((first p) trivial).1
  rw [bind_apply] at failed
  rcases outcome : m p with ⟨e | a, t⟩
  all_goals rw [outcome] at failed step
  · cases failed
    exact step
  · exact step.trans (second a t stop q failed)

theorem evaluate_prepares (span : Span) (action : Session → Eval α)
    (adds : ∀ s, (action s).Adds) : Prepares (evaluate span action) :=
  fun p => evaluate_meets (R := preparing) span action (fun _ => trivial)
    (fun _ _ begins => ⟨rfl, rfl, rfl, rfl, begins⟩) fun _ => adds p.session p.session.toStore

theorem value_prepares (span : Span) (e : Expr) : Prepares (value span e) :=
  evaluate_prepares span _ fun s => eval_adds (newObject_adds s.classes) e

theorem segments_prepares (span : Span) (path : List Segment) :
    Prepares (evaluate span fun s => evalSegments (newObject s.classes) s.scope path) :=
  evaluate_prepares span _ fun s => evalSegments_adds (newObject_adds s.classes) path

theorem locate_prepares (span : Span) (root : Value) (steps : List Step) :
    Prepares (evaluate span fun _ => Eval.look fun h => h.locate root steps) :=
  evaluate_prepares span _ fun _ => look_adds _

theorem ofResult_prepares (span : Span) (r : Except EvalError α) : Prepares (ofResult span r) :=
  fun _ => (ofResult_meets span r).mono fun _ _ _ _ => trivial

theorem session_prepares : Prepares session :=
  fun _ => session_meets.mono fun _ _ _ _ => trivial

theorem update_failsClean (change : Progress → Progress) :
    FailsClean (fun p => (.ok (), change p) : Exec Unit) := by
  rintro p stop q ⟨⟩

theorem write_failsClean (span : Span) (place : Locator) (v : Value) :
    FailsClean (write span place v) := by
  intro p stop q failed
  unfold write at failed
  split at failed <;> cases failed
  exact Progress.Spares.refl p

theorem rebind_failsClean (span : Span) (name : String) (v : Value) :
    FailsClean (rebind span name v) := by
  unfold rebind
  apply session_prepares.bind
  intro s
  apply (ofResult_prepares span (s.scope.rebind name v)).bind
  intro scope
  exact update_failsClean _

theorem declare_failsClean (span : Span) (d : ClassDecl) : FailsClean (declare span d) := by
  unfold declare
  apply (ofResult_prepares span (ClassDef.ofDecl d)).bind
  intro c
  apply session_prepares.bind
  intro s
  apply (ofResult_prepares span (s.classes.declare c)).bind
  intro classes
  exact update_failsClean _

theorem assign_failsClean (span : Span) (target : Ident) (path : List Segment) (e : Expr) :
    FailsClean (assign span target path e) := by
  unfold assign
  apply session_prepares.bind
  intro s
  apply (ofResult_prepares span (s.scope.resolve target.name)).bind
  intro root
  split
  · exact (value_prepares span e).bind fun v => rebind_failsClean span target.name v
  · apply (segments_prepares span path).bind
    intro steps
    apply (locate_prepares span root steps).bind
    intro place
    exact (value_prepares span e).bind fun v => write_failsClean span place v

theorem emit_failsClean (sink : Sink) (span : Span) (e : Expr) :
    FailsClean (emit sink span e) := by
  unfold emit
  apply (value_prepares span e).bind
  intro v p stop q failed
  simp only at failed
  split at failed <;> cases failed
  exact Progress.Spares.refl p

theorem leaf_failsClean (rounds : Nat) (sink : Sink) {s : Stmt} (leaf : s.IsLeaf) :
    FailsClean (stmt rounds sink s) := by
  cases s with
  | declare span d =>
      rw [stmt]
      exact declare_failsClean span d
  | bind span name e =>
      rw [stmt]
      exact (value_prepares span e).bind fun v => update_failsClean _
  | assign span target path e =>
      rw [stmt]
      exact assign_failsClean span target path e
  | get span e =>
      rw [stmt]
      exact emit_failsClean sink span e
  | branch | each | loop => cases leaf

/-- When a statement without statements inside fails, at whatever point of a run and for whatever
reason, all names, classes, emissions and cells are as before, and new cells stand only behind the
old ones. No object is left half made: the same ones are being made as before, and where the state is
one between two calls, there are none. -/
theorem failed_leaf_changes_nothing (rounds : Nat) (sink : Sink) {s : Stmt} (leaf : s.IsLeaf)
    {p q : Progress} {stop : Stop} (failed : stmt rounds sink s p = (.error stop, q)) :
    q.session.scope = p.session.scope ∧
    q.session.classes = p.session.classes ∧
    q.taken = p.taken ∧
    p.session.heap.Begins q.session.heap ∧
    (∀ r c, p.session.heap.cell? r = some c → q.session.heap.cell? r = some c) ∧
    q.session.building = p.session.building ∧
    (p.session.Reached → q.session.building = []) := by
  have spares := leaf_failsClean rounds sink leaf p stop q failed
  refine ⟨spares.scope, spares.classes, spares.taken, spares.heap, ?_, spares.building, ?_⟩
  · intro r c found
    exact spares.heap.cell found
  · intro reached
    exact spares.building.trans (Session.reached_building reached)

def typedObject : Progress :=
  ⟨(Session.new.run 1 (.accepting 2)
    ⟨[.declare ⟨0, 37⟩ ⟨⟨"C", ⟨6, 7⟩⟩,
        [⟨⟨"x", ⟨10, 11⟩⟩, .int ⟨13, 14⟩ 7, some ⟨.int, ⟨18, 21⟩⟩, false, ⟨10, 22⟩⟩], ⟨0, 37⟩⟩,
      .bind ⟨38, 54⟩ ⟨"o", ⟨42, 43⟩⟩ (.create ⟨46, 53⟩ ⟨"C", ⟨46, 47⟩⟩)], ⟨0, 54⟩⟩).session, []⟩

def refusedWrite : Stmt :=
  .assign ⟨0, 22⟩ ⟨"o", ⟨0, 1⟩⟩ [.field ⟨"x", ⟨3, 4⟩⟩]
    (.array ⟨7, 21⟩ [.create ⟨8, 15⟩ ⟨"C", ⟨8, 9⟩⟩])

theorem refused_write_changes_nothing :
    let after := (stmt 1 (.accepting 2) refusedWrite typedObject).2
    (stmt 1 (.accepting 2) refusedWrite typedObject).1 =
      .error (.failed ⟨.typeMismatch "x" .int .array, ⟨0, 22⟩⟩) ∧
    after.session.heap.size = typedObject.session.heap.size + 2 ∧
    after.session.scope = typedObject.session.scope ∧
    typedObject.session.heap.Begins after.session.heap ∧
    after.session.building = [] := by
  have failed : stmt 1 (.accepting 2) refusedWrite typedObject =
      (.error (.failed ⟨.typeMismatch "x" .int .array, ⟨0, 22⟩⟩),
        (stmt 1 (.accepting 2) refusedWrite typedObject).2) := rfl
  have reached : typedObject.session.Reached := .run .new 1 (.accepting 2) _
  obtain ⟨scope, _, _, begins, _, _, done⟩ :=
    failed_leaf_changes_nothing 1 (.accepting 2) (s := refusedWrite) trivial failed
  exact ⟨rfl, rfl, scope, begins, done reached⟩

end Exec

end Dil
