import Dil.Proofs.Eval.Refusals
import Dil.Proofs.Session.Loops
import Dil.Proofs.Session.Sites

/-!
Where a run fails. A run is a sequence of turns to the tasks of its script. All of them end well but
the last one of a run that fails, and the error is the one of that task, with the place of the task.
-/

namespace Dil

/-- A task to which a run has come, and how far it had come before. -/
structure Turn where
  site : Site
  before : Progress

namespace Exec

def following {α : Type} (m : Exec α) (p : Progress) (turns : α → Progress → List Turn) : List Turn :=
  match m p with
  | (.ok a, q) => turns a q
  | (.error _, _) => []

def entriesTurns (round : Value × Value → Exec Unit) (inside : Value × Value → Progress → List Turn) :
    List (Value × Value) → Progress → List Turn
  | [], _ => []
  | e :: es, p => inside e p ++ following (round e) p fun _ q => entriesTurns round inside es q

/-- The turns of a loop, for at most the given number of rounds. Each round starts with the test, and
the last one is nothing else. -/
def whileTurns (test : Site) (holds : Exec Bool) (body : Exec Unit) (inside : Progress → List Turn) :
    Nat → Progress → List Turn
  | 0, _ => []
  | rounds + 1, p =>
    ⟨test, p⟩ :: following holds p fun b q =>
      if b then inside q ++ following body q fun _ r => whileTurns test holds body inside rounds r else []

section Turns

variable (rounds : Nat) (sink : Sink)

mutual

/-- The tasks that a statement comes to, in turn, when it starts in a state inside of others. -/
def turns (around : List Stmt) : Stmt → Progress → List Turn
  | .declare sp d, p => [⟨⟨.leaf (.declare sp d) trivial, around⟩, p⟩]
  | .bind sp name e, p => [⟨⟨.leaf (.bind sp name e) trivial, around⟩, p⟩]
  | .assign sp target path e, p => [⟨⟨.leaf (.assign sp target path e) trivial, around⟩, p⟩]
  | .get sp e, p => [⟨⟨.leaf (.get sp e) trivial, around⟩, p⟩]
  | .branch sp c onTrue onFalse, p =>
    let inside := .branch sp c onTrue onFalse :: around
    ⟨⟨.test c, inside⟩, p⟩ :: following (condition c) p fun b q =>
      if b then blockTurns inside onTrue q else blockTurns inside onFalse q
  | .each sp item key e body, p =>
    let inside := .each sp item key e body :: around
    ⟨⟨.collect e, inside⟩, p⟩ :: following (entries e) p fun found q =>
      entriesTurns (fun entry => do bindEntry item key entry; block rounds sink body)
        (fun entry q => following (bindEntry item key entry) q fun _ r => blockTurns inside body r) found q
  | .loop sp counter c body, p =>
    let inside := .loop sp counter c body :: around
    following (bindNew counter.name (.int 0)) p fun _ q =>
      whileTurns ⟨.test c, inside⟩ (condition c) (block rounds sink body) (blockTurns inside body) rounds q

def blockTurns (around : List Stmt) : List Stmt → Progress → List Turn
  | [], _ => []
  | s :: ss, p =>
    turns around s p ++ following (stmt rounds sink s) p fun _ q => blockTurns around ss q

end

end Turns

def task (rounds : Nat) (sink : Sink) : Task → Exec Unit
  | .leaf s _ => stmt rounds sink s
  | .test c => condition c >>= fun _ => pure ()
  | .collect e => entries e >>= fun _ => pure ()

def Raises {α : Type} (P : ExecError → Prop) (m : Exec α) : Prop :=
  ∀ p stop q, m p = (.error stop, q) → ∃ error, stop = .failed error ∧ P error

def At (span : Span) (error : ExecError) : Prop := error.span = span ∧ error.error.isMisuse = false

section Raises

variable {α β : Type} {P : ExecError → Prop} {span : Span}

theorem Raises.mono {Q : ExecError → Prop} {m : Exec α} (raises : Raises P m) (weaker : ∀ e, P e → Q e) :
    Raises Q m := by
  intro p stop q failed
  obtain ⟨error, same, cause⟩ := raises p stop q failed
  exact ⟨error, same, weaker error cause⟩

theorem Raises.bind {m : Exec α} {k : α → Exec β} (first : Raises P m) (second : ∀ a, Raises P (k a)) :
    Raises P (m >>= k) := by
  intro p stop q failed
  rw [bind_apply] at failed
  rcases run : m p with ⟨e | a, t⟩
  · rw [run] at failed
    cases failed
    exact first p _ _ run
  · rw [run] at failed
    exact second a t stop q failed

theorem raises_pure (a : α) : Raises P (pure a : Exec α) := by
  rintro p stop q ⟨⟩

theorem raises_session : Raises P session := by
  rintro p stop q ⟨⟩

theorem raises_update (change : Progress → Progress) :
    Raises P (fun p => (.ok (), change p) : Exec Unit) := by
  rintro p stop q ⟨⟩

theorem raises_fail {e : EvalError} (cause : P ⟨e, span⟩) : Raises P (fail span e : Exec α) := by
  rintro p stop q ⟨⟩
  exact ⟨_, rfl, cause⟩

theorem raises_ofResult {r : Except EvalError α} (ordinary : Ordinary r) :
    Raises (At span) (ofResult span r) := by
  cases r with
  | ok a => exact raises_pure a
  | error e => exact raises_fail ⟨rfl, EvalError.isMisuse_of_isOrdinary (ordinary e rfl)⟩

theorem raises_evaluate {action : Session → Eval α} (undemanding : ∀ s, (action s).Undemanding) :
    Raises (At span) (evaluate span action) := by
  rintro ⟨s, taken⟩ stop q failed
  have plain := undemanding s s.toStore
  simp only [evaluate, Session.evaluate_apply] at failed
  rcases outcome : action s s.toStore with ⟨e | a, h⟩
  · rw [outcome] at failed plain
    cases failed
    exact ⟨_, rfl, rfl, plain e rfl⟩
  · rw [outcome] at failed
    cases failed

theorem raises_value (e : Expr) : Raises (At span) (value span e) :=
  raises_evaluate fun s => eval_undemanding (newObject_undemanding s.classes) e

theorem raises_write (place : Locator) (v : Value) : Raises (At span) (write span place v) := by
  intro p stop q failed
  unfold write at failed
  split at failed
  · cases failed
  · rename_i e refused
    cases failed
    exact ⟨_, rfl, rfl, EvalError.isMisuse_of_isOrdinary (write_ordinary _ place v e refused)⟩

theorem raises_rebind (name : String) (v : Value) : Raises (At span) (rebind span name v) := by
  unfold rebind
  refine raises_session.bind fun s => ?_
  exact (raises_ofResult (rebind_ordinary s.scope name v)).bind fun scope => raises_update _

theorem raises_declare (d : ClassDecl) : Raises (At span) (declare span d) := by
  unfold declare
  refine (raises_ofResult (ofDecl_ordinary d)).bind fun c => raises_session.bind fun s => ?_
  exact (raises_ofResult (declare_ordinary s.classes c)).bind fun classes => raises_update _

theorem raises_assign (target : Ident) (path : List Segment) (e : Expr) :
    Raises (At span) (assign span target path e) := by
  unfold assign
  refine raises_session.bind fun s => ?_
  refine (raises_ofResult (resolve_ordinary s.scope target.name)).bind fun root => ?_
  split
  · exact (raises_value e).bind fun v => raises_rebind target.name v
  · refine Raises.bind ?_ fun steps => Raises.bind ?_ fun place => ?_
    · exact raises_evaluate fun s => evalSegments_undemanding (newObject_undemanding s.classes) path
    · exact raises_evaluate fun _ => undemanding_look fun h => locate_ordinary h root steps
    · exact (raises_value e).bind fun v => raises_write place v

theorem raises_condition (c : Expr) :
    Raises (fun e => At c.span e ∨ ∃ t, e = ⟨.nonBooleanCondition t, c.span⟩) (condition c) := by
  unfold condition
  refine ((raises_value c).mono fun _ => .inl).bind fun v => ?_
  split
  · exact raises_pure _
  · exact raises_fail (.inr ⟨_, rfl⟩)

theorem raises_entries (e : Expr) :
    Raises (fun error => At e.span error ∨ ∃ t, error = ⟨.notIterable t, e.span⟩) (entries e) := by
  unfold entries
  refine ((raises_value e).mono fun _ => .inl).bind fun v => raises_session.bind fun s => ?_
  split
  · exact raises_pure _
  · exact raises_pure _
  · exact raises_fail (.inr ⟨_, rfl⟩)

end Raises

/-- The task is a `Get`, and for this reason the sink refuses what it hands out. -/
def Refused (sink : Sink) (p : Progress) (k : Task) (error : EvalError) : Prop :=
  ∃ span e v q, k = .leaf (.get span e) trivial ∧ value span e p = (.ok v, q) ∧
    sink.refusal? q.taken ⟨v, q.session.heap.view sink.depth v, e.span⟩ = some error

inductive Cause (sink : Sink) (p : Progress) : Task → EvalError → Prop where
  | plain {k : Task} {error : EvalError} (plain : error.isMisuse = false) : Cause sink p k error
  | test {c : Expr} (tag : Tag) : Cause sink p (.test c) (.nonBooleanCondition tag)
  | collect {e : Expr} (tag : Tag) : Cause sink p (.collect e) (.notIterable tag)
  | refused {k : Task} {error : EvalError} (refused : Refused sink p k error) : Cause sink p k error

theorem Cause.of_nonBoolean {sink : Sink} {p : Progress} {k : Task} {error : EvalError} {tag : Tag}
    (cause : Cause sink p k error) (same : error = .nonBooleanCondition tag) :
    (∃ c, k = .test c) ∨ Refused sink p k error := by
  subst same
  cases cause with
  | plain plain => cases plain
  | test => exact .inl ⟨_, rfl⟩
  | refused refused => exact .inr refused

theorem Cause.of_notIterable {sink : Sink} {p : Progress} {k : Task} {error : EvalError} {tag : Tag}
    (cause : Cause sink p k error) (same : error = .notIterable tag) :
    (∃ e, k = .collect e) ∨ Refused sink p k error := by
  subst same
  cases cause with
  | plain plain => cases plain
  | collect => exact .inl ⟨_, rfl⟩
  | refused refused => exact .inr refused

theorem emit_fails {sink : Sink} {span : Span} {e : Expr} {p q : Progress} {stop : Stop}
    (failed : emit sink span e p = (.error stop, q)) :
    ∃ error, stop = .failed ⟨error, span⟩ ∧
      (error.isMisuse = false ∨ Refused sink p (.leaf (.get span e) trivial) error) := by
  unfold emit at failed
  rw [bind_apply] at failed
  rcases found : value span e p with ⟨other | v, t⟩
  · rw [found] at failed
    cases failed
    obtain ⟨⟨error, place⟩, rfl, rfl, plain⟩ := raises_value e p _ _ found
    exact ⟨error, rfl, .inl plain⟩
  · rw [found] at failed
    simp only at failed
    split at failed
    · cases failed
    · rename_i error refused
      cases failed
      exact ⟨error, rfl, .inr ⟨span, e, v, _, rfl, found, refused⟩⟩

theorem task_fails {rounds : Nat} {sink : Sink} {k : Task} {p q : Progress} {stop : Stop}
    (failed : task rounds sink k p = (.error stop, q)) :
    ∃ error, stop = .failed error ∧ error.span = k.span ∧ Cause sink p k error.error := by
  have plainly {span : Span} {m : Exec Unit} (raises : Raises (At span) m) (run : m p = (.error stop, q)) :
      ∃ error, stop = .failed error ∧ error.span = span ∧ Cause sink p k error.error := by
    obtain ⟨error, same, place, plain⟩ := raises p stop q run
    exact ⟨error, same, place, .plain plain⟩
  cases k with
  | leaf s isLeaf =>
      cases s with
      | declare span d => exact plainly (raises_declare d) failed
      | bind span name e => exact plainly ((raises_value e).bind fun v => raises_update _) failed
      | assign span target path e => exact plainly (raises_assign target path e) failed
      | get span e =>
          obtain ⟨error, rfl, plain | refused⟩ := emit_fails failed
          · exact ⟨_, rfl, rfl, .plain plain⟩
          · exact ⟨_, rfl, rfl, .refused refused⟩
      | branch | each | loop => cases isLeaf
  | test c =>
      obtain ⟨error, rfl, ⟨place, plain⟩ | ⟨t, rfl⟩⟩ :=
        ((raises_condition c).bind fun _ => raises_pure ()) p stop q failed
      · exact ⟨error, rfl, place, .plain plain⟩
      · exact ⟨_, rfl, rfl, .test t⟩
  | collect e =>
      obtain ⟨error, rfl, ⟨place, plain⟩ | ⟨t, rfl⟩⟩ :=
        ((raises_entries e).bind fun _ => raises_pure ()) p stop q failed
      · exact ⟨error, rfl, place, .plain plain⟩
      · exact ⟨_, rfl, rfl, .collect t⟩

end Exec

def Turn.outcome (rounds : Nat) (sink : Sink) (t : Turn) : Except Stop Unit :=
  (Exec.task rounds sink t.site.task t.before).1

namespace Exec

/-- The turns tell how a computation ends. Their tasks end well, but for the last one of a computation
that fails, which fails in the same way. -/
inductive Tells (rounds : Nat) (sink : Sink) {α : Type} : Except Stop α → List Turn → Prop where
  | done {a : α} {ts : List Turn} (well : ∀ t ∈ ts, t.outcome rounds sink = .ok ()) :
      Tells rounds sink (.ok a) ts
  | unfinished {ts : List Turn} (well : ∀ t ∈ ts, t.outcome rounds sink = .ok ()) :
      Tells rounds sink (.error .unfinished) ts
  | failed {error : ExecError} {earlier : List Turn} {last : Turn}
      (well : ∀ t ∈ earlier, t.outcome rounds sink = .ok ())
      (culprit : last.outcome rounds sink = .error (.failed error)) :
      Tells rounds sink (.error (.failed error)) (earlier ++ [last])

section Tells

variable {rounds : Nat} {sink : Sink} {α β : Type} {p : Progress} {ts us : List Turn} {around : List Stmt}

theorem Tells.append {r : Except Stop α} (well : ∀ t ∈ ts, t.outcome rounds sink = .ok ())
    (tells : Tells rounds sink r us) : Tells rounds sink r (ts ++ us) := by
  cases tells with
  | done well' => exact .done (List.forall_mem_append.mpr ⟨well, well'⟩)
  | unfinished well' => exact .unfinished (List.forall_mem_append.mpr ⟨well, well'⟩)
  | failed well' culprit =>
      rw [← List.append_assoc]
      exact .failed (List.forall_mem_append.mpr ⟨well, well'⟩) culprit

theorem Tells.error {stop : Stop} (tells : Tells rounds sink (.error stop : Except Stop α) ts) :
    Tells rounds sink (.error stop : Except Stop β) ts := by
  cases tells with
  | unfinished well => exact .unfinished well
  | failed well culprit => exact .failed well culprit

theorem Tells.bind {m : Exec α} {k : α → Exec β} {next : α → Progress → List Turn}
    (first : Tells rounds sink (m p).1 ts)
    (second : ∀ a q, m p = (.ok a, q) → Tells rounds sink (k a q).1 (next a q)) :
    Tells rounds sink ((m >>= k) p).1 (ts ++ following m p next) := by
  rw [bind_apply, following]
  rcases run : m p with ⟨stop | a, q⟩
  · rw [run] at first
    simpa using first.error
  · rw [run] at first
    cases first with
    | done well => exact (second a q run).append well

theorem Tells.quiet {m : Exec α} {k : α → Exec β} {next : α → Progress → List Turn} {a : α} {q : Progress}
    (run : m p = (.ok a, q)) (tells : Tells rounds sink (k a q).1 (next a q)) :
    Tells rounds sink ((m >>= k) p).1 (following m p next) := by
  rw [bind_of_ok k run, following, run]
  exact tells

theorem tells_task {m : Exec α} {site : Site}
    (same : task rounds sink site.task p = (m >>= fun _ => (pure () : Exec Unit)) p) :
    Tells rounds sink (m p).1 [⟨site, p⟩] := by
  have fails := @task_fails rounds sink site.task p
  have outcome : Turn.outcome rounds sink ⟨site, p⟩ = ((m >>= fun _ => (pure () : Exec Unit)) p).1 :=
    congrArg Prod.fst same
  rw [same, bind_apply] at fails
  rw [bind_apply] at outcome
  rcases run : m p with ⟨stop | a, q⟩
  · rw [run] at outcome fails
    obtain ⟨error, rfl, -⟩ := fails rfl
    have single : Tells rounds sink (.error (.failed error) : Except Stop α) ([] ++ [⟨site, p⟩]) :=
      .failed nofun outcome
    exact single
  · rw [run] at outcome
    exact .done (List.forall_mem_singleton.mpr outcome)

theorem tells_leaf {s : Stmt} (isLeaf : s.IsLeaf) :
    Tells rounds sink (stmt rounds sink s p).1 [⟨⟨.leaf s isLeaf, around⟩, p⟩] := by
  apply tells_task
  rw [bind_apply, task]
  rcases stmt rounds sink s p with ⟨stop | _, q⟩ <;> rfl

theorem bindNew_done (name : String) (v : Value) (p : Progress) : ∃ q, bindNew name v p = (.ok (), q) := by
  have same : bindNew name v p = if p.session.scope.contains name then (.ok (), p) else bind name v p := by
    unfold bindNew
    rw [bind_of_ok _ (show session p = (.ok p.session, p) from rfl)]
    split <;> rfl
  rw [same]
  split <;> exact ⟨_, rfl⟩

theorem tells_forEntries {round : Value × Value → Exec Unit} {inside : Value × Value → Progress → List Turn}
    (each : ∀ e p, Tells rounds sink (round e p).1 (inside e p)) (found : List (Value × Value))
    (p : Progress) :
    Tells rounds sink (forEntries round found p).1 (entriesTurns round inside found p) := by
  induction found generalizing p with
  | nil => exact .done nofun
  | cons e es ih => exact (each e p).bind fun _ q _ => ih q

theorem tells_repeatWhile {test : Site} {holds : Exec Bool} {body : Exec Unit} {inside : Progress → List Turn}
    (tested : ∀ p, Tells rounds sink (holds p).1 [⟨test, p⟩])
    (each : ∀ p, Tells rounds sink (body p).1 (inside p)) (n : Nat) (p : Progress) :
    Tells rounds sink (repeatWhile n holds body p).1 (whileTurns test holds body inside n p) := by
  induction n generalizing p with
  | zero => exact .unfinished (List.forall_mem_nil _)
  | succ n ih =>
      rw [repeatWhile]
      refine (tested p).bind fun goes q _ => ?_
      cases goes with
      | false => exact .done (List.forall_mem_nil _)
      | true => exact (each q).bind fun _ r _ => ih r

-- The turns follow the statements; those of a loop are an induction on its rounds or entries.
mutual

theorem stmt_tells (around : List Stmt) : ∀ (s : Stmt) (p : Progress),
    Tells rounds sink (stmt rounds sink s p).1 (turns rounds sink around s p)
  | .declare .., p | .bind .., p | .assign .., p | .get .., p => by
      rw [turns]
      exact tells_leaf (by trivial)
  | .branch sp c onTrue onFalse, p => by
      rw [stmt, turns]
      refine (tells_task rfl).bind fun b q _ => ?_
      cases b with
      | true => exact block_tells _ onTrue q
      | false => exact block_tells _ onFalse q
  | .each sp item key e body, p => by
      rw [stmt, turns]
      refine (tells_task rfl).bind fun found q _ => ?_
      rw [withLocals_apply]
      refine tells_forEntries (fun entry q => ?_) found q
      exact .quiet (bindEntry_apply item key entry q) (block_tells _ body _)
  | .loop sp counter c body, p => by
      rw [stmt, turns, withLocals_apply]
      obtain ⟨q, started⟩ := bindNew_done counter.name (.int 0) p
      exact .quiet started (tells_repeatWhile (fun p => tells_task rfl) (block_tells _ body) rounds q)

theorem block_tells (around : List Stmt) : ∀ (ss : List Stmt) (p : Progress),
    Tells rounds sink (block rounds sink ss p).1 (blockTurns rounds sink around ss p)
  | [], p => .done nofun
  | s :: ss, p => by
      rw [block, blockTurns]
      exact (stmt_tells around s p).bind fun _ q _ => block_tells around ss q

end

end Tells

section Members

variable {rounds : Nat} {sink : Sink} {P : Turn → Prop}

theorem following_forall {α : Type} {m : Exec α} {p : Progress} {next : α → Progress → List Turn}
    (each : ∀ a q, ∀ t ∈ next a q, P t) : ∀ t ∈ following m p next, P t := by
  unfold following
  split
  · exact each _ _
  · nofun

theorem entriesTurns_forall {round : Value × Value → Exec Unit}
    {inside : Value × Value → Progress → List Turn} (each : ∀ e p, ∀ t ∈ inside e p, P t)
    (found : List (Value × Value)) (p : Progress) : ∀ t ∈ entriesTurns round inside found p, P t := by
  induction found generalizing p with
  | nil => nofun
  | cons e es ih => exact List.forall_mem_append.mpr ⟨each e p, following_forall fun _ q => ih q⟩

theorem whileTurns_forall {test : Site} {holds : Exec Bool} {body : Exec Unit}
    {inside : Progress → List Turn} (tested : ∀ p, P ⟨test, p⟩) (each : ∀ p, ∀ t ∈ inside p, P t) (n : Nat)
    (p : Progress) : ∀ t ∈ whileTurns test holds body inside n p, P t := by
  induction n generalizing p with
  | zero => nofun
  | succ n ih =>
      refine List.forall_mem_cons.mpr ⟨tested p, following_forall fun goes q => ?_⟩
      cases goes with
      | false => nofun
      | true => exact List.forall_mem_append.mpr ⟨each q, following_forall fun _ r => ih r⟩

mutual

theorem turns_sites (around : List Stmt) : ∀ (s : Stmt) (p : Progress),
    ∀ t ∈ turns rounds sink around s p, t.site ∈ s.sites around
  | .declare .., p | .bind .., p | .assign .., p | .get .., p => by
      rw [turns, Stmt.sites]
      exact List.forall_mem_singleton.mpr List.mem_cons_self
  | .branch sp c onTrue onFalse, p => by
      rw [turns, Stmt.sites]
      refine List.forall_mem_cons.mpr ⟨List.mem_cons_self, following_forall fun b q t member => ?_⟩
      cases b with
      | true => exact .tail _ (List.mem_append_left _ (blockTurns_sites _ onTrue q t member))
      | false => exact .tail _ (List.mem_append_right _ (blockTurns_sites _ onFalse q t member))
  | .each sp item key e body, p => by
      rw [turns, Stmt.sites]
      refine List.forall_mem_cons.mpr ⟨List.mem_cons_self, following_forall fun found q => ?_⟩
      refine entriesTurns_forall (fun entry q => following_forall fun _ r t member => ?_) found q
      exact .tail _ (blockTurns_sites _ body r t member)
  | .loop sp counter c body, p => by
      rw [turns, Stmt.sites]
      refine following_forall fun _ q => ?_
      refine whileTurns_forall (fun _ => List.mem_cons_self) (fun r t member => ?_) _ q
      exact .tail _ (blockTurns_sites _ body r t member)

theorem blockTurns_sites (around : List Stmt) : ∀ (ss : List Stmt) (p : Progress),
    ∀ t ∈ blockTurns rounds sink around ss p, t.site ∈ Stmt.blockSites around ss
  | [], p => nofun
  | s :: ss, p => by
      rw [blockTurns, Stmt.blockSites]
      refine List.forall_mem_append.mpr ⟨fun t member => ?_, following_forall fun _ q t member => ?_⟩
      · exact List.mem_append_left _ (turns_sites around s p t member)
      · exact List.mem_append_right _ (blockTurns_sites around ss q t member)

end

end Members

end Exec

def Sink.refusing (error : EvalError) : Sink := ⟨1, fun _ _ => some error⟩

namespace Session

def turns (rounds : Nat) (sink : Sink) (s : Session) (program : Program) : List Turn :=
  Exec.blockTurns rounds sink [] program.statements ⟨s, []⟩

/-- A run that fails fails at the last task to which it comes. All tasks before it end well, and that
one fails with the error of the run, which has the place of the task: of a statement without statements
inside, of the condition of a branch or a loop, or of the collection of a loop. In a script that was
read this is never the place of a statement around the task. Only a condition is told that it is not a
boolean, and only a collection that it has no entries, unless the sink gives that very reason to refuse
what a `Get` hands out. -/
theorem failure_at_last_task (rounds : Nat) (sink : Sink) (s : Session) (program : Program)
    {error : ExecError} (failed : (s.run rounds sink program).ending = .failed error) :
    ∃ earlier last, s.turns rounds sink program = earlier ++ [last] ∧
      (∀ t ∈ earlier ++ [last], t.site ∈ program.sites) ∧
      (∀ t ∈ earlier, t.outcome rounds sink = .ok ()) ∧
      last.outcome rounds sink = .error (.failed error) ∧
      error.span = last.site.task.span ∧
      (∀ source, readProgram source = .ok program → ∀ t ∈ last.site.around, error.span ≠ t.span) ∧
      (∀ tag, error.error = .nonBooleanCondition tag →
        (∃ c, last.site.task = .test c) ∨ Exec.Refused sink last.before last.site.task error.error) ∧
      ∀ tag, error.error = .notIterable tag →
        (∃ e, last.site.task = .collect e) ∨ Exec.Refused sink last.before last.site.task error.error := by
  have tells : Exec.Tells rounds sink _ (s.turns rounds sink program) :=
    Exec.block_tells [] program.statements ⟨s, []⟩
  have sites : ∀ t ∈ s.turns rounds sink program, t.site ∈ program.sites :=
    Exec.blockTurns_sites [] program.statements ⟨s, []⟩
  rw [(run_progress rounds sink s program).2.2] at failed
  generalize s.turns rounds sink program = ts at tells sites
  generalize (Exec.block rounds sink program.statements ⟨s, []⟩).1 = result at tells failed
  cases tells with
  | done | unfinished => cases failed
  | @failed _ earlier last well culprit =>
      cases failed
      have inside : last.site ∈ program.sites := sites last (List.mem_append_right _ List.mem_cons_self)
      obtain ⟨_, same, place, cause⟩ := Exec.task_fails (Prod.ext culprit rfl)
      cases same
      refine ⟨earlier, last, rfl, sites, well, culprit, place, fun source read t around same => ?_,
        fun _ => cause.of_nonBoolean, fun _ => cause.of_notIterable⟩
      have apart := program_inner read last.site inside t around
      rw [← place, same] at apart
      exact Nat.lt_irrefl _ apart

def guarded (around condition inner : Span) (e : Expr) : Program :=
  ⟨[.branch around (.bool condition true) [.get inner e] []], around⟩

/-- A receiver can refuse a value as if it were a condition. And where the places of a script that was not
read are all one, an error has the place of the branch around the statement that fails. -/
theorem refusal_poses_as_condition :
    let posing : ExecError := ⟨.nonBooleanCondition .int, ⟨13, 19⟩⟩
    let script := guarded ⟨0, 25⟩ ⟨3, 7⟩ posing.span (.int ⟨17, 18⟩ 1)
    let plain : ExecError := ⟨.undefinedVariable "x", ⟨0, 6⟩⟩
    let flat := guarded plain.span plain.span plain.span (.var plain.span "x")
    ((new.run 1 (.refusing posing.error) script).ending = .failed posing ∧
      ∀ site ∈ script.sites, ∀ c, site.task = .test c → c.span ≠ posing.span) ∧
    (new.run 1 (.accepting 1) flat).ending = .failed plain ∧
      ∃ last ∈ new.turns 1 (.accepting 1) flat, last.outcome 1 (.accepting 1) = .error (.failed plain) ∧
        ∃ t ∈ last.site.around, t.span = plain.span := by
  intro posing script plain flat
  refine ⟨⟨rfl, ?_⟩, rfl, ⟨⟨.leaf (.get plain.span (.var plain.span "x")) trivial, flat.statements⟩, ⟨new, []⟩⟩,
    List.mem_cons_of_mem _ List.mem_cons_self, rfl, _, List.mem_cons_self, rfl⟩
  simp [script, guarded, posing, Program.sites, Stmt.blockSites, Stmt.sites, Expr.span]

theorem second_test_fails :
    let script := "let c = true; IF c THEN FOREACH x IN [1] DO FOR i WHEN c DO c = 7; ENDFOR ENDFOREACH ENDIF"
    let error : ExecError := ⟨.nonBooleanCondition .int, ⟨55, 56⟩⟩
    ∃ p, readProgram script = .ok p ∧ (new.run 9 (.accepting 2) p).ending = .failed error ∧
      ∃ earlier last, new.turns 9 (.accepting 2) p = earlier ++ [last] ∧
        earlier.map (fun t => t.site.task.span) = [⟨0, 13⟩, ⟨17, 18⟩, ⟨37, 40⟩, ⟨55, 56⟩, ⟨60, 66⟩] ∧
        (∃ c, last.site.task = .test c ∧ c.span = error.span) ∧
        ∀ s ∈ last.site.around, error.span ≠ s.span := by
  intro script error
  have evaluated : (readProgram script).toOption.map (fun p =>
      ((match (new.run 9 (.accepting 2) p).ending with | .failed e => some e | _ => none),
        (new.turns 9 (.accepting 2) p).map fun t => t.site.task.span)) =
      some (some error, [⟨0, 13⟩, ⟨17, 18⟩, ⟨37, 40⟩, ⟨55, 56⟩, ⟨60, 66⟩] ++ [⟨55, 56⟩]) := by
    decide +kernel
  cases read : readProgram script with
  | error cause => simp [read, Except.toOption] at evaluated
  | ok p =>
      rw [read] at evaluated
      obtain ⟨ended, spans⟩ := Prod.mk.inj (Option.some.inj evaluated)
      have failed : (new.run 9 (.accepting 2) p).ending = .failed error := by
        split at ended
        · rename_i e ending
          rw [ending, Option.some.inj ended]
        · cases ended
      obtain ⟨earlier, last, split, -, -, -, place, apart, tested, -⟩ :=
        failure_at_last_task 9 (.accepting 2) new p failed
      rw [split, List.map_append] at spans
      refine ⟨p, rfl, failed, earlier, last, split, List.append_inj_left' spans rfl, ?_, apart script read⟩
      rcases tested .int rfl with ⟨c, test⟩ | ⟨_, _, _, _, _, _, refused⟩
      · rw [test] at place
        exact ⟨c, test, place.symm⟩
      · cases refused

end Session

end Dil
