import Dil.Proofs.Eval.Places
import Dil.Proofs.Session.Loops
import Dil.Proofs.Session.Runs

/-!
Runs up to places, and one run after another. The places in a script only show in the places of
emissions and errors, and of the expressions that classes keep. A script in two parts runs like the
first part and then the second, which goes on with the session and the emissions of the first.
-/

namespace Dil

def FieldDef.unplaced (f : FieldDef) : FieldDef := { f with value := f.value.unplaced }

def ClassDef.unplaced (c : ClassDef) : ClassDef :=
  ⟨c.name, c.fields.map FieldDef.unplaced, by rw [List.map_map]; exact c.distinct⟩

def Classes.unplaced (classes : Classes) : Classes := classes.mapValues ClassDef.unplaced

theorem FieldDef.ofDecl_unplaced (d : FieldDecl) : ofDecl d.unplaced = (ofDecl d).unplaced := by
  cases kind : d.type <;> simp [ofDecl, FieldDecl.unplaced, unplaced, Ident.unplaced,
    TypeName.unplaced, kind]

theorem ClassDef.ofDecl_unplaced (d : ClassDecl) :
    ofDecl d.unplaced = (ofDecl d).map ClassDef.unplaced := by
  have names : d.unplaced.fields.map (fun f => f.name.name) = d.fields.map fun f => f.name.name := by
    simp [ClassDecl.unplaced, FieldDecl.unplaced, Ident.unplaced]
  have fields : d.unplaced.fields.map FieldDef.ofDecl =
      (d.fields.map FieldDef.ofDecl).map FieldDef.unplaced := by
    simp [ClassDecl.unplaced, FieldDef.ofDecl_unplaced]
  unfold ofDecl
  split
  · rename_i field repeated
    rw [names] at repeated
    split
    · rename_i field' repeated'
      rw [repeated] at repeated'
      cases repeated'
      rfl
    · rename_i unrepeated
      rw [repeated] at unrepeated
      cases unrepeated
  · rename_i unrepeated
    rw [names] at unrepeated
    split
    · rename_i field repeated
      rw [repeated] at unrepeated
      cases unrepeated
    · simp only [Except.map, unplaced, fields]
      rfl

theorem newSlots_unplaced (create : String → Eval Value) (fields : List FieldDef)
    (body : Table Slot) :
    newSlots create (fields.map FieldDef.unplaced) body = newSlots create fields body := by
  induction fields generalizing body with
  | nil => rfl
  | cons f fs ih =>
      have slot : newSlot create f.unplaced = newSlot create f := by
        simp only [newSlot, FieldDef.unplaced, eval_unplaced]
      rw [List.map_cons, newSlots, newSlots, slot]
      simp only [ih, FieldDef.unplaced]

theorem instantiate_unplaced (classes : Classes) (depth : Nat) (name : String) :
    instantiate classes.unplaced depth name = instantiate classes depth name := by
  induction depth generalizing name with
  | zero => rfl
  | succ depth ih =>
      have inner : instantiate classes.unplaced depth = instantiate classes depth := funext ih
      rw [instantiate, instantiate, Classes.unplaced, Table.find_mapValues]
      rw [Classes.unplaced] at inner
      cases classes.find? name with
      | none => rfl
      | some c => simp only [Option.map_some, ClassDef.unplaced, newSlots_unplaced, inner]

theorem newObject_unplaced (classes : Classes) :
    newObject classes.unplaced = newObject classes := by
  funext name
  rw [newObject, newObject, instantiate_unplaced, Classes.unplaced, Table.size_mapValues]

def Session.unplaced (s : Session) : Session := { s with classes := s.classes.unplaced }

def Emission.unplaced (e : Emission) : Emission := { e with span := .nowhere }

def Stop.unplaced : Stop → Stop
  | .failed e => .failed ⟨e.error, .nowhere⟩
  | .unfinished => .unfinished

def Ending.unplaced : Ending → Ending
  | .finished => .finished
  | .failed e => .failed ⟨e.error, .nowhere⟩
  | .unfinished => .unfinished

def Report.unplaced (r : Report) : Report :=
  ⟨r.session.unplaced, r.emissions.map Emission.unplaced, r.ending.unplaced⟩

def Sink.Placeless (sink : Sink) : Prop := ∀ taken e,
  sink.refusal? (taken.map Emission.unplaced) e.unplaced = sink.refusal? taken e

def Sink.after (sink : Sink) (earlier : List Emission) : Sink :=
  ⟨sink.depth, fun taken e => sink.refusal? (taken ++ earlier) e⟩

/-- What another run has come to, without the places, and after some earlier emissions. -/
def Progress.mirrored (earlier : List Emission) (p : Progress) : Progress :=
  ⟨p.session.unplaced, p.taken.map Emission.unplaced ++ earlier⟩

/-- The other sink shows values alike, and treats them alike after those earlier emissions. -/
structure Sink.Mirrors (earlier : List Emission) (sink sink' : Sink) : Prop where
  depth : sink'.depth = sink.depth
  refusal : ∀ taken e, sink'.refusal? (taken.map Emission.unplaced ++ earlier) e.unplaced =
    sink.refusal? taken e

theorem Sink.Placeless.mirrors {sink : Sink} (placeless : sink.Placeless) (earlier : List Emission) :
    Sink.Mirrors (earlier.map Emission.unplaced) (sink.after earlier) sink where
  depth := rfl
  refusal taken e := by
    rw [← List.map_append]
    exact placeless (taken ++ earlier) e

namespace Exec

variable {α β γ δ : Type} {earlier : List Emission}

def mirroredResult (f : α → β) : Except Stop α → Except Stop β
  | .ok a => .ok (f a)
  | .error stop => .error stop.unplaced

def Mirrors (earlier : List Emission) (f : α → β) (m : Exec α) (m' : Exec β) : Prop :=
  ∀ p, m' (p.mirrored earlier) = (mirroredResult f (m p).1, (m p).2.mirrored earlier)

theorem Mirrors.bind {f : α → β} {g : γ → δ} {m : Exec α} {m' : Exec β} {k : α → Exec γ}
    {k' : β → Exec δ} (first : Mirrors earlier f m m')
    (second : ∀ a, Mirrors earlier g (k a) (k' (f a))) : Mirrors earlier g (m >>= k) (m' >>= k') := by
  intro p
  rw [bind_apply, bind_apply, first p]
  rcases m p with ⟨e | a, q⟩
  · rfl
  · exact second a q

theorem pure_mirrors (f : α → β) (a : α) : Mirrors earlier f (pure a) (pure (f a)) := fun _ => rfl

theorem throw_mirrors (f : α → β) (stop : Stop) :
    Mirrors earlier f (throw stop) (throw stop.unplaced) := fun _ => rfl

theorem fail_mirrors (f : α → β) (span : Span) (e : EvalError) :
    Mirrors earlier f (fail span e) (fail .nowhere e) := fun _ => rfl

theorem session_mirrors : Mirrors earlier Session.unplaced session session := fun _ => rfl

theorem bind_mirrors (name : String) (v : Value) :
    Mirrors earlier id (bind name v) (bind name v) := fun _ => rfl

theorem ofResult_mirrors (f : α → β) (span : Span) (r : Except EvalError α) :
    Mirrors earlier f (ofResult span r) (ofResult .nowhere (r.map f)) := by
  cases r with
  | ok a => exact pure_mirrors f a
  | error e => exact fail_mirrors f span e

theorem evaluate_mirrors (span : Span) {action action' : Session → Eval α}
    (same : ∀ s, action' s.unplaced = action s) :
    Mirrors earlier id (evaluate span action) (evaluate .nowhere action') := by
  rintro ⟨⟨store, classes, scope⟩, taken⟩
  have image : action' ⟨store, classes.unplaced, scope⟩ = action ⟨store, classes, scope⟩ :=
    same ⟨store, classes, scope⟩
  simp only [evaluate, Session.evaluate, Progress.mirrored, Session.unplaced, image]
  rcases action ⟨store, classes, scope⟩ store with ⟨e | a, t⟩ <;> rfl

theorem value_mirrors (span : Span) (e : Expr) :
    Mirrors earlier id (value span e) (value .nowhere e.unplaced) := by
  apply evaluate_mirrors
  intro s
  rw [eval_unplaced, Session.unplaced, newObject_unplaced]

theorem declare_mirrors (span : Span) (d : ClassDecl) :
    Mirrors earlier id (declare span d) (declare .nowhere d.unplaced) := by
  unfold declare
  rw [ClassDef.ofDecl_unplaced]
  apply (ofResult_mirrors ClassDef.unplaced span (ClassDef.ofDecl d)).bind
  intro c
  apply session_mirrors.bind
  intro s
  have declared : s.unplaced.classes.declare c.unplaced =
      (s.classes.declare c).map Classes.unplaced := by
    have inserted := Table.insert_mapValues ClassDef.unplaced s.classes c.name c
    simp only [Classes.declare, Session.unplaced, Classes.unplaced, Table.contains_mapValues]
    change (if s.classes.contains c.name then _ else
      Except.ok ((s.classes.mapValues ClassDef.unplaced).insert c.name c.unplaced)) = _
    rw [inserted]
    split <;> rfl
  rw [declared]
  apply (ofResult_mirrors Classes.unplaced span (s.classes.declare c)).bind
  intro classes p
  rfl

theorem rebind_mirrors (span : Span) (name : String) (v : Value) :
    Mirrors earlier id (rebind span name v) (rebind .nowhere name v) := by
  unfold rebind
  apply session_mirrors.bind
  intro s
  have rebound : Mirrors earlier id (ofResult span (s.scope.rebind name v))
      (ofResult .nowhere (s.scope.rebind name v)) := by
    have image : Mirrors earlier id _ _ := ofResult_mirrors id span (s.scope.rebind name v)
    rwa [Except.map_id] at image
  apply rebound.bind
  intro scope p
  rfl

theorem write_mirrors (span : Span) (place : Locator) (v : Value) :
    Mirrors earlier id (write span place v) (write .nowhere place v) := by
  intro p
  simp only [write, Progress.mirrored, Session.unplaced]
  cases p.session.heap.write place v <;> rfl

theorem segments_mirrors (span : Span) (path : List Segment) :
    Mirrors earlier id
      (evaluate span fun s => evalSegments (newObject s.classes) s.scope path)
      (evaluate .nowhere fun s => evalSegments (newObject s.classes) s.scope
        (path.map Segment.unplaced)) := by
  apply evaluate_mirrors
  intro s
  rw [← Expr.unplacedSegments_eq, evalSegments_unplaced, Session.unplaced, newObject_unplaced]

theorem resolve_mirrors (span : Span) (s : Session) (name : String) :
    Mirrors earlier id (ofResult span (s.scope.resolve name))
      (ofResult .nowhere (s.unplaced.scope.resolve name)) := by
  have image : Mirrors earlier id _ _ := ofResult_mirrors id span (s.scope.resolve name)
  rwa [Except.map_id] at image

theorem assign_mirrors (span : Span) (target : Ident) (path : List Segment) (e : Expr) :
    Mirrors earlier id (assign span target path e)
      (assign .nowhere target.unplaced (path.map Segment.unplaced) e.unplaced) := by
  unfold assign
  apply session_mirrors.bind
  intro s
  apply (resolve_mirrors span s target.name).bind
  intro root
  cases path with
  | nil =>
      apply (value_mirrors span e).bind
      intro v
      exact rebind_mirrors span target.name v
  | cons segment path =>
      apply (segments_mirrors span (segment :: path)).bind
      intro steps
      have located : Mirrors earlier id
          (evaluate span fun _ => Eval.look fun h => h.locate root steps)
          (evaluate .nowhere fun _ => Eval.look fun h => h.locate root steps) :=
        evaluate_mirrors span fun _ => rfl
      apply located.bind
      intro place
      apply (value_mirrors span e).bind
      intro v
      exact write_mirrors span place v

theorem emit_mirrors {sink sink' : Sink} (mirrors : Sink.Mirrors earlier sink sink') (span : Span)
    (e : Expr) : Mirrors earlier id (emit sink span e) (emit sink' .nowhere e.unplaced) := by
  unfold emit
  apply (value_mirrors span e).bind
  intro v p
  have asked := mirrors.refusal p.taken ⟨v, p.session.heap.view sink.depth v, e.span⟩
  simp only [Progress.mirrored, Session.unplaced, mirrors.depth, Chain.span_unplaced, id_eq]
  rw [Emission.unplaced] at asked
  rw [asked]
  cases sink.refusal? p.taken ⟨v, p.session.heap.view sink.depth v, e.span⟩ <;> rfl

theorem condition_mirrors (e : Expr) :
    Mirrors earlier id (condition e) (condition e.unplaced) := by
  unfold condition
  rw [Chain.span_unplaced]
  apply (value_mirrors e.span e).bind
  intro v
  cases v with
  | bool b => exact pure_mirrors id b
  | null | int | float | str | ref => exact fail_mirrors id e.span _

theorem entries_mirrors (e : Expr) : Mirrors earlier id (entries e) (entries e.unplaced) := by
  unfold entries
  rw [Chain.span_unplaced]
  apply (value_mirrors e.span e).bind
  intro v
  apply session_mirrors.bind
  intro s
  cases v with
  | null | bool | int | float | str => exact fail_mirrors id e.span _
  | ref r =>
      cases r with
      | array i => exact pure_mirrors id _
      | map i => exact pure_mirrors id _
      | object i => exact fail_mirrors id e.span _

theorem withLocals_mirrors (names : List String) {action action' : Exec Unit}
    (mirrors : Mirrors earlier id action action') :
    Mirrors earlier id (withLocals names action) (withLocals names action') := by
  intro p
  rw [withLocals_apply, withLocals_apply, mirrors p]
  rfl

theorem bindNew_mirrors (name : String) (v : Value) :
    Mirrors earlier id (bindNew name v) (bindNew name v) := by
  unfold bindNew
  apply session_mirrors.bind
  intro s
  change Mirrors earlier id _ (if s.scope.contains name then pure () else bind name v)
  split
  · exact pure_mirrors id ()
  · exact bind_mirrors name v

theorem bindEntry_mirrors (item : Ident) (key : Option Ident) (e : Value × Value) :
    Mirrors earlier id (bindEntry item key e)
      (bindEntry item.unplaced (key.map Ident.unplaced) e) := by
  unfold bindEntry
  apply (bind_mirrors item.name e.2).bind
  intro _
  cases key with
  | none => exact pure_mirrors id ()
  | some k => exact bind_mirrors k.name e.1

theorem repeatWhile_mirrors {holds holds' : Exec Bool} {body body' : Exec Unit}
    (tests : Mirrors earlier id holds holds') (bodies : Mirrors earlier id body body') (n : Nat) :
    Mirrors earlier id (repeatWhile n holds body) (repeatWhile n holds' body') := by
  induction n with
  | zero => exact throw_mirrors id .unfinished
  | succ n ih =>
      rw [repeatWhile, repeatWhile]
      apply tests.bind
      intro goes
      cases goes with
      | false => exact pure_mirrors id ()
      | true => exact bodies.bind fun _ => ih

theorem forEntries_mirrors {body body' : Value × Value → Exec Unit}
    (bodies : ∀ e, Mirrors earlier id (body e) (body' e)) (found : List (Value × Value)) :
    Mirrors earlier id (forEntries body found) (forEntries body' found) := by
  induction found with
  | nil => exact pure_mirrors id ()
  | cons e es ih =>
      rw [forEntries, forEntries]
      exact (bodies e).bind fun _ => ih

section Statements

variable {sink sink' : Sink}

-- The induction is on statements; a loop inside is an induction on its rounds or entries.
mutual

theorem stmt_mirrors (mirrors : Sink.Mirrors earlier sink sink') (rounds : Nat) : ∀ s : Stmt,
    Mirrors earlier id (stmt rounds sink s) (stmt rounds sink' s.unplaced)
  | .declare span d => by
      rw [Stmt.unplaced, stmt, stmt]
      exact declare_mirrors span d
  | .bind span name e => by
      rw [Stmt.unplaced, stmt, stmt]
      apply (value_mirrors span e).bind
      intro v
      exact bind_mirrors name.name v
  | .assign span target path e => by
      rw [Stmt.unplaced, stmt, stmt]
      exact assign_mirrors span target path e
  | .get span e => by
      rw [Stmt.unplaced, stmt, stmt]
      exact emit_mirrors mirrors span e
  | .branch _ c onTrue onFalse => by
      rw [Stmt.unplaced, stmt, stmt]
      apply (condition_mirrors c).bind
      intro b
      cases b with
      | true => exact block_mirrors mirrors rounds onTrue
      | false => exact block_mirrors mirrors rounds onFalse
  | .each _ item key collection body => by
      rw [Stmt.unplaced, stmt, stmt]
      apply (entries_mirrors collection).bind
      intro found
      have names : item.unplaced.name :: ((key.map Ident.unplaced).map Ident.name).toList =
          item.name :: (key.map Ident.name).toList := by cases key <;> rfl
      simp only [names]
      apply withLocals_mirrors
      apply forEntries_mirrors
      intro e
      exact (bindEntry_mirrors item key e).bind fun _ => block_mirrors mirrors rounds body
  | .loop _ counter c body => by
      rw [Stmt.unplaced, stmt, stmt]
      apply withLocals_mirrors
      apply (bindNew_mirrors counter.name (.int 0)).bind
      intro _
      exact repeatWhile_mirrors (condition_mirrors c) (block_mirrors mirrors rounds body) rounds

theorem block_mirrors (mirrors : Sink.Mirrors earlier sink sink') (rounds : Nat) :
    ∀ ss : List Stmt,
    Mirrors earlier id (block rounds sink ss) (block rounds sink' (Stmt.unplacedBlock ss))
  | [] => by
      rw [Stmt.unplacedBlock, block, block]
      exact pure_mirrors id ()
  | s :: ss => by
      rw [Stmt.unplacedBlock, block, block]
      exact (stmt_mirrors mirrors rounds s).bind fun _ => block_mirrors mirrors rounds ss

end

end Statements

theorem block_append (rounds : Nat) (sink : Sink) (ss ts : List Stmt) :
    block rounds sink (ss ++ ts) = (do block rounds sink ss; block rounds sink ts) := by
  induction ss with
  | nil =>
      rw [List.nil_append, block]
      exact (pure_bind () fun _ => block rounds sink ts).symm
  | cons s ss ih => rw [List.cons_append, block, ih, block, bind_assoc]

end Exec

namespace Session

variable {sink : Sink}

def report (r : Except Stop Unit) (p : Progress) : Report :=
  ⟨p.session, p.taken.reverse, .ofResult r⟩

theorem run_report (rounds : Nat) (sink : Sink) (s : Session) (program : Program) :
    s.run rounds sink program =
      report (Exec.block rounds sink program.statements ⟨s, []⟩).1
        (Exec.block rounds sink program.statements ⟨s, []⟩).2 := by
  obtain ⟨session, emissions, ending⟩ := run_progress rounds sink s program
  rw [report, ← session, ← emissions, ← ending]

theorem report_unplaced (r : Except Stop Unit) (p : Progress) :
    (report r p).unplaced = report (Exec.mirroredResult id r) (p.mirrored []) := by
  rcases r with ⟨_ | _⟩ | _ <;> simp [report, Report.unplaced, Progress.mirrored, Ending.ofResult,
    Exec.mirroredResult, Stop.unplaced, Ending.unplaced]

/-- A script whose statements are those of two others, up to places, runs like the first of them. If
that one finishes, it goes on like the second, in the session and with the emissions of the first. -/
theorem run_in_parts (rounds : Nat) (placeless : sink.Placeless) (s : Session)
    {first second whole : Program}
    (parts : whole.statements.map Stmt.unplaced =
      first.statements.map Stmt.unplaced ++ second.statements.map Stmt.unplaced) :
    let r₁ := s.run rounds sink first
    let r₂ := r₁.session.run rounds (sink.after r₁.emissions.reverse) second
    (r₁.ending = .finished → (s.run rounds sink whole).unplaced =
      Report.unplaced ⟨r₂.session, r₁.emissions ++ r₂.emissions, r₂.ending⟩) ∧
    (r₁.ending ≠ .finished → (s.run rounds sink whole).unplaced = r₁.unplaced) := by
  have mirrors : Sink.Mirrors [] sink sink := by
    refine ⟨rfl, fun taken e => ?_⟩
    rw [List.append_nil]
    exact placeless taken e
  have halves : Exec.block rounds sink (Stmt.unplacedBlock whole.statements) =
      (do Exec.block rounds sink (Stmt.unplacedBlock first.statements)
          Exec.block rounds sink (Stmt.unplacedBlock second.statements)) := by
    rw [Stmt.unplacedBlock_eq, parts, Exec.block_append, Stmt.unplacedBlock_eq,
      Stmt.unplacedBlock_eq]
  have complete := Exec.block_mirrors mirrors rounds whole.statements ⟨s, []⟩
  have start := Exec.block_mirrors mirrors rounds first.statements ⟨s, []⟩
  rw [halves] at complete
  rw [run_report rounds sink s whole, report_unplaced, run_report rounds sink s first]
  rcases outcome : Exec.block rounds sink first.statements ⟨s, []⟩ with ⟨stop | _, q⟩
  · rw [outcome] at start
    rw [bind_of_error _ start] at complete
    obtain ⟨result, after⟩ := Prod.mk.inj complete
    refine ⟨fun finished => ?_, fun _ => ?_⟩
    · cases stop <;> cases finished
    · rw [report_unplaced, ← result, ← after]
      rfl
  · rw [outcome] at start
    have next : q.mirrored [] = Progress.mirrored (q.taken.map Emission.unplaced) ⟨q.session, []⟩ := by
      simp [Progress.mirrored]
    rw [bind_of_ok _ start, next,
      Exec.block_mirrors (placeless.mirrors q.taken) rounds second.statements] at complete
    obtain ⟨result, after⟩ := Prod.mk.inj complete
    refine ⟨fun _ => ?_, fun unfinished => absurd rfl unfinished⟩
    rw [← result, ← after]
    simp only [report, List.reverse_reverse, run_report]
    rcases Exec.block rounds (sink.after q.taken) second.statements ⟨q.session, []⟩ with
      ⟨⟨_ | _⟩ | _, t⟩ <;> simp [Report.unplaced, Progress.mirrored, Ending.ofResult,
        Exec.mirroredResult, Stop.unplaced, Ending.unplaced]

end Session

end Dil
