import Dil.Eval
import Dil.Render.Shown

/-!
Running scripts. A session keeps classes, heap and scope from one script to the next, also when
a script fails in the middle.
-/

namespace Dil

structure Session extends Store where
  classes : Classes
  scope : Scope

namespace Session

def new : Session := ⟨⟨.empty, []⟩, .empty, .empty⟩

instance : Inhabited Session := ⟨new⟩

def evaluate {α : Type} (s : Session) (action : Eval α) : Except EvalError α × Session :=
  match s with
  | ⟨store, classes, scope⟩ =>
    let (result, store') := action store
    (result, ⟨store', classes, scope⟩)

def eval (s : Session) (e : Expr) : Except EvalError Value × Session :=
  s.evaluate (Dil.eval (newObject s.classes) s.scope e)

def instantiate (s : Session) (className : String) : Except EvalError Value × Session :=
  s.evaluate (newObject s.classes className)

end Session

structure Emission where
  value : Value
  shown : Shown
  span : Span

/-- The receiver of emissions. It may refuse one, after those that it took, the latest first. -/
structure Sink where
  depth : Nat
  refusal? : List Emission → Emission → Option EvalError

def Sink.accepting (depth : Nat) : Sink := ⟨depth, fun _ _ => none⟩

/-- Refuses the emission with this number, counted from zero, for the given reason. -/
def Sink.closedAt (depth number : Nat) (reason : String) : Sink :=
  ⟨depth, fun taken _ => if taken.length = number then some (.output reason) else none⟩

/-- How far a run has come: the session and what was taken, the latest first. -/
structure Progress where
  session : Session
  taken : List Emission

/-- Why a run stops early. `unfinished` says that a loop reached its limit of rounds. -/
inductive Stop where
  | failed (error : ExecError)
  | unfinished

abbrev Exec (α : Type) := ExceptT Stop (StateM Progress) α

namespace Exec

def evaluate {α : Type} (span : Span) (action : Session → Eval α) : Exec α := fun p =>
  match p with
  | ⟨session, taken⟩ =>
    match session.evaluate (action session) with
    | (.ok a, session') => (.ok a, ⟨session', taken⟩)
    | (.error e, session') => (.error (.failed ⟨e, span⟩), ⟨session', taken⟩)

def value (span : Span) (e : Expr) : Exec Value :=
  evaluate span fun s => Dil.eval (newObject s.classes) s.scope e

def fail {α : Type} (span : Span) (e : EvalError) : Exec α := throw (.failed ⟨e, span⟩)

def ofResult {α : Type} (span : Span) : Except EvalError α → Exec α
  | .ok a => pure a
  | .error e => fail span e

def session : Exec Session := fun p => (.ok p.session, p)

def bind (name : String) (v : Value) : Exec Unit := fun p =>
  (.ok (), { p with session.scope := p.session.scope.insert name v })

def declare (span : Span) (d : ClassDecl) : Exec Unit := do
  let c ← ofResult span (ClassDef.ofDecl d)
  let s ← session
  let classes ← ofResult span (s.classes.declare c)
  fun p => (.ok (), { p with session.classes := classes })

def rebind (span : Span) (name : String) (v : Value) : Exec Unit := do
  let s ← session
  let scope ← ofResult span (s.scope.rebind name v)
  fun p => (.ok (), { p with session.scope := scope })

def write (span : Span) (place : Locator) (v : Value) : Exec Unit := fun p =>
  match p.session.heap.write place v with
  | .ok heap => (.ok (), { p with session.heap := heap })
  | .error e => (.error (.failed ⟨e, span⟩), p)

/-- The target is resolved before the value is evaluated. -/
def assign (span : Span) (target : Ident) (path : List Segment) (e : Expr) : Exec Unit := do
  let s ← session
  let root ← ofResult span (s.scope.resolve target.name)
  if path.isEmpty then
    let v ← value span e
    rebind span target.name v
  else
    let steps ← evaluate span fun s => evalSegments (newObject s.classes) s.scope path
    let place ← evaluate span fun _ => Eval.look fun h => h.locate root steps
    let v ← value span e
    write span place v

def emit (sink : Sink) (span : Span) (e : Expr) : Exec Unit := do
  let v ← value span e
  fun p =>
    let emission := ⟨v, p.session.heap.view sink.depth v, e.span⟩
    match sink.refusal? p.taken emission with
    | none => (.ok (), { p with taken := emission :: p.taken })
    | some error => (.error (.failed ⟨error, span⟩), p)

def condition (e : Expr) : Exec Bool := do
  let v ← value e.span e
  match v with
  | .bool b => pure b
  | v => fail e.span (.nonBooleanCondition v.tag)

/-- The entries of a collection with their positions or keys. -/
def entries (e : Expr) : Exec (List (Value × Value)) := do
  let v ← value e.span e
  let s ← session
  match v with
  | .ref (.array i) =>
    pure ((s.heap.items i).zipIdx.map fun p => (.int (Int64.ofNat p.2), p.1))
  | .ref (.map i) =>
    pure ((s.heap.body i).entries.map fun p => (.str p.1, p.2))
  | v => fail e.span (.notIterable v.tag)

def withLocals (names : List String) (action : Exec Unit) : Exec Unit := fun p =>
  let created := names.filter fun name => !p.session.scope.contains name
  let (result, q) := action p
  (result, { q with session.scope := created.foldl Table.erase q.session.scope })

def bindNew (name : String) (v : Value) : Exec Unit := do
  let s ← session
  if s.scope.contains name then pure () else bind name v

/-- Binds the names of a loop to an entry. If both names are one, the key stays. -/
def bindEntry (item : Ident) (key : Option Ident) (e : Value × Value) : Exec Unit := do
  bind item.name e.2
  match key with
  | some k => bind k.name e.1
  | none => pure ()

def repeatWhile : Nat → Exec Bool → Exec Unit → Exec Unit
  | 0, _, _ => throw .unfinished
  | rounds + 1, holds, body => do
    if ← holds then
      body
      repeatWhile rounds holds body
    else pure ()

def forEntries (body : Value × Value → Exec Unit) : List (Value × Value) → Exec Unit
  | [] => pure ()
  | e :: es => do
    body e
    forEntries body es

mutual

/-- Runs a statement; no loop in it takes more than `rounds` rounds. -/
def stmt (rounds : Nat) (sink : Sink) : Stmt → Exec Unit
  | .declare span d => declare span d
  | .bind span name e => do
    let v ← value span e
    bind name.name v
  | .assign span target path e => assign span target path e
  | .get span e => emit sink span e
  | .branch _ c onTrue onFalse => do
    if ← condition c then block rounds sink onTrue else block rounds sink onFalse
  | .each _ item key collection body => do
    let found ← entries collection
    let names := item.name :: (key.map Ident.name).toList
    withLocals names (forEntries (fun e => do
      bindEntry item key e
      block rounds sink body) found)
  | .loop _ counter c body =>
    withLocals [counter.name] do
      bindNew counter.name (.int 0)
      repeatWhile rounds (condition c) (block rounds sink body)

def block (rounds : Nat) (sink : Sink) : List Stmt → Exec Unit
  | [] => pure ()
  | s :: ss => do
    stmt rounds sink s
    block rounds sink ss

end

end Exec

inductive Ending where
  | finished
  | failed (error : ExecError)
  | unfinished

structure Report where
  session : Session
  emissions : List Emission
  ending : Ending

def Session.run (rounds : Nat) (sink : Sink) (s : Session) (program : Program) : Report :=
  match Exec.block rounds sink program.statements ⟨s, []⟩ with
  | (.ok (), p) => ⟨p.session, p.taken.reverse, .finished⟩
  | (.error (.failed e), p) => ⟨p.session, p.taken.reverse, .failed e⟩
  | (.error .unfinished, p) => ⟨p.session, p.taken.reverse, .unfinished⟩

/-- More rounds than any machine will live to see. -/
def manyRounds : Nat := 0x4000000000000000

def defaultDepth : Nat := 64

end Dil
