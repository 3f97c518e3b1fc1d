import Dil.Proofs.Pairing.Eval
import Dil.Proofs.Session.Runs
import Dil.Render.Json

namespace Dil

def Emission.sight (e : Emission) : Shown × Span := (e.shown, e.span)

/-- A receiver that knows emissions by what is shown of them. -/
def Sink.ofSight (depth : Nat)
    (refuse : List (Shown × Span) → Shown × Span → Option EvalError) : Sink :=
  ⟨depth, fun taken e => refuse (taken.map Emission.sight) e.sight⟩

theorem accepting_ofSight (depth : Nat) :
    Sink.accepting depth = Sink.ofSight depth fun _ _ => none := rfl

theorem closedAt_ofSight (depth number : Nat) (reason : String) :
    Sink.closedAt depth number reason = Sink.ofSight depth fun taken _ =>
      if taken.length = number then some (.output reason) else none := by
  simp [Sink.closedAt, Sink.ofSight]

namespace Pairing

/-- The same classes, corresponding cells and corresponding bindings, and no object is being made in one
of them only. -/
structure Sessions (f : Pairing) (s s' : Session) : Prop where
  classes : s.classes = s'.classes
  stores : f.Stores s.toStore s'.toStore
  scopes : f.Scopes s.scope s'.scope

structure Progresses (f : Pairing) (p p' : Progress) : Prop where
  session : f.Sessions p.session p'.session
  taken : p.taken.map Emission.sight = p'.taken.map Emission.sight

def sideBySide : Likeness Stop Progress Pairing where
  Alike := Progresses
  Step f p p' g q q' := f.Spreads p.session.heap p'.session.heap g q.session.heap q'.session.heap
  Spent stop p := ∃ error, stop = .failed error ∧ p.session.heap.Exhausted error.error
  refl f p p' := .refl f p.session.heap p'.session.heap
  trans := Spreads.trans

section Bindings

variable {f : Pairing} {scope scope' : Scope}

theorem bound_alike (alike : f.Scopes scope scope') (name : String) :
    scope.contains name = scope'.contains name := by
  rw [Table.contains_eq_isSome, Table.contains_eq_isSome]
  rcases rel_cases (alike name) with ⟨v, v', bound, bound', _⟩ | ⟨free, free'⟩
  · rw [bound, bound']
    rfl
  · rw [free, free']

theorem insert_scopes {v v' : Value} (alike : f.Scopes scope scope') (name : String)
    (values : f.Values v v') : f.Scopes (scope.insert name v) (scope'.insert name v') := by
  intro other
  rw [Table.find_insert, Table.find_insert]
  split
  · exact .some values
  · exact alike other

theorem erase_scopes (alike : f.Scopes scope scope') (names : List String) :
    f.Scopes (names.foldl Table.erase scope) (names.foldl Table.erase scope') := by
  induction names generalizing scope scope' with
  | nil => exact alike
  | cons name names ih =>
      apply ih
      intro other
      rw [Table.find_erase, Table.find_erase]
      split
      · exact .none
      · exact alike other

theorem rebind_alike {v v' : Value} (alike : f.Scopes scope scope') (name : String)
    (values : f.Values v v') :
    Concur f.Scopes (scope.rebind name v) (scope'.rebind name v') := by
  rw [Scope.rebind, Scope.rebind, ← bound_alike alike name]
  split
  · exact .ok (insert_scopes alike name values)
  · exact .error _

end Bindings

end Pairing

namespace Exec

open Pairing (sideBySide)

variable {f : Pairing} {p p' : Progress}

theorem ranOut_evaluate {α : Type} (span : Span) {action : Session → Eval α}
    (out : Pairing.likeness.RanOut (action p.session p.session.toStore)) :
    sideBySide.RanOut (evaluate span action p) := by
  obtain ⟨e, failed, full⟩ := out
  rcases run : action p.session p.session.toStore with ⟨r, t⟩
  rw [run] at failed full
  cases failed
  have outcome : evaluate span action p =
      (.error (.failed ⟨e, span⟩), ⟨{ p.session with toStore := t }, p.taken⟩) := by
    simp only [evaluate, p.session.evaluate_of run]
  rw [outcome]
  exact ⟨_, rfl, _, rfl, full⟩

theorem evaluate_alike {α β : Type} {Q : Pairing → α → β → Prop} (span : Span)
    {action : Session → Eval α} {action' : Session → Eval β}
    (agree : Pairing.likeness.Agree (action p.session) (action' p'.session) f p.session.toStore
      p'.session.toStore Q) :
    sideBySide.Agree (evaluate span action) (evaluate span action') f p p' Q := by
  intro alike
  rcases agree alike.session.stores with ⟨g, spreads, stores, concur⟩ | out | out
  · left
    simp only [evaluate, Session.evaluate]
    rcases left : action p.session p.session.toStore with ⟨r, t⟩
    rcases right : action' p'.session p'.session.toStore with ⟨r', t'⟩
    rw [left, right] at spreads stores concur
    have scopes := alike.session.scopes.mono spreads.within
    have after : g.Sessions { p.session with toStore := t } { p'.session with toStore := t' } :=
      ⟨alike.session.classes, stores, scopes⟩
    cases concur with
    | ok related => exact ⟨g, spreads, ⟨after, alike.taken⟩, .ok related⟩
    | error e => exact ⟨g, spreads, ⟨after, alike.taken⟩, .error _⟩
  · exact Or.inr (Or.inl (ranOut_evaluate span out))
  · exact Or.inr (Or.inr (ranOut_evaluate span out))

theorem value_alike (span : Span) (e : Expr) (f : Pairing) (p p' : Progress) :
    sideBySide.Agree (value span e) (value span e) f p p' Pairing.Values := by
  apply Likeness.Agree.of_alike
  intro alike
  apply evaluate_alike
  rw [← alike.session.classes]
  exact Pairing.eval_alike (Pairing.newObject_alike _) e f _ _ alike.session.scopes

theorem ofResult_alike {α β : Type} {Q : Pairing → α → β → Prop} (span : Span)
    {r : Except EvalError α} {r' : Except EvalError β} (concur : Concur (Q f) r r') :
    sideBySide.Agree (ofResult span r) (ofResult span r') f p p' Q := by
  cases concur with
  | ok related => exact .pure related
  | error e => exact .throw _

theorem session_alike (f : Pairing) (p p' : Progress) :
    sideBySide.Agree session session f p p' Pairing.Sessions :=
  fun alike => Or.inl ⟨f, .refl f _ _, alike, .ok alike.session⟩

theorem bind_alike (name : String) {v v' : Value} (values : f.Values v v') :
    sideBySide.Agree (bind name v) (bind name v') f p p' fun _ _ _ => True := by
  intro alike
  have after : f.Sessions { p.session with scope := p.session.scope.insert name v }
      { p'.session with scope := p'.session.scope.insert name v' } :=
    ⟨alike.session.classes, alike.session.stores,
      Pairing.insert_scopes alike.session.scopes name values⟩
  exact Or.inl ⟨f, .refl f _ _, ⟨after, alike.taken⟩, .ok trivial⟩

theorem declare_alike (span : Span) (d : ClassDecl) (f : Pairing) (p p' : Progress) :
    sideBySide.Agree (declare span d) (declare span d) f p p' fun _ _ _ => True := by
  unfold declare
  apply (ofResult_alike (Q := fun _ => Eq) span (.refl (ClassDef.ofDecl d))).bind
  rintro g q q' c _ _ rfl
  apply (session_alike g q q').bind
  intro e r r' s s' _ same
  rw [← same.classes]
  apply (ofResult_alike (Q := fun _ => Eq) span (.refl (s.classes.declare c))).bind
  rintro b t t' classes _ _ rfl alike
  have after : b.Sessions { t.session with classes := classes }
      { t'.session with classes := classes } := ⟨rfl, alike.session.stores, alike.session.scopes⟩
  exact Or.inl ⟨b, .refl b _ _, ⟨after, alike.taken⟩, .ok trivial⟩

theorem rebind_alike (span : Span) (name : String) {v v' : Value} (values : f.Values v v') :
    sideBySide.Agree (rebind span name v) (rebind span name v') f p p' fun _ _ _ => True := by
  unfold rebind
  apply (session_alike f p p').bind
  intro g q q' s s' step same
  apply (ofResult_alike span
    (Pairing.rebind_alike same.scopes name (values.mono step.within))).bind
  intro e t t' scope scope' _ scopes alike
  have after : e.Sessions { t.session with scope := scope } { t'.session with scope := scope' } :=
    ⟨alike.session.classes, alike.session.stores, scopes⟩
  exact Or.inl ⟨e, .refl e _ _, ⟨after, alike.taken⟩, .ok trivial⟩

theorem write_alike (span : Span) {place place' : Locator} {v v' : Value}
    (places : f.Locators place place') (values : f.Values v v') :
    sideBySide.Agree (write span place v) (write span place' v') f p p' fun _ _ _ => True := by
  intro alike
  have cells := alike.session.stores.heaps
  have left := cells.left places.paired
  have right := cells.right places.paired
  unfold write
  rcases (Pairing.write_alike cells places values).elim with
    ⟨e, failed, failed'⟩ | ⟨h, h', written, written', heaps⟩
  · rw [failed, failed']
    exact Or.inl ⟨f, .refl f _ _, alike, .error _⟩
  · rw [written, written']
    have spreads : f.Spreads p.session.heap p'.session.heap f h h' :=
      ⟨fun _ _ paired => paired, fun a => (Heap.write_inRange left written a).mpr,
        fun b => (Heap.write_inRange right written' b).mpr, fun _ _ => Or.inl⟩
    have after : f.Sessions { p.session with heap := h } { p'.session with heap := h' } :=
      ⟨alike.session.classes, ⟨heaps, alike.session.stores.building⟩, alike.session.scopes⟩
    exact Or.inl ⟨f, spreads, ⟨after, alike.taken⟩, .ok trivial⟩

theorem segments_alike (span : Span) (path : List Segment) (f : Pairing) (p p' : Progress) :
    sideBySide.Agree (evaluate span fun s => evalSegments (newObject s.classes) s.scope path)
      (evaluate span fun s => evalSegments (newObject s.classes) s.scope path) f p p'
      fun _ steps steps' => steps = steps' := by
  apply Likeness.Agree.of_alike
  intro alike
  apply evaluate_alike
  rw [← alike.session.classes]
  exact Pairing.evalSegments_alike (Pairing.newObject_alike _) path f _ _ alike.session.scopes

theorem locate_alike (span : Span) (steps : List Step) {root root' : Value}
    (values : f.Values root root') :
    sideBySide.Agree (evaluate span fun _ => Eval.look fun h => h.locate root steps)
      (evaluate span fun _ => Eval.look fun h => h.locate root' steps) f p p'
      Pairing.Locators :=
  evaluate_alike span (look_twins fun stores => Pairing.locate_alike stores.heaps values steps)

theorem assign_alike (span : Span) (target : Ident) (path : List Segment) (e : Expr)
    (f : Pairing) (p p' : Progress) :
    sideBySide.Agree (assign span target path e) (assign span target path e) f p p'
      fun _ _ _ => True := by
  unfold assign
  apply (session_alike f p p').bind
  intro g q q' s s' _ same
  apply (ofResult_alike span (same.scopes.resolve target.name)).bind
  intro d r r' root root' _ values
  split
  · apply (value_alike span e d r r').bind
    intro c t t' v v' _ new
    exact rebind_alike span target.name new
  · apply (segments_alike span path d r r').bind
    rintro c t t' steps _ first rfl
    apply (locate_alike span steps (values.mono first.within)).bind
    intro b u u' place place' _ places
    apply (value_alike span e b u u').bind
    intro a w w' v v' last new
    exact write_alike span (places.mono last.within) new

theorem emit_alike (depth : Nat) (refuse : List (Shown × Span) → Shown × Span → Option EvalError)
    (span : Span) (e : Expr) (f : Pairing) (p p' : Progress) :
    sideBySide.Agree (emit (.ofSight depth refuse) span e) (emit (.ofSight depth refuse) span e)
      f p p' fun _ _ _ => True := by
  unfold emit
  apply (value_alike span e f p p').bind
  intro g q q' v v' _ values alike
  have shown := Pairing.view_alike alike.session.stores.heaps values depth
  simp only [Sink.ofSight, Emission.sight, ← shown, ← alike.taken]
  split
  · refine Or.inl ⟨g, .refl g _ _, ⟨alike.session, ?_⟩, .ok trivial⟩
    simp only [List.map_cons, Emission.sight, alike.taken]
  · exact Or.inl ⟨g, .refl g _ _, alike, .error _⟩

theorem condition_alike (e : Expr) (f : Pairing) (p p' : Progress) :
    sideBySide.Agree (condition e) (condition e) f p p' fun _ b b' => b = b' := by
  unfold condition
  apply (value_alike e.span e f p p').bind
  intro g q q' v v' _ values
  cases values with
  | ref paired =>
      have kind : (Value.ref _).tag = (Value.ref _).tag := g.kind paired
      simp only [kind]
      exact .throw _
  | @scalar v scalar =>
      cases v with
      | bool b => exact .pure rfl
      | ref a => exact absurd rfl (scalar a)
      | _ => exact .throw _

/-- Entries with corresponding positions or keys and corresponding values. -/
def EntriesAlike (f : Pairing) (x x' : Value × Value) : Prop :=
  f.Values x.1 x'.1 ∧ f.Values x.2 x'.2

theorem positions_alike {items items' : List Value} (alike : List.Forall₂ f.Values items items')
    (first : Nat) :
    List.Forall₂ (EntriesAlike f)
      ((items.zipIdx first).map fun p => (.int (Int64.ofNat p.2), p.1))
      ((items'.zipIdx first).map fun p => (.int (Int64.ofNat p.2), p.1)) := by
  induction alike generalizing first with
  | nil => exact .nil
  | cons same _ ih => exact .cons ⟨.scalar fun _ => Value.noConfusion, same⟩ (ih (first + 1))

theorem entries_alike (e : Expr) (f : Pairing) (p p' : Progress) :
    sideBySide.Agree (entries e) (entries e) f p p' fun g => List.Forall₂ (EntriesAlike g) := by
  unfold entries
  apply (value_alike e.span e f p p').bind
  intro g q q' v v' _ values
  apply (session_alike g q q').bind
  intro d r r' s s' step same
  rcases (values.mono step.within).kinds with ⟨i, j, rfl, rfl, paired⟩ | ⟨i, j, rfl, rfl, paired⟩ |
    ⟨i, j, rfl, rfl, _⟩ | ⟨scalar, rfl⟩
  · exact .pure (positions_alike (Pairing.items_alike same.stores.heaps paired) 0)
  · apply Likeness.Agree.pure
    refine List.rel_map ?_ (Pairing.body_alike same.stores.heaps paired)
    rintro ⟨key, v⟩ ⟨_, v'⟩ ⟨rfl, related⟩
    exact ⟨.scalar fun _ => Value.noConfusion, related⟩
  · exact .throw _
  · cases v with
    | ref a => exact absurd rfl (scalar a)
    | _ => exact .throw _

theorem bindNew_alike (name : String) {v v' : Value} (values : f.Values v v') :
    sideBySide.Agree (bindNew name v) (bindNew name v') f p p' fun _ _ _ => True := by
  unfold bindNew
  apply (session_alike f p p').bind
  intro g q q' s s' step same
  rw [← Pairing.bound_alike same.scopes name]
  split
  · exact .pure trivial
  · exact bind_alike name (values.mono step.within)

theorem bindEntry_alike (item : Ident) (key : Option Ident) {x x' : Value × Value}
    (alike : EntriesAlike f x x') :
    sideBySide.Agree (bindEntry item key x) (bindEntry item key x') f p p' fun _ _ _ => True := by
  unfold bindEntry
  apply (bind_alike item.name alike.2).bind
  intro g q q' _ _ step _
  cases key with
  | none => exact .pure trivial
  | some k => exact bind_alike k.name (alike.1.mono step.within)

theorem withLocals_alike (names : List String) {action action' : Exec Unit}
    (agree : sideBySide.Agree action action' f p p' fun _ _ _ => True) :
    sideBySide.Agree (withLocals names action) (withLocals names action') f p p'
      fun _ _ _ => True := by
  intro alike
  have created : (names.filter fun name => !p.session.scope.contains name) =
      names.filter fun name => !p'.session.scope.contains name := by
    apply List.filter_congr
    intro name _
    rw [Pairing.bound_alike alike.session.scopes name]
  rcases agree alike with ⟨g, spreads, after, concur⟩ | outs
  · simp only [withLocals, created]
    have scopes := Pairing.erase_scopes after.session.scopes
      (names.filter fun name => !p'.session.scope.contains name)
    exact Or.inl
      ⟨g, spreads, ⟨⟨after.session.classes, after.session.stores, scopes⟩, after.taken⟩, concur⟩
  · exact Or.inr outs

theorem repeatWhile_alike (rounds : Nat) {holds : Exec Bool} {body : Exec Unit}
    (tested : ∀ f p p', sideBySide.Agree holds holds f p p' fun _ b b' => b = b')
    (done : ∀ f p p', sideBySide.Agree body body f p p' fun _ _ _ => True) (f : Pairing)
    (p p' : Progress) :
    sideBySide.Agree (repeatWhile rounds holds body) (repeatWhile rounds holds body) f p p'
      fun _ _ _ => True := by
  induction rounds generalizing f p p' with
  | zero => exact .throw _
  | succ rounds ih =>
      rw [repeatWhile]
      apply (tested f p p').bind
      rintro g q q' goes _ _ rfl
      cases goes with
      | false => exact .pure trivial
      | true =>
          apply (done g q q').bind
          intro d r r' _ _ _ _
          exact ih d r r'

theorem forEntries_alike {body : Value × Value → Exec Unit} {found found' : List (Value × Value)}
    (alike : List.Forall₂ (EntriesAlike f) found found')
    (done : ∀ f p p' x x', EntriesAlike f x x' →
      sideBySide.Agree (body x) (body x') f p p' fun _ _ _ => True) :
    sideBySide.Agree (forEntries body found) (forEntries body found') f p p' fun _ _ _ => True := by
  induction found generalizing found' f p p' with
  | nil =>
      cases alike
      exact .pure trivial
  | cons x xs ih =>
      cases alike with
      | cons first rest =>
          rw [forEntries, forEntries]
          apply (done f p p' _ _ first).bind
          intro g q q' _ _ step _
          apply ih
          exact rest.imp fun _ _ same => ⟨same.1.mono step.within, same.2.mono step.within⟩

mutual

theorem stmt_alike (rounds depth : Nat)
    (refuse : List (Shown × Span) → Shown × Span → Option EvalError) :
    ∀ (s : Stmt) (f : Pairing) (p p' : Progress),
    sideBySide.Agree (stmt rounds (.ofSight depth refuse) s) (stmt rounds (.ofSight depth refuse) s)
      f p p' fun _ _ _ => True
  | .declare span d, f, p, p' => by
      rw [stmt]
      exact declare_alike span d f p p'
  | .bind span name e, f, p, p' => by
      rw [stmt]
      apply (value_alike span e f p p').bind
      intro g q q' v v' _ values
      exact bind_alike name.name values
  | .assign span target path e, f, p, p' => by
      rw [stmt]
      exact assign_alike span target path e f p p'
  | .get span e, f, p, p' => by
      rw [stmt]
      exact emit_alike depth refuse span e f p p'
  | .branch _ c onTrue onFalse, f, p, p' => by
      rw [stmt]
      apply (condition_alike c f p p').bind
      rintro g q q' b _ _ rfl
      split
      · exact block_alike rounds depth refuse onTrue g q q'
      · exact block_alike rounds depth refuse onFalse g q q'
  | .each _ item key collection body, f, p, p' => by
      rw [stmt]
      apply (entries_alike collection f p p').bind
      intro g q q' found found' _ same
      apply withLocals_alike
      apply forEntries_alike same
      intro d r r' x x' entry
      apply (bindEntry_alike item key entry).bind
      intro c t t' _ _ _ _
      exact block_alike rounds depth refuse body c t t'
  | .loop _ counter c body, f, p, p' => by
      rw [stmt]
      apply withLocals_alike
      apply (bindNew_alike counter.name (.scalar fun _ => Value.noConfusion)).bind
      intro g q q' _ _ _ _
      have done := block_alike rounds depth refuse body
      exact repeatWhile_alike rounds (condition_alike c) done g q q'

theorem block_alike (rounds depth : Nat)
    (refuse : List (Shown × Span) → Shown × Span → Option EvalError) :
    ∀ (ss : List Stmt) (f : Pairing) (p p' : Progress),
    sideBySide.Agree (block rounds (.ofSight depth refuse) ss)
      (block rounds (.ofSight depth refuse) ss) f p p' fun _ _ _ => True
  | [], f, p, p' => by
      rw [block]
      exact .pure trivial
  | s :: ss, f, p, p' => by
      rw [block]
      apply (stmt_alike rounds depth refuse s f p p').bind
      intro g q q' _ _ _ _
      exact block_alike rounds depth refuse ss g q q'

end

end Exec

namespace Session

def RunsOutIn (s : Session) (rounds : Nat) (sink : Sink) (program : Program) : Prop :=
  ∃ error, (s.run rounds sink program).ending = .failed error ∧
    (s.run rounds sink program).session.heap.Exhausted error.error

theorem runsOutIn_of_block {rounds : Nat} {sink : Sink} {s : Session} {program : Program}
    (out : Pairing.sideBySide.RanOut (Exec.block rounds sink program.statements ⟨s, []⟩)) :
    s.RunsOutIn rounds sink program := by
  obtain ⟨_, stopped, error, rfl, full⟩ := out
  obtain ⟨session, _, ending⟩ := run_progress rounds sink s program
  refine ⟨error, ?_, ?_⟩
  · rw [ending, stopped]
    rfl
  · rwa [session]

/-- From sessions that correspond, a program ends the same, with the same texts and renderings on
the way, and the sessions after it correspond along a greater pairing, unless the references run out in
one of the runs. No number of a cell, and no cell without a partner, makes another difference. -/
theorem run_alike {f : Pairing} {s s' : Session} (alike : f.Sessions s s') (rounds depth : Nat)
    (refuse : List (Shown × Span) → Shown × Span → Option EvalError) (program : Program)
    (room : ¬ s.RunsOutIn rounds (.ofSight depth refuse) program)
    (room' : ¬ s'.RunsOutIn rounds (.ofSight depth refuse) program) :
    (s.run rounds (.ofSight depth refuse) program).ending =
      (s'.run rounds (.ofSight depth refuse) program).ending ∧
    (s.run rounds (.ofSight depth refuse) program).emissions.map
        (fun e => (e.shown.text, e.shown.json, e.span)) =
      (s'.run rounds (.ofSight depth refuse) program).emissions.map
        (fun e => (e.shown.text, e.shown.json, e.span)) ∧
    ∃ g : Pairing, f.Within g ∧
      g.Sessions (s.run rounds (.ofSight depth refuse) program).session
        (s'.run rounds (.ofSight depth refuse) program).session := by
  have started : f.Progresses ⟨s, []⟩ ⟨s', []⟩ := ⟨alike, rfl⟩
  rcases Exec.block_alike rounds depth refuse program.statements f ⟨s, []⟩ ⟨s', []⟩ started with
    ⟨g, spreads, after, concur⟩ | out | out
  · obtain ⟨session, emissions, ending⟩ := run_progress rounds (.ofSight depth refuse) s program
    obtain ⟨session', emissions', ending'⟩ := run_progress rounds (.ofSight depth refuse) s' program
    rw [session, session', emissions, emissions', ending, ending']
    refine ⟨?_, ?_, g, spreads.within, after.session⟩
    · rcases concur.elim with ⟨stop, stopped, stopped'⟩ | ⟨_, _, done, done', _⟩
      · rw [stopped, stopped']
      · rw [done, done']
    · have seen := congrArg (List.map fun o : Shown × Span => (o.1.text, o.1.json, o.2)) after.taken
      rw [List.map_map, List.map_map] at seen
      rw [List.map_reverse, List.map_reverse]
      exact congrArg List.reverse seen
  · exact absurd (runsOutIn_of_block out) room
  · exact absurd (runsOutIn_of_block out) room'

def tidySession : Session :=
  (new.run 1 (.accepting 2) ⟨[.bind ⟨0, 13⟩ ⟨"a", ⟨4, 5⟩⟩ (.array ⟨8, 11⟩ [.int ⟨9, 10⟩ 1])],
    ⟨0, 13⟩⟩).session

def litteredSession : Session :=
  (new.run 1 (.accepting 2) ⟨[.bind ⟨0, 11⟩ ⟨"a", ⟨4, 5⟩⟩ (.array ⟨8, 10⟩ []),
    .bind ⟨12, 25⟩ ⟨"a", ⟨16, 17⟩⟩ (.array ⟨20, 23⟩ [.int ⟨21, 22⟩ 1])], ⟨0, 25⟩⟩).session

def probing : Program :=
  ⟨[.assign ⟨0, 9⟩ ⟨"a", ⟨0, 1⟩⟩ [.index (.int ⟨2, 3⟩ 0)] (.var ⟨7, 8⟩ "a"),
    .get ⟨10, 16⟩ (.var ⟨14, 15⟩ "a"),
    .get ⟨17, 26⟩ (.path ⟨21, 25⟩ (.var ⟨21, 22⟩ "a") [.field ⟨"x", ⟨24, 25⟩⟩])], ⟨0, 26⟩⟩

theorem litter_unnoticed :
    tidySession.scope.find? "a" = some (.ref (.array 0)) ∧
    litteredSession.scope.find? "a" = some (.ref (.array 1)) ∧
    (tidySession.run 1 (.ofSight 2 fun _ _ => none) probing).ending =
      (litteredSession.run 1 (.ofSight 2 fun _ _ => none) probing).ending ∧
    (tidySession.run 1 (.ofSight 2 fun _ _ => none) probing).emissions.map
        (fun e => (e.shown.text, e.shown.json, e.span)) =
      (litteredSession.run 1 (.ofSight 2 fun _ _ => none) probing).emissions.map
        (fun e => (e.shown.text, e.shown.json, e.span)) := by
  let f : Pairing := Pairing.empty.add (.array 0) (.array 1) rfl (fun _ => nofun) (fun _ => nofun)
  have paired : f.Paired (.array 0) (.array 1) := Or.inr ⟨rfl, rfl⟩
  have heaps : f.Heaps tidySession.heap litteredSession.heap := by
    rintro a b (never | ⟨rfl, rfl⟩)
    · cases never
    · exact ⟨.array [.int 1], .array [.int 1], rfl, rfl,
        .array (.cons (.scalar fun _ => Value.noConfusion) .nil)⟩
  have scopes : f.Scopes tidySession.scope litteredSession.scope :=
    Pairing.insert_scopes Scope.empty_alike "a" (.ref paired)
  have alike : f.Sessions tidySession litteredSession := ⟨rfl, ⟨heaps, rfl⟩, scopes⟩
  have room : ¬ tidySession.RunsOutIn 1 (.ofSight 2 fun _ _ => none) probing := by
    rintro ⟨_, ⟨⟩, kind, ⟨⟩, _⟩
  have room' : ¬ litteredSession.RunsOutIn 1 (.ofSight 2 fun _ _ => none) probing := by
    rintro ⟨_, ⟨⟩, kind, ⟨⟩, _⟩
  obtain ⟨ending, emissions, _⟩ := run_alike alike 1 2 (fun _ _ => none) probing room room'
  exact ⟨rfl, rfl, ending, emissions⟩

end Session

end Dil
