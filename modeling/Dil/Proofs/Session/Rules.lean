import Dil.Proofs.Eval.Rules

/-!
What holds along every run, from what holds of the few steps that a statement is made of. The
inductions over statements and over the rounds of a loop are made once and here, for any property of
states and any steps that keep it.
-/

namespace Dil.Exec

variable {R : Regime Progress} {p : Progress}

section Parts

variable {α : Type}

theorem session_meets : R.Meets session p fun s q => p = q ∧ p.session = s := by
  intro _
  refine ⟨R.refl p, ?_⟩
  rintro _ ⟨⟩
  exact ⟨rfl, rfl⟩

theorem ofResult_meets (span : Span) (r : Except EvalError α) :
    R.Meets (ofResult span r) p fun a q => p = q ∧ r = .ok a := by
  cases r with
  | ok a => exact .pure a ⟨rfl, rfl⟩
  | error e => exact .throw _

theorem update_meets {change : Progress → Progress} (step : R.Good p → R.Step p (change p)) :
    R.Meets (fun p => (.ok (), change p) : Exec Unit) p fun _ _ => True :=
  fun good => ⟨step good, fun _ _ => trivial⟩

/-- What an evaluation does to the heap, it does to the run, and that is all that it does. -/
theorem evaluate_meets {H : Regime Heap} {Q : α → Heap → Prop} (span : Span)
    (action : Session → Eval α) (closed : R.Good p → H.Good p.session.heap)
    (lift : ∀ h, R.Good p → H.Step p.session.heap h → R.Step p { p with session.heap := h })
    (met : R.Good p → H.Yields (action p.session) p.session.toStore Q) :
    R.Meets (evaluate span action) p fun a q => Q a q.session.heap := by
  intro good
  obtain ⟨step, result⟩ := met good (closed good)
  simp only [evaluate, Session.evaluate]
  rcases outcome : action p.session p.session.toStore with ⟨e | a, h, building⟩
  all_goals
    rw [outcome] at step result
    obtain ⟨step, rfl⟩ := step
    refine ⟨lift h good step, ?_⟩
  · rintro _ ⟨⟩
  · rintro _ ⟨⟩
    exact result a rfl

end Parts

theorem declare_new {classes registered : Classes} {c : ClassDef}
    (declared : classes.declare c = .ok registered) :
    c.name ∉ classes.keys ∧ registered = classes.insert c.name c := by
  unfold Classes.declare at declared
  split at declared <;> cases declared
  rename_i new
  rw [Table.contains_iff] at new
  exact ⟨new, rfl⟩

/-- `V` is what is known of values along a run and `L` of places, and `P` is the kind of names that the
script may bring in. Both are kept by all steps, and what evaluates, binds, registers, writes, hands
out or drops the names of a loop is a step. -/
structure Rules (R : Regime Progress) (P : String → Prop) (V : Value → Progress → Prop)
    (L : Locator → Progress → Prop) : Prop where
  keep {v : Value} {p q : Progress} : R.Step p q → V v p → V v q
  keepPlace {place : Locator} {p q : Progress} : R.Step p q → L place p → L place q
  scalar {v : Value} (p : Progress) : v.Scalar → V v p
  bound {v : Value} {p : Progress} : R.Good p → v ∈ p.session.scope.values → V v p
  item {i : Nat} {v : Value} {p : Progress} : R.Good p → v ∈ p.session.heap.items i → V v p
  entry {i : Nat} {v : Value} {p : Progress} : R.Good p → v ∈ (p.session.heap.body i).values → V v p
  value {e : Expr} (span : Span) (p : Progress) : (∀ key ∈ e.keys, P key) →
    R.Meets (value span e) p V
  segments {path : List Segment} (span : Span) (p : Progress) : (∀ name ∈ pathFields path, P name) →
    (∀ key ∈ Expr.segmentKeys path, P key) →
    R.Meets (evaluate span fun s => evalSegments (newObject s.classes) s.scope path) p
      fun steps _ => ∀ name, Step.field name ∈ steps → P name
  locate {root : Value} {steps : List Step} {p : Progress} (span : Span) : V root p →
    (∀ name, Step.field name ∈ steps → P name) →
    R.Meets (evaluate span fun _ => Eval.look fun h => h.locate root steps) p L
  bind {v : Value} {p : Progress} (name : String) : R.Good p → V v p →
    R.Step p { p with session.scope := p.session.scope.insert name v }
  register {d : ClassDecl} {c : ClassDef} {classes : Classes} {p : Progress} : R.Good p →
    (∀ m ∈ d.mentions, P m.name) → ClassDef.ofDecl d = .ok c →
    p.session.classes.declare c = .ok classes → R.Step p { p with session.classes := classes }
  write {place : Locator} {v : Value} {heap : Heap} {p : Progress} : R.Good p → L place p → V v p →
    p.session.heap.write place v = .ok heap → R.Step p { p with session.heap := heap }
  take {v : Value} {p : Progress} (depth : Nat) (span : Span) : R.Good p → V v p →
    R.Step p { p with taken := ⟨v, p.session.heap.view depth v, span⟩ :: p.taken }
  locals {action : Exec Unit} {p : Progress} (names : List String) :
    R.Meets action p (fun _ _ => True) → R.Meets (withLocals names action) p fun _ _ => True

variable {P : String → Prop} {V : Value → Progress → Prop} {L : Locator → Progress → Prop}

section Leaves

theorem bind_meets (rules : Rules R P V L) (name : String) {v : Value} (held : V v p) :
    R.Meets (bind name v) p fun _ _ => True :=
  update_meets fun good => rules.bind name good held

theorem declare_meets (rules : Rules R P V L) (span : Span) {d : ClassDecl}
    (known : ∀ m ∈ d.mentions, P m.name) : R.Meets (declare span d) p fun _ _ => True := by
  unfold declare
  apply (ofResult_meets span _).bind
  rintro c _ _ ⟨rfl, defined⟩
  apply session_meets.bind
  rintro _ _ _ ⟨rfl, rfl⟩
  apply (ofResult_meets span _).bind
  rintro classes _ _ ⟨rfl, declared⟩
  exact update_meets fun good => rules.register good known defined declared

theorem rebind_meets (rules : Rules R P V L) (span : Span) (name : String) {v : Value}
    (held : V v p) : R.Meets (rebind span name v) p fun _ _ => True := by
  unfold rebind
  apply session_meets.bind
  rintro _ _ _ ⟨rfl, rfl⟩
  apply (ofResult_meets span _).bind
  rintro scope _ _ ⟨rfl, rebound⟩
  unfold Scope.rebind at rebound
  split at rebound <;> cases rebound
  exact update_meets fun good => rules.bind name good held

theorem write_meets (rules : Rules R P V L) (span : Span) {place : Locator} {v : Value}
    (located : L place p) (held : V v p) : R.Meets (write span place v) p fun _ _ => True := by
  intro good
  unfold write
  cases written : p.session.heap.write place v with
  | error e => exact ⟨R.refl p, nofun⟩
  | ok heap => exact ⟨rules.write good located held written, fun _ _ => trivial⟩

theorem assign_meets (rules : Rules R P V L) (span : Span) (target : Ident) {path : List Segment}
    {e : Expr} (fields : ∀ name ∈ pathFields path, P name)
    (keys : ∀ key ∈ Expr.segmentKeys path ++ e.keys, P key) :
    R.Meets (assign span target path e) p fun _ _ => True := by
  rw [List.forall_mem_append] at keys
  apply Regime.Meets.of_good
  intro good
  unfold assign
  apply session_meets.bind
  rintro _ _ _ ⟨rfl, rfl⟩
  apply (ofResult_meets span _).bind
  rintro root _ _ ⟨rfl, resolved⟩
  split
  · apply (rules.value span p keys.2).bind
    intro v q _ held
    exact rebind_meets rules span target.name held
  · have rooted := rules.bound good (value_of_resolve resolved)
    apply (rules.segments span p fields keys.1).bind
    intro steps q first named
    apply (rules.locate span (rules.keep first rooted) named).bind
    intro place t _ located
    apply (rules.value span t keys.2).bind
    intro v u later held
    exact write_meets rules span (rules.keepPlace later located) held

theorem emit_meets (rules : Rules R P V L) (sink : Sink) (span : Span) {e : Expr}
    (keys : ∀ key ∈ e.keys, P key) : R.Meets (emit sink span e) p fun _ _ => True := by
  unfold emit
  apply (rules.value span p keys).bind
  intro v q _ held good
  cases refused : sink.refusal? q.taken ⟨v, q.session.heap.view sink.depth v, e.span⟩ with
  | none =>
      simp only [refused]
      exact ⟨rules.take sink.depth e.span good held, fun _ _ => trivial⟩
  | some error =>
      simp only [refused]
      exact ⟨R.refl q, nofun⟩

end Leaves

section Loops

theorem condition_meets (rules : Rules R P V L) {e : Expr} (keys : ∀ key ∈ e.keys, P key) :
    R.Meets (condition e) p fun _ _ => True := by
  unfold condition
  apply (rules.value e.span p keys).bind
  intro v q _ _
  split
  · exact .pure _ trivial
  · exact .throw _

theorem entries_meets (rules : Rules R P V L) {e : Expr} (keys : ∀ key ∈ e.keys, P key) :
    R.Meets (entries e) p fun found q => ∀ x ∈ found, V x.1 q ∧ V x.2 q := by
  unfold entries
  apply (rules.value e.span p keys).bind
  intro v q _ _
  apply session_meets.bind
  rintro _ _ _ ⟨rfl, rfl⟩
  apply Regime.Meets.of_good
  intro good
  split
  · apply Regime.Meets.pure
    intro x member
    obtain ⟨pair, inside, rfl⟩ := List.mem_map.mp member
    refine ⟨rules.scalar q fun _ => Value.noConfusion, ?_⟩
    exact rules.item good (List.fst_mem_of_mem_zipIdx inside)
  · apply Regime.Meets.pure
    intro x member
    obtain ⟨entry, inside, rfl⟩ := List.mem_map.mp member
    refine ⟨rules.scalar q fun _ => Value.noConfusion, ?_⟩
    exact rules.entry good (List.mem_map.mpr ⟨entry, inside, rfl⟩)
  · exact .throw _

theorem bindNew_meets (rules : Rules R P V L) (name : String) {v : Value} (held : V v p) :
    R.Meets (bindNew name v) p fun _ _ => True := by
  unfold bindNew
  apply session_meets.bind
  rintro _ _ _ ⟨rfl, rfl⟩
  split
  · exact .pure _ trivial
  · exact bind_meets rules name held

theorem bindEntry_meets (rules : Rules R P V L) (item : Ident) (key : Option Ident)
    {x : Value × Value} (position : V x.1 p) (value : V x.2 p) :
    R.Meets (bindEntry item key x) p fun _ _ => True := by
  unfold bindEntry
  apply (bind_meets rules item.name value).bind
  intro _ q first _
  cases key with
  | none => exact .pure _ trivial
  | some k => exact bind_meets rules k.name (rules.keep first position)

theorem repeatWhile_meets (rounds : Nat) {holds : Exec Bool} {body : Exec Unit}
    (tested : ∀ p, R.Meets holds p fun _ _ => True) (done : ∀ p, R.Meets body p fun _ _ => True) :
    R.Meets (repeatWhile rounds holds body) p fun _ _ => True := by
  induction rounds generalizing p with
  | zero => exact .throw _
  | succ rounds ih =>
      rw [repeatWhile]
      apply (tested p).bind
      intro goes q _ _
      cases goes with
      | false => exact .pure _ trivial
      | true =>
          apply (done q).bind
          intro _ t _ _
          exact ih

theorem forEntries_meets (rules : Rules R P V L) {body : Value × Value → Exec Unit}
    (found : List (Value × Value)) (held : ∀ x ∈ found, V x.1 p ∧ V x.2 p)
    (done : ∀ x p, V x.1 p → V x.2 p → R.Meets (body x) p fun _ _ => True) :
    R.Meets (forEntries body found) p fun _ _ => True := by
  induction found generalizing p with
  | nil => exact .pure _ trivial
  | cons x xs ih =>
      rw [List.forall_mem_cons] at held
      rw [forEntries]
      apply (done x p held.1.1 held.1.2).bind
      intro _ q step _
      exact ih fun y member => (held.2 y member).imp (rules.keep step) (rules.keep step)

end Loops

-- The induction is on statements; a loop inside is an induction on its rounds or entries.
mutual

theorem stmt_meets (rules : Rules R P V L) (rounds : Nat) (sink : Sink) :
    ∀ (s : Stmt) (p : Progress), (∀ m ∈ s.mentions, P m.name) →
    R.Meets (stmt rounds sink s) p fun _ _ => True
  | .declare span d, p, known => by
      rw [stmt]
      exact declare_meets rules span known
  | .bind span name e, p, known => by
      rw [stmt]
      apply (rules.value span p (forall_key_iff.mp known)).bind
      intro v q _ held
      exact bind_meets rules name.name held
  | .assign span target path e, p, known => by
      rw [Stmt.mentions, List.forall_mem_append] at known
      rw [stmt]
      exact assign_meets rules span target (forall_word_iff.mp known.1) (forall_key_iff.mp known.2)
  | .get span e, p, known => by
      rw [stmt]
      exact emit_meets rules sink span (forall_key_iff.mp known)
  | .branch _ c onTrue onFalse, p, known => by
      rw [Stmt.mentions, List.forall_mem_append, List.forall_mem_append] at known
      rw [stmt]
      apply (condition_meets rules (forall_key_iff.mp known.1)).bind
      intro b q _ _
      split
      · exact block_meets rules rounds sink onTrue q known.2.1
      · exact block_meets rules rounds sink onFalse q known.2.2
  | .each _ item key collection body, p, known => by
      rw [Stmt.mentions, List.forall_mem_append] at known
      rw [stmt]
      apply (entries_meets rules (forall_key_iff.mp known.1)).bind
      intro found q _ held
      apply rules.locals
      apply forEntries_meets rules found held
      intro x t position value
      apply (bindEntry_meets rules item key position value).bind
      intro _ u _ _
      exact block_meets rules rounds sink body u known.2
  | .loop _ counter c body, p, known => by
      rw [Stmt.mentions, List.forall_mem_append] at known
      rw [stmt]
      apply rules.locals
      apply (bindNew_meets rules counter.name (rules.scalar p fun _ => Value.noConfusion)).bind
      intro _ q _ _
      exact repeatWhile_meets rounds (fun _ => condition_meets rules (forall_key_iff.mp known.1))
        fun t => block_meets rules rounds sink body t known.2

theorem block_meets (rules : Rules R P V L) (rounds : Nat) (sink : Sink) :
    ∀ (ss : List Stmt) (p : Progress), (∀ m ∈ Stmt.blockMentions ss, P m.name) →
    R.Meets (block rounds sink ss) p fun _ _ => True
  | [], p, _ => by
      rw [block]
      exact .pure _ trivial
  | s :: ss, p, known => by
      rw [Stmt.blockMentions, List.forall_mem_append] at known
      rw [block]
      apply (stmt_meets rules rounds sink s p known.1).bind
      intro _ q _ _
      exact block_meets rules rounds sink ss q known.2

end

end Dil.Exec
