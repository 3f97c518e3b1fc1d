import Dil.Proofs.Heap.Lookups
import Dil.Proofs.Session.Runs

namespace Dil

/-- What holds of a result and the state after it, if there is a result. -/
def After {ε σ α : Type} (outcome : Except ε α × σ) (P : α → σ → Prop) : Prop :=
  ∀ a, outcome.1 = .ok a → P a outcome.2

theorem Regime.Meets.after {ε σ α : Type} {R : Regime σ} {m : ExceptT ε (StateM σ) α} {s : σ}
    {Q P : α → σ → Prop} (met : R.Meets m s Q) (good : R.Good s)
    (step : ∀ a t, R.Step s t → R.Good t → Q a t → P a t) : After (m s) P := by
  intro a run
  obtain ⟨moved, result⟩ := met good
  exact step a _ moved (R.keep moved good) (result a run)

section Evaluation

variable (create : String → Eval Value) (made : String → Store → Prop) (scope : Scope)

mutual

/-- Every cell that the evaluation looks up is in range, given as much of the making of objects. -/
def EvalInRange : Expr → Store → Prop
  | .null _, _ | .bool _ _, _ | .int _ _, _ | .float _ _, _ | .str _ _, _ | .var _ _, _ => True
  | .map _ entries, s => EntriesInRange entries s
  | .array _ items, s => ItemsInRange items s
  | .create _ className, s => made className.name s
  | .path _ base segments, s =>
    EvalInRange base s ∧ After (eval create scope base s) fun root t =>
      SegmentsInRange segments t ∧ After (evalSegments create scope segments t) fun steps u =>
        u.heap.WalkInRange root steps
  | .binary _ op left right, s =>
    EvalInRange left s ∧ After (eval create scope left s) fun l t =>
      shortcut? op l = none → EvalInRange right t
  | .unary _ _ operand, s => EvalInRange operand s
  | .cast _ value _, s => EvalInRange value s
  | .paren _ inner, s => EvalInRange inner s

def ItemsInRange : List Expr → Store → Prop
  | [], _ => True
  | e :: es, s =>
    EvalInRange e s ∧ After (eval create scope e s) fun _ t => ItemsInRange es t

def EntriesInRange : List Entry → Store → Prop
  | [], _ => True
  | .mk _ value :: es, s =>
    EvalInRange value s ∧ After (eval create scope value s) fun _ t => EntriesInRange es t

def SegmentsInRange : List Segment → Store → Prop
  | [], _ => True
  | .field _ :: ss, s => SegmentsInRange ss s
  | .index position :: ss, s =>
    EvalInRange position s ∧ After (eval create scope position s) fun _ t => SegmentsInRange ss t

end

def SlotsInRange : List FieldDef → Store → Prop
  | [], _ => True
  | f :: fs, s =>
    EvalInRange create made .empty f.value s ∧ After (newSlot create f s) fun _ t =>
      SlotsInRange fs t

end Evaluation

def InstantiateInRange (classes : Classes) : Nat → String → Store → Prop
  | 0, _, _ => True
  | depth + 1, name, s =>
    ∀ c, classes.find? name = some c → s.building.contains name = false →
      SlotsInRange (instantiate classes depth) (InstantiateInRange classes depth) c.fields
        ⟨s.heap, name :: s.building⟩

def NewObjectInRange (classes : Classes) (name : String) (s : Store) : Prop :=
  InstantiateInRange classes (classes.size + 1) name s

section Expressions

variable {classes : Classes} {create : String → Eval Value} {made : String → Store → Prop}
  {scope : Scope}

mutual

theorem eval_inRange (grower : Grower classes create) (maker : ∀ name s, s.heap.Closed → made name s) :
    ∀ (e : Expr) (s : Store), s.heap.Closed → s.heap.HoldsAll scope.values →
      EvalInRange create made scope e s
  | .null _, _, _, _ | .bool _ _, _, _, _ | .int _ _, _, _, _ | .float _ _, _, _, _
  | .str _ _, _, _, _ | .var _ _, _, _, _ => by
      rw [EvalInRange]
      trivial
  | .map _ entries, s, closed, bound => by
      rw [EvalInRange]
      exact entries_inRange grower maker entries s closed bound
  | .array _ items, s, closed, bound => by
      rw [EvalInRange]
      exact items_inRange grower maker items s closed bound
  | .create _ className, s, closed, _ => by
      rw [EvalInRange]
      exact maker className.name s closed
  | .path _ base segments, s, closed, bound => by
      rw [EvalInRange]
      refine ⟨eval_inRange grower maker base s closed bound, ?_⟩
      refine (eval_grows grower base s bound).after closed ?_
      intro root t first closed held
      have bound := first.1.holdsAll bound
      refine ⟨segments_inRange grower maker segments t closed bound, ?_⟩
      refine (evalSegments_grows grower segments t bound).after closed ?_
      intro steps u second closed _
      exact Heap.walk_inRange closed (second.1.holds held) steps
  | .binary _ op left right, s, closed, bound => by
      rw [EvalInRange]
      refine ⟨eval_inRange grower maker left s closed bound, ?_⟩
      refine (eval_grows grower left s bound).after closed ?_
      intro l t first closed _ _
      exact eval_inRange grower maker right t closed (first.1.holdsAll bound)
  | .unary _ _ operand, s, closed, bound => by
      rw [EvalInRange]
      exact eval_inRange grower maker operand s closed bound
  | .cast _ value _, s, closed, bound => by
      rw [EvalInRange]
      exact eval_inRange grower maker value s closed bound
  | .paren _ inner, s, closed, bound => by
      rw [EvalInRange]
      exact eval_inRange grower maker inner s closed bound

theorem items_inRange (grower : Grower classes create) (maker : ∀ name s, s.heap.Closed → made name s) :
    ∀ (items : List Expr) (s : Store), s.heap.Closed → s.heap.HoldsAll scope.values →
      ItemsInRange create made scope items s
  | [], _, _, _ => by
      rw [ItemsInRange]
      trivial
  | e :: es, s, closed, bound => by
      rw [ItemsInRange]
      refine ⟨eval_inRange grower maker e s closed bound, ?_⟩
      refine (eval_grows grower e s bound).after closed ?_
      intro _ t first closed _
      exact items_inRange grower maker es t closed (first.1.holdsAll bound)

theorem entries_inRange (grower : Grower classes create)
    (maker : ∀ name s, s.heap.Closed → made name s) :
    ∀ (entries : List Entry) (s : Store), s.heap.Closed → s.heap.HoldsAll scope.values →
      EntriesInRange create made scope entries s
  | [], _, _, _ => by
      rw [EntriesInRange]
      trivial
  | .mk _ value :: es, s, closed, bound => by
      rw [EntriesInRange]
      refine ⟨eval_inRange grower maker value s closed bound, ?_⟩
      refine (eval_grows grower value s bound).after closed ?_
      intro _ t first closed _
      exact entries_inRange grower maker es t closed (first.1.holdsAll bound)

theorem segments_inRange (grower : Grower classes create)
    (maker : ∀ name s, s.heap.Closed → made name s) :
    ∀ (segments : List Segment) (s : Store), s.heap.Closed → s.heap.HoldsAll scope.values →
      SegmentsInRange create made scope segments s
  | [], _, _, _ => by
      rw [SegmentsInRange]
      trivial
  | .field _ :: ss, s, closed, bound => by
      rw [SegmentsInRange]
      exact segments_inRange grower maker ss s closed bound
  | .index position :: ss, s, closed, bound => by
      rw [SegmentsInRange]
      refine ⟨eval_inRange grower maker position s closed bound, ?_⟩
      refine (eval_grows grower position s bound).after closed ?_
      intro _ t first closed _
      exact segments_inRange grower maker ss t closed (first.1.holdsAll bound)

end

theorem slots_inRange (grower : Grower classes create) (maker : ∀ name s, s.heap.Closed → made name s)
    (fields : List FieldDef) (s : Store) (closed : s.heap.Closed) :
    SlotsInRange create made fields s := by
  induction fields generalizing s with
  | nil => trivial
  | cons f fs ih =>
      have unbound : s.heap.HoldsAll (Table.empty : Scope).values := s.heap.holdsAll_nil
      refine ⟨eval_inRange grower maker f.value s closed unbound, ?_⟩
      refine (newSlot_grows grower f s).after closed ?_
      intro _ t _ closed _
      exact ih t closed

theorem instantiate_inRange (classes : Classes) (depth : Nat) (name : String) (s : Store)
    (closed : s.heap.Closed) : InstantiateInRange classes depth name s := by
  induction depth generalizing name s with
  | zero => trivial
  | succ depth ih =>
      intro c _ _
      exact slots_inRange (instantiate_grows classes depth) ih c.fields _ closed

end Expressions

namespace Session

def EvalInRange (s : Session) (e : Expr) : Prop :=
  Dil.EvalInRange (newObject s.classes) (NewObjectInRange s.classes) s.scope e s.toStore

def SegmentsInRange (s : Session) (segments : List Segment) : Prop :=
  Dil.SegmentsInRange (newObject s.classes) (NewObjectInRange s.classes) s.scope segments s.toStore

theorem newObject_inRange (s : Session) (name : String) (t : Store) (closed : t.heap.Closed) :
    NewObjectInRange s.classes name t :=
  instantiate_inRange s.classes _ name t closed

theorem evaluation_inRange {s : Session} (good : s.WellFormed) (e : Expr) : s.EvalInRange e :=
  eval_inRange (newObject_grows s.classes) s.newObject_inRange e s.toStore good.cells good.bindings

theorem path_inRange {s : Session} (good : s.WellFormed) (segments : List Segment) :
    s.SegmentsInRange segments :=
  segments_inRange (newObject_grows s.classes) s.newObject_inRange segments s.toStore good.cells
    good.bindings

end Session

namespace Exec

def AssignInRange (span : Span) (target : Ident) (path : List Segment) (e : Expr)
    (p : Progress) : Prop :=
  ∀ root, p.session.scope.resolve target.name = .ok root →
    if path.isEmpty then p.session.EvalInRange e
    else
      p.session.SegmentsInRange path ∧
      After (evaluate span (fun s => evalSegments (newObject s.classes) s.scope path) p)
        fun steps q => q.session.heap.WalkInRange root steps ∧
      After (evaluate span (fun _ => Eval.look fun h => h.locate root steps) q)
        fun place t => t.session.EvalInRange e ∧
      After (value span e t) fun _ u => u.session.heap.InRange place.ref

/-- What is reached from an emitted value is in range, and no cell besides decides what is shown. -/
def EmitInRange (sink : Sink) (span : Span) (e : Expr) (p : Progress) : Prop :=
  p.session.EvalInRange e ∧ After (value span e p) fun v q =>
    (∀ r, q.session.heap.Reaches v r → q.session.heap.InRange r) ∧
    ∀ other, q.session.heap.Covered other →
      other.view sink.depth v = q.session.heap.view sink.depth v

def EntriesInRange (e : Expr) (p : Progress) : Prop :=
  p.session.EvalInRange e ∧ After (value e.span e p) fun v q => q.session.heap.Holds v

def RoundsInRange (holds : Exec Bool) (body : Exec Unit) (tested done : Progress → Prop) :
    Nat → Progress → Prop
  | 0, _ => True
  | rounds + 1, p =>
    tested p ∧ After (holds p) fun goes q => goes = true →
      done q ∧ After (body q) fun _ t => RoundsInRange holds body tested done rounds t

def EachInRange (body : Value × Value → Exec Unit) (done : Value × Value → Progress → Prop) :
    List (Value × Value) → Progress → Prop
  | [], _ => True
  | x :: xs, p => done x p ∧ After (body x p) fun _ q => EachInRange body done xs q

mutual

def StmtInRange (rounds : Nat) (sink : Sink) : Stmt → Progress → Prop
  | .declare _ _, _ => True
  | .bind _ _ e, p => p.session.EvalInRange e
  | .assign span target path e, p => AssignInRange span target path e p
  | .get span e, p => EmitInRange sink span e p
  | .branch _ c onTrue onFalse, p =>
    p.session.EvalInRange c ∧ After (condition c p) fun b q =>
      if b then BlockInRange rounds sink onTrue q else BlockInRange rounds sink onFalse q
  | .each _ item key collection body, p =>
    EntriesInRange collection p ∧ After (entries collection p) fun found q =>
      EachInRange (fun x => do bindEntry item key x; block rounds sink body)
        (fun x t => After (bindEntry item key x t) fun _ u => BlockInRange rounds sink body u)
        found q
  | .loop _ counter c body, p =>
    After (bindNew counter.name (.int 0) p) fun _ q =>
      RoundsInRange (condition c) (block rounds sink body) (fun t => t.session.EvalInRange c)
        (BlockInRange rounds sink body) rounds q

def BlockInRange (rounds : Nat) (sink : Sink) : List Stmt → Progress → Prop
  | [], _ => True
  | s :: ss, p =>
    StmtInRange rounds sink s p ∧ After (stmt rounds sink s p) fun _ q =>
      BlockInRange rounds sink ss q

end

theorem assign_inRange (span : Span) (target : Ident) (path : List Segment) (e : Expr)
    {p : Progress} (good : p.WellFormed) : AssignInRange span target path e p := by
  intro root resolved
  have rooted := resolved_holds good.session resolved
  split
  · exact Session.evaluation_inRange good.session e
  · refine ⟨Session.path_inRange good.session path, ?_⟩
    refine (segments_moves span path p).after good ?_
    intro steps q first good _
    have rooted := Progress.Moves.holds first rooted
    refine ⟨Heap.walk_inRange good.session.cells rooted steps, ?_⟩
    refine (locate_moves span steps rooted).after good ?_
    intro place t _ good inside
    refine ⟨Session.evaluation_inRange good.session e, ?_⟩
    refine (value_moves span e).after good ?_
    intro _ u second _ _
    exact Progress.Moves.inRange second inside

theorem emit_inRange (sink : Sink) (span : Span) (e : Expr) {p : Progress} (good : p.WellFormed) :
    EmitInRange sink span e p := by
  refine ⟨Session.evaluation_inRange good.session e, ?_⟩
  refine (value_moves span e).after good ?_
  intro v q _ good held
  refine ⟨fun r reaches => Heap.reaches_inRange good.session.cells held reaches, ?_⟩
  intro other covered
  exact Heap.shownWithin_covered good.session.cells covered sink.depth [] held

theorem collection_inRange (e : Expr) {p : Progress} (good : p.WellFormed) :
    EntriesInRange e p := by
  refine ⟨Session.evaluation_inRange good.session e, ?_⟩
  refine (value_moves e.span e).after good ?_
  intro _ _ _ _ held
  exact held

theorem rounds_inRange {holds : Exec Bool} {body : Exec Unit} {tested done : Progress → Prop}
    (rounds : Nat) (p : Progress) (good : p.WellFormed)
    (holdsMoves : ∀ p, running.Meets holds p fun _ _ => True)
    (bodyMoves : ∀ p, running.Meets body p fun _ _ => True)
    (testedIn : ∀ p : Progress, p.WellFormed → tested p)
    (doneIn : ∀ p : Progress, p.WellFormed → done p) :
    RoundsInRange holds body tested done rounds p := by
  induction rounds generalizing p with
  | zero => trivial
  | succ rounds ih =>
      refine ⟨testedIn p good, ?_⟩
      refine (holdsMoves p).after good ?_
      intro _ q _ good _ _
      refine ⟨doneIn q good, ?_⟩
      refine (bodyMoves q).after good ?_
      intro _ t _ good _
      exact ih t good

theorem each_inRange {body : Value × Value → Exec Unit} {done : Value × Value → Progress → Prop}
    (found : List (Value × Value)) (p : Progress) (good : p.WellFormed)
    (held : ∀ x ∈ found, p.session.heap.Holds x.1 ∧ p.session.heap.Holds x.2)
    (bodyMoves : ∀ x p, p.session.heap.Holds x.1 → p.session.heap.Holds x.2 →
      running.Meets (body x) p fun _ _ => True)
    (doneIn : ∀ x (p : Progress), p.WellFormed → p.session.heap.Holds x.1 →
      p.session.heap.Holds x.2 → done x p) :
    EachInRange body done found p := by
  induction found generalizing p with
  | nil => trivial
  | cons x xs ih =>
      have first := held x List.mem_cons_self
      refine ⟨doneIn x p good first.1 first.2, ?_⟩
      refine (bodyMoves x p first.1 first.2).after good ?_
      intro _ q moves good _
      apply ih q good
      intro y member
      have rest := held y (List.mem_cons_of_mem x member)
      exact ⟨Progress.Moves.holds moves rest.1, Progress.Moves.holds moves rest.2⟩

mutual

theorem stmt_inRange (rounds : Nat) (sink : Sink) : ∀ (s : Stmt) (p : Progress),
    p.WellFormed → StmtInRange rounds sink s p
  | .declare _ _, _, _ => by
      rw [StmtInRange]
      trivial
  | .bind _ _ e, p, good => by
      rw [StmtInRange]
      exact Session.evaluation_inRange good.session e
  | .assign span target path e, p, good => by
      rw [StmtInRange]
      exact assign_inRange span target path e good
  | .get span e, p, good => by
      rw [StmtInRange]
      exact emit_inRange sink span e good
  | .branch _ c onTrue onFalse, p, good => by
      rw [StmtInRange]
      refine ⟨Session.evaluation_inRange good.session c, ?_⟩
      refine (condition_moves c p).after good ?_
      intro b q _ good _
      split
      · exact block_inRange rounds sink onTrue q good
      · exact block_inRange rounds sink onFalse q good
  | .each _ item key collection body, p, good => by
      rw [StmtInRange]
      refine ⟨collection_inRange collection good, ?_⟩
      refine (entries_moves collection p).after good ?_
      intro found q _ good held
      apply each_inRange found q good held
      · intro x t position value
        apply (bindEntry_moves item key position value).bind
        intro _ u _ _
        exact block_moves rounds sink body u
      · intro x t good position value
        refine (bindEntry_moves item key position value).after good ?_
        intro _ u _ good _
        exact block_inRange rounds sink body u good
  | .loop _ counter c body, p, good => by
      rw [StmtInRange]
      have zero : p.session.heap.Holds (.int 0) :=
        Heap.holds_scalar _ _ fun _ => Value.noConfusion
      refine (bindNew_moves counter.name zero).after good ?_
      intro _ q _ good _
      exact rounds_inRange rounds q good (condition_moves c) (block_moves rounds sink body)
        (fun t good => Session.evaluation_inRange good.session c) (block_inRange rounds sink body)

theorem block_inRange (rounds : Nat) (sink : Sink) : ∀ (ss : List Stmt) (p : Progress),
    p.WellFormed → BlockInRange rounds sink ss p
  | [], _, _ => by
      rw [BlockInRange]
      trivial
  | s :: ss, p, good => by
      rw [BlockInRange]
      refine ⟨stmt_inRange rounds sink s p good, ?_⟩
      refine (stmt_moves rounds sink s p).after good ?_
      intro _ q _ good _
      exact block_inRange rounds sink ss q good

end

end Exec

namespace Session

/-- No session dangles, whatever the calls before it were and however they ended, be it because no
reference was left for a cell; the numbers of its cells have 32 bits. And whatever is called next, each
lookup on the way is in range. -/
theorem reached_in_range {s : Session} (reached : s.Reached) :
    s.WellFormed ∧ s.heap.Bounded ∧
    (∀ e, s.EvalInRange e ∧
      After (s.eval e) fun v t => ∀ r, t.heap.Reaches v r → t.heap.InRange r) ∧
    (∀ name, NewObjectInRange s.classes name s.toStore ∧
      After (s.instantiate name) fun v t => ∀ r, t.heap.Reaches v r → t.heap.InRange r) ∧
    (∀ rounds sink (program : Program),
      Exec.BlockInRange rounds sink program.statements ⟨s, []⟩ ∧
      (s.run rounds sink program).session.WellFormed ∧
      ∀ e ∈ (s.run rounds sink program).emissions,
        ∀ r, (s.run rounds sink program).session.heap.Reaches e.value r →
          (s.run rounds sink program).session.heap.InRange r) ∧
    ∀ v, s.heap.Holds v →
      (∀ path, s.heap.WalkInRange v path ∧
        ∀ place, s.heap.locate v path = .ok place → s.heap.InRange place.ref) ∧
      ∀ other, s.heap.Covered other →
        (∀ depth, other.view depth v = s.heap.view depth v) ∧
        ∀ w, s.heap.Holds w → ∀ depth visiting,
          other.equalWithin depth visiting v w = s.heap.equalWithin depth visiting v w := by
  have good := (reached_moves reached).2
  refine ⟨good, reached_bounded reached, ?_, ?_, ?_, ?_⟩
  · intro e
    obtain ⟨moves, held⟩ := eval_session good e
    refine ⟨evaluation_inRange good e, fun v run r reaches => ?_⟩
    exact Heap.reaches_inRange (moves_wellFormed moves good).cells (held v run) reaches
  · intro name
    obtain ⟨moves, held⟩ := instantiate_session good name
    refine ⟨s.newObject_inRange name s.toStore good.cells, fun v run r reaches => ?_⟩
    exact Heap.reaches_inRange (moves_wellFormed moves good).cells (held v run) reaches
  · intro rounds sink program
    have after := moves_wellFormed (run_moves rounds sink program good) good
    refine ⟨Exec.block_inRange rounds sink _ _ (started_wellFormed good), after, ?_⟩
    intro e emitted r reaches
    have held := run_emissions_held rounds sink program good emitted
    exact Heap.reaches_inRange after.cells held reaches
  · intro v held
    refine ⟨fun path => ⟨Heap.walk_inRange good.cells held path, ?_⟩, ?_⟩
    · intro place located
      exact Heap.locate_inRange good.cells held located
    · intro other covered
      refine ⟨fun depth => Heap.shownWithin_covered good.cells covered depth [] held, ?_⟩
      intro w heldW depth visiting
      exact Heap.equalWithin_covered good.cells covered depth visiting held heldW

def selfContaining : Program :=
  ⟨[.bind ⟨0, 16⟩ ⟨"a", ⟨4, 5⟩⟩ (.array ⟨8, 14⟩ [.null ⟨9, 13⟩]),
    .assign ⟨17, 26⟩ ⟨"a", ⟨17, 18⟩⟩ [.index (.int ⟨19, 20⟩ 0)] (.var ⟨24, 25⟩ "a"),
    .get ⟨27, 33⟩ (.var ⟨31, 32⟩ "a")], ⟨0, 33⟩⟩

theorem refused_cycle_in_range :
    let s := (new.run 1 (.closedAt 2 0 "closed") selfContaining).session
    s.heap.cell? (.array 0) = some (.array [.ref (.array 0)]) ∧ s.WellFormed :=
  ⟨by decide, (reached_in_range (.run .new 1 (.closedAt 2 0 "closed") selfContaining)).1⟩

end Session

end Dil
