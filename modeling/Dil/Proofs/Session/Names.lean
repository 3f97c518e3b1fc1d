import Dil.Proofs.Eval.Names
import Dil.Proofs.Session.Cuts

namespace Dil

variable {P : String → Prop}

/-- A name in a cell or in a class. -/
def Session.Mentions (s : Session) (name : String) : Prop :=
  (∃ r c, s.heap.cell? r = some c ∧ name ∈ c.names) ∨ ∃ c ∈ s.classes.values, name ∈ c.names

structure Session.Named (P : String → Prop) (s : Session) : Prop where
  cells : s.heap.Named P
  classes : ∀ c ∈ s.classes.values, ∀ name ∈ c.names, P name

theorem Session.named_mentions {s : Session} (mentioned : ∀ name, s.Mentions name → P name) :
    s.Named P where
  cells r c found name member := mentioned name (Or.inl ⟨r, c, found, member⟩)
  classes c among name member := mentioned name (Or.inr ⟨c, among, member⟩)

structure Progress.Named (P : String → Prop) (p : Progress) : Prop where
  session : p.session.Named P
  taken : ∀ e ∈ p.taken, ∀ name ∈ e.shown.names, P name

def Progress.naming (P : String → Prop) : Regime Progress where
  Good := Named P
  Step p q := p.Named P → q.Named P
  refl _ named := named
  trans first second named := second (first named)
  keep step := step

namespace Exec

def Named {α : Type} (P : String → Prop) (action : Exec α) : Prop :=
  ∀ p, (Progress.naming P).Meets action p fun _ _ => True

section Steps

variable {α : Type} {p : Progress}

theorem evaluate_named {Q : α → Heap → Prop} (span : Span) (action : Session → Eval α)
    (met : p.session.Named P → (Heap.naming P).Yields (action p.session) p.session.toStore Q) :
    (Progress.naming P).Meets (evaluate span action) p fun a q => Q a q.session.heap :=
  evaluate_meets (H := Heap.naming P) span action (fun good => good.session.cells)
    (fun _ good step _ => ⟨⟨step good.session.cells, good.session.classes⟩, good.taken⟩)
    fun good => met good.session

theorem value_named (span : Span) {e : Expr} (keys : ∀ key ∈ e.keys, P key) :
    Named P (value span e) :=
  fun p => evaluate_named span (fun s => Dil.eval (newObject s.classes) s.scope e) fun good =>
    eval_names (newObject_names good.classes) e p.session.toStore keys

theorem segments_named (span : Span) {path : List Segment} (keys : ∀ key ∈ Expr.segmentKeys path, P key) :
    (Progress.naming P).Meets
      (evaluate span fun s => evalSegments (newObject s.classes) s.scope path) p
      fun steps _ => ∀ name, Step.field name ∈ steps → name ∈ pathFields path :=
  evaluate_named span (fun s => evalSegments (newObject s.classes) s.scope path) fun good =>
    evalSegments_names (newObject_names good.classes) path _ keys

theorem locate_named (span : Span) {root : Value} {steps : List Step}
    (fields : ∀ name, Step.field name ∈ steps → P name) :
    (Progress.naming P).Meets (evaluate span fun _ => Eval.look fun h => h.locate root steps) p
      fun place _ => ∀ i name, place = .key i name → P name := by
  have met : (Heap.naming P).Yields (Eval.look fun h => h.locate root steps) p.session.toStore
      fun place _ => ∀ i name, place = .key i name → P name := by
    apply look_meets
    rintro _ _ found i name rfl
    exact fields name (Heap.key_of_located found)
  exact evaluate_named span (fun _ => Eval.look fun h => h.locate root steps) fun _ => met

theorem register_named {d : ClassDecl} {c : ClassDef} {classes : Classes}
    (known : ∀ m ∈ d.mentions, P m.name) (defined : ClassDef.ofDecl d = .ok c)
    (declared : p.session.classes.declare c = .ok classes) (named : p.Named P) :
    Progress.Named P { p with session.classes := classes } := by
  obtain ⟨_, rfl⟩ := declare_new declared
  refine ⟨⟨named.session.cells, ?_⟩, named.taken⟩
  intro other member
  obtain rfl | old := Table.value_of_insert member
  · rw [names_ofDecl defined]
    exact List.forall_mem_map.mpr known
  · exact named.session.classes other old

/-- No step brings in a name that the script does not mention; those that it binds are not shown. -/
theorem mention_rules : Rules (Progress.naming P) P (fun _ _ => True)
    fun place _ => ∀ i name, place = .key i name → P name where
  keep _ _ := trivial
  keepPlace _ key := key
  scalar _ _ := trivial
  bound _ _ := trivial
  item _ _ := trivial
  entry _ _ := trivial
  value span p keys := value_named span keys p
  segments span _ fields keys := (segments_named span keys).mono
    fun _ _ _ named name member => fields name (named name member)
  locate span _ fields := locate_named span fields
  bind _ _ _ named := ⟨⟨named.session.cells, named.session.classes⟩, named.taken⟩
  register _ known defined declared := register_named known defined declared
  write _ key _ written named :=
    ⟨⟨Heap.write_named named.session.cells key written, named.session.classes⟩, named.taken⟩
  take depth _ _ _ named :=
    ⟨named.session, List.forall_mem_cons.mpr ⟨named.session.cells.shown depth [] _, named.taken⟩⟩
  locals _ met good := by
    refine ⟨fun _ => ?_, fun _ _ => trivial⟩
    have after := (met good).1 good
    exact ⟨⟨after.session.cells, after.session.classes⟩, after.taken⟩

end Steps

section Statements

variable {rounds : Nat} {sink : Sink}

theorem condition_named {e : Expr} (keys : ∀ key ∈ e.keys, P key) : Named P (condition e) :=
  fun _ => condition_meets mention_rules keys

theorem entries_named {e : Expr} (keys : ∀ key ∈ e.keys, P key) : Named P (entries e) :=
  fun _ => (entries_meets mention_rules keys).mono fun _ _ _ _ => trivial

theorem bindNew_named (name : String) (v : Value) : Named P (bindNew name v) :=
  fun _ => bindNew_meets mention_rules name trivial

theorem bindEntry_named (item : Ident) (key : Option Ident) (e : Value × Value) :
    Named P (bindEntry item key e) :=
  fun _ => bindEntry_meets mention_rules item key trivial trivial

theorem stmt_named (s : Stmt) (known : ∀ m ∈ s.mentions, P m.name) : Named P (stmt rounds sink s) :=
  fun p => stmt_meets mention_rules rounds sink s p known

theorem block_named (ss : List Stmt) (known : ∀ m ∈ Stmt.blockMentions ss, P m.name) :
    Named P (block rounds sink ss) :=
  fun p => block_meets mention_rules rounds sink ss p known

end Statements

section Offers

variable {rounds : Nat} {sink : Sink} {p q : Progress} {o : Offer} {α : Type}

theorem Named.after {m : Exec α} {r : Except Stop α} (named : Named P m) (good : p.Named P)
    (run : m p = (r, q)) : q.Named P :=
  Regime.Meets.step (named p) good run good

theorem enter_named (item : Ident) (key : Option Ident) (e : Value × Value) (good : p.Named P) :
    (enter item key e p).Named P :=
  (bindEntry_named item key e p good).1 good

theorem chosen_known {b : Bool} {yes no : List Stmt} (first : ∀ m ∈ Stmt.blockMentions yes, P m.name)
    (second : ∀ m ∈ Stmt.blockMentions no, P m.name) :
    ∀ m ∈ Stmt.blockMentions (if b then yes else no), P m.name := by
  cases b
  · exact second
  · exact first

mutual

theorem offer_named : ∀ {s : Stmt} {p : Progress} {o : Offer}, Offers rounds sink s p o →
    (∀ m ∈ s.mentions, P m.name) → p.Named P → ∀ name ∈ o.emission.shown.names, P name
  | _, _, _, .get found, known, good => by
      have after := (value_named _ (forall_key_iff.mp known)).after good found
      exact after.session.cells.shown sink.depth [] _
  | _, _, _, .branch test inside, known, good => by
      rw [Stmt.mentions, List.forall_mem_append, List.forall_mem_append] at known
      have after := (condition_named (forall_key_iff.mp known.1)).after good test
      exact blockOffer_named inside (chosen_known known.2.1 known.2.2) after
  | _, _, _, .each opened inside, known, good => by
      rw [Stmt.mentions, List.forall_mem_append] at known
      have after := (entries_named (forall_key_iff.mp known.1)).after good opened
      -- seen from outside of the loop the emission is the same
      have shown := eachOffer_named inside known.2 after
      exact shown
  | _, _, _, .loop started inside, known, good => by
      rw [Stmt.mentions, List.forall_mem_append] at known
      have after := (bindNew_named _ _).after good started
      have shown := loopOffer_named inside (forall_key_iff.mp known.1) known.2 after
      exact shown

theorem blockOffer_named : ∀ {ss : List Stmt} {p : Progress} {o : Offer},
    BlockOffers rounds sink ss p o → (∀ m ∈ Stmt.blockMentions ss, P m.name) → p.Named P →
    ∀ name ∈ o.emission.shown.names, P name
  | _, _, _, .first here, known, good => by
      rw [Stmt.blockMentions, List.forall_mem_append] at known
      exact offer_named here known.1 good
  | _, _, _, .later done others, known, good => by
      rw [Stmt.blockMentions, List.forall_mem_append] at known
      exact blockOffer_named others known.2 ((stmt_named _ known.1).after good done)

theorem eachOffer_named : ∀ {item : Ident} {key : Option Ident} {body : List Stmt}
    {found : List (Value × Value)} {p : Progress} {o : Offer},
    EachOffers rounds sink item key body found p o → (∀ m ∈ Stmt.blockMentions body, P m.name) →
    p.Named P → ∀ name ∈ o.emission.shown.names, P name
  | _, _, _, _, _, _, .first here, known, good =>
      blockOffer_named here known (enter_named _ _ _ good)
  | _, _, _, _, _, _, .later done others, known, good =>
      eachOffer_named others known ((block_named _ known).after (enter_named _ _ _ good) done)

theorem loopOffer_named : ∀ {c : Expr} {body : List Stmt} {n : Nat} {p : Progress} {o : Offer},
    LoopOffers rounds sink c body n p o → (∀ key ∈ c.keys, P key) →
    (∀ m ∈ Stmt.blockMentions body, P m.name) → p.Named P →
    ∀ name ∈ o.emission.shown.names, P name
  | _, _, _, _, _, .first test here, keys, known, good =>
      blockOffer_named here known ((condition_named keys).after good test)
  | _, _, _, _, _, .later test done others, keys, known, good =>
      loopOffer_named others keys known
        ((block_named _ known).after ((condition_named keys).after good test) done)

end

end Offers

end Exec

namespace Session

variable {rounds : Nat} {sink : Sink} {s : Session} {program : Program}

theorem new_named : new.Named P where
  cells := Heap.empty_named
  classes := nofun

/-- What a run emits is shown with names of the kind, if those in the session and in the script are of
the kind. -/
theorem emission_named (named : s.Named P) (known : ∀ m ∈ program.mentions, P m.name) :
    ∀ e ∈ (s.run rounds sink program).emissions, ∀ name ∈ e.shown.names, P name := by
  have started : Progress.Named P ⟨s, []⟩ := ⟨named, nofun⟩
  have after : (Exec.block rounds sink program.statements ⟨s, []⟩).2.Named P :=
    (Exec.block_named program.statements known).after started rfl
  intro e emitted
  rw [(run_progress rounds sink s program).2.1, List.mem_reverse] at emitted
  exact after.taken e emitted

end Session

end Dil
