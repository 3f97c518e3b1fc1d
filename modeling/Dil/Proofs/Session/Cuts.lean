import Mathlib.Data.List.Forall2
import Dil.Proofs.Session.Loops
import Dil.Proofs.Session.Runs

/-!
Sinks only listen. A run into a sink that takes everything passes through a sequence of moments at
which a `Get` hands out a value. Another sink sees the same moments in the same order, and the run into
it ends at the one where it refuses, with nothing to follow but the loops around dropping their names.
-/

namespace Dil

def Sink.Accepts (sink : Sink) : Prop := ∀ taken e, sink.refusal? taken e = none

def Sink.TakesUpTo (sink : Sink) (k : Nat) : Prop :=
  ∀ taken e, taken.length < k → sink.refusal? taken e = none

structure Sink.RefusesAt (sink : Sink) (k : Nat) : Prop where
  takes : sink.TakesUpTo k
  refuses : ∀ taken e, taken.length = k → ∃ error, sink.refusal? taken e = some error

theorem Sink.accepting_accepts (depth : Nat) : (accepting depth).Accepts := fun _ _ => rfl

theorem Sink.closedAt_refusal {depth k : Nat} {reason : String} {taken : List Emission}
    (now : taken.length = k) (e : Emission) :
    (closedAt depth k reason).refusal? taken e = some (.output reason) := if_pos now

theorem Sink.closedAt_refusesAt (depth k : Nat) (reason : String) :
    (closedAt depth k reason).RefusesAt k where
  takes _ _ before := if_neg (Nat.ne_of_lt before)
  refuses _ e now := ⟨.output reason, closedAt_refusal now e⟩

/-- The same value from the same place, and shown alike where that is asked for. -/
structure Emission.Agrees (shownAlike : Prop) (e e' : Emission) : Prop where
  value : e.value = e'.value
  span : e.span = e'.span
  shown : shownAlike → e.shown = e'.shown

/-- A moment at which a `Get` hands out a value: the place of the statement, what it hands out, how far
the run has come, and which names the loops around have created, those of the innermost first. -/
structure Offer where
  place : Span
  emission : Emission
  before : Progress
  created : List String

/-- The same moment, seen from outside a loop that was entered in the given state. -/
def Offer.within (names : List String) (p : Progress) (o : Offer) : Offer :=
  { o with created := o.created ++ names.filter fun name => !p.session.scope.contains name }

/-- The session at that moment without the names that the loops around have created. -/
def Offer.unwound (o : Offer) : Session :=
  { o.before.session with scope := o.created.foldl Table.erase o.before.session.scope }

theorem Offer.unwound_within (names : List String) (p : Progress) (o : Offer) :
    (o.within names p).unwound = { o.unwound with
      scope := (names.filter fun name => !p.session.scope.contains name).foldl Table.erase
        o.unwound.scope } := by
  simp [unwound, within, List.foldl_append]

namespace Exec

section Moments

variable (rounds : Nat) (sink : Sink)

mutual

/-- The moments of a statement that starts in a state. -/
inductive Offers : Stmt → Progress → Offer → Prop where
  | get {span : Span} {e : Expr} {v : Value} {p q : Progress}
      (found : value span e p = (.ok v, q)) :
      Offers (.get span e) p ⟨span, ⟨v, q.session.heap.view sink.depth v, e.span⟩, q, []⟩
  | branch {span : Span} {c : Expr} {onTrue onFalse : List Stmt} {b : Bool} {p q : Progress}
      {o : Offer} (test : condition c p = (.ok b, q))
      (inside : BlockOffers (if b then onTrue else onFalse) q o) :
      Offers (.branch span c onTrue onFalse) p o
  | each {span : Span} {item : Ident} {key : Option Ident} {collection : Expr} {body : List Stmt}
      {found : List (Value × Value)} {p q : Progress} {o : Offer}
      (opened : entries collection p = (.ok found, q))
      (inside : EachOffers item key body found q o) :
      Offers (.each span item key collection body) p
        (o.within (item.name :: (key.map Ident.name).toList) q)
  | loop {span : Span} {counter : Ident} {c : Expr} {body : List Stmt} {p q : Progress} {o : Offer}
      (started : bindNew counter.name (.int 0) p = (.ok (), q))
      (inside : LoopOffers c body rounds q o) :
      Offers (.loop span counter c body) p (o.within [counter.name] p)

inductive BlockOffers : List Stmt → Progress → Offer → Prop where
  | first {s : Stmt} {ss : List Stmt} {p : Progress} {o : Offer} (here : Offers s p o) :
      BlockOffers (s :: ss) p o
  | later {s : Stmt} {ss : List Stmt} {p q : Progress} {o : Offer}
      (done : stmt rounds sink s p = (.ok (), q)) (others : BlockOffers ss q o) :
      BlockOffers (s :: ss) p o

inductive EachOffers : Ident → Option Ident → List Stmt → List (Value × Value) → Progress →
    Offer → Prop where
  | first {item : Ident} {key : Option Ident} {body : List Stmt} {e : Value × Value}
      {es : List (Value × Value)} {p : Progress} {o : Offer}
      (here : BlockOffers body (enter item key e p) o) : EachOffers item key body (e :: es) p o
  | later {item : Ident} {key : Option Ident} {body : List Stmt} {e : Value × Value}
      {es : List (Value × Value)} {p q : Progress} {o : Offer}
      (done : block rounds sink body (enter item key e p) = (.ok (), q))
      (others : EachOffers item key body es q o) : EachOffers item key body (e :: es) p o

inductive LoopOffers : Expr → List Stmt → Nat → Progress → Offer → Prop where
  | first {c : Expr} {body : List Stmt} {n : Nat} {p q : Progress} {o : Offer}
      (test : condition c p = (.ok true, q)) (here : BlockOffers body q o) :
      LoopOffers c body (n + 1) p o
  | later {c : Expr} {body : List Stmt} {n : Nat} {p q t : Progress} {o : Offer}
      (test : condition c p = (.ok true, q)) (done : block rounds sink body q = (.ok (), t))
      (others : LoopOffers c body n t o) : LoopOffers c body (n + 1) p o

end

end Moments

section Blind

variable {α β : Type}

def Blind (m : Exec α) : Prop :=
  ∀ s taken, m ⟨s, taken⟩ = ((m ⟨s, []⟩).1, ⟨(m ⟨s, []⟩).2.session, taken⟩)

theorem Blind.bind {m : Exec α} {k : α → Exec β} (first : Blind m) (second : ∀ a, Blind (k a)) :
    Blind (m >>= k) := by
  intro s taken
  have bare := first s []
  rw [bind_apply, bind_apply, first s taken]
  rcases outcome : m ⟨s, []⟩ with ⟨e | a, t⟩
  · rfl
  · rw [outcome] at bare
    obtain ⟨_, start⟩ := Prod.ext_iff.mp bare
    change t = ⟨t.session, []⟩ at start
    rw [start]
    exact second a t.session taken

theorem pure_blind (a : α) : Blind (pure a) := fun _ _ => rfl

theorem throw_blind (stop : Stop) : Blind (throw stop : Exec α) := fun _ _ => rfl

theorem session_blind : Blind session := fun _ _ => rfl

theorem bind_blind (name : String) (v : Value) : Blind (bind name v) := fun _ _ => rfl

theorem ofResult_blind (span : Span) (r : Except EvalError α) : Blind (ofResult span r) := by
  cases r with
  | ok a => exact pure_blind a
  | error e => exact throw_blind _

theorem evaluate_blind (span : Span) (action : Session → Eval α) :
    Blind (evaluate span action) := by
  intro s taken
  simp only [evaluate]
  split <;> rfl

theorem value_blind (span : Span) (e : Expr) : Blind (value span e) := evaluate_blind span _

theorem declare_blind (span : Span) (d : ClassDecl) : Blind (declare span d) := by
  unfold declare
  apply (ofResult_blind span (ClassDef.ofDecl d)).bind
  intro c
  apply session_blind.bind
  intro s
  apply (ofResult_blind span (s.classes.declare c)).bind
  intro classes
  exact fun _ _ => rfl

theorem rebind_blind (span : Span) (name : String) (v : Value) : Blind (rebind span name v) := by
  unfold rebind
  apply session_blind.bind
  intro s
  apply (ofResult_blind span (s.scope.rebind name v)).bind
  intro scope
  exact fun _ _ => rfl

theorem write_blind (span : Span) (place : Locator) (v : Value) : Blind (write span place v) := by
  intro s taken
  simp only [write]
  split <;> rfl

theorem assign_blind (span : Span) (target : Ident) (path : List Segment) (e : Expr) :
    Blind (assign span target path e) := by
  unfold assign
  apply session_blind.bind
  intro s
  apply (ofResult_blind span (s.scope.resolve target.name)).bind
  intro root
  split
  · exact (value_blind span e).bind fun v => rebind_blind span target.name v
  · apply (evaluate_blind span _).bind
    intro steps
    apply (evaluate_blind span _).bind
    intro place
    exact (value_blind span e).bind fun v => write_blind span place v

theorem condition_blind (e : Expr) : Blind (condition e) := by
  unfold condition
  apply (value_blind e.span e).bind
  intro v
  split
  · exact pure_blind _
  · exact throw_blind _

theorem entries_blind (e : Expr) : Blind (entries e) := by
  unfold entries
  apply (value_blind e.span e).bind
  intro v
  apply session_blind.bind
  intro s
  split
  · exact pure_blind _
  · exact pure_blind _
  · exact throw_blind _

theorem bindNew_blind (name : String) (v : Value) : Blind (bindNew name v) := by
  unfold bindNew
  apply session_blind.bind
  intro s
  split
  · exact pure_blind _
  · exact bind_blind name v

theorem bindEntry_blind (item : Ident) (key : Option Ident) (e : Value × Value) :
    Blind (bindEntry item key e) := by
  unfold bindEntry
  apply (bind_blind item.name e.2).bind
  intro _
  cases key with
  | none => exact pure_blind _
  | some k => exact bind_blind k.name e.1

end Blind

end Exec

structure Progress.Seen (shownAlike : Prop) (p q : Progress) : Prop where
  session : p.session = q.session
  taken : List.Forall₂ (Emission.Agrees shownAlike) p.taken q.taken

namespace Exec

section Beside

variable (shownAlike : Prop) (other : Sink) (k : Nat) {α β : Type}

/-- From a state that has come as far, the other computation has reached the same moment, the one with
number `k`, in a run that went on to the end `final`. If its sink refuses there, it ends there. -/
structure Cut (o : Offer) (final : Progress) (m' : Exec α) (p' : Progress) : Prop where
  number : o.before.taken.length = k
  went : (o.emission :: o.before.taken) <:+ final.taken
  ends : ∃ taken e, List.Forall₂ (Emission.Agrees shownAlike) o.before.taken taken ∧
    o.emission.Agrees shownAlike e ∧ ∀ error, other.refusal? taken e = some error →
      m' p' = (.error (.failed ⟨error, o.place⟩), ⟨o.unwound, taken⟩)

/-- The computations do the same before moment `k`, which is one of the given moments. -/
def Follows (m m' : Exec α) (p p' : Progress) (offers : Offer → Prop) : Prop :=
  p.taken <:+ (m p).2.taken ∧ (p.Seen shownAlike p' → p.taken.length ≤ k →
    ((m p).1 = (m' p').1 ∧ (m p).2.Seen shownAlike (m' p').2 ∧ (m p).2.taken.length ≤ k) ∨
    ∃ o, offers o ∧ Cut shownAlike other k o (m p).2 m' p')

variable {shownAlike other k} {p p' : Progress} {offers : Offer → Prop}

theorem Follows.mono {m m' : Exec α} {wider : Offer → Prop}
    (follows : Follows shownAlike other k m m' p p' offers) (weaker : ∀ o, offers o → wider o) :
    Follows shownAlike other k m m' p p' wider := by
  refine ⟨follows.1, fun seen short => ?_⟩
  rcases follows.2 seen short with same | ⟨o, offer, cut⟩
  · exact Or.inl same
  · exact Or.inr ⟨o, weaker o offer, cut⟩

theorem Blind.follows {m : Exec α} (blind : Blind m) :
    Follows shownAlike other k m m p p' offers := by
  obtain ⟨s, taken⟩ := p
  obtain ⟨s', taken'⟩ := p'
  refine ⟨?_, fun seen short => Or.inl ?_⟩
  · rewrite [blind s taken]
    exact List.suffix_rfl
  · obtain ⟨rfl, agree⟩ := seen
    rw [blind s taken, blind s taken']
    exact ⟨rfl, ⟨rfl, agree⟩, short⟩

theorem Follows.bind {m m' : Exec α} {l l' : α → Exec β}
    (first : Follows shownAlike other k m m' p p' offers)
    (second : ∀ a q q', m p = (.ok a, q) →
      Follows shownAlike other k (l a) (l' a) q q' offers) :
    Follows shownAlike other k (m >>= l) (m' >>= l') p p' offers := by
  have grown : (m p).2.taken <:+ ((m >>= l) p).2.taken := by
    rcases outcome : m p with ⟨e | a, q⟩
    · rewrite [bind_of_error l outcome]
      exact List.suffix_rfl
    · rw [bind_of_ok l outcome]
      exact (second a q q outcome).1
  refine ⟨first.1.trans grown, fun seen short => ?_⟩
  rcases first.2 seen short with ⟨result, after, still⟩ | ⟨o, offer, cut⟩
  · rcases outcome : m p with ⟨e | a, q⟩
    all_goals
      rcases outcome' : m' p' with ⟨r', q'⟩
      rw [outcome, outcome'] at result after
      rw [outcome] at still
      cases result
    · rw [bind_of_error l outcome, bind_of_error l' outcome']
      exact Or.inl ⟨rfl, after, still⟩
    · have final := (second a q q' outcome).2 after still
      rw [bind_of_ok l outcome]
      rcases final with same | ⟨o, offer, cut⟩
      · rw [bind_of_ok l' outcome']
        exact Or.inl same
      · obtain ⟨taken, e, agree, same, ends⟩ := cut.ends
        refine Or.inr ⟨o, offer, cut.number, cut.went, taken, e, agree, same, ?_⟩
        intro error refused
        rw [bind_of_ok l' outcome', ends error refused]
  · obtain ⟨taken, e, agree, same, ends⟩ := cut.ends
    refine Or.inr ⟨o, offer, cut.number, cut.went.trans grown, taken, e, agree, same, ?_⟩
    intro error refused
    exact bind_of_error l' (ends error refused)

theorem withLocals_follows (names : List String) {action action' : Exec Unit}
    (follows : Follows shownAlike other k action action' p p' offers) :
    Follows shownAlike other k (withLocals names action) (withLocals names action') p p'
      fun o => ∃ inner, offers inner ∧ o = inner.within names p := by
  refine ⟨follows.1, fun seen short => ?_⟩
  rw [withLocals_apply, withLocals_apply, ← seen.session]
  rcases follows.2 seen short with ⟨result, after, still⟩ | ⟨o, offer, cut⟩
  · refine Or.inl ⟨result, ⟨?_, after.taken⟩, still⟩
    simp only [after.session]
  · obtain ⟨taken, e, agree, same, ends⟩ := cut.ends
    refine Or.inr ⟨o.within names p, ⟨o, offer, rfl⟩, cut.number, cut.went, taken, e, agree, same, ?_⟩
    intro error refused
    rw [withLocals_apply, ends error refused, ← seen.session, Offer.unwound_within]
    rfl

variable {sink : Sink}

theorem emit_follows (accepts : sink.Accepts) (takes : other.TakesUpTo k)
    (depths : shownAlike → sink.depth = other.depth) (span : Span) (e : Expr) :
    Follows shownAlike other k (emit sink span e) (emit other span e) p p'
      fun o => ∃ v q, value span e p = (.ok v, q) ∧
        o = ⟨span, ⟨v, q.session.heap.view sink.depth v, e.span⟩, q, []⟩ := by
  unfold emit
  apply (value_blind span e).follows.bind
  intro v q ⟨s', taken'⟩ found
  refine ⟨?_, ?_⟩
  · simp only [accepts q.taken]
    exact List.suffix_cons _ _
  · rintro ⟨rfl, agree⟩ short
    simp only [accepts q.taken]
    have alike : Emission.Agrees shownAlike ⟨v, q.session.heap.view sink.depth v, e.span⟩
        ⟨v, q.session.heap.view other.depth v, e.span⟩ :=
      ⟨rfl, rfl, fun wanted => by rw [depths wanted]⟩
    rcases Nat.lt_or_eq_of_le short with before | now
    · left
      have room : taken'.length < k := agree.length_eq ▸ before
      simp only [takes taken' _ room]
      exact ⟨trivial, ⟨rfl, .cons alike agree⟩, before⟩
    · refine Or.inr ⟨_, ⟨v, q, found, rfl⟩, now, List.suffix_rfl, taken', _, agree, alike, ?_⟩
      intro error refused
      simp only [refused]
      rfl

theorem forEntries_follows (item : Ident) (key : Option Ident) {body : List Stmt} {rounds : Nat}
    (bodies : ∀ p p', Follows shownAlike other k (block rounds sink body) (block rounds other body) p p'
      (BlockOffers rounds sink body p)) (found : List (Value × Value)) (p p' : Progress) :
    Follows shownAlike other k
      (forEntries (fun e => do bindEntry item key e; block rounds sink body) found)
      (forEntries (fun e => do bindEntry item key e; block rounds other body) found) p p'
      (EachOffers rounds sink item key body found p) := by
  induction found generalizing p p' with
  | nil => exact (pure_blind ()).follows
  | cons e es ih =>
      rw [forEntries, forEntries]
      have round : Follows shownAlike other k (do bindEntry item key e; block rounds sink body)
          (do bindEntry item key e; block rounds other body) p p'
          (EachOffers rounds sink item key body (e :: es) p) := by
        apply (bindEntry_blind item key e).follows.bind
        intro _ q q' entered
        rw [bindEntry_apply] at entered
        cases entered
        exact (bodies _ q').mono fun o => .first
      apply round.bind
      intro _ q q' done
      rw [bind_of_ok _ (bindEntry_apply item key e p)] at done
      exact (ih q q').mono fun o => .later done

theorem repeatWhile_follows {c : Expr} {body : List Stmt} {rounds : Nat}
    (bodies : ∀ p p', Follows shownAlike other k (block rounds sink body) (block rounds other body) p p'
      (BlockOffers rounds sink body p)) (n : Nat) (p p' : Progress) :
    Follows shownAlike other k (repeatWhile n (condition c) (block rounds sink body))
      (repeatWhile n (condition c) (block rounds other body)) p p'
      (LoopOffers rounds sink c body n p) := by
  induction n generalizing p p' with
  | zero => exact (throw_blind _).follows
  | succ n ih =>
      rw [repeatWhile, repeatWhile]
      apply (condition_blind c).follows.bind
      intro goes q q' test
      cases goes with
      | false => exact (pure_blind ()).follows
      | true =>
          apply ((bodies q q').mono fun o => .first test).bind
          intro _ t t' done
          exact (ih t t').mono fun o => .later test done

-- The induction is on statements; a loop inside is an induction on its rounds or entries.
mutual

theorem stmt_follows (accepts : sink.Accepts) (takes : other.TakesUpTo k)
    (depths : shownAlike → sink.depth = other.depth) (rounds : Nat) : ∀ (s : Stmt) (p p' : Progress),
    Follows shownAlike other k (stmt rounds sink s) (stmt rounds other s) p p'
      (Offers rounds sink s p)
  | .declare span d, p, p' => by
      rw [stmt, stmt]
      exact (declare_blind span d).follows
  | .bind span name e, p, p' => by
      rw [stmt, stmt]
      exact ((value_blind span e).bind fun v => bind_blind name.name v).follows
  | .assign span target path e, p, p' => by
      rw [stmt, stmt]
      exact (assign_blind span target path e).follows
  | .get span e, p, p' => by
      rw [stmt, stmt]
      apply (emit_follows accepts takes depths span e).mono
      rintro o ⟨v, q, found, rfl⟩
      exact .get found
  | .branch _ c onTrue onFalse, p, p' => by
      rw [stmt, stmt]
      apply (condition_blind c).follows.bind
      intro b q q' test
      cases b with
      | true =>
          exact (block_follows accepts takes depths rounds onTrue q q').mono fun o inside =>
            .branch test inside
      | false =>
          exact (block_follows accepts takes depths rounds onFalse q q').mono fun o inside =>
            .branch test inside
  | .each _ item key collection body, p, p' => by
      rw [stmt, stmt]
      apply (entries_blind collection).follows.bind
      intro found q q' opened
      have rounds_follow := forEntries_follows item key
        (block_follows accepts takes depths rounds body) found q q'
      apply (withLocals_follows _ rounds_follow).mono
      rintro o ⟨inner, inside, rfl⟩
      exact .each opened inside
  | .loop _ counter c body, p, p' => by
      rw [stmt, stmt]
      have inner : Follows shownAlike other k
          (do bindNew counter.name (.int 0)
              repeatWhile rounds (condition c) (block rounds sink body))
          (do bindNew counter.name (.int 0)
              repeatWhile rounds (condition c) (block rounds other body)) p p'
          fun o => ∃ q, bindNew counter.name (.int 0) p = (.ok (), q) ∧
            LoopOffers rounds sink c body rounds q o := by
        apply (bindNew_blind counter.name (.int 0)).follows.bind
        intro _ q q' started
        exact (repeatWhile_follows (block_follows accepts takes depths rounds body) rounds q q').mono
          fun o inside => ⟨q, started, inside⟩
      apply (withLocals_follows [counter.name] inner).mono
      rintro o ⟨_, ⟨q, started, inside⟩, rfl⟩
      exact .loop started inside

theorem block_follows (accepts : sink.Accepts) (takes : other.TakesUpTo k)
    (depths : shownAlike → sink.depth = other.depth) (rounds : Nat) :
    ∀ (ss : List Stmt) (p p' : Progress),
    Follows shownAlike other k (block rounds sink ss) (block rounds other ss) p p'
      (BlockOffers rounds sink ss p)
  | [], p, p' => by
      rw [block, block]
      exact (pure_blind ()).follows
  | s :: ss, p, p' => by
      rw [block, block]
      apply ((stmt_follows accepts takes depths rounds s p p').mono fun o => .first).bind
      intro _ q q' done
      exact (block_follows accepts takes depths rounds ss q q').mono fun o => .later done

end

end Beside

end Exec

structure Report.Agrees (shownAlike : Prop) (r r' : Report) : Prop where
  session : r.session = r'.session
  emissions : List.Forall₂ (Emission.Agrees shownAlike) r.emissions r'.emissions
  ending : r.ending = r'.ending

theorem Emission.Agrees.eq {shownAlike : Prop} (alike : shownAlike) {e e' : Emission}
    (agrees : e.Agrees shownAlike e') : e = e' := by
  obtain ⟨value, span, shown⟩ := agrees
  cases e
  cases e'
  exact congr (congr (congrArg Emission.mk value) (shown alike)) span

theorem Report.Agrees.eq {shownAlike : Prop} (alike : shownAlike) {r r' : Report}
    (agrees : r.Agrees shownAlike r') : r = r' := by
  obtain ⟨session, emissions, ending⟩ := agrees
  have same : List.Forall₂ Eq r.emissions r'.emissions :=
    emissions.imp fun e e' agree => agree.eq alike
  rw [List.forall₂_eq_eq_eq] at same
  cases r
  cases r'
  exact congr (congr (congrArg Report.mk session) same) ending

theorem Offer.unwound_find (o : Offer) (name : String) :
    o.unwound.scope.find? name =
      if name ∈ o.created then none else o.before.session.scope.find? name :=
  Table.find_eraseAll o.created o.before.session.scope name

namespace Session

variable {sink other : Sink} {shownAlike : Prop} {k : Nat}

theorem run_follows (rounds : Nat) (accepts : sink.Accepts) (takes : other.TakesUpTo k)
    (depths : shownAlike → sink.depth = other.depth) (s : Session) (program : Program) :
    ((s.run rounds sink program).Agrees shownAlike (s.run rounds other program) ∧
      (s.run rounds sink program).emissions.length ≤ k) ∨
    ∃ o, Exec.BlockOffers rounds sink program.statements ⟨s, []⟩ o ∧
      Exec.Cut shownAlike other k o (Exec.block rounds sink program.statements ⟨s, []⟩).2
        (Exec.block rounds other program.statements) ⟨s, []⟩ := by
  obtain ⟨session, emissions, ending⟩ := run_progress rounds sink s program
  obtain ⟨session', emissions', ending'⟩ := run_progress rounds other s program
  have follows := (Exec.block_follows accepts takes depths rounds program.statements ⟨s, []⟩
    ⟨s, []⟩).2 ⟨rfl, .nil⟩ (Nat.zero_le k)
  rcases follows with ⟨result, after, still⟩ | cut
  · refine Or.inl ⟨⟨?_, ?_, ?_⟩, ?_⟩
    · rw [session, session', after.session]
    · rw [emissions, emissions']
      exact List.rel_reverse after.taken
    · rw [ending, ending', result]
    · rw [emissions, List.length_reverse]
      exact still
  · exact Or.inr cut

theorem cut_before_end {rounds : Nat} {s : Session} {program : Program} {o : Offer}
    {m' : Exec Unit} {p' : Progress} (cut : Exec.Cut shownAlike other k o
      (Exec.block rounds sink program.statements ⟨s, []⟩).2 m' p') :
    o.before.taken.reverse = (s.run rounds sink program).emissions.take k ∧
      (s.run rounds sink program).emissions[k]? = some o.emission := by
  obtain ⟨later, split⟩ := cut.went
  rw [(run_progress rounds sink s program).2.1, ← split, ← cut.number]
  simp [List.reverse_append]

/-- Sinks only listen. Into any two sinks that take everything, whatever their depths, a script makes
the same emissions and ends in the same way with the same session. Into a sink that refuses emission
`k`, a script with at most `k` emissions runs as before. One with more makes the first `k`, and ends
with the error of the sink at the `Get` that makes the next one. The session is then the one of that
moment, of which only the names that the loops around have created are gone. -/
theorem sinks_only_listen (rounds : Nat) (accepts : sink.Accepts) (s : Session)
    (program : Program) :
    let r := s.run rounds sink program
    (∀ other : Sink, other.Accepts →
      r.Agrees (sink.depth = other.depth) (s.run rounds other program)) ∧
    ∀ (k : Nat) (other : Sink), other.RefusesAt k →
      let r' := s.run rounds other program
      (r.emissions.length ≤ k → r.Agrees (sink.depth = other.depth) r' ∧
        (sink.depth = other.depth → r' = r)) ∧
      (k < r.emissions.length → ∃ o e error,
        Exec.BlockOffers rounds sink program.statements ⟨s, []⟩ o ∧
        o.before.taken.reverse = r.emissions.take k ∧
        r.emissions[k]? = some o.emission ∧
        List.Forall₂ (Emission.Agrees (sink.depth = other.depth)) (r.emissions.take k) r'.emissions ∧
        o.emission.Agrees (sink.depth = other.depth) e ∧
        other.refusal? r'.emissions.reverse e = some error ∧
        r'.ending = .failed ⟨error, o.place⟩ ∧
        r'.session.heap = o.before.session.heap ∧
        r'.session.classes = o.before.session.classes ∧
        r'.session.scope = o.created.foldl Table.erase o.before.session.scope ∧
        ∀ name, r'.session.scope.find? name =
          if name ∈ o.created then none else o.before.session.scope.find? name) := by
  intro r
  constructor
  · intro other accepts'
    have takes : other.TakesUpTo r.emissions.length := fun taken e _ => accepts' taken e
    rcases run_follows rounds accepts takes id s program with ⟨agrees, _⟩ | ⟨o, _, cut⟩
    · exact agrees
    · have there := (cut_before_end cut).2
      rw [List.getElem?_eq_none (Nat.le_refl _)] at there
      cases there
  · intro k other refusesAt r'
    have takes : other.TakesUpTo k := refusesAt.takes
    have either := run_follows rounds accepts takes id s program
    constructor
    · intro few
      rcases either with ⟨agrees, _⟩ | ⟨o, _, cut⟩
      · exact ⟨agrees, fun same => (agrees.eq same).symm⟩
      · have there := (cut_before_end cut).2
        rw [List.getElem?_eq_none few] at there
        cases there
    · intro many
      rcases either with ⟨_, few⟩ | ⟨o, offer, cut⟩
      · exact absurd many (Nat.not_lt.mpr few)
      · obtain ⟨earlier, next⟩ := cut_before_end cut
        obtain ⟨taken, e, agree, same, ends⟩ := cut.ends
        obtain ⟨error, refused⟩ := refusesAt.refuses taken e (agree.length_eq ▸ cut.number)
        have run : r' = ⟨o.unwound, taken.reverse, .failed ⟨error, o.place⟩⟩ := by
          simp only [r', Session.run, ends error refused]
        refine ⟨o, e, error, offer, earlier, next, ?_, same, ?_, ?_, ?_, ?_, ?_, ?_⟩
        · rw [run, ← earlier]
          exact List.rel_reverse agree
        · rw [run, List.reverse_reverse]
          exact refused
        · rw [run]
        · rw [run]
          rfl
        · rw [run]
          rfl
        · rw [run]
          rfl
        · intro name
          rw [run]
          exact o.unwound_find name

def twiceEach : Program :=
  ⟨[.each ⟨0, 74⟩ ⟨"x", ⟨9, 10⟩⟩ none (.var ⟨14, 15⟩ "a")
    [.loop ⟨20, 63⟩ ⟨"i", ⟨25, 26⟩⟩
      (.binary ⟨28, 33⟩ .lt (.var ⟨28, 29⟩ "i") (.int ⟨32, 33⟩ 2))
      [.get ⟨38, 44⟩ (.var ⟨42, 43⟩ "x"),
        .assign ⟨45, 55⟩ ⟨"i", ⟨45, 46⟩⟩ []
          (.binary ⟨49, 54⟩ .add (.var ⟨49, 50⟩ "i") (.int ⟨53, 54⟩ 1))]]], ⟨0, 74⟩⟩

theorem twice_each_cut :
    let r := Exec.numbered.session.run 9 (.accepting 2) twiceEach
    let r' := Exec.numbered.session.run 9 (.closedAt 3 2 "closed") twiceEach
    (Sink.accepting 2).Accepts ∧ r.emissions.length = 4 ∧
    r'.emissions.map Emission.value = [.int 7, .int 7] ∧
    r'.session.scope.find? "x" = none ∧ r'.session.scope.find? "i" = none ∧
    ∃ o, Exec.BlockOffers 9 (.accepting 2) twiceEach.statements ⟨Exec.numbered.session, []⟩ o ∧
      o.before.taken.length = 2 ∧ r'.ending = .failed ⟨.output "closed", o.place⟩ := by
  intro r r'
  have many : r.emissions.length = 4 := by decide +kernel
  have few : r'.emissions.length = 2 := by decide +kernel
  have cut := (sinks_only_listen 9 (Sink.accepting_accepts 2) Exec.numbered.session twiceEach).2 2 _
    (Sink.closedAt_refusesAt 3 2 "closed")
  obtain ⟨o, e, error, offer, earlier, _, _, _, refused, ending, _⟩ := cut.2 (by rw [many]; decide)
  have count : o.before.taken.length = 2 := by
    rw [← List.length_reverse, earlier, List.length_take, many]
    decide
  rw [Sink.closedAt_refusal (by rw [List.length_reverse, few])] at refused
  cases refused
  refine ⟨Sink.accepting_accepts 2, many, by decide +kernel, by decide +kernel, by decide +kernel, ?_⟩
  exact ⟨o, offer, count, ending⟩

end Session

end Dil
