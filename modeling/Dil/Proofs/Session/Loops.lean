import Dil.Proofs.Session.Atomicity

/-!
Names and loops. A statement never takes a name away, however it ends, and a loop leaves its own names
as bound or unbound as it found them. A loop over entries visits those that the collection had before
the first round, each once and in order, whatever the rounds do to the collection or the names.
-/

namespace Dil

def Progress.Binds (p : Progress) (name : String) : Prop := p.session.scope.contains name = true

instance (p : Progress) (name : String) : Decidable (p.Binds name) :=
  inferInstanceAs (Decidable (_ = true))

def naming : Regime Progress where
  Good _ := True
  Step p q := ∀ name, p.Binds name → q.Binds name
  refl _ _ bound := bound
  trans first second name bound := second name (first name bound)
  keep _ _ := trivial

def Stmt.loopNames : Stmt → List String
  | .each _ item key _ _ => item.name :: (key.map Ident.name).toList
  | .loop _ counter _ _ => [counter.name]
  | .declare .. | .bind .. | .assign .. | .get .. | .branch .. => []

/-- The value has these entries, an array under their positions and a map under their keys. -/
inductive Heap.HasEntries (h : Heap) : Value → List (Value × Value) → Prop where
  | array {i : Nat} {found : List (Value × Value)}
      (nth : ∀ n : Nat, found[n]? = (h.items i)[n]?.map fun item => (.int (Int64.ofNat n), item)) :
      HasEntries h (.ref (.array i)) found
  | map {i : Nat} {found : List (Value × Value)}
      (nth : ∀ n : Nat, found[n]? = (h.body i).entries[n]?.map fun e => (.str e.1, e.2)) :
      HasEntries h (.ref (.map i)) found

namespace Table

variable {α : Type}

theorem contains_insert (t : Table α) (key other : String) (a : α) :
    (t.insert key a).contains other = (decide (other = key) || t.contains other) := by
  rw [contains_eq_isSome, find_insert, contains_eq_isSome]
  by_cases same : other = key
  · simp [same]
  · simp [same]

theorem find_eraseAll (names : List String) (t : Table α) (name : String) :
    (names.foldl erase t).find? name = if name ∈ names then none else t.find? name := by
  induction names generalizing t with
  | nil => rfl
  | cons other names ih =>
      rw [List.foldl_cons, ih, find_erase]
      by_cases later : name ∈ names
      · simp [later]
      · simp [later]

end Table

namespace Exec

theorem bind_binds (name other : String) (v : Value) (p : Progress) :
    (bind name v p).2.Binds other ↔ other = name ∨ p.Binds other := by
  simp [bind, Progress.Binds, Table.contains_insert]

theorem withLocals_apply (names : List String) (action : Exec Unit) (p : Progress) :
    withLocals names action p = ((action p).1, { (action p).2 with
      session.scope := (names.filter fun name => !p.session.scope.contains name).foldl Table.erase
        (action p).2.session.scope }) := rfl

theorem withLocals_find (names : List String) (action : Exec Unit) (p : Progress) (name : String) :
    (withLocals names action p).2.session.scope.find? name =
      if name ∈ names ∧ ¬ p.Binds name then none else (action p).2.session.scope.find? name := by
  simp [withLocals_apply, Table.find_eraseAll, Progress.Binds]

theorem withLocals_binds (names : List String) (action : Exec Unit) (p : Progress) (name : String) :
    (withLocals names action p).2.Binds name ↔
      (action p).2.Binds name ∧ (name ∈ names → p.Binds name) := by
  unfold Progress.Binds
  rw [Table.contains_eq_isSome, Table.contains_eq_isSome, withLocals_find]
  by_cases own : name ∈ names
  · by_cases bound : p.Binds name
    · have here : p.session.scope.contains name = true := bound
      simp [own, bound, here]
    · have absent : ¬ p.session.scope.contains name = true := bound
      simp [own, bound, absent]
  · simp [own]

theorem entries_prepares (e : Expr) : Prepares (entries e) := by
  intro p
  unfold entries
  apply (value_prepares e.span e p).bind
  intro v q _ _
  apply (session_prepares q).bind
  intro s q _ _
  split
  · exact .pure _ trivial
  · exact .pure _ trivial
  · exact .throw _

section Names

variable {α : Type} {p : Progress}

theorem Prepares.names {m : Exec α} (prepares : Prepares m) : naming.Meets m p fun _ _ => True := by
  intro _
  refine ⟨fun name bound => ?_, fun _ _ => trivial⟩
  rwa [Progress.Binds, ((prepares p) trivial).1.scope]

theorem withLocals_names (names : List String) {action : Exec Unit}
    (met : naming.Meets action p fun _ _ => True) :
    naming.Meets (withLocals names action) p fun _ _ => True := by
  refine fun _ => ⟨fun name bound => ?_, fun _ _ => trivial⟩
  exact (withLocals_binds names action p name).mpr ⟨(met trivial).1 name bound, fun _ => bound⟩

theorem naming_rules : Rules naming (fun _ => True) (fun _ _ => True) fun _ _ => True where
  keep _ _ := trivial
  keepPlace _ _ := trivial
  scalar _ _ := trivial
  bound _ _ := trivial
  item _ _ := trivial
  entry _ _ := trivial
  value span _ _ := (value_prepares span _).names
  segments span _ _ _ := (segments_prepares span _).names.mono fun _ _ _ _ _ _ => trivial
  locate span _ _ := (locate_prepares span _ _).names
  bind name _ _ other bound := (bind_binds name other _ _).mpr (.inr bound)
  register _ _ _ _ _ bound := bound
  write _ _ _ _ _ bound := bound
  take _ _ _ _ _ bound := bound
  locals names met := withLocals_names names met

theorem stmt_names (rounds : Nat) (sink : Sink) (s : Stmt) (p : Progress) :
    naming.Meets (stmt rounds sink s) p fun _ _ => True :=
  stmt_meets naming_rules rounds sink s p fun _ _ => trivial

end Names

/-- The state at the start of a round. -/
def enter (item : Ident) (key : Option Ident) (e : Value × Value) (p : Progress) : Progress :=
  (bindEntry item key e p).2

/-- A body runs once for each entry until it stops early: the rounds start in these states, each
entered from the end of the one before, and the last one ends like this. -/
inductive Rounds (item : Ident) (key : Option Ident) (body : Exec Unit) :
    List (Value × Value) → Progress → List Progress → Except Stop Unit → Progress → Prop where
  | done (p : Progress) : Rounds item key body [] p [] (.ok ()) p
  | next {e : Value × Value} {es : List (Value × Value)} {p q t : Progress} {starts : List Progress}
      {r : Except Stop Unit} (round : body (enter item key e p) = (.ok (), q))
      (others : Rounds item key body es q starts r t) :
      Rounds item key body (e :: es) p (enter item key e p :: starts) r t
  | stopped {e : Value × Value} {es : List (Value × Value)} {p q : Progress} {stop : Stop}
      (round : body (enter item key e p) = (.error stop, q)) :
      Rounds item key body (e :: es) p [enter item key e p] (.error stop) q

section Visits

variable {item : Ident} {key : Option Ident} {body : Exec Unit} {found : List (Value × Value)}
  {e : Value × Value} {p q : Progress}

theorem bindEntry_apply (item : Ident) (key : Option Ident) (e : Value × Value) (p : Progress) :
    bindEntry item key e p = (.ok (), enter item key e p) := by
  cases key <;> rfl

theorem enter_find (item : Ident) (key : Option Ident) (e : Value × Value) (p : Progress) :
    (∀ k, key = some k → (enter item key e p).session.scope.find? k.name = some e.1) ∧
    ((∀ k, key = some k → k.name ≠ item.name) →
      (enter item key e p).session.scope.find? item.name = some e.2) := by
  cases key with
  | none =>
      refine ⟨nofun, fun _ => ?_⟩
      change (p.session.scope.insert item.name e.2).find? item.name = _
      rw [Table.find_insert, if_pos rfl]
  | some k =>
      have scope : (enter item (some k) e p).session.scope =
          (p.session.scope.insert item.name e.2).insert k.name e.1 := rfl
      rw [scope]
      constructor
      · rintro l ⟨⟩
        rw [Table.find_insert, if_pos rfl]
      · intro differ
        rw [Table.find_insert, if_neg (Ne.symm (differ k rfl)), Table.find_insert, if_pos rfl]

theorem forEntries_rounds (item : Ident) (key : Option Ident) (body : Exec Unit)
    (found : List (Value × Value)) (p : Progress) : ∃ starts r t,
    Rounds item key body found p starts r t ∧
      forEntries (fun e => do bindEntry item key e; body) found p = (r, t) := by
  induction found generalizing p with
  | nil => exact ⟨[], .ok (), p, .done p, rfl⟩
  | cons e es ih =>
      rw [forEntries, bind_apply, bind_apply, bindEntry_apply]
      rcases round : body (enter item key e p) with ⟨stop | _, q⟩
      · refine ⟨_, _, _, .stopped round, ?_⟩
        simp only [round]
      · obtain ⟨starts, r, t, others, run⟩ := ih q
        refine ⟨_, _, _, .next round others, ?_⟩
        simp only [round]
        exact run

theorem Rounds.start {starts : List Progress} {r : Except Stop Unit} {t : Progress}
    (rounds : Rounds item key body found p starts r t) {n : Nat} {start : Progress}
    (nth : starts[n]? = some start) : ∃ e q, found[n]? = some e ∧ start = enter item key e q := by
  induction rounds generalizing n with
  | done => cases nth
  | @next e _ p _ _ _ _ _ _ ih =>
      cases n with
      | zero =>
          cases nth
          exact ⟨e, p, rfl, rfl⟩
      | succ n => exact ih nth
  | @stopped e _ p =>
      cases n with
      | zero =>
          cases nth
          exact ⟨e, p, rfl, rfl⟩
      | succ n => cases nth

theorem Rounds.length_eq {starts : List Progress} {t : Progress}
    (rounds : Rounds item key body found p starts (.ok ()) t) : starts.length = found.length := by
  generalize ends : (.ok () : Except Stop Unit) = r at rounds
  induction rounds with
  | done => rfl
  | next _ _ ih => rw [List.length_cons, List.length_cons, ih ends]
  | stopped => cases ends

theorem entries_cases (collection : Expr) (p : Progress) :
    (∃ stop q, entries collection p = (.error stop, q)) ∨
    ∃ v q found, value collection.span collection p = (.ok v, q) ∧ q.session.heap.HasEntries v found ∧
      entries collection p = (.ok found, q) := by
  simp only [entries, bind_apply]
  rcases evaluated : value collection.span collection p with ⟨stop | v, q⟩
  · exact .inl ⟨stop, q, rfl⟩
  · simp only [session]
    split
    · rename_i i
      refine .inr ⟨_, q, _, rfl, .array fun n => ?_, rfl⟩
      rw [List.getElem?_map, List.getElem?_zipIdx, Option.map_map, Nat.zero_add]
      rfl
    · rename_i i
      exact .inr ⟨_, q, _, rfl, .map fun n => List.getElem?_map .., rfl⟩
    · exact .inl ⟨_, q, rfl⟩

end Visits

/-- How a loop over entries has gone from `p` to `after`: its collection has the entries `found` in
`before`, and its rounds, from `starts` to `last`, took them from there. -/
structure Visit (item : Ident) (key : Option Ident) (collection : Expr) (body : Exec Unit)
    (p : Progress) (r : Except Stop Unit) (after : Progress) (v : Value) (before : Progress)
    (found : List (Value × Value)) (starts : List Progress) (last : Progress) : Prop where
  collected : value collection.span collection p = (.ok v, before)
  entries : before.session.heap.HasEntries v found
  rounds : Rounds item key body found before starts r last
  started : ∀ (n : Nat) start, starts[n]? = some start → ∃ e, found[n]? = some e ∧
    (∀ k, key = some k → start.session.scope.find? k.name = some e.1) ∧
    ((∀ k, key = some k → k.name ≠ item.name) → start.session.scope.find? item.name = some e.2)
  complete : r = .ok () → starts.length = found.length
  left : after.session.heap = last.session.heap ∧ after.session.classes = last.session.classes ∧
    after.taken = last.taken
  dropped : ∀ name, after.session.scope.find? name =
    if name ∈ item.name :: (key.map Ident.name).toList ∧ ¬ before.Binds name then none
    else last.session.scope.find? name

theorem each_visits (rounds : Nat) (sink : Sink) (span : Span) (item : Ident) (key : Option Ident)
    (collection : Expr) (body : List Stmt) (p : Progress) :
    (∃ stop q, entries collection p = (.error stop, q) ∧
      stmt rounds sink (.each span item key collection body) p = (.error stop, q)) ∨
    ∃ r after v before found starts last,
      stmt rounds sink (.each span item key collection body) p = (r, after) ∧
      Visit item key collection (block rounds sink body) p r after v before found starts last := by
  rw [stmt, bind_apply]
  rcases entries_cases collection p with ⟨stop, q, failed⟩ | ⟨v, q, found, evaluated, has, read⟩
  · rw [failed]
    exact .inl ⟨stop, q, rfl, rfl⟩
  · obtain ⟨starts, r, last, visits, run⟩ :=
      forEntries_rounds item key (block rounds sink body) found q
    have dropped := withLocals_find (item.name :: (key.map Ident.name).toList)
      (forEntries (fun e => do bindEntry item key e; block rounds sink body) found) q
    rw [read]
    simp only [withLocals_apply, run] at dropped ⊢
    refine .inr ⟨r, _, v, q, found, starts, last, rfl, evaluated, has, visits, ?_, ?_, ?_, dropped⟩
    · intro n start nth
      obtain ⟨e, before, visited, rfl⟩ := visits.start nth
      exact ⟨e, visited, enter_find item key e before⟩
    · rintro rfl
      exact visits.length_eq
    · exact ⟨rfl, rfl, rfl⟩

theorem loopNames_bound (rounds : Nat) (sink : Sink) {s : Stmt} (p : Progress) {name : String}
    (own : name ∈ s.loopNames) (bound : (stmt rounds sink s p).2.Binds name) : p.Binds name := by
  cases s with
  | declare | bind | assign | get | branch => cases own
  | each span item key collection body =>
      rw [stmt, bind_apply] at bound
      have same := ((entries_prepares collection p) trivial).1.scope
      rcases evaluated : entries collection p with ⟨stop | found, q⟩
      all_goals
        rw [evaluated] at bound same
        rw [Progress.Binds, ← same]
      · exact bound
      · exact ((withLocals_binds _ _ q name).mp bound).2 own
  | loop span counter c body =>
      rw [stmt] at bound
      exact ((withLocals_binds _ _ p name).mp bound).2 own

/-- Whatever the state and however a statement ends, a name bound before is bound after, and the names
of a loop are bound after it just if they were before, wherever the loop stands. A loop over entries
fails on its collection, or it visits the entries that the collection had before the first round: each
round starts with its entry under the names of the loop, the key's before the value's if they are one,
and a loop that succeeds has had one round for each entry, in order. -/
theorem loops_scoped (rounds : Nat) (sink : Sink) (s : Stmt) (p : Progress) :
    (∀ name, p.Binds name → (stmt rounds sink s p).2.Binds name) ∧
    (∀ name ∈ s.loopNames, (stmt rounds sink s p).2.Binds name ↔ p.Binds name) ∧
    ∀ span item key collection body, s = .each span item key collection body →
      (∃ stop q, entries collection p = (.error stop, q) ∧ stmt rounds sink s p = (.error stop, q)) ∨
      ∃ r after v before found starts last, stmt rounds sink s p = (r, after) ∧
        Visit item key collection (block rounds sink body) p r after v before found starts last := by
  have kept := ((stmt_names rounds sink s p) trivial).1
  refine ⟨kept, fun name own => ⟨loopNames_bound rounds sink p own, kept name⟩, ?_⟩
  rintro span item key collection body rfl
  exact each_visits rounds sink span item key collection body p

def numbered : Progress :=
  ⟨(Session.new.run 1 (.accepting 1)
    ⟨[.bind ⟨0, 14⟩ ⟨"a", ⟨4, 5⟩⟩ (.array ⟨8, 13⟩ [.int ⟨9, 10⟩ 7, .int ⟨11, 12⟩ 8])], ⟨0, 14⟩⟩).session,
    []⟩

def overwriting : Stmt :=
  .each ⟨0, 99⟩ ⟨"x", ⟨8, 9⟩⟩ (some ⟨"x", ⟨11, 12⟩⟩) (.var ⟨16, 17⟩ "a")
    [.get ⟨21, 27⟩ (.var ⟨25, 26⟩ "x"),
      .assign ⟨28, 38⟩ ⟨"a", ⟨28, 29⟩⟩ [.index (.int ⟨32, 33⟩ 1)] (.int ⟨36, 37⟩ 9),
      .each ⟨39, 80⟩ ⟨"x", ⟨47, 48⟩⟩ none (.var ⟨52, 53⟩ "a") []]

theorem overwriting_scoped :
    (stmt 1 (.accepting 1) overwriting numbered).1.toBool = true ∧
    (stmt 1 (.accepting 1) overwriting numbered).2.Binds "a" ∧
    ¬ (stmt 1 (.accepting 1) overwriting numbered).2.Binds "x" ∧
    (stmt 1 (.accepting 1) overwriting numbered).2.taken.map Emission.value = [.int 1, .int 0] := by
  obtain ⟨kept, own, _⟩ := loops_scoped 1 (.accepting 1) overwriting numbered
  have unbound : ¬ numbered.Binds "x" := by decide
  refine ⟨by decide +kernel, kept "a" (by decide), ?_, by decide +kernel⟩
  rwa [own "x" List.mem_cons_self]

end Exec

end Dil
