import Dil.Proofs.Heap.Walks
import Dil.Proofs.Session.Schema
import Dil.Proofs.Session.Atomicity

/-!
The last step of an assignment. A write changes the place that was found or nothing at all. A place
that was found before the right side was evaluated is as good after it: evaluation only adds cells, so
that nothing but the rule of a slot can still refuse the value.
-/

namespace Dil

namespace Heap

/-- The place is there to be written to. The key of a map may be new. -/
def Offers (h : Heap) : Locator → Prop
  | .key _ _ => True
  | place => ∃ w, h.read place = some w

section Offers

variable {h t : Heap} {place : Locator} {v : Value}

theorem locate_offers {root : Value} {path : List Step} (located : h.locate root path = .ok place) :
    h.Offers place := by
  rcases List.eq_nil_or_concat' path with rfl | ⟨front, last, rfl⟩
  · cases located
  · -- All but the last step only lead to the container; the place is one step from there.
    rw [locate_append] at located
    cases container : h.get root front with
    | error e =>
        rw [container] at located
        cases located
    | ok c =>
        rw [container] at located
        rcases step_of_placed located with ⟨w, held, _⟩ | ⟨i, name, rfl, _, _⟩
        · cases place with
          | key i name => trivial
          | field | index => exact ⟨w, held⟩
        · trivial

theorem cell_of_read {w : Value} (held : h.read place = some w) :
    ∃ c, h.cell? place.ref = some c := by
  cases place with
  | field i name =>
      obtain ⟨object, found, _⟩ := Option.bind_eq_some_iff.mp held
      exact ⟨_, cell_object.mpr found⟩
  | key i name =>
      obtain ⟨body, found, _⟩ := Option.bind_eq_some_iff.mp held
      exact ⟨_, cell_map.mpr found⟩
  | index i position =>
      obtain ⟨items, found, _⟩ := Option.bind_eq_some_iff.mp held
      exact ⟨_, cell_array.mpr found⟩

theorem slot_iff {i : Nat} {name : String} {slot : Slot} :
    h.slot? (.field i name) = some slot ↔
      ∃ object, h.cell? (.object i) = some (.object object) ∧
        object.slots.find? name = some slot := by
  simp only [slot?, Option.bind_eq_some_iff, cell_object]

theorem Begins.read (begins : h.Begins t) {w : Value} (held : h.read place = some w) :
    t.read place = some w := by
  obtain ⟨c, found⟩ := cell_of_read held
  rw [read_congr ((begins.cell found).trans found.symm), held]

theorem Begins.offers (begins : h.Begins t) (offered : h.Offers place) : t.Offers place := by
  cases place with
  | key i name => trivial
  | field | index =>
      obtain ⟨w, held⟩ := offered
      exact ⟨w, begins.read held⟩

theorem Begins.slot (begins : h.Begins t) (offered : h.Offers place) :
    t.slot? place = h.slot? place := by
  cases place with
  | key | index => rfl
  | field i name =>
      obtain ⟨w, held⟩ := offered
      obtain ⟨object, found, _⟩ := Option.bind_eq_some_iff.mp held
      have kept := begins.cell (cell_object.mpr found)
      rw [slot_of_cell kept, slot_of_cell (cell_object.mpr found)]

theorem offered_write_error_iff (offered : h.Offers place) {e : EvalError} :
    h.write place v = .error e ↔ ∃ i name slot tag, place = .field i name ∧
      h.slot? place = some slot ∧ slot.Refuses v tag ∧ e = .typeMismatch name tag v.tag := by
  constructor
  · intro failed
    cases place with
    | key i name => cases failed
    | field i name =>
        obtain ⟨w, held⟩ := offered
        have inside := (h.inRange_iff _).mpr (cell_of_read held)
        cases (write_error_iff inside).mp failed with
        | absent found missing =>
            rw [read_field found, missing] at held
            cases held
        | mistyped found present refused =>
            exact ⟨i, name, _, _, rfl, slot_iff.mpr ⟨_, found, present⟩, refused, rfl⟩
    | index i position =>
        obtain ⟨w, held⟩ := offered
        have inside := (h.inRange_iff _).mpr (cell_of_read held)
        cases (write_error_iff inside).mp failed with
        | shorter found outside =>
            rw [read_item found, List.getElem?_eq_none outside] at held
            cases held
  · rintro ⟨i, name, slot, tag, rfl, known, refused, rfl⟩
    obtain ⟨object, found, present⟩ := slot_iff.mp known
    exact write_of_refuses (.mistyped found present refused)

end Offers

end Heap

theorem Session.Schematic.slotsTyped {s : Session} (good : s.Schematic) : s.heap.SlotsTyped := by
  intro r object found slot member
  obtain ⟨c, _, conforms⟩ := good.objects r object found
  obtain ⟨e, entry, rfl⟩ := List.mem_map.mp member
  obtain ⟨f, _, _, fits⟩ := forall₂_mem conforms.slots entry
  exact fits.typed

namespace Exec

variable {p q r : Progress} {span : Span} {target : Ident} {e : Expr} {v : Value}

theorem write_error_apply {place : Locator} {error : EvalError}
    (failed : p.session.heap.write place v = .error error) :
    write span place v p = (.error (.failed ⟨error, span⟩), p) := by
  simp only [write, failed]

theorem write_ok_apply {place : Locator} {heap : Heap}
    (written : p.session.heap.write place v = .ok heap) :
    write span place v p = (.ok (), { p with session.heap := heap }) := by
  simp only [write, written]

/-- A write to a place in a cell that is there, be it a position that its array no longer has, fails and
leaves everything as it was, or it changes that place alone, which then holds the value. A second write
to the place undoes the first. And where slots hold values of their types, what a place holds can be
written back, and that changes nothing but the type of an overwritable slot that had none. -/
theorem write_changes_one_place_or_nothing (span : Span) {place : Locator} (v : Value) {p : Progress}
    (inside : p.session.heap.InRange place.ref) :
    let h := p.session.heap
    ((∃ error, h.Refuses v place error ∧
        write span place v p = (.error (.failed ⟨error, span⟩), p)) ∨
      ∃ h', write span place v p = (.ok (), { p with session.heap := h' }) ∧
        h.Updates v place h' ∧
        h'.read place = some (h.storing place v) ∧
        ∀ w h'', h'.write place w = .ok h'' → h.write place w = .ok h'') ∧
    (h.SlotsTyped → ∀ w, h.read place = some w →
      ∃ h', write span place w p = (.ok (), { p with session.heap := h' }) ∧
        (h' = h ∨ h.Adopts w.tag place h')) := by
  intro h
  refine ⟨?_, fun typed w held => ?_⟩
  · rcases Heap.refuses_or_writes inside v with ⟨error, refused⟩ | ⟨h', writes⟩
    · exact .inl ⟨error, refused, write_error_apply (Heap.write_of_refuses refused)⟩
    · refine .inr ⟨h', write_ok_apply (Heap.write_of_writes writes), writes.updates,
        writes.updates.read, fun w h'' again => ?_⟩
      have stays : h'.InRange place.ref :=
        (Heap.write_inRange inside (Heap.write_of_writes writes) place.ref).mpr inside
      exact Heap.write_of_writes (writes.again ((Heap.write_ok_iff stays).mp again))
  · obtain ⟨h', writes, same⟩ := Heap.writes_back typed held
    exact ⟨h', write_ok_apply (Heap.write_of_writes writes), same⟩

def openField : Progress :=
  ⟨(Session.new.run 1 (.accepting 2)
    ⟨[.declare ⟨0, 39⟩ ⟨⟨"C", ⟨6, 7⟩⟩,
        [⟨⟨"x", ⟨10, 11⟩⟩, .null ⟨13, 17⟩, none, true, ⟨10, 30⟩⟩], ⟨0, 39⟩⟩,
      .bind ⟨40, 55⟩ ⟨"o", ⟨44, 45⟩⟩ (.create ⟨48, 53⟩ ⟨"C", ⟨48, 49⟩⟩)], ⟨0, 55⟩⟩).session, []⟩

theorem open_field_changes_or_nothing :
    let h := openField.session.heap
    (∃ h', write ⟨56, 64⟩ (.field 0 "x") (.int 3) openField =
        (.ok (), { openField with session.heap := h' }) ∧
      h'.read (.field 0 "x") = some (.int 3)) ∧
    ∃ h', write ⟨65, 76⟩ (.field 0 "x") .null openField =
        (.ok (), { openField with session.heap := h' }) ∧
      (h' = h ∨ h.Adopts .null (.field 0 "x") h') := by
  intro h
  have reached : openField.session.Reached := .run .new 1 (.accepting 2) _
  have inside : openField.session.heap.InRange (Locator.field 0 "x").ref := show 0 < 1 by decide
  constructor
  · rcases (write_changes_one_place_or_nothing ⟨56, 64⟩ (.int 3) inside).1 with
      ⟨error, _, failed⟩ | ⟨h', done, _, holds, _⟩
    · have taken : (write ⟨56, 64⟩ (.field 0 "x") (.int 3) openField).1 = .ok () := rfl
      rw [failed] at taken
      cases taken
    · exact ⟨h', done, holds⟩
  · obtain ⟨_, back⟩ := write_changes_one_place_or_nothing ⟨65, 76⟩ .null inside
    exact back (Session.reached_schematic reached).slotsTyped .null rfl

theorem value_spares (valued : value span e p = (.ok v, q)) : p.Spares q := by
  have step := ((value_prepares span e p) trivial).1
  rwa [valued] at step

theorem session_apply (p : Progress) : session p = (.ok p.session, p) := rfl

theorem resolve_apply {name : String} {root : Value}
    (bound : p.session.scope.resolve name = .ok root) :
    ofResult span (p.session.scope.resolve name) p = (.ok root, p) := by
  rw [bound]
  rfl

theorem assign_of_name {root : Value} (bound : p.session.scope.resolve target.name = .ok root)
    (valued : value span e p = (.ok v, q)) :
    assign span target [] e p = rebind span target.name v q := by
  unfold assign
  rw [bind_of_ok _ (session_apply p), bind_of_ok _ (resolve_apply bound)]
  exact bind_of_ok _ valued

theorem assign_of_place {root : Value} {path : List Segment} {steps : List Step} {place : Locator}
    (bound : p.session.scope.resolve target.name = .ok root) (deep : path ≠ [])
    (followed : evaluate span (fun s => evalSegments (newObject s.classes) s.scope path) p =
      (.ok steps, q))
    (located : q.session.heap.locate root steps = .ok place)
    (valued : value span e q = (.ok v, r)) :
    assign span target path e p = write span place v r := by
  have there : evaluate span (fun _ => Eval.look fun h => h.locate root steps) q =
      (.ok place, q) := by
    simp only [evaluate, Session.evaluate, Eval.look, located]
  unfold assign
  rw [bind_of_ok _ (session_apply p), bind_of_ok _ (resolve_apply bound),
    if_neg (by simpa using deep), bind_of_ok _ followed, bind_of_ok _ there]
  exact bind_of_ok _ valued

theorem rebind_of_bound {name : String} {s : Scope} {root : Value}
    (bound : s.resolve name = .ok root) : s.rebind name v = .ok (s.insert name v) := by
  have known : s.contains name = true := by
    rw [Table.contains_eq_isSome, find_of_resolve bound, Option.isSome_some]
  rw [Scope.rebind, if_pos known]

/-- Once the target of an assignment is resolved and its right side has a value, a name is rebound for
sure. A write to the place that was found fails exactly if that place is a field whose slot refuses the
value, for that reason and for no other; the place is as it was found. -/
theorem resolved_target_outlives_value (span : Span) (target : Ident) (path : List Segment)
    (e : Expr) {p : Progress} {root : Value} (bound : p.session.scope.resolve target.name = .ok root) :
    (path = [] → ∀ v q, value span e p = (.ok v, q) →
      let scope := q.session.scope.insert target.name v
      q.session.scope.rebind target.name v = .ok scope ∧
      assign span target path e p = (.ok (), { q with session.scope := scope })) ∧
    (path ≠ [] → ∀ steps q place v r,
      evaluate span (fun s => evalSegments (newObject s.classes) s.scope path) p = (.ok steps, q) →
      q.session.heap.locate root steps = .ok place →
      value span e q = (.ok v, r) →
      (∀ stop t, assign span target path e p = (.error stop, t) ↔
        ∃ i name slot tag, place = .field i name ∧ q.session.heap.slot? place = some slot ∧
          slot.Refuses v tag ∧ stop = .failed ⟨.typeMismatch name tag v.tag, span⟩ ∧ t = r) ∧
      ((∀ slot tag, q.session.heap.slot? place = some slot → ¬ slot.Refuses v tag) →
        ∃ heap, r.session.heap.write place v = .ok heap ∧
          assign span target path e p = (.ok (), { r with session.heap := heap }))) := by
  constructor
  · rintro rfl v q valued scope
    have spared := value_spares valued
    have rebound : q.session.scope.rebind target.name v = .ok scope :=
      rebind_of_bound (spared.scope ▸ bound)
    refine ⟨rebound, ?_⟩
    rw [assign_of_name bound valued]
    unfold rebind
    rw [bind_of_ok _ (session_apply q), rebound]
    rfl
  · intro deep steps q place v r followed located valued
    -- The right side only adds cells, so that the place and its slot are there as they were found.
    have offered := Heap.locate_offers located
    have begins := (value_spares valued).heap
    have fails (error : EvalError) := Heap.offered_write_error_iff (v := v) (e := error)
      (begins.offers offered)
    rw [assign_of_place bound deep followed located valued, ← begins.slot offered]
    cases outcome : r.session.heap.write place v with
    | error error =>
        obtain ⟨i, name, slot, tag, rfl, known, refused, rfl⟩ := (fails error).mp outcome
        rw [write_error_apply outcome]
        refine ⟨fun stop t => ⟨?_, ?_⟩, fun admitted => absurd refused (admitted slot tag known)⟩
        · rintro ⟨⟩
          exact ⟨i, name, slot, tag, rfl, known, refused, rfl, rfl⟩
        · rintro ⟨_, _, slot', tag', ⟨⟩, known', refused', rfl, rfl⟩
          cases known.symm.trans known'
          cases refused.typed.symm.trans refused'.typed
          rfl
    | ok heap =>
        rw [write_ok_apply outcome]
        refine ⟨fun stop t => ⟨nofun, ?_⟩, fun _ => ⟨heap, rfl, rfl⟩⟩
        rintro ⟨i, name, slot, tag, named, known, refused, _, _⟩
        have failed := (fails _).mpr ⟨i, name, slot, tag, named, known, refused, rfl⟩
        cases outcome.symm.trans failed

theorem typed_target_outlives_value :
    let p := typedObject
    let right : Expr := .array ⟨7, 21⟩ [.create ⟨8, 15⟩ ⟨"C", ⟨8, 9⟩⟩]
    (∃ q : Progress, assign ⟨0, 22⟩ ⟨"o", ⟨0, 1⟩⟩ [] right p =
      (.ok (), { q with session.scope := q.session.scope.insert "o" (.ref (.array 0)) })) ∧
    assign ⟨0, 22⟩ ⟨"o", ⟨0, 1⟩⟩ [.field ⟨"x", ⟨3, 4⟩⟩] right p =
      (.error (.failed ⟨.typeMismatch "x" .int .array, ⟨0, 22⟩⟩), (value ⟨0, 22⟩ right p).2) := by
  intro p right
  have bound : p.session.scope.resolve "o" = .ok (.ref (.object 0)) := rfl
  have valued : value ⟨0, 22⟩ right p = (.ok (.ref (.array 0)), (value ⟨0, 22⟩ right p).2) := rfl
  constructor
  · obtain ⟨whole, _⟩ := resolved_target_outlives_value ⟨0, 22⟩ ⟨"o", ⟨0, 1⟩⟩ [] right bound
    exact ⟨_, (whole rfl _ _ valued).2⟩
  · obtain ⟨_, inner⟩ := resolved_target_outlives_value ⟨0, 22⟩ ⟨"o", ⟨0, 1⟩⟩
      [.field ⟨"x", ⟨3, 4⟩⟩] right bound
    obtain ⟨failed, _⟩ := inner (List.cons_ne_nil _ _) [.field "x"] p (.field 0 "x") _ _ rfl rfl valued
    refine (failed _ _).mpr ⟨0, "x", ⟨some .int, false, .int 7⟩, .int, rfl, rfl, ?_, rfl, rfl⟩
    exact ⟨rfl, rfl, by decide, by decide⟩

end Exec

end Dil
