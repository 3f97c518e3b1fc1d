import Dil.Proofs.Heap.Paths

namespace Dil

/-- A fixed slot with a type refuses values of other types. A float slot takes integers too. -/
structure Slot.Refuses (slot : Slot) (v : Value) (t : Tag) : Prop where
  fixed : slot.overwritable = false
  typed : slot.type = some t
  other : v.tag ≠ t
  unrounded : ¬ (t = .float ∧ v.tag = .int)

/-- What a slot holds after it has taken a value. A fixed float slot rounds integers. -/
def Slot.holding (slot : Slot) : Value → Value
  | .int n =>
    if slot.overwritable = false ∧ slot.type = some .float then .float (Binary64.ofInt n.toInt)
    else .int n
  | v => v

def Slot.taking (slot : Slot) (v : Value) : Slot :=
  ⟨if slot.overwritable then some v.tag else slot.type, slot.overwritable, slot.holding v⟩

section Slots

variable {slot : Slot} {v : Value}

theorem tag_eq_int (int : v.tag = .int) : ∃ n, v = .int n := by
  cases v with
  | int n => exact ⟨n, rfl⟩
  | ref r => cases r <;> cases int
  | _ => cases int

theorem holding_kept
    (kept : ¬ (slot.overwritable = false ∧ slot.type = some .float ∧ v.tag = .int)) :
    slot.holding v = v := by
  cases v with
  | int n => exact if_neg fun ⟨fixed, float⟩ => kept ⟨fixed, float, rfl⟩
  | _ => rfl

theorem assign_fixed {t : Tag} (field : String) (fixed : slot.overwritable = false)
    (typed : slot.type = some t) (unrounded : ¬ (t = .float ∧ v.tag = .int)) :
    slot.assign field v =
      if v.tag = t then .ok { slot with value := v } else .error (.typeMismatch field t v.tag) := by
  simp only [Slot.assign, fixed, typed, Bool.false_eq_true, if_false]
  split
  · contradiction
  · rename_i float
    cases float
    exact absurd ⟨rfl, rfl⟩ unrounded
  · rename_i known _
    cases known
    rfl

theorem assign_of_refuses {t : Tag} (field : String) (refused : slot.Refuses v t) :
    slot.assign field v = .error (.typeMismatch field t v.tag) := by
  rw [assign_fixed field refused.fixed refused.typed refused.unrounded, if_neg refused.other]

theorem assign_of_admits (field : String) (admitted : ∀ t, ¬ slot.Refuses v t) :
    slot.assign field v = .ok (slot.taking v) := by
  by_cases free : slot.overwritable = true
  · simp [Slot.assign, Slot.taking, free, holding_kept]
  · have fixed : slot.overwritable = false := by simpa using free
    cases typed : slot.type with
    | none => simp [Slot.assign, Slot.taking, fixed, typed, holding_kept]
    | some t =>
        by_cases rounded : t = .float ∧ v.tag = .int
        · obtain ⟨rfl, int⟩ := rounded
          obtain ⟨n, rfl⟩ := tag_eq_int int
          simp [Slot.assign, Slot.taking, Slot.holding, fixed, typed]
        · have same : v.tag = t :=
            Decidable.byContradiction fun other => admitted t ⟨fixed, typed, other, rounded⟩
          have kept : slot.holding v = v := holding_kept (by simpa [fixed, typed] using rounded)
          rw [assign_fixed field fixed typed rounded, if_pos same, Slot.taking, if_neg free, kept]

theorem taking_refuses_iff {w : Value} {t : Tag} :
    (slot.taking v).Refuses w t ↔ slot.Refuses w t := by
  constructor
  · rintro ⟨fixed, typed, other, unrounded⟩
    have fixed : slot.overwritable = false := fixed
    refine ⟨fixed, ?_, other, unrounded⟩
    simpa [Slot.taking, fixed] using typed
  · rintro ⟨fixed, typed, other, unrounded⟩
    refine ⟨fixed, ?_, other, unrounded⟩
    simpa [Slot.taking, fixed] using typed

theorem taking_taking (slot : Slot) (v w : Value) :
    (slot.taking v).taking w = slot.taking w := by
  by_cases free : slot.overwritable = true
  · simp [Slot.taking, Slot.holding, free]
  · have fixed : slot.overwritable = false := by simpa using free
    simp [Slot.taking, Slot.holding, fixed]

def Slot.Typed (slot : Slot) : Prop := ∀ t, slot.type = some t → slot.value.tag = t

theorem admits_held (typed : slot.Typed) (t : Tag) : ¬ slot.Refuses slot.value t :=
  fun refused => refused.other (typed t refused.typed)

theorem holding_held (typed : slot.Typed) : slot.holding slot.value = slot.value := by
  apply holding_kept
  rintro ⟨_, float, int⟩
  cases (typed _ float).symm.trans int

theorem taking_held (typed : slot.Typed) (known : slot.overwritable = true → slot.type ≠ none) :
    slot.taking slot.value = slot := by
  rw [Slot.taking, holding_held typed]
  by_cases free : slot.overwritable = true
  · obtain ⟨t, is⟩ := Option.ne_none_iff_exists'.mp (known free)
    rw [if_pos free, typed t is, ← is]
  · rw [if_neg free]

end Slots

namespace Heap

def slot? (h : Heap) : Locator → Option Slot
  | .field i name => h.objects[i]?.bind fun object => object.slots.find? name
  | .key .. | .index .. => none

/-- What a place holds after it has taken a value. -/
def storing (h : Heap) (place : Locator) (v : Value) : Value :=
  match h.slot? place with
  | some slot => slot.holding v
  | none => v

section Content

variable {h : Heap} {i : Nat}

theorem cell_array {items : List Value} :
    h.cell? (.array i) = some (.array items) ↔ h.arrays[i]? = some items := by
  simp [cell?]

theorem cell_map {body : Table Value} :
    h.cell? (.map i) = some (.map body) ↔ h.maps[i]? = some body := by
  simp [cell?]

theorem cell_object {object : Instance} :
    h.cell? (.object i) = some (.object object) ↔ h.objects[i]? = some object := by
  simp [cell?]

theorem items_of_cell {items : List Value} (found : h.cell? (.array i) = some (.array items)) :
    h.items i = items := by
  rw [Heap.items, cell_array.mp found, Option.getD_some]

theorem body_of_cell {body : Table Value} (found : h.cell? (.map i) = some (.map body)) :
    h.body i = body := by
  rw [Heap.body, cell_map.mp found, Option.getD_some]

theorem read_item {items : List Value} (found : h.cell? (.array i) = some (.array items))
    (position : Nat) : h.read (.index i position) = items[position]? := by
  rw [read, cell_array.mp found, Option.bind_some]

theorem read_entry {body : Table Value} (found : h.cell? (.map i) = some (.map body))
    (name : String) : h.read (.key i name) = body.find? name := by
  rw [read, cell_map.mp found, Option.bind_some]

theorem read_field {object : Instance} (found : h.cell? (.object i) = some (.object object))
    (name : String) : h.read (.field i name) = (object.slots.find? name).map Slot.value := by
  rw [read, cell_object.mp found, Option.bind_some, Instance.get?]

theorem slot_of_cell {object : Instance} (found : h.cell? (.object i) = some (.object object))
    (name : String) : h.slot? (.field i name) = object.slots.find? name := by
  rw [slot?, cell_object.mp found, Option.bind_some]

theorem eq_of_cells {t : Heap} (same : ∀ r, h.cell? r = t.cell? r) : h = t := by
  have arrays : h.arrays = t.arrays := by
    apply Array.ext_getElem?
    intro i
    exact Option.map_injective (fun _ _ => Cell.array.inj) (same (.array i))
  have maps : h.maps = t.maps := by
    apply Array.ext_getElem?
    intro i
    exact Option.map_injective (fun _ _ => Cell.map.inj) (same (.map i))
  have objects : h.objects = t.objects := by
    apply Array.ext_getElem?
    intro i
    exact Option.map_injective (fun _ _ => Cell.object.inj) (same (.object i))
  obtain ⟨_, _, _⟩ := h
  cases arrays
  cases maps
  cases objects
  rfl

theorem put_found {r : Ref} {c : Cell} (found : h.cell? r = some c) : h.put r c = h := by
  apply eq_of_cells
  intro q
  rw [put_cell found (cell_tag found)]
  by_cases same : q = r
  · rw [if_pos same, same, found]
  · rw [if_neg same]

theorem put_put {r : Ref} {old c d : Cell} (present : h.cell? r = some old) (first : c.tag = r.tag)
    (second : d.tag = r.tag) : (h.put r c).put r d = h.put r d := by
  have there : (h.put r c).cell? r = some c := by rw [put_cell present first, if_pos rfl]
  apply eq_of_cells
  intro q
  rw [put_cell there second, put_cell present second]
  by_cases same : q = r
  · rw [if_pos same, if_pos same]
  · rw [if_neg same, if_neg same, put_cell present first, if_neg same]

end Content

/-- Why a value is not written: the array has become shorter, the object has no such field, or its
slot refuses the value. -/
inductive Refuses (h : Heap) (v : Value) : Locator → EvalError → Prop where
  | shorter {i position : Nat} {items : List Value}
      (found : h.cell? (.array i) = some (.array items)) (outside : items.length ≤ position) :
      Refuses h v (.index i position)
        (.indexOutOfRange ((int64? position).getD Int64.maxValue).toInt items.length)
  | absent {i : Nat} {name : String} {object : Instance}
      (found : h.cell? (.object i) = some (.object object))
      (missing : object.slots.find? name = none) :
      Refuses h v (.field i name) (.pathNotFound name object.title)
  | mistyped {i : Nat} {name : String} {object : Instance} {slot : Slot} {t : Tag}
      (found : h.cell? (.object i) = some (.object object))
      (present : object.slots.find? name = some slot) (refused : slot.Refuses v t) :
      Refuses h v (.field i name) (.typeMismatch name t v.tag)

/-- The heap after a value was written to a place. -/
inductive Writes (h : Heap) (v : Value) : Locator → Heap → Prop where
  | item {i position : Nat} {items : List Value}
      (found : h.cell? (.array i) = some (.array items)) (inside : position < items.length) :
      Writes h v (.index i position) (h.put (.array i) (.array (items.set position v)))
  | entry {i : Nat} {name : String} {body : Table Value}
      (found : h.cell? (.map i) = some (.map body)) :
      Writes h v (.key i name) (h.put (.map i) (.map (body.insert name v)))
  | slot {i : Nat} {name : String} {object : Instance} {slot : Slot}
      (found : h.cell? (.object i) = some (.object object))
      (present : object.slots.find? name = some slot) (admitted : ∀ t, ¬ slot.Refuses v t) :
      Writes h v (.field i name) (h.put (.object i)
        (.object { object with slots := object.slots.insert name (slot.taking v) }))

section Outcome

variable {h h' : Heap} {place : Locator} {v : Value}

theorem write_of_refuses {e : EvalError} (refused : h.Refuses v place e) :
    h.write place v = .error e := by
  cases refused with
  | shorter found outside =>
      simp only [write, items_of_cell found]
      rw [if_neg (Nat.not_lt.mpr outside)]
  | absent found missing =>
      simp only [write, cell_object.mp found, Instance.set, missing]
      rfl
  | mistyped found present refused =>
      simp only [write, cell_object.mp found, Instance.set, present, assign_of_refuses _ refused]
      rfl

theorem write_of_writes (writes : h.Writes v place h') : h.write place v = .ok h' := by
  cases writes with
  | item found inside =>
      simp only [write, items_of_cell found]
      rw [if_pos inside]
      rfl
  | entry found =>
      simp only [write, Heap.insert, body_of_cell found]
  | slot found present admitted =>
      simp only [write, cell_object.mp found, Instance.set, present, assign_of_admits _ admitted]
      rfl

theorem refuses_or_writes (inside : h.InRange place.ref) (v : Value) :
    (∃ e, h.Refuses v place e) ∨ ∃ h', h.Writes v place h' := by
  obtain ⟨c, found⟩ := (h.inRange_iff _).mp inside
  have kind := cell_tag found
  cases place with
  | field i name =>
      cases c <;> cases kind
      rename_i object
      cases present : object.slots.find? name with
      | none => exact .inl ⟨_, .absent found present⟩
      | some slot =>
          by_cases refused : ∃ t, slot.Refuses v t
          · obtain ⟨t, refused⟩ := refused
            exact .inl ⟨_, .mistyped found present refused⟩
          · exact .inr ⟨_, .slot found present (not_exists.mp refused)⟩
  | key i name =>
      cases c <;> cases kind
      exact .inr ⟨_, .entry found⟩
  | index i position =>
      cases c <;> cases kind
      rename_i items
      by_cases there : position < items.length
      · exact .inr ⟨_, .item found there⟩
      · exact .inl ⟨_, .shorter found (Nat.not_lt.mp there)⟩

theorem write_error_iff (inside : h.InRange place.ref) {e : EvalError} :
    h.write place v = .error e ↔ h.Refuses v place e := by
  refine ⟨fun failed => ?_, write_of_refuses⟩
  rcases refuses_or_writes inside v with ⟨e', refused⟩ | ⟨h', writes⟩
  · cases (write_of_refuses refused).symm.trans failed
    exact refused
  · cases (write_of_writes writes).symm.trans failed

theorem write_ok_iff (inside : h.InRange place.ref) :
    h.write place v = .ok h' ↔ h.Writes v place h' := by
  refine ⟨fun written => ?_, write_of_writes⟩
  rcases refuses_or_writes inside v with ⟨e, refused⟩ | ⟨h'', writes⟩
  · cases (write_of_refuses refused).symm.trans written
  · cases (write_of_writes writes).symm.trans written
    exact writes

end Outcome

end Heap

/-- Two contents of a cell that differ in one place alone: an array keeps its length, a map the
order of its keys, with a new one behind them, and an object its class and its fields in order. -/
inductive Cell.Updates (v : Value) : Locator → Cell → Cell → Prop where
  | item {i position : Nat} {items items' : List Value} (length : items'.length = items.length)
      (here : items'[position]? = some v)
      (others : ∀ j, j ≠ position → items'[j]? = items[j]?) :
      Updates v (.index i position) (.array items) (.array items')
  | entry {i : Nat} {name : String} {body body' : Table Value}
      (keys : body'.keys = if name ∈ body.keys then body.keys else body.keys ++ [name])
      (here : body'.find? name = some v)
      (others : ∀ key, key ≠ name → body'.find? key = body.find? key) :
      Updates v (.key i name) (.map body) (.map body')
  | slot {i : Nat} {name : String} {object object' : Instance} {slot : Slot}
      (className : object'.className = object.className)
      (fields : object'.slots.keys = object.slots.keys)
      (before : object.slots.find? name = some slot)
      (here : object'.slots.find? name = some (slot.taking v))
      (others : ∀ field, field ≠ name → object'.slots.find? field = object.slots.find? field) :
      Updates v (.field i name) (.object object) (.object object')

namespace Heap

/-- The heaps differ in one place alone, which has taken a value in the second. -/
structure Updates (h : Heap) (v : Value) (place : Locator) (h' : Heap) : Prop where
  cell : ∃ old new, h.cell? place.ref = some old ∧ h'.cell? place.ref = some new ∧
    Cell.Updates v place old new
  others : ∀ r, r ≠ place.ref → h'.cell? r = h.cell? r

section Laws

variable {h h' : Heap} {place : Locator} {v : Value}

theorem put_updates {old new : Cell} (present : h.cell? place.ref = some old)
    (changed : Cell.Updates v place old new) : h.Updates v place (h.put place.ref new) := by
  have kind : new.tag = place.ref.tag := by cases changed <;> rfl
  have replaced := put_cell present kind
  refine ⟨⟨old, new, present, ?_, changed⟩, fun r other => ?_⟩
  · rw [replaced, if_pos rfl]
  · rw [replaced, if_neg other]

theorem Writes.updates (writes : h.Writes v place h') : h.Updates v place h' := by
  cases writes with
  | item found inside =>
      apply put_updates found
      apply Cell.Updates.item List.length_set
      · exact List.getElem?_set_self inside
      · exact fun j other => List.getElem?_set_ne (Ne.symm other)
  | @entry i name body found =>
      apply put_updates found
      apply Cell.Updates.entry (Table.keys_insert body name v)
      · rw [Table.find_insert, if_pos rfl]
      · intro key other
        rw [Table.find_insert, if_neg other]
  | @slot i name object slot found present admitted =>
      have known : name ∈ object.slots.keys := by
        rw [← Table.contains_iff, Table.contains_eq_isSome, present, Option.isSome_some]
      apply put_updates found
      refine Cell.Updates.slot rfl ?_ present ?_ ?_
      · rw [Table.keys_insert, if_pos known]
      · rw [Table.find_insert, if_pos rfl]
      · intro field other
        rw [Table.find_insert, if_neg other]

theorem Updates.read (updates : h.Updates v place h') :
    h'.read place = some (h.storing place v) := by
  obtain ⟨⟨old, new, found, found', changed⟩, _⟩ := updates
  cases changed with
  | item _ here _ =>
      rw [read_item found', here]
      rfl
  | entry _ here _ =>
      rw [read_entry found', here]
      rfl
  | slot _ _ before here _ =>
      rw [read_field found', here, storing, slot_of_cell found, before]
      rfl

theorem Writes.again {t u : Heap} {w : Value} (first : h.Writes v place t)
    (second : t.Writes w place u) : h.Writes w place u := by
  cases first with
  | @item i position items found inside =>
      have replaced := put_cell found (c := .array (items.set position v)) rfl (.array i)
      rw [if_pos rfl] at replaced
      cases second with
      | item found' inside' =>
          cases replaced.symm.trans found'
          rw [put_put found rfl rfl, List.set_set]
          exact .item found inside
  | @entry i name body found =>
      have replaced := put_cell found (c := .map (body.insert name v)) rfl (.map i)
      rw [if_pos rfl] at replaced
      cases second with
      | entry found' =>
          cases replaced.symm.trans found'
          rw [put_put found rfl rfl, Table.insert_insert]
          exact .entry found
  | @slot i name object slot found present admitted =>
      have replaced := put_cell found (c := .object
        { object with slots := object.slots.insert name (slot.taking v) }) rfl (.object i)
      rw [if_pos rfl] at replaced
      cases second with
      | slot found' present' admitted' =>
          cases replaced.symm.trans found'
          rw [Table.find_insert, if_pos rfl] at present'
          cases present'
          rw [put_put found rfl rfl, Table.insert_insert, taking_taking]
          exact .slot found present fun t refused => admitted' t (taking_refuses_iff.mpr refused)

def SlotsTyped (h : Heap) : Prop :=
  ∀ r object, h.cell? r = some (.object object) → ∀ slot ∈ object.slots.values, slot.Typed

/-- The heaps differ in the type of one overwritable slot alone, which had none in the first. -/
def Adopts (h : Heap) (t : Tag) : Locator → Heap → Prop
  | .field i name, h' => ∃ object slot, h.cell? (.object i) = some (.object object) ∧
      object.slots.find? name = some slot ∧ slot.overwritable = true ∧ slot.type = none ∧
      h' = h.put (.object i) (.object
        { object with slots := object.slots.insert name { slot with type := some t } })
  | .key .., _ | .index .., _ => False

theorem writes_back (typed : h.SlotsTyped) (held : h.read place = some v) :
    ∃ h', h.Writes v place h' ∧ (h' = h ∨ h.Adopts v.tag place h') := by
  cases place with
  | index i position =>
      cases there : h.arrays[i]? with
      | none => simp [Heap.read, there] at held
      | some items =>
          have found : h.cell? (.array i) = some (.array items) := cell_array.mpr there
          rw [read_item found] at held
          obtain ⟨inside, same⟩ := List.getElem?_eq_some_iff.mp held
          refine ⟨_, .item found inside, .inl ?_⟩
          rw [← same, List.set_getElem_self]
          exact put_found found
  | key i name =>
      cases there : h.maps[i]? with
      | none => simp [Heap.read, there] at held
      | some body =>
          have found : h.cell? (.map i) = some (.map body) := cell_map.mpr there
          rw [read_entry found] at held
          refine ⟨_, .entry found, .inl ?_⟩
          rw [Table.insert_found held]
          exact put_found found
  | field i name =>
      cases there : h.objects[i]? with
      | none => simp [Heap.read, there] at held
      | some object =>
          have found : h.cell? (.object i) = some (.object object) := cell_object.mpr there
          rw [read_field found] at held
          obtain ⟨slot, present, same⟩ := Option.map_eq_some_iff.mp held
          have fits := typed _ _ found slot (Table.value_of_find present)
          subst same
          refine ⟨_, .slot found present (admits_held fits), ?_⟩
          -- Only an overwritable slot without a type learns something from its own value.
          by_cases untyped : slot.overwritable = true ∧ slot.type = none
          · refine .inr ⟨object, slot, found, present, untyped.1, untyped.2, ?_⟩
            rw [Slot.taking, if_pos untyped.1, holding_held fits]
          · left
            rw [taking_held fits (not_and.mp untyped), Table.insert_found present]
            exact put_found found

end Laws

end Heap

end Dil
