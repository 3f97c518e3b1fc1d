import Dil.Proofs.Heap.Cells
import Dil.Proofs.Table

namespace Dil

def Locator.ref : Locator → Ref
  | .field i _ => .object i
  | .key i _ => .map i
  | .index i _ => .array i

theorem assign_cases {slot slot' : Slot} {field : String} {v : Value}
    (assigned : slot.assign field v = .ok slot') :
    (slot.overwritable = true ∧ slot' = { slot with type := some v.tag, value := v }) ∨
    (slot.overwritable = false ∧ (∀ t, slot.type = some t → v.tag = t) ∧
      slot' = { slot with value := v }) ∨
    (∃ n, slot.overwritable = false ∧ slot.type = some .float ∧ v = .int n ∧
      slot' = { slot with value := .float (Binary64.ofInt n.toInt) }) := by
  unfold Slot.assign at assigned
  split at assigned
  · rename_i open_
    cases assigned
    exact Or.inl ⟨open_, rfl⟩
  · rename_i fixed
    have fixed : slot.overwritable = false := by simpa using fixed
    split at assigned
    · rename_i untyped
      cases assigned
      exact Or.inr (Or.inl ⟨fixed, fun t typed => by simp [untyped] at typed, rfl⟩)
    · rename_i n typed
      cases assigned
      exact Or.inr (Or.inr ⟨n, fixed, typed, rfl, rfl⟩)
    · rename_i t typed _
      split at assigned
      · rename_i fits
        cases assigned
        refine Or.inr (Or.inl ⟨fixed, fun u known => ?_, rfl⟩)
        rw [typed] at known
        cases known
        exact fits
      · cases assigned

theorem set_cases {object object' : Instance} {field : String} {v : Value}
    (stored : object.set field v = .ok object') :
    ∃ slot slot', object.slots.find? field = some slot ∧ slot.assign field v = .ok slot' ∧
      object' = { object with slots := object.slots.insert field slot' } := by
  unfold Instance.set at stored
  split at stored
  · rename_i slot found
    cases assigned : slot.assign field v with
    | error e =>
        rw [assigned] at stored
        cases stored
    | ok slot' =>
        rw [assigned] at stored
        cases stored
        exact ⟨slot, slot', found, assigned, rfl⟩
  · cases stored

namespace Heap

theorem elementAt_cases {α : Type} {items : List α} {position : Int64} {p : Nat × α}
    (found : elementAt items position = .ok p) : items[p.1]? = some p.2 := by
  unfold elementAt at found
  simp only at found
  split at found
  · rename_i a there
    cases found
    split at there
    · exact there
    · cases there
  · cases found

theorem step_cases {h : Heap} {v w : Value} {s : Step} (stepped : h.step v s = .ok w) :
    (∃ r c, v = .ref r ∧ h.cell? r = some c ∧ w ∈ c.values) ∨ (∃ text, w = .str text) := by
  unfold step at stepped
  split at stepped
  · rename_i i name
    cases found : h.objects[i]? with
    | none => simp [found] at stepped
    | some object =>
        cases inside : object.slots.find? name with
        | none => simp [found, Instance.get?, inside] at stepped
        | some slot =>
            simp only [found, Option.bind_some, Instance.get?, inside, Option.map_some] at stepped
            cases stepped
            refine Or.inl ⟨.object i, .object object, rfl, by simp [cell?, found], ?_⟩
            rw [values_object]
            exact List.mem_map.mpr ⟨slot, Table.value_of_find inside, rfl⟩
  · rename_i i name
    cases found : h.maps[i]? with
    | none => simp [found] at stepped
    | some body =>
        cases inside : body.find? name with
        | none => simp [found, inside] at stepped
        | some u =>
            simp only [found, Option.bind_some, inside] at stepped
            cases stepped
            refine Or.inl ⟨.map i, .map body, rfl, by simp [cell?, found], ?_⟩
            rw [values_map]
            exact Table.value_of_find inside
  · rename_i i position
    cases located : elementAt (h.items i) position with
    | error e => simp [located, Except.map] at stepped
    | ok p =>
        simp only [located, Except.map, Except.ok.injEq] at stepped
        have member := List.mem_of_getElem? (elementAt_cases located)
        cases found : h.arrays[i]? with
        | none => simp [items, found] at member
        | some content =>
            refine Or.inl ⟨.array i, .array content, rfl, by simp [cell?, found], ?_⟩
            rw [values_array, ← stepped]
            simpa [items, found] using member
  · rename_i text position
    cases located : elementAt text.toList position with
    | error e => simp [located, Except.map] at stepped
    | ok p =>
        simp only [located, Except.map, Except.ok.injEq] at stepped
        exact Or.inr ⟨_, stepped.symm⟩
  · cases stepped

theorem step_holds {h : Heap} {v w : Value} {s : Step} (closed : h.Closed)
    (stepped : h.step v s = .ok w) : h.Holds w := by
  rcases step_cases stepped with ⟨r, c, _, found, member⟩ | ⟨text, rfl⟩
  · exact closed r c found w member
  · exact h.holds_scalar _ (fun _ => Value.noConfusion)

theorem get_holds {h : Heap} {v w : Value} {path : List Step} (closed : h.Closed)
    (held : h.Holds v) (got : h.get v path = .ok w) : h.Holds w := by
  induction path generalizing v with
  | nil =>
      cases got
      exact held
  | cons s ss ih =>
      simp only [get] at got
      cases stepped : h.step v s with
      | error e =>
          rw [stepped] at got
          cases got
      | ok u =>
          rw [stepped] at got
          exact ih (step_holds closed stepped) got

/-- Every value that a path meets, from the root to the end, is in range. -/
def WalkInRange (h : Heap) : Value → List Step → Prop
  | v, [] => h.Holds v
  | v, s :: ss => h.Holds v ∧ ∀ w, h.step v s = .ok w → h.WalkInRange w ss

theorem walk_inRange {h : Heap} {v : Value} (closed : h.Closed) (held : h.Holds v)
    (path : List Step) : h.WalkInRange v path := by
  induction path generalizing v with
  | nil => exact held
  | cons s ss ih => exact ⟨held, fun w stepped => ih (step_holds closed stepped)⟩

inductive Reaches (h : Heap) : Value → Ref → Prop where
  | here (r : Ref) : Reaches h (.ref r) r
  | part {r q : Ref} {c : Cell} {v : Value} (found : h.cell? r = some c)
      (member : v ∈ c.values) (rest : Reaches h v q) : Reaches h (.ref r) q

theorem reaches_inRange {h : Heap} {v : Value} {q : Ref} (closed : h.Closed) (held : h.Holds v)
    (reaches : h.Reaches v q) : h.InRange q := by
  induction reaches with
  | here r => exact (h.holds_ref r).mp held
  | part found member _ ih => exact ih (closed _ _ found _ member)

theorem place_inRange {h : Heap} {v : Value} {s : Step} {place : Locator} (held : h.Holds v)
    (placed : h.place v s = .ok place) : h.InRange place.ref := by
  unfold Heap.place at placed
  split at placed
  · split at placed
    · cases placed
      exact (h.holds_ref _).mp held
    · cases placed
  · cases placed
    exact (h.holds_ref _).mp held
  · rename_i i position
    cases located : elementAt (h.items i) position with
    | error e => simp [located, Except.map] at placed
    | ok p =>
        simp only [located, Except.map, Except.ok.injEq] at placed
        rw [← placed]
        exact (h.holds_ref _).mp held
  · cases placed

theorem locate_inRange {h : Heap} {v : Value} {path : List Step} {place : Locator}
    (closed : h.Closed) (held : h.Holds v) (located : h.locate v path = .ok place) :
    h.InRange place.ref := by
  induction path generalizing v with
  | nil => cases located
  | cons s ss ih =>
      cases ss with
      | nil => exact place_inRange held located
      | cons s' ss =>
          simp only [locate] at located
          cases stepped : h.step v s with
          | error e =>
              rw [stepped] at located
              cases located
          | ok u =>
              rw [stepped] at located
              exact ih (step_holds closed stepped) located

/-- The content of a cell after a value was put into one of its parts. -/
inductive Stores (v : Value) : Cell → Cell → Prop where
  | item (items : List Value) (position : Nat) (inside : position < items.length) :
      Stores v (.array items) (.array (items.set position v))
  | entry (body : Table Value) (name : String) :
      Stores v (.map body) (.map (body.insert name v))
  | slot {object object' : Instance} {name : String} (stored : object.set name v = .ok object') :
      Stores v (.object object) (.object object')

theorem stores_tag {v : Value} {old new : Cell} (stores : Stores v old new) :
    new.tag = old.tag := by
  cases stores <;> rfl

theorem write_cases {h h' : Heap} {place : Locator} {v : Value} (inside : h.InRange place.ref)
    (written : h.write place v = .ok h') :
    ∃ old new, h.cell? place.ref = some old ∧ Stores v old new ∧ h' = h.put place.ref new := by
  cases place with
  | field i name =>
      simp only [write] at written
      cases found : h.objects[i]? with
      | none => simp [found] at written
      | some object =>
          cases stored : object.set name v with
          | error e => simp [found, stored, bind, Except.bind] at written
          | ok object' =>
              simp only [found, stored, bind, Except.bind, Except.ok.injEq] at written
              exact ⟨.object object, .object object', by simp [cell?, found, Locator.ref],
                .slot stored, written.symm⟩
  | key i name =>
      simp only [write, Heap.insert, Except.ok.injEq] at written
      obtain ⟨body, found⟩ : ∃ body, h.maps[i]? = some body :=
        ⟨_, Array.getElem?_eq_getElem inside⟩
      refine ⟨.map body, .map (body.insert name v), by simp [cell?, found, Locator.ref],
        .entry body name, ?_⟩
      rw [← written, Heap.body, found]
      rfl
  | index i position =>
      obtain ⟨content, found⟩ : ∃ content, h.arrays[i]? = some content :=
        ⟨_, Array.getElem?_eq_getElem inside⟩
      simp only [write, items, found, Option.getD_some] at written
      split at written
      · rename_i there
        cases written
        exact ⟨.array content, .array (content.set position v), by simp [cell?, found, Locator.ref],
          .item content position there, rfl⟩
      · cases written

theorem stores_values {v w : Value} {old new : Cell} (stores : Stores v old new)
    (member : w ∈ new.values) : w ∈ old.values ∨ w = v ∨ ∃ x, w = .float x := by
  cases stores with
  | item items position inside =>
      rw [values_array] at member ⊢
      rcases List.mem_or_eq_of_mem_set member with kept | new
      · exact Or.inl kept
      · exact Or.inr (Or.inl new)
  | entry body name =>
      rw [values_map] at member ⊢
      rcases Table.value_of_insert member with new | kept
      · exact Or.inr (Or.inl new)
      · exact Or.inl kept
  | slot stored =>
      obtain ⟨slot, slot', found, assigned, rfl⟩ := set_cases stored
      rw [values_object, List.mem_map] at member
      obtain ⟨other, present, rfl⟩ := member
      rcases Table.value_of_insert present with new | kept
      · subst other
        rcases assign_cases assigned with ⟨_, rfl⟩ | ⟨_, _, rfl⟩ | ⟨n, _, _, _, rfl⟩
        · exact Or.inr (Or.inl rfl)
        · exact Or.inr (Or.inl rfl)
        · exact Or.inr (Or.inr ⟨_, rfl⟩)
      · rw [values_object]
        exact Or.inl (List.mem_map.mpr ⟨other, kept, rfl⟩)

theorem write_closed {h h' : Heap} {place : Locator} {v : Value} (closed : h.Closed)
    (inside : h.InRange place.ref) (held : h.Holds v) (written : h.write place v = .ok h') :
    h'.Closed := by
  obtain ⟨old, new, found, stores, rfl⟩ := write_cases inside written
  have kind : new.tag = place.ref.tag := (stores_tag stores).trans (cell_tag found)
  apply put_closed closed found kind
  intro w member
  rcases stores_values stores member with kept | rfl | ⟨x, rfl⟩
  · exact closed _ _ found w kept
  · exact held
  · exact h.holds_scalar _ (fun _ => Value.noConfusion)

theorem write_inRange {h h' : Heap} {place : Locator} {v : Value} (inside : h.InRange place.ref)
    (written : h.write place v = .ok h') (r : Ref) : h'.InRange r ↔ h.InRange r := by
  obtain ⟨old, new, found, stores, rfl⟩ := write_cases inside written
  exact put_inRange found ((stores_tag stores).trans (cell_tag found)) r

end Heap

end Dil
