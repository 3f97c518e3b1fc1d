import Dil.Proofs.Heap.Walks
import Dil.Proofs.Render.Lines
import Dil.Proofs.Render.Markers

namespace Dil

def Cell.names : Cell → List String
  | .array _ => []
  | .map body => body.keys
  | .object body => body.className :: body.slots.keys

variable {P : String → Prop}

/-- All names in the heap are of a kind. -/
def Heap.Named (P : String → Prop) (h : Heap) : Prop :=
  ∀ r c, h.cell? r = some c → ∀ name ∈ c.names, P name

theorem itemNames_eq (vs : List Shown) : itemNames vs = vs.flatMap Shown.names := by
  induction vs with
  | nil => rfl
  | cons v vs ih => rw [itemNames, ih, List.flatMap_cons]

theorem entryNames_eq {ι : Type} (xs : List ι) (name : ι → String) (value : ι → Shown) :
    entryNames (xs.map fun x => .mk (name x) (value x))
      = xs.flatMap fun x => name x :: (value x).names := by
  induction xs with
  | nil => rfl
  | cons x xs ih => rw [List.map_cons, entryNames, ih, List.flatMap_cons, List.cons_append]

theorem Cell.shown_names {c : Cell} {inside : Value → Shown} {name : String}
    (member : name ∈ (c.shown inside).names) :
    name ∈ c.names ∨ ∃ v, name ∈ (inside v).names := by
  cases c with
  | array items =>
      rw [Cell.shown, Shown.names, itemNames_eq, List.flatMap_map, List.mem_flatMap] at member
      obtain ⟨v, _, found⟩ := member
      exact Or.inr ⟨v, found⟩
  | map body =>
      rw [Cell.shown, Shown.names, entryNames_eq] at member
      obtain ⟨e, among, found⟩ := List.mem_flatMap.mp member
      obtain rfl | deeper := List.mem_cons.mp found
      · exact Or.inl (List.mem_map_of_mem among)
      · exact Or.inr ⟨_, deeper⟩
  | object body =>
      rw [Cell.shown, Shown.names, entryNames_eq] at member
      obtain rfl | member := List.mem_cons.mp member
      · exact Or.inl List.mem_cons_self
      obtain ⟨e, among, found⟩ := List.mem_flatMap.mp member
      obtain rfl | deeper := List.mem_cons.mp found
      · exact Or.inl (List.mem_cons_of_mem _ (List.mem_map_of_mem among))
      · exact Or.inr ⟨_, deeper⟩

namespace Heap

variable {h t : Heap} {c : Cell} {r : Ref} {v : Value} {place : Locator}

theorem Named.shown (named : h.Named P) (levels : Nat) (around : List Ref) (v : Value) :
    ∀ name ∈ (h.shownWithin levels around v).names, P name := by
  induction levels generalizing around v with
  | zero =>
      cases v with
      | ref r =>
          by_cases inside : r ∈ around
          · rw [h.shownWithin_cycle 0 inside]
            nofun
          · rw [h.shownWithin_deep inside]
            nofun
      | _ => exact nofun
  | succ n ih =>
      cases v with
      | ref r =>
          by_cases inside : r ∈ around
          · rw [h.shownWithin_cycle _ inside]
            nofun
          · cases found : h.cell? r with
            | none =>
                rw [shownWithin_missing n inside found]
                nofun
            | some c =>
                rw [shownWithin_cell n inside found]
                intro name member
                obtain here | ⟨w, deeper⟩ := Cell.shown_names member
                · exact named r c found name here
                · exact ih (r :: around) w name deeper
      | _ => exact nofun

theorem empty_named : empty.Named P := by
  intro r c found
  exact absurd (cell_inRange found) (empty_out_of_range r)

theorem add_named (named : h.Named P) (names : ∀ name ∈ c.names, P name) :
    (h.add c).2.Named P := by
  intro r d found
  rw [add_cell] at found
  split at found
  · cases found
    exact names
  · exact named r d found

private theorem stored_cases {α : Type} {cells : Array α} {i j : Nat} {a b : α}
    (found : (cells.setIfInBounds i a)[j]? = some b) : b = a ∨ cells[j]? = some b := by
  rw [Array.getElem?_setIfInBounds] at found
  split at found
  · split at found <;> cases found
    exact Or.inl rfl
  · exact Or.inr found

theorem put_cell_cases {q : Ref} {d : Cell} (found : (h.put r c).cell? q = some d) :
    d = c ∨ h.cell? q = some d := by
  unfold put at found
  split at found
  all_goals
    cases q with
    | array j | map j | object j =>
        obtain ⟨content, there, rfl⟩ := Option.map_eq_some_iff.mp found
        first
          | exact Or.inr (Option.map_eq_some_iff.mpr ⟨content, there, rfl⟩)
          | exact (stored_cases there).imp (congrArg _)
              fun old => Option.map_eq_some_iff.mpr ⟨content, old, rfl⟩

theorem put_named (named : h.Named P) (names : ∀ name ∈ c.names, P name) : (h.put r c).Named P := by
  intro q d found
  obtain rfl | old := put_cell_cases found
  · exact names
  · exact named q d old

theorem body_named (named : h.Named P) (i : Nat) : ∀ key ∈ (h.body i).keys, P key := by
  cases found : h.maps[i]? with
  | none => simp [body, found, Table.keys, Table.empty]
  | some body' =>
      have cell : h.cell? (.map i) = some (.map body') := by simp [cell?, found]
      rw [body, found]
      exact named _ _ cell

/-- Only the key of a map can be new in a write. -/
theorem write_named (named : h.Named P) (key : ∀ i name, place = .key i name → P name)
    (written : h.write place v = .ok t) : t.Named P := by
  cases place with
  | field i name =>
      simp only [write] at written
      split at written
      · rename_i object found
        have cell : h.cell? (.object i) = some (.object object) := by simp [cell?, found]
        cases stored : object.set name v with
        | error e =>
            rw [stored] at written
            cases written
        | ok object' =>
            rw [stored] at written
            cases written
            obtain ⟨slot, slot', present, _, rfl⟩ := set_cases stored
            have there : name ∈ object.slots.keys := by
              by_contra absent
              rw [Table.find_none_iff.mpr absent] at present
              cases present
            have kept : (object.slots.insert name slot').keys = object.slots.keys := by
              rw [Table.keys_insert, if_pos there]
            refine put_named named ?_
            rw [Cell.names, kept]
            exact named _ _ cell
      · cases written
  | key i name =>
      cases written
      exact put_named named (Table.keys_of_insert (body_named named i) (key i name rfl))
  | index i position =>
      simp only [write] at written
      split at written <;> cases written
      exact put_named named (List.forall_mem_nil P)

theorem key_of_located {root : Value} {steps : List Step} {i : Nat} {name : String}
    (located : h.locate root steps = .ok (.key i name)) : Step.field name ∈ steps := by
  obtain rfl | ⟨front, last, rfl⟩ := List.eq_nil_or_concat' steps
  · cases located
  · rw [locate_append] at located
    cases container : h.get root front with
    | error e =>
        rw [container] at located
        cases located
    | ok w =>
        rw [container] at located
        change h.place w last = _ at located
        unfold place at located
        split at located
        · split at located <;> cases located
        · cases located
          simp
        · rename_i j position
          cases element : elementAt (h.items j) position with
          | error e =>
              rw [element] at located
              cases located
          | ok p =>
              rw [element] at located
              cases located
        · cases located

end Heap

end Dil
