import Dil.Proofs.Session.Runs

namespace Dil

open Relation (ReflTransGen)

namespace Cell

inductive Evolves : Cell → Cell → Prop where
  | array {items items' : List Value} (length : items'.length = items.length) :
      Evolves (.array items) (.array items')
  | map {body body' : Table Value} (keys : body.keys <+: body'.keys) :
      Evolves (.map body) (.map body')
  | object {object object' : Instance} (className : object'.className = object.className) :
      Evolves (.object object) (.object object')

theorem Evolves.refl (c : Cell) : c.Evolves c := by
  cases c with
  | array items => exact .array rfl
  | map body => exact .map List.prefix_rfl
  | object body => exact .object rfl

theorem Evolves.trans {c d e : Cell} (first : c.Evolves d) (second : d.Evolves e) :
    c.Evolves e := by
  cases first with
  | array length =>
      cases second with
      | array length' => exact .array (length'.trans length)
  | map keys =>
      cases second with
      | map keys' => exact .map (keys.trans keys')
  | object className =>
      cases second with
      | object className' => exact .object (className'.trans className)

end Cell

theorem Table.insert_keys {α : Type} (t : Table α) (key : String) (a : α) :
    t.keys <+: (t.insert key a).keys := by
  rw [keys_insert]
  split
  · exact List.prefix_rfl
  · exact List.prefix_append _ _

theorem Heap.stores_evolves {v : Value} {old new : Cell} (stores : Stores v old new) :
    old.Evolves new := by
  cases stores with
  | item items position inside => exact .array (List.length_set ..)
  | entry body name => exact .map (body.insert_keys name v)
  | slot stored =>
      obtain ⟨_, _, _, _, rfl⟩ := set_cases stored
      exact .object rfl

namespace Session

/-- What is there stays, in its place and of its kind. -/
structure Evolves (s t : Session) : Prop where
  classes : s.classes.entries <+: t.classes.entries
  cells : ∀ r c, s.heap.cell? r = some c → ∃ d, t.heap.cell? r = some d ∧ c.Evolves d

theorem Evolves.refl (s : Session) : s.Evolves s :=
  ⟨List.prefix_rfl, fun _ c found => ⟨c, found, .refl c⟩⟩

theorem Evolves.trans {s t u : Session} (first : s.Evolves t) (second : t.Evolves u) :
    s.Evolves u := by
  refine ⟨first.classes.trans second.classes, ?_⟩
  intro r c found
  obtain ⟨d, found', evolves⟩ := first.cells r c found
  obtain ⟨e, found'', evolves'⟩ := second.cells r d found'
  exact ⟨e, found'', evolves.trans evolves'⟩

theorem Move.evolves {s t : Session} (move : s.Move t) : s.Evolves t := by
  cases move with
  | add =>
      refine ⟨List.prefix_rfl, fun r c found => ⟨c, ?_, .refl c⟩⟩
      rw [Heap.add_cell, if_neg, found]
      intro new
      exact Heap.add_fresh _ _ (new ▸ Heap.cell_inRange found)
  | bind | drop => exact ⟨List.prefix_rfl, fun _ c found => ⟨c, found, .refl c⟩⟩
  | declare new =>
      refine ⟨?_, fun _ c found => ⟨c, found, .refl c⟩⟩
      change _ <+: (s.classes.insert _ _).entries
      rw [Table.insert_absent _ new]
      exact List.prefix_append _ _
  | @write place v heap inside _ written =>
      refine ⟨List.prefix_rfl, fun r c found => ?_⟩
      obtain ⟨old, new, present, stores, rfl⟩ := Heap.write_cases inside written
      have kind := (Heap.stores_tag stores).trans (Heap.cell_tag present)
      change ∃ d, (s.heap.put place.ref new).cell? r = some d ∧ c.Evolves d
      rw [Heap.put_cell present kind]
      by_cases same : r = place.ref
      · subst same
        rw [if_pos rfl]
        cases present.symm.trans found
        exact ⟨new, rfl, Heap.stores_evolves stores⟩
      · rw [if_neg same]
        exact ⟨c, found, .refl c⟩

theorem moves_evolve {s t : Session} (moves : ReflTransGen Session.Move s t) : s.Evolves t :=
  moves_keep (fun move before => before.trans move.evolves) moves (.refl s)

section Arenas

variable {s t : Session}

theorem Evolves.arrays (evolves : s.Evolves t) {i : Nat} {items : List Value}
    (found : s.heap.arrays[i]? = some items) :
    ∃ items', t.heap.arrays[i]? = some items' ∧ items'.length = items.length := by
  have cell : s.heap.cell? (.array i) = some (.array items) := by simp [Heap.cell?, found]
  obtain ⟨d, found', change⟩ := evolves.cells _ _ cell
  cases change with
  | array length =>
      obtain ⟨_, there, same⟩ := Option.map_eq_some_iff.mp found'
      cases same
      exact ⟨_, there, length⟩

theorem Evolves.maps (evolves : s.Evolves t) {i : Nat} {body : Table Value}
    (found : s.heap.maps[i]? = some body) :
    ∃ body', t.heap.maps[i]? = some body' ∧ body.keys <+: body'.keys := by
  have cell : s.heap.cell? (.map i) = some (.map body) := by simp [Heap.cell?, found]
  obtain ⟨d, found', change⟩ := evolves.cells _ _ cell
  cases change with
  | map keys =>
      obtain ⟨_, there, same⟩ := Option.map_eq_some_iff.mp found'
      cases same
      exact ⟨_, there, keys⟩

theorem Evolves.objects (evolves : s.Evolves t) {i : Nat} {object : Instance}
    (found : s.heap.objects[i]? = some object) :
    ∃ object', t.heap.objects[i]? = some object' ∧ object'.className = object.className := by
  have cell : s.heap.cell? (.object i) = some (.object object) := by simp [Heap.cell?, found]
  obtain ⟨d, found', change⟩ := evolves.cells _ _ cell
  cases change with
  | object className =>
      obtain ⟨_, there, same⟩ := Option.map_eq_some_iff.mp found'
      cases same
      exact ⟨_, there, className⟩

private theorem size_le_of_present {α : Type} {cells cells' : Array α} {P : α → α → Prop}
    (kept : ∀ (i : Nat) (a : α), cells[i]? = some a → ∃ b, cells'[i]? = some b ∧ P a b) :
    cells.size ≤ cells'.size := by
  by_contra more
  have inside : cells'.size < cells.size := by omega
  obtain ⟨b, found, _⟩ := kept cells'.size _ (Array.getElem?_eq_getElem inside)
  have absent : cells'[cells'.size]? = none := Array.getElem?_eq_none (Nat.le_refl _)
  rw [absent] at found
  cases found

end Arenas

/-- Whatever a program does and however its run ends, classes, arenas and keys only grow at their
ends, arrays keep their lengths and objects their classes. -/
theorem run_only_extends {s : Session} (reached : s.Reached) (rounds : Nat) (sink : Sink)
    (program : Program) :
    let t := (s.run rounds sink program).session
    s.classes.entries <+: t.classes.entries ∧
    (s.heap.arrays.size ≤ t.heap.arrays.size ∧ s.heap.maps.size ≤ t.heap.maps.size ∧
      s.heap.objects.size ≤ t.heap.objects.size) ∧
    (∀ (i : Nat) items, s.heap.arrays[i]? = some items →
      ∃ items', t.heap.arrays[i]? = some items' ∧ items'.length = items.length) ∧
    (∀ (i : Nat) body, s.heap.maps[i]? = some body →
      ∃ body', t.heap.maps[i]? = some body' ∧ body.keys <+: body'.keys ∧ body'.keys.Nodup) ∧
    ∀ (i : Nat) object, s.heap.objects[i]? = some object →
      ∃ object', t.heap.objects[i]? = some object' ∧ object'.className = object.className := by
  intro t
  have evolves : s.Evolves t := moves_evolve (run_moves rounds sink program (reached_moves reached).2)
  refine ⟨evolves.classes, ⟨?_, ?_, ?_⟩, fun i items => evolves.arrays, ?_,
    fun i object => evolves.objects⟩
  · exact size_le_of_present fun _ _ => evolves.arrays
  · exact size_le_of_present fun _ _ => evolves.maps
  · exact size_le_of_present fun _ _ => evolves.objects
  · intro i body found
    obtain ⟨body', there, keys⟩ := evolves.maps found
    exact ⟨body', there, keys, body'.distinct⟩

def growingMap : Program :=
  ⟨[.assign ⟨0, 11⟩ ⟨"m", ⟨0, 1⟩⟩ [.field ⟨"k", ⟨4, 5⟩⟩] (.var ⟨8, 9⟩ "m"),
    .get ⟨11, 20⟩ (.binary ⟨15, 18⟩ .div (.int ⟨15, 16⟩ 1) (.int ⟨17, 18⟩ 0))], ⟨0, 20⟩⟩

def mapSession : Session :=
  (new.run 1 (.accepting 2)
    ⟨[.bind ⟨0, 17⟩ ⟨"m", ⟨4, 5⟩⟩ (.map ⟨8, 16⟩ [.mk ⟨"a", ⟨9, 10⟩⟩ (.null ⟨12, 16⟩)])],
      ⟨0, 17⟩⟩).session

theorem grown_map_keeps_keys :
    let t := (mapSession.run 1 (.accepting 2) growingMap).session
    (t.heap.maps[0]?.map Table.keys) = some ["a", "k"] ∧
    ∃ body', t.heap.maps[0]? = some body' ∧ ["a"] <+: body'.keys := by
  have reached : mapSession.Reached := .run .new 1 (.accepting 2) _
  obtain ⟨_, _, _, maps, _⟩ := run_only_extends reached 1 (.accepting 2) growingMap
  obtain ⟨body', there, keys, _⟩ := maps 0 _ rfl
  exact ⟨by decide, body', there, keys⟩

end Session

end Dil
