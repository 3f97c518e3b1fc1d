import Dil.Proofs.Heap.Writes
import Dil.Proofs.Session.Runs

/-!
The places that a walk along a path reads. Locating a path and reading it agree on every step but the
last; a value that was written to the place at the end of a path is read there; and a path whose walk
keeps away from that place gives what it gave before.
-/

namespace Dil

/-- The place where a step from a value looks, whether or not something is there. A text has none. -/
def Value.place? : Value → Step → Option Locator
  | .ref (.object i), .field name => some (.field i name)
  | .ref (.map i), .field name => some (.key i name)
  | .ref (.array i), .index position =>
    if 0 ≤ position.toInt then some (.index i position.toInt.toNat) else none
  | _, _ => none

namespace Heap

/-- The places that the walk along a path reads, up to the step at which it fails, if it does. -/
def visited (h : Heap) : Value → List Step → List Locator
  | _, [] => []
  | v, s :: ss =>
    (v.place? s).toList ++
      match h.step v s with
      | .ok w => h.visited w ss
      | .error _ => []

section Paths

variable (h : Heap)

theorem get_append (root : Value) (front : List Step) (last : Step) :
    h.get root (front ++ [last]) = (h.get root front).bind fun w => h.step w last := by
  induction front generalizing root with
  | nil =>
      change (h.step root last).bind (fun w => h.get w []) = h.step root last
      cases h.step root last <;> rfl
  | cons s ss ih =>
      change (h.step root s).bind (fun w => h.get w (ss ++ [last])) =
        ((h.step root s).bind fun w => h.get w ss).bind fun w => h.step w last
      cases h.step root s with
      | error e => rfl
      | ok w => exact ih w

theorem locate_append (root : Value) (front : List Step) (last : Step) :
    h.locate root (front ++ [last]) = (h.get root front).bind fun w => h.place w last := by
  induction front generalizing root with
  | nil => rfl
  | cons s ss ih =>
      have further : h.locate root (s :: (ss ++ [last])) =
          (h.step root s).bind fun w => h.locate w (ss ++ [last]) := by
        cases ss <;> rfl
      change h.locate root (s :: (ss ++ [last])) =
        ((h.step root s).bind fun w => h.get w ss).bind fun w => h.place w last
      rw [further]
      cases h.step root s with
      | error e => rfl
      | ok w => exact ih w

end Paths

section Positions

variable {α : Type} {items items' : List α} {position : Int64}

theorem elementAt_inside {k : Nat} {a : α} (here : position.toInt = k) (found : items[k]? = some a) :
    elementAt items position = .ok (k, a) := by
  simp [elementAt, here, found]

theorem elementAt_outside (outside : position.toInt < 0 ∨ items.length ≤ position.toInt) :
    elementAt items position = .error (.indexOutOfRange position.toInt items.length) := by
  have absent : (if 0 ≤ position.toInt then items[position.toInt.toNat]? else none) = none := by
    split
    · exact List.getElem?_eq_none (by omega)
    · rfl
  simp only [elementAt, absent]

theorem elementAt_either (items : List α) (position : Int64) :
    (∃ (k : Nat) (a : α), position.toInt = k ∧ items[k]? = some a ∧
      elementAt items position = .ok (k, a)) ∨
    (position.toInt < 0 ∨ items.length ≤ position.toInt) ∧
      elementAt items position = .error (.indexOutOfRange position.toInt items.length) := by
  by_cases outside : position.toInt < 0 ∨ items.length ≤ position.toInt
  · exact .inr ⟨outside, elementAt_outside outside⟩
  · have here : position.toInt = position.toInt.toNat := by omega
    have found := List.getElem?_eq_getElem (l := items) (i := position.toInt.toNat) (by omega)
    exact .inl ⟨_, _, here, found, elementAt_inside here found⟩

end Positions

section Steps

variable {h : Heap} {v w : Value} {s : Step} {place : Locator} {e : EvalError}

theorem read_items (h : Heap) (i position : Nat) :
    h.read (.index i position) = (h.items i)[position]? := by
  rw [read, items]
  cases h.arrays[i]? <;> rfl

theorem read_body (h : Heap) (i : Nat) (name : String) :
    h.read (.key i name) = (h.body i).find? name := by
  rw [read, body]
  cases h.maps[i]? <;> rfl

theorem step_of_read (named : v.place? s = some place) (held : h.read place = some w) :
    h.step v s = .ok w := by
  unfold Value.place? at named
  split at named
  · cases named
    rw [step, show h.objects[_]?.bind _ = some w from held]
  · cases named
    rw [step, show h.maps[_]?.bind _ = some w from held]
  · rename_i i position
    split at named
    · rename_i nonneg
      cases named
      rw [read_items] at held
      rw [step, elementAt_inside (Int.toNat_of_nonneg nonneg).symm held]
      rfl
    · cases named
  · cases named

/-- A found place is a field or an item that is there, or any key of a map. -/
theorem place_cases (placed : h.place v s = .ok place) :
    (∃ i name w, v = .ref (.object i) ∧ s = .field name ∧ place = .field i name ∧
      h.read place = some w) ∨
    (∃ i name, v = .ref (.map i) ∧ s = .field name ∧ place = .key i name) ∨
    ∃ (i : Nat) (position : Int64) (k : Nat) (w : Value), v = .ref (.array i) ∧
      s = .index position ∧ position.toInt = k ∧ place = .index i k ∧ h.read place = some w := by
  unfold Heap.place at placed
  split at placed
  · split at placed
    · rename_i w held
      cases placed
      exact .inl ⟨_, _, w, rfl, rfl, rfl, held⟩
    · cases placed
  · cases placed
    exact .inr (.inl ⟨_, _, rfl, rfl, rfl⟩)
  · rename_i i position
    rcases elementAt_either (h.items i) position with
      ⟨k, w, here, found, located⟩ | ⟨_, failed⟩
    · rw [located] at placed
      cases placed
      exact .inr (.inr ⟨i, position, k, w, rfl, rfl, here, rfl, (read_items h i k).trans found⟩)
    · rw [failed] at placed
      cases placed
  · cases placed

theorem place_named (placed : h.place v s = .ok place) : v.place? s = some place := by
  rcases place_cases placed with ⟨_, _, _, rfl, rfl, rfl, _⟩ | ⟨_, _, rfl, rfl, rfl⟩ |
    ⟨i, position, k, _, rfl, rfl, here, rfl, _⟩
  · rfl
  · rfl
  · simp [Value.place?, here]

theorem step_of_placed (placed : h.place v s = .ok place) :
    (∃ w, h.read place = some w ∧ h.step v s = .ok w) ∨
    ∃ i name, place = .key i name ∧ h.read place = none ∧
      h.step v s = .error (.pathNotFound name Tag.map.name) := by
  cases held : h.read place with
  | some w => exact .inl ⟨w, rfl, step_of_read (place_named placed) held⟩
  | none =>
      right
      rcases place_cases placed with ⟨_, _, w, _, _, _, there⟩ | ⟨i, name, rfl, rfl, rfl⟩ |
        ⟨_, _, _, w, _, _, _, _, there⟩
      · cases there.symm.trans held
      · refine ⟨i, name, rfl, rfl, ?_⟩
        rw [step, show h.maps[i]?.bind _ = none from held]
        rfl
      · cases there.symm.trans held

/-- Where no place is found, reading fails alike, unless it reads a character. -/
theorem step_of_unplaced (failed : h.place v s = .error e)
    (other : ∀ text position, v = .str text → s ≠ .index position) : h.step v s = .error e := by
  unfold Heap.place at failed
  split at failed
  · split at failed
    · cases failed
    · rename_i absent
      cases failed
      rw [step, absent]
  · cases failed
  · rename_i i position
    rcases elementAt_either (h.items i) position with
      ⟨k, a, _, _, located⟩ | ⟨_, outside⟩
    · rw [located] at failed
      cases failed
    · rw [outside] at failed
      cases failed
      rw [step, outside]
      rfl
  · -- The step has no rule for this container, and but for texts reading has none either.
    rename_i noField noKey noItem
    cases failed
    unfold step
    split
    · exact absurd rfl (noField _ _ rfl)
    · exact absurd rfl (noKey _ _ rfl)
    · exact absurd rfl (noItem _ _ rfl)
    · exact absurd rfl (other _ _ rfl)
    · rfl

end Steps

/-- Reading and locating a path agree, in any heap and from any value. If there is a place at the end,
then reading gives what the place holds; it holds nothing only if it is a key that its map does not
have, and then reading fails for that key. If there is no place, reading fails with the same error,
unless the last step is a position in a text: there is no place for it, but its character is read. -/
theorem reading_agrees_with_locating (h : Heap) (root : Value) (front : List Step) (last : Step) :
    (∀ place, h.locate root (front ++ [last]) = .ok place →
      (∀ v, h.get root (front ++ [last]) = .ok v ↔ h.read place = some v) ∧
      (h.read place = none → ∃ i name, place = .key i name ∧ name ∉ (h.body i).keys ∧
        h.get root (front ++ [last]) = .error (.pathNotFound name Tag.map.name))) ∧
    (∀ e, h.locate root (front ++ [last]) = .error e →
      (∀ text position, h.get root front = .ok (.str text) → last ≠ .index position) →
      h.get root (front ++ [last]) = .error e) ∧
    ∀ text position, h.get root front = .ok (.str text) → last = .index position →
      h.locate root (front ++ [last]) =
        .error (.pathNotFound ("[" ++ int64Text position ++ "]") Tag.str.name) ∧
      (∀ (k : Nat) c, position.toInt = k → text.toList[k]? = some c →
        h.get root (front ++ [last]) = .ok (.str (String.singleton c))) ∧
      (position.toInt < 0 ∨ text.length ≤ position.toInt →
        h.get root (front ++ [last]) = .error (.indexOutOfRange position.toInt text.length)) := by
  rw [get_append, locate_append]
  cases container : h.get root front with
  | error e =>
      refine ⟨nofun, ?_, nofun⟩
      rintro _ ⟨⟩ _
      rfl
  | ok c =>
      refine ⟨?_, ?_, ?_⟩
      · intro place placed
        rcases step_of_placed placed with ⟨w, held, stepped⟩ | ⟨i, name, rfl, nothing, failed⟩
        · refine ⟨fun v => ?_, fun nothing => ?_⟩
          · change h.step c last = .ok v ↔ _
            rw [stepped, held, Except.ok.injEq, Option.some.injEq]
          · cases held.symm.trans nothing
        · refine ⟨fun v => ?_, fun _ => ⟨i, name, rfl, ?_, failed⟩⟩
          · change h.step c last = .ok v ↔ _
            rw [failed, nothing]
            exact ⟨nofun, nofun⟩
          · rw [← Table.find_none_iff, ← read_body, nothing]
      · intro e failed other
        refine step_of_unplaced failed fun text position is => ?_
        exact other text position (congrArg Except.ok is)
      · rintro text position ⟨⟩ rfl
        refine ⟨rfl, fun k c here found => ?_, fun outside => ?_⟩
        · change h.step (.str text) (.index position) = _
          rw [step, elementAt_inside here found]
          rfl
        · change h.step (.str text) (.index position) = _
          rw [← String.length_toList] at outside ⊢
          rw [step, elementAt_outside outside]
          rfl

def loopedMap : Session :=
  (Session.new.run 1 (.accepting 2)
    ⟨[.declare ⟨0, 39⟩ ⟨⟨"C", ⟨6, 7⟩⟩,
        [⟨⟨"x", ⟨10, 11⟩⟩, .int ⟨13, 14⟩ 1, some ⟨.float, ⟨18, 23⟩⟩, false, ⟨10, 24⟩⟩], ⟨0, 39⟩⟩,
      .bind ⟨40, 61⟩ ⟨"m", ⟨44, 45⟩⟩
        (.map ⟨48, 60⟩ [.mk ⟨"o", ⟨50, 51⟩⟩ (.create ⟨53, 58⟩ ⟨"C", ⟨53, 54⟩⟩)]),
      .assign ⟨62, 74⟩ ⟨"m", ⟨62, 63⟩⟩ [.field ⟨"self", ⟨65, 69⟩⟩] (.var ⟨72, 73⟩ "m")],
      ⟨0, 74⟩⟩).session

theorem looped_reading_agrees :
    let h := loopedMap.heap
    let m : Value := .ref (.map 0)
    h.get m ([.field "self"] ++ [.field "new"]) = .error (.pathNotFound "new" "map") ∧
    h.get m ([.field "o"] ++ [.index 0]) = .error (.pathNotFound "[0]" "object C") ∧
    h.get (.str "ab") ([] ++ [.index 1]) = .ok (.str "b") := by
  intro h m
  refine ⟨?_, ?_, ?_⟩
  · obtain ⟨found, _, _⟩ := reading_agrees_with_locating h m [.field "self"] (.field "new")
    obtain ⟨_, _, ⟨⟩, _, missing⟩ := (found (.key 0 "new") rfl).2 (by decide)
    exact missing
  · obtain ⟨_, failed, _⟩ := reading_agrees_with_locating h m [.field "o"] (.index 0)
    exact failed _ rfl nofun
  · obtain ⟨_, _, texts⟩ := reading_agrees_with_locating h (.str "ab") [] (.index 1)
    exact (texts "ab" 1 rfl rfl).2.1 1 'b' rfl rfl

section Frame

variable {h h' : Heap} {place : Locator} {v : Value}

theorem read_congr {q : Locator} (same : h'.cell? q.ref = h.cell? q.ref) :
    h'.read q = h.read q := by
  cases q with
  | field i name =>
      have same := Option.map_injective (fun _ _ => Cell.object.inj) same
      rw [read, read, same]
  | key i name =>
      have same := Option.map_injective (fun _ _ => Cell.map.inj) same
      rw [read, read, same]
  | index i position =>
      have same := Option.map_injective (fun _ _ => Cell.array.inj) same
      rw [read, read, same]

theorem Updates.read_other (updates : h.Updates v place h') {q : Locator} (other : q ≠ place) :
    h'.read q = h.read q := by
  by_cases same : q.ref = place.ref
  · -- Two places of one cell differ in their position or name.
    obtain ⟨⟨old, new, found, found', changed⟩, _⟩ := updates
    cases changed with
    | item _ _ others =>
        cases q <;> cases same
        rw [read_item found', read_item found]
        exact others _ fun at_ => other (congrArg _ at_)
    | entry _ _ others =>
        cases q <;> cases same
        rw [read_entry found', read_entry found]
        exact others _ fun at_ => other (congrArg _ at_)
    | slot _ _ _ _ others =>
        cases q <;> cases same
        rw [read_field found', read_field found, others _ fun at_ => other (congrArg _ at_)]
  · exact read_congr (updates.others q.ref same)

theorem Updates.length_items (updates : h.Updates v place h') (i : Nat) :
    (h'.items i).length = (h.items i).length := by
  by_cases same : Ref.array i = place.ref
  · obtain ⟨⟨old, new, found, found', changed⟩, _⟩ := updates
    cases changed with
    | item length _ _ =>
        cases same
        rw [items_of_cell found', items_of_cell found, length]
    | entry | slot => cases same
  · have kept := Option.map_injective (fun _ _ => Cell.array.inj) (updates.others _ same)
    rw [items, items, kept]

theorem Updates.containerName (updates : h.Updates v place h') (u : Value) :
    h'.containerName u = h.containerName u := by
  cases u with
  | ref r =>
      cases r with
      | object i =>
          by_cases same : Ref.object i = place.ref
          · obtain ⟨⟨old, new, found, found', changed⟩, _⟩ := updates
            cases changed with
            | slot className _ _ _ _ =>
                cases same
                simp only [Heap.containerName, cell_object.mp found', cell_object.mp found,
                  Instance.title, className]
            | entry | item => cases same
          · have kept := Option.map_injective (fun _ _ => Cell.object.inj) (updates.others _ same)
            rw [Heap.containerName, Heap.containerName, kept]
      | _ => rfl
  | _ => rfl

theorem Updates.missing (updates : h.Updates v place h') (segment : String) (u : Value) :
    h'.missing segment u = h.missing segment u := by
  rw [Heap.missing, Heap.missing, updates.containerName]

theorem Updates.elementAt (updates : h.Updates v place h') {i : Nat} {position : Int64}
    (apart : (Value.ref (.array i)).place? (.index position) ≠ some place) :
    Heap.elementAt (h'.items i) position = Heap.elementAt (h.items i) position := by
  -- An item that is not there is told with the length alone, and that stays.
  rcases elementAt_either (h.items i) position with
    ⟨k, a, here, found, located⟩ | ⟨outside, failed⟩
  · have other : Locator.index i k ≠ place := by
      rintro rfl
      exact apart (by simp [Value.place?, here])
    rw [located, elementAt_inside here]
    rw [← read_items, updates.read_other other, read_items, found]
  · rw [← updates.length_items i] at outside
    rw [failed, elementAt_outside outside, updates.length_items]

theorem Updates.step (updates : h.Updates v place h') {u : Value} {s : Step}
    (apart : u.place? s ≠ some place) : h'.step u s = h.step u s := by
  unfold Heap.step
  split
  · rename_i i name
    have kept : h'.read (.field i name) = h.read (.field i name) :=
      updates.read_other fun same => apart (congrArg some same)
    rw [show h'.objects[i]?.bind _ = h.objects[i]?.bind _ from kept, updates.missing]
  · rename_i i name
    have kept : h'.read (.key i name) = h.read (.key i name) :=
      updates.read_other fun same => apart (congrArg some same)
    rw [show h'.maps[i]?.bind _ = h.maps[i]?.bind _ from kept, updates.missing]
  · rw [updates.elementAt apart]
  · rfl
  · rw [updates.missing]

theorem Updates.get (updates : h.Updates v place h') {u : Value} {path : List Step}
    (apart : place ∉ h.visited u path) : h'.get u path = h.get u path := by
  induction path generalizing u with
  | nil => rfl
  | cons s ss ih =>
      rw [visited, List.mem_append, not_or] at apart
      have first : u.place? s ≠ some place := by
        intro same
        exact apart.1 (by rw [same]; exact List.mem_singleton.mpr rfl)
      change (h'.step u s).bind (fun w => h'.get w ss) = (h.step u s).bind fun w => h.get w ss
      rw [updates.step first]
      cases stepped : h.step u s with
      | error e => rfl
      | ok w =>
          rw [stepped] at apart
          exact ih apart.2

end Frame

/-- In a closed heap, let a value be written to the place at the end of a path. If the walk to the last
step does not read that place, then the path gives the value, rounded if it is an integer in a fixed
float slot. And every path from any value whose walk does not read that place, by whatever way it comes
to the same cells, gives what it gave before, be that a value or an error. -/
theorem written_place_reads_back {h h' : Heap} {root v : Value} {front : List Step} {last : Step}
    {place : Locator} (closed : h.Closed) (held : h.Holds root)
    (located : h.locate root (front ++ [last]) = .ok place)
    (written : h.write place v = .ok h') :
    (place ∉ h.visited root front →
      h'.get root (front ++ [last]) = .ok (h.storing place v)) ∧
    ∀ other path, place ∉ h.visited other path → h'.get other path = h.get other path := by
  have inside : h.InRange place.ref := locate_inRange closed held located
  have updates : h.Updates v place h' := ((write_ok_iff inside).mp written).updates
  refine ⟨fun apart => ?_, fun other path => updates.get⟩
  rw [locate_append] at located
  rw [get_append, updates.get apart]
  cases container : h.get root front with
  | error e =>
      rw [container] at located
      cases located
  | ok c =>
      rw [container] at located
      exact step_of_read (place_named located) updates.read

theorem looped_place_reads_back :
    let h := loopedMap.heap
    let m : Value := .ref (.map 0)
    h.locate m ([.field "self", .field "o"] ++ [.field "x"]) = .ok (.field 0 "x") ∧
    ∃ h', h.write (.field 0 "x") (.int 3) = .ok h' ∧
      h'.get m ([.field "self", .field "o"] ++ [.field "x"]) =
        .ok (.float (Binary64.ofInt (3 : Int64).toInt)) ∧
      h'.get m [.field "o"] = .ok (.ref (.object 0)) := by
  intro h m
  have reached : loopedMap.Reached := .run .new 1 (.accepting 2) _
  have closed : h.Closed := (Session.reached_moves reached).2.cells
  have held : h.Holds m := (holds_ref _ _).mpr (show 0 < 1 by decide)
  have located : h.locate m ([.field "self", .field "o"] ++ [.field "x"]) = .ok (.field 0 "x") := rfl
  obtain ⟨h', written⟩ : ∃ h', h.write (.field 0 "x") (.int 3) = .ok h' := ⟨_, rfl⟩
  obtain ⟨back, others⟩ := written_place_reads_back closed held located written
  exact ⟨located, h', written, back (by decide), others m [.field "o"] (by decide)⟩

end Heap

end Dil
