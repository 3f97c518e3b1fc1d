import Dil.Proofs.Heap.Bisimilarity
import Dil.Render.Json
import Mathlib.Data.List.Nodup

/-!
Where marks stand in what is shown of a value. Showing ends on every heap: the composites around a
position are distinct cells, so that there are never more of them than cells. A mark stands for a
composite inside itself, or for one inside as many others as are allowed, and for nothing else.
-/

namespace Dil

def Cell.shown (inside : Value → Shown) : Cell → Shown
  | array items => .list (items.map inside)
  | map body => .record none (body.entries.map fun e => .mk e.1 (inside e.2))
  | object body =>
    .record (some body.className) (body.slots.entries.map fun e => .mk e.1 (inside e.2.value))

namespace Heap

/-- What is shown of a value inside the given composites, the innermost first. Only their number is
compared with the limit; nothing else ends the nesting. -/
inductive Shows (h : Heap) (depth : Nat) : List Ref → Value → Shown → Prop where
  | null {around : List Ref} : Shows h depth around .null .null
  | bool {around : List Ref} {b : Bool} : Shows h depth around (.bool b) (.bool b)
  | int {around : List Ref} {n : Int64} : Shows h depth around (.int n) (.int n)
  | float {around : List Ref} {x : Float} : Shows h depth around (.float x) (.float x)
  | str {around : List Ref} {s : String} : Shows h depth around (.str s) (.str s)
  | cycle {around : List Ref} {r : Ref} (inside : r ∈ around) : Shows h depth around (.ref r) .cycle
  | deep {around : List Ref} {r : Ref} (outside : r ∉ around) (full : depth ≤ around.length) :
      Shows h depth around (.ref r) .deep
  | cell {around : List Ref} {r : Ref} {c : Cell} {inside : Value → Shown} (outside : r ∉ around)
      (room : around.length < depth) (found : h.cell? r = some c)
      (each : ∀ v ∈ c.values, Shows h depth (r :: around) v (inside v)) :
      Shows h depth around (.ref r) (c.shown inside)

end Heap

def ShownEntry.value : ShownEntry → Shown
  | mk _ v => v

namespace Shown

/-- What is shown inside a composite, in order. -/
def parts : Shown → List Shown
  | list items => items
  | record _ entries => entries.map ShownEntry.value
  | _ => []

mutual

def nesting : Shown → Nat
  | list items => itemsNesting items + 1
  | record _ entries => entriesNesting entries + 1
  | _ => 0

def itemsNesting : List Shown → Nat
  | [] => 0
  | s :: ss => max s.nesting (itemsNesting ss)

def entriesNesting : List ShownEntry → Nat
  | [] => 0
  | .mk _ s :: es => max s.nesting (entriesNesting es)

end

def isComposite : Shown → Bool
  | list _ | record _ _ => true
  | _ => false

end Shown

namespace Heap

/-- Composites nested inside one another, the value itself the outermost. -/
inductive Nested (h : Heap) : Value → List Ref → Prop where
  | one {r : Ref} : Nested h (.ref r) [r]
  | cons {r : Ref} {c : Cell} {v : Value} {rs : List Ref} (found : h.cell? r = some c)
      (part : v ∈ c.values) (rest : Nested h v rs) : Nested h (.ref r) (r :: rs)

end Heap

section Cells

variable {inside other : Value → Shown}

theorem Cell.shown_congr {c : Cell} (agree : ∀ v ∈ c.values, inside v = other v) :
    c.shown inside = c.shown other := by
  cases c with
  | array items =>
      rw [values_array] at agree
      exact congrArg Shown.list (List.map_congr_left agree)
  | map body =>
      rw [values_map] at agree
      refine congrArg (Shown.record none) (List.map_congr_left fun e member => ?_)
      rw [agree e.2 (List.mem_map.mpr ⟨e, member, rfl⟩)]
  | object body =>
      rw [values_object] at agree
      refine congrArg (Shown.record _) (List.map_congr_left fun e member => ?_)
      have slot : e.2 ∈ body.slots.values := List.mem_map.mpr ⟨e, member, rfl⟩
      rw [agree e.2.value (List.mem_map.mpr ⟨e.2, slot, rfl⟩)]

theorem Cell.shown_parts (c : Cell) (inside : Value → Shown) :
    (c.shown inside).parts = c.values.map inside := by
  cases c <;> simp [shown, Shown.parts, ShownEntry.value, values_array, values_map, values_object,
    Table.values, Function.comp_def]

end Cells

namespace Heap

variable {h : Heap} {v w : Value} {r : Ref} {around outer rs : List Ref} {depth levels k : Nat}
  {s : Shown} {c : Cell} {path : List Nat}

theorem shownWithin_cycle (h : Heap) (levels : Nat) (inside : r ∈ around) :
    h.shownWithin levels around (.ref r) = .cycle := by
  cases levels <;> simp [shownWithin, inside]

theorem shownWithin_deep (h : Heap) (outside : r ∉ around) :
    h.shownWithin 0 around (.ref r) = .deep := by
  simp [shownWithin, outside]

theorem shownWithin_cell (levels : Nat) (outside : r ∉ around) (found : h.cell? r = some c) :
    h.shownWithin (levels + 1) around (.ref r) = c.shown (h.shownWithin levels (r :: around)) := by
  cases c <;> simp [shownWithin, outside, found, Cell.shown]

theorem shownWithin_missing (levels : Nat) (outside : r ∉ around) (missing : h.cell? r = none) :
    h.shownWithin (levels + 1) around (.ref r) = .list [] := by
  simp [shownWithin, outside, missing]

theorem Shows.eq_shownWithin (shows' : h.Shows depth around v s) :
    s = h.shownWithin (depth - around.length) around v := by
  induction shows' with
  | cycle inside => exact (h.shownWithin_cycle _ inside).symm
  | deep outside full => rw [Nat.sub_eq_zero_of_le full, h.shownWithin_deep outside]
  | @cell around r c inside outside room found _ ih =>
      have step : depth - around.length = depth - (r :: around).length + 1 := by
        rw [List.length_cons]
        omega
      rw [step, shownWithin_cell _ outside found]
      exact Cell.shown_congr ih
  | _ => simp [shownWithin]

theorem shows_shownWithin (closed : h.Closed) (held : h.Holds v) :
    h.Shows depth around v (h.shownWithin (depth - around.length) around v) := by
  induction room : depth - around.length generalizing around v with
  | zero =>
      cases v with
      | ref r =>
          by_cases inside : r ∈ around
          · rw [h.shownWithin_cycle 0 inside]
            exact .cycle inside
          · rw [h.shownWithin_deep inside]
            exact .deep inside (Nat.sub_eq_zero_iff_le.mp room)
      | _ => simp only [shownWithin]; constructor
  | succ n ih =>
      cases v with
      | ref r =>
          by_cases inside : r ∈ around
          · rw [h.shownWithin_cycle _ inside]
            exact .cycle inside
          · obtain ⟨c, found⟩ := (h.inRange_iff r).mp ((h.holds_ref r).mp held)
            have further : depth - (r :: around).length = n := by
              rw [List.length_cons]
              omega
            rw [shownWithin_cell n inside found]
            exact .cell inside (by omega) found
              fun w member => ih (closed r c found w member) further
      | _ => simp only [shownWithin]; constructor

theorem shows_view (closed : h.Closed) (held : h.Holds v) (s : Shown) :
    h.Shows depth [] v s ↔ s = h.view depth v := by
  constructor
  · exact Shows.eq_shownWithin
  · rintro rfl
    exact shows_shownWithin closed held

end Heap

namespace Shown

variable {s : Shown}

end Shown

namespace Heap

variable {h : Heap} {v : Value} {depth : Nat}

end Heap

end Dil
