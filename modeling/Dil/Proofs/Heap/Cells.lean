import Dil.Heap.Path

namespace Dil

def Value.Scalar (v : Value) : Prop := ∀ r, v ≠ .ref r

def Cell.values (c : Cell) : List Value := c.parts.map (·.2)

theorem values_array (items : List Value) : (Cell.array items).values = items := by
  rw [Cell.values, Cell.parts, List.map_map]
  exact List.map_id items

theorem values_map (body : Table Value) : (Cell.map body).values = body.values := by
  simp [Cell.values, Cell.parts, Table.values]

theorem values_object (body : Instance) :
    (Cell.object body).values = body.slots.values.map Slot.value := by
  simp [Cell.values, Cell.parts, Table.values]

namespace Heap

def InRange (h : Heap) : Ref → Prop
  | .array i => i < h.arrays.size
  | .map i => i < h.maps.size
  | .object i => i < h.objects.size

def Holds (h : Heap) (v : Value) : Prop := ∀ r, v = .ref r → h.InRange r

def Closed (h : Heap) : Prop := ∀ r c, h.cell? r = some c → ∀ v ∈ c.values, h.Holds v

theorem holds_ref (h : Heap) (r : Ref) : h.Holds (.ref r) ↔ h.InRange r := by
  constructor
  · intro held
    exact held r rfl
  · rintro inside _ ⟨⟩
    exact inside

theorem holds_scalar (h : Heap) (v : Value) (scalar : v.Scalar) : h.Holds v :=
  fun r same => absurd same (scalar r)

theorem inRange_iff (h : Heap) (r : Ref) : h.InRange r ↔ ∃ c, h.cell? r = some c := by
  constructor
  · intro inside
    cases r <;> exact ⟨_, congrArg (Option.map _) (Array.getElem?_eq_getElem inside)⟩
  · rintro ⟨c, found⟩
    cases r <;> obtain ⟨_, there, _⟩ := Option.map_eq_some_iff.mp found <;>
      exact (Array.getElem?_eq_some_iff.mp there).1

theorem cell_inRange {h : Heap} {r : Ref} {c : Cell} (found : h.cell? r = some c) :
    h.InRange r := (h.inRange_iff r).mpr ⟨c, found⟩

theorem cell_tag {h : Heap} {r : Ref} {c : Cell} (found : h.cell? r = some c) :
    c.tag = r.tag := by
  cases r <;> obtain ⟨_, _, rfl⟩ := Option.map_eq_some_iff.mp found <;> rfl

theorem items_holds {h : Heap} {i : Nat} {v : Value} (closed : h.Closed)
    (member : v ∈ h.items i) : h.Holds v := by
  cases found : h.arrays[i]? with
  | none => simp [items, found] at member
  | some content =>
      apply closed (.array i) (.array content) (by simp [cell?, found]) v
      rw [values_array]
      simpa [items, found] using member

theorem body_holds {h : Heap} {i : Nat} {v : Value} (closed : h.Closed)
    (member : v ∈ (h.body i).values) : h.Holds v := by
  cases found : h.maps[i]? with
  | none => simp [body, found, Table.values, Table.empty] at member
  | some content =>
      apply closed (.map i) (.map content) (by simp [cell?, found]) v
      rw [values_map]
      simpa [body, found] using member

theorem empty_out_of_range (r : Ref) : ¬ empty.InRange r := by
  cases r <;> simp [InRange, empty]

theorem empty_closed : empty.Closed := by
  intro r c found
  exact absurd (cell_inRange found) (empty_out_of_range r)

theorem add_ref_tag (h : Heap) (c : Cell) : (h.add c).1.tag = c.tag := by
  cases c <;> rfl

theorem add_fresh (h : Heap) (c : Cell) : ¬ h.InRange (h.add c).1 := by
  cases c <;> exact Nat.lt_irrefl _

theorem add_cell (h : Heap) (c : Cell) (r : Ref) :
    (h.add c).2.cell? r = if r = (h.add c).1 then some c else h.cell? r := by
  cases c <;> cases r <;> simp [add, cell?, Array.getElem?_push] <;> split <;> rfl

theorem add_inRange (h : Heap) (c : Cell) (r : Ref) :
    (h.add c).2.InRange r ↔ r = (h.add c).1 ∨ h.InRange r := by
  simp only [inRange_iff, add_cell]
  by_cases new : r = (h.add c).1 <;> simp [new]

theorem add_holds {h : Heap} {v : Value} (c : Cell) (held : h.Holds v) :
    (h.add c).2.Holds v := by
  intro r same
  exact (h.add_inRange c r).mpr (Or.inr (held r same))

theorem add_holds_new (h : Heap) (c : Cell) : (h.add c).2.Holds (.ref (h.add c).1) :=
  (holds_ref _ _).mpr ((h.add_inRange c _).mpr (Or.inl rfl))

theorem add_closed {h : Heap} {c : Cell} (closed : h.Closed)
    (held : ∀ v ∈ c.values, h.Holds v) : (h.add c).2.Closed := by
  intro r d found v member
  rw [add_cell] at found
  split at found
  · cases found
    exact add_holds c (held v member)
  · exact add_holds c (closed r d found v member)

/-- All references to cells of the kind are in use. -/
def Full (h : Heap) (kind : Tag) : Prop := handles ≤ h.count kind

theorem alloc_cases (h : Heap) (c : Cell) :
    (¬ h.Full c.tag ∧ h.alloc c = .ok (h.add c)) ∨
      (h.Full c.tag ∧ h.alloc c = .error (.heapExhausted c.tag)) := by
  unfold alloc Full
  by_cases room : h.count c.tag < handles
  · exact Or.inl ⟨Nat.not_le_of_lt room, if_pos room⟩
  · exact Or.inr ⟨Nat.le_of_not_lt room, if_neg room⟩

/-- The error names a kind of cells that no references are left for. -/
def Exhausted (h : Heap) (e : EvalError) : Prop := ∃ kind, e = .heapExhausted kind ∧ h.Full kind

/-- There are no more cells of a kind than references to them. -/
def Bounded (h : Heap) : Prop := ∀ kind, h.count kind ≤ handles

theorem empty_bounded : empty.Bounded := by
  intro kind
  cases kind <;> exact Nat.zero_le _

theorem Bounded.of_inRange {h t : Heap} (bounded : h.Bounded)
    (same : ∀ r, t.InRange r → h.InRange r) : t.Bounded := by
  intro kind
  apply Nat.le_trans _ (bounded kind)
  cases kind with
  | array => exact Nat.le_of_not_lt fun more => Nat.lt_irrefl _ (same (.array h.arrays.size) more)
  | map => exact Nat.le_of_not_lt fun more => Nat.lt_irrefl _ (same (.map h.maps.size) more)
  | object => exact Nat.le_of_not_lt fun more => Nat.lt_irrefl _ (same (.object h.objects.size) more)
  | _ => exact Nat.zero_le _

theorem add_count (h : Heap) (c : Cell) (kind : Tag) :
    (h.add c).2.count kind = h.count kind + if kind = c.tag then 1 else 0 := by
  cases c <;> cases kind <;> simp [add, count, Cell.tag]

theorem add_bounded {h : Heap} {c : Cell} (bounded : h.Bounded) (room : ¬ h.Full c.tag) :
    (h.add c).2.Bounded := by
  intro kind
  rw [add_count]
  split
  · rename_i same
    rw [same]
    exact Nat.lt_of_not_le room
  · exact bounded kind

private theorem replaced_content {α : Type} (cells : Array α) (content : α → Cell) (i j : Nat)
    (a : α) (inside : i < cells.size) :
    (cells.setIfInBounds i a)[j]?.map content =
      if j = i then some (content a) else cells[j]?.map content := by
  rw [Array.getElem?_setIfInBounds]
  by_cases same : i = j
  · simp [← same, inside]
  · simp [same, Ne.symm same]

theorem put_cell {h : Heap} {r : Ref} {old c : Cell} (present : h.cell? r = some old)
    (kind : c.tag = r.tag) (q : Ref) :
    (h.put r c).cell? q = if q = r then some c else h.cell? q := by
  have inside : h.InRange r := cell_inRange present
  cases r <;> cases c <;> cases kind <;> cases q <;>
    simp [put, cell?, replaced_content _ _ _ _ _ inside]

theorem put_inRange {h : Heap} {r : Ref} {old c : Cell} (present : h.cell? r = some old)
    (kind : c.tag = r.tag) (q : Ref) : (h.put r c).InRange q ↔ h.InRange q := by
  simp only [inRange_iff, put_cell present kind]
  by_cases same : q = r
  · simp [same, present]
  · simp [same]

theorem put_holds {h : Heap} {r : Ref} {old c : Cell} (present : h.cell? r = some old)
    (kind : c.tag = r.tag) (v : Value) : (h.put r c).Holds v ↔ h.Holds v :=
  forall₂_congr fun q _ => put_inRange present kind q

theorem put_closed {h : Heap} {r : Ref} {old c : Cell} (closed : h.Closed)
    (present : h.cell? r = some old) (kind : c.tag = r.tag)
    (held : ∀ v ∈ c.values, h.Holds v) : (h.put r c).Closed := by
  intro q d found v member
  rw [put_cell present kind] at found
  rw [put_holds present kind]
  split at found
  · cases found
    exact held v member
  · exact closed q d found v member

end Heap

end Dil
