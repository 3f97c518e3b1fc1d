namespace Dil

namespace Table

variable {α : Type}

def insertInto (key : String) (value : α) : List (String × α) → List (String × α)
  | [] => [(key, value)]
  | e :: es => if e.1 = key then (key, value) :: es else e :: insertInto key value es

theorem insertInto_present (key : String) (value : α) (entries : List (String × α))
    (present : key ∈ entries.map (·.1)) :
    (insertInto key value entries).map (·.1) = entries.map (·.1) := by
  induction entries with
  | nil => cases present
  | cons e es ih =>
      by_cases same : e.1 = key
      · simp [insertInto, same]
      · have later : key ∈ es.map (·.1) := by
          rcases List.mem_cons.mp present with here | later
          · exact absurd here.symm same
          · exact later
        rw [insertInto, if_neg same, List.map_cons, List.map_cons, ih later]

theorem insertInto_absent (key : String) (value : α) (entries : List (String × α))
    (absent : key ∉ entries.map (·.1)) :
    insertInto key value entries = entries ++ [(key, value)] := by
  induction entries with
  | nil => rfl
  | cons e es ih =>
      simp only [List.map_cons, List.mem_cons, not_or] at absent
      rw [insertInto, if_neg (Ne.symm absent.1), ih absent.2, List.cons_append]

theorem insertInto_distinct (key : String) (value : α) (entries : List (String × α))
    (distinct : (entries.map (·.1)).Nodup) :
    ((insertInto key value entries).map (·.1)).Nodup := by
  by_cases present : key ∈ entries.map (·.1)
  · rwa [insertInto_present key value entries present]
  · rw [insertInto_absent key value entries present, List.map_append]
    apply List.nodup_append.mpr
    refine ⟨distinct, List.nodup_cons.mpr ⟨List.not_mem_nil, List.nodup_nil⟩, ?_⟩
    intro a old b new same
    have isKey : b = key := List.mem_singleton.mp new
    exact present (isKey ▸ same ▸ old)

end Table

structure Table (α : Type) where
  entries : List (String × α)
  distinct : (entries.map (·.1)).Nodup
  deriving DecidableEq

namespace Table

variable {α : Type}

def empty : Table α := ⟨[], List.nodup_nil⟩

instance : Inhabited (Table α) := ⟨empty⟩

def find? (t : Table α) (key : String) : Option α := t.entries.lookup key

def contains (t : Table α) (key : String) : Bool := t.entries.any (·.1 == key)

def keys (t : Table α) : List String := t.entries.map (·.1)

def values (t : Table α) : List α := t.entries.map (·.2)

def size (t : Table α) : Nat := t.entries.length

/-- A new name goes to the end, and a present one keeps its place. -/
def insert (t : Table α) (key : String) (value : α) : Table α :=
  ⟨insertInto key value t.entries, insertInto_distinct key value t.entries t.distinct⟩

def erase (t : Table α) (key : String) : Table α :=
  ⟨t.entries.eraseP (·.1 == key), t.distinct.sublist (List.eraseP_sublist.map _)⟩

end Table

end Dil
