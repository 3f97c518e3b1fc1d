import Dil.Table

namespace Dil.Table

variable {α β : Type}

theorem mem_of_find {t : Table α} {key : String} {a : α} (found : t.find? key = some a) :
    (key, a) ∈ t.entries := by
  obtain ⟨front, back, split, _⟩ := List.lookup_eq_some_iff.mp found
  simp [split]

theorem value_of_find {t : Table α} {key : String} {a : α} (found : t.find? key = some a) :
    a ∈ t.values := List.mem_map.mpr ⟨(key, a), mem_of_find found, rfl⟩

theorem lookup_of_mem {entries : List (String × α)} {key : String} {a : α}
    (distinct : (entries.map (·.1)).Nodup) (member : (key, a) ∈ entries) :
    entries.lookup key = some a := by
  induction entries with
  | nil => cases member
  | cons e es ih =>
      rw [List.map_cons, List.nodup_cons] at distinct
      rcases List.mem_cons.mp member with rfl | later
      · exact List.lookup_cons_self
      · have other : key ≠ e.1 := by
          intro same
          exact distinct.1 (same ▸ List.mem_map.mpr ⟨(key, a), later, rfl⟩)
        rw [List.lookup_cons, beq_false_of_ne other]
        exact ih distinct.2 later

theorem find_of_mem {t : Table α} {key : String} {a : α} (member : (key, a) ∈ t.entries) :
    t.find? key = some a := lookup_of_mem t.distinct member

theorem find_none_iff {t : Table α} {key : String} : t.find? key = none ↔ key ∉ t.keys := by
  rw [find?, List.lookup_eq_none_iff, keys, List.mem_map]
  simp only [bne_iff_ne, ne_eq, not_exists, not_and]
  exact ⟨fun absent e member same => absent e member same.symm,
    fun absent e member same => absent e member same.symm⟩

theorem contains_iff {t : Table α} {key : String} : t.contains key = true ↔ key ∈ t.keys := by
  simp [contains, keys]

theorem contains_eq_isSome (t : Table α) (key : String) :
    t.contains key = (t.find? key).isSome := by
  rw [Bool.eq_iff_iff, contains_iff, Option.isSome_iff_ne_none, ne_eq, find_none_iff,
    Classical.not_not]

theorem lookup_insertInto (key other : String) (a : α) (entries : List (String × α)) :
    (insertInto key a entries).lookup other =
      if other = key then some a else entries.lookup other := by
  induction entries with
  | nil =>
      by_cases asked : other = key
      · simp [insertInto, asked]
      · simp [insertInto, asked, List.lookup_cons, beq_false_of_ne asked]
  | cons e es ih =>
      by_cases same : e.1 = key
      · by_cases asked : other = key
        · simp [insertInto, same, asked]
        · rw [insertInto, if_pos same, List.lookup_cons, List.lookup_cons, same]
          simp [asked, beq_false_of_ne asked]
      · rw [insertInto, if_neg same, List.lookup_cons, ih, List.lookup_cons]
        by_cases asked : other = key
        · simp [asked, beq_false_of_ne (Ne.symm same)]
        · simp [asked]

theorem find_insert (t : Table α) (key other : String) (a : α) :
    (t.insert key a).find? other = if other = key then some a else t.find? other :=
  lookup_insertInto key other a t.entries

theorem insert_absent {t : Table α} {key : String} (a : α) (absent : key ∉ t.keys) :
    (t.insert key a).entries = t.entries ++ [(key, a)] :=
  insertInto_absent key a t.entries absent

theorem keys_insert (t : Table α) (key : String) (a : α) :
    (t.insert key a).keys = if key ∈ t.keys then t.keys else t.keys ++ [key] := by
  by_cases present : key ∈ t.keys
  · rw [if_pos present]
    exact insertInto_present key a t.entries present
  · rw [if_neg present, keys, insert_absent a present, List.map_append]
    rfl

theorem keys_of_insert {P : String → Prop} {t : Table α} {key : String} {a : α}
    (known : ∀ name ∈ t.keys, P name) (new : P key) : ∀ name ∈ (t.insert key a).keys, P name := by
  rw [keys_insert]
  split
  · exact known
  · exact List.forall_mem_append.mpr ⟨known, by simpa using new⟩

theorem insertInto_found {entries : List (String × α)} {key : String} {a : α}
    (found : entries.lookup key = some a) : insertInto key a entries = entries := by
  induction entries with
  | nil => cases found
  | cons e es ih =>
      by_cases same : e.1 = key
      · rw [List.lookup_cons, same, beq_self_eq_true] at found
        cases found
        rw [insertInto, if_pos same, ← same]
      · rw [List.lookup_cons, beq_false_of_ne (Ne.symm same)] at found
        rw [insertInto, if_neg same, ih found]

theorem insert_found {t : Table α} {key : String} {a : α} (found : t.find? key = some a) :
    t.insert key a = t := by
  obtain ⟨entries, distinct⟩ := t
  simp only [insert, insertInto_found found]

theorem insertInto_insertInto (key : String) (a b : α) (entries : List (String × α)) :
    insertInto key b (insertInto key a entries) = insertInto key b entries := by
  induction entries with
  | nil => simp [insertInto]
  | cons e es ih =>
      by_cases same : e.1 = key
      · simp [insertInto, same]
      · simp [insertInto, same, ih]

theorem insert_insert (t : Table α) (key : String) (a b : α) :
    (t.insert key a).insert key b = t.insert key b := by
  simp only [insert, insertInto_insertInto]

theorem mem_insert {t : Table α} {key : String} {a : α} {e : String × α}
    (member : e ∈ (t.insert key a).entries) : e = (key, a) ∨ e ∈ t.entries := by
  obtain ⟨other, b⟩ := e
  have found := find_of_mem member
  rw [find_insert] at found
  split at found
  · rename_i same
    cases found
    exact Or.inl (by rw [same])
  · exact Or.inr (mem_of_find found)

theorem value_of_insert {t : Table α} {key : String} {a b : α}
    (member : b ∈ (t.insert key a).values) : b = a ∨ b ∈ t.values := by
  obtain ⟨e, inside, rfl⟩ := List.mem_map.mp member
  rcases mem_insert inside with new | old
  · exact Or.inl (by rw [new])
  · exact Or.inr (List.mem_map.mpr ⟨e, old, rfl⟩)

theorem value_of_erase {t : Table α} {key : String} {b : α}
    (member : b ∈ (t.erase key).values) : b ∈ t.values := by
  obtain ⟨e, inside, rfl⟩ := List.mem_map.mp member
  exact List.mem_map.mpr ⟨e, List.mem_of_mem_eraseP inside, rfl⟩

theorem lookup_eraseP {entries : List (String × α)} (key other : String)
    (distinct : (entries.map (·.1)).Nodup) :
    (entries.eraseP (·.1 == key)).lookup other =
      if other = key then none else entries.lookup other := by
  induction entries with
  | nil => simp
  | cons e es ih =>
      rw [List.map_cons, List.nodup_cons] at distinct
      by_cases here : e.1 = key
      · rw [List.eraseP_cons_of_pos (by simp [here]), List.lookup_cons]
        by_cases asked : other = key
        · have absent : es.lookup other = none := by
            apply List.lookup_eq_none_iff.mpr
            intro p member
            apply bne_iff_ne.mpr
            intro same
            exact distinct.1 (List.mem_map.mpr ⟨p, member, by rw [here, ← asked, ← same]⟩)
          rw [absent, if_pos asked]
        · simp [asked, here, beq_false_of_ne asked]
      · rw [List.eraseP_cons_of_neg (by simp [here]), List.lookup_cons, List.lookup_cons,
          ih distinct.2]
        by_cases asked : other = key
        · simp [asked, beq_false_of_ne (Ne.symm here)]
        · simp [asked]

theorem find_erase (t : Table α) (key other : String) :
    (t.erase key).find? other = if other = key then none else t.find? other :=
  lookup_eraseP key other t.distinct

def mapValues (f : α → β) (t : Table α) : Table β :=
  ⟨t.entries.map fun e => (e.1, f e.2), by rw [List.map_map]; exact t.distinct⟩

theorem lookup_map (f : α → β) (entries : List (String × α)) (key : String) :
    (entries.map fun e => (e.1, f e.2)).lookup key = (entries.lookup key).map f := by
  induction entries with
  | nil => rfl
  | cons e es ih =>
      rw [List.map_cons, List.lookup_cons, List.lookup_cons, ih]
      split <;> rfl

theorem find_mapValues (f : α → β) (t : Table α) (key : String) :
    (t.mapValues f).find? key = (t.find? key).map f := lookup_map f t.entries key

theorem contains_mapValues (f : α → β) (t : Table α) (key : String) :
    (t.mapValues f).contains key = t.contains key := by
  rw [contains_eq_isSome, contains_eq_isSome, find_mapValues, Option.isSome_map]

theorem insertInto_map (f : α → β) (key : String) (a : α) (entries : List (String × α)) :
    insertInto key (f a) (entries.map fun e => (e.1, f e.2)) =
      (insertInto key a entries).map fun e => (e.1, f e.2) := by
  induction entries with
  | nil => rfl
  | cons e es ih =>
      rw [List.map_cons, insertInto, insertInto, ih]
      split <;> rfl

theorem insert_mapValues (f : α → β) (t : Table α) (key : String) (a : α) :
    (t.mapValues f).insert key (f a) = (t.insert key a).mapValues f := by
  simp only [insert, mapValues, insertInto_map]

theorem size_mapValues (f : α → β) (t : Table α) : (t.mapValues f).size = t.size := by
  simp [size, mapValues]

end Dil.Table
