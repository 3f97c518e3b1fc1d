import Dil.Proofs.Session.Runs

namespace Dil

theorem insertInto_forall₂ {α β : Type} {R : String × α → β → Prop} {key : String} {old new : α}
    {entries : List (String × α)} {items : List β} (related : List.Forall₂ R entries items)
    (found : entries.lookup key = some old) (replace : ∀ b, R (key, old) b → R (key, new) b) :
    List.Forall₂ R (Table.insertInto key new entries) items := by
  induction related with
  | nil => cases found
  | @cons e b es bs first rest ih =>
      by_cases same : e.1 = key
      · rw [List.lookup_cons, same, beq_self_eq_true] at found
        cases found
        rw [Table.insertInto, if_pos same]
        exact .cons (replace b (same ▸ first)) rest
      · rw [List.lookup_cons, beq_false_of_ne (Ne.symm same)] at found
        rw [Table.insertInto, if_neg same]
        exact .cons first (ih found)

theorem assign_fits {slot slot' : Slot} {field : String} {v : Value} {f : FieldDef}
    (fits : slot.Fits f) (assigned : slot.assign field v = .ok slot') : slot'.Fits f := by
  rcases assign_cases assigned with ⟨free, rfl⟩ | ⟨_, typed, rfl⟩ | ⟨n, _, float, _, rfl⟩
  · refine ⟨fits.overwritable, ?_, ?_⟩
    · intro fixed
      rw [← fits.overwritable, free] at fixed
      cases fixed
    · rintro _ ⟨⟩
      rfl
  · exact ⟨fits.overwritable, fits.declared, typed⟩
  · refine ⟨fits.overwritable, fits.declared, ?_⟩
    intro t typed
    rw [show slot.type = some t from typed] at float
    cases float
    rfl

theorem set_conforms {object object' : Instance} {field : String} {v : Value} {c : ClassDef}
    (conforms : object.Conforms c) (stored : object.set field v = .ok object') :
    object'.Conforms c := by
  obtain ⟨slot, slot', found, assigned, rfl⟩ := set_cases stored
  refine ⟨conforms.className, insertInto_forall₂ conforms.slots found ?_⟩
  intro f fits
  exact ⟨fits.1, assign_fits fits.2 assigned⟩

/-- Classes are registered under their names, and every object is of a registered class. -/
structure Session.Schematic (s : Session) : Prop where
  named : ∀ name c, s.classes.find? name = some c → c.name = name
  objects : ∀ r object, s.heap.cell? r = some (.object object) →
    ∃ c, s.classes.find? object.className = some c ∧ object.Conforms c

namespace Session

theorem new_schematic : new.Schematic := by
  constructor
  · intro name c found
    cases found
  · intro r object found
    exact absurd (Heap.cell_inRange found) (Heap.empty_out_of_range r)

theorem add_schematic {s : Session} {c : Cell} (good : s.Schematic)
    (admitted : c.Admitted s.classes) : Schematic { s with heap := (s.heap.add c).2 } := by
  refine ⟨good.named, ?_⟩
  intro r object found
  rw [Heap.add_cell] at found
  split at found
  · cases found
    obtain ⟨name, d, registered, conforms⟩ := admitted object rfl
    have known : object.className = name := conforms.className.trans (good.named name d registered)
    exact ⟨d, known ▸ registered, conforms⟩
  · exact good.objects r object found

theorem declare_schematic {s : Session} {c : ClassDef} (good : s.Schematic)
    (new : c.name ∉ s.classes.keys) :
    Schematic { s with classes := s.classes.insert c.name c } := by
  constructor
  · intro name d found
    rw [Table.find_insert] at found
    split at found
    · rename_i same
      cases found
      exact same.symm
    · exact good.named name d found
  · intro r object found
    obtain ⟨d, registered, conforms⟩ := good.objects r object found
    have other : object.className ≠ c.name := by
      intro same
      rw [same, Table.find_none_iff.mpr new] at registered
      cases registered
    refine ⟨d, ?_, conforms⟩
    rw [Table.find_insert, if_neg other]
    exact registered

theorem write_schematic {s : Session} {place : Locator} {v : Value} {heap : Heap}
    (good : s.Schematic) (inside : s.heap.InRange place.ref)
    (written : s.heap.write place v = .ok heap) : Schematic { s with heap := heap } := by
  refine ⟨good.named, ?_⟩
  intro r object found
  obtain ⟨old, new, present, stores, rfl⟩ := Heap.write_cases inside written
  have kind := (Heap.stores_tag stores).trans (Heap.cell_tag present)
  rw [Heap.put_cell present kind] at found
  split at found
  · cases found
    cases stores with
    | slot stored =>
        obtain ⟨c, registered, conforms⟩ := good.objects _ _ present
        obtain ⟨_, _, _, _, rfl⟩ := set_cases stored
        exact ⟨c, registered, set_conforms conforms stored⟩
  · exact good.objects r object found

theorem Move.schematic {s t : Session} (move : s.Move t) (good : s.Schematic) : t.Schematic := by
  cases move with
  | add _ admitted => exact add_schematic good admitted
  | bind | drop => exact ⟨good.named, good.objects⟩
  | declare new => exact declare_schematic good new
  | write inside _ written => exact write_schematic good inside written

theorem reached_schematic {s : Session} (reached : s.Reached) : s.Schematic :=
  moves_keep Move.schematic (reached_moves reached).1 new_schematic

/-- In every state that is ever reached, the slots of an object are those of its class in order,
and a slot with a type holds a value of that type. -/
theorem reached_object_typed {s : Session} (reached : s.Reached) {i : Nat} {object : Instance}
    (present : s.heap.objects[i]? = some object) :
    ∃ c, s.classes.find? object.className = some c ∧ c.name = object.className ∧
      object.slots.keys = c.fields.map FieldDef.name ∧
      List.Forall₂ (fun slot f => slot.overwritable = f.overwritable ∧
        (slot.overwritable = false → slot.type = f.type) ∧
        ∀ t, slot.type = some t → slot.value.tag = t) object.slots.values c.fields := by
  have found : s.heap.cell? (.object i) = some (.object object) := by
    simp [Heap.cell?, present]
  obtain ⟨c, registered, conforms⟩ := (reached_schematic reached).objects _ _ found
  refine ⟨c, registered, conforms.className.symm, conforms.keys, ?_⟩
  apply List.forall₂_map_left_iff.mpr
  apply conforms.slots.imp
  rintro e f ⟨_, fits⟩
  exact ⟨fits.overwritable, fun fixed => fits.declared (fits.overwritable ▸ fixed), fits.typed⟩

def mistyped : Program :=
  ⟨[.declare ⟨0, 48⟩ ⟨⟨"C", ⟨6, 7⟩⟩,
      [⟨⟨"x", ⟨10, 11⟩⟩, .int ⟨20, 21⟩ 7, some ⟨.str, ⟨13, 16⟩⟩, false, ⟨10, 22⟩⟩,
        ⟨⟨"y", ⟨23, 24⟩⟩, .int ⟨40, 41⟩ 1, some ⟨.int, ⟨26, 29⟩⟩, true, ⟨23, 42⟩⟩], ⟨0, 48⟩⟩,
    .bind ⟨49, 62⟩ ⟨"o", ⟨53, 54⟩⟩ (.create ⟨57, 62⟩ ⟨"C", ⟨61, 62⟩⟩),
    .assign ⟨63, 73⟩ ⟨"o", ⟨63, 64⟩⟩ [.field ⟨"y", ⟨66, 67⟩⟩] (.str ⟨70, 73⟩ "t"),
    .assign ⟨74, 82⟩ ⟨"o", ⟨74, 75⟩⟩ [.field ⟨"x", ⟨77, 78⟩⟩] (.int ⟨81, 82⟩ 3)], ⟨0, 82⟩⟩

theorem mistyped_object_typed :
    let s := (new.run 1 (.accepting 2) mistyped).session
    ∃ object c, s.heap.objects[0]? = some object ∧ s.classes.find? object.className = some c ∧
      object.slots.entries =
        [("x", ⟨some .str, false, .str "7"⟩), ("y", ⟨some .str, true, .str "t"⟩)] ∧
      object.slots.keys = c.fields.map FieldDef.name := by
  obtain ⟨c, registered, _, keys, _⟩ := reached_object_typed
    (.run .new 1 (.accepting 2) mistyped) (i := 0) rfl
  exact ⟨_, c, rfl, registered, by decide, keys⟩

end Session

end Dil
