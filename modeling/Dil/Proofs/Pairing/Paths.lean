import Dil.Proofs.Heap.Paths
import Dil.Proofs.Pairing.Heaps
import Dil.Proofs.Pairing.Values
import Dil.Render.Shown

namespace Dil.Pairing

variable {f g : Pairing} {h h' : Heap} {v v' : Value}

theorem containerName_alike (alike : f.Heaps h h') (values : f.Values v v') :
    h.containerName v = h'.containerName v' := by
  rcases values.kinds with ⟨i, j, rfl, rfl, _⟩ | ⟨i, j, rfl, rfl, _⟩ | ⟨i, j, rfl, rfl, paired⟩ |
    ⟨scalar, rfl⟩
  · rfl
  · rfl
  · obtain ⟨object, object', found, found', className, _⟩ := alike.objects paired
    simp only [Heap.containerName, found, found', Instance.title, className]
  · cases v with
    | ref a => exact absurd rfl (scalar a)
    | _ => rfl

theorem missing_alike (alike : f.Heaps h h') (values : f.Values v v') (segment : String) :
    h.missing segment v = h'.missing segment v' := by
  rw [Heap.missing, Heap.missing, containerName_alike alike values]

theorem getElem?_alike {α β : Type} {R : α → β → Prop} {items : List α} {items' : List β}
    (alike : List.Forall₂ R items items') (i : Nat) : Option.Rel R items[i]? items'[i]? := by
  induction alike generalizing i with
  | nil => exact .none
  | cons first _ ih =>
      cases i with
      | zero => exact .some first
      | succ i => exact ih i

theorem elementAt_alike {α β : Type} {R : α → β → Prop} {items : List α} {items' : List β}
    (alike : List.Forall₂ R items items') (position : Int64) :
    Concur (fun p p' => p.1 = p'.1 ∧ R p.2 p'.2) (Heap.elementAt items position)
      (Heap.elementAt items' position) := by
  have found : Option.Rel R (if 0 ≤ position.toInt then items[position.toInt.toNat]? else none)
      (if 0 ≤ position.toInt then items'[position.toInt.toNat]? else none) := by
    split
    · exact getElem?_alike alike _
    · exact .none
  unfold Heap.elementAt
  simp only [← alike.length_eq]
  rcases rel_cases found with ⟨a, b, there, there', related⟩ | ⟨absent, absent'⟩
  · rw [there, there']
    exact .ok ⟨rfl, related⟩
  · rw [absent, absent']
    exact .error _

theorem get?_alike {object object' : Instance}
    (slots : Table.Alike f.Slots object.slots object'.slots) (field : String) :
    Option.Rel f.Values (object.get? field) (object'.get? field) := by
  rw [Instance.get?, Instance.get?]
  rcases rel_cases (Table.find_alike slots field) with
    ⟨a, b, there, there', related⟩ | ⟨absent, absent'⟩
  · rw [there, there']
    exact .some related.value
  · rw [absent, absent']
    exact .none

theorem items_alike (alike : f.Heaps h h') {i j : Nat} (paired : f.Paired (.array i) (.array j)) :
    List.Forall₂ f.Values (h.items i) (h'.items j) := by
  obtain ⟨items, items', found, found', same⟩ := alike.arrays paired
  rwa [Heap.items, Heap.items, found, found']

theorem body_alike (alike : f.Heaps h h') {i j : Nat} (paired : f.Paired (.map i) (.map j)) :
    Table.Alike f.Values (h.body i) (h'.body j) := by
  obtain ⟨body, body', found, found', same⟩ := alike.maps paired
  rwa [Heap.body, Heap.body, found, found']

theorem found_concur {o o' : Option Value} {e e' : EvalError} (same : e = e') :
    Option.Rel f.Values o o' →
      Concur f.Values (match o with | some w => .ok w | none => .error e)
        (match o' with | some w => .ok w | none => .error e') := by
  intro found
  cases found with
  | some related => exact .ok related
  | none => exact .of_error_eq same

theorem step_alike (alike : f.Heaps h h') (values : f.Values v v') (s : Step) :
    Concur f.Values (h.step v s) (h'.step v' s) := by
  have lost := missing_alike alike values
  rcases values.kinds with ⟨i, j, rfl, rfl, paired⟩ | ⟨i, j, rfl, rfl, paired⟩ |
    ⟨i, j, rfl, rfl, paired⟩ | ⟨scalar, rfl⟩
  · cases s with
    | field name => exact .of_error_eq (lost _)
    | index position =>
        exact (elementAt_alike (items_alike alike paired) position).map fun _ _ same => same.2
  · cases s with
    | field name =>
        obtain ⟨body, body', there, there', entries⟩ := alike.maps paired
        simp only [Heap.step, there, there', Option.bind_some]
        exact found_concur (lost name) (Table.find_alike entries name)
    | index position => exact .of_error_eq (lost _)
  · cases s with
    | field name =>
        obtain ⟨object, object', there, there', _, slots⟩ := alike.objects paired
        simp only [Heap.step, there, there', Option.bind_some]
        exact found_concur (lost name) (get?_alike slots name)
    | index position => exact .of_error_eq (lost _)
  · cases v with
    | ref a => exact absurd rfl (scalar a)
    | str text =>
        cases s with
        | field name => exact .of_error_eq (lost _)
        | index position =>
            apply scalar_concur
            intro w stepped
            rcases Heap.step_cases stepped with ⟨_, _, impossible, _⟩ | ⟨_, rfl⟩
            · cases impossible
            · exact fun _ => Value.noConfusion
    | _ => cases s <;> exact .of_error_eq (lost _)

theorem get_alike (alike : f.Heaps h h') (values : f.Values v v') (path : List Step) :
    Concur f.Values (h.get v path) (h'.get v' path) := by
  induction path generalizing v v' with
  | nil => exact .ok values
  | cons s ss ih =>
      rw [Heap.get, Heap.get]
      exact (step_alike alike values s).bind fun _ _ next => ih next

inductive Locators (f : Pairing) : Locator → Locator → Prop where
  | field {i j : Nat} (name : String) (paired : f.Paired (.object i) (.object j)) :
      Locators f (.field i name) (.field j name)
  | key {i j : Nat} (name : String) (paired : f.Paired (.map i) (.map j)) :
      Locators f (.key i name) (.key j name)
  | index {i j : Nat} (position : Nat) (paired : f.Paired (.array i) (.array j)) :
      Locators f (.index i position) (.index j position)

theorem Locators.mono {place place' : Locator} (alike : f.Locators place place')
    (within : f.Within g) : g.Locators place place' := by
  cases alike with
  | field name paired => exact .field name (within _ _ paired)
  | key name paired => exact .key name (within _ _ paired)
  | index position paired => exact .index position (within _ _ paired)

theorem Locators.paired {place place' : Locator} (alike : f.Locators place place') :
    f.Paired place.ref place'.ref := by
  cases alike with
  | field _ paired | key _ paired | index _ paired => exact paired

theorem place_alike (alike : f.Heaps h h') (values : f.Values v v') (s : Step) :
    Concur f.Locators (h.place v s) (h'.place v' s) := by
  have lost := missing_alike alike values
  rcases values.kinds with ⟨i, j, rfl, rfl, paired⟩ | ⟨i, j, rfl, rfl, paired⟩ |
    ⟨i, j, rfl, rfl, paired⟩ | ⟨scalar, rfl⟩
  · cases s with
    | field name => exact .of_error_eq (lost _)
    | index position =>
        apply (elementAt_alike (items_alike alike paired) position).map
        rintro ⟨p, _⟩ ⟨_, _⟩ ⟨rfl, _⟩
        exact .index p paired
  · cases s with
    | field name => exact .ok (.key name paired)
    | index position => exact .of_error_eq (lost _)
  · cases s with
    | field name =>
        obtain ⟨object, object', there, there', _, slots⟩ := alike.objects paired
        simp only [Heap.place, there, there', Option.bind_some]
        rcases rel_cases (get?_alike slots name) with ⟨_, _, has, has', _⟩ | ⟨lacks, lacks'⟩
        · rw [has, has']
          exact .ok (.field name paired)
        · rw [lacks, lacks']
          exact .of_error_eq (lost name)
    | index position => exact .of_error_eq (lost _)
  · cases v with
    | ref a => exact absurd rfl (scalar a)
    | _ => cases s <;> exact .of_error_eq (lost _)

theorem locate_alike (alike : f.Heaps h h') (values : f.Values v v') (path : List Step) :
    Concur f.Locators (h.locate v path) (h'.locate v' path) := by
  induction path generalizing v v' with
  | nil => exact .of_error_eq (missing_alike alike values _)
  | cons s ss ih =>
      cases ss with
      | nil => exact place_alike alike values s
      | cons s' ss =>
          rw [Heap.locate, Heap.locate]
          · exact (step_alike alike values s).bind fun _ _ next => ih next
          all_goals exact List.cons_ne_nil s' ss

theorem assign_fixed_ref (t : Tag) (value : Value) (field : String) (a : Ref) :
    Slot.assign ⟨some t, false, value⟩ field (.ref a) =
      if a.tag = t then .ok ⟨some t, false, .ref a⟩ else .error (.typeMismatch field t a.tag) := by
  cases t <;> rfl

theorem assign_alike {slot slot' : Slot} (slots : f.Slots slot slot') (values : f.Values v v')
    (field : String) : Concur f.Slots (slot.assign field v) (slot'.assign field v') := by
  obtain ⟨type, overwritable, value⟩ := slot
  obtain ⟨type', overwritable', value'⟩ := slot'
  obtain ⟨rfl, rfl, old⟩ := slots
  cases overwritable with
  | true => exact .ok ⟨congrArg some values.tag, rfl, values⟩
  | false =>
      cases values with
      | ref paired =>
          cases type with
          | none => exact .ok ⟨rfl, rfl, .ref paired⟩
          | some t =>
              rw [assign_fixed_ref, assign_fixed_ref, f.kind paired]
              split
              · exact .ok ⟨rfl, rfl, .ref paired⟩
              · exact .error _
      | scalar scalar =>
          simp only [Slot.assign, Bool.false_eq_true, if_false]
          split
          · exact .ok ⟨rfl, rfl, .scalar scalar⟩
          · exact .ok ⟨rfl, rfl, .scalar fun _ => Value.noConfusion⟩
          · split
            · exact .ok ⟨rfl, rfl, .scalar scalar⟩
            · exact .error _

theorem set_alike {object object' : Instance} (className : object.className = object'.className)
    (slots : Table.Alike f.Slots object.slots object'.slots) (values : f.Values v v')
    (field : String) :
    Concur (fun o o' => o.className = o'.className ∧ Table.Alike f.Slots o.slots o'.slots)
      (object.set field v) (object'.set field v') := by
  rw [Instance.set, Instance.set, Instance.title, Instance.title, ← className]
  rcases rel_cases (Table.find_alike slots field) with
    ⟨slot, slot', has, has', same⟩ | ⟨lacks, lacks'⟩
  · rw [has, has']
    apply (assign_alike same values field).bind
    intro new new' changed
    exact .ok ⟨rfl, Table.insert_alike slots changed⟩
  · rw [lacks, lacks']
    exact .error _

theorem listSet_alike {α β : Type} {R : α → β → Prop} {items : List α} {items' : List β} {a : α}
    {b : β} (alike : List.Forall₂ R items items') (related : R a b) (position : Nat) :
    List.Forall₂ R (items.set position a) (items'.set position b) := by
  induction alike generalizing position with
  | nil => exact .nil
  | cons first rest ih =>
      cases position with
      | zero => exact .cons related rest
      | succ position => exact .cons first (ih position)

theorem write_alike {place place' : Locator} (alike : f.Heaps h h')
    (places : f.Locators place place') (values : f.Values v v') :
    Concur f.Heaps (h.write place v) (h'.write place' v') := by
  cases places with
  | @field i j name paired =>
      obtain ⟨object, object', there, there', className, slots⟩ := alike.objects paired
      simp only [Heap.write, there, there']
      apply (set_alike className slots values name).bind
      intro new new' changed
      exact .ok (put_alike alike paired rfl (.object changed.1 changed.2))
  | @key i j name paired =>
      have entries : Table.Alike f.Values ((h.body i).insert name v) ((h'.body j).insert name v') :=
        Table.insert_alike (body_alike alike paired) values
      exact .ok (put_alike alike paired rfl (.map entries))
  | @index i j position paired =>
      have items := items_alike alike paired
      simp only [Heap.write, ← items.length_eq]
      split
      · exact .ok (put_alike alike paired rfl (.array (listSet_alike items values position)))
      · exact .error _

theorem contains_alike {around around' : List Ref} (outer : List.Forall₂ f.Paired around around')
    {a b : Ref} (paired : f.Paired a b) : around.contains a = around'.contains b := by
  induction outer with
  | nil => rfl
  | @cons c d _ _ first _ ih =>
      have same : (a == c) = (b == d) := by
        rw [Bool.eq_iff_iff, beq_iff_eq, beq_iff_eq]
        exact f.same_iff paired first
      rw [List.contains_cons, List.contains_cons, same, ih]

theorem map_alike {α β γ : Type} {R : α → β → Prop} {k : α → γ} {k' : β → γ} {items : List α}
    {items' : List β} (alike : List.Forall₂ R items items') (same : ∀ a b, R a b → k a = k' b) :
    items.map k = items'.map k' := by
  rw [← List.forall₂_eq_eq_eq]
  exact List.rel_map (fun _ _ related => same _ _ related) alike

/-- What is shown tells nothing of the numbers of cells: a cycle shows as one, and nothing else. -/
theorem shownWithin_alike (alike : f.Heaps h h') (levels : Nat) {around around' : List Ref}
    (outer : List.Forall₂ f.Paired around around') (values : f.Values v v') :
    h.shownWithin levels around v = h'.shownWithin levels around' v' := by
  induction levels generalizing around around' v v' with
  | zero =>
      cases values with
      | ref paired => rw [Heap.shownWithin, Heap.shownWithin, contains_alike outer paired]
      | scalar scalar =>
          cases v with
          | ref a => exact absurd rfl (scalar a)
          | _ => simp only [Heap.shownWithin]
  | succ n ih =>
      cases values with
      | @ref a b paired =>
          obtain ⟨c, c', found, found', cells⟩ := alike a b paired
          have inside : ∀ w w', f.Values w w' →
              h.shownWithin n (a :: around) w = h'.shownWithin n (b :: around') w' :=
            fun _ _ same => ih (.cons paired outer) same
          rw [Heap.shownWithin, Heap.shownWithin, contains_alike outer paired, found, found']
          split
          · rfl
          · cases cells with
            | array items => exact congrArg Shown.list (map_alike items inside)
            | map entries =>
                refine congrArg (Shown.record none) (map_alike entries fun e e' same => ?_)
                rw [same.1, inside _ _ same.2]
            | object className slots =>
                simp only [className]
                refine congrArg (Shown.record _) (map_alike slots fun e e' same => ?_)
                rw [same.1, inside _ _ same.2.value]
      | scalar scalar =>
          cases v with
          | ref a => exact absurd rfl (scalar a)
          | _ => simp only [Heap.shownWithin]

theorem view_alike (alike : f.Heaps h h') (values : f.Values v v') (depth : Nat) :
    h.view depth v = h'.view depth v' := shownWithin_alike alike depth .nil values

end Dil.Pairing
