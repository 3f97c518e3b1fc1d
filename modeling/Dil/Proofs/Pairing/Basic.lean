import Mathlib.Data.List.Forall2
import Dil.Proofs.Heap.Cells
import Dil.Proofs.Table
import Dil.Scope

/-!
Pairings: which cells of one heap stand for which cells of another. Values correspond if they are
the same scalar or paired references, and cells if they differ in nothing but such values.
-/

namespace Dil

theorem rel_cases {α β : Type} {R : α → β → Prop} {o : Option α} {o' : Option β}
    (related : Option.Rel R o o') :
    (∃ a b, o = some a ∧ o' = some b ∧ R a b) ∨ (o = none ∧ o' = none) := by
  cases related with
  | some related => exact Or.inl ⟨_, _, rfl, rfl, related⟩
  | none => exact Or.inr ⟨rfl, rfl⟩

namespace Table

variable {α β : Type} {R S : α → β → Prop}

def Alike (R : α → β → Prop) (t : Table α) (t' : Table β) : Prop :=
  List.Forall₂ (fun e e' => e.1 = e'.1 ∧ R e.2 e'.2) t.entries t'.entries

theorem Alike.mono {t : Table α} {t' : Table β} (alike : Alike R t t')
    (weaker : ∀ a b, R a b → S a b) : Alike S t t' :=
  alike.imp fun _ _ same => ⟨same.1, weaker _ _ same.2⟩

theorem Alike.eq {R : α → α → Prop} {t t' : Table α} (alike : Alike R t t')
    (same : ∀ a b, R a b → a = b) : t = t' := by
  have entries : List.Forall₂ Eq t.entries t'.entries :=
    alike.imp fun _ _ both => Prod.ext both.1 (same _ _ both.2)
  rw [List.forall₂_eq_eq_eq] at entries
  cases t
  cases t'
  cases entries
  rfl

theorem empty_alike : Alike R (empty : Table α) (empty : Table β) := .nil

theorem lookup_alike {entries : List (String × α)} {entries' : List (String × β)}
    (alike : List.Forall₂ (fun e e' => e.1 = e'.1 ∧ R e.2 e'.2) entries entries') (key : String) :
    Option.Rel R (entries.lookup key) (entries'.lookup key) := by
  induction alike with
  | nil => exact .none
  | @cons e e' es es' same _ ih =>
      rw [List.lookup_cons, List.lookup_cons, ← same.1]
      split
      · exact .some same.2
      · exact ih

theorem find_alike {t : Table α} {t' : Table β} (alike : Alike R t t') (key : String) :
    Option.Rel R (t.find? key) (t'.find? key) := lookup_alike alike key

theorem insertInto_alike {entries : List (String × α)} {entries' : List (String × β)}
    {key : String} {a : α} {b : β} (related : R a b)
    (alike : List.Forall₂ (fun e e' => e.1 = e'.1 ∧ R e.2 e'.2) entries entries') :
    List.Forall₂ (fun e e' => e.1 = e'.1 ∧ R e.2 e'.2) (insertInto key a entries)
      (insertInto key b entries') := by
  induction alike with
  | nil => exact .cons ⟨rfl, related⟩ .nil
  | @cons e e' es es' same rest ih =>
      rw [insertInto, insertInto, ← same.1]
      split
      · exact .cons ⟨rfl, related⟩ rest
      · exact .cons same ih

theorem insert_alike {t : Table α} {t' : Table β} {key : String} {a : α} {b : β}
    (alike : Alike R t t') (related : R a b) : Alike R (t.insert key a) (t'.insert key b) :=
  insertInto_alike related alike

end Table

structure Slot.Alike (R : Value → Value → Prop) (slot slot' : Slot) : Prop where
  type : slot.type = slot'.type
  overwritable : slot.overwritable = slot'.overwritable
  value : R slot.value slot'.value

theorem Slot.Alike.mono {R S : Value → Value → Prop} {slot slot' : Slot}
    (alike : Slot.Alike R slot slot') (weaker : ∀ v v', R v v' → S v v') : Slot.Alike S slot slot' :=
  ⟨alike.type, alike.overwritable, weaker _ _ alike.value⟩

theorem Slot.eq_of_alike {slot slot' : Slot} (alike : Slot.Alike Eq slot slot') : slot = slot' := by
  cases slot
  cases slot'
  cases alike.type
  cases alike.overwritable
  cases alike.value
  rfl

def Scope.Alike (R : Value → Value → Prop) (scope scope' : Scope) : Prop :=
  ∀ name, Option.Rel R (scope.find? name) (scope'.find? name)

theorem Scope.empty_alike {R : Value → Value → Prop} : Scope.Alike R .empty .empty := fun _ => .none

theorem Scope.Alike.mono {R S : Value → Value → Prop} {scope scope' : Scope}
    (alike : Scope.Alike R scope scope') (weaker : ∀ v v', R v v' → S v v') :
    Scope.Alike S scope scope' := by
  intro name
  rcases rel_cases (alike name) with ⟨v, v', bound, bound', same⟩ | ⟨free, free'⟩
  · rw [bound, bound']
    exact .some (weaker v v' same)
  · rw [free, free']
    exact .none

/-- A partial bijection between references of the same kind. -/
structure Pairing where
  Paired : Ref → Ref → Prop
  kind {a b : Ref} : Paired a b → a.tag = b.tag
  functional {a b c : Ref} : Paired a b → Paired a c → b = c
  injective {a b c : Ref} : Paired a c → Paired b c → a = b

namespace Pairing

def empty : Pairing := ⟨fun _ _ => False, nofun, nofun, nofun⟩

def add (f : Pairing) (a b : Ref) (kind : a.tag = b.tag) (left : ∀ c, ¬ f.Paired a c)
    (right : ∀ c, ¬ f.Paired c b) : Pairing where
  Paired x y := f.Paired x y ∨ x = a ∧ y = b
  kind := by
    rintro x y (old | ⟨rfl, rfl⟩)
    · exact f.kind old
    · exact kind
  functional := by
    rintro x y z (old | ⟨rfl, rfl⟩) (old' | ⟨here, rfl⟩)
    · exact f.functional old old'
    · exact absurd (here ▸ old) (left _)
    · exact absurd old' (left _)
    · rfl
  injective := by
    rintro x y z (old | ⟨rfl, rfl⟩) (old' | ⟨rfl, here⟩)
    · exact f.injective old old'
    · exact absurd (here ▸ old) (right _)
    · exact absurd old' (right _)
    · rfl

def Within (f g : Pairing) : Prop := ∀ a b, f.Paired a b → g.Paired a b

theorem same_iff (f : Pairing) {a b c d : Ref} (first : f.Paired a c) (second : f.Paired b d) :
    a = b ↔ c = d := by
  constructor
  · rintro rfl
    exact f.functional first second
  · rintro rfl
    exact f.injective first second

inductive Values (f : Pairing) : Value → Value → Prop where
  | ref {a b : Ref} (paired : f.Paired a b) : Values f (.ref a) (.ref b)
  | scalar {v : Value} (scalar : v.Scalar) : Values f v v

abbrev Slots (f : Pairing) : Slot → Slot → Prop := Slot.Alike f.Values

abbrev Scopes (f : Pairing) : Scope → Scope → Prop := Scope.Alike f.Values

inductive Cells (f : Pairing) : Cell → Cell → Prop where
  | array {items items' : List Value} (alike : List.Forall₂ f.Values items items') :
      Cells f (.array items) (.array items')
  | map {body body' : Table Value} (alike : Table.Alike f.Values body body') :
      Cells f (.map body) (.map body')
  | object {object object' : Instance} (className : object.className = object'.className)
      (alike : Table.Alike f.Slots object.slots object'.slots) :
      Cells f (.object object) (.object object')

variable {f g : Pairing}

theorem Values.mono {v v' : Value} (alike : f.Values v v') (within : f.Within g) :
    g.Values v v' := by
  cases alike with
  | ref paired => exact .ref (within _ _ paired)
  | scalar scalar => exact .scalar scalar

theorem Slots.mono {slot slot' : Slot} (alike : f.Slots slot slot') (within : f.Within g) :
    g.Slots slot slot' := Slot.Alike.mono alike fun _ _ same => same.mono within

theorem Scopes.mono {scope scope' : Scope} (alike : f.Scopes scope scope') (within : f.Within g) :
    g.Scopes scope scope' := Scope.Alike.mono alike fun _ _ same => same.mono within

theorem Cells.mono {c c' : Cell} (alike : f.Cells c c') (within : f.Within g) : g.Cells c c' := by
  cases alike with
  | array alike => exact .array (alike.imp fun _ _ same => same.mono within)
  | map alike => exact .map (alike.mono fun _ _ same => same.mono within)
  | object className alike =>
      exact .object className (alike.mono fun _ _ same => same.mono within)

theorem Values.tag {v v' : Value} (alike : f.Values v v') : v.tag = v'.tag := by
  cases alike with
  | ref paired => exact f.kind paired
  | scalar => rfl

theorem Values.kinds {v v' : Value} (alike : f.Values v v') :
    (∃ i j, v = .ref (.array i) ∧ v' = .ref (.array j) ∧ f.Paired (.array i) (.array j)) ∨
    (∃ i j, v = .ref (.map i) ∧ v' = .ref (.map j) ∧ f.Paired (.map i) (.map j)) ∨
    (∃ i j, v = .ref (.object i) ∧ v' = .ref (.object j) ∧ f.Paired (.object i) (.object j)) ∨
    (v.Scalar ∧ v = v') := by
  cases alike with
  | @ref a b paired =>
      have kind := f.kind paired
      cases a <;> cases b <;> cases kind
      · exact Or.inl ⟨_, _, rfl, rfl, paired⟩
      · exact Or.inr (Or.inl ⟨_, _, rfl, rfl, paired⟩)
      · exact Or.inr (Or.inr (Or.inl ⟨_, _, rfl, rfl, paired⟩))
  | scalar scalar => exact Or.inr (Or.inr (Or.inr ⟨scalar, rfl⟩))

theorem Cells.tag {c c' : Cell} (alike : f.Cells c c') : c.tag = c'.tag := by
  cases alike <;> rfl

theorem Cells.parts {c c' : Cell} (alike : f.Cells c c') :
    List.Forall₂ (fun p p' => p.1 = p'.1 ∧ f.Values p.2 p'.2) c.parts c'.parts := by
  cases alike with
  | array alike =>
      exact List.rel_map (fun _ _ same => ⟨rfl, same⟩) alike
  | map alike =>
      exact List.rel_map (fun _ _ same => ⟨congrArg some same.1, same.2⟩) alike
  | object _ alike =>
      exact List.rel_map (fun _ _ same => ⟨congrArg some same.1, same.2.value⟩) alike

theorem Cells.values {c c' : Cell} (alike : f.Cells c c') :
    List.Forall₂ f.Values c.values c'.values :=
  List.rel_map (fun _ _ same => same.2) alike.parts

end Pairing

end Dil
