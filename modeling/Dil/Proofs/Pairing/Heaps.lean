import Dil.Proofs.Agreement
import Dil.Proofs.Eval.Store
import Dil.Proofs.Pairing.Basic

/-!
Heaps that correspond along a pairing. Cells outside it are arbitrary. New cells are paired with new
cells, and a paired cell is only replaced together with its partner.
-/

namespace Dil

namespace Pairing

def Heaps (f : Pairing) (h h' : Heap) : Prop :=
  ∀ a b, f.Paired a b → ∃ c c', h.cell? a = some c ∧ h'.cell? b = some c' ∧ f.Cells c c'

variable {f g : Pairing} {h h' t t' : Heap}

theorem empty_heaps (h h' : Heap) : empty.Heaps h h' := fun _ _ => nofun

theorem Heaps.left (alike : f.Heaps h h') {a b : Ref} (paired : f.Paired a b) : h.InRange a := by
  obtain ⟨_, _, found, _, _⟩ := alike a b paired
  exact Heap.cell_inRange found

theorem Heaps.right (alike : f.Heaps h h') {a b : Ref} (paired : f.Paired a b) :
    h'.InRange b := by
  obtain ⟨_, _, _, found, _⟩ := alike a b paired
  exact Heap.cell_inRange found

theorem Heaps.arrays (alike : f.Heaps h h') {i j : Nat} (paired : f.Paired (.array i) (.array j)) :
    ∃ items items', h.arrays[i]? = some items ∧ h'.arrays[j]? = some items' ∧
      List.Forall₂ f.Values items items' := by
  obtain ⟨c, c', found, found', cells⟩ := alike _ _ paired
  obtain ⟨items, there, rfl⟩ := Option.map_eq_some_iff.mp found
  obtain ⟨items', there', rfl⟩ := Option.map_eq_some_iff.mp found'
  cases cells with
  | array items => exact ⟨_, _, there, there', items⟩

theorem Heaps.maps (alike : f.Heaps h h') {i j : Nat} (paired : f.Paired (.map i) (.map j)) :
    ∃ body body', h.maps[i]? = some body ∧ h'.maps[j]? = some body' ∧
      Table.Alike f.Values body body' := by
  obtain ⟨c, c', found, found', cells⟩ := alike _ _ paired
  obtain ⟨body, there, rfl⟩ := Option.map_eq_some_iff.mp found
  obtain ⟨body', there', rfl⟩ := Option.map_eq_some_iff.mp found'
  cases cells with
  | map entries => exact ⟨_, _, there, there', entries⟩

theorem Heaps.objects (alike : f.Heaps h h') {i j : Nat}
    (paired : f.Paired (.object i) (.object j)) :
    ∃ object object', h.objects[i]? = some object ∧ h'.objects[j]? = some object' ∧
      object.className = object'.className ∧ Table.Alike f.Slots object.slots object'.slots := by
  obtain ⟨c, c', found, found', cells⟩ := alike _ _ paired
  obtain ⟨object, there, rfl⟩ := Option.map_eq_some_iff.mp found
  obtain ⟨object', there', rfl⟩ := Option.map_eq_some_iff.mp found'
  cases cells with
  | object className slots => exact ⟨_, _, there, there', className, slots⟩

/-- The pairing grew only by pairs of new cells, and no cell was lost. -/
structure Spreads (f : Pairing) (h h' : Heap) (g : Pairing) (t t' : Heap) : Prop where
  within : f.Within g
  left : ∀ a, h.InRange a → t.InRange a
  right : ∀ b, h'.InRange b → t'.InRange b
  fresh : ∀ a b, g.Paired a b → f.Paired a b ∨ ¬ h.InRange a ∧ ¬ h'.InRange b

theorem Spreads.refl (f : Pairing) (h h' : Heap) : f.Spreads h h' f h h' :=
  ⟨fun _ _ paired => paired, fun _ inside => inside, fun _ inside => inside,
    fun _ _ paired => Or.inl paired⟩

theorem Spreads.trans {e : Pairing} {r r' : Heap} (first : f.Spreads h h' g t t')
    (second : g.Spreads t t' e r r') : f.Spreads h h' e r r' where
  within a b paired := second.within a b (first.within a b paired)
  left a inside := second.left a (first.left a inside)
  right b inside := second.right b (first.right b inside)
  fresh a b paired := by
    rcases second.fresh a b paired with old | ⟨newLeft, newRight⟩
    · exact first.fresh a b old
    · exact Or.inr ⟨fun inside => newLeft (first.left a inside),
        fun inside => newRight (first.right b inside)⟩

theorem add_alike {c c' : Cell} (cells : f.Cells c c') (alike : f.Heaps h h') :
    ∃ g : Pairing, f.Spreads h h' g (h.add c).2 (h'.add c').2 ∧ g.Heaps (h.add c).2 (h'.add c').2 ∧
      g.Paired (h.add c).1 (h'.add c').1 := by
  have newLeft : ∀ b, ¬ f.Paired (h.add c).1 b := fun b paired =>
    h.add_fresh c (alike.left paired)
  have newRight : ∀ a, ¬ f.Paired a (h'.add c').1 := fun a paired =>
    h'.add_fresh c' (alike.right paired)
  have kind : (h.add c).1.tag = (h'.add c').1.tag := by
    rw [h.add_ref_tag, h'.add_ref_tag, cells.tag]
  let g := f.add _ _ kind newLeft newRight
  have within : f.Within g := fun _ _ => Or.inl
  refine ⟨g, ⟨within, ?_, ?_, ?_⟩, ?_, Or.inr ⟨rfl, rfl⟩⟩
  · exact fun a inside => (h.add_inRange c a).mpr (Or.inr inside)
  · exact fun b inside => (h'.add_inRange c' b).mpr (Or.inr inside)
  · rintro a b (old | ⟨rfl, rfl⟩)
    · exact Or.inl old
    · exact Or.inr ⟨h.add_fresh c, h'.add_fresh c'⟩
  · rintro a b (old | ⟨rfl, rfl⟩)
    · obtain ⟨d, d', found, found', same⟩ := alike a b old
      have apart : a ≠ (h.add c).1 := fun new => newLeft b (new ▸ old)
      have apart' : b ≠ (h'.add c').1 := fun new => newRight a (new ▸ old)
      refine ⟨d, d', ?_, ?_, same.mono within⟩
      · exact (h.add_cell c a).trans ((if_neg apart).trans found)
      · exact (h'.add_cell c' b).trans ((if_neg apart').trans found')
    · refine ⟨c, c', ?_, ?_, cells.mono within⟩
      · exact (h.add_cell c _).trans (if_pos rfl)
      · exact (h'.add_cell c' _).trans (if_pos rfl)

theorem put_alike {a b : Ref} {c c' : Cell} (alike : f.Heaps h h') (paired : f.Paired a b)
    (kind : c.tag = a.tag) (cells : f.Cells c c') : f.Heaps (h.put a c) (h'.put b c') := by
  obtain ⟨_, _, found, found', _⟩ := alike a b paired
  have kind' : c'.tag = b.tag := cells.tag.symm.trans (kind.trans (f.kind paired))
  intro x y other
  rw [Heap.put_cell found kind, Heap.put_cell found' kind']
  by_cases same : x = a
  · have same' : y = b := (f.same_iff other paired).mp same
    exact ⟨c, c', if_pos same, if_pos same', cells⟩
  · have apart : y ≠ b := fun same' => same ((f.same_iff other paired).mpr same')
    rw [if_neg same, if_neg apart]
    exact alike x y other

structure Stores (f : Pairing) (s s' : Store) : Prop where
  heaps : f.Heaps s.heap s'.heap
  building : s.building = s'.building

/-- The view of two stores is the pairing of their cells. -/
def likeness : Likeness EvalError Store Pairing where
  Alike := Stores
  Step f s s' g t t' := f.Spreads s.heap s'.heap g t.heap t'.heap
  Spent e s := s.heap.Exhausted e
  refl f s s' := .refl f s.heap s'.heap
  trans := Spreads.trans

section Primitives

variable {s s' : Store}

theorem alloc_alike {c c' : Cell} (cells : f.Cells c c') :
    likeness.Agree (Eval.alloc c) (Eval.alloc c') f s s' Values := by
  intro alike
  rcases Eval.alloc_cases c s with ⟨_, done⟩ | ⟨full, refused⟩
  · rcases Eval.alloc_cases c' s' with ⟨_, done'⟩ | ⟨full, refused⟩
    · obtain ⟨g, spreads, heaps, paired⟩ := add_alike cells alike.heaps
      rw [done, done']
      exact Or.inl ⟨g, spreads, ⟨heaps, alike.building⟩, .ok (.ref paired)⟩
    · rw [refused]
      exact Or.inr (Or.inr ⟨_, rfl, _, rfl, full⟩)
  · rw [refused]
    exact Or.inr (Or.inl ⟨_, rfl, _, rfl, full⟩)

theorem building_alike :
    likeness.Agree Eval.building Eval.building f s s' fun _ building building' => building = building' :=
  fun alike => Or.inl ⟨f, likeness.refl f s s', alike, .ok alike.building⟩

theorem inside_alike {α β : Type} {Q : Pairing → α → β → Prop} {className : String} {action : Eval α}
    {action' : Eval β} (agree : likeness.Agree action action' f ⟨s.heap, className :: s.building⟩
      ⟨s'.heap, className :: s'.building⟩ Q) :
    likeness.Agree (Eval.inside className action) (Eval.inside className action') f s s' Q := by
  intro alike
  rcases agree ⟨alike.heaps, congrArg (className :: ·) alike.building⟩ with ⟨g, spreads, after, concur⟩ | outs
  · exact Or.inl ⟨g, spreads, ⟨after.heaps, congrArg List.tail after.building⟩, concur⟩
  · exact Or.inr outs

end Primitives

end Pairing

end Dil
