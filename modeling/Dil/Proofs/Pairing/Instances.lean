import Dil.Proofs.Pairing.Eval
import Dil.Proofs.Session.Runs

/-!
New objects depend on the classes alone. Starting from an empty pairing, the making of an object in
two heaps pairs all that is reached from the one with all that is reached from the other, and pairs
nothing but cells that it added itself.
-/

namespace Dil

/-- What is reached from a value has a counterpart that is reached from its counterpart, in whatever
sense the values, the references and the cells correspond. -/
theorem Heap.reaches_along {h h' : Heap} {R : Ref → Ref → Prop} {V : Value → Value → Prop}
    {v v' : Value} {a : Ref} (refs : ∀ r w, V (.ref r) w → ∃ b, w = .ref b ∧ R r b)
    (cells : ∀ a b c, R a b → h.cell? a = some c →
      ∃ c', h'.cell? b = some c' ∧ List.Forall₂ V c.values c'.values)
    (values : V v v') (reaches : h.Reaches v a) : ∃ b, R a b ∧ h'.Reaches v' b := by
  induction reaches generalizing v' with
  | here r =>
      obtain ⟨b, rfl, related⟩ := refs r v' values
      exact ⟨b, related, .here b⟩
  | @part r q c w found member _ ih =>
      obtain ⟨b, rfl, related⟩ := refs r v' values
      obtain ⟨c', found', same⟩ := cells r b c related found
      obtain ⟨w', member', next⟩ := forall₂_mem same member
      obtain ⟨d, last, rest⟩ := ih next
      exact ⟨d, last, .part found' member' rest⟩

namespace Pairing

variable {f : Pairing} {h h' : Heap} {v v' : Value}

theorem reaches_right (alike : f.Heaps h h') (values : f.Values v v') {a : Ref}
    (reaches : h.Reaches v a) : ∃ b, f.Paired a b ∧ h'.Reaches v' b := by
  apply Heap.reaches_along ?_ ?_ values reaches
  · intro r w alike
    cases alike with
    | ref paired => exact ⟨_, rfl, paired⟩
    | scalar scalar => exact absurd rfl (scalar r)
  · intro a b c paired found
    obtain ⟨d, d', there, there', cells⟩ := alike a b paired
    cases found.symm.trans there
    exact ⟨d', there', cells.values⟩

theorem reaches_left (alike : f.Heaps h h') (values : f.Values v v') {b : Ref}
    (reaches : h'.Reaches v' b) : ∃ a, f.Paired a b ∧ h.Reaches v a := by
  apply Heap.reaches_along (R := fun b a => f.Paired a b) ?_ ?_
    (show flip f.Values v' v from values) reaches
  · intro r w alike
    cases alike with
    | ref paired => exact ⟨_, rfl, paired⟩
    | scalar scalar => exact absurd rfl (scalar r)
  · intro b a c' paired found
    obtain ⟨d, d', there, there', cells⟩ := alike a b paired
    cases found.symm.trans there'
    exact ⟨d, there, List.Forall₂.flip cells.values⟩

/-- From one value the same graph is reached as from the other, up to the numbers of cells. -/
structure Graphs (f : Pairing) (h h' : Heap) (v v' : Value) : Prop where
  cells : f.Heaps h h'
  roots : f.Values v v'
  right : ∀ a, h.Reaches v a → ∃ b, f.Paired a b ∧ h'.Reaches v' b
  left : ∀ b, h'.Reaches v' b → ∃ a, f.Paired a b ∧ h.Reaches v a

theorem graphs_of_heaps (alike : f.Heaps h h') (values : f.Values v v') : f.Graphs h h' v v' :=
  ⟨alike, values, fun _ => reaches_right alike values, fun _ => reaches_left alike values⟩

end Pairing

namespace Heap

theorem grows_reaches {classes : Classes} {h t : Heap} {v : Value} {r : Ref} (closed : h.Closed)
    (grows : h.Grows classes t) (held : h.Holds v) (reaches : t.Reaches v r) : h.InRange r := by
  induction reaches with
  | here r => exact (h.holds_ref r).mp held
  | part found member _ ih =>
      have inside := (h.holds_ref _).mp held
      rw [grows.cell inside] at found
      exact ih (closed _ _ found _ member)

end Heap

theorem instantiate_object (classes : Classes) (depth : Nat) (name : String) (s : Store) {v : Value}
    (made : (instantiate classes depth name s).1 = .ok v) : ∃ i, v = .ref (.object i) := by
  cases depth with
  | zero => cases made
  | succ depth =>
      rw [instantiate] at made
      cases found : classes.find? name with
      | none =>
          rw [found] at made
          cases made
      | some c =>
          simp only [found] at made
          rw [bind_of_ok _ (Eval.building_apply s)] at made
          split at made
          · cases made
          · rw [bind_apply] at made
            split at made
            · rename_i slots t _
              rcases Eval.alloc_cases (.object ⟨c.name, slots⟩) t with ⟨_, done⟩ | ⟨_, refused⟩
              · rw [done] at made
                cases made
                exact ⟨_, rfl⟩
              · rw [refused] at made
                cases made
            · cases made

namespace Session

variable {s s' : Session} {name : String} {v : Value}

def RunsOut (s : Session) (name : String) : Prop :=
  ∃ e, (s.instantiate name).1 = .error e ∧ (s.instantiate name).2.heap.Exhausted e

/-- In any two heaps with references left, all that is reached from a new object is paired, in cells
that are new. -/
theorem instantiate_paired (registry : s.classes = s'.classes) (building : s.building = s'.building)
    (room : ¬ s.RunsOut name) (room' : ¬ s'.RunsOut name) :
    ∃ f : Pairing,
      f.Heaps (s.instantiate name).2.heap (s'.instantiate name).2.heap ∧
      (∀ a b, f.Paired a b → ¬ s.heap.InRange a ∧ ¬ s'.heap.InRange b) ∧
      Concur f.Values (s.instantiate name).1 (s'.instantiate name).1 := by
  have agree := Pairing.newObject_alike s.classes name .empty s.toStore s'.toStore
  rw [RunsOut, instantiate] at room room'
  rw [instantiate, instantiate, ← registry]
  rw [← registry] at room'
  rcases agree ⟨Pairing.empty_heaps _ _, building⟩ with ⟨f, spreads, after, concur⟩ | out | out
  · refine ⟨f, after.heaps, ?_, concur⟩
    intro a b paired
    rcases spreads.fresh a b paired with never | fresh
    · cases never
    · exact fresh
  · exact absurd out room
  · exact absurd out room'

/-- All that is reached from a new object was added for it, so that it shares nothing with what was
there before, nor with an object that is made later. -/
structure NewApart (s : Session) (name : String) (v : Value) : Prop where
  fresh : ∀ r, (s.instantiate name).2.heap.Reaches v r →
    ¬ s.heap.InRange r ∧ (s.instantiate name).2.heap.InRange r
  before : ∀ w, s.heap.Holds w → ∀ r, (s.instantiate name).2.heap.Reaches w r →
    ¬ (s.instantiate name).2.heap.Reaches v r
  later : ∀ other w, ((s.instantiate name).2.instantiate other).1 = .ok w →
    ∀ r, ((s.instantiate name).2.instantiate other).2.heap.Reaches v r →
      ¬ ((s.instantiate name).2.instantiate other).2.heap.Reaches w r

theorem not_runsOut (made : (s.instantiate name).1 = .ok v) : ¬ s.RunsOut name := by
  rintro ⟨e, failed, _⟩
  rw [made] at failed
  cases failed

theorem instance_fresh (made : (s.instantiate name).1 = .ok v) {r : Ref}
    (reaches : (s.instantiate name).2.heap.Reaches v r) :
    ¬ s.heap.InRange r ∧ (s.instantiate name).2.heap.InRange r := by
  have room := not_runsOut made
  obtain ⟨f, heaps, fresh, concur⟩ := instantiate_paired (s := s) rfl rfl room room
  rw [made] at concur
  cases concur with
  | ok related =>
      obtain ⟨b, paired, _⟩ := Pairing.reaches_right heaps related reaches
      exact ⟨(fresh r b paired).1, heaps.left paired⟩

theorem instance_apart (good : s.WellFormed) (made : (s.instantiate name).1 = .ok v) {w : Value}
    (held : s.heap.Holds w) {r : Ref} (old : (s.instantiate name).2.heap.Reaches w r) :
    ¬ (s.instantiate name).2.heap.Reaches v r := by
  intro reaches
  have grows := (newObject_grows s.classes name s.toStore good.cells).1.1
  exact (instance_fresh made reaches).1 (Heap.grows_reaches good.cells grows held old)

theorem instance_newApart (good : s.WellFormed) (made : (s.instantiate name).1 = .ok v) :
    s.NewApart name v where
  fresh _ reaches := instance_fresh made reaches
  before _ held _ old := instance_apart good made held old
  later other w next r old := by
    obtain ⟨moves, held⟩ := instantiate_session good name
    exact instance_apart (moves_wellFormed moves good) next (held v made) old

/-- The classes decide alone whether an object of a class can be made, and which: in any two
sessions with the same classes in which the same objects are being made, such as none, it fails alike, or
the new objects are alike, unless the references run out in one of them. Where one is made, it is apart
from all else. -/
theorem instances_isomorphic_and_apart {s s' : Session} (good : s.WellFormed)
    (good' : s'.WellFormed) (registry : s.classes = s'.classes) (building : s.building = s'.building)
    (name : String) (room : ¬ s.RunsOut name) (room' : ¬ s'.RunsOut name) :
    (∃ e, (s.instantiate name).1 = .error e ∧ (s'.instantiate name).1 = .error e) ∨
    ∃ i j, (s.instantiate name).1 = .ok (.ref (.object i)) ∧
      (s'.instantiate name).1 = .ok (.ref (.object j)) ∧
      (∃ f : Pairing, f.Graphs (s.instantiate name).2.heap (s'.instantiate name).2.heap
        (.ref (.object i)) (.ref (.object j))) ∧
      s.NewApart name (.ref (.object i)) ∧ s'.NewApart name (.ref (.object j)) := by
  obtain ⟨f, heaps, _, concur⟩ := instantiate_paired registry building room room'
  rcases concur.elim with failed | ⟨v, v', made, made', related⟩
  · exact Or.inl failed
  · obtain ⟨i, rfl⟩ := instantiate_object s.classes (s.classes.size + 1) name s.toStore made
    obtain ⟨j, rfl⟩ := instantiate_object s'.classes (s'.classes.size + 1) name s'.toStore made'
    right
    refine ⟨i, j, made, made', ⟨f, Pairing.graphs_of_heaps heaps related⟩, ?_, ?_⟩
    · exact instance_newApart good made
    · exact instance_newApart good' made'

def nestedClass : Stmt :=
  .declare ⟨0, 30⟩ ⟨⟨"C", ⟨6, 7⟩⟩,
    [⟨⟨"x", ⟨10, 11⟩⟩, .array ⟨14, 18⟩ [.array ⟨15, 17⟩ []], none, false, ⟨10, 19⟩⟩], ⟨0, 30⟩⟩

def bareSession : Session := (new.run 1 (.accepting 2) ⟨[nestedClass], ⟨0, 30⟩⟩).session

def filledSession : Session :=
  (new.run 1 (.accepting 2) ⟨[nestedClass,
    .bind ⟨31, 46⟩ ⟨"a", ⟨35, 36⟩⟩ (.array ⟨39, 45⟩ [.null ⟨40, 44⟩])], ⟨0, 46⟩⟩).session

theorem nested_instances_isomorphic :
    (bareSession.instantiate "C").2.heap.cell? (.array 1) = some (.array [.ref (.array 0)]) ∧
    (filledSession.instantiate "C").2.heap.cell? (.array 2) = some (.array [.ref (.array 1)]) ∧
    ∃ f : Pairing, f.Graphs (bareSession.instantiate "C").2.heap
      (filledSession.instantiate "C").2.heap (.ref (.object 0)) (.ref (.object 0)) := by
  have bare : (bareSession.instantiate "C").1 = .ok (.ref (.object 0)) := rfl
  have filled : (filledSession.instantiate "C").1 = .ok (.ref (.object 0)) := rfl
  have reached : bareSession.Reached := .run .new 1 (.accepting 2) _
  have reached' : filledSession.Reached := .run .new 1 (.accepting 2) _
  refine ⟨rfl, rfl, ?_⟩
  rcases instances_isomorphic_and_apart (reached_moves reached).2 (reached_moves reached').2 rfl rfl "C"
    (not_runsOut bare) (not_runsOut filled) with ⟨e, failed, _⟩ | ⟨i, j, made, made', graphs, _, _⟩
  · rw [bare] at failed
    cases failed
  · cases bare.symm.trans made
    cases filled.symm.trans made'
    exact graphs

end Session

end Dil
