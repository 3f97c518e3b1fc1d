import Dil.Proofs.Eval.Store
import Dil.Proofs.Heap.Growth
import Dil.Proofs.Syntax.Mentions
import Dil.Proofs.Value.Results

/-!
What holds along every evaluation, from what holds of the few steps that touch the heap: a new cell
with values that were found before, and a value read at the end of a path. The induction over
expressions, and the one over the objects inside of objects, are made once and here, and with them it
is settled that each object whose making was begun is done with afterwards, also when it failed.
-/

namespace Dil

/-- The heap takes steps, and the objects being made are the same ones after them as before. -/
def Regime.balanced (R : Regime Heap) : Regime Store where
  Good s := R.Good s.heap
  Step s t := R.Step s.heap t.heap ∧ t.building = s.building
  refl s := ⟨R.refl s.heap, rfl⟩
  trans first second := ⟨R.trans first.1 second.1, second.2.trans first.2⟩
  keep step good := R.keep step.1 good

/-- From a good heap the evaluation only lets the heap take steps, and a result that it gives satisfies
`Q` in the heap after it. -/
abbrev Regime.Yields {α : Type} (R : Regime Heap) (action : Eval α) (s : Store)
    (Q : α → Heap → Prop) : Prop :=
  R.balanced.Meets action s fun a t => Q a t.heap

def Regime.Admits (R : Regime Heap) (V : Value → Heap → Prop) (c : Cell) (h : Heap) : Prop :=
  R.Good h → ¬ h.Full c.tag → R.Step h (h.add c).2 ∧ V (.ref (h.add c).1) (h.add c).2

variable {R : Regime Heap} {V : Value → Heap → Prop} {P : String → Prop} {s : Store}

section Primitives

variable {α : Type} {Q : α → Heap → Prop}

theorem pureResult_meets (r : Except EvalError α) (result : ∀ a, r = .ok a → Q a s.heap) :
    R.Yields (Eval.pureResult r) s Q :=
  fun _ => ⟨R.balanced.refl s, result⟩

theorem look_meets (f : Heap → Except EvalError α)
    (result : R.Good s.heap → ∀ a, f s.heap = .ok a → Q a s.heap) :
    R.Yields (Eval.look f) s Q :=
  fun good => ⟨R.balanced.refl s, result good⟩

theorem alloc_meets {c : Cell} (admits : R.Admits V c s.heap) :
    R.Yields (Eval.alloc c) s V := by
  intro good
  rcases Eval.alloc_cases c s with ⟨room, done⟩ | ⟨_, refused⟩
  · obtain ⟨step, holds⟩ := admits good room
    rw [done]
    refine ⟨⟨step, rfl⟩, ?_⟩
    rintro _ ⟨⟩
    exact holds
  · rw [refused]
    exact ⟨R.balanced.refl s, nofun⟩

/-- What is put onto the list before an action is what is taken off it after the action. -/
theorem inside_meets {className : String} {action : Eval α}
    (met : R.Yields action ⟨s.heap, className :: s.building⟩ Q) :
    R.Yields (Eval.inside className action) s Q := by
  intro good
  obtain ⟨⟨step, same⟩, result⟩ := met good
  exact ⟨⟨step, congrArg List.tail same⟩, result⟩

end Primitives

theorem find_of_resolve {scope : Scope} {name : String} {v : Value}
    (resolved : scope.resolve name = .ok v) : scope.find? name = some v := by
  unfold Scope.resolve at resolved
  split at resolved <;> cases resolved
  assumption

theorem value_of_resolve {scope : Scope} {name : String} {v : Value}
    (resolved : scope.resolve name = .ok v) : v ∈ scope.values :=
  Table.value_of_find (find_of_resolve resolved)

/-- What `V` says of values survives steps and says nothing of scalars. Cells may be made from values
that satisfy it, and maps with keys that satisfy `P`; reading along a path gives such values again. -/
structure Eval.Rules (R : Regime Heap) (P : String → Prop) (V : Value → Heap → Prop) : Prop where
  keep {v : Value} {h t : Heap} : R.Step h t → V v h → V v t
  scalar {v : Value} (h : Heap) : v.Scalar → V v h
  array {items : List Value} {h : Heap} : (∀ v ∈ items, V v h) → R.Admits V (.array items) h
  map {body : Table Value} {h : Heap} : (∀ v ∈ body.values, V v h) → (∀ key ∈ body.keys, P key) →
    R.Admits V (.map body) h
  get {root v : Value} {steps : List Step} {h : Heap} : R.Good h → V root h →
    h.get root steps = .ok v → V v h

section Expressions

variable {create : String → Eval Value} {scope : Scope}

theorem Eval.Rules.keepAll (rules : Eval.Rules R P V) {h t : Heap} (step : R.Step h t)
    {vs : List Value} (held : ∀ v ∈ vs, V v h) : ∀ v ∈ vs, V v t :=
  fun v member => rules.keep step (held v member)

theorem Eval.Rules.cast (rules : Eval.Rules R P V) {v : Value} {t : Tag} (held : V v s.heap) :
    R.Yields (Eval.pureResult (v.cast t)) s fun w h => w.tag = t ∧ V w h := by
  apply pureResult_meets
  intro w cast
  refine ⟨Value.cast_tag cast, ?_⟩
  rcases Value.cast_cases cast with rfl | scalar
  · exact held
  · exact rules.scalar s.heap scalar

mutual

theorem eval_meets (rules : Eval.Rules R P V) (maker : ∀ name s, R.Yields (create name) s V) :
    ∀ (e : Expr) (s : Store), (∀ key ∈ e.keys, P key) → (∀ v ∈ scope.values, V v s.heap) →
    R.Yields (eval create scope e) s V
  | .null _, s, _, _ | .bool _ _, s, _, _ | .int _ _, s, _, _ | .float _ _, s, _, _
  | .str _ _, s, _, _ => by
      rw [eval]
      exact .pure _ (rules.scalar s.heap fun _ => Value.noConfusion)
  | .map _ entries, s, keys, bound => by
      rw [eval]
      apply (evalEntries_meets rules maker entries s .empty keys bound (List.forall_mem_nil _)
        (List.forall_mem_nil P)).bind
      rintro body t _ ⟨held, named⟩
      exact alloc_meets (rules.map held named)
  | .array _ items, s, keys, bound => by
      rw [eval]
      apply (evalItems_meets rules maker items s keys bound).bind
      intro values t _ held
      exact alloc_meets (rules.array held)
  | .create _ className, s, _, _ => by
      rw [eval]
      exact maker className.name s
  | .var _ name, s, _, bound => by
      rw [eval]
      exact pureResult_meets _ fun v resolved => bound v (value_of_resolve resolved)
  | .path _ base segments, s, keys, bound => by
      rw [Expr.keys, List.forall_mem_append] at keys
      rw [eval]
      apply (eval_meets rules maker base s keys.1 bound).bind
      intro root t first held
      apply (evalSegments_meets rules maker segments t keys.2 (rules.keepAll first.1 bound)).bind
      intro steps u second _
      exact look_meets _ fun good v got => rules.get good (rules.keep second.1 held) got
  | .binary _ op left right, s, keys, bound => by
      rw [Expr.keys, List.forall_mem_append] at keys
      rw [eval]
      apply (eval_meets rules maker left s keys.1 bound).bind
      intro l t first _
      split
      · rename_i v taken
        exact .pure v (rules.scalar t.heap (Value.shortcut_scalar taken))
      · apply (eval_meets rules maker right t keys.2 (rules.keepAll first.1 bound)).bind
        intro r u _ _
        exact pureResult_meets _ fun v done => rules.scalar u.heap (Value.operate_scalar done)
  | .unary _ op operand, s, keys, bound => by
      rw [eval]
      apply (eval_meets rules maker operand s keys bound).bind
      intro v t _ _
      exact pureResult_meets _ fun w done => rules.scalar t.heap (Value.operateUnary_scalar done)
  | .cast _ value target, s, keys, bound => by
      rw [eval]
      apply (eval_meets rules maker value s keys bound).bind
      intro v t _ held
      exact (rules.cast held).mono fun w u _ cast => cast.2
  | .paren _ inner, s, keys, bound => by
      rw [eval]
      exact eval_meets rules maker inner s keys bound

theorem evalItems_meets (rules : Eval.Rules R P V) (maker : ∀ name s, R.Yields (create name) s V) :
    ∀ (items : List Expr) (s : Store), (∀ key ∈ Expr.itemKeys items, P key) →
    (∀ v ∈ scope.values, V v s.heap) →
    R.Yields (evalItems create scope items) s fun vs t => ∀ v ∈ vs, V v t
  | [], s, _, _ => by
      rw [evalItems]
      exact .pure [] (List.forall_mem_nil _)
  | e :: es, s, keys, bound => by
      rw [Expr.itemKeys, List.forall_mem_append] at keys
      rw [evalItems]
      apply (eval_meets rules maker e s keys.1 bound).bind
      intro v t first held
      apply (evalItems_meets rules maker es t keys.2 (rules.keepAll first.1 bound)).bind
      intro vs u second rest
      exact .pure _ (List.forall_mem_cons.mpr ⟨rules.keep second.1 held, rest⟩)

theorem evalEntries_meets (rules : Eval.Rules R P V) (maker : ∀ name s, R.Yields (create name) s V) :
    ∀ (entries : List Entry) (s : Store) (body : Table Value),
    (∀ key ∈ Expr.entryKeys entries, P key) → (∀ v ∈ scope.values, V v s.heap) →
    (∀ v ∈ body.values, V v s.heap) → (∀ key ∈ body.keys, P key) →
    R.Yields (evalEntries create scope entries body) s
      fun b t => (∀ v ∈ b.values, V v t) ∧ ∀ key ∈ b.keys, P key
  | [], s, body, _, _, before, named => by
      rw [evalEntries]
      exact .pure body ⟨before, named⟩
  | .mk key value :: es, s, body, keys, bound, before, named => by
      rw [Expr.entryKeys, List.forall_mem_cons, List.forall_mem_append] at keys
      rw [evalEntries]
      apply (eval_meets rules maker value s keys.2.1 bound).bind
      intro v t first held
      apply evalEntries_meets rules maker es t _ keys.2.2 (rules.keepAll first.1 bound) ?_
        (Table.keys_of_insert named keys.1)
      intro w member
      rcases Table.value_of_insert member with rfl | old
      · exact held
      · exact rules.keep first.1 (before w old)

theorem evalSegments_meets (rules : Eval.Rules R P V)
    (maker : ∀ name s, R.Yields (create name) s V) : ∀ (segments : List Segment) (s : Store),
    (∀ key ∈ Expr.segmentKeys segments, P key) → (∀ v ∈ scope.values, V v s.heap) →
    R.Yields (evalSegments create scope segments) s
      fun steps _ => ∀ name, Step.field name ∈ steps → name ∈ pathFields segments
  | [], s, _, _ => by
      rw [evalSegments]
      exact .pure [] nofun
  | .field name :: ss, s, keys, bound => by
      rw [evalSegments]
      apply (evalSegments_meets rules maker ss s keys bound).bind
      intro steps t _ named
      refine .pure _ fun other member => ?_
      rw [List.mem_cons, Step.field.injEq] at member
      exact List.mem_cons.mpr (member.imp id (named other))
  | .index position :: ss, s, keys, bound => by
      rw [Expr.segmentKeys, List.forall_mem_append] at keys
      rw [evalSegments]
      apply (eval_meets rules maker position s keys.1 bound).bind
      intro v t first _
      apply (pureResult_meets (Q := fun _ _ => True) v.toIndex fun _ _ => trivial).bind
      intro i u second _
      have bound := rules.keepAll second.1 (rules.keepAll first.1 bound)
      apply (evalSegments_meets rules maker ss u keys.2 bound).bind
      intro steps _ _ named
      refine .pure _ fun other member => ?_
      exact named other (by simpa using member)

end

theorem newSlot_meets (rules : Eval.Rules R P V) (maker : ∀ name s, R.Yields (create name) s V)
    (f : FieldDef) (s : Store) (keys : ∀ key ∈ f.value.keys, P key) :
    R.Yields (newSlot create f) s fun slot t => slot.Fits f ∧ V slot.value t := by
  rw [newSlot]
  apply (eval_meets rules maker f.value s keys (List.forall_mem_nil _)).bind
  intro v t _ held
  cases declared : f.type with
  | none => exact .pure _ ⟨⟨rfl, fun _ => declared.symm, fun _ => nofun⟩, held⟩
  | some tag =>
      apply (rules.cast held).bind
      rintro w u _ ⟨fits, held⟩
      refine .pure _ ⟨⟨rfl, fun _ => declared.symm, ?_⟩, held⟩
      rintro _ ⟨⟩
      exact fits

/-- The new slots stand behind the old ones, one for each definition, because no two definitions
have one name. -/
theorem newSlots_meets (rules : Eval.Rules R P V) (maker : ∀ name s, R.Yields (create name) s V)
    (fields : List FieldDef) (s : Store) (body : Table Slot)
    (distinct : (body.keys ++ fields.map FieldDef.name).Nodup)
    (keys : ∀ f ∈ fields, ∀ key ∈ f.value.keys, P key)
    (before : ∀ v ∈ body.values.map Slot.value, V v s.heap) :
    R.Yields (newSlots create fields body) s fun slots t =>
      (∃ added, slots.entries = body.entries ++ added ∧
        List.Forall₂ (fun e f => e.1 = f.name ∧ e.2.Fits f) added fields) ∧
      ∀ v ∈ slots.values.map Slot.value, V v t := by
  induction fields generalizing s body with
  | nil =>
      rw [newSlots]
      exact .pure body ⟨⟨[], by simp, .nil⟩, before⟩
  | cons f fs ih =>
      rw [List.forall_mem_cons] at keys
      rw [newSlots]
      apply (newSlot_meets rules maker f s keys.1).bind
      rintro slot t first ⟨fits, held⟩
      have absent : f.name ∉ body.keys := by
        intro present
        exact (List.nodup_append.mp distinct).2.2 _ present _ List.mem_cons_self rfl
      have grown : (body.insert f.name slot).keys = body.keys ++ [f.name] := by
        simp [Table.keys, Table.insert_absent slot absent]
      apply (ih t (body.insert f.name slot) (by simpa [grown] using distinct) keys.2 ?_).mono
      · rintro slots u _ ⟨⟨added, split, fit⟩, all⟩
        refine ⟨⟨(f.name, slot) :: added, ?_, .cons ⟨rfl, fits⟩ fit⟩, all⟩
        rw [split, Table.insert_absent slot absent, List.append_assoc]
        rfl
      · intro v member
        obtain ⟨other, inside, rfl⟩ := List.mem_map.mp member
        rcases Table.value_of_insert inside with rfl | old
        · exact held
        · exact rules.keep first.1 (before _ (List.mem_map.mpr ⟨other, old, rfl⟩))

end Expressions

/-- An object of a registered class may be made from slots as the class has them. -/
def Eval.ObjectRule (R : Regime Heap) (V : Value → Heap → Prop) (classes : Classes) : Prop :=
  ∀ {name c object h}, classes.find? name = some c → object.Conforms c →
    (∀ v ∈ object.slots.values.map Slot.value, V v h) → R.Admits V (.object object) h

section Objects

variable {classes : Classes}

theorem building_meets : R.Yields Eval.building s fun _ _ => True :=
  fun _ => ⟨R.balanced.refl s, fun _ _ => trivial⟩

theorem instantiate_meets (rules : Eval.Rules R P V) (made : Eval.ObjectRule R V classes)
    (known : ∀ c ∈ classes.values, ∀ f ∈ c.fields, ∀ key ∈ f.value.keys, P key) (depth : Nat) :
    ∀ name s, R.Yields (instantiate classes depth name) s V := by
  induction depth with
  | zero =>
      intro name s
      exact .throw _
  | succ depth ih =>
      intro name s
      rw [instantiate]
      split
      · exact .throw _
      · rename_i c found
        apply building_meets.bind
        intro building t _ _
        split
        · exact .throw _
        · have keys := known c (Table.value_of_find found)
          have slots := newSlots_meets rules ih c.fields ⟨t.heap, name :: t.building⟩ .empty c.distinct
            keys (List.forall_mem_nil _)
          apply (inside_meets slots).bind
          rintro slots u _ ⟨⟨added, split, fit⟩, held⟩
          refine alloc_meets (made found ⟨rfl, ?_⟩ held)
          rw [split]
          exact fit

end Objects

end Dil
