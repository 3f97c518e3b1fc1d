import Dil.Proofs.Eval.Store
import Dil.Proofs.Regime

/-!
Which errors an evaluation can raise. An operation on values never finds a circle of classes, and no
evaluation asks for a boolean or for a collection: only the statements around it do.
-/

namespace Dil

namespace EvalError

/-- A statement wants a boolean or a collection and has got something else. -/
@[simp] def isMisuse : EvalError → Bool
  | .nonBooleanCondition _ | .notIterable _ => true
  | _ => false

@[simp] def isOrdinary : EvalError → Bool
  | .circularInstantiation _ | .nonBooleanCondition _ | .notIterable _ | .heapExhausted _ => false
  | _ => true

theorem isMisuse_of_isOrdinary {e : EvalError} (ordinary : e.isOrdinary = true) : e.isMisuse = false := by
  cases e <;> first | rfl | cases ordinary

end EvalError

def Ordinary {α : Type} (r : Except EvalError α) : Prop :=
  ∀ e, r = .error e → e.isOrdinary = true

section Ordinary

variable {α β : Type}

@[simp] theorem ordinary_ok (a : α) : Ordinary (.ok a : Except EvalError α) := nofun

@[simp] theorem ordinary_error {e : EvalError} :
    Ordinary (.error e : Except EvalError α) ↔ e.isOrdinary = true :=
  ⟨fun ordinary => ordinary e rfl, by rintro ordinary _ ⟨⟩; exact ordinary⟩

theorem Ordinary.bind {r : Except EvalError α} {k : α → Except EvalError β}
    (first : Ordinary r) (second : ∀ a, Ordinary (k a)) : Ordinary (r >>= k) := by
  cases r with
  | ok a => exact second a
  | error e => exact ordinary_error.mpr (first e rfl)

theorem Ordinary.map {r : Except EvalError α} (ordinary : Ordinary r) (f : α → β) :
    Ordinary (r.map f) := by
  cases r with
  | ok a => exact ordinary_ok (f a)
  | error e => exact ordinary_error.mpr (ordinary e rfl)

theorem resolve_ordinary (scope : Scope) (name : String) : Ordinary (scope.resolve name) := by
  unfold Scope.resolve
  split <;> simp

theorem elementAt_ordinary (items : List α) (position : Int64) :
    Ordinary (Heap.elementAt items position) := by
  unfold Heap.elementAt
  simp only
  split <;> simp

theorem step_ordinary (h : Heap) (v : Value) (s : Step) : Ordinary (h.step v s) := by
  unfold Heap.step Heap.missing
  split
  · split <;> simp
  · split <;> simp
  · exact (elementAt_ordinary _ _).map _
  · exact (elementAt_ordinary _ _).map _
  · simp

theorem get_ordinary (h : Heap) (v : Value) (steps : List Step) : Ordinary (h.get v steps) := by
  induction steps generalizing v with
  | nil => exact ordinary_ok v
  | cons s ss ih => exact (step_ordinary h v s).bind ih

theorem cast_ordinary (v : Value) (t : Tag) : Ordinary (v.cast t) := by
  unfold Value.cast
  split
  · simp
  · split <;> simp

theorem toIndex_ordinary (v : Value) : Ordinary v.toIndex := by
  have ordinary := cast_ordinary v .int
  unfold Value.toIndex
  split
  · simp
  · simp
  · rename_i e failed
    exact ordinary_error.mpr (ordinary e failed)

theorem arithmetic_ordinary (op : BinaryOp) (l r : Value) : Ordinary (Value.arithmetic op l r) := by
  unfold Value.arithmetic Value.unsupported
  split
  · split <;> simp
  all_goals simp

theorem operate_ordinary (op : BinaryOp) (l r : Value) : Ordinary (Value.operate op l r) := by
  have addition : Ordinary (Value.addition l r) := by
    unfold Value.addition Value.unsupported
    split
    · split <;> simp
    · split <;> simp
    · exact arithmetic_ordinary .add _ _
  have division (op : BinaryOp) : Ordinary (Value.division op l r) := by
    unfold Value.division
    split
    · simp
    · exact arithmetic_ordinary op l r
  have comparison (op : BinaryOp) (test : Ordering → Bool) :
      Ordinary (Value.comparison op test l r) := by
    unfold Value.comparison Value.unsupported
    split <;> simp
  have logic (op : BinaryOp) (onBools : Bool → Bool → Bool)
      (onInts : Option (Int64 → Int64 → Int64)) : Ordinary (Value.logic op onBools onInts l r) := by
    unfold Value.logic Value.unsupported
    split <;> simp
  cases op with
  | add => exact addition
  | sub | mul => exact arithmetic_ordinary _ l r
  | div | mod => exact division _
  | eq | ne => exact ordinary_ok _
  | lt | le | gt | ge => exact comparison _ _
  | and | or | bitAnd | bitOr => exact logic _ _ _

theorem operateUnary_ordinary (op : UnaryOp) (v : Value) : Ordinary (Value.operateUnary op v) := by
  unfold Value.operateUnary
  split
  · split <;> simp
  all_goals simp

theorem place_ordinary (h : Heap) (v : Value) (s : Step) : Ordinary (h.place v s) := by
  unfold Heap.place Heap.missing
  split
  · split <;> simp
  · simp
  · exact (elementAt_ordinary _ _).map _
  · simp

theorem locate_ordinary (h : Heap) (v : Value) (steps : List Step) : Ordinary (h.locate v steps) := by
  induction steps generalizing v with
  | nil => simp [Heap.locate, Heap.missing]
  | cons s ss ih =>
      cases ss with
      | nil => exact place_ordinary h v s
      | cons s' ss => exact (step_ordinary h v s).bind ih

theorem assign_ordinary (slot : Slot) (name : String) (v : Value) : Ordinary (slot.assign name v) := by
  unfold Slot.assign
  split
  · simp
  · split
    · simp
    · simp
    · split <;> simp

theorem set_ordinary (object : Instance) (name : String) (v : Value) : Ordinary (object.set name v) := by
  unfold Instance.set
  split
  · exact (assign_ordinary _ name v).bind fun _ => ordinary_ok _
  · simp

theorem write_ordinary (h : Heap) (place : Locator) (v : Value) : Ordinary (h.write place v) := by
  unfold Heap.write
  split
  · split
    · exact (set_ordinary _ _ v).bind fun _ => ordinary_ok _
    · simp
  · simp
  · simp only
    split <;> simp

theorem rebind_ordinary (scope : Scope) (name : String) (v : Value) : Ordinary (scope.rebind name v) := by
  unfold Scope.rebind
  split <;> simp

theorem ofDecl_ordinary (d : ClassDecl) : Ordinary (ClassDef.ofDecl d) := by
  unfold ClassDef.ofDecl
  split <;> simp

theorem declare_ordinary (classes : Classes) (c : ClassDef) : Ordinary (classes.declare c) := by
  unfold Classes.declare
  split <;> simp

end Ordinary

/-- An evaluation that asks neither for a boolean nor for a collection. -/
def Eval.Undemanding {α : Type} (action : Eval α) : Prop :=
  ∀ s e, (action s).1 = .error e → e.isMisuse = false

section Undemanding

variable {create : String → Eval Value} {scope : Scope} {α β : Type}

theorem undemanding_pure (a : α) : Eval.Undemanding (pure a : Eval α) := nofun

theorem undemanding_alloc (c : Cell) : Eval.Undemanding (Eval.alloc c) := by
  intro s e failed
  rcases Eval.alloc_cases c s with ⟨_, done⟩ | ⟨_, refused⟩
  · rw [done] at failed
    cases failed
  · rw [refused] at failed
    cases failed
    rfl

theorem undemanding_building : Eval.Undemanding Eval.building := nofun

theorem Eval.Undemanding.inside {action : Eval α} (undemanding : action.Undemanding)
    (className : String) : Eval.Undemanding (Eval.inside className action) :=
  fun s => undemanding ⟨s.heap, className :: s.building⟩

theorem undemanding_look {f : Heap → Except EvalError α} (ordinary : ∀ h, Ordinary (f h)) :
    Eval.Undemanding (Eval.look f) :=
  fun s e failed => EvalError.isMisuse_of_isOrdinary (ordinary s.heap e failed)

theorem undemanding_result {r : Except EvalError α} (ordinary : Ordinary r) :
    Eval.Undemanding (Eval.pureResult r) := undemanding_look fun _ => ordinary

theorem undemanding_throw {e : EvalError} (proper : e.isMisuse = false) :
    Eval.Undemanding (throw e : Eval α) := by
  rintro h _ ⟨⟩
  exact proper

theorem Eval.Undemanding.bind {m : Eval α} {k : α → Eval β} (first : m.Undemanding)
    (second : ∀ a, (k a).Undemanding) : Eval.Undemanding (m >>= k) := by
  intro s e failed
  rw [bind_apply] at failed
  rcases run : m s with ⟨e' | a, t⟩
  · rw [run] at failed
    cases failed
    exact first s e (by rw [run])
  · rw [run] at failed
    exact second a t e failed

mutual

theorem eval_undemanding (making : ∀ name, (create name).Undemanding) : ∀ e : Expr,
    (eval create scope e).Undemanding
  | .null _ | .bool _ _ | .int _ _ | .float _ _ | .str _ _ => by
      rw [eval]
      exact undemanding_pure _
  | .map _ entries => by
      rw [eval]
      exact (evalEntries_undemanding making entries .empty).bind fun body => undemanding_alloc _
  | .array _ items => by
      rw [eval]
      exact (evalItems_undemanding making items).bind fun values => undemanding_alloc _
  | .create _ className => by
      rw [eval]
      exact making className.name
  | .var _ name => by
      rw [eval]
      exact undemanding_result (resolve_ordinary scope name)
  | .path _ base segments => by
      rw [eval]
      refine (eval_undemanding making base).bind fun root => ?_
      exact (evalSegments_undemanding making segments).bind fun steps =>
        undemanding_look fun h => get_ordinary h root steps
  | .binary _ op left right => by
      rw [eval]
      refine (eval_undemanding making left).bind fun l => ?_
      split
      · exact undemanding_pure _
      · exact (eval_undemanding making right).bind fun r => undemanding_result (operate_ordinary op l r)
  | .unary _ op operand => by
      rw [eval]
      exact (eval_undemanding making operand).bind fun v => undemanding_result (operateUnary_ordinary op v)
  | .cast _ value target => by
      rw [eval]
      exact (eval_undemanding making value).bind fun v => undemanding_result (cast_ordinary v target.tag)
  | .paren _ inner => by
      rw [eval]
      exact eval_undemanding making inner

theorem evalItems_undemanding (making : ∀ name, (create name).Undemanding) : ∀ items : List Expr,
    (evalItems create scope items).Undemanding
  | [] => by
      rw [evalItems]
      exact undemanding_pure _
  | e :: es => by
      rw [evalItems]
      exact (eval_undemanding making e).bind fun v => (evalItems_undemanding making es).bind fun vs =>
        undemanding_pure _

theorem evalEntries_undemanding (making : ∀ name, (create name).Undemanding) :
    ∀ (entries : List Entry) (body : Table Value), (evalEntries create scope entries body).Undemanding
  | [], body => by
      rw [evalEntries]
      exact undemanding_pure body
  | .mk key value :: es, body => by
      rw [evalEntries]
      exact (eval_undemanding making value).bind fun v =>
        evalEntries_undemanding making es (body.insert key.name v)

theorem evalSegments_undemanding (making : ∀ name, (create name).Undemanding) :
    ∀ segments : List Segment, (evalSegments create scope segments).Undemanding
  | [] => by
      rw [evalSegments]
      exact undemanding_pure _
  | .field name :: ss => by
      rw [evalSegments]
      exact (evalSegments_undemanding making ss).bind fun steps => undemanding_pure _
  | .index position :: ss => by
      rw [evalSegments]
      refine (eval_undemanding making position).bind fun v => ?_
      refine (undemanding_result (toIndex_ordinary v)).bind fun i => ?_
      exact (evalSegments_undemanding making ss).bind fun steps => undemanding_pure _

end

theorem newSlot_undemanding (making : ∀ name, (create name).Undemanding) (f : FieldDef) :
    (newSlot create f).Undemanding := by
  rw [newSlot]
  refine (eval_undemanding making f.value).bind fun v => ?_
  cases f.type with
  | none => exact undemanding_pure _
  | some t => exact (undemanding_result (cast_ordinary v t)).bind fun w => undemanding_pure _

theorem newSlots_undemanding (making : ∀ name, (create name).Undemanding) (fields : List FieldDef)
    (body : Table Slot) : (newSlots create fields body).Undemanding := by
  induction fields generalizing body with
  | nil => exact undemanding_pure body
  | cons f fs ih =>
      rw [newSlots]
      exact (newSlot_undemanding making f).bind fun slot => ih (body.insert f.name slot)

theorem instantiate_undemanding (classes : Classes) (depth : Nat) (name : String) :
    (instantiate classes depth name).Undemanding := by
  induction depth generalizing name with
  | zero => exact undemanding_throw rfl
  | succ depth ih =>
      rw [instantiate]
      split
      · exact undemanding_throw rfl
      · rename_i c _
        refine undemanding_building.bind fun building => ?_
        split
        · exact undemanding_throw rfl
        · have slots := newSlots_undemanding ih c.fields .empty
          exact (slots.inside name).bind fun slots => undemanding_alloc _

theorem newObject_undemanding (classes : Classes) (name : String) :
    (newObject classes name).Undemanding := instantiate_undemanding classes _ name

end Undemanding

end Dil
