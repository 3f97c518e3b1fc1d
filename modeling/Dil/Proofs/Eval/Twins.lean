import Dil.Proofs.Agreement
import Dil.Proofs.Pairing.Basic
import Dil.Proofs.Value.Results

/-!
One expression evaluated twice, with two scopes, two stores and two makers of objects that stand for one
another. The induction over expressions is made once for whatever makes the stores alike and relates
the values.
-/

namespace Dil

variable {ω : Type} {L : Likeness EvalError Store ω} {V : ω → Value → Value → Prop}

/-- Whatever an evaluation does with values does the same with values that `V` relates, and relates
the values that come of it. -/
structure Eval.TwinRules (L : Likeness EvalError Store ω) (V : ω → Value → Value → Prop) : Prop where
  keep {w x : ω} {s s' t t' : Store} {v v' : Value} : L.Step w s s' x t t' → V w v v' → V x v v'
  scalar {w : ω} {v : Value} : v.Scalar → V w v v
  array {w : ω} {s s' : Store} {items items' : List Value} : List.Forall₂ (V w) items items' →
    L.Agree (Eval.alloc (.array items)) (Eval.alloc (.array items')) w s s' V
  map {w : ω} {s s' : Store} {body body' : Table Value} : Table.Alike (V w) body body' →
    L.Agree (Eval.alloc (.map body)) (Eval.alloc (.map body')) w s s' V
  get {w : ω} {s s' : Store} {root root' : Value} (steps : List Step) : L.Alike w s s' →
    V w root root' → Concur (V w) (s.heap.get root steps) (s'.heap.get root' steps)
  cast {w : ω} {v v' : Value} (t : Tag) : V w v v' → Concur (V w) (v.cast t) (v'.cast t)
  index {w : ω} {v v' : Value} : V w v v' → v.toIndex = v'.toIndex
  shortcut {w : ω} {l l' : Value} (op : BinaryOp) : V w l l' → shortcut? op l = shortcut? op l'
  operate {w : ω} {l l' r r' : Value} (op : BinaryOp) : V w l l' → V w r r' →
    Concur (V w) (Value.operate op l r) (Value.operate op l' r')
  operateUnary {w : ω} {v v' : Value} (op : UnaryOp) : V w v v' →
    Concur (V w) (Value.operateUnary op v) (Value.operateUnary op v')

section Primitives

variable {α β : Type} {Q : ω → α → β → Prop} {w : ω} {s s' : Store}

theorem pureResult_twins {r : Except EvalError α} {r' : Except EvalError β}
    (concur : Concur (Q w) r r') : L.Agree (Eval.pureResult r) (Eval.pureResult r') w s s' Q :=
  fun alike => Or.inl ⟨w, L.refl w s s', alike, concur⟩

theorem look_twins {k : Heap → Except EvalError α} {k' : Heap → Except EvalError β}
    (concur : L.Alike w s s' → Concur (Q w) (k s.heap) (k' s'.heap)) :
    L.Agree (Eval.look k) (Eval.look k') w s s' Q :=
  fun alike => Or.inl ⟨w, L.refl w s s', alike, concur alike⟩

end Primitives

theorem Scope.Alike.resolve {R : Value → Value → Prop} {scope scope' : Scope}
    (alike : Scope.Alike R scope scope') (name : String) :
    Concur R (scope.resolve name) (scope'.resolve name) := by
  rw [Scope.resolve, Scope.resolve]
  rcases rel_cases (alike name) with ⟨v, v', bound, bound', same⟩ | ⟨free, free'⟩
  · rw [bound, bound']
    exact .ok same
  · rw [free, free']
    exact .error _

theorem Eval.TwinRules.keepScopes (rules : Eval.TwinRules L V) {w x : ω} {s s' t t' : Store}
    {scope scope' : Scope} (step : L.Step w s s' x t t') (bound : Scope.Alike (V w) scope scope') :
    Scope.Alike (V x) scope scope' := bound.mono fun _ _ => rules.keep step

section Expressions

variable {create create' : String → Eval Value} {scope scope' : Scope}

-- The view of the stores grows from one part of an expression to the next, and what was found
-- before stays related along.
mutual

theorem eval_twins (rules : Eval.TwinRules L V)
    (maker : ∀ name w s s', L.Agree (create name) (create' name) w s s' V) :
    ∀ (e : Expr) (w : ω) (s s' : Store), Scope.Alike (V w) scope scope' →
    L.Agree (eval create scope e) (eval create' scope' e) w s s' V
  | .null _, w, s, s', _ | .bool _ _, w, s, s', _ | .int _ _, w, s, s', _
  | .float _ _, w, s, s', _ | .str _ _, w, s, s', _ => by
      rw [eval, eval]
      exact .pure (rules.scalar fun _ => Value.noConfusion)
  | .map _ entries, w, s, s', bound => by
      rw [eval, eval]
      apply (evalEntries_twins rules maker entries w s s' .empty .empty bound Table.empty_alike).bind
      intro x t t' body body' _ same
      exact rules.map same
  | .array _ items, w, s, s', bound => by
      rw [eval, eval]
      apply (evalItems_twins rules maker items w s s' bound).bind
      intro x t t' values values' _ same
      exact rules.array same
  | .create _ className, w, s, s', _ => by
      rw [eval, eval]
      exact maker className.name w s s'
  | .var _ name, w, s, s', bound => by
      rw [eval, eval]
      exact pureResult_twins (bound.resolve name)
  | .path _ base segments, w, s, s', bound => by
      rw [eval, eval]
      apply (eval_twins rules maker base w s s' bound).bind
      intro x t t' root root' first same
      apply (evalSegments_twins rules maker segments x t t' (rules.keepScopes first bound)).bind
      rintro y u u' steps _ second rfl
      exact look_twins fun alike => rules.get steps alike (rules.keep second same)
  | .binary _ op left right, w, s, s', bound => by
      rw [eval, eval]
      apply (eval_twins rules maker left w s s' bound).bind
      intro x t t' l l' first same
      rw [← rules.shortcut op same]
      split
      · rename_i v taken
        exact .pure (rules.scalar (Value.shortcut_scalar taken))
      · apply (eval_twins rules maker right x t t' (rules.keepScopes first bound)).bind
        intro y u u' r r' second other
        exact pureResult_twins (rules.operate op (rules.keep second same) other)
  | .unary _ op operand, w, s, s', bound => by
      rw [eval, eval]
      apply (eval_twins rules maker operand w s s' bound).bind
      intro x t t' v v' _ same
      exact pureResult_twins (rules.operateUnary op same)
  | .cast _ value target, w, s, s', bound => by
      rw [eval, eval]
      apply (eval_twins rules maker value w s s' bound).bind
      intro x t t' v v' _ same
      exact pureResult_twins (rules.cast target.tag same)
  | .paren _ inner, w, s, s', bound => by
      rw [eval, eval]
      exact eval_twins rules maker inner w s s' bound

theorem evalItems_twins (rules : Eval.TwinRules L V)
    (maker : ∀ name w s s', L.Agree (create name) (create' name) w s s' V) :
    ∀ (items : List Expr) (w : ω) (s s' : Store), Scope.Alike (V w) scope scope' →
    L.Agree (evalItems create scope items) (evalItems create' scope' items) w s s'
      fun x vs vs' => List.Forall₂ (V x) vs vs'
  | [], w, s, s', _ => by
      rw [evalItems, evalItems]
      exact .pure .nil
  | e :: es, w, s, s', bound => by
      rw [evalItems, evalItems]
      apply (eval_twins rules maker e w s s' bound).bind
      intro x t t' v v' first same
      apply (evalItems_twins rules maker es x t t' (rules.keepScopes first bound)).bind
      intro y u u' vs vs' second rest
      exact .pure (.cons (rules.keep second same) rest)

theorem evalEntries_twins (rules : Eval.TwinRules L V)
    (maker : ∀ name w s s', L.Agree (create name) (create' name) w s s' V) :
    ∀ (entries : List Entry) (w : ω) (s s' : Store) (body body' : Table Value),
    Scope.Alike (V w) scope scope' → Table.Alike (V w) body body' →
    L.Agree (evalEntries create scope entries body) (evalEntries create' scope' entries body')
      w s s' fun x b b' => Table.Alike (V x) b b'
  | [], w, s, s', body, body', _, before => by
      rw [evalEntries, evalEntries]
      exact .pure before
  | .mk key value :: es, w, s, s', body, body', bound, before => by
      rw [evalEntries, evalEntries]
      apply (eval_twins rules maker value w s s' bound).bind
      intro x t t' v v' first same
      have before : Table.Alike (V x) body body' := before.mono fun _ _ => rules.keep first
      exact evalEntries_twins rules maker es x t t' _ _ (rules.keepScopes first bound)
        (Table.insert_alike before same)

theorem evalSegments_twins (rules : Eval.TwinRules L V)
    (maker : ∀ name w s s', L.Agree (create name) (create' name) w s s' V) :
    ∀ (segments : List Segment) (w : ω) (s s' : Store), Scope.Alike (V w) scope scope' →
    L.Agree (evalSegments create scope segments) (evalSegments create' scope' segments) w s s'
      fun _ steps steps' => steps = steps'
  | [], w, s, s', _ => by
      rw [evalSegments, evalSegments]
      exact .pure rfl
  | .field name :: ss, w, s, s', bound => by
      rw [evalSegments, evalSegments]
      apply (evalSegments_twins rules maker ss w s s' bound).bind
      rintro x t t' steps _ _ rfl
      exact .pure rfl
  | .index position :: ss, w, s, s', bound => by
      rw [evalSegments, evalSegments]
      apply (eval_twins rules maker position w s s' bound).bind
      intro x t t' v v' first same
      rw [← rules.index same]
      have number : L.Agree (Eval.pureResult v.toIndex) (Eval.pureResult v.toIndex) x t t'
          fun _ i i' => i = i' := pureResult_twins (.refl v.toIndex)
      apply number.bind
      rintro y u u' i _ second rfl
      have bound := rules.keepScopes second (rules.keepScopes first bound)
      apply (evalSegments_twins rules maker ss y u u' bound).bind
      rintro _ _ _ steps _ _ rfl
      exact .pure rfl

end

end Expressions

theorem Eval.TwinRules.keepSlots (rules : Eval.TwinRules L V) {w x : ω} {s s' t t' : Store}
    {slots slots' : Table Slot} (step : L.Step w s s' x t t')
    (before : Table.Alike (Slot.Alike (V w)) slots slots') :
    Table.Alike (Slot.Alike (V x)) slots slots' :=
  before.mono fun _ _ same => same.mono fun _ _ => rules.keep step

section Objects

variable {create create' : String → Eval Value}

theorem newSlot_twins (rules : Eval.TwinRules L V)
    (maker : ∀ name w s s', L.Agree (create name) (create' name) w s s' V) (d : FieldDef) (w : ω)
    (s s' : Store) :
    L.Agree (newSlot create d) (newSlot create' d) w s s' fun x => Slot.Alike (V x) := by
  rw [newSlot, newSlot]
  apply (eval_twins rules maker d.value w s s' Scope.empty_alike).bind
  intro x t t' v v' _ same
  cases d.type with
  | none => exact .pure ⟨rfl, rfl, same⟩
  | some tag =>
      apply (pureResult_twins (rules.cast tag same)).bind
      intro y u u' a a' _ cast
      exact .pure ⟨rfl, rfl, cast⟩

theorem newSlots_twins (rules : Eval.TwinRules L V)
    (maker : ∀ name w s s', L.Agree (create name) (create' name) w s s' V) (fields : List FieldDef)
    (w : ω) (s s' : Store) (body body' : Table Slot)
    (before : Table.Alike (Slot.Alike (V w)) body body') :
    L.Agree (newSlots create fields body) (newSlots create' fields body') w s s'
      fun x slots slots' => Table.Alike (Slot.Alike (V x)) slots slots' := by
  induction fields generalizing w s s' body body' with
  | nil =>
      rw [newSlots, newSlots]
      exact .pure before
  | cons d ds ih =>
      rw [newSlots, newSlots]
      apply (newSlot_twins rules maker d w s s').bind
      intro x t t' slot slot' first same
      exact ih x t t' _ _ (Table.insert_alike (rules.keepSlots first before) same)

end Objects

end Dil
