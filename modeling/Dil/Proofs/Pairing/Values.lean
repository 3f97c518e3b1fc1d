import Dil.Proofs.Agreement
import Dil.Proofs.Pairing.Basic
import Dil.Proofs.Value.Results

namespace Dil.Pairing

variable {f : Pairing} {l l' r r' v v' : Value}

theorem scalar_concur {ε : Type} {x : Except ε Value} (scalar : ∀ v, x = .ok v → v.Scalar) :
    Concur f.Values x x := by
  cases x with
  | ok v => exact .ok (.scalar (scalar v rfl))
  | error e => exact .error e

theorem describe_alike (alike : f.Values v v') : v.describe = v'.describe := by
  cases alike with
  | ref paired => exact congrArg Tag.name (f.kind paired)
  | scalar => rfl

theorem convert_ref (a : Ref) (t : Tag) : (Value.ref a).convert? t = none := by
  cases t <;> rfl

theorem cast_alike (alike : f.Values v v') (t : Tag) : Concur f.Values (v.cast t) (v'.cast t) := by
  cases alike with
  | ref paired =>
      have kind : (Value.ref _).tag = (Value.ref _).tag := f.kind paired
      have words := describe_alike (.ref paired)
      rw [Value.cast, Value.cast, convert_ref, convert_ref, ← kind, ← words]
      split
      · exact .ok (.ref paired)
      · exact .error _
  | scalar scalar =>
      apply scalar_concur
      intro w cast
      rcases Value.cast_cases cast with rfl | changed
      · exact scalar
      · exact changed

theorem toIndex_ref (a : Ref) :
    (Value.ref a).toIndex = .error (.invalidCast a.tag.name .int) := by
  cases a <;> rfl

theorem toIndex_alike (alike : f.Values v v') : v.toIndex = v'.toIndex := by
  cases alike with
  | ref paired => rw [toIndex_ref, toIndex_ref, f.kind paired]
  | scalar => rfl

/-- A binary operation that takes no composites, and says only of what types its operands were. -/
structure Refuses (op : BinaryOp) (g : Value → Value → Except EvalError Value) : Prop where
  left : ∀ a r, g (.ref a) r = .error (Value.unsupported op (.ref a) r)
  right : ∀ l a, g l (.ref a) = .error (Value.unsupported op l (.ref a))

theorem unsupported_alike (op : BinaryOp) (left : f.Values l l') (right : f.Values r r') :
    Value.unsupported op l r = Value.unsupported op l' r' := by
  rw [Value.unsupported, Value.unsupported, left.tag, right.tag]

theorem Refuses.alike {op : BinaryOp} {g : Value → Value → Except EvalError Value}
    (refuses : Refuses op g) (left : f.Values l l') (right : f.Values r r') : g l r = g l' r' := by
  have told : (.error (Value.unsupported op l r) : Except EvalError Value) =
      .error (Value.unsupported op l' r') := congrArg _ (unsupported_alike op left right)
  cases left with
  | ref paired => rwa [refuses.left, refuses.left]
  | scalar =>
      cases right with
      | ref paired => rwa [refuses.right, refuses.right]
      | scalar => rfl

theorem arithmetic_refuses (op : BinaryOp) : Refuses op (Value.arithmetic op) where
  left a r := by cases r <;> rfl
  right l a := by cases l <;> rfl

theorem addition_refuses : Refuses .add Value.addition where
  left a r := by cases r <;> rfl
  right l a := by cases l <;> rfl

theorem comparison_refuses (op : BinaryOp) (test : Ordering → Bool) :
    Refuses op (Value.comparison op test) where
  left a r := by cases r <;> rfl
  right l a := by
    have unordered : Value.order? l (.ref a) = none := by
      cases l <;> simp [Value.order?, Value.orderKey?, Value.asFloat?]
    rw [Value.comparison, unordered]

theorem logic_refuses (op : BinaryOp) (onBools : Bool → Bool → Bool)
    (onInts : Option (Int64 → Int64 → Int64)) : Refuses op (Value.logic op onBools onInts) where
  left a r := by cases r <;> rfl
  right l a := by cases l <;> rfl

theorem division_alike (op : BinaryOp) (left : f.Values l l') (right : f.Values r r') :
    Value.division op l r = Value.division op l' r' := by
  have zero : r.isZero = r'.isZero := by cases right <;> rfl
  rw [Value.division, Value.division, zero, (arithmetic_refuses op).alike left right]

theorem same_alike (left : f.Values l l') (right : f.Values r r') : l.same r = l'.same r' := by
  cases left with
  | ref first =>
      cases right with
      | ref second =>
          rw [Value.same, Value.same, Bool.eq_iff_iff, beq_iff_eq, beq_iff_eq]
          exact f.same_iff first second
      | scalar scalar =>
          cases r with
          | ref b => exact absurd rfl (scalar b)
          | _ => rfl
  | scalar scalar =>
      cases right with
      | ref second =>
          cases l with
          | ref a => exact absurd rfl (scalar a)
          | _ => rfl
      | scalar => rfl

theorem operate_eq (op : BinaryOp) (left : f.Values l l') (right : f.Values r r') :
    Value.operate op l r = Value.operate op l' r' := by
  cases op with
  | add => exact addition_refuses.alike left right
  | sub | mul => exact (arithmetic_refuses _).alike left right
  | div | mod => exact division_alike _ left right
  | eq | ne => rw [Value.operate, Value.operate, same_alike left right]
  | lt | le | gt | ge => exact (comparison_refuses _ _).alike left right
  | and | or | bitAnd | bitOr => exact (logic_refuses _ _ _).alike left right

theorem operate_alike (op : BinaryOp) (left : f.Values l l') (right : f.Values r r') :
    Concur f.Values (Value.operate op l r) (Value.operate op l' r') := by
  rw [operate_eq op left right]
  exact scalar_concur fun _ => Value.operate_scalar

theorem operateUnary_ref (op : UnaryOp) (a : Ref) :
    Value.operateUnary op (.ref a) = .error (.unsupportedOperation op.symbol [a.tag]) := by
  cases op <;> rfl

theorem operateUnary_alike (op : UnaryOp) (alike : f.Values v v') :
    Concur f.Values (Value.operateUnary op v) (Value.operateUnary op v') := by
  cases alike with
  | ref paired =>
      rw [operateUnary_ref, operateUnary_ref, f.kind paired]
      exact .error _
  | scalar => exact scalar_concur fun _ => Value.operateUnary_scalar

theorem shortcut_alike (op : BinaryOp) (alike : f.Values v v') :
    shortcut? op v = shortcut? op v' := by
  cases alike with
  | ref => cases op <;> rfl
  | scalar => rfl

end Dil.Pairing
