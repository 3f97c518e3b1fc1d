import Dil.Eval
import Dil.Proofs.Heap.Cells

namespace Dil.Value

theorem convert_tag {v w : Value} {t : Tag} (converted : v.convert? t = some w) : w.tag = t := by
  unfold convert? at converted
  split at converted
  case h_1 | h_2 | h_4 | h_8 =>
    cases converted
    rfl
  case h_3 | h_5 | h_6 | h_7 =>
    obtain ⟨_, _, rfl⟩ := Option.map_eq_some_iff.mp converted
    rfl
  case h_9 => cases converted

theorem cast_tag {v w : Value} {t : Tag} (cast : v.cast t = .ok w) : w.tag = t := by
  unfold Value.cast at cast
  split at cast
  · rename_i same
    cases cast
    exact same
  · split at cast
    · rename_i converted
      cases cast
      exact convert_tag converted
    · cases cast

theorem convert_scalar {v w : Value} {t : Tag} (converted : v.convert? t = some w) :
    w.Scalar := by
  have tag := convert_tag converted
  rintro r rfl
  cases r <;> cases tag <;> cases v <;> cases converted

/-- A cast changes a value only into a scalar. -/
theorem cast_cases {v w : Value} {t : Tag} (cast : v.cast t = .ok w) : w = v ∨ w.Scalar := by
  unfold Value.cast at cast
  split at cast
  · cases cast
    exact Or.inl rfl
  · split at cast
    · rename_i converted
      cases cast
      exact Or.inr (convert_scalar converted)
    · cases cast

theorem bool_scalar (b : Bool) : (Value.bool b).Scalar := fun _ => Value.noConfusion

theorem arithmetic_scalar {op : BinaryOp} {l r v : Value} (done : arithmetic op l r = .ok v) :
    v.Scalar := by
  unfold arithmetic at done
  split at done
  case h_1 =>
    split at done <;> cases done
    exact fun _ => Value.noConfusion
  case h_2 | h_3 | h_4 =>
    cases done
    exact fun _ => Value.noConfusion
  case h_5 => cases done

theorem addition_scalar {l r v : Value} (done : addition l r = .ok v) : v.Scalar := by
  unfold addition at done
  split at done
  · split at done <;> cases done
    exact fun _ => Value.noConfusion
  · split at done <;> cases done
    exact fun _ => Value.noConfusion
  · exact arithmetic_scalar done

theorem division_scalar {op : BinaryOp} {l r v : Value} (done : division op l r = .ok v) :
    v.Scalar := by
  unfold division at done
  split at done
  · cases done
  · exact arithmetic_scalar done

theorem comparison_scalar {op : BinaryOp} {test : Ordering → Bool} {l r v : Value}
    (done : comparison op test l r = .ok v) : v.Scalar := by
  unfold comparison at done
  split at done <;> cases done
  exact bool_scalar _

theorem logic_scalar {op : BinaryOp} {onBools : Bool → Bool → Bool}
    {onInts : Option (Int64 → Int64 → Int64)} {l r v : Value}
    (done : logic op onBools onInts l r = .ok v) : v.Scalar := by
  unfold logic at done
  split at done <;> cases done <;> exact fun _ => Value.noConfusion

theorem operate_scalar {op : BinaryOp} {l r v : Value} (done : operate op l r = .ok v) :
    v.Scalar := by
  cases op with
  | add => exact addition_scalar done
  | sub | mul => exact arithmetic_scalar done
  | div | mod => exact division_scalar done
  | eq | ne =>
      cases done
      exact bool_scalar _
  | lt | le | gt | ge => exact comparison_scalar done
  | and | or | bitAnd | bitOr => exact logic_scalar done

theorem operateUnary_scalar {op : UnaryOp} {v w : Value} (done : operateUnary op v = .ok w) :
    w.Scalar := by
  unfold operateUnary at done
  split at done
  case h_1 =>
    split at done <;> cases done
    exact fun _ => Value.noConfusion
  case h_2 | h_3 =>
    cases done
    exact fun _ => Value.noConfusion
  case h_4 => cases done

theorem shortcut_scalar {op : BinaryOp} {l v : Value} (taken : shortcut? op l = some v) :
    v.Scalar := by
  unfold shortcut? at taken
  split at taken <;> cases taken <;> exact bool_scalar _

end Dil.Value
