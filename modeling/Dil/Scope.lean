import Dil.Table
import Dil.Value.Basic
import Dil.Value.Error

namespace Dil

abbrev Scope := Table Value

namespace Scope

def resolve (s : Scope) (name : String) : Except EvalError Value :=
  match s.find? name with
  | some v => .ok v
  | none => .error (.undefinedVariable name)

def rebind (s : Scope) (name : String) (v : Value) : Except EvalError Scope :=
  if s.contains name then .ok (s.insert name v) else .error (.undefinedVariable name)

end Scope

end Dil
