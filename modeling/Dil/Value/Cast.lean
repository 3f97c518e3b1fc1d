import Dil.Text.Blank
import Dil.Value.Basic
import Dil.Value.Error

namespace Dil.Value

def describe (v : Value) : String :=
  match v with
  | .bool _ | .int _ | .float _ | .str _ => v.tag.name ++ " " ++ v.text
  | _ => v.tag.name

def intOfText? (s : String) : Option Int64 :=
  (Numeral.integer? (Text.trim s.toList)).bind int64?

def floatOfText? (s : String) : Option Float :=
  let x? := match Text.trim s.toList with
    | '-' :: cs => (Decimal.ofText? cs).map fun d : Decimal => -d.toFloat
    | '+' :: cs => (Decimal.ofText? cs).map Decimal.toFloat
    | cs => (Decimal.ofText? cs).map Decimal.toFloat
  x?.filter Binary64.isFinite

def boolOfText? (s : String) : Option Bool :=
  let t := String.ofList (Text.trim s.toList)
  if t = "true" then some true else if t = "false" then some false else none

/-- The value as another type, if it has a counterpart there. -/
def convert? : Value → Tag → Option Value
  | .int n, .float => some (.float (Binary64.ofInt n.toInt))
  | .int n, .str => some (.str (int64Text n))
  | .float x, .int => ((Binary64.toInt? x).bind int64?).map .int
  | .float x, .str => some (.str (FloatStyle.plain.text x))
  | .str s, .int => (intOfText? s).map .int
  | .str s, .float => (floatOfText? s).map .float
  | .str s, .bool => (boolOfText? s).map .bool
  | .bool b, .str => some (.str (boolText b))
  | _, _ => none

/-- A value of the target type stays as it is. -/
def cast (v : Value) (target : Tag) : Except EvalError Value :=
  if v.tag = target then .ok v
  else
    match v.convert? target with
    | some w => .ok w
    | none => .error (.invalidCast v.describe target)

def toIndex (v : Value) : Except EvalError Int64 :=
  match v.cast .int with
  | .ok (.int n) => .ok n
  | .ok w => .error (.invalidCast w.describe .int)
  | .error e => .error e

end Dil.Value
