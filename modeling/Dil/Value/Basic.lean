import Dil.Number.Notation
import Dil.Syntax.Basic
import Dil.Text.Quoted

namespace Dil

/-- A cell of the heap, by its kind and its number in the order of allocation. -/
inductive Ref where
  | array (index : Nat)
  | map (index : Nat)
  | object (index : Nat)
  deriving DecidableEq, Repr

inductive Value where
  | null
  | bool (b : Bool)
  | int (n : Int64)
  | float (x : Float)
  | str (s : String)
  | ref (r : Ref)
  deriving DecidableEq

def Ref.tag : Ref → Tag
  | .array _ => .array
  | .map _ => .map
  | .object _ => .object

def Ref.text : Ref → String
  | .array i => "<array#" ++ natText i ++ ">"
  | .map i => "<map#" ++ natText i ++ ">"
  | .object i => "<object#" ++ natText i ++ ">"

def boolText (b : Bool) : String := if b then "true" else "false"

namespace Value

def tag : Value → Tag
  | null => .null
  | bool _ => .bool
  | int _ => .int
  | float _ => .float
  | str _ => .str
  | ref r => r.tag

def asBool? : Value → Option Bool
  | bool b => some b
  | _ => none

def asInt? : Value → Option Int64
  | int n => some n
  | _ => none

def asFloat? : Value → Option Float
  | float x => some x
  | int n => some (Binary64.ofInt n.toInt)
  | _ => none

def text : Value → String
  | null => "null"
  | bool b => boolText b
  | int n => int64Text n
  | float x => FloatStyle.plain.text x
  | str s => Quoted.quote s
  | ref r => r.text

/-- Scalars are the same if their content is, and composites if they are one cell. An integer and
a float are compared as floats, and what is not a number is the same as itself. -/
def same : Value → Value → Bool
  | null, null => true
  | bool a, bool b => a == b
  | int a, int b => a == b
  | float a, float b => Binary64.orderKey? a == Binary64.orderKey? b
  | int a, float b => Binary64.orderKey? (Binary64.ofInt a.toInt) == Binary64.orderKey? b
  | float a, int b => Binary64.orderKey? a == Binary64.orderKey? (Binary64.ofInt b.toInt)
  | str a, str b => a == b
  | ref a, ref b => a == b
  | _, _ => false

end Value

end Dil
