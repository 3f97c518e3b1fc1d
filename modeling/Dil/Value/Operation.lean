import Dil.Value.Basic
import Dil.Value.Error

namespace Dil.Value

def unsupported (op : BinaryOp) (l r : Value) : EvalError :=
  .unsupportedOperation op.symbol [l.tag, r.tag]

def orderKey? (v : Value) : Option Int := v.asFloat?.bind Binary64.orderKey?

/-- Two integers are compared exactly, other numbers as floats, and texts by code points. -/
def order? : Value → Value → Option Ordering
  | .int a, .int b => some (compare a.toInt b.toInt)
  | .str a, .str b => some (compare a b)
  | l, r => l.orderKey?.bind fun a => r.orderKey?.map fun b => compare a b

def comparison (op : BinaryOp) (test : Ordering → Bool) (l r : Value) : Except EvalError Value :=
  match order? l r with
  | some o => .ok (.bool (test o))
  | none => .error (unsupported op l r)

def exactInt? (op : BinaryOp) (a b : Int) : Option Int64 :=
  match op with
  | .add => int64? (a + b)
  | .sub => int64? (a - b)
  | .mul => int64? (a * b)
  | .div => int64? (a.tdiv b)
  | .mod => (int64? (a.tdiv b)).bind fun _ => int64? (a.tmod b)
  | _ => none

def onFloats (op : BinaryOp) (a b : Float) : Float :=
  match op with
  | .add => a + b
  | .sub => a - b
  | .mul => a * b
  | .div => a / b
  | _ => Binary64.rem a b

/-- Integers stay integers, and a float on either side makes both floats. -/
def arithmetic (op : BinaryOp) (l r : Value) : Except EvalError Value :=
  match l, r with
  | .int a, .int b =>
    match exactInt? op a.toInt b.toInt with
    | some n => .ok (.int n)
    | none => .error (.integerOverflow op.symbol)
  | .float a, .float b => .ok (.float (onFloats op a b))
  | .int a, .float b => .ok (.float (onFloats op (Binary64.ofInt a.toInt) b))
  | .float a, .int b => .ok (.float (onFloats op a (Binary64.ofInt b.toInt)))
  | l, r => .error (unsupported op l r)

def joinedText? : Value → Option String
  | .str s => some s
  | .ref _ => none
  | v => some v.text

def addition (l r : Value) : Except EvalError Value :=
  match l, r with
  | .str a, r =>
    match r.joinedText? with
    | some b => .ok (.str (a ++ b))
    | none => .error (unsupported .add l r)
  | l, .str b =>
    match l.joinedText? with
    | some a => .ok (.str (a ++ b))
    | none => .error (unsupported .add l r)
  | l, r => arithmetic .add l r

def isZero : Value → Bool
  | .int n => n == 0
  | .float x => x == 0
  | _ => false

def division (op : BinaryOp) (l r : Value) : Except EvalError Value :=
  if r.isZero then .error .divisionByZero else arithmetic op l r

def logic (op : BinaryOp) (onBools : Bool → Bool → Bool) (onInts : Option (Int64 → Int64 → Int64))
    (l r : Value) : Except EvalError Value :=
  match l, r, onInts with
  | .bool a, .bool b, _ => .ok (.bool (onBools a b))
  | .int a, .int b, some f => .ok (.int (f a b))
  | l, r, _ => .error (unsupported op l r)

def operate (op : BinaryOp) (l r : Value) : Except EvalError Value :=
  match op with
  | .add => addition l r
  | .sub => arithmetic .sub l r
  | .mul => arithmetic .mul l r
  | .div => division .div l r
  | .mod => division .mod l r
  | .eq => .ok (.bool (same l r))
  | .ne => .ok (.bool (!same l r))
  | .lt => comparison .lt Ordering.isLT l r
  | .le => comparison .le Ordering.isLE l r
  | .gt => comparison .gt Ordering.isGT l r
  | .ge => comparison .ge Ordering.isGE l r
  | .and => logic .and (· && ·) none l r
  | .or => logic .or (· || ·) none l r
  | .bitAnd => logic .bitAnd (· && ·) (some (· &&& ·)) l r
  | .bitOr => logic .bitOr (· || ·) (some (· ||| ·)) l r

def operateUnary (op : UnaryOp) (v : Value) : Except EvalError Value :=
  match op, v with
  | .neg, .int n =>
    match int64? (-n.toInt) with
    | some m => .ok (.int m)
    | none => .error (.integerOverflow op.symbol)
  | .neg, .float x => .ok (.float (-x))
  | .not, .bool b => .ok (.bool (!b))
  | op, v => .error (.unsupportedOperation op.symbol [v.tag])

end Dil.Value
