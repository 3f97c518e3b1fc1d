import Dil.Table
import Dil.Value.Basic
import Dil.Value.Error

namespace Dil

/-- The place of one field. An overwritable slot takes any value and with it the value's type; any
other keeps its type for good. -/
structure Slot where
  type : Option Tag
  overwritable : Bool
  value : Value
  deriving DecidableEq

/-- A float slot also takes integers, which it rounds. -/
def Slot.assign (slot : Slot) (field : String) (v : Value) : Except EvalError Slot :=
  if slot.overwritable then .ok { slot with type := some v.tag, value := v }
  else
    match slot.type, v with
    | none, v => .ok { slot with value := v }
    | some .float, .int n => .ok { slot with value := .float (Binary64.ofInt n.toInt) }
    | some t, v =>
      if v.tag = t then .ok { slot with value := v } else .error (.typeMismatch field t v.tag)

structure Instance where
  className : String
  slots : Table Slot
  deriving DecidableEq

namespace Instance

def get? (object : Instance) (field : String) : Option Value :=
  (object.slots.find? field).map Slot.value

def title (object : Instance) : String := "object " ++ object.className

def set (object : Instance) (field : String) (v : Value) : Except EvalError Instance :=
  match object.slots.find? field with
  | some slot => do
    let slot' ← slot.assign field v
    .ok { object with slots := object.slots.insert field slot' }
  | none => .error (.pathNotFound field object.title)

end Instance

end Dil
