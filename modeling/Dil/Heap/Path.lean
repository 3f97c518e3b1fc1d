import Dil.Heap.Basic

/-!
Paths into composite values. Reading follows every step; writing follows all but the last and
replaces what the last one names. Only writing to a map adds anything.
-/

namespace Dil

inductive Step where
  | field (name : String)
  | index (position : Int64)
  deriving DecidableEq, Repr

def Step.text : Step → String
  | .field name => "->" ++ name
  | .index position => "[" ++ int64Text position ++ "]"

inductive Locator where
  | field (object : Nat) (name : String)
  | key (map : Nat) (name : String)
  | index (array : Nat) (position : Nat)
  deriving DecidableEq, Repr

namespace Heap

def containerName (h : Heap) (v : Value) : String :=
  match v with
  | .ref (.object i) =>
    match h.objects[i]? with
    | some object => object.title
    | none => v.tag.name
  | v => v.tag.name

def elementAt {α : Type} (items : List α) (position : Int64) : Except EvalError (Nat × α) :=
  let i := position.toInt
  match if 0 ≤ i then items[i.toNat]? else none with
  | some a => .ok (i.toNat, a)
  | none => .error (.indexOutOfRange i items.length)

def missing (h : Heap) (segment : String) (container : Value) : EvalError :=
  .pathNotFound segment (h.containerName container)

/-- One step from a value. A position in a text gives the character there. -/
def step (h : Heap) (v : Value) (s : Step) : Except EvalError Value :=
  match v, s with
  | .ref (.object i), .field name =>
    match h.objects[i]?.bind fun object => object.get? name with
    | some w => .ok w
    | none => .error (h.missing name v)
  | .ref (.map i), .field name =>
    match h.maps[i]?.bind fun body => body.find? name with
    | some w => .ok w
    | none => .error (h.missing name v)
  | .ref (.array i), .index position => (elementAt (h.items i) position).map (·.2)
  | .str text, .index position =>
    (elementAt text.toList position).map fun p => .str (String.singleton p.2)
  | v, s => .error (h.missing s.text v)

def get (h : Heap) : Value → List Step → Except EvalError Value
  | v, [] => .ok v
  | v, s :: ss => do h.get (← h.step v s) ss

/-- The place that a step names in a container. Fields and positions must be there; the key of a
map may be new. -/
def place (h : Heap) (container : Value) (s : Step) : Except EvalError Locator :=
  match container, s with
  | .ref (.object i), .field name =>
    match h.objects[i]?.bind fun object => object.get? name with
    | some _ => .ok (.field i name)
    | none => .error (h.missing name container)
  | .ref (.map i), .field name => .ok (.key i name)
  | .ref (.array i), .index position =>
    (elementAt (h.items i) position).map fun p => .index i p.1
  | container, s => .error (h.missing s.text container)

/-- The place at the end of a path. An empty path has none. -/
def locate (h : Heap) : Value → List Step → Except EvalError Locator
  | v, [] => .error (h.missing "" v)
  | v, [s] => h.place v s
  | v, s :: ss => do h.locate (← h.step v s) ss

def read (h : Heap) : Locator → Option Value
  | .field i name => h.objects[i]?.bind fun object => object.get? name
  | .key i name => h.maps[i]?.bind fun body => body.find? name
  | .index i position => h.arrays[i]?.bind fun items => items[position]?

/-- Puts a value into a place. An array may have become shorter since the place was found; a
position that is no integer of 64 bits is told as the largest one. -/
def write (h : Heap) (place : Locator) (v : Value) : Except EvalError Heap :=
  match place with
  | .field i name =>
    match h.objects[i]? with
    | some object => do .ok (h.put (.object i) (.object (← object.set name v)))
    | none => .error (.pathNotFound name Tag.object.name)
  | .key i name => .ok (h.insert i name v)
  | .index i position =>
    let items := h.items i
    if position < items.length then .ok (h.setItems i (items.set position v))
    else .error (.indexOutOfRange ((int64? position).getD Int64.maxValue).toInt items.length)

end Heap

end Dil
