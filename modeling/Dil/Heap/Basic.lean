import Dil.Value.Slot

/-! The heap: cells of composite values in three stores. Cells are never removed. -/

namespace Dil

inductive Cell where
  | array (items : List Value)
  | map (body : Table Value)
  | object (body : Instance)
  deriving DecidableEq

def Cell.tag : Cell → Tag
  | array _ => .array
  | map _ => .map
  | object _ => .object

structure Heap where
  arrays : Array (List Value)
  maps : Array (Table Value)
  objects : Array Instance
  deriving DecidableEq

namespace Heap

def empty : Heap := ⟨#[], #[], #[]⟩

instance : Inhabited Heap := ⟨empty⟩

def size (h : Heap) : Nat := h.arrays.size + h.maps.size + h.objects.size

def cell? (h : Heap) : Ref → Option Cell
  | .array i => h.arrays[i]?.map .array
  | .map i => h.maps[i]?.map .map
  | .object i => h.objects[i]?.map .object

def items (h : Heap) (i : Nat) : List Value := h.arrays[i]?.getD []

def body (h : Heap) (i : Nat) : Table Value := h.maps[i]?.getD .empty

def count (h : Heap) : Tag → Nat
  | .array => h.arrays.size
  | .map => h.maps.size
  | .object => h.objects.size
  | _ => 0

/-- How many cells of one kind there can be: their references are numbers of 32 bits. -/
def handles : Nat := 0x100000000

def add (h : Heap) : Cell → Ref × Heap
  | .array items => (.array h.arrays.size, { h with arrays := h.arrays.push items })
  | .map body => (.map h.maps.size, { h with maps := h.maps.push body })
  | .object body => (.object h.objects.size, { h with objects := h.objects.push body })

/-- Adds a cell if there is a reference left for it. -/
@[inline]
def alloc (h : Heap) (c : Cell) : Except EvalError (Ref × Heap) :=
  if h.count c.tag < handles then .ok (h.add c) else .error (.heapExhausted c.tag)

def put (h : Heap) : Ref → Cell → Heap
  | .array i, .array items => { h with arrays := h.arrays.setIfInBounds i items }
  | .map i, .map body => { h with maps := h.maps.setIfInBounds i body }
  | .object i, .object body => { h with objects := h.objects.setIfInBounds i body }
  | _, _ => h

def setItems (h : Heap) (i : Nat) (items : List Value) : Heap := h.put (.array i) (.array items)

def push (h : Heap) (i : Nat) (v : Value) : Heap := h.setItems i (h.items i ++ [v])

def pop (h : Heap) (i : Nat) : Heap := h.setItems i (h.items i).dropLast

def insert (h : Heap) (i : Nat) (key : String) (v : Value) : Heap :=
  h.put (.map i) (.map ((h.body i).insert key v))

end Heap

namespace Cell

/-- What tells two cells apart before their parts are compared: the kind, the class, and the names
of the parts. -/
inductive Label where
  | array
  | map
  | object (className : String)
  deriving DecidableEq

def label : Cell → Label
  | array _ => .array
  | map _ => .map
  | object body => .object body.className

/-- The values in a cell, with their names where they have names. -/
def parts : Cell → List (Option String × Value)
  | array items => items.map fun v => (none, v)
  | map body => body.entries.map fun e => (some e.1, e.2)
  | object body => body.slots.entries.map fun e => (some e.1, e.2.value)

end Cell

end Dil
