import Dil.Heap.Basic

namespace Dil

mutual

inductive Shown where
  | null
  | bool (b : Bool)
  | int (n : Int64)
  | float (x : Float)
  | str (s : String)
  | list (items : List Shown)
  /-- A map, or an object with its class. -/
  | record (className : Option String) (entries : List ShownEntry)
  /-- In place of a composite inside itself. -/
  | cycle
  /-- In place of a composite inside too many others. -/
  | deep

inductive ShownEntry where
  | mk (name : String) (value : Shown)

end

/-- Shows a value inside the given composites, and at most `levels` more inside one another. -/
def Heap.shownWithin (h : Heap) : Nat → List Ref → Value → Shown
  | _, _, .null => .null
  | _, _, .bool b => .bool b
  | _, _, .int n => .int n
  | _, _, .float x => .float x
  | _, _, .str s => .str s
  | levels, around, .ref r =>
    if around.contains r then .cycle
    else
      match levels with
      | 0 => .deep
      | n + 1 =>
        let inside := shownWithin h n (r :: around)
        match h.cell? r with
        | some (.array items) => .list (items.map inside)
        | some (.map body) => .record none (body.entries.map fun e => .mk e.1 (inside e.2))
        | some (.object body) =>
          .record (some body.className)
            (body.slots.entries.map fun e => .mk e.1 (inside e.2.value))
        | none => .list []

/-- What is shown of a value with at most `depth` composites inside one another. -/
def Heap.view (h : Heap) (depth : Nat) (v : Value) : Shown := h.shownWithin depth [] v

end Dil
