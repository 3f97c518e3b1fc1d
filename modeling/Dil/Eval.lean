import Dil.Class
import Dil.Heap.Path
import Dil.Scope
import Dil.Value.Cast
import Dil.Value.Operation

/-!
Evaluation of expressions. It reads the scope and the classes and only adds cells to the heap;
what it added before a failure stays.
-/

namespace Dil

/-- What evaluation works on: the heap, and the classes whose objects are being made, the innermost
first. -/
structure Store where
  heap : Heap
  building : List String

abbrev Eval (α : Type) := ExceptT EvalError (StateM Store) α

namespace Eval

def pureResult {α : Type} (r : Except EvalError α) : Eval α := fun s => (r, s)

def look {α : Type} (f : Heap → Except EvalError α) : Eval α := fun s => (f s.heap, s)

def alloc (cell : Cell) : Eval Value := fun ⟨heap, building⟩ =>
  match heap.alloc cell with
  | .ok (r, heap') => (.ok (.ref r), ⟨heap', building⟩)
  | .error e => (.error e, ⟨heap, building⟩)

def building : Eval (List String) := fun s => (.ok s.building, s)

/-- An action inside the making of an object, which is over when the action ends in any way. -/
def inside {α : Type} (className : String) (action : Eval α) : Eval α := fun ⟨heap, building⟩ =>
  let (result, ⟨heap', building'⟩) := action ⟨heap, className :: building⟩
  (result, ⟨heap', building'.tail⟩)

end Eval

/-- The result of `&&` or `||` that the left operand decides alone. -/
def shortcut? : BinaryOp → Value → Option Value
  | .and, .bool false => some (.bool false)
  | .or, .bool true => some (.bool true)
  | _, _ => none

mutual

/-- The value of an expression. `create` makes the objects that it asks for. -/
def eval (create : String → Eval Value) (scope : Scope) : Expr → Eval Value
  | .null _ => pure .null
  | .bool _ b => pure (.bool b)
  | .int _ n => pure (.int n)
  | .float _ x => pure (.float x)
  | .str _ s => pure (.str s)
  | .map _ entries => do
    let body ← evalEntries create scope entries .empty
    Eval.alloc (.map body)
  | .array _ items => do
    let values ← evalItems create scope items
    Eval.alloc (.array values)
  | .create _ className => create className.name
  | .var _ name => Eval.pureResult (scope.resolve name)
  | .path _ base segments => do
    let root ← eval create scope base
    let steps ← evalSegments create scope segments
    Eval.look fun h => h.get root steps
  | .binary _ op left right => do
    let l ← eval create scope left
    match shortcut? op l with
    | some v => pure v
    | none => do
      let r ← eval create scope right
      Eval.pureResult (Value.operate op l r)
  | .unary _ op operand => do
    let v ← eval create scope operand
    Eval.pureResult (Value.operateUnary op v)
  | .cast _ value target => do
    let v ← eval create scope value
    Eval.pureResult (v.cast target.tag)
  | .paren _ inner => eval create scope inner

def evalItems (create : String → Eval Value) (scope : Scope) :
    List Expr → Eval (List Value)
  | [] => pure []
  | e :: es => do
    let v ← eval create scope e
    let vs ← evalItems create scope es
    pure (v :: vs)

def evalEntries (create : String → Eval Value) (scope : Scope) :
    List Entry → Table Value → Eval (Table Value)
  | [], body => pure body
  | .mk key value :: es, body => do
    let v ← eval create scope value
    evalEntries create scope es (body.insert key.name v)

def evalSegments (create : String → Eval Value) (scope : Scope) :
    List Segment → Eval (List Step)
  | [] => pure []
  | .field name :: ss => do
    let steps ← evalSegments create scope ss
    pure (.field name.name :: steps)
  | .index position :: ss => do
    let v ← eval create scope position
    let i ← Eval.pureResult v.toIndex
    let steps ← evalSegments create scope ss
    pure (.index i :: steps)

end

/-- The slot of a new object. The default sees no names. -/
def newSlot (create : String → Eval Value) (f : FieldDef) : Eval Slot := do
  let v ← eval create .empty f.value
  match f.type with
  | none => pure ⟨none, f.overwritable, v⟩
  | some t => do
    let w ← Eval.pureResult (v.cast t)
    pure ⟨some t, f.overwritable, w⟩

def newSlots (create : String → Eval Value) :
    List FieldDef → Table Slot → Eval (Table Slot)
  | [], body => pure body
  | f :: fs, body => do
    let slot ← newSlot create f
    newSlots create fs (body.insert f.name slot)

/-- A new object of a class. The depth to which objects are made inside objects is bounded, because
each class is built at most once at a time. -/
def instantiate (classes : Classes) : Nat → String → Eval Value
  | 0, name => throw (.circularInstantiation name)
  | depth + 1, name =>
    match classes.find? name with
    | none => throw (.undefinedClass name)
    | some c => do
      let building ← Eval.building
      if building.contains name then throw (.circularInstantiation name)
      else do
        let slots ← Eval.inside name (newSlots (instantiate classes depth) c.fields .empty)
        Eval.alloc (.object ⟨c.name, slots⟩)

def newObject (classes : Classes) (name : String) : Eval Value :=
  instantiate classes (classes.size + 1) name

end Dil
