import Dil.Syntax.Basic
import Dil.Text.Numeral

namespace Dil

inductive EvalError where
  | duplicateClass (name : String)
  | duplicateField (className field : String)
  | undefinedClass (name : String)
  | undefinedVariable (name : String)
  | pathNotFound (segment container : String)
  | indexOutOfRange (index : Int) (length : Nat)
  | typeMismatch (field : String) (expected actual : Tag)
  | invalidCast (value : String) (target : Tag)
  | divisionByZero
  | unsupportedOperation (op : String) (operands : List Tag)
  | integerOverflow (op : String)
  | circularInstantiation (name : String)
  | nonBooleanCondition (actual : Tag)
  | notIterable (actual : Tag)
  | heapExhausted (kind : Tag)
  | output (reason : String)
  deriving DecidableEq, Repr

namespace EvalError

def message : EvalError → String
  | duplicateClass name => "Class '" ++ name ++ "' is already defined"
  | duplicateField className field =>
    "Field '" ++ field ++ "' is declared twice in class '" ++ className ++ "'"
  | undefinedClass name => "Undefined class: " ++ name
  | undefinedVariable name => "Undefined variable: " ++ name
  | pathNotFound segment container =>
    "Path not found: no '" ++ segment ++ "' in " ++ container
  | indexOutOfRange index length =>
    "Index out of range: " ++ String.ofList (Numeral.ofInt index)
      ++ " (length: " ++ natText length ++ ")"
  | typeMismatch field expected actual =>
    "Type mismatch for field '" ++ field ++ "': expected " ++ expected.name
      ++ ", got " ++ actual.name
  | invalidCast value target => "Invalid cast: cannot convert " ++ value ++ " to " ++ target.name
  | divisionByZero => "Division by zero"
  | unsupportedOperation op operands =>
    "Unsupported operation '" ++ op ++ "' for " ++ ", ".intercalate (operands.map Tag.name)
  | integerOverflow op => "Integer overflow in '" ++ op ++ "'"
  | circularInstantiation name => "Circular instantiation of class '" ++ name ++ "'"
  | nonBooleanCondition actual => "Condition must evaluate to bool, got " ++ actual.name
  | notIterable actual => "Cannot iterate over " ++ actual.name
  | heapExhausted kind => "Heap exhausted: no handles left for " ++ kind.name ++ " values"
  | output reason => "Failed to write output: " ++ reason

end EvalError

/-- A failure and the place of the statement, condition or collection that raised it. -/
structure ExecError where
  error : EvalError
  span : Span
  deriving DecidableEq, Repr

end Dil
