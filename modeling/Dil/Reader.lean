import Dil.Peg.Expectation
import Dil.Syntax.OfTree

namespace Dil

inductive ReadError where
  /-- The grammar refuses the source at a position, where other constructs were looked for. -/
  | refused (position : Nat) (wanted unwanted : List Rule)
  | invalid (cause : BuildError)

namespace BuildError

def message : BuildError → String
  | .invalidNumber literal => "Invalid number literal: " ++ literal
  | .invalidEscape inside => "Invalid escape sequence: " ++ inside
  | .unknownType name _ => "Unknown type '" ++ name ++ "'"
  | .unexpected what => "Unexpected token: " ++ what.name

def span? : BuildError → Option Span
  | .unknownType _ sp => some sp
  | _ => none

end BuildError

namespace ReadError

def listed (rules : List Rule) : List Rule := Rule.inOrder.filter rules.contains

def reason : ReadError → String
  | .refused _ wanted unwanted => refusalText (wanted.map Rule.name) (unwanted.map Rule.name)
  | .invalid cause => cause.message

def span? : ReadError → Option Span
  | .refused position _ _ => some ⟨position, position⟩
  | .invalid cause => cause.span?

def ofAttempts (tried : List (Attempt Rule)) : ReadError :=
  let e := explainAll grammar false false tried .start
  .refused e.position (listed e.wanted) (listed e.unwanted)

end ReadError

def readAs {α : Type} (r : Rule) (build : Build.Node → Except BuildError α) (source : String) :
    Except ReadError α :=
  let outcome := matchSource r source
  match outcome.verdict with
  | .matched [t] _ =>
    match build t with
    | .ok a => .ok a
    | .error cause => .error (.invalid cause)
  | _ => .error (.ofAttempts outcome.tried)

def readProgram (source : String) : Except ReadError Program :=
  readAs .program Build.program source

def readExpression (source : String) : Except ReadError Expr :=
  readAs .standaloneExpression Build.standalone source

end Dil
