import Dil.Source

namespace Dil

inductive Tag where
  | null | bool | int | float | str | array | map | object
  deriving DecidableEq, Repr

namespace Tag

def name : Tag → String
  | null => "null"
  | bool => "bool"
  | int => "int"
  | float => "float"
  | str => "str"
  | array => "array"
  | map => "map"
  | object => "object"

def ofName? : String → Option Tag
  | "null" => some null
  | "bool" | "boolean" => some bool
  | "int" => some int
  | "float" | "double" => some float
  | "str" | "string" => some str
  | "array" => some array
  | "map" => some map
  | "object" => some object
  | _ => none

def inOrder : List Tag := [null, bool, int, float, str, array, map, object]

end Tag

inductive BinaryOp where
  | add | sub | mul | div | mod | eq | ne | lt | le | gt | ge | and | or | bitAnd | bitOr
  deriving DecidableEq, Repr

namespace BinaryOp

def inOrder : List BinaryOp :=
  [add, sub, mul, div, mod, eq, ne, lt, le, gt, ge, and, or, bitAnd, bitOr]

def symbol : BinaryOp → String
  | add => "+"
  | sub => "-"
  | mul => "*"
  | div => "/"
  | mod => "%"
  | eq => "=="
  | ne => "!="
  | lt => "<"
  | le => "<="
  | gt => ">"
  | ge => ">="
  | and => "&&"
  | or => "||"
  | bitAnd => "&"
  | bitOr => "|"

def ofSymbol? (s : String) : Option BinaryOp := inOrder.find? (·.symbol == s)

/-- Operators of greater precedence bind tighter. -/
def precedence : BinaryOp → Nat
  | or => 1
  | and => 2
  | bitOr => 3
  | bitAnd => 4
  | eq | ne => 5
  | lt | le | gt | ge => 6
  | add | sub => 7
  | mul | div | mod => 8

end BinaryOp

inductive UnaryOp where
  | neg | not
  deriving DecidableEq, Repr

def UnaryOp.symbol : UnaryOp → String
  | neg => "-"
  | not => "!"

structure Ident where
  name : String
  span : Span
  deriving DecidableEq, Repr

structure TypeName where
  tag : Tag
  span : Span
  deriving DecidableEq, Repr

mutual

inductive Expr where
  | null (span : Span)
  | bool (span : Span) (value : Bool)
  | int (span : Span) (value : Int64)
  | float (span : Span) (value : Float)
  | str (span : Span) (value : String)
  | map (span : Span) (entries : List Entry)
  | array (span : Span) (items : List Expr)
  /-- A new object of a class. -/
  | create (span : Span) (className : Ident)
  | var (span : Span) (name : String)
  | path (span : Span) (base : Expr) (segments : List Segment)
  | binary (span : Span) (op : BinaryOp) (left right : Expr)
  | unary (span : Span) (op : UnaryOp) (operand : Expr)
  | cast (span : Span) (value : Expr) (target : TypeName)
  | paren (span : Span) (inner : Expr)

inductive Entry where
  | mk (key : Ident) (value : Expr)

inductive Segment where
  | field (name : Ident)
  | index (position : Expr)

end

def Expr.span : Expr → Span
  | .null s | .bool s _ | .int s _ | .float s _ | .str s _ | .map s _ | .array s _ | .create s _
  | .var s _ | .path s _ _ | .binary s _ _ _ | .unary s _ _ | .cast s _ _ | .paren s _ => s

/-- A field of a class with its default, the type it is cast to, and whether it takes any value. -/
structure FieldDecl where
  name : Ident
  value : Expr
  type : Option TypeName
  overwrite : Bool
  span : Span

structure ClassDecl where
  name : Ident
  fields : List FieldDecl
  span : Span

inductive Stmt where
  | declare (span : Span) (decl : ClassDecl)
  | bind (span : Span) (name : Ident) (value : Expr)
  | assign (span : Span) (target : Ident) (path : List Segment) (value : Expr)
  | get (span : Span) (value : Expr)
  | branch (span : Span) (condition : Expr) (onTrue onFalse : List Stmt)
  /-- For each entry of a collection. -/
  | each (span : Span) (value : Ident) (key : Option Ident) (collection : Expr) (body : List Stmt)
  /-- While a condition holds. -/
  | loop (span : Span) (counter : Ident) (condition : Expr) (body : List Stmt)

def Stmt.span : Stmt → Span
  | .declare s _ | .bind s _ _ | .assign s _ _ _ | .get s _ | .branch s _ _ _ | .each s _ _ _ _
  | .loop s _ _ _ => s

structure Program where
  statements : List Stmt
  span : Span

end Dil
