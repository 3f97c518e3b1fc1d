import Dil.Number.Notation
import Dil.Syntax.Basic
import Dil.Text.Printable

namespace Dil

mutual

inductive Outline where
  | word (text : String)
  | record (name : String) (fields : List OutlineField)
  | wrapped (name : String) (inner : Outline)
  | list (items : List Outline)

inductive OutlineField where
  | mk (name : String) (value : Outline)

end

namespace Outline

def margin (level : Nat) : String := String.ofList (List.replicate (4 * level) ' ')

mutual

def text (level : Nat) : Outline → String
  | .word s => s
  | .record name fields => name ++ " " ++ openBrace ++ "\n" ++ fieldLines (level + 1) fields ++ margin level ++ closeBrace
  | .wrapped name inner =>
    name ++ "(\n" ++ margin (level + 1) ++ text (level + 1) inner ++ ",\n" ++ margin level ++ ")"
  | .list [] => "[]"
  | .list items => "[\n" ++ itemLines (level + 1) items ++ margin level ++ "]"

def fieldLines (level : Nat) : List OutlineField → String
  | [] => ""
  | .mk name value :: fs =>
    margin level ++ name ++ ": " ++ text level value ++ ",\n" ++ fieldLines level fs

def itemLines (level : Nat) : List Outline → String
  | [] => ""
  | o :: os => margin level ++ text level o ++ ",\n" ++ itemLines level os

end

def ofNat (n : Nat) : Outline := .word (natText n)

def ofString (s : String) : Outline := .word (Text.outlineQuote s)

def ofOption : Option Outline → Outline
  | none => .word "None"
  | some o => .wrapped "Some" o

def ofSpan (s : Span) : Outline :=
  .record "Span" [.mk "start" (ofNat s.start), .mk "end" (ofNat s.stop)]

def placed (node : Outline) (s : Span) : Outline :=
  .record "Spanned" [.mk "node" node, .mk "span" (ofSpan s)]

def ofIdent (i : Ident) : Outline := placed (ofString i.name) i.span

def tagName : Tag → String
  | .null => "Null"
  | .bool => "Bool"
  | .int => "Int"
  | .float => "Float"
  | .str => "Str"
  | .array => "Array"
  | .map => "Map"
  | .object => "Object"

def ofTypeName (t : TypeName) : Outline := placed (.word (tagName t.tag)) t.span

def binaryName : BinaryOp → String
  | .add => "Add"
  | .sub => "Sub"
  | .mul => "Mul"
  | .div => "Div"
  | .mod => "Mod"
  | .eq => "Eq"
  | .ne => "Ne"
  | .lt => "Lt"
  | .le => "Le"
  | .gt => "Gt"
  | .ge => "Ge"
  | .and => "And"
  | .or => "Or"
  | .bitAnd => "BitAnd"
  | .bitOr => "BitOr"

def unaryName : UnaryOp → String
  | .neg => "Neg"
  | .not => "Not"

def kinded (name : String) (kind : Outline) (s : Span) : Outline :=
  .record name [.mk "kind" kind, .mk "span" (ofSpan s)]

mutual

def ofExpr : Expr → Outline
  | .null s => kinded "Expr" (.word "Null") s
  | .bool s b => kinded "Expr" (.wrapped "Bool" (.word (if b then "true" else "false"))) s
  | .int s n => kinded "Expr" (.wrapped "Int" (.word (int64Text n))) s
  | .float s x => kinded "Expr" (.wrapped "Float" (.word (FloatStyle.outline.text x))) s
  | .str s t => kinded "Expr" (.wrapped "String" (ofString t)) s
  | .map s es => kinded "Expr" (.wrapped "Map" (.list (ofEntries es))) s
  | .array s es => kinded "Expr" (.wrapped "Array" (.list (ofExprs es))) s
  | .create s c => kinded "Expr" (.wrapped "New" (ofIdent c)) s
  | .var s x => kinded "Expr" (.wrapped "Identifier" (ofString x)) s
  | .path s b ss =>
    kinded "Expr" (.record "Path" [.mk "base" (ofExpr b), .mk "segments" (.list (ofSegments ss))]) s
  | .binary s op l r =>
    kinded "Expr" (.record "Binary"
      [.mk "op" (.word (binaryName op)), .mk "left" (ofExpr l), .mk "right" (ofExpr r)]) s
  | .unary s op e =>
    kinded "Expr" (.record "Unary" [.mk "op" (.word (unaryName op)), .mk "operand" (ofExpr e)]) s
  | .cast s e t =>
    kinded "Expr" (.record "As" [.mk "value" (ofExpr e), .mk "ty" (ofTypeName t)]) s
  | .paren s e => kinded "Expr" (.wrapped "Parenthesized" (ofExpr e)) s

def ofExprs : List Expr → List Outline
  | [] => []
  | e :: es => ofExpr e :: ofExprs es

def ofEntries : List Entry → List Outline
  | [] => []
  | .mk key e :: es =>
    .record "MapEntry" [.mk "key" (ofIdent key), .mk "value" (ofExpr e)] :: ofEntries es

def ofSegments : List Segment → List Outline
  | [] => []
  | .field i :: ss => .wrapped "Field" (ofIdent i) :: ofSegments ss
  | .index e :: ss => .wrapped "Index" (ofExpr e) :: ofSegments ss

end

def ofField (f : FieldDecl) : Outline :=
  .record "FieldDecl"
    [.mk "name" (ofIdent f.name), .mk "default" (ofExpr f.value),
      .mk "ty" (ofOption (f.type.map ofTypeName)),
      .mk "overwrite" (.word (if f.overwrite then "true" else "false")), .mk "span" (ofSpan f.span)]

def ofClass (d : ClassDecl) : Outline :=
  .record "ClassDecl"
    [.mk "name" (ofIdent d.name), .mk "fields" (.list (d.fields.map ofField)),
      .mk "span" (ofSpan d.span)]

mutual

def ofStmt : Stmt → Outline
  | .declare s d => kinded "Stmt" (.wrapped "Class" (ofClass d)) s
  | .bind s x e =>
    kinded "Stmt" (.record "Let" [.mk "name" (ofIdent x), .mk "value" (ofExpr e)]) s
  | .assign s x ss e =>
    kinded "Stmt" (.record "Assign"
      [.mk "target" (ofIdent x), .mk "segments" (.list (ofSegments ss)), .mk "value" (ofExpr e)]) s
  | .get s e => kinded "Stmt" (.wrapped "Get" (ofExpr e)) s
  | .branch s c t f =>
    kinded "Stmt" (.record "If"
      [.mk "condition" (ofExpr c), .mk "then_branch" (.list (ofStmts t)),
        .mk "else_branch" (.list (ofStmts f))]) s
  | .each s v k e b =>
    kinded "Stmt" (.record "ForEach"
      [.mk "value" (ofIdent v), .mk "key" (ofOption (k.map ofIdent)), .mk "iterable" (ofExpr e),
        .mk "body" (.list (ofStmts b))]) s
  | .loop s x c b =>
    kinded "Stmt" (.record "For"
      [.mk "counter" (ofIdent x), .mk "condition" (ofExpr c), .mk "body" (.list (ofStmts b))]) s

def ofStmts : List Stmt → List Outline
  | [] => []
  | s :: ss => ofStmt s :: ofStmts ss

end

def ofProgram (p : Program) : Outline :=
  .record "Program" [.mk "statements" (.list (ofStmts p.statements)), .mk "span" (ofSpan p.span)]

end Outline

def Program.outline (p : Program) : String := (Outline.ofProgram p).text 0

end Dil
