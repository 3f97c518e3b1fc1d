import Dil.Grammar
import Dil.Number.Decimal
import Dil.Syntax.Chain
import Dil.Text.Quoted

/-!
From the tree of a match to expressions and statements. What the grammar cannot check is checked
here, from left to right: the size of numbers, the escapes in strings, and the names of types.
-/

namespace Dil

/-- Why a text that fits the grammar is refused. The last cause is for trees of another grammar. -/
inductive BuildError where
  | invalidNumber (literal : String)
  | invalidEscape (inside : String)
  | unknownType (name : String) (span : Span)
  | unexpected (what : Rule)

namespace Build

abbrev Node := Tree Rule

def ruleOf : Node → Rule
  | .leaf r _ _ | .node r _ _ => r

def intLiteral (literal : List Char) : Except BuildError Int64 :=
  let s := literal.filter (· != '_')
  let n? := match s with
    | '0' :: 'x' :: ds | '0' :: 'X' :: ds => Numeral.natural? 16 ds
    | '0' :: 'b' :: ds | '0' :: 'B' :: ds => Numeral.natural? 2 ds
    | ds => Numeral.natural? 10 ds
  match n?.bind fun n => int64? n with
  | some n => .ok n
  | none => .error (.invalidNumber (String.ofList s))

def floatLiteral (literal : List Char) : Except BuildError Float :=
  match ((Decimal.ofText? literal).map Decimal.toFloat).filter Binary64.isFinite with
  | some x => .ok x
  | none => .error (.invalidNumber (String.ofList literal))

def stringInside (inside : List Char) : Except BuildError String :=
  match Quoted.unescape inside with
  | some s => .ok (String.ofList s)
  | none => .error (.invalidEscape (String.ofList inside))

def ident : Node → Except BuildError Ident
  | .leaf .identifier sp name | .leaf .keyIdent sp name => .ok ⟨String.ofList name, sp⟩
  | t => .error (.unexpected (ruleOf t))

def typeSuffix : Node → Except BuildError TypeName
  | .node .typeSuffix _ [.leaf .typeName sp name] =>
    match Tag.ofName? (String.ofList name) with
    | some tag => .ok ⟨tag, sp⟩
    | none => .error (.unknownType (String.ofList name) sp)
  | t => .error (.unexpected (ruleOf t))

def mapKey : Node → Except BuildError Ident
  | .node .mapKey sp [.node .stringLiteral _ [.leaf .stringInner _ inside]] => do
    .ok ⟨← stringInside inside, sp⟩
  | .node .mapKey _ [t] => ident t
  | t => .error (.unexpected (ruleOf t))

mutual

def expr : Node → Except BuildError Expr
  | .node .expression _ [t] => expr t
  | .node .expression sp [t, suffix] => do
    let value ← expr t
    .ok (.cast sp value (← typeSuffix suffix))
  | .node .arithExpr _ (t :: rest) => do
    let first ← expr t
    .ok (Chain.fold first (← links rest))
  | .node .prefixExpr sp ts => operations sp ts
  | .node .postfixExpr _ [t] => expr t
  | .node .postfixExpr sp (t :: ts) => do
    let base ← expr t
    .ok (.path sp base (← segments ts))
  | .node .primaryExpr sp [t] => primary sp t
  | t => .error (.unexpected (ruleOf t))

def primary (sp : Span) : Node → Except BuildError Expr
  | .leaf .nullLiteral _ _ => .ok (.null sp)
  | .leaf .boolLiteral _ name => .ok (.bool sp (name == ['t', 'r', 'u', 'e']))
  | .leaf .intLiteral _ literal => do .ok (.int sp (← intLiteral literal))
  | .leaf .floatLiteral _ literal => do .ok (.float sp (← floatLiteral literal))
  | .node .stringLiteral _ [.leaf .stringInner _ inside] => do .ok (.str sp (← stringInside inside))
  | .node .mapLiteral _ ts => do .ok (.map sp (← entries ts))
  | .node .arrayLiteral _ ts => do .ok (.array sp (← items ts))
  | .node .newExpr _ [t] => do .ok (.create sp (← ident t))
  | .leaf .identifier _ name => .ok (.var sp (String.ofList name))
  | .node .parenExpr _ [t] => do .ok (.paren sp (← expr t))
  | t => .error (.unexpected (ruleOf t))

def links : List Node → Except BuildError Chain.Links
  | [] => .ok []
  | .leaf .binaryOp _ symbol :: t :: ts =>
    match BinaryOp.ofSymbol? (String.ofList symbol) with
    | some op => do
      let operand ← expr t
      .ok ((op, operand) :: (← links ts))
    | none => .error (.unexpected .binaryOp)
  | t :: _ => .error (.unexpected (ruleOf t))

/-- The operator nearest the operand applies first; all share one place. -/
def operations (sp : Span) : List Node → Except BuildError Expr
  | .leaf .unaryOp _ symbol :: ts => do
    .ok (.unary sp (if symbol = ['!'] then .not else .neg) (← operations sp ts))
  | [t] => expr t
  | _ => .error (.unexpected .prefixExpr)

def segment : Node → Except BuildError Segment
  | .node .fieldSegment _ [t] => do .ok (.field (← ident t))
  | .node .indexSegment _ [t] => do .ok (.index (← expr t))
  | t => .error (.unexpected (ruleOf t))

def segments : List Node → Except BuildError (List Segment)
  | [] => .ok []
  | t :: ts => do
    let s ← segment t
    .ok (s :: (← segments ts))

def items : List Node → Except BuildError (List Expr)
  | [] => .ok []
  | t :: ts => do
    let e ← expr t
    .ok (e :: (← items ts))

def entry : Node → Except BuildError Entry
  | .node .mapEntry _ [key, t] => do
    let name ← mapKey key
    .ok (.mk name (← expr t))
  | t => .error (.unexpected (ruleOf t))

def entries : List Node → Except BuildError (List Entry)
  | [] => .ok []
  | t :: ts => do
    let e ← entry t
    .ok (e :: (← entries ts))

end

def fieldDecl : Node → Except BuildError FieldDecl
  | .node .fieldDecl sp (name :: t :: rest) => do
    let field ← ident name
    let value ← expr t
    match rest with
    | [] => .ok ⟨field, value, none, false, sp⟩
    | [.node .overwriteModifier _ _] => .ok ⟨field, value, none, true, sp⟩
    | [suffix] => do .ok ⟨field, value, some (← typeSuffix suffix), false, sp⟩
    | suffix :: _ => do .ok ⟨field, value, some (← typeSuffix suffix), true, sp⟩
  | t => .error (.unexpected (ruleOf t))

def fieldDecls : List Node → Except BuildError (List FieldDecl)
  | [] => .ok []
  | t :: ts => do
    let field ← fieldDecl t
    .ok (field :: (← fieldDecls ts))

def classDecl : Node → Except BuildError ClassDecl
  | .node .classDecl sp (name :: ts) => do
    let className ← ident name
    .ok ⟨className, ← fieldDecls ts, sp⟩
  | t => .error (.unexpected (ruleOf t))

def assignment : List Node → Except BuildError (List Segment × Expr)
  | [t] => do .ok ([], ← expr t)
  | t :: ts => do
    let s ← segment t
    let (path, value) ← assignment ts
    .ok (s :: path, value)
  | [] => .error (.unexpected .assignStmt)

mutual

def statement : Node → Except BuildError Stmt
  | .node .statement sp [t] => construct sp t
  | t => .error (.unexpected (ruleOf t))

def construct (sp : Span) : Node → Except BuildError Stmt
  | .node .classDecl csp ts => do .ok (.declare sp (← classDecl (.node .classDecl csp ts)))
  | .node .letStmt _ [name, t] => do
    let target ← ident name
    .ok (.bind sp target (← expr t))
  | .node .getStmt _ [t] => do .ok (.get sp (← expr t))
  | .node .assignStmt _ (name :: ts) => do
    let target ← ident name
    let (path, value) ← assignment ts
    .ok (.assign sp target path value)
  | .node .ifStmt _ [t, onTrue] => do
    let condition ← expr t
    .ok (.branch sp condition (← block onTrue) [])
  | .node .ifStmt _ [t, onTrue, .node .elseClause _ [onFalse]] => do
    let condition ← expr t
    let yes ← block onTrue
    .ok (.branch sp condition yes (← block onFalse))
  | .node .foreachStmt _ [value, t, body] => do
    let item ← ident value
    let collection ← expr t
    .ok (.each sp item none collection (← block body))
  | .node .foreachStmt _ [value, key, t, body] => do
    let item ← ident value
    let place ← ident key
    let collection ← expr t
    .ok (.each sp item (some place) collection (← block body))
  | .node .forStmt _ [counter, t, body] => do
    let name ← ident counter
    let condition ← expr t
    .ok (.loop sp name condition (← block body))
  | t => .error (.unexpected (ruleOf t))

def block : Node → Except BuildError (List Stmt)
  | .node .block _ ts => statements ts
  | t => .error (.unexpected (ruleOf t))

def statements : List Node → Except BuildError (List Stmt)
  | [] => .ok []
  | t :: ts => do
    let s ← statement t
    .ok (s :: (← statements ts))

end

def program : Node → Except BuildError Program
  | .node .program sp ts => do .ok ⟨← statements ts.dropLast, sp⟩
  | t => .error (.unexpected (ruleOf t))

def standalone : Node → Except BuildError Expr
  | .node .standaloneExpression _ (t :: _) => expr t
  | t => .error (.unexpected (ruleOf t))

end Build

end Dil
