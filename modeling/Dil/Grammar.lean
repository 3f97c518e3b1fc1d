import Dil.Layout
import Dil.Peg.Match

namespace Dil

inductive Rule where
  | endOfInput
  | program | standaloneExpression | statement | classDecl | fieldDecl | overwriteModifier
  | letStmt | getStmt | assignStmt | block | ifStmt | elseClause | foreachStmt | forStmt
  | expression | typeSuffix | typeName | arithExpr | binaryOp | prefixExpr | unaryOp | postfixExpr
  | fieldSegment | indexSegment | primaryExpr | parenExpr | newExpr | mapLiteral | mapEntry | mapKey
  | arrayLiteral | nullLiteral | boolLiteral | floatLiteral | intLiteral | stringLiteral | stringInner
  | identifier | keyIdent
  | kwClass | kwEnd | kwLet | kwGet | kwAs | kwNew | kwLiteral | kwIf | kwThen | kwElse | kwEndif
  | kwForeach | kwIn | kwDo | kwEndforeach | kwFor | kwWhen | kwEndfor
  deriving DecidableEq, Repr

namespace Rule

def inOrder : List Rule :=
  [endOfInput,
    program, standaloneExpression, statement, classDecl, fieldDecl, overwriteModifier,
    letStmt, getStmt, assignStmt, block, ifStmt, elseClause, foreachStmt, forStmt,
    expression, typeSuffix, typeName, arithExpr, binaryOp, prefixExpr, unaryOp, postfixExpr,
    fieldSegment, indexSegment, primaryExpr, parenExpr, newExpr, mapLiteral, mapEntry, mapKey,
    arrayLiteral, nullLiteral, boolLiteral, floatLiteral, intLiteral, stringLiteral, stringInner,
    identifier, keyIdent,
    kwClass, kwEnd, kwLet, kwGet, kwAs, kwNew, kwLiteral, kwIf, kwThen, kwElse, kwEndif,
    kwForeach, kwIn, kwDo, kwEndforeach, kwFor, kwWhen, kwEndfor]

def name : Rule → String
  | endOfInput => "EOI"
  | program => "program"
  | standaloneExpression => "standalone_expression"
  | statement => "statement"
  | classDecl => "class_decl"
  | fieldDecl => "field_decl"
  | overwriteModifier => "overwrite_modifier"
  | letStmt => "let_stmt"
  | getStmt => "get_stmt"
  | assignStmt => "assign_stmt"
  | block => "block"
  | ifStmt => "if_stmt"
  | elseClause => "else_clause"
  | foreachStmt => "foreach_stmt"
  | forStmt => "for_stmt"
  | expression => "expression"
  | typeSuffix => "type_suffix"
  | typeName => "type_name"
  | arithExpr => "arith_expr"
  | binaryOp => "binary_op"
  | prefixExpr => "prefix_expr"
  | unaryOp => "unary_op"
  | postfixExpr => "postfix_expr"
  | fieldSegment => "field_segment"
  | indexSegment => "index_segment"
  | primaryExpr => "primary_expr"
  | parenExpr => "paren_expr"
  | newExpr => "new_expr"
  | mapLiteral => "map_literal"
  | mapEntry => "map_entry"
  | mapKey => "map_key"
  | arrayLiteral => "array_literal"
  | nullLiteral => "null_literal"
  | boolLiteral => "bool_literal"
  | floatLiteral => "float_literal"
  | intLiteral => "int_literal"
  | stringLiteral => "string_literal"
  | stringInner => "string_inner"
  | identifier => "identifier"
  | keyIdent => "key_ident"
  | kwClass => "kw_class"
  | kwEnd => "kw_end"
  | kwLet => "kw_let"
  | kwGet => "kw_get"
  | kwAs => "kw_as"
  | kwNew => "kw_new"
  | kwLiteral => "kw_literal"
  | kwIf => "kw_if"
  | kwThen => "kw_then"
  | kwElse => "kw_else"
  | kwEndif => "kw_endif"
  | kwForeach => "kw_foreach"
  | kwIn => "kw_in"
  | kwDo => "kw_do"
  | kwEndforeach => "kw_endforeach"
  | kwFor => "kw_for"
  | kwWhen => "kw_when"
  | kwEndfor => "kw_endfor"

open Peg

def isLetter (c : Char) : Bool := c.isAlpha

def isWordStart (c : Char) : Bool := c.isAlpha || c == '_'

def isWordChar (c : Char) : Bool := c.isAlphanum || c == '_'

def isDigit (c : Char) : Bool := c.isDigit

def isHexDigit (c : Char) : Bool :=
  c.isDigit || ('a' ≤ c && c ≤ 'f') || ('A' ≤ c && c ≤ 'F')

def isBinDigit (c : Char) : Bool := c == '0' || c == '1'

abbrev Part := Peg Rule

/-- A keyword stands alone: no word character follows it. -/
def keyword (spellings : List String) : Part :=
  seq (words spellings) (.unless (.char isWordChar))

def spellings : Rule → List String
  | .kwClass => ["class"]
  | .kwEnd => ["end"]
  | .kwLet => ["let"]
  | .kwGet => ["Get", "GET", "get"]
  | .kwAs => ["as"]
  | .kwNew => ["new"]
  | .kwLiteral => ["null", "true", "false"]
  | .kwIf => ["IF", "if"]
  | .kwThen => ["THEN", "then"]
  | .kwElse => ["ELSE", "else"]
  | .kwEndif => ["ENDIF", "endif"]
  | .kwForeach => ["FOREACH", "foreach"]
  | .kwIn => ["IN", "in"]
  | .kwDo => ["DO", "do"]
  | .kwEndforeach => ["ENDFOREACH", "endforeach"]
  | .kwFor => ["FOR", "for"]
  | .kwWhen => ["WHEN", "when"]
  | .kwEndfor => ["ENDFOR", "endfor"]
  | _ => []

/-- A keyword between tokens: the look ahead makes sure that the whole word is meant. -/
def wholeWord (kw : Rule) : Part := seq (.ahead (.rule kw)) (words (spellings kw))

/-- The words that are no identifiers. `end` and `new` are not among them. -/
def reserved : Part :=
  first ([.kwClass, .kwLet, .kwGet, .kwAs, .kwLiteral, .kwIf, .kwThen, .kwElse, .kwEndif,
    .kwForeach, .kwIn, .kwDo, .kwEndforeach, .kwFor, .kwWhen, .kwEndfor].map .rule)

def classEnd : Part := all [wholeWord .kwClass, word ":", wholeWord .kwEnd, opt (word ";")]

def pathSegment : Part := alt (.rule .fieldSegment) (.rule .indexSegment)

def exponent : Part :=
  all [.char (fun c => c == 'e' || c == 'E'), opt (words ["+", "-"]), plus (.char isDigit)]

/-- Digits of one base behind a mark; underscores may stand behind the first digit. -/
def digits (marks : List String) (isDigitOfBase : Char → Bool) : Part :=
  all [words marks, .char isDigitOfBase, star (.char fun c => isDigitOfBase c || c == '_')]

def items (item : Part) : Part :=
  opt (all [item, star (seq (word ",") item), opt (word ",")])

def body : Rule → Part
  | .endOfInput => .endOfInput
  | .program => all [.nothing, star (.rule .statement), .rule .endOfInput]
  | .standaloneExpression => all [.nothing, .rule .expression, .rule .endOfInput]
  | .statement =>
    first ([.classDecl, .letStmt, .getStmt, .ifStmt, .foreachStmt, .forStmt, .assignStmt].map .rule)
  | .classDecl =>
    all [wholeWord .kwClass, .rule .identifier, word ":", star (.rule .fieldDecl), classEnd]
  | .fieldDecl =>
    all [.unless classEnd, .rule .keyIdent, word ":", .rule .arithExpr, opt (.rule .typeSuffix),
      opt (.rule .overwriteModifier), word ";"]
  | .overwriteModifier => word "$overwrite$"
  | .letStmt => all [wholeWord .kwLet, .rule .identifier, word "=", .rule .expression, word ";"]
  | .getStmt => all [wholeWord .kwGet, .rule .expression, word ";"]
  | .assignStmt =>
    all [.rule .identifier, star pathSegment, word "=", .rule .expression, word ";"]
  | .block => star (.rule .statement)
  | .ifStmt =>
    all [wholeWord .kwIf, .rule .expression, wholeWord .kwThen, opt (word ";"), .rule .block,
      opt (.rule .elseClause), wholeWord .kwEndif, opt (word ";")]
  | .elseClause => all [wholeWord .kwElse, opt (word ";"), .rule .block]
  | .foreachStmt =>
    all [wholeWord .kwForeach, .rule .identifier, opt (seq (word ",") (.rule .identifier)),
      wholeWord .kwIn, .rule .expression, wholeWord .kwDo, opt (word ";"), .rule .block,
      wholeWord .kwEndforeach, opt (word ";")]
  | .forStmt =>
    all [wholeWord .kwFor, .rule .identifier, wholeWord .kwWhen, .rule .expression,
      wholeWord .kwDo, opt (word ";"), .rule .block, wholeWord .kwEndfor, opt (word ";")]
  | .expression => seq (.rule .arithExpr) (opt (.rule .typeSuffix))
  | .typeSuffix => seq (wholeWord .kwAs) (.rule .typeName)
  | .typeName => seq (.char isLetter) (star (.char isWordChar))
  | .arithExpr =>
    seq (.rule .prefixExpr) (star (seq (.rule .binaryOp) (.rule .prefixExpr)))
  | .binaryOp =>
    first [words ["==", "!=", "<=", ">=", "&&", "||", "+"], seq (word "-") (.unless (word ">")),
      words ["*", "/", "%", "<", ">", "&", "|"]]
  | .prefixExpr => seq (star (.rule .unaryOp)) (.rule .postfixExpr)
  | .unaryOp => alt (seq (word "-") (.unless (word ">"))) (seq (word "!") (.unless (word "=")))
  | .postfixExpr => seq (.rule .primaryExpr) (star pathSegment)
  | .fieldSegment => seq (word "->") (.rule .keyIdent)
  | .indexSegment => all [word "[", .rule .expression, word "]"]
  | .primaryExpr =>
    first ([.nullLiteral, .boolLiteral, .floatLiteral, .intLiteral, .stringLiteral, .mapLiteral,
      .arrayLiteral, .newExpr, .identifier, .parenExpr].map .rule)
  | .parenExpr => all [word "(", .rule .expression, word ")"]
  | .newExpr => all [.rule .identifier, word ":", wholeWord .kwNew]
  | .mapLiteral => all [word openBrace, items (.rule .mapEntry), word closeBrace]
  | .mapEntry => all [.rule .mapKey, word ":", .rule .expression]
  | .mapKey => alt (.rule .keyIdent) (.rule .stringLiteral)
  | .arrayLiteral => all [word "[", items (.rule .expression), word "]"]
  | .nullLiteral => keyword ["null"]
  | .boolLiteral => keyword ["true", "false"]
  | .floatLiteral =>
    seq (plus (.char isDigit))
      (alt (all [word ".", star (.char isDigit), opt exponent]) exponent)
  | .intLiteral =>
    first [digits ["0x", "0X"] isHexDigit, digits ["0b", "0B"] isBinDigit,
      seq (.char isDigit) (star (.char fun c => isDigit c || c == '_'))]
  | .stringLiteral => all [word "\"", .rule .stringInner, word "\""]
  | .stringInner =>
    star (alt (seq (word "\\") (.char fun _ => true))
      (seq (.unless (words ["\"", "\\"])) (.char fun _ => true)))
  | .identifier => all [.unless reserved, .char isWordStart, star (.char isWordChar)]
  | .keyIdent => seq (.char isWordStart) (star (.char isWordChar))
  | kw => keyword (spellings kw)

def kind : Rule → RuleKind
  | .stringLiteral => .joined
  | .typeName | .binaryOp | .unaryOp | .nullLiteral | .boolLiteral | .floatLiteral | .intLiteral
  | .stringInner | .identifier | .keyIdent
  | .kwClass | .kwEnd | .kwLet | .kwGet | .kwAs | .kwNew | .kwLiteral | .kwIf | .kwThen | .kwElse
  | .kwEndif | .kwForeach | .kwIn | .kwDo | .kwEndforeach | .kwFor | .kwWhen | .kwEndfor => .token
  | _ => .spaced

end Rule

def grammar : Grammar Rule := ⟨Rule.body, Rule.kind, Layout.skip⟩

/-- Between two characters that are read, far fewer than 4096 steps are nested in one another. -/
def stepLimit (source : String) : Nat := 4096 * (source.length + 2)

def matchSource (r : Rule) (source : String) : Outcome Rule :=
  grammar.run (stepLimit source) true (.rule r) (.ofSource source)

end Dil
