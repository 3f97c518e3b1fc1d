import Dil.Render.Text
import Dil.Text.Blank

/-!
Values as YAML documents in block style. A text is written plain where that reads back as the same
text, else in single quotes, or in double quotes if it has characters that need escapes; a text of
several lines is written as a literal block.
-/

namespace Dil.Yaml

inductive ScalarStyle where
  | plain
  | single
  | double
  | literal
  deriving DecidableEq

def isBreak (c : Char) : Bool :=
  c == '\n' || c == '\r' || c == '\u0085' || c == '\u2028' || c == '\u2029'

def isGap : Option Char → Bool
  | none => true
  | some c => c == ' ' || c == '\t' || isBreak c || c == '\x00'

def isPlainChar (c : Char) : Bool :=
  let n := c.toNat
  n == 0x0A || (0x20 ≤ n && n ≤ 0x7E) || (0xA0 ≤ n && n < 0xD800)
    || (0xE000 ≤ n && n ≤ 0xFFFD && n != 0xFEFF) || 0x10000 ≤ n

/-- Whether a text contains a mark of block structure, given the character before it. -/
def hasIndicator : Option Char → List Char → Bool
  | _, [] => false
  | before, c :: cs =>
    let beforeGap := isGap cs.head?
    let here :=
      match before with
      | none =>
        "#,[]\x7b\x7d&*!|>'\"%@\x60".toList.contains c || ((c == '?' || c == ':' || c == '-') && beforeGap)
      | some b => (c == ':' && beforeGap) || (c == '#' && isGap (some b))
    here || hasIndicator (some c) cs

def hasPair (first second : Char → Bool) : List Char → Bool
  | a :: b :: cs => (first a && second b) || hasPair first second (b :: cs)
  | _ => false

def isSpace (c : Char) : Bool := c == ' '

/-- Whether a text may be written plain, in single quotes, or as a literal block. -/
structure Allowed where
  plain : Bool
  single : Bool
  block : Bool

def allowed (s : List Char) : Allowed :=
  match s with
  | [] => ⟨true, true, false⟩
  | first :: _ =>
    let last := s.getLast?.getD first
    let marked := "---".toList.isPrefixOf s || "...".toList.isPrefixOf s || hasIndicator none s
    let special := s.any fun c => !isPlainChar c
    let spaceBreak := hasPair isSpace isBreak s
    let breakSpace := hasPair isBreak isSpace s
    let edge (c : Char) := isSpace c || isBreak c
    ⟨!(edge first || edge last || breakSpace || spaceBreak || special || s.any isBreak || marked),
      !(breakSpace || spaceBreak || special),
      !(isSpace last || spaceBreak || special)⟩

def readsAsMarkedInt (s : List Char) : Bool :=
  let (negative, cs) := match s with
    | '-' :: cs => (true, cs)
    | '+' :: cs => (false, cs)
    | cs => (false, cs)
  let bounded (base : Nat) (ds : List Char) : Bool :=
    (Numeral.natural? base ds).any fun n =>
      if negative then n ≤ Nat.pow 2 127 else n < Nat.pow 2 128
  match cs with
  | '0' :: 'x' :: ds => bounded 16 ds
  | '0' :: 'o' :: ds => bounded 8 ds
  | '0' :: 'b' :: ds => bounded 2 ds
  | _ => false

def hasLeadingZero (s : List Char) : Bool :=
  match s with
  | '-' :: '0' :: d :: ds | '+' :: '0' :: d :: ds | '0' :: d :: ds => (d :: ds).all Char.isDigit
  | _ => false

def readsAsFloat (s : List Char) : Bool :=
  let unsigned := match s with
    | '+' :: cs | '-' :: cs => cs
    | cs => cs
  [".inf", ".Inf", ".INF"].contains (String.ofList unsigned)
    || [".nan", ".NaN", ".NAN"].contains (String.ofList s)
    || (((Decimal.ofText? unsigned).map Decimal.toFloat).filter Binary64.isFinite).isSome

def reservedWords : List String :=
  ["true", "True", "TRUE", "false", "False", "FALSE", "null", "Null", "NULL", "~", ""]

def ambiguous (s : String) : Bool :=
  reservedWords.contains s || readsAsMarkedInt s.toList || hasLeadingZero s.toList
    || readsAsFloat s.toList

def styleOf (s : String) : ScalarStyle :=
  let a := allowed s.toList
  let quoted : ScalarStyle := if a.single then .single else .double
  if s.toList.contains '\n' then if a.block then .literal else .double
  else if ambiguous s then quoted
  else if a.plain then .plain
  else quoted

def spaces (n : Nat) : String := String.ofList (List.replicate n ' ')

def upperHex (width n : Nat) : List Char :=
  let ds := (Numeral.ofNat 16 n).map Char.toUpper
  List.replicate (width - ds.length) '0' ++ ds

def escapeChar (c : Char) : List Char :=
  let n := c.toNat
  match c with
  | '\x00' => ['\\', '0']
  | '\x07' => ['\\', 'a']
  | '\x08' => ['\\', 'b']
  | '\t' => ['\\', 't']
  | '\n' => ['\\', 'n']
  | '\x0b' => ['\\', 'v']
  | '\x0c' => ['\\', 'f']
  | '\r' => ['\\', 'r']
  | '\x1b' => ['\\', 'e']
  | '"' => ['\\', '"']
  | '\\' => ['\\', '\\']
  | '\u0085' => ['\\', 'N']
  | '\u2028' => ['\\', 'L']
  | '\u2029' => ['\\', 'P']
  | c =>
    if isPlainChar c then [c]
    else if n ≤ 0xFF then '\\' :: 'x' :: upperHex 2 n
    else '\\' :: 'u' :: upperHex 4 n

def singleQuoted (indent : Nat) : Bool → List Char → String
  | afterBreak, [] => if afterBreak then spaces indent else ""
  | afterBreak, c :: cs =>
    if isBreak c then c.toString ++ singleQuoted indent true cs
    else
      (if afterBreak then spaces indent else "") ++ (if c == '\'' then "''" else c.toString)
        ++ singleQuoted indent false cs

def literalLines (indent : Nat) : Bool → List Char → String
  | _, [] => ""
  | afterBreak, c :: cs =>
    if isBreak c then c.toString ++ literalLines indent true cs
    else (if afterBreak then spaces indent else "") ++ c.toString ++ literalLines indent false cs

/-- The marks of a literal block: how far it is indented if it starts with a gap, and what becomes
of the breaks at its end. -/
def literalMarks (s : List Char) : String :=
  let hint := if s.head?.any fun c => isSpace c || isBreak c then "2" else ""
  let chomp := match s.reverse with
    | [] => "-"
    | [c] => if isBreak c then "+" else "-"
    | c :: d :: _ => if isBreak c then (if isBreak d then "+" else "") else "-"
  "|" ++ hint ++ chomp

def styled (indent : Nat) (style : ScalarStyle) (s : String) : String :=
  match style with
  | .plain => s
  | .single => "'" ++ singleQuoted indent false s.toList ++ "'"
  | .double => "\"" ++ String.ofList (s.toList.flatMap escapeChar) ++ "\""
  | .literal => literalMarks s.toList ++ "\n" ++ literalLines indent true s.toList

def newLine (before : String) (indent : Nat) : String :=
  (if before.endsWith isBreak then before else before.push '\n') ++ spaces indent

/-- Whether a key may stand on one line with its value. -/
def isSimpleKey (s : String) : Bool := s.utf8ByteSize ≤ 128 && !s.toList.any isBreak

def keyText (indent : Nat) (s : String) : String :=
  if isSimpleKey s then styled indent (styleOf s) s ++ ":"
  else newLine ("? " ++ styled (indent + 2) (styleOf s) s) indent ++ ":"

def scalarText (indent : Nat) : Shown → String
  | .null => "null"
  | .bool b => boolText b
  | .int n => int64Text n
  | .float x => FloatStyle.yaml.text x
  | .str s => styled indent (styleOf s) s
  | .cycle => styled indent (styleOf cycleMark) cycleMark
  | .deep => styled indent (styleOf depthMark) depthMark
  | .list _ => "[]"
  | .record _ _ => openBrace ++ closeBrace

mutual

def inlineText (column : Nat) : Shown → String
  | .list (v :: vs) => listText column ("- " ++ inlineText (column + 2) v) vs
  | .record _ (.mk name v :: es) =>
    recordText column (keyText column name ++ entryText column (isSimpleKey name) v) es
  | v => scalarText column v

def listText (column : Nat) (before : String) : List Shown → String
  | [] => before
  | v :: vs =>
    listText column (newLine before column ++ "- " ++ inlineText (column + 2) v) vs

def recordText (column : Nat) (before : String) : List ShownEntry → String
  | [] => before
  | .mk name v :: es =>
    recordText column
      (newLine before column ++ keyText column name ++ entryText column (isSimpleKey name) v) es

/-- The value of an entry behind its colon. Lists stand below the key, records are indented. -/
def entryText (column : Nat) (simple : Bool) : Shown → String
  | .list (v :: vs) =>
    if simple then
      "\n" ++ spaces column ++ listText column ("- " ++ inlineText (column + 2) v) vs
    else " " ++ listText (column + 2) ("- " ++ inlineText (column + 4) v) vs
  | .record _ (.mk name v :: es) =>
    let inner := column + 2
    let first := keyText inner name ++ entryText inner (isSimpleKey name) v
    (if simple then "\n" ++ spaces inner else " ") ++ recordText inner first es
  | v => " " ++ scalarText (column + 2) v

end

def content : Shown → String
  | .list items => inlineText 0 (.list items)
  | .record className entries => inlineText 0 (.record className entries)
  | v => scalarText 2 v

end Dil.Yaml

namespace Dil

def Shown.yaml (v : Shown) : String :=
  "---\n" ++ String.ofList (Text.trimEnd (Yaml.content v).toList)

end Dil
