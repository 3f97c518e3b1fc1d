import Dil.Text.Numeral

/-!
The inside of a string literal. Writing escapes the quote, the backslash and all control
characters; reading takes a few more escapes than writing uses.
-/

namespace Dil.Quoted

def isControl (c : Char) : Bool := c.toNat < 0x20 || (0x7F ≤ c.toNat && c.toNat < 0xA0)

def escapeChar (c : Char) : List Char :=
  match c with
  | '\n' => ['\\', 'n']
  | '\r' => ['\\', 'r']
  | '\t' => ['\\', 't']
  | '\\' => ['\\', '\\']
  | '"' => ['\\', '"']
  | c => if isControl c then '\\' :: 'u' :: '{' :: Numeral.ofNat 16 c.toNat ++ ['}'] else [c]

def escape (s : List Char) : List Char := s.flatMap escapeChar

def letterEscape? : Char → Option Char
  | 'n' => some '\n'
  | 'r' => some '\r'
  | 't' => some '\t'
  | '\\' => some '\\'
  | '"' => some '"'
  | '0' => some '\x00'
  | _ => none

/-- The character with a code in hexadecimal digits, which may have a plus sign in front. -/
def scalar? (code : List Char) : Option Char := do
  let n ← Numeral.natural? 16 (match code with | '+' :: ds => ds | ds => ds)
  if h : n.isValidChar then some (Char.ofNatAux n h) else none

/-- Where a reader of escapes stands; `code` keeps the digits read so far, the last one first. -/
inductive Mode where
  | plain
  | escape
  | brace
  | code (digits : List Char)

/-- A character code ends at its closing brace or with the text. -/
def decode : Mode → List Char → Option (List Char)
  | .plain, [] => some []
  | .plain, '\\' :: cs => decode .escape cs
  | .plain, c :: cs => (decode .plain cs).map (c :: ·)
  | .escape, [] => none
  | .escape, 'u' :: cs => decode .brace cs
  | .escape, c :: cs => (letterEscape? c).bind fun d => (decode .plain cs).map (d :: ·)
  | .brace, '{' :: cs => decode (.code []) cs
  | .brace, _ => none
  | .code ds, [] => (scalar? ds.reverse).map ([·])
  | .code ds, '}' :: cs => (scalar? ds.reverse).bind fun d => (decode .plain cs).map (d :: ·)
  | .code ds, c :: cs => decode (.code (c :: ds)) cs

def unescape (s : List Char) : Option (List Char) := decode .plain s

def quote (s : String) : String := "\"" ++ String.ofList (escape s.toList) ++ "\""

end Dil.Quoted
