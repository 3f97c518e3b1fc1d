import Dil.Source

namespace Dil.Layout

def isBlank (c : Char) : Bool := c == ' ' || c == '\t' || c == '\r' || c == '\n'

/-- Both line ends are blanks, so a line comment may take its own end along. -/
def endsLine (c : Char) : Bool := c == '\n' || c == '\r'

/-- Where the reader stands: between tokens, in a line comment, or in a block comment that it may
have to give back because its end mark is missing. -/
inductive Mode where
  | between
  | line
  | block (opened : Cursor)

def scan : Mode → List Char → Nat → Cursor
  | .between, [], n => ⟨[], n⟩
  | .between, c :: cs, n =>
    if isBlank c then scan .between cs (n + 1)
    else if c = '/' then
      match cs with
      | '/' :: ds => scan .line ds (n + 2)
      | '*' :: ds => scan (.block ⟨c :: cs, n⟩) ds (n + 2)
      | _ => ⟨c :: cs, n⟩
    else ⟨c :: cs, n⟩
  | .line, [], n => ⟨[], n⟩
  | .line, c :: cs, n => scan (if endsLine c then .between else .line) cs (n + c.utf8Size)
  | .block opened, [], _ => opened
  | .block _, '*' :: '/' :: cs, n => scan .between cs (n + 2)
  | .block opened, c :: cs, n => scan (.block opened) cs (n + c.utf8Size)

/-- The position behind all layout that starts here. -/
def skip (c : Cursor) : Cursor := scan .between c.rest c.offset

end Dil.Layout
