namespace Dil

abbrev openBrace : String := "\x7b"

abbrev closeBrace : String := "\x7d"

/-- A stretch of the source in UTF-8 bytes, the end exclusive. -/
structure Span where
  start : Nat
  stop : Nat
  deriving DecidableEq, Repr

def Span.merge (a b : Span) : Span := ⟨min a.start b.start, max a.stop b.stop⟩

def byteLength : List Char → Nat
  | [] => 0
  | c :: cs => c.utf8Size + byteLength cs

/-- A reading position: what is still to be read, and how many bytes lie before it. -/
structure Cursor where
  rest : List Char
  offset : Nat
  deriving DecidableEq, Repr

namespace Cursor

def ofSource (source : String) : Cursor := ⟨source.toList, 0⟩

def past (c : Cursor) (read rest : List Char) : Cursor := ⟨rest, c.offset + byteLength read⟩

def takeBytes : Nat → List Char → List Char
  | _, [] => []
  | 0, _ => []
  | n, c :: cs => c :: takeBytes (n - c.utf8Size) cs

def textUpTo (c d : Cursor) : List Char := takeBytes (d.offset - c.offset) c.rest

def spanTo (c d : Cursor) : Span := ⟨c.offset, d.offset⟩

end Cursor

end Dil
