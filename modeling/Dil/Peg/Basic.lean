import Dil.Source

namespace Dil

/-- A parsing expression with rules named by `ρ`. Choice is ordered and repetition takes all it
can; `ahead` and `unless` look without reading. -/
inductive Peg (ρ : Type) where
  | nothing
  | endOfInput
  | char (accepts : Char → Bool)
  | text (word : List Char)
  | rule (r : ρ)
  | seq (a b : Peg ρ)
  | alt (a b : Peg ρ)
  | opt (a : Peg ρ)
  /-- Any number of `a`, the first one at once. -/
  | star (a : Peg ρ)
  /-- Any number of `a`, each after layout. -/
  | more (a : Peg ρ)
  | ahead (a : Peg ρ)
  | unless (a : Peg ρ)

/-- How a rule treats layout and the rules it uses: between the parts of a `spaced` rule layout is
skipped; a `joined` rule skips none; a `token` skips none and keeps its text in place of parts. -/
inductive RuleKind where
  | spaced
  | joined
  | token
  deriving DecidableEq, Repr

structure Grammar (ρ : Type) where
  body : ρ → Peg ρ
  kind : ρ → RuleKind
  skip : Cursor → Cursor

inductive Tree (ρ : Type) where
  | leaf (rule : ρ) (span : Span) (text : List Char)
  | node (rule : ρ) (span : Span) (children : List (Tree ρ))

namespace Peg

variable {ρ : Type}

def word (s : String) : Peg ρ := .text s.toList

def all : List (Peg ρ) → Peg ρ
  | [] => .nothing
  | [a] => a
  | a :: as => .seq a (all as)

def first : List (Peg ρ) → Peg ρ
  | [] => .unless .nothing
  | [a] => a
  | a :: as => .alt a (first as)

def words (ss : List String) : Peg ρ := first (ss.map word)

def plus (a : Peg ρ) : Peg ρ := .seq a (.star a)

end Peg

end Dil
