import Dil.Syntax.Basic

namespace Dil.Chain

abbrev Links := List (BinaryOp × Expr)

def join (op : BinaryOp) (left right : Expr) : Expr :=
  .binary (left.span.merge right.span) op left right

/-- Joins the operands of every operator of one precedence, from left to right. -/
def foldLevel (precedence : Nat) : Expr → Links → Expr × Links
  | e, [] => (e, [])
  | e, (op, f) :: links =>
    if op.precedence = precedence then foldLevel precedence (join op e f) links
    else
      let (f', links') := foldLevel precedence f links
      (e, (op, f') :: links')

def foldLevels : Nat → Expr × Links → Expr × Links
  | 0, chain => chain
  | level + 1, chain => foldLevels level (foldLevel (level + 1) chain.1 chain.2)

/-- The tree of a chain. All operators have a precedence from 1 to 8, so that none is left. -/
def fold (first : Expr) (links : Links) : Expr := (foldLevels 8 (first, links)).1

end Dil.Chain
