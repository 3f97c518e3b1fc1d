import Dil.Proofs.Eval.Places
import Dil.Proofs.Syntax.Bared

/-!
An expression whose text is moved: some bytes further on, and to where a line end stands behind it. Its
places move along. The place of a sign reaches up to what is read next, so that a sign at the end of the
text takes the line end along.
-/

namespace Dil

def Span.shifted (n : Nat) (sp : Span) : Span := ⟨sp.start + n, sp.stop + n⟩

def Ident.shifted (n : Nat) (i : Ident) : Ident := ⟨i.name, i.span.shifted n⟩

def TypeName.shifted (n : Nat) (t : TypeName) : TypeName := ⟨t.tag, t.span.shifted n⟩

def BuildError.shifted (n : Nat) : BuildError → BuildError
  | .unknownType name sp => .unknownType name (sp.shifted n)
  | e => e

/-- Whether the layout behind an operand belongs to the place of the sign before it: nothing ends the
operand but what is read next. -/
def Expr.trails : Expr → Bool
  | .path _ _ _ => false
  | .unary _ _ operand => operand.trails
  | _ => true

section Moved

variable (n size : Nat)

def Span.moved (sp : Span) (trails : Bool) : Span :=
  ⟨sp.start + n, sp.stop + n + (trails && sp.stop == size).toNat⟩

mutual

/-- The expression `n` bytes further on, with a line end behind its text of the given size. -/
def Expr.moved : Expr → Expr
  | .null sp => .null (sp.shifted n)
  | .bool sp b => .bool (sp.shifted n) b
  | .int sp i => .int (sp.shifted n) i
  | .float sp x => .float (sp.shifted n) x
  | .str sp s => .str (sp.shifted n) s
  | .map sp entries => .map (sp.shifted n) (Expr.movedEntries entries)
  | .array sp items => .array (sp.shifted n) (Expr.movedItems items)
  | .create sp className => .create (sp.shifted n) (className.shifted n)
  | .var sp name => .var (sp.shifted n) name
  | .path sp base segments => .path (sp.shifted n) base.moved (Expr.movedSegments segments)
  | .binary _ op left right => Chain.join op left.moved right.moved
  | .unary sp op operand => .unary (sp.moved n size operand.trails) op operand.moved
  | .cast sp value target => .cast (sp.shifted n) value.moved (target.shifted n)
  | .paren sp inner => .paren (sp.shifted n) inner.moved

def Expr.movedItems : List Expr → List Expr
  | [] => []
  | e :: es => e.moved :: Expr.movedItems es

def Entry.moved : Entry → Entry
  | .mk key value => .mk (key.shifted n) value.moved

def Expr.movedEntries : List Entry → List Entry
  | [] => []
  | e :: es => e.moved :: Expr.movedEntries es

def Segment.moved : Segment → Segment
  | .field name => .field (name.shifted n)
  | .index position => .index position.moved

def Expr.movedSegments : List Segment → List Segment
  | [] => []
  | s :: ss => s.moved :: Expr.movedSegments ss

end

mutual

theorem Expr.unplaced_moved : ∀ e : Expr, (e.moved n size).unplaced = e.unplaced
  | .null _ | .bool _ _ | .int _ _ | .float _ _ | .str _ _ | .var _ _ | .create _ _ => rfl
  | .map _ entries => by simp only [Expr.moved, Expr.unplaced, unplacedEntries_moved entries]
  | .array _ items => by simp only [Expr.moved, Expr.unplaced, unplacedItems_moved items]
  | .path _ base segments => by
      simp only [Expr.moved, Expr.unplaced, unplaced_moved base, unplacedSegments_moved segments]
  | .binary _ op left right => by
      simp only [Expr.moved, Chain.join, Expr.unplaced, unplaced_moved left, unplaced_moved right]
  | .unary _ op operand => by simp only [Expr.moved, Expr.unplaced, unplaced_moved operand]
  | .cast _ value target => by
      simp only [Expr.moved, Expr.unplaced, unplaced_moved value]
      rfl
  | .paren _ inner => by simp only [Expr.moved, Expr.unplaced, unplaced_moved inner]

theorem Expr.unplacedItems_moved : ∀ es : List Expr,
    unplacedItems (movedItems n size es) = unplacedItems es
  | [] => rfl
  | e :: es => by simp only [movedItems, unplacedItems, unplaced_moved e, unplacedItems_moved es]

theorem Expr.unplacedEntries_moved : ∀ es : List Entry,
    unplacedEntries (movedEntries n size es) = unplacedEntries es
  | [] => rfl
  | .mk key value :: es => by
      simp only [movedEntries, unplacedEntries, Entry.moved, Entry.unplaced, unplaced_moved value,
        unplacedEntries_moved es]
      rfl

theorem Expr.unplacedSegments_moved : ∀ ss : List Segment,
    unplacedSegments (movedSegments n size ss) = unplacedSegments ss
  | [] => rfl
  | .field name :: ss => by
      simp only [movedSegments, unplacedSegments, Segment.moved, Segment.unplaced,
        unplacedSegments_moved ss]
      rfl
  | .index position :: ss => by
      simp only [movedSegments, unplacedSegments, Segment.moved, Segment.unplaced,
        unplaced_moved position, unplacedSegments_moved ss]

end

theorem eval_moved (create : String → Eval Value) (scope : Scope) (e : Expr) :
    eval create scope (e.moved n size) = eval create scope e := by
  rw [← eval_unplaced, Expr.unplaced_moved, eval_unplaced]

theorem Chain.fold_moved (e : Expr) (links : Links) :
    (fold e links).moved n size = fold (e.moved n size) (formed (Expr.moved n size) links) :=
  fold_formed (fun _ _ _ => by simp only [join, Expr.moved]) e links

end Moved

end Dil
