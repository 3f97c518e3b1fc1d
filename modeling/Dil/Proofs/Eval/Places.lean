import Dil.Eval
import Dil.Proofs.Syntax.Unplaced

namespace Dil

variable (create : String → Eval Value) (scope : Scope)

mutual

theorem eval_unplaced : ∀ e : Expr, eval create scope e.unplaced = eval create scope e
  | .null _ | .bool _ _ | .int _ _ | .float _ _ | .str _ _ | .var _ _ => by
      simp only [Expr.unplaced, eval]
  | .create _ className => by simp only [Expr.unplaced, eval, Ident.unplaced]
  | .map _ entries => by simp only [Expr.unplaced, eval, evalEntries_unplaced entries]
  | .array _ items => by simp only [Expr.unplaced, eval, evalItems_unplaced items]
  | .path _ base segments => by
      simp only [Expr.unplaced, eval, eval_unplaced base, evalSegments_unplaced segments]
  | .binary _ op left right => by
      simp only [Expr.unplaced, eval, eval_unplaced left, eval_unplaced right]
  | .unary _ op operand => by simp only [Expr.unplaced, eval, eval_unplaced operand]
  | .cast _ value target => by
      simp only [Expr.unplaced, eval, eval_unplaced value, TypeName.unplaced]
  | .paren _ inner => by simp only [Expr.unplaced, eval, eval_unplaced inner]

theorem evalItems_unplaced : ∀ es : List Expr,
    evalItems create scope (Expr.unplacedItems es) = evalItems create scope es
  | [] => rfl
  | e :: es => by
      simp only [Expr.unplacedItems, evalItems, eval_unplaced e, evalItems_unplaced es]

theorem evalEntries_unplaced : ∀ (es : List Entry) (body : Table Value),
    evalEntries create scope (Expr.unplacedEntries es) body = evalEntries create scope es body
  | [], _ => rfl
  | .mk key value :: es, body => by
      simp only [Expr.unplacedEntries, Entry.unplaced, evalEntries, Ident.unplaced,
        eval_unplaced value, evalEntries_unplaced es]

theorem evalSegments_unplaced : ∀ ss : List Segment,
    evalSegments create scope (Expr.unplacedSegments ss) = evalSegments create scope ss
  | [] => rfl
  | .field name :: ss => by
      simp only [Expr.unplacedSegments, Segment.unplaced, evalSegments, Ident.unplaced,
        evalSegments_unplaced ss]
  | .index position :: ss => by
      simp only [Expr.unplacedSegments, Segment.unplaced, evalSegments, eval_unplaced position,
        evalSegments_unplaced ss]

end

end Dil
