import Dil.Proofs.Slice.Chains
import Dil.Proofs.Slice.Passage

/-!
The text at the place of an expression, read on its own. What reads the expression in a source up to some
position reads it in the text up to that position, and there the source ends.
-/

namespace Dil

open Build (Node Sited)
open Rule (Part)
open Seam (Leaves Local follow)

def Expr.shifted (n : Nat) (e : Expr) : Expr := e.mapSpans (Span.shifted n)

/-- The text at the place of the expression, read alone, gives the expression, in the places that it has
in that text. -/
def Expr.ReadsBack (source : String) (e : Expr) : Prop :=
  ∃ text e', e.span.Spells source text ∧ readExpression (String.ofList text) = .ok e' ∧
    e'.shifted e.span.start = e

theorem Span.shifted_merge (n : Nat) (a b : Span) :
    (a.merge b).shifted n = (a.shifted n).merge (b.shifted n) := by
  simp only [Span.shifted, Span.merge, Span.mk.injEq]
  omega

namespace Slice

variable {source : String} {last : Rule} {k n : Nat} {c d : Cursor} {ts us : List Node} {t u : Node} {p : Part}
  {e : Expr}

theorem built_of_shifted (built : Build.expr (t.mapSpans (Span.shifted n)) = .ok e) :
    ∃ e', Build.expr t = .ok e' ∧ e'.shifted n = e := by
  have bare := Build.expr_bare _ _ built
  rw [Tree.bare_mapSpans] at bare
  obtain ⟨e', found, -⟩ := (Build.kept t).expr _ bare
  have moved := (Build.mapsSpans (Span.shifted_merge n) t).expr e' found
  rw [built] at moved
  exact ⟨e', found, (Except.ok.inj moved).symm⟩

theorem read_of_text (closed : Local follow AtEnd p) (inside : c.In source) (still : Layout.skip c = c)
    (settles : grammar.Settles true p c (.matched ts d)) :
    ∃ text us d', (c.spanTo d).Spells source text ∧
      Layout.skip (.ofSource (String.ofList text)) = .ofSource (String.ofList text) ∧
      grammar.Settles true p (.ofSource (String.ofList text)) (.matched us d') ∧ d'.rest = [] ∧
      ts = Tree.mapSpansEach (Span.shifted c.offset) us := by
  obtain ⟨text, reads, -⟩ := Build.reads_of_matched settles
  have cut : Cursor.Cut d.rest c.offset c (.ofSource (String.ofList text)) := by
    refine ⟨?_, (Nat.zero_add _).symm⟩
    rw [Cursor.ofSource, String.toList_ofList]
    exact reads.rest
  have still' : Layout.skip (.ofSource (String.ofList text)) = .ofSource (String.ofList text) := by
    have skipped := cut.skip (z := d.rest) (by rw [still, reads.rest, List.length_append]; omega)
    rw [still] at skipped
    apply Relayout.skip_of_behind
    rw [← Layout.skip_rest]
    exact List.append_cancel_right (skipped.rest.symm.trans cut.rest)
  have ended (d' : Cursor) (stop : Cursor.Cut d.rest c.offset d d') : d'.rest = [] :=
    List.append_left_eq_self.mp stop.rest.symm
  obtain ⟨us, d', settles', beside, stop, -⟩ := Seam.carries (passage d.rest c.offset) Seam.local_body closed
    settles rfl rfl cut (.inl ⟨still, still'⟩) (Nat.le_refl _) fun d' stop => by
      rw [AtEnd, Layout.skip_rest, ended d' stop, Layout.behind_nil]
  exact ⟨text, us, d', inside.spells reads, still', settles', ended d' stop, mapSpansEach_of_forall₂ beside⟩

/-- Operands with operators between them, from the first one's place to the last one's, read back as the
expression that they make. -/
theorem readsBack_of_chain (among : last ∈ operandRules) (inside : c.In source) (still : Layout.skip c = c)
    (settles : grammar.Settles true (chainPart last k) c (.matched ts d))
    (built : Build.expr (.node .arithExpr .nowhere ts) = .ok e) (place : e.span = c.spanTo d) :
    e.ReadsBack source := by
  obtain ⟨text, us, d', spells, still', settles', nothing, rfl⟩ :=
    read_of_text (local_chain among) inside still settles
  have moved : Build.expr (.mapSpans (Span.shifted c.offset) (.node .arithExpr .nowhere us)) = .ok e :=
    chain_ok_iff.mpr (chain_ok_iff.mp built)
  obtain ⟨e', found, same⟩ := built_of_shifted moved
  obtain ⟨u, leaves, whole⟩ := leaves_of_chain among still' settles' (by rw [nothing, Layout.behind_nil])
  refine ⟨text, e', place ▸ spells, readExpression_ok_iff.mpr ⟨u, leaves, whole _ e' found⟩, ?_⟩
  rw [place]
  exact same

theorem readsBack_of_expression (inside : c.In source) (still : Layout.skip c = c)
    (settles : grammar.Settles true (.rule .expression) c (.matched [t] d)) (built : Build.expr t = .ok e)
    (place : e.span = c.spanTo d) : e.ReadsBack source := by
  have closed : Local follow AtEnd (.rule .expression) :=
    .rule rfl fun q _ nothing => Seam.begins_weaken (by decide) (begins_of_end nothing)
  obtain ⟨text, us, d', spells, still', settles', nothing, same⟩ := read_of_text closed inside still settles
  obtain ⟨u, rfl⟩ := settles'.matched_rule
  obtain rfl := (List.cons.inj same).1
  obtain ⟨e', found, same⟩ := built_of_shifted built
  refine ⟨text, e', place ▸ spells, readExpression_ok_iff.mpr ⟨u, ⟨d', still'.symm ▸ settles', ?_⟩, found⟩, ?_⟩
  · rw [nothing, Layout.behind_nil]
  · rw [place]
    exact same

end Slice

end Dil
