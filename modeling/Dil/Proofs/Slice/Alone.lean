import Dil.Proofs.Reading.Writing
import Dil.Proofs.Slice.Chains

namespace Dil.Slice

variable {source : String} {before after : List Rule} {r : Rule} {c d : Cursor} {t : Build.Node} {e : Expr}

theorem settles_primary (order : before ++ r :: after = Reading.primaryRules)
    (others : ∀ q ∈ before, grammar.Settles true (.rule q) c .refused)
    (settles : grammar.Settles true (.rule r) c (.matched [t] d)) :
    grammar.Settles true (.rule .primaryExpr) c (.matched [.node .primaryExpr (c.spanTo d) [t]] d) := by
  have choice : Rule.body .primaryExpr
      = Peg.first (before.map .rule ++ .rule r :: after.map .rule) := by
    rw [← List.map_cons, ← List.map_append, order]
    rfl
  refine Grammar.settles_node rfl ?_
  change grammar.Settles true (Rule.body .primaryExpr) _ _
  rw [choice]
  refine Grammar.settles_first (fun q member => ?_) settles
  obtain ⟨q, among, rfl⟩ := List.mem_map.mp member
  exact others q among

theorem words_refused {x : Char} (head : c.rest.head? = some x) (other : x ∉ ['n', 't', 'f']) :
    grammar.Settles true (.rule .nullLiteral) c .refused
      ∧ grammar.Settles true (.rule .boolLiteral) c .refused := by
  simp only [List.mem_cons, List.not_mem_nil, or_false, not_or] at other
  obtain ⟨null, yes, no⟩ := other
  constructor
  · exact Grammar.settles_token_refused rfl (.seqRefused (Seam.sign_refused head null))
  · exact Grammar.settles_token_refused rfl
      (.seqRefused (.altSecond (Seam.sign_refused head yes) (Seam.sign_refused head no)))

theorem still_of_solid (solid : Reading.Solid source) :
    Layout.skip (.ofSource source) = .ofSource source := by
  have behind := solid.behind Reading.apart_nil
  rw [List.append_nil] at behind
  exact Relayout.skip_of_behind behind

theorem readExpression_alone (solid : Reading.Solid source)
    (order : before ++ r :: after = Reading.primaryRules)
    (others : ∀ q ∈ before, grammar.Settles true (.rule q) (.ofSource source) .refused)
    (settles : grammar.Settles true (.rule r) (.ofSource source) (.matched [t] d)) (nothing : d.rest = [])
    (built : Build.primary ⟨0, d.offset⟩ t = .ok e) : readExpression source = .ok e := by
  have operand : grammar.Settles true (chainPart .primaryExpr 0) (.ofSource source) _ :=
    settles_primary order others settles
  obtain ⟨u, leaves, whole⟩ := leaves_of_chain (by decide) (still_of_solid solid) operand
    (by rw [nothing, Layout.behind_nil])
  have alone : Build.expr (.node .arithExpr .nowhere [.node .primaryExpr ⟨0, d.offset⟩ [t]]) = .ok e :=
    chain_ok_iff.mpr ⟨e, [], ⟨_, [], rfl, by rw [Build.expr, built], rfl⟩, rfl⟩
  exact readExpression_ok_iff.mpr ⟨u, leaves, whole _ e alone⟩

end Dil.Slice
