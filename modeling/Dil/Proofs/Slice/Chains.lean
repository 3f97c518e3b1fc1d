import Dil.Proofs.Seam.Expressions

namespace Dil.Slice

open Build (Node)
open Layout (behind)
open Rule (Part pathSegment)
open Seam (Local Leaves follow)

def operandRules : List Rule := [.primaryExpr, .postfixExpr, .prefixExpr]

/-- Operands with operators between them. The last one is of the given rule. -/
def chainPart (last : Rule) : Nat → Part
  | 0 => .rule last
  | k + 1 => .seq (.rule .prefixExpr) (.seq (.rule .binaryOp) (chainPart last k))

/-- What is built of operands with operators between them: the first operand, and the links behind it. -/
def Chained (ts : List Node) (e : Expr) (links : Chain.Links) : Prop :=
  ∃ t us, ts = t :: us ∧ Build.expr t = .ok e ∧ Build.links us = .ok links

theorem links_ok_iff {sp : Span} {symbol : List Char} {ts : List Node} {links : Chain.Links} :
    Build.links (.leaf .binaryOp sp symbol :: ts) = .ok links ↔
      ∃ op first rest, BinaryOp.ofSymbol? (String.ofList symbol) = some op ∧ Chained ts first rest ∧
        links = (op, first) :: rest := by
  constructor
  · intro built
    cases ts with
    | nil => cases built
    | cons t us =>
        rw [Build.links] at built
        split at built
        · rename_i op found
          obtain ⟨e, first, built⟩ := bind_eq_ok_iff.mp built
          obtain ⟨ls, rest, done⟩ := bind_eq_ok_iff.mp built
          cases done
          exact ⟨op, e, ls, found, ⟨t, us, rfl, first, rest⟩, rfl⟩
        · cases built
  · rintro ⟨op, first, rest, found, ⟨t, us, rfl, built, others⟩, rfl⟩
    rw [Build.links, found]
    simp only [built, others]
    rfl

theorem chain_ok_iff {sp : Span} {ts : List Node} {e : Expr} :
    Build.expr (.node .arithExpr sp ts) = .ok e ↔
      ∃ first links, Chained ts first links ∧ e = Chain.fold first links := by
  constructor
  · intro built
    cases ts with
    | nil => cases built
    | cons t us =>
        rw [Build.expr] at built
        obtain ⟨first, operand, built⟩ := bind_eq_ok_iff.mp built
        obtain ⟨links, rest, done⟩ := bind_eq_ok_iff.mp built
        cases done
        exact ⟨first, links, ⟨t, us, rfl, operand, rest⟩, rfl⟩
  · rintro ⟨first, links, ⟨t, us, rfl, operand, rest⟩, rfl⟩
    rw [Build.expr, operand, rest]
    rfl

def AtEnd : Seam.Next := fun q => q.rest = []

variable {last : Rule} {k : Nat} {q d e : Cursor} {ts : List Node} {t : Node} {a : Part}

theorem begins_of_end (nothing : q.rest = []) : Seam.Begins [([], none)] q := by
  rw [Seam.Begins, Seam.startOf, nothing]
  exact List.mem_singleton_self _

theorem refused_at_end (check : Seam.refusesAll a [([], none)] = true) (nothing : behind q.rest = []) :
    grammar.Settles true a (Layout.skip q) .refused :=
  Seam.refused_of_begins check (Layout.skip_skip q) (begins_of_end ((Layout.skip_rest q).trans nothing))

theorem local_chain (among : last ∈ operandRules) : Local follow AtEnd (chainPart last k) := by
  have tail (q : Cursor) (nothing : AtEnd q) : Seam.Begins Seam.tails q :=
    Seam.begins_weaken (by decide) (begins_of_end nothing)
  induction k with
  | zero =>
      simp only [operandRules, List.mem_cons, List.not_mem_nil, or_false] at among
      rcases among with rfl | rfl | rfl
      · exact .rule rfl fun q _ nothing => .inl (.inl (tail q nothing))
      · exact .rule rfl fun q _ nothing => .inl (tail q nothing)
      · exact .rule rfl fun q _ nothing => .inl (tail q nothing)
  | succ k ih =>
      refine .seq (.rule rfl fun q _ next => .inr ?_) (.seq (.lexeme rfl) ih)
      obtain ⟨us, d, settles, -⟩ := next
      exact Seam.ahead_of_seq ⟨us, d, settles⟩

theorem operations_operand (place sp : Span) (r : Rule) (us : List Node) :
    Build.operations place [.node r sp us] = Build.expr (.node r sp us) := rfl

theorem prefix_of_postfix (still : Layout.skip q = q)
    (settles : grammar.Settles true (.rule .postfixExpr) q (.matched [t] d)) :
    ∃ u, grammar.Settles true (.rule .prefixExpr) q (.matched [u] d) ∧ Build.expr u = Build.expr t := by
  have signless : grammar.Settles true (.star (.rule .unaryOp)) q (.matched [] q) :=
    .starNone (Seam.stops_of_starts (F := fun _ => True) (by decide) q still ⟨[t], d, settles, trivial⟩)
  obtain ⟨sp, us, rfl⟩ : ∃ sp us, t = .node .postfixExpr sp us := by
    obtain ⟨us, rfl, -⟩ := settles.matched_node rfl
    exact ⟨_, us, rfl⟩
  rw [← show grammar.skipIf true q = q from still] at settles
  refine ⟨_, Grammar.settles_node rfl (.seq signless settles), ?_⟩
  rw [List.nil_append, Build.expr, operations_operand]

theorem postfix_of_primary (settles : grammar.Settles true (.rule .primaryExpr) q (.matched [t] d))
    (nothing : behind d.rest = []) :
    ∃ u, grammar.Settles true (.rule .postfixExpr) q (.matched [u] (Layout.skip d)) ∧
      Build.expr u = Build.expr t := by
  have none : grammar.Settles true (.star pathSegment) (Layout.skip d) (.matched [] (Layout.skip d)) :=
    .starNone (refused_at_end (by decide) nothing)
  refine ⟨_, Grammar.settles_node rfl (.seq settles none), ?_⟩
  rw [List.append_nil, Build.expr]

theorem prefix_of_operand (among : last ∈ operandRules) (still : Layout.skip q = q)
    (settles : grammar.Settles true (.rule last) q (.matched [t] d)) (nothing : behind d.rest = []) :
    ∃ u e, grammar.Settles true (.rule .prefixExpr) q (.matched [u] e) ∧ behind e.rest = [] ∧
      Build.expr u = Build.expr t := by
  simp only [operandRules, List.mem_cons, List.not_mem_nil, or_false] at among
  rcases among with rfl | rfl | rfl
  · obtain ⟨v, path, same⟩ := postfix_of_primary settles nothing
    obtain ⟨u, operand, same'⟩ := prefix_of_postfix still path
    refine ⟨u, _, operand, ?_, same'.trans same⟩
    rw [Layout.skip_rest, Layout.behind_behind, nothing]
  · obtain ⟨u, operand, same⟩ := prefix_of_postfix still settles
    exact ⟨u, d, operand, nothing, same⟩
  · exact ⟨t, d, settles, nothing, rfl⟩

theorem operands_of_chain (among : last ∈ operandRules) (still : Layout.skip q = q)
    (settles : grammar.Settles true (chainPart last k) q (.matched ts d)) (nothing : behind d.rest = []) :
    ∃ t us e f, grammar.Settles true (.rule .prefixExpr) q (.matched [t] e) ∧
      grammar.Settles true (.more (.seq (.rule .binaryOp) (.rule .prefixExpr))) e (.matched us f) ∧
      behind f.rest = [] ∧ ∀ first links, Chained ts first links → Chained (t :: us) first links := by
  induction k generalizing q ts with
  | zero =>
      obtain ⟨t, rfl⟩ := settles.matched_rule
      obtain ⟨u, e, operand, nothing, same⟩ := prefix_of_operand among still settles nothing
      refine ⟨u, [], e, e, operand, .moreNone (refused_at_end (by decide) nothing), nothing, ?_⟩
      rintro first links ⟨_, _, ⟨⟩, built, rest⟩
      exact ⟨u, [], rfl, same.trans built, rest⟩
  | succ k ih =>
      obtain ⟨_, e, _, operand, others, rfl⟩ := settles.matched_seq
      obtain ⟨_, f, vs, sign, rest, rfl⟩ := others.matched_seq
      obtain ⟨t, rfl⟩ := operand.matched_rule
      obtain ⟨_, ⟨⟩, -⟩ := sign.matched_body
      obtain ⟨t', us, e', f', operand', further, nothing, same⟩ := ih (Layout.skip_skip f) rest
      refine ⟨t, _ :: t' :: us, e, f', operand, .more (.seq sign operand') further, nothing, ?_⟩
      rintro first links ⟨_, _, ⟨⟩, built, found⟩
      obtain ⟨op, second, others, symbol, chained, rfl⟩ := links_ok_iff.mp found
      exact ⟨t, _, rfl, built, links_ok_iff.mpr ⟨op, second, others, symbol, same _ _ chained, rfl⟩⟩

theorem leaves_of_chain {s : String} (among : last ∈ operandRules)
    (still : Layout.skip (.ofSource s) = .ofSource s)
    (settles : grammar.Settles true (chainPart last k) (.ofSource s) (.matched ts d)) (nothing : behind d.rest = []) :
    ∃ u, Leaves (.ofSource s) u [] ∧
      ∀ sp e, Build.expr (.node .arithExpr sp ts) = .ok e → Build.expr u = .ok e := by
  obtain ⟨t, us, e, f, operand, further, nothing, chained⟩ := operands_of_chain among still settles nothing
  obtain ⟨g, repeated, stop⟩ := Seam.star_of_more further
  have same : behind g.rest = [] := by
    rw [← Layout.skip_rest, stop, Layout.skip_rest, nothing]
  have chain := Grammar.settles_node (r := Rule.arithExpr) rfl (.seq operand repeated)
  have untyped : grammar.Settles true (.opt (.rule .typeSuffix)) (Layout.skip g) (.matched [] (Layout.skip g)) :=
    .optNone (refused_at_end (by decide) same)
  have whole := Grammar.settles_node (r := Rule.expression) rfl (.seq chain untyped)
  refine ⟨_, ⟨_, still.symm ▸ whole, ?_⟩, ?_⟩
  · rw [Layout.skip_rest, Layout.behind_behind, same]
  · intro sp e built
    obtain ⟨first, links, found, rfl⟩ := chain_ok_iff.mp built
    rw [List.append_nil, Build.expr]
    exact chain_ok_iff.mpr ⟨first, links, chained first links found, rfl⟩

end Dil.Slice
