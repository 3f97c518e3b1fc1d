import Dil.Proofs.Slice.Occurrences

namespace Dil

open Build (Node Sited)
open Chain (Folding)
open Slice (Run operandRules)

namespace Slice

/-- The tree was read somewhere in the source. -/
def Placed (source : String) (t : Node) : Prop := ∃ c d, Sited source t c d

def Answer (source : String) (os : List Occurrence) : Prop := ∀ o ∈ os, o.Answers source

section Trees

variable {source : String} {c d : Cursor} {r : Rule} {sp : Span} {t u : Node} {ts us : List Node} {e : Expr}
  {os : List Occurrence}

theorem placed_of_row (inside : c.In source) (row : grammar.Row c ts d) : ∀ u ∈ ts, Placed source u := by
  induction ts generalizing c with
  | nil => exact nofun
  | cons t ts ih =>
      obtain ⟨e, f, -, sited, inside', others⟩ := Build.row_cons inside row
      exact List.forall_mem_cons.mpr ⟨⟨e, f, sited⟩, ih inside' others⟩

theorem Placed.child (placed : Placed source (.node r sp ts)) (spaced : Rule.kind r = .spaced) :
    ∀ u ∈ ts, Placed source u := by
  obtain ⟨c, d, sited⟩ := placed
  exact placed_of_row sited.inside (sited.below spaced)

theorem answer_append {os ps : List Occurrence} (first : Answer source os) (second : Answer source ps) :
    Answer source (os ++ ps) := List.forall_mem_append.mpr ⟨first, second⟩

theorem answer_cons (back : e.ReadsBack source) (others : Answer source os) :
    Answer source (⟨e, false⟩ :: os) := List.forall_mem_cons.mpr ⟨.alone back, others⟩

theorem answer_nil : Answer source [] := List.forall_mem_nil _

theorem answer_list {α : Type} {build : Node → Except BuildError α} {occurrences : α → List Occurrence}
    {as : List α} (each : ∀ t ∈ ts, ∀ a, build t = .ok a → Answer source (occurrences a))
    (built : List.Forall₂ (fun t a => build t = .ok a) ts as) : Answer source (as.flatMap occurrences) := by
  induction built with
  | nil => exact answer_nil
  | cons head _ ih =>
      rw [List.forall_mem_cons] at each
      exact answer_append (each.1 _ head) (ih each.2)

theorem Run.operands {links : Chain.Links} (run : Run source c ts e links d) :
    ∀ f ∈ e :: links.map (·.2), ∃ u ∈ ts, Build.expr u = .ok f := by
  induction run with
  | last _ _ built => exact fun f member => ⟨_, List.mem_cons_self, List.mem_singleton.mp member ▸ built⟩
  | link _ _ built _ _ _ ih =>
      refine List.forall_mem_cons.mpr ⟨⟨_, List.mem_cons_self, built⟩, fun f member => ?_⟩
      obtain ⟨u, among, found⟩ := ih f member
      exact ⟨u, List.mem_cons_of_mem _ (List.mem_cons_of_mem _ among), found⟩

theorem answer_folding (t : Folding) (operands : ∀ e ∈ t.operands, Answer source e.occurrences)
    (joined : ∀ s ∈ t.nodes, s.toExpr.ReadsBack source) : Answer source t.toExpr.occurrences := by
  induction t with
  | operand e => exact operands e (List.mem_singleton_self e)
  | joined op left right ihLeft ihRight =>
      rw [Folding.operands_joined, List.forall_mem_append] at operands
      rw [Folding.nodes, List.forall_mem_cons, List.forall_mem_append] at joined
      exact answer_cons joined.1
        (answer_append (ihLeft operands.1 joined.2.1) (ihRight operands.2 joined.2.2))

theorem readsBack_of_operand (among : r ∈ operandRules) (sited : Sited source (.node r sp ts) c d)
    (built : Build.expr (.node r sp ts) = .ok e) (place : e.span = sp) : e.ReadsBack source := by
  obtain rfl := sited.node_place
  exact readsBack_of_chain (k := 0) among sited.inside sited.still sited.found
    (chain_ok_iff.mpr ⟨e, [], ⟨_, [], rfl, built, rfl⟩, rfl⟩) place

theorem isSign_of_primary {place : Span} (built : Build.primary place t = .ok e) : e.isSign = false := by
  unfold Build.primary at built
  split at built <;> first | cases built | obtain ⟨_, -, built⟩ := bind_eq_ok_iff.mp built
  all_goals first | rfl | (cases built; rfl)

theorem isSign_of_operand (sited : Sited source (.node .prefixExpr sp ts) c d) (member : t ∈ ts)
    (built : Build.expr t = .ok e) : e.isSign = false := by
  obtain ⟨_, signs, u, same, operand, each⟩ := Reading.grown_prefixExpr ⟨c, d, sited.still, sited.found⟩
  cases same
  rcases List.mem_append.mp member with sign | last
  · obtain ⟨_, _, _, _, rfl, -⟩ := (each t sign).leaf rfl
    cases built
  · obtain rfl := List.mem_singleton.mp last
    obtain ⟨_, a, path, rfl, base, -⟩ := Reading.grown_postfixExpr operand
    obtain ⟨_, _, b, rfl, -⟩ := Reading.grown_primaryExpr base
    cases path with
    | nil =>
        rw [Build.expr, Build.expr] at built
        exact isSign_of_primary built
    | cons s path =>
        rw [Build.expr] at built
        · obtain ⟨_, -, built⟩ := bind_eq_ok_iff.mp built
          obtain ⟨_, -, done⟩ := bind_eq_ok_iff.mp built
          cases done
          rfl
        · exact List.cons_ne_nil s path

/-- Behind the first sign each further one has the place of the first. -/
theorem answer_signs {outer : Expr} (back : outer.ReadsBack source) (place : outer.span = sp)
    (each : ∀ t ∈ ts, ∀ f, Build.expr t = .ok f → f.isSign = false ∧ Answer source f.occurrences)
    (built : Build.operations sp ts = .ok e) (smaller : sizeOf e < sizeOf outer) :
    Answer source (⟨e, e.isSign⟩ :: e.inside) := by
  induction ts generalizing e with
  | nil => cases built
  | cons t ts ih =>
      rw [List.forall_mem_cons] at each
      unfold Build.operations at built
      split at built
      · rename_i same
        cases same
        obtain ⟨operand, inner, done⟩ := bind_eq_ok_iff.mp built
        cases done
        have less : sizeOf operand < sizeOf outer := by
          simp only [Expr.unary.sizeOf_spec] at smaller
          omega
        exact List.forall_mem_cons.mpr ⟨.sign back place smaller, ih each.2 inner less⟩
      · rename_i same
        cases same
        obtain ⟨other, answer⟩ := each.1 e built
        rw [other]
        exact answer
      · cases built

/-- All that is built of a tree answers for its places. -/
structure Answered (source : String) (t : Node) : Prop where
  expr {e : Expr} (placed : Placed source t) (built : Build.expr t = .ok e) : Answer source e.occurrences
  primary {sp : Span} {e : Expr} (placed : Placed source t) (built : Build.primary sp t = .ok e) :
    Answer source e.inside
  segment {s : Segment} (placed : Placed source t) (built : Build.segment t = .ok s) : Answer source s.inside
  entry {e : Entry} (placed : Placed source t) (built : Build.entry t = .ok e) : Answer source e.inside

theorem answered_expr (each : ∀ t ∈ ts, Answered source t) (placed : Placed source (.node r sp ts))
    (built : Build.expr (.node r sp ts) = .ok e) : Answer source e.occurrences := by
  have whole := built
  obtain ⟨c, d, sited⟩ := id placed
  unfold Build.expr at built
  split at built
  · rename_i same
    cases same
    exact (each _ (by simp)).expr (placed.child rfl _ (by simp)) built
  · rename_i same
    cases same
    obtain ⟨value, inner, built⟩ := bind_eq_ok_iff.mp built
    obtain ⟨T, -, done⟩ := bind_eq_ok_iff.mp built
    cases done
    refine answer_cons ?_ ((each _ (by simp)).expr (placed.child rfl _ (by simp)) inner)
    exact readsBack_of_expression sited.inside sited.still sited.found whole sited.node_place
  · rename_i same
    cases same
    obtain ⟨first, links, d', run, rfl⟩ := run_of_chain sited whole
    obtain ⟨t, -, rfl, rfl, graded⟩ := Chain.fold_passes first links
    rw [graded.fold_eq]
    refine answer_folding t (fun f member => ?_) fun s member => ?_
    · obtain ⟨u, among, found⟩ := Run.operands run f member
      exact (each u among).expr (placed.child rfl u among) found
    · obtain ⟨c', us, d', run'⟩ := run.of_mem member
      exact run'.readsBack (graded.of_mem member)
  · rename_i same
    cases same
    have operands : ∀ t ∈ ts, ∀ f, Build.expr t = .ok f → f.isSign = false ∧ Answer source f.occurrences :=
      fun t member f found => ⟨isSign_of_operand sited member found,
        (each t member).expr (placed.child rfl t member) found⟩
    unfold Build.operations at built
    split at built
    · obtain ⟨operand, inner, done⟩ := bind_eq_ok_iff.mp built
      cases done
      rw [List.forall_mem_cons] at operands
      have back := readsBack_of_operand (by decide) sited whole rfl
      refine answer_cons back (answer_signs back rfl operands.2 inner ?_)
      simp only [Expr.unary.sizeOf_spec]
      omega
    · exact (operands _ (by simp) e built).2
    · cases built
  · rename_i same
    cases same
    exact (each _ (by simp)).expr (placed.child rfl _ (by simp)) built
  · rename_i same
    cases same
    obtain ⟨base, first, built⟩ := bind_eq_ok_iff.mp built
    obtain ⟨ss, path, done⟩ := bind_eq_ok_iff.mp built
    cases done
    have back := readsBack_of_operand (by decide) sited whole rfl
    have children := placed.child rfl
    rw [List.forall_mem_cons] at each children
    refine answer_cons back (answer_append (each.1.expr children.1 first) ?_)
    rw [Expr.insideSegments_eq]
    exact answer_list (fun t member s => (each.2 t member).segment (children.2 t member))
      (Build.segments_ok_iff.mp path)
  · rename_i same
    cases same
    refine answer_cons (readsBack_of_operand (by decide) sited whole (span_of_primary built)) ?_
    exact (each _ (by simp)).primary (placed.child rfl _ (by simp)) built
  · cases built

theorem answered_primary {place : Span} (each : ∀ t ∈ ts, Answered source t)
    (placed : Placed source (.node r sp ts)) (built : Build.primary place (.node r sp ts) = .ok e) :
    Answer source e.inside := by
  unfold Build.primary at built
  split at built
  · cases ‹Tree.node _ _ _ = _›
  · cases ‹Tree.node _ _ _ = _›
  · cases ‹Tree.node _ _ _ = _›
  · cases ‹Tree.node _ _ _ = _›
  · obtain ⟨_, -, done⟩ := bind_eq_ok_iff.mp built
    cases done
    exact answer_nil
  · rename_i same
    cases same
    obtain ⟨es, found, done⟩ := bind_eq_ok_iff.mp built
    cases done
    rw [Expr.inside, Expr.insideEntries_eq]
    exact answer_list (fun t member e => (each t member).entry (placed.child rfl t member))
      (Build.entries_ok_iff.mp found)
  · rename_i same
    cases same
    obtain ⟨es, found, done⟩ := bind_eq_ok_iff.mp built
    cases done
    rw [Expr.inside, Expr.insideItems_eq]
    exact answer_list (fun t member e => (each t member).expr (placed.child rfl t member))
      (Build.items_ok_iff.mp found)
  · obtain ⟨_, -, done⟩ := bind_eq_ok_iff.mp built
    cases done
    exact answer_nil
  · cases ‹Tree.node _ _ _ = _›
  · rename_i same
    cases same
    obtain ⟨inner, found, done⟩ := bind_eq_ok_iff.mp built
    cases done
    exact (each _ (by simp)).expr (placed.child rfl _ (by simp)) found
  · cases built

theorem answered_segment {s : Segment} (each : ∀ t ∈ ts, Answered source t)
    (placed : Placed source (.node r sp ts)) (built : Build.segment (.node r sp ts) = .ok s) :
    Answer source s.inside := by
  unfold Build.segment at built
  split at built
  · obtain ⟨_, -, done⟩ := bind_eq_ok_iff.mp built
    cases done
    exact answer_nil
  · rename_i same
    cases same
    obtain ⟨e, found, done⟩ := bind_eq_ok_iff.mp built
    cases done
    exact (each _ (by simp)).expr (placed.child rfl _ (by simp)) found
  · cases built

theorem answered_entry {e : Entry} (each : ∀ t ∈ ts, Answered source t)
    (placed : Placed source (.node r sp ts)) (built : Build.entry (.node r sp ts) = .ok e) :
    Answer source e.inside := by
  unfold Build.entry at built
  split at built
  · rename_i same
    cases same
    obtain ⟨_, -, built⟩ := bind_eq_ok_iff.mp built
    obtain ⟨value, found, done⟩ := bind_eq_ok_iff.mp built
    cases done
    exact (each _ (by simp)).expr (placed.child rfl _ (by simp)) found
  · cases built

theorem answered_leaf (r : Rule) (sp : Span) (text : List Char) : Answered source (.leaf r sp text) := by
  refine ⟨fun _ built => ?_, fun _ built => ?_, fun _ built => ?_, fun _ built => ?_⟩
  · cases built
  · unfold Build.primary at built
    split at built <;> first | cases built | obtain ⟨_, -, built⟩ := bind_eq_ok_iff.mp built
    all_goals first | exact answer_nil | (cases built; exact answer_nil) | cases ‹Tree.leaf _ _ _ = _›
  · cases built
  · cases built

theorem answered (source : String) (t : Node) : Answered source t := by
  induction t using Tree.induct with
  | step t each =>
      cases t with
      | leaf r sp text => exact answered_leaf r sp text
      | node r sp ts =>
          exact ⟨answered_expr each, answered_primary each, answered_segment each, answered_entry each⟩

end Trees

end Slice

end Dil
