import Dil.Proofs.Slice.Expressions

namespace Dil.Slice

open Build (Node Sited)
open Chain (Folding InOrder)

/-- The operands of a chain and the operators between them, as they were read one behind another. -/
inductive Run (source : String) : Cursor → List Node → Expr → Chain.Links → Cursor → Prop where
  | last {c d : Cursor} {t : Node} {e : Expr} (operand : Build.ruleOf t = .prefixExpr)
      (sited : Sited source t c d) (built : Build.expr t = .ok e) : Run source c [t] e [] d
  | link {c f g d : Cursor} {t : Node} {ts : List Node} {e e' : Expr} {op : BinaryOp} {links : Chain.Links}
      {sp : Span} {symbol : List Char} (operand : Build.ruleOf t = .prefixExpr)
      (sited : Sited source t c f) (built : Build.expr t = .ok e)
      (sign : grammar.Settles true (.rule .binaryOp) (Layout.skip f) (.matched [.leaf .binaryOp sp symbol] g))
      (found : BinaryOp.ofSymbol? (String.ofList symbol) = some op)
      (others : Run source (Layout.skip g) ts e' links d) :
      Run source c (t :: .leaf .binaryOp sp symbol :: ts) e ((op, e') :: links) d

variable {source : String} {c d f : Cursor} {ts vs : List Node} {t : Node} {e e' : Expr} {op : BinaryOp}
  {links ls ms : Chain.Links} {sp : Span}

theorem skip_in (inside : c.In source) : (Layout.skip c).In source := by
  obtain ⟨s, ahead⟩ := inside
  obtain ⟨r, layout⟩ := Layout.skip_reads c
  exact ⟨_, ahead.trans layout⟩

theorem run_of_more {v : Verdict Rule} {p : Rule.Part} (settles : grammar.Settles true p f v)
    (repeated : p = .more (.seq (.rule .binaryOp) (.rule .prefixExpr))) (matched : v = .matched vs d)
    (operand : Build.ruleOf t = .prefixExpr) (sited : Sited source t c f) (built : Build.expr t = .ok e)
    (rest : Build.links vs = .ok links) : ∃ d', Run source c (t :: vs) e links d' := by
  generalize layout : true = spaced at settles
  induction settles generalizing c t e vs links with
  | more first others _ ih =>
      cases repeated
      subst layout
      obtain ⟨ws, rfl, rfl⟩ := Verdict.of_after_matched matched
      obtain ⟨_, g, _, sign, second, rfl⟩ := first.matched_seq
      obtain ⟨_, ⟨⟩, -⟩ := sign.matched_body
      obtain ⟨t', rfl⟩ := second.matched_rule
      obtain ⟨op, e', links', found, ⟨_, _, ⟨⟩, built', rest'⟩, rfl⟩ := links_ok_iff.mp rest
      obtain ⟨_, reads, -⟩ := Build.reads_of_matched sign
      have inside : (Layout.skip g).In source := by
        obtain ⟨_, ahead⟩ := skip_in sited.stop
        exact skip_in ⟨_, ahead.trans reads⟩
      have sited' := Build.sited_of_settles inside (Layout.skip_skip g) second
      obtain ⟨d', run⟩ := ih rfl rfl (Build.ruleOf_eq second) sited' built' rest' rfl
      exact ⟨d', .link operand sited built sign found run⟩
  | moreNone =>
      cases matched
      cases rest
      exact ⟨_, .last operand sited built⟩
  | _ => cases repeated

theorem run_of_chain (sited : Sited source (.node .arithExpr sp ts) c d)
    (built : Build.expr (.node .arithExpr sp ts) = .ok e) :
    ∃ first links d', Run source c ts first links d' ∧ e = Chain.fold first links := by
  obtain ⟨_, ⟨⟩, inner⟩ := sited.found.matched_node rfl
  obtain ⟨_, f, vs, operand, repeated, rfl⟩ := inner.matched_seq
  obtain ⟨t, rfl⟩ := operand.matched_rule
  obtain ⟨first, links, ⟨_, _, ⟨⟩, value, rest⟩, rfl⟩ := chain_ok_iff.mp built
  have sited' := Build.sited_of_settles sited.inside sited.still operand
  obtain ⟨d', further, -⟩ := Seam.more_of_star repeated
  obtain ⟨d'', run⟩ := run_of_more further rfl rfl (Build.ruleOf_eq operand) sited' value rest
  exact ⟨first, links, d'', run, rfl⟩

theorem Run.split (run : Run source c ts e (ls ++ (op, e') :: ms) d) :
    ∃ us d' c' vs, Run source c us e ls d' ∧ Run source c' vs e' ms d := by
  induction ls generalizing c ts e with
  | nil =>
      cases run with
      | link operand sited built _ _ others => exact ⟨_, _, _, _, .last operand sited built, others⟩
  | cons l ls ih =>
      cases run with
      | link operand sited built sign found others =>
          obtain ⟨us, d', c', vs, first, second⟩ := ih others
          exact ⟨_, d', c', vs, .link operand sited built sign found first, second⟩

theorem Run.of_mem {s t : Folding} (run : Run source c ts t.first t.links d) (member : s ∈ t.nodes) :
    ∃ c' us d', Run source c' us s.first s.links d' := by
  induction t generalizing c ts d with
  | operand e => cases member
  | joined op left right ihLeft ihRight =>
      rcases List.mem_cons.mp member with rfl | below
      · exact ⟨c, ts, d, run⟩
      · obtain ⟨us, d', c', vs, first, second⟩ := run.split
        rcases List.mem_append.mp below with inLeft | inRight
        · exact ihLeft first inLeft
        · exact ihRight second inRight

theorem span_of_primary {place : Span} (built : Build.primary place t = .ok e) : e.span = place := by
  unfold Build.primary at built
  split at built <;> first | cases built | obtain ⟨_, -, built⟩ := bind_eq_ok_iff.mp built
  all_goals first | rfl | (cases built; rfl)

theorem end_of_star {r : Rule} (settles : grammar.Settles true (.star (.rule r)) c (.matched [] d)) : d = c := by
  generalize verdict : Verdict.matched [] d = v at settles
  cases settles with
  | star first others =>
      obtain ⟨_, rfl⟩ := first.matched_rule
      obtain ⟨_, -, none⟩ := Verdict.of_after_matched verdict.symm
      cases none
  | starNone =>
      cases verdict
      rfl

theorem offset_le {p : Rule.Part} (settles : grammar.Settles true p c (.matched ts d)) : c.offset ≤ d.offset := by
  obtain ⟨_, reads, -⟩ := Build.reads_of_matched settles
  rw [reads.offset]
  omega

theorem offset_le_skip (c : Cursor) : c.offset ≤ (Layout.skip c).offset := by
  obtain ⟨_, reads⟩ := Layout.skip_reads c
  rw [reads.offset]
  omega

/-- The expression has the place of an operand: what is read there is all that it is built of. -/
def Seated (c d : Cursor) (e : Expr) : Prop :=
  ∃ r ∈ operandRules, ∃ u d', grammar.Settles true (.rule r) c (.matched [u] d') ∧ Build.expr u = .ok e ∧
    e.span = c.spanTo d' ∧ d'.offset ≤ d.offset

theorem seated_primary (settles : grammar.Settles true (.rule .primaryExpr) c (.matched [t] d))
    (built : Build.expr t = .ok e) : Seated c d e := by
  refine ⟨.primaryExpr, by decide, t, d, settles, built, ?_, Nat.le_refl _⟩
  obtain ⟨_, rfl, choice⟩ := settles.matched_node rfl
  obtain ⟨_, -, found⟩ := Grammar.Settles.matched_first choice
  obtain ⟨_, rfl⟩ := found.matched_rule
  rw [Build.expr] at built
  exact span_of_primary built

/-- A path ends with its last segment. Without segments only the value counts, not the layout behind it. -/
theorem seated_postfix (settles : grammar.Settles true (.rule .postfixExpr) c (.matched [t] d))
    (built : Build.expr t = .ok e) : Seated c d e := by
  have whole := built
  obtain ⟨_, rfl, inner⟩ := settles.matched_node rfl
  obtain ⟨_, f, ws, base, path, rfl⟩ := inner.matched_seq
  obtain ⟨b, rfl⟩ := base.matched_rule
  cases ws with
  | nil =>
      rw [List.append_nil, Build.expr] at built
      obtain ⟨r, among, u, d', found, value, place, within⟩ := seated_primary base built
      have path : grammar.Settles true _ (Layout.skip f) (.matched [] d) := path
      exact ⟨r, among, u, d', found, value, place,
        Nat.le_trans within (Nat.le_trans (offset_le_skip f) (offset_le path))⟩
  | cons w ws =>
      refine ⟨.postfixExpr, by decide, _, d, settles, whole, ?_, Nat.le_refl _⟩
      rw [List.singleton_append, Build.expr] at built
      · obtain ⟨_, -, built⟩ := bind_eq_ok_iff.mp built
        obtain ⟨_, -, done⟩ := bind_eq_ok_iff.mp built
        cases done
        rfl
      · exact List.cons_ne_nil w ws

theorem seated_prefix (settles : grammar.Settles true (.rule .prefixExpr) c (.matched [t] d))
    (still : Layout.skip c = c) (built : Build.expr t = .ok e) : Seated c d e := by
  have whole := built
  obtain ⟨_, rfl, inner⟩ := settles.matched_node rfl
  obtain ⟨us, f, _, signs, operand, rfl⟩ := inner.matched_seq
  obtain ⟨p, rfl⟩ := operand.matched_rule
  rw [Build.expr] at built
  cases us with
  | nil =>
      cases end_of_star signs
      rw [show grammar.skipIf true c = c from still] at operand
      obtain ⟨_, rfl, -⟩ := operand.matched_node rfl
      rw [List.nil_append, operations_operand] at built
      exact seated_postfix operand built
  | cons sign us =>
      refine ⟨.prefixExpr, by decide, _, d, settles, whole, ?_, Nat.le_refl _⟩
      rw [List.cons_append] at built
      unfold Build.operations at built
      split at built
      · obtain ⟨_, -, done⟩ := bind_eq_ok_iff.mp built
        cases done
        rfl
      · rename_i same
        simp at same
      · cases built

theorem Run.start (run : Run source c ts e links d) : c.In source ∧ Layout.skip c = c := by
  cases run with
  | last _ sited => exact ⟨sited.inside, sited.still⟩
  | link _ sited => exact ⟨sited.inside, sited.still⟩

theorem seated_of_sited (operand : Build.ruleOf t = .prefixExpr) (sited : Sited source t c d)
    (built : Build.expr t = .ok e) : Seated c d e :=
  seated_prefix (operand ▸ sited.found) sited.still built

theorem Seated.span (seated : Seated c d e) :
    e.span.start = c.offset ∧ c.offset ≤ e.span.stop ∧ e.span.stop ≤ d.offset := by
  obtain ⟨_, -, _, d', found, -, place, within⟩ := seated
  rw [place]
  exact ⟨rfl, offset_le found, within⟩

theorem Run.inOrder (run : Run source c ts e links d) :
    InOrder (e :: links.map (·.2)) ∧ e.span.start = c.offset ∧
      ∀ f ∈ e :: links.map (·.2), c.offset ≤ f.span.start ∧ c.offset ≤ f.span.stop := by
  induction run with
  | last operand sited built =>
      obtain ⟨start, stop, -⟩ := (seated_of_sited operand sited built).span
      refine ⟨List.pairwise_singleton _ _, start, ?_⟩
      simp only [List.map_nil, List.forall_mem_singleton]
      exact ⟨Nat.le_of_eq start.symm, stop⟩
  | @link c f g d t ts e e' op links sp symbol operand sited built sign found others ih =>
      obtain ⟨start, stop, within⟩ := (seated_of_sited operand sited built).span
      obtain ⟨ordered, -, behind⟩ := ih
      have ahead : f.offset ≤ (Layout.skip g).offset :=
        Nat.le_trans (offset_le_skip f) (Nat.le_trans (offset_le sign) (offset_le_skip g))
      rw [List.map_cons]
      refine ⟨List.pairwise_cons.mpr ⟨fun h member => ?_, ordered⟩, start, ?_⟩
      · obtain ⟨later, later'⟩ := behind h member
        omega
      · refine List.forall_mem_cons.mpr ⟨by omega, fun h member => ?_⟩
        obtain ⟨later, later'⟩ := behind h member
        omega

theorem Run.chain (run : Run source c ts e links d) :
    ∃ r ∈ operandRules, ∃ us d', grammar.Settles true (chainPart r links.length) c (.matched us d') ∧
      Chained us e links ∧ ∀ f ∈ (e :: links.map (·.2)).getLast?, d'.offset = f.span.stop := by
  induction run with
  | last operand sited built =>
      obtain ⟨r, among, u, d', found, value, place, -⟩ := seated_of_sited operand sited built
      refine ⟨r, among, [u], d', found, ⟨u, [], rfl, value, rfl⟩, ?_⟩
      simp only [List.map_nil, List.getLast?_singleton, Option.mem_some_iff, forall_eq', place]
      rfl
  | link operand sited built sign found others ih =>
      obtain ⟨r, among, us, d', settles, chained, stop⟩ := ih
      refine ⟨r, among, _, d', .seq (operand ▸ sited.found) (.seq sign settles), ⟨_, _, rfl, built, ?_⟩, ?_⟩
      · exact links_ok_iff.mpr ⟨_, _, _, found, chained, rfl⟩
      · rwa [List.map_cons, List.getLast?_cons_cons]

theorem last_of_operands (t : Folding) : t.operands.getLast? = some t.last := by
  induction t with
  | operand e => rfl
  | joined op left right _ ih =>
      rw [Folding.operands_joined, List.getLast?_append, ih]
      rfl

theorem Run.readsBack {s : Folding} (graded : s.Graded) (run : Run source c ts s.first s.links d) :
    s.toExpr.ReadsBack source := by
  obtain ⟨r, among, us, d', settles, chained, stop⟩ := run.chain
  obtain ⟨ordered, start, -⟩ := run.inOrder
  obtain ⟨inside, still⟩ := run.start
  have built : Build.expr (.node .arithExpr .nowhere us) = .ok s.toExpr :=
    chain_ok_iff.mpr ⟨_, _, chained, graded.fold_eq.symm⟩
  refine readsBack_of_chain among inside still settles built ?_
  rw [Folding.span_toExpr ordered, start, ← stop s.last (last_of_operands s)]
  rfl

end Dil.Slice
