import Dil.Proofs.Slice.Answers

namespace Dil

open Build (Node Sited)

namespace Slice

section Trees

variable {source : String} {r : Rule} {sp : Span} {t : Node} {ts : List Node} {e : Expr}

theorem answer_part (placed : Placed source (.node r sp ts)) (spaced : Rule.kind r = .spaced) (member : t ∈ ts)
    (built : Build.expr t = .ok e) : Answer source e.occurrences :=
  (answered source t).expr (placed.child spaced t member) built

theorem answer_fieldDecl {f : FieldDecl} (placed : Placed source t) (built : Build.fieldDecl t = .ok f) :
    Answer source f.value.occurrences := by
  unfold Build.fieldDecl at built
  split at built
  · obtain ⟨name, -, built⟩ := bind_eq_ok_iff.mp built
    obtain ⟨value, found, done⟩ := bind_eq_ok_iff.mp built
    have answer := answer_part placed rfl (by simp) found
    split at done
    · cases done
      exact answer
    · cases done
      exact answer
    · obtain ⟨T, -, done⟩ := bind_eq_ok_iff.mp done
      cases done
      exact answer
    · obtain ⟨T, -, done⟩ := bind_eq_ok_iff.mp done
      cases done
      exact answer
  · cases built

theorem answer_classDecl {k : ClassDecl} (placed : Placed source t) (built : Build.classDecl t = .ok k) :
    Answer source (k.fields.flatMap fun f => f.value.occurrences) := by
  unfold Build.classDecl at built
  split at built
  · obtain ⟨name, -, built⟩ := bind_eq_ok_iff.mp built
    obtain ⟨fs, fields, done⟩ := bind_eq_ok_iff.mp built
    cases done
    exact answer_list (fun t member f => answer_fieldDecl (placed.child rfl t (List.mem_cons_of_mem _ member)))
      (Build.fieldDecls_ok_iff.mp fields)
  · cases built

theorem answer_assignment {path : List Segment} (placed : ∀ t ∈ ts, Placed source t)
    (built : Build.assignment ts = .ok (path, e)) :
    Answer source (path.flatMap Segment.inside ++ e.occurrences) := by
  induction ts generalizing path with
  | nil => cases built
  | cons t ts ih =>
      rw [List.forall_mem_cons] at placed
      unfold Build.assignment at built
      split at built
      · rename_i same
        cases same
        obtain ⟨f, found, done⟩ := bind_eq_ok_iff.mp built
        cases done
        exact (answered source _).expr placed.1 found
      · rename_i same
        cases same
        obtain ⟨s, found, built⟩ := bind_eq_ok_iff.mp built
        obtain ⟨⟨path', e'⟩, rest, done⟩ := bind_eq_ok_iff.mp built
        cases done
        rw [List.flatMap_cons, List.append_assoc]
        exact answer_append ((answered source _).segment placed.1 found) (ih placed.2 rest)
      · cases built

structure StatementAnswered (source : String) (t : Node) : Prop where
  statement {s : Stmt} (placed : Placed source t) (built : Build.statement t = .ok s) :
    Answer source s.occurrences
  construct {sp : Span} {s : Stmt} (placed : Placed source t) (built : Build.construct sp t = .ok s) :
    Answer source s.occurrences
  block {ss : List Stmt} (placed : Placed source t) (built : Build.block t = .ok ss) :
    Answer source (Stmt.blockOccurrences ss)
  otherwise {sp : Span} {u : Node} {ss : List Stmt} (same : t = .node .elseClause sp [u])
    (placed : Placed source t) (built : Build.block u = .ok ss) : Answer source (Stmt.blockOccurrences ss)

theorem answer_statements {ss : List Stmt} (each : ∀ t ∈ ts, StatementAnswered source t)
    (placed : ∀ t ∈ ts, Placed source t) (built : Build.statements ts = .ok ss) :
    Answer source (ss.flatMap Stmt.occurrences) :=
  answer_list (fun t member _ => (each t member).statement (placed t member)) (Build.statements_ok_iff.mp built)

theorem answered_construct {place : Span} {s : Stmt} (each : ∀ t ∈ ts, StatementAnswered source t)
    (placed : Placed source (.node r sp ts)) (built : Build.construct place (.node r sp ts) = .ok s) :
    Answer source s.occurrences := by
  unfold Build.construct at built
  split at built
  · rename_i same
    cases same
    obtain ⟨k, decl, done⟩ := bind_eq_ok_iff.mp built
    cases done
    exact answer_classDecl placed decl
  · rename_i same
    cases same
    obtain ⟨name, -, built⟩ := bind_eq_ok_iff.mp built
    obtain ⟨value, found, done⟩ := bind_eq_ok_iff.mp built
    cases done
    exact answer_part placed rfl (by simp) found
  · rename_i same
    cases same
    obtain ⟨value, found, done⟩ := bind_eq_ok_iff.mp built
    cases done
    exact answer_part placed rfl (by simp) found
  · rename_i same
    cases same
    obtain ⟨name, -, built⟩ := bind_eq_ok_iff.mp built
    obtain ⟨⟨path, value⟩, rest, done⟩ := bind_eq_ok_iff.mp built
    cases done
    exact answer_assignment (fun t member => placed.child rfl t (List.mem_cons_of_mem _ member)) rest
  · rename_i same
    cases same
    obtain ⟨condition, found, built⟩ := bind_eq_ok_iff.mp built
    obtain ⟨yes, onTrue, done⟩ := bind_eq_ok_iff.mp built
    cases done
    have first := answer_part placed rfl (by simp) found
    have second := (each _ (by simp)).block (placed.child rfl _ (by simp)) onTrue
    exact answer_append first (answer_append second answer_nil)
  · rename_i same
    cases same
    obtain ⟨condition, found, built⟩ := bind_eq_ok_iff.mp built
    obtain ⟨yes, onTrue, built⟩ := bind_eq_ok_iff.mp built
    obtain ⟨no, onFalse, done⟩ := bind_eq_ok_iff.mp built
    cases done
    have first := answer_part placed rfl (by simp) found
    have children := placed.child rfl
    simp only [List.forall_mem_cons] at each children
    have second := each.2.1.block children.2.1 onTrue
    exact answer_append first (answer_append second (each.2.2.1.otherwise rfl children.2.2.1 onFalse))
  · rename_i same
    cases same
    obtain ⟨item, -, built⟩ := bind_eq_ok_iff.mp built
    obtain ⟨collection, found, built⟩ := bind_eq_ok_iff.mp built
    obtain ⟨body, block, done⟩ := bind_eq_ok_iff.mp built
    cases done
    have first := answer_part placed rfl (by simp) found
    exact answer_append first ((each _ (by simp)).block (placed.child rfl _ (by simp)) block)
  · rename_i same
    cases same
    obtain ⟨item, -, built⟩ := bind_eq_ok_iff.mp built
    obtain ⟨key, -, built⟩ := bind_eq_ok_iff.mp built
    obtain ⟨collection, found, built⟩ := bind_eq_ok_iff.mp built
    obtain ⟨body, block, done⟩ := bind_eq_ok_iff.mp built
    cases done
    have first := answer_part placed rfl (by simp) found
    exact answer_append first ((each _ (by simp)).block (placed.child rfl _ (by simp)) block)
  · rename_i same
    cases same
    obtain ⟨counter, -, built⟩ := bind_eq_ok_iff.mp built
    obtain ⟨condition, found, built⟩ := bind_eq_ok_iff.mp built
    obtain ⟨body, block, done⟩ := bind_eq_ok_iff.mp built
    cases done
    have first := answer_part placed rfl (by simp) found
    exact answer_append first ((each _ (by simp)).block (placed.child rfl _ (by simp)) block)
  · cases built

theorem answered_statement {s : Stmt} (each : ∀ t ∈ ts, StatementAnswered source t)
    (placed : Placed source (.node r sp ts)) (built : Build.statement (.node r sp ts) = .ok s) :
    Answer source s.occurrences := by
  unfold Build.statement at built
  split at built
  · rename_i same
    cases same
    exact (each _ (by simp)).construct (placed.child rfl _ (by simp)) built
  · cases built

theorem answered_block {ss : List Stmt} (each : ∀ t ∈ ts, StatementAnswered source t)
    (placed : Placed source (.node r sp ts)) (built : Build.block (.node r sp ts) = .ok ss) :
    Answer source (Stmt.blockOccurrences ss) := by
  unfold Build.block at built
  split at built
  · rename_i same
    cases same
    rw [Stmt.blockOccurrences_eq]
    exact answer_statements each (placed.child rfl) built
  · cases built

theorem statementAnswered (source : String) (t : Node) : StatementAnswered source t := by
  induction t using Tree.induct with
  | step t each =>
      cases t with
      | leaf r sp text =>
          refine ⟨fun _ built => ?_, fun _ built => ?_, fun _ built => ?_, nofun⟩
          all_goals cases built
      | node r sp ts =>
          refine ⟨answered_statement each, answered_construct each, answered_block each, ?_⟩
          rintro _ u ss ⟨⟩ placed built
          exact (each u List.mem_cons_self).block (placed.child rfl u List.mem_cons_self) built

end Trees

section Sources

variable {source : String} {d : Cursor} {t : Node}

theorem answer_program {p : Program}
    (settles : grammar.Settles true (.rule .program) (.ofSource source) (.matched [t] d))
    (built : Build.program t = .ok p) : Answer source p.occurrences := by
  obtain ⟨us, rfl, inner⟩ := settles.matched_node rfl
  obtain ⟨_, _, _, start, body, rfl⟩ := inner.matched_seq
  cases start
  obtain ⟨ts, e, _, statements, stop, rfl⟩ := body.matched_seq
  obtain ⟨stop, rfl⟩ := stop.matched_rule
  have row := statements.row grammar_bounded.forward Layout.skip_skip rfl (.inl (Layout.skip_skip _)) rfl
  obtain ⟨_, ahead⟩ := Layout.skip_reads (.ofSource source)
  simp only [Build.program, List.nil_append, List.dropLast_concat] at built
  obtain ⟨ss, found, done⟩ := bind_eq_ok_iff.mp built
  cases done
  exact answer_statements (fun t _ => statementAnswered source t) (placed_of_row ⟨_, ahead⟩ row) found

theorem answer_standalone {e : Expr}
    (settles : grammar.Settles true (.rule .standaloneExpression) (.ofSource source) (.matched [t] d))
    (built : Build.standalone t = .ok e) : Answer source e.occurrences := by
  obtain ⟨_, rfl, inner⟩ := settles.matched_node rfl
  obtain ⟨_, _, _, start, body, rfl⟩ := inner.matched_seq
  cases start
  obtain ⟨_, f, _, value, _, rfl⟩ := body.matched_seq
  obtain ⟨u, rfl⟩ := value.matched_rule
  obtain ⟨_, ahead⟩ := Layout.skip_reads (.ofSource source)
  have sited := Build.sited_of_settles ⟨_, ahead⟩ (Layout.skip_skip _) value
  exact (answered source u).expr ⟨_, _, sited⟩ built

end Sources

end Slice

/-- Every expression in what was read, also between operators and behind a sign, reads back from the text
at its place, with its places counted from there. The only exception is a sign behind another sign: it has
the place of the first of them, so that what is read there is that one. -/
theorem expressions_read_back (source : String) :
    (∀ p, readProgram source = .ok p →
      ∀ o ∈ p.occurrences, o.expr.ReadsBack source ↔ o.behindSign = false) ∧
    ∀ e, readExpression source = .ok e →
      ∀ o ∈ e.occurrences, o.expr.ReadsBack source ↔ o.behindSign = false := by
  constructor
  · intro p read o member
    obtain ⟨t, d, settles, built⟩ := readAs_eq_ok_iff.mp read
    exact (Slice.answer_program settles built o member).readsBack_iff
  · intro e read o member
    obtain ⟨t, d, settles, built⟩ := readAs_eq_ok_iff.mp read
    exact (Slice.answer_standalone settles built o member).readsBack_iff

/-- Operands of operators and casts, in a path, in brackets and behind one sign read back. Of two signs the
second one has the place of the first, and does not. -/
theorem second_sign_not_read_back :
    let script := "class P: x: -1 * 2 as int; class: end; a[0] = [1 - a->b[!c] - -3, \"\u00fc\" as str, \x7bk: (b)\x7d];"
    (∃ p, readProgram script = .ok p ∧ p.occurrences.length = 20 ∧ ∀ o ∈ p.occurrences, o.expr.ReadsBack script) ∧
      ∃ e, readExpression "--a" = .ok e ∧ e.span = ⟨0, 3⟩ ∧ e.ReadsBack "--a" ∧
        ∃ o ∈ e.inside, o.expr.span = ⟨0, 3⟩ ∧ ¬o.expr.ReadsBack "--a" := by
  intro script
  have single : (readProgram script).toOption.map (fun p => p.occurrences.map (·.behindSign)) =
      some (List.replicate 20 false) := by
    decide +kernel
  have double : (readExpression "--a").toOption.map (fun e =>
      (e.span, e.inside.map fun o => (o.expr.span, o.behindSign))) =
      some (⟨0, 3⟩, [(⟨0, 3⟩, true), (⟨2, 3⟩, false)]) := by
    decide +kernel
  constructor
  · cases read : readProgram script with
    | error cause => simp [read, Except.toOption] at single
    | ok p =>
        rw [read] at single
        have signs : p.occurrences.map (·.behindSign) = List.replicate 20 false := Option.some.inj single
        refine ⟨p, rfl, ?_, fun o member => ?_⟩
        · simpa using congrArg List.length signs
        · have one := List.mem_map_of_mem (f := (·.behindSign)) member
          rw [signs] at one
          exact ((expressions_read_back script).1 p read o member).mpr (List.eq_of_mem_replicate one)
  · cases read : readExpression "--a" with
    | error cause => simp [read, Except.toOption] at double
    | ok e =>
        rw [read] at double
        obtain ⟨place, signs⟩ := Prod.mk.inj (Option.some.inj double)
        have answers := (expressions_read_back "--a").2 e read
        have second : (⟨0, 3⟩, true) ∈ e.inside.map fun o => (o.expr.span, o.behindSign) :=
          signs ▸ List.mem_cons_self
        obtain ⟨o, member, same⟩ := List.mem_map.mp second
        obtain ⟨same, behind⟩ := Prod.mk.inj same
        refine ⟨e, rfl, place, (answers _ List.mem_cons_self).mpr rfl, o, member, same, fun back => ?_⟩
        rw [(answers o (List.mem_cons_of_mem _ member)).mp back] at behind
        cases behind

end Dil
