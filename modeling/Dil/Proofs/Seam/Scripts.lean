import Dil.Proofs.Seam.Follow
import Dil.Proofs.Seam.Splits
import Dil.Proofs.Session.Places
import Dil.Proofs.Syntax.Bared

namespace Dil

open Layout (behind)
open Rule (Part)

namespace Seam

section Repetitions

variable {S : Seam} {a : Part} {c c' d e : Cursor} {ts us : List (Tree Rule)}

theorem more_of_star (settles : grammar.Settles true (.star a) (Layout.skip c) (.matched ts d)) :
    ∃ e, grammar.Settles true (.more a) c (.matched ts e) ∧ Layout.skip e = Layout.skip d := by
  generalize verdict : Verdict.matched ts d = v at settles
  cases settles with
  | star first others =>
      have all : grammar.Settles true (.more a) c _ := .more first others
      rw [← verdict] at all
      exact ⟨d, all, rfl⟩
  | starNone first =>
      cases verdict
      exact ⟨c, .moreNone first, (Layout.skip_skip c).symm⟩

theorem star_of_more (settles : grammar.Settles true (.more a) c (.matched ts d)) :
    ∃ e, grammar.Settles true (.star a) (Layout.skip c) (.matched ts e)
      ∧ Layout.skip e = Layout.skip d := by
  generalize verdict : Verdict.matched ts d = v at settles
  cases settles with
  | more first others =>
      have all : grammar.Settles true (.star a) (Layout.skip c) _ := .star first others
      rw [← verdict] at all
      exact ⟨d, all, rfl⟩
  | moreNone first =>
      cases verdict
      exact ⟨_, .starNone first, Layout.skip_skip c⟩

/-- Statements up to the end of a source. -/
structure Script (c : Cursor) (ts : List (Tree Rule)) (d : Cursor) : Prop where
  statements : grammar.Settles true (.more (.rule .statement)) c (.matched ts d)
  done : behind d.rest = []

theorem rest_of_skip_eq (same : Layout.skip e = Layout.skip d) : behind e.rest = behind d.rest := by
  rw [← Layout.skip_rest, ← Layout.skip_rest, same]

theorem script_of_program {s : String} {t : Build.Node}
    (settles : grammar.Settles true (.rule .program) (.ofSource s) (.matched [t] d)) :
    ∃ sp ts stop e, t = .node .program sp (ts ++ [stop]) ∧ Script (.ofSource s) ts e := by
  obtain ⟨us, rfl, inner⟩ := settles.matched_node rfl
  obtain ⟨_, _, _, start, body, rfl⟩ := inner.matched_seq
  cases start
  obtain ⟨ts, e, _, statements, stop, rfl⟩ := body.matched_seq
  obtain ⟨stop, rfl⟩ := stop.matched_rule
  obtain ⟨_, -, ended⟩ := stop.matched_node rfl
  obtain ⟨f, more, same⟩ := more_of_star statements
  cases ended with
  | atEnd nothing =>
      refine ⟨_, ts, _, f, rfl, more, ?_⟩
      rw [rest_of_skip_eq same, ← Layout.skip_rest]
      exact nothing

theorem program_of_script {s : String} (script : Script (.ofSource s) ts d) :
    ∃ sp stop e, grammar.Settles true (.rule .program) (.ofSource s)
      (.matched [.node .program sp (ts ++ [stop])] e) := by
  obtain ⟨e, statements, same⟩ := star_of_more script.statements
  have nothing : (Layout.skip e).rest = [] := by
    rw [Layout.skip_rest, rest_of_skip_eq same, script.done]
  have stop : grammar.Settles true (.rule .endOfInput) (Layout.skip e) _ := .rule (.atEnd nothing)
  have inner : grammar.Settles true (Rule.body .program) (.ofSource s) _ :=
    .seq .nothing (.seq statements stop)
  have whole : grammar.Settles true (.rule .program) (.ofSource s) _ := .rule inner
  exact ⟨_, _, _, whole⟩

theorem Script.next (script : Script c ts d) : (Layout.skip c).rest.head? ≠ some ';' := by
  obtain ⟨statements, done⟩ := script
  generalize verdict : Verdict.matched ts d = v at statements
  cases statements with
  | more first => exact head_of_ahead rfl (by decide) (Layout.skip_skip c) ⟨_, _, first⟩
  | moreNone =>
      cases verdict
      rw [Layout.skip_rest, done]
      nofun

theorem statements_carried (nothing : behind S.left = []) {p : Part} {v : Verdict Rule} {spaced : Bool}
    (settles : grammar.Settles spaced p c v) (more : p = .more (.rule .statement)) (layout : spaced = true)
    (matched : v = .matched ts d) (mate : S.Mate c c') {ends : List (Tree Rule)}
    (later : ∀ d', S.Mate d d' → ∃ us e, Script d' us e ∧ Tree.bares us = ends) :
    ∃ us e, Script c' us e ∧ Tree.bares us = Tree.bares ts ++ ends := by
  induction settles generalizing c' ts d with
  | @more _ _ c e ts v first others _ ih =>
      cases more
      subst layout
      obtain ⟨vs, rfl, rfl⟩ := Verdict.of_after_matched matched
      have further (e' : Cursor) (mate : S.Mate e e') := ih rfl rfl rfl mate later
      have within : (behind S.left).length ≤ e.rest.length := by
        rw [nothing]
        exact Nat.zero_le _
      have closed : Local follow (follow .statement) (.rule .statement) := .rule rfl fun _ _ other => other
      obtain ⟨us, e', first', beside, mate', -⟩ := carries S.passage local_body closed first rfl rfl mate.skip.toMate
        (.inl ⟨Layout.skip_skip c, Layout.skip_skip c'⟩) within fun e' mate' => by
          obtain ⟨_, _, script, -⟩ := further e' mate'
          exact script.next
      obtain ⟨ws, f, script, bare⟩ := further e' mate'
      have here := bares_of_beside (fun _ _ _ beside => beside.bare) beside
      refine ⟨us ++ ws, f, ⟨.more first' script.statements, script.done⟩, ?_⟩
      rw [Tree.bares_append, Tree.bares_append, here, bare, List.append_assoc]
  | moreNone =>
      cases matched
      exact later c' mate
  | _ => cases more

end Repetitions

section Joined

variable {s₁ s₂ : String} {ts us : List (Tree Rule)} {d e : Cursor}

theorem script_behind {c : Cursor} (same : behind c.rest = behind s₂.toList)
    (script : Script (.ofSource s₂) us e) : ∃ vs f, Script c vs f ∧ Tree.bares vs = Tree.bares us := by
  obtain ⟨f, statements, stop⟩ := star_of_more script.statements
  have rest : (Layout.skip c).rest = (Layout.skip (.ofSource s₂)).rest := by
    rw [Layout.skip_rest, Layout.skip_rest, same]
    rfl
  obtain ⟨vs, g, there, bare, rest'⟩ := Relayout.settles_elsewhere statements rest
  obtain ⟨h, more, stop'⟩ := more_of_star there
  refine ⟨vs, h, ⟨more, ?_⟩, bare⟩
  rw [rest_of_skip_eq stop', rest', rest_of_skip_eq stop, script.done]

theorem script_joined (first : Script (.ofSource s₁) ts d) (second : Script (.ofSource s₂) us e) :
    ∃ vs f, Script (.ofSource (s₁ ++ "\n" ++ s₂)) vs f ∧ Tree.bares vs = Tree.bares ts ++ Tree.bares us := by
  obtain ⟨x, l, quiet, line, split⟩ := trails_of_settles first.statements (by decide) (by decide)
    Bool.false_ne_true.elim first.done
  have here : (Cursor.ofSource s₁).rest = x ++ l := split
  have there : (Cursor.ofSource (s₁ ++ "\n" ++ s₂)).rest = x ++ (l ++ '\n' :: s₂.toList) := by
    have source : s₁.toList = x ++ l := split
    simp [Cursor.ofSource, source]
  let S := Seam.closing line s₂.toList (byteLength (x ++ l)) (byteLength (x ++ (l ++ '\n' :: s₂.toList)))
  have mate : S.Mate (.ofSource s₁) (.ofSource (s₁ ++ "\n" ++ s₂)) := by
    refine ⟨?_, ?_, ?_⟩
    · rw [here, there]
      exact .before quiet
    · rw [here]
      exact Nat.zero_add _
    · rw [there]
      exact Nat.zero_add _
  have nothing : behind S.left = [] := Layout.behind_openLine line
  refine statements_carried nothing first.statements rfl rfl rfl mate ?_
  intro d' mate'
  have same := mate'.rest_behind (first.done.trans nothing.symm)
  rw [show S.right = l ++ '\n' :: s₂.toList from rfl, Layout.behind_closed line] at same
  obtain ⟨vs, f, script, bare⟩ := script_behind same second
  exact ⟨vs, f, script, bare⟩

end Joined

end Seam

section Scripts

variable {s₁ s₂ : String} {p₁ p₂ : Program}

open Seam

theorem statements_of_bares {ts us vs : List Build.Node} {ss ss' : List Stmt}
    (bare : Tree.bares vs = Tree.bares ts ++ Tree.bares us) (first : Build.statements ts = .ok ss)
    (second : Build.statements us = .ok ss') : ∃ all, Build.statements vs = .ok all
      ∧ all.map Stmt.unplaced = ss.map Stmt.unplaced ++ ss'.map Stmt.unplaced := by
  have first := Build.statements_bare (fun t _ => Build.statementBared t) ss first
  have second := Build.statements_bare (fun t _ => Build.statementBared t) ss' second
  have both : Build.statements (Tree.bares vs) = .ok (Stmt.unplacedBlock ss ++ Stmt.unplacedBlock ss') := by
    rw [bare]
    exact Build.statements_ok_iff.mpr (List.rel_append (Build.statements_ok_iff.mp first) (Build.statements_ok_iff.mp second))
  obtain ⟨all, built, same⟩ := Build.statements_keeps (fun t _ => Build.statementKept t) both
  simp only [Stmt.unplacedBlock_eq] at same
  exact ⟨all, built, same⟩

theorem program_ok_iff {sp : Span} {ts : List Build.Node} {stop : Build.Node} {p : Program} :
    Build.program (.node .program sp (ts ++ [stop])) = .ok p ↔
      Build.statements ts = .ok p.statements ∧ p.span = sp := by
  simp only [Build.program, List.dropLast_concat, bind_eq_ok_iff, Except.ok.injEq]
  constructor
  · rintro ⟨ss, built, rfl⟩
    exact ⟨built, rfl⟩
  · rintro ⟨built, rfl⟩
    exact ⟨_, built, rfl⟩

/-- Two scripts one behind the other, with a line end between them, are a script. Its statements are
those of the first one and those of the second one, up to places. So it runs like the first one; and if
that finishes, it goes on like the second one in the session that the first one has left. -/
theorem Session.joined_scripts_run_in_turn (first : readProgram s₁ = .ok p₁)
    (second : readProgram s₂ = .ok p₂) :
    ∃ p, readProgram (s₁ ++ "\n" ++ s₂) = .ok p ∧
      p.statements.map Stmt.unplaced = p₁.statements.map Stmt.unplaced ++ p₂.statements.map Stmt.unplaced ∧
      ∀ (rounds : Nat) (sink : Sink) (s : Session), sink.Placeless →
        let r₁ := s.run rounds sink p₁
        let r₂ := r₁.session.run rounds (sink.after r₁.emissions.reverse) p₂
        (r₁.ending = .finished → (s.run rounds sink p).unplaced =
          Report.unplaced ⟨r₂.session, r₁.emissions ++ r₂.emissions, r₂.ending⟩) ∧
        (r₁.ending ≠ .finished → (s.run rounds sink p).unplaced = r₁.unplaced) := by
  obtain ⟨t₁, d₁, settles₁, built₁⟩ := readAs_eq_ok_iff.mp first
  obtain ⟨t₂, d₂, settles₂, built₂⟩ := readAs_eq_ok_iff.mp second
  obtain ⟨_, ts, _, e₁, rfl, script₁⟩ := script_of_program settles₁
  obtain ⟨_, us, _, e₂, rfl, script₂⟩ := script_of_program settles₂
  obtain ⟨vs, f, script, bare⟩ := script_joined script₁ script₂
  obtain ⟨sp, stop, d, settles⟩ := program_of_script script
  obtain ⟨all, built, same⟩ := statements_of_bares bare (program_ok_iff.mp built₁).1 (program_ok_iff.mp built₂).1
  refine ⟨⟨all, sp⟩, readAs_eq_ok_iff.mpr ⟨_, d, settles, program_ok_iff.mpr ⟨built, rfl⟩⟩, same, ?_⟩
  intro rounds sink s placeless
  exact Session.run_in_parts rounds placeless s same

theorem Sink.accepting_placeless (depth : Nat) : (Sink.accepting depth).Placeless := fun _ _ => rfl

def countedUp : String := "let n = 1; IF true THEN n = n + 1; ENDIF // so far"

theorem Session.counted_up_then_shown : ∃ p₁ p₂ p, readProgram countedUp = .ok p₁ ∧
    readProgram "Get n;" = .ok p₂ ∧ readProgram (countedUp ++ "\n" ++ "Get n;") = .ok p ∧
    let r₁ := Session.new.run 8 (.accepting 4) p₁
    let r₂ := r₁.session.run 8 ((Sink.accepting 4).after r₁.emissions.reverse) p₂
    r₁.ending = .finished ∧ (Session.new.run 8 (.accepting 4) p).unplaced =
      Report.unplaced ⟨r₂.session, r₁.emissions ++ r₂.emissions, r₂.ending⟩ := by
  have finishes : ((readProgram countedUp).toOption.any fun p =>
      match (Session.new.run 8 (.accepting 4) p).ending with
      | .finished => true
      | _ => false) = true := by
    decide +kernel
  have accepted : (readProgram "Get n;").toOption.isSome = true := by decide +kernel
  cases first : readProgram countedUp with
  | error e =>
      rw [first] at finishes
      cases finishes
  | ok p₁ =>
      cases second : readProgram "Get n;" with
      | error e =>
          rw [second] at accepted
          cases accepted
      | ok p₂ =>
          have finished : (Session.new.run 8 (.accepting 4) p₁).ending = .finished := by
            rw [first] at finishes
            simp only [Except.toOption, Option.any_some] at finishes
            cases ending : (Session.new.run 8 (.accepting 4) p₁).ending with
            | finished => rfl
            | failed | unfinished => simp [ending] at finishes
          obtain ⟨p, read, -, runs⟩ := joined_scripts_run_in_turn first second
          exact ⟨p₁, p₂, p, rfl, rfl, read, finished,
            (runs 8 _ Session.new (Sink.accepting_placeless 4)).1 finished⟩

end Scripts

end Dil
