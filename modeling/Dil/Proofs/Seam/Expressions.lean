import Dil.Command
import Dil.Proofs.Reading.Fields
import Dil.Proofs.Seam.Builds
import Dil.Proofs.Seam.Scripts

namespace Dil

open Layout (OpenLine behind)
open Rule (wholeWord)

def getting (source : String) : String := "Get " ++ source ++ "\n;"

namespace Seam

section Closing

variable {l : List Char} (line : OpenLine l) (n size : Nat)

/-- The seam behind an expression that moves into a script. -/
abbrev ending : Seam := .closing line [';'] size (size + n + 2)

theorem closes_ending : (ending line n size).Closes n size := by
  have nothing : behind (ending line n size).left = [] := Layout.behind_openLine line
  have semicolon : behind (ending line n size).right = [';'] := Layout.behind_closed line
  have gained : byteLength (l ++ ['\n', ';']) = byteLength l + 2 := byteLength_append ..
  have level {m m' : Nat} (level : (ending line n size).Level m m') : m' = m + n := by
    change m + byteLength l + (size + n + 2) = m' + byteLength (l ++ ['\n', ';']) + size at level
    omega
  refine ⟨nothing, level, ?_⟩
  intro d d' stand
  have ends : d.offset + byteLength d.rest = size := stand.leftEnd
  have ends' : d'.offset + byteLength d'.rest = size + n + 2 := stand.rightEnd
  rcases stand.cases with ⟨x, some, -, rest, -⟩ | ⟨rest, rest'⟩
  · have ahead : (behind (ending line n size).left).length < d.rest.length := by
      rw [nothing, rest, List.length_append]
      exact Nat.lt_add_right _ (List.length_pos_iff.mpr some)
    have more := byteLength_pos some
    rw [rest, byteLength_append] at ends
    have other : (d.offset == size) = false := beq_false_of_ne (by omega)
    rw [other, level (stand.level ahead)]
    rfl
  · rw [rest, nothing] at ends
    rw [rest', semicolon] at ends'
    change d.offset + 0 = size at ends
    change d'.offset + 1 = size + n + 2 at ends'
    have same : (d.offset == size) = true := beq_of_eq ends
    rw [same, Bool.toNat_true]
    omega

end Closing

section Getting

variable {s : String} {c c' d : Cursor} {t u : Build.Node} {z z' : List Char} {sp sp' : Span}

/-- At the reader an expression is read, and what is left then is the given text, layout aside. -/
def Leaves (c : Cursor) (t : Build.Node) (z : List Char) : Prop :=
  ∃ d, grammar.Settles true (.rule .expression) (Layout.skip c) (.matched [t] d) ∧ behind d.rest = z

theorem Leaves.unique (first : Leaves c t z) (second : Leaves c u z') : u = t := by
  obtain ⟨_, settles, -⟩ := first
  obtain ⟨_, settles', -⟩ := second
  cases settles'.unique settles
  rfl

theorem leaves_of_standalone
    (settles : grammar.Settles true (.rule .standaloneExpression) (.ofSource s) (.matched [t] d)) :
    ∃ sp u stop, t = .node .standaloneExpression sp [u, stop] ∧ Leaves (.ofSource s) u [] := by
  obtain ⟨_, rfl, inner⟩ := settles.matched_node rfl
  obtain ⟨_, _, _, start, body, rfl⟩ := inner.matched_seq
  cases start
  obtain ⟨_, e, _, value, stop, rfl⟩ := body.matched_seq
  obtain ⟨u, rfl⟩ := value.matched_rule
  obtain ⟨stop, rfl⟩ := stop.matched_rule
  obtain ⟨_, -, ended⟩ := stop.matched_node rfl
  cases ended with
  | atEnd nothing => exact ⟨_, u, _, rfl, e, value, (Layout.skip_rest e).symm.trans nothing⟩

theorem standalone_of_leaves (leaves : Leaves (.ofSource s) t []) :
    ∃ sp stop d, grammar.Settles true (.rule .standaloneExpression) (.ofSource s)
      (.matched [.node .standaloneExpression sp [t, stop]] d) := by
  obtain ⟨e, value, nothing⟩ := leaves
  have stop : grammar.Settles true (.rule .endOfInput) (Layout.skip e) _ :=
    .rule (.atEnd ((Layout.skip_rest e).trans nothing))
  have inner : grammar.Settles true (Rule.body .standaloneExpression) (.ofSource s) _ :=
    .seq .nothing (.seq value stop)
  have whole : grammar.Settles true (.rule .standaloneExpression) (.ofSource s) _ := .rule inner
  exact ⟨_, _, _, whole⟩

def behindGet (s : String) : Cursor := ⟨s.toList ++ ['\n', ';'], 4⟩

theorem getting_rest : (Cursor.ofSource (getting s)).rest = 'G' :: 'e' :: 't' :: ' ' :: (behindGet s).rest := by
  simp [getting, behindGet, Cursor.ofSource]

theorem getting_end : (behindGet s).offset + byteLength (behindGet s).rest = byteLength s.toList + 4 + 2 := by
  change 4 + byteLength (s.toList ++ ['\n', ';']) = _
  rw [byteLength_append]
  change 4 + (byteLength s.toList + 2) = _
  omega

theorem skip_getting : Layout.skip (.ofSource (getting s)) = .ofSource (getting s) := by
  rw [Layout.skip, getting_rest, Layout.scan_unblank _ _ rfl (by decide), ← getting_rest]

theorem skip_blank : Layout.skip ⟨' ' :: (behindGet s).rest, 3⟩ = Layout.skip (behindGet s) :=
  Layout.scan_blank _ 3 rfl

theorem settles_get : grammar.Settles true (wholeWord .kwGet) (.ofSource (getting s))
    (.matched [] ⟨' ' :: (behindGet s).rest, 3⟩) := by
  have word : Reading.leading (Cursor.ofSource (getting s)).rest = "Get".toList := by
    rw [getting_rest]
    rfl
  have behind : Reading.behindWord (.ofSource (getting s)) = ⟨' ' :: (behindGet s).rest, 3⟩ := by
    rw [Reading.behindWord, Cursor.past, word, getting_rest]
    rfl
  have settles : grammar.Settles true (wholeWord .kwGet) (.ofSource (getting s)) _ :=
    Reading.settles_wholeWord (by decide) word skip_getting
  rwa [behind] at settles

theorem getting_begins : Begins [spelled "Get"] (.ofSource (getting s)) := by
  rw [Begins, startOf, getting_rest]
  exact List.mem_singleton_self _

theorem script_of_leaves (leaves : Leaves (behindGet s) t [';']) :
    ∃ sp sp' d, Script (.ofSource (getting s)) [.node .statement sp [.node .getStmt sp' [t]]] d := by
  obtain ⟨e, value, closing⟩ := leaves
  have next : (Layout.skip e).rest = [';'] ++ [] := (Layout.skip_rest e).trans closing
  have semicolon : grammar.Settles true (Peg.word ";") (Layout.skip e) _ := Grammar.settles_word next
  rw [← skip_blank] at value
  have inner : grammar.Settles true (Rule.body .getStmt) (.ofSource (getting s)) _ :=
    .seq settles_get (.seq value semicolon)
  have get : grammar.Settles true (.rule .getStmt) (.ofSource (getting s)) _ := .rule inner
  have refused (r : Rule) (check : refusesAll (.rule r) [spelled "Get"] = true) :
      grammar.Settles true (.rule r) (.ofSource (getting s)) .refused :=
    refused_of_begins check skip_getting getting_begins
  have choice : grammar.Settles true (Rule.body .statement) (.ofSource (getting s)) _ :=
    .altSecond (refused .classDecl (by decide)) (.altSecond (refused .letStmt (by decide)) (.altFirst get))
  have statement : grammar.Settles true (.rule .statement) (.ofSource (getting s)) _ := .rule choice
  have others : grammar.Settles true (.more (.rule .statement)) ((Layout.skip e).past [';'] []) _ :=
    .moreNone (refused_of_begins (L := [([], none)]) (by decide) (Layout.skip_skip _)
      (List.mem_singleton_self _))
  rw [← skip_getting] at statement
  have all : grammar.Settles true (.more (.rule .statement)) (.ofSource (getting s)) _ :=
    .more statement others
  exact ⟨_, _, _, all, rfl⟩

theorem end_of_more {r : Rule} (settles : grammar.Settles true (.more (.rule r)) c (.matched [] d)) :
    d = c := by
  generalize verdict : Verdict.matched [] d = v at settles
  cases settles with
  | more first others =>
      obtain ⟨_, rfl⟩ := first.matched_rule
      obtain ⟨_, -, none⟩ := Verdict.of_after_matched verdict.symm
      cases none
  | moreNone =>
      cases verdict
      rfl

theorem parts_of_get
    (settles : grammar.Settles true (.rule .statement) (.ofSource (getting s))
      (.matched [.node .statement sp [.node .getStmt sp' [t]]] d)) :
    ∃ e, grammar.Settles true (.rule .expression) (Layout.skip (behindGet s)) (.matched [t] e)
      ∧ behind e.rest = ';' :: d.rest := by
  obtain ⟨_, same, choice⟩ := settles.matched_node rfl
  cases same
  obtain ⟨r, member, found⟩ := Grammar.Settles.matched_first choice
  have spaced : ∀ r ∈ [Rule.classDecl, .letStmt, .getStmt, .ifStmt, .foreachStmt, .forStmt, .assignStmt],
      Rule.kind r = .spaced := by
    decide
  obtain ⟨_, same, inner⟩ := found.matched_node (spaced r member)
  cases same
  obtain ⟨_, _, _, word, rest, split⟩ := inner.matched_seq
  cases word.unique settles_get
  obtain ⟨_, e, _, value, semicolon, rfl⟩ := rest.matched_seq
  obtain ⟨_, rfl⟩ := value.matched_rule
  have closing : (Layout.skip e).rest = [';'] ++ d.rest := Relayout.matched_text semicolon
  cases split
  rw [← skip_blank]
  exact ⟨e, value, (Layout.skip_rest e).symm.trans closing⟩

theorem leaves_of_script
    (script : Script (.ofSource (getting s)) [.node .statement sp [.node .getStmt sp' [t]]] d) :
    Leaves (behindGet s) t [';'] := by
  obtain ⟨statements, done⟩ := script
  generalize verdict : Verdict.matched [Tree.node Rule.statement sp [.node .getStmt sp' [t]]] d = v at statements
  cases statements with
  | moreNone => cases verdict
  | more first others =>
      obtain ⟨_, rfl, split⟩ := Verdict.of_after_matched verdict.symm
      obtain ⟨_, rfl⟩ := first.matched_rule
      cases split
      obtain rfl := end_of_more others
      have first : grammar.Settles true (.rule .statement) (Layout.skip (.ofSource (getting s))) _ := first
      rw [skip_getting] at first
      obtain ⟨e, value, closing⟩ := parts_of_get first
      obtain ⟨read, reads, -⟩ := first.reads grammar_bounded.forward grammar_bounded.enough
      have whole : read ++ d.rest = ("Get " ++ s).toList ++ ['\n', ';'] := by
        rw [← reads.rest]
        simp [Cursor.ofSource, getting]
      rw [nil_of_behind whole done] at closing
      exact ⟨e, value, closing⟩

theorem Leaves.carried {S : Seam} (mate : S.Mate c c') (left : behind S.left = z) (right : behind S.right = z')
    (closer : (Reading.leading z', z'.head?) ∈ closers) (leaves : Leaves c t z) :
    ∃ u, Leaves c' u z' ∧ S.Beside t u := by
  obtain ⟨d, settles, rfl⟩ := leaves
  have next (d' : Cursor) (mate : S.Mate d d') : behind d'.rest = z' := (mate.rest_behind left.symm).trans right
  have within : (behind S.left).length ≤ d.rest.length := by
    rw [left]
    exact Layout.behind_length_le d.rest
  obtain ⟨us, d', settles', beside, mate', -⟩ := carries S.passage local_body (.rule rfl fun _ _ next => next) settles
    rfl rfl mate.skip.toMate (.inl ⟨Layout.skip_skip c, Layout.skip_skip c'⟩) within fun d' mate' => by
      rw [follow, Begins, startOf, Layout.skip_rest, next d' mate']
      exact closer
  obtain - | ⟨first, - | _⟩ := beside
  exact ⟨_, ⟨d', settles', next d' mate'⟩, first⟩

theorem leaves_moved (leaves : Leaves (.ofSource s) t []) :
    ∃ u, Leaves (behindGet s) u [';'] ∧ ∃ S : Seam, S.Closes 4 (byteLength s.toList) ∧ S.Beside t u := by
  obtain ⟨d, settles, nothing⟩ := leaves
  have whole : grammar.Settles true (.seq .nothing (.rule .expression)) (.ofSource s) _ :=
    .seq .nothing settles
  obtain ⟨x, l, quiet, line, here⟩ :=
    trails_of_settles whole (by decide) (by decide) Bool.false_ne_true.elim nothing
  have there : (behindGet s).rest = x ++ (l ++ ['\n', ';']) := by
    rw [← List.append_assoc, ← here]
    rfl
  have mate : (ending line 4 (byteLength s.toList)).Mate (.ofSource s) (behindGet s) := by
    refine ⟨?_, Nat.zero_add _, getting_end⟩
    rw [here, there]
    exact .before quiet
  obtain ⟨u, leaves, beside⟩ := Leaves.carried mate (Layout.behind_openLine line) (Layout.behind_closed line)
    (by decide) ⟨d, settles, nothing⟩
  exact ⟨u, leaves, _, closes_ending line 4 _, beside⟩

theorem leaves_alone (leaves : Leaves (behindGet s) t [';']) : ∃ u, Leaves (.ofSource s) u [] := by
  obtain ⟨d, settles, closing⟩ := leaves
  have whole : grammar.Settles true (.seq .nothing (.rule .expression)) (behindGet s) _ :=
    .seq .nothing settles
  have later : Leads s.toList d.rest := (leads_backward s.toList).layout (by
    rw [closing]
    exact fun _ _ => .inl rfl)
  have leads := (leads_backward s.toList).before whole (by decide) (by decide) Bool.false_ne_true.elim later
  rcases leads [] rfl with short | ⟨x, l, quiet, line, there⟩
  · have size := congrArg List.length short
    simp [behindGet] at size
  · have here : s.toList = x ++ l := by
      rw [← List.append_assoc] at there
      exact List.append_cancel_right there
    have mate : (ending line 4 (byteLength s.toList)).swap.Mate (behindGet s) (.ofSource s) := by
      refine ⟨?_, getting_end, Nat.zero_add _⟩
      rw [show (Cursor.ofSource s).rest = x ++ l from here, there]
      exact .before quiet
    obtain ⟨u, leaves, -⟩ := Leaves.carried mate (Layout.behind_closed line) (Layout.behind_openLine line)
      (by decide) ⟨d, settles, closing⟩
    exact ⟨u, leaves⟩

end Getting

end Seam

section Commands

variable {s : String} {e : Expr} {p : Program} {sp : Span} {t : Build.Node} {cause : BuildError}

open Seam

theorem readExpression_ok_iff :
    readExpression s = .ok e ↔ ∃ t, Leaves (.ofSource s) t [] ∧ Build.expr t = .ok e := by
  rw [readExpression, readAs_eq_ok_iff]
  constructor
  · rintro ⟨_, _, settles, built⟩
    obtain ⟨_, t, _, rfl, leaves⟩ := leaves_of_standalone settles
    exact ⟨t, leaves, built⟩
  · rintro ⟨t, leaves, built⟩
    obtain ⟨_, _, _, settles⟩ := standalone_of_leaves leaves
    exact ⟨_, _, settles, built⟩

theorem readExpression_invalid (read : readExpression s = .error (.invalid cause)) :
    ∃ t, Leaves (.ofSource s) t [] ∧ Build.expr t = .error cause := by
  obtain ⟨_, _, settles, built⟩ := readAs_eq_invalid_iff.mp read
  obtain ⟨_, t, _, rfl, leaves⟩ := leaves_of_standalone settles
  exact ⟨t, leaves, built⟩

theorem tree_of_get {u : Build.Node} (built : Build.statement u = .ok (.get sp e)) :
    ∃ sp' t, u = .node .statement sp [.node .getStmt sp' [t]] ∧ Build.expr t = .ok e := by
  unfold Build.statement at built
  split at built
  · unfold Build.construct at built
    split at built
    case h_3 =>
      obtain ⟨f, found, done⟩ := bind_eq_ok_iff.mp built
      cases done
      exact ⟨_, _, rfl, found⟩
    all_goals simp only [bind_eq_ok_iff, Except.ok.injEq, reduceCtorEq, and_false, exists_false] at built
  · cases built

theorem readProgram_of_leaves (leaves : Leaves (behindGet s) t [';']) (built : Build.expr t = .ok e) :
    ∃ p sp, readProgram (getting s) = .ok p ∧ p.statements = [.get sp e] := by
  obtain ⟨sp, sp', _, script⟩ := script_of_leaves leaves
  obtain ⟨place, stop, d, settles⟩ := program_of_script script
  have statements : Build.statements [.node .statement sp [.node .getStmt sp' [t]]] = .ok [.get sp e] := by
    rw [Build.statements, Build.statement, Build.construct, built]
    rfl
  exact ⟨⟨_, place⟩, sp, readAs_eq_ok_iff.mpr ⟨_, d, settles, program_ok_iff.mpr ⟨statements, rfl⟩⟩, rfl⟩

theorem readProgram_invalid (leaves : Leaves (behindGet s) t [';']) (refused : Build.expr t = .error cause) :
    readProgram (getting s) = .error (.invalid cause) := by
  obtain ⟨sp, sp', _, script⟩ := script_of_leaves leaves
  obtain ⟨place, stop, d, settles⟩ := program_of_script script
  refine readAs_eq_invalid_iff.mpr ⟨_, d, settles, ?_⟩
  have statements : Build.statements [.node .statement sp [.node .getStmt sp' [t]]] = .error cause := by
    rw [Build.statements, Build.statement, Build.construct, refused]
    rfl
  rw [Build.program, List.dropLast_concat, statements]
  rfl

theorem leaves_of_readProgram (read : readProgram (getting s) = .ok p) (only : p.statements = [.get sp e]) :
    ∃ t, Leaves (behindGet s) t [';'] ∧ Build.expr t = .ok e := by
  obtain ⟨_, _, settles, built⟩ := readAs_eq_ok_iff.mp read
  obtain ⟨_, ts, _, _, rfl, script⟩ := script_of_program settles
  have statements := (program_ok_iff.mp built).1
  rw [only, Build.statements_ok_iff] at statements
  obtain - | ⟨first, - | _⟩ := statements
  obtain ⟨_, t, rfl, value⟩ := tree_of_get first
  exact ⟨t, leaves_of_script script, value⟩

theorem Session.run_get (rounds depth : Nat) (s : Session) (only : p.statements = [.get sp e]) :
    s.run rounds (.accepting depth) p = match s.eval e with
      | (.ok v, t) => ⟨t, [⟨v, t.heap.view depth v, e.span⟩], .finished⟩
      | (.error cause, t) => ⟨t, [], .failed ⟨cause, sp⟩⟩ := by
  rw [Session.run, only, Exec.block, Exec.stmt, Session.eval]
  rcases found : s.evaluate (Dil.eval (newObject s.classes) s.scope e) with ⟨cause | v, t⟩
  · have value : Exec.value sp e ⟨s, []⟩ = (.error (.failed ⟨cause, sp⟩), ⟨t, []⟩) := by
      simp only [Exec.value, Exec.evaluate, found]
    have failed : Exec.emit (.accepting depth) sp e ⟨s, []⟩ = _ := bind_of_error _ value
    rw [bind_of_error _ failed]
    rfl
  · have value : Exec.value sp e ⟨s, []⟩ = (.ok v, ⟨t, []⟩) := by
      simp only [Exec.value, Exec.evaluate, found]
    have emitted : Exec.emit (.accepting depth) sp e ⟨s, []⟩ =
        (.ok (), ⟨t, [⟨v, t.heap.view depth v, e.span⟩]⟩) := bind_of_ok _ value
    rw [bind_of_ok _ emitted]
    rfl

theorem Session.eval_moved (n size : Nat) (s : Session) (e : Expr) : s.eval (e.moved n size) = s.eval e := by
  rw [Session.eval, Session.eval, Dil.eval_moved]

theorem readProgram_getting (alone : readExpression s = .ok e) :
    ∃ p sp, readProgram (getting s) = .ok p ∧ p.statements = [.get sp (e.moved 4 (byteLength s.toList))] := by
  obtain ⟨t, leaves, built⟩ := readExpression_ok_iff.mp alone
  obtain ⟨u, leaves', S, closes, beside⟩ := leaves_moved leaves
  exact readProgram_of_leaves leaves' (((Build.movesBeside closes _).expr beside).built e built)

end Commands

/-- An expression that is read alone is read in the script that gets it, in the places that its text
moves to, and the other way around. An invalid number, escape or type has the same cause in both. The
value is shown alike, and a failure has the same status. -/
theorem Command.expressions_alone_and_in_scripts (source file : String) (format : Format) :
    let moved := Expr.moved 4 (byteLength source.toList)
    (∀ e, readExpression source = .ok e →
      ∃ p sp, readProgram (getting source) = .ok p ∧ p.statements = [.get sp (moved e)]) ∧
    (∀ p sp e', readProgram (getting source) = .ok p → p.statements = [.get sp e'] →
      ∃ e, readExpression source = .ok e ∧ e' = moved e) ∧
    (∀ cause, (∀ r, cause ≠ .unexpected r) → readExpression source = .error (.invalid cause) →
      readProgram (getting source) = .error (.invalid (cause.shifted 4))) ∧
    (∀ e content, readExpression source = .ok e →
      (Command.run file format defaultDepth).perform (some (getting source))
        = (Command.expr source format).perform content) := by
  intro moved
  refine ⟨fun e alone => readProgram_getting alone, ?_, ?_, ?_⟩
  · intro p sp e' whole only
    obtain ⟨u, leaves, built⟩ := leaves_of_readProgram whole only
    obtain ⟨t, alone⟩ := Seam.leaves_alone leaves
    obtain ⟨u', leaves', S, closes, beside⟩ := Seam.leaves_moved alone
    cases leaves.unique leaves'
    have bare := Build.expr_bare u e' built
    rw [beside.bare] at bare
    obtain ⟨e, found, -⟩ := (Build.kept t).expr _ bare
    have same := ((Build.movesBeside closes _).expr beside).built e found
    rw [built] at same
    cases same
    exact ⟨e, readExpression_ok_iff.mpr ⟨t, alone, found⟩, rfl⟩
  · intro cause expected alone
    obtain ⟨t, leaves, refused⟩ := readExpression_invalid alone
    obtain ⟨u, leaves', S, closes, beside⟩ := Seam.leaves_moved leaves
    exact readProgram_invalid leaves' (((Build.movesBeside closes _).expr beside).refused cause expected refused)
  · intro e content alone
    obtain ⟨p, sp, whole, only⟩ := readProgram_getting alone
    simp only [Command.perform, Reply.ofSource, whole, alone, Session.run_get _ _ _ only,
      Session.eval_moved]
    rcases Session.new.eval e with ⟨cause | v, t⟩ <;> rfl

theorem minus_takes_line_end : ∃ e p sp e', readExpression "-1" = .ok e ∧
    readProgram (getting "-1") = .ok p ∧ p.statements = [.get sp e'] ∧
    e.span = ⟨0, 2⟩ ∧ e'.span = ⟨4, 7⟩ ∧ e'.span ≠ e.span.shifted 4 := by
  have places : (readExpression "-1").toOption.map (fun e => (e.span, (e.moved 4 2).span)) =
      some (⟨0, 2⟩, ⟨4, 7⟩) := by
    decide +kernel
  cases alone : readExpression "-1" with
  | error cause =>
      rw [alone] at places
      cases places
  | ok e =>
      rw [alone] at places
      obtain ⟨here, there⟩ := Prod.mk.inj (Option.some.inj places)
      obtain ⟨p, sp, whole, only⟩ := readProgram_getting alone
      have size : byteLength "-1".toList = 2 := by decide
      rw [size] at only
      refine ⟨e, p, sp, _, rfl, whole, only, here, there, ?_⟩
      rw [here, there]
      decide

end Dil
