import Dil.Proofs.Relayout.Gaps
import Dil.Proofs.Syntax.Bared

namespace Dil.Relayout

open Layout (Quiet Run behind isBlank)

section Sources

variable {pre gap gap' post : List Char} {p : Program} {c : Cursor}

theorem gap_of_run (whole : behind (gap ++ post) = post) (nonempty : gap ≠ []) (run : Run gap')
    (blank : ∃ x xs, gap' = x :: xs ∧ isBlank x = true) : Gap (gap ++ post) (gap' ++ post) where
  alike := by
    have stopped := Layout.behind_behind (gap ++ post)
    rw [whole] at stopped
    rw [Layout.behind_run run, stopped, whole]
  layout := by
    rw [whole]
    intro same
    exact nonempty (List.append_left_eq_self.mp same.symm)
  blank := by
    obtain ⟨x, xs, rfl, blank⟩ := blank
    exact ⟨x, xs ++ post, rfl, blank⟩

theorem clear_program {t : Build.Node} {e : Cursor} {s : String}
    (settles : grammar.Settles true (.rule .program) (.ofSource s) (.matched [t] e))
    (among : c ∈ gapsIn .program s) (skipped : behind c.rest ≠ c.rest) : Clear c.rest s.toList := by
  have skips : grammar.Skips c true (.rule .program) (.ofSource s) :=
    Grammar.skips_of_gaps (match_of_settles settles) among
  cases skips with
  | rule inner =>
      have fit : shy true false (Rule.body .program) = true := by decide
      exact clear_before_gap inner fit (by decide) Bool.false_ne_true.elim skipped

theorem settles_relaid {g h x : List Char} {c' : Cursor} {v : Verdict Rule} (gap : Gap g h)
    (quiet : Quiet g x) (here : c.rest = x ++ g) (there : c'.rest = x ++ h)
    (settles : grammar.Settles true (.rule .program) c v) :
    ∃ w, grammar.Settles true (.rule .program) c' w ∧ Alike g h false true c c' v w := by
  obtain ⟨w, rfl, inner⟩ := settles.body
  have inner : grammar.Settles ((Rule.kind .program).spacing true) (Rule.body .program) c w := inner
  have twin : Twin g h false false c.rest c'.rest := by
    rw [here, there]
    exact .before rfl quiet Bool.false_ne_true.elim
  obtain ⟨w', inner', alike⟩ := settles_twin gap.rift inner (fun _ => gap) twin (.inr (by decide))
  exact ⟨_, .rule inner', Alike.gather (r := .program) inner inner' alike⟩

/-- A script stays a script, and the same one up to places, if all that its reader skips between two
tokens, being at least a blank or a comment, is replaced by other blanks and complete comments with a
blank in front. -/
theorem relaid_reads_alike
    (read : readProgram (String.ofList (pre ++ gap ++ post)) = .ok p)
    (among : ⟨gap ++ post, byteLength pre⟩ ∈ gapsIn .program (String.ofList (pre ++ gap ++ post)))
    (whole : behind (gap ++ post) = post) (nonempty : gap ≠ []) (run : Run gap')
    (blank : ∃ x xs, gap' = x :: xs ∧ isBlank x = true) :
    ∃ q, readProgram (String.ofList (pre ++ gap' ++ post)) = .ok q ∧ q.unplaced = p.unplaced := by
  have gaps := gap_of_run whole nonempty run blank
  obtain ⟨t, e, settles, built⟩ := readAs_eq_ok_iff.mp read
  obtain ⟨x, quiet, split⟩ := clear_program settles among gaps.layout
  rw [String.toList_ofList, List.append_assoc] at split
  obtain rfl := List.append_cancel_right split
  have there : (Cursor.ofSource (String.ofList (pre ++ gap' ++ post))).rest = pre ++ (gap' ++ post) :=
    (String.toList_ofList).trans (List.append_assoc ..)
  have here : (Cursor.ofSource (String.ofList (pre ++ gap ++ post))).rest = pre ++ (gap ++ post) :=
    (String.toList_ofList).trans (List.append_assoc ..)
  obtain ⟨w, settles', alike⟩ := settles_relaid gaps quiet here there settles
  cases alike with
  | matched bare =>
      obtain ⟨t', rfl, same⟩ := Tree.bares_eq_singleton bare
      have builtBare := Build.program_bare t p built
      rw [← same] at builtBare
      obtain ⟨q, found, unplaced⟩ := Build.program_keeps t' _ builtBare
      exact ⟨q, readAs_eq_ok_iff.mpr ⟨t', _, settles', found⟩, unplaced⟩

def quotient (gap : String) : String :=
  String.ofList ("let x = \"// /*\" /".toList ++ gap.toList ++ "y;".toList)

theorem quotient_reads_alike :
    ∃ p, readProgram (quotient " /* c */ ") = .ok p
      ∧ ∃ q, readProgram (quotient "\n// \"*/\r/* // */") = .ok q ∧ q.unplaced = p.unplaced := by
  have accepted : (readProgram (quotient " /* c */ ")).toOption.isSome = true := by decide +kernel
  have among : ⟨" /* c */ ".toList ++ "y;".toList, byteLength "let x = \"// /*\" /".toList⟩
      ∈ gapsIn .program (quotient " /* c */ ") := by
    decide +kernel
  have run : Run "\n// \"*/\r/* // */".toList :=
    .cons (.blank rfl) (.cons (.line (t := [' ', '"', '*', '/']) (by simp [Layout.endsLine]) rfl)
      (.cons (.block (t := [' ', '/', '/', ' ']) (by decide)) .nil))
  cases read : readProgram (quotient " /* c */ ") with
  | error e =>
      rw [read] at accepted
      cases accepted
  | ok p =>
      exact ⟨p, rfl, relaid_reads_alike read among (by decide +kernel) (by decide) run ⟨_, _, rfl, rfl⟩⟩

end Sources

end Dil.Relayout
