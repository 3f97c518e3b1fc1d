import Dil.Proofs.Layout
import Dil.Reader

/-!
Reading a source always finishes. The step limit leaves room for every nesting of rules, so that a
source is read exactly when the grammar settles on a match of it.
-/

namespace Dil

namespace Rule

def least : Rule → Nat
  | .endOfInput | .program | .block | .stringInner => 0
  | _ => 1

/-- A bound on the steps that are nested in a rule before a character is read. -/
def height : Rule → Nat
  | .program => 56
  | .standaloneExpression => 68
  | .block => 52
  | .statement => 48
  | .assignStmt => 40
  | .classDecl | .fieldDecl | .letStmt | .getStmt | .ifStmt | .elseClause | .foreachStmt
  | .forStmt | .typeSuffix | .mapKey => 16
  | .mapEntry => 20
  | .expression => 64
  | .arithExpr => 60
  | .prefixExpr => 56
  | .postfixExpr => 52
  | .primaryExpr => 48
  | .newExpr => 36
  | .identifier => 32
  | _ => 9

end Rule

theorem grammar_bounded : grammar.Bounded Rule.least Rule.height 4096 where
  forward := Layout.skip_reads
  enough r := by cases r <;> decide
  low r := by cases r <;> decide
  fits r := by cases r <;> decide

theorem Rule.height_le (r : Rule) : r.height ≤ 68 := by
  cases r <;> decide

section Sources

variable {r : Rule} {source : String} {v : Verdict Rule}

theorem match_of_settles (settles : grammar.Settles true (.rule r) (.ofSource source) v) :
    (matchSource r source).verdict = v := by
  have low := r.height_le
  apply Grammar.run_of_settles grammar_bounded settles rfl
  simp only [Cursor.ofSource, Peg.height, stepLimit, String.length_toList]
  omega

theorem settles_of_match (found : (matchSource r source).verdict = v) (finished : v ≠ .unfinished) :
    grammar.Settles true (.rule r) (.ofSource source) v :=
  Grammar.settles_of_run _ finished found

theorem readAs_eq_ok_iff {α : Type} {build : Build.Node → Except BuildError α} {a : α} :
    readAs r build source = .ok a ↔
      ∃ t d, grammar.Settles true (.rule r) (.ofSource source) (.matched [t] d)
        ∧ build t = .ok a := by
  constructor
  · intro read
    simp only [readAs] at read
    split at read
    · rename_i t d found
      split at read
      · rename_i b built
        cases read
        exact ⟨t, d, settles_of_match found nofun, built⟩
      · cases read
    · cases read
  · rintro ⟨t, d, settles, built⟩
    simp only [readAs, match_of_settles settles, built]

theorem readAs_eq_invalid_iff {α : Type} {build : Build.Node → Except BuildError α} {cause : BuildError} :
    readAs r build source = .error (.invalid cause) ↔
      ∃ t d, grammar.Settles true (.rule r) (.ofSource source) (.matched [t] d)
        ∧ build t = .error cause := by
  constructor
  · intro read
    simp only [readAs] at read
    split at read
    · rename_i t d found
      split at read
      · cases read
      · rename_i cause built
        cases read
        exact ⟨t, d, settles_of_match found nofun, built⟩
    · cases read
  · rintro ⟨t, d, settles, built⟩
    simp only [readAs, match_of_settles settles, built]

end Sources

end Dil
