import Dil.Proofs.Checks.Places
import Dil.Proofs.Reading.Scripts

namespace Dil

namespace Build

open Reading

section Fields

variable {t : Node} {ts : List Node}

theorem decides_value (grown : grammar.Grown .expression t) : Decides (expr t) (tokens t) :=
  (checked t).expr .full grown

theorem grown_overwrite (grown : grammar.Grown .overwriteModifier t) :
    ∃ sp, t = .node .overwriteModifier sp [] := by
  obtain ⟨sp, ts, rfl, given⟩ := shape_of_grown rfl grown
  exact ⟨sp, congrArg _ given⟩

theorem decides_fieldDecl (grown : grammar.Grown .fieldDecl t) : Decides (fieldDecl t) (tokens t) := by
  obtain ⟨sp, name, a, types, marks, rfl, word, value, typed, marked⟩ := grown_fieldDecl grown
  have field : Decides (ident name) (tokens name) := decides_ident (.inr word)
  have default : Decides (expr a) (tokens a) := (checked a).expr .chain value
  refine field.bind fun _ _ => default.bind fun _ _ => ?_
  obtain rfl | ⟨b, rfl, suffix⟩ := typed
  · obtain rfl | ⟨m, rfl, mark⟩ := marked
    · exact decides_none _
    · obtain ⟨s, rfl⟩ := grown_overwrite mark
      exact decides_none _
  · have type : Decides (typeSuffix b) (tokensOf [b]) := by
      rw [tokensOf, tokensOf, List.append_nil]
      exact decides_typeSuffix suffix
    obtain ⟨s, c, rfl, -⟩ := grown_typeSuffix suffix
    obtain rfl | ⟨m, rfl, mark⟩ := marked
    · exact type.map
    · obtain ⟨s', rfl⟩ := grown_overwrite mark
      exact type.map

theorem decides_classDecl (grown : grammar.Grown .classDecl t) :
    Decides (classDecl t) (tokens t) := by
  obtain ⟨sp, name, ts, rfl, word, fields⟩ := grown_classDecl grown
  have each : ∀ u ∈ ts, Decides (fieldDecl u) (tokens u) := fun u member =>
    decides_fieldDecl (fields u member)
  have all : Decides (fieldDecls ts) (tokensOf ts) := decides_list ts rfl (fun _ _ => rfl) each
  exact (decides_ident (.inl word)).bind fun _ _ => all.map

theorem decides_assignment {path : List Node} {a : Node}
    (steps : ∀ s ∈ path, grammar.Grown .fieldSegment s ∨ grammar.Grown .indexSegment s)
    (value : grammar.Grown .expression a) :
    Decides (assignment (path ++ [a])) (tokensOf (path ++ [a])) := by
  induction path with
  | nil =>
      rw [List.nil_append, tokensOf, tokensOf, List.append_nil]
      exact (decides_value value).map
  | cons s path ih =>
      have others := ih fun u member => steps u (.tail s member)
      have first : Decides (segment s) (tokens s) := (checked s).segment (steps s List.mem_cons_self)
      rw [List.cons_append, assignment]
      · exact first.bind fun _ _ => others.map
      · simp

end Fields

/-- What is built of a tree is decided by its tokens. The block of an `ELSE` part stands one level
deeper than its statement tells. -/
structure CheckedStatement (t : Node) : Prop where
  statement (grown : grammar.Grown .statement t) : Decides (Build.statement t) (tokens t)
  construct {r : Rule} (among : r ∈ statementRules) (grown : grammar.Grown r t) (sp : Span) :
    Decides (Build.construct sp t) (tokens t)
  block (grown : grammar.Grown .block t) : Decides (Build.block t) (tokens t)
  otherwise {sp : Span} {b : Node} (clause : t = .node .elseClause sp [b])
    (grown : grammar.Grown .block b) : Decides (Build.block b) (tokens t)

section Statements

variable {t : Node} {ts : List Node} {r : Rule}

theorem decides_last {α : Type} {x : Except BuildError α} (decides : Decides x (tokens t)) :
    Decides x (tokensOf [t]) := by
  rwa [tokensOf, tokensOf, List.append_nil]

theorem decides_ifStmt (grown : grammar.Grown .ifStmt t)
    (children : ∀ u ∈ t.children, CheckedStatement u) (sp : Span) :
    Decides (construct sp t) (tokens t) := by
  obtain ⟨s, a, b, ts, rfl, condition, yes, rest⟩ := grown_ifStmt grown
  have first := decides_value condition
  have second : Decides (block b) (tokens b) := (children b (by simp)).block yes
  obtain rfl | ⟨c, rfl, clause⟩ := rest
  · exact first.bind fun _ _ => (decides_last second).map
  · obtain ⟨s', b', rfl, no⟩ := grown_elseClause clause
    have third : Decides (block b') (tokens (.node .elseClause s' [b'])) :=
      (children _ (by simp)).otherwise rfl no
    exact first.bind fun _ _ => second.bind fun _ _ => (decides_last third).map

theorem decides_foreachStmt (grown : grammar.Grown .foreachStmt t)
    (children : ∀ u ∈ t.children, CheckedStatement u) (sp : Span) :
    Decides (construct sp t) (tokens t) := by
  obtain ⟨s, item, keys, a, b, rfl, word, key, collection, body⟩ := grown_foreachStmt grown
  have first := decides_ident (.inl word)
  have inner : Decides (block b) (tokens b) := (children b (by simp)).block body
  obtain rfl | ⟨k, rfl, place⟩ := key
  · exact first.bind fun _ _ => (decides_value collection).bind fun _ _ => (decides_last inner).map
  · exact first.bind fun _ _ => (decides_ident (.inl place)).bind fun _ _ =>
      (decides_value collection).bind fun _ _ => (decides_last inner).map

theorem decides_construct (among : r ∈ statementRules) (grown : grammar.Grown r t)
    (children : ∀ u ∈ t.children, CheckedStatement u) (sp : Span) :
    Decides (construct sp t) (tokens t) := by
  simp only [statementRules, List.mem_cons, List.not_mem_nil, or_false] at among
  rcases among with rfl | rfl | rfl | rfl | rfl | rfl | rfl
  · obtain ⟨s, name, ts, rfl, -⟩ := grown_classDecl grown
    exact (decides_classDecl grown).map
  · obtain ⟨s, name, a, rfl, word, value⟩ := grown_letStmt grown
    exact (decides_ident (.inl word)).bind fun _ _ => (decides_last (decides_value value)).map
  · obtain ⟨s, a, rfl, value⟩ := grown_getStmt grown
    exact (decides_last (decides_value value)).map
  · exact decides_ifStmt grown children sp
  · exact decides_foreachStmt grown children sp
  · obtain ⟨s, name, a, b, rfl, word, condition, body⟩ := grown_forStmt grown
    have inner : Decides (block b) (tokens b) := (children b (by simp)).block body
    exact (decides_ident (.inl word)).bind fun _ _ => (decides_value condition).bind fun _ _ =>
      (decides_last inner).map
  · obtain ⟨s, name, path, a, rfl, word, value, steps⟩ := grown_assignStmt grown
    exact (decides_ident (.inl word)).bind fun _ _ => (decides_assignment steps value).map

theorem decides_statements (each : ∀ u ∈ ts, CheckedStatement u)
    (grown : ∀ u ∈ ts, grammar.Grown .statement u) : Decides (statements ts) (tokensOf ts) :=
  decides_list ts rfl (fun _ _ => rfl) fun u member => (each u member).statement (grown u member)

theorem checkedStatement (t : Node) : CheckedStatement t := by
  induction t using Tree.induct with
  | step t children =>
      constructor
      case statement =>
        intro grown
        obtain ⟨sp, r, a, rfl, inner, among⟩ := grown_statement grown
        rw [tokens_one]
        exact (children a (by simp)).construct among inner sp
      case construct => exact fun among grown sp => decides_construct among grown children sp
      case block =>
        intro grown
        obtain ⟨sp, ts, rfl, each⟩ := grown_block grown
        exact decides_statements children each
      case otherwise =>
        rintro sp b rfl grown
        rw [tokens_one]
        exact (children b (by simp)).block grown

end Statements

theorem decides_program {source : String} {t : Node} {d : Cursor}
    (settles : grammar.Settles true (.rule .program) (.ofSource source) (.matched [t] d)) :
    Decides (program t) (tokens t) := by
  obtain ⟨sp, ts, stop, rfl, each, ended⟩ := matched_program_ended settles
  obtain ⟨s, us, rfl, given⟩ := shape_of_grown rfl ended
  obtain rfl : us = [] := given
  have all : Decides (statements ts) (tokensOf ts) :=
    decides_statements (fun u _ => checkedStatement u) each
  have same : tokensOf (ts ++ [.node .endOfInput s []]) = tokensOf ts := by
    simp [tokensOf_append, tokensOf, tokens]
  rw [program, List.dropLast_concat, tokens, same]
  exact all.map

theorem placed_program {source : String} {t : Node} {d : Cursor}
    (settles : grammar.Settles true (.rule .program) (.ofSource source) (.matched [t] d)) :
    ∃ high, Placed source 0 (tokens t) high := by
  obtain ⟨s, ts, e, rfl, inside, row, -⟩ := program_row settles
  have found := placed_row (fun t _ => placed source t) inside row
  refine ⟨e.offset, ?_⟩
  simpa [tokens, tokensOf_append, tokensOf] using found.widen (Nat.zero_le _) (Nat.le_refl _)

end Build

section Sources

variable {source : String} {ts : List Build.Node} {d : Cursor}

/-- A script that the grammar accepts is read exactly if all its tokens are good on their own, and else
the first of them that is bad is reported. Its tokens are listed in the order in which they stand, each
with its place in the text. No other error is reported. -/
theorem first_bad_token_reported (accepted : (matchSource .program source).verdict = .matched ts d) :
    ∃ t, ts = [t] ∧
      (∀ k ∈ Build.tokens t, k.rule.isChecked = true ∧ k.span.Spells source k.text) ∧
      ((Build.tokens t).Pairwise fun k l => k.span.stop ≤ l.span.start) ∧
      ((∃ p, readProgram source = .ok p) ↔ ∀ k ∈ Build.tokens t, k.Valid) ∧
      (∀ e, readProgram source = .error e ↔ ∃ before k after, Build.tokens t = before ++ k :: after ∧
        (∀ l ∈ before, l.Valid) ∧ ¬ k.Valid ∧ e = .invalid k.refusal) ∧
      ∀ r, readProgram source ≠ .error (.invalid (.unexpected r)) := by
  have settles := settles_of_match accepted nofun
  obtain ⟨t, rfl⟩ := settles.matched_rule
  have decides := Build.decides_program settles
  obtain ⟨_, placed⟩ := Build.placed_program settles
  have read : readProgram source = (Build.program t).mapError .invalid := by
    simp only [readProgram, readAs, accepted]
    cases Build.program t <;> rfl
  have reported (e : ReadError) : readProgram source = .error e ↔ ∃ before k after,
      Build.tokens t = before ++ k :: after ∧ (∀ l ∈ before, l.Valid) ∧ ¬ k.Valid ∧
        e = .invalid k.refusal := by
    rw [read]
    constructor
    · intro failed
      cases built : Build.program t with
      | ok p => simp [built, Except.mapError] at failed
      | error cause =>
          obtain ⟨before, k, after, same, valid, bad, rfl⟩ := (decides.error_iff cause).mp built
          rw [built] at failed
          cases failed
          exact ⟨before, k, after, same, valid, bad, rfl⟩
    · rintro ⟨before, k, after, same, valid, bad, rfl⟩
      rw [(decides.error_iff _).mpr ⟨before, k, after, same, valid, bad, rfl⟩]
      rfl
  refine ⟨t, rfl, placed.spelled, placed.ordered, ?_, reported, fun r failed => ?_⟩
  · rw [← decides.ok_iff, read]
    cases Build.program t <;> simp [Except.mapError]
  · obtain ⟨before, k, after, same, -, -, caused⟩ := (reported _).mp failed
    have checked : k.rule.isChecked = true := by
      refine (placed.spelled k ?_).1
      rw [same]
      exact List.mem_append_right _ List.mem_cons_self
    exact k.refusal_ne_unexpected checked r (ReadError.invalid.inj caused).symm

theorem matched_tokens {ks : List Token}
    (listed : (match (matchSource .program source).verdict with
      | .matched [t] _ => some (Build.tokens t)
      | _ => none) = some ks) :
    ∃ t d, (matchSource .program source).verdict = .matched [t] d ∧ Build.tokens t = ks := by
  split at listed
  · exact ⟨_, _, ‹_›, Option.some.inj listed⟩
  · cases listed

theorem overflow_behind_key_reported :
    let script := "Get \x7b\"\\u\x7b41\x7d\": 1e999, k: \"\\q\"\x7d as foo;"
    let ks : List Token := [⟨.stringInner, ⟨6, 12⟩, "\\u\x7b41\x7d".toList⟩,
      ⟨.floatLiteral, ⟨15, 20⟩, "1e999".toList⟩, ⟨.stringInner, ⟨26, 28⟩, "\\q".toList⟩,
      ⟨.typeName, ⟨34, 37⟩, "foo".toList⟩]
    ∃ t d, (matchSource .program script).verdict = .matched [t] d ∧ Build.tokens t = ks ∧
      readProgram script = .error (.invalid (.invalidNumber "1e999")) := by
  intro script ks
  obtain ⟨t, d, accepted, listed⟩ : ∃ t d, (matchSource .program script).verdict = .matched [t] d ∧
      Build.tokens t = ks := matched_tokens (by decide +kernel)
  obtain ⟨t', same, -, -, -, reported, -⟩ := first_bad_token_reported accepted
  cases same
  have infinite : ((Decimal.ofText? "1e999".toList).map fun n => Binary64.isFinite n.toFloat) =
      some false := by
    decide +kernel
  refine ⟨t, d, accepted, listed, (reported _).mpr ⟨[_], _, _, listed, ?_, ?_, rfl⟩⟩
  · exact List.forall_mem_singleton.mpr ⟨_, rfl⟩
  · rintro ⟨n, read, finite⟩
    rw [read] at infinite
    simp [finite] at infinite

/-- What is reported of an integer is not always its text: it comes without underscores. -/
theorem underscores_not_reported :
    let script := "Get 9_223_372_036_854_775_808;"
    (∃ t d, (matchSource .program script).verdict = .matched [t] d ∧
      Build.tokens t = [⟨.intLiteral, ⟨4, 29⟩, "9_223_372_036_854_775_808".toList⟩]) ∧
      readProgram script = .error (.invalid (.invalidNumber "9223372036854775808")) := by
  intro script
  have reported : (match readProgram script with
      | .error (.invalid (.invalidNumber w)) => some w
      | _ => none) = some "9223372036854775808" := by
    decide +kernel
  refine ⟨matched_tokens (by decide +kernel), ?_⟩
  split at reported
  · rename_i w read
    rw [read, Option.some.inj reported]
  · cases reported

end Sources

end Dil
