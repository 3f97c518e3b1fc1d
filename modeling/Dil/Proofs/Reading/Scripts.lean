import Dil.Proofs.Reading.Fields

namespace Dil.Reading

open Build (Node)

/-- The tokens spell the statement, and each is seen where it stands. -/
structure PrintsStatement (s : Stmt) : Prop where
  spells : SpellsStatement s.unplaced s.tokens
  solids : Solids s.tokens

structure PrintsBlock (ss : List Stmt) : Prop where
  spells : SpellsBlock (Stmt.unplacedBlock ss) (Stmt.blockTokens ss)
  solids : Solids (Stmt.blockTokens ss)

/-- What is built of a tree prints, unless it has floats. The block of an `ELSE` part stands one
level deeper than its statement tells. -/
structure PrintableStatement (t : Node) : Prop where
  statement {s : Stmt} (grown : grammar.Grown .statement t) (built : Build.statement t = .ok s)
    (floatless : s.floats = []) : PrintsStatement s
  construct {r : Rule} {sp : Span} {s : Stmt} (among : r ∈ statementRules) (grown : grammar.Grown r t)
    (built : Build.construct sp t = .ok s) (floatless : s.floats = []) : PrintsStatement s
  block {ss : List Stmt} (grown : grammar.Grown .block t) (built : Build.block t = .ok ss)
    (floatless : Stmt.blockFloats ss = []) : PrintsBlock ss
  otherwise {sp : Span} {b : Node} {ss : List Stmt} (clause : t = .node .elseClause sp [b])
    (grown : grammar.Grown .block b) (built : Build.block b = .ok ss)
    (floatless : Stmt.blockFloats ss = []) : PrintsBlock ss

section Names

variable {t : Node} {i : Ident}

theorem isName_of_ident (grown : grammar.Grown .identifier t) (built : Build.ident t = .ok i) :
    isName i.name.toList = true := by
  obtain ⟨sp, w, rfl, name⟩ := grown_identifier grown
  cases built
  rwa [String.toList_ofList]

theorem solid_of_isName {w : String} (name : isName w.toList = true) : Solid w :=
  solid_of_isWord (isName_iff.mp name).1

end Names

section Constructs

variable {sp : Span} {e : Expr} {t : Node} {ts : List Node} {s : Stmt} {ss ss' : List Stmt}
  {name : Ident}

theorem prints_block (each : ∀ s ∈ ss, PrintsStatement s) : PrintsBlock ss where
  spells := by
    rw [Stmt.unplacedBlock_eq, Stmt.blockTokens_eq]
    exact spells_block fun s member => (each s member).spells
  solids := by
    rw [Stmt.blockTokens_eq]
    exact solids_flatMap fun s member => (each s member).solids

theorem prints_bind (word : isName name.name.toList = true) (value : Prints .full e) :
    PrintsStatement (.bind sp name e) where
  spells := spells_let word value.spells
  solids := by
    simp (disch := decide) [Stmt.tokens, solid_of_isName word, value.solids, solid_fixed]

theorem prints_get (value : Prints .full e) : PrintsStatement (.get sp e) where
  spells := spells_get value.spells
  solids := by
    simp (disch := decide) [Stmt.tokens, value.solids, solid_fixed]

theorem prints_assign {path : List Segment} (word : isName name.name.toList = true)
    (steps : ∀ s ∈ path, PrintsSegment s) (value : Prints .full e) :
    PrintsStatement (.assign sp name path e) where
  spells := spells_assign word (fun s member => (steps s member).spells) value.spells
  solids := by
    have inside : Solids (path.flatMap Segment.tokens) :=
      solids_flatMap fun s member => (steps s member).solids
    simp (disch := decide) [Stmt.tokens, solid_of_isName word, inside, value.solids, solid_fixed]

theorem prints_branch (condition : Prints .full e) (yes : PrintsBlock ss) (no : PrintsBlock ss') :
    PrintsStatement (.branch sp e ss ss') := by
  cases ss' with
  | nil =>
      constructor
      · exact spells_if condition.spells yes.spells
      · simp (disch := decide) [Stmt.tokens, condition.solids, yes.solids, solid_fixed]
  | cons s ss' =>
      constructor
      · exact spells_ifElse condition.spells yes.spells no.spells
      · have others := no.solids
        rw [Stmt.blockTokens, solids_append] at others
        simp (disch := decide) [Stmt.tokens, condition.solids, yes.solids, others, solid_fixed]

theorem prints_each {key : Option Ident} (word : isName name.name.toList = true)
    (words : ∀ k ∈ key, isName k.name.toList = true) (collection : Prints .full e)
    (body : PrintsBlock ss) : PrintsStatement (.each sp name key e ss) := by
  have names : ∀ k ∈ key.map Ident.name, isName k.toList = true := by
    simpa using words
  constructor
  · have spells := spells_each word names collection.spells body.spells
    rwa [Option.map_map] at spells
  · have inside : Solids (keyTokens (key.map Ident.name)) := by
      cases key with
      | none => exact solids_nil
      | some k => simpa [keyTokens] using ⟨solid_fixed (by decide), solid_of_isName (words k rfl)⟩
    simp (disch := decide) [Stmt.tokens, solid_of_isName word, inside, collection.solids, body.solids,
      solid_fixed]

theorem prints_loop (word : isName name.name.toList = true) (condition : Prints .full e)
    (body : PrintsBlock ss) : PrintsStatement (.loop sp name e ss) where
  spells := spells_loop word condition.spells body.spells
  solids := by
    simp (disch := decide) [Stmt.tokens, solid_of_isName word, condition.solids, body.solids, solid_fixed]

theorem prints_declare {fields : List FieldDecl} {place : Span}
    (word : isName name.name.toList = true) (each : ∀ f ∈ fields, PrintsField f) :
    PrintsStatement (.declare sp ⟨name, fields, place⟩) where
  spells := spells_class word fun f member => (each f member).spells
  solids := by
    have inside : Solids (fields.flatMap FieldDecl.tokens) :=
      solids_flatMap fun f member => (each f member).solids
    simp (disch := decide) [Stmt.tokens, ClassDecl.tokens, solid_of_isName word, inside, solid_fixed]

end Constructs

section Trees

variable {sp : Span} {t : Node} {ts : List Node} {s : Stmt}

theorem prints_value {a : Node} {e : Expr} (grown : grammar.Grown .expression a)
    (built : Build.expr a = .ok e) (floatless : e.floats = []) : Prints .full e :=
  (printable a).expr grown built floatless

theorem prints_classDecl (grown : grammar.Grown .classDecl t)
    (built : Build.construct sp t = .ok s) (floatless : s.floats = []) : PrintsStatement s := by
  obtain ⟨place, a, ts, rfl, word, fields⟩ := grown_classDecl grown
  obtain ⟨decl, declared, done⟩ := bind_eq_ok_iff.mp built
  cases done
  obtain ⟨name, named, declared⟩ := bind_eq_ok_iff.mp declared
  obtain ⟨fs, found, done⟩ := bind_eq_ok_iff.mp declared
  cases done
  rw [Stmt.floats] at floatless
  exact prints_declare (isName_of_ident word named)
    (forall_of_built (Build.fieldDecls_ok_iff.mp found) fun u member f among built =>
      prints_fieldDecl (fields u member) built (List.flatMap_eq_nil_iff.mp floatless f among))

theorem prints_letStmt (grown : grammar.Grown .letStmt t) (built : Build.construct sp t = .ok s)
    (floatless : s.floats = []) : PrintsStatement s := by
  obtain ⟨place, a, b, rfl, word, value⟩ := grown_letStmt grown
  obtain ⟨name, named, built⟩ := bind_eq_ok_iff.mp built
  obtain ⟨e, found, done⟩ := bind_eq_ok_iff.mp built
  cases done
  exact prints_bind (isName_of_ident word named) (prints_value value found floatless)

theorem prints_getStmt (grown : grammar.Grown .getStmt t) (built : Build.construct sp t = .ok s)
    (floatless : s.floats = []) : PrintsStatement s := by
  obtain ⟨place, a, rfl, value⟩ := grown_getStmt grown
  obtain ⟨e, found, done⟩ := bind_eq_ok_iff.mp built
  cases done
  exact prints_get (prints_value value found floatless)

theorem assignment_parts {path : List Node} {a : Node} {segments : List Segment} {e : Expr}
    (built : Build.assignment (path ++ [a]) = .ok (segments, e)) :
    Build.segments path = .ok segments ∧ Build.expr a = .ok e := by
  induction path generalizing segments with
  | nil =>
      obtain ⟨f, found, done⟩ := bind_eq_ok_iff.mp built
      cases done
      exact ⟨rfl, found⟩
  | cons t path ih =>
      rw [List.cons_append, Build.assignment] at built
      · obtain ⟨segment, first, built⟩ := bind_eq_ok_iff.mp built
        obtain ⟨⟨others, f⟩, rest, done⟩ := bind_eq_ok_iff.mp built
        cases done
        obtain ⟨steps, found⟩ := ih rest
        exact ⟨by rw [Build.segments, first, steps]; rfl, found⟩
      · simp

theorem prints_assignStmt (grown : grammar.Grown .assignStmt t)
    (built : Build.construct sp t = .ok s) (floatless : s.floats = []) : PrintsStatement s := by
  obtain ⟨place, a, path, b, rfl, word, value, steps⟩ := grown_assignStmt grown
  obtain ⟨name, named, built⟩ := bind_eq_ok_iff.mp built
  obtain ⟨⟨segments, e⟩, parts, done⟩ := bind_eq_ok_iff.mp built
  cases done
  obtain ⟨stepped, found⟩ := assignment_parts parts
  rw [Stmt.floats, List.append_eq_nil_iff] at floatless
  exact prints_assign (isName_of_ident word named)
    (prints_segments (fun u _ => printable u) steps stepped floatless.1)
    (prints_value value found floatless.2)

theorem prints_ifStmt (grown : grammar.Grown .ifStmt t)
    (children : ∀ u ∈ t.children, PrintableStatement u)
    (built : Build.construct sp t = .ok s) (floatless : s.floats = []) : PrintsStatement s := by
  obtain ⟨place, a, b, ts, rfl, condition, block, rest⟩ := grown_ifStmt grown
  rcases rest with rfl | ⟨c, rfl, clause⟩
  · obtain ⟨e, found, built⟩ := bind_eq_ok_iff.mp built
    obtain ⟨yes, onTrue, done⟩ := bind_eq_ok_iff.mp built
    cases done
    rw [Stmt.floats, List.append_eq_nil_iff, List.append_eq_nil_iff] at floatless
    exact prints_branch (prints_value condition found floatless.1.1)
      ((children b (by simp)).block block onTrue floatless.1.2) (prints_block nofun)
  · obtain ⟨place', b', rfl, block'⟩ := grown_elseClause clause
    obtain ⟨e, found, built⟩ := bind_eq_ok_iff.mp built
    obtain ⟨yes, onTrue, built⟩ := bind_eq_ok_iff.mp built
    obtain ⟨no, onFalse, done⟩ := bind_eq_ok_iff.mp built
    cases done
    rw [Stmt.floats, List.append_eq_nil_iff, List.append_eq_nil_iff] at floatless
    exact prints_branch (prints_value condition found floatless.1.1)
      ((children b (by simp)).block block onTrue floatless.1.2)
      ((children (.node .elseClause place' [b']) (by simp)).otherwise rfl block' onFalse floatless.2)

theorem prints_foreachStmt (grown : grammar.Grown .foreachStmt t)
    (children : ∀ u ∈ t.children, PrintableStatement u)
    (built : Build.construct sp t = .ok s) (floatless : s.floats = []) : PrintsStatement s := by
  obtain ⟨place, a, keys, b, c, rfl, word, key, collection, block⟩ := grown_foreachStmt grown
  have body : PrintableStatement c := children c (by simp)
  rcases key with rfl | ⟨k, rfl, keyWord⟩
  · obtain ⟨name, named, built⟩ := bind_eq_ok_iff.mp built
    obtain ⟨e, found, built⟩ := bind_eq_ok_iff.mp built
    obtain ⟨ss, run, done⟩ := bind_eq_ok_iff.mp built
    cases done
    rw [Stmt.floats, List.append_eq_nil_iff] at floatless
    exact prints_each (isName_of_ident word named) nofun (prints_value collection found floatless.1)
      (body.block block run floatless.2)
  · obtain ⟨name, named, built⟩ := bind_eq_ok_iff.mp built
    obtain ⟨key, keyed, built⟩ := bind_eq_ok_iff.mp built
    obtain ⟨e, found, built⟩ := bind_eq_ok_iff.mp built
    obtain ⟨ss, run, done⟩ := bind_eq_ok_iff.mp built
    cases done
    rw [Stmt.floats, List.append_eq_nil_iff] at floatless
    have keyName := isName_of_ident keyWord keyed
    exact prints_each (isName_of_ident word named) (by simpa using keyName)
      (prints_value collection found floatless.1) (body.block block run floatless.2)

theorem prints_forStmt (grown : grammar.Grown .forStmt t)
    (children : ∀ u ∈ t.children, PrintableStatement u)
    (built : Build.construct sp t = .ok s) (floatless : s.floats = []) : PrintsStatement s := by
  obtain ⟨place, a, b, c, rfl, word, condition, block⟩ := grown_forStmt grown
  have body : PrintableStatement c := children c (by simp)
  obtain ⟨name, named, built⟩ := bind_eq_ok_iff.mp built
  obtain ⟨e, found, built⟩ := bind_eq_ok_iff.mp built
  obtain ⟨ss, run, done⟩ := bind_eq_ok_iff.mp built
  cases done
  rw [Stmt.floats, List.append_eq_nil_iff] at floatless
  exact prints_loop (isName_of_ident word named) (prints_value condition found floatless.1)
    (body.block block run floatless.2)

theorem prints_construct {r : Rule} (among : r ∈ statementRules) (grown : grammar.Grown r t)
    (children : ∀ u ∈ t.children, PrintableStatement u)
    (built : Build.construct sp t = .ok s) (floatless : s.floats = []) : PrintsStatement s := by
  simp only [statementRules, List.mem_cons, List.not_mem_nil, or_false] at among
  rcases among with rfl | rfl | rfl | rfl | rfl | rfl | rfl
  · exact prints_classDecl grown built floatless
  · exact prints_letStmt grown built floatless
  · exact prints_getStmt grown built floatless
  · exact prints_ifStmt grown children built floatless
  · exact prints_foreachStmt grown children built floatless
  · exact prints_forStmt grown children built floatless
  · exact prints_assignStmt grown built floatless

theorem prints_statements {ss : List Stmt} (each : ∀ u ∈ ts, PrintableStatement u)
    (grown : ∀ u ∈ ts, grammar.Grown .statement u) (built : Build.statements ts = .ok ss)
    (floatless : ss.flatMap Stmt.floats = []) : ∀ s ∈ ss, PrintsStatement s :=
  forall_of_built (Build.statements_ok_iff.mp built) fun u member _ among built =>
    (each u member).statement (grown u member) built (floats_of_mem floatless among)

theorem printableStatement (t : Node) : PrintableStatement t := by
  induction t using Tree.induct with
  | step t children =>
      constructor
      case statement =>
        intro s grown built floatless
        obtain ⟨place, r, a, rfl, inner, among⟩ := grown_statement grown
        exact (children a (by simp)).construct among inner built floatless
      case construct =>
        intro r sp s among grown built floatless
        exact prints_construct among grown children built floatless
      case block =>
        intro ss grown built floatless
        obtain ⟨place, ts, rfl, each⟩ := grown_block grown
        rw [Stmt.blockFloats_eq] at floatless
        exact prints_block (prints_statements children each built floatless)
      case otherwise =>
        intro sp b ss clause grown built floatless
        subst clause
        exact (children b (by simp)).block grown built floatless

end Trees

section Scripts

variable {source : String} {p : Program} {t : Node} {d : Cursor}

theorem matched_program_ended
    (settles : grammar.Settles true (.rule .program) (.ofSource source) (.matched [t] d)) :
    ∃ sp ts stop, t = .node .program sp (ts ++ [stop]) ∧ (∀ u ∈ ts, grammar.Grown .statement u)
      ∧ grammar.Grown .endOfInput stop := by
  obtain ⟨us, rfl, inner⟩ := settles.matched_node rfl
  obtain ⟨vs, e, ws, start, body, rfl⟩ := inner.matched_seq
  cases start
  have given := body.gives Layout.skip_skip rfl (.inl (Layout.skip_skip _)) rfl
  change (Peg.seq _ _).Gives _ _ at given
  simp only [gives_seq, gives_star_rule] at given
  obtain ⟨ts, _, rfl, each, stop, rfl, ended⟩ := given
  exact ⟨_, ts, stop, rfl, each, ended⟩

theorem matched_program
    (settles : grammar.Settles true (.rule .program) (.ofSource source) (.matched [t] d)) :
    ∃ sp ts stop, t = .node .program sp (ts ++ [stop]) ∧ ∀ u ∈ ts, grammar.Grown .statement u := by
  obtain ⟨sp, ts, stop, rfl, each, -⟩ := matched_program_ended settles
  exact ⟨sp, ts, stop, rfl, each⟩

theorem prints_of_readProgram (read : readProgram source = .ok p) (floatless : p.floats = []) :
    ∀ s ∈ p.statements, PrintsStatement s := by
  obtain ⟨t, d, settles, built⟩ := readAs_eq_ok_iff.mp read
  obtain ⟨sp, ts, stop, rfl, each⟩ := matched_program settles
  obtain ⟨ss, found, done⟩ := bind_eq_ok_iff.mp built
  cases done
  rw [List.dropLast_concat] at found
  exact prints_statements (fun u _ => printableStatement u) each found floatless

/-- The print of a script that was read is read as the same script, up to places. -/
theorem printed_reads_back (read : readProgram source = .ok p) (floatless : p.floats = []) :
    ∃ q, readProgram p.printed = .ok q ∧ q.unplaced = p.unplaced := by
  have prints := prints_of_readProgram read floatless
  have solids : Solids p.tokens := solids_flatMap fun s member => (prints s member).solids
  exact readProgram_of_spells (fun s member => (prints s member).spells) (laid_intercalate solids)

/-- A script with keywords for names of fields and keys, with a field `class` whose default only looks
like the end of the class, and with an `ELSE` part without statements. -/
def misleading : String :=
  "class c:class:end_ as boolean;end:new;class:end // a class\nlet x=\x7bif:c:new,\x7d;"
    ++ "if- -0x1F->end then;else endif"

theorem misleading_reads_back :
    ∃ p, readProgram misleading = .ok p ∧ p.floats = []
      ∧ p.printed = "class c : class : end_ as bool ; end : new ; class : end "
        ++ "let x = \x7b \"if\" : c : new \x7d ; IF - - 31 -> end THEN ENDIF"
      ∧ ∃ q, readProgram p.printed = .ok q ∧ q.unplaced = p.unplaced := by
  have evaluated : ((readProgram misleading).toOption.map fun p => (p.floats.isEmpty, p.printed))
      = some (true, "class c : class : end_ as bool ; end : new ; class : end "
        ++ "let x = \x7b \"if\" : c : new \x7d ; IF - - 31 -> end THEN ENDIF") := by
    decide +kernel
  cases read : readProgram misleading with
  | error e =>
      rw [read] at evaluated
      cases evaluated
  | ok p =>
      rw [read] at evaluated
      obtain ⟨floatless, printed⟩ := Prod.mk.inj (Option.some.inj evaluated)
      have none : p.floats = [] := List.isEmpty_iff.mp floatless
      exact ⟨p, rfl, none, printed, printed_reads_back read none⟩

end Scripts

end Dil.Reading
