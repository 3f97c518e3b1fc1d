import Dil.Proofs.Reading.Scripts
import Dil.Proofs.Syntax.Mentions

namespace Dil.Reading

open Build (Node)

def Worded (ms : List Mention) : Prop := ∀ w, Mention.word w ∈ ms → isWord w.toList = true

section Lists

variable {ms ns : List Mention} {names : List String} {ss : List Stmt}

@[simp] theorem worded_append : Worded (ms ++ ns) ↔ Worded ms ∧ Worded ns := by
  simp only [Worded, List.mem_append, or_imp, forall_and]

@[simp] theorem worded_keys : Worded (names.map .key) := by
  simp [Worded]

@[simp] theorem worded_words :
    Worded (names.map .word) ↔ ∀ name ∈ names, isWord name.toList = true := by
  simp [Worded]

theorem worded_block (each : ∀ s ∈ ss, Worded s.mentions) : Worded (Stmt.blockMentions ss) := by
  rw [Stmt.blockMentions_eq]
  intro w member
  obtain ⟨s, among, inside⟩ := List.mem_flatMap.mp member
  exact each s among w inside

end Lists

/-- What is built of a tree mentions words where it has to. The block of an `ELSE` part stands one level
deeper than its statement tells. -/
structure WordedStatement (t : Node) : Prop where
  statement {s : Stmt} (grown : grammar.Grown .statement t) (built : Build.statement t = .ok s) :
    Worded s.mentions
  construct {r : Rule} {sp : Span} {s : Stmt} (among : r ∈ statementRules) (grown : grammar.Grown r t)
    (built : Build.construct sp t = .ok s) : Worded s.mentions
  block {ss : List Stmt} (grown : grammar.Grown .block t) (built : Build.block t = .ok ss) :
    Worded (Stmt.blockMentions ss)
  otherwise {sp : Span} {b : Node} {ss : List Stmt} (clause : t = .node .elseClause sp [b])
    (grown : grammar.Grown .block b) (built : Build.block b = .ok ss) :
    Worded (Stmt.blockMentions ss)

section Names

variable {sp : Span} {t : Node} {ts : List Node} {i : Ident} {s : Stmt}

theorem isWord_of_ident (grown : grammar.Grown .identifier t) (built : Build.ident t = .ok i) :
    isWord i.name.toList = true :=
  (isName_iff.mp (isName_of_ident grown built)).1

theorem isWord_of_keyIdent (grown : grammar.Grown .keyIdent t) (built : Build.ident t = .ok i) :
    isWord i.name.toList = true := by
  obtain ⟨place, w, rfl, word⟩ := grown_keyIdent grown
  cases built
  rwa [String.toList_ofList]

theorem isWord_of_fieldDecl {f : FieldDecl} (grown : grammar.Grown .fieldDecl t)
    (built : Build.fieldDecl t = .ok f) : isWord f.name.name.toList = true := by
  obtain ⟨place, name, a, types, marks, rfl, word, -⟩ := grown_fieldDecl grown
  exact isWord_of_keyIdent word (fieldDecl_parts built).1

theorem isWord_of_segments {path : List Segment}
    (grown : ∀ u ∈ ts, grammar.Grown .fieldSegment u ∨ grammar.Grown .indexSegment u)
    (built : Build.segments ts = .ok path) : ∀ name ∈ pathFields path, isWord name.toList = true := by
  induction ts generalizing path with
  | nil =>
      cases built
      nofun
  | cons t ts ih =>
      rw [List.forall_mem_cons] at grown
      obtain ⟨segment, first, built⟩ := bind_eq_ok_iff.mp built
      obtain ⟨steps, others, done⟩ := bind_eq_ok_iff.mp built
      cases done
      have inside := ih grown.2 others
      obtain field | index := grown.1
      · obtain ⟨place, a, rfl, word⟩ := grown_fieldSegment field
        obtain ⟨name, named, done⟩ := bind_eq_ok_iff.mp first
        cases done
        exact List.forall_mem_cons.mpr ⟨isWord_of_keyIdent word named, inside⟩
      · obtain ⟨place, a, rfl, -⟩ := grown_indexSegment index
        obtain ⟨position, -, done⟩ := bind_eq_ok_iff.mp first
        cases done
        exact inside

theorem worded_classDecl (grown : grammar.Grown .classDecl t)
    (built : Build.construct sp t = .ok s) : Worded s.mentions := by
  obtain ⟨place, a, ts, rfl, word, fields⟩ := grown_classDecl grown
  obtain ⟨decl, declared, done⟩ := bind_eq_ok_iff.mp built
  cases done
  obtain ⟨name, named, declared⟩ := bind_eq_ok_iff.mp declared
  obtain ⟨fs, found, done⟩ := bind_eq_ok_iff.mp declared
  cases done
  have inside : ∀ f ∈ fs, isWord f.name.name.toList = true :=
    forall_of_built (Build.fieldDecls_ok_iff.mp found) fun u member f _ built =>
      isWord_of_fieldDecl (fields u member) built
  have words : ∀ w ∈ name.name :: fs.map fun f => f.name.name, isWord w.toList = true :=
    List.forall_mem_cons.mpr ⟨isWord_of_ident word named, List.forall_mem_map.mpr inside⟩
  exact worded_append.mpr ⟨worded_words.mpr words, worded_keys⟩

theorem worded_assignStmt (grown : grammar.Grown .assignStmt t)
    (built : Build.construct sp t = .ok s) : Worded s.mentions := by
  obtain ⟨place, a, path, b, rfl, -, -, steps⟩ := grown_assignStmt grown
  obtain ⟨name, -, built⟩ := bind_eq_ok_iff.mp built
  obtain ⟨⟨segments, e⟩, parts, done⟩ := bind_eq_ok_iff.mp built
  cases done
  exact worded_append.mpr
    ⟨worded_words.mpr (isWord_of_segments steps (assignment_parts parts).1), worded_keys⟩

end Names

section Trees

variable {sp : Span} {t : Node} {ts : List Node} {s : Stmt}

theorem worded_letStmt (grown : grammar.Grown .letStmt t) (built : Build.construct sp t = .ok s) :
    Worded s.mentions := by
  obtain ⟨place, a, b, rfl, -⟩ := grown_letStmt grown
  obtain ⟨name, -, built⟩ := bind_eq_ok_iff.mp built
  obtain ⟨e, -, done⟩ := bind_eq_ok_iff.mp built
  cases done
  exact worded_keys

theorem worded_getStmt (grown : grammar.Grown .getStmt t) (built : Build.construct sp t = .ok s) :
    Worded s.mentions := by
  obtain ⟨place, a, rfl, -⟩ := grown_getStmt grown
  obtain ⟨e, -, done⟩ := bind_eq_ok_iff.mp built
  cases done
  exact worded_keys

theorem worded_ifStmt (grown : grammar.Grown .ifStmt t)
    (children : ∀ u ∈ t.children, WordedStatement u) (built : Build.construct sp t = .ok s) :
    Worded s.mentions := by
  obtain ⟨place, a, b, ts, rfl, -, block, rest⟩ := grown_ifStmt grown
  rcases rest with rfl | ⟨c, rfl, clause⟩
  · obtain ⟨e, -, built⟩ := bind_eq_ok_iff.mp built
    obtain ⟨yes, onTrue, done⟩ := bind_eq_ok_iff.mp built
    cases done
    have inside := (children b (by simp)).block block onTrue
    exact worded_append.mpr ⟨worded_keys, worded_append.mpr ⟨inside, worded_block nofun⟩⟩
  · obtain ⟨place', b', rfl, block'⟩ := grown_elseClause clause
    obtain ⟨e, -, built⟩ := bind_eq_ok_iff.mp built
    obtain ⟨yes, onTrue, built⟩ := bind_eq_ok_iff.mp built
    obtain ⟨no, onFalse, done⟩ := bind_eq_ok_iff.mp built
    cases done
    have inside := (children b (by simp)).block block onTrue
    have others := (children (.node .elseClause place' [b']) (by simp)).otherwise rfl block' onFalse
    exact worded_append.mpr ⟨worded_keys, worded_append.mpr ⟨inside, others⟩⟩

theorem worded_foreachStmt (grown : grammar.Grown .foreachStmt t)
    (children : ∀ u ∈ t.children, WordedStatement u) (built : Build.construct sp t = .ok s) :
    Worded s.mentions := by
  obtain ⟨place, a, keys, b, c, rfl, -, key, -, block⟩ := grown_foreachStmt grown
  have body : WordedStatement c := children c (by simp)
  rcases key with rfl | ⟨k, rfl, -⟩
  · obtain ⟨name, -, built⟩ := bind_eq_ok_iff.mp built
    obtain ⟨e, -, built⟩ := bind_eq_ok_iff.mp built
    obtain ⟨ss, run, done⟩ := bind_eq_ok_iff.mp built
    cases done
    exact worded_append.mpr ⟨worded_keys, body.block block run⟩
  · obtain ⟨name, -, built⟩ := bind_eq_ok_iff.mp built
    obtain ⟨key, -, built⟩ := bind_eq_ok_iff.mp built
    obtain ⟨e, -, built⟩ := bind_eq_ok_iff.mp built
    obtain ⟨ss, run, done⟩ := bind_eq_ok_iff.mp built
    cases done
    exact worded_append.mpr ⟨worded_keys, body.block block run⟩

theorem worded_forStmt (grown : grammar.Grown .forStmt t)
    (children : ∀ u ∈ t.children, WordedStatement u) (built : Build.construct sp t = .ok s) :
    Worded s.mentions := by
  obtain ⟨place, a, b, c, rfl, -, -, block⟩ := grown_forStmt grown
  have body : WordedStatement c := children c (by simp)
  obtain ⟨name, -, built⟩ := bind_eq_ok_iff.mp built
  obtain ⟨e, -, built⟩ := bind_eq_ok_iff.mp built
  obtain ⟨ss, run, done⟩ := bind_eq_ok_iff.mp built
  cases done
  exact worded_append.mpr ⟨worded_keys, body.block block run⟩

theorem worded_construct {r : Rule} (among : r ∈ statementRules) (grown : grammar.Grown r t)
    (children : ∀ u ∈ t.children, WordedStatement u) (built : Build.construct sp t = .ok s) :
    Worded s.mentions := by
  simp only [statementRules, List.mem_cons, List.not_mem_nil, or_false] at among
  rcases among with rfl | rfl | rfl | rfl | rfl | rfl | rfl
  · exact worded_classDecl grown built
  · exact worded_letStmt grown built
  · exact worded_getStmt grown built
  · exact worded_ifStmt grown children built
  · exact worded_foreachStmt grown children built
  · exact worded_forStmt grown children built
  · exact worded_assignStmt grown built

theorem worded_statements {ss : List Stmt} (each : ∀ u ∈ ts, WordedStatement u)
    (grown : ∀ u ∈ ts, grammar.Grown .statement u) (built : Build.statements ts = .ok ss) :
    Worded (Stmt.blockMentions ss) :=
  worded_block (forall_of_built (Build.statements_ok_iff.mp built) fun u member _ _ built =>
    (each u member).statement (grown u member) built)

theorem wordedStatement (t : Node) : WordedStatement t := by
  induction t using Tree.induct with
  | step t children =>
      constructor
      case statement =>
        intro s grown built
        obtain ⟨place, r, a, rfl, inner, among⟩ := grown_statement grown
        exact (children a (by simp)).construct among inner built
      case construct =>
        intro r sp s among grown built
        exact worded_construct among grown children built
      case block =>
        intro ss grown built
        obtain ⟨place, ts, rfl, each⟩ := grown_block grown
        exact worded_statements children each built
      case otherwise =>
        rintro sp b ss rfl grown built
        exact (children b (by simp)).block grown built

end Trees

theorem worded_program {source : String} {p : Program} (read : readProgram source = .ok p) :
    Worded p.mentions := by
  obtain ⟨t, d, settles, built⟩ := readAs_eq_ok_iff.mp read
  obtain ⟨sp, ts, stop, rfl, each⟩ := matched_program settles
  obtain ⟨ss, found, done⟩ := bind_eq_ok_iff.mp built
  cases done
  rw [List.dropLast_concat] at found
  exact worded_statements (fun u _ => wordedStatement u) each found

end Dil.Reading
