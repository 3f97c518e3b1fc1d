import Dil.Proofs.Grammar.Bounds
import Dil.Proofs.Reading.Expressions

namespace Dil.Reading

open Rule (Part wholeWord spellings)

/-- No semicolon follows, which a statement would take along. -/
def NoSemicolon (tokens : List String) : Prop := firstChar tokens ≠ some ';'

theorem declines_semicolon {tokens : List String} (none : NoSemicolon tokens) :
    Declines (Peg.word ";") tokens := by
  intro c stands
  refine Grammar.settles_word_refused ?_
  rintro ⟨more, split⟩
  have first := stands.head
  rw [← split] at first
  exact none first.symm

structure SpellsStatement (s : Stmt) (tokens : List String) : Prop where
  spelt : Spelt (.rule .statement) Build.statement NoSemicolon s tokens
  starts (rest : List String) : NoSemicolon (tokens ++ rest)

def statementRules : List Rule :=
  [.classDecl, .letStmt, .getStmt, .ifStmt, .foreachStmt, .forStmt, .assignStmt]

section Statements

variable {tokens : List String} {r : Rule} {s : Stmt} {e : Expr} {t : String}

theorem spells_statement (before : List Rule) {after : List Rule} (order : before ++ r :: after = statementRules)
    (u : Build.Node) (built : Build.construct .nowhere u = .ok s)
    (others : ∀ q ∈ before, ∀ rest, Declines (.rule q) (tokens ++ rest))
    (reads : ∀ rest, NoSemicolon rest → Reads (.rule r) (tokens ++ rest) [u] rest)
    (starts : ∀ rest, NoSemicolon (tokens ++ rest)) : SpellsStatement s tokens where
  starts := starts
  spelt := by
    refine ⟨.node .statement .nowhere [u], by rw [Build.statement, built], fun rest ends => ?_⟩
    have choice : Rule.body .statement
        = Peg.first (before.map .rule ++ .rule r :: after.map .rule) := by
      rw [← List.map_cons, ← List.map_append, order]
      rfl
    refine reads_rule rfl ?_
    rw [choice]
    refine reads_first (fun q member => ?_) (reads rest ends)
    obtain ⟨q, among, rfl⟩ := List.mem_map.mp member
    exact others q among rest

theorem spells_let (name : isName t.toList = true) (inner : Spells .full e tokens) :
    SpellsStatement (.bind .nowhere ⟨t, .nowhere⟩ e) ("let" :: t :: "=" :: tokens ++ [";"]) := by
  obtain ⟨u, built, reads⟩ := inner
  refine spells_statement [.classDecl] rfl
    (.node .letStmt .nowhere [.leaf .identifier .nowhere t.toList, u]) ?_ ?_ (fun rest _ => ?_) ?_
  · simp [Build.construct, Build.ident, built]
    rfl
  · intro q member rest
    rw [List.mem_singleton.mp member]
    exact declines_at (by decide)
  · have value := reads (";" :: rest) (.cons (by decide))
    simp only [List.cons_append, List.append_assoc, List.nil_append]
    exact reads_rule rfl (reads_skip (reads_wholeWord (by decide)) (reads_seq (reads_identifier name)
      (reads_skip reads_word (reads_close value reads_word))))
  · intro rest
    simp [NoSemicolon, firstChar]

theorem spells_get (inner : Spells .full e tokens) :
    SpellsStatement (.get .nowhere e) ("Get" :: tokens ++ [";"]) := by
  obtain ⟨u, built, reads⟩ := inner
  refine spells_statement [.classDecl, .letStmt] rfl
    (.node .getStmt .nowhere [u]) ?_ ?_ (fun rest _ => ?_) ?_
  · simp [Build.construct, built]
    rfl
  · intro q member rest
    simp only [List.mem_cons, List.not_mem_nil, or_false] at member
    rcases member with rfl | rfl <;> exact declines_at (by decide)
  · have value := reads (";" :: rest) (.cons (by decide))
    simp only [List.cons_append, List.append_assoc, List.nil_append]
    exact reads_rule rfl (reads_skip (reads_wholeWord (by decide)) (reads_close value reads_word))
  · intro rest
    simp [NoSemicolon, firstChar]

theorem declines_reserved {kw : Rule} (reserved : kw ∈ reservedRules) (name : isName t.toList = true)
    (rest : List String) : Declines (wholeWord kw) (t :: rest) := by
  obtain ⟨word, free⟩ := isName_iff.mp name
  have same : wordsOf kw = spellings kw ∧ wordsOf kw ≠ [] := by
    revert reserved
    revert kw
    decide
  refine declines_wholeWord (refusesWord_of_absent same.2 fun member => free ?_)
  rw [same.1, show firstWord (t :: rest) = t.toList from leading_of_word word] at member
  exact mem_reservedWords_iff.mpr ⟨kw, reserved, member⟩

theorem assignment_built {ts : List Build.Node} {ss : List Segment} {u : Build.Node}
    (path : List.Forall₂ (fun t s => Build.segment t = .ok s) ts ss) (value : Build.expr u = .ok e) :
    Build.assignment (ts ++ [u]) = .ok (ss, e) := by
  induction path with
  | nil =>
      rw [List.nil_append, Build.assignment, value]
      rfl
  | @cons t s ts ss head _ ih =>
      cases ts with
      | nil =>
          rw [List.nil_append] at ih
          simp only [List.cons_append, List.nil_append, Build.assignment, head] at ih ⊢
          rw [ih]
          rfl
      | cons u us =>
          simp only [List.cons_append] at ih ⊢
          rw [Build.assignment, head, ih]
          · rfl
          · simp

theorem spells_assign {ι : Type} {xs : List ι} {segment : ι → Segment} {spelling : ι → List String}
    (name : isName t.toList = true) (path : ∀ x ∈ xs, SpellsSegment (segment x) (spelling x))
    (inner : Spells .full e tokens) :
    SpellsStatement (.assign .nowhere ⟨t, .nowhere⟩ (xs.map segment) e)
      (t :: (xs.flatMap spelling ++ "=" :: tokens) ++ [";"]) := by
  obtain ⟨u, built, reads⟩ := inner
  obtain ⟨pieces, spellings, steps, segments⟩ :=
    spelt_pieces fun x member => (path x member).spelt
  refine spells_statement [.classDecl, .letStmt, .getStmt, .ifStmt, .foreachStmt, .forStmt]
    rfl (.node .assignStmt .nowhere
      (.leaf .identifier .nowhere t.toList :: (pieces.flatMap Prod.snd ++ [u]))) ?_ ?_
    (fun rest _ => ?_) ?_
  · have parts := assignment_built segments built
    simp only [Build.construct, Build.ident, parts, String.ofList_toList]
    rfl
  · intro q member rest
    simp only [List.mem_cons, List.not_mem_nil, or_false] at member
    rcases member with rfl | rfl | rfl | rfl | rfl | rfl <;>
      exact declines_rule rfl (declines_seq (declines_reserved (by decide) name _))
  · have value := reads (";" :: rest) (.cons (by decide))
    have stop (more : List String) : Declines Rule.pathSegment ("=" :: more) :=
      declines_at (by decide)
    have others := reads_pieces steps (fun _ _ _ => trivial) trivial (stop (tokens ++ ";" :: rest))
    have tail : pieces.flatMap Prod.fst = xs.flatMap spelling := by
      rw [List.flatMap_def, spellings, ← List.flatMap_def]
    rw [tail] at others
    simp only [List.cons_append, List.append_assoc, List.nil_append]
    exact reads_rule rfl (reads_seq (reads_identifier name)
      (reads_seq others (reads_skip reads_word (reads_close value reads_word))))
  · intro rest none
    obtain ⟨word, -⟩ := isName_iff.mp name
    cases text : t.toList with
    | nil => simp [text, isWord] at word
    | cons x xs =>
        simp only [text, isWord, Bool.and_eq_true] at word
        simp only [firstChar, List.cons_append, List.head?_cons, Option.bind_some, text] at none
        cases none
        cases word.1

end Statements

/-- The words that end a block. -/
def blockStops : List String := ["ELSE", "ENDIF", "ENDFOREACH", "ENDFOR"]

/-- The tokens spell the statements of a block, up to a word that ends it. -/
structure SpellsBlock (ss : List Stmt) (tokens : List String) : Prop where
  reads : ∃ t, Build.block t = .ok ss ∧ ∀ stop ∈ blockStops, ∀ rest,
    Reads (.rule .block) (tokens ++ stop :: rest) [t] (stop :: rest)
  starts : ∀ stop ∈ blockStops, ∀ rest, NoSemicolon (tokens ++ stop :: rest)

section Blocks

variable {ι : Type} {xs : List ι} {value : ι → Stmt} {spelling : ι → List String}

theorem reads_statements (each : ∀ x ∈ xs, SpellsStatement (value x) (spelling x)) :
    ∃ ts, Build.statements ts = .ok (xs.map value) ∧ ∀ rest, NoSemicolon rest →
      Declines (.rule .statement) rest →
        Reads (.star (.rule .statement)) (xs.flatMap spelling ++ rest) ts rest := by
  obtain ⟨pieces, spellings, reads, built⟩ := spelt_pieces fun x member => (each x member).spelt
  refine ⟨pieces.flatMap Prod.snd, Build.statements_ok_iff.mpr built, fun rest ends stop => ?_⟩
  have next : ∀ piece ∈ pieces, ∀ rest, NoSemicolon (piece.1 ++ rest) := by
    intro piece member rest
    have among : piece.1 ∈ xs.map spelling := by
      rw [← spellings]
      exact List.mem_map_of_mem member
    obtain ⟨x, inside, same⟩ := List.mem_map.mp among
    rw [← same]
    exact (each x inside).starts rest
  have all := reads_pieces reads next ends stop
  rwa [List.flatMap_def, spellings, ← List.flatMap_def] at all

theorem starts_statements (each : ∀ x ∈ xs, SpellsStatement (value x) (spelling x))
    {rest : List String} (ends : NoSemicolon rest) : NoSemicolon (xs.flatMap spelling ++ rest) := by
  cases xs with
  | nil => exact ends
  | cons x xs =>
      rw [List.flatMap_cons, List.append_assoc]
      exact (each x List.mem_cons_self).starts _

theorem spells_block (each : ∀ x ∈ xs, SpellsStatement (value x) (spelling x)) :
    SpellsBlock (xs.map value) (xs.flatMap spelling) := by
  have ends : ∀ stop ∈ blockStops, ∀ rest, NoSemicolon (stop :: rest) := by
    intro stop member rest
    have first : ∀ stop ∈ blockStops, stop.toList.head? ≠ some ';' := by decide
    exact first stop member
  obtain ⟨ts, built, reads⟩ := reads_statements each
  refine ⟨⟨.node .block .nowhere ts, built, fun stop member rest => ?_⟩, fun stop member rest => ?_⟩
  · have none : ∀ stop ∈ blockStops,
        glance (leading stop.toList) stop.toList.head? glanceDepth (.rule .statement) = .refused := by
      decide
    exact reads_rule rfl (reads _ (ends stop member rest) (declines_at (none stop member)))
  · exact starts_statements each (ends stop member rest)

end Blocks

section Compound

variable {e : Expr} {tokens yes no : List String} {ss ss' : List Stmt} {t k : String}

theorem spells_if (inner : Spells .full e tokens) (block : SpellsBlock ss yes) :
    SpellsStatement (.branch .nowhere e ss []) ("IF" :: tokens ++ "THEN" :: yes ++ ["ENDIF"]) := by
  obtain ⟨u, built, reads⟩ := inner
  obtain ⟨⟨b, blockBuilt, blockReads⟩, starts⟩ := block
  refine spells_statement [.classDecl, .letStmt, .getStmt] rfl
    (.node .ifStmt .nowhere [u, b]) ?_ ?_ (fun rest ends => ?_) ?_
  · simp only [Build.construct, built, blockBuilt]
    rfl
  · intro q member rest
    simp only [List.mem_cons, List.not_mem_nil, or_false] at member
    rcases member with rfl | rfl | rfl <;> exact declines_at (by decide)
  · have condition := reads ("THEN" :: (yes ++ "ENDIF" :: rest)) (.cons (by decide))
    have body := blockReads "ENDIF" (by decide) rest
    have noElse : Declines (.rule .elseClause) ("ENDIF" :: rest) := declines_at (by decide)
    simp only [List.cons_append, List.append_assoc, List.nil_append]
    exact reads_rule rfl (reads_skip (reads_wholeWord (by decide)) (reads_seq condition
      (reads_skip (reads_wholeWord (by decide))
        (reads_skip (reads_opt_none (declines_semicolon (starts "ENDIF" (by decide) rest)))
          (reads_seq body (reads_skip (reads_opt_none noElse)
            (reads_skip (reads_wholeWord (by decide))
              (reads_opt_none (declines_semicolon ends)))))))))
  · intro rest
    simp [NoSemicolon, firstChar]

theorem spells_ifElse (inner : Spells .full e tokens) (block : SpellsBlock ss yes)
    (other : SpellsBlock ss' no) :
    SpellsStatement (.branch .nowhere e ss ss')
      ("IF" :: tokens ++ "THEN" :: yes ++ "ELSE" :: no ++ ["ENDIF"]) := by
  obtain ⟨u, built, reads⟩ := inner
  obtain ⟨⟨b, blockBuilt, blockReads⟩, starts⟩ := block
  obtain ⟨⟨b', otherBuilt, otherReads⟩, otherStarts⟩ := other
  refine spells_statement [.classDecl, .letStmt, .getStmt] rfl
    (.node .ifStmt .nowhere [u, b, .node .elseClause .nowhere [b']]) ?_ ?_ (fun rest ends => ?_) ?_
  · simp only [Build.construct, built, blockBuilt, otherBuilt]
    rfl
  · intro q member rest
    simp only [List.mem_cons, List.not_mem_nil, or_false] at member
    rcases member with rfl | rfl | rfl <;> exact declines_at (by decide)
  · have condition := reads ("THEN" :: (yes ++ "ELSE" :: (no ++ "ENDIF" :: rest)))
      (.cons (by decide))
    have body := blockReads "ELSE" (by decide) (no ++ "ENDIF" :: rest)
    have noBody := otherReads "ENDIF" (by decide) rest
    have clause : Reads (.rule .elseClause) ("ELSE" :: (no ++ "ENDIF" :: rest))
        [.node .elseClause .nowhere [b']] ("ENDIF" :: rest) :=
      reads_rule rfl (reads_skip (reads_wholeWord (by decide))
        (reads_skip (reads_opt_none (declines_semicolon (otherStarts "ENDIF" (by decide) rest)))
          noBody))
    simp only [List.cons_append, List.append_assoc, List.nil_append]
    exact reads_rule rfl (reads_skip (reads_wholeWord (by decide)) (reads_seq condition
      (reads_skip (reads_wholeWord (by decide))
        (reads_skip (reads_opt_none (declines_semicolon (starts "ELSE" (by decide) _)))
          (reads_seq body (reads_seq (reads_opt clause)
            (reads_skip (reads_wholeWord (by decide))
              (reads_opt_none (declines_semicolon ends)))))))))
  · intro rest
    simp [NoSemicolon, firstChar]

def keyTokens : Option String → List String
  | none => []
  | some k => [",", k]

theorem reads_key {key : Option String} (names : ∀ k ∈ key, isName k.toList = true)
    (rest : List String) :
    Reads (.opt (.seq (Peg.word ",") (.rule .identifier))) (keyTokens key ++ "IN" :: rest)
      (key.map fun k => Tree.leaf Rule.identifier .nowhere k.toList).toList ("IN" :: rest) := by
  cases key with
  | none => exact reads_opt_none (declines_at (by decide))
  | some k => exact reads_opt (reads_skip reads_word (reads_identifier (names k rfl)))

theorem spells_each {key : Option String} (name : isName t.toList = true)
    (names : ∀ k ∈ key, isName k.toList = true) (inner : Spells .full e tokens)
    (block : SpellsBlock ss yes) :
    SpellsStatement (.each .nowhere ⟨t, .nowhere⟩ (key.map fun k => ⟨k, .nowhere⟩) e ss)
      ("FOREACH" :: t :: keyTokens key ++ "IN" :: tokens ++ "DO" :: yes ++ ["ENDFOREACH"]) := by
  obtain ⟨u, built, reads⟩ := inner
  obtain ⟨⟨b, blockBuilt, blockReads⟩, starts⟩ := block
  refine spells_statement [.classDecl, .letStmt, .getStmt, .ifStmt] rfl
    (.node .foreachStmt .nowhere (.leaf .identifier .nowhere t.toList
      :: ((key.map fun k => Tree.leaf Rule.identifier .nowhere k.toList).toList ++ [u, b])))
    ?_ ?_ (fun rest ends => ?_) ?_
  · cases key with
    | none =>
        simp only [Option.map_none, Option.toList_none, List.nil_append, Build.construct, Build.ident,
          String.ofList_toList, built, blockBuilt]
        rfl
    | some k =>
        simp only [Option.map_some, Option.toList_some, List.cons_append, List.nil_append,
          Build.construct, Build.ident, String.ofList_toList, built, blockBuilt]
        rfl
  · intro q member rest
    simp only [List.mem_cons, List.not_mem_nil, or_false] at member
    rcases member with rfl | rfl | rfl | rfl <;> exact declines_at (by decide)
  · have collection := reads ("DO" :: (yes ++ "ENDFOREACH" :: rest)) (.cons (by decide))
    have body := blockReads "ENDFOREACH" (by decide) rest
    simp only [List.cons_append, List.append_assoc, List.nil_append]
    exact reads_rule rfl (reads_skip (reads_wholeWord (by decide)) (reads_seq (reads_identifier name)
      (reads_seq (reads_key names _) (reads_skip (reads_wholeWord (by decide))
        (reads_seq collection (reads_skip (reads_wholeWord (by decide))
          (reads_skip (reads_opt_none (declines_semicolon (starts "ENDFOREACH" (by decide) rest)))
            (reads_close body (reads_skip (reads_wholeWord (by decide))
              (reads_opt_none (declines_semicolon ends)))))))))))
  · intro rest
    simp [NoSemicolon, firstChar]

theorem spells_loop (name : isName t.toList = true) (inner : Spells .full e tokens)
    (block : SpellsBlock ss yes) :
    SpellsStatement (.loop .nowhere ⟨t, .nowhere⟩ e ss)
      ("FOR" :: t :: "WHEN" :: tokens ++ "DO" :: yes ++ ["ENDFOR"]) := by
  obtain ⟨u, built, reads⟩ := inner
  obtain ⟨⟨b, blockBuilt, blockReads⟩, starts⟩ := block
  refine spells_statement [.classDecl, .letStmt, .getStmt, .ifStmt, .foreachStmt] rfl
    (.node .forStmt .nowhere [.leaf .identifier .nowhere t.toList, u, b]) ?_ ?_
    (fun rest ends => ?_) ?_
  · simp only [Build.construct, Build.ident, String.ofList_toList, built, blockBuilt]
    rfl
  · intro q member rest
    simp only [List.mem_cons, List.not_mem_nil, or_false] at member
    rcases member with rfl | rfl | rfl | rfl | rfl <;> exact declines_at (by decide)
  · have condition := reads ("DO" :: (yes ++ "ENDFOR" :: rest)) (.cons (by decide))
    have body := blockReads "ENDFOR" (by decide) rest
    simp only [List.cons_append, List.append_assoc, List.nil_append]
    exact reads_rule rfl (reads_skip (reads_wholeWord (by decide)) (reads_seq (reads_identifier name)
      (reads_skip (reads_wholeWord (by decide)) (reads_seq condition
        (reads_skip (reads_wholeWord (by decide))
          (reads_skip (reads_opt_none (declines_semicolon (starts "ENDFOR" (by decide) rest)))
            (reads_close body (reads_skip (reads_wholeWord (by decide))
              (reads_opt_none (declines_semicolon ends))))))))))
  · intro rest
    simp [NoSemicolon, firstChar]

end Compound

section Classes

variable {e : Expr} {tokens : List String} {t : String}

def typeTokens : Option Tag → List String
  | none => []
  | some tag => ["as", tag.name]

def overwriteTokens (overwrite : Bool) : List String := if overwrite then ["$overwrite$"] else []

theorem reads_classEnd {rest : List String} (ends : NoSemicolon rest) :
    Reads Rule.classEnd ("class" :: ":" :: "end" :: rest) [] rest :=
  reads_skip (reads_wholeWord (by decide)) (reads_skip reads_word
    (reads_skip (reads_wholeWord (by decide)) (reads_opt_none (declines_semicolon ends))))

/-- A field is not taken for the end of its class, unless it is called `class` and its default starts
with the word `end`. -/
theorem declines_classEnd (word : isWord t.toList = true)
    (apart : t = "class" → firstWord tokens ≠ "end".toList) :
    Declines Rule.classEnd (t :: ":" :: tokens) := by
  have absent {kw : Rule} {w : String} {ts : List String} (spelling : wordsOf kw = [w])
      (other : firstWord ts ≠ w.toList) : Declines (wholeWord kw) ts := by
    refine declines_wholeWord (refusesWord_of_absent (by simp [spelling]) ?_)
    simpa [spelling] using other
  by_cases same : t = "class"
  · subst same
    exact declines_second (reads_wholeWord (by decide)) (declines_second reads_word
      (declines_seq (absent rfl (apart rfl))))
  · refine declines_seq (absent rfl ?_)
    rw [show firstWord (t :: ":" :: tokens) = t.toList from leading_of_word word]
    exact fun equal => same (String.toList_inj.mp equal)

theorem spells_fieldDecl (word : isWord t.toList = true) (inner : Spells .chain e tokens)
    (type : Option Tag) (overwrite : Bool)
    (apart : t = "class" → ∀ rest, firstWord (tokens ++ rest) ≠ "end".toList) :
    Spelt (.rule .fieldDecl) Build.fieldDecl (fun _ => True)
      ⟨⟨t, .nowhere⟩, e, type.map fun tag => ⟨tag, .nowhere⟩, overwrite, .nowhere⟩
      (t :: ":" :: tokens ++ typeTokens type ++ overwriteTokens overwrite ++ [";"]) := by
  obtain ⟨u, built, reads⟩ := inner
  have suffix (rest : List String) : Reads (.opt (.rule .typeSuffix))
      (typeTokens type ++ (overwriteTokens overwrite ++ ";" :: rest)) (type.map suffixTree).toList
      (overwriteTokens overwrite ++ ";" :: rest) := by
    cases type with
    | some tag => exact reads_opt (reads_suffix tag _)
    | none => cases overwrite <;> exact reads_opt_none (declines_at (by decide))
  have modifier (rest : List String) : Reads (.opt (.rule .overwriteModifier))
      (overwriteTokens overwrite ++ ";" :: rest)
      (if overwrite then [.node .overwriteModifier .nowhere []] else []) (";" :: rest) := by
    cases overwrite with
    | true => exact reads_opt (reads_rule rfl reads_word)
    | false => exact reads_opt_none (declines_at (by decide))
  have follows (rest : List String) :
      Level.chain.Ends (typeTokens type ++ (overwriteTokens overwrite ++ ";" :: rest)) := by
    cases type with
    | some tag => exact .cons (by decide)
    | none => cases overwrite <;> exact .cons (by decide)
  refine ⟨.node .fieldDecl .nowhere (.leaf .keyIdent .nowhere t.toList :: u
    :: ((type.map suffixTree).toList ++ if overwrite then [.node .overwriteModifier .nowhere []] else [])),
    ?_, fun rest _ => ?_⟩
  · cases type with
    | none =>
        cases overwrite <;>
          simp [Build.fieldDecl, Build.ident, built] <;> rfl
    | some tag =>
        have cast := suffix_built tag
        rw [suffixTree] at cast
        cases overwrite <;>
          simp [Build.fieldDecl, Build.ident, built, suffixTree, cast] <;> rfl
  · have value := reads _ (follows rest)
    simp only [List.cons_append, List.append_assoc, List.nil_append]
    exact reads_rule rfl (reads_skip (reads_unless (declines_classEnd word fun same => apart same _))
      (reads_seq (reads_keyIdent word) (reads_skip reads_word (reads_seq value
        (reads_seq (suffix rest) (reads_close (modifier rest) reads_word))))))

variable {ι : Type} {xs : List ι} {value : ι → FieldDecl} {spelling : ι → List String}

theorem spells_class (name : isName t.toList = true) (fields : ∀ x ∈ xs,
      Spelt (.rule .fieldDecl) Build.fieldDecl (fun _ => True) (value x) (spelling x)) :
    SpellsStatement (.declare .nowhere ⟨⟨t, .nowhere⟩, xs.map value, .nowhere⟩)
      ("class" :: t :: ":" :: xs.flatMap spelling ++ ["class", ":", "end"]) := by
  obtain ⟨pieces, spellings, reads, built⟩ := spelt_pieces fields
  refine spells_statement [] rfl (.node .classDecl .nowhere
    (.leaf .identifier .nowhere t.toList :: pieces.flatMap Prod.snd)) ?_ nofun (fun rest ends => ?_) ?_
  · have parts := Build.fieldDecls_ok_iff.mpr built
    simp only [Build.construct, Build.classDecl, Build.ident, String.ofList_toList, parts]
    rfl
  · have stop : Declines (.rule .fieldDecl) ("class" :: ":" :: "end" :: rest) :=
      declines_rule rfl (declines_seq (declines_unless (reads_classEnd ends)))
    have others := reads_pieces reads (fun _ _ _ => trivial) trivial stop
    rw [List.flatMap_def, spellings, ← List.flatMap_def] at others
    simp only [List.cons_append, List.append_assoc, List.nil_append]
    exact reads_rule rfl (reads_skip (reads_wholeWord (by decide)) (reads_seq (reads_identifier name)
      (reads_skip reads_word (reads_close others (reads_classEnd ends)))))
  · intro rest
    simp [NoSemicolon, firstChar]

end Classes

section Sources

variable {r : Rule} {p : Part} {source : String} {tokens : List String} {ts : List Build.Node}

theorem settles_source {tokens left : List String} (spaced : Rule.kind r = .spaced)
    (body : Rule.body r = .seq .nothing p) (laid : Laid source.toList tokens)
    (reads : Reads p tokens ts left) :
    ∃ t d, grammar.Settles true (.rule r) (.ofSource source) (.matched [t] d)
      ∧ t.bare = .node r .nowhere ts := by
  have here : Laid (Cursor.ofSource source).rest tokens := laid
  obtain ⟨us, d, inner, bare, -⟩ := reads _ here.stands
  have whole : grammar.Settles true (Rule.body r) (.ofSource source) (.matched us d) := by
    rw [body]
    exact .seq .nothing inner
  have gathered : grammar.Settles true (.rule r) (.ofSource source)
      ((Verdict.matched us d).gather (Rule.kind r) r (.ofSource source)) := by
    refine .rule ?_
    rw [show grammar.kind r = .spaced from spaced]
    exact whole
  rw [spaced] at gathered
  exact ⟨_, d, gathered, by rw [Tree.bare, bare]⟩

theorem reads_sourceEnd : Reads (.rule .endOfInput) [] [.node .endOfInput .nowhere []] [] :=
  reads_rule rfl reads_end

theorem readExpression_of_spells {e : Expr} (spells : Spells .full e tokens)
    (laid : Laid source.toList tokens) :
    ∃ e', readExpression source = .ok e' ∧ e'.unplaced = e := by
  obtain ⟨u, built, reads⟩ := spells
  have value := reads [] nofun
  rw [List.append_nil] at value
  obtain ⟨t, d, settles, bare⟩ := settles_source (r := .standaloneExpression) rfl rfl laid
    (reads_seq value reads_sourceEnd)
  have builtBare : Build.standalone t.bare = .ok e := by
    rw [bare, List.cons_append, Build.standalone, built]
  obtain ⟨e', found, same⟩ := Build.standalone_keeps t e builtBare
  exact ⟨e', readAs_eq_ok_iff.mpr ⟨t, d, settles, found⟩, same⟩

theorem readProgram_of_spells {ι : Type} {xs : List ι} {value : ι → Stmt}
    {spelling : ι → List String} (each : ∀ x ∈ xs, SpellsStatement (value x) (spelling x))
    (laid : Laid source.toList (xs.flatMap spelling)) :
    ∃ program, readProgram source = .ok program
      ∧ program.unplaced = ⟨xs.map value, .nowhere⟩ := by
  obtain ⟨us, built, reads⟩ := reads_statements each
  have statements := reads [] (by simp [NoSemicolon, firstChar]) (declines_of_glance (by decide))
  rw [List.append_nil] at statements
  obtain ⟨t, d, settles, bare⟩ := settles_source (r := .program) rfl rfl laid
    (reads_seq statements reads_sourceEnd)
  have builtBare : Build.program t.bare = .ok ⟨xs.map value, .nowhere⟩ := by
    rw [bare, Build.program, List.dropLast_concat, built]
    rfl
  obtain ⟨program, found, same⟩ := Build.program_keeps t _ builtBare
  exact ⟨program, readAs_eq_ok_iff.mpr ⟨t, d, settles, found⟩, same⟩

end Sources

end Dil.Reading
