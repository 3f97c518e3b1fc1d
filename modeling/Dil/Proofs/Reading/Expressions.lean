import Dil.Proofs.Reading.Lists
import Dil.Proofs.Syntax.Built
import Dil.Value.Basic

namespace Dil.Reading

open Rule (Part)

/-- How tight an expression binds: each level takes in those before it. -/
inductive Level where
  | primary | path | operand | chain | full
  deriving DecidableEq

namespace Level

def rule : Level → Rule
  | primary => .primaryExpr
  | path => .postfixExpr
  | operand => .prefixExpr
  | chain => .arithExpr
  | full => .expression

/-- The tokens that may follow a whole expression. -/
def closers : List String := [";", "THEN", "DO", ")", "]", closeBrace, ","]

/-- The tokens that may follow an expression of a level. -/
def follow : Level → List String
  | full => closers
  | chain => closers ++ ["as", "$overwrite$"]
  | operand | path => closers ++ ["as", "$overwrite$"] ++ BinaryOp.inOrder.map BinaryOp.symbol
  | primary =>
    closers ++ ["as", "$overwrite$"] ++ BinaryOp.inOrder.map BinaryOp.symbol ++ ["->", "["]

/-- Nothing follows that could belong to the expression. -/
def Ends (level : Level) (tokens : List String) : Prop := ∀ t ∈ tokens.head?, t ∈ level.follow

end Level

section Ends

variable {level : Level} {tokens : List String} {t : String} {p : Part}

theorem Level.Ends.cons (follows : t ∈ level.follow) : level.Ends (t :: tokens) := by
  rintro u ⟨⟩
  exact follows

theorem Level.Ends.declines (ends : level.Ends tokens)
    (atEnd : glance [] none glanceDepth p = .refused)
    (others : ∀ t ∈ level.follow, glance (leading t.toList) t.toList.head? glanceDepth p = .refused) :
    Declines p tokens := by
  cases tokens with
  | nil => exact declines_of_glance atEnd
  | cons t ts => exact declines_at (others t (ends t rfl))

theorem Level.Ends.loosen {loose : Level} (ends : loose.Ends tokens)
    (within : loose.follow ⊆ level.follow) : level.Ends tokens :=
  fun t next => within (ends t next)

end Ends

section Spelling

variable {α ι : Type} {p : Part} {build : Build.Node → Except BuildError α}
  {follow : List String → Prop} {tokens : List String}

def Spelt (p : Part) (build : Build.Node → Except BuildError α) (follow : List String → Prop) (a : α)
    (tokens : List String) : Prop :=
  ∃ t, build t = .ok a ∧ Piece.ReadBy p follow (tokens, [t])

abbrev Spells (level : Level) (e : Expr) (tokens : List String) : Prop :=
  Spelt (.rule level.rule) Build.expr level.Ends e tokens

theorem spelt_pieces {xs : List ι} {value : ι → α} {spelling : ι → List String}
    (each : ∀ x ∈ xs, Spelt p build follow (value x) (spelling x)) :
    ∃ pieces : List Piece, pieces.map Prod.fst = xs.map spelling
      ∧ (∀ piece ∈ pieces, piece.ReadBy p follow)
      ∧ List.Forall₂ (fun t a => build t = .ok a) (pieces.flatMap Prod.snd) (xs.map value) := by
  induction xs with
  | nil => exact ⟨[], rfl, nofun, .nil⟩
  | cons x xs ih =>
      obtain ⟨t, built, reads⟩ := each x List.mem_cons_self
      obtain ⟨pieces, tokens, read, trees⟩ := ih fun y member => each y (List.mem_cons_of_mem _ member)
      refine ⟨(spelling x, [t]) :: pieces, by simp [tokens], ?_, .cons built trees⟩
      intro piece member
      cases member with
      | head => exact reads
      | tail _ later => exact read piece later

end Spelling

section Primary

def primaryRules : List Rule :=
  [.nullLiteral, .boolLiteral, .floatLiteral, .intLiteral, .stringLiteral, .mapLiteral,
    .arrayLiteral, .newExpr, .identifier, .parenExpr]

variable {tokens : List String} {r : Rule} {e : Expr}

theorem spells_primary (before : List Rule) {after : List Rule} (order : before ++ r :: after = primaryRules)
    (t : Build.Node) (built : Build.primary .nowhere t = .ok e)
    (others : ∀ q ∈ before, ∀ rest, Level.primary.Ends rest → Declines (.rule q) (tokens ++ rest))
    (reads : ∀ rest, Level.primary.Ends rest → Reads (.rule r) (tokens ++ rest) [t] rest) :
    Spells .primary e tokens := by
  refine ⟨.node .primaryExpr .nowhere [t], by rw [Build.expr, built], fun rest ends => ?_⟩
  refine reads_rule rfl ?_
  have choice : Rule.body .primaryExpr
      = Peg.first (before.map .rule ++ .rule r :: after.map .rule) := by
    rw [← List.map_cons, ← List.map_append, order]
    rfl
  change Reads (Rule.body .primaryExpr) _ _ _
  rw [choice]
  refine reads_first (fun q member => ?_) (reads rest ends)
  obtain ⟨q, among, rfl⟩ := List.mem_map.mp member
  exact others q among rest ends

theorem spells_null : Spells .primary (.null .nowhere) ["null"] :=
  spells_primary [] rfl (.leaf .nullLiteral .nowhere "null".toList) rfl nofun
    fun _ _ => reads_keyword rfl rfl (by decide) (by decide)

theorem spells_bool (b : Bool) : Spells .primary (.bool .nowhere b) [boolText b] := by
  refine spells_primary [.nullLiteral] rfl
    (.leaf .boolLiteral .nowhere (boolText b).toList) (by cases b <;> rfl) ?_
    fun _ _ => reads_keyword rfl rfl (by decide) (by cases b <;> decide)
  intro q member rest _
  rw [List.mem_singleton.mp member]
  cases b <;> exact declines_at (by decide)

theorem spells_int {n : Int64} (positive : 0 ≤ n.toInt) :
    Spells .primary (.int .nowhere n) [int64Text n] := by
  have digits := (int64Text_digits positive).1
  refine spells_primary [.nullLiteral, .boolLiteral, .floatLiteral] rfl
    (.leaf .intLiteral .nowhere (int64Text n).toList) ?_ ?_ fun _ _ => reads_int positive
  · simp [Build.primary, Build.intLiteral_int64Text positive]
    rfl
  · intro q member rest _
    simp only [List.mem_cons, List.not_mem_nil, or_false] at member
    rcases member with rfl | rfl | rfl
    · exact declines_of_digits digits (by decide) (by decide)
    · exact declines_of_digits digits (by decide) (by decide)
    · exact declines_float positive

theorem stringInside_escape (s : String) :
    Build.stringInside (Quoted.escape s.toList) = .ok s := by
  simp [Build.stringInside, Quoted.unescape_escape]

theorem spells_str (s : String) : Spells .primary (.str .nowhere s) [Quoted.quote s] := by
  refine spells_primary
    [.nullLiteral, .boolLiteral, .floatLiteral, .intLiteral] rfl
    (.node .stringLiteral .nowhere [.leaf .stringInner .nowhere (Quoted.escape s.toList)])
    ?_ ?_ fun _ _ => reads_string
  · simp [Build.primary, stringInside_escape]
    rfl
  · intro q member rest _
    refine declines_from (quote_toList s) rfl ?_
    simp only [List.mem_cons, List.not_mem_nil, or_false] at member
    rcases member with rfl | rfl | rfl | rfl <;> decide

theorem declines_of_isName {t : String} (name : isName t.toList = true) :
    ∀ r ∈ [Rule.nullLiteral, .boolLiteral, .floatLiteral, .intLiteral, .stringLiteral, .mapLiteral,
      .arrayLiteral], Declines (.rule r) (t :: tokens) := by
  obtain ⟨word, free⟩ := isName_iff.mp name
  have reserved {r : Rule} (some : wordsOf r ≠ [])
      (among : ∀ s ∈ wordsOf r, s.toList ∈ reservedWords) : Declines (.rule r) (t :: tokens) := by
    refine declines_word (refusesWord_of_absent some fun member => ?_)
    obtain ⟨s, spelling, same⟩ := List.mem_map.mp member
    have whole : firstWord (t :: tokens) = t.toList := leading_of_word word
    rw [whole] at same
    exact free (same ▸ among s spelling)
  intro r member
  rw [List.mem_cons, List.mem_cons] at member
  rcases member with rfl | rfl | later
  · exact reserved (by decide) (by decide)
  · exact reserved (by decide) (by decide)
  · exact declines_of_isWord word r later

theorem spells_create {t : String} (name : isName t.toList = true) :
    Spells .primary (.create .nowhere ⟨t, .nowhere⟩) [t, ":", "new"] := by
  refine spells_primary [.nullLiteral, .boolLiteral, .floatLiteral, .intLiteral,
      .stringLiteral, .mapLiteral, .arrayLiteral] rfl
    (.node .newExpr .nowhere [.leaf .identifier .nowhere t.toList]) ?_
    (fun q member rest _ => declines_of_isName name q member) fun rest ends => ?_
  · simp [Build.primary, Build.ident]
    rfl
  · exact reads_rule rfl (reads_seq (reads_identifier name)
      (reads_skip reads_word (reads_wholeWord (by decide))))

theorem spells_var {t : String} (name : isName t.toList = true) :
    Spells .primary (.var .nowhere t) [t] := by
  refine spells_primary ([.nullLiteral, .boolLiteral, .floatLiteral, .intLiteral,
      .stringLiteral, .mapLiteral, .arrayLiteral] ++ [.newExpr]) rfl
    (.leaf .identifier .nowhere t.toList) ?_ (fun q member rest ends => ?_)
    fun _ _ => reads_identifier name
  · simp [Build.primary]
  · rw [List.mem_append, List.mem_singleton] at member
    rcases member with earlier | rfl
    · exact declines_of_isName name q earlier
    · exact declines_rule rfl (declines_second (reads_identifier name)
        (declines_seq (ends.declines (by decide) (by decide))))

theorem spells_paren {e : Expr} {tokens : List String} (inner : Spells .full e tokens) :
    Spells .primary (.paren .nowhere e) ("(" :: tokens ++ [")"]) := by
  obtain ⟨t, built, reads⟩ := inner
  refine spells_primary [.nullLiteral, .boolLiteral, .floatLiteral, .intLiteral,
      .stringLiteral, .mapLiteral, .arrayLiteral, .newExpr, .identifier] rfl
    (.node .parenExpr .nowhere [t]) ?_ ?_ fun rest ends => ?_
  · simp [Build.primary, built]
    rfl
  · intro q member rest _
    simp only [List.mem_cons, List.not_mem_nil, or_false] at member
    rcases member with rfl | rfl | rfl | rfl | rfl | rfl | rfl | rfl | rfl <;>
      exact declines_at (by decide)
  · have closing := reads (")" :: rest) (.cons (by decide))
    rw [List.append_assoc]
    exact reads_rule rfl (reads_skip reads_word (reads_seq closing reads_word))

end Primary

section Collections

variable {ι : Type} {xs : List ι} {value : ι → Expr} {key : ι → String}
  {tokens : ι → List String} {keyToken : ι → String}

theorem ends_of_item {close : String} {rest : List String} (closes : close ∈ Level.closers)
    (ends : EndsItem close rest) : Level.full.Ends rest := by
  intro t next
  rw [Option.mem_def] at next
  rcases ends with comma | closing
  · cases next.symm.trans comma
    decide
  · cases next.symm.trans closing
    exact closes

theorem spells_array (each : ∀ x ∈ xs, Spells .full (value x) (tokens x)) :
    Spells .primary (.array .nowhere (xs.map value)) ("[" :: commaed (xs.map tokens) ++ ["]"]) := by
  obtain ⟨pieces, spelling, reads, built⟩ := spelt_pieces each
  refine spells_primary [.nullLiteral, .boolLiteral, .floatLiteral, .intLiteral,
      .stringLiteral, .mapLiteral] rfl
    (.node .arrayLiteral .nowhere (pieces.flatMap Prod.snd)) ?_ ?_ fun rest _ => ?_
  · simp [Build.primary, Build.items_ok_iff.mpr built]
    rfl
  · intro q member rest _
    simp only [List.mem_cons, List.not_mem_nil, or_false] at member
    rcases member with rfl | rfl | rfl | rfl | rfl | rfl <;> exact declines_at (by decide)
  · have inner : Reads (Rule.items (.rule .expression)) (commaed (xs.map tokens) ++ "]" :: rest)
        (pieces.flatMap Prod.snd) ("]" :: rest) := by
      rw [← spelling]
      exact reads_items (fun piece member rest ends => reads piece member rest
        (ends_of_item (by decide) ends)) (declines_at (by decide)) (declines_at (by decide))
    simp only [List.cons_append, List.append_assoc, List.nil_append]
    exact reads_rule rfl (reads_skip reads_word (reads_close inner reads_word))

def KeySpelling (key token : String) : Prop :=
  token = Quoted.quote key ∨ token = key ∧ isWord key.toList = true

theorem reads_mapKey {key token : String} (spelling : KeySpelling key token) :
    ∃ t, Build.mapKey t = .ok ⟨key, .nowhere⟩
      ∧ ∀ rest, Reads (.rule .mapKey) (token :: rest) [t] rest := by
  rcases spelling with rfl | ⟨rfl, word⟩
  · refine ⟨.node .mapKey .nowhere
      [.node .stringLiteral .nowhere [.leaf .stringInner .nowhere (Quoted.escape key.toList)]],
      ?_, fun rest => ?_⟩
    · simp [Build.mapKey, stringInside_escape]
      rfl
    · exact reads_rule rfl (reads_alt_second
        (declines_from (quote_toList key) rfl (by decide)) reads_string)
  · refine ⟨.node .mapKey .nowhere [.leaf .keyIdent .nowhere token.toList], ?_, fun rest => ?_⟩
    · simp [Build.mapKey, Build.ident]
    · exact reads_rule rfl (reads_alt (reads_keyIdent word))

theorem spelt_entry {key token : String} {e : Expr} {tokens : List String}
    (spelling : KeySpelling key token) (inner : Spells .full e tokens) :
    Spelt (.rule .mapEntry) Build.entry Level.full.Ends (.mk ⟨key, .nowhere⟩ e)
      (token :: ":" :: tokens) := by
  obtain ⟨k, keyBuilt, keyReads⟩ := reads_mapKey spelling
  obtain ⟨t, built, reads⟩ := inner
  refine ⟨.node .mapEntry .nowhere [k, t], ?_, fun rest ends => ?_⟩
  · simp [Build.entry, keyBuilt, built]
    rfl
  · exact reads_rule rfl (reads_seq (keyReads _) (reads_skip reads_word (reads rest ends)))

theorem spells_map (keys : ∀ x ∈ xs, KeySpelling (key x) (keyToken x))
    (each : ∀ x ∈ xs, Spells .full (value x) (tokens x)) :
    Spells .primary (.map .nowhere (xs.map fun x => .mk ⟨key x, .nowhere⟩ (value x)))
      (openBrace :: commaed (xs.map fun x => keyToken x :: ":" :: tokens x) ++ [closeBrace]) := by
  obtain ⟨pieces, spelling, reads, built⟩ := spelt_pieces fun x member =>
    spelt_entry (keys x member) (each x member)
  refine spells_primary [.nullLiteral, .boolLiteral, .floatLiteral, .intLiteral,
      .stringLiteral] rfl
    (.node .mapLiteral .nowhere (pieces.flatMap Prod.snd)) ?_ ?_ fun rest _ => ?_
  · simp [Build.primary, Build.entries_ok_iff.mpr built]
    rfl
  · intro q member rest _
    simp only [List.mem_cons, List.not_mem_nil, or_false] at member
    rcases member with rfl | rfl | rfl | rfl | rfl <;> exact declines_at (by decide)
  · have inner : Reads (Rule.items (.rule .mapEntry))
        (commaed (xs.map fun x => keyToken x :: ":" :: tokens x) ++ closeBrace :: rest)
        (pieces.flatMap Prod.snd) (closeBrace :: rest) := by
      rw [← spelling]
      exact reads_items (fun piece member rest ends => reads piece member rest
        (ends_of_item (by decide) ends)) (declines_at (by decide)) (declines_at (by decide))
    simp only [List.cons_append, List.append_assoc, List.nil_append]
    exact reads_rule rfl (reads_skip reads_word (reads_close inner reads_word))

end Collections

section Paths

variable {ι : Type} {xs : List ι} {value : ι → Segment} {tokens : ι → List String} {e : Expr}
  {base : List String}

theorem declines_pathSegment {rest : List String} (ends : Level.path.Ends rest) :
    Declines Rule.pathSegment rest := by
  cases rest with
  | nil => exact declines_of_glance (by decide)
  | cons t ts =>
      by_cases minus : t = "-"
      · subst minus
        have noField : Declines (.rule .fieldSegment) ("-" :: ts) :=
          declines_rule rfl (declines_seq declines_arrow)
        have noIndex : Declines (.rule .indexSegment) ("-" :: ts) := declines_at (by decide)
        exact fun c stands => .altSecond (noField c stands) (noIndex c stands)
      · have others : ∀ t ∈ Level.path.follow, t ≠ "-" →
            glance (leading t.toList) t.toList.head? glanceDepth Rule.pathSegment = .refused := by
          decide
        exact declines_at (others t (ends t rfl) minus)

theorem spells_raise_path (inner : Spells .primary e base) : Spells .path e base := by
  obtain ⟨t, built, reads⟩ := inner
  refine ⟨.node .postfixExpr .nowhere [t], by rw [Build.expr, built], fun rest ends => ?_⟩
  have first := reads rest (ends.loosen (by decide))
  exact reads_rule rfl (reads_seq first (reads_star_none (declines_pathSegment ends)))

/-- The tokens spell a segment, which starts like no continuation of anything else. -/
structure SpellsSegment (s : Segment) (tokens : List String) : Prop where
  spelt : Spelt Rule.pathSegment Build.segment (fun _ => True) s tokens
  starts : tokens.head? = some "->" ∨ tokens.head? = some "["

theorem spells_field {t : String} (word : isWord t.toList = true) :
    SpellsSegment (.field ⟨t, .nowhere⟩) ["->", t] where
  spelt := by
    refine ⟨.node .fieldSegment .nowhere [.leaf .keyIdent .nowhere t.toList], ?_, fun rest _ => ?_⟩
    · simp [Build.segment, Build.ident]
      rfl
    · exact reads_alt (reads_rule rfl (reads_skip reads_word (reads_keyIdent word)))
  starts := .inl rfl

theorem spells_index {tokens : List String} (inner : Spells .full e tokens) :
    SpellsSegment (.index e) ("[" :: tokens ++ ["]"]) where
  spelt := by
    obtain ⟨t, built, reads⟩ := inner
    refine ⟨.node .indexSegment .nowhere [t], ?_, fun rest _ => ?_⟩
    · simp [Build.segment, built]
      rfl
    · have closing := reads ("]" :: rest) (.cons (by decide))
      have noField (more : List String) : Declines (.rule .fieldSegment) ("[" :: more) :=
        declines_at (by decide)
      simp only [List.cons_append, List.append_assoc, List.nil_append]
      exact reads_alt_second (noField _)
        (reads_rule rfl (reads_skip reads_word (reads_close closing reads_word)))
  starts := .inr rfl

/-- Before a segment a primary expression ends. -/
theorem ends_of_segments (each : ∀ x ∈ xs, SpellsSegment (value x) (tokens x)) {rest : List String}
    (ends : Level.primary.Ends rest) : Level.primary.Ends (xs.flatMap tokens ++ rest) := by
  cases xs with
  | nil => exact ends
  | cons x xs =>
      have starts := (each x List.mem_cons_self).starts
      intro t next
      rw [List.flatMap_cons, List.append_assoc, Option.mem_def] at next
      rcases starts with arrow | bracket
      · rw [List.head?_append, arrow] at next
        cases next
        decide
      · rw [List.head?_append, bracket] at next
        cases next
        decide

theorem spells_path (root : Spells .primary e base) (some : xs ≠ [])
    (each : ∀ x ∈ xs, SpellsSegment (value x) (tokens x)) :
    Spells .path (.path .nowhere e (xs.map value)) (base ++ xs.flatMap tokens) := by
  obtain ⟨t, rootBuilt, rootReads⟩ := root
  obtain ⟨pieces, spelling, reads, built⟩ := spelt_pieces fun x member => (each x member).spelt
  refine ⟨.node .postfixExpr .nowhere (t :: pieces.flatMap Prod.snd), ?_, fun rest ends => ?_⟩
  · have segments := Build.segments_ok_iff.mpr built
    cases trees : pieces.flatMap Prod.snd with
    | nil =>
        have none := built.length_eq
        rw [trees, List.length_map, List.length_nil, eq_comm, List.length_eq_zero_iff] at none
        exact absurd none some
    | cons u us =>
        rw [trees] at segments
        simp [Build.expr, rootBuilt, segments]
        rfl
  · have tail : pieces.flatMap Prod.fst = xs.flatMap tokens := by
      rw [List.flatMap_def, spelling, ← List.flatMap_def]
    have first := rootReads _ (ends_of_segments each (ends.loosen (by decide)))
    have others := reads_pieces reads (fun _ _ _ => trivial) trivial (declines_pathSegment ends)
    rw [tail] at others
    rw [List.append_assoc]
    exact reads_rule rfl (reads_seq first others)

end Paths

section Operators

variable {ι : Type} {xs : List ι} {value : ι → Expr} {op : ι → BinaryOp} {tokens : ι → List String}
  {e : Expr} {base : List String}

theorem declines_unaryOp {ts : List Build.Node} {all rest : List String}
    (reads : Reads (.rule .postfixExpr) all ts rest) : Declines (.rule .unaryOp) all := by
  intro c stands
  obtain ⟨us, d, settles, _⟩ := reads c stands
  have unsigned (sign : Char) (other : Rule.isWordChar sign = false)
      (refused : glance [] (some sign) glanceDepth (.rule .postfixExpr) = .refused) :
      ¬ [sign] <+: c.rest := by
    rintro ⟨more, split⟩
    have holds := glance_holds stands.still glanceDepth (.rule .postfixExpr) true
    have noWord : leading c.rest = [] := by simp [← split, leading, other]
    have first : c.rest.head? = some sign := by simp [← split]
    rw [noWord, first, refused] at holds
    cases holds.unique settles
  have minus := unsigned '-' rfl (by decide)
  have exclamation := unsigned '!' rfl (by decide)
  exact Grammar.settles_token_refused rfl
    (.altSecond (.seqRefused (Grammar.settles_word_refused minus))
      (.seqRefused (Grammar.settles_word_refused exclamation)))

theorem operations_built (ops : List UnaryOp) {t : Build.Node} (built : Build.expr t = .ok e) :
    Build.operations .nowhere
        (ops.map (fun op => .leaf .unaryOp .nowhere op.symbol.toList) ++ [t])
      = .ok (ops.foldr (Expr.unary .nowhere) e) := by
  induction ops with
  | nil =>
      cases t with
      | leaf r sp text => simp [Build.expr] at built
      | node r sp ts => simp [Build.operations, built]
  | cons op ops ih =>
      have sign : (if op.symbol.toList = ['!'] then UnaryOp.not else .neg) = op := by
        cases op <;> rfl
      simp only [List.map_cons, List.cons_append, Build.operations, ih, sign, List.foldr_cons]
      rfl

theorem spells_operand (ops : List UnaryOp) (inner : Spells .path e base) :
    Spells .operand (ops.foldr (Expr.unary .nowhere) e) (ops.map UnaryOp.symbol ++ base) := by
  obtain ⟨t, built, reads⟩ := inner
  refine ⟨.node .prefixExpr .nowhere
    (ops.map (fun op => .leaf .unaryOp .nowhere op.symbol.toList) ++ [t]), ?_, fun rest ends => ?_⟩
  · rw [Build.expr, operations_built ops built]
  · let pieces : List Piece :=
      ops.map fun op => ([op.symbol], [.leaf .unaryOp .nowhere op.symbol.toList])
    have last := reads rest ends
    have each : ∀ piece ∈ pieces, piece.ReadBy (.rule .unaryOp) fun _ => True := by
      intro piece member more _
      obtain ⟨op, _, rfl⟩ := List.mem_map.mp member
      exact reads_unaryOp op
    have signs := reads_pieces each (fun _ _ _ => trivial) trivial (declines_unaryOp last)
    have all := reads_rule (r := .prefixExpr) rfl (reads_seq signs last)
    simp only [pieces, List.flatMap_map, ← List.map_eq_flatMap] at all
    rw [List.append_assoc]
    exact all

theorem spells_raise_operand (inner : Spells .primary e base) : Spells .operand e base :=
  spells_operand [] (spells_raise_path inner)

theorem symbol_follows (op : BinaryOp) : op.symbol ∈ Level.operand.follow := by
  cases op <;> decide

theorem ends_of_symbol (op : BinaryOp) (rest : List String) :
    Level.operand.Ends (op.symbol :: rest) := .cons (symbol_follows op)

theorem link_pieces (op : ι → BinaryOp) (each : ∀ x ∈ xs, Spells .operand (value x) (tokens x)) :
    ∃ pieces : List Piece,
      pieces.flatMap Prod.fst = xs.flatMap (fun x => (op x).symbol :: tokens x)
        ∧ (∀ piece ∈ pieces,
          piece.ReadBy (.seq (.rule .binaryOp) (.rule .prefixExpr)) Level.operand.Ends)
        ∧ (∀ piece ∈ pieces, ∀ rest, Level.operand.Ends (piece.1 ++ rest))
        ∧ Build.links (pieces.flatMap Prod.snd) = .ok (xs.map fun x => (op x, value x)) := by
  induction xs with
  | nil => exact ⟨[], rfl, nofun, nofun, rfl⟩
  | cons x xs ih =>
      obtain ⟨t, built, reads⟩ := each x List.mem_cons_self
      obtain ⟨pieces, spelling, read, next, links⟩ :=
        ih fun y member => each y (List.mem_cons_of_mem _ member)
      refine ⟨((op x).symbol :: tokens x, [.leaf .binaryOp .nowhere (op x).symbol.toList, t]) :: pieces,
        by simp [spelling], fun piece member => ?_, fun piece member => ?_, ?_⟩
      · cases member with
        | head => exact fun rest ends => reads_seq (reads_binaryOp (op x)) (reads rest ends)
        | tail _ later => exact read piece later
      · cases member with
        | head => exact fun rest => ends_of_symbol (op x) _
        | tail _ later => exact next piece later
      · have symbol : BinaryOp.ofSymbol? (String.ofList (op x).symbol.toList) = some (op x) := by
          cases op x <;> decide
        simp only [List.flatMap_cons, List.cons_append, List.nil_append, Build.links, symbol, built,
          links]
        rfl

theorem spells_chain (first : Spells .operand e base)
    (each : ∀ x ∈ xs, Spells .operand (value x) (tokens x)) :
    Spells .chain (Chain.fold e (xs.map fun x => (op x, value x)))
      (base ++ xs.flatMap fun x => (op x).symbol :: tokens x) := by
  obtain ⟨t, built, reads⟩ := first
  obtain ⟨pieces, spelling, read, next, links⟩ := link_pieces op each
  refine ⟨.node .arithExpr .nowhere (t :: pieces.flatMap Prod.snd), ?_, fun rest ends => ?_⟩
  · simp only [Build.expr, built, links]
    rfl
  · have ends' : Level.operand.Ends rest := ends.loosen (by decide)
    have stop : Declines (.seq (.rule .binaryOp) (.rule .prefixExpr)) rest :=
      declines_seq (ends.declines (by decide) (by decide))
    have others := reads_pieces read next ends' stop
    rw [spelling] at others
    have start := reads _ (follow_pieces next ends')
    rw [spelling] at start
    rw [List.append_assoc]
    exact reads_rule rfl (reads_seq start others)

theorem spells_raise_chain (inner : Spells .operand e base) : Spells .chain e base := by
  have alone := @spells_chain Empty [] nofun nofun nofun e base inner nofun
  rwa [List.flatMap_nil, List.append_nil] at alone

theorem spells_raise_full (inner : Spells .chain e base) : Spells .full e base := by
  obtain ⟨t, built, reads⟩ := inner
  refine ⟨.node .expression .nowhere [t], by rw [Build.expr, built], fun rest ends => ?_⟩
  have noSuffix : Declines (.rule .typeSuffix) rest := ends.declines (by decide) (by decide)
  exact reads_rule rfl (reads_seq (reads rest (ends.loosen (by decide))) (reads_opt_none noSuffix))

def suffixTree (tag : Tag) : Build.Node :=
  .node .typeSuffix .nowhere [.leaf .typeName .nowhere tag.name.toList]

theorem suffix_built (tag : Tag) : Build.typeSuffix (suffixTree tag) = .ok ⟨tag, .nowhere⟩ := by
  cases tag <;> rfl

theorem reads_suffix (tag : Tag) (rest : List String) :
    Reads (.rule .typeSuffix) ("as" :: tag.name :: rest) [suffixTree tag] rest :=
  reads_rule rfl (reads_skip (reads_wholeWord (by decide)) (reads_typeName tag))

theorem spells_cast (inner : Spells .chain e base) (tag : Tag) :
    Spells .full (.cast .nowhere e ⟨tag, .nowhere⟩) (base ++ ["as", tag.name]) := by
  obtain ⟨t, built, reads⟩ := inner
  refine ⟨.node .expression .nowhere [t, suffixTree tag], ?_, fun rest _ => ?_⟩
  · simp only [Build.expr, built, suffix_built]
    rfl
  · have start := reads ("as" :: tag.name :: rest) (.cons (by decide))
    rw [List.append_assoc]
    exact reads_rule rfl (reads_seq start (reads_opt (reads_suffix tag rest)))

end Operators

end Dil.Reading
