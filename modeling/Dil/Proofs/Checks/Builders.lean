import Dil.Proofs.Checks.Tokens
import Dil.Proofs.Reading.Reprint
import Dil.Proofs.Syntax.Nested

/-!
What the builders of expressions report. A tree of the grammar has the shape that its builder wants, so
that nothing but a bad token can be reported; and each builder goes through the tokens in order.
-/

namespace Dil.Build

open Reading

section Words

variable {t : Node} {ts : List Node} {r : Rule}

theorem leaf_of_grown (token : Rule.kind r = .token) (grown : grammar.Grown r t) :
    ∃ sp w, t = .leaf r sp w := by
  obtain ⟨sp, c, d, us, rfl, -⟩ := grown.leaf token
  exact ⟨sp, _, rfl⟩

theorem decides_ident (grown : grammar.Grown .identifier t ∨ grammar.Grown .keyIdent t) :
    Decides (ident t) (tokens t) := by
  obtain grown | grown := grown
  · obtain ⟨sp, w, rfl⟩ := leaf_of_grown rfl grown
    exact decides_none _
  · obtain ⟨sp, w, rfl⟩ := leaf_of_grown rfl grown
    exact decides_none _

theorem decides_typeSuffix (grown : grammar.Grown .typeSuffix t) :
    Decides (typeSuffix t) (tokens t) := by
  obtain ⟨s, a, rfl, name⟩ := grown_typeSuffix grown
  obtain ⟨sp, w, rfl⟩ := leaf_of_grown rfl name
  exact decides_type

theorem matched_stringLiteral {spaced : Bool} {c d : Cursor}
    (settles : grammar.Settles spaced (.rule .stringLiteral) c (.matched [t] d)) :
    ∃ e f w, t = .node .stringLiteral (c.spanTo d) [.leaf .stringInner (e.spanTo f) (e.textUpTo f)]
      ∧ c.Reads ['"'] e ∧ e.Reads w f ∧ f.Reads ['"'] d := by
  obtain ⟨us, same, inner⟩ := settles.matched_body
  cases same
  have joined : grammar.Settles false (Rule.body .stringLiteral) c (.matched us d) := inner
  obtain ⟨_, e, _, opening, others, rfl⟩ := joined.matched_seq
  obtain ⟨open', rfl⟩ := reads_text opening
  obtain ⟨_, f, _, text, closing, rfl⟩ := others.matched_seq
  obtain ⟨close, rfl⟩ := reads_text closing
  obtain ⟨w, reads, -⟩ := reads_of_matched text
  obtain ⟨_, ⟨⟩, -⟩ := text.matched_body
  exact ⟨e, f, w, rfl, open', reads, close⟩

theorem grown_stringLiteral (grown : grammar.Grown .stringLiteral t) :
    ∃ s sp w, t = .node .stringLiteral s [.leaf .stringInner sp w] := by
  obtain ⟨c, d, -, settles⟩ := grown
  obtain ⟨e, f, w, rfl, -⟩ := matched_stringLiteral settles
  exact ⟨_, _, _, rfl⟩

theorem grown_binaryOp (grown : grammar.Grown .binaryOp t) :
    ∃ sp w op, t = .leaf .binaryOp sp w ∧ BinaryOp.ofSymbol? (String.ofList w) = some op := by
  obtain ⟨sp, c, d, us, rfl, settles⟩ := grown.leaf rfl
  obtain ⟨w, reads, -⟩ := reads_of_matched settles
  obtain ⟨op, split⟩ := Relayout.matched_symbol settles
  have same : w = op.symbol.toList := List.append_cancel_right (reads.rest.symm.trans split)
  refine ⟨_, _, op, rfl, ?_⟩
  rw [reads.textUpTo, same, String.ofList_toList]
  cases op <;> rfl

end Words

/-- What is built of a tree is decided by its tokens. -/
structure Checked (t : Node) : Prop where
  expr (level : Level) (grown : grammar.Grown level.rule t) : Decides (Build.expr t) (tokens t)
  primary {r : Rule} (among : r ∈ primaryRules) (grown : grammar.Grown r t) (sp : Span) :
    Decides (Build.primary sp t) (tokens t)
  segment (grown : grammar.Grown .fieldSegment t ∨ grammar.Grown .indexSegment t) :
    Decides (Build.segment t) (tokens t)
  entry (grown : grammar.Grown .mapEntry t) : Decides (Build.entry t) (tokens t)

section Expressions

variable {t : Node} {ts : List Node} {r : Rule} {sp : Span}

theorem decides_items (each : ∀ u ∈ ts, Decides (expr u) (tokens u)) :
    Decides (items ts) (tokensOf ts) := decides_list ts rfl (fun _ _ => rfl) each

theorem decides_entries (each : ∀ u ∈ ts, Decides (entry u) (tokens u)) :
    Decides (entries ts) (tokensOf ts) := decides_list ts rfl (fun _ _ => rfl) each

theorem decides_segments (each : ∀ u ∈ ts, Decides (segment u) (tokens u)) :
    Decides (segments ts) (tokensOf ts) := decides_list ts rfl (fun _ _ => rfl) each

theorem tokens_one (r : Rule) (sp : Span) (a : Node) : tokens (.node r sp [a]) = tokens a :=
  List.append_nil (tokens a)

theorem decides_mapKey (grown : grammar.Grown .mapKey t) : Decides (mapKey t) (tokens t) := by
  obtain ⟨s, a, rfl, word | quoted⟩ := grown_mapKey grown
  · obtain ⟨sp, w, rfl⟩ := leaf_of_grown rfl word
    exact decides_none _
  · obtain ⟨s', sp, w, rfl⟩ := grown_stringLiteral quoted
    exact decides_string.map

theorem decides_primary (among : r ∈ primaryRules) (grown : grammar.Grown r t)
    (children : ∀ u ∈ t.children, Checked u) (sp : Span) : Decides (primary sp t) (tokens t) := by
  simp only [primaryRules, List.mem_cons, List.not_mem_nil, or_false] at among
  rcases among with rfl | rfl | rfl | rfl | rfl | rfl | rfl | rfl | rfl | rfl
  · obtain ⟨s, w, rfl⟩ := leaf_of_grown rfl grown
    exact decides_none _
  · obtain ⟨s, w, rfl⟩ := leaf_of_grown rfl grown
    exact decides_none _
  · obtain ⟨s, w, rfl⟩ := leaf_of_grown rfl grown
    exact decides_float.map
  · obtain ⟨s, w, rfl⟩ := leaf_of_grown rfl grown
    exact decides_int.map
  · obtain ⟨s, s', w, rfl⟩ := grown_stringLiteral grown
    exact decides_string.map
  · obtain ⟨s, ts, rfl, each⟩ := grown_mapLiteral grown
    exact (decides_entries fun u member => (children u member).entry (each u member)).map
  · obtain ⟨s, ts, rfl, each⟩ := grown_arrayLiteral grown
    exact (decides_items fun u member => (children u member).expr .full (each u member)).map
  · obtain ⟨s, a, rfl, inner⟩ := grown_newExpr grown
    rw [tokens_one]
    exact (decides_ident (.inl inner)).map
  · obtain ⟨s, w, rfl, -⟩ := grown_identifier grown
    exact decides_none _
  · obtain ⟨s, a, rfl, inner⟩ := grown_parenExpr grown
    rw [tokens_one]
    exact ((children a (by simp)).expr .full inner).map

theorem decides_segment (grown : grammar.Grown .fieldSegment t ∨ grammar.Grown .indexSegment t)
    (children : ∀ u ∈ t.children, Checked u) : Decides (segment t) (tokens t) := by
  obtain field | index := grown
  · obtain ⟨s, a, rfl, inner⟩ := grown_fieldSegment field
    rw [tokens_one]
    exact (decides_ident (.inr inner)).map
  · obtain ⟨s, a, rfl, inner⟩ := grown_indexSegment index
    rw [tokens_one]
    exact ((children a (by simp)).expr .full inner).map

theorem decides_entry (grown : grammar.Grown .mapEntry t) (children : ∀ u ∈ t.children, Checked u) :
    Decides (entry t) (tokens t) := by
  obtain ⟨s, key, a, rfl, name, value⟩ := grown_mapEntry_keyed grown
  have inner : Decides (expr a) (tokensOf [a]) := by
    rw [tokensOf, tokensOf, List.append_nil]
    exact (children a (by simp)).expr .full value
  exact (decides_mapKey name).bind fun _ _ => inner.map

theorem decides_postfixExpr (grown : grammar.Grown .postfixExpr t)
    (children : ∀ u ∈ t.children, Checked u) : Decides (expr t) (tokens t) := by
  obtain ⟨s, a, ts, rfl, root, steps⟩ := grown_postfixExpr grown
  have base : Decides (expr a) (tokens a) := (children a (by simp)).expr .primary root
  cases ts with
  | nil =>
      rw [tokens_one]
      exact base
  | cons u us =>
      have path : Decides (segments (u :: us)) (tokensOf (u :: us)) :=
        decides_segments fun v member => (children v (.tail a member)).segment (steps v member)
      exact base.bind fun _ _ => path.map

theorem decides_operations {signs : List Node} {a : Node}
    (each : ∀ sign ∈ signs, grammar.Grown .unaryOp sign) (root : grammar.Grown .postfixExpr a)
    (inner : Decides (expr a) (tokens a)) (sp : Span) :
    Decides (operations sp (signs ++ [a])) (tokensOf (signs ++ [a])) := by
  induction signs with
  | nil =>
      obtain ⟨s, b, us, rfl, -⟩ := grown_postfixExpr root
      rw [List.nil_append, tokensOf, tokensOf, List.append_nil]
      exact inner
  | cons sign signs ih =>
      obtain ⟨s, w, rfl⟩ := leaf_of_grown rfl (each sign List.mem_cons_self)
      exact (ih fun u member => each u (.tail _ member)).map

theorem decides_prefixExpr (grown : grammar.Grown .prefixExpr t)
    (children : ∀ u ∈ t.children, Checked u) : Decides (expr t) (tokens t) := by
  obtain ⟨s, signs, a, rfl, root, each⟩ := grown_prefixExpr grown
  exact decides_operations each root ((children a (by simp)).expr .path root) s

theorem decides_links {tss : List (List Node)}
    (each : ∀ us ∈ tss, ∃ sign b, us = [sign, b] ∧ grammar.Grown .binaryOp sign ∧
      Decides (expr b) (tokens b)) : Decides (links tss.flatten) (tokensOf tss.flatten) := by
  induction tss with
  | nil => exact decides_none _
  | cons us tss ih =>
      obtain ⟨sign, b, rfl, operator, operand⟩ := each us List.mem_cons_self
      obtain ⟨s, w, op, rfl, known⟩ := grown_binaryOp operator
      have others := ih fun us member => each us (.tail _ member)
      rw [List.flatten_cons, List.cons_append, List.cons_append, List.nil_append, links, known]
      exact operand.bind fun _ _ => others.map

theorem decides_arithExpr (grown : grammar.Grown .arithExpr t)
    (children : ∀ u ∈ t.children, Checked u) : Decides (expr t) (tokens t) := by
  obtain ⟨s, a, tss, rfl, root, each⟩ := grown_arithExpr_signs grown
  have first : Decides (expr a) (tokens a) := (children a (by simp)).expr .operand root
  refine first.bind fun _ _ => (decides_links fun us member => ?_).map
  obtain ⟨sign, b, rfl, operator, operand⟩ := each us member
  have among : b ∈ a :: tss.flatten := .tail a (List.mem_flatten.mpr ⟨_, member, by simp⟩)
  exact ⟨sign, b, rfl, operator, (children b among).expr .operand operand⟩

theorem decides_expression (grown : grammar.Grown .expression t)
    (children : ∀ u ∈ t.children, Checked u) : Decides (expr t) (tokens t) := by
  obtain ⟨s, a, ts, rfl, root, rest⟩ := grown_expression_typed grown
  have chain : Decides (expr a) (tokens a) := (children a (by simp)).expr .chain root
  obtain rfl | ⟨b, rfl, suffix⟩ := rest
  · rw [tokens_one]
    exact chain
  · have type : Decides (typeSuffix b) (tokensOf [b]) := by
      rw [tokensOf, tokensOf, List.append_nil]
      exact decides_typeSuffix suffix
    exact chain.bind fun _ _ => type.map

theorem decides_primaryExpr (grown : grammar.Grown .primaryExpr t)
    (children : ∀ u ∈ t.children, Checked u) : Decides (expr t) (tokens t) := by
  obtain ⟨s, r, a, rfl, inner, among⟩ := grown_primaryExpr grown
  rw [tokens_one]
  exact (children a (by simp)).primary among inner s

theorem checked (t : Node) : Checked t := by
  induction t using Tree.induct with
  | step t children =>
      constructor
      case expr =>
        intro level grown
        cases level with
        | primary => exact decides_primaryExpr grown children
        | path => exact decides_postfixExpr grown children
        | operand => exact decides_prefixExpr grown children
        | chain => exact decides_arithExpr grown children
        | full => exact decides_expression grown children
      case primary => exact fun among grown sp => decides_primary among grown children sp
      case segment => exact fun grown => decides_segment grown children
      case entry => exact fun grown => decides_entry grown children

end Expressions

end Dil.Build
