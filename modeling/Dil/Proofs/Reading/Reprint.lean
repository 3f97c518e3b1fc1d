import Dil.Proofs.Reading.Trees
import Dil.Proofs.Reading.Writing
import Dil.Proofs.Syntax.Print

namespace Dil.Reading

open Build (Node)

/-- Tokens of which each is seen where it stands. -/
def Solids (ts : List String) : Prop := ∀ t ∈ ts, Solid t

section Solid

variable {t : String} {ts us : List String}

@[simp] theorem solids_nil : Solids [] := nofun

@[simp] theorem solids_cons : Solids (t :: ts) ↔ Solid t ∧ Solids ts := List.forall_mem_cons

@[simp] theorem solids_append : Solids (ts ++ us) ↔ Solids ts ∧ Solids us := List.forall_mem_append

theorem solids_flatMap {ι : Type} {xs : List ι} {tokens : ι → List String}
    (each : ∀ x ∈ xs, Solids (tokens x)) : Solids (xs.flatMap tokens) := by
  intro t member
  obtain ⟨x, inside, among⟩ := List.mem_flatMap.mp member
  exact each x inside t among

theorem solid_sign {c : Char} {cs : List Char} (text : t.toList = c :: cs)
    (start : Layout.isBlank c = false ∧ (c == '/') = false) : Solid t :=
  ⟨c, cs, text, start.1, fun slash => by simp [slash] at start⟩

theorem solid_symbol (op : BinaryOp) : Solid op.symbol := by
  cases op with
  | div => exact ⟨'/', [], rfl, rfl, fun _ => rfl⟩
  | _ => exact solid_sign rfl (by decide)

theorem solid_tag (tag : Tag) : Solid tag.name :=
  solid_of_isWord (by cases tag <;> decide)

def fixedTokens : List String :=
  [openBrace, closeBrace, "[", "]", "(", ")", ":", ",", ";", "=", "->", "new", "as", "-", "!", "$overwrite$",
    "class", "end", "let", "Get", "IF", "THEN", "ELSE", "ENDIF", "FOREACH", "IN", "DO", "ENDFOREACH",
    "FOR", "WHEN", "ENDFOR", "null"]

theorem solid_fixed (fixed : t ∈ fixedTokens) : Solid t := by
  have starts : ∀ t ∈ fixedTokens,
      t.toList.head?.any (fun c => !Layout.isBlank c && c != '/') = true := by decide
  have start := starts t fixed
  cases text : t.toList with
  | nil => simp [text] at start
  | cons c cs =>
      rw [text] at start
      exact solid_sign text (by simpa using start)

theorem solids_commaed {lists : List (List String)} (each : ∀ ts ∈ lists, Solids ts) :
    Solids (commaed lists) := by
  cases lists with
  | nil => exact solids_nil
  | cons first others =>
      rw [commaed_cons, solids_append]
      refine ⟨each first List.mem_cons_self, solids_flatMap fun ts inside => ?_⟩
      exact solids_cons.mpr ⟨solid_fixed (by decide), each ts (List.mem_cons_of_mem _ inside)⟩

end Solid

/-- The tokens spell the expression, and each is seen where it stands. -/
structure Prints (level : Level) (e : Expr) : Prop where
  spells : Spells level e.unplaced e.tokens
  solids : Solids e.tokens

structure PrintsSegment (s : Segment) : Prop where
  spells : SpellsSegment s.unplaced s.tokens
  solids : Solids s.tokens

/-- What is built of a tree prints, unless it has floats. -/
structure Printable (t : Node) : Prop where
  expr {level : Level} {e : Expr} (grown : grammar.Grown level.rule t) (built : Build.expr t = .ok e)
    (floatless : e.floats = []) : Prints level e
  primary {r : Rule} {sp : Span} {e : Expr} (among : r ∈ primaryRules) (grown : grammar.Grown r t)
    (built : Build.primary sp t = .ok e) (floatless : e.floats = []) : Prints .primary e
  segment {s : Segment} (grown : grammar.Grown .fieldSegment t ∨ grammar.Grown .indexSegment t)
    (built : Build.segment t = .ok s) (floatless : s.floats = []) : PrintsSegment s
  entry {x : Entry} (grown : grammar.Grown .mapEntry t) (built : Build.entry t = .ok x)
    (floatless : x.floats = []) : Prints .full x.value

section Primary

variable {sp : Span} {e : Expr} {t : Node} {ts : List Node}

theorem forall_of_built {α : Type} {build : Node → Except BuildError α} {as : List α} {P : α → Prop}
    (built : List.Forall₂ (fun t a => build t = .ok a) ts as)
    (each : ∀ t ∈ ts, ∀ a ∈ as, build t = .ok a → P a) : ∀ a ∈ as, P a := by
  induction built with
  | nil => nofun
  | cons head tail ih =>
      have first := each _ List.mem_cons_self _ List.mem_cons_self head
      refine List.forall_mem_cons.mpr ⟨first, ih fun u member b inside => ?_⟩
      exact each u (List.mem_cons_of_mem _ member) b (List.mem_cons_of_mem _ inside)

theorem floats_of_mem {α : Type} {as : List α} {floats : α → List Float} {a : α}
    (floatless : as.flatMap floats = []) (member : a ∈ as) : floats a = [] :=
  List.flatMap_eq_nil_iff.mp floatless a member

theorem built_string {s : Span} (built : Build.primary sp (.node .stringLiteral s ts) = .ok e) :
    ∃ text, e = .str sp text := by
  unfold Build.primary at built
  split at built
  all_goals rename_i same
  all_goals try cases same
  · obtain ⟨text, _, done⟩ := bind_eq_ok_iff.mp built
    cases done
    exact ⟨text, rfl⟩
  · cases built

theorem prints_array {s : Span} (each : ∀ u ∈ ts, Printable u)
    (grown : ∀ u ∈ ts, grammar.Grown .expression u)
    (built : Build.primary sp (.node .arrayLiteral s ts) = .ok e) (floatless : e.floats = []) :
    Prints .primary e := by
  obtain ⟨items, found, done⟩ := bind_eq_ok_iff.mp built
  cases done
  rw [Expr.floats, Expr.itemFloats_eq] at floatless
  have prints : ∀ item ∈ items, Prints .full item :=
    forall_of_built (Build.items_ok_iff.mp found) fun u member item among built =>
      (each u member).expr (grown u member) built (floats_of_mem floatless among)
  constructor
  · rw [Expr.unplaced, Expr.tokens, Expr.unplacedItems_eq, Expr.itemTokens_eq]
    exact spells_array fun item among => (prints item among).spells
  · rw [Expr.tokens, Expr.itemTokens_eq, List.cons_append, solids_cons, solids_append]
    refine ⟨solid_fixed (by decide), solids_commaed ?_, by simpa using solid_fixed (by decide)⟩
    exact List.forall_mem_map.mpr fun item among => (prints item among).solids

theorem prints_map {s : Span} (each : ∀ u ∈ ts, Printable u)
    (grown : ∀ u ∈ ts, grammar.Grown .mapEntry u)
    (built : Build.primary sp (.node .mapLiteral s ts) = .ok e) (floatless : e.floats = []) :
    Prints .primary e := by
  obtain ⟨entries, found, done⟩ := bind_eq_ok_iff.mp built
  cases done
  rw [Expr.floats, Expr.entryFloats_eq] at floatless
  have prints : ∀ x ∈ entries, Prints .full x.value :=
    forall_of_built (Build.entries_ok_iff.mp found) fun u member x among built =>
      (each u member).entry (grown u member) built (floats_of_mem floatless among)
  have tokens : Expr.entryTokens entries
      = entries.map fun x => Quoted.quote x.key.name :: ":" :: x.value.tokens := by
    rw [Expr.entryTokens_eq]
    exact List.map_congr_left fun x _ => by cases x; rfl
  have unplaced : Expr.unplacedEntries entries
      = entries.map fun x => .mk ⟨x.key.name, .nowhere⟩ x.value.unplaced := by
    rw [Expr.unplacedEntries_eq]
    exact List.map_congr_left fun x _ => by cases x; rfl
  constructor
  · rw [Expr.unplaced, Expr.tokens, unplaced, tokens]
    exact spells_map (fun _ _ => .inl rfl) fun x among => (prints x among).spells
  · rw [Expr.tokens, tokens, List.cons_append, solids_cons, solids_append]
    refine ⟨solid_fixed (by decide), solids_commaed ?_, by simpa using solid_fixed (by decide)⟩
    refine List.forall_mem_map.mpr fun x among => ?_
    simpa using ⟨solid_quote _, solid_fixed (by decide), (prints x among).solids⟩

theorem prints_paren {s : Span} (inner : Printable t) (grown : grammar.Grown .expression t)
    (built : Build.primary sp (.node .parenExpr s [t]) = .ok e) (floatless : e.floats = []) :
    Prints .primary e := by
  obtain ⟨f, found, done⟩ := bind_eq_ok_iff.mp built
  cases done
  have prints : Prints .full f := inner.expr grown found floatless
  constructor
  · exact spells_paren prints.spells
  · simpa [Expr.tokens] using ⟨solid_fixed (by decide), prints.solids, solid_fixed (by decide)⟩

theorem prints_create {s : Span} (grown : grammar.Grown .identifier t)
    (built : Build.primary sp (.node .newExpr s [t]) = .ok e) : Prints .primary e := by
  obtain ⟨s', w, rfl, name⟩ := grown_identifier grown
  cases built
  have name' : isName (String.ofList w).toList = true := by rwa [String.toList_ofList]
  constructor
  · exact spells_create name'
  · have word := solid_of_isWord (isName_iff.mp name').1
    simpa [Expr.tokens] using ⟨word, solid_fixed (by decide), solid_fixed (by decide)⟩

theorem prints_var {s : Span} {w : List Char} (name : isName w = true)
    (built : Build.primary sp (.leaf .identifier s w) = .ok e) : Prints .primary e := by
  cases built
  have name' : isName (String.ofList w).toList = true := by rwa [String.toList_ofList]
  constructor
  · exact spells_var name'
  · exact solids_cons.mpr ⟨solid_of_isWord (isName_iff.mp name').1, solids_nil⟩

theorem prints_int {n : Int64} (positive : 0 ≤ n.toInt) : Prints .primary (.int sp n) where
  spells := spells_int positive
  solids := solids_cons.mpr ⟨solid_int positive, solids_nil⟩

theorem prints_bool (b : Bool) : Prints .primary (.bool sp b) where
  spells := spells_bool b
  solids := solids_cons.mpr ⟨solid_of_isWord (by cases b <;> decide), solids_nil⟩

theorem prints_str (text : String) : Prints .primary (.str sp text) where
  spells := spells_str text
  solids := solids_cons.mpr ⟨solid_quote text, solids_nil⟩

theorem prints_null : Prints .primary (.null sp) where
  spells := spells_null
  solids := solids_cons.mpr ⟨solid_fixed (by decide), solids_nil⟩

theorem prints_primary {r : Rule} (among : r ∈ primaryRules) (grown : grammar.Grown r t)
    (children : ∀ u ∈ t.children, Printable u)
    (built : Build.primary sp t = .ok e) (floatless : e.floats = []) : Prints .primary e := by
  simp only [primaryRules, List.mem_cons, List.not_mem_nil, or_false] at among
  rcases among with rfl | rfl | rfl | rfl | rfl | rfl | rfl | rfl | rfl | rfl
  · obtain ⟨s, c, d, us, rfl, -⟩ := grown.leaf rfl
    cases built
    exact prints_null
  · obtain ⟨s, c, d, us, rfl, -⟩ := grown.leaf rfl
    cases built
    exact prints_bool _
  · obtain ⟨s, c, d, us, rfl, -⟩ := grown.leaf rfl
    obtain ⟨x, _, done⟩ := bind_eq_ok_iff.mp built
    cases done
    cases floatless
  · obtain ⟨s, c, d, us, rfl, -⟩ := grown.leaf rfl
    obtain ⟨n, found, done⟩ := bind_eq_ok_iff.mp built
    cases done
    exact prints_int (Build.intLiteral_nonneg found)
  · obtain ⟨s, ts, rfl⟩ := grown.joined rfl
    obtain ⟨text, rfl⟩ := built_string built
    exact prints_str text
  · obtain ⟨s, ts, rfl, each⟩ := grown_mapLiteral grown
    exact prints_map children each built floatless
  · obtain ⟨s, ts, rfl, each⟩ := grown_arrayLiteral grown
    exact prints_array children each built floatless
  · obtain ⟨s, a, rfl, inner⟩ := grown_newExpr grown
    exact prints_create inner built
  · obtain ⟨s, w, rfl, name⟩ := grown_identifier grown
    exact prints_var name built
  · obtain ⟨s, a, rfl, inner⟩ := grown_parenExpr grown
    exact prints_paren (children a (by simp)) inner built floatless

end Primary

section Paths

variable {sp : Span} {e : Expr} {t : Node} {ts : List Node}

theorem Prints.raise_path (prints : Prints .primary e) : Prints .path e :=
  ⟨spells_raise_path prints.spells, prints.solids⟩

theorem prints_field {s s' : Span} {w : List Char} (word : isWord w = true) {segment : Segment}
    (built : Build.segment (.node .fieldSegment s [.leaf .keyIdent s' w]) = .ok segment) :
    PrintsSegment segment := by
  cases built
  have word' : isWord (String.ofList w).toList = true := by rwa [String.toList_ofList]
  constructor
  · exact spells_field word'
  · simpa [Segment.tokens] using ⟨solid_fixed (by decide), solid_of_isWord word'⟩

theorem prints_index {s : Span} (inner : Printable t) (grown : grammar.Grown .expression t)
    {segment : Segment} (built : Build.segment (.node .indexSegment s [t]) = .ok segment)
    (floatless : segment.floats = []) : PrintsSegment segment := by
  obtain ⟨f, found, done⟩ := bind_eq_ok_iff.mp built
  cases done
  have prints : Prints .full f := inner.expr grown found floatless
  constructor
  · exact spells_index prints.spells
  · simpa [Segment.tokens] using ⟨solid_fixed (by decide), prints.solids, solid_fixed (by decide)⟩

theorem prints_segment (grown : grammar.Grown .fieldSegment t ∨ grammar.Grown .indexSegment t)
    (children : ∀ u ∈ t.children, Printable u) {segment : Segment}
    (built : Build.segment t = .ok segment) (floatless : segment.floats = []) :
    PrintsSegment segment := by
  rcases grown with field | index
  · obtain ⟨s, a, rfl, inner⟩ := grown_fieldSegment field
    obtain ⟨s', w, rfl, word⟩ := grown_keyIdent inner
    exact prints_field word built
  · obtain ⟨s, a, rfl, inner⟩ := grown_indexSegment index
    exact prints_index (children a (by simp)) inner built floatless

theorem prints_segments (each : ∀ u ∈ ts, Printable u)
    (grown : ∀ u ∈ ts, grammar.Grown .fieldSegment u ∨ grammar.Grown .indexSegment u)
    {path : List Segment} (built : Build.segments ts = .ok path)
    (floatless : path.flatMap Segment.floats = []) : ∀ s ∈ path, PrintsSegment s :=
  forall_of_built (Build.segments_ok_iff.mp built) fun u member _ among built =>
    (each u member).segment (grown u member) built (floats_of_mem floatless among)

theorem prints_postfixExpr (grown : grammar.Grown .postfixExpr t)
    (children : ∀ u ∈ t.children, Printable u) (built : Build.expr t = .ok e)
    (floatless : e.floats = []) : Prints .path e := by
  obtain ⟨s, a, ts, rfl, root, steps⟩ := grown_postfixExpr grown
  have rootPrints {f : Expr} (built : Build.expr a = .ok f) (floatless : f.floats = []) :
      Prints .primary f := (children a (by simp)).expr root built floatless
  cases ts with
  | nil => exact (rootPrints built floatless).raise_path
  | cons u us =>
      obtain ⟨f, base, built⟩ := bind_eq_ok_iff.mp built
      obtain ⟨path, segments, done⟩ := bind_eq_ok_iff.mp built
      cases done
      rw [Expr.floats, Expr.segmentFloats_eq, List.append_eq_nil_iff] at floatless
      have prints := rootPrints base floatless.1
      have printsPath := prints_segments (fun v member => children v (List.mem_cons_of_mem _ member)) steps
        segments floatless.2
      have some : path ≠ [] := by
        rintro rfl
        cases Build.segments_ok_iff.mp segments
      constructor
      · rw [Expr.unplaced, Expr.tokens, Expr.unplacedSegments_eq, Expr.segmentTokens_eq]
        exact spells_path prints.spells some fun s among => (printsPath s among).spells
      · rw [Expr.tokens, Expr.segmentTokens_eq, solids_append]
        exact ⟨prints.solids, solids_flatMap fun s among => (printsPath s among).solids⟩

end Paths

section Operators

variable {sp : Span} {e : Expr} {t : Node} {ts : List Node}

theorem unaryOp_leaves {signs : List Node} (each : ∀ sign ∈ signs, grammar.Grown .unaryOp sign) :
    ∀ sign ∈ signs, ∃ s w, sign = .leaf .unaryOp s w := by
  intro sign member
  obtain ⟨s, c, d, us, same, -⟩ := (each sign member).leaf rfl
  exact ⟨s, _, same⟩

theorem operations_cases {signs : List Node} {a : Node}
    (each : ∀ sign ∈ signs, ∃ s w, sign = .leaf .unaryOp s w) (root : grammar.Grown .postfixExpr a)
    (built : Build.operations sp (signs ++ [a]) = .ok e) :
    ∃ ops f, Build.expr a = .ok f ∧ e = List.foldr (Expr.unary sp) f ops
      ∧ ops.length = signs.length := by
  induction signs generalizing e with
  | nil =>
      obtain ⟨s, b, us, rfl, -⟩ := grown_postfixExpr root
      exact ⟨[], e, built, rfl, rfl⟩
  | cons sign signs ih =>
      obtain ⟨s, w, rfl⟩ := each sign List.mem_cons_self
      obtain ⟨g, inner, done⟩ := bind_eq_ok_iff.mp built
      cases done
      obtain ⟨ops, f, found, rfl, length⟩ :=
        ih (fun u member => each u (List.mem_cons_of_mem _ member)) inner
      exact ⟨_ :: ops, f, found, rfl, by rw [List.length_cons, length, List.length_cons]⟩

theorem foldr_unary (ops : List UnaryOp) (f : Expr) :
    (ops.foldr (Expr.unary sp) f).unplaced = ops.foldr (Expr.unary .nowhere) f.unplaced
      ∧ (ops.foldr (Expr.unary sp) f).tokens = ops.map UnaryOp.symbol ++ f.tokens
      ∧ (ops.foldr (Expr.unary sp) f).floats = f.floats := by
  induction ops with
  | nil => exact ⟨rfl, rfl, rfl⟩
  | cons op ops ih =>
      obtain ⟨unplaced, tokens, floats⟩ := ih
      refine ⟨?_, ?_, ?_⟩
      · rw [List.foldr_cons, Expr.unplaced, unplaced, List.foldr_cons]
      · rw [List.foldr_cons, Expr.tokens, tokens, List.map_cons, List.cons_append]
      · rw [List.foldr_cons, Expr.floats, floats]

theorem prints_prefixExpr (grown : grammar.Grown .prefixExpr t)
    (children : ∀ u ∈ t.children, Printable u) (built : Build.expr t = .ok e)
    (floatless : e.floats = []) : Prints .operand e := by
  obtain ⟨s, signs, a, rfl, root, each⟩ := grown_prefixExpr grown
  obtain ⟨ops, f, found, rfl, -⟩ := operations_cases (unaryOp_leaves each) root built
  obtain ⟨unplaced, tokens, floats⟩ := foldr_unary ops f
  rw [floats] at floatless
  have prints : Prints .path f := (children a (by simp)).expr root found floatless
  constructor
  · rw [unplaced, tokens]
    exact spells_operand ops prints.spells
  · rw [tokens, solids_append]
    refine ⟨List.forall_mem_map.mpr fun op _ => ?_, prints.solids⟩
    cases op <;> exact solid_fixed (by decide)

theorem links_cases {tss : List (List Node)} {P : Expr → Prop} {links : Chain.Links}
    (each : ∀ us ∈ tss, ∃ sign a, us = [sign, a] ∧ ∀ f, Build.expr a = .ok f → f.floats = [] → P f)
    (built : Build.links tss.flatten = .ok links)
    (floatless : (links.flatMap fun link => link.2.floats) = []) : ∀ link ∈ links, P link.2 := by
  induction tss generalizing links with
  | nil =>
      cases built
      nofun
  | cons us tss ih =>
      obtain ⟨sign, a, rfl, operand⟩ := each us List.mem_cons_self
      unfold Build.links at built
      split at built
      · rename_i none
        cases none
      · rename_i s symbol b bs same
        cases same
        split at built
        · obtain ⟨f, found, built⟩ := bind_eq_ok_iff.mp built
          obtain ⟨others, rest, done⟩ := bind_eq_ok_iff.mp built
          cases done
          rw [List.flatMap_cons, List.append_eq_nil_iff] at floatless
          exact List.forall_mem_cons.mpr ⟨operand f found floatless.1,
            ih (fun us member => each us (List.mem_cons_of_mem _ member)) rest floatless.2⟩
        · cases built
      · cases built

theorem prints_arithExpr (grown : grammar.Grown .arithExpr t)
    (children : ∀ u ∈ t.children, Printable u) (built : Build.expr t = .ok e)
    (floatless : e.floats = []) : Prints .chain e := by
  obtain ⟨s, a, tss, rfl, root, each⟩ := grown_arithExpr grown
  obtain ⟨f, found, built⟩ := bind_eq_ok_iff.mp built
  obtain ⟨links, rest, done⟩ := bind_eq_ok_iff.mp built
  cases done
  rw [Chain.fold_floats, List.append_eq_nil_iff] at floatless
  have prints : Prints .operand f := (children a (by simp)).expr root found floatless.1
  have operands : ∀ link ∈ links, Prints .operand link.2 := by
    refine links_cases (fun us member => ?_) rest floatless.2
    obtain ⟨sign, b, rfl, operand⟩ := each us member
    have among : b ∈ a :: tss.flatten :=
      List.mem_cons_of_mem _ (List.mem_flatten.mpr ⟨_, member, by simp⟩)
    exact ⟨sign, b, rfl, fun g built floatless => (children b among).expr operand built floatless⟩
  constructor
  · rw [Chain.fold_unplaced, Chain.fold_tokens]
    exact spells_chain prints.spells fun link among => (operands link among).spells
  · rw [Chain.fold_tokens, solids_append]
    exact ⟨prints.solids, solids_flatMap fun link among =>
      solids_cons.mpr ⟨solid_symbol link.1, (operands link among).solids⟩⟩

theorem prints_expression (grown : grammar.Grown .expression t)
    (children : ∀ u ∈ t.children, Printable u) (built : Build.expr t = .ok e)
    (floatless : e.floats = []) : Prints .full e := by
  obtain ⟨s, a, ts, rfl, root, rest⟩ := grown_expression grown
  have prints {f : Expr} (built : Build.expr a = .ok f) (floatless : f.floats = []) :
      Prints .chain f := (children a (by simp)).expr root built floatless
  rcases rest with rfl | ⟨b, rfl⟩
  · have chain := prints built floatless
    exact ⟨spells_raise_full chain.spells, chain.solids⟩
  · obtain ⟨f, found, built⟩ := bind_eq_ok_iff.mp built
    obtain ⟨target, _, done⟩ := bind_eq_ok_iff.mp built
    cases done
    have chain := prints found floatless
    constructor
    · exact spells_cast chain.spells target.tag
    · simpa [Expr.tokens] using ⟨chain.solids, solid_fixed (by decide), solid_tag target.tag⟩

end Operators

theorem prints_entry {t : Node} (grown : grammar.Grown .mapEntry t)
    (children : ∀ u ∈ t.children, Printable u) {x : Entry}
    (built : Build.entry t = .ok x) (floatless : x.floats = []) : Prints .full x.value := by
  obtain ⟨s, key, a, rfl, value⟩ := grown_mapEntry grown
  obtain ⟨name, _, built⟩ := bind_eq_ok_iff.mp built
  obtain ⟨f, found, done⟩ := bind_eq_ok_iff.mp built
  cases done
  exact (children a (by simp)).expr value found floatless

theorem prints_primaryExpr {t : Node} {e : Expr} (grown : grammar.Grown .primaryExpr t)
    (children : ∀ u ∈ t.children, Printable u) (built : Build.expr t = .ok e)
    (floatless : e.floats = []) : Prints .primary e := by
  obtain ⟨s, r, a, rfl, inner, among⟩ := grown_primaryExpr grown
  exact (children a (by simp)).primary among inner built floatless

theorem printable (t : Node) : Printable t := by
  induction t using Tree.induct with
  | step t children =>
      constructor
      case expr =>
        intro level e grown built floatless
        cases level with
        | primary => exact prints_primaryExpr grown children built floatless
        | path => exact prints_postfixExpr grown children built floatless
        | operand => exact prints_prefixExpr grown children built floatless
        | chain => exact prints_arithExpr grown children built floatless
        | full => exact prints_expression grown children built floatless
      case primary =>
        intro r sp e among grown built floatless
        exact prints_primary among grown children built floatless
      case segment =>
        intro s grown built floatless
        exact prints_segment grown children built floatless
      case entry =>
        intro x grown built floatless
        exact prints_entry grown children built floatless

end Dil.Reading
