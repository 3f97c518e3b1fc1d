import Dil.Proofs.Peg.Rows
import Dil.Proofs.Relayout.Gaps
import Dil.Proofs.Syntax.Built
import Dil.Proofs.Syntax.Nest

namespace Dil

open Nest (Between between_one)

def Cursor.In (source : String) (c : Cursor) : Prop := ∃ s, (Cursor.ofSource source).Reads s c

theorem Cursor.In.spells {source : String} {c d : Cursor} {s : List Char} (inside : c.In source)
    (reads : c.Reads s d) : (c.spanTo d).Spells source s := by
  obtain ⟨before, ahead⟩ := inside
  have start : c.offset = byteLength before := by
    rw [ahead.offset, Cursor.ofSource, Nat.zero_add]
  refine ⟨before, d.rest, ?_, ?_⟩
  · rw [List.append_assoc, ← reads.rest]
    exact ahead.rest
  · rw [Cursor.spanTo, reads.offset, start, byteLength_append]

namespace Build

/-- The tree was read in the source from one position up to another one, behind all layout. -/
structure Sited (source : String) (t : Node) (c d : Cursor) : Prop where
  inside : c.In source
  still : Layout.skip c = c
  found : grammar.Settles true (.rule (ruleOf t)) c (.matched [t] d)

section Sited

variable {source : String} {t u : Node} {ts : List Node} {c d : Cursor} {r : Rule} {sp : Span}
  {text : List Char} {label : Label} {parts : List Nest}

theorem ruleOf_eq (settles : grammar.Settles true (.rule r) c (.matched [t] d)) : ruleOf t = r := by
  cases t with
  | leaf q sp text => exact settles.of_leaf.1.symm
  | node q sp ts => exact settles.of_node.1.symm

theorem sited_of_settles (inside : c.In source) (still : Layout.skip c = c)
    (settles : grammar.Settles true (.rule r) c (.matched [t] d)) : Sited source t c d :=
  ⟨inside, still, (ruleOf_eq settles).symm ▸ settles⟩

theorem reads_of_matched {p : Rule.Part} {spaced : Bool}
    (settles : grammar.Settles spaced p c (.matched ts d)) : ∃ s, c.Reads s d ∧ p.least Rule.least ≤ s.length :=
  settles.reads grammar_bounded.forward grammar_bounded.enough

theorem Sited.reads (sited : Sited source t c d) :
    ∃ s, c.Reads s d ∧ Rule.least (ruleOf t) ≤ s.length := reads_of_matched sited.found

theorem Sited.stop (sited : Sited source t c d) : d.In source := by
  obtain ⟨before, ahead⟩ := sited.inside
  obtain ⟨s, reads, -⟩ := sited.reads
  exact ⟨before ++ s, ahead.trans reads⟩

/-- A construct that reads something has the place of its tree. -/
theorem Sited.nest (sited : Sited source t c d) (some : 0 < Rule.least (ruleOf t))
    (fits : label.Fits (c.textUpTo d)) (between : Between source c.offset parts d.offset) :
    Between source c.offset [.mk (c.spanTo d) label parts] d.offset := by
  obtain ⟨s, reads, least⟩ := sited.reads
  have long : 0 < byteLength s := byteLength_pos (List.length_pos_iff.mp (by omega))
  have stop := reads.offset
  rw [reads.textUpTo] at fits
  refine between_one (Nest.sound_of_between (sited.inside.spells reads) ?_ fits between) ?_ ?_
  · simp only [Cursor.spanTo]
    omega
  · exact Nat.le_refl _
  · exact Nat.le_refl _

theorem Sited.empty (sited : Sited source t c d) : Between source c.offset [] d.offset := by
  obtain ⟨s, reads, -⟩ := sited.reads
  exact .nil (by rw [reads.offset]; omega)

theorem Sited.node_place (sited : Sited source (.node r sp ts) c d) : sp = c.spanTo d :=
  sited.found.of_node.2

theorem Sited.leaf_place (sited : Sited source (.leaf r sp text) c d) :
    sp = c.spanTo d ∧ text = c.textUpTo d := sited.found.of_leaf.2

theorem Sited.below (sited : Sited source (.node r sp ts) c d) (spaced : Rule.kind r = .spaced) :
    grammar.Row c ts d :=
  sited.found.row_below Layout.skip_reads Layout.skip_skip spaced sited.still

theorem row_reads (row : grammar.Row c ts d) : ∃ s, c.Reads s d := by
  induction row with
  | nil ahead => exact ⟨_, ahead⟩
  | cons ahead _ found _ ih =>
      obtain ⟨_, reads, -⟩ := reads_of_matched found
      obtain ⟨_, others⟩ := ih
      exact ⟨_, (ahead.trans reads).trans others⟩

theorem row_offset (row : grammar.Row c ts d) : c.offset ≤ d.offset := by
  obtain ⟨s, reads⟩ := row_reads row
  rw [reads.offset]
  omega

theorem row_cons (inside : c.In source) (row : grammar.Row c (t :: ts) d) :
    ∃ e f, c.offset ≤ e.offset ∧ Sited source t e f ∧ f.In source ∧ grammar.Row f ts d := by
  cases row with
  | cons ahead still found others =>
      obtain ⟨before, here⟩ := inside
      have sited := sited_of_settles ⟨_, here.trans ahead⟩ still found
      exact ⟨_, _, by rw [ahead.offset]; omega, sited, sited.stop, others⟩

theorem row_one (inside : c.In source) (row : grammar.Row c [t] d) :
    ∃ e f, c.offset ≤ e.offset ∧ Sited source t e f ∧ f.offset ≤ d.offset := by
  obtain ⟨e, f, ahead, sited, -, others⟩ := row_cons inside row
  exact ⟨e, f, ahead, sited, row_offset others⟩

theorem row_cons_cons (inside : c.In source) (row : grammar.Row c (t :: u :: ts) d) :
    ∃ e f e' f', c.offset ≤ e.offset ∧ Sited source t e f ∧ f.offset ≤ e'.offset ∧
      Sited source u e' f' ∧ f'.In source ∧ grammar.Row f' ts d := by
  obtain ⟨e, f, ahead, sited, inside', others⟩ := row_cons inside row
  obtain ⟨e', f', between, sited', inside'', others'⟩ := row_cons inside' others
  exact ⟨e, f, e', f', ahead, sited, between, sited', inside'', others'⟩

theorem row_two (inside : c.In source) (row : grammar.Row c [t, u] d) :
    ∃ e f e' f', c.offset ≤ e.offset ∧ Sited source t e f ∧ f.offset ≤ e'.offset ∧
      Sited source u e' f' ∧ f'.offset ≤ d.offset := by
  obtain ⟨e, f, e', f', ahead, sited, between, sited', -, others⟩ := row_cons_cons inside row
  exact ⟨e, f, e', f', ahead, sited, between, sited', row_offset others⟩

theorem between_row {α : Type} {build : Node → Except BuildError α} {nests : α → List Nest} {as : List α}
    (each : ∀ t ∈ ts, ∀ c d a, Sited source t c d → build t = .ok a →
      Between source c.offset (nests a) d.offset)
    (inside : c.In source) (row : grammar.Row c ts d)
    (built : List.Forall₂ (fun t a => build t = .ok a) ts as) :
    Between source c.offset (as.flatMap nests) d.offset := by
  induction built generalizing c with
  | nil => exact .nil (row_offset row)
  | cons head _ ih =>
      rw [List.forall_mem_cons] at each
      obtain ⟨e, f, ahead, sited, inside', others⟩ := row_cons inside row
      exact ((each.1 e f _ sited head).lead ahead).append (ih each.2 inside' others)

theorem Sited.choice (q : Rule) (qs : List Rule) (sited : Sited source (.node r sp [t]) c d)
    (spaced : Rule.kind r = .spaced) (choice : Rule.body r = Peg.first ((q :: qs).map .rule)) :
    Sited source t c d := by
  obtain ⟨us, same, inner⟩ := sited.found.matched_node spaced
  cases same
  have inner' : grammar.Settles true (Rule.body r) c (.matched [t] d) := inner
  rw [choice] at inner'
  obtain ⟨_, -, found⟩ := inner'.matched_first
  exact sited_of_settles sited.inside sited.still found

theorem ident_nested {i : Ident} (sited : Sited source t c d) (built : ident t = .ok i) :
    Between source c.offset [i.nest] d.offset ∧ i.span = c.spanTo d ∧ i.name.toList = c.textUpTo d := by
  unfold ident at built
  split at built
  · cases built
    obtain ⟨rfl, rfl⟩ := sited.leaf_place
    have name := String.toList_ofList (l := c.textUpTo d)
    exact ⟨sited.nest Nat.one_pos name.symm sited.empty, rfl, name⟩
  · cases built
    obtain ⟨rfl, rfl⟩ := sited.leaf_place
    have name := String.toList_ofList (l := c.textUpTo d)
    exact ⟨sited.nest Nat.one_pos name.symm sited.empty, rfl, name⟩
  · cases built

theorem typeSuffix_nested {T : TypeName} (sited : Sited source t c d) (built : typeSuffix t = .ok T) :
    Between source c.offset [T.nest] d.offset := by
  unfold typeSuffix at built
  split at built
  · obtain ⟨e, f, ahead, name, behind⟩ := row_one sited.inside (sited.below rfl)
    obtain ⟨rfl, rfl⟩ := name.leaf_place
    split at built
    · cases built
      have whole : Between source e.offset [.mk (e.spanTo f) .other []] f.offset :=
        name.nest Nat.one_pos trivial name.empty
      exact (whole.lead ahead).trail behind
    · cases built
  · cases built

theorem reads_text {spaced : Bool} {w : List Char}
    (settles : grammar.Settles spaced (.text w) c (.matched ts d)) : c.Reads w d ∧ ts = [] := by
  cases settles with
  | text next => exact ⟨Cursor.read?_eq_some_iff.mp next, rfl⟩

theorem quoted_text {sp' : Span} {inside : List Char}
    (sited : Sited source (.node .stringLiteral sp [.leaf .stringInner sp' inside]) c d) :
    c.textUpTo d = '"' :: (inside ++ ['"']) := by
  obtain ⟨us, same, inner⟩ := sited.found.matched_body
  cases same
  have joined : grammar.Settles false (Rule.body .stringLiteral) c (.matched _ d) := inner
  obtain ⟨_, e, ts, opening, others, whole⟩ := joined.matched_seq
  obtain ⟨openingRead, rfl⟩ := reads_text opening
  obtain ⟨_, f, _, text, closing, rfl⟩ := others.matched_seq
  obtain ⟨closingRead, rfl⟩ := reads_text closing
  obtain ⟨u, rfl⟩ := text.matched_rule
  cases whole
  obtain ⟨-, -, read⟩ := Grammar.Settles.of_leaf text
  obtain ⟨s, reads, -⟩ := reads_of_matched text
  rw [((openingRead.trans reads).trans closingRead).textUpTo, read]
  exact congrArg (fun s => '"' :: (s ++ ['"'])) reads.textUpTo.symm

theorem mapKey_nested {i : Ident} (sited : Sited source t c d) (built : mapKey t = .ok i) :
    Between source c.offset [.mk i.span (.key i.name) []] d.offset := by
  unfold mapKey at built
  split at built
  · rename_i sp sp₁ sp₂ inside
    obtain ⟨s, read, done⟩ := bind_eq_ok_iff.mp built
    cases done
    cases sited.node_place
    have text := quoted_text (sited.choice .keyIdent [.stringLiteral] rfl rfl)
    unfold stringInside at read
    split at read
    · rename_i s' unescaped
      cases read
      refine sited.nest Nat.one_pos (.inr ⟨inside, text, ?_⟩) sited.empty
      rw [unescaped, String.toList_ofList]
    · cases read
  · have word := sited.choice .keyIdent [.stringLiteral] rfl rfl
    obtain ⟨-, place, name⟩ := ident_nested word built
    rw [place]
    exact sited.nest Nat.one_pos (.inl name.symm) sited.empty
  · cases built

/-- What the builders that call one another put together of a tree lies in its place. -/
structure Nested (source : String) (t : Node) : Prop where
  expr {c d : Cursor} {e : Expr} (sited : Sited source t c d) (built : expr t = .ok e) :
    Between source c.offset [e.nest] d.offset
  primary {c d : Cursor} {e : Expr} (sited : Sited source t c d)
    (built : primary (c.spanTo d) t = .ok e) : Between source c.offset [e.nest] d.offset
  segment {c d : Cursor} {s : Segment} (sited : Sited source t c d) (built : segment t = .ok s) :
    Between source c.offset s.nests d.offset
  entry {c d : Cursor} {e : Entry} (sited : Sited source t c d) (built : entry t = .ok e) :
    Between source c.offset e.nests d.offset

theorem nested_below {nests : List Nest} (sited : Sited source (.node r sp [t]) c d)
    (spaced : Rule.kind r = .spaced)
    (part : ∀ {c d : Cursor}, Sited source t c d → Between source c.offset nests d.offset) :
    Between source c.offset nests d.offset := by
  obtain ⟨e, f, ahead, sited', behind⟩ := row_one sited.inside (sited.below spaced)
  exact ((part sited').lead ahead).trail behind

theorem links_nested {ls : Chain.Links} : ∀ {ts : List Node} {c : Cursor}, (∀ t ∈ ts, Nested source t) →
    c.In source → grammar.Row c ts d → links ts = .ok ls →
    Between source c.offset (ls.map fun l => l.2.nest) d.offset
  | [], _, _, _, row, built => by
      cases built
      exact .nil (row_offset row)
  | [t], _, _, _, _, built => by
      cases t with
      | leaf q sp text => cases q <;> cases built
      | node q sp us => cases built
  | sign :: t :: ts, c, each, inside, row, built => by
      unfold links at built
      split at built
      · cases ‹_ :: _ = []›
      · rename_i u ts' same
        cases same
        split at built
        · obtain ⟨e, operand, built⟩ := bind_eq_ok_iff.mp built
          obtain ⟨ls, others, done⟩ := bind_eq_ok_iff.mp built
          cases done
          obtain ⟨c₁, d₁, c₂, d₂, ahead, sited₁, between, sited₂, inside', row'⟩ := row_cons_cons inside row
          have first := (each t (by simp)).expr sited₂ operand
          have rest := links_nested (fun u member => each u (by simp [member])) inside' row' others
          have sign := sited₁.empty.le
          exact (first.lead (by omega)).append rest
        · cases built
      · cases built

/-- Signs share the place of the operation, which starts at the first sign of all. -/
theorem operations_nested {e : Expr} {b : Cursor}
    (sited : Sited source t c d) (some : 0 < Rule.least (ruleOf t)) (each : ∀ t ∈ ts, Nested source t)
    (inside : b.In source) (ahead : c.offset ≤ b.offset) (row : grammar.Row b ts d)
    (built : operations (c.spanTo d) ts = .ok e) : Between source c.offset [e.nest] d.offset := by
  induction ts generalizing b e with
  | nil => cases built
  | cons u ts ih =>
      rw [List.forall_mem_cons] at each
      unfold operations at built
      split at built
      · rename_i same
        cases same
        obtain ⟨f, inner, done⟩ := bind_eq_ok_iff.mp built
        cases done
        obtain ⟨b₁, b₂, next, sign, inside', row'⟩ := row_cons inside row
        have later : c.offset ≤ b₂.offset := by
          have := sign.empty.le
          omega
        exact sited.nest some trivial (ih each.2 inside' later row' inner)
      · rename_i same
        cases same
        obtain ⟨b₁, b₂, next, operand, behind⟩ := row_one inside row
        exact ((each.1.expr operand built).lead (by omega)).trail behind
      · cases built

theorem list_nested {α : Type} {build : Node → Except BuildError α} {nests : α → List Nest} {as : List α}
    (part : ∀ t ∈ ts, ∀ c d a, Sited source t c d → build t = .ok a →
      Between source c.offset (nests a) d.offset)
    (sited : Sited source (.node r sp ts) c d) (spaced : Rule.kind r = .spaced)
    (built : List.Forall₂ (fun t a => build t = .ok a) ts as) :
    Between source c.offset (as.flatMap nests) d.offset :=
  between_row part sited.inside (sited.below spaced) built

theorem expr_nested {e : Expr} (each : ∀ t ∈ ts, Nested source t)
    (sited : Sited source (.node r sp ts) c d) (built : expr (.node r sp ts) = .ok e) :
    Between source c.offset [e.nest] d.offset := by
  cases sited.node_place
  unfold expr at built
  split at built
  · rename_i same
    cases same
    exact nested_below sited rfl fun sited' => (each _ (by simp)).expr sited' built
  · rename_i same
    cases same
    obtain ⟨e, value, built⟩ := bind_eq_ok_iff.mp built
    obtain ⟨T, target, done⟩ := bind_eq_ok_iff.mp built
    cases done
    obtain ⟨c₁, d₁, c₂, d₂, ahead, sited₁, between, sited₂, behind⟩ :=
      row_two sited.inside (sited.below rfl)
    have first := ((each _ (by simp)).expr sited₁ value).lead ahead
    have second := ((typeSuffix_nested sited₂ target).lead between).trail behind
    exact sited.nest Nat.one_pos trivial (first.append second)
  · rename_i same
    cases same
    obtain ⟨e, first, built⟩ := bind_eq_ok_iff.mp built
    obtain ⟨ls, rest, done⟩ := bind_eq_ok_iff.mp built
    cases done
    rw [List.forall_mem_cons] at each
    obtain ⟨c₁, d₁, ahead, sited₁, inside, row⟩ := row_cons sited.inside (sited.below rfl)
    have operand := (each.1.expr sited₁ first).lead ahead
    have others := links_nested each.2 inside row rest
    obtain ⟨t, folded, rfl, rfl, -⟩ := Chain.fold_passes e ls
    rw [Chain.fold, folded]
    refine Nest.between_folding t ?_
    rw [Chain.Folding.operands, List.map_cons, List.map_map]
    exact operand.append others
  · rename_i same
    cases same
    exact operations_nested sited Nat.one_pos each sited.inside (Nat.le_refl _) (sited.below rfl) built
  · rename_i same
    cases same
    exact nested_below sited rfl fun sited' => (each _ (by simp)).expr sited' built
  · rename_i same
    cases same
    obtain ⟨e, base, built⟩ := bind_eq_ok_iff.mp built
    obtain ⟨ss, path, done⟩ := bind_eq_ok_iff.mp built
    cases done
    rw [List.forall_mem_cons] at each
    obtain ⟨c₁, d₁, ahead, sited₁, inside, row⟩ := row_cons sited.inside (sited.below rfl)
    have first := (each.1.expr sited₁ base).lead ahead
    have steps := between_row (fun t member c d s sited built => (each.2 t member).segment sited built)
      inside row (segments_ok_iff.mp path)
    rw [Expr.nest, Expr.segmentNests_eq]
    exact sited.nest Nat.one_pos trivial (first.append steps)
  · rename_i same
    cases same
    exact (each _ (by simp)).primary (sited.choice _ _ rfl rfl) built
  · cases built

theorem primary_nested {e : Expr} (each : ∀ t ∈ ts, Nested source t)
    (sited : Sited source (.node r sp ts) c d) (built : primary (c.spanTo d) (.node r sp ts) = .ok e) :
    Between source c.offset [e.nest] d.offset := by
  unfold primary at built
  split at built
  · cases ‹Tree.node _ _ _ = _›
  · cases ‹Tree.node _ _ _ = _›
  · cases ‹Tree.node _ _ _ = _›
  · cases ‹Tree.node _ _ _ = _›
  · rename_i same
    cases same
    obtain ⟨s, -, done⟩ := bind_eq_ok_iff.mp built
    cases done
    exact sited.nest Nat.one_pos trivial sited.empty
  · rename_i same
    cases same
    obtain ⟨es, found, done⟩ := bind_eq_ok_iff.mp built
    cases done
    rw [Expr.nest, Expr.entryNests_eq]
    exact sited.nest Nat.one_pos trivial
      (list_nested (fun t member c d e sited built => (each t member).entry sited built) sited rfl
        (entries_ok_iff.mp found))
  · rename_i same
    cases same
    obtain ⟨es, found, done⟩ := bind_eq_ok_iff.mp built
    cases done
    rw [Expr.nest, Expr.itemNests_eq, List.map_eq_flatMap]
    exact sited.nest Nat.one_pos trivial
      (list_nested (fun t member c d e sited built => (each t member).expr sited built) sited rfl
        (items_ok_iff.mp found))
  · rename_i same
    cases same
    obtain ⟨i, found, done⟩ := bind_eq_ok_iff.mp built
    cases done
    exact sited.nest Nat.one_pos trivial
      (nested_below sited rfl fun sited' => (ident_nested sited' found).1)
  · cases ‹Tree.node _ _ _ = _›
  · rename_i same
    cases same
    obtain ⟨e, found, done⟩ := bind_eq_ok_iff.mp built
    cases done
    exact sited.nest Nat.one_pos trivial
      (nested_below sited rfl fun sited' => (each _ (by simp)).expr sited' found)
  · cases built

theorem segment_nested {s : Segment} (each : ∀ t ∈ ts, Nested source t)
    (sited : Sited source (.node r sp ts) c d) (built : segment (.node r sp ts) = .ok s) :
    Between source c.offset s.nests d.offset := by
  unfold segment at built
  split at built
  · rename_i same
    cases same
    obtain ⟨i, found, done⟩ := bind_eq_ok_iff.mp built
    cases done
    exact nested_below sited rfl fun sited' => (ident_nested sited' found).1
  · rename_i same
    cases same
    obtain ⟨e, found, done⟩ := bind_eq_ok_iff.mp built
    cases done
    exact nested_below sited rfl fun sited' => (each _ (by simp)).expr sited' found
  · cases built

theorem entry_nested {e : Entry} (each : ∀ t ∈ ts, Nested source t)
    (sited : Sited source (.node r sp ts) c d) (built : entry (.node r sp ts) = .ok e) :
    Between source c.offset e.nests d.offset := by
  unfold entry at built
  split at built
  · rename_i same
    cases same
    obtain ⟨i, key, built⟩ := bind_eq_ok_iff.mp built
    obtain ⟨e, value, done⟩ := bind_eq_ok_iff.mp built
    cases done
    obtain ⟨c₁, d₁, c₂, d₂, ahead, sited₁, between, sited₂, behind⟩ :=
      row_two sited.inside (sited.below rfl)
    have first := (mapKey_nested sited₁ key).lead ahead
    have second := (((each _ (by simp)).expr sited₂ value).lead between).trail behind
    exact first.append second
  · cases built

theorem leaf_nested (r : Rule) (sp : Span) (text : List Char) : Nested source (.leaf r sp text) where
  expr _ built := by cases built
  segment _ built := by cases built
  entry _ built := by cases built
  primary sited built := by
    unfold primary at built
    split at built
    · cases ‹Tree.leaf _ _ _ = .leaf _ _ _›
      cases built
      exact sited.nest Nat.one_pos trivial sited.empty
    · cases ‹Tree.leaf _ _ _ = .leaf _ _ _›
      cases built
      exact sited.nest Nat.one_pos trivial sited.empty
    · cases ‹Tree.leaf _ _ _ = .leaf _ _ _›
      obtain ⟨n, -, done⟩ := bind_eq_ok_iff.mp built
      cases done
      exact sited.nest Nat.one_pos trivial sited.empty
    · cases ‹Tree.leaf _ _ _ = .leaf _ _ _›
      obtain ⟨x, -, done⟩ := bind_eq_ok_iff.mp built
      cases done
      exact sited.nest Nat.one_pos trivial sited.empty
    · cases ‹Tree.leaf _ _ _ = .node _ _ _›
    · cases ‹Tree.leaf _ _ _ = .node _ _ _›
    · cases ‹Tree.leaf _ _ _ = .node _ _ _›
    · cases ‹Tree.leaf _ _ _ = .node _ _ _›
    · cases ‹Tree.leaf _ _ _ = .leaf _ _ _›
      cases built
      obtain ⟨-, rfl⟩ := sited.leaf_place
      exact sited.nest Nat.one_pos (String.toList_ofList).symm sited.empty
    · cases ‹Tree.leaf _ _ _ = .node _ _ _›
    · cases built

theorem nested (source : String) (t : Node) : Nested source t := by
  induction t using Tree.induct with
  | step t each =>
      cases t with
      | leaf r sp text => exact leaf_nested r sp text
      | node r sp ts =>
          exact ⟨expr_nested each, primary_nested each, segment_nested each, entry_nested each⟩

theorem fieldDecl_nested {f : FieldDecl} (sited : Sited source t c d) (built : fieldDecl t = .ok f) :
    Between source c.offset [f.nest] d.offset := by
  unfold fieldDecl at built
  split at built
  · cases sited.node_place
    obtain ⟨i, name, next⟩ := bind_eq_ok_iff.mp built
    obtain ⟨e, value, done⟩ := bind_eq_ok_iff.mp next
    clear built next
    obtain ⟨c₁, d₁, c₂, d₂, ahead, sited₁, between, sited₂, inside, row⟩ :=
      row_cons_cons sited.inside (sited.below rfl)
    have first := ((ident_nested sited₁ name).1).lead ahead
    have default := ((nested source _).expr sited₂ value).lead between
    split at done
    · cases done
      exact sited.nest Nat.one_pos trivial (first.append (default.trail (row_offset row)))
    · cases done
      exact sited.nest Nat.one_pos trivial (first.append (default.trail (row_offset row)))
    · obtain ⟨T, target, done⟩ := bind_eq_ok_iff.mp done
      cases done
      obtain ⟨c₃, d₃, next, sited₃, behind⟩ := row_one inside row
      have type := ((typeSuffix_nested sited₃ target).lead next).trail behind
      exact sited.nest Nat.one_pos trivial (first.append (default.append type))
    · obtain ⟨T, target, done⟩ := bind_eq_ok_iff.mp done
      cases done
      obtain ⟨c₃, d₃, next, sited₃, -, modifier⟩ := row_cons inside row
      have type := ((typeSuffix_nested sited₃ target).lead next).trail (row_offset modifier)
      exact sited.nest Nat.one_pos trivial (first.append (default.append type))
  · cases built

theorem classDecl_nested {k : ClassDecl} (sited : Sited source t c d) (built : classDecl t = .ok k) :
    Between source c.offset [k.nest] d.offset := by
  unfold classDecl at built
  split at built
  · cases sited.node_place
    obtain ⟨i, name, built⟩ := bind_eq_ok_iff.mp built
    obtain ⟨fs, fields, done⟩ := bind_eq_ok_iff.mp built
    cases done
    obtain ⟨c₁, d₁, ahead, sited₁, inside, row⟩ := row_cons sited.inside (sited.below rfl)
    have first := ((ident_nested sited₁ name).1).lead ahead
    have others := between_row (fun t _ c d f sited built => fieldDecl_nested sited built) inside row
      (fieldDecls_ok_iff.mp fields)
    rw [← List.map_eq_flatMap] at others
    exact sited.nest Nat.one_pos trivial (first.append others)
  · cases built

theorem assignment_nested {path : List Segment} {e : Expr} (inside : c.In source)
    (row : grammar.Row c ts d) (built : assignment ts = .ok (path, e)) :
    Between source c.offset (path.flatMap Segment.nests ++ [e.nest]) d.offset := by
  induction ts generalizing c path with
  | nil => cases built
  | cons t ts ih =>
      unfold assignment at built
      split at built
      · rename_i same
        cases same
        obtain ⟨f, found, done⟩ := bind_eq_ok_iff.mp built
        cases done
        obtain ⟨c₁, d₁, ahead, sited, behind⟩ := row_one inside row
        exact (((nested source _).expr sited found).lead ahead).trail behind
      · rename_i same
        cases same
        obtain ⟨s, found, built⟩ := bind_eq_ok_iff.mp built
        obtain ⟨⟨path', e'⟩, rest, done⟩ := bind_eq_ok_iff.mp built
        cases done
        obtain ⟨c₁, d₁, ahead, sited, inside', row'⟩ := row_cons inside row
        rw [List.flatMap_cons, List.append_assoc]
        exact (((nested source _).segment sited found).lead ahead).append (ih inside' row' rest)
      · cases built

/-- What the builders of statements put together of a tree lies in its place. -/
structure StatementNested (source : String) (t : Node) : Prop where
  statement {c d : Cursor} {s : Stmt} (sited : Sited source t c d) (built : statement t = .ok s) :
    Between source c.offset [s.nest] d.offset
  construct {c d : Cursor} {s : Stmt} (sited : Sited source t c d)
    (built : construct (c.spanTo d) t = .ok s) : Between source c.offset [s.nest] d.offset
  block {c d : Cursor} {ss : List Stmt} (sited : Sited source t c d) (built : block t = .ok ss) :
    Between source c.offset (Stmt.blockNests ss) d.offset
  otherwise {sp : Span} {u : Node} {c d : Cursor} {ss : List Stmt} (same : t = .node .elseClause sp [u])
    (sited : Sited source t c d) (built : Build.block u = .ok ss) :
    Between source c.offset (Stmt.blockNests ss) d.offset

theorem statements_nested {ss : List Stmt} (each : ∀ t ∈ ts, StatementNested source t)
    (inside : c.In source) (row : grammar.Row c ts d) (built : statements ts = .ok ss) :
    Between source c.offset (Stmt.blockNests ss) d.offset := by
  have parts := between_row (fun t member c d s sited built => (each t member).statement sited built)
    inside row (statements_ok_iff.mp built)
  rwa [← List.map_eq_flatMap, ← Stmt.blockNests_eq] at parts

theorem construct_nested {s : Stmt} (each : ∀ t ∈ ts, StatementNested source t)
    (sited : Sited source (.node r sp ts) c d) (built : construct (c.spanTo d) (.node r sp ts) = .ok s) :
    Between source c.offset [s.nest] d.offset := by
  unfold construct at built
  split at built
  · rename_i same
    cases same
    obtain ⟨k, decl, done⟩ := bind_eq_ok_iff.mp built
    cases done
    exact sited.nest Nat.one_pos trivial (classDecl_nested sited decl)
  · rename_i same
    cases same
    obtain ⟨i, name, built⟩ := bind_eq_ok_iff.mp built
    obtain ⟨e, value, done⟩ := bind_eq_ok_iff.mp built
    cases done
    obtain ⟨c₁, d₁, c₂, d₂, ahead, sited₁, between, sited₂, behind⟩ :=
      row_two sited.inside (sited.below rfl)
    have first := (ident_nested sited₁ name).1.lead ahead
    have second := (((nested source _).expr sited₂ value).lead between).trail behind
    exact sited.nest Nat.one_pos trivial (first.append second)
  · rename_i same
    cases same
    obtain ⟨e, value, done⟩ := bind_eq_ok_iff.mp built
    cases done
    exact sited.nest Nat.one_pos trivial
      (nested_below sited rfl fun sited' => (nested source _).expr sited' value)
  · rename_i same
    cases same
    obtain ⟨i, name, built⟩ := bind_eq_ok_iff.mp built
    obtain ⟨⟨path, e⟩, rest, done⟩ := bind_eq_ok_iff.mp built
    cases done
    obtain ⟨c₁, d₁, ahead, sited₁, inside, row⟩ := row_cons sited.inside (sited.below rfl)
    have first := (ident_nested sited₁ name).1.lead ahead
    exact sited.nest Nat.one_pos trivial (first.append (assignment_nested inside row rest))
  · rename_i same
    cases same
    obtain ⟨e, value, built⟩ := bind_eq_ok_iff.mp built
    obtain ⟨yes, onTrue, done⟩ := bind_eq_ok_iff.mp built
    cases done
    obtain ⟨c₁, d₁, c₂, d₂, ahead, sited₁, between, sited₂, behind⟩ :=
      row_two sited.inside (sited.below rfl)
    have first := ((nested source _).expr sited₁ value).lead ahead
    have second := (((each _ (by simp)).block sited₂ onTrue).lead between).trail behind
    have parts := first.append second
    refine sited.nest Nat.one_pos trivial ?_
    rw [Stmt.blockNests, List.append_nil]
    exact parts
  · rename_i same
    cases same
    obtain ⟨e, value, built⟩ := bind_eq_ok_iff.mp built
    obtain ⟨yes, onTrue, built⟩ := bind_eq_ok_iff.mp built
    obtain ⟨no, onFalse, done⟩ := bind_eq_ok_iff.mp built
    cases done
    obtain ⟨c₁, d₁, ahead, sited₁, inside, row⟩ := row_cons sited.inside (sited.below rfl)
    obtain ⟨c₂, d₂, c₃, d₃, between, sited₂, next, sited₃, behind⟩ := row_two inside row
    have first := ((nested source _).expr sited₁ value).lead ahead
    have second := ((each _ (by simp)).block sited₂ onTrue).lead between
    have third := (((each _ (by simp)).otherwise rfl sited₃ onFalse).lead next).trail behind
    exact sited.nest Nat.one_pos trivial (first.append (second.append third))
  · rename_i same
    cases same
    obtain ⟨i, name, built⟩ := bind_eq_ok_iff.mp built
    obtain ⟨e, value, built⟩ := bind_eq_ok_iff.mp built
    obtain ⟨body, block, done⟩ := bind_eq_ok_iff.mp built
    cases done
    obtain ⟨c₁, d₁, ahead, sited₁, inside, row⟩ := row_cons sited.inside (sited.below rfl)
    obtain ⟨c₂, d₂, c₃, d₃, between, sited₂, next, sited₃, behind⟩ := row_two inside row
    have first := (ident_nested sited₁ name).1.lead ahead
    have second := ((nested source _).expr sited₂ value).lead between
    have third := (((each _ (by simp)).block sited₃ block).lead next).trail behind
    exact sited.nest Nat.one_pos trivial (first.append (second.append third))
  · rename_i same
    cases same
    obtain ⟨i, name, built⟩ := bind_eq_ok_iff.mp built
    obtain ⟨k, key, built⟩ := bind_eq_ok_iff.mp built
    obtain ⟨e, value, built⟩ := bind_eq_ok_iff.mp built
    obtain ⟨body, block, done⟩ := bind_eq_ok_iff.mp built
    cases done
    obtain ⟨c₁, d₁, c₂, d₂, ahead, sited₁, between, sited₂, inside, row⟩ := row_cons_cons sited.inside (sited.below rfl)
    obtain ⟨c₃, d₃, c₄, d₄, next, sited₃, last, sited₄, behind⟩ := row_two inside row
    have first := (ident_nested sited₁ name).1.lead ahead
    have second := (ident_nested sited₂ key).1.lead between
    have third := ((nested source _).expr sited₃ value).lead next
    have fourth := (((each _ (by simp)).block sited₄ block).lead last).trail behind
    exact sited.nest Nat.one_pos trivial (first.append (second.append (third.append fourth)))
  · rename_i same
    cases same
    obtain ⟨i, name, built⟩ := bind_eq_ok_iff.mp built
    obtain ⟨e, value, built⟩ := bind_eq_ok_iff.mp built
    obtain ⟨body, block, done⟩ := bind_eq_ok_iff.mp built
    cases done
    obtain ⟨c₁, d₁, ahead, sited₁, inside, row⟩ := row_cons sited.inside (sited.below rfl)
    obtain ⟨c₂, d₂, c₃, d₃, between, sited₂, next, sited₃, behind⟩ := row_two inside row
    have first := (ident_nested sited₁ name).1.lead ahead
    have second := ((nested source _).expr sited₂ value).lead between
    have third := (((each _ (by simp)).block sited₃ block).lead next).trail behind
    exact sited.nest Nat.one_pos trivial (first.append (second.append third))
  · cases built

theorem statement_nested {s : Stmt} (each : ∀ t ∈ ts, StatementNested source t)
    (sited : Sited source (.node r sp ts) c d) (built : statement (.node r sp ts) = .ok s) :
    Between source c.offset [s.nest] d.offset := by
  cases sited.node_place
  unfold statement at built
  split at built
  · rename_i same
    cases same
    exact (each _ (by simp)).construct (sited.choice _ _ rfl rfl) built
  · cases built

theorem block_nested {ss : List Stmt} (each : ∀ t ∈ ts, StatementNested source t)
    (sited : Sited source (.node r sp ts) c d) (built : block (.node r sp ts) = .ok ss) :
    Between source c.offset (Stmt.blockNests ss) d.offset := by
  unfold block at built
  split at built
  · rename_i same
    cases same
    exact statements_nested each sited.inside (sited.below rfl) built
  · cases built

theorem statementNested (source : String) (t : Node) : StatementNested source t := by
  induction t using Tree.induct with
  | step t each =>
      cases t with
      | leaf r sp text =>
          refine ⟨fun _ built => ?_, fun _ built => ?_, fun _ built => ?_, nofun⟩
          all_goals cases built
      | node r sp ts =>
          refine ⟨statement_nested each, construct_nested each, block_nested each, ?_⟩
          rintro _ u c d ss ⟨⟩ sited built
          exact nested_below sited rfl fun sited' => (each u List.mem_cons_self).block sited' built

end Sited

end Build

section Sources

variable {source : String} {d : Cursor} {t : Build.Node}

theorem Cursor.In.offset_of_end (inside : d.In source) (nothing : d.rest = []) :
    d.offset = byteLength source.toList := by
  obtain ⟨s, reads⟩ := inside
  have whole : source.toList = s ++ d.rest := reads.rest
  rw [reads.offset, whole, nothing, List.append_nil]
  exact Nat.zero_add _

theorem Nest.sound_program {p : Program} (whole : p.span = ⟨0, byteLength source.toList⟩)
    (between : Between source 0 (Stmt.blockNests p.statements) (byteLength source.toList)) :
    p.Sound source := by
  rw [Stmt.blockNests_eq] at between
  have each (s : Stmt) (member : s ∈ p.statements) :
      s.nest.Sound source ∧ 0 ≤ s.span.start ∧ s.span.stop ≤ byteLength source.toList :=
    s.nest_span ▸ between.within s.nest (List.mem_map_of_mem member)
  have ordered := List.pairwise_map.mp between.ordered
  simp only [Stmt.nest_span] at ordered
  refine ⟨whole, ?_, fun s member => whole ▸ (each s member).2, ordered, fun s member => (each s member).1⟩
  cases same : p.statements with
  | nil => exact .inr rfl
  | cons s ss =>
      obtain ⟨sound, -, stop⟩ := each s (same ▸ List.mem_cons_self)
      have some := sound.some
      rw [Stmt.nest_span] at some
      rw [whole]
      exact .inl (Nat.lt_of_le_of_lt (Nat.zero_le _) (Nat.lt_of_lt_of_le some stop))

theorem program_row
    (settles : grammar.Settles true (.rule .program) (.ofSource source) (.matched [t] d)) :
    ∃ s ts e, t = .node .program ⟨0, byteLength source.toList⟩ (ts ++ [.node .endOfInput s []]) ∧
      (Layout.skip (.ofSource source)).In source ∧
      grammar.Row (Layout.skip (.ofSource source)) ts e ∧ e.offset ≤ byteLength source.toList := by
  obtain ⟨us, rfl, inner⟩ := settles.matched_node rfl
  obtain ⟨_, _, _, start, body, rfl⟩ := inner.matched_seq
  cases start
  obtain ⟨ts, e, _, statements, stop, rfl⟩ := body.matched_seq
  obtain ⟨stop, rfl⟩ := stop.matched_rule
  obtain ⟨_, rfl, ended⟩ := stop.matched_node rfl
  cases ended with
  | atEnd nothing =>
      have row := statements.row grammar_bounded.forward Layout.skip_skip rfl (.inl (Layout.skip_skip _)) rfl
      obtain ⟨_, ahead⟩ := Layout.skip_reads (.ofSource source)
      obtain ⟨_, read⟩ := Build.row_reads row
      obtain ⟨_, behind⟩ := Layout.skip_reads e
      have whole : (Layout.skip e).In source := ⟨_, (ahead.trans read).trans behind⟩
      have length := whole.offset_of_end nothing
      have stop : e.offset ≤ (Layout.skip e).offset := by
        rw [behind.offset]
        omega
      have place : Cursor.spanTo (.ofSource source) (Layout.skip e) = ⟨0, byteLength source.toList⟩ :=
        congrArg (Span.mk 0) length
      refine ⟨(Layout.skip e).spanTo (Layout.skip e), ts, e, ?_, ⟨_, ahead⟩, row, length ▸ stop⟩
      rw [← place]
      rfl

theorem program_nested {p : Program}
    (settles : grammar.Settles true (.rule .program) (.ofSource source) (.matched [t] d))
    (built : Build.program t = .ok p) : p.Sound source := by
  obtain ⟨_, ts, e, rfl, inside, row, stop⟩ := program_row settles
  rw [Build.program, List.dropLast_concat] at built
  obtain ⟨ss, found, done⟩ := bind_eq_ok_iff.mp built
  cases done
  have parts := Build.statements_nested (fun t _ => Build.statementNested source t) inside row found
  exact Nest.sound_program rfl ((parts.lead (Nat.zero_le _)).trail stop)

theorem standalone_nested {e : Expr}
    (settles : grammar.Settles true (.rule .standaloneExpression) (.ofSource source) (.matched [t] d))
    (built : Build.standalone t = .ok e) : e.nest.Sound source := by
  obtain ⟨_, rfl, inner⟩ := settles.matched_node rfl
  obtain ⟨_, _, _, start, body, rfl⟩ := inner.matched_seq
  cases start
  obtain ⟨_, f, _, value, _, rfl⟩ := body.matched_seq
  obtain ⟨u, rfl⟩ := value.matched_rule
  obtain ⟨_, ahead⟩ := Layout.skip_reads (.ofSource source)
  have sited := Build.sited_of_settles ⟨_, ahead⟩ (Layout.skip_skip _) value
  exact ((Build.nested source u).expr sited built).one.1

/-- All places in what was read are sound in the source. Each is around some text of it, between two
characters; the places of the parts of a construct lie inside its own one, one behind another; and a
name stands at the place of the name, as it is or, if it is the key of a map, as a quoted text. -/
theorem read_places_sound (source : String) :
    (∀ p, readProgram source = .ok p → p.Sound source) ∧
    ∀ e, readExpression source = .ok e → e.nest.Sound source := by
  constructor
  · intro p read
    obtain ⟨t, d, settles, built⟩ := readAs_eq_ok_iff.mp read
    exact program_nested settles built
  · intro e read
    obtain ⟨t, d, settles, built⟩ := readAs_eq_ok_iff.mp read
    exact standalone_nested settles built

theorem umlaut_places_sound :
    let script := "let m = \x7b\"\u00fc\": -a + b * 2, k: [m->k] \x7d ; // \u00fc"
    let sum := "\"\u00fc\" + -a as str"
    (∃ p, readProgram script = .ok p ∧ p.statements.length = 1 ∧ p.Sound script) ∧
      ∃ e, readExpression sum = .ok e ∧ e.nest.Sound sum := by
  intro script sum
  have accepted : ((readProgram script).toOption.map fun p => p.statements.length) = some 1 := by
    decide +kernel
  have accepted' : (readExpression sum).toOption.isSome = true := by decide +kernel
  constructor
  · cases read : readProgram script with
    | error e => simp [read, Except.toOption] at accepted
    | ok p =>
        rw [read] at accepted
        exact ⟨p, rfl, Option.some.inj accepted, (read_places_sound script).1 p read⟩
  · cases read : readExpression sum with
    | error e => simp [read, Except.toOption] at accepted'
    | ok e => exact ⟨e, rfl, (read_places_sound sum).2 e read⟩

end Sources

end Dil
