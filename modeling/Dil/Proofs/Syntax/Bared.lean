import Dil.Proofs.Syntax.Spans

namespace Dil

theorem Tree.mapSpans_nowhere {ρ : Type} (t : Tree ρ) : t.mapSpans (fun _ => .nowhere) = t.bare := by
  induction t using Tree.induct with
  | step t ih =>
      cases t with
      | leaf => rfl
      | node r sp ts =>
          rw [mapSpans, bare, bares_eq_map, mapSpansEach_eq]
          exact congrArg _ (List.map_congr_left ih)

mutual

theorem Expr.mapSpans_nowhere : ∀ e : Expr, e.mapSpans (fun _ => .nowhere) = e.unplaced
  | .null _ | .bool _ _ | .int _ _ | .float _ _ | .str _ _ | .var _ _ | .create _ _ => rfl
  | .map _ entries => congrArg (Expr.map .nowhere) (mapSpansEntries_nowhere entries)
  | .array _ items => congrArg (Expr.array .nowhere) (mapSpansItems_nowhere items)
  | .path _ base segments =>
      congrArg₂ (Expr.path .nowhere) (mapSpans_nowhere base) (mapSpansSegments_nowhere segments)
  | .binary _ op left right =>
      congrArg₂ (Expr.binary .nowhere op) (mapSpans_nowhere left) (mapSpans_nowhere right)
  | .unary _ op operand => congrArg (Expr.unary .nowhere op) (mapSpans_nowhere operand)
  | .cast _ value target => congrArg (Expr.cast .nowhere · target.unplaced) (mapSpans_nowhere value)
  | .paren _ inner => congrArg (Expr.paren .nowhere) (mapSpans_nowhere inner)

theorem Expr.mapSpansItems_nowhere : ∀ es : List Expr,
    mapSpansItems (fun _ => .nowhere) es = unplacedItems es
  | [] => rfl
  | e :: es => congrArg₂ List.cons (mapSpans_nowhere e) (mapSpansItems_nowhere es)

theorem Expr.mapSpansEntries_nowhere : ∀ es : List Entry,
    mapSpansEntries (fun _ => .nowhere) es = unplacedEntries es
  | [] => rfl
  | .mk key value :: es =>
      congrArg₂ List.cons (congrArg (Entry.mk key.unplaced) (mapSpans_nowhere value))
        (mapSpansEntries_nowhere es)

theorem Expr.mapSpansSegments_nowhere : ∀ ss : List Segment,
    mapSpansSegments (fun _ => .nowhere) ss = unplacedSegments ss
  | [] => rfl
  | .field _ :: ss => congrArg₂ List.cons rfl (mapSpansSegments_nowhere ss)
  | .index position :: ss =>
      congrArg₂ List.cons (congrArg Segment.index (mapSpans_nowhere position))
        (mapSpansSegments_nowhere ss)

end

theorem Segment.mapSpans_nowhere (s : Segment) : s.mapSpans (fun _ => .nowhere) = s.unplaced := by
  cases s with
  | field => rfl
  | index position => exact congrArg Segment.index position.mapSpans_nowhere

namespace Build

theorem ident_bare (t : Node) : Follows Ident.unplaced (ident t) (ident t.bare) := by
  rw [← Tree.mapSpans_nowhere]
  exact ident_mapSpans t

theorem typeSuffix_bare (t : Node) :
    Follows TypeName.unplaced (typeSuffix t) (typeSuffix t.bare) := by
  rw [← Tree.mapSpans_nowhere]
  exact typeSuffix_mapSpans t

theorem expr_bare (t : Node) : Follows Expr.unplaced (expr t) (expr t.bare) := by
  rw [← Tree.mapSpans_nowhere, ← funext Expr.mapSpans_nowhere]
  exact (mapsSpans (fun _ _ => rfl) t).expr

theorem segment_bare (t : Node) : Follows Segment.unplaced (segment t) (segment t.bare) := by
  rw [← Tree.mapSpans_nowhere, ← funext Segment.mapSpans_nowhere]
  exact (mapsSpans (fun _ _ => rfl) t).segment

theorem Follows.list {α : Type} {build : Node → Except BuildError α} {unplaced : α → α}
    (all : List Node → Except BuildError (List α)) (nil : all [] = .ok [])
    (cons : ∀ t ts, all (t :: ts) = build t >>= fun a => all ts >>= fun as => .ok (a :: as))
    (each : ∀ t, Follows unplaced (build t) (build t.bare)) (ts : List Node) :
    Follows (List.map unplaced) (all ts) (all (Tree.bares ts)) := by
  induction ts with
  | nil =>
      rw [Tree.bares, nil]
      exact follows_ok rfl
  | cons t ts ih =>
      rw [Tree.bares, cons, cons]
      exact (each t).bind fun a => ih.bind fun as => follows_ok rfl

theorem fieldDecl_bare (t : Node) :
    Follows FieldDecl.unplaced (fieldDecl t) (fieldDecl t.bare) := by
  rw [fieldDecl.eq_def t]
  split
  · rename_i sp name u rest
    refine (ident_bare name).bind fun i => (expr_bare u).bind fun e => ?_
    split
    · exact follows_ok rfl
    · exact follows_ok rfl
    · rename_i suffix other
      intro f built
      obtain ⟨T, target, done⟩ := bind_eq_ok_iff.mp built
      cases done
      have bare := typeSuffix_bare suffix T target
      obtain ⟨sp, ts, rfl⟩ := typeSuffix_node target
      rw [Tree.bare] at bare
      simp only [Tree.bares, Tree.bare, bare]
      rfl
    · rename_i suffix others none single
      obtain ⟨v, vs, rfl⟩ := List.exists_cons_of_ne_nil single
      intro f built
      obtain ⟨T, target, done⟩ := bind_eq_ok_iff.mp built
      cases done
      have bare := typeSuffix_bare suffix T target
      obtain ⟨sp, ts, rfl⟩ := typeSuffix_node target
      rw [Tree.bare] at bare
      simp only [Tree.bares, Tree.bare, bare]
      rfl
  · exact follows_error _

theorem classDecl_bare (t : Node) :
    Follows ClassDecl.unplaced (classDecl t) (classDecl t.bare) := by
  rw [classDecl.eq_def t]
  split
  · rename_i sp name ts
    have fields := Follows.list fieldDecls rfl (fun _ _ => rfl) fieldDecl_bare ts
    exact (ident_bare name).bind fun i => fields.bind fun fs => follows_ok rfl
  · exact follows_error _

theorem assignment_bare (ts : List Node) :
    Follows (fun parts => (parts.1.map Segment.unplaced, parts.2.unplaced)) (assignment ts)
      (assignment (Tree.bares ts)) := by
  induction ts with
  | nil => exact follows_error _
  | cons t ts ih =>
      cases ts with
      | nil => exact (expr_bare t).bind fun e => follows_ok rfl
      | cons u us => exact (segment_bare t).bind fun s => ih.bind fun parts => follows_ok rfl

structure StatementBared (t : Node) : Prop where
  statement : Follows Stmt.unplaced (statement t) (statement t.bare)
  construct (sp : Span) : Follows Stmt.unplaced (construct sp t) (construct .nowhere t.bare)
  block : Follows Stmt.unplacedBlock (block t) (block t.bare)
  otherwise {sp : Span} {u : Node} (same : t = .node .elseClause sp [u]) :
    Follows Stmt.unplacedBlock (Build.block u) (Build.block u.bare)

theorem statements_bare {ts : List Node} (each : ∀ t ∈ ts, StatementBared t) :
    Follows Stmt.unplacedBlock (statements ts) (statements (Tree.bares ts)) := by
  induction ts with
  | nil => exact follows_ok rfl
  | cons t ts ih =>
      rw [List.forall_mem_cons] at each
      rw [statements]
      exact each.1.statement.bind fun s => (ih each.2).bind fun ss => follows_ok rfl

section Children

variable {t : Node} (each : ∀ u ∈ t.children, StatementBared u)

include each

theorem construct_bare (sp : Span) : Follows Stmt.unplaced (construct sp t) (construct .nowhere t.bare) := by
  rw [construct.eq_def sp t]
  split
  · exact (classDecl_bare _).bind fun d => follows_ok rfl
  · exact (ident_bare _).bind fun i => (expr_bare _).bind fun e => follows_ok rfl
  · exact (expr_bare _).bind fun e => follows_ok rfl
  · exact (ident_bare _).bind fun i => (assignment_bare _).bind fun parts => follows_ok rfl
  -- Branches: the second block stands one level deeper than the first.
  · exact (expr_bare _).bind fun e => (each _ (by simp)).block.bind fun ss => follows_ok rfl
  · rename_i t yes sp' no
    have onFalse := (each (.node .elseClause sp' [no]) (by simp)).otherwise rfl
    exact (expr_bare t).bind fun e => (each yes (by simp)).block.bind fun ss =>
      onFalse.bind fun ss' => follows_ok rfl
  -- Loops.
  · exact (ident_bare _).bind fun i => (expr_bare _).bind fun e =>
      (each _ (by simp)).block.bind fun ss => follows_ok rfl
  · exact (ident_bare _).bind fun i => (ident_bare _).bind fun k => (expr_bare _).bind fun e =>
      (each _ (by simp)).block.bind fun ss => follows_ok rfl
  · exact (ident_bare _).bind fun i => (expr_bare _).bind fun e =>
      (each _ (by simp)).block.bind fun ss => follows_ok rfl
  · exact follows_error _

theorem statement_bare : Follows Stmt.unplaced (statement t) (statement t.bare) := by
  rw [statement.eq_def t]
  split
  · exact (each _ (by simp)).construct _
  · exact follows_error _

theorem block_bare : Follows Stmt.unplacedBlock (block t) (block t.bare) := by
  rw [block.eq_def t]
  split
  · exact statements_bare each
  · exact follows_error _

end Children

theorem statementBared (t : Node) : StatementBared t := by
  induction t using Tree.induct with
  | step t each =>
      refine ⟨statement_bare each, construct_bare each, block_bare each, ?_⟩
      rintro sp u rfl
      exact (each u (by simp)).block

theorem program_bare (t : Node) : Follows Program.unplaced (program t) (program t.bare) := by
  rw [program.eq_def t]
  split
  · rename_i sp ts
    have shorter : Tree.bares ts.dropLast = (Tree.bares ts).dropLast := by
      rw [Tree.bares_eq_map, Tree.bares_eq_map, List.map_dropLast]
    have each := statements_bare fun t (_ : t ∈ ts.dropLast) => statementBared t
    rw [shorter] at each
    refine each.bind fun ss => follows_ok ?_
    rw [Program.unplaced, Stmt.unplacedBlock_eq]
  · exact follows_error _

end Build

end Dil
