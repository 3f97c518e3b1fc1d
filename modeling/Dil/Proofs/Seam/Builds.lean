import Dil.Proofs.Seam.Ends

namespace Dil

namespace Build

section Moves

variable {α α' β β' : Type} {n : Nat} {form : α → α'} {form' : β → β'} {x : Except BuildError α}
  {y : Except BuildError α'}

/-- What the first result holds, the second one holds in another form; and it has the same cause for a
refusal, with its place moved. -/
structure Moves (n : Nat) (form : α → α') (x : Except BuildError α) (y : Except BuildError α') : Prop where
  built : Follows form x y
  refused : ∀ e, (∀ r, e ≠ .unexpected r) → x = .error e → y = .error (e.shifted n)

theorem moves_ok {a : α} {b : α'} (same : form a = b) : Moves n form (.ok a) (.ok b) where
  built := follows_ok same
  refused _ _ none := nomatch none

theorem moves_error {e : BuildError} : Moves n form (.error e) (.error (e.shifted n)) where
  built := follows_error e
  refused := by
    rintro _ - ⟨⟩
    rfl

theorem moves_unexpected {r : Rule} : Moves n form (.error (.unexpected r)) y where
  built := follows_error _
  refused _ other same := absurd (Except.error.inj same).symm (other r)

theorem Moves.bind {f : α → Except BuildError β} {f' : α' → Except BuildError β'} (first : Moves n form x y)
    (second : ∀ a, x = .ok a → Moves n form' (f a) (f' (form a))) : Moves n form' (x >>= f) (y >>= f') := by
  cases x with
  | ok a =>
      rw [first.built a rfl]
      exact second a rfl
  | error e =>
      refine ⟨follows_error e, fun e' other same => ?_⟩
      cases same
      rw [first.refused e other rfl]
      rfl

theorem intLiteral_moves (literal : List Char) : Moves n id (intLiteral literal) (intLiteral literal) := by
  simp only [intLiteral]
  split
  · exact moves_ok rfl
  · exact moves_error

theorem floatLiteral_moves (literal : List Char) :
    Moves n id (floatLiteral literal) (floatLiteral literal) := by
  unfold floatLiteral
  split
  · exact moves_ok rfl
  · exact moves_error

theorem stringInside_moves (inside : List Char) : Moves n id (stringInside inside) (stringInside inside) := by
  unfold stringInside
  split
  · exact moves_ok rfl
  · exact moves_error

end Moves

section Signs

variable {sp sp₁ sp₂ : Span} {a : Node} {signs path : List Node} {e : Expr}

theorem trails_of_primary (built : primary sp a = .ok e) : e.trails = true := by
  unfold primary at built
  split at built <;> first | cases built | obtain ⟨_, -, built⟩ := bind_eq_ok_iff.mp built
  all_goals first | rfl | (cases built; rfl)

theorem trails_of_postfix (built : expr (.node .postfixExpr sp (.node .primaryExpr sp₁ [a] :: path)) = .ok e) :
    e.trails = path.isEmpty := by
  cases path with
  | nil =>
      rw [expr, expr] at built
      exact trails_of_primary built
  | cons s path =>
      rw [expr] at built
      · obtain ⟨_, -, built⟩ := bind_eq_ok_iff.mp built
        obtain ⟨_, -, done⟩ := bind_eq_ok_iff.mp built
        cases done
        rfl
      · exact List.cons_ne_nil s path

theorem trails_of_operations (each : ∀ sign ∈ signs, ∃ sp text, sign = .leaf .unaryOp sp text)
    (built : operations sp (signs ++ [.node .postfixExpr sp₁ (.node .primaryExpr sp₂ [a] :: path)]) = .ok e) :
    e.trails = path.isEmpty := by
  induction signs generalizing e with
  | nil =>
      rw [List.nil_append, operations] at built
      · exact trails_of_postfix built
      · intro _ _ same
        cases same
  | cons sign signs ih =>
      rw [List.forall_mem_cons] at each
      obtain ⟨⟨_, _, rfl⟩, each⟩ := each
      rw [List.cons_append, operations] at built
      obtain ⟨operand, found, done⟩ := bind_eq_ok_iff.mp built
      cases done
      rw [Expr.trails]
      exact ih each found

end Signs

section Beside

variable {S : Seam} {n size : Nat}

/-- The builders that call one another, on one tree and on those beside it. -/
structure MovesBeside (S : Seam) (n size : Nat) (t : Node) : Prop where
  expr {t' : Node} (beside : S.Beside t t') : Moves n (Expr.moved n size) (expr t) (expr t')
  primary (sp : Span) {t' : Node} (beside : S.Beside t t') :
    Moves n (Expr.moved n size) (primary sp t) (primary (sp.shifted n) t')
  segment {t' : Node} (beside : S.Beside t t') : Moves n (Segment.moved n size) (segment t) (segment t')
  entry {t' : Node} (beside : S.Beside t t') : Moves n (Entry.moved n size) (entry t) (entry t')

section Lists

variable {ts us : List Node} (each : ∀ t ∈ ts, MovesBeside S n size t) (beside : List.Forall₂ S.Beside ts us)

include each beside

theorem items_moves : Moves n (Expr.movedItems n size) (items ts) (items us) := by
  induction beside with
  | nil => exact moves_ok rfl
  | cons head _ ih =>
      rw [List.forall_mem_cons] at each
      rw [items, items]
      exact (each.1.expr head).bind fun e _ => (ih each.2).bind fun es _ => moves_ok rfl

theorem entries_moves : Moves n (Expr.movedEntries n size) (entries ts) (entries us) := by
  induction beside with
  | nil => exact moves_ok rfl
  | cons head _ ih =>
      rw [List.forall_mem_cons] at each
      rw [entries, entries]
      exact (each.1.entry head).bind fun e _ => (ih each.2).bind fun es _ => moves_ok rfl

theorem segments_moves : Moves n (Expr.movedSegments n size) (segments ts) (segments us) := by
  induction beside with
  | nil => exact moves_ok rfl
  | cons head _ ih =>
      rw [List.forall_mem_cons] at each
      rw [segments, segments]
      exact (each.1.segment head).bind fun s _ => (ih each.2).bind fun ss _ => moves_ok rfl

end Lists

/-- The signs and their operand share one place, which depends on how the operand ends. -/
theorem operations_moves {sp sp' : Span} {ts us : List Node} (each : ∀ t ∈ ts, MovesBeside S n size t)
    (beside : List.Forall₂ S.Beside ts us)
    (place : ∀ e, operations sp ts = .ok e → sp' = sp.moved n size e.trails) :
    Moves n (Expr.moved n size) (operations sp ts) (operations sp' us) := by
  induction beside with
  | nil => exact moves_unexpected
  | @cons t t' ts us head tail ih =>
      rw [List.forall_mem_cons] at each
      rw [operations.eq_def sp (t :: ts)]
      split
      · rename_i symbol _ same
        cases same
        cases head
        rw [operations]
        have place' (e : Expr) (built : operations sp ts = .ok e) : sp' = sp.moved n size e.trails :=
          place (.unary sp (if symbol = ['!'] then .not else .neg) e) (by rw [operations, built]; rfl)
        refine (ih each.2 place').bind fun e built => moves_ok ?_
        rw [Expr.moved, place' e built]
      · rename_i same
        cases same
        cases tail
        have operand := each.1.expr head
        cases head with
        | leaf => exact moves_unexpected
        | quoted | node => exact operand
      · exact moves_unexpected

theorem links_moves {ts us : List Node} (each : ∀ t ∈ ts, MovesBeside S n size t)
    (beside : List.Forall₂ S.Beside ts us) :
    Moves n (Chain.formed (Expr.moved n size)) (links ts) (links us) := by
  induction ts using List.twoStepInduction generalizing us with
  | nil =>
      cases beside
      exact moves_ok rfl
  | singleton sign =>
      cases sign with
      | leaf r => cases r <;> exact moves_unexpected
      | node => exact moves_unexpected
  | cons_cons sign t ts ih _ =>
      obtain - | ⟨sign, - | ⟨head, tail⟩⟩ := beside
      have rest := ih (fun u member => each u (by simp [member])) tail
      rw [links.eq_def]
      split
      · rename_i same
        cases same
      · rename_i symbol _ _ same
        cases same
        cases sign
        rw [links]
        split
        · exact ((each t (by simp)).expr head).bind fun e _ => rest.bind fun ls _ => moves_ok rfl
        · exact moves_unexpected
      · exact moves_unexpected

variable (closes : S.Closes n size)

include closes

theorem ident_moves {t t' : Node} (beside : S.Beside t t') :
    Moves n (Ident.shifted n) (ident t) (ident t') := by
  rw [ident.eq_def t]
  split
  · cases beside with
    | leaf start stop => exact moves_ok (by rw [closes.shifted start stop]; rfl)
  · cases beside with
    | leaf start stop => exact moves_ok (by rw [closes.shifted start stop]; rfl)
  · exact moves_unexpected

theorem typeSuffix_moves {t t' : Node} (beside : S.Beside t t') :
    Moves n (TypeName.shifted n) (typeSuffix t) (typeSuffix t') := by
  rw [typeSuffix.eq_def t]
  split
  · cases beside with
    | node _ _ _ _ _ inside =>
        obtain - | ⟨⟨start, stop⟩, - | _⟩ := inside
        rw [typeSuffix, closes.shifted start stop]
        split
        · exact moves_ok rfl
        · exact moves_error
  · exact moves_unexpected

theorem mapKey_moves {t t' : Node} (beside : S.Beside t t') :
    Moves n (Ident.shifted n) (mapKey t) (mapKey t') := by
  rw [mapKey.eq_def t]
  split
  · have place := closes.span_of_shut rfl (by decide) beside
    obtain ⟨sp', _, rfl, literal, -⟩ := Tree.bare_eq_one beside.bare
    obtain ⟨_, _, rfl, inner, -⟩ := Tree.bare_eq_one literal
    obtain ⟨⟨_, rfl⟩, -⟩ := Tree.bare_eq_leaf inner
    cases place
    exact (stringInside_moves _).bind fun s _ => moves_ok rfl
  · rename_i u other
    cases beside with
    | node _ _ _ _ _ inside =>
        obtain - | ⟨first, - | _⟩ := inside
        have name := ident_moves closes first
        cases first with
        | leaf => exact name
        | quoted | node => exact moves_unexpected
  · exact moves_unexpected

section Children

variable {t t' : Node} (each : ∀ u ∈ t.children, MovesBeside S n size u) (beside : S.Beside t t')

include each beside

theorem segment_moves : Moves n (Segment.moved n size) (segment t) (segment t') := by
  rw [segment.eq_def t]
  split
  · obtain ⟨_, _, rfl, name⟩ := beside.under_one (by decide)
    rw [segment]
    exact (ident_moves closes name).bind fun i _ => moves_ok rfl
  · obtain ⟨_, _, rfl, position⟩ := beside.under_one (by decide)
    rw [segment]
    exact ((each _ (by simp)).expr position).bind fun e _ => moves_ok rfl
  · exact moves_unexpected

theorem entry_moves : Moves n (Entry.moved n size) (entry t) (entry t') := by
  rw [entry.eq_def t]
  split
  · obtain ⟨_, _, _, rfl, key, value⟩ := beside.under_two (by decide)
    rw [entry]
    exact (mapKey_moves closes key).bind fun i _ =>
      ((each _ (by simp)).expr value).bind fun e _ => moves_ok rfl
  · exact moves_unexpected

theorem primary_moves (sp : Span) :
    Moves n (Expr.moved n size) (primary sp t) (primary (sp.shifted n) t') := by
  rw [primary.eq_def sp t]
  split
  -- Literals, in the order of the builder.
  · cases beside
    exact moves_ok rfl
  · cases beside
    exact moves_ok rfl
  · cases beside
    exact (intLiteral_moves _).bind fun i _ => moves_ok rfl
  · cases beside
    exact (floatLiteral_moves _).bind fun x _ => moves_ok rfl
  · obtain ⟨_, _, rfl, inner, -⟩ := Tree.bare_eq_one beside.bare
    obtain ⟨⟨_, rfl⟩, -⟩ := Tree.bare_eq_leaf inner
    exact (stringInside_moves _).bind fun s _ => moves_ok rfl
  · obtain ⟨_, _, rfl, inside⟩ := beside.under (by decide)
    rw [primary]
    exact (entries_moves each inside).bind fun es _ => moves_ok rfl
  · obtain ⟨_, _, rfl, inside⟩ := beside.under (by decide)
    rw [primary]
    exact (items_moves each inside).bind fun es _ => moves_ok rfl
  -- New objects, names and parentheses.
  · obtain ⟨_, _, rfl, name⟩ := beside.under_one (by decide)
    rw [primary]
    exact (ident_moves closes name).bind fun i _ => moves_ok rfl
  · cases beside
    exact moves_ok rfl
  · obtain ⟨_, _, rfl, inner⟩ := beside.under_one (by decide)
    rw [primary]
    exact ((each _ (by simp)).expr inner).bind fun e _ => moves_ok rfl
  · exact moves_unexpected

theorem expr_moves : Moves n (Expr.moved n size) (expr t) (expr t') := by
  rw [expr.eq_def t]
  split
  · obtain ⟨_, _, rfl, inner⟩ := beside.under_one (by decide)
    rw [expr]
    exact (each _ (by simp)).expr inner
  · have place := closes.span_of_cast beside
    obtain ⟨_, _, _, rfl, value, suffix⟩ := beside.under_two (by decide)
    cases place
    rw [expr]
    exact ((each _ (by simp)).expr value).bind fun e _ =>
      (typeSuffix_moves closes suffix).bind fun T _ => moves_ok rfl
  · rename_i t ts
    obtain ⟨_, _, _, rfl, first, others⟩ := beside.under_cons (by decide)
    have rest := links_moves (fun u member => each u (List.mem_cons_of_mem t member)) others
    rw [expr]
    exact ((each t (by simp)).expr first).bind fun e _ =>
      rest.bind fun ls _ => moves_ok (Chain.fold_moved n size e ls)
  · obtain ⟨signs, _, _, path, rfl, signed, ⟨_, _, rfl⟩, place⟩ := closes.span_of_signed beside
    obtain ⟨sp', _, rfl, inside⟩ := beside.under (by decide)
    rw [expr]
    refine operations_moves each inside fun e built => ?_
    rw [trails_of_operations signed built]
    exact place
  · obtain ⟨_, _, rfl, inner⟩ := beside.under_one (by decide)
    rw [expr]
    exact (each _ (by simp)).expr inner
  · rename_i t ts several
    have place := closes.span_of_postfix beside
    obtain ⟨sp', _, us, rfl, base, inside⟩ := beside.under_cons (by decide)
    rw [List.isEmpty_eq_false_iff.mpr several] at place
    cases place
    have path := segments_moves (fun u member => each u (List.mem_cons_of_mem t member)) inside
    rw [expr]
    · exact ((each t (by simp)).expr base).bind fun e _ => path.bind fun ss _ => moves_ok rfl
    · rintro rfl
      exact several (List.forall₂_nil_right_iff.mp inside)
  · have place := closes.span_of_shut rfl (by decide) beside
    obtain ⟨_, _, rfl, inner⟩ := beside.under_one (by decide)
    cases place
    rw [expr]
    exact (each _ (by simp)).primary _ inner
  · exact moves_unexpected

end Children

theorem movesBeside (t : Node) : MovesBeside S n size t := by
  induction t using Tree.induct with
  | step t each =>
      exact ⟨expr_moves closes each, fun sp _ beside => primary_moves closes each beside sp,
        segment_moves closes each, entry_moves closes each⟩

end Beside

end Build

end Dil
