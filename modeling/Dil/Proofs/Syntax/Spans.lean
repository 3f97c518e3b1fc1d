import Mathlib.Data.List.Induction
import Dil.Proofs.Syntax.Built

/-!
Trees and expressions with their places changed. Building depends on places only through the least place
that covers two others: a change that respects this can be made before or after it.
-/

namespace Dil

def Ident.mapSpans (g : Span → Span) (i : Ident) : Ident := ⟨i.name, g i.span⟩

def TypeName.mapSpans (g : Span → Span) (t : TypeName) : TypeName := ⟨t.tag, g t.span⟩

section MapSpans

variable {ρ : Type} (g : Span → Span)

mutual

def Tree.mapSpans : Tree ρ → Tree ρ
  | .leaf r sp text => .leaf r (g sp) text
  | .node r sp children => .node r (g sp) (Tree.mapSpansEach children)

def Tree.mapSpansEach : List (Tree ρ) → List (Tree ρ)
  | [] => []
  | t :: ts => t.mapSpans :: Tree.mapSpansEach ts

end

mutual

/-- The expression with all places changed. -/
def Expr.mapSpans : Expr → Expr
  | .null sp => .null (g sp)
  | .bool sp b => .bool (g sp) b
  | .int sp n => .int (g sp) n
  | .float sp x => .float (g sp) x
  | .str sp s => .str (g sp) s
  | .map sp entries => .map (g sp) (Expr.mapSpansEntries entries)
  | .array sp items => .array (g sp) (Expr.mapSpansItems items)
  | .create sp className => .create (g sp) (className.mapSpans g)
  | .var sp name => .var (g sp) name
  | .path sp base segments => .path (g sp) base.mapSpans (Expr.mapSpansSegments segments)
  | .binary sp op left right => .binary (g sp) op left.mapSpans right.mapSpans
  | .unary sp op operand => .unary (g sp) op operand.mapSpans
  | .cast sp value target => .cast (g sp) value.mapSpans (target.mapSpans g)
  | .paren sp inner => .paren (g sp) inner.mapSpans

def Expr.mapSpansItems : List Expr → List Expr
  | [] => []
  | e :: es => e.mapSpans :: Expr.mapSpansItems es

def Entry.mapSpans : Entry → Entry
  | .mk key value => .mk (key.mapSpans g) value.mapSpans

def Expr.mapSpansEntries : List Entry → List Entry
  | [] => []
  | e :: es => e.mapSpans :: Expr.mapSpansEntries es

def Segment.mapSpans : Segment → Segment
  | .field name => .field (name.mapSpans g)
  | .index position => .index position.mapSpans

def Expr.mapSpansSegments : List Segment → List Segment
  | [] => []
  | s :: ss => s.mapSpans :: Expr.mapSpansSegments ss

end

theorem Tree.mapSpansEach_eq (ts : List (Tree ρ)) : mapSpansEach g ts = ts.map (mapSpans g) := by
  induction ts with
  | nil => rfl
  | cons t ts ih => rw [mapSpansEach, ih, List.map_cons]

theorem Expr.span_mapSpans (e : Expr) : (e.mapSpans g).span = g e.span := by
  cases e <;> rfl

theorem Tree.bare_mapSpans (t : Tree ρ) : (t.mapSpans g).bare = t.bare := by
  induction t using Tree.induct with
  | step t ih =>
      cases t with
      | leaf => rfl
      | node r sp ts =>
          rw [mapSpans, bare, bare, bares_eq_map, bares_eq_map, mapSpansEach_eq, List.map_map]
          exact congrArg _ (List.map_congr_left ih)

end MapSpans

namespace Build

section Follows

variable {ε α α' β β' : Type}

/-- What the first result holds, the second one holds in another form. -/
def Follows (form : α → α') (x : Except ε α) (y : Except ε α') : Prop :=
  ∀ a, x = .ok a → y = .ok (form a)

variable {form : α → α'} {form' : β → β'} {x : Except ε α} {y : Except ε α'}

theorem follows_ok {a : α} {b : α'} (same : form a = b) :
    Follows form (.ok a : Except ε α) (.ok b) := by
  rintro _ ⟨⟩
  rw [same]

theorem follows_error (e : ε) : Follows form (.error e) y := by
  intro a built
  cases built

theorem Follows.bind {f : α → Except ε β} {f' : α' → Except ε β'} (first : Follows form x y)
    (second : ∀ a, Follows form' (f a) (f' (form a))) : Follows form' (x >>= f) (y >>= f') := by
  intro b built
  obtain ⟨a, found, rest⟩ := bind_eq_ok_iff.mp built
  rw [first a found]
  exact second a b rest

theorem follows_same (x : Except ε α) : Follows id x x := fun _ found => found

end Follows

section Spans

variable {g : Span → Span}

theorem ident_mapSpans (t : Node) : Follows (Ident.mapSpans g) (ident t) (ident (t.mapSpans g)) := by
  unfold ident
  split
  · exact follows_ok rfl
  · exact follows_ok rfl
  · exact follows_error _

theorem typeSuffix_mapSpans (t : Node) :
    Follows (TypeName.mapSpans g) (typeSuffix t) (typeSuffix (t.mapSpans g)) := by
  rw [typeSuffix.eq_def t]
  split
  · rename_i sp sp' name
    rw [Tree.mapSpans, Tree.mapSpansEach, Tree.mapSpansEach, Tree.mapSpans, typeSuffix]
    split
    · exact follows_ok rfl
    · exact follows_error _
  · exact follows_error _

theorem mapKey_mapSpans (t : Node) : Follows (Ident.mapSpans g) (mapKey t) (mapKey (t.mapSpans g)) := by
  rw [mapKey.eq_def t]
  split
  · exact (follows_same _).bind fun s => follows_ok rfl
  · rename_i sp u other
    intro i found
    have changed : ident (u.mapSpans g) = .ok (i.mapSpans g) := ident_mapSpans u i found
    rw [← changed]
    unfold ident at found
    split at found
    · rfl
    · rfl
    · cases found
  · exact follows_error _

variable {ts : List Node} (merges : ∀ a b, g (a.merge b) = (g a).merge (g b))

include merges in
theorem fold_mapSpans (e : Expr) (links : Chain.Links) :
    (Chain.fold e links).mapSpans g = Chain.fold (e.mapSpans g) (Chain.formed (Expr.mapSpans g) links) :=
  Chain.fold_formed (fun op l r => by simp [Chain.join, Expr.mapSpans, Expr.span_mapSpans, merges]) e links

/-- The builders that call one another follow a change of places, on one tree. -/
structure MapsSpans (g : Span → Span) (t : Node) : Prop where
  expr : Follows (Expr.mapSpans g) (expr t) (expr (t.mapSpans g))
  primary (sp : Span) : Follows (Expr.mapSpans g) (primary sp t) (primary (g sp) (t.mapSpans g))
  segment : Follows (Segment.mapSpans g) (segment t) (segment (t.mapSpans g))
  entry : Follows (Entry.mapSpans g) (entry t) (entry (t.mapSpans g))

theorem items_mapSpans (each : ∀ t ∈ ts, MapsSpans g t) :
    Follows (Expr.mapSpansItems g) (items ts) (items (Tree.mapSpansEach g ts)) := by
  induction ts with
  | nil => exact follows_ok rfl
  | cons t ts ih =>
      rw [List.forall_mem_cons] at each
      rw [items]
      exact each.1.expr.bind fun e => (ih each.2).bind fun es => follows_ok rfl

theorem entries_mapSpans (each : ∀ t ∈ ts, MapsSpans g t) :
    Follows (Expr.mapSpansEntries g) (entries ts) (entries (Tree.mapSpansEach g ts)) := by
  induction ts with
  | nil => exact follows_ok rfl
  | cons t ts ih =>
      rw [List.forall_mem_cons] at each
      rw [entries]
      exact each.1.entry.bind fun e => (ih each.2).bind fun es => follows_ok rfl

theorem segments_mapSpans (each : ∀ t ∈ ts, MapsSpans g t) :
    Follows (Expr.mapSpansSegments g) (segments ts) (segments (Tree.mapSpansEach g ts)) := by
  induction ts with
  | nil => exact follows_ok rfl
  | cons t ts ih =>
      rw [List.forall_mem_cons] at each
      rw [segments]
      exact each.1.segment.bind fun s => (ih each.2).bind fun ss => follows_ok rfl

theorem operations_mapSpans (sp : Span) (each : ∀ t ∈ ts, MapsSpans g t) :
    Follows (Expr.mapSpans g) (operations sp ts) (operations (g sp) (Tree.mapSpansEach g ts)) := by
  induction ts with
  | nil => exact follows_error _
  | cons t ts ih =>
      rw [List.forall_mem_cons] at each
      rw [operations.eq_def sp (t :: ts)]
      split
      · rename_i same
        cases same
        exact (ih each.2).bind fun e => follows_ok rfl
      · rename_i same
        cases same
        cases t with
        | leaf => exact follows_error _
        | node => exact each.1.expr
      · exact follows_error _

theorem links_mapSpans (each : ∀ t ∈ ts, MapsSpans g t) :
    Follows (Chain.formed (Expr.mapSpans g)) (links ts) (links (Tree.mapSpansEach g ts)) := by
  induction ts using List.twoStepInduction with
  | nil => exact follows_ok rfl
  | singleton sign =>
      cases sign with
      | leaf r => cases r <;> exact follows_error _
      | node => exact follows_error _
  | cons_cons sign t ts ih _ =>
      have rest := ih fun u member => each u (by simp [member])
      rw [links.eq_def]
      split
      · rename_i same
        cases same
      · rename_i symbol _ _ same
        cases same
        rw [Tree.mapSpansEach, Tree.mapSpansEach, Tree.mapSpans, links]
        split
        · exact (each t (by simp)).expr.bind fun e => rest.bind fun ls => follows_ok rfl
        · exact follows_error _
      · exact follows_error _

theorem segment_mapSpans {t : Node} (each : ∀ u ∈ t.children, MapsSpans g u) :
    Follows (Segment.mapSpans g) (segment t) (segment (t.mapSpans g)) := by
  rw [segment.eq_def t]
  split
  · exact (ident_mapSpans _).bind fun i => follows_ok rfl
  · exact (each _ (by simp)).expr.bind fun e => follows_ok rfl
  · exact follows_error _

theorem entry_mapSpans {t : Node} (each : ∀ u ∈ t.children, MapsSpans g u) :
    Follows (Entry.mapSpans g) (entry t) (entry (t.mapSpans g)) := by
  rw [entry.eq_def t]
  split
  · exact (mapKey_mapSpans _).bind fun i => (each _ (by simp)).expr.bind fun e => follows_ok rfl
  · exact follows_error _

theorem primary_mapSpans (sp : Span) {t : Node} (each : ∀ u ∈ t.children, MapsSpans g u) :
    Follows (Expr.mapSpans g) (primary sp t) (primary (g sp) (t.mapSpans g)) := by
  rw [primary.eq_def sp t]
  split
  -- Literals, in the order of the builder.
  · exact follows_ok rfl
  · exact follows_ok rfl
  · exact (follows_same _).bind fun n => follows_ok rfl
  · exact (follows_same _).bind fun x => follows_ok rfl
  · exact (follows_same _).bind fun s => follows_ok rfl
  · exact (entries_mapSpans each).bind fun es => follows_ok rfl
  · exact (items_mapSpans each).bind fun es => follows_ok rfl
  -- New objects, names and parentheses.
  · exact (ident_mapSpans _).bind fun i => follows_ok rfl
  · exact follows_ok rfl
  · exact (each _ (by simp)).expr.bind fun e => follows_ok rfl
  · exact follows_error _

include merges in
theorem expr_mapSpans {t : Node} (each : ∀ u ∈ t.children, MapsSpans g u) :
    Follows (Expr.mapSpans g) (expr t) (expr (t.mapSpans g)) := by
  rw [expr.eq_def t]
  split
  · exact (each _ (by simp)).expr
  · exact (each _ (by simp)).expr.bind fun e => (typeSuffix_mapSpans _).bind fun T => follows_ok rfl
  · rename_i t ts
    have rest := links_mapSpans fun u member => each u (List.mem_cons_of_mem t member)
    exact (each t (by simp)).expr.bind fun e => rest.bind fun ls => follows_ok (fold_mapSpans merges e ls)
  · exact operations_mapSpans _ each
  · exact (each _ (by simp)).expr
  · rename_i t ts several
    obtain ⟨u, us, rfl⟩ := List.exists_cons_of_ne_nil several
    have path := segments_mapSpans fun v member => each v (List.mem_cons_of_mem t member)
    exact (each t (by simp)).expr.bind fun e => path.bind fun ss => follows_ok rfl
  · exact (each _ (by simp)).primary _
  · exact follows_error _

include merges in
theorem mapsSpans (t : Node) : MapsSpans g t := by
  induction t using Tree.induct with
  | step t each =>
      exact ⟨expr_mapSpans merges each, fun sp => primary_mapSpans sp each, segment_mapSpans each,
        entry_mapSpans each⟩

end Spans

end Build

end Dil
