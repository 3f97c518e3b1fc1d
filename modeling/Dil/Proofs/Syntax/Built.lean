import Mathlib.Data.List.Forall2
import Dil.Proofs.Syntax.Unplaced

namespace Dil

theorem bind_eq_ok_iff {ε α β : Type} {x : Except ε α} {f : α → Except ε β} {b : β} :
    (x >>= f) = .ok b ↔ ∃ a, x = .ok a ∧ f a = .ok b := by
  cases x with
  | ok a => exact ⟨fun done => ⟨a, rfl, done⟩, fun ⟨_, same, done⟩ => by cases same; exact done⟩
  | error e => exact ⟨nofun, fun ⟨_, same, _⟩ => by cases same⟩

namespace Tree

variable {ρ : Type}

def children : Tree ρ → List (Tree ρ)
  | .leaf .. => []
  | .node _ _ ts => ts

@[simp] theorem children_node (r : ρ) (sp : Span) (ts : List (Tree ρ)) :
    (Tree.node r sp ts).children = ts := rfl

/-- Induction over a tree, with all its children at once. -/
theorem induct {motive : Tree ρ → Prop} (step : ∀ t, (∀ u ∈ t.children, motive u) → motive t)
    (t : Tree ρ) : motive t :=
  @Tree.rec ρ motive (fun ts => ∀ t ∈ ts, motive t) (fun r sp text => step (.leaf r sp text) nofun)
    (fun r sp ts each => step (.node r sp ts) each) nofun
    (fun _ _ head tail => List.forall_mem_cons.mpr ⟨head, tail⟩) t

theorem bares_eq_map (ts : List (Tree ρ)) : bares ts = ts.map bare := by
  induction ts with
  | nil => rfl
  | cons t ts ih => rw [bares, ih, List.map_cons]

theorem bare_eq_leaf {t : Tree ρ} {r : ρ} {sp : Span} {text : List Char}
    (same : t.bare = .leaf r sp text) : (∃ sp', t = .leaf r sp' text) ∧ sp = .nowhere := by
  cases t with
  | leaf r' sp' text' =>
      cases same
      exact ⟨⟨sp', rfl⟩, rfl⟩
  | node r' sp' ts => cases same

theorem bare_eq_node {t : Tree ρ} {r : ρ} {sp : Span} {us : List (Tree ρ)}
    (same : t.bare = .node r sp us) :
    (∃ sp' ts, t = .node r sp' ts ∧ bares ts = us) ∧ sp = .nowhere := by
  cases t with
  | leaf r' sp' text' => cases same
  | node r' sp' ts =>
      cases same
      exact ⟨⟨sp', ts, rfl, rfl⟩, rfl⟩

theorem bares_eq_cons {ts us : List (Tree ρ)} {u : Tree ρ} (same : bares ts = u :: us) :
    ∃ t ts', ts = t :: ts' ∧ t.bare = u ∧ bares ts' = us := by
  cases ts with
  | nil => cases same
  | cons t ts =>
      cases same
      exact ⟨t, ts, rfl, rfl, rfl⟩

theorem bares_eq_nil {ts : List (Tree ρ)} (same : bares ts = []) : ts = [] := by
  cases ts with
  | nil => rfl
  | cons t ts => cases same

theorem bares_eq_singleton {ts : List (Tree ρ)} {u : Tree ρ} (same : bares ts = [u]) :
    ∃ t, ts = [t] ∧ t.bare = u := by
  obtain ⟨t, ts', rfl, head, none⟩ := bares_eq_cons same
  cases bares_eq_nil none
  exact ⟨t, rfl, head⟩

-- What stands below a node whose bare form is known.

section Below

variable {t u v w : Tree ρ} {us : List (Tree ρ)} {r : ρ} {sp : Span}

theorem bare_eq_cons (same : t.bare = .node r sp (u :: us)) :
    ∃ sp' v ts, t = .node r sp' (v :: ts) ∧ v.bare = u ∧ bares ts = us ∧ sp = .nowhere := by
  obtain ⟨⟨sp', ts, rfl, children⟩, place⟩ := bare_eq_node same
  obtain ⟨v, ts', rfl, head, tail⟩ := bares_eq_cons children
  exact ⟨sp', v, ts', rfl, head, tail, place⟩

theorem bare_eq_one (same : t.bare = .node r sp [u]) :
    ∃ sp' a, t = .node r sp' [a] ∧ a.bare = u ∧ sp = .nowhere := by
  obtain ⟨sp', a, ts, rfl, head, tail, place⟩ := bare_eq_cons same
  cases bares_eq_nil tail
  exact ⟨sp', a, rfl, head, place⟩

theorem bare_eq_two (same : t.bare = .node r sp [u, v]) :
    ∃ sp' a b, t = .node r sp' [a, b] ∧ a.bare = u ∧ b.bare = v ∧ sp = .nowhere := by
  obtain ⟨sp', a, ts, rfl, first, tail, place⟩ := bare_eq_cons same
  obtain ⟨b, rfl, second⟩ := bares_eq_singleton tail
  exact ⟨sp', a, b, rfl, first, second, place⟩

theorem bare_eq_three (same : t.bare = .node r sp [u, v, w]) :
    ∃ sp' a b c, t = .node r sp' [a, b, c] ∧ a.bare = u ∧ b.bare = v ∧ c.bare = w
      ∧ sp = .nowhere := by
  obtain ⟨sp', a, ts, rfl, first, tail, place⟩ := bare_eq_cons same
  obtain ⟨b, ts', rfl, second, rest⟩ := bares_eq_cons tail
  obtain ⟨c, rfl, third⟩ := bares_eq_singleton rest
  exact ⟨sp', a, b, c, rfl, first, second, third, place⟩

end Below

end Tree

namespace Build

section Lists

variable {α : Type} {build : Node → Except BuildError α} {all : List Node → Except BuildError (List α)}
  {ts : List Node}

theorem built_list_iff {as : List α} (nil : all [] = .ok [])
    (cons : ∀ t ts, all (t :: ts) = build t >>= fun a => all ts >>= fun as => .ok (a :: as)) :
    all ts = .ok as ↔ List.Forall₂ (fun t a => build t = .ok a) ts as := by
  induction ts generalizing as with
  | nil =>
      rw [nil]
      constructor
      · rintro ⟨⟩
        exact .nil
      · rintro ⟨⟩
        rfl
  | cons t ts ih =>
      simp only [cons, bind_eq_ok_iff, ih]
      constructor
      · rintro ⟨a, head, as, tail, ⟨⟩⟩
        exact .cons head tail
      · rintro (_ | ⟨head, tail⟩)
        exact ⟨_, head, _, tail, rfl⟩

theorem items_ok_iff {es : List Expr} :
    items ts = .ok es ↔ List.Forall₂ (fun t e => expr t = .ok e) ts es :=
  built_list_iff rfl fun _ _ => rfl

theorem entries_ok_iff {es : List Entry} :
    entries ts = .ok es ↔ List.Forall₂ (fun t e => entry t = .ok e) ts es :=
  built_list_iff rfl fun _ _ => rfl

theorem segments_ok_iff {ss : List Segment} :
    segments ts = .ok ss ↔ List.Forall₂ (fun t s => segment t = .ok s) ts ss :=
  built_list_iff rfl fun _ _ => rfl

theorem fieldDecls_ok_iff {fs : List FieldDecl} :
    fieldDecls ts = .ok fs ↔ List.Forall₂ (fun t f => fieldDecl t = .ok f) ts fs :=
  built_list_iff rfl fun _ _ => rfl

theorem statements_ok_iff {ss : List Stmt} :
    statements ts = .ok ss ↔ List.Forall₂ (fun t s => statement t = .ok s) ts ss :=
  built_list_iff rfl fun _ _ => rfl

end Lists

/-- What is built of the tree without its places is built of the tree, up to places. -/
def Keeps {α : Type} (build : Node → Except BuildError α) (unplaced : α → α) (t : Node) : Prop :=
  ∀ a, build t.bare = .ok a → ∃ b, build t = .ok b ∧ unplaced b = a

theorem keeps_list {α : Type} {build : Node → Except BuildError α} {unplaced : α → α}
    {ts : List Node} (each : ∀ t ∈ ts, Keeps build unplaced t) {as : List α}
    (built : List.Forall₂ (fun t a => build t = .ok a) (Tree.bares ts) as) :
    ∃ bs, List.Forall₂ (fun t b => build t = .ok b) ts bs ∧ bs.map unplaced = as := by
  induction ts generalizing as with
  | nil =>
      cases built
      exact ⟨[], .nil, rfl⟩
  | cons t ts ih =>
      rw [Tree.bares] at built
      cases built with
      | cons head tail =>
          obtain ⟨b, first, rfl⟩ := each t List.mem_cons_self _ head
          obtain ⟨bs, others, rfl⟩ := ih (fun u member => each u (List.mem_cons_of_mem _ member)) tail
          exact ⟨b :: bs, .cons first others, rfl⟩

theorem ident_keeps (t : Node) : Keeps ident Ident.unplaced t := by
  intro a built
  unfold ident at built
  split at built
  · rename_i sp name same
    obtain ⟨⟨sp', rfl⟩, rfl⟩ := Tree.bare_eq_leaf same
    cases built
    exact ⟨_, rfl, rfl⟩
  · rename_i sp name same
    obtain ⟨⟨sp', rfl⟩, rfl⟩ := Tree.bare_eq_leaf same
    cases built
    exact ⟨_, rfl, rfl⟩
  · cases built

theorem typeSuffix_keeps (t : Node) : Keeps typeSuffix TypeName.unplaced t := by
  intro a built
  unfold typeSuffix at built
  split at built
  · rename_i sp sp' name same
    obtain ⟨sp₁, u, rfl, leaf, rfl⟩ := Tree.bare_eq_one same
    obtain ⟨⟨sp₂, rfl⟩, rfl⟩ := Tree.bare_eq_leaf leaf
    split at built
    · rename_i tag found
      cases built
      exact ⟨⟨tag, sp₂⟩, by simp [typeSuffix, found], rfl⟩
    · cases built
  · cases built

theorem mapKey_keeps (t : Node) : Keeps mapKey Ident.unplaced t := by
  intro a built
  unfold mapKey at built
  split at built
  · rename_i sp sp' sp'' inside same
    obtain ⟨sp₁, u, rfl, literal, rfl⟩ := Tree.bare_eq_one same
    obtain ⟨⟨sp₂, us, rfl, parts⟩, rfl⟩ := Tree.bare_eq_node literal
    obtain ⟨w, rfl, leaf⟩ := Tree.bares_eq_singleton parts
    obtain ⟨⟨sp₃, rfl⟩, rfl⟩ := Tree.bare_eq_leaf leaf
    obtain ⟨s, read, done⟩ := bind_eq_ok_iff.mp built
    cases done
    exact ⟨⟨s, sp₁⟩, by simp [mapKey, read]; rfl, rfl⟩
  · rename_i sp u other same
    obtain ⟨sp₁, u, rfl, rfl, rfl⟩ := Tree.bare_eq_one same
    obtain ⟨i, found, same⟩ := ident_keeps u a built
    refine ⟨i, ?_, same⟩
    rw [← found]
    unfold ident at found
    split at found
    · rfl
    · rfl
    · cases found
  · cases built

/-- The builders that call one another, on one tree. -/
structure Kept (t : Node) : Prop where
  expr : Keeps expr Expr.unplaced t
  primary (sp : Span) :
    ∀ a, primary .nowhere t.bare = .ok a → ∃ b, primary sp t = .ok b ∧ b.unplaced = a
  segment : Keeps segment Segment.unplaced t
  entry : Keeps entry Entry.unplaced t

section Kept

variable {ts : List Node}

theorem links_keeps {ls : Chain.Links} : ∀ ts : List Node, (∀ t ∈ ts, Kept t) →
    links (Tree.bares ts) = .ok ls → ∃ ms, links ts = .ok ms ∧ Chain.unplaced ms = ls
  | [], _, built => by
      cases built
      exact ⟨[], rfl, rfl⟩
  | [t], _, built => by
      cases t with
      | leaf r sp text => cases r <;> cases built
      | node r sp us => cases built
  | sign :: t :: ts, each, built => by
      cases sign with
      | node r sp us => cases built
      | leaf r sp symbol =>
          cases r with
          | binaryOp =>
              simp only [Tree.bares, Tree.bare, links] at built
              split at built
              · rename_i op found
                obtain ⟨e, operand, built⟩ := bind_eq_ok_iff.mp built
                obtain ⟨ls, others, done⟩ := bind_eq_ok_iff.mp built
                cases done
                obtain ⟨f, first, rfl⟩ := (each t (by simp)).expr e operand
                obtain ⟨ms, rest, rfl⟩ := links_keeps ts (fun u member => each u (by simp [member])) others
                refine ⟨(op, f) :: ms, ?_, rfl⟩
                simp only [links, found, first, rest]
                rfl
              · cases built
          | _ => cases built

theorem operations_keeps (sp : Span) {e : Expr} (each : ∀ t ∈ ts, Kept t)
    (built : operations .nowhere (Tree.bares ts) = .ok e) :
    ∃ f, operations sp ts = .ok f ∧ f.unplaced = e := by
  induction ts generalizing e with
  | nil => cases built
  | cons t ts ih =>
      unfold operations at built
      split at built
      · rename_i sp₁ symbol us same
        obtain ⟨t', ts', whole, leaf, rfl⟩ := Tree.bares_eq_cons same
        cases whole
        obtain ⟨⟨sp₂, rfl⟩, rfl⟩ := Tree.bare_eq_leaf leaf
        obtain ⟨g, inner, done⟩ := bind_eq_ok_iff.mp built
        cases done
        obtain ⟨f, operand, rfl⟩ := ih (fun u member => each u (by simp [member])) inner
        refine ⟨.unary sp (if symbol = ['!'] then .not else .neg) f, ?_, rfl⟩
        simp only [operations, operand]
        rfl
      · rename_i u other same
        obtain ⟨t', whole, rfl⟩ := Tree.bares_eq_singleton same
        cases whole
        obtain ⟨f, found, rfl⟩ := (each t (by simp)).expr _ built
        refine ⟨f, ?_, rfl⟩
        cases t with
        | leaf r sp text => simp [expr] at found
        | node r sp us => simp [operations, found]
      · cases built

theorem items_keeps (each : ∀ t ∈ ts, Kept t) {es : List Expr}
    (built : items (Tree.bares ts) = .ok es) :
    ∃ fs, items ts = .ok fs ∧ Expr.unplacedItems fs = es := by
  obtain ⟨fs, parts, same⟩ := keeps_list (fun t member => (each t member).expr)
    (items_ok_iff.mp built)
  exact ⟨fs, items_ok_iff.mpr parts, by rw [Expr.unplacedItems_eq, same]⟩

theorem entries_keeps (each : ∀ t ∈ ts, Kept t) {es : List Entry}
    (built : entries (Tree.bares ts) = .ok es) :
    ∃ fs, entries ts = .ok fs ∧ Expr.unplacedEntries fs = es := by
  obtain ⟨fs, parts, same⟩ := keeps_list (fun t member => (each t member).entry)
    (entries_ok_iff.mp built)
  exact ⟨fs, entries_ok_iff.mpr parts, by rw [Expr.unplacedEntries_eq, same]⟩

theorem segments_keeps (each : ∀ t ∈ ts, Kept t) {ss : List Segment}
    (built : segments (Tree.bares ts) = .ok ss) :
    ∃ fs, segments ts = .ok fs ∧ Expr.unplacedSegments fs = ss := by
  obtain ⟨fs, parts, same⟩ := keeps_list (fun t member => (each t member).segment)
    (segments_ok_iff.mp built)
  exact ⟨fs, segments_ok_iff.mpr parts, by rw [Expr.unplacedSegments_eq, same]⟩

end Kept

section Node

variable {r : Rule} {sp : Span} {ts : List Node}

theorem expr_keeps (each : ∀ t ∈ ts, Kept t) : Keeps expr Expr.unplaced (.node r sp ts) := by
  intro a built
  unfold expr at built
  split at built
  · rename_i sp₁ u same
    obtain ⟨_, t, ⟨⟩, rfl, -⟩ := Tree.bare_eq_one same
    obtain ⟨e, found, rfl⟩ := (each t (by simp)).expr a built
    exact ⟨e, by rw [expr, found], rfl⟩
  · rename_i sp₁ u w same
    obtain ⟨_, t, suffix, ⟨⟩, rfl, rfl, rfl⟩ := Tree.bare_eq_two same
    obtain ⟨e, value, built⟩ := bind_eq_ok_iff.mp built
    obtain ⟨T, target, done⟩ := bind_eq_ok_iff.mp built
    cases done
    obtain ⟨f, found, rfl⟩ := (each t (by simp)).expr e value
    obtain ⟨U, cast, rfl⟩ := typeSuffix_keeps suffix T target
    refine ⟨.cast sp f U, ?_, rfl⟩
    simp only [expr, found, cast]
    rfl
  · rename_i sp₁ u us same
    obtain ⟨_, t, ts', ⟨⟩, rfl, rfl, rfl⟩ := Tree.bare_eq_cons same
    obtain ⟨e, first, built⟩ := bind_eq_ok_iff.mp built
    obtain ⟨ls, rest, done⟩ := bind_eq_ok_iff.mp built
    cases done
    obtain ⟨f, found, rfl⟩ := (each t (by simp)).expr e first
    obtain ⟨ms, others, rfl⟩ := links_keeps ts' (fun u member => each u (by simp [member])) rest
    refine ⟨Chain.fold f ms, ?_, Chain.fold_unplaced f ms⟩
    simp only [expr, found, others]
    rfl
  · rename_i sp₁ us same
    obtain ⟨⟨sp₂, ts', whole, rfl⟩, rfl⟩ := Tree.bare_eq_node same
    cases whole
    obtain ⟨f, found, rfl⟩ := operations_keeps sp each built
    exact ⟨f, by rw [expr, found], rfl⟩
  · rename_i sp₁ u same
    obtain ⟨_, t, ⟨⟩, rfl, -⟩ := Tree.bare_eq_one same
    obtain ⟨e, found, rfl⟩ := (each t (by simp)).expr a built
    exact ⟨e, by rw [expr, found], rfl⟩
  · rename_i sp₁ u us several same
    obtain ⟨_, t, ts', ⟨⟩, rfl, rfl, rfl⟩ := Tree.bare_eq_cons same
    obtain ⟨e, base, built⟩ := bind_eq_ok_iff.mp built
    obtain ⟨ss, path, done⟩ := bind_eq_ok_iff.mp built
    cases done
    obtain ⟨f, found, rfl⟩ := (each t (by simp)).expr e base
    obtain ⟨ss', steps, rfl⟩ := segments_keeps (fun u member => each u (by simp [member])) path
    refine ⟨.path sp f ss', ?_, rfl⟩
    cases ts' with
    | nil => exact (several rfl).elim
    | cons u us =>
        simp only [expr, found, steps]
        rfl
  · rename_i sp₁ u same
    obtain ⟨_, t, ⟨⟩, rfl, rfl⟩ := Tree.bare_eq_one same
    obtain ⟨e, found, rfl⟩ := (each t (by simp)).primary sp a built
    exact ⟨e, by rw [expr, found], rfl⟩
  · cases built

theorem primary_keeps (each : ∀ t ∈ ts, Kept t) (place : Span) (a : Expr)
    (built : primary .nowhere (Tree.bare (.node r sp ts)) = .ok a) :
    ∃ b, primary place (.node r sp ts) = .ok b ∧ b.unplaced = a := by
  unfold primary at built
  split at built
  · rename_i sp₁ text same
    cases same
  · rename_i sp₁ text same
    cases same
  · rename_i sp₁ text same
    cases same
  · rename_i sp₁ text same
    cases same
  · rename_i sp₁ sp₂ inside same
    obtain ⟨_, t, ⟨⟩, leaf, -⟩ := Tree.bare_eq_one same
    obtain ⟨⟨sp₄, rfl⟩, -⟩ := Tree.bare_eq_leaf leaf
    obtain ⟨s, read, done⟩ := bind_eq_ok_iff.mp built
    cases done
    exact ⟨.str place s, by simp only [primary, read]; rfl, rfl⟩
  · rename_i sp₁ us same
    obtain ⟨⟨sp₃, us, whole, rfl⟩, -⟩ := Tree.bare_eq_node same
    cases whole
    obtain ⟨es, found, done⟩ := bind_eq_ok_iff.mp built
    cases done
    obtain ⟨fs, parts, rfl⟩ := entries_keeps each found
    exact ⟨.map place fs, by simp only [primary, parts]; rfl, rfl⟩
  · rename_i sp₁ us same
    obtain ⟨⟨sp₃, us, whole, rfl⟩, -⟩ := Tree.bare_eq_node same
    cases whole
    obtain ⟨es, found, done⟩ := bind_eq_ok_iff.mp built
    cases done
    obtain ⟨fs, parts, rfl⟩ := items_keeps each found
    exact ⟨.array place fs, by simp only [primary, parts]; rfl, rfl⟩
  · rename_i sp₁ u same
    obtain ⟨_, t, ⟨⟩, rfl, -⟩ := Tree.bare_eq_one same
    obtain ⟨i, found, done⟩ := bind_eq_ok_iff.mp built
    cases done
    obtain ⟨j, name, rfl⟩ := ident_keeps t i found
    exact ⟨.create place j, by simp only [primary, name]; rfl, rfl⟩
  · rename_i sp₁ text same
    cases same
  · rename_i sp₁ u same
    obtain ⟨_, t, ⟨⟩, rfl, -⟩ := Tree.bare_eq_one same
    obtain ⟨e, found, done⟩ := bind_eq_ok_iff.mp built
    cases done
    obtain ⟨f, inner, rfl⟩ := (each t (by simp)).expr e found
    exact ⟨.paren place f, by simp only [primary, inner]; rfl, rfl⟩
  · cases built

theorem segment_keeps (each : ∀ t ∈ ts, Kept t) :
    Keeps segment Segment.unplaced (.node r sp ts) := by
  intro a built
  unfold segment at built
  split at built
  · rename_i sp₁ u same
    obtain ⟨_, t, ⟨⟩, rfl, -⟩ := Tree.bare_eq_one same
    obtain ⟨i, found, done⟩ := bind_eq_ok_iff.mp built
    cases done
    obtain ⟨j, name, rfl⟩ := ident_keeps t i found
    exact ⟨.field j, by simp only [segment, name]; rfl, rfl⟩
  · rename_i sp₁ u same
    obtain ⟨_, t, ⟨⟩, rfl, -⟩ := Tree.bare_eq_one same
    obtain ⟨e, found, done⟩ := bind_eq_ok_iff.mp built
    cases done
    obtain ⟨f, inner, rfl⟩ := (each t (by simp)).expr e found
    exact ⟨.index f, by simp only [segment, inner]; rfl, rfl⟩
  · cases built

theorem entry_keeps (each : ∀ t ∈ ts, Kept t) :
    Keeps entry Entry.unplaced (.node r sp ts) := by
  intro a built
  unfold entry at built
  split at built
  · rename_i sp₁ u w same
    obtain ⟨_, key, t, ⟨⟩, rfl, rfl, -⟩ := Tree.bare_eq_two same
    obtain ⟨i, found, built⟩ := bind_eq_ok_iff.mp built
    obtain ⟨e, value, done⟩ := bind_eq_ok_iff.mp built
    cases done
    obtain ⟨j, name, rfl⟩ := mapKey_keeps key i found
    obtain ⟨f, inner, rfl⟩ := (each t (by simp)).expr e value
    exact ⟨.mk j f, by simp only [entry, name, inner]; rfl, rfl⟩
  · cases built

end Node

theorem leaf_kept (r : Rule) (sp : Span) (text : List Char) : Kept (.leaf r sp text) where
  expr a built := by cases built
  segment a built := by cases built
  entry a built := by cases built
  primary place a built := by
    unfold primary at built
    split at built
    · rename_i sp₁ text same
      cases same
      cases built
      exact ⟨.null place, rfl, rfl⟩
    · rename_i sp₁ text same
      cases same
      cases built
      exact ⟨.bool place _, rfl, rfl⟩
    · rename_i sp₁ text same
      cases same
      obtain ⟨n, read, done⟩ := bind_eq_ok_iff.mp built
      cases done
      exact ⟨.int place n, by simp only [primary, read]; rfl, rfl⟩
    · rename_i sp₁ text same
      cases same
      obtain ⟨x, read, done⟩ := bind_eq_ok_iff.mp built
      cases done
      exact ⟨.float place x, by simp only [primary, read]; rfl, rfl⟩
    · rename_i sp₁ text same
      cases same
    · rename_i sp₁ text same
      cases same
    · rename_i sp₁ text same
      cases same
    · rename_i sp₁ text same
      cases same
    · rename_i sp₁ text same
      cases same
      cases built
      exact ⟨.var place _, rfl, rfl⟩
    · rename_i sp₁ text same
      cases same
    · cases built

theorem kept (t : Node) : Kept t := by
  induction t using Tree.induct with
  | step t each =>
      cases t with
      | leaf r sp text => exact leaf_kept r sp text
      | node r sp ts =>
          exact ⟨expr_keeps each, primary_keeps each, segment_keeps each, entry_keeps each⟩

section Statements

variable {ts : List Node}

theorem typeSuffix_node {t : Node} {T : TypeName} (built : typeSuffix t = .ok T) :
    ∃ sp us, t = .node .typeSuffix sp us := by
  unfold typeSuffix at built
  split at built
  · exact ⟨_, _, rfl⟩
  · cases built

theorem fieldDecl_keeps (t : Node) : Keeps fieldDecl FieldDecl.unplaced t := by
  intro a built
  unfold fieldDecl at built
  split at built
  · rename_i sp₁ name u rest same
    obtain ⟨⟨sp, us, rfl, children⟩, rfl⟩ := Tree.bare_eq_node same
    obtain ⟨name, ts', rfl, rfl, others⟩ := Tree.bares_eq_cons children
    obtain ⟨t, ts, rfl, rfl, rfl⟩ := Tree.bares_eq_cons others
    obtain ⟨i, found, next⟩ := bind_eq_ok_iff.mp built
    obtain ⟨e, value, done⟩ := bind_eq_ok_iff.mp next
    obtain ⟨j, field, rfl⟩ := ident_keeps name i found
    obtain ⟨f, inner, rfl⟩ := (kept t).expr e value
    clear built next
    split at done
    · rename_i none
      cases Tree.bares_eq_nil none
      cases done
      exact ⟨⟨j, f, Option.none, false, sp⟩, by simp only [fieldDecl, field, inner]; rfl, rfl⟩
    · rename_i sp₂ vs single
      obtain ⟨suffix, rfl, modifier⟩ := Tree.bares_eq_singleton single
      obtain ⟨⟨sp₃, ws, rfl, -⟩, -⟩ := Tree.bare_eq_node modifier
      cases done
      exact ⟨⟨j, f, Option.none, true, sp⟩, by simp only [fieldDecl, field, inner]; rfl, rfl⟩
    · rename_i u other single
      obtain ⟨suffix, rfl, rfl⟩ := Tree.bares_eq_singleton single
      obtain ⟨T, target, done⟩ := bind_eq_ok_iff.mp done
      cases done
      obtain ⟨U, type, rfl⟩ := typeSuffix_keeps suffix T target
      obtain ⟨sp₂, ws, rfl⟩ := typeSuffix_node type
      exact ⟨⟨j, f, some U, false, sp⟩, by simp only [fieldDecl, field, inner, type]; rfl, rfl⟩
    · rename_i u us none single several
      obtain ⟨suffix, ts', rfl, rfl, rfl⟩ := Tree.bares_eq_cons several
      obtain ⟨T, target, done⟩ := bind_eq_ok_iff.mp done
      cases done
      obtain ⟨U, type, rfl⟩ := typeSuffix_keeps suffix T target
      refine ⟨⟨j, f, some U, true, sp⟩, ?_, rfl⟩
      cases ts' with
      | nil => exact (single rfl).elim
      | cons v vs =>
          simp only [fieldDecl, field, inner, type]
          rfl
  · cases built

theorem classDecl_keeps (t : Node) : Keeps classDecl ClassDecl.unplaced t := by
  intro a built
  unfold classDecl at built
  split at built
  · rename_i sp₁ name us same
    obtain ⟨sp, name, ts, rfl, rfl, rfl, rfl⟩ := Tree.bare_eq_cons same
    obtain ⟨i, found, built⟩ := bind_eq_ok_iff.mp built
    obtain ⟨fs, fields, done⟩ := bind_eq_ok_iff.mp built
    cases done
    obtain ⟨j, className, rfl⟩ := ident_keeps name i found
    obtain ⟨gs, parts, rfl⟩ := keeps_list (fun t _ => fieldDecl_keeps t)
      (fieldDecls_ok_iff.mp fields)
    have fields' := fieldDecls_ok_iff.mpr parts
    exact ⟨⟨j, gs, sp⟩, by simp only [classDecl, className, fields']; rfl, rfl⟩
  · cases built

theorem assignment_keeps {path : List Segment} {e : Expr}
    (built : assignment (Tree.bares ts) = .ok (path, e)) :
    ∃ ss f, assignment ts = .ok (ss, f) ∧ ss.map Segment.unplaced = path ∧ f.unplaced = e := by
  induction ts generalizing path with
  | nil => cases built
  | cons t ts ih =>
      unfold assignment at built
      split at built
      · rename_i u same
        obtain ⟨t', whole, rfl⟩ := Tree.bares_eq_singleton same
        cases whole
        obtain ⟨f, found, done⟩ := bind_eq_ok_iff.mp built
        cases done
        obtain ⟨g, value, rfl⟩ := (kept t).expr _ found
        exact ⟨[], g, by simp only [assignment, value]; rfl, rfl, rfl⟩
      · rename_i u us several same
        obtain ⟨t', ts', whole, rfl, rfl⟩ := Tree.bares_eq_cons same
        cases whole
        obtain ⟨s, found, built⟩ := bind_eq_ok_iff.mp built
        obtain ⟨⟨path', e'⟩, rest, done⟩ := bind_eq_ok_iff.mp built
        cases done
        obtain ⟨s', segment, rfl⟩ := (kept t).segment s found
        obtain ⟨ss, f, others, rfl, rfl⟩ := ih rest
        refine ⟨s' :: ss, f, ?_, rfl, rfl⟩
        cases ts with
        | nil => cases others
        | cons u us =>
            simp only [assignment, segment, others]
            rfl
      · cases built

/-- The builders of statements, on one tree. -/
structure StatementKept (t : Node) : Prop where
  statement : Keeps statement Stmt.unplaced t
  construct (sp : Span) :
    ∀ a, construct .nowhere t.bare = .ok a → ∃ b, construct sp t = .ok b ∧ b.unplaced = a
  block : Keeps block Stmt.unplacedBlock t
  otherwise {sp : Span} {u : Node} (same : t = .node .elseClause sp [u]) :
    Keeps Build.block Stmt.unplacedBlock u

theorem statements_keeps (each : ∀ t ∈ ts, StatementKept t) {ss : List Stmt}
    (built : statements (Tree.bares ts) = .ok ss) :
    ∃ ss', statements ts = .ok ss' ∧ Stmt.unplacedBlock ss' = ss := by
  obtain ⟨fs, parts, same⟩ := keeps_list (fun t member => (each t member).statement)
    (statements_ok_iff.mp built)
  exact ⟨fs, statements_ok_iff.mpr parts, by rw [Stmt.unplacedBlock_eq, same]⟩

theorem construct_keeps {r : Rule} {sp : Span} (each : ∀ t ∈ ts, StatementKept t) (place : Span)
    (a : Stmt) (built : construct .nowhere (Tree.bare (.node r sp ts)) = .ok a) :
    ∃ b, construct place (.node r sp ts) = .ok b ∧ b.unplaced = a := by
  unfold construct at built
  split at built
  · rename_i sp₁ us same
    rw [← same] at built
    obtain ⟨⟨sp₂, us, whole, rfl⟩, rfl⟩ := Tree.bare_eq_node same
    cases whole
    obtain ⟨d, found, done⟩ := bind_eq_ok_iff.mp built
    cases done
    obtain ⟨d', decl, rfl⟩ := classDecl_keeps _ d found
    exact ⟨.declare place d', by simp only [construct, decl]; rfl, rfl⟩
  · rename_i sp₁ name u same
    obtain ⟨_, name, t, ⟨⟩, rfl, rfl, -⟩ := Tree.bare_eq_two same
    obtain ⟨i, found, built⟩ := bind_eq_ok_iff.mp built
    obtain ⟨e, value, done⟩ := bind_eq_ok_iff.mp built
    cases done
    obtain ⟨j, target, rfl⟩ := ident_keeps name i found
    obtain ⟨f, inner, rfl⟩ := (kept t).expr e value
    exact ⟨.bind place j f, by simp only [construct, target, inner]; rfl, rfl⟩
  · rename_i sp₁ u same
    obtain ⟨_, t, ⟨⟩, rfl, -⟩ := Tree.bare_eq_one same
    obtain ⟨e, value, done⟩ := bind_eq_ok_iff.mp built
    cases done
    obtain ⟨f, inner, rfl⟩ := (kept t).expr e value
    exact ⟨.get place f, by simp only [construct, inner]; rfl, rfl⟩
  · rename_i sp₁ name us same
    obtain ⟨_, name, ts', ⟨⟩, rfl, rfl, -⟩ := Tree.bare_eq_cons same
    obtain ⟨i, found, built⟩ := bind_eq_ok_iff.mp built
    obtain ⟨⟨path, e⟩, rest, done⟩ := bind_eq_ok_iff.mp built
    cases done
    obtain ⟨j, target, rfl⟩ := ident_keeps name i found
    obtain ⟨ss, f, parts, rfl, rfl⟩ := assignment_keeps rest
    exact ⟨.assign place j ss f, by simp only [construct, target, parts]; rfl, rfl⟩
  · rename_i sp₁ u v same
    obtain ⟨_, t, yes, ⟨⟩, rfl, rfl, -⟩ := Tree.bare_eq_two same
    obtain ⟨e, value, built⟩ := bind_eq_ok_iff.mp built
    obtain ⟨ss, onTrue, done⟩ := bind_eq_ok_iff.mp built
    cases done
    obtain ⟨f, inner, rfl⟩ := (kept t).expr e value
    obtain ⟨ss', block, rfl⟩ := (each yes (by simp)).block ss onTrue
    exact ⟨.branch place f ss' [], by simp only [construct, inner, block]; rfl, rfl⟩
  · rename_i sp₁ u v sp₂ w same
    obtain ⟨_, t, yes, clause, ⟨⟩, rfl, rfl, elseNode, -⟩ := Tree.bare_eq_three same
    obtain ⟨⟨sp₄, ws, rfl, inside⟩, -⟩ := Tree.bare_eq_node elseNode
    obtain ⟨no, rfl, rfl⟩ := Tree.bares_eq_singleton inside
    obtain ⟨e, value, built⟩ := bind_eq_ok_iff.mp built
    obtain ⟨ss, onTrue, built⟩ := bind_eq_ok_iff.mp built
    obtain ⟨ss₂, onFalse, done⟩ := bind_eq_ok_iff.mp built
    cases done
    obtain ⟨f, inner, rfl⟩ := (kept t).expr e value
    obtain ⟨ss', first, rfl⟩ := (each yes (by simp)).block ss onTrue
    obtain ⟨ss₃, second, rfl⟩ := (each (.node .elseClause sp₄ [no]) (by simp)).otherwise rfl ss₂ onFalse
    exact ⟨.branch place f ss' ss₃, by simp only [construct, inner, first, second]; rfl, rfl⟩
  · rename_i sp₁ item u body same
    obtain ⟨_, item, t, body, ⟨⟩, rfl, rfl, rfl, -⟩ := Tree.bare_eq_three same
    obtain ⟨i, found, built⟩ := bind_eq_ok_iff.mp built
    obtain ⟨e, value, built⟩ := bind_eq_ok_iff.mp built
    obtain ⟨ss, inside, done⟩ := bind_eq_ok_iff.mp built
    cases done
    obtain ⟨j, name, rfl⟩ := ident_keeps item i found
    obtain ⟨f, inner, rfl⟩ := (kept t).expr e value
    obtain ⟨ss', block, rfl⟩ := (each body (by simp)).block ss inside
    exact ⟨.each place j none f ss', by simp only [construct, name, inner, block]; rfl, rfl⟩
  · rename_i sp₁ item key u body same
    obtain ⟨⟨sp₂, us, whole, children⟩, -⟩ := Tree.bare_eq_node same
    cases whole
    obtain ⟨item, ts₁, rfl, rfl, others₁⟩ := Tree.bares_eq_cons children
    obtain ⟨key, ts₂, rfl, rfl, others₂⟩ := Tree.bares_eq_cons others₁
    obtain ⟨t, ts₃, rfl, rfl, others₃⟩ := Tree.bares_eq_cons others₂
    obtain ⟨body, rfl, rfl⟩ := Tree.bares_eq_singleton others₃
    obtain ⟨i, found, built⟩ := bind_eq_ok_iff.mp built
    obtain ⟨k, place', built⟩ := bind_eq_ok_iff.mp built
    obtain ⟨e, value, built⟩ := bind_eq_ok_iff.mp built
    obtain ⟨ss, inside, done⟩ := bind_eq_ok_iff.mp built
    cases done
    obtain ⟨j, name, rfl⟩ := ident_keeps item i found
    obtain ⟨k', second, rfl⟩ := ident_keeps key k place'
    obtain ⟨f, inner, rfl⟩ := (kept t).expr e value
    obtain ⟨ss', block, rfl⟩ := (each body (by simp)).block ss inside
    exact ⟨.each place j (some k') f ss',
      by simp only [construct, name, second, inner, block]; rfl, rfl⟩
  · rename_i sp₁ counter u body same
    obtain ⟨_, counter, t, body, ⟨⟩, rfl, rfl, rfl, -⟩ := Tree.bare_eq_three same
    obtain ⟨i, found, built⟩ := bind_eq_ok_iff.mp built
    obtain ⟨e, value, built⟩ := bind_eq_ok_iff.mp built
    obtain ⟨ss, inside, done⟩ := bind_eq_ok_iff.mp built
    cases done
    obtain ⟨j, name, rfl⟩ := ident_keeps counter i found
    obtain ⟨f, inner, rfl⟩ := (kept t).expr e value
    obtain ⟨ss', block, rfl⟩ := (each body (by simp)).block ss inside
    exact ⟨.loop place j f ss', by simp only [construct, name, inner, block]; rfl, rfl⟩
  · cases built

theorem statement_keeps {r : Rule} {sp : Span} (each : ∀ t ∈ ts, StatementKept t) :
    Keeps statement Stmt.unplaced (.node r sp ts) := by
  intro a built
  unfold statement at built
  split at built
  · rename_i sp₁ u same
    obtain ⟨_, t, ⟨⟩, rfl, rfl⟩ := Tree.bare_eq_one same
    obtain ⟨b, found, rfl⟩ := (each t (by simp)).construct sp a built
    exact ⟨b, by rw [statement, found], rfl⟩
  · cases built

theorem block_keeps {r : Rule} {sp : Span} (each : ∀ t ∈ ts, StatementKept t) :
    Keeps block Stmt.unplacedBlock (.node r sp ts) := by
  intro a built
  unfold block at built
  split at built
  · rename_i sp₁ us same
    obtain ⟨⟨sp₂, us, whole, rfl⟩, -⟩ := Tree.bare_eq_node same
    cases whole
    obtain ⟨ss, found, rfl⟩ := statements_keeps each built
    exact ⟨ss, by rw [block, found], rfl⟩
  · cases built

theorem statementKept (t : Node) : StatementKept t := by
  induction t using Tree.induct with
  | step t each =>
      cases t with
      | leaf r sp text =>
          refine ⟨fun a built => ?_, fun place a built => ?_, fun a built => ?_, nofun⟩
          all_goals cases built
      | node r sp ts =>
          refine ⟨statement_keeps each, construct_keeps each, block_keeps each, fun same => ?_⟩
          cases same
          exact (each _ List.mem_cons_self).block

theorem program_keeps (t : Node) : Keeps program Program.unplaced t := by
  intro a built
  unfold program at built
  split at built
  · rename_i sp₁ us same
    obtain ⟨⟨sp, ts, rfl, rfl⟩, rfl⟩ := Tree.bare_eq_node same
    obtain ⟨ss, found, done⟩ := bind_eq_ok_iff.mp built
    cases done
    have shorter : (Tree.bares ts).dropLast = Tree.bares ts.dropLast := by
      rw [Tree.bares_eq_map, Tree.bares_eq_map, List.map_dropLast]
    rw [shorter] at found
    obtain ⟨ss', parts, rfl⟩ := statements_keeps (fun t _ => statementKept t) found
    refine ⟨⟨ss', sp⟩, by simp only [program, parts]; rfl, ?_⟩
    rw [Program.unplaced, Stmt.unplacedBlock_eq]
  · cases built

theorem standalone_keeps (t : Node) : Keeps standalone Expr.unplaced t := by
  intro a built
  unfold standalone at built
  split at built
  · rename_i sp₁ u us same
    obtain ⟨⟨sp, ts, rfl, children⟩, -⟩ := Tree.bare_eq_node same
    obtain ⟨t, ts, rfl, rfl, -⟩ := Tree.bares_eq_cons children
    obtain ⟨e, found, rfl⟩ := (kept t).expr a built
    exact ⟨e, by rw [standalone, found], rfl⟩
  · cases built

end Statements

end Build

end Dil
