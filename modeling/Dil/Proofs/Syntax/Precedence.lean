import Dil.Syntax.Chain
import Mathlib.Data.List.Basic
import Mathlib.Order.Basic

/-!
What folding a chain of operators comes to. The passes over the chain, one for each precedence, keep
all operands and operators in order and build a tree that is graded: no operator stands above a
looser one, and on its right none of its own precedence. A chain has one graded tree only, so that
the passes give what a parser by precedence climbing gives, which reads the chain once.
-/

namespace Dil.Chain

theorem precedence_pos (op : BinaryOp) : 0 < op.precedence := by
  cases op <;> decide

theorem precedence_le (op : BinaryOp) : op.precedence ≤ 8 := by
  cases op <;> decide

/-- What has been built over the operands of a chain. An operand stays whole, even if it is an
operation itself. -/
inductive Folding where
  | operand (e : Expr)
  | joined (op : BinaryOp) (left right : Folding)

namespace Folding

def toExpr : Folding → Expr
  | operand e => e
  | joined op left right => join op left.toExpr right.toExpr

def first : Folding → Expr
  | operand e => e
  | joined _ left _ => left.first

def last : Folding → Expr
  | operand e => e
  | joined _ _ right => right.last

def links : Folding → Links
  | operand _ => []
  | joined op left right => left.links ++ (op, right.first) :: right.links

/-- The operation at the top, if there is one, has the given precedence or a greater one. -/
def AtLeast (precedence : Nat) : Folding → Prop
  | operand _ => True
  | joined op _ _ => precedence ≤ op.precedence

/-- Every operation binds at most as tight as one on its left, and less than one on its right. -/
def Graded : Folding → Prop
  | operand _ => True
  | joined op left right =>
    left.Graded ∧ right.Graded ∧ left.AtLeast op.precedence ∧ right.AtLeast (op.precedence + 1)

def nodes : Folding → List Folding
  | operand _ => []
  | joined op left right => joined op left right :: (left.nodes ++ right.nodes)

variable {t s : Folding} {p q : Nat}

theorem AtLeast.mono (tight : t.AtLeast p) (less : q ≤ p) : t.AtLeast q := by
  cases t with
  | operand e => trivial
  | joined op left right => exact Nat.le_trans less tight

theorem Graded.links_atLeast (graded : t.Graded) (tight : t.AtLeast p) :
    ∀ link ∈ t.links, p ≤ link.1.precedence := by
  induction t generalizing p with
  | operand e => simp [links]
  | joined op left right ihLeft ihRight =>
      obtain ⟨gradedLeft, gradedRight, tightLeft, tightRight⟩ := graded
      have here : p ≤ op.precedence := tight
      simp only [links, List.forall_mem_append, List.forall_mem_cons]
      exact ⟨ihLeft gradedLeft (tightLeft.mono here), here,
        ihRight gradedRight (tightRight.mono (by omega))⟩

private theorem split_unique {xs ys xs' ys' : Links} {a b : BinaryOp × Expr}
    (same : xs ++ a :: ys = xs' ++ b :: ys')
    (left : ∀ x ∈ xs, a.1.precedence ≤ x.1.precedence)
    (right : ∀ y ∈ ys, a.1.precedence < y.1.precedence)
    (left' : ∀ x ∈ xs', b.1.precedence ≤ x.1.precedence)
    (right' : ∀ y ∈ ys', b.1.precedence < y.1.precedence) : xs = xs' ∧ a = b ∧ ys = ys' := by
  rcases List.append_eq_append_iff.mp same with ⟨m, rfl, rest⟩ | ⟨m, rfl, rest⟩
  · cases m with
    | nil =>
        cases rest
        simp
    | cons c m =>
        obtain ⟨rfl, rfl⟩ := List.cons.inj rest
        have looser := left' a (by simp)
        have tighter := right b (by simp)
        omega
  · cases m with
    | nil =>
        cases rest
        simp
    | cons c m =>
        obtain ⟨rfl, rfl⟩ := List.cons.inj rest
        have looser := left b (by simp)
        have tighter := right' a (by simp)
        omega

/-- Operands and operators in order determine a graded tree. -/
theorem Graded.unique (graded : t.Graded) (graded' : s.Graded) (first : t.first = s.first)
    (links : t.links = s.links) : t = s := by
  induction t generalizing s with
  | operand e =>
      cases s with
      | operand f => exact congrArg operand first
      | joined op left right => simp [Folding.links] at links
  | joined op left right ihLeft ihRight =>
      cases s with
      | operand f => simp [Folding.links] at links
      | joined op' left' right' =>
          obtain ⟨gradedLeft, gradedRight, tightLeft, tightRight⟩ := graded
          obtain ⟨gradedLeft', gradedRight', tightLeft', tightRight'⟩ := graded'
          obtain ⟨linksLeft, here, linksRight⟩ := split_unique links
            (gradedLeft.links_atLeast tightLeft) (gradedRight.links_atLeast tightRight)
            (gradedLeft'.links_atLeast tightLeft') (gradedRight'.links_atLeast tightRight')
          obtain ⟨rfl, firstRight⟩ := Prod.mk.inj here
          rw [ihLeft gradedLeft gradedLeft' first linksLeft,
            ihRight gradedRight gradedRight' firstRight linksRight]

theorem Graded.of_mem (graded : t.Graded) (member : s ∈ t.nodes) : s.Graded := by
  induction t with
  | operand e => cases member
  | joined op left right ihLeft ihRight =>
      rcases List.mem_cons.mp member with rfl | below
      · exact graded
      · rcases List.mem_append.mp below with inLeft | inRight
        · exact ihLeft graded.1 inLeft
        · exact ihRight graded.2.1 inRight

end Folding

section Passes

abbrev Branches := List (BinaryOp × Folding)

def Branches.toLinks (branches : Branches) : Links := branches.map fun b => (b.1, b.2.toExpr)

def Branches.links (branches : Branches) : Links :=
  branches.flatMap fun b => (b.1, b.2.first) :: b.2.links

/-- Before the pass for a precedence, all tighter operators have been joined, and no others. -/
def Passed (precedence : Nat) (branches : Branches) : Prop :=
  ∀ b ∈ branches, b.1.precedence ≤ precedence ∧ b.2.Graded ∧ b.2.AtLeast (precedence + 1)

theorem foldLevel_pass (p : Nat) (t : Folding) (branches : Branches) (graded : t.Graded)
    (tight : t.AtLeast (p + 1)) (passed : Passed (p + 1) branches) :
    ∃ (t' : Folding) (branches' : Branches),
      foldLevel (p + 1) t.toExpr branches.toLinks = (t'.toExpr, branches'.toLinks) ∧
      t'.first = t.first ∧ t'.links ++ branches'.links = t.links ++ branches.links ∧
      t'.Graded ∧ t'.AtLeast (p + 1) ∧ Passed p branches' := by
  induction branches generalizing t with
  | nil => exact ⟨t, [], rfl, rfl, rfl, graded, tight, by simp [Passed]⟩
  | cons b branches ih =>
      obtain ⟨op, f⟩ := b
      obtain ⟨⟨least, gradedF, tightF⟩, passed⟩ := List.forall_mem_cons.mp passed
      by_cases same : op.precedence = p + 1
      · obtain ⟨t', branches', folded, first, links, rest⟩ := ih (.joined op t f)
          ⟨graded, gradedF, same ▸ tight, same ▸ tightF⟩ (Nat.le_of_eq same.symm) passed
        refine ⟨t', branches', ?_, first, ?_, rest⟩
        · rw [Branches.toLinks, List.map_cons, foldLevel, if_pos same]
          exact folded
        · rw [links]
          simp [Folding.links, Branches.links]
      · obtain ⟨f', branches', folded, first, links, gradedF', tightF', passed'⟩ :=
          ih f gradedF (tightF.mono (by omega)) passed
        refine ⟨t, (op, f') :: branches', ?_, rfl, ?_, graded, tight, ?_⟩
        · rw [Branches.toLinks, List.map_cons, foldLevel, if_neg same]
          rw [Branches.toLinks] at folded
          rw [folded]
          rfl
        · simp only [Branches.links, List.flatMap_cons, first, List.cons_append] at links ⊢
          rw [links]
        · have looser : op.precedence ≤ p :=
            Nat.le_of_lt_succ (Nat.lt_of_le_of_ne least same)
          exact List.forall_mem_cons.mpr ⟨⟨looser, gradedF', tightF'⟩, passed'⟩

theorem foldLevels_passes (level : Nat) (t : Folding) (branches : Branches) (graded : t.Graded)
    (tight : t.AtLeast (level + 1)) (passed : Passed level branches) :
    ∃ t' : Folding, foldLevels level (t.toExpr, branches.toLinks) = (t'.toExpr, []) ∧
      t'.first = t.first ∧ t'.links = t.links ++ branches.links ∧ t'.Graded := by
  induction level generalizing t branches with
  | zero =>
      -- No operator has precedence zero, so that nothing is left of the chain.
      cases branches with
      | nil => exact ⟨t, rfl, rfl, (List.append_nil _).symm, graded⟩
      | cons b branches =>
          have positive := precedence_pos b.1
          have least := (passed b List.mem_cons_self).1
          omega
  | succ level ih =>
      obtain ⟨t₁, branches₁, folded, first₁, links₁, graded₁, tight₁, passed₁⟩ :=
        foldLevel_pass level t branches graded (tight.mono (by omega)) passed
      obtain ⟨t', rest, first, links, graded'⟩ := ih t₁ branches₁ graded₁ tight₁ passed₁
      refine ⟨t', ?_, first.trans first₁, links.trans links₁, graded'⟩
      rw [foldLevels, folded]
      exact rest

theorem fold_passes (e : Expr) (links : Links) :
    ∃ t : Folding, foldLevels 8 (e, links) = (t.toExpr, []) ∧ t.first = e ∧ t.links = links ∧
      t.Graded := by
  let branches : Branches := links.map fun link => (link.1, .operand link.2)
  have passed : Passed 8 branches := by
    intro b member
    obtain ⟨link, _, rfl⟩ := List.mem_map.mp member
    exact ⟨precedence_le link.1, trivial, trivial⟩
  have bare : branches.toLinks = links := by
    rw [Branches.toLinks, List.map_map]
    exact List.map_id links
  have flat : branches.links = links := by
    rw [Branches.links, List.flatMap_map]
    exact List.flatMap_singleton' links
  have passes := foldLevels_passes 8 (.operand e) branches trivial trivial passed
  rwa [bare, flat] at passes

end Passes

theorem Folding.Graded.fold_eq {t : Folding} (graded : t.Graded) : fold t.first t.links = t.toExpr := by
  obtain ⟨t', passed, first, links, graded'⟩ := fold_passes t.first t.links
  obtain rfl := graded.unique graded' first.symm links.symm
  exact congrArg Prod.fst passed

/-- Reads operators of at least the given precedence behind a left operand, each with what binds
tighter than it on its right, and leaves the rest of the chain. -/
def climb (least : Nat) (left : Folding) :
    (links : Links) → Folding × { rest : Links // rest.length ≤ links.length }
  | [] => (left, ⟨[], Nat.le_refl _⟩)
  | (op, e) :: links =>
    if least ≤ op.precedence then
      let (right, ⟨rest, fewer⟩) := climb (op.precedence + 1) (.operand e) links
      let (whole, ⟨rest', fewer'⟩) := climb least (.joined op left right) rest
      (whole, ⟨rest', by rw [List.length_cons]; omega⟩)
    else (left, ⟨(op, e) :: links, Nat.le_refl _⟩)
termination_by links => links.length

theorem climb_graded (least : Nat) (left : Folding) (links : Links) (graded : left.Graded)
    (tight : left.AtLeast least) (next : ∀ link ∈ links.head?, left.AtLeast link.1.precedence) :
    let t := (climb least left links).1
    let rest := (climb least left links).2.1
    t.first = left.first ∧ t.links ++ rest = left.links ++ links ∧ t.Graded ∧ t.AtLeast least ∧
      ∀ link ∈ rest.head?, link.1.precedence < least := by
  fun_induction climb least left links with
  | case1 least left => simp [graded, tight]
  | case2 least left op e links enough right rest fewer climbed whole rest' fewer' climbed' ih ih' =>
      rw [climbed] at ih
      rw [climbed'] at ih'
      obtain ⟨first, links₁, gradedRight, tightRight, stop⟩ := ih trivial trivial (by simp [Folding.AtLeast])
      have tightLeft : left.AtLeast op.precedence := next (op, e) rfl
      -- The right operand took all tighter operators, so that the operation may be a left operand.
      have next' : ∀ link ∈ rest.head?, link.1.precedence ≤ op.precedence :=
        fun link member => Nat.le_of_lt_succ (stop link member)
      obtain ⟨first', links₂, rest₂⟩ := ih' ⟨graded, gradedRight, tightLeft, tightRight⟩ enough next'
      refine ⟨first', links₂.trans ?_, rest₂⟩
      have consumed : right.first = e ∧ right.links ++ rest = links := ⟨first, links₁⟩
      rw [Folding.links, consumed.1, List.append_assoc, List.cons_append, consumed.2]
  | case3 least left op e links loose =>
      refine ⟨rfl, rfl, graded, tight, ?_⟩
      rintro _ ⟨⟩
      exact Nat.lt_of_not_le loose

/-- No operand starts or stops before an earlier one. -/
def InOrder (operands : List Expr) : Prop :=
  operands.Pairwise fun e f => e.span.start ≤ f.span.start ∧ e.span.stop ≤ f.span.stop

namespace Folding

variable {s t : Folding}

def operands (t : Folding) : List Expr := t.first :: t.links.map (·.2)

theorem operands_joined (op : BinaryOp) (left right : Folding) :
    (joined op left right).operands = left.operands ++ right.operands := by
  simp [operands, first, links]

theorem last_mem (t : Folding) : t.last ∈ t.operands := by
  induction t with
  | operand e => exact List.mem_singleton_self e
  | joined op left right _ ih =>
      rw [operands_joined]
      exact List.mem_append_right _ ih

theorem span_toExpr (ordered : InOrder t.operands) :
    t.toExpr.span = ⟨t.first.span.start, t.last.span.stop⟩ := by
  induction t with
  | operand e => rfl
  | joined op left right ihLeft ihRight =>
      rw [operands_joined] at ordered
      obtain ⟨orderedLeft, orderedRight, across⟩ := List.pairwise_append.mp ordered
      have starts := (across left.first List.mem_cons_self right.first List.mem_cons_self).1
      have stops := (across left.last left.last_mem right.last right.last_mem).2
      calc (joined op left right).toExpr.span
          = left.toExpr.span.merge right.toExpr.span := rfl
        _ = ⟨left.first.span.start, right.last.span.stop⟩ := by
            rw [ihLeft orderedLeft, ihRight orderedRight, Span.merge, Nat.min_eq_left starts,
              Nat.max_eq_right stops]

theorem operands_of_mem (member : s ∈ t.nodes) : s.operands.Sublist t.operands := by
  induction t with
  | operand e => cases member
  | joined op left right ihLeft ihRight =>
      rw [operands_joined]
      rcases List.mem_cons.mp member with rfl | below
      · exact operands_joined op left right ▸ List.Sublist.refl _
      · rcases List.mem_append.mp below with inLeft | inRight
        · exact (ihLeft inLeft).trans (List.sublist_append_left _ _)
        · exact (ihRight inRight).trans (List.sublist_append_right _ _)

end Folding

/-- Folding a chain loses nothing and gives the one graded tree over it, which climbing gives as
well; what it builds has the place of what it is built of. -/
theorem fold_graded (e : Expr) (links : Links) :
    ∃ t : Folding, foldLevels 8 (e, links) = (t.toExpr, []) ∧ fold e links = t.toExpr ∧
      t.first = e ∧ t.links = links ∧ t.Graded ∧
      (∀ s : Folding, s.Graded → s.first = e → s.links = links → s = t) ∧
      climb 0 (.operand e) links = (t, ⟨[], Nat.zero_le _⟩) ∧
      (InOrder (e :: links.map (·.2)) →
        ∀ s ∈ t.nodes, s.toExpr.span = ⟨s.first.span.start, s.last.span.stop⟩) := by
  obtain ⟨t, folded, rfl, rfl, graded⟩ := fold_passes e links
  have unique (s : Folding) (graded' : s.Graded) (first : s.first = t.first)
      (links : s.links = t.links) : s = t := graded'.unique graded first links
  have placed (ordered : InOrder t.operands) (s : Folding) (member : s ∈ t.nodes) :
      s.toExpr.span = ⟨s.first.span.start, s.last.span.stop⟩ :=
    Folding.span_toExpr (ordered.sublist (Folding.operands_of_mem member))
  refine ⟨t, folded, congrArg Prod.fst folded, rfl, rfl, graded, unique, ?_, placed⟩
  obtain ⟨first, links, graded', _, stop⟩ :=
    climb_graded 0 (.operand t.first) t.links trivial trivial (by simp [Folding.AtLeast])
  have empty : (climb 0 (.operand t.first) t.links).2.1 = [] := by
    rw [← List.head?_eq_none_iff, Option.eq_none_iff_forall_not_mem]
    exact fun link member => Nat.not_lt_zero _ (stop link member)
  rw [empty, List.append_nil] at links
  exact Prod.ext (unique _ graded' first links) (Subtype.ext empty)

theorem fold_sub_mul_add :
    let a : Expr := .var ⟨0, 1⟩ "a"
    let b : Expr := .var ⟨4, 5⟩ "b"
    let c : Expr := .var ⟨8, 9⟩ "c"
    let d : Expr := .var ⟨12, 13⟩ "d"
    let links : Links := [(.sub, b), (.mul, c), (.add, d)]
    fold a links = .binary ⟨0, 13⟩ .add (.binary ⟨0, 9⟩ .sub a (.binary ⟨4, 9⟩ .mul b c)) d ∧
    InOrder [a, b, c, d] ∧
    ∃ t : Folding, fold a links = t.toExpr ∧ t.Graded ∧
      ∀ s ∈ t.nodes, s.toExpr.span = ⟨s.first.span.start, s.last.span.stop⟩ := by
  intro a b c d links
  have ordered : InOrder [a, b, c, d] := by simp [InOrder, a, b, c, d, Expr.span]
  obtain ⟨t, _, folded, _, _, graded, _, _, placed⟩ := fold_graded a links
  exact ⟨rfl, ordered, t, folded, graded, placed ordered⟩

end Dil.Chain
