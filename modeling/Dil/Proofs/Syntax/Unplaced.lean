import Dil.Proofs.Peg.Bare
import Dil.Syntax.OfTree

namespace Dil

def Ident.unplaced (i : Ident) : Ident := ⟨i.name, .nowhere⟩

def TypeName.unplaced (t : TypeName) : TypeName := ⟨t.tag, .nowhere⟩

mutual

/-- The expression with all places forgotten. -/
def Expr.unplaced : Expr → Expr
  | .null _ => .null .nowhere
  | .bool _ b => .bool .nowhere b
  | .int _ n => .int .nowhere n
  | .float _ x => .float .nowhere x
  | .str _ s => .str .nowhere s
  | .map _ entries => .map .nowhere (Expr.unplacedEntries entries)
  | .array _ items => .array .nowhere (Expr.unplacedItems items)
  | .create _ className => .create .nowhere className.unplaced
  | .var _ name => .var .nowhere name
  | .path _ base segments => .path .nowhere base.unplaced (Expr.unplacedSegments segments)
  | .binary _ op left right => .binary .nowhere op left.unplaced right.unplaced
  | .unary _ op operand => .unary .nowhere op operand.unplaced
  | .cast _ value target => .cast .nowhere value.unplaced target.unplaced
  | .paren _ inner => .paren .nowhere inner.unplaced

def Expr.unplacedItems : List Expr → List Expr
  | [] => []
  | e :: es => e.unplaced :: Expr.unplacedItems es

def Entry.unplaced : Entry → Entry
  | .mk key value => .mk key.unplaced value.unplaced

def Expr.unplacedEntries : List Entry → List Entry
  | [] => []
  | e :: es => e.unplaced :: Expr.unplacedEntries es

def Segment.unplaced : Segment → Segment
  | .field name => .field name.unplaced
  | .index position => .index position.unplaced

def Expr.unplacedSegments : List Segment → List Segment
  | [] => []
  | s :: ss => s.unplaced :: Expr.unplacedSegments ss

end

theorem Expr.unplacedItems_eq (es : List Expr) : unplacedItems es = es.map Expr.unplaced := by
  induction es with
  | nil => rfl
  | cons e es ih => rw [unplacedItems, ih, List.map_cons]

theorem Expr.unplacedEntries_eq (es : List Entry) : unplacedEntries es = es.map Entry.unplaced := by
  induction es with
  | nil => rfl
  | cons e es ih => rw [unplacedEntries, ih, List.map_cons]

theorem Expr.unplacedSegments_eq (ss : List Segment) :
    unplacedSegments ss = ss.map Segment.unplaced := by
  induction ss with
  | nil => rfl
  | cons s ss ih => rw [unplacedSegments, ih, List.map_cons]

def FieldDecl.unplaced (f : FieldDecl) : FieldDecl :=
  ⟨f.name.unplaced, f.value.unplaced, f.type.map TypeName.unplaced, f.overwrite, .nowhere⟩

def ClassDecl.unplaced (d : ClassDecl) : ClassDecl :=
  ⟨d.name.unplaced, d.fields.map FieldDecl.unplaced, .nowhere⟩

mutual

def Stmt.unplaced : Stmt → Stmt
  | .declare _ decl => .declare .nowhere decl.unplaced
  | .bind _ name value => .bind .nowhere name.unplaced value.unplaced
  | .assign _ target path value =>
    .assign .nowhere target.unplaced (path.map Segment.unplaced) value.unplaced
  | .get _ value => .get .nowhere value.unplaced
  | .branch _ condition onTrue onFalse =>
    .branch .nowhere condition.unplaced (Stmt.unplacedBlock onTrue) (Stmt.unplacedBlock onFalse)
  | .each _ item key collection body =>
    .each .nowhere item.unplaced (key.map Ident.unplaced) collection.unplaced (Stmt.unplacedBlock body)
  | .loop _ counter condition body =>
    .loop .nowhere counter.unplaced condition.unplaced (Stmt.unplacedBlock body)

def Stmt.unplacedBlock : List Stmt → List Stmt
  | [] => []
  | s :: ss => s.unplaced :: Stmt.unplacedBlock ss

end

theorem Stmt.unplacedBlock_eq (ss : List Stmt) : unplacedBlock ss = ss.map Stmt.unplaced := by
  induction ss with
  | nil => rfl
  | cons s ss ih => rw [unplacedBlock, ih, List.map_cons]

def Program.unplaced (p : Program) : Program := ⟨p.statements.map Stmt.unplaced, .nowhere⟩

namespace Chain

section Formed

variable {form : Expr → Expr}

def formed (form : Expr → Expr) (links : Links) : Links := links.map fun link => (link.1, form link.2)

theorem foldLevel_formed (joins : ∀ op l r, form (join op l r) = join op (form l) (form r))
    (precedence : Nat) (e : Expr) (links : Links) :
    foldLevel precedence (form e) (formed form links)
      = (form (foldLevel precedence e links).1, formed form (foldLevel precedence e links).2) := by
  fun_induction foldLevel precedence e links with
  | case1 e => rfl
  | case2 e op f links same ih =>
      rw [joins] at ih
      rw [← ih, formed, List.map_cons, foldLevel, if_pos same]
      rfl
  | case3 e op f links other f' links' folded ih =>
      rw [folded] at ih
      rw [formed, List.map_cons, foldLevel, if_neg other]
      rw [formed] at ih
      simp [ih, formed]

theorem foldLevels_formed (joins : ∀ op l r, form (join op l r) = join op (form l) (form r))
    (levels : Nat) (e : Expr) (links : Links) :
    foldLevels levels (form e, formed form links)
      = (form (foldLevels levels (e, links)).1, formed form (foldLevels levels (e, links)).2) := by
  induction levels generalizing e links with
  | zero => rfl
  | succ level ih =>
      rw [foldLevels, foldLevels, foldLevel_formed joins]
      exact ih _ _

/-- What respects single operations respects the tree of a chain. -/
theorem fold_formed (joins : ∀ op l r, form (join op l r) = join op (form l) (form r)) (e : Expr)
    (links : Links) : form (fold e links) = fold (form e) (formed form links) := by
  rw [fold, fold, foldLevels_formed joins]

end Formed

def unplaced (links : Links) : Links := links.map fun link => (link.1, link.2.unplaced)

theorem span_unplaced (e : Expr) : e.unplaced.span = .nowhere := by
  cases e <;> rfl

theorem join_unplaced (op : BinaryOp) (l r : Expr) :
    (join op l r).unplaced = join op l.unplaced r.unplaced := by
  simp [join, Expr.unplaced, span_unplaced]

theorem fold_unplaced (e : Expr) (links : Links) :
    (fold e links).unplaced = fold e.unplaced (unplaced links) := fold_formed join_unplaced e links

end Chain

end Dil
