import Dil.Proofs.Reading.Statements

namespace Dil

open Reading

def Entry.key : Entry → Ident
  | .mk key _ => key

def Entry.value : Entry → Expr
  | .mk _ value => value

mutual

/-- The tokens of an expression; a key is quoted in any case. -/
def Expr.tokens : Expr → List String
  | .null _ => ["null"]
  | .bool _ b => [boolText b]
  | .int _ n => [int64Text n]
  | .float _ x => [FloatStyle.plain.text x]
  | .str _ s => [Quoted.quote s]
  | .map _ entries => openBrace :: commaed (Expr.entryTokens entries) ++ [closeBrace]
  | .array _ items => "[" :: commaed (Expr.itemTokens items) ++ ["]"]
  | .create _ className => [className.name, ":", "new"]
  | .var _ name => [name]
  | .path _ base segments => base.tokens ++ Expr.segmentTokens segments
  | .binary _ op left right => left.tokens ++ op.symbol :: right.tokens
  | .unary _ op operand => op.symbol :: operand.tokens
  | .cast _ value target => value.tokens ++ ["as", target.tag.name]
  | .paren _ inner => "(" :: inner.tokens ++ [")"]

def Expr.itemTokens : List Expr → List (List String)
  | [] => []
  | e :: es => e.tokens :: Expr.itemTokens es

def Entry.tokens : Entry → List String
  | .mk key value => Quoted.quote key.name :: ":" :: value.tokens

def Expr.entryTokens : List Entry → List (List String)
  | [] => []
  | e :: es => e.tokens :: Expr.entryTokens es

def Segment.tokens : Segment → List String
  | .field name => ["->", name.name]
  | .index position => "[" :: position.tokens ++ ["]"]

def Expr.segmentTokens : List Segment → List String
  | [] => []
  | s :: ss => s.tokens ++ Expr.segmentTokens ss

end

mutual

/-- The float literals of an expression. -/
def Expr.floats : Expr → List Float
  | .null _ | .bool _ _ | .int _ _ | .str _ _ | .create _ _ | .var _ _ => []
  | .float _ x => [x]
  | .map _ entries => Expr.entryFloats entries
  | .array _ items => Expr.itemFloats items
  | .path _ base segments => base.floats ++ Expr.segmentFloats segments
  | .binary _ _ left right => left.floats ++ right.floats
  | .unary _ _ e | .cast _ e _ | .paren _ e => e.floats

def Expr.itemFloats : List Expr → List Float
  | [] => []
  | e :: es => e.floats ++ Expr.itemFloats es

def Entry.floats : Entry → List Float
  | .mk _ value => value.floats

def Expr.entryFloats : List Entry → List Float
  | [] => []
  | e :: es => e.floats ++ Expr.entryFloats es

def Segment.floats : Segment → List Float
  | .field _ => []
  | .index position => position.floats

def Expr.segmentFloats : List Segment → List Float
  | [] => []
  | s :: ss => s.floats ++ Expr.segmentFloats ss

end

section Lists

theorem Expr.itemTokens_eq (es : List Expr) : itemTokens es = es.map Expr.tokens := by
  induction es with
  | nil => rfl
  | cons e es ih => rw [itemTokens, ih, List.map_cons]

theorem Expr.entryTokens_eq (es : List Entry) : entryTokens es = es.map Entry.tokens := by
  induction es with
  | nil => rfl
  | cons e es ih => rw [entryTokens, ih, List.map_cons]

theorem Expr.segmentTokens_eq (ss : List Segment) : segmentTokens ss = ss.flatMap Segment.tokens := by
  induction ss with
  | nil => rfl
  | cons s ss ih => rw [segmentTokens, ih, List.flatMap_cons]

theorem Expr.itemFloats_eq (es : List Expr) : itemFloats es = es.flatMap Expr.floats := by
  induction es with
  | nil => rfl
  | cons e es ih => rw [itemFloats, ih, List.flatMap_cons]

theorem Expr.entryFloats_eq (es : List Entry) : entryFloats es = es.flatMap Entry.floats := by
  induction es with
  | nil => rfl
  | cons e es ih => rw [entryFloats, ih, List.flatMap_cons]

theorem Expr.segmentFloats_eq (ss : List Segment) : segmentFloats ss = ss.flatMap Segment.floats := by
  induction ss with
  | nil => rfl
  | cons s ss ih => rw [segmentFloats, ih, List.flatMap_cons]

end Lists

namespace Chain

section Flat

variable {α : Type} {f : Expr → List α} {sign : BinaryOp → List α}

def flat (f : Expr → List α) (sign : BinaryOp → List α) (links : Links) : List α :=
  links.flatMap fun link => sign link.1 ++ f link.2

theorem foldLevel_flat (join : ∀ op l r, f (join op l r) = f l ++ (sign op ++ f r))
    (precedence : Nat) (e : Expr) (links : Links) :
    f (foldLevel precedence e links).1 ++ flat f sign (foldLevel precedence e links).2
      = f e ++ flat f sign links := by
  fun_induction foldLevel precedence e links with
  | case1 e => rfl
  | case2 e op g links same ih =>
      rw [ih, join]
      simp [flat]
  | case3 e op g links other g' links' folded ih =>
      rw [folded] at ih
      simp only [flat, List.flatMap_cons, List.append_assoc] at ih ⊢
      rw [ih]

theorem foldLevels_flat (join : ∀ op l r, f (join op l r) = f l ++ (sign op ++ f r))
    (levels : Nat) (chain : Expr × Links) :
    f (foldLevels levels chain).1 ++ flat f sign (foldLevels levels chain).2
      = f chain.1 ++ flat f sign chain.2 := by
  induction levels generalizing chain with
  | zero => rfl
  | succ level ih => rw [foldLevels, ih, foldLevel_flat join]

theorem foldLevel_precedences (precedence : Nat) (e : Expr) (links : Links) :
    ∀ link ∈ (foldLevel precedence e links).2, link.1.precedence ≠ precedence
      ∧ link.1 ∈ links.map Prod.fst := by
  fun_induction foldLevel precedence e links with
  | case1 e => simp
  | case2 e op g links same ih =>
      intro link member
      exact ⟨(ih link member).1, List.mem_cons_of_mem _ (ih link member).2⟩
  | case3 e op g links other g' links' folded ih =>
      rw [folded] at ih
      intro link member
      cases member with
      | head => exact ⟨other, List.mem_cons_self⟩
      | tail _ later => exact ⟨(ih link later).1, List.mem_cons_of_mem _ (ih link later).2⟩

theorem foldLevels_precedences (levels : Nat) (chain : Expr × Links)
    (low : ∀ link ∈ chain.2, link.1.precedence ≤ levels) :
    ∀ link ∈ (foldLevels levels chain).2, link.1.precedence = 0 := by
  induction levels generalizing chain with
  | zero =>
      intro link member
      exact Nat.le_zero.mp (low link member)
  | succ level ih =>
      rw [foldLevels]
      refine ih _ fun link member => ?_
      obtain ⟨other, among⟩ := foldLevel_precedences (level + 1) chain.1 chain.2 link member
      obtain ⟨before, present, same⟩ := List.mem_map.mp among
      have bound := low before present
      rw [same] at bound
      omega

theorem foldLevels_done (e : Expr) (links : Links) : (foldLevels 8 (e, links)).2 = [] := by
  have range (op : BinaryOp) : op.precedence ≤ 8 ∧ op.precedence ≠ 0 := by
    cases op <;> decide
  have none := foldLevels_precedences 8 (e, links) fun link _ => (range link.1).1
  refine List.eq_nil_iff_forall_not_mem.mpr fun link member => ?_
  exact (range link.1).2 (none link member)

theorem fold_flat (f : Expr → List α) (sign : BinaryOp → List α)
    (join : ∀ op l r, f (join op l r) = f l ++ (sign op ++ f r)) (e : Expr) (links : Links) :
    f (fold e links) = f e ++ flat f sign links := by
  have all := foldLevels_flat join 8 (e, links)
  rw [foldLevels_done, flat, List.flatMap_nil, List.append_nil] at all
  exact all

end Flat

theorem fold_tokens (e : Expr) (links : Links) :
    (fold e links).tokens = e.tokens ++ links.flatMap fun link => link.1.symbol :: link.2.tokens :=
  fold_flat Expr.tokens (fun op => [op.symbol]) (fun _ _ _ => rfl) e links

theorem fold_floats (e : Expr) (links : Links) :
    (fold e links).floats = e.floats ++ links.flatMap fun link => link.2.floats :=
  fold_flat Expr.floats (fun _ => []) (fun _ _ _ => rfl) e links

end Chain

def FieldDecl.tokens (f : FieldDecl) : List String :=
  f.name.name :: ":" :: f.value.tokens ++ typeTokens (f.type.map TypeName.tag)
    ++ overwriteTokens f.overwrite ++ [";"]

def ClassDecl.tokens (d : ClassDecl) : List String :=
  "class" :: d.name.name :: ":" :: d.fields.flatMap FieldDecl.tokens ++ ["class", ":", "end"]

mutual

def Stmt.tokens : Stmt → List String
  | .declare _ decl => decl.tokens
  | .bind _ name value => "let" :: name.name :: "=" :: value.tokens ++ [";"]
  | .assign _ target path value =>
    target.name :: (path.flatMap Segment.tokens ++ "=" :: value.tokens) ++ [";"]
  | .get _ value => "Get" :: value.tokens ++ [";"]
  | .branch _ condition onTrue [] =>
    "IF" :: condition.tokens ++ "THEN" :: Stmt.blockTokens onTrue ++ ["ENDIF"]
  | .branch _ condition onTrue (s :: ss) =>
    "IF" :: condition.tokens ++ "THEN" :: Stmt.blockTokens onTrue
      ++ "ELSE" :: (s.tokens ++ Stmt.blockTokens ss) ++ ["ENDIF"]
  | .each _ item key collection body =>
    "FOREACH" :: item.name :: keyTokens (key.map Ident.name) ++ "IN" :: collection.tokens
      ++ "DO" :: Stmt.blockTokens body ++ ["ENDFOREACH"]
  | .loop _ counter condition body =>
    "FOR" :: counter.name :: "WHEN" :: condition.tokens ++ "DO" :: Stmt.blockTokens body ++ ["ENDFOR"]

def Stmt.blockTokens : List Stmt → List String
  | [] => []
  | s :: ss => s.tokens ++ Stmt.blockTokens ss

end

mutual

def Stmt.floats : Stmt → List Float
  | .declare _ decl => decl.fields.flatMap fun f => f.value.floats
  | .bind _ _ value | .get _ value => value.floats
  | .assign _ _ path value => path.flatMap Segment.floats ++ value.floats
  | .branch _ condition onTrue onFalse =>
    condition.floats ++ Stmt.blockFloats onTrue ++ Stmt.blockFloats onFalse
  | .each _ _ _ e body | .loop _ _ e body => e.floats ++ Stmt.blockFloats body

def Stmt.blockFloats : List Stmt → List Float
  | [] => []
  | s :: ss => s.floats ++ Stmt.blockFloats ss

end

theorem Stmt.blockTokens_eq (ss : List Stmt) : blockTokens ss = ss.flatMap Stmt.tokens := by
  induction ss with
  | nil => rfl
  | cons s ss ih => rw [blockTokens, ih, List.flatMap_cons]

theorem Stmt.blockFloats_eq (ss : List Stmt) : blockFloats ss = ss.flatMap Stmt.floats := by
  induction ss with
  | nil => rfl
  | cons s ss ih => rw [blockFloats, ih, List.flatMap_cons]

namespace Program

def tokens (p : Program) : List String := p.statements.flatMap Stmt.tokens

def floats (p : Program) : List Float := p.statements.flatMap Stmt.floats

/-- The canonical print. -/
def printed (p : Program) : String := " ".intercalate p.tokens

end Program

end Dil
