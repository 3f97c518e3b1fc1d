import Dil.Proofs.Slice.Runs

/-!
All expressions in what was read. Each of them reads back from its own place, except a sign right behind
another sign: signs before one operand share one place, which reads back as the first of them.
-/

namespace Dil

open Build (Node Sited)

/-- An expression that stands in another one or in a script. -/
structure Occurrence where
  expr : Expr
  /-- It is an operation of a sign, and the operand of another one. -/
  behindSign : Bool

def Expr.isSign : Expr → Bool
  | .unary .. => true
  | _ => false

mutual

def Expr.inside : Expr → List Occurrence
  | .null _ | .bool _ _ | .int _ _ | .float _ _ | .str _ _ | .create _ _ | .var _ _ => []
  | .map _ entries => Expr.insideEntries entries
  | .array _ items => Expr.insideItems items
  | .path _ base segments => ⟨base, false⟩ :: (base.inside ++ Expr.insideSegments segments)
  | .binary _ _ left right => ⟨left, false⟩ :: (left.inside ++ ⟨right, false⟩ :: right.inside)
  | .unary _ _ operand => ⟨operand, operand.isSign⟩ :: operand.inside
  | .cast _ value _ => ⟨value, false⟩ :: value.inside
  | .paren _ inner => ⟨inner, false⟩ :: inner.inside

def Expr.insideItems : List Expr → List Occurrence
  | [] => []
  | e :: es => ⟨e, false⟩ :: (e.inside ++ Expr.insideItems es)

def Entry.inside : Entry → List Occurrence
  | .mk _ value => ⟨value, false⟩ :: value.inside

def Expr.insideEntries : List Entry → List Occurrence
  | [] => []
  | e :: es => e.inside ++ Expr.insideEntries es

def Segment.inside : Segment → List Occurrence
  | .field _ => []
  | .index position => ⟨position, false⟩ :: position.inside

def Expr.insideSegments : List Segment → List Occurrence
  | [] => []
  | s :: ss => s.inside ++ Expr.insideSegments ss

end

def Expr.occurrences (e : Expr) : List Occurrence := ⟨e, false⟩ :: e.inside

mutual

def Stmt.occurrences : Stmt → List Occurrence
  | .declare _ decl => decl.fields.flatMap fun f => f.value.occurrences
  | .bind _ _ value => value.occurrences
  | .assign _ _ path value => path.flatMap Segment.inside ++ value.occurrences
  | .get _ value => value.occurrences
  | .branch _ condition onTrue onFalse =>
    condition.occurrences ++ (Stmt.blockOccurrences onTrue ++ Stmt.blockOccurrences onFalse)
  | .each _ _ _ collection body => collection.occurrences ++ Stmt.blockOccurrences body
  | .loop _ _ condition body => condition.occurrences ++ Stmt.blockOccurrences body

def Stmt.blockOccurrences : List Stmt → List Occurrence
  | [] => []
  | s :: ss => s.occurrences ++ Stmt.blockOccurrences ss

end

def Program.occurrences (p : Program) : List Occurrence := p.statements.flatMap Stmt.occurrences

theorem Expr.insideItems_eq (es : List Expr) : insideItems es = es.flatMap Expr.occurrences := by
  induction es with
  | nil => rfl
  | cons e es ih => rw [insideItems, ih, List.flatMap_cons, Expr.occurrences, List.cons_append]

theorem Expr.insideEntries_eq (es : List Entry) : insideEntries es = es.flatMap Entry.inside := by
  induction es with
  | nil => rfl
  | cons e es ih => rw [insideEntries, ih, List.flatMap_cons]

theorem Expr.insideSegments_eq (ss : List Segment) : insideSegments ss = ss.flatMap Segment.inside := by
  induction ss with
  | nil => rfl
  | cons s ss ih => rw [insideSegments, ih, List.flatMap_cons]

theorem Stmt.blockOccurrences_eq (ss : List Stmt) : blockOccurrences ss = ss.flatMap Stmt.occurrences := by
  induction ss with
  | nil => rfl
  | cons s ss ih => rw [blockOccurrences, ih, List.flatMap_cons]

/-- The expression reads back, or it is behind a sign, and another expression reads back from its place. -/
inductive Occurrence.Answers (source : String) : Occurrence → Prop where
  | alone {e : Expr} (back : e.ReadsBack source) : Answers source ⟨e, false⟩
  | sign {e outer : Expr} (back : outer.ReadsBack source) (place : outer.span = e.span)
      (smaller : sizeOf e < sizeOf outer) : Answers source ⟨e, true⟩

theorem Span.Spells.unique {source : String} {sp : Span} {s t : List Char} (first : sp.Spells source s)
    (second : sp.Spells source t) : s = t := by
  obtain ⟨before, after, whole, rfl⟩ := first
  obtain ⟨before', after', whole', same⟩ := second
  obtain ⟨start, stop⟩ := Span.mk.inj same
  have ahead : before = before' := by
    rw [← Cursor.takeBytes_append before (s ++ after), start, ← List.append_assoc, ← whole, whole', List.append_assoc]
    exact Cursor.takeBytes_append before' (t ++ after')
  have both : before ++ s = before' ++ t := by
    rw [← Cursor.takeBytes_append (before ++ s) after, stop, ← whole, whole']
    exact Cursor.takeBytes_append (before' ++ t) after'
  rwa [ahead, List.append_cancel_left_eq] at both

theorem Expr.ReadsBack.unique {source : String} {e f : Expr} (first : e.ReadsBack source)
    (second : f.ReadsBack source) (place : e.span = f.span) : e = f := by
  obtain ⟨s, e', spells, read, same⟩ := first
  obtain ⟨t, f', spells', read', same'⟩ := second
  rw [← place] at spells' same'
  obtain rfl := spells.unique spells'
  rw [read] at read'
  cases read'
  exact same.symm.trans same'

theorem Occurrence.Answers.readsBack_iff {source : String} {o : Occurrence} (answers : o.Answers source) :
    o.expr.ReadsBack source ↔ o.behindSign = false := by
  cases answers with
  | alone back => exact ⟨fun _ => rfl, fun _ => back⟩
  | sign back place smaller =>
      refine ⟨fun back' => ?_, nofun⟩
      rw [back.unique back' place] at smaller
      exact absurd smaller (Nat.lt_irrefl _)

end Dil
