import Dil.Proofs.Peg.Depth
import Dil.Proofs.Syntax.Precedence
import Dil.Text.Quoted

/-!
The places of a script as a tree of its own: what has a place, and what stands right inside it, in the
order of the text. The places are sound in a source if they lie inside one another and one behind
another, each around a text of its own.
-/

namespace Dil

/-- The text stands at the place in the source, between two characters of it. -/
def Span.Spells (source : String) (sp : Span) (text : List Char) : Prop :=
  ∃ before after, source.toList = before ++ text ++ after ∧
    sp = ⟨byteLength before, byteLength (before ++ text)⟩

/-- What the text at a place is known to be: the name that stands there, or the key of a map. -/
inductive Label where
  | other
  | name (s : String)
  | key (s : String)

/-- A key is written as it is, or as a quoted text that reads as the key. -/
def Label.Fits : Label → List Char → Prop
  | other, _ => True
  | name s, text => text = s.toList
  | key s, text =>
    text = s.toList ∨
      ∃ inside, text = '"' :: (inside ++ ['"']) ∧ Quoted.unescape inside = some s.toList

inductive Nest where
  | mk (span : Span) (label : Label) (parts : List Nest)

def Nest.span : Nest → Span
  | mk sp _ _ => sp

/-- Each place has some text of the source, with what it is known to be; and the places inside it lie
in it, one behind another. -/
inductive Nest.Sound (source : String) : Nest → Prop where
  | mk {sp : Span} {label : Label} {parts : List Nest} {text : List Char}
      (spells : sp.Spells source text) (some : sp.start < sp.stop) (fits : label.Fits text)
      (within : ∀ n ∈ parts, sp.start ≤ n.span.start ∧ n.span.stop ≤ sp.stop)
      (ordered : parts.Pairwise fun n m => n.span.stop ≤ m.span.start)
      (each : ∀ n ∈ parts, Sound source n) : Sound source (.mk sp label parts)

def Ident.nest (i : Ident) : Nest := .mk i.span (.name i.name) []

def TypeName.nest (t : TypeName) : Nest := .mk t.span .other []

mutual

def Expr.nest : Expr → Nest
  | .null sp | .bool sp _ | .int sp _ | .float sp _ | .str sp _ => .mk sp .other []
  | .map sp entries => .mk sp .other (Expr.entryNests entries)
  | .array sp items => .mk sp .other (Expr.itemNests items)
  | .create sp className => .mk sp .other [className.nest]
  | .var sp name => .mk sp (.name name) []
  | .path sp base segments => .mk sp .other (base.nest :: Expr.segmentNests segments)
  | .binary sp _ left right => .mk sp .other [left.nest, right.nest]
  | .unary sp _ operand => .mk sp .other [operand.nest]
  | .cast sp value target => .mk sp .other [value.nest, target.nest]
  | .paren sp inner => .mk sp .other [inner.nest]

def Expr.itemNests : List Expr → List Nest
  | [] => []
  | e :: es => e.nest :: Expr.itemNests es

def Entry.nests : Entry → List Nest
  | .mk key value => [.mk key.span (.key key.name) [], value.nest]

def Expr.entryNests : List Entry → List Nest
  | [] => []
  | e :: es => e.nests ++ Expr.entryNests es

def Segment.nests : Segment → List Nest
  | .field name => [name.nest]
  | .index position => [position.nest]

def Expr.segmentNests : List Segment → List Nest
  | [] => []
  | s :: ss => s.nests ++ Expr.segmentNests ss

end

def FieldDecl.nest (f : FieldDecl) : Nest :=
  .mk f.span .other (f.name.nest :: f.value.nest :: (f.type.map TypeName.nest).toList)

def ClassDecl.nest (d : ClassDecl) : Nest :=
  .mk d.span .other (d.name.nest :: d.fields.map FieldDecl.nest)

mutual

def Stmt.nest : Stmt → Nest
  | .declare sp decl => .mk sp .other [decl.nest]
  | .bind sp name value => .mk sp .other [name.nest, value.nest]
  | .assign sp target path value =>
    .mk sp .other (target.nest :: (path.flatMap Segment.nests ++ [value.nest]))
  | .get sp value => .mk sp .other [value.nest]
  | .branch sp condition onTrue onFalse =>
    .mk sp .other (condition.nest :: (Stmt.blockNests onTrue ++ Stmt.blockNests onFalse))
  | .each sp item key collection body =>
    .mk sp .other
      (item.nest :: ((key.map Ident.nest).toList ++ collection.nest :: Stmt.blockNests body))
  | .loop sp counter condition body =>
    .mk sp .other (counter.nest :: condition.nest :: Stmt.blockNests body)

def Stmt.blockNests : List Stmt → List Nest
  | [] => []
  | s :: ss => s.nest :: Stmt.blockNests ss

end

/-- A script has the place of its whole source, even if it is empty, with its statements in it. -/
structure Program.Sound (source : String) (p : Program) : Prop where
  whole : p.span = ⟨0, byteLength source.toList⟩
  some : p.span.start < p.span.stop ∨ p.statements = []
  within : ∀ s ∈ p.statements, p.span.start ≤ s.span.start ∧ s.span.stop ≤ p.span.stop
  ordered : p.statements.Pairwise fun s s' => s.span.stop ≤ s'.span.start
  each : ∀ s ∈ p.statements, s.nest.Sound source

theorem Expr.nest_span (e : Expr) : e.nest.span = e.span := by
  cases e <;> rfl

theorem Stmt.nest_span (s : Stmt) : s.nest.span = s.span := by
  cases s <;> rfl

theorem Expr.itemNests_eq (es : List Expr) : itemNests es = es.map Expr.nest := by
  induction es with
  | nil => rfl
  | cons e es ih => rw [itemNests, ih, List.map_cons]

theorem Expr.entryNests_eq (es : List Entry) : entryNests es = es.flatMap Entry.nests := by
  induction es with
  | nil => rfl
  | cons e es ih => rw [entryNests, ih, List.flatMap_cons]

theorem Expr.segmentNests_eq (ss : List Segment) : segmentNests ss = ss.flatMap Segment.nests := by
  induction ss with
  | nil => rfl
  | cons s ss ih => rw [segmentNests, ih, List.flatMap_cons]

theorem Stmt.blockNests_eq (ss : List Stmt) : blockNests ss = ss.map Stmt.nest := by
  induction ss with
  | nil => rfl
  | cons s ss ih => rw [blockNests, ih, List.map_cons]

section Texts

variable {source : String} {sp sp' : Span} {text text' s t u v : List Char}

theorem begins_of_byteLength_le (same : s ++ t = u ++ v) (shorter : byteLength s ≤ byteLength u) :
    ∃ w, u = s ++ w ∧ t = w ++ v := by
  rcases List.append_eq_append_iff.mp same with split | ⟨w, rfl, rfl⟩
  · exact split
  · cases w with
    | nil => exact ⟨[], by simp, rfl⟩
    | cons c cs =>
        have longer := byteLength_pos (List.cons_ne_nil c cs)
        rw [byteLength_append] at shorter
        omega

theorem Span.Spells.cover (first : sp.Spells source text) (second : sp'.Spells source text')
    (ordered : sp.stop ≤ sp'.start) : ∃ t, Span.Spells source ⟨sp.start, sp'.stop⟩ t := by
  obtain ⟨before, after, whole, rfl⟩ := first
  obtain ⟨before', after', whole', rfl⟩ := second
  rw [whole, List.append_assoc before'] at whole'
  obtain ⟨between, rfl, rfl⟩ := begins_of_byteLength_le whole' ordered
  refine ⟨text ++ between ++ text', before, after', by simp [whole], ?_⟩
  simp only [byteLength_append, Nat.add_assoc]

end Texts

namespace Nest

/-- Sound places between two bytes of the source, one behind another. -/
inductive Between (source : String) : Nat → List Nest → Nat → Prop where
  | nil {a b : Nat} (ordered : a ≤ b) : Between source a [] b
  | cons {a b : Nat} {n : Nest} {ns : List Nest} (ahead : a ≤ n.span.start) (sound : n.Sound source)
      (others : Between source n.span.stop ns b) : Between source a (n :: ns) b

variable {source : String} {a b c : Nat} {n : Nest} {ns ms parts : List Nest} {sp : Span}
  {label : Label} {text : List Char}

theorem Sound.some (sound : n.Sound source) : n.span.start < n.span.stop := by
  cases sound with
  | mk _ some => exact some

theorem Sound.spells (sound : n.Sound source) : ∃ text, n.span.Spells source text := by
  cases sound with
  | mk spells => exact ⟨_, spells⟩

theorem Between.le (between : Between source a ns b) : a ≤ b := by
  induction between with
  | nil ordered => exact ordered
  | cons ahead sound _ ih => exact Nat.le_trans ahead (Nat.le_trans (Nat.le_of_lt sound.some) ih)

theorem Between.lead (ahead : c ≤ a) (between : Between source a ns b) : Between source c ns b := by
  cases between with
  | nil ordered => exact .nil (Nat.le_trans ahead ordered)
  | cons ahead' sound others => exact .cons (Nat.le_trans ahead ahead') sound others

theorem Between.append (first : Between source a ns b) (second : Between source b ms c) :
    Between source a (ns ++ ms) c := by
  induction first with
  | nil ordered => exact second.lead ordered
  | cons ahead sound _ ih => exact .cons ahead sound (ih second)

theorem Between.trail (between : Between source a ns b) (behind : b ≤ c) : Between source a ns c := by
  have both := between.append (.nil behind)
  rwa [List.append_nil] at both

theorem Between.split (both : Between source a (ns ++ ms) c) :
    ∃ b, Between source a ns b ∧ Between source b ms c := by
  induction ns generalizing a with
  | nil => exact ⟨a, .nil (Nat.le_refl a), both⟩
  | cons n ns ih =>
      cases both with
      | cons ahead sound others =>
          obtain ⟨b, first, second⟩ := ih others
          exact ⟨b, .cons ahead sound first, second⟩

theorem Between.within (between : Between source a ns b) :
    ∀ n ∈ ns, n.Sound source ∧ a ≤ n.span.start ∧ n.span.stop ≤ b := by
  induction between with
  | nil => exact fun _ none => nomatch none
  | cons ahead sound others ih =>
      refine List.forall_mem_cons.mpr ⟨⟨sound, ahead, others.le⟩, fun m member => ?_⟩
      obtain ⟨sound', behind, stop⟩ := ih m member
      exact ⟨sound', Nat.le_trans ahead (Nat.le_trans (Nat.le_of_lt sound.some) behind), stop⟩

theorem Between.ordered (between : Between source a ns b) :
    ns.Pairwise fun n m => n.span.stop ≤ m.span.start := by
  induction between with
  | nil => exact .nil
  | cons _ _ others ih => exact .cons (fun m member => (others.within m member).2.1) ih

theorem Between.one (between : Between source a [n] b) :
    n.Sound source ∧ a ≤ n.span.start ∧ n.span.stop ≤ b :=
  between.within n (List.mem_singleton_self n)

theorem between_one (sound : n.Sound source) (ahead : a ≤ n.span.start) (behind : n.span.stop ≤ b) :
    Between source a [n] b := .cons ahead sound (.nil behind)

theorem sound_of_between (spells : sp.Spells source text) (some : sp.start < sp.stop)
    (fits : label.Fits text) (between : Between source sp.start parts sp.stop) :
    Sound source (.mk sp label parts) :=
  .mk spells some fits (fun n member => (between.within n member).2) between.ordered
    fun n member => (between.within n member).1

theorem between_folding (t : Chain.Folding)
    (operands : Between source a (t.operands.map Expr.nest) b) : Between source a [t.toExpr.nest] b := by
  induction t generalizing a b with
  | operand e => exact operands
  | joined op left right ihLeft ihRight =>
      rw [Chain.Folding.operands_joined, List.map_append] at operands
      obtain ⟨m, first, second⟩ := operands.split
      obtain ⟨soundLeft, ahead, stopLeft⟩ := (ihLeft first).one
      obtain ⟨soundRight, startRight, behind⟩ := (ihRight second).one
      obtain ⟨_, spellsLeft⟩ := soundLeft.spells
      obtain ⟨_, spellsRight⟩ := soundRight.spells
      have someLeft := soundLeft.some
      have someRight := soundRight.some
      simp only [Expr.nest_span] at ahead stopLeft startRight behind someLeft someRight spellsLeft spellsRight
      have ordered : left.toExpr.span.stop ≤ right.toExpr.span.start := Nat.le_trans stopLeft startRight
      have place : left.toExpr.span.merge right.toExpr.span =
          ⟨left.toExpr.span.start, right.toExpr.span.stop⟩ := by
        rw [Span.merge, Nat.min_eq_left (by omega), Nat.max_eq_right (by omega)]
      obtain ⟨text, spells⟩ := spellsLeft.cover spellsRight ordered
      have inside : Between source left.toExpr.span.start [left.toExpr.nest, right.toExpr.nest]
          right.toExpr.span.stop := by
        rw [← Expr.nest_span left.toExpr, ← Expr.nest_span right.toExpr] at ordered ⊢
        exact .cons (Nat.le_refl _) soundLeft (between_one soundRight ordered (Nat.le_refl _))
      rw [Chain.Folding.toExpr, Chain.join, Expr.nest, place]
      exact between_one (sound_of_between spells (by simp only; omega) trivial inside) ahead behind

end Nest

end Dil
