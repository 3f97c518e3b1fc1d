import Dil.Proofs.Relayout.Gaps
import Dil.Proofs.Syntax.Built
import Dil.Proofs.Text.Escapes

/-!
Tokens whose text can be bad although it fits the grammar: literals of numbers, the insides of quoted
texts, and names of types. Each is good or bad on its own.
-/

namespace Dil

def Numeral.literal? (literal : List Char) : Option Nat :=
  match literal.filter (· != '_') with
  | '0' :: 'x' :: ds | '0' :: 'X' :: ds => natural? 16 ds
  | '0' :: 'b' :: ds | '0' :: 'B' :: ds => natural? 2 ds
  | ds => natural? 10 ds

def Rule.isChecked : Rule → Bool
  | .intLiteral | .floatLiteral | .stringInner | .typeName => true
  | _ => false

structure Token where
  rule : Rule
  span : Span
  text : List Char
deriving DecidableEq

namespace Token

/-- An integer is in the range of 64 bits, a float is finite when it is rounded, a text has escapes
that can be read, and a type is one that there is. -/
def Valid (k : Token) : Prop :=
  match k.rule with
  | .intLiteral => ∃ n, Numeral.literal? k.text = some n ∧ (n : Int) ≤ Int64.maxValue.toInt
  | .floatLiteral => ∃ d, Decimal.ofText? k.text = some d ∧ Binary64.isFinite d.toFloat = true
  | .stringInner => ∃ s, Quoted.unescape k.text = some s
  | .typeName => ∃ tag, Tag.ofName? (String.ofList k.text) = some tag
  | _ => True

/-- What is said of a bad token. The text is that of the token, but underscores in integers are left
out. -/
def refusal (k : Token) : BuildError :=
  match k.rule with
  | .intLiteral => .invalidNumber (String.ofList (k.text.filter (· != '_')))
  | .floatLiteral => .invalidNumber (String.ofList k.text)
  | .stringInner => .invalidEscape (String.ofList k.text)
  | .typeName => .unknownType (String.ofList k.text) k.span
  | r => .unexpected r

theorem refusal_ne_unexpected {k : Token} (checked : k.rule.isChecked = true) (r : Rule) :
    k.refusal ≠ .unexpected r := by
  obtain ⟨q, sp, w⟩ := k
  cases q <;> cases checked <;> nofun

end Token

namespace Build

mutual

def tokens : Node → List Token
  | .leaf r sp text => if r.isChecked then [⟨r, sp, text⟩] else []
  | .node _ _ ts => tokensOf ts

def tokensOf : List Node → List Token
  | [] => []
  | t :: ts => tokens t ++ tokensOf ts

end

theorem tokensOf_eq (ts : List Node) : tokensOf ts = ts.flatMap tokens := by
  induction ts with
  | nil => rfl
  | cons t ts ih => rw [tokensOf, ih, List.flatMap_cons]

theorem tokensOf_append (ts us : List Node) : tokensOf (ts ++ us) = tokensOf ts ++ tokensOf us := by
  simp only [tokensOf_eq, List.flatMap_append]

/-- The outcome is decided by tokens, which are looked at in order: all of them are good, or the first
bad one is reported. -/
inductive Decides {α : Type} : Except BuildError α → List Token → Prop where
  | ok {a : α} {ks : List Token} (valid : ∀ k ∈ ks, k.Valid) : Decides (.ok a) ks
  | error {k : Token} {before after : List Token} (valid : ∀ k ∈ before, k.Valid) (bad : ¬ k.Valid) :
      Decides (.error k.refusal) (before ++ k :: after)

section Decides

variable {α β : Type} {x : Except BuildError α} {f : α → Except BuildError β} {ks ls : List Token}
  {a : α} {k : Token}

theorem decides_none (a : α) : Decides (.ok a) [] := .ok nofun

theorem decides_one (good : k.Valid → ∃ a, x = .ok a) (bad : ¬ k.Valid → x = .error k.refusal) :
    Decides x [k] := by
  by_cases valid : k.Valid
  · obtain ⟨a, rfl⟩ := good valid
    exact .ok (by simpa using valid)
  · rw [bad valid]
    have first : Decides (.error k.refusal : Except BuildError α) ([] ++ [k]) := .error nofun valid
    exact first

theorem Decides.bind (first : Decides x ks) (rest : ∀ a, x = .ok a → Decides (f a) ls) :
    Decides (x >>= f) (ks ++ ls) := by
  cases first with
  | @ok a _ valid =>
      have second : Decides (f a) ls := rest a rfl
      change Decides (f a) (ks ++ ls)
      generalize f a = y at second ⊢
      cases second with
      | ok valid' => exact .ok (List.forall_mem_append.mpr ⟨valid, valid'⟩)
      | error valid' bad =>
          rw [← List.append_assoc]
          exact .error (List.forall_mem_append.mpr ⟨valid, valid'⟩) bad
  | @error k before after valid bad =>
      rw [List.append_assoc, List.cons_append]
      exact .error valid bad

theorem Decides.map {g : α → β} (decides : Decides x ks) :
    Decides (x >>= fun a => .ok (g a)) ks := by
  have whole : Decides (x >>= fun a => .ok (g a)) (ks ++ []) :=
    decides.bind fun a _ => decides_none (g a)
  rwa [List.append_nil] at whole

theorem decides_list {build : Node → Except BuildError α} {all : List Node → Except BuildError (List α)}
    (ts : List Node) (nil : all [] = .ok [])
    (cons : ∀ t ts, all (t :: ts) = build t >>= fun a => all ts >>= fun as => .ok (a :: as))
    (each : ∀ t ∈ ts, Decides (build t) (tokens t)) :
    Decides (all ts) (tokensOf ts) := by
  induction ts with
  | nil => exact nil ▸ decides_none []
  | cons t ts ih =>
      obtain ⟨first, others⟩ := List.forall_mem_cons.mp each
      rw [cons]
      exact first.bind fun _ _ => (ih others).map

theorem Decides.ok_iff (decides : Decides x ks) : (∃ a, x = .ok a) ↔ ∀ k ∈ ks, k.Valid := by
  cases decides with
  | ok valid => exact ⟨fun _ => valid, fun _ => ⟨_, rfl⟩⟩
  | error valid bad =>
      constructor
      · rintro ⟨_, ⟨⟩⟩
      · intro all
        exact absurd (all _ (List.mem_append_right _ List.mem_cons_self)) bad

theorem Decides.error_iff (decides : Decides x ks) (cause : BuildError) :
    x = .error cause ↔ ∃ before k after, ks = before ++ k :: after ∧ (∀ k ∈ before, k.Valid) ∧
      ¬ k.Valid ∧ cause = k.refusal := by
  cases decides with
  | ok valid =>
      constructor
      · rintro ⟨⟩
      · rintro ⟨before, k, after, rfl, -, bad, -⟩
        exact absurd (valid k (List.mem_append_right _ List.mem_cons_self)) bad
  | @error k before after valid bad =>
      constructor
      · rintro ⟨⟩
        exact ⟨before, k, after, rfl, valid, bad, rfl⟩
      · rintro ⟨before', k', after', same, valid', bad', rfl⟩
        obtain ⟨-, rfl, -⟩ := split_unique_at_first valid bad valid' bad' same
        rfl

end Decides

section Single

variable {sp : Span} {w : List Char}

theorem int64?_natCast (n : Nat) :
    (∃ m, int64? n = some m) ↔ (n : Int) ≤ Int64.maxValue.toInt := by
  have low : Int64.minValue.toInt ≤ n := Int.le_trans (by decide) (Int.natCast_nonneg n)
  rw [int64?]
  split
  · rename_i range
    exact ⟨fun _ => range.2, fun _ => ⟨_, rfl⟩⟩
  · rename_i outside
    have high : ¬ (n : Int) ≤ Int64.maxValue.toInt := fun high => outside ⟨low, high⟩
    simp [high]

def inRange? (w : List Char) : Option Int64 := (Numeral.literal? w).bind fun n => int64? n

theorem intLiteral_eq (w : List Char) :
    intLiteral w = match inRange? w with
      | some n => .ok n
      | none => .error (.invalidNumber (String.ofList (w.filter (· != '_')))) := rfl

theorem decides_int : Decides (intLiteral w) [⟨.intLiteral, sp, w⟩] := by
  rw [intLiteral_eq]
  have valid : (⟨.intLiteral, sp, w⟩ : Token).Valid ↔ ∃ m, inRange? w = some m := by
    simp only [Token.Valid, inRange?, Option.bind_eq_some_iff, ← int64?_natCast]
    constructor
    · rintro ⟨n, found, m, fits⟩
      exact ⟨m, n, found, fits⟩
    · rintro ⟨m, n, found, fits⟩
      exact ⟨n, found, m, fits⟩
  refine decides_one (fun good => ?_) (fun bad => ?_)
  · obtain ⟨m, fits⟩ := valid.mp good
    exact ⟨m, by rw [fits]⟩
  · rw [valid, not_exists] at bad
    rw [Option.eq_none_iff_forall_ne_some.mpr bad]
    rfl

theorem decides_float : Decides (floatLiteral w) [⟨.floatLiteral, sp, w⟩] := by
  have valid : (⟨.floatLiteral, sp, w⟩ : Token).Valid ↔
      ∃ x, ((Decimal.ofText? w).map Decimal.toFloat).filter Binary64.isFinite = some x := by
    simp [Token.Valid, Option.filter_eq_some_iff]
  refine decides_one (fun good => ?_) (fun bad => ?_)
  · obtain ⟨x, finite⟩ := valid.mp good
    exact ⟨x, by rw [floatLiteral, finite]⟩
  · rw [valid, not_exists] at bad
    rw [floatLiteral, Option.eq_none_iff_forall_ne_some.mpr bad]
    rfl

theorem decides_string : Decides (stringInside w) [⟨.stringInner, sp, w⟩] := by
  refine decides_one (fun good => ?_) (fun bad => ?_)
  · obtain ⟨s, read⟩ : ∃ s, Quoted.unescape w = some s := good
    exact ⟨String.ofList s, by rw [stringInside, read]⟩
  · have none : Quoted.unescape w = none :=
      Option.eq_none_iff_forall_ne_some.mpr fun s read => bad ⟨s, read⟩
    rw [stringInside, none]
    rfl

theorem decides_type {s : Span} :
    Decides (typeSuffix (.node .typeSuffix s [.leaf .typeName sp w])) [⟨.typeName, sp, w⟩] := by
  refine decides_one (fun good => ?_) (fun bad => ?_)
  · obtain ⟨tag, known⟩ : ∃ tag, Tag.ofName? (String.ofList w) = some tag := good
    exact ⟨⟨tag, sp⟩, by rw [typeSuffix, known]⟩
  · have none : Tag.ofName? (String.ofList w) = none :=
      Option.eq_none_iff_forall_ne_some.mpr fun tag known => bad ⟨tag, known⟩
    rw [typeSuffix, none]
    rfl

end Single

end Build

end Dil
