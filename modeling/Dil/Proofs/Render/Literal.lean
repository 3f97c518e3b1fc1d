import Dil.Proofs.Reading.Expressions
import Dil.Proofs.Reading.Writing
import Dil.Render.Text

namespace Dil

open Reading

/-- The shown value is written as the expression, with the given tokens. -/
inductive Shown.Literal : Shown → Expr → List String → Prop where
  | null : Literal .null (.null .nowhere) ["null"]
  | bool (b : Bool) : Literal (.bool b) (.bool .nowhere b) [boolText b]
  | natural {n : Int64} (positive : 0 ≤ n.toInt) :
    Literal (.int n) (.int .nowhere n) [int64Text n]
  | negative {n : Int64} (negative : n.toInt < 0) (positive : (-n).toInt = -n.toInt) :
    Literal (.int n) (.unary .nowhere .neg (.int .nowhere (-n))) ["-", int64Text (-n)]
  | str (s : String) : Literal (.str s) (.str .nowhere s) [Quoted.quote s]
  | list {ι : Type} {xs : List ι} {shown : ι → Shown} {value : ι → Expr}
    {tokens : ι → List String} (each : ∀ x ∈ xs, Literal (shown x) (value x) (tokens x)) :
    Literal (.list (xs.map shown)) (.array .nowhere (xs.map value))
      ("[" :: commaed (xs.map tokens) ++ ["]"])
  | record {ι : Type} {xs : List ι} {key : ι → String} {shown : ι → Shown} {value : ι → Expr}
    {tokens : ι → List String} (keys : ∀ x ∈ xs, isWord (key x).toList = true)
    (each : ∀ x ∈ xs, Literal (shown x) (value x) (tokens x)) :
    Literal (.record none (xs.map fun x => .mk (key x) (shown x)))
      (.map .nowhere (xs.map fun x => .mk ⟨key x, .nowhere⟩ (value x)))
      (openBrace :: commaed (xs.map fun x => key x :: ":" :: tokens x) ++ [closeBrace])

namespace Shown

variable {shown : Shown} {e : Expr} {tokens : List String}

theorem Literal.spells (literal : shown.Literal e tokens) : Spells .operand e tokens := by
  induction literal with
  | null => exact spells_raise_operand spells_null
  | bool b => exact spells_raise_operand (spells_bool b)
  | natural positive => exact spells_raise_operand (spells_int positive)
  | negative negative positive =>
      exact spells_operand [.neg] (spells_raise_path (spells_int (by omega)))
  | str s => exact spells_raise_operand (spells_str s)
  | list each ih =>
      exact spells_raise_operand (spells_array fun x member =>
        spells_raise_full (spells_raise_chain (ih x member)))
  | record keys each ih =>
      exact spells_raise_operand (spells_map (fun x member => .inr ⟨rfl, keys x member⟩)
        fun x member => spells_raise_full (spells_raise_chain (ih x member)))

theorem itemTexts_map {ι : Type} (xs : List ι) (shown : ι → Shown) :
    itemTexts (xs.map shown) = xs.map fun x => (shown x).text := by
  induction xs with
  | nil => rfl
  | cons x xs ih => rw [List.map_cons, itemTexts, ih, List.map_cons]

theorem entryTexts_map {ι : Type} (xs : List ι) (key : ι → String) (shown : ι → Shown) :
    entryTexts (xs.map fun x => .mk (key x) (shown x))
      = xs.map fun x => key x ++ ": " ++ (shown x).text := by
  induction xs with
  | nil => rfl
  | cons x xs ih => rw [List.map_cons, entryTexts, ih, List.map_cons]

theorem int64Text_negative {n : Int64} (negative : n.toInt < 0) (positive : (-n).toInt = -n.toInt) :
    (int64Text n).toList = '-' :: (int64Text (-n)).toList := by
  have natural : ¬ -n.toInt < 0 := by omega
  rw [int64Text, int64Text, positive, Numeral.ofInt, Numeral.ofInt, if_pos negative, if_neg natural,
    Int.natAbs_neg]
  simp

def IsBracket (t : String) : Prop :=
  ∃ c, t.toList = [c] ∧ isMark c = true ∧ Layout.isBlank c = false

theorem writes_enclosed {opening closing text : String} {tokens : List String}
    (opens : IsBracket opening) (closes : IsBracket closing) (writes : Writes text.toList tokens) :
    Writes (opening ++ text ++ closing).toList (opening :: tokens ++ [closing]) := by
  obtain ⟨a, start, startMark, startUnblank⟩ := opens
  obtain ⟨b, stop, stopMark, stopUnblank⟩ := closes
  have closed := writes.append (writes_char stop stopUnblank) nofun (apart_mark stopMark)
  have whole := closed.marked (by simp) start startMark startUnblank
  simpa [start, stop] using whole

theorem Literal.writes (literal : shown.Literal e tokens) :
    Writes shown.text.toList tokens ∧ shown.text.toList ≠ [] := by
  have solid {t : String} (solid : Solid t) : Writes t.toList [t] ∧ t.toList ≠ [] :=
    ⟨writes_token solid, solid.ne_nil⟩
  induction literal with
  | null => exact solid (solid_of_isWord (by decide))
  | bool b => exact solid (solid_of_isWord (by cases b <;> decide))
  | natural positive => exact solid (solid_int positive)
  | @negative n negative positive =>
      have natural : 0 ≤ (-n).toInt := by omega
      have digits := solid (solid_int natural)
      have apart : Apart ['-'] (int64Text (-n)).toList := by
        rintro a ⟨⟩ b next
        have digit := (int64Text_digits natural).1 b (List.mem_of_mem_head? next)
        simp [runsOn, isSign_of_digit digit, Rule.isWordChar, Char.isAlphanum]
      rw [text, int64Text_negative negative positive]
      exact ⟨(writes_char rfl rfl).append digits.1 digits.2 apart, List.cons_ne_nil _ _⟩
  | str s => exact solid (solid_quote s)
  | list each ih =>
      have items := writes_commaed (fun x member => (ih x member).1) fun x member => (ih x member).2
      rw [text, itemTexts_map]
      exact ⟨writes_enclosed ⟨'[', rfl, rfl, rfl⟩ ⟨']', rfl, rfl, rfl⟩ items, by simp⟩
  | @record ι xs key shown value tokens keys each ih =>
      have entry (x : ι) (member : x ∈ xs) :
          Writes (key x ++ ": " ++ (shown x).text).toList (key x :: ":" :: tokens x) := by
        obtain ⟨writes, nonempty⟩ := ih x member
        simpa using writes_entry (solid_of_isWord (keys x member)) writes nonempty
      have items := writes_commaed entry fun x _ => by simp
      rw [text, entryTexts_map, braced]
      exact ⟨writes_enclosed ⟨'{', rfl, rfl, rfl⟩ ⟨'}', rfl, rfl, rfl⟩ items, by simp [openBrace]⟩

end Shown

end Dil
