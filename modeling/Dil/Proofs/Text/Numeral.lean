import Mathlib.Tactic.IntervalCases
import Dil.Syntax.OfTree

namespace Dil.Numeral

variable {base n d : Nat}

theorem digitIn_digitChar (small : base ≤ 16) (digit : d < base) :
    digitIn? base (digitChar d) = some d := by
  have value : digit? (digitChar d) = some d := by
    have low : d < 16 := Nat.lt_of_lt_of_le digit small
    interval_cases d <;> rfl
  simp [digitIn?, value, digit]

theorem digitsFromLast_lt (high : 2 ≤ base) (count n : Nat) :
    ∀ d ∈ digitsFromLast base count n, d < base := by
  have positive : 0 < base := Nat.lt_of_lt_of_le Nat.two_pos high
  induction count generalizing n with
  | zero => exact nofun
  | succ count ih =>
      rw [digitsFromLast]
      split
      · rename_i low
        simpa using low
      · intro d member
        cases member with
        | head => exact Nat.mod_lt n positive
        | tail _ later => exact ih (n / base) d later

theorem digitsFromLast_value (high : 2 ≤ base) {count : Nat} (enough : n < count) :
    (digitsFromLast base count n).foldr (fun d value => value * base + d) 0 = n := by
  induction count generalizing n with
  | zero => omega
  | succ count ih =>
      rw [digitsFromLast]
      split
      · simp
      · rename_i large
        have smaller : n / base < n := Nat.div_lt_self (by omega) high
        rw [List.foldr_cons, ih (by omega)]
        exact Nat.div_add_mod' n base

theorem readFrom_digits (small : base ≤ 16) (ds : List Nat) (digits : ∀ d ∈ ds, d < base)
    (value : Nat) :
    readFrom base value (ds.map digitChar)
      = some (ds.foldl (fun value d => value * base + d) value) := by
  induction ds generalizing value with
  | nil => rfl
  | cons d ds ih =>
      have head := digitIn_digitChar small (digits d List.mem_cons_self)
      simp only [List.map_cons, readFrom, head, Option.bind_some, List.foldl_cons]
      exact ih (fun e member => digits e (List.mem_cons_of_mem _ member)) _

theorem ofNat_ne_nil (base n : Nat) : ofNat base n ≠ [] := by
  have some : digitsFromLast base (n + 1) n ≠ [] := by
    rw [digitsFromLast]
    split <;> exact nofun
  simpa [ofNat] using some

theorem natural_ofNat (high : 2 ≤ base) (small : base ≤ 16) (n : Nat) :
    natural? base (ofNat base n) = some n := by
  have read : readFrom base 0 (ofNat base n) = some n := by
    have digits := digitsFromLast_lt high (n + 1) n
    rw [ofNat, ← List.map_reverse,
      readFrom_digits small _ (fun d member => digits d (List.mem_reverse.mp member)),
      List.foldl_reverse, digitsFromLast_value high (Nat.lt_succ_self n)]
  cases text : ofNat base n with
  | nil => exact absurd text (ofNat_ne_nil base n)
  | cons c cs =>
      rw [text] at read
      exact read

theorem ofNat_digits (high : 2 ≤ base) {c : Char} (member : c ∈ ofNat base n) :
    ∃ d < base, c = digitChar d := by
  rw [ofNat, List.mem_reverse, List.mem_map] at member
  obtain ⟨d, digit, rfl⟩ := member
  exact ⟨d, digitsFromLast_lt high (n + 1) n d digit, rfl⟩

theorem isDigit_of_decimal {c : Char} (member : c ∈ ofNat 10 n) : c.isDigit = true := by
  obtain ⟨d, digit, rfl⟩ := ofNat_digits (by omega) member
  interval_cases d <;> rfl

end Dil.Numeral

namespace Dil

theorem int64?_toInt (n : Int64) : int64? n.toInt = some n := by
  rw [int64?, if_pos ⟨Int64.minValue_le_toInt n, Int64.toInt_le n⟩, Int64.ofInt_toInt]

theorem int64?_eq_some_iff {i : Int} {n : Int64} : int64? i = some n ↔ n.toInt = i := by
  constructor
  · intro found
    unfold int64? at found
    split at found
    · rename_i range
      cases found
      exact Int64.toInt_ofInt_of_le range.1 (Int.lt_of_le_of_lt range.2 (by decide))
    · cases found
  · rintro rfl
    exact int64?_toInt n

theorem int64Text_toList {n : Int64} (positive : 0 ≤ n.toInt) :
    (int64Text n).toList = Numeral.ofNat 10 n.toInt.natAbs := by
  rw [int64Text, String.toList_ofList, Numeral.ofInt, if_neg (by omega)]

theorem Build.intLiteral_int64Text {n : Int64} (positive : 0 ≤ n.toInt) :
    Build.intLiteral (int64Text n).toList = .ok n := by
  have digits {c : Char} (member : c ∈ (int64Text n).toList) : c.isDigit = true := by
    rw [int64Text_toList positive] at member
    exact Numeral.isDigit_of_decimal member
  have plain : (int64Text n).toList.filter (· != '_') = (int64Text n).toList := by
    refine List.filter_eq_self.mpr fun c member => ?_
    have digit := digits member
    simp only [bne_iff_ne, ne_eq]
    rintro rfl
    cases digit
  have value : Numeral.natural? 10 (int64Text n).toList = some n.toInt.natAbs := by
    rw [int64Text_toList positive]
    exact Numeral.natural_ofNat (by omega) (by omega) _
  have positive' : (n.toInt.natAbs : Int) = n.toInt := Int.natAbs_of_nonneg positive
  have unmarked (mark : Char) (other : mark.isDigit = false) (ds : List Char) :
      (int64Text n).toList ≠ '0' :: mark :: ds := by
    intro same
    have digit : mark.isDigit = true := digits (by simp [same])
    simp [digit] at other
  simp [Build.intLiteral, plain, unmarked 'x' rfl, unmarked 'X' rfl, unmarked 'b' rfl,
    unmarked 'B' rfl, value, positive', int64?_toInt]

theorem Build.intLiteral_nonneg {text : List Char} {n : Int64} (built : Build.intLiteral text = .ok n) :
    0 ≤ n.toInt := by
  unfold Build.intLiteral at built
  simp only at built
  split at built
  · rename_i m found
    cases built
    obtain ⟨k, _, fits⟩ := Option.bind_eq_some_iff.mp found
    rw [int64?_eq_some_iff.mp fits]
    exact Int.natCast_nonneg k
  · cases built
end Dil
