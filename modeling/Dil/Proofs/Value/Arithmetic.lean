import Dil.Value.Operation

/-!
Arithmetic on integers of 64 bits: the exact result where it fits, and an overflow where not. A
remainder is checked by its quotient, which leaves the range in one place, where the remainder
does not.
-/

namespace Dil

def Fits (n : Int) : Prop := Int64.minValue.toInt ≤ n ∧ n ≤ Int64.maxValue.toInt

instance (n : Int) : Decidable (Fits n) := inferInstanceAs (Decidable (_ ∧ _))

theorem fits_iff {n : Int} : Fits n ↔ -0x8000000000000000 ≤ n ∧ n < 0x8000000000000000 :=
  and_congr Iff.rfl Int.lt_add_one_iff.symm

theorem fits_toInt (n : Int64) : Fits n.toInt := ⟨Int64.minValue_le_toInt n, Int64.toInt_le n⟩

theorem int64?_of_fits {n : Int} (fits : Fits n) : ∃ m : Int64, m.toInt = n ∧ int64? n = some m := by
  obtain ⟨lower, upper⟩ := fits_iff.mp fits
  exact ⟨Int64.ofInt n, Int64.toInt_ofInt_of_le lower upper, if_pos fits⟩

theorem int64?_of_not_fits {n : Int} (outside : ¬ Fits n) : int64? n = none := if_neg outside

namespace Value

variable {sign : String} {tested exact : Int}

def answerOf (sign : String) : Option Int64 → Except EvalError Value
  | some n => .ok (.int n)
  | none => .error (.integerOverflow sign)

theorem arithmetic_ints (op : BinaryOp) (m n : Int64) :
    arithmetic op (.int m) (.int n) = answerOf op.symbol (exactInt? op m.toInt n.toInt) := by
  cases result : exactInt? op m.toInt n.toInt <;> simp [arithmetic, result, answerOf]

theorem operateUnary_neg (n : Int64) :
    operateUnary .neg (.int n) = answerOf "-" (int64? (-n.toInt)) := by
  cases result : int64? (-n.toInt) <;> simp [operateUnary, result, answerOf, UnaryOp.symbol]

theorem operate_ints (op : BinaryOp) {m n : Int64}
    (whole : op ∈ [.add, .sub, .mul] ∨ op ∈ [.div, .mod] ∧ n ≠ 0) :
    operate op (.int m) (.int n) = answerOf op.symbol (exactInt? op m.toInt n.toInt) := by
  rw [← arithmetic_ints]
  rcases whole with ring | ⟨divides, nonzero⟩
  · simp only [List.mem_cons, List.not_mem_nil, or_false] at ring
    obtain rfl | rfl | rfl := ring <;> rfl
  · have divisor : (Value.int n).isZero = false := by simpa [isZero] using nonzero
    simp only [List.mem_cons, List.not_mem_nil, or_false] at divides
    obtain rfl | rfl := divides <;> simp [operate, division, divisor]

/-- An answer is the exact integer while the tested one fits, and an overflow exactly when that
does not fit. -/
structure Checked (sign : String) (tested exact : Int) (answer : Except EvalError Value) : Prop where
  returns : Fits tested → ∃ c : Int64, c.toInt = exact ∧ answer = .ok (.int c)
  overflows : answer = .error (.integerOverflow sign) ↔ ¬ Fits tested

theorem checked_answerOf {result : Option Int64}
    (found : Fits tested → ∃ c : Int64, c.toInt = exact ∧ result = some c)
    (missing : ¬ Fits tested → result = none) : Checked sign tested exact (answerOf sign result) := by
  refine ⟨fun fits => ?_, fun overflow fits => ?_, fun outside => ?_⟩
  · obtain ⟨c, value, rfl⟩ := found fits
    exact ⟨c, value, rfl⟩
  · obtain ⟨c, -, rfl⟩ := found fits
    cases overflow
  · rw [missing outside]
    rfl

theorem checked_exact (n : Int) : Checked sign n n (answerOf sign (int64? n)) :=
  checked_answerOf int64?_of_fits int64?_of_not_fits

theorem fits_tmod (m : Int) {n : Int64} (nonzero : n ≠ 0) : Fits (m.tmod n.toInt) := by
  have divisor := fits_iff.mp (fits_toInt n)
  have positive : 0 < n.toInt.natAbs :=
    Int.natAbs_pos.mpr fun zero => nonzero (Int64.toInt_inj.mp zero)
  have below : (m.tmod n.toInt).natAbs < n.toInt.natAbs := by
    rw [Int.natAbs_tmod]
    exact Nat.mod_lt _ positive
  rw [fits_iff]
  omega

theorem checked_remainder {m n : Int64} (nonzero : n ≠ 0) :
    Checked "%" (m.toInt.tdiv n.toInt) (m.toInt - m.toInt.tdiv n.toInt * n.toInt)
      (answerOf "%" (exactInt? .mod m.toInt n.toInt)) := by
  have value : m.toInt - m.toInt.tdiv n.toInt * n.toInt = m.toInt.tmod n.toInt := by
    rw [Int.tmod_def, Int.mul_comm]
  rw [value]
  refine checked_answerOf (fun fits => ?_) (fun outside => ?_)
  · obtain ⟨q, -, quotient⟩ := int64?_of_fits fits
    obtain ⟨c, exact, remainder⟩ := int64?_of_fits (fits_tmod m.toInt nonzero)
    exact ⟨c, exact, by simp [exactInt?, quotient, remainder]⟩
  · simp [exactInt?, int64?_of_not_fits outside]

/-- A quotient is no larger than its dividend, so that it fits but for the least integer, which has
no positive counterpart. -/
theorem fits_tdiv_iff {m n : Int64} :
    Fits (m.toInt.tdiv n.toInt) ↔ ¬ (m = Int64.minValue ∧ n = -1) := by
  constructor
  · rintro ⟨-, upper⟩ ⟨rfl, rfl⟩
    exact absurd upper (by decide)
  · intro other
    have dividend := fits_iff.mp (fits_toInt m)
    have bound := Int.natAbs_tdiv_le_natAbs m.toInt n.toInt
    rw [fits_iff]
    refine ⟨by omega, Int.lt_of_not_ge fun top => other ?_⟩
    have least : m.toInt = -0x8000000000000000 := by omega
    have magnitude : m.toInt.natAbs = 0x8000000000000000 := by omega
    have quotient : (m.toInt.tdiv n.toInt).natAbs = m.toInt.natAbs / n.toInt.natAbs :=
      Int.natAbs_tdiv m.toInt n.toInt
    rw [magnitude] at quotient
    have small : n.toInt.natAbs ≤ 1 := by
      refine Nat.le_of_not_lt fun large => ?_
      have shrinks := Nat.div_lt_self (n := 0x8000000000000000) (by decide) large
      omega
    have units : n.toInt = -1 ∨ n.toInt = 0 ∨ n.toInt = 1 := by omega
    rcases units with unit | zero | unit
    · exact ⟨Int64.toInt_inj.mp least, Int64.toInt_inj.mp unit⟩
    · rw [least, zero] at top
      exact absurd top (by decide)
    · rw [least, unit] at top
      exact absurd top (by decide)

/-- Sums, differences, products, quotients and negations of integers are exact or overflow exactly
when they do not fit. A remainder is exact while its quotient fits, which it does but for the least
integer by minus one. -/
theorem integer_arithmetic_checked (m n : Int64) :
    Checked "+" (m.toInt + n.toInt) (m.toInt + n.toInt) (operate .add (.int m) (.int n))
      ∧ Checked "-" (m.toInt - n.toInt) (m.toInt - n.toInt) (operate .sub (.int m) (.int n))
      ∧ Checked "*" (m.toInt * n.toInt) (m.toInt * n.toInt) (operate .mul (.int m) (.int n))
      ∧ (n ≠ 0 →
          Checked "/" (m.toInt.tdiv n.toInt) (m.toInt.tdiv n.toInt) (operate .div (.int m) (.int n))
            ∧ Checked "%" (m.toInt.tdiv n.toInt) (m.toInt - m.toInt.tdiv n.toInt * n.toInt)
                (operate .mod (.int m) (.int n))
            ∧ (Fits (m.toInt.tdiv n.toInt) ↔ ¬ (m = Int64.minValue ∧ n = -1)))
      ∧ (n = 0 → operate .div (.int m) (.int n) = .error .divisionByZero
          ∧ operate .mod (.int m) (.int n) = .error .divisionByZero)
      ∧ Checked "-" (-m.toInt) (-m.toInt) (operateUnary .neg (.int m)) := by
  refine ⟨?_, ?_, ?_, fun nonzero => ⟨?_, ?_, fits_tdiv_iff⟩, ?_, ?_⟩
  · rw [operate_ints .add (Or.inl (by simp))]
    exact checked_exact _
  · rw [operate_ints .sub (Or.inl (by simp))]
    exact checked_exact _
  · rw [operate_ints .mul (Or.inl (by simp))]
    exact checked_exact _
  · rw [operate_ints .div (Or.inr ⟨by simp, nonzero⟩)]
    exact checked_exact _
  · rw [operate_ints .mod (Or.inr ⟨by simp, nonzero⟩)]
    exact checked_remainder nonzero
  · rintro rfl
    exact ⟨rfl, rfl⟩
  · rw [operateUnary_neg]
    exact checked_exact _

theorem remainder_checked_by_quotient :
    Checked "%" (-3) (-1) (operate .mod (.int (-7)) (.int 2))
      ∧ operate .mod (.int 5) (.int 0) = .error .divisionByZero := by
  have divided := (integer_arithmetic_checked (-7) 2).2.2.2.1 (by decide)
  have undivided := (integer_arithmetic_checked 5 0).2.2.2.2.1 rfl
  exact ⟨divided.2.1, undivided.2⟩

theorem least_remainder_refused :
    Int64.minValue.toInt - Int64.minValue.toInt.tdiv (-1 : Int64).toInt * (-1 : Int64).toInt = 0
      ∧ Fits 0
      ∧ operate .mod (.int Int64.minValue) (.int (-1)) = .error (.integerOverflow "%") :=
  ⟨by decide, by decide, rfl⟩

end Value

end Dil
