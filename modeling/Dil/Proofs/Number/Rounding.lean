import Mathlib
import Dil.Number.Binary64

/-!
Patterns and rounding of binary floats. A pattern that is a number is kept by the float made of it,
and the float nearest to an integer keeps the order of integers: strictly while one of them is below
the first integer that is not a float, and weakly after it.
-/

namespace Dil.Binary64

open Float.Model (Format)
open Float.Model.UnpackedFloat

section Patterns

variable {b : BitVec Format.binary64.numBits}

theorem unpackMantissa_toNat : (unpackMantissa b).toNat = b.toNat % exponentUnit := by
  simp [unpackMantissa, exponentUnit]

theorem unpackExponent_toNat : (unpackExponent b).toNat = b.toNat / exponentUnit % 0x800 := by
  simp [unpackExponent, exponentUnit, Nat.shiftRight_eq_div_pow]

theorem toBits_ofBits {bits : UInt64} (number : bits.toNat % signUnit ≤ infinityPattern) :
    (Float.ofBits bits).toBits = bits := by
  apply UInt64.toBitVec_inj.mp
  have infinite (top : @unpackExponent .binary64 bits.toBitVec = -1#11) :
      @unpackMantissa .binary64 bits.toBitVec = 0#52 := by
    have exponent := unpackExponent_toNat (b := bits.toBitVec)
    have fraction := unpackMantissa_toNat (b := bits.toBitVec)
    rw [top] at exponent
    apply BitVec.eq_of_toNat_eq
    rw [fraction]
    change 0x7FF = bits.toNat / _ % _ at exponent
    change bits.toNat % _ = 0
    unfold infinityPattern signUnit exponentUnit at *
    omega
  exact pack_unpack_of_valid ⟨fun top some => absurd (infinite top) some⟩ (by decide)

end Patterns

section Rounding

variable {m n : Nat}

/-- The significand of a rounded number, which reaches the next place when the rounding carries. -/
def significand (n : Nat) : Nat :=
  if n.log2 ≤ 52 then n * Nat.pow 2 (52 - n.log2) else roundedShift n (n.log2 - 52)

theorem patternOfNat_pos (positive : n ≠ 0) :
    patternOfNat n = (n.log2 + 1022) * exponentUnit + significand n := by
  simp [patternOfNat, significand, positive]

theorem roundedShift_bounds (n shift : Nat) :
    n / Nat.pow 2 shift ≤ roundedShift n shift
      ∧ roundedShift n shift ≤ n / Nat.pow 2 shift + 1 := by
  simp only [roundedShift]
  split_ifs <;> omega

theorem roundedShift_mono (shift : Nat) (below : m ≤ n) :
    roundedShift m shift ≤ roundedShift n shift := by
  have lower := roundedShift_bounds n shift
  have upper := roundedShift_bounds m shift
  obtain equal | less := Nat.eq_or_lt_of_le (Nat.div_le_div_right (c := Nat.pow 2 shift) below)
  · have rest : m % Nat.pow 2 shift ≤ n % Nat.pow 2 shift := by
      have whole := Nat.div_add_mod m (Nat.pow 2 shift)
      have whole' := Nat.div_add_mod n (Nat.pow 2 shift)
      rw [equal] at whole
      omega
    simp only [roundedShift, equal]
    split_ifs <;> omega
  · omega

def exactLimit : Nat := 0x20000000000000

theorem place_lt (small : n < exactLimit) : n.log2 ≤ 52 := by
  obtain rfl | positive := Nat.eq_zero_or_pos n
  · decide
  · exact Nat.lt_succ_iff.mp ((Nat.log2_lt (Nat.ne_of_gt positive)).mpr small)

theorem significand_low (positive : n ≠ 0) (low : n.log2 ≤ 52) :
    exponentUnit ≤ significand n ∧ significand n < 2 * exponentUnit := by
  have unit : exponentUnit = 2 ^ n.log2 * 2 ^ (52 - n.log2) := by
    rw [← Nat.pow_add, Nat.add_sub_cancel' low]
    rfl
  have half : 0 < 2 ^ (52 - n.log2) := Nat.two_pow_pos _
  have value : significand n = n * 2 ^ (52 - n.log2) := if_pos low
  rw [value, unit]
  refine ⟨Nat.mul_le_mul_right _ (Nat.log2_self_le positive), ?_⟩
  rw [← Nat.mul_assoc, Nat.mul_comm 2, ← Nat.pow_succ]
  exact Nat.mul_lt_mul_of_pos_right Nat.lt_log2_self half

theorem significand_high (positive : n ≠ 0) (high : 52 < n.log2) :
    exponentUnit ≤ significand n ∧ significand n ≤ 2 * exponentUnit := by
  have unit : exponentUnit * 2 ^ (n.log2 - 52) = 2 ^ n.log2 := by
    change 2 ^ 52 * _ = _
    rw [← Nat.pow_add, Nat.add_sub_cancel' (Nat.le_of_lt high)]
  have shift : 0 < 2 ^ (n.log2 - 52) := Nat.two_pow_pos _
  have value : significand n = roundedShift n (n.log2 - 52) := if_neg (Nat.not_le.mpr high)
  have bounds := roundedShift_bounds n (n.log2 - 52)
  have lower : exponentUnit ≤ n / 2 ^ (n.log2 - 52) := by
    rw [Nat.le_div_iff_mul_le shift, unit]
    exact Nat.log2_self_le positive
  have upper : n / 2 ^ (n.log2 - 52) < 2 * exponentUnit := by
    rw [Nat.div_lt_iff_lt_mul shift, Nat.mul_assoc, unit, Nat.mul_comm, ← Nat.pow_succ]
    exact Nat.lt_log2_self
  rw [value]
  exact ⟨Nat.le_trans lower bounds.1, Nat.le_trans bounds.2 upper⟩

theorem significand_bounds (positive : n ≠ 0) :
    exponentUnit ≤ significand n ∧ significand n ≤ 2 * exponentUnit := by
  obtain high | low := Nat.lt_or_ge 52 n.log2
  · exact significand_high positive high
  · have bounds := significand_low positive low
    exact ⟨bounds.1, Nat.le_of_lt bounds.2⟩

theorem log2_mono (below : m ≤ n) : m.log2 ≤ n.log2 := by
  rw [Nat.log2_eq_log_two, Nat.log2_eq_log_two]
  exact Nat.log_mono_right below

theorem significand_mono (place : m.log2 = n.log2) (below : m ≤ n) :
    significand m ≤ significand n := by
  simp only [significand, place]
  split
  · exact Nat.mul_le_mul_right _ below
  · exact roundedShift_mono _ below

/-- Between two places the exponent decides, since a carry reaches the next place at most. -/
theorem patternOfNat_mono (below : m ≤ n) : patternOfNat m ≤ patternOfNat n := by
  obtain rfl | positive := Nat.eq_zero_or_pos m
  · exact Nat.zero_le _
  have upper := (significand_bounds (n := m) (by omega)).2
  have lower := (significand_bounds (n := n) (by omega)).1
  rw [patternOfNat_pos (by omega), patternOfNat_pos (by omega)]
  obtain same | next := Nat.eq_or_lt_of_le (log2_mono below)
  · rw [same]
    exact Nat.add_le_add_left (significand_mono same below) _
  · have step := Nat.mul_le_mul_right exponentUnit (Nat.add_le_add_right next 1022)
    simp only [Nat.succ_eq_add_one, Nat.add_mul] at step ⊢
    omega

theorem patternOfNat_lt (less : m < n) (small : m < exactLimit) :
    patternOfNat m < patternOfNat n := by
  have lower := (significand_bounds (n := n) (by omega)).1
  have unit : 0 < exponentUnit := by decide
  rw [patternOfNat_pos (n := n) (by omega)]
  obtain rfl | positive := Nat.eq_zero_or_pos m
  · change 0 < _
    omega
  have low := place_lt small
  have upper := (significand_low (n := m) (by omega) low).2
  rw [patternOfNat_pos (by omega)]
  obtain same | next := Nat.eq_or_lt_of_le (log2_mono (Nat.le_of_lt less))
  · have shift : 0 < Nat.pow 2 (52 - n.log2) := Nat.two_pow_pos _
    rw [same]
    rw [same] at low
    simp only [significand, same, low, if_true]
    exact Nat.add_lt_add_left (Nat.mul_lt_mul_of_pos_right less shift) _
  · have step := Nat.mul_le_mul_right exponentUnit (Nat.add_le_add_right next 1022)
    simp only [Nat.succ_eq_add_one, Nat.add_mul] at step ⊢
    omega

theorem patternOfNat_lt_infinity (inside : n ≤ signUnit) : patternOfNat n < infinityPattern := by
  obtain rfl | positive := Nat.eq_zero_or_pos n
  · decide
  have place : n.log2 < 64 := by
    rw [Nat.log2_lt (by omega)]
    unfold signUnit at inside
    omega
  have upper := (significand_bounds (n := n) (by omega)).2
  have step : (n.log2 + 1022) * exponentUnit ≤ 1085 * exponentUnit :=
    Nat.mul_le_mul_right _ (by omega)
  rw [patternOfNat_pos (by omega)]
  unfold infinityPattern exponentUnit at *
  omega

end Rounding

section Keys

variable {a b : Int}

def roundedKey (n : Int) : Int :=
  if n < 0 then -(patternOfNat n.natAbs : Int) else patternOfNat n.natAbs

theorem orderKey_ofBits {bits : UInt64} (number : bits.toNat % signUnit ≤ infinityPattern) :
    orderKey? (Float.ofBits bits)
      = some (if signUnit ≤ bits.toNat then -((bits.toNat % signUnit : Nat) : Int)
          else (bits.toNat % signUnit : Nat)) := by
  simp only [orderKey?, toBits_ofBits number]
  rw [if_neg (Nat.not_lt.mpr number)]

theorem orderKey_ofInt (inside : a.natAbs ≤ signUnit) :
    orderKey? (ofInt a) = some (roundedKey a) := by
  have small := patternOfNat_lt_infinity inside
  have room : infinityPattern < signUnit := by decide
  obtain ⟨bits, chosen⟩ : ∃ bits : UInt64,
      UInt64.ofNat ((if a < 0 then signUnit else 0) + patternOfNat a.natAbs) = bits := ⟨_, rfl⟩
  have pattern : bits.toNat = (if a < 0 then signUnit else 0) + patternOfNat a.natAbs := by
    rw [← chosen]
    apply UInt64.toNat_ofNat_of_lt'
    change _ < 2 * signUnit
    split <;> omega
  have magnitude : bits.toNat % signUnit = patternOfNat a.natAbs := by
    rw [pattern]
    split
    · rw [Nat.add_mod_left, Nat.mod_eq_of_lt (by omega)]
    · rw [Nat.zero_add, Nat.mod_eq_of_lt (by omega)]
  rw [ofInt, chosen, orderKey_ofBits (by omega), magnitude, roundedKey]
  by_cases negative : a < 0
  · rw [if_pos negative, if_pos (by rw [pattern, if_pos negative]; omega)]
  · rw [if_neg negative, if_neg (by rw [pattern, if_neg negative]; omega)]

theorem roundedKey_mono (below : a ≤ b) : roundedKey a ≤ roundedKey b := by
  simp only [roundedKey]
  split <;> split
  · have := patternOfNat_mono (m := b.natAbs) (n := a.natAbs) (by omega)
    omega
  · omega
  · omega
  · have := patternOfNat_mono (m := a.natAbs) (n := b.natAbs) (by omega)
    omega

theorem roundedKey_lt (less : a < b) (small : a.natAbs < exactLimit ∨ b.natAbs < exactLimit) :
    roundedKey a < roundedKey b := by
  simp only [roundedKey]
  split <;> split
  · have := patternOfNat_lt (m := b.natAbs) (n := a.natAbs) (by omega) (by omega)
    omega
  · have := patternOfNat_lt (m := 0) (n := a.natAbs) (by omega) (by decide)
    omega
  · omega
  · have := patternOfNat_lt (m := a.natAbs) (n := b.natAbs) (by omega) (by omega)
    omega

/-- Two integers of one rounded place are equal, unless both are beyond the exact ones. -/
theorem roundedKey_inj (same : roundedKey a = roundedKey b)
    (small : a.natAbs < exactLimit ∨ b.natAbs < exactLimit) : a = b := by
  obtain less | equal | greater := Int.lt_trichotomy a b
  · have := roundedKey_lt less small
    omega
  · exact equal
  · have := roundedKey_lt greater small.symm
    omega

end Keys

end Dil.Binary64
