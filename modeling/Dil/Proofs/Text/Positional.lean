import Mathlib.Data.Nat.Digits.Defs
import Dil.Proofs.Text.Numeral

namespace Dil.Numeral

def IsDigit (base : Nat) (c : Char) (value : Nat) : Prop :=
  value < base ∧ (c = Nat.digitChar value ∨ c = (Nat.digitChar value).toUpper)

instance (base value : Nat) (c : Char) : Decidable (IsDigit base c value) :=
  inferInstanceAs (Decidable (_ ∧ _))

/-- One or more digits of a base, and the number they stand for. The last digit counts ones. -/
def Denotes (base : Nat) (digits : List Char) (n : Nat) : Prop :=
  digits ≠ [] ∧ ∃ values, List.Forall₂ (IsDigit base) digits values ∧
    n = Nat.ofDigits base values.reverse

variable {base n m v : Nat} {c : Char} {digits : List Char}

theorem isDigit_of_range {a b : Char} {least : Nat} (range : a ≤ c ∧ c ≤ b)
    (each : ∀ k < b.toNat + 1, a.toNat ≤ k → IsDigit base (Char.ofNat k) (k - a.toNat + least)) :
    IsDigit base c (c.toNat - a.toNat + least) := by
  have low : a.toNat ≤ c.toNat := UInt32.le_iff_toNat_le.mp range.1
  have high : c.toNat ≤ b.toNat := UInt32.le_iff_toNat_le.mp range.2
  have here := each c.toNat (Nat.lt_succ_of_le high) low
  rwa [Char.ofNat_toNat] at here

theorem digit_eq_some_iff : digit? c = some v ↔ IsDigit 16 c v := by
  constructor
  · intro digit
    unfold digit? at digit
    split at digit
    · rename_i decimal
      cases digit
      have here : IsDigit 16 c (c.toNat - '0'.toNat + 0) := isDigit_of_range decimal (by decide)
      exact here
    · split at digit
      · rename_i lower
        cases digit
        exact isDigit_of_range lower (by decide)
      · split at digit
        · rename_i upper
          cases digit
          exact isDigit_of_range upper (by decide)
        · cases digit
  · rintro ⟨low, rfl | rfl⟩
    · interval_cases v <;> rfl
    · interval_cases v <;> rfl

theorem digitIn_eq_some_iff (small : base ≤ 16) : digitIn? base c = some v ↔ IsDigit base c v := by
  rw [digitIn?, Option.filter_eq_some_iff, digit_eq_some_iff, decide_eq_true_eq]
  constructor
  · rintro ⟨⟨-, spelt⟩, below⟩
    exact ⟨below, spelt⟩
  · rintro ⟨below, spelt⟩
    exact ⟨⟨Nat.lt_of_lt_of_le below small, spelt⟩, below⟩

theorem readFrom_eq_some_iff (small : base ≤ 16) :
    readFrom base m digits = some n ↔ ∃ values, List.Forall₂ (IsDigit base) digits values ∧
      n = m * base ^ values.length + Nat.ofDigits base values.reverse := by
  induction digits generalizing m with
  | nil =>
      rw [readFrom, Option.some.injEq]
      constructor
      · rintro rfl
        exact ⟨[], .nil, by simp⟩
      · rintro ⟨_, ⟨⟩, rfl⟩
        simp
  | cons d ds ih =>
      have place (v : Nat) (values : List Nat) :
          (m * base + v) * base ^ values.length + Nat.ofDigits base values.reverse
            = m * base ^ (v :: values).length + Nat.ofDigits base (v :: values).reverse := by
        rw [Nat.ofDigits_reverse_cons, List.length_cons]
        ring
      simp only [readFrom, Option.bind_eq_some_iff, digitIn_eq_some_iff small, ih]
      constructor
      · rintro ⟨v, digit, values, others, rfl⟩
        exact ⟨v :: values, .cons digit others, place v values⟩
      · rintro ⟨_, _ | ⟨digit, others⟩, rfl⟩
        exact ⟨_, digit, _, others, (place _ _).symm⟩

theorem natural_eq_some_iff (small : base ≤ 16) :
    natural? base digits = some n ↔ Denotes base digits n := by
  cases digits with
  | nil => simp [natural?, Denotes]
  | cons d ds => simp [natural?, Denotes, readFrom_eq_some_iff small]

theorem values_iff : (∃ values, List.Forall₂ (IsDigit base) digits values)
    ↔ ∀ d ∈ digits, ∃ v, IsDigit base d v := by
  induction digits with
  | nil => exact ⟨fun _ => nofun, fun _ => ⟨[], .nil⟩⟩
  | cons d ds ih =>
      rw [List.forall_mem_cons, ← ih]
      constructor
      · rintro ⟨_, _ | ⟨digit, others⟩⟩
        exact ⟨⟨_, digit⟩, _, others⟩
      · rintro ⟨⟨v, digit⟩, values, others⟩
        exact ⟨v :: values, .cons digit others⟩

theorem exists_denotes_iff : (∃ n, Denotes base digits n)
    ↔ digits ≠ [] ∧ ∀ d ∈ digits, ∃ v, IsDigit base d v := by
  rw [← values_iff]
  constructor
  · rintro ⟨n, some, values, spelt, -⟩
    exact ⟨some, values, spelt⟩
  · rintro ⟨some, values, spelt⟩
    exact ⟨_, some, values, spelt, rfl⟩

theorem denotes_ofNat (high : 2 ≤ base) (small : base ≤ 16) (n : Nat) :
    Denotes base (ofNat base n) n :=
  (natural_eq_some_iff small).mp (natural_ofNat high small n)

/-- A decimal number with at most one sign in front, and the integer that it stands for. -/
inductive Signed : List Char → Int → Prop where
  | plain {digits : List Char} {n : Nat} (number : Denotes 10 digits n) : Signed digits n
  | plus {digits : List Char} {n : Nat} (number : Denotes 10 digits n) : Signed ('+' :: digits) n
  | minus {digits : List Char} {n : Nat} (number : Denotes 10 digits n) : Signed ('-' :: digits) (-n)

theorem integer_eq_some_iff {i : Int} : integer? digits = some i ↔ Signed digits i := by
  have decimal {digits n} : natural? 10 digits = some n ↔ Denotes 10 digits n :=
    natural_eq_some_iff (by decide)
  constructor
  · intro read
    unfold integer? at read
    split at read <;> obtain ⟨n, number, rfl⟩ := Option.map_eq_some_iff.mp read
    · exact .plus (decimal.mp number)
    · exact .minus (decimal.mp number)
    · exact .plain (decimal.mp number)
  · rintro (number | number | number) <;> have read := decimal.mpr number
    · unfold integer?
      -- No sign is a digit.
      split
      · cases read
      · cases read
      · rw [read]
        rfl
    · simp [integer?, read]
    · simp [integer?, read]

theorem signed_ofInt (i : Int) : Signed (ofInt i) i := by
  have number : Denotes 10 (ofNat 10 i.natAbs) i.natAbs := denotes_ofNat (by decide) (by decide) _
  rw [ofInt]
  split
  · have signed := Signed.minus number
    rwa [show -(i.natAbs : Int) = i by omega] at signed
  · have unsigned := Signed.plain number
    rwa [show (i.natAbs : Int) = i by omega] at unsigned

end Dil.Numeral
