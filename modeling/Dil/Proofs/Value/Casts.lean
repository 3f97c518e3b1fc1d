import Dil.Proofs.Text.Blank
import Dil.Proofs.Text.Positional
import Dil.Proofs.Value.Arithmetic
import Dil.Value.Cast

namespace Dil.Value

variable {s : String} {i : Int} {n : Int64}

/-- A text that is an integer in decimals between white space. -/
def HoldsInt (s : String) (i : Int) : Prop :=
  ∃ core, Text.Trims s.toList core ∧ Numeral.Signed core i

theorem cast_text (s : String) : (str s).cast .int = match intOfText? s with
    | some n => .ok (.int n)
    | none => .error (.invalidCast (str s).describe .int) := by
  rw [cast, if_neg nofun, convert?]
  cases intOfText? s <;> rfl

theorem toIndex_text (s : String) : (str s).toIndex = match intOfText? s with
    | some n => .ok n
    | none => .error (.invalidCast (str s).describe .int) := by
  rw [toIndex, cast_text]
  cases intOfText? s <;> rfl

theorem cast_int (n : Int64) : (int n).cast .str = .ok (.str (int64Text n)) := rfl

theorem holdsInt_iff : HoldsInt s i ↔ Numeral.integer? (Text.trim s.toList) = some i := by
  simp only [HoldsInt, ← Text.trim_eq_iff, exists_eq_left', Numeral.integer_eq_some_iff]

theorem intOfText_eq_some_iff : intOfText? s = some n ↔ HoldsInt s n.toInt := by
  simp only [intOfText?, Option.bind_eq_some_iff, int64?_eq_some_iff, holdsInt_iff,
    exists_eq_right']

theorem intOfText_isSome_iff : (∃ n, intOfText? s = some n)
    ↔ ∃ i, HoldsInt s i ∧ -0x8000000000000000 ≤ i ∧ i ≤ 0x7FFFFFFFFFFFFFFF := by
  simp only [intOfText_eq_some_iff]
  constructor
  · rintro ⟨n, holds⟩
    exact ⟨_, holds, fits_toInt n⟩
  · rintro ⟨i, holds, range⟩
    obtain ⟨n, rfl, -⟩ := int64?_of_fits range
    exact ⟨n, holds⟩

theorem ofInt_bare (i : Int) : ∀ c ∈ Numeral.ofInt i, Text.isBlank c = false := by
  have digits {m : Nat} : ∀ c ∈ Numeral.ofNat 10 m, Text.isBlank c = false := by
    intro c member
    obtain ⟨d, digit, rfl⟩ := Numeral.ofNat_digits (by decide) member
    interval_cases d <;> rfl
  rw [Numeral.ofInt]
  split
  · exact List.forall_mem_cons.mpr ⟨rfl, digits⟩
  · exact digits

theorem holdsInt_surrounded (i : Int) {front back : List Char}
    (before : ∀ c ∈ front, Text.isBlank c = true) (behind : ∀ c ∈ back, Text.isBlank c = true) :
    HoldsInt (String.ofList (front ++ Numeral.ofInt i ++ back)) i := by
  refine ⟨Numeral.ofInt i, ?_, Numeral.signed_ofInt i⟩
  rw [String.toList_ofList]
  exact .intro before behind (fun c first => ofInt_bare i c (List.mem_of_mem_head? first))
    fun c last => ofInt_bare i c (List.mem_of_mem_getLast? last)

/-- A text is cast to an integer, and taken as an index, exactly when it is an integer of 64 bits in
decimals between white space, and it is then that integer. So the text of an integer is cast back to
it, with any white space around it. -/
theorem texts_cast_exactly :
    (∀ (s : String) (n : Int64), ((str s).cast .int = .ok (.int n) ↔ HoldsInt s n.toInt)
        ∧ ((str s).toIndex = .ok n ↔ HoldsInt s n.toInt))
      ∧ (∀ s : String,
        let inRange := ∃ i, HoldsInt s i ∧ -0x8000000000000000 ≤ i ∧ i ≤ 0x7FFFFFFFFFFFFFFF
        ((∃ v, (str s).cast .int = .ok v) ↔ inRange) ∧ ((∃ n, (str s).toIndex = .ok n) ↔ inRange)
          ∧ (¬ inRange → (str s).cast .int = .error (.invalidCast (str s).describe .int)
            ∧ (str s).toIndex = .error (.invalidCast (str s).describe .int)))
      ∧ ∀ (n : Int64) (front back : List Char), (∀ c ∈ front, Text.isBlank c = true) →
          (∀ c ∈ back, Text.isBlank c = true) → ∃ t, (int n).cast .str = .ok (.str t)
            ∧ (str (String.ofList (front ++ t.toList ++ back))).cast .int = .ok (.int n)
            ∧ (str (String.ofList (front ++ t.toList ++ back))).toIndex = .ok n := by
  refine ⟨fun s n => ?_, fun s => ?_, fun n front back before behind => ?_⟩
  · rw [cast_text, toIndex_text, ← intOfText_eq_some_iff]
    cases intOfText? s <;> simp
  · rw [← intOfText_isSome_iff, cast_text, toIndex_text]
    cases intOfText? s <;> simp
  · have found := intOfText_eq_some_iff.mpr (holdsInt_surrounded n.toInt before behind)
    refine ⟨int64Text n, cast_int n, ?_⟩
    rw [int64Text, String.toList_ofList, cast_text, toIndex_text, found]
    exact ⟨rfl, rfl⟩

theorem text_casts_of_least_and_padded :
    (str " -0042\n").cast .int = .ok (.int (-42))
      ∧ (str "\t-9223372036854775808\u3000 ").toIndex = .ok Int64.minValue := by
  obtain ⟨exactly, -, back⟩ := texts_cast_exactly
  constructor
  · have trims : Text.Trims " -0042\n".toList "-0042".toList := by
      refine @Text.Trims.intro [' '] "-0042".toList ['\n'] ?_ ?_ ?_ ?_
      · exact List.all_eq_true.mp rfl
      · exact List.all_eq_true.mp rfl
      · rintro _ ⟨⟩
        rfl
      · rintro _ ⟨⟩
        rfl
    have number : Numeral.Denotes 10 "0042".toList 42 :=
      ⟨by decide, [0, 0, 4, 2], by decide, rfl⟩
    exact (exactly " -0042\n" (-42)).1.mpr ⟨"-0042".toList, trims, .minus number⟩
  · obtain ⟨t, text, -, index⟩ := back Int64.minValue ['\t'] ['\u3000', ' '] (List.all_eq_true.mp rfl)
      (List.all_eq_true.mp rfl)
    cases text
    exact index

end Dil.Value
