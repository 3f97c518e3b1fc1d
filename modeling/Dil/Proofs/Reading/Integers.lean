import Dil.Proofs.Peg.Choices
import Dil.Proofs.Text.Positional

namespace Dil.Reading

open Numeral (IsDigit)
open Rule (Part)

/-- What a literal of a base may start with. -/
def marks : Nat → List String
  | 2 => ["0b", "0B"]
  | 10 => [""]
  | 16 => ["0x", "0X"]
  | _ => []

def digitTest : Nat → Char → Bool
  | 2 => Rule.isBinDigit
  | 16 => Rule.isHexDigit
  | _ => Rule.isDigit

/-- A literal of a base, and its digits without the underscores between and behind them. -/
inductive IntText : Nat → List Char → List Char → Prop where
  | intro {base : Nat} {mark : String} {x : Char} {xs : List Char} (marked : mark ∈ marks base)
      (first : ∃ v, IsDigit base x v) (others : ∀ y ∈ xs, (∃ v, IsDigit base y v) ∨ y = '_') :
      IntText base (mark.toList ++ x :: xs) (x :: xs.filter (· != '_'))

variable {base : Nat} {x : Char} {xs w digits rest : List Char} {c : Cursor}

theorem isDigit_iff : Rule.isDigit x = true ↔ ∃ v, IsDigit 10 x v := by
  constructor
  · intro digit
    simp only [Rule.isDigit, Char.isDigit, Bool.and_eq_true, decide_eq_true_eq] at digit
    have value : IsDigit 10 x (x.toNat - '0'.toNat + 0) := Numeral.isDigit_of_range digit (by decide)
    exact ⟨_, value⟩
  · rintro ⟨v, low, rfl | rfl⟩ <;> interval_cases v <;> rfl

theorem isHexDigit_iff : Rule.isHexDigit x = true ↔ ∃ v, IsDigit 16 x v := by
  constructor
  · intro digit
    simp only [Rule.isHexDigit, Bool.or_eq_true, Bool.and_eq_true, decide_eq_true_eq] at digit
    rcases digit with (digit | lower) | upper
    · obtain ⟨v, low, spelt⟩ := isDigit_iff.mp digit
      exact ⟨v, by omega, spelt⟩
    · have value : IsDigit 16 x (x.toNat - 'a'.toNat + 10) := Numeral.isDigit_of_range lower (by decide)
      exact ⟨_, value⟩
    · have value : IsDigit 16 x (x.toNat - 'A'.toNat + 10) := Numeral.isDigit_of_range upper (by decide)
      exact ⟨_, value⟩
  · rintro ⟨v, low, rfl | rfl⟩ <;> interval_cases v <;> rfl

theorem isBinDigit_iff : Rule.isBinDigit x = true ↔ ∃ v, IsDigit 2 x v := by
  constructor
  · intro digit
    simp only [Rule.isBinDigit, Bool.or_eq_true, beq_iff_eq] at digit
    rcases digit with rfl | rfl
    · exact ⟨0, by decide⟩
    · exact ⟨1, by decide⟩
  · rintro ⟨v, low, rfl | rfl⟩ <;> interval_cases v <;> rfl

theorem base_of_mark {mark : String} (marked : mark ∈ marks base) : base = 2 ∨ base = 10 ∨ base = 16 := by
  unfold marks at marked
  split at marked
  · exact .inl rfl
  · exact .inr (.inl rfl)
  · exact .inr (.inr rfl)
  · cases marked

theorem digitTest_iff {mark : String} (marked : mark ∈ marks base) :
    digitTest base x = true ↔ ∃ v, IsDigit base x v := by
  obtain rfl | rfl | rfl := base_of_mark marked
  · exact isBinDigit_iff
  · exact isDigit_iff
  · exact isHexDigit_iff

theorem stops_digits {mark : String} (marked : mark ∈ marks base) (other : Rule.isWordChar x = false) :
    digitTest base x = false ∧ x ≠ '_' := by
  refine ⟨Bool.eq_false_iff.mpr fun digit => ?_, ?_⟩
  · obtain ⟨v, low, spelt⟩ := (digitTest_iff marked).mp digit
    have small : v < 16 := by
      obtain rfl | rfl | rfl := base_of_mark marked <;> omega
    have word : Rule.isWordChar x = true := by
      rcases spelt with rfl | rfl <;> interval_cases v <;> rfl
    exact Bool.false_ne_true (other.symm.trans word)
  · rintro rfl
    cases other

/-- The characters of a literal that are no decimal digits, but for those of other bases, are word
characters, and neither a point nor the start of an exponent. -/
theorem sign_cases (member : x ∈ ['_', 'x', 'X', 'b', 'B']) :
    x.isDigit = false ∧ Rule.isWordChar x = true ∧ x ≠ '.' ∧ x ≠ 'e' ∧ x ≠ 'E' := by
  simp only [List.mem_cons, List.not_mem_nil, or_false] at member
  rcases member with rfl | rfl | rfl | rfl | rfl <;> decide

theorem stops_decimal (other : Rule.isWordChar x = false) :
    x.isDigit = false ∧ x ∉ ['_', 'x', 'X', 'b', 'B'] := by
  have decimal : "" ∈ marks 10 := List.mem_singleton_self ""
  refine ⟨(stops_digits decimal other).1, fun member => ?_⟩
  exact Bool.false_ne_true (other.symm.trans (sign_cases member).2.1)

theorem mark_unique {mark other : String} (alike : other.toList.length = mark.toList.length)
    (begins : other.toList <+: mark.toList ++ rest) : other = mark := by
  have within : other.toList <+: mark.toList :=
    List.prefix_of_prefix_length_le begins (List.prefix_append _ _) (Nat.le_of_eq alike)
  exact String.toList_inj.mp (within.eq_of_length alike)

theorem settles_mark {ss : List String} {mark : String} (marked : mark ∈ ss)
    (alike : ∀ r ∈ ss, r.toList.length = mark.toList.length) (next : c.rest = mark.toList ++ rest) :
    grammar.Settles false (Peg.words ss) c (.matched [] (c.past mark.toList rest)) := by
  obtain ⟨before, after, rfl, first⟩ := List.eq_append_cons_of_mem marked
  refine Grammar.settles_words (fun r earlier begins => ?_) next
  rw [next] at begins
  have same : r = mark := mark_unique (alike r (List.mem_append_left _ earlier)) begins
  exact first (same ▸ earlier)

theorem settles_marks_refused {ss : List String} {mark : String} {accepts : Char → Bool}
    (apart : ∀ r ∈ ss, r.toList.length = mark.toList.length ∧ r ≠ mark)
    (next : c.rest = mark.toList ++ rest) :
    grammar.Settles false (Rule.digits ss accepts) c .refused := by
  refine .seqRefused (Grammar.settles_words_refused fun r member begins => ?_)
  rw [next] at begins
  exact (apart r member).2 (mark_unique (apart r member).1 begins)

theorem settles_marked {ss : List String} {mark : String} {accepts : Char → Bool} (marked : mark ∈ ss)
    (alike : ∀ r ∈ ss, r.toList.length = mark.toList.length) (first : accepts x = true)
    (others : ∀ y ∈ xs, accepts y = true ∨ y = '_') (next : c.rest = mark.toList ++ x :: xs ++ rest)
    (ends : ∀ y ∈ rest.head?, accepts y = false ∧ y ≠ '_') :
    grammar.Settles false (Rule.digits ss accepts) c (.matched [] (c.past (mark.toList ++ x :: xs) rest)) := by
  rw [List.append_assoc] at next
  have digits : grammar.Settles false
      (.seq (.char accepts) (.star (.char fun y => accepts y || y == '_')))
      (c.past mark.toList (x :: xs ++ rest)) _ :=
    Grammar.settles_char_chars first (fun y member => by simpa using others y member)
      (fun y follows => by simpa using ends y follows) rfl
  rw [Cursor.past_past] at digits
  exact .seq_joined (settles_mark marked alike next) digits

/-- Without a mark, digits and underscores are read up to where neither goes on, unless they are a
zero that belongs to a mark. -/
theorem settles_decimal (first : x.isDigit = true) (others : ∀ y ∈ xs, y.isDigit = true ∨ y = '_')
    (next : c.rest = x :: xs ++ rest)
    (ends : ∀ y ∈ rest.head?, y.isDigit = false ∧ y ∉ ['_', 'x', 'X', 'b', 'B']) :
    grammar.Settles false (Rule.body .intLiteral) c (.matched [] (c.past (x :: xs) rest)) := by
  have noMark (r : String) (z : Char) (spelt : r.toList = ['0', z]) (letter : z ∈ ['x', 'X', 'b', 'B']) :
      ¬ r.toList <+: c.rest := by
    rintro ⟨more, split⟩
    rw [next, spelt] at split
    have second : xs ++ rest = z :: more := (List.cons.inj split).2.symm
    cases xs with
    | nil =>
        rw [List.nil_append] at second
        exact (ends z (by simp [second])).2 (List.mem_cons_of_mem _ letter)
    | cons y ys =>
        obtain ⟨rfl, -⟩ := List.cons.inj second
        have other : y.isDigit = false := (sign_cases (List.mem_cons_of_mem _ letter)).1
        rcases others y List.mem_cons_self with digit | rfl
        · exact Bool.false_ne_true (other.symm.trans digit)
        · simp at letter
  have hex : grammar.Settles false (Rule.digits ["0x", "0X"] Rule.isHexDigit) c .refused := by
    refine .seqRefused (Grammar.settles_words_refused fun r member => ?_)
    simp only [List.mem_cons, List.not_mem_nil, or_false] at member
    rcases member with rfl | rfl
    · exact noMark _ 'x' rfl (by simp)
    · exact noMark _ 'X' rfl (by simp)
  have bin : grammar.Settles false (Rule.digits ["0b", "0B"] Rule.isBinDigit) c .refused := by
    refine .seqRefused (Grammar.settles_words_refused fun r member => ?_)
    simp only [List.mem_cons, List.not_mem_nil, or_false] at member
    rcases member with rfl | rfl
    · exact noMark _ 'b' rfl (by simp)
    · exact noMark _ 'B' rfl (by simp)
  refine .altSecond hex (.altSecond bin (Grammar.settles_char_chars first (fun y member => ?_)
    (fun y follows => ?_) next))
  · simpa [Rule.isDigit] using others y member
  · obtain ⟨other, apart⟩ := ends y follows
    simp only [List.mem_cons, not_or] at apart
    simp [Rule.isDigit, other, apart.1]

theorem settles_intText (text : IntText base w digits) (next : c.rest = w ++ rest)
    (ends : ∀ y ∈ rest.head?, Rule.isWordChar y = false) :
    grammar.Settles false (Rule.body .intLiteral) c (.matched [] (c.past w rest)) := by
  cases text with
  | @intro mark x xs marked first others =>
      rw [← digitTest_iff marked] at first
      simp only [← digitTest_iff marked] at others
      have stops (y : Char) (follows : y ∈ rest.head?) : digitTest base y = false ∧ y ≠ '_' :=
        stops_digits marked (ends y follows)
      obtain rfl | rfl | rfl := base_of_mark marked
      · have apart : ∀ mark ∈ marks 2, ∀ r ∈ marks 16,
            r.toList.length = mark.toList.length ∧ r ≠ mark := by decide
        have alike : ∀ mark ∈ marks 2, ∀ r ∈ marks 2, r.toList.length = mark.toList.length := by decide
        exact .altSecond (settles_marks_refused (apart mark marked) (next.trans (List.append_assoc ..)))
          (.altFirst (settles_marked marked (alike mark marked) first others next stops))
      · obtain rfl := List.mem_singleton.mp marked
        exact settles_decimal first others next fun y follows => stops_decimal (ends y follows)
      · have alike : ∀ mark ∈ marks 16, ∀ r ∈ marks 16, r.toList.length = mark.toList.length := by decide
        exact .altFirst (settles_marked marked (alike mark marked) first others next stops)

end Dil.Reading
