import Dil.Grammar
import Dil.Proofs.Layout

/-!
Texts as tokens. A text lays out a list of tokens if they stand in it one behind the other, with
layout at will between them, and no two of them run together.
-/

namespace Dil.Reading

open Rule (isWordChar)

def isSign (c : Char) : Bool :=
  ['+', '-', '*', '/', '%', '<', '>', '=', '!', '&', '|'].contains c

/-- Whether two characters next to each other may be taken for parts of one token. -/
def runsOn (a b : Char) : Bool :=
  isWordChar a && (isWordChar b || b == '.') || isSign a && isSign b

def Apart (token rest : List Char) : Prop :=
  ∀ a ∈ token.getLast?, ∀ b ∈ rest.head?, runsOn a b = false

/-- The text is the given tokens with layout between them. -/
def Laid (text : List Char) : List String → Prop
  | [] => Layout.behind text = []
  | t :: ts =>
    ∃ rest, Layout.behind text = t.toList ++ rest ∧ t.toList ≠ [] ∧ Apart t.toList rest ∧ Laid rest ts

/-- A reader stands before the first of the given tokens, with all layout behind it. -/
structure Stands (c : Cursor) (tokens : List String) : Prop where
  still : Layout.skip c = c
  laid : Laid c.rest tokens

def leading (text : List Char) : List Char := text.takeWhile isWordChar

def firstWord (tokens : List String) : List Char := (tokens.head?.map fun t => leading t.toList).getD []

def firstChar (tokens : List String) : Option Char := tokens.head?.bind fun t => t.toList.head?

section Words

variable {w x : List Char}

theorem leading_append_of_word (word : ∀ c ∈ w, isWordChar c = true)
    (ends : ∀ c ∈ x.head?, isWordChar c = false) : leading (w ++ x) = w := by
  have none : x.takeWhile isWordChar = [] := by
    cases x with
    | nil => rfl
    | cons c cs => simp [ends c rfl]
  rw [leading, List.takeWhile_append_of_pos word, none, List.append_nil]

theorem leading_append_of_other {c : Char} (member : c ∈ w) (other : isWordChar c = false) :
    leading (w ++ x) = leading w := by
  induction w with
  | nil => cases member
  | cons d ds ih =>
      by_cases word : isWordChar d = true
      · have later : c ∈ ds := by
          cases member with
          | head => simp [other] at word
          | tail _ later => exact later
        simp only [leading, List.cons_append, List.takeWhile_cons, word] at ih ⊢
        rw [ih later]
      · simp [leading, word]

theorem Apart.leading (apart : Apart w x) (nonempty : w ≠ []) :
    leading (w ++ x) = Reading.leading w := by
  by_cases word : ∀ c ∈ w, isWordChar c = true
  · have whole : Reading.leading w = w := by
      simpa using leading_append_of_word word (x := []) nofun
    rw [whole, leading_append_of_word word]
    intro b next
    have last := apart _ (List.getLast?_eq_some_getLast nonempty) b next
    have lastWord := word _ (List.getLast_mem nonempty)
    simp only [runsOn, lastWord, Bool.true_and, Bool.or_eq_false_iff] at last
    exact last.1.1
  · push Not at word
    obtain ⟨c, member, other⟩ := word
    exact leading_append_of_other member (by simpa using other)

end Words

section Laid

variable {c : Cursor} {text : List Char} {t : String} {ts : List String}

theorem laid_behind : Laid (Layout.behind text) ts ↔ Laid text ts := by
  cases ts with
  | nil => simp only [Laid, Layout.behind_behind]
  | cons t ts => simp only [Laid, Layout.behind_behind]

theorem Laid.stands (laid : Laid c.rest ts) : Stands (Layout.skip c) ts where
  still := Layout.skip_skip c
  laid := by
    rw [Layout.skip_rest]
    exact laid_behind.mpr laid

theorem Stands.behind (stands : Stands c ts) : Layout.behind c.rest = c.rest := by
  rw [← Layout.skip_rest, stands.still]

theorem Stands.nil (stands : Stands c []) : c.rest = [] := by
  rw [← stands.behind]
  exact stands.laid

theorem Stands.cons (stands : Stands c (t :: ts)) :
    ∃ rest, c.rest = t.toList ++ rest ∧ t.toList ≠ [] ∧ Apart t.toList rest ∧ Laid rest ts := by
  obtain ⟨rest, next, nonempty, apart, laid⟩ := stands.laid
  rw [stands.behind] at next
  exact ⟨rest, next, nonempty, apart, laid⟩

theorem Stands.leading (stands : Stands c ts) : leading c.rest = firstWord ts := by
  cases ts with
  | nil =>
      rw [stands.nil]
      rfl
  | cons t ts =>
      obtain ⟨rest, next, nonempty, apart, _⟩ := stands.cons
      rw [next, apart.leading nonempty]
      rfl

theorem Stands.head (stands : Stands c ts) : c.rest.head? = firstChar ts := by
  cases ts with
  | nil =>
      rw [stands.nil]
      rfl
  | cons t ts =>
      obtain ⟨rest, next, nonempty, _, _⟩ := stands.cons
      rw [next, List.head?_append_of_ne_nil _ nonempty]
      rfl

end Laid

end Dil.Reading
