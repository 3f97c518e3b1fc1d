import Dil.Proofs.Reading.Lexemes
import Dil.Proofs.Seam.Starts

namespace Dil.Seam

open Rule (Part)

def unnumbered : List Rule :=
  [.stringLiteral, .mapLiteral, .arrayLiteral, .newExpr, .identifier, .parenExpr]

section Numbers

variable {F : Next} {q d : Cursor} {x : Char} {ts : List (Tree Rule)} {spaced : Bool}

theorem sign_refused {y : Char} {ys : List Char} (head : q.rest.head? = some x) (other : x ≠ y) :
    grammar.Settles spaced (.text (y :: ys)) q .refused := by
  refine Grammar.settles_word_refused fun begins => other ?_
  obtain ⟨rest, split⟩ := begins
  rw [← split] at head
  exact (Option.some.inj head).symm

theorem name_refused_of_digit (head : q.rest.head? = some x) (digit : x.isDigit = true) :
    grammar.Settles spaced (.rule .identifier) q .refused := by
  apply Reading.refusesWord_refuses
  obtain ⟨xs, rest⟩ := List.head?_eq_some_iff.mp head
  have word : Reading.leading q.rest = x :: xs.takeWhile Rule.isWordChar := by
    rw [rest, Reading.leading, List.takeWhile_cons, if_pos (Reading.isWordChar_of_digit digit)]
  have start : Rule.isWordStart x = false := by
    by_contra start
    have other : x.isDigit = false := Reading.isDigit_of_start (Bool.of_not_eq_false start)
    rw [digit] at other
    cases other
  simp [Reading.refusesWord, Reading.isName, Reading.isWord, word, start]

theorem unnumbered_refused (head : q.rest.head? = some x) (digit : x.isDigit = true) :
    grammar.Settles true (Peg.first (unnumbered.map .rule)) q .refused := by
  have sign (y : Char) (other : y.isDigit = false) : x ≠ y := by
    rintro rfl
    rw [digit] at other
    cases other
  refine Grammar.settles_first_refused fun p member => ?_
  obtain ⟨r, among, rfl⟩ := List.mem_map.mp member
  simp only [unnumbered, List.mem_cons, List.not_mem_nil, or_false] at among
  rcases among with rfl | rfl | rfl | rfl | rfl | rfl
  · exact Grammar.settles_rule_refused (.seqRefused (sign_refused head (sign '"' rfl)))
  · exact Grammar.settles_rule_refused (.seqRefused (sign_refused head (sign '{' rfl)))
  · exact Grammar.settles_rule_refused (.seqRefused (sign_refused head (sign '[' rfl)))
  · exact Grammar.settles_rule_refused (.seqRefused (name_refused_of_digit head digit))
  · exact name_refused_of_digit head digit
  · exact Grammar.settles_rule_refused (.seqRefused (sign_refused head (sign '(' rfl)))

theorem numbers_refused (other : ∀ x ∈ q.rest.head?, x.isDigit = false) :
    grammar.Settles spaced (.rule .intLiteral) q .refused ∧
      grammar.Settles spaced (.rule .floatLiteral) q .refused := by
  have digit {spaced : Bool} : grammar.Settles spaced (.char Rule.isDigit) q .refused :=
    Grammar.settles_char_refused other
  have mark (s : String) (zero : s.toList.head? = some '0') : ¬ s.toList <+: q.rest := by
    rintro ⟨rest, split⟩
    obtain ⟨xs, whole⟩ := List.head?_eq_some_iff.mp zero
    have here : q.rest.head? = some '0' := by rw [← split, whole]; rfl
    cases other '0' here
  have marks (ss : List String) (zeros : ∀ s ∈ ss, s.toList.head? = some '0') (base : Char → Bool) :
      grammar.Settles false (Rule.digits ss base) q .refused :=
    .seqRefused (Grammar.settles_words_refused fun s member => mark s (zeros s member))
  constructor
  · exact Grammar.settles_token_refused rfl
      (.altSecond (marks _ (by decide) _) (.altSecond (marks _ (by decide) _) (.seqRefused digit)))
  · exact Grammar.settles_token_refused rfl (.seqRefused (.seqRefused digit))

theorem digit_or_not (q : Cursor) :
    (∃ x, q.rest.head? = some x ∧ x.isDigit = true) ∨ ∀ x ∈ q.rest.head?, x.isDigit = false := by
  cases head : q.rest.head? with
  | none => exact .inr nofun
  | some x =>
      cases digit : x.isDigit with
      | true => exact .inl ⟨x, rfl, digit⟩
      | false =>
          refine .inr ?_
          rintro _ ⟨⟩
          exact digit

theorem stops_int : Stops (.rule .intLiteral) (Then (Peg.first (unnumbered.map .rule)) F) := by
  rintro q still ⟨us, d, settles, -⟩
  obtain ⟨x, head, digit⟩ | other := digit_or_not q
  · cases settles.unique (unnumbered_refused head digit)
  · exact (numbers_refused other).1

theorem decimal_stop {x : Char} {xs rest : List Char} (whole : q.rest = x :: xs ++ rest)
    (digits : ∀ y ∈ x :: xs, y.isDigit = true) (ends : ∀ y ∈ rest.head?, y.isDigit = false ∧ y ≠ '_')
    (unmarked : ∀ y ∈ rest.head?, y ≠ 'x' ∧ y ≠ 'X' ∧ y ≠ 'b' ∧ y ≠ 'B')
    (settles : grammar.Settles true (.rule .intLiteral) q (.matched ts d)) : d = q.past (x :: xs) rest := by
  obtain ⟨first, others⟩ := List.forall_mem_cons.mp digits
  have decimal : grammar.Settles false (Rule.body .intLiteral) q (.matched [] (q.past (x :: xs) rest)) :=
    Reading.settles_decimal first (fun y member => .inl (others y member)) whole
      fun y next => ⟨(ends y next).1, by simp [ends y next, unmarked y next]⟩
  have token := settles.unique (Grammar.settles_token rfl decimal)
  cases token
  rfl

theorem stops_float (ends : ∀ q, Layout.skip q = q → F q → ∀ x ∈ q.rest.head?, x ≠ '.' ∧ x ≠ 'e' ∧ x ≠ 'E') :
    Stops (.rule .floatLiteral) (Then (Peg.first ((.intLiteral :: unnumbered).map .rule)) F) := by
  rintro q still ⟨us, d, settles, follows⟩
  obtain ⟨x, head, digit⟩ | other := digit_or_not q
  · obtain ⟨xs, rest⟩ := List.head?_eq_some_iff.mp head
    let w := xs.takeWhile Char.isDigit
    let y := xs.dropWhile Char.isDigit
    have whole : q.rest = x :: w ++ y := by
      rw [rest, List.cons_append, List.takeWhile_append_dropWhile]
    have digits : ∀ z ∈ x :: w, z.isDigit = true :=
      List.forall_mem_cons.mpr ⟨digit, fun z member => List.all_eq_true.mp List.all_takeWhile z member⟩
    have stop : ∀ z ∈ y.head?, z.isDigit = false := dropWhile_stops
    refine Grammar.settles_token_refused rfl
      (Reading.settles_floatLiteral_refused digits (List.cons_ne_nil x w) whole fun z next => ?_)
    refine ⟨stop z next, ?_⟩
    -- A point or an exponent would end the integer that is read, and nothing may follow it then.
    have int : grammar.Settles true (.rule .intLiteral) q (.matched us d) := by
      cases settles with
      | altFirst first => exact first
      | altSecond _ second => cases second.unique (unnumbered_refused head digit)
    by_contra mark
    have signs : z = '.' ∨ z = 'e' ∨ z = 'E' := by tauto
    obtain ⟨zs, tail⟩ := List.head?_eq_some_iff.mp next
    have reached : d = q.past (x :: w) y := by
      refine decimal_stop whole digits (fun a first => ⟨stop a first, ?_⟩) (fun a first => ?_) int
      all_goals
        rw [tail] at first
        cases first
        rcases signs with rfl | rfl | rfl <;> decide
    have stays : Layout.skip d = d := by
      rw [reached, Layout.skip, Cursor.past, tail]
      exact Layout.scan_unblank zs _ (by rcases signs with rfl | rfl | rfl <;> rfl)
        (by rcases signs with rfl | rfl | rfl <;> decide)
    rw [stays] at follows
    have none := ends d stays follows z (by rw [reached]; exact next)
    tauto
  · exact (numbers_refused other).2

end Numbers

end Dil.Seam
