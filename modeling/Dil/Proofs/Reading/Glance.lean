import Dil.Proofs.Reading.Calculus

/-!
What a glance at the first word and the first character of a text tells of a match: that it is
refused, or that nothing is read. Most refusals, where one construct ends and another begins, can
be computed in this way.
-/

namespace Dil.Reading

open Rule (Part spellings keyword)

def wordsOf : Rule → List String
  | .nullLiteral => ["null"]
  | .boolLiteral => ["true", "false"]
  | r => spellings r

def refusesWord (word : List Char) : Rule → Bool
  | .identifier => !isName word
  | .keyIdent => !isWord word
  | r => !(wordsOf r).isEmpty && !((wordsOf r).map String.toList).contains word

inductive Glance where
  | refused
  /-- It matches and reads nothing. -/
  | empty
  | undecided
  deriving DecidableEq

namespace Glance

def andThen : Glance → Glance → Glance
  | .empty, w => w
  | v, _ => v

def orElse : Glance → Glance → Glance
  | .refused, w => w
  | v, _ => v

def optional : Glance → Glance
  | .refused => .empty
  | _ => .undecided

def negate : Glance → Glance
  | .refused => .empty
  | .empty => .refused
  | .undecided => .undecided

def asRule : Glance → Glance
  | .refused => .refused
  | _ => .undecided

end Glance

def glance (word : List Char) (first : Option Char) : Nat → Part → Glance
  | 0, _ => .undecided
  | n + 1, p =>
    match p with
    | .nothing => .empty
    | .endOfInput => if first = none then .empty else .refused
    | .char accepts => if first.any accepts then .undecided else .refused
    | .text [] => .empty
    | .text (c :: _) => if first = some c then .undecided else .refused
    | .rule r =>
      if refusesWord word r then .refused else (glance word first n (Rule.body r)).asRule
    | .seq a b => (glance word first n a).andThen (glance word first n b)
    | .alt a b => (glance word first n a).orElse (glance word first n b)
    | .opt a | .star a | .more a => (glance word first n a).optional
    | .ahead a => glance word first n a
    | .unless a => (glance word first n a).negate

/-- What a glance promises. -/
def Glance.Holds (p : Part) (c : Cursor) (spaced : Bool) : Glance → Prop
  | .refused => grammar.Settles spaced p c .refused
  | .empty => grammar.Settles spaced p c (.matched [] c)
  | .undecided => True

section Soundness

variable {c : Cursor} {spaced : Bool} {p a b : Part} {tokens : List String}

theorem keyword_of_wordsOf {r : Rule} (some : (wordsOf r).isEmpty = false) :
    Rule.body r = keyword (wordsOf r) ∧ Rule.kind r = .token ∧ areSpellings (wordsOf r) = true := by
  cases r <;> first | exact ⟨rfl, rfl, by decide⟩ | cases some

theorem refusesWord_of_absent {r : Rule} {word : List Char} (some : wordsOf r ≠ [])
    (absent : word ∉ (wordsOf r).map String.toList) : refusesWord word r = true := by
  have other : (!(wordsOf r).isEmpty && !((wordsOf r).map String.toList).contains word) = true := by
    rw [List.contains_eq_mem, decide_eq_false absent, List.isEmpty_eq_false_iff.mpr some]
    rfl
  cases r with
  | identifier | keyIdent => exact absurd rfl some
  | _ => exact other

theorem refusesWord_refuses {r : Rule} (other : refusesWord (leading c.rest) r = true) :
    grammar.Settles spaced (.rule r) c .refused := by
  have plain (spelled : (!(wordsOf r).isEmpty && !((wordsOf r).map String.toList).contains
      (leading c.rest)) = true) : grammar.Settles spaced (.rule r) c .refused := by
    simp only [Bool.and_eq_true, Bool.not_eq_true', List.contains_eq_mem,
      decide_eq_false_iff_not] at spelled
    obtain ⟨body, token, spelt⟩ := keyword_of_wordsOf spelled.1
    have refused := settles_keyword_refused spelt spelled.2
    rw [← body] at refused
    exact Grammar.settles_token_refused token refused
  cases r with
  | identifier =>
      exact Grammar.settles_token_refused rfl
        (settles_identifier_refused (by simpa [refusesWord] using other))
  | keyIdent =>
      exact Grammar.settles_token_refused rfl
        (settles_keyIdent_refused (by simpa [refusesWord] using other))
  | _ => exact plain other

theorem Glance.Holds.andThen {v w : Glance} (stay : grammar.skipIf spaced c = c)
    (first : v.Holds a c spaced) (second : w.Holds b c spaced) :
    (v.andThen w).Holds (.seq a b) c spaced := by
  cases v with
  | refused => exact .seqRefused first
  | undecided => trivial
  | empty =>
      rw [← stay] at second
      cases w with
      | refused => exact .seq first second
      | undecided => trivial
      | empty =>
          have both := Grammar.Settles.seq first second
          rw [stay] at both
          exact both

theorem Glance.Holds.orElse {v w : Glance} (first : v.Holds a c spaced)
    (second : w.Holds b c spaced) : (v.orElse w).Holds (.alt a b) c spaced := by
  cases v with
  | empty => exact .altFirst first
  | undecided => trivial
  | refused =>
      cases w with
      | undecided => trivial
      | refused | empty => exact .altSecond first second

theorem Glance.Holds.negate {v : Glance} (inner : v.Holds a c spaced) :
    v.negate.Holds (.unless a) c spaced := by
  cases v with
  | refused => exact .absent inner
  | empty => exact .present inner
  | undecided => trivial

theorem Glance.Holds.ahead {v : Glance} (inner : v.Holds a c spaced) :
    v.Holds (.ahead a) c spaced := by
  cases v with
  | refused => exact .aheadRefused inner
  | empty => exact Grammar.Settles.ahead inner
  | undecided => trivial

theorem glance_holds (still : Layout.skip c = c) (n : Nat) (p : Part) (spaced : Bool) :
    (glance (leading c.rest) c.rest.head? n p).Holds p c spaced := by
  have stay (spaced : Bool) : grammar.skipIf spaced c = c := by
    cases spaced with
    | true => exact still
    | false => rfl
  induction n generalizing p spaced with
  | zero => trivial
  | succ n ih =>
      cases p with
      | nothing => exact .nothing
      | endOfInput =>
          simp only [glance]
          split
          · rename_i none
            exact .atEnd (List.head?_eq_none_iff.mp none)
          · rename_i some
            exact .beforeEnd fun none => some (List.head?_eq_none_iff.mpr none)
      | char accepts =>
          simp only [glance]
          split
          · trivial
          · rename_i other
            refine Grammar.settles_char_refused fun x next => ?_
            rw [Option.mem_def] at next
            simpa [next] using other
      | text word =>
          cases word with
          | nil =>
              have reads : grammar.Settles spaced (.text []) c (.matched [] (c.past [] c.rest)) :=
                Grammar.settles_word rfl
              rwa [Cursor.past_nil rfl] at reads
          | cons x xs =>
              simp only [glance]
              split
              · trivial
              · rename_i other
                refine Grammar.settles_word_refused fun begins => other ?_
                obtain ⟨rest, split⟩ := begins
                simp [← split]
      | rule r =>
          simp only [glance]
          split
          · rename_i other
            exact refusesWord_refuses other
          · have inner := ih (Rule.body r) ((Rule.kind r).spacing spaced)
            revert inner
            cases glance (leading c.rest) c.rest.head? n (Rule.body r) with
            | refused => exact Grammar.settles_rule_refused
            | empty | undecided => exact fun _ => trivial
      | seq a b => exact (ih a spaced).andThen (stay spaced) (ih b spaced)
      | alt a b => exact (ih a spaced).orElse (ih b spaced)
      | opt a | star a | more a =>
          have inner := ih a spaced
          simp only [glance]
          revert inner
          cases glance (leading c.rest) c.rest.head? n a with
          | refused =>
              intro refused
              first
              | exact .optNone refused
              | exact .starNone refused
              | exact .moreNone (by rw [stay]; exact refused)
          | empty | undecided => exact fun _ => trivial
      | ahead a => exact (ih a spaced).ahead
      | «unless» a => exact (ih a spaced).negate

def glanceDepth : Nat := 64

/-- Tokens that a glance at the first one refuses are refused. -/
theorem declines_of_glance
    (refused : glance (firstWord tokens) (firstChar tokens) glanceDepth p = .refused) :
    Declines p tokens := by
  intro c stands
  have holds := glance_holds stands.still glanceDepth p true
  rw [stands.leading, stands.head, refused] at holds
  exact holds

theorem declines_at {t : String}
    (refused : glance (leading t.toList) t.toList.head? glanceDepth p = .refused) :
    Declines p (t :: tokens) := declines_of_glance refused

theorem declines_from {t : String} {x : Char} {xs : List Char} (text : t.toList = x :: xs)
    (other : Rule.isWordChar x = false) (refused : glance [] (some x) glanceDepth p = .refused) :
    Declines p (t :: tokens) := by
  apply declines_at
  have noWord : leading t.toList = [] := by simp [leading, text, other]
  rw [noWord, text]
  exact refused

end Soundness

end Dil.Reading
