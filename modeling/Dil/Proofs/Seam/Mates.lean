import Dil.Proofs.Relayout.Gaps
import Dil.Proofs.Syntax.Built

/-!
Two sources that begin alike and go on differently behind a seam between two tokens. A reader of the
one and a reader of the other are mates if they stand at the same place before the seam, or both
behind the layout at it. A token before the seam is read by both alike.
-/

namespace Dil

open Layout (Quiet behind)
open Relayout (Rift Twin Alike shy)
open Rule (Part)

/-- How two sources go on at a seam, and where each of them ends. -/
structure Seam where
  left : List Char
  right : List Char
  leftEnd : Nat
  rightEnd : Nat
  rift : Rift left right
  differ : left ≠ right
  /-- A slash before the one makes a comment if a slash before the other does. -/
  alone : (∀ d ∈ left.head?, d ≠ '/' ∧ d ≠ '*') ↔ ∀ d ∈ right.head?, d ≠ '/' ∧ d ≠ '*'
  /-- One of them begins with layout. -/
  layout : ¬ (behind left = left ∧ behind right = right)

def Seam.swap (S : Seam) : Seam where
  left := S.right
  right := S.left
  leftEnd := S.rightEnd
  rightEnd := S.leftEnd
  rift := ⟨S.rift.there, S.rift.here⟩
  differ := S.differ.symm
  alone := S.alone.symm
  layout := fun both => S.layout both.symm

/-- What two readers have left: a text before the seam that is outside of comments and quotes, or
nothing but what follows the layout at the seam. -/
inductive Seam.Sees (S : Seam) : List Char → List Char → Prop where
  | before {x : List Char} (quiet : Quiet S.left x) : S.Sees (x ++ S.left) (x ++ S.right)
  | behind : S.Sees (behind S.left) (behind S.right)

structure Seam.Mate (S : Seam) (c c' : Cursor) : Prop where
  sees : S.Sees c.rest c'.rest
  leftEnd : c.offset + byteLength c.rest = S.leftEnd
  rightEnd : c'.offset + byteLength c'.rest = S.rightEnd

/-- Mates with no layout ahead. -/
structure Seam.Stand (S : Seam) (c c' : Cursor) : Prop extends S.Mate c c' where
  still : Layout.skip c = c
  still' : Layout.skip c' = c'

/-- The same place before the seam, as an offset in each source. -/
def Seam.Level (S : Seam) (n n' : Nat) : Prop :=
  n + byteLength S.left + S.rightEnd = n' + byteLength S.right + S.leftEnd

namespace Seam

variable {S : Seam} {c c' d d' : Cursor} {s : List Char} {v : Verdict Rule}

theorem Mate.reads (mate : S.Mate c c') (first : c.Reads s d) (second : c'.Reads s d')
    (sees : S.Sees d.rest d'.rest) : S.Mate d d' where
  sees := sees
  leftEnd := by
    rw [← mate.leftEnd, first.rest, byteLength_append, first.offset]
    omega
  rightEnd := by
    rw [← mate.rightEnd, second.rest, byteLength_append, second.offset]
    omega

theorem Mate.skip (mate : S.Mate c c') : S.Stand (Layout.skip c) (Layout.skip c') := by
  have sees : S.Sees (Layout.skip c).rest (Layout.skip c').rest := by
    have sees := mate.sees
    rw [Layout.skip_rest, Layout.skip_rest]
    generalize c.rest = t at sees ⊢
    generalize c'.rest = t' at sees ⊢
    cases sees with
    | before quiet =>
        rcases quiet.behind_cases S.alone.mp with ⟨first, second⟩ | ⟨y, -, quiet', first, second⟩
        · rw [first, second]
          exact .behind
        · rw [first, second]
          exact .before quiet'
    | behind =>
        rw [Layout.behind_behind, Layout.behind_behind]
        exact .behind
  obtain ⟨s, first⟩ := Layout.skip_reads c
  obtain ⟨t, second⟩ := Layout.skip_reads c'
  have leftEnd := mate.leftEnd
  have rightEnd := mate.rightEnd
  rw [first.rest, byteLength_append] at leftEnd
  rw [second.rest, byteLength_append] at rightEnd
  exact ⟨⟨sees, by rw [first.offset]; omega, by rw [second.offset]; omega⟩, Layout.skip_skip c,
    Layout.skip_skip c'⟩

theorem rest_of_still (still : Layout.skip c = c) : behind c.rest = c.rest := by
  rw [← Layout.skip_rest, still]

theorem Stand.cases (stand : S.Stand c c') :
    (∃ x, x ≠ [] ∧ Quiet S.left x ∧ c.rest = x ++ S.left ∧ c'.rest = x ++ S.right) ∨
      (c.rest = behind S.left ∧ c'.rest = behind S.right) := by
  have settled := rest_of_still stand.still
  have settled' := rest_of_still stand.still'
  have sees := stand.sees
  generalize c.rest = t at sees settled ⊢
  generalize c'.rest = t' at sees settled' ⊢
  cases sees with
  | @before x quiet =>
      refine .inl ⟨x, ?_, quiet, rfl, rfl⟩
      rintro rfl
      exact S.layout ⟨settled, settled'⟩
  | behind => exact .inr ⟨rfl, rfl⟩

theorem Stand.before (stand : S.Stand c c') (ahead : (behind S.left).length < c.rest.length) :
    ∃ x, x ≠ [] ∧ Quiet S.left x ∧ c.rest = x ++ S.left ∧ c'.rest = x ++ S.right := by
  rcases stand.cases with before | ⟨rest, -⟩
  · exact before
  · rw [rest] at ahead
    exact absurd ahead (Nat.lt_irrefl _)

theorem Mate.rest_behind (mate : S.Mate c c') (same : behind c.rest = behind S.left) :
    behind c'.rest = behind S.right := by
  rw [← Layout.skip_rest] at same ⊢
  rcases mate.skip.cases with ⟨x, some, -, rest, -⟩ | ⟨-, rest⟩
  · have shorter := Layout.behind_length_le S.left
    rw [← same, rest, List.length_append] at shorter
    exact absurd (List.length_eq_zero_iff.mp (by omega)) some
  · exact rest

theorem Stand.level (stand : S.Stand c c') (ahead : (behind S.left).length < c.rest.length) :
    S.Level c.offset c'.offset := by
  obtain ⟨x, -, -, rest, rest'⟩ := stand.before ahead
  have leftEnd := stand.leftEnd
  have rightEnd := stand.rightEnd
  rw [rest, byteLength_append] at leftEnd
  rw [rest', byteLength_append] at rightEnd
  unfold Level
  omega

theorem Level.reads (level : S.Level c.offset c'.offset) (first : c.Reads s d)
    (second : c'.Reads s d') : S.Level d.offset d'.offset := by
  unfold Level at level ⊢
  rw [first.offset, second.offset]
  omega

/-- Two verdicts of readers that read the same text. -/
inductive Both (S : Seam) (c c' : Cursor) : Verdict Rule → Verdict Rule → Prop where
  | refused : Both S c c' .refused .refused
  | matched {ts us : List (Tree Rule)} {d d' : Cursor} {s : List Char}
      (bare : Tree.bares us = Tree.bares ts) (first : c.Reads s d) (second : c'.Reads s d')
      (mate : S.Mate d d') : Both S c c' (.matched ts d) (.matched us d')

theorem reads_of_settles {spaced : Bool} {p : Part} {ts : List (Tree Rule)}
    (settles : grammar.Settles spaced p c (.matched ts d)) (rest : c.rest = s ++ d.rest) :
    c.Reads s d := by
  obtain ⟨t, reads, -⟩ := settles.reads grammar_bounded.forward grammar_bounded.enough
  have same := reads.rest
  rw [rest, List.append_cancel_right_eq] at same
  exact same ▸ reads

theorem Stand.both (stand : S.Stand c c') (ahead : (behind S.left).length < c.rest.length)
    {p : Part} {w : Verdict Rule} (settles : grammar.Settles false p c v)
    (settles' : grammar.Settles false p c' w) (alike : Alike S.left S.right false false c c' v w) :
    S.Both c c' v w := by
  cases alike with
  | refused => exact .refused
  | @matched ts us d d' bare twin joined =>
      obtain ⟨s, here, there⟩ := joined rfl
      have first := reads_of_settles settles here
      have second := reads_of_settles settles' there
      refine .matched bare first second (stand.toMate.reads first second ?_)
      obtain same | ⟨y, -, quiet, -, left, right⟩ := twin.cases
      · obtain ⟨x, -, -, rest, rest'⟩ := stand.before ahead
        rw [here, same, ← there, rest', List.append_cancel_left_eq] at rest
        exact absurd rest.symm S.differ
      · rw [left, right]
        exact .before quiet

theorem Stand.tight (stand : S.Stand c c') (ahead : (behind S.left).length < c.rest.length)
    {p : Part} (fit : shy false true p = true) (settles : grammar.Settles false p c v) :
    ∃ w, grammar.Settles false p c' w ∧ S.Both c c' v w := by
  obtain ⟨x, some, quiet, rest, rest'⟩ := stand.before ahead
  have settled := rest_of_still stand.still
  have twin : Twin S.left S.right false true c.rest c'.rest := by
    rw [rest] at settled
    rw [rest, rest']
    exact .before rfl quiet fun _ => ⟨some, settled⟩
  obtain ⟨w, settles', alike⟩ := Relayout.settles_twin S.rift settles nofun twin (.inr fit)
  exact ⟨w, settles', stand.both ahead settles settles' alike⟩

def isLexeme (r : Rule) : Bool := r == .stringLiteral || Rule.kind r == .token && r != .stringInner

theorem unspaced {r : Rule} (lexeme : isLexeme r = true) (spaced spaced' : Bool)
    (settles : grammar.Settles spaced (.rule r) c v) : grammar.Settles spaced' (.rule r) c v := by
  have same : (Rule.kind r).spacing spaced = (Rule.kind r).spacing spaced' := by
    cases kind : Rule.kind r with
    | spaced =>
        simp only [isLexeme, kind, Bool.or_eq_true, beq_iff_eq, Bool.and_eq_true] at lexeme
        rcases lexeme with rfl | ⟨token, -⟩
        · cases kind
        · cases token
    | joined | token => rfl
  obtain ⟨w, rfl, inner⟩ := settles.body
  refine .rule ?_
  rw [show (grammar.kind r).spacing spaced = _ from same] at inner
  exact inner

theorem Stand.lexeme (stand : S.Stand c c') (ahead : (behind S.left).length < c.rest.length)
    {r : Rule} (lexeme : isLexeme r = true) (settles : grammar.Settles true (.rule r) c v) :
    ∃ w, grammar.Settles true (.rule r) c' w ∧ S.Both c c' v w := by
  have tight := unspaced lexeme true false settles
  by_cases quoted : r = .stringLiteral
  · subst quoted
    obtain ⟨x, some, quiet, rest, rest'⟩ := stand.before ahead
    obtain ⟨w, tight', alike⟩ := Relayout.string_twin quiet some rest rest' tight
    exact ⟨w, unspaced lexeme false true tight', stand.both ahead tight tight' alike⟩
  · have fit : shy false true (.rule r) = true := by
      simpa [isLexeme, shy, quoted, and_comm] using lexeme
    obtain ⟨w, tight', both⟩ := stand.tight ahead fit tight
    exact ⟨w, unspaced lexeme false true tight', both⟩

end Seam

end Dil
