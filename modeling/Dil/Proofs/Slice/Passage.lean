import Dil.Proofs.Reading.Fields
import Dil.Proofs.Slice.Tokens
import Dil.Proofs.Syntax.Moved
import Dil.Proofs.Syntax.Nested

namespace Dil.Slice

open Cursor (Cut)
open Reading (leading behindWord)
open Rule (Part spellings wholeWord)
open Seam (isLexeme isKeyword IsToken)

variable {z s : List Char} {n : Nat} {c c' d d' e q : Cursor} {ts : List (Tree Rule)} {r : Rule} {a b p : Part}

def sides (z : List Char) (n : Nat) : Sides where
  Mate := Cut z n
  Beside t t' := t = t'.mapSpans (Span.shifted n)
  Level _ _ := True
  bound := z.length

theorem spanTo_of_cut (start : Cut z n c c') (stop : Cut z n d d') :
    c.spanTo d = (c'.spanTo d').shifted n := by
  rw [Cursor.spanTo, start.offset, stop.offset]
  rfl

theorem textUpTo_of_cut (start : Cut z n c c') (stop : Cut z n d d') (reads : c.Reads s d) {t : List Char}
    (reads' : c'.Reads t d') : c.textUpTo d = c'.textUpTo d' := by
  have whole := start.rest
  rw [reads.rest, reads'.rest, stop.rest, ← List.append_assoc, List.append_cancel_right_eq,
    List.append_cancel_right_eq] at whole
  rw [reads.textUpTo, reads'.textUpTo, whole]

theorem carried_string (cut : Cut z n c c')
    (settles : grammar.Settles true (.rule .stringLiteral) c (.matched ts d)) (within : z.length ≤ d.rest.length) :
    (sides z n).Carried (.rule .stringLiteral) c' ts d := by
  obtain ⟨s, inside, read⟩ := Relayout.matched_string settles
  have whole : c.rest = '"' :: (s ++ ['"']) ++ d.rest := by rw [read]; simp
  obtain ⟨d', reads, stop⟩ := cut.reads (Seam.reads_of_settles settles whole) within
  have read' : c'.rest = '"' :: (s ++ '"' :: d'.rest) := by rw [reads.rest]; simp
  have second : grammar.Settles true (.rule .stringLiteral) c' _ := Reading.settles_string inside read'
  have first : grammar.Settles true (.rule .stringLiteral) c _ := Reading.settles_string inside read
  rw [past_of_reads reads] at second
  rw [past_of_reads (Seam.reads_of_settles settles whole)] at first
  have same := settles.unique first
  simp only [Verdict.matched.injEq, and_true] at same
  subst same
  refine ⟨_, d', second, .cons ?_ .nil, stop, fun _ => trivial⟩
  have start := cut.offset
  simp only [sides, Tree.mapSpans, Tree.mapSpansEach, spanTo_of_cut cut stop, Span.shifted]
  congr 4
  · omega
  · omega

theorem carried_lexeme (cut : Cut z n c c') (lexeme : isLexeme r = true)
    (settles : grammar.Settles true (.rule r) c (.matched ts d)) (within : z.length ≤ d.rest.length) :
    (sides z n).Carried (.rule r) c' ts d := by
  by_cases quoted : r = .stringLiteral
  · subst quoted
    exact carried_string cut settles within
  · simp only [isLexeme, Bool.or_eq_true, beq_iff_eq, quoted, false_or, Bool.and_eq_true, bne_iff_ne] at lexeme
    obtain ⟨token, other⟩ := lexeme
    obtain ⟨us, gathered, inner⟩ := settles.matched_body
    rw [show grammar.kind r = .token from token] at gathered inner
    cases gathered
    obtain ⟨us', d', inner', stop⟩ := keeps_body token other cut inner within
    obtain ⟨s, reads, -⟩ := Build.reads_of_matched inner
    obtain ⟨t, reads', -⟩ := Build.reads_of_matched inner'
    refine ⟨_, d', Grammar.settles_token token inner', .cons ?_ .nil, stop, fun _ => trivial⟩
    simp only [sides, Tree.mapSpans, spanTo_of_cut cut stop, textUpTo_of_cut cut stop reads reads']

theorem carried_word {kw : Rule} (some : (spellings kw).isEmpty = false) (cut : Cut z n c c')
    (still : Layout.skip c = c) (still' : Layout.skip c' = c')
    (settles : grammar.Settles true (wholeWord kw) c (.matched ts d)) (within : z.length ≤ d.rest.length) :
    (sides z n).Carried (wholeWord kw) c' ts d := by
  obtain ⟨among, rfl, rfl⟩ := Reading.matched_wholeWord some still settles
  obtain ⟨same, stop⟩ := leading_of_cut cut within
  exact ⟨[], _, Reading.settles_word_among (same ▸ among) still', .nil, stop, fun _ => trivial⟩

theorem spelt_of_keyword {kw : Rule} (keyword : isKeyword kw = true) : (spellings kw).isEmpty = false := by
  revert keyword
  cases kw <;> decide

theorem carried_token (cut : Cut z n c c') (still : Layout.skip c = c) (still' : Layout.skip c' = c')
    (token : IsToken p) (settles : grammar.Settles true p c (.matched ts d)) (within : z.length ≤ d.rest.length) :
    (sides z n).Carried p c' ts d := by
  cases token with
  | text =>
      obtain ⟨us, d', settles', stop⟩ := keeps_text _ cut (Seam.text_unspaced settles) within
      cases settles with
      | text =>
        cases settles' with
        | text next => exact ⟨[], d', .text next, .nil, stop, fun _ => trivial⟩
  | lexeme lexeme => exact carried_lexeme cut lexeme settles within
  | word keyword => exact carried_word (spelt_of_keyword keyword) cut still still' settles within

theorem mapSpansEach_of_forall₂ {us : List (Tree Rule)}
    (inside : List.Forall₂ (fun t t' => t = t'.mapSpans (Span.shifted n)) ts us) :
    ts = Tree.mapSpansEach (Span.shifted n) us := by
  induction inside with
  | nil => rfl
  | cons first _ ih => rw [Tree.mapSpansEach, ← first, ← ih]

def passage (z : List Char) (n : Nat) : Passage where
  toSides := sides z n
  skip cut within := cut.skip within
  token token stand settles within := carried_token stand.mate stand.still stand.still' token settles within
  node stand stop _ _ _ inside := by
    have place := spanTo_of_cut stand.mate stop
    simp only [sides, Tree.mapSpans, place, ← mapSpansEach_of_forall₂ inside]
  word keyword stand missed _ within := by
    have some := spelt_of_keyword keyword
    rw [Reading.wholeWord_refused_iff some stand.still] at missed
    rw [Reading.wholeWord_refused_iff some stand.still', (leading_of_cut stand.mate within).1]
    exact missed

end Dil.Slice
