import Dil.Proofs.Seam.Passage

namespace Dil

open Layout (behind)
open Relayout (shy)
open Rule (Part spellings wholeWord)

/-- Trees that were read by mates. -/
inductive Seam.Beside (S : Seam) : Tree Rule → Tree Rule → Prop where
  | leaf {r : Rule} {sp sp' : Span} {text : List Char} (start : S.Level sp.start sp'.start)
      (stop : S.Level sp.stop sp'.stop) : S.Beside (.leaf r sp text) (.leaf r sp' text)
  | quoted {sp sp' : Span} {ts us : List (Tree Rule)} (same : Tree.bares us = Tree.bares ts)
      (start : S.Level sp.start sp'.start) (stop : S.Level sp.stop sp'.stop) :
      S.Beside (.node .stringLiteral sp ts) (.node .stringLiteral sp' us)
  | node {r : Rule} {c c' d d' : Cursor} {ts us : List (Tree Rule)} (start : S.Stand c c')
      (stop : S.Mate d d')
      (first : grammar.Settles true (.rule r) c (.matched [.node r (c.spanTo d) ts] d))
      (second : grammar.Settles true (.rule r) c' (.matched [.node r (c'.spanTo d') us] d'))
      (shut : Seam.isShut r = true → S.Level d.offset d'.offset)
      (inside : List.Forall₂ S.Beside ts us) :
      S.Beside (.node r (c.spanTo d) ts) (.node r (c'.spanTo d') us)

namespace Seam

section Beside

variable {S : Seam} {c c' d d' : Cursor} {t t' : Tree Rule} {ts us : List (Tree Rule)} {r : Rule}

theorem bares_of_beside (each : ∀ t ∈ ts, ∀ t', S.Beside t t' → t'.bare = t.bare)
    (beside : List.Forall₂ S.Beside ts us) : Tree.bares us = Tree.bares ts := by
  induction beside with
  | nil => rfl
  | cons first _ ih =>
      rw [List.forall_mem_cons] at each
      rw [Tree.bares, Tree.bares, each.1 _ first, ih each.2]

theorem Beside.bare (beside : S.Beside t t') : t'.bare = t.bare := by
  induction t using Tree.induct generalizing t' with
  | step t ih =>
      cases beside with
      | leaf => rfl
      | quoted same => simp only [Tree.bare, same]
      | node _ _ _ _ _ inside =>
          exact congrArg (Tree.node _ .nowhere) (bares_of_beside (fun u member _ => ih u member) inside)

theorem least_of_lexeme (lexeme : isLexeme r = true) : Rule.least r = 1 := by
  cases r <;> first | rfl | cases lexeme

theorem Stand.lexeme_beside (stand : S.Stand c c') (lexeme : isLexeme r = true)
    (settles : grammar.Settles true (.rule r) c (.matched ts d))
    (within : (behind S.left).length ≤ d.rest.length) :
    ∃ us d', grammar.Settles true (.rule r) c' (.matched us d') ∧ List.Forall₂ S.Beside ts us
      ∧ S.Mate d d' ∧ S.Level d.offset d'.offset := by
  have reads := settles_least settles
  have some := least_of_lexeme lexeme
  have ahead : (behind S.left).length < c.rest.length := by
    simp only [Peg.least] at reads
    omega
  obtain ⟨w, settles', both⟩ := stand.lexeme ahead lexeme settles
  cases both with
  | @matched _ us _ d' s bare first second mate =>
      have start := stand.level ahead
      have stop := start.reads first second
      refine ⟨us, d', settles', ?_, mate, stop⟩
      obtain ⟨vs, gathered, -⟩ := settles.matched_body
      obtain ⟨vs', gathered', -⟩ := settles'.matched_body
      have text : c'.textUpTo d' = c.textUpTo d := by rw [first.textUpTo, second.textUpTo]
      by_cases quoted : r = .stringLiteral
      · subst quoted
        cases gathered
        cases gathered'
        simp only [Tree.bares, Tree.bare, List.cons.injEq, Tree.node.injEq, true_and, and_true] at bare
        exact .cons (.quoted bare start stop) .nil
      · have token : Rule.kind r = .token := by
          simp only [isLexeme, Bool.or_eq_true, beq_iff_eq, quoted, false_or, Bool.and_eq_true] at lexeme
          exact lexeme.1
        rw [show grammar.kind r = .token from token] at gathered gathered'
        cases gathered
        cases gathered'
        rw [text]
        exact .cons (.leaf start stop) .nil

theorem text_unspaced {spaced spaced' : Bool} {v : Verdict Rule} {w : List Char}
    (settles : grammar.Settles spaced (.text w) c v) : grammar.Settles spaced' (.text w) c v := by
  cases settles with
  | text next => exact .text next
  | textRefused other => exact .textRefused other

theorem words_unspaced {spaced spaced' : Bool} {v : Verdict Rule} {ss : List String}
    (settles : grammar.Settles spaced (Peg.words ss) c v) :
    grammar.Settles spaced' (Peg.words ss) c v := by
  induction ss generalizing v with
  | nil =>
      cases settles with
      | absent nothing => cases nothing
      | present => exact .present .nothing
  | cons s ss ih =>
      cases ss with
      | nil => exact text_unspaced settles
      | cons r rs =>
          cases settles with
          | altFirst first => exact .altFirst (text_unspaced first)
          | altSecond first second => exact .altSecond (text_unspaced first) (ih second)

theorem wholeWord_unspaced {kw : Rule} {v : Verdict Rule} (lexeme : isLexeme kw = true)
    (still : Layout.skip c = c) (spaced spaced' : Bool)
    (settles : grammar.Settles spaced (wholeWord kw) c v) :
    grammar.Settles spaced' (wholeWord kw) c v := by
  have stay (spaced : Bool) : grammar.skipIf spaced c = c := by
    cases spaced with
    | true => exact still
    | false => rfl
  cases settles with
  | seqRefused first =>
      cases first with
      | aheadRefused inner => exact .seqRefused (.aheadRefused (unspaced lexeme spaced spaced' inner))
  | seq first second =>
      cases first with
      | ahead inner =>
          rw [stay] at second
          have read : grammar.Settles spaced' (Peg.words (spellings kw)) c _ := words_unspaced second
          rw [← stay spaced'] at read
          exact .seq (.ahead (unspaced lexeme spaced spaced' inner)) read

section Words

variable (stand : S.Stand c c') (ahead : (behind S.left).length < c.rest.length) {v : Verdict Rule}

include stand ahead

theorem Stand.text {w : List Char} (plain : w.all Relayout.isPlain = true)
    (settles : grammar.Settles true (.text w) c v) :
    ∃ v', grammar.Settles true (.text w) c' v' ∧ S.Both c c' v v' := by
  have fit : shy false true (.text w) = true := by simp [shy, plain]
  obtain ⟨v', tight, both⟩ := stand.tight ahead fit (text_unspaced settles)
  exact ⟨v', text_unspaced tight, both⟩

theorem Stand.word {kw : Rule} (keyword : isKeyword kw = true)
    (settles : grammar.Settles true (wholeWord kw) c v) :
    ∃ w, grammar.Settles true (wholeWord kw) c' w ∧ S.Both c c' v w := by
  simp only [isKeyword, Bool.and_eq_true] at keyword
  obtain ⟨⟨lexeme, fit⟩, -⟩ := keyword
  obtain ⟨w, tight, both⟩ :=
    stand.tight ahead fit (wholeWord_unspaced lexeme stand.still true false settles)
  exact ⟨w, wholeWord_unspaced lexeme stand.still' false true tight, both⟩

end Words

theorem Stand.token {p : Part} (stand : S.Stand c c') (token : IsToken p)
    (settles : grammar.Settles true p c (.matched ts d)) (within : (behind S.left).length ≤ d.rest.length) :
    ∃ us d', grammar.Settles true p c' (.matched us d') ∧ List.Forall₂ S.Beside ts us ∧ S.Mate d d'
      ∧ S.Level d.offset d'.offset := by
  have reads := settles_least settles
  cases token with
  | lexeme lexeme => exact stand.lexeme_beside lexeme settles within
  | text some plain =>
      have long := List.length_pos_iff.mpr some
      have ahead : (behind S.left).length < c.rest.length := by
        simp only [Peg.least] at reads
        omega
      obtain ⟨v, settles', both⟩ := stand.text ahead plain settles
      cases both with
      | matched bare first second mate =>
          cases settles with
          | text =>
              obtain rfl := Tree.bares_eq_nil bare
              exact ⟨[], _, settles', .nil, mate, (stand.level ahead).reads first second⟩
  | word keyword =>
      have some := keyword
      simp only [isKeyword, Bool.and_eq_true, decide_eq_true_eq] at some
      have ahead : (behind S.left).length < c.rest.length := by omega
      have nothing := settles.gives Layout.skip_skip rfl (.inl stand.still) rfl
      rw [Reading.gives_wholeWord] at nothing
      subst nothing
      obtain ⟨v, settles', both⟩ := stand.word ahead keyword settles
      cases both with
      | matched bare first second mate =>
          obtain rfl := Tree.bares_eq_nil bare
          exact ⟨[], _, settles', .nil, mate, (stand.level ahead).reads first second⟩

end Beside

end Seam

end Dil

