import Dil.Proofs.Seam.Locality
import Dil.Proofs.Syntax.Moved

/-!
Where the constructs of an expression end, in two sources of which one ends at the seam and the other
goes on behind a line end. What ends with a token ends at the same place before the seam. What reaches
up to what is read next may reach the seam, and then it takes the line end along.
-/

namespace Dil

open Layout (behind)
open Rule (Part pathSegment)

def Tree.span : Build.Node → Span
  | .leaf _ sp _ | .node _ sp _ => sp

namespace Seam

section Last

variable {a p : Part} {r : Rule} {c d : Cursor} {ts : List Build.Node} {t u : Build.Node} {sp : Span}
  {v : Verdict Rule}

/-- The trees end where the reader stands. -/
def EndAt (ts : List Build.Node) (d : Cursor) : Prop := ∃ us t, ts = us ++ [t] ∧ t.span.stop = d.offset

theorem EndAt.append {us : List Build.Node} (ends : EndAt us d) : EndAt (ts ++ us) d := by
  obtain ⟨vs, t, rfl, stop⟩ := ends
  exact ⟨ts ++ vs, t, (List.append_assoc ..).symm, stop⟩

theorem EndAt.last (ends : EndAt (ts ++ [t]) d) : t.span.stop = d.offset := by
  obtain ⟨us, u, same, stop⟩ := ends
  obtain ⟨-, last⟩ := List.append_inj' same rfl
  cases last
  exact stop

theorem span_of_matched {spaced : Bool} (settles : grammar.Settles spaced (.rule r) c (.matched [t] d)) :
    t.span = c.spanTo d := by
  obtain ⟨us, gathered, -⟩ := settles.matched_body
  cases kind : grammar.kind r with
  | spaced | joined | token =>
      rw [kind] at gathered
      cases gathered
      rfl

theorem endAt_of_rule {spaced : Bool} (settles : grammar.Settles spaced (.rule r) c (.matched ts d)) :
    EndAt ts d := by
  obtain ⟨t, rfl⟩ := settles.matched_rule
  exact ⟨[], t, rfl, by rw [span_of_matched settles]; rfl⟩

theorem endAt_of_segment {spaced : Bool} (settles : grammar.Settles spaced pathSegment c (.matched ts d)) :
    EndAt ts d := by
  cases settles with
  | altFirst first => exact endAt_of_rule first
  | altSecond _ second => exact endAt_of_rule second

theorem endAt_of_path {spaced : Bool} (settles : grammar.Settles spaced p c v)
    (path : p = .star pathSegment ∨ p = .more pathSegment) (matched : v = .matched ts d) :
    (ts = [] ∧ d = c) ∨ EndAt ts d := by
  induction settles generalizing ts d with
  | star first others _ ih | more first others _ ih =>
      have same := path
      obtain ⟨us, rfl, rfl⟩ := Verdict.of_after_matched matched
      simp only [Peg.star.injEq, Peg.more.injEq, reduceCtorEq, or_false, false_or] at same
      subst same
      rcases ih (.inr rfl) rfl with ⟨rfl, rfl⟩ | ends
      · rw [List.append_nil]
        exact .inr (endAt_of_segment first)
      · exact .inr ends.append
  | starNone | moreNone =>
      cases matched
      exact .inl ⟨rfl, rfl⟩
  | _ => simp at path

theorem endAt_of_cast
    (settles : grammar.Settles true (.rule .expression) c (.matched [.node .expression sp [t, u]] d)) :
    ∃ ts, u = .node .typeSuffix u.span ts ∧ u.span.stop = d.offset := by
  obtain ⟨_, same, inner⟩ := settles.matched_node rfl
  cases same
  obtain ⟨_, e, vs, first, second, split⟩ := inner.matched_seq
  obtain ⟨_, rfl⟩ := first.matched_rule
  cases split
  cases second with
  | opt suffix =>
      obtain ⟨ts, rfl, -⟩ := suffix.matched_node rfl
      exact ⟨ts, rfl, rfl⟩

theorem endAt_of_signed
    (settles : grammar.Settles true (.rule .prefixExpr) c (.matched [.node .prefixExpr sp ts] d)) :
    EndAt ts d := by
  obtain ⟨_, same, inner⟩ := settles.matched_node rfl
  cases same
  obtain ⟨_, _, _, -, operand, rfl⟩ := inner.matched_seq
  exact (endAt_of_rule operand).append

theorem endAt_of_postfix
    (settles : grammar.Settles true (.rule .postfixExpr) c (.matched [.node .postfixExpr sp (t :: ts)] d)) :
    (ts = [] ∧ Layout.skip d = d) ∨ EndAt ts d := by
  obtain ⟨_, same, inner⟩ := settles.matched_node rfl
  cases same
  obtain ⟨_, e, us, base, path, split⟩ := inner.matched_seq
  obtain ⟨_, rfl⟩ := base.matched_rule
  cases split
  rcases endAt_of_path path (.inl rfl) rfl with ⟨rfl, rfl⟩ | ends
  · exact .inl ⟨rfl, Layout.skip_skip e⟩
  · exact .inr ends

end Last

/-- The one source ends at the seam with so many bytes. In the other one all before the seam is `n`
bytes further on, and a line end follows. -/
structure Closes (S : Seam) (n size : Nat) : Prop where
  nothing : behind S.left = []
  level : ∀ {m m' : Nat}, S.Level m m' → m' = m + n
  ends : ∀ {d d' : Cursor}, S.Stand d d' → d'.offset = d.offset + n + (d.offset == size).toNat

section Places

variable {S : Seam} {n size : Nat} {r : Rule} {c c' d : Cursor} {sp sp' : Span}
  {t t' : Build.Node} {ts us : List Build.Node}

theorem beside_last (inside : List.Forall₂ S.Beside (ts ++ [t]) us) :
    ∃ vs u, us = vs ++ [u] ∧ S.Beside t u := by
  induction ts generalizing us with
  | nil =>
      cases inside with
      | @cons _ u _ _ first rest =>
          cases rest
          exact ⟨[], u, rfl, first⟩
  | cons _ _ ih =>
      cases inside with
      | @cons _ v _ _ _ rest =>
          obtain ⟨vs, u, rfl, last⟩ := ih rest
          exact ⟨v :: vs, u, rfl, last⟩

theorem Beside.under (beside : S.Beside (.node r sp ts) t') (other : r ≠ .stringLiteral) :
    ∃ sp' us, t' = .node r sp' us ∧ List.Forall₂ S.Beside ts us := by
  cases beside with
  | quoted => exact absurd rfl other
  | node _ _ _ _ _ inside => exact ⟨_, _, rfl, inside⟩

theorem Beside.under_cons (beside : S.Beside (.node r sp (t :: ts)) t') (other : r ≠ .stringLiteral) :
    ∃ sp' u us, t' = .node r sp' (u :: us) ∧ S.Beside t u ∧ List.Forall₂ S.Beside ts us := by
  obtain ⟨sp', _, rfl, inside⟩ := beside.under other
  cases inside with
  | cons head tail => exact ⟨sp', _, _, rfl, head, tail⟩

theorem Beside.under_one (beside : S.Beside (.node r sp [t]) t') (other : r ≠ .stringLiteral) :
    ∃ sp' u, t' = .node r sp' [u] ∧ S.Beside t u := by
  obtain ⟨sp', u, _, rfl, only, none⟩ := beside.under_cons other
  cases none
  exact ⟨sp', u, rfl, only⟩

theorem Beside.under_two (beside : S.Beside (.node r sp [t, u]) t') (other : r ≠ .stringLiteral) :
    ∃ sp' v w, t' = .node r sp' [v, w] ∧ S.Beside t v ∧ S.Beside u w := by
  obtain ⟨sp', v, _, rfl, first, others⟩ := beside.under_cons other
  cases others with
  | cons second none =>
      cases none
      exact ⟨sp', v, _, rfl, first, second⟩

theorem stop_of_shut (beside : S.Beside (.node r sp ts) t') (shut : isShut r = true) :
    S.Level sp.stop t'.span.stop := by
  cases beside with
  | quoted _ _ stop => exact stop
  | node _ _ _ _ level _ => exact level shut

variable (closes : S.Closes n size)

include closes

theorem Closes.shifted (start : S.Level sp.start sp'.start) (stop : S.Level sp.stop sp'.stop) :
    sp' = sp.shifted n := by
  cases sp
  cases sp'
  simp only [Span.shifted, Span.mk.injEq]
  exact ⟨closes.level start, closes.level stop⟩

theorem Closes.start (some : 0 < Rule.least r) (stand : S.Stand c c')
    (settles : grammar.Settles true (.rule r) c (.matched ts d)) : S.Level c.offset c'.offset := by
  apply stand.level
  have reads := settles_least settles
  simp only [Peg.least] at reads
  rw [closes.nothing, List.length_nil]
  omega

theorem Closes.span_of_shut (shut : isShut r = true) (some : 0 < Rule.least r)
    (beside : S.Beside (.node r sp ts) t') : t'.span = sp.shifted n := by
  have stop := stop_of_shut beside shut
  cases beside with
  | quoted _ start _ => exact closes.shifted start stop
  | node stand _ first _ _ _ => exact closes.shifted (closes.start some stand first) stop

theorem Closes.span_of_cast (beside : S.Beside (.node .expression sp [t, u]) t') :
    t'.span = sp.shifted n := by
  cases beside with
  | node stand _ first second _ inside =>
      obtain - | ⟨-, - | ⟨last, - | _⟩⟩ := inside
      obtain ⟨_, suffix, stop⟩ := endAt_of_cast first
      obtain ⟨-, -, stop'⟩ := endAt_of_cast second
      rw [suffix] at last
      have level := stop_of_shut last rfl
      rw [stop, stop'] at level
      exact closes.shifted (closes.start (by decide) stand first) level

/-- An operand ends with its path. Without a path it ends behind the layout, where it may take the line
end along. -/
theorem Closes.span_of_postfix (beside : S.Beside (.node .postfixExpr sp (t :: ts)) t') :
    t'.span = sp.moved n size ts.isEmpty := by
  cases beside with
  | @node _ c c' d d' _ us stand mate first second _ inside =>
      have start := closes.level (closes.start (by decide) stand first)
      suffices stop : d'.offset = d.offset + n + (ts.isEmpty && d.offset == size).toNat by
        simp only [Tree.span, Span.moved, Cursor.spanTo, start, stop]
      cases inside with
      | @cons _ t' _ us _ path =>
          rcases endAt_of_postfix first with ⟨rfl, still⟩ | ends
          · cases path
            rcases endAt_of_postfix second with ⟨-, still'⟩ | ⟨vs, _, none, -⟩
            · exact closes.ends ⟨mate, still, still'⟩
            · simp at none
          · obtain ⟨_, w, rfl, stop⟩ := ends
            obtain ⟨_, w', rfl, last⟩ := beside_last path
            have stop' : w'.span.stop = d'.offset := by
              rcases endAt_of_postfix second with ⟨none, -⟩ | ends
              · simp at none
              · exact ends.last
            obtain ⟨_, _, _, same, -, segments⟩ :=
              Reading.grown_postfixExpr ⟨c, d, stand.still, first⟩
            cases same
            have level : S.Level w.span.stop w'.span.stop := by
              rcases segments w (by simp) with segment | segment
              · obtain ⟨_, _, rfl, -⟩ := Reading.grown_fieldSegment segment
                exact stop_of_shut last rfl
              · obtain ⟨_, _, rfl, -⟩ := Reading.grown_indexSegment segment
                exact stop_of_shut last rfl
            rw [stop, stop'] at level
            simp [closes.level level]

theorem Closes.span_of_signed (beside : S.Beside (.node .prefixExpr sp ts) t') :
    ∃ signs sp₁ a path, ts = signs ++ [.node .postfixExpr sp₁ (a :: path)]
      ∧ (∀ sign ∈ signs, ∃ sp text, sign = .leaf .unaryOp sp text)
      ∧ (∃ sp b, a = .node .primaryExpr sp [b]) ∧ t'.span = sp.moved n size path.isEmpty := by
  cases beside with
  | @node _ c c' d d' _ us stand mate first second _ inside =>
      obtain ⟨_, signs, _, same, operand, each⟩ := Reading.grown_prefixExpr ⟨c, d, stand.still, first⟩
      cases same
      obtain ⟨sp₁, a, path, rfl, base, -⟩ := Reading.grown_postfixExpr operand
      obtain ⟨sp₂, _, b, rfl, -⟩ := Reading.grown_primaryExpr base
      refine ⟨signs, sp₁, _, path, rfl, fun sign member => ?_, ⟨sp₂, b, rfl⟩, ?_⟩
      · obtain ⟨sp, _, _, _, rfl, -⟩ := (each sign member).leaf rfl
        exact ⟨sp, _, rfl⟩
      · obtain ⟨_, u, rfl, last⟩ := beside_last inside
        have stop : sp₁.stop = d.offset := (endAt_of_signed first).last
        have stop' := (endAt_of_signed second).last
        rw [closes.span_of_postfix last, Span.moved, stop] at stop'
        simp only [Tree.span, Span.moved, Cursor.spanTo, ← stop',
          closes.level (closes.start (by decide) stand first)]

end Places

end Seam

end Dil
