import Dil.Proofs.Checks.Builders

namespace Dil.Build

/-- Tokens between two offsets of the source, each with its text at its place, in the order of the
text. -/
structure Placed (source : String) (low : Nat) (ks : List Token) (high : Nat) : Prop where
  forward : low ≤ high
  spelled : ∀ k ∈ ks, k.rule.isChecked = true ∧ k.span.Spells source k.text
  within : ∀ k ∈ ks, low ≤ k.span.start ∧ k.span.stop ≤ high
  ordered : ks.Pairwise fun k l => k.span.stop ≤ l.span.start

section Placed

variable {source : String} {ks ls : List Token} {a b m n : Nat} {t : Node} {ts : List Node}
  {c d : Cursor} {r : Rule} {sp : Span} {w : List Char}

theorem placed_nil (forward : a ≤ b) : Placed source a [] b := ⟨forward, nofun, nofun, .nil⟩

theorem Placed.widen (placed : Placed source a ks b) (low : m ≤ a) (high : b ≤ n) :
    Placed source m ks n where
  forward := Nat.le_trans low (Nat.le_trans placed.forward high)
  spelled := placed.spelled
  within k member :=
    ⟨Nat.le_trans low (placed.within k member).1, Nat.le_trans (placed.within k member).2 high⟩
  ordered := placed.ordered

theorem Placed.append (first : Placed source a ks m) (second : Placed source m ls b) :
    Placed source a (ks ++ ls) b where
  forward := Nat.le_trans first.forward second.forward
  spelled := List.forall_mem_append.mpr ⟨first.spelled, second.spelled⟩
  within := List.forall_mem_append.mpr
    ⟨(first.widen (Nat.le_refl a) second.forward).within,
      (second.widen first.forward (Nat.le_refl b)).within⟩
  ordered := List.pairwise_append.mpr ⟨first.ordered, second.ordered, fun k here l there =>
    Nat.le_trans (first.within k here).2 (second.within l there).1⟩

theorem placed_leaf (inside : c.In source) (reads : c.Reads w d) :
    Placed source c.offset (tokens (.leaf r (c.spanTo d) (c.textUpTo d))) d.offset := by
  have forward : c.offset ≤ d.offset := by
    rw [reads.offset]
    omega
  rw [tokens]
  split
  · rename_i kind
    refine ⟨forward, ?_, ?_, List.pairwise_singleton _ _⟩
    · rintro k member
      obtain rfl := List.mem_singleton.mp member
      exact ⟨kind, reads.textUpTo ▸ inside.spells reads⟩
    · rintro k member
      obtain rfl := List.mem_singleton.mp member
      exact ⟨Nat.le_refl _, Nat.le_refl _⟩
  · exact placed_nil forward

theorem placed_row (each : ∀ t ∈ ts, ∀ c d, Sited source t c d → Placed source c.offset (tokens t) d.offset)
    (inside : c.In source) (row : grammar.Row c ts d) : Placed source c.offset (tokensOf ts) d.offset := by
  induction ts generalizing c with
  | nil => exact placed_nil (row_offset row)
  | cons t ts ih =>
      obtain ⟨first, others⟩ := List.forall_mem_cons.mp each
      obtain ⟨e, f, ahead, sited, inside', rest⟩ := row_cons inside row
      exact ((first e f sited).widen ahead (Nat.le_refl _)).append (ih others inside' rest)

theorem placed_string
    (sited : Sited source t c d) (settles : grammar.Settles true (.rule .stringLiteral) c (.matched [t] d)) :
    Placed source c.offset (tokens t) d.offset := by
  obtain ⟨e, f, w, rfl, opening, reads, closing⟩ := matched_stringLiteral settles
  obtain ⟨before, ahead⟩ := sited.inside
  have inner : Placed source e.offset (tokens (.leaf .stringInner (e.spanTo f) (e.textUpTo f))) f.offset :=
    placed_leaf ⟨_, ahead.trans opening⟩ reads
  have start := opening.offset
  have stop := closing.offset
  rw [tokens_one]
  exact inner.widen (by omega) (by omega)

theorem placed (source : String) (t : Node) :
    ∀ c d, Sited source t c d → Placed source c.offset (tokens t) d.offset := by
  induction t using Tree.induct with
  | step t children =>
      intro c d sited
      cases t with
      | leaf r sp text =>
          obtain ⟨rfl, rfl⟩ := sited.leaf_place
          obtain ⟨w, reads, -⟩ := sited.reads
          exact placed_leaf sited.inside reads
      | node r sp ts =>
          cases kind : Rule.kind r with
          | spaced => exact placed_row children sited.inside (sited.below kind)
          | joined =>
              have quoted : r = .stringLiteral := by cases r <;> first | rfl | cases kind
              subst quoted
              exact placed_string sited sited.found
          | token =>
              obtain ⟨us, gathered, -⟩ := sited.found.matched_body
              change _ = (Verdict.matched us d).gather (Rule.kind r) r c at gathered
              rw [kind] at gathered
              cases gathered

end Placed

end Dil.Build
