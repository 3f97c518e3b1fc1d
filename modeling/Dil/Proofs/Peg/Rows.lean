import Dil.Proofs.Peg.Shape

namespace Dil

variable {ρ : Type}

/-- The trees that rules gave, from one position on up to another, in the order of the text. -/
inductive Grammar.Row (g : Grammar ρ) : Cursor → List (Tree ρ) → Cursor → Prop where
  | nil {c d : Cursor} {s : List Char} (ahead : c.Reads s d) : Row g c [] d
  | cons {c e f d : Cursor} {s : List Char} {r : ρ} {t : Tree ρ} {ts : List (Tree ρ)}
      (ahead : c.Reads s e) (still : g.skip e = e) (found : g.Settles true (.rule r) e (.matched [t] f))
      (others : Row g f ts d) : Row g c (t :: ts) d

namespace Grammar

variable {g : Grammar ρ} {p : Peg ρ} {b c d e : Cursor} {s : List Char} {v : Verdict ρ}
  {ts us : List (Tree ρ)}

theorem Row.lead (ahead : b.Reads s c) (row : g.Row c ts d) : g.Row b ts d := by
  cases row with
  | nil rest => exact .nil (ahead.trans rest)
  | cons rest still found others => exact .cons (ahead.trans rest) still found others

theorem Row.append (first : g.Row c ts d) (second : g.Row d us e) : g.Row c (ts ++ us) e := by
  induction first with
  | nil ahead => exact second.lead ahead
  | cons ahead still found _ ih => exact .cons ahead still found (ih second)

theorem row_skip (forward : g.SkipsForward) (row : g.Row (g.skip c) ts d) : g.Row c ts d := by
  obtain ⟨s, ahead⟩ := forward c
  exact row.lead ahead

theorem row_none (c : Cursor) : g.Row c [] c := .nil (.refl c)

/-- The trees of a match stand in a row, from where it starts to where it ends. Only further parts of
a repetition start before layout. -/
theorem Settles.row (forward : g.SkipsForward) (skips : ∀ c, g.skip (g.skip c) = g.skip c)
    {spaced : Bool} (settles : g.Settles spaced p c v) (layout : spaced = true)
    (still : g.skip c = c ∨ ∃ a, p = .more a) (matched : v = .matched ts d) : g.Row c ts d := by
  induction settles generalizing ts d with
  | nothing | atEnd | ahead | absent | optNone | starNone | moreNone =>
      cases matched
      exact row_none _
  | char next =>
      cases matched
      exact .nil (Cursor.past_reads next)
  | text next =>
      cases matched
      exact .nil (Cursor.read?_eq_some_iff.mp next)
  | beforeEnd | charRefused | textRefused | seqRefused | aheadRefused | present => cases matched
  | @rule _ r c _ inner =>
      subst layout
      obtain ⟨t, rfl⟩ := gather_single matched
      obtain still | ⟨_, ⟨⟩⟩ := still
      have found : g.Settles true (.rule r) c (.matched [t] d) := matched ▸ .rule inner
      exact .cons (.refl c) still found (row_none d)
  | seq _ _ ihA ihB =>
      subst layout
      obtain still | ⟨_, ⟨⟩⟩ := still
      obtain ⟨us, rfl, rfl⟩ := Verdict.of_after_matched matched
      exact (ihA rfl (.inl still) rfl).append (row_skip forward (ihB rfl (.inl (skips _)) rfl))
  | altFirst _ ih | opt _ ih =>
      obtain still | ⟨_, ⟨⟩⟩ := still
      exact ih layout (.inl still) matched
  | altSecond _ _ _ ih =>
      obtain still | ⟨_, ⟨⟩⟩ := still
      exact ih layout (.inl still) matched
  | star _ _ ihA ihB =>
      obtain still | ⟨_, ⟨⟩⟩ := still
      obtain ⟨us, rfl, rfl⟩ := Verdict.of_after_matched matched
      exact (ihA layout (.inl still) rfl).append (ihB layout (.inr ⟨_, rfl⟩) rfl)
  | more _ _ ihA ihB =>
      subst layout
      obtain ⟨us, rfl, rfl⟩ := Verdict.of_after_matched matched
      have first := row_skip forward (ihA rfl (.inl (skips _)) rfl)
      exact first.append (ihB rfl (.inr ⟨_, rfl⟩) rfl)

theorem Settles.of_node {spaced : Bool} {r q : ρ} {sp : Span}
    (settles : g.Settles spaced (.rule r) c (.matched [.node q sp ts] d)) : r = q ∧ sp = c.spanTo d := by
  obtain ⟨us, gathered, -⟩ := settles.matched_body
  cases kind : g.kind r with
  | spaced | joined =>
      rw [kind] at gathered
      cases gathered
      exact ⟨rfl, rfl⟩
  | token =>
      rw [kind] at gathered
      cases gathered

theorem Settles.of_leaf {spaced : Bool} {r q : ρ} {sp : Span}
    (settles : g.Settles spaced (.rule r) c (.matched [.leaf q sp s] d)) :
    r = q ∧ sp = c.spanTo d ∧ s = c.textUpTo d := by
  obtain ⟨us, gathered, -⟩ := settles.matched_body
  cases kind : g.kind r with
  | spaced | joined =>
      rw [kind] at gathered
      cases gathered
  | token =>
      rw [kind] at gathered
      cases gathered
      exact ⟨rfl, rfl, rfl⟩

theorem Settles.row_below (forward : g.SkipsForward) (skips : ∀ c, g.skip (g.skip c) = g.skip c)
    {q r : ρ} {sp : Span} (spaced : g.kind q = .spaced) (still : g.skip c = c)
    (settles : g.Settles true (.rule r) c (.matched [.node q sp ts] d)) : g.Row c ts d := by
  obtain ⟨rfl, rfl⟩ := settles.of_node
  obtain ⟨us, same, inner⟩ := settles.matched_node spaced
  cases same
  exact inner.row forward skips rfl (.inl still) rfl

end Grammar

end Dil
