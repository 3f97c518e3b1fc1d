import Dil.Proofs.Peg.Depth

namespace Dil

variable {ρ : Type}

/-- The trees are ones that the expression can give, if `G` says which trees a rule can give. -/
def Peg.Gives (G : ρ → Tree ρ → Prop) : Peg ρ → List (Tree ρ) → Prop
  | .nothing, ts | .endOfInput, ts | .char _, ts | .text _, ts | .ahead _, ts | .unless _, ts =>
    ts = []
  | .rule r, ts => ∃ t, ts = [t] ∧ G r t
  | .seq a b, ts => ∃ us vs, ts = us ++ vs ∧ a.Gives G us ∧ b.Gives G vs
  | .alt a b, ts => a.Gives G ts ∨ b.Gives G ts
  | .opt a, ts => ts = [] ∨ a.Gives G ts
  | .star a, ts | .more a, ts => ∃ tss, ts = List.flatten tss ∧ ∀ us ∈ tss, a.Gives G us

/-- The rule gives the tree somewhere, behind all layout. -/
def Grammar.Grown (g : Grammar ρ) (r : ρ) (t : Tree ρ) : Prop :=
  ∃ c d, g.skip c = c ∧ g.Settles true (.rule r) c (.matched [t] d)

namespace Grammar

variable {g : Grammar ρ} {p : Peg ρ} {c d : Cursor} {v : Verdict ρ} {ts : List (Tree ρ)}

theorem gather_single {kind : RuleKind} {r : ρ} (matched : v.gather kind r c = .matched ts d) :
    ∃ t, ts = [t] := by
  obtain ⟨us, rfl⟩ := Verdict.of_gather_matched matched
  cases kind <;> cases matched <;> exact ⟨_, rfl⟩

/-- Trees that were read can be given, and every rule among them started behind all layout. Only
further parts of a repetition start before it. -/
theorem Settles.gives (skips : ∀ c, g.skip (g.skip c) = g.skip c) {spaced : Bool}
    (settles : g.Settles spaced p c v) (layout : spaced = true)
    (still : g.skip c = c ∨ ∃ a, p = .more a) (matched : v = .matched ts d) :
    p.Gives g.Grown ts := by
  induction settles generalizing ts d with
  | nothing | atEnd | char | text | ahead | absent =>
      cases matched
      rfl
  | beforeEnd | charRefused | textRefused | seqRefused | aheadRefused | present => cases matched
  | rule inner =>
      subst layout
      obtain ⟨t, rfl⟩ := gather_single matched
      obtain still | ⟨_, ⟨⟩⟩ := still
      exact ⟨t, rfl, _, d, still, matched ▸ .rule inner⟩
  | seq _ _ ihA ihB =>
      subst layout
      obtain still | ⟨_, ⟨⟩⟩ := still
      obtain ⟨us, rfl, rfl⟩ := Verdict.of_after_matched matched
      exact ⟨_, us, rfl, ihA rfl (.inl still) rfl, ihB rfl (.inl (skips _)) rfl⟩
  | altFirst _ ih =>
      obtain still | ⟨_, ⟨⟩⟩ := still
      exact .inl (ih layout (.inl still) matched)
  | altSecond _ _ _ ih =>
      obtain still | ⟨_, ⟨⟩⟩ := still
      exact .inr (ih layout (.inl still) matched)
  | opt _ ih =>
      obtain still | ⟨_, ⟨⟩⟩ := still
      exact .inr (ih layout (.inl still) matched)
  | optNone =>
      cases matched
      exact .inl rfl
  | star _ _ ihA ihB =>
      obtain still | ⟨_, ⟨⟩⟩ := still
      obtain ⟨us, rfl, rfl⟩ := Verdict.of_after_matched matched
      obtain ⟨tss, rfl, each⟩ := ihB layout (.inr ⟨_, rfl⟩) rfl
      exact ⟨_ :: tss, rfl, List.forall_mem_cons.mpr ⟨ihA layout (.inl still) rfl, each⟩⟩
  | more _ _ ihA ihB =>
      subst layout
      obtain ⟨us, rfl, rfl⟩ := Verdict.of_after_matched matched
      obtain ⟨tss, rfl, each⟩ := ihB rfl (.inr ⟨_, rfl⟩) rfl
      exact ⟨_ :: tss, rfl, List.forall_mem_cons.mpr ⟨ihA rfl (.inl (skips _)) rfl, each⟩⟩
  | starNone | moreNone =>
      cases matched
      exact ⟨[], rfl, nofun⟩

theorem Settles.body {spaced : Bool} {r : ρ} (settles : g.Settles spaced (.rule r) c v) :
    ∃ w, v = w.gather (g.kind r) r c ∧ g.Settles ((g.kind r).spacing spaced) (g.body r) c w := by
  cases settles with
  | rule inner => exact ⟨_, rfl, inner⟩

theorem Settles.matched_body {spaced : Bool} {r : ρ}
    (settles : g.Settles spaced (.rule r) c (.matched ts d)) :
    ∃ us, Verdict.matched ts d = (Verdict.matched us d).gather (g.kind r) r c
      ∧ g.Settles ((g.kind r).spacing spaced) (g.body r) c (.matched us d) := by
  obtain ⟨w, gathered, inner⟩ := settles.body
  obtain ⟨us, rfl⟩ := Verdict.of_gather_matched gathered.symm
  exact ⟨us, gathered, inner⟩

theorem Settles.matched_rule {spaced : Bool} {r : ρ}
    (settles : g.Settles spaced (.rule r) c (.matched ts d)) : ∃ t, ts = [t] := by
  obtain ⟨w, gathered, _⟩ := settles.body
  exact gather_single gathered.symm

theorem Settles.matched_seq {spaced : Bool} {a b : Peg ρ}
    (settles : g.Settles spaced (.seq a b) c (.matched ts d)) :
    ∃ us e vs, g.Settles spaced a c (.matched us e)
      ∧ g.Settles spaced b (g.skipIf spaced e) (.matched vs d) ∧ ts = us ++ vs := by
  generalize verdict : Verdict.matched ts d = v at settles
  cases settles with
  | seq first second =>
      obtain ⟨vs, rfl, rfl⟩ := Verdict.of_after_matched verdict.symm
      exact ⟨_, _, vs, first, second, rfl⟩
  | seqRefused => cases verdict

theorem Settles.refused_seq {spaced : Bool} {a b : Peg ρ} (settles : g.Settles spaced (.seq a b) c .refused) :
    g.Settles spaced a c .refused ∨ ∃ us e, g.Settles spaced a c (.matched us e)
      ∧ g.Settles spaced b (g.skipIf spaced e) .refused := by
  generalize verdict : Verdict.refused = v at settles
  cases settles with
  | seqRefused first => exact .inl first
  | @seq _ _ _ _ _ _ w first second =>
      cases w with
      | refused => exact .inr ⟨_, _, first, second⟩
      | matched | unfinished => cases verdict

theorem Settles.matched_first {spaced : Bool} {r : ρ} {rs : List ρ}
    (settles : g.Settles spaced (Peg.first ((r :: rs).map .rule)) c (.matched ts d)) :
    ∃ q ∈ r :: rs, g.Settles spaced (.rule q) c (.matched ts d) := by
  induction rs generalizing r with
  | nil => exact ⟨r, List.mem_cons_self, settles⟩
  | cons q rs ih =>
      cases settles with
      | altFirst first => exact ⟨r, List.mem_cons_self, first⟩
      | altSecond _ second =>
          obtain ⟨p, member, found⟩ := ih second
          exact ⟨p, List.mem_cons_of_mem _ member, found⟩

theorem Settles.matched_node {spaced : Bool} {r : ρ} {t : Tree ρ} (kind : g.kind r = .spaced)
    (settles : g.Settles spaced (.rule r) c (.matched [t] d)) :
    ∃ us, t = .node r (c.spanTo d) us ∧ g.Settles spaced (g.body r) c (.matched us d) := by
  obtain ⟨us, gathered, inner⟩ := settles.matched_body
  rw [kind] at gathered inner
  cases gathered
  exact ⟨us, rfl, inner⟩

theorem Grown.node {r : ρ} {t : Tree ρ} (skips : ∀ c, g.skip (g.skip c) = g.skip c)
    (grown : g.Grown r t) (spaced : g.kind r = .spaced) :
    ∃ sp ts, t = .node r sp ts ∧ (g.body r).Gives g.Grown ts := by
  obtain ⟨c, d, still, settles⟩ := grown
  obtain ⟨us, rfl, inner⟩ := settles.matched_node spaced
  exact ⟨_, us, rfl, inner.gives skips rfl (.inl still) rfl⟩

theorem Grown.joined {r : ρ} {t : Tree ρ} (grown : g.Grown r t) (joined : g.kind r = .joined) :
    ∃ sp ts, t = .node r sp ts := by
  obtain ⟨c, d, _, settles⟩ := grown
  obtain ⟨us, gathered, _⟩ := settles.matched_body
  rw [joined] at gathered
  cases gathered
  exact ⟨_, us, rfl⟩

theorem Grown.leaf {r : ρ} {t : Tree ρ} (grown : g.Grown r t) (token : g.kind r = .token) :
    ∃ sp c d us, t = .leaf r sp (c.textUpTo d) ∧ g.Settles false (g.body r) c (.matched us d) := by
  obtain ⟨c, d, _, settles⟩ := grown
  obtain ⟨us, gathered, inner⟩ := settles.matched_body
  rw [token] at gathered inner
  cases gathered
  exact ⟨_, c, d, us, rfl, inner⟩

end Grammar

end Dil
