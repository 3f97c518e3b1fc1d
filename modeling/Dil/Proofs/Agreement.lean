import Dil.Proofs.Regime

/-!
Two computations side by side: from alike states they end alike, with alike results or with the
same error, unless one of them comes to an end for want of room. What makes states alike is a view that
may grow along the way.
-/

namespace Dil

variable {ε σ ω α β γ δ : Type}

/-- The same error, or two results that are related. -/
inductive Concur (R : α → β → Prop) : Except ε α → Except ε β → Prop where
  | ok {a : α} {b : β} (related : R a b) : Concur R (.ok a) (.ok b)
  | error (e : ε) : Concur R (.error e) (.error e)

theorem Concur.elim {R : α → β → Prop} {x : Except ε α} {y : Except ε β} (concur : Concur R x y) :
    (∃ e, x = .error e ∧ y = .error e) ∨ ∃ a b, x = .ok a ∧ y = .ok b ∧ R a b := by
  cases concur with
  | ok related => exact Or.inr ⟨_, _, rfl, rfl, related⟩
  | error e => exact Or.inl ⟨e, rfl, rfl⟩

theorem Concur.refl (x : Except ε α) : Concur Eq x x := by
  cases x with
  | ok a => exact .ok rfl
  | error e => exact .error e

theorem Concur.of_error_eq {R : α → β → Prop} {e e' : ε} (same : e = e') :
    Concur R (.error e) (.error e') := same ▸ .error e

theorem Concur.bind {R : α → β → Prop} {S : γ → δ → Prop} {x : Except ε α} {y : Except ε β}
    {k : α → Except ε γ} {l : β → Except ε δ} (first : Concur R x y)
    (second : ∀ a b, R a b → Concur S (k a) (l b)) : Concur S (x >>= k) (y >>= l) := by
  cases first with
  | ok related => exact second _ _ related
  | error e => exact .error e

theorem Concur.map {R : α → β → Prop} {S : γ → δ → Prop} {x : Except ε α} {y : Except ε β}
    {k : α → γ} {l : β → δ} (first : Concur R x y) (second : ∀ a b, R a b → S (k a) (l b)) :
    Concur S (x.map k) (y.map l) := by
  cases first with
  | ok related => exact .ok (second _ _ related)
  | error e => exact .error e

/-- Views under which two states are alike, how a view may grow while the states go on, and which
errors say that there was no room. -/
structure Likeness (ε σ ω : Type) where
  Alike : ω → σ → σ → Prop
  Step : ω → σ → σ → ω → σ → σ → Prop
  Spent : ε → σ → Prop
  refl (w : ω) (s s' : σ) : Step w s s' w s s'
  trans {w v u : ω} {s s' t t' r r' : σ} :
    Step w s s' v t t' → Step v t t' u r r' → Step w s s' u r r'

namespace Likeness

variable (L : Likeness ε σ ω)

/-- The computation failed, and for want of room. -/
def RanOut (outcome : Except ε α × σ) : Prop := ∃ e, outcome.1 = .error e ∧ L.Spent e outcome.2

/-- Run from alike states, the computations leave alike states, with results related by `Q`, or one of
them runs out of room. -/
def Agree (m : ExceptT ε (StateM σ) α) (m' : ExceptT ε (StateM σ) β) (w : ω) (s s' : σ)
    (Q : ω → α → β → Prop) : Prop :=
  L.Alike w s s' → (∃ v, L.Step w s s' v (m s).2 (m' s').2 ∧ L.Alike v (m s).2 (m' s').2 ∧
    Concur (Q v) (m s).1 (m' s').1) ∨ L.RanOut (m s) ∨ L.RanOut (m' s')

variable {L} {w : ω} {s s' : σ}

theorem RanOut.bind {m : ExceptT ε (StateM σ) α} {k : α → ExceptT ε (StateM σ) β}
    (out : L.RanOut (m s)) : L.RanOut ((m >>= k) s) := by
  obtain ⟨e, failed, spent⟩ := out
  rw [bind_of_error k (Prod.ext failed rfl)]
  exact ⟨e, rfl, spent⟩

theorem Agree.of_alike {m : ExceptT ε (StateM σ) α} {m' : ExceptT ε (StateM σ) β}
    {Q : ω → α → β → Prop} (agree : L.Alike w s s' → L.Agree m m' w s s' Q) :
    L.Agree m m' w s s' Q := fun alike => agree alike alike

theorem Agree.pure {Q : ω → α → β → Prop} {a : α} {b : β} (related : Q w a b) :
    L.Agree (Pure.pure a : ExceptT ε (StateM σ) α) (Pure.pure b) w s s' Q :=
  fun alike => Or.inl ⟨w, L.refl w s s', alike, .ok related⟩

theorem Agree.throw {Q : ω → α → β → Prop} (e : ε) :
    L.Agree (MonadExcept.throw e : ExceptT ε (StateM σ) α) (MonadExcept.throw e) w s s' Q :=
  fun alike => Or.inl ⟨w, L.refl w s s', alike, .error e⟩

theorem Agree.bind {m : ExceptT ε (StateM σ) α} {m' : ExceptT ε (StateM σ) β}
    {k : α → ExceptT ε (StateM σ) γ} {k' : β → ExceptT ε (StateM σ) δ}
    {Q : ω → α → β → Prop} {S : ω → γ → δ → Prop} (first : L.Agree m m' w s s' Q)
    (second : ∀ v t t' a b, L.Step w s s' v t t' → Q v a b → L.Agree (k a) (k' b) v t t' S) :
    L.Agree (m >>= k) (m' >>= k') w s s' S := by
  intro alike
  rcases first alike with ⟨v, step, after, concur⟩ | out | out
  · rw [bind_apply, bind_apply]
    rcases left : m s with ⟨r, t⟩
    rcases right : m' s' with ⟨r', t'⟩
    rw [left, right] at step after concur
    cases concur with
    | error e => exact Or.inl ⟨v, step, after, .error e⟩
    | ok related =>
        rcases second v t t' _ _ step related after with ⟨u, later, last, final⟩ | outs
        · exact Or.inl ⟨u, L.trans step later, last, final⟩
        · exact Or.inr outs
  · exact Or.inr (Or.inl out.bind)
  · exact Or.inr (Or.inr out.bind)

end Likeness

end Dil
