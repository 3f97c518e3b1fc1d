import Dil.Session

/-!
Computations that keep their state when they fail, and what holds along them: a property of the
state, the steps that the state may take, and a property of the result.
-/

namespace Dil

variable {ε σ α β : Type}

theorem bind_apply (m : ExceptT ε (StateM σ) α) (k : α → ExceptT ε (StateM σ) β) (s : σ) :
    (m >>= k) s = match m s with
      | (.ok a, t) => k a t
      | (.error e, t) => (.error e, t) := by
  change (match m s with | (r, t) => ExceptT.bindCont k r t) = _
  rcases m s with ⟨_ | _, _⟩ <;> rfl

theorem bind_of_ok {m : ExceptT ε (StateM σ) α} (k : α → ExceptT ε (StateM σ) β) {s t : σ} {a : α}
    (run : m s = (.ok a, t)) : (m >>= k) s = k a t := by
  rw [bind_apply, run]

theorem bind_of_error {m : ExceptT ε (StateM σ) α} (k : α → ExceptT ε (StateM σ) β) {s t : σ} {e : ε}
    (run : m s = (.error e, t)) : (m >>= k) s = (.error e, t) := by
  rw [bind_apply, run]

/-- A property of states together with steps that compose and never lose it. -/
structure Regime (σ : Type) where
  Good : σ → Prop
  Step : σ → σ → Prop
  refl (s : σ) : Step s s
  trans {s t u : σ} : Step s t → Step t u → Step s u
  keep {s t : σ} : Step s t → Good s → Good t

namespace Regime

variable (R : Regime σ)

/-- From a good state the computation only takes steps, and a result that it gives satisfies `Q`
in the state after it. -/
def Meets (m : ExceptT ε (StateM σ) α) (s : σ) (Q : α → σ → Prop) : Prop :=
  R.Good s → R.Step s (m s).2 ∧ ∀ a, (m s).1 = .ok a → Q a (m s).2

variable {R}

theorem Meets.step {m : ExceptT ε (StateM σ) α} {s t : σ} {Q : α → σ → Prop} {r : Except ε α}
    (met : R.Meets m s Q) (good : R.Good s) (run : m s = (r, t)) : R.Step s t := by
  have step := (met good).1
  rwa [run] at step

theorem Meets.result {m : ExceptT ε (StateM σ) α} {s t : σ} {Q : α → σ → Prop} {a : α}
    (met : R.Meets m s Q) (good : R.Good s) (run : m s = (.ok a, t)) : Q a t := by
  have result := (met good).2 a
  rw [run] at result
  exact result rfl

theorem Meets.mono {m : ExceptT ε (StateM σ) α} {s : σ} {Q S : α → σ → Prop}
    (met : R.Meets m s Q) (weaker : ∀ a t, R.Step s t → Q a t → S a t) : R.Meets m s S := by
  intro good
  obtain ⟨step, result⟩ := met good
  exact ⟨step, fun a run => weaker a _ step (result a run)⟩

theorem Meets.of_good {m : ExceptT ε (StateM σ) α} {s : σ} {Q : α → σ → Prop}
    (met : R.Good s → R.Meets m s Q) : R.Meets m s Q := fun good => met good good

theorem Meets.pure {s : σ} {Q : α → σ → Prop} (a : α) (holds : Q a s) :
    R.Meets (Pure.pure a : ExceptT ε (StateM σ) α) s Q := by
  intro _
  refine ⟨R.refl s, ?_⟩
  rintro _ ⟨⟩
  exact holds

theorem Meets.throw {s : σ} {Q : α → σ → Prop} (e : ε) :
    R.Meets (MonadExcept.throw e : ExceptT ε (StateM σ) α) s Q := by
  intro _
  refine ⟨R.refl s, ?_⟩
  rintro _ ⟨⟩

theorem Meets.bind {m : ExceptT ε (StateM σ) α} {k : α → ExceptT ε (StateM σ) β} {s : σ}
    {Q : α → σ → Prop} {S : β → σ → Prop} (first : R.Meets m s Q)
    (second : ∀ a t, R.Step s t → Q a t → R.Meets (k a) t S) : R.Meets (m >>= k) s S := by
  intro good
  rw [bind_apply]
  rcases outcome : m s with ⟨e | a, t⟩
  · exact ⟨first.step good outcome, fun _ run => by cases run⟩
  · have step := first.step good outcome
    obtain ⟨later, final⟩ := second a t step (first.result good outcome) (R.keep step good)
    exact ⟨R.trans step later, final⟩

end Regime

end Dil
