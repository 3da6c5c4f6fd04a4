import Mathlib.Logic.Relation

/-! # Programs that stand for steps of a model

    A program runs on states; a model has states of its own.

    * `Simulates`: run from a state that stands for `m`, the program returns `a`
      and leaves a state that stands for `m'`, by steps of a given kind.
    * `Simulates.pure`, `Simulates.bind`, `Simulates.one`: how simulations are
      made and put together.
    * `steps_keep`: what every step keeps holds after all of them.
    * `run_refines`: a run whose events are events of another system, or nothing.
    * `runWhile`: a run as long as its events are allowed. -/

namespace Spr.Simulations

section Rules

variable {ε σ τ α β : Type} {R : σ → τ → Prop} {step : σ → σ → Prop}

/-- Run from a state that stands for `m`, the program returns `a` and leaves a state
    that stands for `m'`; on the way it takes the steps `step` only. -/
def Simulates (R : σ → τ → Prop) (step : σ → σ → Prop) (x : EStateM ε σ α) (m : τ) (a : α)
    (m' : τ) : Prop :=
  ∀ s, R s m → ∃ s', x s = .ok a s' ∧ Relation.ReflTransGen step s s' ∧ R s' m'

theorem Simulates.pure (a : α) (m : τ) :
    Simulates R step (Pure.pure a : EStateM ε σ α) m a m :=
  fun s h => ⟨s, rfl, .refl, h⟩

/-- One program after the other. -/
theorem Simulates.bind {x : EStateM ε σ α} {f : α → EStateM ε σ β} {m m₁ m' : τ} {a : α} {b : β}
    (hx : Simulates R step x m a m₁) (hf : Simulates R step (f a) m₁ b m') :
    Simulates R step (x >>= f) m b m' := by
  intro s h
  obtain ⟨s₁, hrun₁, hsteps₁, h₁⟩ := hx s h
  obtain ⟨s', hrun, hsteps, h'⟩ := hf s₁ h₁
  refine ⟨s', ?_, hsteps₁.trans hsteps, h'⟩
  show EStateM.bind x f s = _
  unfold EStateM.bind
  rw [hrun₁]
  exact hrun

/-- A program that reads only. -/
theorem Simulates.read {x : EStateM ε σ α} {m : τ} {a : α}
    (h : ∀ s, R s m → x s = .ok a s) : Simulates R step x m a m :=
  fun s hs => ⟨s, h s hs, .refl, hs⟩

/-- A program that takes one step. -/
theorem Simulates.one {x : EStateM ε σ α} {m m' : τ} {a : α} (next : σ → σ)
    (h : ∀ s, R s m → x s = .ok a (next s) ∧ step s (next s) ∧ R (next s) m') :
    Simulates R step x m a m' := by
  intro s hs
  obtain ⟨hrun, hstep, h'⟩ := h s hs
  exact ⟨next s, hrun, .single hstep, h'⟩

end Rules

section Steps

variable {σ : Type} {step : σ → σ → Prop} {s s' : σ}

/-- What every step keeps holds after all of them. -/
theorem steps_keep {P : σ → Prop} (hsteps : Relation.ReflTransGen step s s')
    (hkeep : ∀ s s', P s → step s s' → P s') (h : P s) : P s' := by
  induction hsteps with
  | refl => exact h
  | tail _ hstep ih => exact hkeep _ _ ih hstep

end Steps

section Events

variable {σ τ ε : Type} {step : σ → ε → Option σ} {step' : τ → ε → Option τ} {view : σ → τ}
  {I : σ → Prop}

/-- What every event keeps holds after a run. -/
theorem run_keeps (hstep : ∀ s e s', I s → step s e = some s' → I s') {es : List ε} {s s' : σ}
    (hs : I s) (hrun : es.foldlM step s = some s') : I s' := by
  induction es generalizing s with
  | nil =>
    obtain rfl : s = s' := by simpa using hrun
    exact hs
  | cons e es ih =>
    rw [List.foldlM_cons] at hrun
    obtain ⟨s₁, hexec, hrest⟩ := Option.bind_eq_some_iff.mp hrun
    exact ih (hstep s e s₁ hs hexec) hrest

/-- **A run is a run of the other system**, with the events left out that cannot be seen. -/
theorem run_refines (hkeep : ∀ s e s', I s → step s e = some s' → I s')
    (hstep : ∀ s e s', I s → step s e = some s' →
      view s' = view s ∨ step' (view s) e = some (view s')) {es : List ε} {s s' : σ} (hs : I s)
    (hrun : es.foldlM step s = some s') :
    ∃ seen : List ε, seen.Sublist es ∧ seen.foldlM step' (view s) = some (view s') := by
  induction es generalizing s with
  | nil =>
    obtain rfl : s = s' := by simpa using hrun
    exact ⟨[], .refl _, rfl⟩
  | cons e es ih =>
    rw [List.foldlM_cons] at hrun
    obtain ⟨s₁, hexec, hrest⟩ := Option.bind_eq_some_iff.mp hrun
    obtain ⟨seen, hsub, hseen⟩ := ih (hkeep s e s₁ hs hexec) hrest
    rcases hstep s e s₁ hs hexec with hsame | hone
    · exact ⟨seen, hsub.cons e, hsame ▸ hseen⟩
    · refine ⟨e :: seen, hsub.cons_cons e, ?_⟩
      rw [List.foldlM_cons, hone]
      exact hseen

/-- The state after some events, if they are allowed and return. -/
def runWhile (ok : σ → ε → Prop) [∀ s e, Decidable (ok s e)] (step : σ → ε → Option σ) :
    σ → List ε → Option σ
  | s, [] => some s
  | s, e :: es => if ok s e then (step s e).bind fun s' => runWhile ok step s' es else none

/-- What every event that is allowed keeps holds after them. -/
theorem runWhile_keeps {ok : σ → ε → Prop} [∀ s e, Decidable (ok s e)]
    (hstep : ∀ s e s', I s → ok s e → step s e = some s' → I s') {es : List ε} {s s' : σ}
    (hs : I s) (hrun : runWhile ok step s es = some s') : I s' := by
  induction es generalizing s with
  | nil =>
    obtain rfl : s = s' := Option.some.inj hrun
    exact hs
  | cons e es ih =>
    rw [runWhile] at hrun
    split at hrun
    · rename_i hok
      obtain ⟨s₁, hexec, hrest⟩ := Option.bind_eq_some_iff.mp hrun
      exact ih (hstep s e s₁ hs hok hexec) hrest
    · cases hrun

end Events

end Spr.Simulations
