import Mathlib.Data.List.Basic

/-! # Traces of recursive locks

    A trace says in which order locks are taken and given up.  `ι` names a lock
    in the hands of a thread.

    * `depthAfter`: how deep a lock is held after a trace, if the trace never gives
      up what is not held.
    * `Balanced`: the trace gives up exactly what it takes.
    * `balanced_append`, `balanced_bracket`: how balanced traces are put together. -/

namespace Spr.Locks

/-- A lock is taken, or given up. -/
inductive LockStep (ι : Type) where
  | lock   : ι → LockStep ι
  | unlock : ι → LockStep ι
  deriving DecidableEq, Repr

variable {ι : Type} [DecidableEq ι] {i : ι} {d e k : Nat} {s t : List (LockStep ι)}

/-- How deep the lock `i` is held after the steps, from the depth `d` on; nothing where a
    step gives up what is not held. -/
def depthAfter (i : ι) : Nat → List (LockStep ι) → Option Nat
  | d, [] => some d
  | d, .lock j :: s => depthAfter i (if j = i then d + 1 else d) s
  | d, .unlock j :: s =>
      if j = i then
        match d with
        | 0 => none
        | d + 1 => depthAfter i d s
      else depthAfter i d s

/-- **The steps give up the lock `i` as often as they take it**, and never before. -/
def Balanced (i : ι) (s : List (LockStep ι)) : Prop := depthAfter i 0 s = some 0

instance (i : ι) (s : List (LockStep ι)) : Decidable (Balanced i s) :=
  inferInstanceAs (Decidable (_ = _))

theorem depthAfter_append : ∀ (s : List (LockStep ι)) (d : Nat),
    depthAfter i d (s ++ t) = (depthAfter i d s).bind fun e => depthAfter i e t := by
  intro s
  induction s with
  | nil => intro d; rfl
  | cons x s ih =>
    intro d
    cases x with
    | lock j => exact ih _
    | unlock j =>
      by_cases hj : j = i
      · cases d with
        | zero => simp [depthAfter, hj]
        | succ d => simp [depthAfter, hj, ih]
      · simp [depthAfter, hj, ih]

/-- A deeper start ends deeper. -/
theorem depthAfter_add : ∀ {s : List (LockStep ι)} {d : Nat}, depthAfter i d s = some e →
    depthAfter i (d + k) s = some (e + k) := by
  intro s
  induction s with
  | nil =>
    intro d h
    injection h with h
    rw [h]
    rfl
  | cons x s ih =>
    intro d h
    cases x with
    | lock j =>
      rw [depthAfter] at h ⊢
      have hdeeper := ih h
      by_cases hj : j = i
      · rw [if_pos hj] at hdeeper ⊢
        rwa [Nat.add_right_comm] at hdeeper
      · rwa [if_neg hj] at hdeeper ⊢
    | unlock j =>
      by_cases hj : j = i
      · cases d with
        | zero => simp [depthAfter, hj] at h
        | succ d =>
          rw [Nat.add_right_comm]
          simp only [depthAfter, if_pos hj] at h ⊢
          exact ih h
      · simp only [depthAfter, if_neg hj] at h ⊢
        exact ih h

/-- A balanced trace leaves the depth at which it starts. -/
theorem Balanced.depth (h : Balanced i s) (d : Nat) : depthAfter i d s = some d := by
  have hdeeper := depthAfter_add (k := d) h
  rwa [Nat.zero_add] at hdeeper

theorem balanced_nil : Balanced i ([] : List (LockStep ι)) := rfl

theorem balanced_append (hs : Balanced i s) (ht : Balanced i t) : Balanced i (s ++ t) := by
  rw [Balanced, depthAfter_append, hs]
  exact ht

/-- What is balanced stays so inside a lock. -/
theorem balanced_bracket (j : ι) (h : Balanced i s) :
    Balanced i (.lock j :: s ++ [.unlock j]) := by
  rw [Balanced, depthAfter_append]
  by_cases hj : j = i
  · rw [depthAfter, if_pos hj, h.depth]
    simp [depthAfter, hj]
  · rw [depthAfter, if_neg hj, h.depth]
    simp [depthAfter, hj]

/-- A lock that is taken and kept. -/
theorem not_balanced_lock : ¬ Balanced i [.lock i] := by simp [Balanced, depthAfter]

/-- A lock that is given up once too often. -/
theorem not_balanced_unlock (h : Balanced i s) : ¬ Balanced i (s ++ [.unlock i]) := by
  rw [Balanced, depthAfter_append, h]
  simp [depthAfter]

end Spr.Locks
