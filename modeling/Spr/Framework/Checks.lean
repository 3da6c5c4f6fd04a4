/-! # Operations made of checked calls

    An operation makes one call after the other, and ends at the first that fails.  What it
    reports then need not depend on the call.

    * `Oracle`: what the calls answer, and what is reported.
    * `check`: a call and what follows if it succeeds.
    * `Reports`: the operation reports success when the calls it depends on succeed.
    * `Reports.truthful_iff`: when it reports success only then. -/

namespace Spr.Checks

/-! ## Section 1: Operations -/

/-- What each call answers, 0 for success, and what is reported if one fails. -/
structure Oracle (Call : Type) where
  answer : Call → Int
  report : Int

/-- What an operation returns, and the calls it has made, oldest first. -/
structure Outcome (Call : Type) where
  err   : Int
  calls : List Call

variable {Call : Type}

/-- The call `c`; if it fails, the operation ends after the calls of `cleanup`. -/
def check (o : Oracle Call) (c : Call) (cleanup : List Call) (rest : Outcome Call) :
    Outcome Call :=
  if o.answer c ≠ 0 then ⟨o.report, c :: cleanup⟩ else ⟨rest.err, c :: rest.calls⟩

/-! ## Section 2: Reports -/

/-- All of the calls succeed. -/
def Succeed (o : Oracle Call) (needs : List Call) : Prop := ∀ c ∈ needs, o.answer c = 0

instance (o : Oracle Call) (needs : List Call) : Decidable (Succeed o needs) :=
  inferInstanceAs (Decidable (∀ c ∈ needs, o.answer c = 0))

/-- The operation returns `ok` if the calls it depends on succeed, and else what is
    reported. -/
def Reports (o : Oracle Call) (ok : Int) (needs : List Call) (out : Outcome Call) : Prop :=
  out.err = if Succeed o needs then ok else o.report

section Reports

variable {o : Oracle Call} {ok : Int} {needs cleanup calls : List Call} {rest out : Outcome Call}
  {c : Call}

theorem succeed_cons : Succeed o (c :: needs) ↔ o.answer c = 0 ∧ Succeed o needs :=
  List.forall_mem_cons

/-- An operation that depends on no call any more. -/
theorem reports_done (o : Oracle Call) (ok : Int) (calls : List Call) :
    Reports o ok [] ⟨ok, calls⟩ := by
  have hnone : Succeed o [] := by
    intro c hc
    cases hc
  unfold Reports
  rw [if_pos hnone]

/-- **One more call** in front of an operation. -/
theorem Reports.check (h : Reports o ok needs rest) (c : Call) (cleanup : List Call) :
    Reports o ok (c :: needs) (check o c cleanup rest) := by
  unfold Reports Checks.check at *
  by_cases hc : o.answer c = 0
  · rw [if_neg (not_not_intro hc), h]
    by_cases hrest : Succeed o needs
    · rw [if_pos hrest, if_pos (succeed_cons.mpr ⟨hc, hrest⟩)]
    · rw [if_neg hrest, if_neg fun hall => hrest (succeed_cons.mp hall).2]
  · rw [if_pos hc, if_neg fun hall => hc (succeed_cons.mp hall).1]

/-- A call that is made under a condition. -/
theorem Reports.check_if (h : Reports o ok needs rest) (p : Prop) [Decidable p] (c : Call)
    (cleanup : List Call) :
    Reports o ok ((if p then [c] else []) ++ needs) (if p then Checks.check o c cleanup rest
      else rest) := by
  by_cases hp : p
  · rw [if_pos hp, if_pos hp]
    exact h.check c cleanup
  · rw [if_neg hp, if_neg hp]
    exact h

/-- One of two calls, each under its condition. -/
theorem Reports.check_either (h : Reports o ok needs rest) (p q : Prop) [Decidable p]
    [Decidable q] (c d : Call) (cleanup : List Call) :
    Reports o ok ((if p then [c] else if q then [d] else []) ++ needs)
      (if p then Checks.check o c cleanup rest
        else if q then Checks.check o d cleanup rest else rest) := by
  by_cases hp : p
  · rw [if_pos hp, if_pos hp]
    exact h.check c cleanup
  · rw [if_neg hp, if_neg hp]
    exact h.check_if q d cleanup

/-- **The operation tells success from failure** when what is reported is not `ok`, or no
    call fails. -/
theorem Reports.truthful_iff (h : Reports o ok needs out) :
    (out.err = ok ↔ Succeed o needs) ↔ o.report ≠ ok ∨ Succeed o needs := by
  unfold Reports at h
  rw [h]
  by_cases hall : Succeed o needs
  · simp [hall]
  · simp [hall]

end Reports

end Spr.Checks
