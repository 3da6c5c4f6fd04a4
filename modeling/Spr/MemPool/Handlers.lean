import Spr.MemPool.Clear

/-! # Handlers that register cleanups

    While `spr_pool_clear` and `spr_pool_destroy` run the handlers of a pool, a
    handler may register further cleanups with that pool.

    * `Wish`, `Script`: what the handlers ask for.
    * `Served`, `Round`: the record of a walk over the cleanups of a pool.
    * `runAllWith`, `clearWith`, `destroyWith`: the functions of the source, for
      handlers that follow a script.
    * `clearWith_silent`, `clearWith_echoes`: handlers that ask for nothing are
      those of the model without a script.
    * `ClearKept`, `DestroyKept`: no registration is dropped. -/

namespace Spr.MemPool

open Spr.Words Spr.Chains

/-! ## Section 1: What handlers ask for -/

/-- What a handler asks of the pool it is run for: a cleanup of its own, or an
    oversized block, which registers `spr_free`. -/
inductive Wish (plat : Platform) where
  | add (data handler : Nat)
  | oversized (size : Nat) (h : sprMaxPoolSlot < slotIndex plat size)

/-- What the handlers do, given the world and the pool, the handler and its data. -/
abbrev Script (plat : Platform) : Type := World → Nat → Nat → Nat → List (Wish plat)

/-- A registration that a handler has made. -/
structure Made where
  /-- The world before it. -/
  before  : World
  record  : Nat
  data    : Nat
  handler : Nat

/-- A handler that has run, and what it has registered. -/
structure Served where
  handler : Nat
  data    : Nat
  made    : List Made

/-- One `spr_pool_cleanup_run_all`. -/
structure Round where
  pool   : Nat
  visits : List Served

/-- The handlers that a round has called, with their data. -/
def Round.called (round : Round) : List (Nat × Nat) :=
  round.visits.map fun v => (v.handler, v.data)

/-- The registrations made during the round. -/
def Round.made (round : Round) : List Made := round.visits.flatMap Served.made

/-- What is registered. -/
def Made.pair (m : Made) : Nat × Nat := (m.handler, m.data)

/-! ## Section 2: The functions of the source -/

section Functions

variable (plat : Platform) (script : Script plat) (thread : Nat)

/-- The pool is asked for what the handler wishes.  A block that is refused is not
    registered. -/
def grant (pool : Nat) : Wish plat → Act (List Made)
  | .add data handler => do
      let before ← get
      sprPoolCleanupAdd1 plat thread pool data handler
      let record ← load (poolCleanups pool)
      pure [⟨before, record, data, handler⟩]
  | .oversized size _ => do
      let before ← get
      let mem ← sprPalloc plat thread pool size
      if mem = 0 then pure []
      else do
        let record ← load (poolCleanups pool)
        pure [⟨before, record, mem, plat.sprFree⟩]

/-- One wish after the other. -/
def grants (pool : Nat) : List (Wish plat) → Act (List Made)
  | [] => pure []
  | wish :: wishes => do
      let made ← grant plat thread pool wish
      let more ← grants pool wishes
      pure (made ++ more)

/-- `handler(data)`; `spr_free` asks for nothing. -/
def callWith (pool handler data : Nat) : Act Served := do
  callHandler plat handler data
  if handler = plat.sprFree then pure ⟨handler, data, []⟩
  else do
    let w ← get
    let made ← grants plat thread pool (script w pool handler data)
    pure ⟨handler, data, made⟩

/-- The loop of `spr_pool_cleanup_run_all`. -/
def runAllLoopWith (pool : Nat) : Nat → Nat → Act (List Served)
  | 0, _ => stop .diverge
  | fuel + 1, temp1 => do
      if temp1 = 0 then pure []
      else do
        let temp2 := temp1
        -- the next record is read before the handler runs
        let temp1 ← load (recordNext temp1)
        let handler ← load (recordHandler temp2)
        let data ← load (recordData temp2)
        let visit ← callWith plat script thread pool handler data
        reserveRecord load pool temp2
        let visits ← runAllLoopWith pool fuel temp1
        pure (visit :: visits)

/-- `spr_pool_cleanup_run_all(pool)` -/
def runAllWith (pool : Nat) : Act Round := do
  let start ← load (poolCleanups pool)
  let visits ← runAllLoopWith plat script thread pool addressSpace start
  -- what the handlers have pushed in front goes with it
  store (poolCleanups pool) 0
  pure ⟨pool, visits⟩

/-- The loop over the children. -/
def visitBrothersWith (visit : Nat → Act (List Round)) : Nat → Nat → Act (List Round)
  | 0, _ => stop .diverge
  | fuel + 1, temp1 => do
      if temp1 = 0 then pure []
      else do
        let temp2 := temp1
        emit (.followed temp2)
        let temp1 ← load (poolBrother temp1)
        let rounds ← visit temp2
        let more ← visitBrothersWith visit fuel temp1
        pure (rounds ++ more)

/-- The children of the pool, if it has any. -/
def visitChildrenWith (visit : Nat → Act (List Round)) (pool : Nat) : Act (List Round) := do
  let child ← load (poolChild pool)
  if child ≠ 0 then visitBrothersWith visit addressSpace child else pure []

/-- `spr_pool_clear(pool)`; `depth` bounds the depth of the tree. -/
def clearDepthWith : Nat → Nat → Act (List Round)
  | 0, _ => stop .diverge
  | depth + 1, pool => do
      emit (.visited pool)
      if ← notOwner plat load thread pool then pure []
      else do
        lockPool plat thread pool
        let round ← runAllWith plat script thread pool
        let rounds ← visitChildrenWith (clearDepthWith depth) pool
        slotLoop load resetNode pool 0 sprMaxPoolSlot
        emit (.cleared pool)
        unlockPool plat thread pool
        pure (round :: rounds)

/-- `spr_pool_destroy(pool)`; `depth` bounds the depth of the tree. -/
def destroyDepthWith : Nat → Nat → Act (List Round)
  | 0, _ => stop .diverge
  | depth + 1, pool => do
      emit (.visited pool)
      if ← notOwner plat load thread pool then pure []
      else do
        let round ← runAllWith plat script thread pool
        let rounds ← visitChildrenWith (destroyDepthWith depth) pool
        slotLoop load (deallocateNode load) pool 0 sprMaxPoolSlot
        emit (.destroyed pool)
        pure (round :: rounds)

/-- `spr_pool_clear(pool)` -/
def clearWith (pool : Nat) : Act (List Round) :=
  clearDepthWith plat script thread addressSpace pool

/-- `spr_pool_destroy(pool)` -/
def destroyWith (pool : Nat) : Act (List Round) :=
  destroyDepthWith plat script thread addressSpace pool

end Functions

/-! ### What has run when a call returns -/

section Returned

variable {plat : Platform} {script : Script plat} {thread pool : Nat} {w w' : World}

theorem grants_ok {wish : Wish plat} {wishes : List (Wish plat)} {made : List Made}
    (hrun : grants plat thread pool (wish :: wishes) w = .ok made w') :
    ∃ made₁ w₁ made₂, grant plat thread pool wish w = .ok made₁ w₁ ∧
      grants plat thread pool wishes w₁ = .ok made₂ w' ∧ made = made₁ ++ made₂ := by
  rw [grants] at hrun
  obtain ⟨made₁, w₁, hfirst, hrun⟩ := bind_ok hrun
  obtain ⟨made₂, w₂, hmore, hrun⟩ := bind_ok hrun
  injection hrun with hmade hw
  subst hw
  exact ⟨made₁, w₁, made₂, hfirst, hmore, hmade.symm⟩

/-- Another handler than `spr_free` gets its wishes. -/
theorem callWith_ok {handler data : Nat} {served : Served} (hf : handler ≠ plat.sprFree)
    (hrun : callWith plat script thread pool handler data w = .ok served w') :
    ∃ made, grants plat thread pool (script (w.emit (.called handler data)) pool handler data)
      (w.emit (.called handler data)) = .ok made w' ∧ served = ⟨handler, data, made⟩ := by
  rw [callWith, callHandler, if_neg hf, if_neg hf] at hrun
  have hserve : (grants plat thread pool (script (w.emit (.called handler data)) pool handler data)
      >>= fun made => pure (⟨handler, data, made⟩ : Served)) (w.emit (.called handler data))
      = .ok served w' := hrun
  obtain ⟨made, w₁, hall, hrun⟩ := bind_ok hserve
  injection hrun with hserved hw
  subst hw
  exact ⟨made, hall, hserved.symm⟩

theorem runAllLoopWith_ok {fuel temp1 : Nat} {visits : List Served} (hne : temp1 ≠ 0)
    (hrun : runAllLoopWith plat script thread pool (fuel + 1) temp1 w = .ok visits w') :
    ∃ served w₁ w₂ more,
      callWith plat script thread pool (w.mem (recordHandler temp1)) (w.mem (recordData temp1)) w
        = .ok served w₁ ∧
      reserveRecord load pool temp1 w₁ = .ok () w₂ ∧
      runAllLoopWith plat script thread pool fuel (w.mem (recordNext temp1)) w₂ = .ok more w' ∧
      visits = served :: more := by
  rw [runAllLoopWith, if_neg hne] at hrun
  simp only [load_bind] at hrun
  obtain ⟨served, w₁, hcall, hrun⟩ := bind_ok hrun
  obtain ⟨u, w₂, hres, hrun⟩ := bind_ok hrun
  obtain ⟨more, w₃, hmore, hrun⟩ := bind_ok hrun
  injection hrun with hvisits hw
  subst hw
  exact ⟨served, w₁, w₂, more, hcall, hres, hmore, hvisits.symm⟩

theorem runAllWith_ok {round : Round} (hrun : runAllWith plat script thread pool w = .ok round w') :
    ∃ visits w₁, runAllLoopWith plat script thread pool addressSpace (w.mem (poolCleanups pool)) w
        = .ok visits w₁ ∧ w' = w₁.store (poolCleanups pool) 0 ∧ round = ⟨pool, visits⟩ := by
  rw [runAllWith, load_bind] at hrun
  obtain ⟨visits, w₁, hloop, hrun⟩ := bind_ok hrun
  injection hrun with hround hw
  exact ⟨visits, w₁, hloop, hw.symm, hround.symm⟩

theorem visitBrothersWith_ok {visit : Nat → Act (List Round)} {fuel temp1 : Nat}
    {rounds : List Round} (hne : temp1 ≠ 0)
    (hrun : visitBrothersWith visit (fuel + 1) temp1 w = .ok rounds w') :
    ∃ rounds₁ w₁ rounds₂, visit temp1 (w.emit (.followed temp1)) = .ok rounds₁ w₁ ∧
      visitBrothersWith visit fuel (w.mem (poolBrother temp1)) w₁ = .ok rounds₂ w' ∧
      rounds = rounds₁ ++ rounds₂ := by
  rw [visitBrothersWith, if_neg hne] at hrun
  simp only [emit_bind, load_bind] at hrun
  obtain ⟨rounds₁, w₁, hfirst, hrun⟩ := bind_ok hrun
  obtain ⟨rounds₂, w₂, hmore, hrun⟩ := bind_ok hrun
  injection hrun with hrounds hw
  subst hw
  exact ⟨rounds₁, w₁, rounds₂, hfirst, hmore, hrounds.symm⟩

end Returned

/-! ## Section 3: Handlers that ask for nothing -/

section Silent

variable {plat : Platform} {thread : Nat}

/-- The script of handlers that ask for nothing. -/
def silent (plat : Platform) : Script plat := fun _ _ _ _ => []

/-- The call, without the record of what it did. -/
def discard {α : Type} (act : Act α) : Act Unit := (fun _ => ()) <$> act

section Discard

variable {α β : Type}

@[simp] theorem discard_bind (act : Act α) (f : α → Act β) :
    discard (act >>= f) = act >>= fun a => discard (f a) := by
  funext w
  simp only [discard, map_run, bind_run]
  cases act w <;> rfl

@[simp] theorem discard_pure (a : α) : discard (pure a : Act α) = pure () := rfl

@[simp] theorem discard_stop (why : Stop) : discard (stop why : Act α) = stop why := rfl

@[simp] theorem discard_ite (c : Prop) [Decidable c] (x y : Act α) :
    discard (if c then x else y) = if c then discard x else discard y := by
  by_cases hc : c
  · simp only [if_pos hc]
  · simp only [if_neg hc]

/-- A result that is not looked at may be discarded. -/
theorem bind_discard (act : Act α) (next : Act β) :
    (act >>= fun _ => next) = discard act >>= fun _ => next := by
  funext w
  simp only [discard, map_run, bind_run]
  cases act w <;> rfl

@[simp] theorem bind_done (act : Act Unit) : (act >>= fun _ => pure ()) = act := by
  funext w
  simp only [bind_run]
  cases act w <;> rfl

theorem ite_bind (c : Prop) [Decidable c] (x y : Act α) (f : α → Act β) :
    ((if c then x else y) >>= f) = if c then x >>= f else y >>= f := by
  by_cases hc : c
  · simp only [if_pos hc]
  · simp only [if_neg hc]

end Discard

theorem discard_callWith (pool handler data : Nat) :
    discard (callWith plat (silent plat) thread pool handler data)
      = callHandler plat handler data := by
  simp only [callWith, silent, grants, discard_ite, discard_bind, discard_pure, pure_bind]
  funext w
  by_cases hf : handler = plat.sprFree
  · simp [callHandler, hf]
  · simp [callHandler, hf]

theorem discard_runAllLoopWith (pool : Nat) : ∀ (fuel temp1 : Nat),
    discard (runAllLoopWith plat (silent plat) thread pool fuel temp1)
      = runAllLoop plat load pool fuel temp1 := by
  intro fuel
  induction fuel with
  | zero => intro temp1; rfl
  | succ fuel ih =>
    intro temp1
    simp only [runAllLoopWith, runAllLoop, runRecord, discard_ite, discard_bind, discard_pure,
      bind_discard (callWith plat (silent plat) thread pool _ _), discard_callWith,
      bind_discard (runAllLoopWith plat (silent plat) thread pool fuel _), ih, bind_done,
      bind_assoc]

theorem discard_runAllWith (pool : Nat) :
    discard (runAllWith plat (silent plat) thread pool) = sprPoolCleanupRunAll plat load pool := by
  simp only [runAllWith, sprPoolCleanupRunAll, discard_bind, discard_pure, bind_done]
  simp only [bind_discard (runAllLoopWith plat (silent plat) thread pool addressSpace _),
    discard_runAllLoopWith]

theorem discard_visitBrothersWith {visit : Nat → Act (List Round)} {plain : Nat → Act Unit}
    (hvisit : ∀ pool, discard (visit pool) = plain pool) : ∀ (fuel temp1 : Nat),
    discard (visitBrothersWith visit fuel temp1) = visitBrothers load plain fuel temp1 := by
  intro fuel
  induction fuel with
  | zero => intro temp1; rfl
  | succ fuel ih =>
    intro temp1
    simp only [visitBrothersWith, visitBrothers, discard_ite, discard_bind, discard_pure,
      bind_discard (visit temp1), bind_discard (visitBrothersWith visit fuel _), hvisit, ih,
      bind_done]

theorem discard_clearDepthWith : ∀ (depth pool : Nat),
    discard (clearDepthWith plat (silent plat) thread depth pool)
      = clearDepth plat thread depth pool := by
  intro depth
  induction depth with
  | zero => intro pool; rfl
  | succ depth ih =>
    intro pool
    simp only [clearDepthWith, clearDepth, discard_ite, discard_bind, discard_pure, bind_done,
      bind_discard (runAllWith plat (silent plat) thread pool), discard_runAllWith,
      visitChildrenWith, bind_assoc, ite_bind, pure_bind, bind_discard (visitBrothersWith _ _ _),
      discard_visitBrothersWith ih]

theorem discard_destroyDepthWith : ∀ (depth pool : Nat),
    discard (destroyDepthWith plat (silent plat) thread depth pool)
      = destroyDepth plat load thread depth pool := by
  intro depth
  induction depth with
  | zero => intro pool; rfl
  | succ depth ih =>
    intro pool
    simp only [destroyDepthWith, destroyDepth, discard_ite, discard_bind, discard_pure, bind_done,
      bind_discard (runAllWith plat (silent plat) thread pool), discard_runAllWith,
      visitChildrenWith, bind_assoc, ite_bind, pure_bind, bind_discard (visitBrothersWith _ _ _),
      discard_visitBrothersWith ih]

/-- **Handlers that ask for nothing** make `spr_pool_clear` and `spr_pool_destroy` what
    they are without a script. -/
theorem clearWith_silent (plat : Platform) (thread pool : Nat) :
    discard (clearWith plat (silent plat) thread pool) = sprPoolClear plat thread pool ∧
      discard (destroyWith plat (silent plat) thread pool) = sprPoolDestroy plat thread pool :=
  ⟨discard_clearDepthWith addressSpace pool, discard_destroyDepthWith addressSpace pool⟩

end Silent

/-! ### Handlers that ask for nothing when they run -/

section Echoes

variable {plat : Platform} {script : Script plat} {thread : Nat} {pool : Nat} {w w' : World}
  {round : Round} {rounds : List Round}

/-- None of the handlers that the round has called asks for anything. -/
def AsksNothing (script : Script plat) (round : Round) : Prop :=
  ∀ call ∈ round.called, ∀ w, script w round.pool call.1 call.2 = []

/-- The call `act` makes no registration, and `act'` does the same where its handlers ask
    for nothing. -/
def Echoes (script : Script plat) (act act' : Act (List Round)) : Prop :=
  ∀ ⦃w rounds w'⦄, act w = .ok rounds w' → (∀ round ∈ rounds, round.made = []) ∧
    ((∀ round ∈ rounds, AsksNothing script round) → act' w = .ok rounds w')

theorem callWith_silent {handler data : Nat} {served : Served}
    (hrun : callWith plat (silent plat) thread pool handler data w = .ok served w') :
    served = ⟨handler, data, []⟩ := by
  by_cases hf : handler = plat.sprFree
  · rw [callWith, if_pos hf] at hrun
    obtain ⟨u, w₁, -, hrun⟩ := bind_ok hrun
    injection hrun with hserved _
    exact hserved.symm
  · obtain ⟨made, hmade, rfl⟩ := callWith_ok hf hrun
    injection hmade with hnil _
    rw [← hnil]

theorem runAllLoopWith_silent : ∀ {fuel temp1 : Nat} {w : World} {visits : List Served},
    runAllLoopWith plat (silent plat) thread pool fuel temp1 w = .ok visits w' →
    (∀ v ∈ visits, v.made = []) ∧
      ((∀ v ∈ visits, ∀ u, script u pool v.handler v.data = []) →
        runAllLoopWith plat script thread pool fuel temp1 w = .ok visits w') := by
  intro fuel
  induction fuel with
  | zero => intro temp1 w visits hrun; cases hrun
  | succ fuel ih =>
    intro temp1 w visits hrun
    by_cases hnull : temp1 = 0
    · rw [runAllLoopWith, if_pos hnull] at hrun
      rw [runAllLoopWith, if_pos hnull]
      injection hrun with hvisits hw
      subst hvisits hw
      exact ⟨fun v hv => (List.not_mem_nil hv).elim, fun _ => rfl⟩
    · obtain ⟨served, w₁, w₂, more, hcall, hres, hmore, rfl⟩ := runAllLoopWith_ok hnull hrun
      -- the rest of the list is met in the same world
      obtain ⟨hmade, hsame⟩ := ih hmore
      obtain rfl := callWith_silent hcall
      refine ⟨fun v hv => ?_, fun hasks => ?_⟩
      · rcases List.mem_cons.mp hv with rfl | hv
        · rfl
        · exact hmade v hv
      · -- the script and the silent one agree on this handler
        have hnone : ∀ u, script u pool (w.mem (recordHandler temp1)) (w.mem (recordData temp1))
            = [] := hasks _ List.mem_cons_self
        have hagree : callWith plat script thread pool (w.mem (recordHandler temp1))
            (w.mem (recordData temp1)) = callWith plat (silent plat) thread pool
              (w.mem (recordHandler temp1)) (w.mem (recordData temp1)) := by
          simp only [callWith, hnone, silent]
        rw [runAllLoopWith, if_neg hnull]
        simp only [load_bind]
        rw [hagree, bind_run, hcall]
        simp only [bind_run, hres, hsame fun v hv => hasks v (List.mem_cons_of_mem _ hv),
          pure_run]

theorem runAllWith_silent (script : Script plat)
    (hrun : runAllWith plat (silent plat) thread pool w = .ok round w') :
    round.made = [] ∧
      (AsksNothing script round → runAllWith plat script thread pool w = .ok round w') := by
  obtain ⟨visits, w₁, hloop, rfl, rfl⟩ := runAllWith_ok hrun
  obtain ⟨hmade, hsame⟩ := runAllLoopWith_silent hloop
  refine ⟨List.flatMap_eq_nil_iff.mpr hmade, fun hasks => ?_⟩
  have hloop' := hsame fun v hv u => hasks (v.handler, v.data) (List.mem_map_of_mem hv) u
  rw [runAllWith, load_bind, bind_run, hloop']
  rfl

/-- The calls for a list of rounds, one call after the other. -/
theorem Echoes.append {act₁ act₁' act₂ act₂' : Act (List Round)} (h₁ : Echoes script act₁ act₁')
    (h₂ : Echoes script act₂ act₂') :
    Echoes script (act₁ >>= fun rounds => act₂ >>= fun more => pure (rounds ++ more))
      (act₁' >>= fun rounds => act₂' >>= fun more => pure (rounds ++ more)) := by
  intro w rounds w' hrun
  obtain ⟨rounds₁, w₁, hfirst, hrun⟩ := bind_ok hrun
  obtain ⟨rounds₂, w₂, hmore, hrun⟩ := bind_ok hrun
  injection hrun with hrounds hw
  subst hrounds hw
  refine ⟨fun round hround => ?_, fun hasks => ?_⟩
  · rcases List.mem_append.mp hround with hround | hround
    · exact (h₁ hfirst).1 round hround
    · exact (h₂ hmore).1 round hround
  · simp only [bind_run, pure_run,
      (h₁ hfirst).2 fun round hround => hasks round (List.mem_append_left _ hround),
      (h₂ hmore).2 fun round hround => hasks round (List.mem_append_right _ hround)]

theorem echoes_pure : Echoes script (pure []) (pure []) := by
  intro w rounds w' hrun
  injection hrun with hrounds hw
  subst hrounds hw
  exact ⟨fun round hround => (List.not_mem_nil hround).elim, fun _ => rfl⟩

theorem echoes_stop (why : Stop) (act : Act (List Round)) : Echoes script (stop why) act := by
  intro w rounds w' hrun
  cases hrun

/-- What is done first is the same on both sides. -/
theorem Echoes.after {α : Type} (act : Act α) {next next' : α → Act (List Round)}
    (h : ∀ a, Echoes script (next a) (next' a)) : Echoes script (act >>= next) (act >>= next') := by
  intro w rounds w' hrun
  obtain ⟨a, w₁, hact, hrun⟩ := bind_ok hrun
  rw [bind_run, hact]
  exact h a hrun

theorem echoes_visitBrothersWith {visit visit' : Nat → Act (List Round)}
    (hvisit : ∀ pool, Echoes script (visit pool) (visit' pool)) : ∀ (fuel temp1 : Nat),
    Echoes script (visitBrothersWith visit fuel temp1) (visitBrothersWith visit' fuel temp1) := by
  intro fuel
  induction fuel with
  | zero => exact fun temp1 => echoes_stop _ _
  | succ fuel ih =>
    intro temp1
    rw [visitBrothersWith, visitBrothersWith]
    by_cases hnull : temp1 = 0
    · simp only [if_pos hnull]
      exact echoes_pure
    · simp only [if_neg hnull]
      exact Echoes.after _ fun _ => Echoes.after _ fun next => (hvisit temp1).append (ih next)

theorem echoes_visitChildrenWith {visit visit' : Nat → Act (List Round)}
    (hvisit : ∀ pool, Echoes script (visit pool) (visit' pool)) (pool : Nat) :
    Echoes script (visitChildrenWith visit pool) (visitChildrenWith visit' pool) := by
  refine Echoes.after _ fun child => ?_
  by_cases hnull : child = 0
  · simp only [hnull, ne_eq, not_true_eq_false, if_false]
    exact echoes_pure
  · simp only [ne_eq, hnull, not_false_eq_true, if_true]
    exact echoes_visitBrothersWith hvisit _ _

/-- A round, the rounds of the children, and what the pool itself gets at last. -/
theorem echoes_round {α : Type} {children children' : Act (List Round)} (ending : Act α)
    (hchildren : Echoes script children children') :
    Echoes script
      (runAllWith plat (silent plat) thread pool >>= fun round => children >>= fun rounds =>
        ending >>= fun _ => pure (round :: rounds))
      (runAllWith plat script thread pool >>= fun round => children' >>= fun rounds =>
        ending >>= fun _ => pure (round :: rounds)) := by
  intro w rounds w' hrun
  obtain ⟨round, w₁, hround, hrun⟩ := bind_ok hrun
  obtain ⟨more, w₂, hmore, hrun⟩ := bind_ok hrun
  obtain ⟨u, w₃, hending, hrun⟩ := bind_ok hrun
  injection hrun with hrounds hw
  subst hrounds hw
  -- the rounds are those of the pool and those of its children
  have hrest := hchildren hmore
  refine ⟨fun r hr => ?_, fun hasks => ?_⟩
  · rcases List.mem_cons.mp hr with rfl | hr
    · exact (runAllWith_silent script hround).1
    · exact hrest.1 r hr
  · simp only [bind_run, pure_run, hending,
      (runAllWith_silent script hround).2 (hasks round List.mem_cons_self),
      hrest.2 fun r hr => hasks r (List.mem_cons_of_mem _ hr)]

theorem echoes_clearDepthWith : ∀ (depth pool : Nat),
    Echoes script (clearDepthWith plat (silent plat) thread depth pool)
      (clearDepthWith plat script thread depth pool) := by
  intro depth
  induction depth with
  | zero => exact fun pool => echoes_stop _ _
  | succ depth ih =>
    intro pool
    have hending : ∀ round rounds, (do
        slotLoop load resetNode pool 0 sprMaxPoolSlot
        emit (.cleared pool)
        unlockPool plat thread pool
        pure (round :: rounds) : Act (List Round)) = (do
          slotLoop load resetNode pool 0 sprMaxPoolSlot
          emit (.cleared pool)
          unlockPool plat thread pool) >>= fun _ => pure (round :: rounds) := by
      intro round rounds
      simp only [bind_assoc]
    -- the owner is looked at before anything is run
    refine Echoes.after _ fun _ => Echoes.after _ fun passed => ?_
    by_cases hpassed : passed = true
    · simp only [hpassed, if_true]
      exact echoes_pure
    · simp only [hpassed, hending]
      exact Echoes.after _ fun _ => echoes_round _ (echoes_visitChildrenWith ih pool)

theorem echoes_destroyDepthWith : ∀ (depth pool : Nat),
    Echoes script (destroyDepthWith plat (silent plat) thread depth pool)
      (destroyDepthWith plat script thread depth pool) := by
  intro depth
  induction depth with
  | zero => exact fun pool => echoes_stop _ _
  | succ depth ih =>
    intro pool
    have hending : ∀ round rounds, (do
        slotLoop load (deallocateNode load) pool 0 sprMaxPoolSlot
        emit (.destroyed pool)
        pure (round :: rounds) : Act (List Round)) = (do
          slotLoop load (deallocateNode load) pool 0 sprMaxPoolSlot
          emit (.destroyed pool)) >>= fun _ => pure (round :: rounds) := by
      intro round rounds
      simp only [bind_assoc]
    refine Echoes.after _ fun _ => Echoes.after _ fun passed => ?_
    by_cases hpassed : passed = true
    · simp only [hpassed, if_true]
      exact echoes_pure
    · simp only [hpassed, hending]
      exact echoes_round _ (echoes_visitChildrenWith ih pool)

/-- **A call whose handlers ask for nothing when they run** returns what it returns when no
    handler ever asks. -/
theorem clearWith_echoes (plat : Platform) (script : Script plat) (thread pool : Nat) :
    Echoes script (clearWith plat (silent plat) thread pool) (clearWith plat script thread pool) ∧
      Echoes script (destroyWith plat (silent plat) thread pool)
        (destroyWith plat script thread pool) :=
  ⟨echoes_clearDepthWith addressSpace pool, echoes_destroyDepthWith addressSpace pool⟩

end Echoes

/-! ## Section 4: What must not be dropped -/

/-- The registrations that are pending, as the memory has them, newest first. -/
def pendingAt (w : World) (pool : Nat) : List (Nat × Nat) :=
  (walk w.mem 0 addressSpace (w.mem (poolCleanups pool))).map fun r =>
    (w.mem (recordHandler r), w.mem (recordData r))

/-- **`spr_pool_clear` drops no registration** of the round: each one that was pending,
    or was made during the round, is called or is pending afterwards, and every record is
    on one of the two lists. -/
structure ClearKept (w w' : World) (round : Round) : Prop where
  handlers : (pendingAt w round.pool ++ round.made.map Made.pair).Subperm
    (round.called ++ pendingAt w' round.pool)
  records  : ∀ r, r ∈ listedAt w round.pool ∨ r ∈ round.made.map Made.record →
    r ∈ listedAt w' round.pool

/-- **`spr_pool_destroy` drops no registration** of the round: each one that was pending,
    or was made during the round, is called. -/
def DestroyKept (w : World) (round : Round) : Prop :=
  (pendingAt w round.pool ++ round.made.map Made.pair).Subperm round.called

/-- A record that has to be carved is carved off memory in which none of the records
    `rs` lies. -/
def CarvedOff (w : World) (pool : Nat) (rs : List Nat) : Prop :=
  w.mem (poolFreeCleanups pool) = 0 →
    match searchSlots w.mem pool sizeofCleanupNode 0 sprMaxPoolSlot with
    | none => True
    | some node => node = 0 ∨ ∀ r ∈ rs,
        Span.Disjoint ⟨w.mem (nodeFirstAvail node), sizeofCleanupNode⟩ (recordSpan r)

instance (w : World) (pool : Nat) (rs : List Nat) : Decidable (CarvedOff w pool rs) := by
  unfold CarvedOff
  split <;> infer_instance

/-- No registration of the rounds has carved a record over one of those given for its
    pool. -/
def CarvedClean (records : Nat → List Nat) (rounds : List Round) : Prop :=
  ∀ round ∈ rounds, ∀ m ∈ round.made, CarvedOff m.before round.pool (records round.pool)

instance (records : Nat → List Nat) (rounds : List Round) :
    Decidable (CarvedClean records rounds) :=
  inferInstanceAs (Decidable (∀ round ∈ rounds, ∀ m ∈ round.made, _))

end Spr.MemPool
