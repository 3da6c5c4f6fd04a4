import Spr.MemPool.Walks

/-! # Registrations made during a walk

    * `VisitsBrothers`: what the walk over the brothers of a forest does, given
      what it does to each of them.
    * `clearBrothersWith`, `destroyBrothersWith`: the trees.
    * `registrations_kept_iff`: the registrations made while handlers run are
      dropped, each of them. -/

namespace Spr.MemPool

open Spr.Words Spr.Chains Spr.Forests

/-! ## Section 1: Rounds of a tree -/

/-- What a clear leaves of a pool, and its round. -/
structure RoundDone (p p' : Pool) (round : Round) : Prop where
  pool     : round.pool = p.addr
  called   : round.called = p.pending
  addr     : p'.addr = p.addr
  cleanups : p'.cleanups = []
  frees    : round.made = [] → p'.frees = (p.cleanups.map Record.addr).reverse ++ p.frees

/-- A round of `spr_pool_clear`: the pool is still there. -/
def ClearsRound (q : Pool) (left : List Pool) (round : Round) : Prop :=
  ∃ q' ∈ left, RoundDone q q' round

/-- A round of `spr_pool_destroy`. -/
def DestroysRound (q : Pool) (_left : List Pool) (round : Round) : Prop :=
  round.pool = q.addr ∧ round.called = q.pending

section Rounds

variable {plat : Platform} {script : Script plat} {thread : Nat}
  (visit : Nat → Act (List Round)) (done : Pool → List Pool → Round → Prop)
  (records : Nat → List Nat)

/-- The pools have at most the records they had at first. -/
def Within (ps : List Pool) : Prop := ∀ p ∈ ps, ∀ a ∈ p.listed, a ∈ records p.addr

/-- What the visit of the pool `p` does to it and to the pools below it. -/
def VisitsPool (plat : Platform) (p : Pool) (cs : Forest Pool) : Prop :=
  ∀ {w w' : World} {rest : List Pool} {rounds : List Round}, LinkedPools p.child cs →
    PoolsAt plat w (p :: (cs.toList ++ rest)) → Within records (p :: cs.toList) →
    visit p.addr w = .ok rounds w' → CarvedClean records rounds →
    ∃ left, PoolsAt plat w' (left ++ rest) ∧
      ∀ round ∈ rounds, ∃ q ∈ p :: cs.toList, done q left round

/-- What the visits of the brothers of a forest do. -/
def VisitsBrothers (plat : Platform) (f : Forest Pool) : Prop :=
  ∀ {fuel start : Nat} {w w' : World} {rest : List Pool} {rounds : List Round},
    LinkedPools start f → PoolsAt plat w (f.toList ++ rest) → Within records f.toList →
    visitBrothersWith visit fuel start w = .ok rounds w' → CarvedClean records rounds →
    ∃ left, PoolsAt plat w' (left ++ rest) ∧
      ∀ round ∈ rounds, ∃ q ∈ f.toList, done q left round

variable {visit done records}

theorem visitsBrothers_nil : VisitsBrothers visit done records plat .nil := by
  intro fuel start w w' rest rounds hlink h _ hrun _
  cases fuel with
  | zero => simp [visitBrothersWith] at hrun
  | succ fuel =>
    rw [visitBrothersWith, if_pos (show start = 0 from hlink), pure_run] at hrun
    injection hrun with hrounds hw
    subst hrounds hw
    exact ⟨[], h, fun round hround => (List.not_mem_nil hround).elim⟩

/-- **One brother after the other.** -/
theorem visitsBrothers_node {p : Pool} {cs bs : Forest Pool}
    (hmono : ∀ q left left' round, done q left round → (∀ x ∈ left, x ∈ left') → done q left' round)
    (hpool : VisitsPool visit done records plat p cs)
    (hbrothers : VisitsBrothers visit done records plat bs) :
    VisitsBrothers visit done records plat (.node p cs bs) := by
  intro fuel start w w' rest rounds hlink h hin hrun hoff
  obtain ⟨hstart, hchildren, hnext⟩ := hlink
  have hp := h.pool p List.mem_cons_self
  cases fuel with
  | zero => simp [visitBrothersWith] at hrun
  | succ fuel =>
    rw [hstart] at hrun
    obtain ⟨rounds₁, w₁, rounds₂, hfirst, hmore, rfl⟩ := visitBrothersWith_ok hp.addr_ne_null hrun
    rw [poolBrother, hp.rep.header.brother] at hmore
    have h₀ : PoolsAt plat (w.emit (.followed p.addr))
        (p :: (cs.toList ++ (bs.toList ++ rest))) := by
      have := h.of_eq (v := w.emit (.followed p.addr)) rfl rfl
      rwa [Forest.toList_node, List.cons_append, List.append_assoc] at this
    obtain ⟨left₁, h₁, hdone₁⟩ := hpool hchildren h₀
      (fun q hq => hin q (by
        rw [Forest.toList_node, ← List.cons_append]
        exact List.mem_append_left _ hq)) hfirst
      fun round hround => hoff round (List.mem_append_left _ hround)
    -- the brothers come to the front
    have hswap : ∀ l : List Pool, (left₁ ++ (l ++ rest)).Perm (l ++ (left₁ ++ rest)) := by
      intro l
      rw [← List.append_assoc, ← List.append_assoc]
      exact List.perm_append_comm.append_right rest
    obtain ⟨left₂, h₂, hdone₂⟩ := hbrothers hnext (h₁.perm (hswap _))
      (fun q hq => hin q (List.mem_cons_of_mem _ (List.mem_append_right _ hq))) hmore
      fun round hround => hoff round (List.mem_append_right _ hround)
    refine ⟨left₁ ++ left₂, ?_, fun round hround => ?_⟩
    · have hall := h₂.perm (hswap left₂).symm
      rwa [← List.append_assoc] at hall
    · rw [Forest.toList_node]
      rcases List.mem_append.mp hround with hround | hround
      · obtain ⟨q, hq, hdone⟩ := hdone₁ round hround
        refine ⟨q, ?_, hmono _ _ _ _ hdone fun x hx => List.mem_append_left _ hx⟩
        rw [← List.cons_append]
        exact List.mem_append_left _ hq
      · obtain ⟨q, hq, hdone⟩ := hdone₂ round hround
        exact ⟨q, List.mem_cons_of_mem _ (List.mem_append_right _ hq),
          hmono _ _ _ _ hdone fun x hx => List.mem_append_right _ hx⟩

/-- **The handlers of a pool, and its children**: what clear and destroy begin with. -/
theorem handlers_children {p : Pool} {cs : Forest Pool} {w w₁ w₂ : World} {rest : List Pool}
    {round : Round} {rounds : List Round} (hvisit : VisitsBrothers visit done records plat cs)
    (hlink : LinkedPools p.child cs) (h : PoolsAt plat w (p :: (cs.toList ++ rest)))
    (hin : Within records (p :: cs.toList))
    (hround : runAllWith plat script thread p.addr w = .ok round w₁)
    (hchildren : visitChildrenWith visit p.addr w₁ = .ok rounds w₂)
    (hoff : CarvedClean records (round :: rounds)) :
    ∃ p' left, PoolsAt plat w₂ (p' :: (left ++ rest)) ∧ Walked p p' round.made ∧
      round.pool = p.addr ∧ round.called = p.pending ∧
      ∀ r ∈ rounds, ∃ q ∈ cs.toList, done q left r := by
  have hpool : round.pool = p.addr := runAllWith_pool hround
  obtain ⟨p', h₁, hwalked, -, hcalled⟩ := runAllWith_spec h hround
    (fun m hm => hpool ▸ hoff round List.mem_cons_self m hm) (hin p List.mem_cons_self)
  -- the handlers leave the link to the children
  have hchild : w₁.mem (p.addr + 176) = p.child := by
    rw [← hwalked.addr, ← hwalked.child]
    exact (h₁.pool p' List.mem_cons_self).rep.header.child
  simp only [visitChildrenWith, bind_run, load_run, poolChild, hchild] at hchildren
  by_cases hnull : p.child = 0
  · have hnil : cs = .nil := by
      rw [hnull] at hlink
      exact linkedPools_null hlink h fun q hq => List.mem_cons_of_mem _ (List.mem_append_left _ hq)
    subst hnil
    rw [if_neg (not_not.mpr hnull), pure_run] at hchildren
    injection hchildren with hrounds hw
    subst hrounds hw
    exact ⟨p', [], h₁, hwalked, hpool, hcalled, fun r hr => (List.not_mem_nil hr).elim⟩
  · rw [if_pos hnull] at hchildren
    obtain ⟨left, h₂, hdone⟩ := hvisit hlink (h₁.perm List.perm_middle.symm)
      (fun q hq => hin q (List.mem_cons_of_mem _ hq)) hchildren
      fun r hr => hoff r (List.mem_cons_of_mem _ hr)
    exact ⟨p', left, h₂.perm List.perm_middle, hwalked, hpool, hcalled, hdone⟩

end Rounds

/-! ## Section 2: Clearing -/

section Clearing

variable {plat : Platform} {script : Script plat} {thread : Nat} {records : Nat → List Nat}

/-- A `spr_pool_clear` that returns has passed over a pool of another thread, or it has
    done all its parts. -/
theorem clearDepthWith_ok {depth : Nat} {p : Pool} {w w' : World} {rounds : List Round}
    (h : PoolAt plat w p)
    (hrun : clearDepthWith plat script thread (depth + 1) p.addr w = .ok rounds w') :
    (rounds = [] ∧ w' = w.emit (.visited p.addr)) ∨
    ∃ evs evs' round w₁ more w₂ w₃,
      runAllWith plat script thread p.addr ((w.emit (.visited p.addr)).emits evs)
        = .ok round w₁ ∧
      visitChildrenWith (clearDepthWith plat script thread depth) p.addr w₁ = .ok more w₂ ∧
      slotLoop load resetNode p.addr 0 sprMaxPoolSlot w₂ = .ok () w₃ ∧
      w' = (w₃.emit (.cleared p.addr)).emits evs' ∧ rounds = round :: more := by
  have hv := h.of_eq (v := w.emit (.visited p.addr)) rfl rfl
  have howner := notOwner_run .plain hv thread
  rw [Reader.plain_run, ownerEvents_plain, emits_nil] at howner
  rw [clearDepthWith, emit_bind, bind_run, howner] at hrun
  by_cases howned : Owned plat thread p
  · simp only [howned, not_true_eq_false, decide_false, Bool.false_eq_true, if_false] at hrun
    obtain ⟨evs, hlock⟩ := lockPool_runs plat thread p.addr (w.emit (.visited p.addr))
    rw [bind_run, hlock] at hrun
    obtain ⟨round, w₁, hround, hrun⟩ := bind_ok hrun
    obtain ⟨more, w₂, hchildren, hrun⟩ := bind_ok hrun
    obtain ⟨u, w₃, hslots, hrun⟩ := bind_ok hrun
    obtain ⟨evs', hunlock⟩ := unlockPool_runs plat thread p.addr (w₃.emit (.cleared p.addr))
    rw [emit_bind, bind_run, hunlock] at hrun
    injection hrun with hrounds hw
    exact Or.inr ⟨evs, evs', round, w₁, more, w₂, w₃, hround, hchildren, hslots, hw.symm,
      hrounds.symm⟩
  · simp only [howned, not_false_eq_true, decide_true, if_true, pure_run] at hrun
    injection hrun with hrounds hw
    exact Or.inl ⟨hrounds.symm, hw.symm⟩

/-- `spr_pool_clear` on one pool, given what it does to the children. -/
theorem clearPoolWith {depth : Nat} {p : Pool} {cs : Forest Pool}
    (hvisit : VisitsBrothers (clearDepthWith plat script thread depth) ClearsRound records plat
      cs) :
    VisitsPool (clearDepthWith plat script thread (depth + 1)) ClearsRound records plat p cs := by
  intro w w' rest rounds hlink h hin hrun hoff
  rcases clearDepthWith_ok (h.pool p List.mem_cons_self) hrun with ⟨rfl, rfl⟩ |
    ⟨evs, evs', round, w₁, more, w₂, w₃, hround, hchildren, hslots, rfl, rfl⟩
  · -- a pool of another thread is passed over
    exact ⟨p :: cs.toList, h.of_eq rfl rfl, fun round hround => (List.not_mem_nil hround).elim⟩
  · have hl : PoolsAt plat ((w.emit (.visited p.addr)).emits evs) (p :: (cs.toList ++ rest)) :=
      h.of_eq rfl rfl
    obtain ⟨p₂, left, h₂, hwalked, hpool, hcalled, hdone⟩ :=
      handlers_children hvisit hlink hl hin hround hchildren hoff
    -- the memnodes are rewound after all handlers have run
    obtain ⟨w₃', hslots', hm, -, -⟩ := resetSlots_moves (h₂.pool p₂ List.mem_cons_self)
      (h₂.registered List.mem_cons_self)
    rw [hwalked.addr, hslots] at hslots'
    injection hslots' with _ hw₃
    subst hw₃
    have h₃ := h₂.step hm (.of_subset fun a ha => ha)
    refine ⟨p₂.rewind (p₂.slotAddrs 0) :: left, h₃.of_eq rfl rfl, fun r hr => ?_⟩
    rcases List.mem_cons.mp hr with rfl | hr
    · exact ⟨p, List.mem_cons_self, _, List.mem_cons_self, hpool, hcalled, hwalked.addr,
        hwalked.cleanups, hwalked.frees⟩
    · obtain ⟨q, hq, q', hq', hround'⟩ := hdone r hr
      exact ⟨q, List.mem_cons_of_mem _ hq, q', List.mem_cons_of_mem _ hq', hround'⟩

/-- Visits that stop at once. -/
theorem visitsPool_stop {visit : Nat → Act (List Round)} {done : Pool → List Pool → Round → Prop}
    {p : Pool} {cs : Forest Pool} (hstop : ∀ w, ∃ e w', visit p.addr w = .error e w') :
    VisitsPool visit done records plat p cs := by
  intro w w' rest rounds _ _ _ hrun _
  obtain ⟨e, w₁, herror⟩ := hstop w
  rw [herror] at hrun
  cases hrun

/-- **`spr_pool_clear` on all brothers**, by induction on the forest. -/
theorem clearBrothersWith {f : Forest Pool} : ∀ depth : Nat,
    VisitsBrothers (clearDepthWith plat script thread depth) ClearsRound records plat f := by
  induction f with
  | nil => exact fun _ => visitsBrothers_nil
  | node p cs bs ihc ihb =>
    intro depth
    refine visitsBrothers_node (fun q left left' round hdone hsub => ?_) ?_ (ihb depth)
    · obtain ⟨q', hq', hround⟩ := hdone
      exact ⟨q', hsub q' hq', hround⟩
    · cases depth with
      | zero => exact visitsPool_stop fun w => ⟨_, _, rfl⟩
      | succ depth => exact clearPoolWith (ihc depth)

end Clearing

/-! ## Section 3: Destroying -/

section Destroying

variable {plat : Platform} {script : Script plat} {thread : Nat} {records : Nat → List Nat}

/-- A `spr_pool_destroy` that returns has passed over a pool of another thread, or it has
    done all its parts. -/
theorem destroyDepthWith_ok {depth : Nat} {p : Pool} {w w' : World} {rounds : List Round}
    (h : PoolAt plat w p)
    (hrun : destroyDepthWith plat script thread (depth + 1) p.addr w = .ok rounds w') :
    (rounds = [] ∧ w' = w.emit (.visited p.addr)) ∨
    ∃ round w₁ more w₂ w₃,
      runAllWith plat script thread p.addr (w.emit (.visited p.addr)) = .ok round w₁ ∧
      visitChildrenWith (destroyDepthWith plat script thread depth) p.addr w₁ = .ok more w₂ ∧
      slotLoop load (deallocateNode load) p.addr 0 sprMaxPoolSlot w₂ = .ok () w₃ ∧
      w' = w₃.emit (.destroyed p.addr) ∧ rounds = round :: more := by
  have hv := h.of_eq (v := w.emit (.visited p.addr)) rfl rfl
  have howner := notOwner_run .plain hv thread
  rw [Reader.plain_run, ownerEvents_plain, emits_nil] at howner
  rw [destroyDepthWith, emit_bind, bind_run, howner] at hrun
  by_cases howned : Owned plat thread p
  · simp only [howned, not_true_eq_false, decide_false, Bool.false_eq_true, if_false] at hrun
    obtain ⟨round, w₁, hround, hrun⟩ := bind_ok hrun
    obtain ⟨more, w₂, hchildren, hrun⟩ := bind_ok hrun
    obtain ⟨u, w₃, hslots, hrun⟩ := bind_ok hrun
    injection hrun with hrounds hw
    exact Or.inr ⟨round, w₁, more, w₂, w₃, hround, hchildren, hslots, hw.symm, hrounds.symm⟩
  · simp only [howned, not_false_eq_true, decide_true, if_true, pure_run] at hrun
    injection hrun with hrounds hw
    exact Or.inl ⟨hrounds.symm, hw.symm⟩

/-- `spr_pool_destroy` on one pool, given what it does to the children. -/
theorem destroyPoolWith {depth : Nat} {p : Pool} {cs : Forest Pool}
    (hvisit : VisitsBrothers (destroyDepthWith plat script thread depth) DestroysRound records plat
      cs) :
    VisitsPool (destroyDepthWith plat script thread (depth + 1)) DestroysRound records plat p
      cs := by
  intro w w' rest rounds hlink h hin hrun hoff
  rcases destroyDepthWith_ok (h.pool p List.mem_cons_self) hrun with ⟨rfl, rfl⟩ |
    ⟨round, w₁, more, w₂, w₃, hround, hchildren, hslots, rfl, rfl⟩
  · -- a pool of another thread is passed over
    exact ⟨p :: cs.toList, h.of_eq rfl rfl, fun round hround => (List.not_mem_nil hround).elim⟩
  · have hv : PoolsAt plat (w.emit (.visited p.addr)) (p :: (cs.toList ++ rest)) := h.of_eq rfl rfl
    obtain ⟨p₂, left, h₂, hwalked, hpool, hcalled, hdone⟩ :=
      handlers_children hvisit hlink hv hin hround hchildren hoff
    have hp₂ := h₂.pool p₂ List.mem_cons_self
    -- the memnodes are given back, and the other pools stay
    obtain ⟨w₃', hslots', hmem, hlive, -⟩ := releaseSlots_run .plain (w := w₂) (i := 0)
      (n := sprMaxPoolSlot) hp₂ rfl (show w₂.live = w₂.live.filter fun s => s.start ∉ [] by simp)
      (fun _ _ => List.not_mem_nil) (slotAddrs_nodup hp₂.wf.nodup) rfl
    rw [hwalked.addr, Reader.plain_run, hslots] at hslots'
    injection hslots' with _ hw₃
    subst hw₃
    have h₃ := (PoolsAt.deallocate (p₂.slotAddrs 0) h₂ fun a ha => Pool.slotAddrs_nodes ha).of_eq
      (v := w₃) (by rw [hmem, deallocates_mem]) (by rw [hlive, deallocates_live])
    refine ⟨left, h₃.of_eq rfl rfl, fun r hr => ?_⟩
    rcases List.mem_cons.mp hr with rfl | hr
    · exact ⟨p, List.mem_cons_self, hpool, hcalled⟩
    · obtain ⟨q, hq, hround'⟩ := hdone r hr
      exact ⟨q, List.mem_cons_of_mem _ hq, hround'⟩

/-- **`spr_pool_destroy` on all brothers**, by induction on the forest. -/
theorem destroyBrothersWith {f : Forest Pool} : ∀ depth : Nat,
    VisitsBrothers (destroyDepthWith plat script thread depth) DestroysRound records plat f := by
  induction f with
  | nil => exact fun _ => visitsBrothers_nil
  | node p cs bs ihc ihb =>
    intro depth
    refine visitsBrothers_node (fun q left left' round hdone _ => hdone) ?_ (ihb depth)
    cases depth with
    | zero => exact visitsPool_stop fun w => ⟨_, _, rfl⟩
    | succ depth => exact destroyPoolWith (ihc depth)

end Destroying

/-! ## Section 4: The registrations of a walk -/

section Registrations

variable {plat : Platform} {script : Script plat} {thread : Nat} {w w' : World} {p q : Pool}
  {cs : Forest Pool} {rest : List Pool} {rounds : List Round} {round : Round}

theorem pendingAt_eq (h : PoolAt plat w q) : pendingAt w q.addr = q.pending := by
  rw [pendingAt, poolCleanups, walk_cleanups h, List.map_map]
  refine List.map_congr_left fun r hr => ?_
  obtain ⟨hd, hh⟩ := h.rep.records.record r hr
  simp only [Function.comp, recordHandler, recordData, hd, hh]

theorem within_listedAt (h : PoolsAt plat w (p :: (cs.toList ++ rest))) :
    Within (listedAt w) (p :: cs.toList) := by
  intro q hq a ha
  have hat : q ∈ p :: (cs.toList ++ rest) := by
    rw [← List.cons_append]
    exact List.mem_append_left _ hq
  rwa [listedAt_eq (h.pool q hat)]

/-- The rounds of `spr_pool_clear`. -/
theorem clearWith_rounds (hlink : LinkedPools p.child cs)
    (h : PoolsAt plat w (p :: (cs.toList ++ rest)))
    (hrun : clearWith plat script thread p.addr w = .ok rounds w')
    (hoff : CarvedClean (listedAt w) rounds) :
    ∃ left, PoolsAt plat w' (left ++ rest) ∧
      ∀ round ∈ rounds, ∃ q ∈ p :: cs.toList, ClearsRound q left round := by
  obtain ⟨depth, hdepth⟩ : ∃ depth, addressSpace = depth + 1 := ⟨addressSpace - 1, by decide⟩
  rw [clearWith, hdepth] at hrun
  exact clearPoolWith (clearBrothersWith depth) hlink h (within_listedAt h) hrun hoff

/-- The rounds of `spr_pool_destroy`. -/
theorem destroyWith_rounds (hlink : LinkedPools p.child cs)
    (h : PoolsAt plat w (p :: (cs.toList ++ rest)))
    (hrun : destroyWith plat script thread p.addr w = .ok rounds w')
    (hoff : CarvedClean (listedAt w) rounds) :
    ∀ round ∈ rounds, ∃ q ∈ p :: cs.toList, round.pool = q.addr ∧ round.called = q.pending := by
  obtain ⟨depth, hdepth⟩ : ∃ depth, addressSpace = depth + 1 := ⟨addressSpace - 1, by decide⟩
  rw [destroyWith, hdepth] at hrun
  obtain ⟨left, -, hdone⟩ :=
    destroyPoolWith (destroyBrothersWith depth) hlink h (within_listedAt h) hrun hoff
  exact hdone

/-- None of the handlers pending in the pools asks for anything. -/
def SilentIn (script : Script plat) (ps : List Pool) : Prop :=
  ∀ q ∈ ps, ∀ call ∈ q.pending, ∀ w, script w q.addr call.1 call.2 = []

/-- A call that returns when its result is discarded. -/
theorem discard_ok {α : Type} {act : Act α} (h : discard act w = .ok () w') :
    ∃ a, act w = .ok a w' := by
  rw [discard, map_run] at h
  cases hrun : act w with
  | ok a w₁ =>
    rw [hrun] at h
    injection h with _ hw
    exact ⟨a, congrArg _ hw⟩
  | error e w₁ => rw [hrun] at h; cases h

theorem carvedClean_nil {records : Nat → List Nat} (h : ∀ round ∈ rounds, round.made = []) :
    CarvedClean records rounds := by
  intro round hround m hm
  rw [h round hround] at hm
  exact (List.not_mem_nil hm).elim

/-- A call returns with the script if it returns without, and the handlers that it then
    calls, those pending in the pools `ps`, ask for nothing. -/
theorem returns_of_silentIn {act act' : Act (List Round)} {ps : List Pool}
    (hechoes : Echoes script act act') (hplain : discard act w = .ok () w')
    (hsilence : SilentIn script ps)
    (hdone : ∀ rounds, act w = .ok rounds w' → CarvedClean (listedAt w) rounds →
      ∀ round ∈ rounds, ∃ q ∈ ps, round.pool = q.addr ∧ round.called = q.pending) :
    ∃ rounds w', act' w = .ok rounds w' ∧ ∀ round ∈ rounds, round.made = [] := by
  obtain ⟨rounds, hsilent⟩ := discard_ok hplain
  obtain ⟨hnone, hsame⟩ := hechoes hsilent
  refine ⟨rounds, w', hsame fun round hround => ?_, hnone⟩
  -- what the round calls was pending in a pool of `ps`
  obtain ⟨q, hq, hname, hcalled⟩ := hdone rounds hsilent (carvedClean_nil hnone) round hround
  intro call hcall
  rw [hcalled] at hcall
  rw [hname]
  exact hsilence q hq call hcall

/-- **Silent handlers**: `spr_pool_clear` returns, and nothing is registered. -/
theorem clearWith_silentIn (hlink : LinkedPools p.child cs)
    (h : PoolsAt plat w (p :: (cs.toList ++ rest))) (hsilence : SilentIn script (p :: cs.toList)) :
    ∃ rounds w', clearWith plat script thread p.addr w = .ok rounds w' ∧
      ∀ round ∈ rounds, round.made = [] := by
  obtain ⟨w', hplain, -⟩ := sprPoolClear_spec thread hlink h
  -- without a script the call returns, whatever the handlers do outside the pools
  rw [← (clearWith_silent plat thread p.addr).1] at hplain
  have hechoes := (clearWith_echoes plat script thread p.addr).1
  refine returns_of_silentIn hechoes hplain hsilence fun rounds hrun hoff round hround => ?_
  obtain ⟨left, -, hdone⟩ := clearWith_rounds hlink h hrun hoff
  obtain ⟨q, hq, q', -, hdone⟩ := hdone round hround
  exact ⟨q, hq, hdone.pool, hdone.called⟩

/-- **Silent handlers**: `spr_pool_destroy` returns, and nothing is registered. -/
theorem destroyWith_silentIn (hlink : LinkedPools p.child cs)
    (h : PoolsAt plat w (p :: (cs.toList ++ rest))) (hsilence : SilentIn script (p :: cs.toList)) :
    ∃ rounds w', destroyWith plat script thread p.addr w = .ok rounds w' ∧
      ∀ round ∈ rounds, round.made = [] := by
  obtain ⟨w', hplain, -⟩ := sprPoolDestroy_spec .plain thread hlink h
  have hplain' : sprPoolDestroy plat thread p.addr w = .ok () w' := hplain
  rw [← (clearWith_silent plat thread p.addr).2] at hplain'
  have hechoes := (clearWith_echoes plat script thread p.addr).2
  exact returns_of_silentIn hechoes hplain' hsilence fun rounds hrun hoff =>
    destroyWith_rounds hlink h hrun hoff

/-- A round that calls what was pending covers no registration made meanwhile. -/
theorem made_nil_of_subperm {pending called : List (Nat × Nat)}
    (h : (pending ++ round.made.map Made.pair).Subperm called)
    (hlen : called.length ≤ pending.length) : round.made = [] := by
  have hle := h.length_le
  rw [List.length_append, List.length_map] at hle
  exact List.length_eq_zero_iff.mp (by omega)

/-- One round of a clear. -/
theorem clearKept_iff {q' : Pool} (hq : PoolAt plat w q) (hq' : PoolAt plat w' q')
    (hdone : RoundDone q q' round) : ClearKept w w' round ↔ round.made = [] := by
  have hpending : pendingAt w round.pool = q.pending := by rw [hdone.pool, pendingAt_eq hq]
  have hafter : pendingAt w' round.pool = [] := by
    rw [hdone.pool, ← hdone.addr, pendingAt_eq hq', Pool.pending, hdone.cleanups]
    rfl
  constructor
  · intro hkept
    have hall := hkept.handlers
    -- nothing is pending afterwards, and what was called was pending before
    rw [hafter, List.append_nil, hpending, hdone.called] at hall
    exact made_nil_of_subperm hall (Nat.le_refl _)
  · intro hnil
    refine ⟨?_, fun r hr => ?_⟩
    · rw [hafter, hnil, hpending, hdone.called]
      exact (List.Perm.refl _).subperm
    · rw [hnil, hdone.pool, listedAt_eq hq] at hr
      rw [hdone.pool, ← hdone.addr, listedAt_eq hq', Pool.listed, hdone.cleanups,
        hdone.frees hnil]
      rcases hr with hr | hr
      · simpa [Pool.listed] using hr
      · cases hr

/-- The rounds of a clear keep what is registered where nothing is. -/
theorem clearWith_kept (hlink : LinkedPools p.child cs)
    (h : PoolsAt plat w (p :: (cs.toList ++ rest)))
    (hrun : clearWith plat script thread p.addr w = .ok rounds w')
    (hoff : CarvedClean (listedAt w) rounds) (hround : round ∈ rounds) :
    ClearKept w w' round ↔ round.made = [] := by
  obtain ⟨left, hleft, hdone⟩ := clearWith_rounds hlink h hrun hoff
  obtain ⟨q, hq, q', hq', hdone⟩ := hdone round hround
  refine clearKept_iff (h.pool q ?_) (hleft.pool q' (List.mem_append_left _ hq')) hdone
  rw [← List.cons_append]
  exact List.mem_append_left _ hq

/-- The rounds of a destroy keep what is registered where nothing is. -/
theorem destroyWith_kept (hlink : LinkedPools p.child cs)
    (h : PoolsAt plat w (p :: (cs.toList ++ rest)))
    (hrun : destroyWith plat script thread p.addr w = .ok rounds w')
    (hoff : CarvedClean (listedAt w) rounds) (hround : round ∈ rounds) :
    DestroyKept w round ↔ round.made = [] := by
  obtain ⟨q, hq, hname, hcalled⟩ := destroyWith_rounds hlink h hrun hoff round hround
  have hqw : PoolAt plat w q := by
    refine h.pool q ?_
    rw [← List.cons_append]
    exact List.mem_append_left _ hq
  have hpending : pendingAt w round.pool = q.pending := by rw [hname, pendingAt_eq hqw]
  unfold DestroyKept
  rw [hpending, hcalled]
  constructor
  · intro hkept
    exact made_nil_of_subperm hkept (Nat.le_refl _)
  · intro hnil
    rw [hnil, List.map_nil, List.append_nil]

/-- **Registrations**: of those that handlers make while their pool is cleared or destroyed,
    every one is dropped; where none is made, none is.  Where no handler that is pending asks
    for anything the calls return, and nothing is dropped. -/
theorem registrations_kept_iff (plat : Platform) (script : Script plat) (thread : Nat) (w : World)
    (p : Pool) (cs : Forest Pool) (rest : List Pool) (hlink : LinkedPools p.child cs)
    (h : PoolsAt plat w (p :: (cs.toList ++ rest))) :
    (∀ rounds w', clearWith plat script thread p.addr w = .ok rounds w' →
      CarvedClean (listedAt w) rounds →
        ∀ round ∈ rounds, (ClearKept w w' round ↔ round.made = [])) ∧
    (∀ rounds w', destroyWith plat script thread p.addr w = .ok rounds w' →
      CarvedClean (listedAt w) rounds →
        ∀ round ∈ rounds, (DestroyKept w round ↔ round.made = [])) ∧
    (SilentIn script (p :: cs.toList) →
      (∃ rounds w', clearWith plat script thread p.addr w = .ok rounds w' ∧
        ∀ round ∈ rounds, ClearKept w w' round) ∧
      (∃ rounds w', destroyWith plat script thread p.addr w = .ok rounds w' ∧
        ∀ round ∈ rounds, DestroyKept w round)) := by
  refine ⟨fun rounds w' hrun hoff round hround => clearWith_kept hlink h hrun hoff hround,
    fun rounds w' hrun hoff round hround => destroyWith_kept hlink h hrun hoff hround,
    fun hsilence => ⟨?_, ?_⟩⟩
  · obtain ⟨rounds, w', hrun, hnone⟩ := clearWith_silentIn hlink h hsilence
    exact ⟨rounds, w', hrun, fun round hround =>
      (clearWith_kept hlink h hrun (carvedClean_nil hnone) hround).mpr (hnone round hround)⟩
  · obtain ⟨rounds, w', hrun, hnone⟩ := destroyWith_silentIn hlink h hsilence
    exact ⟨rounds, w', hrun, fun round hround =>
      (destroyWith_kept hlink h hrun (carvedClean_nil hnone) hround).mpr (hnone round hround)⟩

/-- The handler 50 registers the handler 51. -/
def again : Script machine := fun _ _ handler _ => if handler = 50 then [.add 101 51] else []

/-- A clear during which a handler registers another. -/
theorem registrations_kept_iff_one : ∃ (w : World) (rounds : List Round) (w' : World),
      clearWith machine again 1 65584 w = .ok rounds w' ∧ (∃ round ∈ rounds, round.made ≠ []) ∧
      ∀ round ∈ rounds, (ClearKept w w' round ↔ round.made = []) := by
  have hrun : ((session.run machine (Session.Plain machine)
      [.create 1 0 0, .cleanupAdd 1 65584 100 50]).any fun s =>
        decide (s.family = .node ⟨65584, 1⟩ .nil .nil) &&
          match clearWith machine again 1 65584 s.world with
          | .error _ _ => false
          | .ok rounds _ => decide (CarvedClean (listedAt s.world) rounds ∧
              ∃ round ∈ rounds, round.made.length ≠ 0)) = true := by decide +kernel
  obtain ⟨s, hs, hfacts⟩ := (Option.any_eq_true _ _).mp hrun
  obtain ⟨hfamily, hclear⟩ := (Bool.and_eq_true _ _).mp hfacts
  obtain ⟨f, hinv⟩ := reachable_inv (reachable_run (.start session initial_session) hs)
  obtain ⟨p, cs, -, hmember, -, hlink, hat⟩ := hinv.oneTree (of_decide_eq_true hfamily)
  have haddr : p.addr = 65584 := congrArg Member.addr hmember
  cases hcleared : clearWith machine again 1 65584 s.world with
  | error e w' => rw [hcleared] at hclear; cases hclear
  | ok rounds w' =>
    rw [hcleared] at hclear
    obtain ⟨hoff, round, hround, hmade⟩ := of_decide_eq_true hclear
    exact ⟨s.world, rounds, w', hcleared, ⟨round, hround, fun hnil => hmade (by
      rw [hnil]
      rfl)⟩, (registrations_kept_iff machine again 1 s.world p cs [] hlink hat).1 rounds w'
        (haddr ▸ hcleared) hoff⟩

/-- The handler 51, registered by the handler 50 while its pool is cleared, is neither
    called nor pending, and its record is on neither list. -/
theorem registration_dropped : ¬ ∀ (plat : Platform) (script : Script plat) (thread : Nat)
    (s : Session), Reachable plat (Session.Plain plat) s → ∀ pool ∈ s.addrs, ∀ rounds w',
      clearWith plat script thread pool s.world = .ok rounds w' →
        ∀ round ∈ rounds, ClearKept s.world w' round := by
  intro hall
  have hrun : ((session.run machine (Session.Plain machine)
      [.create 1 0 0, .cleanupAdd 1 65584 100 50]).any fun s =>
        decide (65584 ∈ s.addrs) &&
          match clearWith machine again 1 65584 s.world with
          | .error _ _ => false
          | .ok rounds w' => decide (∃ round ∈ rounds, (51, 101) ∈ round.made.map Made.pair ∧
              (51, 101) ∉ round.called ++ pendingAt w' round.pool)) = true := by decide +kernel
  obtain ⟨s, hs, hfacts⟩ := (Option.any_eq_true _ _).mp hrun
  obtain ⟨haddr, hclear⟩ := (Bool.and_eq_true _ _).mp hfacts
  cases hcleared : clearWith machine again 1 65584 s.world with
  | error e w' => rw [hcleared] at hclear; cases hclear
  | ok rounds w' =>
    rw [hcleared] at hclear
    obtain ⟨round, hround, hmade, hlost⟩ := of_decide_eq_true hclear
    have hkept := hall machine again 1 s (reachable_run (.start session initial_session) hs) 65584
      (of_decide_eq_true haddr) rounds w' hcleared round hround
    exact hlost (hkept.handlers.subset (List.mem_append_right _ hmade))

end Registrations

end Spr.MemPool
