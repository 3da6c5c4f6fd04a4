import Spr.Framework.Locks
import Spr.MemPool.Registrations

/-! # The mutex of a pool

    Which calls give the mutex up as often as they take it, with
    `SPR_POOL_THREAD_SAFETY`.

    * `lockSteps`: what a log says of mutexes.
    * `LockFree`: a call that takes no mutex and gives none up.
    * `LockKept`: a call that returns with the mutex held as deep as before.
    * `pallocSlots_steps`, `addWith_steps`: the slot path, and a registration.
    * `lock_kept_iff`: which calls of the file keep the mutex. -/

namespace Spr.MemPool

open Spr.Words Spr.Chains Spr.Forests Spr.Locks

/-! ## Section 1: Mutexes in the log -/

/-- A mutex in the hands of a thread is taken or given up. -/
def Event.lockStep : Event → Option (LockStep (Nat × Nat))
  | .locked mutex thread => some (.lock (mutex, thread))
  | .unlocked mutex thread => some (.unlock (mutex, thread))
  | _ => none

def lockSteps (evs : List Event) : List (LockStep (Nat × Nat)) := evs.filterMap Event.lockStep

/-- **The mutex is kept**: the call returns, the thread holds the pool's mutex as deep as
    before, and has not given it up more often than it took it. -/
def LockKept {α : Type} (w : World) (thread pool : Nat) : Result α → Prop
  | .ok _ w' => ∃ evs, w'.log = w.log ++ evs ∧
      Balanced (w.mem (poolMutex pool), thread) (lockSteps evs)
  | .error _ _ => False

theorem lockSteps_append (evs evs' : List Event) :
    lockSteps (evs ++ evs') = lockSteps evs ++ lockSteps evs' := List.filterMap_append

theorem lockSteps_free {evs : List Event} (h : ∀ e ∈ evs, e.lockStep = none) :
    lockSteps evs = [] := List.filterMap_eq_nil_iff.mpr h

section Kept

variable {α : Type} {w w' : World} {thread pool : Nat} {evs : List Event}

theorem lockKept_ok {a : α} (evs : List Event) (hlog : w'.log = w.log ++ evs) :
    LockKept w thread pool (.ok a w' : Result α) ↔
      Balanced (w.mem (poolMutex pool), thread) (lockSteps evs) := by
  constructor
  · rintro ⟨evs', hlog', hkept⟩
    rwa [List.append_cancel_left (hlog.symm.trans hlog')]
  · exact fun hkept => ⟨evs, hlog, hkept⟩

end Kept

/-! ## Section 2: Calls that leave mutexes alone -/

/-- The call takes no mutex and gives none up. -/
def LockFree {α : Type} (act : Act α) : Prop :=
  ∀ w a w', act w = .ok a w' → ∃ evs, w'.log = w.log ++ evs ∧ lockSteps evs = []

section Free

variable {α β : Type}

theorem LockFree.bind {act : Act α} {f : α → Act β} (h : LockFree act)
    (hf : ∀ a, LockFree (f a)) : LockFree (act >>= f) := by
  intro w b w' hrun
  obtain ⟨a, w₁, hact, hrest⟩ := bind_ok hrun
  obtain ⟨evs, hlog, hfree⟩ := h w a w₁ hact
  obtain ⟨evs', hlog', hfree'⟩ := hf a w₁ b w' hrest
  exact ⟨evs ++ evs', by rw [hlog', hlog, List.append_assoc],
    by rw [lockSteps_append, hfree, hfree']; rfl⟩

theorem lockFree_log {act : Act α} (h : ∀ w a w', act w = .ok a w' → w'.log = w.log) :
    LockFree act := fun w a w' hrun => ⟨[], by rw [h w a w' hrun, List.append_nil], rfl⟩

theorem lockFree_pure (a : α) : LockFree (pure a : Act α) := lockFree_log fun w b w' h => by
  injection h with _ hw
  rw [hw]

theorem lockFree_load (a : Nat) : LockFree (load a) := lockFree_log fun w b w' h => by
  injection h with _ hw
  rw [hw]

theorem lockFree_store (a v : Nat) : LockFree (store a v) := lockFree_log fun w b w' h => by
  injection h with _ hw
  rw [← hw]
  rfl

theorem lockFree_emit {e : Event} (he : e.lockStep = none) : LockFree (emit e) := by
  intro w a w' hrun
  injection hrun with _ hw
  exact ⟨[e], by rw [← hw]; rfl, by simp [lockSteps, he]⟩

theorem lockFree_sysAlloc (size : Nat) : LockFree (sysAlloc size) := by
  intro w a w' hrun
  rcases sysAlloc_cases size w with hno | ⟨b, -, hyes⟩
  · rw [hno] at hrun
    injection hrun with _ hw
    exact ⟨[.refused size], by rw [← hw]; rfl, rfl⟩
  · rw [hyes] at hrun
    injection hrun with _ hw
    exact ⟨[.obtained b size], by rw [← hw]; rfl, rfl⟩

theorem lockFree_sprMemnodeAllocate (size : Nat) : LockFree (sprMemnodeAllocate size) := by
  unfold sprMemnodeAllocate
  apply (lockFree_sysAlloc size).bind
  intro a
  by_cases hnull : a = 0
  · simp only [if_pos hnull]
    exact lockFree_pure 0
  simp only [if_neg hnull]
  apply (lockFree_store _ _).bind
  intro _
  apply (lockFree_store _ _).bind
  intro _
  apply (lockFree_load _).bind
  intro _
  apply (lockFree_store _ _).bind
  intro _
  apply (lockFree_store _ _).bind
  intro _
  apply (lockFree_load _).bind
  intro _
  apply (lockFree_store _ _).bind
  intro _
  apply (lockFree_store _ _).bind
  intro _
  apply (lockFree_emit (by rfl)).bind
  intro _
  exact lockFree_pure a

theorem lockFree_newMemnode (plat : Platform) (pool npages index : Nat) :
    LockFree (newMemnode plat pool npages index) := by
  unfold newMemnode
  apply (lockFree_sprMemnodeAllocate _).bind
  intro node
  by_cases hnull : node = 0
  · simp only [if_pos hnull]
    exact lockFree_pure 0
  simp only [if_neg hnull]
  apply (lockFree_load _).bind
  intro _
  apply (lockFree_store _ _).bind
  intro _
  apply (lockFree_store _ _).bind
  intro _
  apply (lockFree_emit (by rfl)).bind
  intro _
  exact lockFree_pure node

end Free

/-! ## Section 3: The slot path -/

section SlotPath

variable {plat : Platform} {thread k npages index pool node r m : Nat} {w w' : World} {p : Pool}

theorem lockFree_carve : LockFree (carve node k) := by
  unfold carve
  apply (lockFree_load _).bind
  intro _
  apply (lockFree_store _ _).bind
  intro _
  apply (lockFree_load _).bind
  intro _
  apply (lockFree_load _).bind
  intro _
  apply (lockFree_store _ _).bind
  intro _
  exact lockFree_pure _

theorem lockSteps_lock (thread : Nat) (hsafe : plat.threadSafety = true) (p : Pool) :
    lockSteps (lockEvents plat thread p) = [.lock (p.mutex, thread)] := by
  rw [lockEvents, if_pos hsafe]
  rfl

theorem lockSteps_unlock (thread : Nat) (hsafe : plat.threadSafety = true) (p : Pool) :
    lockSteps (unlockEvents plat thread p) = [.unlock (p.mutex, thread)] := by
  rw [unlockEvents, if_pos hsafe]
  rfl

theorem lt_sizeofPool (hsafe : plat.threadSafety = true) : 200 < sizeofPool plat := by
  rw [sizeofPool, if_pos hsafe]
  decide

/-- The word of the mutex decides what is given up. -/
theorem unlockPool_steps (thread : Nat) (hsafe : plat.threadSafety = true)
    (hmutex : w.mem (poolMutex pool) = m) :
    unlockPool plat thread pool w = .ok () (w.emits [.unlocked m thread]) := by
  subst hmutex
  unfold unlockPool
  simp [hsafe, World.emit, World.emits]

/-- The end of the slot path gives the mutex up. -/
theorem cutBlock_steps (hsafe : plat.threadSafety = true) (hmutex : w.mem (poolMutex pool) = m)
    (hout : node ≠ 0 → node + 16 ≠ poolMutex pool ∧ node + 32 ≠ poolMutex pool)
    (hrun : cutBlock plat thread pool k node w = .ok r w') :
    w'.mem (poolMutex pool) = m ∧
      ∃ evs, w'.log = w.log ++ evs ∧ lockSteps evs = [.unlock (m, thread)] := by
  unfold cutBlock at hrun
  by_cases hnull : node = 0
  · rw [if_pos hnull, bind_run, unlockPool_steps _ hsafe hmutex] at hrun
    injection hrun with _ hw
    subst hw
    exact ⟨hmutex, _, rfl, rfl⟩
  · rw [if_neg hnull] at hrun
    obtain ⟨h₁₆, h₃₂⟩ := hout hnull
    obtain ⟨b, w₁, hcarve, hrun⟩ := bind_ok hrun
    obtain ⟨evs, hlog, hfree⟩ := lockFree_carve w b w₁ hcarve
    have hkept : w₁.mem (poolMutex pool) = m := by
      rw [← hmutex]
      exact (blindAt_carve h₁₆ h₃₂).kept hcarve
    rw [bind_run, unlockPool_steps _ hsafe hkept] at hrun
    injection hrun with _ hw
    subst hw
    refine ⟨hkept, evs ++ [.unlocked m thread], by simp [hlog], ?_⟩
    rw [lockSteps_append, hfree]
    rfl

/-- **The slot path takes the mutex once and gives it up once.** -/
theorem pallocSlots_steps (hsafe : plat.threadSafety = true) (h : PoolAt plat w p)
    (hindex : index ≤ sprMaxPoolSlot) (hsize : sizeofMemnode ≤ mul npages plat.pageSize)
    (hrun : pallocSlots plat thread p.addr k npages index w = .ok r w') :
    w'.mem (poolMutex p.addr) = p.mutex ∧ ∃ evs, w'.log = w.log ++ evs ∧
      lockSteps evs = [.lock (p.mutex, thread), .unlock (p.mutex, thread)] := by
  have hwide := lt_sizeofPool hsafe
  have hsearch : searchSlots w.mem p.addr k index (sprMaxPoolSlot - index)
      = some (addrOf (firstFit k (p.fromSlot index))) := searchSlots_spec h k (by omega)
  unfold pallocSlots at hrun
  rw [bind_run, lockPool_run h] at hrun
  have hlock := h.of_eq (v := w.emits (lockEvents plat thread p)) rfl rfl
  have hmutex : (w.emits (lockEvents plat thread p)).mem (poolMutex p.addr) = p.mutex :=
    hlock.rep.header.mutex hsafe
  have hsteps : lockSteps (lockEvents plat thread p) = _ := lockSteps_lock thread hsafe p
  generalize hv : w.emits (lockEvents plat thread p) = v at hrun hlock hmutex
  have hmem : v.mem = w.mem := by rw [← hv]; rfl
  have hlog : v.log = w.log ++ lockEvents plat thread p := by rw [← hv]; rfl
  -- what is left is to give the mutex up
  suffices hrest : w'.mem (poolMutex p.addr) = p.mutex ∧
      ∃ evs, w'.log = v.log ++ evs ∧ lockSteps evs = [.unlock (p.mutex, thread)] by
    obtain ⟨hkept, evs, hmore, hgiven⟩ := hrest
    refine ⟨hkept, lockEvents plat thread p ++ evs, by rw [hmore, hlog, List.append_assoc], ?_⟩
    rw [lockSteps_append, hsteps, hgiven]
    rfl
  simp only [bind_run, get_run, hmem, hsearch] at hrun
  cases hfit : firstFit k (p.fromSlot index) with
  | some n =>
    have hn := Pool.fromSlot_nodes (firstFit_some hfit).1
    have hne := (h.wf.node n hn).ne_null
    have hapart := h.header_fields hn
    simp only [hfit, addrOf, Option.elim_some, ne_eq, hne, not_false_eq_true, if_true] at hrun
    refine cutBlock_steps (k := k) hsafe hmutex (fun _ => ?_) hrun
    simp only [Span.Disjoint, Pool.headerSpan, sizeofMemnode, poolMutex] at hapart ⊢
    omega
  | none =>
    simp only [hfit, addrOf, Option.elim_none, ne_eq, not_true, if_false] at hrun
    have hcut : (newMemnode plat p.addr npages index >>= cutBlock plat thread p.addr k) v
        = .ok r w' := hrun
    obtain ⟨node, w₁, hnew, hcut⟩ := bind_ok hcut
    obtain ⟨evs, hlog₁, hfree⟩ := lockFree_newMemnode plat p.addr npages index v node w₁ hnew
    have hkept : w₁.mem (poolMutex p.addr) = p.mutex := by
      rw [← hmutex]
      exact (blindAt_newMemnode hlock hindex hsize (by omega) hwide).kept hnew
    obtain ⟨hend, evs', hlog₂, hgiven⟩ := cutBlock_steps (k := k) hsafe hkept
      (fun hne => hlock.newMemnode_out hsize hwide hnew hne) hcut
    refine ⟨hend, evs ++ evs', by rw [hlog₂, hlog₁, List.append_assoc], ?_⟩
    rw [lockSteps_append, hfree, hgiven]
    rfl

end SlotPath

/-! ## Section 4: Registrations -/

section Adding

variable {plat : Platform} {thread data handler : Nat} {w w' : World} {p : Pool}

/-- Linking a record that does not lie over the header leaves mutexes alone. -/
theorem linkRecord_steps {node pool m : Nat} {v v' : World} (hmutex : v.mem (poolMutex pool) = m)
    (hapart : ¬ (recordSpan node).Covers (poolMutex pool))
    (hrun : linkRecord pool node data handler v = .ok () v') :
    v'.mem (poolMutex pool) = m ∧ v'.log = v.log := by
  obtain ⟨v₁, hlink, -, hmem⟩ := linkRecord_run node pool data handler v
  rw [hrun] at hlink
  injection hlink with _ hv
  subst hv
  refine ⟨?_, ?_⟩
  · rw [hmem _ hapart (by simp only [poolMutex]; omega), hmutex]
  · injection hrun with _ hv
    rw [← hv]
    rfl

/-- **A registration** takes the mutex as often as it gives it up. -/
theorem addWith_steps {palloc : Nat → Nat → Act Nat} (hsafe : plat.threadSafety = true)
    (h : PoolAt plat w p)
    (hpalloc : palloc p.addr sizeofCleanupNode
      = pallocSlots plat thread p.addr sizeofCleanupNode 1 0)
    (hrun : sprPoolCleanupAdd1With plat palloc thread p.addr data handler w = .ok () w') :
    w'.mem (poolMutex p.addr) = p.mutex ∧ ∃ evs, w'.log = w.log ++ evs ∧
      Balanced (p.mutex, thread) (lockSteps evs) := by
  have hwide := lt_sizeofPool hsafe
  have hlock := h.of_eq (v := w.emits (lockEvents plat thread p)) rfl rfl
  have hmutex : w.mem (poolMutex p.addr) = p.mutex := h.rep.header.mutex hsafe
  have hsteps := lockSteps_lock thread hsafe p
  cases hfrees : p.frees with
  | cons a fs =>
    -- the first record in reserve is taken
    obtain ⟨hhead, hne, -, -⟩ := popRecord hlock hfrees
    rw [emits_mem] at hhead
    have hlisted : a ∈ p.listed :=
      List.mem_append_right _ (by rw [hfrees]; exact List.mem_cons_self)
    have hapart : ¬ (recordSpan a).Covers (poolMutex p.addr) := by
      refine (h.header_record hlisted).not_covers ?_
      simp only [Span.Covers, Pool.headerSpan, poolMutex]
      omega
    obtain ⟨w₁, hlink, -⟩ := linkRecord_run a p.addr data handler
      ((w.emits (lockEvents plat thread p)).store (p.addr + 192) (w.mem a))
    have hkept : ((w.emits (lockEvents plat thread p)).store (p.addr + 192) (w.mem a)).mem
        (poolMutex p.addr) = p.mutex := by
      rw [store_mem, Function.update_of_ne (by simp only [poolMutex]; omega)]
      exact hmutex
    -- the stores to the record do not reach the word of the mutex
    obtain ⟨hend, hlog⟩ := linkRecord_steps hkept hapart hlink
    have hunlock := unlockPool_steps thread hsafe hend
    rw [cleanupAdd1With_recycled (lockPool_run h thread) hhead hne hlink hunlock] at hrun
    injection hrun with _ hw
    subst hw
    refine ⟨hend, lockEvents plat thread p ++ [.unlocked p.mutex thread], by simp [hlog], ?_⟩
    rw [lockSteps_append, hsteps]
    exact balanced_bracket _ balanced_nil
  | nil =>
    have hnull := hlock.frees_null hfrees
    obtain ⟨r, p₁, w₁, hpallocs, hp₁, hcarve, -⟩ := pallocSlots_record thread hlock
    -- the allocation locks once more and gives that up itself
    obtain ⟨hkept, evs, hlog, htaken⟩ := pallocSlots_steps hsafe hlock (Nat.zero_le _)
      (one_page_room plat) hpallocs
    rw [← hpalloc] at hpallocs
    by_cases hr : r = 0
    · subst hr
      rw [cleanupAdd1With_null (lockPool_run h thread) hnull hpallocs] at hrun
      cases hrun
    have hapart : ¬ (recordSpan r).Covers (poolMutex p.addr) := by
      refine (carving_record_header hlock hp₁ hcarve (record_room plat) hr).not_covers ?_
      simp only [Span.Covers, Pool.headerSpan, poolMutex]
      omega
    obtain ⟨w₂, hlink, -⟩ := linkRecord_run r p.addr data handler
      (w₁.emit (.record p.addr r))
    obtain ⟨hend, hlog₂⟩ := linkRecord_steps (v := w₁.emit (.record p.addr r)) hkept hapart hlink
    have hunlock := unlockPool_steps thread hsafe hend
    rw [cleanupAdd1With_carved (lockPool_run h thread) hnull hpallocs hr hlink hunlock] at hrun
    injection hrun with _ hw
    subst hw
    refine ⟨hend, lockEvents plat thread p ++ (evs ++ .record p.addr r ::
      [.unlocked p.mutex thread]), by simp [hlog₂, hlog], ?_⟩
    rw [lockSteps_append, lockSteps_append, hsteps, htaken]
    exact balanced_bracket _ (balanced_bracket _ balanced_nil)

end Adding

/-! ## Section 5: The calls -/

section Calls

variable {plat : Platform} {thread data handler size : Nat} {w w' : World} {p : Pool}
  {cs : Forest Pool} {rest : List Pool}

/-- A size that the alignment step rejects gives up a mutex that was not taken. -/
theorem palloc_rejected_lock (hsafe : plat.threadSafety = true) (h : PoolAt plat w p)
    (halign : sprAlignAllocation size = 0) :
    ¬ LockKept w thread p.addr (sprPalloc plat thread p.addr size w) := by
  rw [sprPalloc_rejected halign (unlockPool_run h thread),
    lockKept_ok (unlockEvents plat thread p) rfl, lockSteps_unlock _ hsafe,
    poolMutex, h.rep.header.mutex hsafe]
  exact not_balanced_unlock balanced_nil

/-- The slot path gives up what it takes. -/
theorem palloc_slots_lock (hsafe : plat.threadSafety = true) (h : PoolAt plat w p)
    (hpages : PagesFit plat) (halign : sprAlignAllocation size ≠ 0)
    (hindex : slotIndex plat size ≤ sprMaxPoolSlot) :
    LockKept w thread p.addr (sprPalloc plat thread p.addr size w) := by
  obtain ⟨-, hsize⟩ := hpages.mul_npages hindex
  obtain ⟨r, w', hrun, -⟩ := sprPalloc_outcome thread h hpages halign hindex
  have hslots := (sprPalloc_slots halign hindex).symm.trans hrun
  obtain ⟨-, evs, hlog, hsteps⟩ := pallocSlots_steps hsafe h hindex hsize hslots
  rw [hrun, lockKept_ok _ hlog, hsteps, poolMutex, h.rep.header.mutex hsafe]
  exact balanced_bracket _ balanced_nil

/-- An oversized request gives the mutex up once too often. -/
theorem palloc_big_lock (hsafe : plat.threadSafety = true) (h : PoolAt plat w p)
    (halign : sprAlignAllocation size ≠ 0) (hbig : sprMaxPoolSlot < slotIndex plat size) :
    ¬ LockKept w thread p.addr (sprPalloc plat thread p.addr size w) := by
  have hmutex : w.mem (poolMutex p.addr) = p.mutex := h.rep.header.mutex hsafe
  rcases sysAlloc_cases (sprAlignAllocation size) w with hno | ⟨a, hgrant, hyes⟩
  · -- the mutex is unlocked, and it was never locked
    have hunlock := unlockPool_steps thread hsafe
      (w := w.refuse (sprAlignAllocation size)) hmutex
    have hlog : ((w.refuse (sprAlignAllocation size)).emits [.unlocked p.mutex thread]).log
        = w.log ++ [.refused (sprAlignAllocation size), .unlocked p.mutex thread] := by simp
    rw [sprPalloc_refused halign hbig hno hunlock, lockKept_ok _ hlog, hmutex]
    exact not_balanced_unlock balanced_nil
  · have hobtain := h.obtain hgrant (Nat.pos_of_ne_zero halign)
    cases hadd : sprPoolCleanupAdd1With plat (pallocDepth plat thread 1) thread p.addr a
        plat.sprFree (w.obtain a (sprAlignAllocation size)) with
    | error e w₁ =>
      rw [sprPalloc_oversize halign hbig hgrant.1 hyes, bind_run, hadd]
      exact fun hkept => hkept
    | ok u w₁ =>
      -- registering locks and unlocks it, and then it is unlocked once more
      obtain ⟨hkept, evs, hlog₁, hbalanced⟩ := addWith_steps hsafe hobtain
        (pallocDepth_record plat thread 0 p.addr) hadd
      have hunlock := unlockPool_steps thread hsafe hkept
      have hrun : sprPalloc plat thread p.addr size w
          = .ok a (w₁.emits [.unlocked p.mutex thread]) := by
        rw [sprPalloc_oversize halign hbig hgrant.1 hyes]
        simp [hadd, hunlock]
      have hlog : (w₁.emits [.unlocked p.mutex thread]).log
          = w.log ++ (.obtained a (sprAlignAllocation size) ::
            (evs ++ [.unlocked p.mutex thread])) := by
        simp [hlog₁]
      rw [hrun, lockKept_ok _ hlog, hmutex]
      show ¬ Balanced _ (lockSteps (evs ++ [.unlocked p.mutex thread]))
      rw [lockSteps_append]
      exact not_balanced_unlock hbalanced

/-- **`spr_palloc`** keeps the mutex exactly on the slot path. -/
theorem palloc_lock_iff (thread size : Nat) (hsafe : plat.threadSafety = true)
    (h : PoolAt plat w p) (hpages : PagesFit plat) :
    LockKept w thread p.addr (sprPalloc plat thread p.addr size w) ↔
      sprAlignAllocation size ≠ 0 ∧ slotIndex plat size ≤ sprMaxPoolSlot := by
  constructor
  · intro hkept
    have halign : sprAlignAllocation size ≠ 0 := fun halign =>
      palloc_rejected_lock hsafe h halign hkept
    refine ⟨halign, ?_⟩
    by_contra hbig
    exact palloc_big_lock hsafe h halign (Nat.lt_of_not_le hbig) hkept
  · rintro ⟨halign, hindex⟩
    exact palloc_slots_lock hsafe h hpages halign hindex

/-- **`spr_pcalloc`** treats the mutex as `spr_palloc` does. -/
theorem pcalloc_lock_iff (w : World) (thread pool size : Nat) :
    LockKept w thread pool (sprPcalloc plat thread pool size w) ↔
      LockKept w thread pool (sprPalloc plat thread pool size w) := by
  cases hrun : sprPalloc plat thread pool size w with
  | error e w₁ =>
    have hcalloc : sprPcalloc plat thread pool size w = .error e w₁ := by
      simp [sprPcalloc, hrun]
    rw [hcalloc]
  | ok r w₁ =>
    obtain ⟨w₂, hcalloc, hlog⟩ : ∃ w₂, sprPcalloc plat thread pool size w = .ok r w₂ ∧
        w₂.log = w₁.log := by
      by_cases hnull : r = 0
      · exact ⟨w₁, by simp [sprPcalloc, hrun, hnull], rfl⟩
      · exact ⟨{ w₁ with mem := zeroed w₁.mem r size }, by simp [sprPcalloc, hrun, hnull], rfl⟩
    rw [hcalloc]
    unfold LockKept
    simp only [hlog]

/-- **`spr_pool_cleanup_add1`** keeps the mutex exactly when a record can be had. -/
theorem add_lock_iff (thread data handler : Nat) (hsafe : plat.threadSafety = true)
    (h : PoolAt plat w p) :
    LockKept w thread p.addr (sprPoolCleanupAdd1 plat thread p.addr data handler w) ↔
      ¬ RecordRefused plat w p.addr := by
  have hrecord := pallocDepth_record plat thread 1 p.addr
  obtain ⟨hstops, hadds⟩ := cleanupAdd1With_adds data handler h hrecord
  unfold sprPoolCleanupAdd1 sprPalloc
  constructor
  · intro hkept hrefused
    obtain ⟨w₁, hrun⟩ := hstops hrefused
    rw [hrun] at hkept
    exact hkept
  · intro hyes
    obtain ⟨w', hrun, -⟩ := hadds hyes
    obtain ⟨-, evs, hlog, hbalanced⟩ := addWith_steps hsafe h hrecord hrun
    rw [hrun, lockKept_ok _ hlog, poolMutex, h.rep.header.mutex hsafe]
    exact hbalanced

/-- What is done with a match leaves mutexes alone. -/
def Use.LockFree (use : Use) : Prop := ∀ r, lockSteps (use.events r) = []

theorem lockSteps_call (plat : Platform) (r : Record) : lockSteps (callEvents plat r) = [] := by
  unfold callEvents
  by_cases hf : r.handler = plat.sprFree
  · rw [if_pos hf]
    rfl
  · rw [if_neg hf]
    rfl

/-- A search that ends without a match keeps the mutex. -/
theorem taking_lock_iff {use : Use} {p' : Pool} (hsafe : plat.threadSafety = true)
    (h : PoolAt plat w p) (huse : use.LockFree)
    (ht : Taking plat thread use w p data handler p' w') :
    LockKept w thread p.addr (.ok () w' : Result Unit) ↔ (handler, data) ∈ pendingAt w p.addr := by
  have hmutex : w.mem (poolMutex p.addr) = p.mutex := h.rep.header.mutex hsafe
  have hpending : (handler, data) ∈ pendingAt w p.addr ↔
      ∃ r ∈ p.cleanups, r.Matches data handler := by
    rw [pendingAt_eq h, Pool.pending, List.mem_map]
    simp only [Prod.mk.injEq, Record.Matches, and_comm]
  rw [hpending]
  cases ht with
  | absent hno =>
    -- the call returns with the mutex still locked
    rw [lockKept_ok (lockEvents plat thread p) rfl, hmutex, lockSteps_lock _ hsafe]
    refine iff_of_false not_balanced_lock fun hthere => ?_
    obtain ⟨r, hr, hmatch⟩ := hthere
    exact hno r hr hmatch
  | found rs rs' r _ hsplit hmatch _ _ hlog =>
    rw [lockKept_ok _ hlog, hmutex, lockSteps_append, lockSteps_append, lockSteps_lock _ hsafe,
      lockSteps_unlock _ hsafe, huse r]
    refine iff_of_true (balanced_bracket _ balanced_nil) ⟨r, ?_, hmatch⟩
    rw [hsplit]
    exact List.mem_append_right _ List.mem_cons_self

end Calls

/-! ## Section 6: `spr_pool_clear` -/

section Clearing

variable {plat : Platform} {thread : Nat} {i : Nat × Nat}

theorem balanced_clearEvents {p : Pool} {inner : List Event} (hsafe : plat.threadSafety = true)
    (hinner : Balanced i (lockSteps inner)) :
    Balanced i (lockSteps (clearEvents plat thread p inner)) := by
  rw [clearEvents]
  by_cases hown : Owned plat thread p
  · rw [if_pos hown]
    have hcalls : lockSteps (p.cleanups.flatMap (callEvents plat)) = [] := by
      rw [lockSteps, List.filterMap_flatMap]
      exact List.flatMap_eq_nil_iff.mpr fun r _ => lockSteps_call plat r
    have hresets : lockSteps ((p.slotAddrs 0).map .reset) = [] := by
      apply lockSteps_free
      intro e he
      obtain ⟨a, -, rfl⟩ := List.mem_map.mp he
      rfl
    have hbracket := balanced_bracket (i := i) (p.mutex, thread) hinner
    rw [← lockSteps_unlock thread hsafe p] at hbracket
    have hsteps : lockSteps (.visited p.addr :: (lockEvents plat thread p ++
        p.cleanups.flatMap (callEvents plat) ++ inner ++ (p.slotAddrs 0).map .reset ++
        .cleared p.addr :: unlockEvents plat thread p))
        = .lock (p.mutex, thread) :: lockSteps inner ++ lockSteps (unlockEvents plat thread p) := by
      show lockSteps (_ ++ ([.cleared p.addr] ++ unlockEvents plat thread p)) = _
      simp only [lockSteps_append, hcalls, hresets, lockSteps_lock _ hsafe, List.append_nil]
      rfl
    rw [hsteps]
    exact hbracket
  · rw [if_neg hown]
    exact balanced_nil

/-- Clearing a forest gives up what it takes: by induction on the forest. -/
theorem balanced_clearLog (hsafe : plat.threadSafety = true) (f : Forest Pool) :
    Balanced i (lockSteps (clearLog plat thread f)) := by
  induction f with
  | nil => exact balanced_nil
  | node p cs bs ihc ihb =>
    rw [clearLog, List.cons_append]
    show Balanced i (lockSteps (clearEvents plat thread p _ ++ _))
    rw [lockSteps_append]
    exact balanced_append (balanced_clearEvents hsafe ihc) ihb

end Clearing

/-! ## Section 7: Which calls keep the mutex -/

/-- **Which calls keep the mutex of a pool**: `spr_palloc` and `spr_pcalloc` exactly on the
    slot path, `spr_pool_cleanup_add1` when a record can be had, `spr_pool_cleanup_run1` and
    `spr_pool_cleanup_remove1` exactly when they find a record, and `spr_pool_clear` always. -/
structure KeepsLock (plat : Platform) (thread size data handler : Nat) (w : World) (pool : Nat) :
    Prop where
  palloc  : LockKept w thread pool (sprPalloc plat thread pool size w) ↔
    sprAlignAllocation size ≠ 0 ∧ slotIndex plat size ≤ sprMaxPoolSlot
  pcalloc : LockKept w thread pool (sprPcalloc plat thread pool size w) ↔
    sprAlignAllocation size ≠ 0 ∧ slotIndex plat size ≤ sprMaxPoolSlot
  add     : LockKept w thread pool (sprPoolCleanupAdd1 plat thread pool data handler w) ↔
    ¬ RecordRefused plat w pool
  run     : LockKept w thread pool (sprPoolCleanupRun1 plat thread pool data handler w) ↔
    (handler, data) ∈ pendingAt w pool
  remove  : LockKept w thread pool (sprPoolCleanupRemove1 plat thread pool data handler w) ↔
    (handler, data) ∈ pendingAt w pool
  clear   : LockKept w thread pool (sprPoolClear plat thread pool w)

theorem keepsLock_of_tree {plat : Platform} {w : World} {p : Pool} {cs : Forest Pool}
    {rest : List Pool} (thread size data handler : Nat) (hsafe : plat.threadSafety = true)
    (hpages : PagesFit plat) (hlink : LinkedPools p.child cs)
    (h : PoolsAt plat w (p :: (cs.toList ++ rest))) :
    KeepsLock plat thread size data handler w p.addr := by
  have hp : PoolAt plat w p := h.pool p List.mem_cons_self
  have hpalloc := palloc_lock_iff thread size hsafe hp hpages
  refine ⟨hpalloc, (pcalloc_lock_iff w thread p.addr size).trans hpalloc,
    add_lock_iff thread data handler hsafe hp, ?_, ?_, ?_⟩
  · have hkeep : KeepsNodes plat p p.cleanups := h.keeps List.mem_cons_self List.mem_cons_self
    obtain ⟨p', w', hrun, -, htaking, -⟩ := sprPoolCleanupRun1_cases thread data handler hp hkeep
    rw [hrun]
    exact taking_lock_iff hsafe hp (fun r => lockSteps_call plat r) htaking
  · obtain ⟨p', w', hrun, -, htaking, -⟩ := sprPoolCleanupRemove1_cases thread data handler hp
    rw [hrun]
    exact taking_lock_iff hsafe hp (fun _ => rfl) htaking
  · obtain ⟨w', hrun, -, hlog, -⟩ := sprPoolClear_spec thread hlink h
    rw [hrun, lockKept_ok _ hlog]
    exact balanced_clearEvents hsafe (balanced_clearLog hsafe cs)

/-- **The mutex of a pool**, where the pools are in order, each apart from the others and
    linked to a tree, as they are in every plain run. -/
theorem lock_kept_iff (plat : Platform) (thread size data handler : Nat)
    (hsafe : plat.threadSafety = true) (hpages : PagesFit plat) :
    (∀ (w : World) (p : Pool) (cs : Forest Pool) (rest : List Pool), LinkedPools p.child cs →
      PoolsAt plat w (p :: (cs.toList ++ rest)) →
      KeepsLock plat thread size data handler w p.addr) ∧
    ∀ s : Session, Reachable plat (Session.Plain plat) s → ∀ pool ∈ s.addrs,
      KeepsLock plat thread size data handler s.world pool := by
  constructor
  · intro w p cs rest hlink h
    exact keepsLock_of_tree thread size data handler hsafe hpages hlink h
  · intro s hreach pool hpool
    obtain ⟨p, cs, rest, rfl, -, -, hlink, h⟩ := reachable_tree hreach hpool
    exact keepsLock_of_tree thread size data handler hsafe hpages hlink h

/-- A pool with a registration. -/
theorem lock_kept_iff_small : ∃ w : World,
    LockKept w 1 65584 (sprPalloc machine 1 65584 100 w) ∧
    LockKept w 1 65584 (sprPoolCleanupAdd1 machine 1 65584 100 50 w) ∧
    LockKept w 1 65584 (sprPoolCleanupRun1 machine 1 65584 100 50 w) ∧
    LockKept w 1 65584 (sprPoolClear machine 1 65584 w) := by
  have hrun : ((session.run machine (Session.Plain machine)
      [.create 1 0 0, .cleanupAdd 1 65584 100 50]).any fun s =>
        decide (65584 ∈ s.addrs ∧ ¬ RecordRefused machine s.world 65584 ∧
          (50, 100) ∈ pendingAt s.world 65584)) = true := by decide +kernel
  obtain ⟨s, hs, hfacts⟩ := (Option.any_eq_true _ _).mp hrun
  obtain ⟨hpool, hrecord, hpending⟩ := of_decide_eq_true hfacts
  have hreach := reachable_run (.start session initial_session) hs
  have hkeeps := (lock_kept_iff machine 1 100 100 50 rfl (by decide)).2 s hreach 65584 hpool
  exact ⟨s.world, hkeeps.palloc.mpr (by decide), hkeeps.add.mpr hrecord,
    hkeeps.run.mpr hpending, hkeeps.clear⟩

/-- A size that is rejected: the mutex is given up, and was not taken. -/
theorem rejected_size_unlocks : ¬ ∀ (plat : Platform) (s : Session) (thread pool size : Nat),
    plat.threadSafety = true → Reachable plat (Session.Plain plat) s → pool ∈ s.addrs →
      LockKept s.world thread pool (sprPalloc plat thread pool size s.world) := by
  intro hall
  have hrun : ((session.run machine (Session.Plain machine) [.create 1 0 0]).any fun s =>
      65584 ∈ s.addrs) = true := by decide +kernel
  obtain ⟨s, hs, hfacts⟩ := (Option.any_eq_true _ _).mp hrun
  have hpool : 65584 ∈ s.addrs := of_decide_eq_true hfacts
  have hreach := reachable_run (.start session initial_session) hs
  obtain ⟨f, hinv⟩ := reachable_inv hreach
  obtain ⟨p, hp, haddr⟩ := hinv.find hpool
  have hkept := hall machine s 1 65584 (2 ^ 64 - 1) rfl hreach hpool
  rw [← haddr] at hkept
  exact palloc_rejected_lock rfl (hinv.pools.pool p hp) (by decide) hkept

end Spr.MemPool
