import Spr.Framework.Checks
import Spr.MemPool.FirstAlloc

/-! # Mutexes and threads of POSIX

    `spr_mutex_init`, `spr_mutex_lock` and `spr_mutex_unlock` of
    `src/lib/thread/spr_mutex.c`, and `spr_thread_init`, `spr_thread_join` and
    `spr_thread_cancel` of `src/lib/thread/spr_thread.c`.  The functions of pthreads answer
    0 or an error, and leave `errno` as it is; what the wrappers return for an error is
    `errno`.

    * `PthreadCall`, `Operation`: what the wrappers call, and the wrappers.
    * `Operation.run`, `Operation.needs`: a call of a wrapper, and what it depends on.
    * `sprPoolCreate1_mutexInit`: a creation without parent that succeeds has been told
      that its mutex is made.
    * `wrappers_iff`: when the wrappers, and a creation, tell the truth. -/

namespace Spr.Threads

open Spr.Checks Spr.Words
open Spr.MemPool hiding sprMutexInit

/-! ## Section 1: The calls -/

/-- The functions of pthreads that are called, with the values they set. -/
inductive PthreadCall where
  | mutexattrInit
  | mutexattrSetpshared (shared : Bool)
  | mutexattrSettypeRecursive
  | mutexattrDestroy
  | mutexInit
  | mutexLock
  | mutexUnlock
  | attrInit
  | attrSetscope (system : Bool)
  | attrSetdetachstate (detached : Bool)
  | attrSetstacksize (size : UInt64)
  | attrDestroy
  | create
  | join
  | cancel
  deriving DecidableEq

/-- The functions of pthreads; what is reported is `errno`. -/
abbrev Pthreads : Type := Oracle PthreadCall

/-- `SPR_MUTEX_SHARED` -/
def sprMutexShared : UInt32 := 0x00000001

/-- `SPR_MUTEX_PRIVATE` -/
def sprMutexPrivate : UInt32 := 0x00000002

/-- `SPR_MUTEX_RECURSIVE` -/
def sprMutexRecursive : UInt32 := 0x00000004

/-- `SPR_THREAD_SCOPE_SYSTEM` -/
def sprThreadScopeSystem : UInt32 := 0x00000001

/-- `SPR_THREAD_SCOPE_PROCESS` -/
def sprThreadScopeProcess : UInt32 := 0x00000002

/-- `SPR_THREAD_CREATE_DETACHED` -/
def sprThreadCreateDetached : UInt32 := 0x00000004

/-- `SPR_THREAD_CREATE_JOINABLE` -/
def sprThreadCreateJoinable : UInt32 := 0x00000008

/-- `spr_bit_is_set(x, bit)` -/
def sprBitIsSet (x bit : UInt32) : Prop := x &&& bit ≠ 0

instance (x bit : UInt32) : Decidable (sprBitIsSet x bit) := inferInstanceAs (Decidable (_ ≠ _))

/-! ## Section 2: The wrappers -/

section Wrappers

variable (os : Pthreads)

/-- `spr_mutex_init(mutex, params)` -/
def sprMutexInit (params : UInt32) : Outcome PthreadCall :=
  check os .mutexattrInit [] <|
  (fun rest =>
    if sprBitIsSet params sprMutexShared then
      check os (.mutexattrSetpshared true) [.mutexattrDestroy] rest
    else if sprBitIsSet params sprMutexPrivate then
      check os (.mutexattrSetpshared false) [.mutexattrDestroy] rest
    else rest) <|
  (fun rest =>
    if sprBitIsSet params sprMutexRecursive then
      check os .mutexattrSettypeRecursive [.mutexattrDestroy] rest
    else rest) <|
  check os .mutexInit [.mutexattrDestroy] <|
  ⟨sprOk, [.mutexattrDestroy]⟩

/-- `spr_mutex_lock(mutex)` -/
def sprMutexLock : Outcome PthreadCall := check os .mutexLock [] ⟨sprOk, []⟩

/-- `spr_mutex_unlock(mutex)` -/
def sprMutexUnlock : Outcome PthreadCall := check os .mutexUnlock [] ⟨sprOk, []⟩

/-- `spr_thread_init(thread, params, stack_size, ...)` -/
def sprThreadInit (params : UInt32) (stackSize : UInt64) : Outcome PthreadCall :=
  check os .attrInit [] <|
  (fun rest =>
    if sprBitIsSet params sprThreadScopeSystem then check os (.attrSetscope true) [] rest
    else if sprBitIsSet params sprThreadScopeProcess then check os (.attrSetscope false) [] rest
    else rest) <|
  (fun rest =>
    if sprBitIsSet params sprThreadCreateDetached then
      check os (.attrSetdetachstate true) [] rest
    else if sprBitIsSet params sprThreadCreateJoinable then
      check os (.attrSetdetachstate false) [] rest
    else rest) <|
  (fun rest =>
    if stackSize ≠ 0 then check os (.attrSetstacksize stackSize) [] rest else rest) <|
  check os .create [] <|
  -- the result of `pthread_attr_destroy` is ignored
  ⟨sprOk, [.attrDestroy]⟩

/-- `spr_thread_join(thread)` -/
def sprThreadJoin : Outcome PthreadCall := check os .join [] ⟨sprOk, []⟩

/-- `spr_thread_cancel(thread)` -/
def sprThreadCancel : Outcome PthreadCall := check os .cancel [] ⟨sprOk, []⟩

end Wrappers

/-! ## Section 3: What they depend on -/

/-- A call of a wrapper. -/
inductive Operation where
  | mutexInit (params : UInt32)
  | mutexLock
  | mutexUnlock
  | threadInit (params : UInt32) (stackSize : UInt64)
  | threadJoin
  | threadCancel

def Operation.run (os : Pthreads) : Operation → Outcome PthreadCall
  | .mutexInit params => sprMutexInit os params
  | .mutexLock => sprMutexLock os
  | .mutexUnlock => sprMutexUnlock os
  | .threadInit params stackSize => sprThreadInit os params stackSize
  | .threadJoin => sprThreadJoin os
  | .threadCancel => sprThreadCancel os

/-- The calls that must succeed for a mutex to be made. -/
def mutexNeeds (params : UInt32) : List PthreadCall :=
  .mutexattrInit ::
    ((if sprBitIsSet params sprMutexShared then [.mutexattrSetpshared true]
      else if sprBitIsSet params sprMutexPrivate then [.mutexattrSetpshared false] else []) ++
    ((if sprBitIsSet params sprMutexRecursive then [.mutexattrSettypeRecursive] else []) ++
    [.mutexInit]))

/-- The calls that must succeed for a thread to run. -/
def threadNeeds (params : UInt32) (stackSize : UInt64) : List PthreadCall :=
  .attrInit ::
    ((if sprBitIsSet params sprThreadScopeSystem then [.attrSetscope true]
      else if sprBitIsSet params sprThreadScopeProcess then [.attrSetscope false] else []) ++
    ((if sprBitIsSet params sprThreadCreateDetached then [.attrSetdetachstate true]
      else if sprBitIsSet params sprThreadCreateJoinable then [.attrSetdetachstate false]
      else []) ++
    ((if stackSize ≠ 0 then [.attrSetstacksize stackSize] else []) ++ [.create])))

/-- The calls that an operation depends on: all but those that destroy attributes. -/
def Operation.needs : Operation → List PthreadCall
  | .mutexInit params => mutexNeeds params
  | .mutexLock => [.mutexLock]
  | .mutexUnlock => [.mutexUnlock]
  | .threadInit params stackSize => threadNeeds params stackSize
  | .threadJoin => [.join]
  | .threadCancel => [.cancel]

section Reports

variable (os : Pthreads)

theorem sprMutexInit_reports (params : UInt32) :
    Reports os sprOk (mutexNeeds params) (sprMutexInit os params) := by
  apply Reports.check
  apply Reports.check_either
  apply Reports.check_if
  apply Reports.check
  apply reports_done

theorem sprThreadInit_reports (params : UInt32) (stackSize : UInt64) :
    Reports os sprOk (threadNeeds params stackSize) (sprThreadInit os params stackSize) := by
  apply Reports.check
  apply Reports.check_either
  apply Reports.check_either
  apply Reports.check_if
  apply Reports.check
  apply reports_done

/-- **A wrapper** returns `SPR_OK` if what it depends on succeeds, and else `errno`. -/
theorem Operation.run_reports (op : Operation) : Reports os sprOk op.needs (op.run os) := by
  cases op with
  | mutexInit params => exact sprMutexInit_reports os params
  | mutexLock => exact (reports_done os sprOk []).check _ _
  | mutexUnlock => exact (reports_done os sprOk []).check _ _
  | threadInit params stackSize => exact sprThreadInit_reports os params stackSize
  | threadJoin => exact (reports_done os sprOk []).check _ _
  | threadCancel => exact (reports_done os sprOk []).check _ _

end Reports

/-! ## Section 4: The mutex of a pool -/

/-- What `spr_pool_create1` asks of its mutex. -/
def poolMutexParams : UInt32 := sprMutexShared ||| sprMutexRecursive

/-- The mutex of a pool without parent. -/
theorem reserveMutex_answer {plat : Platform} {thread node pool : Nat} {w w' : World}
    (hsafe : plat.threadSafety = true)
    (h : reserveMutex plat thread node pool 0 w = .ok sprOk w') :
    w.mutexInit.headD sprOk = sprOk := by
  have hchoose : ∃ mutex w₁, chooseMutex plat node 0 w
      = .ok (w.mutexInit.headD sprOk, mutex) w₁ := ⟨_, _, rfl⟩
  obtain ⟨mutex, w₁, hrun⟩ := hchoose
  by_contra hbad
  simp only [reserveMutex, hsafe, if_true, bind_run, hrun, ite_run, pure_run] at h
  rw [if_pos hbad] at h
  injection h with herr
  exact hbad herr

/-- **A creation without parent that succeeds** has been told that its mutex is made. -/
theorem sprPoolCreate1_mutexInit {plat : Platform} {thread size pool : Nat} {w w' : World}
    (hsafe : plat.threadSafety = true)
    (h : sprPoolCreate1 plat thread size 0 w = .ok (sprOk, pool) w') :
    w.mutexInit.headD sprOk = sprOk := by
  obtain ⟨a, w₁, mem, node, index, w₃, -, -, hinit, hres, -⟩ := sprPoolCreate1_made h
  have hanswer := reserveMutex_answer hsafe hres
  rwa [← hinit]

/-- A creation without parent that returns `SPR_OK` has a mutex that is made, whatever
    platform, size and state it is called with. -/
def PoolMutexMade (os : Pthreads) : Prop :=
  ∀ (plat : Platform) (thread size pool : Nat) (w w' : World), plat.threadSafety = true →
    w.mutexInit.headD sprOk = (sprMutexInit os poolMutexParams).err →
    sprPoolCreate1 plat thread size 0 w = .ok (sprOk, pool) w' →
    Succeed os (mutexNeeds poolMutexParams)

/-- The first creation of a run succeeds, if the mutex seems to be made. -/
theorem boot_creates : ∃ pool w', sprPoolCreate1 machine 1 0 0 boot = .ok (sprOk, pool) w' := by
  have hrun : (match sprPoolCreate1 machine 1 0 0 boot with
    | .ok r _ => decide (r.1 = sprOk)
    | .error _ _ => false) = true := by decide +kernel
  cases h : sprPoolCreate1 machine 1 0 0 boot with
  | error e w' =>
    rw [h] at hrun
    cases hrun
  | ok r w' =>
    rw [h] at hrun
    have hr : r.1 = sprOk := of_decide_eq_true hrun
    exact ⟨r.2, w', by rw [← hr]⟩

/-- **A creation tells the truth** about its mutex exactly when `spr_mutex_init` does. -/
theorem poolMutexMade_iff (os : Pthreads) :
    PoolMutexMade os ↔ os.report ≠ sprOk ∨ Succeed os (mutexNeeds poolMutexParams) := by
  have hreports := sprMutexInit_reports os poolMutexParams
  constructor
  · intro hmade
    by_contra hlies
    obtain ⟨hzero, hfails⟩ := not_or.mp hlies
    obtain ⟨pool, w', hcreate⟩ := boot_creates
    have hseems : (sprMutexInit os poolMutexParams).err = sprOk := by
      unfold Reports at hreports
      rw [hreports, if_neg hfails]
      exact not_not.mp hzero
    exact hfails (hmade machine 1 0 pool boot w' rfl hseems.symm hcreate)
  · intro htruth plat thread size pool w w' hsafe hmutex hcreate
    have hanswer := sprPoolCreate1_mutexInit hsafe hcreate
    rw [hmutex] at hanswer
    exact (hreports.truthful_iff.mpr htruth).mp hanswer

/-- **The wrappers return `SPR_OK` exactly for success**, and a creation that returns it has
    its mutex, when `errno` is not 0 before the call, or nothing that they depend on fails. -/
theorem wrappers_iff (os : Pthreads) :
    (∀ op : Operation, ((op.run os).err = sprOk ↔ Succeed os op.needs) ↔
      os.report ≠ sprOk ∨ Succeed os op.needs) ∧
    (PoolMutexMade os ↔ os.report ≠ sprOk ∨ Succeed os (mutexNeeds poolMutexParams)) := by
  constructor
  · intro op
    exact (op.run_reports os).truthful_iff
  · exact poolMutexMade_iff os

/-- `pthread_mutex_lock` fails, and `errno` is 0: the mutex is not locked. -/
theorem wrappers_stale : ¬ ∀ (os : Pthreads) (op : Operation),
    (op.run os).err = sprOk ↔ Succeed os op.needs := by
  intro hall
  have hlock := (hall ⟨fun _ => 22, 0⟩ .mutexLock).mp rfl
  exact absurd (hlock .mutexLock List.mem_cons_self) (by decide)

end Spr.Threads
