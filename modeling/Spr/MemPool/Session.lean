import Spr.MemPool.Calls

/-! # Runs

    Callers create pools, link them, allocate, register handlers, clear and
    destroy, in any order and from any thread.

    * `Session`, `Op`, `Session.exec`: the world and the family of pools, the
      calls, and what they do.
    * `Session.Legal`: the calls are made on pools of the family.
    * `Session.Clean`: the calls keep clear of the records that are kept.
    * `Session.AtRoots`: links are made and cut at roots only.
    * `Reachable`: the states of the runs whose steps meet a condition. -/

namespace Spr.MemPool

open Spr.Words Spr.Chains Spr.Forests

/-! ## Section 1: Calls of a run -/

/-- A pool as its callers know it. -/
structure Member where
  addr  : Nat
  owner : Nat
  deriving DecidableEq, Repr

/-- The state of a run: the world, and which pools were created under which. -/
structure Session where
  world  : World
  family : Forest Member

/-- A call, or a store of a caller to its own memory. -/
inductive Op where
  | create (thread size parent : Nat)
  | addChild (parent child : Nat)
  | palloc (thread pool size : Nat)
  | pcalloc (thread pool size : Nat)
  | cleanupAdd (thread pool data handler : Nat)
  | cleanupRun (thread pool data handler : Nat)
  | cleanupRemove (thread pool data handler : Nat)
  | clear (thread pool : Nat)
  | destroy (thread pool : Nat)
  | write (addr value : Nat)
  deriving DecidableEq, Repr

/-- The addresses of the pools. -/
def Session.addrs (s : Session) : List Nat := s.family.toList.map Member.addr

/-- The family with a new pool under `parent`. -/
def adopt (parent : Nat) (m : Member) (family : Forest Member) : Forest Member :=
  if parent = 0 then .node m .nil family
  else family.splice Member.addr parent fun q cs => (q, .node m .nil cs)

/-- The family with the tree of `child` under `parent`. -/
def rehome (parent child : Nat) (family : Forest Member) : Forest Member :=
  family.graft Member.addr child parent fun m q => (m, q)

/-- A block is noted, unless it is `NULL`. -/
def handOut (pool r size : Nat) (w : World) : World :=
  if r = 0 then w else w.emit (.handed pool r size)

/-- The state after a call, if the call returns. -/
def returned {α : Type} (r : Result α) (next : α → World → Session) : Option Session :=
  match r with
  | .ok a w => some (next a w)
  | .error _ _ => none

/-- What a call does. -/
def Session.exec (plat : Platform) (s : Session) : Op → Option Session
  | .create thread size parent =>
      returned (sprPoolCreate1 plat thread size parent s.world) fun r w =>
        -- the caller knows a pool only by `SPR_OK`
        ⟨w, if r.1 = sprOk then adopt parent ⟨r.2, thread⟩ s.family else s.family⟩
  | .addChild parent child =>
      returned (sprPoolAddChild parent child s.world) fun _ w => ⟨w, rehome parent child s.family⟩
  | .palloc thread pool size =>
      returned (sprPalloc plat thread pool size s.world) fun r w =>
        -- a block is held from here on, unless it is `NULL`
        ⟨handOut pool r size w, s.family⟩
  | .pcalloc thread pool size =>
      returned (sprPcalloc plat thread pool size s.world) fun r w =>
        ⟨handOut pool r size w, s.family⟩
  | .cleanupAdd thread pool data handler =>
      returned (sprPoolCleanupAdd1 plat thread pool data handler s.world) fun _ w => ⟨w, s.family⟩
  | .cleanupRun thread pool data handler =>
      returned (sprPoolCleanupRun1 plat thread pool data handler s.world) fun _ w => ⟨w, s.family⟩
  | .cleanupRemove thread pool data handler =>
      returned (sprPoolCleanupRemove1 plat thread pool data handler s.world) fun _ w =>
        ⟨w, s.family⟩
  | .clear thread pool =>
      returned (sprPoolClear plat thread pool s.world) fun _ w => ⟨w, s.family⟩
  | .destroy thread pool =>
      returned (sprPoolDestroy plat thread pool s.world) fun _ w =>
        ⟨w, s.family.remove Member.addr pool⟩
  | .write addr value => some ⟨s.world.store addr value, s.family⟩

/-- The member's pool is the thread's. -/
def Member.Owned (plat : Platform) (thread : Nat) (m : Member) : Prop :=
  plat.threadSafety = true → m.owner = thread

instance (plat : Platform) (thread : Nat) (m : Member) : Decidable (m.Owned plat thread) :=
  inferInstanceAs (Decidable (_ → _))

/-- **The calls that may be made**: on a pool that is there, to destroy by its
    owner; a pool is put under one that is not below it; a caller stores to a block
    it holds. -/
def Session.Legal (plat : Platform) (s : Session) : Op → Prop
  | .create _ _ parent => parent = 0 ∨ parent ∈ s.addrs
  | .addChild parent child => parent ∈ s.addrs ∧ child ∈ s.addrs ∧ parent ≠ child ∧
      parent ∉ (s.family.childrenAt Member.addr child).toList.map Member.addr
  | .palloc _ pool _ => pool ∈ s.addrs
  | .pcalloc _ pool _ => pool ∈ s.addrs
  | .cleanupAdd _ pool _ _ => pool ∈ s.addrs
  | .cleanupRun _ pool _ _ => pool ∈ s.addrs
  | .cleanupRemove _ pool _ _ => pool ∈ s.addrs
  | .clear _ pool => pool ∈ s.addrs
  | .destroy thread pool => ∃ m ∈ s.family.toList, m.addr = pool ∧ m.Owned plat thread
  | .write addr _ => addr % 8 = 0 ∧ ∃ b ∈ heldBlocks s.world.log, b.span.Covers addr

instance (plat : Platform) (s : Session) (op : Op) : Decidable (s.Legal plat op) := by
  unfold Session.Legal
  rcases op <;> infer_instance

/-! ## Section 2: Clean calls -/

/-- The records on the two lists of the pool, as the memory has them. -/
def listedAt (w : World) (pool : Nat) : List Nat :=
  walk w.mem 0 addressSpace (w.mem (poolCleanups pool)) ++
    walk w.mem 0 addressSpace (w.mem (poolFreeCleanups pool))

/-- What the pool has registered for `spr_free`, as the memory has it. -/
def freedAt (plat : Platform) (w : World) (pool : Nat) : List Nat :=
  ((walk w.mem 0 addressSpace (w.mem (poolCleanups pool))).filter fun r =>
    w.mem (recordHandler r) = plat.sprFree).map fun r => w.mem (recordData r)

/-- A block of `k` bytes off the memnode that the search finds would not lie over
    a record of the pool. -/
def CleanAt (w : World) (pool k index : Nat) : Prop :=
  match searchSlots w.mem pool k index (sprMaxPoolSlot - index) with
  | none => True
  | some node => node = 0 ∨ ∀ r ∈ listedAt w pool,
      Span.Disjoint ⟨w.mem (nodeFirstAvail node), k⟩ (recordSpan r)

instance (w : World) (pool k index : Nat) : Decidable (CleanAt w pool k index) := by
  unfold CleanAt
  split <;> infer_instance

/-- A record that has to be carved would not lie over another one. -/
def CleanRecord (w : World) (pool : Nat) : Prop :=
  w.mem (poolFreeCleanups pool) = 0 → CleanAt w pool sizeofCleanupNode 0

instance (w : World) (pool : Nat) : Decidable (CleanRecord w pool) :=
  inferInstanceAs (Decidable (_ → _))

/-- The request's arithmetic does not wrap. -/
def SizeFits (plat : Platform) (size : Nat) : Prop :=
  sprAlignAllocation size ≠ 0 → slotIndex plat size ≤ sprMaxPoolSlot →
    NoWrap plat (sprAlignAllocation size)

instance (plat : Platform) (size : Nat) : Decidable (SizeFits plat size) :=
  inferInstanceAs (Decidable (_ → _ → _))

/-- The request is met from memory that no record lies in. -/
def CleanAlloc (plat : Platform) (w : World) (pool size : Nat) : Prop :=
  sprAlignAllocation size ≠ 0 →
    if slotIndex plat size ≤ sprMaxPoolSlot then
      CleanAt w pool (sprAlignAllocation size) (slotIndex plat size)
    else Grants w.live (w.answers.headD 0) (sprAlignAllocation size) → CleanRecord w pool

instance (plat : Platform) (w : World) (pool size : Nat) :
    Decidable (CleanAlloc plat w pool size) := by
  unfold CleanAlloc
  infer_instance

/-- What a caller registers for `spr_free` is its own: a region given out, not a
    memnode, and not registered. -/
def OwnRegion (plat : Platform) (s : Session) (data handler : Nat) : Prop :=
  handler = plat.sprFree → (∃ r ∈ s.world.live, r.start = data) ∧
    data ∉ outstanding s.world.log ∧ ∀ pool ∈ s.addrs, data ∉ freedAt plat s.world pool

instance (plat : Platform) (s : Session) (data handler : Nat) :
    Decidable (OwnRegion plat s data handler) :=
  inferInstanceAs (Decidable (_ → _))

/-- **The calls keep clear of the records**: no size wraps, and neither a block nor
    a record is cut off memory in which a record of the pool lies. -/
def Session.Clean (plat : Platform) (s : Session) : Op → Prop
  | .create _ size _ => CreateFits plat size
  | .palloc _ pool size => SizeFits plat size ∧ CleanAlloc plat s.world pool size
  | .pcalloc _ pool size => SizeFits plat size ∧ CleanAlloc plat s.world pool size
  | .cleanupAdd _ pool data handler => CleanRecord s.world pool ∧ OwnRegion plat s data handler
  | _ => True

instance (plat : Platform) (s : Session) (op : Op) : Decidable (s.Clean plat op) := by
  unfold Session.Clean
  rcases op <;> infer_instance

/-- **Links are made and cut at roots only**: a pool that gets a parent has none,
    and a pool that is destroyed has none and is the thread's with all below it. -/
def Session.AtRoots (plat : Platform) (s : Session) : Op → Prop
  | .addChild _ child => ∃ m ∈ s.family.roots, m.addr = child
  | .destroy thread pool => (∃ m ∈ s.family.roots, m.addr = pool) ∧
      ∀ m ∈ (s.family.childrenAt Member.addr pool).toList, m.Owned plat thread
  | _ => True

instance (plat : Platform) (s : Session) (op : Op) : Decidable (s.AtRoots plat op) := by
  unfold Session.AtRoots
  rcases op <;> infer_instance

/-- The call destroys a pool. -/
def Op.Destroys : Op → Prop
  | .destroy _ _ => True
  | _ => False

instance (op : Op) : Decidable op.Destroys := by
  unfold Op.Destroys
  rcases op <;> infer_instance

/-! ## Section 3: Runs -/

/-- Before the first call: no pool, an empty log, and other regions given out. -/
structure Initial (s : Session) : Prop where
  live   : LiveOk s.world.live
  log    : s.world.log = []
  family : s.family = .nil

/-- **The states of the runs** whose calls all meet the condition. -/
inductive Reachable (plat : Platform) (ok : Session → Op → Prop) : Session → Prop where
  | start (s : Session) (h : Initial s) : Reachable plat ok s
  | step (s s' : Session) (op : Op) (h : Reachable plat ok s) (hok : ok s op)
      (hexec : s.exec plat op = some s') : Reachable plat ok s'

/-- A weaker condition admits more runs. -/
theorem Reachable.mono {plat : Platform} {ok ok' : Session → Op → Prop} {s : Session}
    (h : Reachable plat ok s) (hok : ∀ s op, ok s op → ok' s op) : Reachable plat ok' s := by
  induction h with
  | start s h => exact .start s h
  | step s s' op _ hop hexec ih => exact .step s s' op ih (hok s op hop) hexec

/-- The state after some calls, if they meet the condition and return. -/
def Session.run (plat : Platform) (ok : Session → Op → Prop) [∀ s op, Decidable (ok s op)] :
    Session → List Op → Option Session
  | s, [] => some s
  | s, op :: ops => if ok s op then (s.exec plat op).bind fun s' => s'.run plat ok ops else none

/-- A run leads to a reachable state. -/
theorem reachable_run {plat : Platform} {ok : Session → Op → Prop} [∀ s op, Decidable (ok s op)]
    {ops : List Op} : ∀ {s s' : Session}, Reachable plat ok s → s.run plat ok ops = some s' →
      Reachable plat ok s' := by
  induction ops with
  | nil =>
    intro s s' h hrun
    obtain rfl : s = s' := by simpa [Session.run] using hrun
    exact h
  | cons op ops ih =>
    intro s s' h hrun
    rw [Session.run] at hrun
    split at hrun
    · rename_i hop
      obtain ⟨s₁, hexec, hrest⟩ := Option.bind_eq_some_iff.mp hrun
      exact ih (.step s s₁ op h hop hexec) hrest
    · cases hrun

end Spr.MemPool
