import Spr.Errors.Codes
import Spr.Framework.Chain
import Spr.Framework.Words

/-! # Memory pools

    `src/lib/memory/spr_pool.c` on a memory of 64-bit words: memnodes, pool
    headers and cleanup records are words at fixed offsets, exactly where the
    structures of the source have them on an LP64 machine.

    * `World`: the memory, the system allocator, and a log of what happened.
    * `Act`: a call, which returns or stops (`Stop`).
    * The functions of the source, under their names.

    The system allocator, `spr_mutex_init` and the cleanup handlers are not
    part of the file: the first two answer from a queue, the last are opaque
    but for `spr_free`. -/

namespace Spr.MemPool

open Spr.Words

/-! ## Section 1: Constants and layout -/

/-- What the build and the machine fix. -/
structure Platform where
  /-- `SPR_PAGE_SIZE`, what `sysconf` answers. -/
  pageSize     : Nat
  /-- `sizeof(spr_mutex_t)` -/
  sizeofMutex  : Nat
  /-- `SPR_POOL_THREAD_SAFETY` -/
  threadSafety : Bool
  /-- The address of the function `spr_free`. -/
  sprFree      : Nat
  page_pos     : 0 < pageSize
  page_dvd     : 4096 ∣ pageSize
  page_lt      : pageSize < 2 ^ 63
  mutex_le     : sizeofMutex ≤ 1024

/-- The `errno` of a refused allocation. -/
def enomem : Int := 12

/-- `SPR_ALIGN_SIZE`: `sizeof(uintptr_t)`. -/
def sprAlignSize : Nat := 8

/-- `SPR_MIN_ORDER` -/
def sprMinOrder : Nat := 1

/-- `SPR_MIN_ALLOC` -/
def sprMinAlloc : Nat := sprAlignSize <<< sprMinOrder

/-- `SPR_MAX_POOL_SLOT` -/
def sprMaxPoolSlot : Nat := 20

/-- `spr_align(p, b)`: `((p) + ((b) - 1)) & ~((b) - 1)`. -/
def sprAlign (p b : Nat) : Nat := add p (b - 1) &&& (wordMod - 1 - (b - 1))

/-- `spr_align_default(p)` -/
def sprAlignDefault (p : Nat) : Nat := sprAlign p sprAlignSize

/-- `sizeof(spr_memnode_t)` -/
def sizeofMemnode : Nat := 48

/-- `sizeof(spr_cleanup_node_t)` -/
def sizeofCleanupNode : Nat := 24

/-- `sizeof(spr_pool_t)`: twenty slots and five pointers; the mutex and the owner
    only with `SPR_POOL_THREAD_SAFETY`. -/
def sizeofPool (plat : Platform) : Nat := if plat.threadSafety then 216 else 200

/-- `SPR_SIZEOF_MEMNODE_T_ALIGN` -/
def sizeofMemnodeAlign : Nat := sprAlignDefault sizeofMemnode

/-- `SPR_SIZEOF_MEMPOOL_T_ALIGN` -/
def sizeofPoolAlign (plat : Platform) : Nat := sprAlignDefault (sizeofPool plat)

/-- `SPR_SIZEOF_MUTEX_T_ALIGN` -/
def sizeofMutexAlign (plat : Platform) : Nat := sprAlignDefault plat.sizeofMutex

section Fields

-- `spr_memnode_t`
@[simp] abbrev nodeNext (node : Nat) : Nat := node
@[simp] abbrev nodeBegin (node : Nat) : Nat := node + 8
@[simp] abbrev nodeFirstAvail (node : Nat) : Nat := node + 16
@[simp] abbrev nodeSize (node : Nat) : Nat := node + 24
@[simp] abbrev nodeSizeAvail (node : Nat) : Nat := node + 32
@[simp] abbrev nodeDeallocSize (node : Nat) : Nat := node + 40

-- `spr_cleanup_node_t`
@[simp] abbrev recordNext (record : Nat) : Nat := record
@[simp] abbrev recordData (record : Nat) : Nat := record + 8
@[simp] abbrev recordHandler (record : Nat) : Nat := record + 16

-- `spr_pool_t`; `nodes[20]`, one past the array, is `parent`
@[simp] abbrev poolNodes (pool i : Nat) : Nat := pool + 8 * i
@[simp] abbrev poolParent (pool : Nat) : Nat := pool + 160
@[simp] abbrev poolBrother (pool : Nat) : Nat := pool + 168
@[simp] abbrev poolChild (pool : Nat) : Nat := pool + 176
@[simp] abbrev poolCleanups (pool : Nat) : Nat := pool + 184
@[simp] abbrev poolFreeCleanups (pool : Nat) : Nat := pool + 192
@[simp] abbrev poolMutex (pool : Nat) : Nat := pool + 200
@[simp] abbrev poolOwner (pool : Nat) : Nat := pool + 208

end Fields

/-! ## Section 2: The world -/

/-- What the log records, beside the system calls: the memnodes that come, are
    registered with a pool and go, the records carved, the pools visited,
    followed to through a link, cleared and destroyed, the handlers called, the
    blocks handed out, and the reads that are watched. -/
inductive Event where
  | obtained    : Nat → Nat → Event
  | refused     : Nat → Event
  | freed       : Nat → Event
  | locked      : Nat → Nat → Event
  | unlocked    : Nat → Nat → Event
  | allocated   : Nat → Event
  | registered  : Nat → Nat → Event
  | deallocated : Nat → Event
  | record      : Nat → Nat → Event
  | called      : Nat → Nat → Event
  | visited     : Nat → Event
  | followed    : Nat → Event
  | reset       : Nat → Event
  | cleared     : Nat → Event
  | destroyed   : Nat → Event
  | handed      : Nat → Nat → Nat → Event
  | read        : Nat → Bool → Event
  deriving DecidableEq, Repr

/-- The state a call works on. -/
structure World where
  mem       : Mem
  /-- The regions the system has given out. -/
  live      : List Span
  /-- What `malloc` or `mmap` will answer. -/
  answers   : List Nat
  /-- What `spr_mutex_init` will answer. -/
  mutexInit : List Int
  errno     : Int
  log       : List Event

/-- Why a call does not return: a write through `NULL`, or a loop that goes on
    for longer than there are addresses. -/
inductive Stop where
  | null
  | diverge
  deriving DecidableEq, Repr

/-- A call on the world. -/
abbrev Act (α : Type) : Type := EStateM Stop World α

/-- The result of a call. -/
abbrev Result (α : Type) : Type := EStateM.Result Stop World α

def stop {α : Type} (why : Stop) : Act α := fun w => .error why w

def load (a : Nat) : Act Nat := fun w => .ok (w.mem a) w

def World.store (w : World) (a v : Nat) : World := { w with mem := Function.update w.mem a v }

def store (a v : Nat) : Act Unit := fun w => .ok () (w.store a v)

def World.emit (w : World) (e : Event) : World := { w with log := w.log ++ [e] }

def emit (e : Event) : Act Unit := fun w => .ok () (w.emit e)

/-- The address is in a region that is given out. -/
def World.isLive (w : World) (a : Nat) : Bool :=
  w.live.any fun s => s.start ≤ a ∧ a < s.start + s.len

/-- A read that is watched. -/
def watch (a : Nat) : Act Nat := fun w => .ok (w.mem a) (w.emit (.read a (w.isLive a)))

/-- What a loop over the links of a structure may take at most. -/
def addressSpace : Nat := wordMod

/-- The system may grant the region: it is not `NULL`, aligned, does not wrap,
    and no byte of it is given out. -/
def Grants (live : List Span) (a size : Nat) : Prop :=
  a ≠ 0 ∧ a % sprAlignSize = 0 ∧ a + size < wordMod ∧ ∀ s ∈ live, Span.Disjoint ⟨a, size⟩ s

instance (live : List Span) (a size : Nat) : Decidable (Grants live a size) :=
  inferInstanceAs (Decidable (_ ∧ _ ∧ _ ∧ _))

/-- The region `a` has been given out. -/
def World.obtain (w : World) (a size : Nat) : World :=
  World.emit { w with answers := w.answers.tail, live := ⟨a, size⟩ :: w.live } (.obtained a size)

/-- The request has been refused. -/
def World.refuse (w : World) (size : Nat) : World :=
  World.emit { w with answers := w.answers.tail, errno := enomem } (.refused size)

/-- `malloc(size)` or `mmap`: the next answer, `NULL` unless it is a fresh region. -/
def sysAlloc (size : Nat) : Act Nat := fun w =>
  let a := w.answers.headD 0
  if Grants w.live a size then .ok a (w.obtain a size) else .ok 0 (w.refuse size)

/-- The region at `a` has been given back. -/
def World.release (w : World) (a : Nat) : World :=
  World.emit { w with live := w.live.filter fun s => s.start ≠ a } (.freed a)

/-- `free(mem)` or `munmap` -/
def sysFree (a : Nat) : Act Unit := fun w => .ok () (w.release a)

/-- `spr_mutex_init(mutex, …)` -/
def sprMutexInit : Act Int := fun w =>
  .ok (w.mutexInit.headD sprOk) { w with mutexInit := w.mutexInit.tail }

/-- `handler(data)` -/
def callHandler (plat : Platform) (handler data : Nat) : Act Unit := do
  emit (.called handler data)
  if handler = plat.sprFree then sysFree data else pure ()

/-- `spr_mutex_lock(pool->mutex)` -/
def lockPool (plat : Platform) (thread pool : Nat) : Act Unit := do
  if plat.threadSafety then emit (.locked (← load (poolMutex pool)) thread) else pure ()

/-- `spr_mutex_unlock(pool->mutex)` -/
def unlockPool (plat : Platform) (thread pool : Nat) : Act Unit := do
  if plat.threadSafety then emit (.unlocked (← load (poolMutex pool)) thread) else pure ()

/-! ### Running a call -/

section Running

variable {α β : Type} (w : World)

@[simp] theorem bind_run (x : Act α) (f : α → Act β) :
    (x >>= f) w = match x w with
      | .ok a w' => f a w'
      | .error e w' => .error e w' := by
  show EStateM.bind x f w = _
  unfold EStateM.bind
  cases x w <;> rfl

@[simp] theorem map_run (f : α → β) (x : Act α) :
    (f <$> x) w = match x w with
      | .ok a w' => .ok (f a) w'
      | .error e w' => .error e w' := by
  show EStateM.map f x w = _
  unfold EStateM.map
  cases x w <;> rfl

@[simp] theorem ite_run (c : Prop) [Decidable c] (x y : Act α) :
    (if c then x else y) w = if c then x w else y w := by split <;> rfl

@[simp] theorem pure_run (a : α) : (pure a : Act α) w = .ok a w := rfl
@[simp] theorem stop_run (why : Stop) : (stop why : Act α) w = .error why w := rfl
@[simp] theorem load_run (a : Nat) : load a w = .ok (w.mem a) w := rfl
@[simp] theorem store_run (a v : Nat) : store a v w = .ok () (w.store a v) := rfl
@[simp] theorem emit_run (e : Event) : emit e w = .ok () (w.emit e) := rfl
@[simp] theorem watch_run (a : Nat) :
    watch a w = .ok (w.mem a) (w.emit (.read a (w.isLive a))) := rfl
@[simp] theorem sysFree_run (a : Nat) : sysFree a w = .ok () (w.release a) := rfl
@[simp] theorem get_run : (get : Act World) w = .ok w w := rfl
@[simp] theorem modify_run (f : World → World) : (modify f : Act Unit) w = .ok () (f w) := rfl

theorem load_bind (a : Nat) (f : Nat → Act β) : (load a >>= f) w = f (w.mem a) w := rfl
theorem emit_bind (e : Event) (f : Unit → Act β) : (emit e >>= f) w = f () (w.emit e) := rfl

@[simp] theorem store_mem (a v : Nat) : (w.store a v).mem = Function.update w.mem a v := rfl
@[simp] theorem store_live (a v : Nat) : (w.store a v).live = w.live := rfl
@[simp] theorem store_log (a v : Nat) : (w.store a v).log = w.log := rfl

@[simp] theorem emit_mem (e : Event) : (w.emit e).mem = w.mem := rfl
@[simp] theorem emit_live (e : Event) : (w.emit e).live = w.live := rfl
@[simp] theorem emit_log (e : Event) : (w.emit e).log = w.log ++ [e] := rfl

@[simp] theorem obtain_mem (a size : Nat) : (w.obtain a size).mem = w.mem := rfl
@[simp] theorem obtain_live (a size : Nat) : (w.obtain a size).live = ⟨a, size⟩ :: w.live := rfl
@[simp] theorem obtain_log (a size : Nat) :
    (w.obtain a size).log = w.log ++ [.obtained a size] := rfl

@[simp] theorem refuse_mem (size : Nat) : (w.refuse size).mem = w.mem := rfl
@[simp] theorem refuse_live (size : Nat) : (w.refuse size).live = w.live := rfl
@[simp] theorem refuse_log (size : Nat) : (w.refuse size).log = w.log ++ [.refused size] := rfl

@[simp] theorem release_mem (a : Nat) : (w.release a).mem = w.mem := rfl
@[simp] theorem release_live (a : Nat) :
    (w.release a).live = w.live.filter fun s => s.start ≠ a := rfl
@[simp] theorem release_log (a : Nat) : (w.release a).log = w.log ++ [.freed a] := rfl

end Running

/-- A call that returns has run its first part, and then the rest. -/
theorem bind_ok {α β : Type} {x : Act α} {f : α → Act β} {b : β} {w w' : World}
    (h : (x >>= f) w = .ok b w') : ∃ a w₁, x w = .ok a w₁ ∧ f a w₁ = .ok b w' := by
  rw [bind_run] at h
  cases hx : x w with
  | ok a w₁ =>
    rw [hx] at h
    exact ⟨a, w₁, rfl, h⟩
  | error e w₁ =>
    rw [hx] at h
    cases h

/-- The system refuses, or it grants a fresh region. -/
theorem sysAlloc_cases (size : Nat) (w : World) :
    sysAlloc size w = .ok 0 (w.refuse size) ∨
    ∃ a, Grants w.live a size ∧ sysAlloc size w = .ok a (w.obtain a size) := by
  by_cases h : Grants w.live (w.answers.headD 0) size
  · exact Or.inr ⟨_, h, if_pos h⟩
  · exact Or.inl (if_neg h)

/-! ## Section 3: Sizes and memnodes -/

/-- `spr_align_allocation(size)` -/
def sprAlignAllocation (size : Nat) : Nat :=
  let alignSize := sprAlignDefault size
  if alignSize < size then 0
  else if alignSize < sprMinAlloc then sprMinAlloc
  else alignSize

/-- `spr_get_npages(size)` -/
def sprGetNpages (plat : Platform) (size : Nat) : Nat :=
  let totalSize := add size sizeofMemnodeAlign
  if totalSize < plat.pageSize then 1 else totalSize / plat.pageSize + 1

/-- `spr_memnode_allocate(size)` -/
def sprMemnodeAllocate (size : Nat) : Act Nat := do
  let mem ← sysAlloc size
  if mem = 0 then pure 0
  else do
    let node := mem
    store (nodeNext node) 0
    store (nodeBegin node) (add mem sizeofMemnodeAlign)
    store (nodeFirstAvail node) (← load (nodeBegin node))
    store (nodeSize node) (sub size sizeofMemnodeAlign)
    store (nodeSizeAvail node) (← load (nodeSize node))
    store (nodeDeallocSize node) size
    emit (.allocated node)
    pure node

/-- `spr_memnode_deallocate(node)` -/
def sprMemnodeDeallocate (node : Nat) : Act Unit := do
  emit (.deallocated node)
  sysFree node

/-! ## Section 4: `spr_pool_create1` -/

/-- `spr_pool_add_child(parent, new_child)` -/
def sprPoolAddChild (parent newChild : Nat) : Act Unit := do
  store (poolParent newChild) parent
  let temp ← load (poolChild parent)
  if temp ≠ 0 then do
    store (poolChild parent) newChild
    store (poolBrother newChild) temp
  else do
    store (poolChild parent) newChild
    store (poolBrother newChild) 0

/-- The mutex of a new pool: its parent's, or one of its own behind the header;
    `spr_mutex_init` may fail. -/
def chooseMutex (plat : Platform) (node parent : Nat) : Act (Int × Nat) := do
  if parent ≠ 0 then do
    let mutex ← load (poolMutex parent)
    pure (sprOk, mutex)
  else do
    let mutex ← load (nodeBegin node)
    store (nodeBegin node) (add (← load (nodeBegin node)) (sizeofMutexAlign plat))
    store (nodeSize node) (sub (← load (nodeSize node)) (sizeofMutexAlign plat))
    let err ← sprMutexInit
    pure (err, mutex)

/-- The mutex and the owner of a new pool, with `SPR_POOL_THREAD_SAFETY`. -/
def reserveMutex (plat : Platform) (thread node pool parent : Nat) : Act Int := do
  if plat.threadSafety then do
    let (err, mutex) ← chooseMutex plat node parent
    if err ≠ sprOk then pure err
    else do
      store (poolMutex pool) mutex
      store (poolOwner pool) thread
      pure sprOk
  else pure sprOk

/-- `spr_pool_create1(newpool, size, parent)`; the second result is `*newpool`. -/
def sprPoolCreate1 (plat : Platform) (thread size parent : Nat) : Act (Int × Nat) := do
  let alignSize := sprAlignAllocation size
  if alignSize = 0 then pure (sprFailed, 0)
  else do
    let alignSize := add alignSize (sizeofPoolAlign plat)
    let npages := sprGetNpages plat alignSize
    let index := npages - 1
    if sprMaxPoolSlot < index then pure (sprFailed, 0)
    else do
      let node ← sprMemnodeAllocate (mul npages plat.pageSize)
      if node = 0 then do
        let w ← get
        pure (w.errno, 0)
      else do
        let pool ← load (nodeBegin node)
        modify fun w => { w with mem := zeroed w.mem pool (sizeofPool plat) }
        store (nodeBegin node) (add (← load (nodeBegin node)) (sizeofPoolAlign plat))
        store (nodeSize node) (sub (← load (nodeSize node)) (sizeofPoolAlign plat))
        let err ← reserveMutex plat thread node pool parent
        if err ≠ sprOk then do
          sprMemnodeDeallocate node
          pure (err, 0)
        else do
          store (nodeFirstAvail node) (← load (nodeBegin node))
          store (nodeSizeAvail node) (← load (nodeSize node))
          store (poolNodes pool index) node
          store (nodeNext node) 0
          emit (.registered pool node)
          if parent ≠ 0 then sprPoolAddChild parent pool else pure ()
          pure (sprOk, pool)

/-! ## Section 5: `spr_palloc` -/

/-- The inner loop of the search: the first memnode from `node` on with room for
    `alignSize`, `NULL` when there is none, nothing when the loop does not end. -/
def searchChain (mem : Mem) (alignSize : Nat) : Nat → Nat → Option Nat
  | 0, _ => none
  | fuel + 1, node =>
      if node = 0 then some 0
      else if alignSize ≤ mem (nodeSizeAvail node) then some node
      else searchChain mem alignSize fuel (mem (nodeNext node))

/-- The search over the slots `i`, `i + 1`, … (`n` of them). -/
def searchSlots (mem : Mem) (pool alignSize : Nat) : Nat → Nat → Option Nat
  | _, 0 => some 0
  | i, n + 1 =>
      match searchChain mem alignSize addressSpace (mem (poolNodes pool i)) with
      | none => none
      | some node =>
          if node = 0 then searchSlots mem pool alignSize (i + 1) n else some node

/-- The block is cut off the front of what the memnode has left. -/
def carve (node alignSize : Nat) : Act Nat := do
  store (nodeSizeAvail node) (sub (← load (nodeSizeAvail node)) alignSize)
  let mem ← load (nodeFirstAvail node)
  store (nodeFirstAvail node) (add (← load (nodeFirstAvail node)) alignSize)
  pure mem

/-- A new memnode, registered in its slot, or `NULL`. -/
def newMemnode (plat : Platform) (pool npages index : Nat) : Act Nat := do
  let node ← sprMemnodeAllocate (mul npages plat.pageSize)
  if node = 0 then pure 0
  else do
    let temp ← load (poolNodes pool index)
    store (poolNodes pool index) node
    store (nodeNext node) temp
    emit (.registered pool node)
    pure node

/-- `spr_palloc` from the lock on. -/
def pallocSlots (plat : Platform) (thread pool alignSize npages index : Nat) : Act Nat := do
  lockPool plat thread pool
  let w ← get
  match searchSlots w.mem pool alignSize index (sprMaxPoolSlot - index) with
  | none => stop .diverge
  | some found => do
      let node ← if found ≠ 0 then pure found else newMemnode plat pool npages index
      if node = 0 then do
        unlockPool plat thread pool
        pure 0
      else do
        let mem ← carve node alignSize
        unlockPool plat thread pool
        pure mem

/-- `spr_palloc(pool, size)`, given `spr_pool_cleanup_add`. -/
def sprPallocWith (plat : Platform) (cleanupAdd : Nat → Nat → Nat → Act Unit)
    (thread pool size : Nat) : Act Nat := do
  let alignSize := sprAlignAllocation size
  if alignSize = 0 then do
    unlockPool plat thread pool
    pure 0
  else do
    let npages := sprGetNpages plat alignSize
    let index := npages - 1
    if sprMaxPoolSlot < index then do
      let mem ← sysAlloc alignSize
      if mem ≠ 0 then cleanupAdd pool mem plat.sprFree else pure ()
      unlockPool plat thread pool
      pure mem
    else pallocSlots plat thread pool alignSize npages index

/-- The record is filled in, and linked in front of the cleanups. -/
def linkRecord (pool node data handler : Nat) : Act Unit := do
  store (recordData node) data
  store (recordHandler node) handler
  store (recordNext node) (← load (poolCleanups pool))
  store (poolCleanups pool) node

/-- `spr_pool_cleanup_add1(pool, data, handler)`, given `spr_palloc`. -/
def sprPoolCleanupAdd1With (plat : Platform) (palloc : Nat → Nat → Act Nat)
    (thread pool data handler : Nat) : Act Unit := do
  lockPool plat thread pool
  let free ← load (poolFreeCleanups pool)
  let node ←
    if free ≠ 0 then do
      store (poolFreeCleanups pool) (← load (recordNext free))
      pure free
    else palloc pool sizeofCleanupNode
  if node = 0 then stop .null
  else do
    if free = 0 then emit (.record pool node) else pure ()
    linkRecord pool node data handler
    unlockPool plat thread pool

/-- The two functions call each other; `depth` bounds how often. -/
def pallocDepth (plat : Platform) (thread : Nat) : Nat → Nat → Nat → Act Nat
  | 0, _, _ => stop .diverge
  | depth + 1, pool, size =>
      sprPallocWith plat (sprPoolCleanupAdd1With plat (pallocDepth plat thread depth) thread)
        thread pool size

/-- `spr_palloc(pool, size)`: the request that registers an oversized block is
    itself a small one, and goes no further. -/
def sprPalloc (plat : Platform) (thread pool size : Nat) : Act Nat :=
  pallocDepth plat thread 2 pool size

/-- `spr_pcalloc(pool, size)` -/
def sprPcalloc (plat : Platform) (thread pool size : Nat) : Act Nat := do
  let mem ← sprPalloc plat thread pool size
  if mem ≠ 0 then modify fun w => { w with mem := zeroed w.mem mem size } else pure ()
  pure mem

/-! ## Section 6: Cleanups -/

/-- `spr_pool_cleanup_add1(pool, data, handler)` -/
def sprPoolCleanupAdd1 (plat : Platform) (thread pool data handler : Nat) : Act Unit :=
  sprPoolCleanupAdd1With plat (sprPalloc plat thread) thread pool data handler

/-- The search of `run1` and `remove1`: the record before the first match, and
    the match, `NULL` when there is none. -/
def findRecord (mem : Mem) (data handler : Nat) : Nat → Nat → Nat → Option (Nat × Nat)
  | 0, _, _ => none
  | fuel + 1, prev, node =>
      if node = 0 then some (prev, 0)
      else if mem (recordData node) = data ∧ mem (recordHandler node) = handler then
        some (prev, node)
      else findRecord mem data handler fuel node (mem (recordNext node))

/-- The record found is taken off the list. -/
def unlinkRecord (pool prev node : Nat) : Act Unit := do
  if (← load (poolCleanups pool)) = node then
    store (poolCleanups pool) (← load (recordNext node))
  else if prev = 0 then stop .null
  else store (recordNext prev) (← load (recordNext node))

/-- `/* Reserve node */` -/
def reserveRecord (rd : Nat → Act Nat) (pool node : Nat) : Act Unit := do
  store (recordNext node) (← rd (poolFreeCleanups pool))
  store (poolFreeCleanups pool) node

/-- What `run1` and `remove1` do under the mutex, from the head they have read:
    `found` is what is done with the match before it is taken. -/
def cleanupBody (plat : Platform) (found : Nat → Act Unit) (thread pool data handler head : Nat) :
    Act Unit := do
  lockPool plat thread pool
  let w ← get
  match findRecord w.mem data handler addressSpace 0 head with
  | none => stop .diverge
  | some (prev, node) =>
      -- a record that is not found returns at once
      if node = 0 then pure ()
      else do
        found node
        unlinkRecord pool prev node
        reserveRecord load pool node
        unlockPool plat thread pool

/-- `node->handler(node->data)` -/
def runRecord (plat : Platform) (node : Nat) : Act Unit := do
  callHandler plat (← load (recordHandler node)) (← load (recordData node))

/-- `spr_pool_cleanup_run1(pool, data, handler)` -/
def sprPoolCleanupRun1 (plat : Platform) (thread pool data handler : Nat) : Act Unit := do
  let head ← load (poolCleanups pool)
  cleanupBody plat (runRecord plat) thread pool data handler head

/-- `spr_pool_cleanup_remove1(pool, data, handler)` -/
def sprPoolCleanupRemove1 (plat : Platform) (thread pool data handler : Nat) : Act Unit := do
  let head ← load (poolCleanups pool)
  cleanupBody plat (fun _ => pure ()) thread pool data handler head

/-- The loop of `spr_pool_cleanup_run_all`. -/
def runAllLoop (plat : Platform) (rd : Nat → Act Nat) (pool : Nat) : Nat → Nat → Act Unit
  | 0, _ => stop .diverge
  | fuel + 1, temp1 => do
      if temp1 = 0 then pure ()
      else do
        let temp2 := temp1
        let temp1 ← load (recordNext temp1)
        runRecord plat temp2
        reserveRecord rd pool temp2
        runAllLoop plat rd pool fuel temp1

/-- `spr_pool_cleanup_run_all(pool)` -/
def sprPoolCleanupRunAll (plat : Platform) (rd : Nat → Act Nat) (pool : Nat) : Act Unit := do
  runAllLoop plat rd pool addressSpace (← rd (poolCleanups pool))
  store (poolCleanups pool) 0

/-! ## Section 7: Sizes of a pool -/

/-- The loop over the memnodes of a slot in `spr_pool_get_size` and the like. -/
def sumChain (mem : Mem) (amount : Nat → Nat) : Nat → Nat → Nat → Option Nat
  | 0, _, _ => none
  | fuel + 1, size, node =>
      if node = 0 then some size
      else sumChain mem amount fuel (add size (amount node)) (mem (nodeNext node))

/-- The sum over the slots `i`, `i + 1`, … (`n` of them), nothing when a loop does
    not end. -/
def sumSlots (mem : Mem) (pool : Nat) (amount : Nat → Nat → Nat) : Nat → Nat → Nat → Option Nat
  | _, 0, size => some size
  | i, n + 1, size =>
      match sumChain mem (amount i) addressSpace size (mem (poolNodes pool i)) with
      | none => none
      | some size => sumSlots mem pool amount (i + 1) n size

/-- `spr_pool_get_size(pool)` -/
def sprPoolGetSize (mem : Mem) (pool : Nat) : Option Nat :=
  sumSlots mem pool (fun _ node => mem (nodeSize node)) 0 sprMaxPoolSlot 0

/-- `spr_pool_get_free_size(pool)` -/
def sprPoolGetFreeSize (mem : Mem) (pool : Nat) : Option Nat :=
  sumSlots mem pool (fun _ node => mem (nodeSizeAvail node)) 0 sprMaxPoolSlot 0

/-- `spr_pool_get_total_size(pool)` -/
def sprPoolGetTotalSize (plat : Platform) (mem : Mem) (pool : Nat) : Option Nat :=
  sumSlots mem pool (fun i _ => mul plat.pageSize (i + 1)) 0 sprMaxPoolSlot 0

/-! ## Section 8: Clear and destroy -/

/-- The loop over the children: the brother is read before the visit. -/
def visitBrothers (rd : Nat → Act Nat) (visit : Nat → Act Unit) : Nat → Nat → Act Unit
  | 0, _ => stop .diverge
  | fuel + 1, temp1 => do
      if temp1 = 0 then pure ()
      else do
        let temp2 := temp1
        emit (.followed temp2)
        let temp1 ← rd (poolBrother temp1)
        visit temp2
        visitBrothers rd visit fuel temp1

/-- A loop over the memnodes of a slot: the link is read by `step`. -/
def nodeLoop (step : Nat → Act Nat) : Nat → Nat → Act Unit
  | 0, _ => stop .diverge
  | fuel + 1, node => do
      if node = 0 then pure ()
      else do
        let next ← step node
        nodeLoop step fuel next

/-- The loop over the slots `i`, `i + 1`, … (`n` of them). -/
def slotLoop (rd : Nat → Act Nat) (step : Nat → Act Nat) (pool : Nat) : Nat → Nat → Act Unit
  | _, 0 => pure ()
  | i, n + 1 => do
      nodeLoop step addressSpace (← rd (poolNodes pool i))
      slotLoop rd step pool (i + 1) n

/-- `node->first_avail = node->begin; node->size_avail = node->size;` -/
def resetNode (node : Nat) : Act Nat := do
  emit (.reset node)
  store (nodeFirstAvail node) (← load (nodeBegin node))
  store (nodeSizeAvail node) (← load (nodeSize node))
  load (nodeNext node)

/-- `temp = node; node = node->next; spr_memnode_deallocate(temp);` -/
def deallocateNode (rd : Nat → Act Nat) (node : Nat) : Act Nat := do
  let next ← rd (nodeNext node)
  sprMemnodeDeallocate node
  pure next

/-- `!spr_thread_equal(pool->owner, spr_thread_current_handle())` -/
def notOwner (plat : Platform) (rd : Nat → Act Nat) (thread pool : Nat) : Act Bool := do
  if plat.threadSafety then pure ((← rd (poolOwner pool)) ≠ thread) else pure false

/-- `spr_pool_clear(pool)`; `depth` bounds the depth of the tree. -/
def clearDepth (plat : Platform) (thread : Nat) : Nat → Nat → Act Unit
  | 0, _ => stop .diverge
  | depth + 1, pool => do
      emit (.visited pool)
      if ← notOwner plat load thread pool then pure ()
      else do
        lockPool plat thread pool
        sprPoolCleanupRunAll plat load pool
        let child ← load (poolChild pool)
        if child ≠ 0 then visitBrothers load (clearDepth plat thread depth) addressSpace child
        else pure ()
        slotLoop load resetNode pool 0 sprMaxPoolSlot
        emit (.cleared pool)
        unlockPool plat thread pool

/-- `spr_pool_destroy(pool)`; `depth` bounds the depth of the tree, and `rd` reads
    the fields of pools and memnodes. -/
def destroyDepth (plat : Platform) (rd : Nat → Act Nat) (thread : Nat) : Nat → Nat → Act Unit
  | 0, _ => stop .diverge
  | depth + 1, pool => do
      emit (.visited pool)
      if ← notOwner plat rd thread pool then pure ()
      else do
        sprPoolCleanupRunAll plat rd pool
        let child ← rd (poolChild pool)
        if child ≠ 0 then visitBrothers rd (destroyDepth plat rd thread depth) addressSpace child
        else pure ()
        slotLoop rd (deallocateNode rd) pool 0 sprMaxPoolSlot
        emit (.destroyed pool)

/-- `spr_pool_clear(pool)` -/
def sprPoolClear (plat : Platform) (thread pool : Nat) : Act Unit :=
  clearDepth plat thread addressSpace pool

/-- `spr_pool_destroy(pool)`, with its reads of pools and memnodes done by `rd`. -/
def sprPoolDestroyWith (plat : Platform) (rd : Nat → Act Nat) (thread pool : Nat) : Act Unit :=
  destroyDepth plat rd thread addressSpace pool

/-- `spr_pool_destroy(pool)` -/
def sprPoolDestroy (plat : Platform) (thread pool : Nat) : Act Unit :=
  sprPoolDestroyWith plat load thread pool

end Spr.MemPool
