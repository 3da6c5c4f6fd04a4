import Mathlib.Algebra.Order.BigOperators.Group.List
import Mathlib.Algebra.GroupWithZero.Nat
import Mathlib.Algebra.Order.Group.Nat
import Spr.MemPool.Cuts
import Spr.MemPool.FirstAlloc
import Spr.MemPool.Sizes

/-! # The accounts of a pool

    * `Session.Slotted`: the calls of runs in which every memnode goes to a slot.
    * `Keeps`, `shelf_rule`: a property of the memnodes and the cuts of a pool that
      holds in all states of such runs.
    * `Tallied`: what the memnodes of a pool add up to.
    * `Accounts`, `slots_account`: the sizes of a pool are right, registering a
      memnode changes nothing else, and clearing and destroying miss none. -/

namespace Spr.MemPool

open Spr.Words Spr.Chains Spr.Forests

/-! ## Section 1: The rule for memnodes -/

/-- **The calls of a run whose memnodes are all on slots**: they are allowed and
    keep clear of the records, links change at roots only, and no request goes to
    `nodes[SPR_MAX_POOL_SLOT]`. -/
def Session.Slotted (plat : Platform) (s : Session) (op : Op) : Prop :=
  s.Legal plat op ∧ s.Clean plat op ∧ s.AtRoots plat op ∧ op.slot plat ≠ some sprMaxPoolSlot

instance (plat : Platform) (s : Session) (op : Op) : Decidable (s.Slotted plat op) :=
  inferInstanceAs (Decidable (_ ∧ _ ∧ _ ∧ _))

/-- The call leaves no pool with cuts other than the run allows. -/
def Session.CutsTo (plat : Platform) (R : List Nat → Prop) (s : Session) (op : Op) : Prop :=
  ∀ s', s.exec plat op = some s' → ∀ a ∈ s'.addrs, R (cuts plat s'.world.log a)

/-- A property of the cuts and of the pool that all that happens to memnodes on
    slots keeps, in runs that allow the cuts `R`. -/
structure Keeps (plat : Platform) (R : List Nat → Prop) (Q : List Nat → Pool → Prop) : Prop where
  shelf : ∀ ks p p', SameShelf p p' → Q ks p → Q ks p'
  cut   : ∀ ks p q k index, Wf plat p → CutFits plat k index → index < sprMaxPoolSlot →
    R (k :: ks) → Cut plat p k index q → Q ks p → Q (k :: ks) q
  made  : ∀ thread size a q, createIndex plat size < sprMaxPoolSlot →
    Q [] (madePool plat thread size a q)
  clear : ∀ ks p, p.orphans = [] → Q ks p → Q [] p.clear

section Rule

variable {plat : Platform} {R : List Nat → Prop} {Q : List Nat → Pool → Prop} {p q : Pool}
  {k index : Nat}

/-- A piece is cut off in place. -/
theorem Cut.kept (hc : Cut plat p k index q) (hindex : index < sprMaxPoolSlot) :
    q.addr = p.addr ∧ (p.orphans = [] → q.orphans = []) := by
  cases hc with
  | fit n hfit => exact ⟨rfl, fun h => by simp [Pool.carveAt, Pool.mapNodes, h]⟩
  | fresh a hfit hnew =>
    refine ⟨addNode_addr .., fun h => ?_⟩
    simp [Pool.carveAt, Pool.mapNodes, Pool.addNode, hindex, h]

theorem madePool_orphans {thread size a : Nat} {q : Option Pool}
    (hindex : createIndex plat size < sprMaxPoolSlot) :
    (madePool plat thread size a q).orphans = [] := by
  cases q <;> exact if_pos hindex

/-- One call keeps the property of one pool. -/
theorem Keeps.fate {f : Forest Pool} {op : Op} {before after : Nat → List Nat} {p' : Pool}
    (hk : Keeps plat R Q) (hold : ∀ p ∈ f.toList, Wf plat p ∧ p.orphans = [] ∧ Q (before p.addr) p)
    (hslot : op.slot plat ≠ some sprMaxPoolSlot) (hR : R (after p'.addr))
    (hfate : Fate plat f op before after p') : p'.orphans = [] ∧ Q (after p'.addr) p' := by
  cases hfate with
  | changed p p' hp hcut =>
    obtain ⟨hwf, horphans, hq⟩ := hold p hp
    cases hcut with
    | none hshelf hcuts =>
      rw [hshelf.1, hcuts]
      exact ⟨hshelf.2.2.trans horphans, hk.shelf _ _ _ hshelf hq⟩
    | piece k index q hcut hshelf hfits hindex hcuts =>
      -- a record is carved from slot 0, and a block not from the last one
      have hlt : index < sprMaxPoolSlot := by
        rcases hindex with rfl | hindex
        · decide
        · exact Nat.lt_of_le_of_ne hfits.2.2 fun heq => hslot (heq ▸ hindex)
      obtain ⟨haddr, hkept⟩ := hcut.kept hlt
      have hsame : p'.addr = p.addr := hshelf.1.trans haddr
      rw [hsame, hcuts] at hR ⊢
      exact ⟨hshelf.2.2.trans (hkept horphans),
        hk.shelf _ _ _ hshelf (hk.cut _ _ _ _ _ hwf hfits hlt hR hcut hq)⟩
  | made thread size parent a q hop hindex hcuts =>
    have hlt : createIndex plat size < sprMaxPoolSlot :=
      Nat.lt_of_le_of_ne hindex fun heq => hslot (by rw [hop, ← heq]; rfl)
    rw [madePool_addr, hcuts]
    exact ⟨madePool_orphans hlt, hk.made _ _ _ _ hlt⟩
  | cleared p hp hcuts =>
    obtain ⟨-, horphans, hq⟩ := hold p hp
    have haddr : p.clear.addr = p.addr := rfl
    rw [haddr, hcuts]
    refine ⟨?_, hk.clear _ _ horphans hq⟩
    show p.orphans.map _ = []
    rw [horphans]
    rfl

/-- **The rule for memnodes on slots.** -/
theorem shelf_rule (hk : Keeps plat R Q) {s : Session}
    (h : Reachable plat (fun s op => s.Slotted plat op ∧ s.CutsTo plat R op) s) :
    ∃ f, Inv plat s f ∧ ∀ p ∈ f.toList, p.orphans = [] ∧ Q (cuts plat s.world.log p.addr) p := by
  refine reachable_rule (P := fun s f => ∀ p ∈ f.toList, p.orphans = [] ∧
      Q (cuts plat s.world.log p.addr) p)
    ⟨fun s op h => h.1.1, fun s f op h _ _ => h.1.2.1, fun s op h => h.1.2.2.1,
      fun s f op h _ hinv hp => hinv.shelved_iff.mpr fun p hin => (hp p hin).1⟩
    (fun s _ p hp => (List.not_mem_nil hp).elim)
    (fun s f op s' f' hinv hp hop hexec hs hinv' => ?_) h
  intro p' hp'
  have haddr : p'.addr ∈ s'.addrs := by
    rw [hinv'.addrs]
    exact List.mem_map_of_mem hp'
  exact hk.fate (fun p hp₁ => ⟨(hinv.pools.pool p hp₁).wf, hp p hp₁⟩) hop.1.2.2.2
    (hop.2 s' hexec _ haddr) (step_fate hinv hinv' hop.1.2.1 hs p' hp')

end Rule

/-! ## Section 2: What the memnodes add up to -/

/-- What has been cut off the memnode. -/
def Memnode.used (n : Memnode) : Nat := n.firstAvail - n.begin

/-- The memnodes have the sizes of their slots, and what has been cut off them is
    what the log says. -/
structure Tallied (plat : Platform) (ks : List Nat) (p : Pool) : Prop where
  dealloc : ∀ j < sprMaxPoolSlot, ∀ n ∈ p.slots j, n.deallocSize = mul plat.pageSize (j + 1)
  used    : (p.nodes.map Memnode.used).sum = ks.sum

section Tally

variable {plat : Platform} {w : World} {p q : Pool} {k index : Nat} {ks : List Nat}

theorem SameShelf.nodes (h : SameShelf p q) : q.nodes = p.nodes := by
  rw [Pool.nodes, Pool.nodes, h.2.1, h.2.2]

/-- **A piece is cut off one memnode**, of the pool or a fresh one: what is counted over
    the memnodes changes as that memnode does. -/
theorem Cut.sum_measure (h : Wf plat p) (hc : Cut plat p k index q) (f : Memnode → Nat)
    (hfresh : ∀ a size, f (freshNode a size) = 0) :
    ∃ n, n.begin ≤ n.firstAvail ∧
      (q.nodes.map f).sum + f n = (p.nodes.map f).sum + f (n.carve k) := by
  cases hc with
  | fit n hfit =>
    have hn := Pool.fromSlot_nodes (firstFit_some hfit).1
    refine ⟨n, (h.node n hn).lower, ?_⟩
    rw [Pool.carveAt, mapNodes_nodes]
    exact sum_map_update f _ h.nodup hn
  | fresh a hfit hnew =>
    -- the fresh memnode counts for nothing before the piece is cut off
    have hperm := addNode_nodes index (freshNode a ((index + 1) * plat.pageSize)) p
    have hnd := (hperm.map Memnode.addr).nodup_iff.mpr (List.nodup_cons.mpr ⟨hnew, h.nodup⟩)
    have hsum := (hperm.map f).sum_eq
    rw [List.map_cons, List.sum_cons, hfresh, Nat.zero_add] at hsum
    refine ⟨freshNode a ((index + 1) * plat.pageSize), Nat.le_refl _, ?_⟩
    rw [Pool.carveAt, mapNodes_nodes, ← hsum]
    exact sum_map_update f _ hnd (hperm.mem_iff.mpr List.mem_cons_self)

theorem Memnode.used_carve {n : Memnode} (hlower : n.begin ≤ n.firstAvail) (k : Nat) :
    (n.carve k).used = n.used + k := by
  simp only [Memnode.used, Memnode.carve]
  omega

/-- A piece is used up by one memnode. -/
theorem Cut.sum_used (h : Wf plat p) (hc : Cut plat p k index q) :
    (q.nodes.map Memnode.used).sum = (p.nodes.map Memnode.used).sum + k := by
  obtain ⟨n, hlower, hsum⟩ := hc.sum_measure h Memnode.used fun _ _ => Nat.sub_self _
  rw [Memnode.used_carve hlower] at hsum
  omega

/-- The memnodes of a slot after a piece has been cut off. -/
theorem Cut.slot (hc : Cut plat p k index q) {j : Nat} (hj : j < sprMaxPoolSlot)
    {n : Memnode} (hn : n ∈ q.slots j) : (∃ m ∈ p.slots j, n = m ∨ n = m.carve k) ∨
      j = index ∧ ∃ a, n = (freshNode a ((index + 1) * plat.pageSize)).carve k := by
  have hcarved : ∀ {l : List Memnode} {a : Nat},
      n ∈ l.map (fun n => if n.addr = a then n.carve k else n) →
        ∃ m ∈ l, n = m ∨ n = m.carve k := by
    intro l a hin
    obtain ⟨m, hm, rfl⟩ := List.mem_map.mp hin
    refine ⟨m, hm, ?_⟩
    split
    · exact Or.inr rfl
    · exact Or.inl rfl
  cases hc with
  | fit m hfit => exact Or.inl (hcarved hn)
  | fresh a hfit hnew =>
    by_cases heq : j = index
    · subst heq
      obtain ⟨m, hm, heq⟩ := List.mem_map.mp hn
      rw [addNode_slot_self hj] at hm
      rcases List.mem_cons.mp hm with rfl | hm
      · exact Or.inr ⟨rfl, a, by rw [← heq]; exact if_pos rfl⟩
      · exact Or.inl (hcarved (List.mem_map.mpr ⟨m, hm, heq⟩))
    · have hslot := addNode_slot_of_ne (n := freshNode a ((index + 1) * plat.pageSize)) (p := p)
        (fun h => heq h.1)
      have hn : n ∈ ((p.addNode index
          (freshNode a ((index + 1) * plat.pageSize))).slots j).map _ := hn
      rw [hslot] at hn
      exact Or.inl (hcarved hn)

/-- Clearing rewinds every memnode. -/
theorem clear_nodes (horphans : p.orphans = []) :
    p.clear.nodes = p.nodes.map Memnode.rewind := by
  rw [Pool.clear, Pool.rewind, mapNodes_nodes]
  refine List.map_congr_left fun n hn => if_pos ?_
  exact (mem_slotAddrs horphans).mpr (List.mem_map_of_mem hn)

theorem clear_slot_nodes (j : Nat) : ∀ n ∈ p.clear.slots j, ∃ m ∈ p.slots j, n.addr = m.addr ∧
    n.begin = m.begin ∧ n.deallocSize = m.deallocSize := by
  intro n hn
  obtain ⟨m, hm, rfl⟩ := List.mem_map.mp hn
  refine ⟨m, hm, ?_⟩
  split <;> exact ⟨rfl, rfl, rfl⟩

/-- The first memnode of a pool has the size of its slot. -/
theorem createBytes_eq (plat : Platform) (size : Nat) :
    createBytes plat size = mul plat.pageSize (createIndex plat size + 1) := by
  have hpages : 0 < createPages plat size := by
    simp only [createPages, sprGetNpages]
    split
    · exact Nat.one_pos
    · exact Nat.succ_pos _
  rw [createBytes, createIndex, Nat.sub_add_cancel hpages, mul, mul, Nat.mul_comm]

/-- The memnodes have the sizes of their slots. -/
def Sized (plat : Platform) (p : Pool) : Prop :=
  ∀ j < sprMaxPoolSlot, ∀ n ∈ p.slots j, n.deallocSize = mul plat.pageSize (j + 1)

theorem Sized.shelf (h : Sized plat p) (hshelf : SameShelf p q) : Sized plat q := by
  unfold Sized
  rw [hshelf.2.1]
  exact h

theorem Sized.cut (h : Sized plat p) (hfits : CutFits plat k index) (hc : Cut plat p k index q) :
    Sized plat q := by
  intro j hj n hn
  rcases hc.slot hj hn with ⟨m, hm, rfl | rfl⟩ | ⟨rfl, a, rfl⟩
  · exact h j hj n hm
  · exact h j hj m hm
  · show (j + 1) * plat.pageSize = _
    rw [Nat.mul_comm, mul_of_lt (by rw [Nat.mul_comm]; exact hfits.2.1)]

theorem sized_made (plat : Platform) (thread size a : Nat) (q : Option Pool) :
    Sized plat (madePool plat thread size a q) := by
  intro j hj n hn
  have hslot : (madePool plat thread size a q).slots j
      = if j = createIndex plat size then [firstNode plat size a q] else [] := by
    cases q <;> rfl
  have hnode : n = firstNode plat size a q ∧ j = createIndex plat size := by
    rw [hslot] at hn
    split at hn
    · exact ⟨List.mem_singleton.mp hn, by assumption⟩
    · cases hn
  rw [hnode.1, hnode.2]
  exact createBytes_eq plat size

theorem Sized.clear (h : Sized plat p) : Sized plat p.clear := by
  intro j hj n hn
  obtain ⟨m, hm, -, -, heq⟩ := clear_slot_nodes j n hn
  rw [heq]
  exact h j hj m hm

/-- **The tally is kept.** -/
theorem tallied_keeps (plat : Platform) (R : List Nat → Prop) : Keeps plat R (Tallied plat) where
  shelf ks p p' hshelf ht := by
    refine ⟨Sized.shelf ht.dealloc hshelf, ?_⟩
    rw [hshelf.nodes]
    exact ht.used
  cut ks p q k index hwf hfits hindex _ hcut ht := by
    refine ⟨Sized.cut ht.dealloc hfits hcut, ?_⟩
    rw [hcut.sum_used hwf, ht.used, List.sum_cons, Nat.add_comm]
  made thread size a q hindex := by
    refine ⟨sized_made plat thread size a q, ?_⟩
    rw [madePool_nodes]
    simp [Memnode.used, firstNode, homeNode]
  clear ks p horphans ht := by
    refine ⟨Sized.clear ht.dealloc, ?_⟩
    rw [clear_nodes horphans, List.map_map]
    exact List.sum_eq_zero fun x hx => by
      obtain ⟨n, -, rfl⟩ := List.mem_map.mp hx
      exact Nat.sub_self _

/-- The memnodes of a pool fit into the address space together. -/
theorem PoolAt.sum_dealloc (h : PoolAt plat w p) :
    (p.nodes.map Memnode.deallocSize).sum < wordMod := by
  have hdis : (p.nodes.map Memnode.region).Pairwise Span.Disjoint := by
    rw [List.pairwise_map]
    have hne : p.nodes.Pairwise fun n m => n.addr ≠ m.addr := List.pairwise_map.mp h.wf.nodup
    exact hne.imp_of_mem fun hn hm hne => h.regions hn hm hne
  have hbound : ∀ s ∈ p.nodes.map Memnode.region, s.start + s.len ≤ wordMod - 1 := by
    intro s hs
    obtain ⟨n, hn, rfl⟩ := List.mem_map.mp hs
    exact Nat.le_sub_one_of_lt (h.wf.node n hn).fits
  have hsum := Span.sum_len_le hdis hbound
  rw [List.map_map] at hsum
  have hpos : 0 < wordMod := by decide
  exact Nat.lt_of_le_of_lt hsum (by omega)

/-- All memnodes are in the order of the search. -/
theorem fromSlot_zero (horphans : p.orphans = []) : p.fromSlot 0 = p.nodes := by
  rw [Pool.nodes_eq, horphans, List.append_nil]

/-- **`spr_pool_get_total_size`** is what the system has given. -/
theorem Tallied.total (ht : Tallied plat ks p) (h : PoolAt plat w p) (horphans : p.orphans = []) :
    sprPoolGetTotalSize plat w.mem p.addr = some (p.nodes.map Memnode.deallocSize).sum := by
  have hslots : ((List.range' 0 sprMaxPoolSlot).flatMap fun j =>
      (p.slots j).map fun _ => mul plat.pageSize (j + 1))
        = p.nodes.map Memnode.deallocSize := by
    rw [← fromSlot_zero horphans, Pool.fromSlot, List.map_flatMap]
    refine List.flatMap_congr fun j hj => List.map_congr_left fun n hn => ?_
    rw [List.mem_range'_1] at hj
    exact (ht.dealloc j (by omega) n hn).symm
  rw [getTotalSize_eq h, hslots, wordSum_eq (by rw [Nat.zero_add]; exact h.sum_dealloc),
    Nat.zero_add]

/-- **What is not free** has been cut off. -/
theorem Tallied.sizes (ht : Tallied plat ks p) (h : PoolAt plat w p) (horphans : p.orphans = []) :
    ∃ size free, sprPoolGetSize w.mem p.addr = some size ∧
      sprPoolGetFreeSize w.mem p.addr = some free ∧ size = free + ks.sum := by
  have hsplit : (p.nodes.map Memnode.size).sum
      = (p.nodes.map Memnode.sizeAvail).sum + (p.nodes.map Memnode.used).sum := by
    rw [← List.sum_map_add]
    refine congrArg List.sum (List.map_congr_left fun n hn => ?_)
    have := (h.wf.node n hn).total
    have := (h.wf.node n hn).lower
    simp only [Memnode.used]
    omega
  have hle : (p.nodes.map Memnode.size).sum ≤ (p.nodes.map Memnode.deallocSize).sum :=
    List.sum_le_sum fun n hn => by
      have := (h.wf.node n hn).upper
      have := (h.wf.node n hn).header
      omega
  have hlt := h.sum_dealloc
  rw [ht.used] at hsplit
  refine ⟨_, _, getSize_eq h, getFreeSize_eq h, ?_⟩
  rw [fromSlot_zero horphans, wordSum_eq (by omega), wordSum_eq (by omega)]
  omega

end Tally

/-! ## Section 3: The header -/

/-- The fields of a header that say where the pool belongs. -/
def headerFields (plat : Platform) (pool : Nat) : List Nat :=
  [poolParent pool, poolBrother pool, poolChild pool] ++
    if plat.threadSafety then [poolMutex pool, poolOwner pool] else []

section Header

variable {plat : Platform} {thread : Nat} {w w' : World} {p p' : Pool}

/-- The pools have the same links, mutex and owner. -/
structure SameHeader (p p' : Pool) : Prop where
  addr    : p'.addr = p.addr
  parent  : p'.parent = p.parent
  brother : p'.brother = p.brother
  child   : p'.child = p.child
  mutex   : p'.mutex = p.mutex
  owner   : p'.owner = p.owner

theorem SameHeader.refl (p : Pool) : SameHeader p p := ⟨rfl, rfl, rfl, rfl, rfl, rfl⟩

/-- Pools with the same header have the same words. -/
theorem SameHeader.words (hs : SameHeader p p') (h : PoolAt plat w p) (h' : PoolAt plat w' p') :
    ∀ a ∈ headerFields plat p.addr, w'.mem a = w.mem a := by
  obtain ⟨haddr, hparent, hbrother, hchild, hmutex, howner⟩ := hs
  have hrep := h.rep.header
  have hrep' := h'.rep.header
  intro a ha
  rw [headerFields, List.mem_append] at ha
  rcases ha with ha | ha
  · simp only [List.mem_cons, List.not_mem_nil, or_false] at ha
    rcases ha with rfl | rfl | rfl
    · rw [poolParent, hrep.parent, ← hparent, ← hrep'.parent, haddr]
    · rw [poolBrother, hrep.brother, ← hbrother, ← hrep'.brother, haddr]
    · rw [poolChild, hrep.child, ← hchild, ← hrep'.child, haddr]
  · split at ha
    · rename_i hsafe
      simp only [List.mem_cons, List.not_mem_nil, or_false] at ha
      rcases ha with rfl | rfl
      · rw [poolMutex, hrep.mutex hsafe, ← hmutex, ← hrep'.mutex hsafe, haddr]
      · rw [poolOwner, hrep.owner hsafe, ← howner, ← hrep'.owner hsafe, haddr]
    · cases ha

/-- A memnode on a slot changes no field of the header. -/
theorem carving_header {k size index r : Nat} (hindex : index < sprMaxPoolSlot)
    (hc : Carving plat thread w p k size index r p' w') :
    SameHeader p p' ∧ p'.cleanups = p.cleanups ∧ p'.frees = p.frees := by
  cases hc with
  | refused => exact ⟨SameHeader.refl p, rfl, rfl⟩
  | fit => exact ⟨⟨rfl, rfl, rfl, rfl, rfl, rfl⟩, rfl, rfl⟩
  | fresh _ a =>
    have hadd : p.addNode index (freshNode a size) = { p with
        slots := Function.update p.slots index (freshNode a size :: p.slots index) } :=
      if_pos hindex
    rw [hadd]
    exact ⟨⟨rfl, rfl, rfl, rfl, rfl, rfl⟩, rfl, rfl⟩

theorem adding_header {data handler : Nat} (ha : Adding plat thread w p data handler p' w') :
    SameHeader p p' := by
  cases ha with
  | recycled => exact ⟨rfl, rfl, rfl, rfl, rfl, rfl⟩
  | carved _ w₁ a p₁ _ _ hcarve =>
    obtain ⟨⟨haddr, hparent, hbrother, hchild, hmutex, howner⟩, -, -⟩ :=
      carving_header (by decide) hcarve
    exact ⟨haddr, hparent, hbrother, hchild, hmutex, howner⟩

/-- **An allocation changes the slots only**, and an oversized one the cleanups. -/
theorem allocating_header {size r : Nat} (hslot : slotIndex plat size ≠ sprMaxPoolSlot)
    (ha : Allocating plat thread w p size r p' w') : SameHeader p p' ∧
      (slotIndex plat size ≤ sprMaxPoolSlot → p'.cleanups = p.cleanups ∧ p'.frees = p.frees) := by
  cases ha with
  | rejected => exact ⟨SameHeader.refl p, fun _ => ⟨rfl, rfl⟩⟩
  | refused => exact ⟨SameHeader.refl p, fun _ => ⟨rfl, rfl⟩⟩
  | slots _ _ _ _ hindex hcarve =>
    obtain ⟨hsame, hlists⟩ := carving_header (Nat.lt_of_le_of_ne hindex hslot) hcarve
    exact ⟨hsame, fun _ => hlists⟩
  | oversize _ _ _ _ hindex _ hadd =>
    exact ⟨adding_header hadd, fun hle => absurd hle (Nat.not_le.mpr hindex)⟩

/-- Pools with the same records start their lists at the same words. -/
theorem lists_words (haddr : p'.addr = p.addr)
    (hlists : p'.cleanups = p.cleanups ∧ p'.frees = p.frees) (h : PoolAt plat w p)
    (h' : PoolAt plat w' p') : w'.mem (poolCleanups p.addr) = w.mem (poolCleanups p.addr) ∧
      w'.mem (poolFreeCleanups p.addr) = w.mem (poolFreeCleanups p.addr) := by
  have hcleanups := chain_start h'.rep.records.cleanups
  have hfrees := chain_start h'.rep.records.frees
  rw [haddr, hlists.1, ← chain_start h.rep.records.cleanups] at hcleanups
  rw [haddr, hlists.2, ← chain_start h.rep.records.frees] at hfrees
  exact ⟨hcleanups, hfrees⟩

end Header

/-! ## Section 4: The accounts -/

/-- The memnodes registered with the pool and not deallocated. -/
def nodesOf (log : List Event) (pool : Nat) : List Nat :=
  (((heldNodes log).filter fun m => m.1 = pool).map Prod.snd).dedup

/-- An allocation leaves the headers as they were but for the slots, and for the
    cleanups where it registers an oversized block. -/
def AllocFrames (plat : Platform) (s s' : Session) (size : Nat) : Prop :=
  ∀ q ∈ s.addrs, (∀ a ∈ headerFields plat q, s'.world.mem a = s.world.mem a) ∧
    (slotIndex plat size ≤ sprMaxPoolSlot →
      s'.world.mem (poolCleanups q) = s.world.mem (poolCleanups q) ∧
      s'.world.mem (poolFreeCleanups q) = s.world.mem (poolFreeCleanups q))

/-- A creation leaves the headers of other pools as they were but for the parent's
    child, and the new header is empty but for its place in the family, its owner and its
    mutex: the parent's, or the memory behind the header. -/
def CreateFrames (plat : Platform) (s s' : Session) (thread parent : Nat) : Prop :=
  (∀ q ∈ s.addrs, ∀ a ∈ headerFields plat q, a ≠ poolChild parent →
    s'.world.mem a = s.world.mem a) ∧
  ∀ q ∈ s'.addrs, q ∉ s.addrs → s'.world.mem (poolParent q) = parent ∧
    s'.world.mem (poolBrother q) = (if parent = 0 then 0 else s.world.mem (poolChild parent)) ∧
    s'.world.mem (poolChild q) = 0 ∧ s'.world.mem (poolCleanups q) = 0 ∧
    s'.world.mem (poolFreeCleanups q) = 0 ∧
    (plat.threadSafety = true → s'.world.mem (poolOwner q) = thread ∧
      s'.world.mem (poolMutex q)
        = if parent = 0 then q + sizeofPool plat else s.world.mem (poolMutex parent))

/-- **Registering a memnode** changes the slots only. -/
def Framed (plat : Platform) (s s' : Session) : Op → Prop
  | .create thread _ parent => CreateFrames plat s s' thread parent
  | .palloc _ _ size => AllocFrames plat s s' size
  | .pcalloc _ _ size => AllocFrames plat s s' size
  | _ => True

/-- **The accounts of the pools**: every memnode is on a slot, the three sizes are
    what they should be, and the next call registers, clears and destroys all that
    it should. -/
structure Accounts (plat : Platform) (s : Session) : Prop where
  shelved   : s.Shelved
  total     : ∀ q ∈ s.addrs, sprPoolGetTotalSize plat s.world.mem q
    = some ((nodesOf s.world.log q).map fun n => s.world.mem (nodeDeallocSize n)).sum
  used      : ∀ q ∈ s.addrs, ∃ size free, sprPoolGetSize s.world.mem q = some size ∧
    sprPoolGetFreeSize s.world.mem q = some free ∧ size = free + (cuts plat s.world.log q).sum
  framed    : ∀ op s', s.Slotted plat op → s.exec plat op = some s' → Framed plat s s' op
  cleared   : ∀ thread s', ∀ m ∈ s.family.toList, m.Owned plat thread →
    s.exec plat (.clear thread m.addr) = some s' → ∀ n ∈ nodesOf s.world.log m.addr,
      s'.world.mem (nodeFirstAvail n) = s'.world.mem (nodeBegin n) ∧
      s'.world.mem (nodeSizeAvail n) = s'.world.mem (nodeSize n)
  destroyed : ∀ thread q s', s.Slotted plat (.destroy thread q) →
    s.exec plat (.destroy thread q) = some s' → nodesOf s'.world.log q = []

section Accounts

variable {plat : Platform} {s s' : Session} {f f' : Forest Pool} {p p' q : Pool}

theorem mem_nodesOf {log : List Event} {pool n : Nat} :
    n ∈ nodesOf log pool ↔ (pool, n) ∈ heldNodes log := by
  simp [nodesOf]

/-- The memnodes of a pool, as the log has them. -/
theorem Inv.nodesOf_perm (h : Inv plat s f) (hp : p ∈ f.toList) :
    (nodesOf s.world.log p.addr).Perm p.nodeAddrs := by
  have hnd : (nodesOf s.world.log p.addr).Nodup := List.nodup_dedup _
  refine (List.perm_ext_iff_of_nodup hnd (h.pools.pool p hp).wf.nodup).mpr fun n => ?_
  rw [mem_nodesOf, h.nodes.held]
  constructor
  · rintro ⟨q, hq, haddr, hn⟩
    obtain rfl := List.inj_on_of_nodup_map h.nodup hq hp haddr
    exact hn
  · exact fun hn => ⟨p, hp, rfl, hn⟩

theorem Inv.sum_nodesOf (h : Inv plat s f) (hp : p ∈ f.toList) :
    ((nodesOf s.world.log p.addr).map fun n => s.world.mem (nodeDeallocSize n)).sum
      = (p.nodes.map Memnode.deallocSize).sum := by
  rw [((h.nodesOf_perm hp).map _).sum_eq, Pool.nodeAddrs, List.map_map]
  refine congrArg List.sum (List.map_congr_left fun n hn => ?_)
  exact ((h.pools.pool p hp).rep.nodes.node n hn).deallocSize

/-- A pool of the forest after a call on `p`: it is as before, or it is `p`. -/
theorem Inv.replaced (h : Inv plat s f) (p' : Pool) (hp : p ∈ f.toList) (hq : q ∈ f.toList) :
    q ∈ (replace f p p').toList ∨ q = p ∧ p' ∈ (replace f p p').toList := by
  obtain ⟨rest, hold, -, hnew⟩ := Forest.split_at h.nodup hp
  rcases List.mem_cons.mp (hold.mem_iff.mp hq) with rfl | hrest
  · exact Or.inr ⟨rfl, h.mem_replace hp p'⟩
  · exact Or.inl ((hnew fun _ cs => (p', cs)).mem_iff.mpr (List.mem_cons_of_mem _ hrest))

/-- An allocation on `p`. -/
theorem allocating_framed {thread size r : Nat} {w' : World} (h : Inv plat s f)
    (h' : Inv plat s' (replace f p p')) (hp : p ∈ f.toList)
    (hslot : slotIndex plat size ≠ sprMaxPoolSlot)
    (ha : Allocating plat thread s.world p size r p' w') : AllocFrames plat s s' size := by
  obtain ⟨hheader, hlists⟩ := allocating_header hslot ha
  intro b hb
  obtain ⟨q, hq, rfl⟩ := h.find hb
  have hpq := h.pools.pool q hq
  rcases h.replaced p' hp hq with hin | ⟨rfl, hin⟩
  · have hpq' := h'.pools.pool q hin
    exact ⟨(SameHeader.refl q).words hpq hpq', fun _ => lists_words rfl ⟨rfl, rfl⟩ hpq hpq'⟩
  · have hpq' := h'.pools.pool p' hin
    exact ⟨hheader.words hpq hpq', fun hle => lists_words hheader.addr (hlists hle) hpq hpq'⟩

/-- The words of a new header. -/
theorem madePool_words {thread size a : Nat} {q : Option Pool} {w : World}
    (hindex : createIndex plat size < sprMaxPoolSlot)
    (h : PoolAt plat w (madePool plat thread size a q)) :
    w.mem (poolParent (a + sizeofMemnode)) = parentAddr q ∧
    w.mem (poolBrother (a + sizeofMemnode)) = q.elim 0 Pool.child ∧
    w.mem (poolChild (a + sizeofMemnode)) = 0 ∧ w.mem (poolCleanups (a + sizeofMemnode)) = 0 ∧
    w.mem (poolFreeCleanups (a + sizeofMemnode)) = 0 ∧
    (plat.threadSafety = true → w.mem (poolOwner (a + sizeofMemnode)) = thread ∧
      w.mem (poolMutex (a + sizeofMemnode)) = mutexOf plat a q) := by
  have hheader := h.rep.header
  have hcleanups := chain_start h.rep.records.cleanups
  have hfrees := chain_start h.rep.records.frees
  have haddr : (madePool plat thread size a q).addr = a + sizeofMemnode := madePool_addr
  rw [← haddr]
  cases q with
  | none =>
    exact ⟨hheader.parent.trans (if_pos hindex), hheader.brother, hheader.child, hcleanups,
      hfrees, fun hsafe => ⟨hheader.owner hsafe, hheader.mutex hsafe⟩⟩
  | some q =>
    exact ⟨hheader.parent, hheader.brother, hheader.child, hcleanups, hfrees,
      fun hsafe => ⟨hheader.owner hsafe, hheader.mutex hsafe⟩⟩

/-- A creation. -/
theorem made_framed {thread size parent a : Nat} {q : Option Pool} (h : Inv plat s f)
    (h' : Inv plat s' f') (hindex : createIndex plat size < sprMaxPoolSlot)
    (hparent : parent = parentAddr q)
    (hbrother : q.elim 0 Pool.child = if parent = 0 then 0 else s.world.mem (poolChild parent))
    (hmutex : plat.threadSafety = true → mutexOf plat a q
      = if parent = 0 then a + sizeofMemnode + sizeofPool plat else s.world.mem (poolMutex parent))
    (hold : ∀ p ∈ f.toList, p ∈ f'.toList ∨ p.addr = parent ∧
      ∃ child, p.withLinks p.parent p.brother child ∈ f'.toList)
    (hnew : ∀ p' ∈ f'.toList, p' = madePool plat thread size a q ∨ p'.addr ∈ s.addrs) :
    CreateFrames plat s s' thread parent := by
  refine ⟨fun c hc b hb hne => ?_, fun c hc hout => ?_⟩
  · obtain ⟨q, hq, rfl⟩ := h.find hc
    have hpq := h.pools.pool q hq
    rcases hold q hq with hin | ⟨haddr, child, hin⟩
    · exact (SameHeader.refl q).words hpq (h'.pools.pool q hin) b hb
    · -- the word of the child is the one that may differ
      have hpq' := h'.pools.pool _ hin
      have hrep := hpq.rep.header
      have hrep' := hpq'.rep.header
      rw [← haddr] at hne
      rw [headerFields, List.mem_append] at hb
      rcases hb with hb | hb
      · simp only [List.mem_cons, List.not_mem_nil, or_false] at hb
        rcases hb with rfl | rfl | rfl
        · exact hrep'.parent.trans hrep.parent.symm
        · exact hrep'.brother.trans hrep.brother.symm
        · exact absurd rfl hne
      · split at hb
        · rename_i hsafe
          simp only [List.mem_cons, List.not_mem_nil, or_false] at hb
          rcases hb with rfl | rfl
          · exact (hrep'.mutex hsafe).trans (hrep.mutex hsafe).symm
          · exact (hrep'.owner hsafe).trans (hrep.owner hsafe).symm
        · cases hb
  · -- a pool that was not there is the new one
    obtain ⟨p', hp', rfl⟩ := h'.find hc
    obtain rfl := (hnew p' hp').resolve_right hout
    rw [madePool_addr]
    obtain ⟨h₁, h₂, h₃, h₄, h₅, hlocks⟩ := madePool_words hindex (h'.pools.pool _ hp')
    exact ⟨h₁.trans hparent.symm, h₂.trans hbrother, h₃, h₄, h₅, fun hsafe =>
      ⟨(hlocks hsafe).1, (hlocks hsafe).2.trans (hmutex hsafe)⟩⟩

/-- **Every call on slots** registers memnodes there only. -/
theorem step_framed {op : Op} (h : Inv plat s f) (h' : Inv plat s' f')
    (hslot : op.slot plat ≠ some sprMaxPoolSlot) (hs : Step plat s f op s' f') :
    Framed plat s s' op := by
  cases hs with
  | createFailed thread size parent w' =>
    refine ⟨fun c hc b hb _ => ?_, fun c hc hout => absurd hc hout⟩
    obtain ⟨q, hq, rfl⟩ := h.find hc
    exact (SameHeader.refl q).words (h.pools.pool q hq) (h'.pools.pool q hq) b hb
  | createRoot thread size a w' hgrant hindex =>
    have hlt : createIndex plat size < sprMaxPoolSlot :=
      Nat.lt_of_le_of_ne hindex fun heq => hslot (by rw [← heq]; rfl)
    refine made_framed (a := a) (q := none) h h' hlt rfl rfl (fun _ => rfl)
      (fun p hp => Or.inl (List.mem_cons_of_mem _ (by simpa using hp))) fun p' hp' => ?_
    refine (List.mem_cons.mp hp').imp_right fun hp' => ?_
    rw [h.addrs]
    exact List.mem_map_of_mem (by simpa using hp')
  | createChild thread size a q w' hq hgrant hindex =>
    have hlt : createIndex plat size < sprMaxPoolSlot :=
      Nat.lt_of_le_of_ne hindex fun heq => hslot (by rw [← heq]; rfl)
    have hpq := h.pools.pool q hq
    obtain ⟨rest, hold, -, hnew⟩ := Forest.split_at h.nodup hq
    have hnew := hnew fun q cs => (q.withLinks q.parent q.brother (a + sizeofMemnode),
      .node (madePool plat thread size a (some q)) .nil cs)
    -- the pools are those from before, the parent with its link, and the new one
    have hin : ∀ p', p' ∈ _ ↔ _ := fun p' => hnew.mem_iff (a := p')
    simp only [Forest.toList_node, Forest.toList_nil, List.nil_append, List.cons_append,
      List.mem_cons] at hin
    refine made_framed (a := a) (q := some q) h h' hlt rfl ?_ (fun hsafe => ?_) (fun p hp => ?_)
      fun p' hp' => ?_
    · rw [if_neg hpq.addr_ne_null]
      exact hpq.rep.header.child.symm
    · rw [if_neg hpq.addr_ne_null]
      exact (hpq.rep.header.mutex hsafe).symm
    · rcases List.mem_cons.mp (hold.mem_iff.mp hp) with rfl | hrest
      · exact Or.inr ⟨rfl, _, (hin _).mpr (Or.inl rfl)⟩
      · exact Or.inl ((hin _).mpr (Or.inr (Or.inr hrest)))
    · rw [h.addrs]
      rcases (hin _).mp hp' with rfl | rfl | hrest
      · exact Or.inr (List.mem_map.mpr ⟨q, hq, rfl⟩)
      · exact Or.inl rfl
      · exact Or.inr (List.mem_map_of_mem (hold.mem_iff.mpr (List.mem_cons_of_mem _ hrest)))
  | palloc thread size r p p' w' hp halloc =>
    exact allocating_framed h h' hp (fun heq => hslot (by rw [← heq]; rfl)) halloc
  | pcalloc thread size r p p' w' hp halloc =>
    exact allocating_framed h h' hp (fun heq => hslot (by rw [← heq]; rfl)) halloc
  | _ => trivial

/-- **Clearing** rewinds every memnode of a pool of the thread. -/
theorem Inv.cleared {thread : Nat} {m : Member} (h : Inv plat s f)
    (horphans : ∀ p ∈ f.toList, p.orphans = []) (hm : m ∈ s.family.toList)
    (howned : m.Owned plat thread) (hexec : s.exec plat (.clear thread m.addr) = some s') :
    ∀ n ∈ nodesOf s.world.log m.addr,
      s'.world.mem (nodeFirstAvail n) = s'.world.mem (nodeBegin n) ∧
      s'.world.mem (nodeSizeAvail n) = s'.world.mem (nodeSize n) := by
  rw [← h.family, Forest.toList_map] at hm
  obtain ⟨p, hp, rfl⟩ := List.mem_map.mp hm
  have hlegal : s.Legal plat (.clear thread p.member.addr) := by
    show p.member.addr ∈ s.addrs
    rw [h.addrs]
    exact List.mem_map.mpr ⟨p, hp, rfl⟩
  obtain ⟨f', hs, h'⟩ := exec_step h hlegal trivial trivial (fun hd => hd.elim) hexec
  intro n hn
  obtain ⟨n, hnode, rfl⟩ := List.mem_map.mp ((h.nodesOf_perm hp).mem_iff.mp hn)
  have hin : n.rewind ∈ p.clear.nodes := by
    rw [clear_nodes (horphans p hp)]
    exact List.mem_map_of_mem hnode
  have hpool : p.clear ∈ f'.toList := by
    generalize haddr : p.member.addr = pool at hs
    cases hs with
    | clear thread q w' hq hlog =>
      obtain rfl := List.inj_on_of_nodup_map h.nodup hp hq haddr
      obtain ⟨rest, hold, -, hnew⟩ := Forest.split_at h.nodup hp
      refine (hnew (clearTree plat thread)).mem_iff.mpr ?_
      rw [clearTree, if_pos (show Owned plat thread p from howned)]
      exact List.mem_cons_self
  have hrep := (h'.pools.pool _ hpool).rep.nodes.node _ hin
  exact ⟨hrep.firstAvail.trans hrep.begin.symm, hrep.sizeAvail.trans hrep.size.symm⟩

/-- **Destroying** deallocates every memnode of the pool. -/
theorem Inv.destroyed {thread pool : Nat} (h : Inv plat s f)
    (horphans : ∀ p ∈ f.toList, p.orphans = []) (hop : s.Slotted plat (.destroy thread pool))
    (hexec : s.exec plat (.destroy thread pool) = some s') : nodesOf s'.world.log pool = [] := by
  obtain ⟨f', hs, h'⟩ := exec_step h hop.1 hop.2.1 hop.2.2.1 (fun _ => horphans) hexec
  refine List.eq_nil_iff_forall_not_mem.mpr fun n hn => ?_
  obtain ⟨q, hq, haddr, -⟩ := (h'.nodes.held _ _).mp (mem_nodesOf.mp hn)
  cases hs with
  | destroy thread p w' hp howned hlog =>
    obtain ⟨rest, hold, hrest, -⟩ := Forest.split_at h.nodup (Forest.roots_subset hp)
    have hnd := (hold.map Pool.addr).nodup_iff.mp h.nodup
    rw [List.map_cons, List.nodup_cons] at hnd
    have hin : q.addr ∈ ((f.childrenAt Pool.addr p.addr).toList ++ rest).map Pool.addr :=
      List.mem_map_of_mem (List.mem_append_right _ (hrest.mem_iff.mp hq))
    exact hnd.1 (haddr ▸ hin)

/-- **The accounts are right** in every state of a run in which no request goes to
    `nodes[SPR_MAX_POOL_SLOT]`. -/
theorem slots_account (plat : Platform) (s : Session)
    (h : Reachable plat (Session.Slotted plat) s) : Accounts plat s := by
  have hreach : Reachable plat
      (fun s op => s.Slotted plat op ∧ s.CutsTo plat (fun _ => True) op) s :=
    h.mono fun s op hop => ⟨hop, fun _ _ _ _ => trivial⟩
  obtain ⟨f, hinv, hp⟩ := shelf_rule (tallied_keeps plat fun _ => True) hreach
  have horphans : ∀ p ∈ f.toList, p.orphans = [] := fun p hin => (hp p hin).1
  refine ⟨hinv.shelved_iff.mpr horphans, fun q hq => ?_, fun q hq => ?_, fun op s' hop hexec => ?_,
    fun thread s' m hm howned hexec => hinv.cleared horphans hm howned hexec,
    fun thread q s' hop hexec => hinv.destroyed horphans hop hexec⟩
  · obtain ⟨p, hin, rfl⟩ := hinv.find hq
    rw [hinv.sum_nodesOf hin]
    exact (hp p hin).2.total (hinv.pools.pool p hin) (horphans p hin)
  · obtain ⟨p, hin, rfl⟩ := hinv.find hq
    exact (hp p hin).2.sizes (hinv.pools.pool p hin) (horphans p hin)
  · obtain ⟨f', hs, hinv'⟩ := exec_step hinv hop.1 hop.2.1 hop.2.2.1 (fun _ => horphans) hexec
    exact step_framed hinv hinv' hop.2.2.2 hs

/-- A pool with a second memnode. -/
theorem slots_account_two : ∃ s, Reachable machine (Session.Slotted machine) s ∧
    nodesOf s.world.log 65584 = [131072, 65536] ∧ Accounts machine s := by
  have hrun : ((session.run machine (Session.Slotted machine)
      [.create 1 0 0, .palloc 1 65584 100, .palloc 1 65584 9000]).any fun s =>
        nodesOf s.world.log 65584 = [131072, 65536]) = true := by decide +kernel
  obtain ⟨s, hs, hnodes⟩ := (Option.any_eq_true _ _).mp hrun
  have hreach := reachable_run (.start session initial_session) hs
  exact ⟨s, hreach, of_decide_eq_true hnodes, slots_account machine s hreach⟩

/-- A request of 82000 bytes goes to `nodes[20]`, which is `parent`: the memnode is on
    no list. -/
theorem slots_lose : ¬ ∀ (plat : Platform) (s : Session), Reachable plat (fun s op =>
    s.Legal plat op ∧ s.Clean plat op ∧ s.AtRoots plat op) s → Accounts plat s := by
  intro hall
  have hrun : ((session.run machine (fun s op => s.Legal machine op ∧ s.Clean machine op ∧
      s.AtRoots machine op) [.create 1 0 0, .palloc 1 65584 82000]).any fun s =>
        ¬ s.Shelved) = true := by decide +kernel
  obtain ⟨s, hs, hlost⟩ := (Option.any_eq_true _ _).mp hrun
  have hreach := reachable_run (.start session initial_session) hs
  exact of_decide_eq_true hlost (hall machine s hreach).shelved

end Accounts

end Spr.MemPool
