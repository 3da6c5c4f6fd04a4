import Spr.MemPool.Cleanups

/-! # `spr_palloc` and `spr_pool_cleanup_add1`

    The two functions call each other: an oversized block is registered as a
    cleanup, and a record is carved from the pool.

    * `CleanFor`: the next small block would not lie over a listed record.
    * `carving_used`, `carving_clean`: where the block of the slot path lies.
    * `Adding`, `cleanupAdd1With_cases`: what adding a record does.
    * `Allocating`, `sprPalloc_cases`: what an allocation does. -/

namespace Spr.MemPool

open Spr.Words Spr.Chains

/-! ## Section 1: Where a block lies -/

/-- The span lies in the part of a memnode's body that is handed out. -/
def Pool.Used (p : Pool) (b : Span) : Prop :=
  ∃ n ∈ p.nodes, n.begin ≤ b.start ∧ b.start + b.len ≤ n.firstAvail

/-- The block of `k` bytes that the search from the slot `index` on finds in the
    pool does not lie over a listed record. -/
def CleanFor (p : Pool) (k index : Nat) : Prop :=
  ∀ n, firstFit k (p.fromSlot index) = some n →
    ∀ r ∈ p.listed, Span.Disjoint ⟨n.firstAvail, k⟩ (recordSpan r)

theorem carveAt_mem {p : Pool} {n m : Memnode} {k : Nat} (hm : m ∈ p.nodes) :
    (if m.addr = n.addr then m.carve k else m) ∈ (p.carveAt n.addr k).nodes := by
  rw [Pool.carveAt, mapNodes_nodes]
  exact List.mem_map_of_mem (f := fun m => if m.addr = n.addr then m.carve k else m) hm

/-- A used span stays used when a block is cut off. -/
theorem Pool.Used.carveAt {p : Pool} {b : Span} (hb : p.Used b) (n : Memnode) (k : Nat) :
    (p.carveAt n.addr k).Used b := by
  obtain ⟨m, hm, h₁, h₂⟩ := hb
  refine ⟨_, carveAt_mem (n := n) (k := k) hm, ?_, ?_⟩
  · split <;> exact h₁
  · split
    · simp only [Memnode.carve]; omega
    · exact h₂

theorem Pool.Used.addNode {p : Pool} {b : Span} (hb : p.Used b) (index : Nat) (n : Memnode) :
    (p.addNode index n).Used b := by
  obtain ⟨m, hm, h⟩ := hb
  exact ⟨m, mem_addNode.mpr (Or.inr hm), h⟩

section Carving

variable {plat : Platform} {thread : Nat} {w w' : World} {p p' : Pool} {k size index r : Nat}

/-- What the search finds room for is apart from everything that is in use. -/
theorem PoolAt.fit_apart {n : Memnode} {b : Span} (h : PoolAt plat w p)
    (hfit : firstFit k (p.fromSlot index) = some n) (hb : p.Used b) :
    Span.Disjoint ⟨n.firstAvail, k⟩ b := by
  obtain ⟨hn, hfits⟩ := firstFit_some hfit
  have hn := Pool.fromSlot_nodes hn
  have hok := h.wf.node n hn
  -- what is in use of this memnode lies below, and the regions of others are apart
  obtain ⟨m, hm, h₁, h₂⟩ := hb
  by_cases heq : m.addr = n.addr
  · obtain rfl := h.wf.node_inj hm hn heq
    exact Or.inr h₂
  · have hdis := h.regions hn hm (Ne.symm heq)
    have hokm := h.wf.node m hm
    have := hok.header
    have := hok.lower
    have := hok.total
    have := hok.upper
    have := hokm.header
    have := hokm.total
    have := hokm.upper
    simp only [Span.Disjoint, Memnode.region] at *
    omega

/-- **The block of the slot path** is aligned, in use afterwards, and apart from
    everything that was in use before. -/
theorem carving_used (h : PoolAt plat w p)
    (hc : Carving plat thread w p k size index r p' w') (hsize : k + sizeofMemnode ≤ size) :
    (∀ b, p.Used b → p'.Used b) ∧
    (r ≠ 0 → r % 8 = 0 ∧ p'.Used ⟨r, k⟩ ∧ ∀ b, p.Used b → Span.Disjoint ⟨r, k⟩ b) := by
  cases hc with
  | refused _ hfit hmem hlive hlog => exact ⟨fun _ hb => hb, fun hr => absurd rfl hr⟩
  | fit _ n hfit hlive hlog =>
    have hn := Pool.fromSlot_nodes (firstFit_some hfit).1
    have hok := h.wf.node n hn
    refine ⟨fun b hb => hb.carveAt n k,
      fun _ => ⟨hok.aligned.2.2, ?_, fun b hb => h.fit_apart hfit hb⟩⟩
    refine ⟨_, carveAt_mem (n := n) (k := k) hn, ?_, ?_⟩ <;> rw [if_pos rfl]
    · exact hok.lower
    · exact Nat.le_refl _
  | fresh _ a hfit hgrant hlive hlog =>
    have hnode : freshNode a size ∈ (p.addNode index (freshNode a size)).nodes :=
      mem_addNode.mpr (Or.inl rfl)
    refine ⟨fun b hb => (hb.addNode index _).carveAt (freshNode a size) k,
      fun _ => ⟨?_, ?_, fun b hb => ?_⟩⟩
    · have := hgrant.2.1
      simp only [sprAlignSize, sizeofMemnode] at *
      omega
    · refine ⟨_, carveAt_mem (n := freshNode a size) (k := k) hnode, ?_, ?_⟩ <;> rw [if_pos rfl]
      · exact Nat.le_refl _
      · exact Nat.le_refl _
    · -- the system grants no region that the pool has
      obtain ⟨m, hm, h₁, h₂⟩ := hb
      have hdis := h.granted_apart hgrant hm
      have hokm := h.wf.node m hm
      have := hokm.header
      have := hokm.total
      have := hokm.upper
      simp only [Span.Disjoint, Memnode.region, sizeofMemnode] at *
      omega

/-- **A clean block lies over no listed record.** -/
theorem carving_clean (h : PoolAt plat w p)
    (hc : Carving plat thread w p k size index r p' w') (hsize : k + sizeofMemnode ≤ size)
    (hclean : CleanFor p k index) (hr : r ≠ 0) :
    ∀ a ∈ p.listed, Span.Disjoint ⟨r, k⟩ (recordSpan a) := by
  intro a ha
  cases hc with
  | refused _ hfit hmem hlive hlog => exact absurd rfl hr
  | fit _ n hfit hlive hlog => exact hclean n hfit a ha
  | fresh _ b hfit hgrant hlive hlog =>
    obtain ⟨-, m, hm, hin⟩ := h.wf.inBody a ha
    have hdis := (h.granted_apart hgrant hm).symm.mono (h.wf.node m hm).body_within
    have hdis' := hdis.mono hin
    simp only [Span.Disjoint, recordSpan, sizeofMemnode] at *
    omega

/-- The block of the slot path is in a body, and the lists stay. -/
theorem carving_kept (h' : PoolAt plat w' p')
    (hc : Carving plat thread w p k size index r p' w') :
    p'.addr = p.addr ∧ p'.listed = p.listed ∧ p'.cleanups = p.cleanups ∧ p'.frees = p.frees ∧
      p'.mutex = p.mutex ∧ p'.owner = p.owner ∧ p'.child = p.child ∧ p'.brother = p.brother ∧
      (∀ b, p'.Used b → ∃ n ∈ p'.nodes, b.Within n.body) := by
  have hbody : ∀ b, p'.Used b → ∃ n ∈ p'.nodes, b.Within n.body := by
    rintro b ⟨n, hn, h₁, h₂⟩
    have := (h'.wf.node n hn).total
    refine ⟨n, hn, h₁, ?_⟩
    simp only [Memnode.body]
    omega
  cases hc with
  | refused _ hfit hmem hlive hlog => exact ⟨rfl, rfl, rfl, rfl, rfl, rfl, rfl, rfl, hbody⟩
  | fit _ n hfit hlive hlog => exact ⟨rfl, rfl, rfl, rfl, rfl, rfl, rfl, rfl, hbody⟩
  | fresh _ a hfit hgrant hlive hlog =>
    refine ⟨addNode_addr .., addNode_listed .., ?_, ?_, ?_, ?_, ?_, ?_, hbody⟩ <;>
      (unfold Pool.addNode; split <;> rfl)

/-- The slot path answers `NULL` only when no memnode has room and the system
    refuses. -/
theorem carving_null (h : PoolAt plat w p) (hc : Carving plat thread w p k size index r p' w')
    (hr : r = 0) : p' = p ∧ firstFit k (p.fromSlot index) = none ∧ w'.mem = w.mem ∧
      w'.live = w.live ∧ w'.log = w.log ++ (lockEvents plat thread p ++ .refused size ::
        unlockEvents plat thread p) := by
  cases hc with
  | refused _ hfit hmem hlive hlog => exact ⟨rfl, hfit, hmem, hlive, hlog⟩
  | fit _ n hfit hlive hlog =>
    have hok := h.wf.node n (Pool.fromSlot_nodes (firstFit_some hfit).1)
    have := hok.header
    have := hok.lower
    simp only [sizeofMemnode] at *
    omega
  | fresh _ a hfit hgrant hlive hlog =>
    simp only [sizeofMemnode] at hr
    omega

/-- The slot path's block can hold a record. -/
theorem carving_placed (h : PoolAt plat w p) (h' : PoolAt plat w' p')
    (hc : Carving plat thread w p sizeofCleanupNode size index r p' w')
    (hsize : sizeofCleanupNode + sizeofMemnode ≤ size) (hclean : CleanFor p sizeofCleanupNode index)
    (hr : r ≠ 0) : Placed p' (r :: p'.listed) := by
  obtain ⟨-, hused⟩ := carving_used h hc hsize
  obtain ⟨hal, huse, -⟩ := hused hr
  obtain ⟨-, hlisted, -, -, -, -, -, -, hbody⟩ := carving_kept h' hc
  have hapart := carving_clean h hc hsize hclean hr
  refine ⟨List.pairwise_cons.mpr ⟨?_, h'.wf.apart⟩, fun a ha => ?_⟩
  · rw [hlisted]
    exact hapart
  · rcases List.mem_cons.mp ha with rfl | ha
    · exact ⟨hal, hbody _ huse⟩
    · exact h'.wf.inBody a ha

end Carving

/-! ## Section 2: Adding a record -/

/-- What `spr_pool_cleanup_add1(p, data, handler)` does. -/
inductive Adding (plat : Platform) (thread : Nat) (w : World) (p : Pool) (data handler : Nat) :
    Pool → World → Prop where
  | recycled (w' : World) (a : Nat) (fs : List Nat) (hfrees : p.frees = a :: fs)
      (hlive : w'.live = w.live)
      (hlog : w'.log = w.log ++ (lockEvents plat thread p ++ unlockEvents plat thread p)) :
      Adding plat thread w p data handler
        (p.withRecords (⟨a, data, handler⟩ :: p.cleanups) fs) w'
  | carved (w' w₁ : World) (a : Nat) (p₁ : Pool) (hfrees : p.frees = []) (ha : a ≠ 0)
      (hcarve : Carving plat thread (w.emits (lockEvents plat thread p)) p sizeofCleanupNode
        plat.pageSize 0 a p₁ w₁)
      (hlive : w'.live = w₁.live)
      (hlog : w'.log = w₁.log ++ .record p.addr a :: unlockEvents plat thread p) :
      Adding plat thread w p data handler
        (p₁.withRecords (⟨a, data, handler⟩ :: p.cleanups) []) w'

/-- The record cannot be had: the reserve is empty, no memnode has room, and the
    system refuses a page. -/
structure NoRecord (plat : Platform) (thread : Nat) (w : World) (p : Pool) (w₁ : World) :
    Prop where
  frees : p.frees = []
  fit   : firstFit sizeofCleanupNode (p.fromSlot 0) = none
  mem   : w₁.mem = w.mem
  live  : w₁.live = w.live
  log   : w₁.log = w.log ++ (lockEvents plat thread p ++ lockEvents plat thread p ++
    .refused plat.pageSize :: unlockEvents plat thread p)

/-- Two calls, the later of which leaves the pool with no fewer words of its own. -/
theorem FrameOwn.trans {plat : Platform} {w w₁ w₂ : World} {p q : Pool} (h₁ : FrameOwn plat w w₁ p)
    (h₂ : FrameOwn plat w₁ w₂ q) (hsub : ∀ b, p.Owns plat b → q.Owns plat b) :
    FrameOwn plat w w₂ q := fun b hb =>
  (h₂ b hb).trans (h₁ b fun hown => hb (hsub b hown))

/-- The words that change when a record is linked are the pool's own. -/
theorem frameOwn_link {plat : Platform} {w w' : World} {p : Pool} {a : Nat} (ha : a ∈ p.listed)
    (hframe : ∀ b, ¬ (recordSpan a).Covers b → b ≠ p.addr + 184 → b ≠ p.addr + 192 →
      w'.mem b = w.mem b) : FrameOwn plat w w' p := by
  have hlow := le_sizeofPool plat
  intro b hb
  have hword : ∀ j < 200, b ≠ p.addr + j := by
    rintro j hj rfl
    refine hb (Or.inl ?_)
    simp only [Span.Covers, Pool.headerSpan]
    omega
  exact hframe b (fun hc => hb (Or.inr (Or.inr ⟨a, ha, hc⟩))) (hword 184 (by decide))
    (hword 192 (by decide))

/-- A change inside bodies and the header stays inside the regions. -/
theorem frameOut_of_body {plat : Platform} {w w₁ w' : World} {p : Pool} (h : PoolAt plat w₁ p)
    (hframe : ∀ b, (∀ n ∈ p.nodes, ¬ n.body.Covers b) → b ≠ p.addr + 184 → b ≠ p.addr + 192 →
      w'.mem b = w.mem b) : FrameOut w w' p := by
  intro b hb
  obtain ⟨home, hhome, haddr, hend⟩ := h.wf.home
  have hupper := (h.wf.node home hhome).upper
  have hlow := le_sizeofPool plat
  have hout := hb home hhome
  refine hframe b (fun n hn hc => hb n hn ?_) ?_ ?_
  · have := (h.wf.node n hn).body_within
    simp only [Span.Covers, Span.Within] at *
    omega
  · rintro rfl
    simp only [Span.Covers, Memnode.region] at hout
    omega
  · rintro rfl
    simp only [Span.Covers, Memnode.region] at hout
    omega

theorem pallocSlots_record {plat : Platform} {w : World} {p : Pool} (thread : Nat)
    (h : PoolAt plat w p) :
    ∃ r p' w', pallocSlots plat thread p.addr sizeofCleanupNode 1 0 w = .ok r w' ∧
      PoolAt plat w' p' ∧ Carving plat thread w p sizeofCleanupNode plat.pageSize 0 r p' w' ∧
      FrameOwn plat w w' p' := by
  have hpage := plat.le_pageSize
  have hlt := plat.page_lt
  have hroom : sizeofCleanupNode + sizeofMemnode < 1 * plat.pageSize := by
    simp only [sizeofCleanupNode, sizeofMemnode]
    omega
  have hpages : 1 * plat.pageSize < wordMod := by
    rw [wordMod_eq]
    omega
  have hrun := pallocSlots_cases thread h rfl (Nat.zero_le _) hroom hpages
  rwa [Nat.one_mul] at hrun

section Adding

variable {plat : Platform} {w v w₁ w₂ w' : World} {palloc : Nat → Nat → Act Nat}
  {thread pool data handler r : Nat}

/-- `spr_pool_cleanup_add1` with a record in reserve. -/
theorem cleanupAdd1With_recycled (hlock : lockPool plat thread pool w = .ok () v)
    (hhead : v.mem (pool + 192) = r) (hr : r ≠ 0)
    (hlink : linkRecord pool r data handler (v.store (pool + 192) (v.mem r)) = .ok () w₁)
    (hunlock : unlockPool plat thread pool w₁ = .ok () w') :
    sprPoolCleanupAdd1With plat palloc thread pool data handler w = .ok () w' := by
  simp [sprPoolCleanupAdd1With, hlock, hhead, hr, hlink, hunlock]

/-- `spr_pool_cleanup_add1` with a record from `spr_palloc`. -/
theorem cleanupAdd1With_carved (hlock : lockPool plat thread pool w = .ok () v)
    (hnull : v.mem (pool + 192) = 0) (hpalloc : palloc pool sizeofCleanupNode v = .ok r w₁)
    (hr : r ≠ 0) (hlink : linkRecord pool r data handler (w₁.emit (.record pool r)) = .ok () w₂)
    (hunlock : unlockPool plat thread pool w₂ = .ok () w') :
    sprPoolCleanupAdd1With plat palloc thread pool data handler w = .ok () w' := by
  simp [sprPoolCleanupAdd1With, hlock, hnull, hpalloc, hr, hlink, hunlock]

/-- `spr_pool_cleanup_add1` when `spr_palloc` returns `NULL`, which it does not look for. -/
theorem cleanupAdd1With_null (hlock : lockPool plat thread pool w = .ok () v)
    (hnull : v.mem (pool + 192) = 0) (hpalloc : palloc pool sizeofCleanupNode v = .ok 0 w₁) :
    sprPoolCleanupAdd1With plat palloc thread pool data handler w = .error .null w₁ := by
  simp [sprPoolCleanupAdd1With, hlock, hnull, hpalloc]

theorem PoolAt.frees_null {p : Pool} (h : PoolAt plat w p) (hfrees : p.frees = []) :
    w.mem (p.addr + 192) = 0 := by
  have hchain := h.rep.records.frees
  rwa [hfrees] at hchain

end Adding

/-- **`spr_pool_cleanup_add1`**, where its `spr_palloc` takes the slot path. -/
theorem cleanupAdd1With_cases {plat : Platform} {w : World} {p : Pool} {thread : Nat}
    {palloc : Nat → Nat → Act Nat} (data handler : Nat) (h : PoolAt plat w p)
    (hpalloc : palloc p.addr sizeofCleanupNode
      = pallocSlots plat thread p.addr sizeofCleanupNode 1 0)
    (hclean : p.frees = [] → CleanFor p sizeofCleanupNode 0) :
    (∃ p' w', sprPoolCleanupAdd1With plat palloc thread p.addr data handler w = .ok () w' ∧
      PoolAt plat w' p' ∧ Adding plat thread w p data handler p' w' ∧ FrameOwn plat w w' p') ∨
    (∃ w₁, sprPoolCleanupAdd1With plat palloc thread p.addr data handler w = .error .null w₁ ∧
      NoRecord plat thread w p w₁) := by
  have hlock := h.of_eq (v := w.emits (lockEvents plat thread p)) rfl rfl
  cases hfrees : p.frees with
  | cons a fs =>
    -- a record that was given back is used again
    left
    obtain ⟨hhead, hne, hpop, hplaced⟩ := popRecord hlock hfrees
    obtain ⟨w', hrun, hp', hframe, hlive, hlog⟩ := linkRecord_spec data handler hpop
      (hplaced.of_nodes rfl) hne
    refine ⟨_, w'.emits (unlockEvents plat thread p), ?_, hp'.of_eq rfl rfl,
      .recycled _ a fs hfrees hlive (by simp [hlog]), ?_⟩
    · have hunlock := unlockPool_run hp' thread
      simp only [withRecords_addr] at hunlock hrun
      exact cleanupAdd1With_recycled (lockPool_run h thread) hhead hne hrun hunlock
    · refine frameOwn_link (a := a) List.mem_cons_self fun b hb h₁ h₂ => ?_
      simp only [withRecords_addr] at h₁ h₂ hframe
      rw [emits_mem, hframe b hb h₁, store_mem, Function.update_of_ne h₂]
      rfl
  | nil =>
    obtain ⟨r, p₁, w₁, hrun₁, hp₁, hcarve, hframe₁⟩ := pallocSlots_record thread hlock
    have hnull := hlock.frees_null hfrees
    by_cases hr : r = 0
    · -- no memnode has room, and the system refuses one: the source stores through `NULL`
      right
      obtain ⟨-, hfit, hmem, hlive, hlog⟩ := carving_null hlock hcarve hr
      subst hr
      refine ⟨w₁, ?_, hfrees, hfit, hmem, hlive, by simp [hlog]⟩
      exact cleanupAdd1With_null (lockPool_run h thread) hnull (by rw [hpalloc, hrun₁])
    · -- the record is carved
      left
      have hsize : sizeofCleanupNode + sizeofMemnode ≤ plat.pageSize := by
        have := plat.le_pageSize
        simp only [sizeofCleanupNode, sizeofMemnode]
        omega
      have hplaced := carving_placed hlock hp₁ hcarve hsize (hclean hfrees) hr
      obtain ⟨haddr, -, hcs, hfs, hmutex, -⟩ := carving_kept hp₁ hcarve
      have hp₁' := hp₁.of_eq (v := w₁.emit (.record p.addr r)) rfl rfl
      obtain ⟨w', hrun, hp', hframe, hlive, hlog⟩ := linkRecord_spec data handler hp₁' hplaced hr
      have hunlock := unlockPool_run hp' thread
      have hevents : unlockEvents plat thread (p₁.withRecords (⟨r, data, handler⟩ :: p₁.cleanups)
          p₁.frees) = unlockEvents plat thread p := by
        simp only [unlockEvents, Pool.withRecords, hmutex]
      rw [hevents, withRecords_addr, haddr] at hunlock
      rw [haddr] at hrun
      rw [hcs, hfs, hfrees] at hp'
      refine ⟨_, w'.emits (unlockEvents plat thread p), ?_, hp'.of_eq rfl rfl,
        .carved _ w₁ r p₁ hfrees hr hcarve hlive ?_, ?_⟩
      · exact cleanupAdd1With_carved (lockPool_run h thread) hnull (by rw [hpalloc, hrun₁]) hr hrun
          hunlock
      · simp [hlog]
      · refine hframe₁.trans (frameOwn_link (a := r) List.mem_cons_self fun b hb h₁ _ => ?_)
          fun b hb => ?_
        · exact hframe b hb (by rw [withRecords_addr] at h₁; exact h₁)
        · refine hb.imp_right (Or.imp_right ?_)
          rintro ⟨a, ha, hc⟩
          refine ⟨a, List.mem_cons_of_mem _ ?_, hc⟩
          rwa [Pool.listed, hcs, hfs, hfrees] at ha

/-! ## Section 3: `spr_palloc` -/

/-- The slot a request of `size` bytes looks in first. -/
def slotIndex (plat : Platform) (size : Nat) : Nat :=
  sprGetNpages plat (sprAlignAllocation size) - 1

/-- The request for a record's memory goes to the slot path. -/
theorem pallocDepth_record (plat : Platform) (thread depth pool : Nat) :
    pallocDepth plat thread (depth + 1) pool sizeofCleanupNode
      = pallocSlots plat thread pool sizeofCleanupNode 1 0 := by
  simp only [pallocDepth, sprPallocWith, sprAlignAllocation_record, sprGetNpages_record]
  rw [if_neg (by decide), if_neg (by decide)]
  rfl

theorem sprPalloc_eq (plat : Platform) (thread pool size : Nat) :
    sprPalloc plat thread pool size = sprPallocWith plat
      (sprPoolCleanupAdd1With plat (pallocDepth plat thread 1) thread) thread pool size := rfl

section Paths

variable {plat : Platform} {w w₁ w₂ w' : World} {thread pool size a : Nat}

/-- `spr_palloc` of a size that wraps when it is aligned. -/
theorem sprPalloc_rejected (halign : sprAlignAllocation size = 0)
    (hunlock : unlockPool plat thread pool w = .ok () w') :
    sprPalloc plat thread pool size w = .ok 0 w' := by
  simp [sprPalloc_eq, sprPallocWith, halign, hunlock]

/-- `spr_palloc` of a size that a slot serves. -/
theorem sprPalloc_slots (halign : sprAlignAllocation size ≠ 0)
    (hindex : slotIndex plat size ≤ sprMaxPoolSlot) :
    sprPalloc plat thread pool size w = pallocSlots plat thread pool (sprAlignAllocation size)
      (sprGetNpages plat (sprAlignAllocation size)) (slotIndex plat size) w := by
  have hslot : ¬ sprMaxPoolSlot < sprGetNpages plat (sprAlignAllocation size) - 1 :=
    Nat.not_lt.mpr hindex
  rw [sprPalloc_eq, sprPallocWith, if_neg halign, if_neg hslot]
  rfl

/-- `spr_palloc` of an oversized block that the system refuses. -/
theorem sprPalloc_refused (halign : sprAlignAllocation size ≠ 0)
    (hbig : sprMaxPoolSlot < slotIndex plat size)
    (hsys : sysAlloc (sprAlignAllocation size) w = .ok 0 w₁)
    (hunlock : unlockPool plat thread pool w₁ = .ok () w') :
    sprPalloc plat thread pool size w = .ok 0 w' := by
  have hover : sprMaxPoolSlot < sprGetNpages plat (sprAlignAllocation size) - 1 := hbig
  simp [sprPalloc_eq, sprPallocWith, halign, hover, hsys, hunlock]

/-- `spr_palloc` of an oversized block that the system grants. -/
theorem sprPalloc_oversize (halign : sprAlignAllocation size ≠ 0)
    (hbig : sprMaxPoolSlot < slotIndex plat size) (ha : a ≠ 0)
    (hsys : sysAlloc (sprAlignAllocation size) w = .ok a w₁) :
    sprPalloc plat thread pool size w =
      (sprPoolCleanupAdd1With plat (pallocDepth plat thread 1) thread pool a plat.sprFree >>=
        fun _ => unlockPool plat thread pool >>= fun _ => pure a) w₁ := by
  have hover : sprMaxPoolSlot < sprGetNpages plat (sprAlignAllocation size) - 1 := hbig
  simp [sprPalloc_eq, sprPallocWith, halign, hover, hsys, ha]

end Paths

/-- What `spr_palloc(p, size)` does: the block, the pool and the world after it. -/
inductive Allocating (plat : Platform) (thread : Nat) (w : World) (p : Pool) (size : Nat) :
    Nat → Pool → World → Prop where
  | rejected (halign : sprAlignAllocation size = 0) :
      Allocating plat thread w p size 0 p (w.emits (unlockEvents plat thread p))
  | slots (r : Nat) (p' : Pool) (w' : World) (halign : sprAlignAllocation size ≠ 0)
      (hindex : slotIndex plat size ≤ sprMaxPoolSlot)
      (hcarve : Carving plat thread w p (sprAlignAllocation size)
        (sprGetNpages plat (sprAlignAllocation size) * plat.pageSize) (slotIndex plat size)
        r p' w') :
      Allocating plat thread w p size r p' w'
  | refused (halign : sprAlignAllocation size ≠ 0)
      (hindex : sprMaxPoolSlot < slotIndex plat size) :
      Allocating plat thread w p size 0 p
        ((w.refuse (sprAlignAllocation size)).emits (unlockEvents plat thread p))
  | oversize (a : Nat) (p' : Pool) (w₁ : World) (halign : sprAlignAllocation size ≠ 0)
      (hindex : sprMaxPoolSlot < slotIndex plat size)
      (hgrant : Grants w.live a (sprAlignAllocation size))
      (hadd : Adding plat thread (w.obtain a (sprAlignAllocation size)) p a plat.sprFree p' w₁) :
      Allocating plat thread w p size a p' (w₁.emits (unlockEvents plat thread p))

/-- An oversized block has been granted, and cannot be registered. -/
structure NoRegistration (plat : Platform) (thread : Nat) (w : World) (p : Pool) (size : Nat)
    (w₁ : World) : Prop where
  align : sprAlignAllocation size ≠ 0
  index : sprMaxPoolSlot < slotIndex plat size
  none  : ∃ a, Grants w.live a (sprAlignAllocation size) ∧
    NoRecord plat thread (w.obtain a (sprAlignAllocation size)) p w₁

theorem adding_kept {plat : Platform} {thread : Nat} {w w' : World} {p p' : Pool}
    {data handler : Nat} (h' : PoolAt plat w' p')
    (ha : Adding plat thread w p data handler p' w') :
    p'.addr = p.addr ∧ p'.mutex = p.mutex ∧ p'.owner = p.owner ∧ p'.child = p.child ∧
      p'.brother = p.brother ∧ ∃ a, p'.cleanups = ⟨a, data, handler⟩ :: p.cleanups := by
  cases ha with
  | recycled _ a fs hfrees hlive hlog => exact ⟨rfl, rfl, rfl, rfl, rfl, a, rfl⟩
  | carved _ w₁ a p₁ hfrees ha hcarve hlive hlog =>
    cases hcarve with
    | refused _ hfit hmem hlive hlog => exact absurd rfl ha
    | fit _ n hfit hlive hlog => exact ⟨rfl, rfl, rfl, rfl, rfl, _, rfl⟩
    | fresh _ a hfit hgrant hlive hlog =>
      refine ⟨addNode_addr .., ?_, ?_, ?_, ?_, _, rfl⟩ <;> (unfold Pool.addNode; split <;> rfl)

/-- **`spr_palloc`**, where the arithmetic does not wrap and a record that has to
    be carved is carved from clean memory. -/
theorem sprPalloc_cases {plat : Platform} {w : World} {p : Pool} (thread : Nat) {size : Nat}
    (h : PoolAt plat w p)
    (hwrap : slotIndex plat size ≤ sprMaxPoolSlot → sprAlignAllocation size ≠ 0 →
      NoWrap plat (sprAlignAllocation size))
    (hclean : sprMaxPoolSlot < slotIndex plat size → sprAlignAllocation size ≠ 0 →
      Grants w.live (w.answers.headD 0) (sprAlignAllocation size) → p.frees = [] →
      CleanFor p sizeofCleanupNode 0) :
    (∃ r p' w', sprPalloc plat thread p.addr size w = .ok r w' ∧ PoolAt plat w' p' ∧
      Allocating plat thread w p size r p' w' ∧ FrameOwn plat w w' p') ∨
    (∃ w₁, sprPalloc plat thread p.addr size w = .error .null w₁ ∧
      NoRegistration plat thread w p size w₁) := by
  by_cases halign : sprAlignAllocation size = 0
  · left
    -- the aligned size is 0: it has wrapped
    exact ⟨0, p, w.emits (unlockEvents plat thread p),
      sprPalloc_rejected halign (unlockPool_run h thread), h.of_eq rfl rfl, .rejected halign,
      fun b _ => rfl⟩
  by_cases hindex : slotIndex plat size ≤ sprMaxPoolSlot
  · left
    -- the request is met from a slot
    obtain ⟨hle, hmin, hal, hlt⟩ := sprAlignAllocation_bounds halign
    obtain ⟨hpages, hroom⟩ := (hwrap hindex halign).pages
    obtain ⟨r, p', w', hrun, hp', hcarve, hframe⟩ := pallocSlots_cases thread h hal
      hindex hroom (hwrap hindex halign).2
    exact ⟨r, p', w', (sprPalloc_slots halign hindex).trans hrun, hp',
      .slots r p' w' halign hindex hcarve, hframe⟩
  · -- a region of its own, which is registered to be given back
    have hbig : sprMaxPoolSlot < slotIndex plat size := Nat.lt_of_not_le hindex
    by_cases hgrant : Grants w.live (w.answers.headD 0) (sprAlignAllocation size)
    swap
    · left
      have hsys : sysAlloc (sprAlignAllocation size) w
          = .ok 0 (w.refuse (sprAlignAllocation size)) := if_neg hgrant
      have hunlock := unlockPool_run (h.of_eq (v := w.refuse (sprAlignAllocation size)) rfl rfl)
        thread
      exact ⟨0, p, (w.refuse (sprAlignAllocation size)).emits (unlockEvents plat thread p),
        sprPalloc_refused halign hbig hsys hunlock, h.of_eq rfl rfl, .refused halign hbig,
        fun b _ => rfl⟩
    · have hclean := hclean hbig halign hgrant
      have hsys : sysAlloc (sprAlignAllocation size) w = .ok (w.answers.headD 0)
          (w.obtain (w.answers.headD 0) (sprAlignAllocation size)) := if_pos hgrant
      generalize w.answers.headD 0 = a at hgrant hsys
      have hobtain := h.obtain hgrant (Nat.pos_of_ne_zero halign)
      rcases cleanupAdd1With_cases a plat.sprFree hobtain (pallocDepth_record plat thread 0 p.addr)
        hclean with ⟨p', w₁, hadd, hp', hadding, hframe⟩ | ⟨w₁, hadd, hnone⟩
      · left
        obtain ⟨haddr, hmutex, -⟩ := adding_kept hp' hadding
        have hunlock := unlockPool_run hp' thread
        rw [haddr, show unlockEvents plat thread p' = unlockEvents plat thread p by
          simp only [unlockEvents, hmutex]] at hunlock
        refine ⟨a, p', w₁.emits (unlockEvents plat thread p), ?_, hp'.of_eq rfl rfl,
          .oversize a p' w₁ halign hbig hgrant hadding, fun b hb => hframe b hb⟩
        rw [sprPalloc_oversize halign hbig hgrant.1 hsys]
        simp [hadd, hunlock]
      · right
        have hrun₁ : sprPalloc plat thread p.addr size w = .error .null w₁ := by
          rw [sprPalloc_oversize halign hbig hgrant.1 hsys, bind_run, hadd]
        exact ⟨w₁, hrun₁, halign, hbig, a, hgrant, hnone⟩

/-- **`spr_pool_cleanup_add1`.** -/
theorem sprPoolCleanupAdd1_cases {plat : Platform} {w : World} {p : Pool}
    (thread data handler : Nat) (h : PoolAt plat w p)
    (hclean : p.frees = [] → CleanFor p sizeofCleanupNode 0) :
    (∃ p' w', sprPoolCleanupAdd1 plat thread p.addr data handler w = .ok () w' ∧
      PoolAt plat w' p' ∧ Adding plat thread w p data handler p' w' ∧ FrameOwn plat w w' p') ∨
    (∃ w₁, sprPoolCleanupAdd1 plat thread p.addr data handler w = .error .null w₁ ∧
      NoRecord plat thread w p w₁) :=
  cleanupAdd1With_cases data handler h (pallocDepth_record plat thread 1 p.addr) hclean

end Spr.MemPool
