import Spr.MemPool.Invariant

/-! # The steps of a run

    * `cleanAt_iff`, `freedAt_eq`: the conditions on the memory, in terms of the
      pools.
    * `Step`: everything a call can do to the session and to the forest.
    * `step_palloc`, `step_pcalloc`, `step_add`, …: the calls on one pool. -/

namespace Spr.MemPool

open Spr.Words Spr.Chains Spr.Forests

/-! ## Section 1: The conditions -/

section Conditions

variable {plat : Platform} {w : World} {p : Pool} {ps : List Pool}

theorem PoolAt.frees_length (h : PoolAt plat w p) : p.frees.length < addressSpace := by
  have hchain := h.rep.records.frees
  refine length_lt_of_nodup (chain_nodup hchain) (fun a ha => ?_) (chain_ne_null hchain)
  obtain ⟨-, n, hn, hin⟩ := h.wf.inBody a (List.mem_append_right _ ha)
  have hupper := (h.wf.node n hn).upper
  have hfits := (h.wf.node n hn).fits
  simp only [Span.Within, Memnode.body, sizeofCleanupNode] at hin
  omega

theorem walk_cleanups (h : PoolAt plat w p) :
    walk w.mem 0 addressSpace (w.mem (p.addr + 184)) = p.cleanups.map Record.addr :=
  walk_of_chain h.rep.records.cleanups (by
    rw [List.length_map]
    exact h.cleanups_length.le)

theorem listedAt_eq (h : PoolAt plat w p) : listedAt w p.addr = p.listed := by
  rw [listedAt, poolCleanups, poolFreeCleanups, walk_cleanups h,
    walk_of_chain h.rep.records.frees h.frees_length.le]
  rfl

theorem freedAt_eq (h : PoolAt plat w p) : freedAt plat w p.addr = p.freed plat := by
  have hstep : ∀ rs : List Record, (∀ r ∈ rs, w.mem (r.addr + 8) = r.data ∧
      w.mem (r.addr + 16) = r.handler) → ((rs.map Record.addr).filter fun a =>
        w.mem (a + 16) = plat.sprFree).map (fun a => w.mem (a + 8)) = freedBy plat rs := by
    intro rs
    induction rs with
    | nil => intro _; rfl
    | cons r rs ih =>
      intro hholds
      obtain ⟨hd, hh⟩ := hholds r List.mem_cons_self
      have hrest := ih fun r' hr' => hholds r' (List.mem_cons_of_mem _ hr')
      rw [freedBy_cons, List.map_cons]
      by_cases hf : r.handler = plat.sprFree
      · rw [List.filter_cons_of_pos (by simp [hh, hf]), if_pos hf, List.map_cons, hd, hrest]
      · rw [List.filter_cons_of_neg (by simp [hh, hf]), if_neg hf, hrest]
  rw [freedAt, poolCleanups, walk_cleanups h]
  exact hstep p.cleanups h.rep.records.record

/-- The condition on the memory is the one on the pool. -/
theorem cleanAt_iff (h : PoolAt plat w p) {k index : Nat} (hindex : index ≤ sprMaxPoolSlot) :
    CleanAt w p.addr k index ↔ CleanFor p k index := by
  have hsearch : searchSlots w.mem p.addr k index (sprMaxPoolSlot - index)
      = some (addrOf (firstFit k (p.fromSlot index))) := searchSlots_spec h k (by omega)
  unfold CleanAt CleanFor
  rw [hsearch, listedAt_eq h]
  cases hfit : firstFit k (p.fromSlot index) with
  | none => simp [addrOf]
  | some n =>
    have hn := Pool.fromSlot_nodes (firstFit_some hfit).1
    have hne := (h.wf.node n hn).ne_null
    simp [addrOf, hne, (h.rep.nodes.node n hn).firstAvail]

theorem cleanRecord_iff (h : PoolAt plat w p) :
    CleanRecord w p.addr ↔ (p.frees = [] → CleanFor p sizeofCleanupNode 0) := by
  have hnil : w.mem (p.addr + 192) = 0 ↔ p.frees = [] := by
    have hchain := h.rep.records.frees
    cases hf : p.frees with
    | nil => rw [hf] at hchain; exact ⟨fun _ => rfl, fun _ => hchain⟩
    | cons a fs =>
      rw [hf] at hchain
      refine ⟨fun h0 => ?_, fun h => by cases h⟩
      exact absurd (hchain.1.symm.trans h0) hchain.2.1
  unfold CleanRecord
  rw [poolFreeCleanups, hnil, cleanAt_iff h (Nat.zero_le _)]

end Conditions

/-! ## Section 2: Allocation -/

section Allocation

variable {plat : Platform} {thread size r : Nat} {w w' : World} {p p' : Pool} {rest : List Pool}

/-- **The block of an allocation** is in a place of its own. -/
theorem allocating_block (h : PoolsAt plat w (p :: rest)) (h' : PoolsAt plat w' (p' :: rest))
    (hwrap : SizeFits plat size)
    (hclean : slotIndex plat size ≤ sprMaxPoolSlot → sprAlignAllocation size ≠ 0 →
      CleanFor p (sprAlignAllocation size) (slotIndex plat size))
    (ha : Allocating plat thread w p size r p' w') (hr : r ≠ 0) :
    sprAlignAllocation size ≠ 0 ∧ r % 8 = 0 ∧
      BlockAt plat w' (p' :: rest) ⟨p.addr, r, size⟩ ∧
      ∀ c, BlockAt plat w (p :: rest) c → BlockAt plat w' (p' :: rest) c →
        Span.Disjoint ⟨r, sprAlignAllocation size⟩ c.span := by
  have hp := h.pool p List.mem_cons_self
  have hp' := h'.pool p' List.mem_cons_self
  cases ha with
  | rejected halign => exact absurd rfl hr
  | refused halign hindex => exact absurd rfl hr
  | slots r p' w' halign hindex hcarve =>
    have hroom := (hwrap halign hindex).pages.2.le
    obtain ⟨haddr, hlisted, -⟩ := carving_kept hp' hcarve
    obtain ⟨hal, hused, hold⟩ := (carving_used hp hcarve hroom).2 hr
    have hrecords := carving_clean hp hcarve hroom (hclean hindex halign) hr
    refine ⟨halign, hal, .slot p' List.mem_cons_self haddr hindex hused
      (by rw [hlisted]; exact hrecords), fun c hc hc' => ?_⟩
    -- blocks of other pools and big blocks are apart by their regions
    have hother : p.addr ≠ c.pool ∨ sprMaxPoolSlot < slotIndex plat c.size →
        Span.Disjoint ⟨r, sprAlignAllocation size⟩ c.span := fun hne => by
      rw [← haddr] at hne
      exact h'.used_apart List.mem_cons_self hused hc' hne
    cases hc with
    | slot q hq hqaddr hqindex hqused hqrecords =>
      by_cases heq : p.addr = c.pool
      · obtain rfl : q = p := List.inj_on_of_nodup_map h.addrs_nodup hq List.mem_cons_self
          (hqaddr.trans heq.symm)
        exact hold _ hqused
      · exact hother (Or.inl heq)
    | big hqindex hlive hnode => exact hother (Or.inr hqindex)
  | oversize a p' w₁ halign hindex hgrant hadd =>
    have hsize := Nat.pos_of_ne_zero halign
    -- the region is new, and no memnode begins there
    have hfresh : ∀ s ∈ w.live, s.start ≠ r := fun s hs => hgrant.fresh h.live hsize hs
    have hobtain := hp.obtain hgrant hsize
    have hgrow := adding_grows hobtain hadd
    refine ⟨halign, hgrant.2.1, .big hindex (hgrow.live _ List.mem_cons_self) fun hin => ?_,
      fun c hc hc' => ?_⟩
    · rw [List.flatMap_cons, List.mem_append] at hin
      rcases hin with hin | hin
      · rcases hgrow.nodes _ hin with hin | hin
        · obtain ⟨n, hn, heq⟩ := List.mem_map.mp hin
          exact hfresh _ (hp.held n hn) heq
        · exact hin _ List.mem_cons_self rfl
      · obtain ⟨s, hs, heq⟩ := h.tail.held hin
        exact hfresh s hs heq
    · cases hc with
      | slot q hq hqaddr hqindex hqused hqrecords =>
        obtain ⟨n, hn, hregion, -⟩ := (h.pool q hq).used_within hqused
        exact ((hgrant.2.2.2 _ ((h.pool q hq).held n hn)).symm.mono hregion).symm
      | big hqindex hlive hnode => exact hgrant.2.2.2 _ hlive

end Allocation

/-! ## Section 3: Steps -/

/-- The memory after `spr_pcalloc` has cleared the block. -/
def clearBlock (r size : Nat) (w : World) : World :=
  if r = 0 then w else { w with mem := zeroed w.mem r size }

/-- The pools `child` and `parent` after the one has been put under the other. -/
def linkPools (child parent : Pool) : Pool × Pool :=
  (child.withLinks parent.addr parent.child child.child,
    parent.withLinks parent.parent parent.brother child.addr)

/-- **What a call does**: to the session `s`, and to the forest `f` of the pools. -/
inductive Step (plat : Platform) (s : Session) (f : Forest Pool) :
    Op → Session → Forest Pool → Prop where
  | createFailed (thread size parent : Nat) (w' : World) (evs : List Event)
      (hevs : FailedLog s.world.live evs) (hlog : w'.log = s.world.log ++ evs) :
      Step plat s f (.create thread size parent) ⟨w', s.family⟩ f
  | createRoot (thread size a : Nat) (w' : World)
      (hgrant : Grants s.world.live a (createBytes plat size))
      (hindex : createIndex plat size ≤ sprMaxPoolSlot)
      (hlog : w'.log = s.world.log ++ [.obtained a (createBytes plat size), .allocated a,
        .registered (a + sizeofMemnode) a]) :
      Step plat s f (.create thread size 0)
        ⟨w', adopt 0 ⟨a + sizeofMemnode, thread⟩ s.family⟩
        (.node (madePool plat thread size a none) .nil f)
  | createChild (thread size a : Nat) (q : Pool) (w' : World) (hq : q ∈ f.toList)
      (hgrant : Grants s.world.live a (createBytes plat size))
      (hindex : createIndex plat size ≤ sprMaxPoolSlot)
      (hlog : w'.log = s.world.log ++ [.obtained a (createBytes plat size), .allocated a,
        .registered (a + sizeofMemnode) a]) :
      Step plat s f (.create thread size q.addr)
        ⟨w', adopt q.addr ⟨a + sizeofMemnode, thread⟩ s.family⟩
        (f.splice Pool.addr q.addr fun q cs =>
          (q.withLinks q.parent q.brother (a + sizeofMemnode),
            .node (madePool plat thread size a (some q)) .nil cs))
  | addChild (p q : Pool) (w' : World) (hp : p ∈ f.roots) (hq : q ∈ f.toList)
      (hne : q.addr ≠ p.addr) (hout : q ∉ (f.childrenAt Pool.addr p.addr).toList)
      (hlog : w'.log = s.world.log) :
      Step plat s f (.addChild q.addr p.addr) ⟨w', rehome q.addr p.addr s.family⟩
        (f.graft Pool.addr p.addr q.addr linkPools)
  | palloc (thread size r : Nat) (p p' : Pool) (w' : World) (hp : p ∈ f.toList)
      (halloc : Allocating plat thread s.world p size r p' w') :
      Step plat s f (.palloc thread p.addr size) ⟨handOut p.addr r size w', s.family⟩
        (replace f p p')
  | pcalloc (thread size r : Nat) (p p' : Pool) (w' : World) (hp : p ∈ f.toList)
      (halloc : Allocating plat thread s.world p size r p' w') :
      Step plat s f (.pcalloc thread p.addr size)
        ⟨handOut p.addr r size (clearBlock r size w'), s.family⟩ (replace f p p')
  | add (thread data handler : Nat) (p p' : Pool) (w' : World) (hp : p ∈ f.toList)
      (hadd : Adding plat thread s.world p data handler p' w') :
      Step plat s f (.cleanupAdd thread p.addr data handler) ⟨w', s.family⟩ (replace f p p')
  | run (thread data handler : Nat) (p p' : Pool) (w' : World) (hp : p ∈ f.toList)
      (htake : Taking plat thread (useRun plat) s.world p data handler p' w') :
      Step plat s f (.cleanupRun thread p.addr data handler) ⟨w', s.family⟩ (replace f p p')
  | remove (thread data handler : Nat) (p p' : Pool) (w' : World) (hp : p ∈ f.toList)
      (htake : Taking plat thread useRemove s.world p data handler p' w') :
      Step plat s f (.cleanupRemove thread p.addr data handler) ⟨w', s.family⟩ (replace f p p')
  | clear (thread : Nat) (p : Pool) (w' : World) (hp : p ∈ f.toList)
      (hlog : w'.log = s.world.log ++ clearEvents plat thread p
        (clearLog plat thread (f.childrenAt Pool.addr p.addr))) :
      Step plat s f (.clear thread p.addr) ⟨w', s.family⟩
        (f.splice Pool.addr p.addr (clearTree plat thread))
  | destroy (thread : Nat) (p : Pool) (w' : World) (hp : p ∈ f.roots)
      (howned : ∀ q ∈ p :: (f.childrenAt Pool.addr p.addr).toList, Owned plat thread q)
      (hlog : w'.log = s.world.log ++ destroyEvents plat .plain thread p
        (destroyLog plat .plain thread (f.childrenAt Pool.addr p.addr))) :
      Step plat s f (.destroy thread p.addr) ⟨w', s.family.remove Member.addr p.addr⟩
        (f.remove Pool.addr p.addr)
  | write (addr value : Nat) :
      Step plat s f (.write addr value) ⟨s.world.store addr value, s.family⟩ f

/-! ## Section 4: Calls on one pool -/

section Steps

variable {plat : Platform} {s s' : Session} {f : Forest Pool}

/-- What a call leads to: a step, and the invariant after it. -/
def Leads (plat : Platform) (s : Session) (f : Forest Pool) (op : Op) (s' : Session) : Prop :=
  ∃ f', Step plat s f op s' f' ∧ Inv plat s' f'

/-- An allocation on a clean pool, and a block that is not `NULL` is held. -/
theorem Inv.palloc {thread pool size r : Nat} {w' : World} (h : Inv plat s f)
    (hpool : pool ∈ s.addrs) (hfits : SizeFits plat size)
    (hclean : CleanAlloc plat s.world pool size)
    (hrun : sprPalloc plat thread pool size s.world = .ok r w') :
    ∃ p ∈ f.toList, p.addr = pool ∧ ∃ p', Allocating plat thread s.world p size r p' w' ∧
      FrameOwn plat s.world w' p' ∧ Inv plat ⟨handOut pool r size w', s.family⟩ (replace f p p') ∧
      (r ≠ 0 → ⟨pool, r, size⟩ ∈ heldBlocks (handOut pool r size w').log ∧
        sprAlignAllocation size ≠ 0) := by
  obtain ⟨p, hp, rfl⟩ := h.find hpool
  have hpw := h.pools.pool p hp
  have hregs := h.pools.registered hp
  have hslot : slotIndex plat size ≤ sprMaxPoolSlot → sprAlignAllocation size ≠ 0 →
      CleanFor p (sprAlignAllocation size) (slotIndex plat size) := by
    intro hindex halign
    have := hclean halign
    rw [if_pos hindex] at this
    exact (cleanAt_iff hpw hindex).mp this
  have hbig : sprMaxPoolSlot < slotIndex plat size → sprAlignAllocation size ≠ 0 →
      Grants s.world.live (s.world.answers.headD 0) (sprAlignAllocation size) → p.frees = [] →
      CleanFor p sizeofCleanupNode 0 := by
    intro hindex halign hgrant
    have := hclean halign
    rw [if_neg (Nat.not_le.mpr hindex)] at this
    exact (cleanRecord_iff hpw).mp (this hgrant)
  -- the call has returned, so it has not stored through `NULL`
  rcases sprPalloc_cases thread hpw (fun hi ha => hfits ha hi) hbig with
    ⟨r', p', w₁, hrun', hp', halloc, hframe⟩ | ⟨w₁, hrun', -⟩
  swap
  · rw [hrun] at hrun'
    cases hrun'
  rw [hrun] at hrun'
  obtain ⟨rfl, rfl⟩ : r = r' ∧ w' = w₁ := by
    injection hrun' with h₁ h₂
    exact ⟨h₁, h₂⟩
  obtain ⟨evs, hcall⟩ := allocating_call hpw hregs (fun hi ha => hfits ha hi) halloc hp'
    (hframe.out hp'.wf)
  have hnew := (allocating_moves hpw hregs (fun hi ha => hfits ha hi) halloc hp'
    (hframe.out hp'.wf)).2
  have hinv := h.call hp hcall fun rest hperm => Foreign.of_fresh (h.pools.perm hperm) hnew
  refine ⟨p, hp, rfl, p', halloc, hframe, ?_⟩
  by_cases hr : r = 0
  · rw [handOut, if_pos hr]
    exact ⟨hinv, fun hne => absurd hr hne⟩
  · rw [handOut, if_neg hr]
    obtain ⟨rest, hold, -, hrest⟩ := Forest.split_at h.nodup hp
    have hrest := hrest fun _ cs => (p', cs)
    obtain ⟨halign, hal, hplace, hapart⟩ := allocating_block (h.pools.perm hold)
      (hinv.pools.perm hrest) hfits hslot halloc hr
    have hsub := (heldBlocks_append s.world.log hcall.nodes.hands).1
    rw [← hcall.log] at hsub
    refine ⟨hinv.hand (b := ⟨p.addr, r, size⟩) (hplace.perm hrest.symm) hal halign
      fun c hc => ?_, fun _ => ⟨?_, halign⟩⟩
    · exact hapart c ((h.blocks.place c (hsub.subset hc)).perm hold)
        ((hinv.blocks.place c hc).perm hrest)
    · rw [emit_log, heldBlocks_handed]
      exact List.mem_cons_self

/-- **`spr_palloc`.** -/
theorem step_palloc {thread pool size : Nat} (h : Inv plat s f)
    (hlegal : s.Legal plat (.palloc thread pool size))
    (hclean : s.Clean plat (.palloc thread pool size))
    (hexec : s.exec plat (.palloc thread pool size) = some s') :
    Leads plat s f (.palloc thread pool size) s' := by
  cases hrun : sprPalloc plat thread pool size s.world with
  | error e w₁ => simp [Session.exec, hrun, returned] at hexec
  | ok r w' =>
    obtain ⟨p, hp, rfl, p', halloc, -, hinv, -⟩ := h.palloc hlegal hclean.1 hclean.2 hrun
    simp only [Session.exec, hrun, returned, Option.some.injEq] at hexec
    subst hexec
    exact ⟨_, .palloc thread size r p p' w' hp halloc, hinv⟩

/-- **`spr_pcalloc`.** -/
theorem step_pcalloc {thread pool size : Nat} (h : Inv plat s f)
    (hlegal : s.Legal plat (.pcalloc thread pool size))
    (hclean : s.Clean plat (.pcalloc thread pool size))
    (hexec : s.exec plat (.pcalloc thread pool size) = some s') :
    Leads plat s f (.pcalloc thread pool size) s' := by
  cases hrun : sprPalloc plat thread pool size s.world with
  | error e w₁ => simp [Session.exec, sprPcalloc, hrun, returned] at hexec
  | ok r w' =>
    obtain ⟨p, hp, rfl, p', halloc, -, hinv, hheld⟩ := h.palloc hlegal hclean.1 hclean.2 hrun
    have hs' : s' = ⟨handOut p.addr r size (clearBlock r size w'), s.family⟩ := by
      by_cases hr : r = 0
      · simpa [Session.exec, sprPcalloc, hrun, returned, hr, clearBlock] using hexec.symm
      · simpa [Session.exec, sprPcalloc, hrun, returned, hr, clearBlock] using hexec.symm
    subst hs'
    refine ⟨_, .pcalloc thread size r p p' w' hp halloc, ?_⟩
    by_cases hr : r = 0
    · rw [clearBlock, if_pos hr]
      exact hinv
    · -- the block that is cleared is held
      obtain ⟨hmem, halign⟩ := hheld hr
      rw [handOut, if_neg hr] at hinv hmem ⊢
      rw [clearBlock, if_neg hr]
      refine hinv.scribble hmem fun a ha => zeroed_of_not_covers fun hc => ha ?_
      have hle := (sprAlignAllocation_bounds halign).1
      simp only [Span.Covers, Block.span] at hc ⊢
      omega

/-- **A store of a caller to its own memory.** -/
theorem step_write {addr value : Nat} (h : Inv plat s f)
    (hlegal : s.Legal plat (.write addr value))
    (hexec : s.exec plat (.write addr value) = some s') :
    Leads plat s f (.write addr value) s' := by
  obtain ⟨-, b, hb, hc⟩ := hlegal
  obtain rfl : s' = ⟨s.world.store addr value, s.family⟩ := (Option.some.inj hexec).symm
  refine ⟨f, .write addr value, h.scribble hb fun a ha => Function.update_of_ne ?_ _ _⟩
  rintro rfl
  exact ha hc

/-- What the caller may register for `spr_free` is foreign to all pools. -/
theorem ownRegion_spec {data handler : Nat} {p : Pool} (h : Inv plat s f) (hp : p ∈ f.toList)
    (hown : OwnRegion plat s data handler) (hf : handler = plat.sprFree) :
    ((∃ r ∈ s.world.live, r.start = data) ∧ data ∉ p.nodeAddrs ∧ data ∉ p.freed plat) ∧
      ∀ q ∈ f.toList, data ∉ q.nodeAddrs ∧ data ∉ q.freed plat := by
  obtain ⟨hlive, hout, hreg⟩ := hown hf
  have hall : ∀ q ∈ f.toList, data ∉ q.nodeAddrs ∧ data ∉ q.freed plat := by
    intro q hq
    refine ⟨fun hin => hout ((h.nodes.out data).mpr (List.mem_flatMap.mpr ⟨q, hq, hin⟩)),
      fun hin => ?_⟩
    have haddr : q.addr ∈ s.addrs := by
      rw [Session.addrs, ← h.family, Forest.toList_map, List.map_map]
      exact List.mem_map_of_mem (f := Pool.addr) hq
    refine hreg q.addr haddr ?_
    rwa [freedAt_eq (h.pools.pool q hq)]
  exact ⟨⟨hlive, hall p hp⟩, hall⟩

/-- Adding a record keeps the invariant. -/
theorem Inv.adding {thread data handler : Nat} {p p' : Pool} {w' : World} (h : Inv plat s f)
    (hp : p ∈ f.toList) (hown : OwnRegion plat s data handler)
    (hadd : Adding plat thread s.world p data handler p' w') (hp' : PoolAt plat w' p')
    (hframe : FrameOut s.world w' p') : Inv plat ⟨w', s.family⟩ (replace f p p') := by
  have hpw := h.pools.pool p hp
  have hregs := h.pools.registered hp
  have hdata := fun hf => (ownRegion_spec h hp hown hf).1
  obtain ⟨evs, hcall⟩ := adding_call hpw hregs hadd hp' hframe hdata
  have hnew := (adding_moves hpw hregs hadd hp' hframe hdata).2
  refine h.call hp hcall fun rest hperm a ha => (hnew a ha).imp_right ?_
  rintro ⟨hf, rfl⟩
  have hall := (ownRegion_spec h hp hown hf).2
  refine ⟨fun hin => ?_, fun hin => ?_⟩ <;> obtain ⟨q, hq, hin⟩ := List.mem_flatMap.mp hin
  · exact (hall q (hperm.mem_iff.mpr (List.mem_cons_of_mem _ hq))).2 hin
  · exact (hall q (hperm.mem_iff.mpr (List.mem_cons_of_mem _ hq))).1 hin

/-- **`spr_pool_cleanup_add1`.** -/
theorem step_add {thread pool data handler : Nat} (h : Inv plat s f)
    (hlegal : s.Legal plat (.cleanupAdd thread pool data handler))
    (hclean : s.Clean plat (.cleanupAdd thread pool data handler))
    (hexec : s.exec plat (.cleanupAdd thread pool data handler) = some s') :
    Leads plat s f (.cleanupAdd thread pool data handler) s' := by
  obtain ⟨hrecord, hown⟩ := hclean
  obtain ⟨p, hp, rfl⟩ := h.find hlegal
  have hpw := h.pools.pool p hp
  rcases sprPoolCleanupAdd1_cases thread data handler hpw ((cleanRecord_iff hpw).mp hrecord) with
    ⟨p', w', hrun, hp', hadd, hframe⟩ | ⟨w₁, hrun, -⟩
  swap
  · simp [Session.exec, hrun, returned] at hexec
  simp only [Session.exec, hrun, returned, Option.some.injEq] at hexec
  subst hexec
  exact ⟨_, .add thread data handler p p' w' hp hadd,
    h.adding hp hown hadd hp' (hframe.out hp'.wf)⟩

/-- Taking a record keeps the invariant. -/
theorem Inv.taking {thread data handler : Nat} {use : Use} {p p' : Pool} {w' : World}
    {pre seen : List Record} (h : Inv plat s f) (hp : p ∈ f.toList) (huse : use.Logged plat)
    (hseen : p.cleanups = pre ++ seen)
    (ht : TakingFrom plat thread use s.world p pre seen data handler p' w')
    (hp' : PoolAt plat w' p') (hframe : FrameOut s.world w' p') :
    Inv plat ⟨w', s.family⟩ (replace f p p') := by
  have hregs := h.pools.registered hp
  obtain ⟨evs, hcall⟩ := taking_call hregs huse hseen ht hp' hframe
  exact h.call hp hcall fun rest _ =>
    Foreign.of_subset (taking_moves hregs huse.mild hseen ht hp' hframe).2

/-- **`spr_pool_cleanup_run1`.** -/
theorem step_run {thread pool data handler : Nat} (h : Inv plat s f)
    (hlegal : s.Legal plat (.cleanupRun thread pool data handler))
    (hexec : s.exec plat (.cleanupRun thread pool data handler) = some s') :
    Leads plat s f (.cleanupRun thread pool data handler) s' := by
  obtain ⟨p, hp, rfl⟩ := h.find hlegal
  obtain ⟨p', w', hrun, hp', ht, hframe⟩ := sprPoolCleanupRun1_cases thread data handler
    (h.pools.pool p hp) (h.pools.keeps hp hp)
  simp only [Session.exec, hrun, returned, Option.some.injEq] at hexec
  subst hexec
  exact ⟨_, .run thread data handler p p' w' hp ht,
    h.taking hp (useRun_logged plat) rfl ht.from hp' hframe⟩

/-- **`spr_pool_cleanup_remove1`.** -/
theorem step_remove {thread pool data handler : Nat} (h : Inv plat s f)
    (hlegal : s.Legal plat (.cleanupRemove thread pool data handler))
    (hexec : s.exec plat (.cleanupRemove thread pool data handler) = some s') :
    Leads plat s f (.cleanupRemove thread pool data handler) s' := by
  obtain ⟨p, hp, rfl⟩ := h.find hlegal
  obtain ⟨p', w', hrun, hp', ht, hframe⟩ := sprPoolCleanupRemove1_cases thread data handler
    (h.pools.pool p hp)
  simp only [Session.exec, hrun, returned, Option.some.injEq] at hexec
  subst hexec
  exact ⟨_, .remove thread data handler p p' w' hp ht,
    h.taking hp (useRemove_logged plat) rfl ht.from hp' hframe⟩

end Steps

end Spr.MemPool
