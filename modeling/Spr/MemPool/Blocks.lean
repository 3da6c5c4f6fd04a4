import Spr.MemPool.Runs

/-! # Blocks

    What a caller may rely on when `spr_palloc` gives it a block.

    * `Usable`: the block behind the pointer is as long as the request, rounded up.
    * `palloc_usable`: so it is in every plain run. -/

namespace Spr.MemPool

open Spr.Words Spr.Chains Spr.Forests

/-! ## Section 1: One allocation -/

/-- What `spr_palloc(pool, size)` gives, from the world `w` to the world `w'`. -/
structure Usable (plat : Platform) (w w' : World) (pool size r : Nat) : Prop where
  /-- The block is in memory that the system has given out. -/
  region : r ≠ 0 → ∃ s ∈ w'.live, Span.Within ⟨r, sprAlignDefault size⟩ s
  /-- It is apart from all that callers hold. -/
  apart : r ≠ 0 → ∀ b ∈ heldBlocks w'.log, Span.Disjoint ⟨r, sprAlignDefault size⟩ b.span
  /-- No step of the arithmetic has wrapped. -/
  wrap : r ≠ 0 → size + 7 < wordMod ∧
    (slotIndex plat size ≤ sprMaxPoolSlot → NoWrap plat (sprAlignAllocation size))
  /-- A memnode obtained for the request has room for it. -/
  room : slotIndex plat size ≤ sprMaxPoolSlot → ∀ m ∈ heldNodes w'.log, m ∉ heldNodes w.log →
    sprAlignAllocation size ≤ w'.mem (nodeSize m.2)
  /-- No memnode has more left than it has. -/
  avail : ∀ m ∈ heldNodes w'.log, w'.mem (nodeSizeAvail m.2) ≤ w'.mem (nodeSize m.2)

section Usable

variable {plat : Platform} {w w' : World} {p p' : Pool} {s : Session} {f : Forest Pool}

/-- No memnode of the pools has more left than it has. -/
theorem Inv.avail (h : Inv plat s f) {m : Nat × Nat} (hm : m ∈ heldNodes s.world.log) :
    s.world.mem (nodeSizeAvail m.2) ≤ s.world.mem (nodeSize m.2) := by
  obtain ⟨p, hp, -, ha⟩ := (h.nodes.held m.1 m.2).mp hm
  obtain ⟨n, hn, heq⟩ := List.mem_map.mp ha
  have hpw := h.pools.pool p hp
  have hrep := hpw.rep.nodes.node n hn
  have hlower := (hpw.wf.node n hn).lower
  have htotal := (hpw.wf.node n hn).total
  rw [← heq, hrep.sizeAvail, hrep.size]
  omega

/-- The memnode that the slot path gains is large enough. -/
theorem carving_room {thread k size index r a : Nat} (hp' : PoolAt plat w' p')
    (hc : Carving plat thread w p k size index r p' w') (hsize : k + sizeofMemnode ≤ size)
    (ha : a ∈ p'.nodeAddrs) (hnew : a ∉ p.nodeAddrs) : k ≤ w'.mem (nodeSize a) := by
  cases hc with
  | refused => exact absurd ha hnew
  | fit => exact absurd (by simpa using ha) hnew
  | fresh _ b hfit hgrant hlive hlog =>
    have hb : a = b := by
      rw [nodeAddrs_carveAt, mem_nodeAddrs_addNode] at ha
      exact ha.resolve_right hnew
    subst hb
    have hnode : freshNode a size ∈ (p.addNode index (freshNode a size)).nodes :=
      mem_addNode.mpr (Or.inl rfl)
    have hin := carveAt_mem (n := freshNode a size) (k := k) hnode
    have hmem : w'.mem (a + 24) = size - sizeofMemnode := by
      have := (hp'.rep.nodes.node _ hin).size
      rwa [if_pos rfl] at this
    rw [nodeSize, hmem]
    omega

/-- **A plain allocation is usable.** -/
theorem Inv.usable {thread pool size r : Nat} {w' : World} (h : Inv plat s f)
    (hpool : pool ∈ s.addrs) (hfits : SizeFits plat size)
    (hclean : CleanAlloc plat s.world pool size)
    (hrun : sprPalloc plat thread pool size s.world = .ok r w') :
    Usable plat s.world w' pool size r := by
  obtain ⟨p, hp, rfl, p', halloc, -, hinv, hheld⟩ := h.palloc hpool hfits hclean hrun
  -- handing out is only logged
  have hnodes : ∀ m, m ∈ heldNodes (handOut p.addr r size w').log ↔ m ∈ heldNodes w'.log := by
    intro m
    unfold handOut
    split
    · exact Iff.rfl
    · simp [heldNodes, nodeStep]
  have hmem : (handOut p.addr r size w').mem = w'.mem := by
    unfold handOut
    split <;> rfl
  have hlive : (handOut p.addr r size w').live = w'.live := by
    unfold handOut
    split <;> rfl
  have hblock : r ≠ 0 → heldBlocks (handOut p.addr r size w').log
      = ⟨p.addr, r, size⟩ :: heldBlocks w'.log := by
    intro hr
    rw [handOut, if_neg hr, emit_log, heldBlocks_handed]
  have hlong : ∀ {b : Span}, r ≠ 0 → Span.Disjoint ⟨r, sprAlignAllocation size⟩ b →
      Span.Disjoint ⟨r, sprAlignDefault size⟩ b := by
    intro b hr hdis
    have := sprAlignDefault_le (hheld hr).2
    simp only [Span.Disjoint] at hdis ⊢
    omega
  refine ⟨fun hr => ?_, fun hr b hb => ?_, fun hr => ?_, fun hindex m hm hnew => ?_, fun m hm => ?_⟩
  · have hle := sprAlignDefault_le (hheld hr).2
    obtain ⟨region, hregion, hin⟩ := (hinv.blocks.place ⟨p.addr, r, size⟩
      (by rw [hblock hr]; exact List.mem_cons_self)).in_live hinv.pools
    rw [hlive] at hregion
    refine ⟨region, hregion, ?_⟩
    simp only [Span.Within, Block.span] at hin ⊢
    omega
  · have hpair := hinv.blocks.apart
    rw [hblock hr] at hpair
    exact hlong hr ((List.pairwise_cons.mp hpair).1 b hb)
  · exact ⟨(sprAlignAllocation_eq (hheld hr).2).2, hfits (hheld hr).2⟩
  · -- a memnode that was not there before has been made by this call
    obtain ⟨q, hq, hqm, ha⟩ := (hinv.nodes.held m.1 m.2).mp ((hnodes m).mpr hm)
    obtain ⟨rest, hold, -, hnext⟩ := Forest.split_at h.nodup hp
    have hnext := hnext fun _ cs => (p', cs)
    have hout : ∀ q ∈ f.toList, q.addr = m.1 → m.2 ∉ q.nodeAddrs := fun q hq hqm ha =>
      hnew ((h.nodes.held m.1 m.2).mpr ⟨q, hq, hqm, ha⟩)
    rcases List.mem_cons.mp (hnext.mem_iff.mp hq) with hself | hrest
    swap
    · exact absurd ha (hout q (hold.mem_iff.mpr (List.mem_cons_of_mem _ hrest)) hqm)
    have hq' := hinv.pools.pool _ hq
    rw [hself] at hq' ha hqm
    cases halloc with
    | rejected => exact absurd ha (hout _ hp hqm)
    | refused => exact absurd ha (hout _ hp hqm)
    | oversize _ _ _ _ hover => exact absurd hover (Nat.not_lt.mpr hindex)
    | slots _ _ _ halign _ hcarve =>
      have hat : PoolAt plat w' p' := hq'.of_eq hmem.symm hlive.symm
      exact carving_room hat hcarve (hfits halign hindex).pages.2.le ha
        (hout p hp ((carving_kept hat hcarve).1.symm.trans hqm))
  · rw [← hmem]
    exact hinv.avail ((hnodes m).mpr hm)

/-- **Allocations in plain runs are usable.** -/
theorem palloc_usable (plat : Platform) (s : Session) (thread pool size r : Nat) (w' : World)
    (h : Reachable plat (Session.Plain plat) s) (hop : s.Plain plat (.palloc thread pool size))
    (hrun : sprPalloc plat thread pool size s.world = .ok r w') :
    Usable plat s.world w' pool size r := by
  obtain ⟨f, hinv⟩ := reachable_inv h
  exact hinv.usable hop.1 hop.2.1.1 hop.2.1.2 hrun

/-- A block of 100 bytes. -/
theorem palloc_usable_small : ∃ s r w', Reachable machine (Session.Plain machine) s ∧
    sprPalloc machine 1 65584 100 s.world = .ok r w' ∧ r = 65840 ∧
      Usable machine s.world w' 65584 100 r := by
  have hrun : ((session.run machine (Session.Plain machine) [.create 1 0 0]).any fun s =>
      s.Plain machine (.palloc 1 65584 100) ∧
        (match sprPalloc machine 1 65584 100 s.world with
          | .ok r _ => decide (r = 65840)
          | .error _ _ => false) = true) = true := by decide +kernel
  obtain ⟨s, hs, hfacts⟩ := (Option.any_eq_true _ _).mp hrun
  obtain ⟨hplain, hblock⟩ := of_decide_eq_true hfacts
  have hreach := reachable_run (.start session initial_session) hs
  cases hpalloc : sprPalloc machine 1 65584 100 s.world with
  | error e w' => rw [hpalloc] at hblock; cases hblock
  | ok r w' =>
    rw [hpalloc] at hblock
    exact ⟨s, r, w', hreach, hpalloc, of_decide_eq_true hblock,
      palloc_usable machine s 1 65584 100 r w' hreach hplain hpalloc⟩

/-- A request of `2^64 - 48` bytes: the sum with the memnode's fields wraps to nothing,
    and the request is cut off a page. -/
theorem palloc_wraps : ¬ ∀ (plat : Platform) (s : Session) (thread pool size r : Nat) (w' : World),
    Reachable plat (Session.Plain plat) s → s.Legal plat (.palloc thread pool size) →
    sprPalloc plat thread pool size s.world = .ok r w' → Usable plat s.world w' pool size r := by
  intro hall
  have hrun : ((session.run machine (Session.Plain machine) [.create 1 0 0]).any fun s =>
      s.Legal machine (.palloc 1 65584 (2 ^ 64 - 48)) ∧
        (match sprPalloc machine 1 65584 (2 ^ 64 - 48) s.world with
          | .ok _ w' => decide ((65584, 131072) ∈ heldNodes w'.log ∧
              w'.mem (nodeSize 131072) < w'.mem (nodeSizeAvail 131072))
          | .error _ _ => false) = true) = true := by decide +kernel
  obtain ⟨s, hs, hfacts⟩ := (Option.any_eq_true _ _).mp hrun
  obtain ⟨hlegal, hwrap⟩ := of_decide_eq_true hfacts
  have hreach := reachable_run (.start session initial_session) hs
  cases hpalloc : sprPalloc machine 1 65584 (2 ^ 64 - 48) s.world with
  | error e w' => rw [hpalloc] at hwrap; cases hwrap
  | ok r w' =>
    rw [hpalloc] at hwrap
    obtain ⟨hnode, hless⟩ := of_decide_eq_true hwrap
    exact absurd ((hall machine s 1 65584 _ r w' hreach hlegal hpalloc).avail _ hnode)
      (Nat.not_le.mpr hless)

end Usable

end Spr.MemPool
