import Spr.MemPool.Loops

/-! # Several pools

    * `PoolsAt`: pools that share one world, and what is registered for
      `spr_free`.
    * `Moves`: what a call on one pool may do to it.
    * `PoolsAt.step`: such a call leaves the others in place.
    * `Moves` of the calls on a single pool. -/

namespace Spr.MemPool

open Spr.Words Spr.Chains

/-! ## Section 1: Pools side by side -/

/-- The addresses of the pool's memnodes. -/
def Pool.nodeAddrs (p : Pool) : List Nat := p.nodes.map Memnode.addr

/-- What the records of a list give to `spr_free`. -/
def freedBy (plat : Platform) (rs : List Record) : List Nat :=
  (rs.filter fun r => r.handler = plat.sprFree).map Record.data

/-- What is registered with the pool for `spr_free`. -/
def Pool.freed (plat : Platform) (p : Pool) : List Nat := freedBy plat p.cleanups

/-- **Pools share a world**: no memnode belongs to two of them, and what is
    registered for `spr_free` is given out, is not a memnode, and is registered
    once. -/
structure PoolsAt (plat : Platform) (w : World) (ps : List Pool) : Prop where
  pool   : ∀ p ∈ ps, PoolAt plat w p
  apart  : (ps.flatMap Pool.nodeAddrs).Nodup
  once   : (ps.flatMap (Pool.freed plat)).Nodup
  region : ∀ a ∈ ps.flatMap (Pool.freed plat),
    (∃ s ∈ w.live, s.start = a) ∧ a ∉ ps.flatMap Pool.nodeAddrs
  live   : LiveOk w.live

section Basics

variable {plat : Platform} {w w' : World} {ps qs : List Pool} {p q : Pool}

theorem PoolsAt.perm (h : PoolsAt plat w ps) (hp : ps.Perm qs) : PoolsAt plat w qs := by
  have hnodes := hp.flatMap_right Pool.nodeAddrs
  have hfreed := hp.flatMap_right (Pool.freed plat)
  refine ⟨fun p hpq => h.pool p (hp.mem_iff.mpr hpq), hnodes.nodup_iff.mp h.apart,
    hfreed.nodup_iff.mp h.once, fun a ha => ?_, h.live⟩
  obtain ⟨hs, hout⟩ := h.region a (hfreed.mem_iff.mpr ha)
  exact ⟨hs, fun hin => hout (hnodes.mem_iff.mpr hin)⟩

theorem PoolsAt.of_eq {v : World} (h : PoolsAt plat w ps) (hmem : v.mem = w.mem)
    (hlive : v.live = w.live) : PoolsAt plat v ps :=
  ⟨fun p hp => (h.pool p hp).of_eq hmem hlive, h.apart, h.once, by rw [hlive]; exact h.region,
    by rw [hlive]; exact h.live⟩

theorem PoolsAt.obtain (h : PoolsAt plat w ps) {a size : Nat} (hg : Grants w.live a size)
    (hsize : 0 < size) : PoolsAt plat (w.obtain a size) ps := by
  refine ⟨fun p hp => (h.pool p hp).obtain hg hsize, h.apart, h.once, fun b hb => ?_,
    liveOk_obtain h.live hg hsize⟩
  obtain ⟨⟨s, hs, heq⟩, hout⟩ := h.region b hb
  exact ⟨⟨s, List.mem_cons_of_mem _ hs, heq⟩, hout⟩

theorem PoolsAt.tail (h : PoolsAt plat w (p :: ps)) : PoolsAt plat w ps := by
  have hnodes := h.apart
  have hfreed := h.once
  rw [List.flatMap_cons] at hnodes hfreed
  refine ⟨fun q hq => h.pool q (List.mem_cons_of_mem _ hq), hnodes.of_append_right,
    hfreed.of_append_right, fun a ha => ?_, h.live⟩
  obtain ⟨hs, hout⟩ := h.region a (by
    rw [List.flatMap_cons]
    exact List.mem_append_right _ ha)
  rw [List.flatMap_cons, List.mem_append, not_or] at hout
  exact ⟨hs, hout.2⟩

theorem mem_freedBy {rs : List Record} {a : Nat} :
    a ∈ freedBy plat rs ↔ ∃ r ∈ rs, r.handler = plat.sprFree ∧ r.data = a := by
  simp [freedBy, and_assoc]

/-- No record of the pools frees one of their memnodes. -/
theorem PoolsAt.keeps (h : PoolsAt plat w ps) (hp : p ∈ ps) (hq : q ∈ ps) :
    KeepsNodes plat p q.cleanups := by
  intro r hr hf n hn heq
  refine (h.region r.data (List.mem_flatMap.mpr ⟨q, hq, mem_freedBy.mpr ⟨r, hr, hf, rfl⟩⟩)).2 ?_
  exact List.mem_flatMap.mpr ⟨p, hp, List.mem_map.mpr ⟨n, hn, heq⟩⟩

/-- Every memnode of the pools is given out. -/
theorem PoolsAt.held (h : PoolsAt plat w ps) {a : Nat} (ha : a ∈ ps.flatMap Pool.nodeAddrs) :
    ∃ s ∈ w.live, s.start = a := by
  obtain ⟨p, hp, ha⟩ := List.mem_flatMap.mp ha
  obtain ⟨n, hn, rfl⟩ := List.mem_map.mp ha
  exact ⟨n.region, (h.pool p hp).held n hn, rfl⟩

theorem Pool.home_addr (h : Wf plat p) : p.addr - sizeofMemnode ∈ p.nodeAddrs ∧
    sizeofMemnode ≤ p.addr := by
  obtain ⟨home, hhome, haddr, -⟩ := h.home
  rw [haddr, Nat.add_sub_cancel]
  exact ⟨List.mem_map_of_mem hhome, Nat.le_add_left _ _⟩

/-- Pools side by side are at different addresses. -/
theorem PoolsAt.addrs_nodup (h : PoolsAt plat w ps) : (ps.map Pool.addr).Nodup := by
  have hpair := List.nodup_flatMap.mp h.apart
  refine List.pairwise_map.mpr (hpair.2.imp_of_mem fun {p q} hp hq hdis heq => ?_)
  obtain ⟨hin, -⟩ := Pool.home_addr (h.pool p hp).wf
  obtain ⟨hin', -⟩ := Pool.home_addr (h.pool q hq).wf
  rw [← heq] at hin'
  exact hdis hin hin'

end Basics

/-! ## Section 2: A call on one pool -/

/-- What is registered with a pool for `spr_free` is given out, is not one of its
    memnodes, and is registered once. -/
structure Registered (plat : Platform) (w : World) (p : Pool) : Prop where
  once   : (p.freed plat).Nodup
  region : ∀ a ∈ p.freed plat, (∃ s ∈ w.live, s.start = a) ∧ a ∉ p.nodeAddrs

theorem PoolsAt.registered {plat : Platform} {w : World} {p : Pool} {ps : List Pool}
    (h : PoolsAt plat w ps) (hp : p ∈ ps) : Registered plat w p := by
  refine ⟨(List.nodup_flatMap.mp h.once).1 p hp, fun a ha => ?_⟩
  obtain ⟨hs, hout⟩ := h.region a (List.mem_flatMap.mpr ⟨p, hp, ha⟩)
  exact ⟨hs, fun hin => hout (List.mem_flatMap.mpr ⟨p, hp, hin⟩)⟩

/-- What a call on the pool `p` may do: `p'` is the pool after it.  A memnode it
    gains was not given out, and it gives back only what `p` had registered. -/
structure Moves (plat : Platform) (w w' : World) (p p' : Pool) : Prop where
  place : PoolAt plat w' p'
  frame : FrameOut w w' p'
  nodes : ∀ a ∈ p'.nodeAddrs, a ∈ p.nodeAddrs ∨ ∀ s ∈ w.live, s.start ≠ a
  kept  : ∀ s ∈ w.live, s.start ∉ p.freed plat → s ∈ w'.live
  regs  : Registered plat w' p'

/-- What the call registers is not what another pool has or has registered. -/
def Foreign (plat : Platform) (p p' : Pool) (rest : List Pool) : Prop :=
  ∀ a ∈ p'.freed plat, a ∈ p.freed plat ∨
    a ∉ rest.flatMap (Pool.freed plat) ∧ a ∉ rest.flatMap Pool.nodeAddrs

section Step

variable {plat : Platform} {w w' : World} {p p' : Pool} {rest : List Pool}

theorem PoolsAt.freed_apart (h : PoolsAt plat w (p :: rest)) {a : Nat} (ha : a ∈ p.freed plat) :
    a ∉ rest.flatMap (Pool.freed plat) ∧ a ∉ p.nodeAddrs ∧ a ∉ rest.flatMap Pool.nodeAddrs := by
  have hfreed := h.once
  rw [List.flatMap_cons, List.nodup_append] at hfreed
  obtain ⟨-, hout⟩ := h.region a (by
    rw [List.flatMap_cons]
    exact List.mem_append_left _ ha)
  rw [List.flatMap_cons, List.mem_append, not_or] at hout
  exact ⟨fun hin => hfreed.2.2 a ha a hin rfl, hout.1, hout.2⟩

/-- A memnode of another pool is still given out. -/
theorem Moves.held (hm : Moves plat w w' p p') (h : PoolsAt plat w (p :: rest)) {q : Pool}
    (hq : q ∈ rest) {n : Memnode} (hn : n ∈ q.nodes) : n.region ∈ w'.live := by
  refine hm.kept _ ((h.pool q (List.mem_cons_of_mem _ hq)).held n hn) fun hin => ?_
  exact (h.freed_apart hin).2.2 (List.mem_flatMap.mpr ⟨q, hq, List.mem_map_of_mem hn⟩)

/-- A memnode after the call is none of the other pools'. -/
theorem Moves.nodes_apart (hm : Moves plat w w' p p') (h : PoolsAt plat w (p :: rest)) {a : Nat}
    (ha : a ∈ p'.nodeAddrs) : a ∉ rest.flatMap Pool.nodeAddrs := by
  intro hin
  rcases hm.nodes a ha with ha | ha
  · have hnodes := h.apart
    rw [List.flatMap_cons, List.nodup_append] at hnodes
    exact hnodes.2.2 a ha a hin rfl
  · obtain ⟨s, hs, heq⟩ := h.tail.held hin
    exact ha s hs heq

/-- The memory of the other pools is as it was. -/
theorem Moves.rest_mem (hm : Moves plat w w' p p') (h : PoolsAt plat w (p :: rest)) {q : Pool}
    (hq : q ∈ rest) {n : Memnode} (hn : n ∈ q.nodes) {b : Nat} (hb : n.region.Covers b) :
    w'.mem b = w.mem b := by
  refine hm.frame b fun m hm' hc => ?_
  rcases Span.eq_or_disjoint hm.place.live.disjoint (hm.place.held m hm') (hm.held h hq hn) with
    heq | hdis
  · refine hm.nodes_apart h (List.mem_map_of_mem (f := Memnode.addr) hm') ?_
    rw [show m.addr = n.addr from congrArg Span.start heq]
    exact List.mem_flatMap.mpr ⟨q, hq, List.mem_map_of_mem hn⟩
  · exact hdis.not_covers hc hb

/-- **A call on one pool leaves the others in place.** -/
theorem PoolsAt.step (h : PoolsAt plat w (p :: rest)) (hm : Moves plat w w' p p')
    (hf : Foreign plat p p' rest) : PoolsAt plat w' (p' :: rest) := by
  have htail := h.tail
  refine ⟨fun q hq => ?_, ?_, ?_, fun a ha => ?_, hm.place.live⟩
  · -- the pool itself has moved, and the others are off what it has touched
    rcases List.mem_cons.mp hq with rfl | hq
    · exact hm.place
    · refine (htail.pool q hq).congr (fun b hb => ?_) (fun n hn => hm.held h hq hn) hm.place.live
      obtain ⟨n, hn, hb⟩ := hb
      exact hm.rest_mem h hq hn hb
  · rw [List.flatMap_cons, List.nodup_append]
    refine ⟨hm.place.wf.nodup, htail.apart, fun a ha b hb heq => ?_⟩
    subst heq
    exact hm.nodes_apart h ha hb
  · rw [List.flatMap_cons, List.nodup_append]
    refine ⟨hm.regs.once, htail.once, fun a ha b hb heq => ?_⟩
    subst heq
    rcases hf a ha with hold | ⟨hnew, -⟩
    · exact (h.freed_apart hold).1 hb
    · exact hnew hb
  · rw [List.flatMap_cons, List.mem_append] at ha
    rw [List.flatMap_cons, List.mem_append, not_or]
    rcases ha with ha | ha
    · obtain ⟨hs, hout⟩ := hm.regs.region a ha
      refine ⟨hs, hout, ?_⟩
      rcases hf a ha with hold | ⟨-, hnew⟩
      · exact (h.freed_apart hold).2.2
      · exact hnew
    · -- what another pool has registered is still given out, and no memnode
      obtain ⟨⟨s, hs, rfl⟩, hout⟩ := htail.region a ha
      refine ⟨⟨s, hm.kept s hs fun hin => (h.freed_apart hin).1 ha, rfl⟩, fun hin => ?_, hout⟩
      rcases hm.nodes _ hin with hin | hin
      · have hin' := (h.region s.start (by
          rw [List.flatMap_cons]
          exact List.mem_append_right _ ha)).2
        rw [List.flatMap_cons, List.mem_append, not_or] at hin'
        exact hin'.1 hin
      · exact hin s hs rfl

/-- What is newly registered was not given out. -/
theorem Foreign.of_fresh (h : PoolsAt plat w (p :: rest))
    (hnew : ∀ a ∈ p'.freed plat, a ∈ p.freed plat ∨ ∀ s ∈ w.live, s.start ≠ a) :
    Foreign plat p p' rest := by
  intro a ha
  refine (hnew a ha).imp_right fun hfresh => ⟨fun hin => ?_, fun hin => ?_⟩
  · obtain ⟨⟨s, hs, heq⟩, -⟩ := h.tail.region a hin
    exact hfresh s hs heq
  · obtain ⟨s, hs, heq⟩ := h.tail.held hin
    exact hfresh s hs heq

/-- Nothing is newly registered. -/
theorem Foreign.of_subset (hsub : ∀ a ∈ p'.freed plat, a ∈ p.freed plat) :
    Foreign plat p p' rest := fun a ha => Or.inl (hsub a ha)

end Step

/-! ## Section 3: The calls on one pool -/

section Calls

variable {plat : Platform} {thread : Nat} {w w' : World} {p p' : Pool}

/-- A call that only gains regions and memnodes. -/
structure Grows (w w' : World) (p p' : Pool) : Prop where
  nodes : ∀ a ∈ p'.nodeAddrs, a ∈ p.nodeAddrs ∨ ∀ s ∈ w.live, s.start ≠ a
  live  : ∀ s ∈ w.live, s ∈ w'.live

@[simp] theorem nodeAddrs_withRecords (cs : List Record) (fs : List Nat) (p : Pool) :
    (p.withRecords cs fs).nodeAddrs = p.nodeAddrs := rfl

@[simp] theorem nodeAddrs_rewind (as : List Nat) (p : Pool) :
    (p.rewind as).nodeAddrs = p.nodeAddrs := rewind_addrs as p

@[simp] theorem nodeAddrs_carveAt (a k : Nat) (p : Pool) :
    (p.carveAt a k).nodeAddrs = p.nodeAddrs := by
  rw [Pool.nodeAddrs, Pool.carveAt, mapNodes_nodes, List.map_map]
  refine List.map_congr_left fun n _ => ?_
  show (if n.addr = a then n.carve k else n).addr = n.addr
  split <;> rfl

theorem mem_nodeAddrs_addNode {index a : Nat} {n : Memnode} :
    a ∈ (p.addNode index n).nodeAddrs ↔ a = n.addr ∨ a ∈ p.nodeAddrs := by
  simp only [Pool.nodeAddrs, List.mem_map, mem_addNode]
  constructor
  · rintro ⟨m, rfl | hm, rfl⟩
    · exact Or.inl rfl
    · exact Or.inr ⟨m, hm, rfl⟩
  · rintro (rfl | ⟨m, hm, rfl⟩)
    · exact ⟨n, Or.inl rfl, rfl⟩
    · exact ⟨m, Or.inr hm, rfl⟩

theorem carving_grows {k size index r : Nat} (h : PoolAt plat w p)
    (hc : Carving plat thread w p k size index r p' w') (hsize : k + sizeofMemnode ≤ size) :
    Grows w w' p p' := by
  cases hc with
  | refused _ hfit hmem hlive hlog => exact ⟨fun a ha => Or.inl ha, by simp [hlive]⟩
  | fit _ n hfit hlive hlog => exact ⟨fun a ha => Or.inl (by simpa using ha), by simp [hlive]⟩
  | fresh _ b hfit hgrant hlive hlog =>
    refine ⟨fun a ha => ?_, fun s hs => by rw [hlive]; exact List.mem_cons_of_mem _ hs⟩
    rw [nodeAddrs_carveAt, mem_nodeAddrs_addNode] at ha
    refine ha.symm.imp_right fun heq s hs => ?_
    rw [heq]
    exact hgrant.fresh h.live (by simp only [sizeofMemnode] at hsize; omega) hs

theorem record_room (plat : Platform) : sizeofCleanupNode + sizeofMemnode ≤ plat.pageSize := by
  have := plat.le_pageSize
  simp only [sizeofCleanupNode, sizeofMemnode]
  omega

theorem adding_grows {data handler : Nat} (h : PoolAt plat w p)
    (ha : Adding plat thread w p data handler p' w') : Grows w w' p p' := by
  cases ha with
  | recycled _ a fs hfrees hlive hlog => exact ⟨fun a ha => Or.inl ha, by simp [hlive]⟩
  | carved _ w₁ a p₁ hfrees hne hcarve hlive hlog =>
    have hlock := h.of_eq (v := w.emits (lockEvents plat thread p)) rfl rfl
    obtain ⟨hnodes, hkept⟩ := carving_grows hlock hcarve (record_room plat)
    exact ⟨hnodes, fun s hs => by rw [hlive]; exact hkept s hs⟩

/-- The new registration, if it is one for `spr_free`. -/
theorem freedBy_cons (r : Record) (rs : List Record) :
    freedBy plat (r :: rs) = if r.handler = plat.sprFree then r.data :: freedBy plat rs
      else freedBy plat rs := by
  unfold freedBy
  by_cases hf : r.handler = plat.sprFree <;> simp [hf]

/-- A call that grows, and registers at most one more region for `spr_free`. -/
theorem Grows.moves (hg : Grows w w' p p') (hp' : PoolAt plat w' p') (hframe : FrameOut w w' p')
    (hregs : Registered plat w p)
    (hfreed : p'.freed plat = p.freed plat ∨ ∃ data, p'.freed plat = data :: p.freed plat ∧
      (∃ s ∈ w'.live, s.start = data) ∧ data ∉ p'.nodeAddrs ∧ data ∉ p.freed plat) :
    Moves plat w w' p p' := by
  have hold : ∀ b ∈ p.freed plat, (∃ s ∈ w'.live, s.start = b) ∧ b ∉ p'.nodeAddrs := by
    intro b hb
    obtain ⟨⟨s, hs, rfl⟩, hout⟩ := hregs.region b hb
    refine ⟨⟨s, hg.live s hs, rfl⟩, fun hin => ?_⟩
    rcases hg.nodes _ hin with hin | hin
    · exact hout hin
    · exact hin s hs rfl
  refine ⟨hp', hframe, hg.nodes, fun s hs _ => hg.live s hs, ?_⟩
  rcases hfreed with heq | ⟨data, heq, hlive, hout, hnew⟩
  · exact ⟨heq ▸ hregs.once, fun b hb => hold b (heq ▸ hb)⟩
  · refine ⟨heq ▸ List.nodup_cons.mpr ⟨hnew, hregs.once⟩, fun b hb => ?_⟩
    rw [heq] at hb
    rcases List.mem_cons.mp hb with rfl | hb
    · exact ⟨hlive, hout⟩
    · exact hold b hb

/-- **The slot path.** -/
theorem carving_moves {k size index r : Nat} (h : PoolAt plat w p) (hregs : Registered plat w p)
    (hc : Carving plat thread w p k size index r p' w') (hsize : k + sizeofMemnode ≤ size)
    (hp' : PoolAt plat w' p') (hframe : FrameOut w w' p') :
    Moves plat w w' p p' ∧ p'.freed plat = p.freed plat := by
  have hfreed : p'.freed plat = p.freed plat := by
    rw [Pool.freed, (carving_kept hp' hc).2.2.1]
    rfl
  exact ⟨(carving_grows h hc hsize).moves hp' hframe hregs (Or.inl hfreed), hfreed⟩

/-- **Adding a record**: what goes to `spr_free` is a region given out that is
    neither a memnode of the pool nor registered. -/
theorem adding_moves {data handler : Nat} (h : PoolAt plat w p) (hregs : Registered plat w p)
    (ha : Adding plat thread w p data handler p' w') (hp' : PoolAt plat w' p')
    (hframe : FrameOut w w' p')
    (hdata : handler = plat.sprFree →
      (∃ s ∈ w.live, s.start = data) ∧ data ∉ p.nodeAddrs ∧ data ∉ p.freed plat) :
    Moves plat w w' p p' ∧ ∀ a ∈ p'.freed plat, a ∈ p.freed plat ∨
      handler = plat.sprFree ∧ a = data := by
  have hg := adding_grows h ha
  obtain ⟨-, -, -, -, -, a, hcs⟩ := adding_kept hp' ha
  by_cases hf : handler = plat.sprFree
  · obtain ⟨⟨s, hs, heq⟩, hout, hnew⟩ := hdata hf
    have hcons : p'.freed plat = data :: p.freed plat := by
      rw [Pool.freed, hcs, freedBy_cons, if_pos hf]
      rfl
    refine ⟨hg.moves hp' hframe hregs (Or.inr ⟨data, hcons, ⟨s, hg.live s hs, heq⟩, fun hin => ?_,
      hnew⟩), fun b hb => ?_⟩
    · rcases hg.nodes _ hin with hin | hin
      · exact hout hin
      · exact hin s hs heq
    · rw [hcons] at hb
      exact (List.mem_cons.mp hb).symm.imp_right fun heq => ⟨hf, heq⟩
  · have hsame : p'.freed plat = p.freed plat := by
      rw [Pool.freed, hcs, freedBy_cons, if_neg hf]
      rfl
    exact ⟨hg.moves hp' hframe hregs (Or.inl hsame), fun b hb => Or.inl (hsame ▸ hb)⟩

/-- **An allocation**: what it registers for `spr_free` was not given out. -/
theorem allocating_moves {size r : Nat} (h : PoolAt plat w p) (hregs : Registered plat w p)
    (hwrap : slotIndex plat size ≤ sprMaxPoolSlot → sprAlignAllocation size ≠ 0 →
      NoWrap plat (sprAlignAllocation size))
    (ha : Allocating plat thread w p size r p' w') (hp' : PoolAt plat w' p')
    (hframe : FrameOut w w' p') :
    Moves plat w w' p p' ∧
      ∀ a ∈ p'.freed plat, a ∈ p.freed plat ∨ ∀ s ∈ w.live, s.start ≠ a := by
  cases ha with
  | rejected halign =>
    exact ⟨⟨hp', hframe, fun a ha => Or.inl ha, fun s hs _ => hs, ⟨hregs.once, hregs.region⟩⟩,
      fun a ha => Or.inl ha⟩
  | slots r p' w' halign hindex hcarve =>
    have hroom := (hwrap hindex halign).pages.2
    obtain ⟨hm, hfreed⟩ := carving_moves h hregs hcarve hroom.le hp' hframe
    exact ⟨hm, fun a ha => Or.inl (hfreed ▸ ha)⟩
  | refused halign hindex =>
    exact ⟨⟨hp', hframe, fun a ha => Or.inl ha, fun s hs _ => hs, ⟨hregs.once, hregs.region⟩⟩,
      fun a ha => Or.inl ha⟩
  | oversize b p' w₁ halign hindex hgrant hadd =>
    have hsize := Nat.pos_of_ne_zero halign
    have hfresh : ∀ s ∈ w.live, s.start ≠ r := fun s hs => hgrant.fresh h.live hsize hs
    have hobtain := h.obtain hgrant hsize
    -- the region is new, so it is none that the pool has registered before
    have hregs' : Registered plat (w.obtain r (sprAlignAllocation size)) p := by
      refine ⟨hregs.once, fun a ha => ?_⟩
      obtain ⟨⟨s, hs, heq⟩, hout⟩ := hregs.region a ha
      exact ⟨⟨s, List.mem_cons_of_mem _ hs, heq⟩, hout⟩
    have hp₁ : PoolAt plat w₁ p' := hp'.of_eq rfl rfl
    obtain ⟨hm, hnew⟩ := adding_moves hobtain hregs' hadd hp₁ hframe fun _ => by
      refine ⟨⟨_, List.mem_cons_self, rfl⟩, fun hin => ?_, fun hin => ?_⟩
      · obtain ⟨n, hn, heq⟩ := List.mem_map.mp hin
        exact hfresh _ (h.held n hn) heq
      · obtain ⟨⟨s, hs, heq⟩, -⟩ := hregs.region _ hin
        exact hfresh s hs heq
    refine ⟨⟨hp', hframe, fun a ha => (hm.nodes a ha).imp_right fun hno s hs =>
        hno s (List.mem_cons_of_mem _ hs),
      fun s hs hout => hm.kept s (List.mem_cons_of_mem _ hs) hout,
      ⟨hm.regs.once, hm.regs.region⟩⟩, fun a ha => (hnew a ha).imp_right ?_⟩
    rintro ⟨-, rfl⟩
    exact hfresh

/-- What is done with a match gives back at most what the record has for
    `spr_free`. -/
def Use.Mild (plat : Platform) (use : Use) : Prop :=
  ∀ (live : List Span) (r : Record) (s : Span), s ∈ live →
    (r.handler = plat.sprFree → s.start ≠ r.data) → s ∈ use.after live r

theorem useRun_mild (plat : Platform) : (useRun plat).Mild plat :=
  fun _ _ _ hs hkeep => mem_liveAfter hs hkeep

theorem useRemove_mild (plat : Platform) : useRemove.Mild plat := fun _ _ _ hs _ => hs

/-- **Taking a record**, from anywhere in the list. -/
theorem taking_moves {use : Use} {data handler : Nat} {pre seen : List Record}
    (hregs : Registered plat w p) (hmild : use.Mild plat) (hseen : p.cleanups = pre ++ seen)
    (ht : TakingFrom plat thread use w p pre seen data handler p' w')
    (hp' : PoolAt plat w' p') (hframe : FrameOut w w' p') :
    Moves plat w w' p p' ∧ ∀ a ∈ p'.freed plat, a ∈ p.freed plat := by
  cases ht with
  | absent hno =>
    exact ⟨⟨hp', hframe, fun a ha => Or.inl ha, fun s hs _ => hs, ⟨hregs.once, hregs.region⟩⟩,
      fun a ha => ha⟩
  | found rs rs' r _ hsplit hmatch hfirst hlive hlog =>
    have hall : p.cleanups = (pre ++ rs) ++ r :: rs' := by rw [hseen, hsplit, List.append_assoc]
    have hperm : (p.freed plat).Perm (freedBy plat (r :: (pre ++ (rs ++ rs')))) := by
      rw [Pool.freed, hall, ← List.append_assoc]
      exact (List.perm_middle.filter _).map _
    have hnd := hperm.nodup_iff.mp hregs.once
    -- the record taken off is the only one for its region
    have hsub : ∀ a ∈ freedBy plat (pre ++ (rs ++ rs')), a ∈ p.freed plat ∧
        (r.handler = plat.sprFree → a ≠ r.data) := by
      intro a ha
      rw [freedBy_cons] at hnd hperm
      by_cases hf : r.handler = plat.sprFree
      · rw [if_pos hf] at hnd hperm
        exact ⟨hperm.mem_iff.mpr (List.mem_cons_of_mem _ ha), fun _ heq =>
          (List.nodup_cons.mp hnd).1 (heq ▸ ha)⟩
      · rw [if_neg hf] at hperm
        exact ⟨hperm.mem_iff.mpr ha, fun h => absurd h hf⟩
    have hdata : r.handler = plat.sprFree → r.data ∈ p.freed plat := fun hf =>
      mem_freedBy.mpr ⟨r, by rw [hall]; simp, hf, rfl⟩
    refine ⟨⟨hp', hframe, fun a ha => Or.inl ha, fun s hs hout => ?_, ⟨?_, fun a ha => ?_⟩⟩,
      fun a ha => (hsub a ha).1⟩
    · rw [hlive]
      exact hmild w.live r s hs fun hf heq => hout (heq ▸ hdata hf)
    · rw [freedBy_cons] at hnd
      split at hnd
      · exact (List.nodup_cons.mp hnd).2
      · exact hnd
    · obtain ⟨hin, hne⟩ := hsub a ha
      obtain ⟨⟨s, hs, rfl⟩, hout⟩ := hregs.region a hin
      exact ⟨⟨s, by rw [hlive]; exact hmild w.live r s hs hne, rfl⟩, hout⟩

theorem mem_foldl_liveAfter {rs : List Record} {live : List Span} {s : Span} (hs : s ∈ live)
    (hout : s.start ∉ freedBy plat rs) : s ∈ rs.foldl (liveAfter plat) live := by
  induction rs generalizing live with
  | nil => exact hs
  | cons r rs ih =>
    rw [freedBy_cons] at hout
    refine ih (mem_liveAfter hs fun hf heq => ?_) fun hin => hout ?_
    · rw [if_pos hf] at hout
      exact hout (heq ▸ List.mem_cons_self)
    · split
      · exact List.mem_cons_of_mem _ hin
      · exact hin

/-- The pool with every record in the reserve. -/
def Pool.flush (p : Pool) : Pool :=
  p.withRecords [] ((p.cleanups.map Record.addr).reverse ++ p.frees)

/-- **Running all records.** -/
theorem runAll_moves (rd : Reader) (h : PoolAt plat w p) (hkeep : KeepsNodes plat p p.cleanups) :
    ∃ w', sprPoolCleanupRunAll plat rd.run p.addr w = .ok () w' ∧
      Moves plat w w' p p.flush ∧
      w'.live = p.cleanups.foldl (liveAfter plat) w.live ∧
      w'.log = w.log ++ runAllEvents plat rd p := by
  obtain ⟨w', hrun, hp', hframe, hlive, hlog⟩ := sprPoolCleanupRunAll_spec rd h hkeep
  refine ⟨w', hrun, ⟨hp', frameOut_of_body hp' fun b hb h₁ h₂ => hframe b hb h₁ h₂,
    fun a ha => Or.inl ha, fun s hs hout => ?_, ⟨List.nodup_nil, fun a ha => by cases ha⟩⟩, hlive,
    hlog⟩
  rw [hlive]
  exact mem_foldl_liveAfter hs hout

/-- **Rewinding the slots.** -/
theorem resetSlots_moves (h : PoolAt plat w p) (hregs : Registered plat w p) :
    ∃ w', slotLoop load resetNode p.addr 0 sprMaxPoolSlot w = .ok () w' ∧
      Moves plat w w' p (p.rewind (p.slotAddrs 0)) ∧ w'.live = w.live ∧
      w'.log = w.log ++ (p.slotAddrs 0).map .reset := by
  obtain ⟨w', hrun, hp', honly, hlog⟩ := resetSlots_spec h (i := 0) (n := sprMaxPoolSlot) rfl
  refine ⟨w', hrun, ⟨hp', fun b hb => honly.frame b fun n hn => ?_, fun a ha => Or.inl ?_,
    fun s hs _ => by rw [honly.live]; exact hs, ⟨hregs.once, fun a ha => ?_⟩⟩, honly.live, hlog⟩
  · refine fun hc => ?_
    replace hc := (h.wf.node n hn).fields_within.covers hc
    refine hb (if n.addr ∈ p.slotAddrs 0 then n.rewind else n) ?_ ?_
    · rw [Pool.rewind, mapNodes_nodes]
      exact List.mem_map_of_mem (f := fun m : Memnode =>
        if m.addr ∈ p.slotAddrs 0 then m.rewind else m) hn
    · split <;> exact hc
  · rwa [nodeAddrs_rewind] at ha
  · rw [nodeAddrs_rewind, honly.live]
    exact hregs.region a ha

end Calls

end Spr.MemPool
