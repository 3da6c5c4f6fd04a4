import Spr.MemPool.Accounts

/-! # Rounds between clears

    A pool that is cleared again and again, with at most `m` blocks and records cut
    off it in between.

    * `Memnode.mark`: whether anything has been cut off a memnode.
    * `Filled`: a memnode obtained for a request finds all others of its slot in use.
    * `rounds_bounded`: so no slot ever holds more than `m` of them. -/

namespace Spr.MemPool

open Spr.Words Spr.Chains Spr.Forests

/-! ## Section 1: Marks -/

/-- One for a memnode off which something has been cut, else nothing. -/
def Memnode.mark (n : Memnode) : Nat := if n.firstAvail = n.begin then 0 else 1

/-- The memnodes of the slot that `spr_palloc` obtained: all but the one that the
    pool lives in. -/
def Pool.extras (p : Pool) (j : Nat) : List Memnode :=
  (p.slots j).filter fun n => n.addr + sizeofMemnode ≠ p.addr

/-- No slot holds more than `m` memnodes beside the first one; what is cut off marks
    one memnode at most. -/
structure Filled (plat : Platform) (m : Nat) (ks : List Nat) (p : Pool) : Prop where
  fresh   : ∀ j < sprMaxPoolSlot, ∀ n ∈ p.extras j, n.begin = n.addr + sizeofMemnode ∧
    n.deallocSize = (j + 1) * plat.pageSize
  marks   : (p.nodes.map Memnode.mark).sum ≤ ks.length
  bounded : ∀ j < sprMaxPoolSlot, (p.extras j).length ≤ m

section Marks

variable {plat : Platform} {p q : Pool} {k index m : Nat} {ks : List Nat}

theorem Memnode.mark_carve {n : Memnode} (hlower : n.begin ≤ n.firstAvail) (k : Nat) :
    (n.carve k).mark ≤ n.mark + 1 := by
  have hmark : (n.carve k).mark = if n.firstAvail + k = n.begin then 0 else 1 := rfl
  rw [hmark, Memnode.mark]
  by_cases hcut : n.firstAvail + k = n.begin
  · rw [if_pos hcut, if_pos (by omega)]
    omega
  · rw [if_neg hcut]
    omega

/-- A piece marks one memnode at most. -/
theorem Cut.sum_mark (h : Wf plat p) (hc : Cut plat p k index q) :
    (q.nodes.map Memnode.mark).sum ≤ (p.nodes.map Memnode.mark).sum + 1 := by
  obtain ⟨n, hlower, hsum⟩ := hc.sum_measure h Memnode.mark fun _ _ => if_pos rfl
  have hmark := Memnode.mark_carve hlower k
  omega

theorem extras_mapNodes {g : Memnode → Memnode} (hg : ∀ n, (g n).addr = n.addr) (j : Nat) :
    (p.mapNodes g).extras j = (p.extras j).map g := by
  show ((p.slots j).map g).filter _ = _
  rw [List.filter_map]
  refine congrArg (List.map g) (List.filter_congr fun n _ => ?_)
  simp [hg]

theorem extras_carveAt (a j : Nat) : ((p.carveAt a k).extras j).length = (p.extras j).length := by
  rw [Pool.carveAt, extras_mapNodes (fun n => by split <;> rfl), List.length_map]

/-- The memnodes of a slot are all there are at most. -/
theorem extras_sublist {j : Nat} (hj : j < sprMaxPoolSlot) : (p.extras j).Sublist p.nodes := by
  have hslot : p.slots j ∈ (List.range sprMaxPoolSlot).map p.slots :=
    List.mem_map_of_mem (List.mem_range.mpr hj)
  rw [Pool.nodes, List.flatMap_def]
  exact List.filter_sublist.trans ((List.sublist_flatten_of_mem hslot).trans
    (List.sublist_append_left _ _))

/-- **A memnode is obtained only when all others of its slot are in use.** -/
theorem Filled.in_use (hf : Filled plat m ks p) (h : Wf plat p) (hfits : CutFits plat k index)
    (hindex : index < sprMaxPoolSlot) (hfit : firstFit k (p.fromSlot index) = none) :
    (p.extras index).length ≤ ks.length := by
  have hmarked : ∀ n ∈ p.extras index, n.mark = 1 := by
    intro n hn
    obtain ⟨hbegin, hdealloc⟩ := hf.fresh index hindex n hn
    have hslot := (List.mem_filter.mp hn).1
    have hok := h.node n (Pool.mem_nodes_of_slot hindex hslot)
    have hin : n ∈ p.fromSlot index := List.mem_flatMap.mpr
      ⟨index, List.mem_range'_1.mpr ⟨Nat.le_refl _, by omega⟩, hslot⟩
    have hsmall := List.find?_eq_none.mp hfit n hin
    -- an unused memnode would have had room
    refine if_neg fun huntouched => hsmall (decide_eq_true ?_)
    have := hok.total
    have := hok.upper
    have := hfits.1
    omega
  have hlength : ((p.extras index).map Memnode.mark).sum = (p.extras index).length := by
    rw [List.map_congr_left hmarked]
    simp
  rw [← hlength]
  have hsub := (extras_sublist (p := p) hindex).map Memnode.mark
  exact (hsub.sum_le_sum fun _ _ => Nat.zero_le _).trans hf.marks

/-- The memnodes of a slot after a piece has been cut off: one more at most, and only
    where all others are in use. -/
theorem Filled.cut_bounded (hf : Filled plat m ks p) (h : Wf plat p) (hfits : CutFits plat k index)
    (hindex : index < sprMaxPoolSlot) (hround : (k :: ks).length ≤ m) (hc : Cut plat p k index q)
    {j : Nat} (hj : j < sprMaxPoolSlot) : (q.extras j).length ≤ m := by
  cases hc with
  | fit n hfit =>
    rw [extras_carveAt]
    exact hf.bounded j hj
  | fresh a hfit hnew =>
    rw [extras_carveAt]
    by_cases heq : j = index
    · subst heq
      have hused := hf.in_use h hfits hj hfit
      have hle : ((p.addNode j (freshNode a ((j + 1) * plat.pageSize))).extras j).length
          ≤ (p.extras j).length + 1 := by
        rw [Pool.extras, addNode_slot_self hj, addNode_addr, List.filter_cons]
        split
        · exact Nat.le_refl _
        · exact Nat.le_succ _
      rw [List.length_cons] at hround
      omega
    · rw [Pool.extras, addNode_slot_of_ne (fun h => heq h.1), addNode_addr]
      exact hf.bounded j hj

/-- **Rounds of at most `m` cuts** keep the slots small. -/
theorem filled_keeps (plat : Platform) (m : Nat) :
    Keeps plat (fun ks => ks.length ≤ m) (Filled plat m) where
  shelf ks p p' hshelf hf := by
    have hextras : ∀ j, p'.extras j = p.extras j := fun j => by
      rw [Pool.extras, Pool.extras, hshelf.1, hshelf.2.1]
    refine ⟨fun j hj n hn => hf.fresh j hj n (hextras j ▸ hn), ?_, fun j hj => ?_⟩
    · rw [hshelf.nodes]
      exact hf.marks
    · rw [hextras]
      exact hf.bounded j hj
  cut ks p q k index hwf hfits hindex hround hcut hf := by
    refine ⟨fun j hj n hn => ?_, ?_, fun j => hf.cut_bounded hwf hfits hindex hround hcut⟩
    · obtain ⟨hslot, hne⟩ := List.mem_filter.mp hn
      rw [(hcut.kept hindex).1] at hne
      -- an old memnode, the one that is cut, or a new one
      rcases hcut.slot hj hslot with ⟨r, hr, rfl | rfl⟩ | ⟨rfl, a, rfl⟩
      · exact hf.fresh j hj n (List.mem_filter.mpr ⟨hr, hne⟩)
      · exact hf.fresh j hj r (List.mem_filter.mpr ⟨hr, hne⟩)
      · exact ⟨rfl, rfl⟩
    · exact (hcut.sum_mark hwf).trans (Nat.succ_le_succ hf.marks)
  made thread size a q hindex := by
    -- its only memnode is the home, which is no extra
    have hnone : ∀ j < sprMaxPoolSlot, (madePool plat thread size a q).extras j = [] := by
      intro j hj
      refine List.filter_eq_nil_iff.mpr fun n hn => ?_
      have hnode := Pool.mem_nodes_of_slot hj hn
      rw [madePool_nodes, List.mem_singleton] at hnode
      rw [hnode, madePool_addr]
      simp [firstNode, homeNode]
    refine ⟨fun j hj n hn => ?_, ?_, fun j hj => ?_⟩
    · rw [hnone j hj] at hn
      cases hn
    · rw [madePool_nodes]
      simp [Memnode.mark, firstNode, homeNode]
    · rw [hnone j hj]
      exact Nat.zero_le _
  clear ks p horphans hf := by
    have hextras : ∀ j, ∃ g : Memnode → Memnode, (∀ n, (g n).addr = n.addr ∧ (g n).begin = n.begin ∧
        (g n).deallocSize = n.deallocSize) ∧ p.clear.extras j = (p.extras j).map g := by
      intro j
      refine ⟨fun n => if n.addr ∈ p.slotAddrs 0 then n.rewind else n, fun n => ?_, ?_⟩
      · by_cases hin : n.addr ∈ p.slotAddrs 0
        · simp [hin, Memnode.rewind]
        · simp [hin]
      · exact extras_mapNodes (p := p.flush) (fun n => by split <;> rfl) j
    refine ⟨fun j hj n hn => ?_, ?_, fun j hj => ?_⟩
    · obtain ⟨g, hg, heq⟩ := hextras j
      rw [heq] at hn
      obtain ⟨r, hr, rfl⟩ := List.mem_map.mp hn
      obtain ⟨haddr, hbegin, hdealloc⟩ := hg r
      rw [haddr, hbegin, hdealloc]
      exact hf.fresh j hj r hr
    · -- rewound memnodes have nothing carved off
      have hzero : p.nodes.map (Memnode.mark ∘ Memnode.rewind) = p.nodes.map fun _ => 0 :=
        List.map_congr_left fun n _ => if_pos rfl
      rw [clear_nodes horphans, List.map_map, hzero]
      simp
    · obtain ⟨g, -, heq⟩ := hextras j
      rw [heq, List.length_map]
      exact hf.bounded j hj

end Marks

/-! ## Section 2: Rounds -/

/-- The memnodes in the slot of the pool, as the memory has them, but for the one that
    the pool lives in. -/
def pallocNodes (w : World) (pool j : Nat) : List Nat :=
  (walk w.mem 0 addressSpace (w.mem (poolNodes pool j))).filter fun n => n + sizeofMemnode ≠ pool

/-- The call leaves no pool with more than `m` blocks and records cut off it since its
    last clear. -/
def Session.InRounds (plat : Platform) (m : Nat) : Session → Op → Prop :=
  Session.CutsTo plat fun ks => ks.length ≤ m

instance (plat : Platform) (m : Nat) (s : Session) (op : Op) : Decidable (s.InRounds plat m op) :=
  match h : s.exec plat op with
  | none => isTrue fun s' hs => by rw [h] at hs; cases hs
  | some t => decidable_of_iff (∀ a ∈ t.addrs, (cuts plat t.world.log a).length ≤ m)
      ⟨fun hall s' hs => by rw [h] at hs; cases hs; exact hall, fun hall => hall t h⟩

/-- **The slots stay bounded** in every run whose rounds have at most `m` allocations. -/
theorem rounds_bounded (plat : Platform) (m : Nat) (s : Session)
    (h : Reachable plat (fun s op => s.Slotted plat op ∧ s.InRounds plat m op) s) :
    ∀ q ∈ s.addrs, ∀ j < sprMaxPoolSlot, (pallocNodes s.world q j).length ≤ m := by
  obtain ⟨f, hinv, hp⟩ := shelf_rule (filled_keeps plat m) h
  intro q hq j hj
  obtain ⟨p, hin, rfl⟩ := hinv.find hq
  rw [pallocNodes, walk_slot (hinv.pools.pool p hin) hj, List.filter_map, List.length_map]
  exact (hp p hin).2.bounded j hj

/-- Two rounds of two allocations. -/
theorem rounds_bounded_two : ∃ s, Reachable machine (fun s op => s.Slotted machine op ∧
    s.InRounds machine 2 op) s ∧ pallocNodes s.world 65584 0 = [196608, 131072] ∧
      ∀ q ∈ s.addrs, ∀ j < sprMaxPoolSlot, (pallocNodes s.world q j).length ≤ 2 := by
  have hrun : ((session.run machine (fun s op => s.Slotted machine op ∧ s.InRounds machine 2 op)
      [.create 1 0 0, .palloc 1 65584 4000, .clear 1 65584, .palloc 1 65584 4000,
        .palloc 1 65584 4000]).any fun s =>
        pallocNodes s.world 65584 0 = [196608, 131072]) = true := by decide +kernel
  obtain ⟨s, hs, hnodes⟩ := (Option.any_eq_true _ _).mp hrun
  have hreach := reachable_run (.start session initial_session) hs
  exact ⟨s, hreach, of_decide_eq_true hnodes, rounds_bounded machine 2 s hreach⟩

/-- One allocation a round: a block is handed out over a record in reserve, what its
    caller stores there is followed as a link, and the record found in this way lies
    over the fields of a memnode, whose size becomes 0. -/
theorem rounds_grow : ¬ ∀ (plat : Platform) (m : Nat) (s : Session),
    Reachable plat (fun s op => (s.Legal plat op ∧ s.AtRoots plat op ∧
      op.slot plat ≠ some sprMaxPoolSlot) ∧ s.InRounds plat m op) s →
    ∀ q ∈ s.addrs, ∀ j < sprMaxPoolSlot, (pallocNodes s.world q j).length ≤ m := by
  intro hall
  have hrun : ((session.run machine (fun s op => (s.Legal machine op ∧ s.AtRoots machine op ∧
      op.slot machine ≠ some sprMaxPoolSlot) ∧ s.InRounds machine 1 op)
      [.create 1 0 0, .cleanupAdd 1 65584 5 9, .clear 1 65584,
        .palloc 1 65584 16, .write 65840 131088, .clear 1 65584,
        .palloc 1 65584 4000, .cleanupAdd 1 65584 0 9, .cleanupAdd 1 65584 0 9, .clear 1 65584,
        .palloc 1 65584 4000]).any fun s =>
        65584 ∈ s.addrs ∧ pallocNodes s.world 65584 0 = [196608, 131072]) = true := by
    decide +kernel
  obtain ⟨s, hs, hfacts⟩ := (Option.any_eq_true _ _).mp hrun
  obtain ⟨haddr, hnodes⟩ := of_decide_eq_true hfacts
  have hreach := reachable_run (.start session initial_session) hs
  have hle := hall machine 1 s hreach 65584 haddr 0 (by decide)
  rw [hnodes] at hle
  exact absurd hle (by decide)

end Spr.MemPool
