import Spr.MemPool.Session

/-! # The invariant of a run

    * `BlocksOk`: the blocks that are held lie in memory of their own.
    * `Inv`: the pools of the family are in place, and the log is right about
      their memnodes and blocks.
    * `Inv.call`, `Inv.hand`, `Inv.scribble`: what a call on one pool, a block
      handed out, and a store to a block preserve. -/

namespace Spr.MemPool

open Spr.Words Spr.Chains Spr.Forests

/-! ## Section 1: Blocks -/

/-- Where a block that is held lies: in the used part of a memnode of its pool, off
    the records, or in a region of its own. -/
inductive BlockAt (plat : Platform) (w : World) (ps : List Pool) (b : Block) : Prop where
  | slot (p : Pool) (hp : p ∈ ps) (haddr : p.addr = b.pool)
      (hindex : slotIndex plat b.size ≤ sprMaxPoolSlot) (hused : p.Used b.span)
      (hrecords : ∀ r ∈ p.listed, Span.Disjoint b.span (recordSpan r))
  | big (hindex : sprMaxPoolSlot < slotIndex plat b.size) (hlive : b.span ∈ w.live)
      (hnode : b.addr ∉ ps.flatMap Pool.nodeAddrs)

/-- The blocks are apart, aligned, and each in its place. -/
structure BlocksOk (plat : Platform) (w : World) (ps : List Pool) (bs : List Block) : Prop where
  place   : ∀ b ∈ bs, BlockAt plat w ps b
  apart   : bs.Pairwise fun b c => Span.Disjoint b.span c.span
  aligned : ∀ b ∈ bs, b.addr % 8 = 0
  size    : ∀ b ∈ bs, sprAlignAllocation b.size ≠ 0

section Blocks

variable {plat : Platform} {w w' : World} {ps qs : List Pool} {p p' q : Pool} {b c : Block}

theorem BlockAt.perm (h : BlockAt plat w ps b) (hp : ps.Perm qs) : BlockAt plat w qs b := by
  cases h with
  | slot p hin haddr hindex hused hrecords =>
    exact .slot p (hp.mem_iff.mp hin) haddr hindex hused hrecords
  | big hindex hlive hnode =>
    exact .big hindex hlive fun hin => hnode ((hp.flatMap_right Pool.nodeAddrs).mem_iff.mpr hin)

theorem BlocksOk.perm {bs : List Block} (h : BlocksOk plat w ps bs) (hp : ps.Perm qs) :
    BlocksOk plat w qs bs :=
  ⟨fun b hb => (h.place b hb).perm hp, h.apart, h.aligned, h.size⟩

theorem BlocksOk.sublist {bs cs : List Block} (h : BlocksOk plat w ps bs) (hs : cs.Sublist bs) :
    BlocksOk plat w ps cs :=
  ⟨fun b hb => h.place b (hs.subset hb), h.apart.sublist hs, fun b hb => h.aligned b (hs.subset hb),
    fun b hb => h.size b (hs.subset hb)⟩

/-- A span that is used in a pool lies in a region of the pool. -/
theorem PoolAt.used_within (h : PoolAt plat w p) {s : Span} (hs : p.Used s) :
    ∃ n ∈ p.nodes, s.Within n.region ∧ s.Within n.body := by
  obtain ⟨n, hn, h₁, h₂⟩ := hs
  have htotal := (h.wf.node n hn).total
  have hbody : s.Within n.body := by
    simp only [Span.Within, Memnode.body]
    omega
  exact ⟨n, hn, hbody.trans (h.wf.node n hn).body_within, hbody⟩

/-- Regions of different pools are apart. -/
theorem PoolsAt.regions_apart (h : PoolsAt plat w ps) (hp : p ∈ ps) (hq : q ∈ ps)
    (hne : p.addr ≠ q.addr) {n m : Memnode} (hn : n ∈ p.nodes) (hm : m ∈ q.nodes) :
    n.region.Disjoint m.region := by
  rcases Span.eq_or_disjoint h.live.disjoint ((h.pool p hp).held n hn)
    ((h.pool q hq).held m hm) with heq | hdis
  · exfalso
    have haddr : n.addr = m.addr := congrArg Span.start heq
    obtain ⟨_, hpair⟩ := List.nodup_flatMap.mp h.apart
    have hpq : p ≠ q := fun heq => hne (congrArg Pool.addr heq)
    have hsymm : Std.Symm (Function.onFun List.Disjoint Pool.nodeAddrs) :=
      ⟨fun _ _ hab => List.Disjoint.symm hab⟩
    refine hpair.forall hp hq hpq (List.mem_map_of_mem (f := Memnode.addr) hn) ?_
    rw [haddr]
    exact List.mem_map_of_mem hm
  · exact hdis

/-- A region of its own is apart from those of the pools. -/
theorem PoolsAt.big_apart (h : PoolsAt plat w ps) {s : Span} (hs : s ∈ w.live)
    (hnode : s.start ∉ ps.flatMap Pool.nodeAddrs) (hp : p ∈ ps) {n : Memnode} (hn : n ∈ p.nodes) :
    n.region.Disjoint s := by
  rcases Span.eq_or_disjoint h.live.disjoint ((h.pool p hp).held n hn) hs with heq | hdis
  · exfalso
    refine hnode (List.mem_flatMap.mpr ⟨p, hp, ?_⟩)
    rw [← heq]
    exact List.mem_map_of_mem (f := Memnode.addr) hn
  · exact hdis

/-- A block lies in memory that the system has given out. -/
theorem BlockAt.in_live (h : PoolsAt plat w ps) (hb : BlockAt plat w ps b) :
    ∃ s ∈ w.live, b.span.Within s := by
  cases hb with
  | slot p hp haddr hindex hused hrecords =>
    obtain ⟨n, hn, hregion, -⟩ := (h.pool p hp).used_within hused
    exact ⟨n.region, (h.pool p hp).held n hn, hregion⟩
  | big hindex hlive hnode => exact ⟨b.span, hlive, Nat.le_refl _, Nat.le_refl _⟩

/-- **A block's words are no words of a pool's own**: not of its header, its
    memnodes' fields or its records. -/
theorem BlockAt.apart_own (h : PoolsAt plat w ps) (hb : BlockAt plat w ps b) (hp : p ∈ ps) :
    (p.headerSpan plat).Disjoint b.span ∧
    (∀ n ∈ p.nodes, Span.Disjoint ⟨n.addr, sizeofMemnode⟩ b.span) ∧
    ∀ r ∈ p.listed, (recordSpan r).Disjoint b.span := by
  have hpw := h.pool p hp
  -- apart from all regions of the pool is apart from all its own words
  have hfar : (∀ n ∈ p.nodes, n.region.Disjoint b.span) → (p.headerSpan plat).Disjoint b.span ∧
      (∀ n ∈ p.nodes, Span.Disjoint ⟨n.addr, sizeofMemnode⟩ b.span) ∧
      ∀ r ∈ p.listed, (recordSpan r).Disjoint b.span := by
    intro hdis
    refine ⟨?_, fun n hn => (hdis n hn).mono (hpw.wf.node n hn).fields_within, fun r hr => ?_⟩
    · obtain ⟨home, hhome, haddr, hend⟩ := hpw.wf.home
      have hupper := (hpw.wf.node home hhome).upper
      refine (hdis home hhome).mono ?_
      simp only [Span.Within, Pool.headerSpan, Memnode.region]
      omega
    · obtain ⟨-, n, hn, hin⟩ := hpw.wf.inBody r hr
      exact (hdis n hn).mono (hin.trans (hpw.wf.node n hn).body_within)
  cases hb with
  | slot q hq haddr hindex hused hrecords =>
    obtain ⟨m, hm, hregion, hbody⟩ := (h.pool q hq).used_within hused
    by_cases heq : p.addr = q.addr
    · obtain rfl : p = q := List.inj_on_of_nodup_map h.addrs_nodup hp hq heq
      exact ⟨hpw.header_body hm hbody, fun n hn => hpw.fields_body hn hm hbody,
        fun r hr => (hrecords r hr).symm⟩
    · exact hfar fun n hn =>
        ((h.regions_apart hp hq heq hn hm).symm.mono hregion).symm
  | big hindex hlive hnode =>
    exact hfar fun n hn => h.big_apart (s := b.span) hlive hnode hp hn

/-- **A used span and a block elsewhere** have nothing in common. -/
theorem PoolsAt.used_apart (h : PoolsAt plat w ps) (hp : p ∈ ps) {s : Span} (hs : p.Used s)
    (hb : BlockAt plat w ps b) (hne : p.addr ≠ b.pool ∨ sprMaxPoolSlot < slotIndex plat b.size) :
    Span.Disjoint s b.span := by
  obtain ⟨n, hn, hregion, -⟩ := (h.pool p hp).used_within hs
  cases hb with
  | slot q hq haddr hindex hused hrecords =>
    have hpq : p.addr ≠ q.addr := by
      rcases hne with hne | hbig
      · rwa [haddr]
      · exact absurd hindex (Nat.not_le.mpr hbig)
    obtain ⟨m, hm, hregion', -⟩ := (h.pool q hq).used_within hused
    exact (((h.regions_apart hp hq hpq hn hm).mono hregion).symm.mono hregion').symm
  | big hindex hlive hnode => exact (h.big_apart (s := b.span) hlive hnode hp hn).mono hregion

/-- **The blocks stay in place over a call** that does not end their life. -/
theorem BlockAt.call {rest : List Pool} {evs : List Event} (hb : BlockAt plat w (p :: rest) b)
    (hcall : Call plat w w' p p' evs) (hlife : ∀ e ∈ evs, e.drops b = false) :
    BlockAt plat w' (p' :: rest) b := by
  cases hb with
  | slot q hq haddr hindex hused hrecords =>
    rcases List.mem_cons.mp hq with rfl | hq
    · refine .slot p' List.mem_cons_self (hcall.addr.trans haddr) hindex (hcall.used _ hused)
        fun r hr => ?_
      rcases hcall.records r hr with hr | hnew
      · exact hrecords r hr
      · exact hnew _ hused
    · exact .slot q (List.mem_cons_of_mem _ hq) haddr hindex hused hrecords
  | big hindex hlive hnode =>
    refine .big hindex (hcall.kept _ hlive fun hin => ?_) fun hin => ?_
    · have := hlife _ hin
      simp [Event.drops, Block.span] at this
    · rw [List.flatMap_cons, List.mem_append] at hin hnode
      rcases hin with hin | hin
      · rcases hcall.moves.nodes _ hin with hold | hfresh
        · exact hnode (Or.inl hold)
        · exact hfresh _ hlive rfl
      · exact hnode (Or.inr hin)

end Blocks

/-! ## Section 2: The invariant -/

/-- The pool as its callers know it. -/
def Pool.member (p : Pool) : Member := ⟨p.addr, p.owner⟩

/-- **The invariant**: the family's pools are in place and linked, and the log is
    right about memnodes and blocks. -/
structure Inv (plat : Platform) (s : Session) (f : Forest Pool) : Prop where
  family : f.map Pool.member = s.family
  pools  : PoolsAt plat s.world f.toList
  rooted : RootedPools f
  nodes  : NodesLogged s.world.log f.toList
  blocks : BlocksOk plat s.world f.toList (heldBlocks s.world.log)

section Inv

variable {plat : Platform} {s : Session} {f : Forest Pool} {p p' : Pool} {w' : World}

theorem inv_initial (h : Initial s) : Inv plat s .nil := by
  obtain ⟨hlive, hlog, hfamily⟩ := h
  refine ⟨hfamily.symm, ⟨fun p hp => (List.not_mem_nil hp).elim, List.nodup_nil, List.nodup_nil,
    fun a ha => (List.not_mem_nil ha).elim, hlive⟩, trivial, ?_, ?_⟩
  · rw [hlog]
    exact ⟨fun q n => by simp [heldNodes], fun n => by simp [outstanding], trivial⟩
  · rw [hlog]
    exact ⟨fun b hb => (List.not_mem_nil hb).elim, List.Pairwise.nil,
      fun b hb => (List.not_mem_nil hb).elim, fun b hb => (List.not_mem_nil hb).elim⟩

theorem Inv.nodup (h : Inv plat s f) : (f.toList.map Pool.addr).Nodup := h.pools.addrs_nodup

theorem Inv.addrs (h : Inv plat s f) : s.addrs = f.toList.map Pool.addr := by
  rw [Session.addrs, ← h.family, Forest.toList_map, List.map_map]
  rfl

/-- A pool that the callers know is one of the forest. -/
theorem Inv.find (h : Inv plat s f) {a : Nat} (ha : a ∈ s.addrs) : ∃ p ∈ f.toList, p.addr = a := by
  rw [h.addrs] at ha
  exact List.mem_map.mp ha

/-- The forest with the pool at `p.addr` replaced. -/
def replace (f : Forest Pool) (p p' : Pool) : Forest Pool :=
  f.splice Pool.addr p.addr fun _ cs => (p', cs)

theorem Inv.mem_replace (h : Inv plat s f) (hp : p ∈ f.toList) (p' : Pool) :
    p' ∈ (replace f p p').toList := by
  obtain ⟨rest, -, -, hnew⟩ := Forest.split_at h.nodup hp
  exact (hnew fun _ cs => (p', cs)).mem_iff.mpr List.mem_cons_self

/-- **A call on one pool keeps the invariant.** -/
theorem Inv.call {evs : List Event} (h : Inv plat s f) (hp : p ∈ f.toList)
    (hcall : Call plat s.world w' p p' evs)
    (hforeign : ∀ rest, f.toList.Perm (p :: rest) → Foreign plat p p' rest) :
    Inv plat ⟨w', s.family⟩ (replace f p p') := by
  obtain ⟨rest, hold, -, hnew⟩ := Forest.split_at h.nodup hp
  have hnew := hnew fun _ cs => (p', cs)
  -- the pool is replaced where it is, and the links around it are the same
  have hunique : ∀ q ∈ f.toList, q.addr = p.addr → q = p := fun q hq heq =>
    List.inj_on_of_nodup_map h.nodup hq hp heq
  have hblocks := heldBlocks_append s.world.log hcall.nodes.hands
  refine ⟨?_, ((h.pools.perm hold).step hcall.moves (hforeign _ hold)).perm hnew.symm,
    rooted_splice (fun q hq heq cs hl => ?_) h.rooted, ?_, ?_⟩
  · have hkey : ∀ q : Pool, Member.addr (Pool.member q) = Pool.addr q := fun _ => rfl
    have hmap : (f.splice Pool.addr p.addr fun _ cs => (p', cs)).map Pool.member
        = (f.map Pool.member).splice Member.addr p.addr fun m cs => (m, cs) :=
      Forest.map_splice hkey fun q hq heq cs => by
        obtain rfl := hunique q hq heq
        rw [Pool.member, Pool.member, hcall.addr, hcall.owner]
    rw [Forest.splice_same fun _ _ => rfl, h.family] at hmap
    exact hmap
  · obtain rfl := hunique q hq heq
    exact ⟨hcall.addr, hcall.brother, by rwa [hcall.child]⟩
  · show NodesLogged w'.log _
    rw [hcall.log]
    exact ((h.nodes.perm hold).call hcall.addr hcall.nodes).perm hnew.symm
  · show BlocksOk plat w' _ (heldBlocks w'.log)
    rw [hcall.log]
    obtain ⟨hsub, hlife⟩ := hblocks
    refine BlocksOk.perm ⟨fun b hb => ?_, ?_, ?_, ?_⟩ hnew.symm
    · exact ((h.blocks.place b (hsub.subset hb)).perm hold).call hcall (hlife b hb)
    · exact h.blocks.apart.sublist hsub
    · exact fun b hb => h.blocks.aligned b (hsub.subset hb)
    · exact fun b hb => h.blocks.size b (hsub.subset hb)

/-- **A block is handed out.** -/
theorem Inv.hand (h : Inv plat s f) {b : Block} (hplace : BlockAt plat s.world f.toList b)
    (hal : b.addr % 8 = 0) (hsize : sprAlignAllocation b.size ≠ 0)
    (hapart : ∀ c ∈ heldBlocks s.world.log, Span.Disjoint b.span c.span) :
    Inv plat ⟨s.world.emit (.handed b.pool b.addr b.size), s.family⟩ f := by
  refine ⟨h.family, h.pools.of_eq rfl rfl, h.rooted, h.nodes.quiet rfl, ?_⟩
  show BlocksOk plat _ _ (heldBlocks (s.world.log ++ [.handed b.pool b.addr b.size]))
  rw [heldBlocks_handed]
  have hold : ∀ c, BlockAt plat s.world f.toList c →
      BlockAt plat (s.world.emit (.handed b.pool b.addr b.size)) f.toList c := by
    intro c hc
    cases hc with
    | slot p hp haddr hindex hused hrecords => exact .slot p hp haddr hindex hused hrecords
    | big hindex hlive hnode => exact .big hindex hlive hnode
  refine ⟨fun c hc => ?_, List.pairwise_cons.mpr ⟨hapart, h.blocks.apart⟩, fun c hc => ?_,
    fun c hc => ?_⟩
  · rcases List.mem_cons.mp hc with rfl | hc
    · exact hold _ hplace
    · exact hold _ (h.blocks.place c hc)
  · rcases List.mem_cons.mp hc with rfl | hc
    · exact hal
    · exact h.blocks.aligned c hc
  · rcases List.mem_cons.mp hc with rfl | hc
    · exact hsize
    · exact h.blocks.size c hc

/-- **A store to a block that is held** touches no pool. -/
theorem Inv.scribble (h : Inv plat s f) {b : Block} (hb : b ∈ heldBlocks s.world.log) {mem : Mem}
    (hmem : ∀ a, ¬ b.span.Covers a → mem a = s.world.mem a) :
    Inv plat ⟨{ s.world with mem := mem }, s.family⟩ f := by
  have hplace := h.blocks.place b hb
  refine ⟨h.family, ⟨fun p hp => ?_, h.pools.apart, h.pools.once, h.pools.region, h.pools.live⟩,
    h.rooted, h.nodes, ⟨fun c hc => ?_, h.blocks.apart, h.blocks.aligned, h.blocks.size⟩⟩
  · obtain ⟨hheader, hfields, hrecords⟩ := hplace.apart_own h.pools hp
    have hpw := h.pools.pool p hp
    refine ⟨hpw.rep.congr (fun a ha => hmem a (hheader.not_covers ha))
      (fun n hn a ha => hmem a ((hfields n hn).not_covers ha))
      (fun r hr a ha => hmem a ((hrecords r hr).not_covers ha)), hpw.wf, hpw.held, hpw.live⟩
  · cases h.blocks.place c hc with
    | slot p hp haddr hindex hused hrecords => exact .slot p hp haddr hindex hused hrecords
    | big hindex hlive hnode => exact .big hindex hlive hnode

end Inv

end Spr.MemPool
