import Spr.MemPool.Steps

/-! # The steps that grow the family

    * `Pool.core`: a pool but for its links; pools with the same core have the
      same memory and history.
    * `PoolsAt.of_core`, `BlockAt.of_core`: the links of some pools change.
    * `step_create`, `step_addChild`. -/

namespace Spr.MemPool

open Spr.Words Spr.Chains Spr.Forests

theorem member_addr (p : Pool) : p.member.addr = p.addr := rfl

/-! ## Section 1: Pools but for their links -/

/-- The pool without its links. -/
def Pool.core (p : Pool) : Pool := p.withLinks 0 0 0

@[simp] theorem core_addr (p : Pool) : p.core.addr = p.addr := rfl
@[simp] theorem core_nodes (p : Pool) : p.core.nodes = p.nodes := rfl
@[simp] theorem core_nodeAddrs (p : Pool) : p.core.nodeAddrs = p.nodeAddrs := rfl
@[simp] theorem core_listed (p : Pool) : p.core.listed = p.listed := rfl
@[simp] theorem core_freed (plat : Platform) (p : Pool) : p.core.freed plat = p.freed plat := rfl
@[simp] theorem core_withLinks (x y z : Nat) (p : Pool) : (p.withLinks x y z).core = p.core := rfl

section Core

variable {plat : Platform} {w w' : World} {ps qs : List Pool} {p : Pool}

/-- What does not look at links is the same for pools with the same core. -/
theorem flatMap_core {g : Pool → List Nat} (hg : ∀ p, g p.core = g p)
    (h : qs.map Pool.core = ps.map Pool.core) : qs.flatMap g = ps.flatMap g := by
  have hall : ∀ l : List Pool, l.flatMap g = (l.map Pool.core).flatMap g := fun l => by
    rw [List.flatMap_map]
    exact List.flatMap_congr fun p _ => (hg p).symm
  rw [hall qs, h, ← hall ps]

/-- A pool with the same core is among the others. -/
theorem mem_core (h : qs.map Pool.core = ps.map Pool.core) (hp : p ∈ ps) :
    ∃ q ∈ qs, q.addr = p.addr ∧ q.nodes = p.nodes ∧ q.listed = p.listed := by
  have hin : p.core ∈ qs.map Pool.core := h ▸ List.mem_map_of_mem hp
  obtain ⟨q, hq, heq⟩ := List.mem_map.mp hin
  refine ⟨q, hq, ?_, ?_, ?_⟩
  · rw [← core_addr, heq, core_addr]
  · rw [← core_nodes, heq, core_nodes]
  · rw [← core_listed, heq, core_listed]

/-- **The links of some pools change.** -/
theorem PoolsAt.of_core (h : PoolsAt plat w ps) (hcore : qs.map Pool.core = ps.map Pool.core)
    (hpool : ∀ q ∈ qs, PoolAt plat w' q) (hkept : ∀ s ∈ w.live, s ∈ w'.live)
    (hlive : LiveOk w'.live) : PoolsAt plat w' qs := by
  have hnodes := flatMap_core core_nodeAddrs hcore
  have hfreed := flatMap_core (core_freed plat) hcore
  refine ⟨hpool, by rw [hnodes]; exact h.apart, by rw [hfreed]; exact h.once, fun a ha => ?_, hlive⟩
  rw [hfreed] at ha
  obtain ⟨⟨s, hs, heq⟩, hout⟩ := h.region a ha
  exact ⟨⟨s, hkept s hs, heq⟩, by rwa [hnodes]⟩

theorem NodesLogged.of_core {log : List Event} (h : NodesLogged log ps)
    (hcore : qs.map Pool.core = ps.map Pool.core) : NodesLogged log qs := by
  refine h.of_same fun a n => ⟨?_, ?_⟩
  · rintro ⟨q, hq, rfl, hn⟩
    obtain ⟨p, hp, haddr, hnodes, -⟩ := mem_core hcore.symm hq
    exact ⟨p, hp, haddr, by rwa [Pool.nodeAddrs, hnodes]⟩
  · rintro ⟨p, hp, rfl, hn⟩
    obtain ⟨q, hq, haddr, hnodes, -⟩ := mem_core hcore hp
    exact ⟨q, hq, haddr, by rwa [Pool.nodeAddrs, hnodes]⟩

theorem BlockAt.of_core {b : Block} (h : BlockAt plat w ps b)
    (hcore : qs.map Pool.core = ps.map Pool.core) (hkept : ∀ s ∈ w.live, s ∈ w'.live) :
    BlockAt plat w' qs b := by
  cases h with
  | slot p hp haddr hindex hused hrecords =>
    obtain ⟨q, hq, heq, hnodes, hlisted⟩ := mem_core hcore hp
    refine .slot q hq (heq.trans haddr) hindex ?_ (by rwa [hlisted])
    unfold Pool.Used
    rwa [hnodes]
  | big hindex hlive hnode =>
    exact .big hindex (hkept _ hlive) (by rwa [flatMap_core core_nodeAddrs hcore])

/-- **A new pool** joins the others. -/
theorem PoolsAt.cons (h : PoolsAt plat w ps) (hp : PoolAt plat w p) (hregs : p.freed plat = [])
    (hnodes : ∀ a ∈ p.nodeAddrs, a ∉ ps.flatMap Pool.nodeAddrs ∧
      a ∉ ps.flatMap (Pool.freed plat)) : PoolsAt plat w (p :: ps) := by
  refine ⟨fun q hq => ?_, ?_, ?_, fun a ha => ?_, h.live⟩
  · rcases List.mem_cons.mp hq with rfl | hq
    · exact hp
    · exact h.pool q hq
  · rw [List.flatMap_cons, List.nodup_append]
    exact ⟨hp.wf.nodup, h.apart, fun a ha b hb heq => (hnodes a ha).1 (heq ▸ hb)⟩
  · rw [List.flatMap_cons, hregs, List.nil_append]
    exact h.once
  · rw [List.flatMap_cons, hregs, List.nil_append] at ha
    obtain ⟨hs, hout⟩ := h.region a ha
    refine ⟨hs, fun hin => ?_⟩
    rw [List.flatMap_cons, List.mem_append] at hin
    rcases hin with hin | hin
    · exact (hnodes a hin).2 ha
    · exact hout hin

end Core

/-! ## Section 2: `spr_pool_add_child` -/

section AddChild

variable {plat : Platform} {s s' : Session} {f : Forest Pool}

/-- Linking a child to a parent writes into their headers only. -/
theorem linkChild_frame {w : World} {p q : Pool} (hp : PoolAt plat w p) (hq : PoolAt plat w q)
    {b : Nat} (hpb : ∀ n ∈ p.nodes, ¬ n.region.Covers b)
    (hqb : ∀ n ∈ q.nodes, ¬ n.region.Covers b) :
    (linkChild w q.addr p.addr q.child).mem b = w.mem b := by
  have hlow := le_sizeofPool plat
  have hword : ∀ j < 200, b ≠ p.addr + j := by
    rintro j hj rfl
    obtain ⟨n, hn, hc⟩ := hp.header_in_region (j := j) (by omega)
    exact hpb n hn hc
  have hqword : b ≠ q.addr + 176 := by
    rintro rfl
    obtain ⟨n, hn, hc⟩ := hq.header_in_region (j := 176) (by omega)
    exact hqb n hn hc
  simp only [linkChild, store_mem]
  rw [Function.update_of_ne (hword 168 (by omega)), Function.update_of_ne hqword,
    Function.update_of_ne (hword 160 (by omega))]

/-- **`spr_pool_add_child`** on a pool without a parent. -/
theorem step_addChild {parent child : Nat} (h : Inv plat s f)
    (hlegal : s.Legal plat (.addChild parent child))
    (hroots : s.AtRoots plat (.addChild parent child))
    (hexec : s.exec plat (.addChild parent child) = some s') :
    Leads plat s f (.addChild parent child) s' := by
  obtain ⟨hparent, -, hne, hout⟩ := hlegal
  obtain ⟨m, hm, hchild⟩ := hroots
  obtain ⟨q, hq, rfl⟩ := h.find hparent
  rw [← h.family, Forest.roots_map] at hm
  obtain ⟨p, hp, rfl⟩ := List.mem_map.mp hm
  subst hchild
  have hin := Forest.roots_subset hp
  -- the parent is not below the child
  have hq' : q ∉ (f.childrenAt Pool.addr p.addr).toList := by
    intro hmem
    apply hout
    have hmap : (f.childrenAt Pool.addr p.addr).map Pool.member
        = (f.map Pool.member).childrenAt Member.addr p.addr := Forest.map_childrenAt member_addr f
    show q.addr ∈ (s.family.childrenAt Member.addr p.addr).toList.map Member.addr
    rw [← h.family, ← hmap, Forest.toList_map, List.map_map]
    exact List.mem_map_of_mem (f := Member.addr ∘ Pool.member) hmem
  obtain ⟨rest, hold, hnew⟩ := Forest.graft_perm (g := linkPools) h.nodup hin hq hne hq'
  have hat := h.pools.perm hold
  have hpw := hat.pool p List.mem_cons_self
  have hqw := hat.pool q (List.mem_cons_of_mem _ List.mem_cons_self)
  obtain ⟨hrun, hp', hq₁⟩ := sprPoolAddChild_run hpw hqw fun n hn k hk =>
    hat.regions_apart List.mem_cons_self (List.mem_cons_of_mem _ List.mem_cons_self)
      (Ne.symm hne) hn hk
  obtain rfl : s' = ⟨linkChild s.world q.addr p.addr q.child, rehome q.addr p.addr s.family⟩ := by
    simpa [Session.exec, hrun, returned, Pool.member] using hexec.symm
  have hmap : (f.graft Pool.addr p.addr q.addr linkPools).map Pool.member
      = (f.map Pool.member).graft Member.addr p.addr q.addr fun m k => (m, k) :=
    Forest.map_graft member_addr h.nodup hin fun _ _ _ => rfl
  have hcore : ((linkPools p q).1 :: (linkPools p q).2 :: rest).map Pool.core
      = (p :: q :: rest).map Pool.core := rfl
  refine ⟨_, .addChild p q _ hp hq hne hq' rfl, ?_, ?_, ?_, ?_, ?_⟩
  · rw [hmap, h.family]
    rfl
  · refine PoolsAt.perm ?_ hnew.symm
    refine hat.of_core hcore (fun r hr => ?_) (fun _ hs => hs) hat.live
    rcases List.mem_cons.mp hr with rfl | hr
    · exact hp'
    · rcases List.mem_cons.mp hr with rfl | hr
      · exact hq₁
      · -- another pool lies in regions that are neither of the two's
        have hr' : r ∈ p :: q :: rest := List.mem_cons_of_mem _ (List.mem_cons_of_mem _ hr)
        have hnd := hat.addrs_nodup
        simp only [List.map_cons, List.nodup_cons, List.mem_cons, not_or] at hnd
        have hrp : p.addr ≠ r.addr := fun heq => hnd.1.2 (heq ▸ List.mem_map_of_mem hr)
        have hrq : q.addr ≠ r.addr := fun heq => hnd.2.1 (heq ▸ List.mem_map_of_mem hr)
        refine (hat.pool r hr').congr (fun b hb => ?_) (fun n hn => (hat.pool r hr').held n hn)
          hat.live
        obtain ⟨n, hn, hb⟩ := hb
        exact linkChild_frame hpw hqw
          (fun m hm hc => (hat.regions_apart List.mem_cons_self hr' hrp hm hn).not_covers hc hb)
          (fun m hm hc => (hat.regions_apart (List.mem_cons_of_mem _ List.mem_cons_self) hr' hrq
            hm hn).not_covers hc hb)
  · exact rooted_graft h.rooted h.nodup hp fun b _ _ => ⟨rfl, rfl, rfl, rfl, rfl⟩
  · exact ((h.nodes.perm hold).of_core hcore).perm hnew.symm
  · refine ⟨fun b hb => BlockAt.perm ?_ hnew.symm, h.blocks.apart, h.blocks.aligned, h.blocks.size⟩
    exact ((h.blocks.place b hb).perm hold).of_core hcore fun _ hs => hs

end AddChild

/-! ## Section 3: `spr_pool_create1` -/

section Create

variable {plat : Platform} {s s' : Session} {f : Forest Pool} {w' : World} {ps qs : List Pool}

/-- A creation that fails leaves no memnode behind. -/
theorem NodesLogged.failed {log evs : List Event} {live : List Span} (h : NodesLogged log ps)
    (hevs : FailedLog live evs) (hheld : ∀ a ∈ ps.flatMap Pool.nodeAddrs, ∃ s ∈ live, s.start = a) :
    NodesLogged (log ++ evs) ps := by
  cases hevs with
  | rejected => exact h.quiet rfl
  | refused size => exact h.quiet rfl
  | mutex a size hfresh =>
    -- what was obtained has been freed again, and was no memnode of a pool
    have hout : a ∉ ps.flatMap Pool.nodeAddrs := fun hin => by
      obtain ⟨s, hs, heq⟩ := hheld a hin
      exact hfresh s hs heq
    have hnodes : heldNodes (log ++ [.obtained a size, .allocated a, .deallocated a, .freed a])
        = (heldNodes log).filter fun m => m.2 ≠ a := by
      simp [heldNodes, nodeStep]
    have houts : outstanding (log ++ [.obtained a size, .allocated a, .deallocated a, .freed a])
        = (outstanding log).filter fun m => m ≠ a := by
      simp [outstanding, outStep]
    refine ⟨fun q n => ?_, fun n => ?_, audited_append.mpr ⟨h.audit, ?_⟩⟩
    · rw [hnodes, List.mem_filter, h.held q n]
      refine and_iff_left_of_imp ?_
      rintro ⟨p, hp, -, hn⟩
      refine decide_eq_true ?_
      rintro rfl
      exact hout (List.mem_flatMap.mpr ⟨p, hp, hn⟩)
    · rw [houts, List.mem_filter, h.out n]
      refine and_iff_left_of_imp fun hn => decide_eq_true ?_
      rintro rfl
      exact hout hn
    · simp [Audited, AuditOk, outStep]

theorem FailedLog.hands {live : List Span} {evs : List Event} (h : FailedLog live evs) :
    ∀ e ∈ evs, e.hands = false := by
  cases h <;> simp [Event.hands]

/-- **A creation that fails** keeps the invariant. -/
theorem Inv.failed {evs : List Event} (h : Inv plat s f)
    (hframe : ∀ r ∈ s.world.live, ∀ b, r.Covers b → w'.mem b = s.world.mem b)
    (hlive : w'.live = s.world.live) (hevs : FailedLog s.world.live evs)
    (hlog : w'.log = s.world.log ++ evs) : Inv plat ⟨w', s.family⟩ f := by
  refine ⟨h.family, h.pools.of_core rfl (fun p hp => ?_) (by simp [hlive]) (hlive ▸ h.pools.live),
    h.rooted, ?_, ?_⟩
  · refine (h.pools.pool p hp).congr (fun b hb => ?_) (fun n hn => ?_) (hlive ▸ h.pools.live)
    · obtain ⟨n, hn, hb⟩ := hb
      exact hframe _ ((h.pools.pool p hp).held n hn) b hb
    · rw [hlive]
      exact (h.pools.pool p hp).held n hn
  · show NodesLogged w'.log _
    rw [hlog]
    exact h.nodes.failed hevs fun a ha => h.pools.held ha
  · show BlocksOk plat w' _ (heldBlocks w'.log)
    rw [hlog]
    have hsub := (heldBlocks_append s.world.log hevs.hands).1
    refine (BlocksOk.sublist ?_ hsub)
    refine ⟨fun b hb => ?_, h.blocks.apart, h.blocks.aligned, h.blocks.size⟩
    exact (h.blocks.place b hb).of_core rfl (by simp [hlive])

/-- **A new pool joins the family**, whose links may change. -/
theorem Inv.grown {p : Pool} {a size : Nat} (h : Inv plat s f) (hperm : f.toList.Perm ps)
    (hcore : qs.map Pool.core = ps.map Pool.core) (hpool : ∀ q ∈ qs, PoolAt plat w' q)
    (hp : PoolAt plat w' p) (hnodes : p.nodeAddrs = [a]) (hregs : p.cleanups = [])
    (hgrant : Grants s.world.live a size) (hsize : 0 < size)
    (hlive : w'.live = ⟨a, size⟩ :: s.world.live)
    (hlog : w'.log = s.world.log ++ [.obtained a size, .allocated a, .registered p.addr a]) :
    PoolsAt plat w' (p :: qs) ∧ NodesLogged w'.log (p :: qs) ∧
      BlocksOk plat w' (p :: qs) (heldBlocks w'.log) := by
  have hfresh : ∀ r ∈ s.world.live, r.start ≠ a := fun r hr => hgrant.fresh h.pools.live hsize hr
  have hkept : ∀ r ∈ s.world.live, r ∈ w'.live := by
    rw [hlive]
    exact fun r hr => List.mem_cons_of_mem _ hr
  have hat := h.pools.perm hperm
  have hat' := hat.of_core hcore hpool hkept hp.live
  have hout : a ∉ qs.flatMap Pool.nodeAddrs := by
    rw [flatMap_core core_nodeAddrs hcore]
    intro hin
    obtain ⟨r, hr, heq⟩ := hat.held hin
    exact hfresh r hr heq
  have hout' : a ∉ qs.flatMap (Pool.freed plat) := by
    rw [flatMap_core (core_freed plat) hcore]
    intro hin
    obtain ⟨⟨r, hr, heq⟩, -⟩ := hat.region a hin
    exact hfresh r hr heq
  -- the pools, the memnodes and the blocks
  refine ⟨hat'.cons hp (by rw [Pool.freed, hregs]; rfl) fun b hb => ?_, ?_, ?_⟩
  · rw [hnodes, List.mem_singleton] at hb
    subst hb
    exact ⟨hout, hout'⟩
  · rw [hlog]
    refine NodesLogged.gain ((h.nodes.perm hperm).of_core hcore) (fun q n => ?_) rfl
    rw [List.exists_mem_cons_iff, hnodes, List.mem_singleton, eq_comm (a := p.addr)]
  · rw [hlog]
    have hquiet : ∀ e ∈ [Event.obtained a size, .allocated a, .registered p.addr a],
        e.hands = false := by simp [Event.hands]
    refine BlocksOk.sublist ?_ (heldBlocks_append s.world.log hquiet).1
    refine ⟨fun b hb => ?_, h.blocks.apart, h.blocks.aligned, h.blocks.size⟩
    have hplace := ((h.blocks.place b hb).perm hperm).of_core hcore hkept
    cases hplace with
    | slot q hq haddr hindex hused hrecords =>
      exact .slot q (List.mem_cons_of_mem _ hq) haddr hindex hused hrecords
    | big hindex hlive' hnode =>
      -- a block of its own was there before the new region
      refine .big hindex hlive' fun hin => ?_
      rw [List.flatMap_cons, List.mem_append, hnodes, List.mem_singleton] at hin
      rcases hin with rfl | hin
      · obtain hold := (h.blocks.place b hb)
        cases hold with
        | slot q hq _ hindex' _ _ => exact absurd hindex' (Nat.not_le.mpr hindex)
        | big _ hin _ => exact hfresh _ hin rfl
      · exact hnode hin

theorem madePool_nodeAddrs (plat : Platform) (thread size a : Nat) (q : Option Pool) :
    (madePool plat thread size a q).nodeAddrs = [a] := by
  cases q <;> simp [madePool, Pool.nodeAddrs, newPool_nodes, homeNode]

/-- A creation writes to no pool but the parent. -/
theorem PoolsAt.created_apart {w : World} {q : Option Pool} {p : Pool} (h : PoolsAt plat w ps)
    (hq : ∀ r ∈ q, r ∈ ps) (hp : p ∈ ps) (hne : ∀ r ∈ q, r.addr ≠ p.addr)
    (hframe : ∀ r ∈ w.live, ∀ b, r.Covers b → (∀ r ∈ q, b ≠ r.addr + 176) →
      w'.mem b = w.mem b)
    (hkept : ∀ r ∈ w.live, r ∈ w'.live) (hlive : LiveOk w'.live) : PoolAt plat w' p := by
  have hpw := h.pool p hp
  refine hpw.congr (fun b hb => ?_) (fun n hn => hkept _ (hpw.held n hn)) hlive
  obtain ⟨n, hn, hb⟩ := hb
  refine hframe _ (hpw.held n hn) b hb fun r hr heq => ?_
  -- the word of the parent lies in a region of the parent
  have hlow := le_sizeofPool plat
  obtain ⟨m, hm, hc⟩ := (h.pool r (hq r hr)).header_in_region (j := 176) (by omega)
  rw [heq] at hb
  exact (h.regions_apart (hq r hr) hp (hne r hr) hm hn).not_covers hc hb

/-- The new pool as the first child of its parent, as the callers see it. -/
theorem map_createdChild {thread size a : Nat} {q : Pool}
    (hunique : ∀ r ∈ f.toList, r.addr = q.addr → r = q) :
    (f.splice Pool.addr q.addr fun q cs =>
        (q.withLinks q.parent q.brother (a + sizeofMemnode),
          .node (madePool plat thread size a (some q)) .nil cs)).map Pool.member
      = (f.map Pool.member).splice Member.addr q.addr fun m cs =>
        (m, .node ⟨a + sizeofMemnode, thread⟩ .nil cs) :=
  Forest.map_splice member_addr fun r hr heq cs => by
    obtain rfl := hunique r hr heq
    rfl

/-- **`spr_pool_create1`.** -/
theorem step_create {thread size parent : Nat} (h : Inv plat s f)
    (hlegal : s.Legal plat (.create thread size parent))
    (hclean : s.Clean plat (.create thread size parent))
    (hexec : s.exec plat (.create thread size parent) = some s') :
    Leads plat s f (.create thread size parent) s' := by
  obtain ⟨q, hq, rfl⟩ : ∃ q : Option Pool, (∀ p ∈ q, p ∈ f.toList) ∧ parentAddr q = parent := by
    rcases hlegal with rfl | hin
    · exact ⟨none, fun p hp => (Option.not_mem_none p hp).elim, rfl⟩
    · obtain ⟨p, hp, rfl⟩ := h.find hin
      exact ⟨some p, fun r hr => by cases hr; exact hp, rfl⟩
  obtain ⟨r, w', hrun, hcreate⟩ := sprPoolCreate1_cases thread h.pools.live
    (fun p hp => h.pools.pool p (hq p hp)) hclean
  simp only [Session.exec, hrun, returned, Option.some.injEq] at hexec
  subst hexec
  cases hcreate with
  | failed err _ evs herr hframe hlive hevs hlog =>
    rw [if_neg herr]
    exact ⟨f, .createFailed thread size _ w' evs hevs hlog, h.failed hframe hlive hevs hlog⟩
  | made a _ hgrant hindex hp hparent hframe hlive hlog =>
    rw [if_pos rfl]
    have hpos : 0 < createBytes plat size := by
      refine Nat.pos_of_ne_zero (hclean (fun halign => ?_) hindex)
      simp [sprPoolCreate1, halign, sprFailed, sprOk] at hrun
    have hnodes := madePool_nodeAddrs plat thread size a q
    have hkept : ∀ r ∈ s.world.live, r ∈ w'.live := by
      rw [hlive]
      exact fun r hr => List.mem_cons_of_mem _ hr
    have hother : ∀ p ∈ f.toList, (∀ r ∈ q, r.addr ≠ p.addr) → PoolAt plat w' p :=
      fun p hpf hne => h.pools.created_apart hq hpf hne hframe hkept hp.live
    cases q with
    | none =>
      -- a new root, before the other roots
      obtain ⟨hat, hlogged, hblocks⟩ := h.grown (List.Perm.refl _) rfl
        (fun p hpf => hother p hpf fun r hr => (Option.not_mem_none r hr).elim) hp hnodes rfl
        hgrant hpos hlive hlog
      refine ⟨_, .createRoot thread size a w' hgrant hindex hlog, ?_, hat, ⟨rfl, h.rooted⟩,
        hlogged, hblocks⟩
      show Forest.node _ _ _ = _
      rw [h.family]
      rfl
    | some q =>
      -- the new pool becomes the first child of its parent
      have hqf := hq q rfl
      obtain ⟨rest, hold, -, hnew⟩ := Forest.split_at h.nodup hqf
      have hnew := hnew fun q cs => (q.withLinks q.parent q.brother (a + sizeofMemnode),
        .node (madePool plat thread size a (some q)) .nil cs)
      have hunique : ∀ r ∈ f.toList, r.addr = q.addr → r = q := fun r hr heq =>
        List.inj_on_of_nodup_map h.nodup hr hqf heq
      have hpool : ∀ p ∈ q.withLinks q.parent q.brother (a + sizeofMemnode) ::
          ((f.childrenAt Pool.addr q.addr).toList ++ rest), PoolAt plat w' p := by
        intro p hpf
        rcases List.mem_cons.mp hpf with rfl | hpf
        · exact hparent q rfl
        · have hnd := (hold.map Pool.addr).nodup_iff.mp h.nodup
          refine hother p (hold.mem_iff.mpr (List.mem_cons_of_mem _ hpf)) fun r hr heq => ?_
          obtain rfl : q = r := Option.some.inj hr
          exact (List.nodup_cons.mp hnd).1 (List.mem_map.mpr ⟨p, hpf, heq.symm⟩)
      have hcore : (q.withLinks q.parent q.brother (a + sizeofMemnode) ::
          ((f.childrenAt Pool.addr q.addr).toList ++ rest)).map Pool.core
            = (q :: ((f.childrenAt Pool.addr q.addr).toList ++ rest)).map Pool.core := rfl
      obtain ⟨hat, hlogged, hblocks⟩ :=
        h.grown hold hcore hpool hp hnodes rfl hgrant hpos hlive hlog
      have hperm := (List.Perm.swap _ _ _).trans hnew.symm
      refine ⟨_, .createChild thread size a q w' hqf hgrant hindex hlog, ?_, hat.perm hperm,
        rooted_splice (fun r hr heq cs hl => ?_) h.rooted, hlogged.perm hperm, hblocks.perm hperm⟩
      · rw [map_createdChild hunique, h.family, parentAddr, Option.elim_some, adopt,
          if_neg (h.pools.pool q hqf).addr_ne_null]
      · obtain rfl := hunique r hr heq
        exact ⟨rfl, rfl, rfl, rfl, hl⟩

end Create

end Spr.MemPool
