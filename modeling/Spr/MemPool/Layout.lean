import Spr.MemPool.Model

/-! # What a pool is in memory

    The typed view of a pool, and when the words of the memory hold it.

    * `Memnode`, `Pool`: the structures, with their lists as lists.
    * `PoolAt`: the world holds the pool, every part of it in its own place.
    * Zones: the header, the memnodes and the records never share a word.
    * `congr`: a change of memory elsewhere is no change of the pool. -/

namespace Spr.MemPool

open Spr.Words Spr.Chains

/-! ## Section 1: Views -/

/-- `spr_memnode_t`, with its address. -/
structure Memnode where
  addr        : Nat
  begin       : Nat
  firstAvail  : Nat
  size        : Nat
  sizeAvail   : Nat
  deallocSize : Nat
  deriving DecidableEq

/-- `spr_cleanup_node_t`, with its address. -/
structure Record where
  addr    : Nat
  data    : Nat
  handler : Nat
  deriving DecidableEq

/-- `spr_pool_t`, with its address.  The `orphans` are the memnodes registered
    in `nodes[20]`, that is in `parent`: no list leads to them for long. -/
structure Pool where
  addr     : Nat
  slots    : Nat → List Memnode
  orphans  : List Memnode
  cleanups : List Record
  frees    : List Nat
  parent   : Nat
  brother  : Nat
  child    : Nat
  mutex    : Nat
  owner    : Nat

/-- The region the system gave for the memnode. -/
def Memnode.region (n : Memnode) : Span := ⟨n.addr, n.deallocSize⟩

/-- The part of the region that is handed out. -/
def Memnode.body (n : Memnode) : Span := ⟨n.begin, n.size⟩

/-- All memnodes of the pool. -/
def Pool.nodes (p : Pool) : List Memnode :=
  (List.range sprMaxPoolSlot).flatMap p.slots ++ p.orphans

/-- The records on the two lists. -/
def Pool.listed (p : Pool) : List Nat := p.cleanups.map Record.addr ++ p.frees

theorem Pool.mem_nodes {p : Pool} {n : Memnode} :
    n ∈ p.nodes ↔ (∃ i < sprMaxPoolSlot, n ∈ p.slots i) ∨ n ∈ p.orphans := by
  simp [Pool.nodes]

theorem Pool.mem_nodes_of_slot {p : Pool} {n : Memnode} {i : Nat} (hi : i < sprMaxPoolSlot)
    (hn : n ∈ p.slots i) : n ∈ p.nodes := Pool.mem_nodes.mpr (Or.inl ⟨i, hi, hn⟩)

/-! ## Section 2: Representation -/

/-- The words at `n.addr` hold the fields of `n`; the link belongs to its list.
    The offsets are those of the fields in the source's structures. -/
structure HoldsNode (mem : Mem) (n : Memnode) : Prop where
  begin       : mem (n.addr + 8) = n.begin
  firstAvail  : mem (n.addr + 16) = n.firstAvail
  size        : mem (n.addr + 24) = n.size
  sizeAvail   : mem (n.addr + 32) = n.sizeAvail
  deallocSize : mem (n.addr + 40) = n.deallocSize

/-- The slots and the memnodes. -/
structure NodesRep (mem : Mem) (p : Pool) : Prop where
  slot : ∀ i < sprMaxPoolSlot,
    Chain mem 0 (mem (p.addr + 8 * i)) ((p.slots i).map Memnode.addr)
  node : ∀ n ∈ p.nodes, HoldsNode mem n

/-- The two lists of records. -/
structure RecordsRep (mem : Mem) (p : Pool) : Prop where
  cleanups : Chain mem 0 (mem (p.addr + 184)) (p.cleanups.map Record.addr)
  record   : ∀ r ∈ p.cleanups,
    mem (r.addr + 8) = r.data ∧ mem (r.addr + 16) = r.handler
  frees    : Chain mem 0 (mem (p.addr + 192)) p.frees

/-- The other fields of the header. -/
structure HeaderRep (plat : Platform) (mem : Mem) (p : Pool) : Prop where
  parent  : mem (p.addr + 160) = p.parent
  brother : mem (p.addr + 168) = p.brother
  child   : mem (p.addr + 176) = p.child
  mutex   : plat.threadSafety = true → mem (p.addr + 200) = p.mutex
  owner   : plat.threadSafety = true → mem (p.addr + 208) = p.owner

/-- The memory holds the pool. -/
structure Rep (plat : Platform) (mem : Mem) (p : Pool) : Prop where
  nodes   : NodesRep mem p
  records : RecordsRep mem p
  header  : HeaderRep plat mem p

/-- The arithmetic of a memnode: `begin <= first_avail`, and what is left ends
    where the region ends. -/
structure NodeOk (n : Memnode) : Prop where
  ne_null : n.addr ≠ 0
  header  : n.addr + sizeofMemnode ≤ n.begin
  lower   : n.begin ≤ n.firstAvail
  total   : n.firstAvail + n.sizeAvail = n.begin + n.size
  upper   : n.begin + n.size = n.addr + n.deallocSize
  fits    : n.addr + n.deallocSize < wordMod
  aligned : n.addr % 8 = 0 ∧ n.begin % 8 = 0 ∧ n.firstAvail % 8 = 0

/-- The pool's parts are where they may be. -/
structure Wf (plat : Platform) (p : Pool) : Prop where
  node    : ∀ n ∈ p.nodes, NodeOk n
  nodup   : (p.nodes.map Memnode.addr).Nodup
  home    : ∃ home ∈ p.nodes, p.addr = home.addr + sizeofMemnode ∧
    p.addr + sizeofPool plat ≤ home.begin
  apart   : p.listed.Pairwise fun a b =>
    Span.Disjoint ⟨a, sizeofCleanupNode⟩ ⟨b, sizeofCleanupNode⟩
  inBody  : ∀ r ∈ p.listed, r % 8 = 0 ∧ ∃ n ∈ p.nodes, Span.Within ⟨r, sizeofCleanupNode⟩ n.body

/-- The regions given out are disjoint, addressable and not empty. -/
structure LiveOk (live : List Span) : Prop where
  disjoint : live.Pairwise Span.Disjoint
  bounded  : ∀ s ∈ live, s.start ≠ 0 ∧ s.start % 8 = 0 ∧ 0 < s.len ∧ s.start + s.len < wordMod

/-- **The pool `p` is at its address in the world.** -/
structure PoolAt (plat : Platform) (w : World) (p : Pool) : Prop where
  rep  : Rep plat w.mem p
  wf   : Wf plat p
  held : ∀ n ∈ p.nodes, n.region ∈ w.live
  live : LiveOk w.live

theorem sizeofPool_le (plat : Platform) : sizeofPool plat ≤ 216 := by
  unfold sizeofPool
  split <;> omega

theorem le_sizeofPool (plat : Platform) : 200 ≤ sizeofPool plat := by
  unfold sizeofPool
  split <;> omega

theorem sizeofPool_safe {plat : Platform} (h : plat.threadSafety = true) :
    sizeofPool plat = 216 := by
  unfold sizeofPool
  rw [if_pos h]

/-! ## Section 3: Zones -/

section Zones

variable {plat : Platform} {w : World} {p : Pool} {n n' : Memnode} {r r' : Nat}

/-- Memnodes at one address are one memnode. -/
theorem Wf.node_inj (h : Wf plat p) (hn : n ∈ p.nodes) (hn' : n' ∈ p.nodes)
    (haddr : n.addr = n'.addr) : n = n' :=
  List.inj_on_of_nodup_map h.nodup hn hn' haddr

theorem PoolAt.regions (h : PoolAt plat w p) (hn : n ∈ p.nodes) (hn' : n' ∈ p.nodes)
    (hne : n.addr ≠ n'.addr) : n.region.Disjoint n'.region := by
  rcases Span.eq_or_disjoint h.live.disjoint (h.held n hn) (h.held n' hn') with heq | hdis
  · exact absurd (congrArg Span.start heq) hne
  · exact hdis

theorem NodeOk.body_within (h : NodeOk n) : n.body.Within n.region := by
  have := h.header
  have := h.upper
  simp only [Span.Within, Memnode.body, Memnode.region]
  omega

/-- The memnode's own fields lie before its body. -/
theorem NodeOk.fields_apart (h : NodeOk n) {s : Span} (hs : s.Within n.body) :
    Span.Disjoint ⟨n.addr, sizeofMemnode⟩ s := by
  have := h.header
  simp only [Span.Within, Memnode.body, Span.Disjoint] at *
  omega

theorem NodeOk.fields_within (h : NodeOk n) : Span.Within ⟨n.addr, sizeofMemnode⟩ n.region := by
  have := h.header
  have := h.upper
  simp only [Span.Within, Memnode.region]
  omega

/-- A memnode's fields and a stretch of a memnode's body. -/
theorem PoolAt.fields_body (h : PoolAt plat w p) (hn : n ∈ p.nodes) (hn' : n' ∈ p.nodes)
    {s : Span} (hs : s.Within n'.body) : Span.Disjoint ⟨n.addr, sizeofMemnode⟩ s := by
  by_cases heq : n.addr = n'.addr
  · obtain rfl := h.wf.node_inj hn hn' heq
    exact (h.wf.node n hn).fields_apart hs
  · have hdis := h.regions hn hn' heq
    have hs' := hs.trans (h.wf.node n' hn').body_within
    exact ((hdis.mono (h.wf.node n hn).fields_within).symm.mono hs').symm

/-- Two memnodes' fields. -/
theorem PoolAt.fields_fields (h : PoolAt plat w p) (hn : n ∈ p.nodes) (hn' : n' ∈ p.nodes)
    (hne : n.addr ≠ n'.addr) :
    Span.Disjoint ⟨n.addr, sizeofMemnode⟩ ⟨n'.addr, sizeofMemnode⟩ :=
  (((h.regions hn hn' hne).mono (h.wf.node n hn).fields_within).symm.mono
    (h.wf.node n' hn').fields_within).symm

/-- The header of the pool. -/
def Pool.headerSpan (plat : Platform) (p : Pool) : Span := ⟨p.addr, sizeofPool plat⟩

/-- The header and a memnode's fields. -/
theorem PoolAt.header_fields (h : PoolAt plat w p) (hn : n ∈ p.nodes) :
    (p.headerSpan plat).Disjoint ⟨n.addr, sizeofMemnode⟩ := by
  obtain ⟨home, hhome, haddr, hend⟩ := h.wf.home
  have hok := h.wf.node home hhome
  have hupper := hok.upper
  by_cases heq : n.addr = home.addr
  · simp only [Span.Disjoint, Pool.headerSpan, haddr, heq]
    omega
  · have hdis := (h.regions hn hhome heq).mono (h.wf.node n hn).fields_within
    simp only [Span.Disjoint, Pool.headerSpan, Memnode.region] at *
    omega

/-- The header and a stretch of a memnode's body. -/
theorem PoolAt.header_body (h : PoolAt plat w p) (hn : n ∈ p.nodes) {s : Span}
    (hs : s.Within n.body) : (p.headerSpan plat).Disjoint s := by
  obtain ⟨home, hhome, haddr, hend⟩ := h.wf.home
  have hok := h.wf.node home hhome
  have hupper := hok.upper
  by_cases heq : n.addr = home.addr
  · obtain rfl := h.wf.node_inj hn hhome heq
    simp only [Span.Disjoint, Span.Within, Pool.headerSpan, Memnode.body] at *
    omega
  · have hdis := (h.regions hn hhome heq).mono (h.wf.node n hn).body_within
    simp only [Span.Disjoint, Span.Within, Pool.headerSpan, Memnode.region, Memnode.body] at *
    omega

/-- A record's words. -/
def recordSpan (r : Nat) : Span := ⟨r, sizeofCleanupNode⟩

theorem PoolAt.header_record (h : PoolAt plat w p) (hr : r ∈ p.listed) :
    (p.headerSpan plat).Disjoint (recordSpan r) := by
  obtain ⟨-, n, hn, hin⟩ := h.wf.inBody r hr
  exact h.header_body hn hin

theorem PoolAt.fields_record (h : PoolAt plat w p) (hn : n ∈ p.nodes) (hr : r ∈ p.listed) :
    Span.Disjoint ⟨n.addr, sizeofMemnode⟩ (recordSpan r) := by
  obtain ⟨-, n', hn', hin⟩ := h.wf.inBody r hr
  exact h.fields_body hn hn' hin

/-- The word at `b` is the pool's own: of its header, of a memnode's fields or of a
    record. -/
def Pool.Owns (plat : Platform) (p : Pool) (b : Nat) : Prop :=
  (p.headerSpan plat).Covers b ∨ (∃ n ∈ p.nodes, Span.Covers ⟨n.addr, sizeofMemnode⟩ b) ∨
    ∃ r ∈ p.listed, (recordSpan r).Covers b

/-- A pool's own words are in its regions. -/
theorem Wf.owns_region (h : Wf plat p) {b : Nat} (hb : p.Owns plat b) :
    ∃ n ∈ p.nodes, n.region.Covers b := by
  rcases hb with hb | ⟨n, hn, hb⟩ | ⟨r, hr, hb⟩
  · obtain ⟨home, hhome, haddr, hend⟩ := h.home
    have := (h.node home hhome).upper
    refine ⟨home, hhome, ?_⟩
    simp only [Span.Covers, Pool.headerSpan, Memnode.region] at *
    omega
  · exact ⟨n, hn, (h.node n hn).fields_within.covers hb⟩
  · obtain ⟨-, n, hn, hin⟩ := h.inBody r hr
    exact ⟨n, hn, (hin.trans (h.node n hn).body_within).covers hb⟩

/-- No record is listed twice. -/
theorem Wf.listed_nodup (h : Wf plat p) : p.listed.Nodup := by
  refine h.apart.imp fun {a b} hab => ?_
  rintro rfl
  simp only [Span.Disjoint, sizeofCleanupNode] at hab
  omega

end Zones

/-! ## Section 4: Changes elsewhere -/

section Congr

variable {plat : Platform} {mem mem' : Mem} {p : Pool}

theorem HoldsNode.congr {n : Memnode} (h : HoldsNode mem n)
    (hag : ∀ a, Span.Covers ⟨n.addr, sizeofMemnode⟩ a → mem' a = mem a) : HoldsNode mem' n := by
  simp only [Span.Covers, sizeofMemnode] at hag
  exact ⟨by rw [hag _ (by omega)]; exact h.begin, by rw [hag _ (by omega)]; exact h.firstAvail,
    by rw [hag _ (by omega)]; exact h.size, by rw [hag _ (by omega)]; exact h.sizeAvail,
    by rw [hag _ (by omega)]; exact h.deallocSize⟩

theorem NodesRep.congr (h : NodesRep mem p)
    (hslots : ∀ i < sprMaxPoolSlot, mem' (p.addr + 8 * i) = mem (p.addr + 8 * i))
    (hfields : ∀ n ∈ p.nodes, ∀ a, Span.Covers ⟨n.addr, sizeofMemnode⟩ a → mem' a = mem a) :
    NodesRep mem' p := by
  refine ⟨fun i hi => ?_, fun n hn => (h.node n hn).congr (hfields n hn)⟩
  rw [hslots i hi]
  refine chain_congr (fun a ha => ?_) (h.slot i hi)
  obtain ⟨n, hn, rfl⟩ := List.mem_map.mp ha
  exact hfields n (Pool.mem_nodes_of_slot hi hn) _ ⟨Nat.le_refl _, by simp [sizeofMemnode]⟩

theorem RecordsRep.congr (h : RecordsRep mem p)
    (hcleanups : mem' (p.addr + 184) = mem (p.addr + 184))
    (hfrees : mem' (p.addr + 192) = mem (p.addr + 192))
    (hrecords : ∀ r ∈ p.listed, ∀ a, (recordSpan r).Covers a → mem' a = mem a) :
    RecordsRep mem' p := by
  simp only [Span.Covers, recordSpan, sizeofCleanupNode] at hrecords
  have hclean : ∀ r ∈ p.cleanups, r.addr ∈ p.listed := fun r hr =>
    List.mem_append_left _ (List.mem_map_of_mem hr)
  refine ⟨?_, fun r hr => ?_, ?_⟩
  · rw [hcleanups]
    refine chain_congr (fun a ha => ?_) h.cleanups
    exact hrecords a (List.mem_append_left _ ha) a (by omega)
  · rw [hrecords _ (hclean r hr) _ (by omega), hrecords _ (hclean r hr) _ (by omega)]
    exact h.record r hr
  · rw [hfrees]
    refine chain_congr (fun a ha => ?_) h.frees
    exact hrecords a (List.mem_append_right _ ha) a (by omega)

theorem HeaderRep.congr (h : HeaderRep plat mem p)
    (hag : ∀ a, p.addr + 160 ≤ a → a < p.addr + sizeofPool plat →
      a ≠ p.addr + 184 → a ≠ p.addr + 192 → mem' a = mem a) :
    HeaderRep plat mem' p := by
  have hlow := le_sizeofPool plat
  refine ⟨?_, ?_, ?_, fun hs => ?_, fun hs => ?_⟩
  · rw [hag _ (by omega) (by omega) (by omega) (by omega)]; exact h.parent
  · rw [hag _ (by omega) (by omega) (by omega) (by omega)]; exact h.brother
  · rw [hag _ (by omega) (by omega) (by omega) (by omega)]; exact h.child
  · have := sizeofPool_safe hs
    rw [hag _ (by omega) (by omega) (by omega) (by omega)]; exact h.mutex hs
  · have := sizeofPool_safe hs
    rw [hag _ (by omega) (by omega) (by omega) (by omega)]; exact h.owner hs

/-- **A pool is read from its own words only**: header, fields, records. -/
theorem Rep.congr (h : Rep plat mem p)
    (hheader : ∀ a, (p.headerSpan plat).Covers a → mem' a = mem a)
    (hfields : ∀ n ∈ p.nodes, ∀ a, Span.Covers ⟨n.addr, sizeofMemnode⟩ a → mem' a = mem a)
    (hrecords : ∀ r ∈ p.listed, ∀ a, (recordSpan r).Covers a → mem' a = mem a) :
    Rep plat mem' p := by
  have hlow := le_sizeofPool plat
  simp only [Span.Covers, Pool.headerSpan] at hheader
  refine ⟨h.nodes.congr (fun i hi => hheader _ ?_) hfields,
    h.records.congr (hheader _ (by omega)) (hheader _ (by omega)) hrecords,
    h.header.congr fun a h₁ h₂ _ _ => hheader a (by omega)⟩
  simp only [sprMaxPoolSlot] at hi
  omega

end Congr

/-- A pool is not touched by a change of memory outside its regions, nor by a
    change of what is given out elsewhere. -/
theorem PoolAt.congr {plat : Platform} {w w' : World} {p : Pool} (h : PoolAt plat w p)
    (hmem : ∀ a, (∃ n ∈ p.nodes, n.region.Covers a) → w'.mem a = w.mem a)
    (hheld : ∀ n ∈ p.nodes, n.region ∈ w'.live) (hlive : LiveOk w'.live) : PoolAt plat w' p := by
  have hown : ∀ a, p.Owns plat a → w'.mem a = w.mem a := fun a ha => hmem a (h.wf.owns_region ha)
  exact ⟨h.rep.congr (fun a ha => hown a (Or.inl ha))
    (fun n hn a ha => hown a (Or.inr (Or.inl ⟨n, hn, ha⟩)))
    (fun r hr a ha => hown a (Or.inr (Or.inr ⟨r, hr, ha⟩))), h.wf, hheld, hlive⟩

end Spr.MemPool
