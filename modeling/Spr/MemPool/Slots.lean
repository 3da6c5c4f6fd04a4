import Spr.MemPool.Layout

/-! # The slot path of `spr_palloc`

    * Sizes: alignment and pages, and when their arithmetic wraps.
    * `sprMemnodeAllocate_cases`, `carve_spec`, `searchSlots_spec`: the parts.
    * `pallocSlots_cases`: a block is cut off the first memnode with room, else
      off a new one, else the pool is as it was. -/

namespace Spr.MemPool

open Spr.Words Spr.Chains

/-! ## Section 1: Sizes -/

theorem sprAlignDefault_eq (p : Nat) : sprAlignDefault p = (p + 7) % wordMod / 8 * 8 :=
  and_mask ((p + 7) % wordMod) 3 (Nat.mod_lt _ (by decide)) (by decide)

@[simp] theorem sizeofMemnodeAlign_eq : sizeofMemnodeAlign = 48 := by decide

@[simp] theorem sizeofPoolAlign_eq (plat : Platform) : sizeofPoolAlign plat = sizeofPool plat := by
  unfold sizeofPoolAlign sizeofPool
  split <;> decide

theorem sizeofMutexAlign_bounds (plat : Platform) :
    plat.sizeofMutex ≤ sizeofMutexAlign plat ∧ sizeofMutexAlign plat ≤ 1024 ∧
      sizeofMutexAlign plat % 8 = 0 := by
  have := plat.mutex_le
  rw [sizeofMutexAlign, sprAlignDefault_eq, Nat.mod_eq_of_lt (by rw [wordMod_eq]; omega)]
  omega

/-- What the alignment step accepts is aligned and large enough. -/
theorem sprAlignAllocation_bounds {size : Nat} (h : sprAlignAllocation size ≠ 0) :
    size ≤ sprAlignAllocation size ∧ 16 ≤ sprAlignAllocation size ∧
      sprAlignAllocation size % 8 = 0 ∧ sprAlignAllocation size < wordMod := by
  have hmin : sprMinAlloc = 16 := by decide
  have hlt : (size + 7) % wordMod < wordMod := Nat.mod_lt _ (by decide)
  unfold sprAlignAllocation at h ⊢
  simp only [sprAlignDefault_eq, hmin] at h ⊢
  by_cases hwrap : (size + 7) % wordMod / 8 * 8 < size
  · simp [hwrap] at h
  · rw [if_neg hwrap]
    rw [wordMod_eq] at *
    split <;> omega

/-- A request that is accepted is rounded up, and to sixteen at least. -/
theorem sprAlignAllocation_eq {size : Nat} (h : sprAlignAllocation size ≠ 0) :
    sprAlignAllocation size = max 16 ((size + 7) / 8 * 8) ∧ size + 7 < wordMod := by
  have hmin : sprMinAlloc = 16 := by decide
  unfold sprAlignAllocation at h ⊢
  simp only [sprAlignDefault_eq, hmin] at h ⊢
  by_cases hwrap : (size + 7) % wordMod / 8 * 8 < size
  · simp [hwrap] at h
  · have hlt : size + 7 < wordMod := by
      rw [wordMod_eq] at *
      omega
    rw [if_neg hwrap, Nat.mod_eq_of_lt hlt]
    refine ⟨?_, hlt⟩
    split <;> omega

/-- A smaller request is accepted too, and is no larger rounded up. -/
theorem sprAlignAllocation_mono {size s : Nat} (h : sprAlignAllocation size ≠ 0) (hs : s ≤ size) :
    sprAlignAllocation s ≠ 0 ∧ sprAlignAllocation s ≤ sprAlignAllocation size := by
  obtain ⟨heq, hlt⟩ := sprAlignAllocation_eq h
  have hmin : sprMinAlloc = 16 := by decide
  have hs' : sprAlignAllocation s = max 16 ((s + 7) / 8 * 8) := by
    unfold sprAlignAllocation
    simp only [sprAlignDefault_eq, hmin, Nat.mod_eq_of_lt (show s + 7 < wordMod by omega)]
    rw [if_neg (by omega)]
    split <;> omega
  rw [heq, hs']
  omega

theorem sprAlignDefault_le {size : Nat} (h : sprAlignAllocation size ≠ 0) :
    sprAlignDefault size ≤ sprAlignAllocation size := by
  obtain ⟨heq, hlt⟩ := sprAlignAllocation_eq h
  rw [heq, sprAlignDefault_eq, Nat.mod_eq_of_lt hlt]
  exact Nat.le_max_right _ _

theorem sprAlignAllocation_record : sprAlignAllocation sizeofCleanupNode = 24 := by decide

/-- The arithmetic of `spr_get_npages` and of the size it leads to does not wrap. -/
def NoWrap (plat : Platform) (alignSize : Nat) : Prop :=
  alignSize + sizeofMemnode < wordMod ∧
    sprGetNpages plat alignSize * plat.pageSize < wordMod

instance (plat : Platform) (alignSize : Nat) : Decidable (NoWrap plat alignSize) :=
  inferInstanceAs (Decidable (_ ∧ _))

theorem Platform.le_pageSize (plat : Platform) : 4096 ≤ plat.pageSize :=
  Nat.le_of_dvd plat.page_pos plat.page_dvd

/-- The pages are more than the request and the header of the memnode. -/
theorem NoWrap.pages {plat : Platform} {alignSize : Nat} (h : NoWrap plat alignSize) :
    1 ≤ sprGetNpages plat alignSize ∧
      alignSize + sizeofMemnode < sprGetNpages plat alignSize * plat.pageSize := by
  have htotal : add alignSize sizeofMemnodeAlign = alignSize + sizeofMemnode := by
    rw [sizeofMemnodeAlign_eq]; exact add_of_lt h.1
  unfold sprGetNpages
  simp only [htotal]
  split
  · omega
  · have := Nat.lt_div_mul_add (a := alignSize + sizeofMemnode) plat.page_pos
    refine ⟨Nat.le_add_left _ _, ?_⟩
    rw [Nat.add_mul, Nat.one_mul]
    exact this

/-- Requests up to `SSIZE_MAX` do not wrap. -/
theorem noWrap_of_le {plat : Platform} {alignSize : Nat} (h : alignSize ≤ 2 ^ 63 + 1024) :
    NoWrap plat alignSize := by
  have hpage := plat.page_lt
  have htotal : add alignSize sizeofMemnodeAlign = alignSize + sizeofMemnode := by
    rw [sizeofMemnodeAlign_eq]
    exact add_of_lt (by rw [wordMod_eq]; omega)
  obtain ⟨c, hc⟩ := plat.page_dvd
  have hpage' : plat.pageSize ≤ 2 ^ 63 - 4096 := by omega
  refine ⟨by rw [wordMod_eq]; simp only [sizeofMemnode]; omega, ?_⟩
  unfold sprGetNpages
  simp only [htotal]
  split
  · rw [wordMod_eq]; omega
  · have := Nat.div_mul_le_self (alignSize + sizeofMemnode) plat.pageSize
    rw [Nat.add_mul, wordMod_eq]
    simp only [sizeofMemnode] at *
    omega

/-- A record's memory never takes more than a page. -/
theorem sprGetNpages_record (plat : Platform) : sprGetNpages plat 24 = 1 := by
  have := plat.le_pageSize
  have htotal : add 24 sizeofMemnodeAlign = 72 := by decide
  unfold sprGetNpages
  simp only [htotal]
  rw [if_pos (by omega)]

/-! ## Section 2: A new memnode -/

/-- A memnode as `spr_memnode_allocate` sets it up. -/
def freshNode (a size : Nat) : Memnode where
  addr        := a
  begin       := a + sizeofMemnode
  firstAvail  := a + sizeofMemnode
  size        := size - sizeofMemnode
  sizeAvail   := size - sizeofMemnode
  deallocSize := size

theorem freshNode_ok {live : List Span} {a size : Nat} (hg : Grants live a size)
    (hsize : sizeofMemnode ≤ size) : NodeOk (freshNode a size) := by
  obtain ⟨hne, hal, hfit, -⟩ := hg
  simp only [sprAlignSize] at hal
  refine ⟨hne, Nat.le_refl _, Nat.le_refl _, rfl, ?_, hfit, hal, ?_, ?_⟩ <;>
    simp only [freshNode, sizeofMemnode] at * <;> omega

theorem liveOk_obtain {live : List Span} {a size : Nat} (h : LiveOk live)
    (hg : Grants live a size) (hsize : 0 < size) : LiveOk (⟨a, size⟩ :: live) := by
  obtain ⟨hne, hal, hfit, hdis⟩ := hg
  refine ⟨List.pairwise_cons.mpr ⟨hdis, h.disjoint⟩, fun s hs => ?_⟩
  rcases List.mem_cons.mp hs with rfl | hs
  · exact ⟨hne, hal, hsize, hfit⟩
  · exact h.bounded s hs

/-- A region that is granted starts where no other does. -/
theorem Grants.fresh {live : List Span} {a size : Nat} (hg : Grants live a size)
    (h : LiveOk live) (hsize : 0 < size) {s : Span} (hs : s ∈ live) : s.start ≠ a := by
  have hdis := hg.2.2.2 s hs
  have hpos := (h.bounded s hs).2.2.1
  simp only [Span.Disjoint] at hdis
  omega

theorem liveOk_release {live : List Span} (h : LiveOk live) (a : Nat) :
    LiveOk (live.filter fun s => s.start ≠ a) :=
  ⟨h.disjoint.filter _, fun s hs => h.bounded s (List.mem_of_mem_filter hs)⟩

/-- What `spr_memnode_allocate` leaves behind when the system grants `a`. -/
structure NodeMade (w : World) (a size : Nat) (w' : World) : Prop where
  holds : HoldsNode w'.mem (freshNode a size)
  next  : w'.mem a = 0
  frame : ∀ b, ¬ Span.Covers ⟨a, sizeofMemnode⟩ b → w'.mem b = w.mem b
  live  : w'.live = ⟨a, size⟩ :: w.live
  log   : w'.log = w.log ++ [.obtained a size, .allocated a]

/-- **`spr_memnode_allocate`**: `NULL` and nothing done, or a fresh memnode. -/
theorem sprMemnodeAllocate_cases {size : Nat} (hsize : sizeofMemnode ≤ size) (w : World) :
    sprMemnodeAllocate size w = .ok 0 (w.refuse size) ∨
    ∃ a w', Grants w.live a size ∧ sprMemnodeAllocate size w = .ok a w' ∧ NodeMade w a size w' := by
  rcases sysAlloc_cases size w with hrun | ⟨a, hg, hrun⟩
  · left
    simp [sprMemnodeAllocate, hrun]
  · right
    have hfit := hg.2.2.1
    have hbegin : add a 48 = a + 48 := add_of_lt (by simp only [sizeofMemnode] at hsize; omega)
    have hbody : sub size 48 = size - 48 := sub_of_le hsize (by omega)
    refine ⟨a, _, hg, by simp [sprMemnodeAllocate, hrun, hg.1, hbegin, hbody]; rfl,
      ⟨?_, ?_, ?_, ?_, ?_⟩⟩
    · constructor <;> simp [freshNode, sizeofMemnode]
    · simp
    · intro b hb
      simp only [Span.Covers, sizeofMemnode] at hb
      simp (disch := omega) [Function.update_of_ne]
    · simp
    · simp

/-! ## Section 3: Carving -/

/-- The memnode with a block of `k` bytes cut off. -/
def Memnode.carve (k : Nat) (n : Memnode) : Memnode :=
  { n with firstAvail := n.firstAvail + k, sizeAvail := n.sizeAvail - k }

/-- The pool with every memnode changed by `f`. -/
def Pool.mapNodes (f : Memnode → Memnode) (p : Pool) : Pool :=
  { p with slots := fun i => (p.slots i).map f, orphans := p.orphans.map f }

/-- The pool with a block of `k` bytes cut off the memnode at `a`. -/
def Pool.carveAt (a k : Nat) (p : Pool) : Pool :=
  p.mapNodes fun n => if n.addr = a then n.carve k else n

@[simp] theorem mapNodes_nodes (f : Memnode → Memnode) (p : Pool) :
    (p.mapNodes f).nodes = p.nodes.map f := by
  simp [Pool.nodes, Pool.mapNodes, List.map_flatMap]

@[simp] theorem mapNodes_listed (f : Memnode → Memnode) (p : Pool) :
    (p.mapNodes f).listed = p.listed := rfl

@[simp] theorem mapNodes_addr (f : Memnode → Memnode) (p : Pool) :
    (p.mapNodes f).addr = p.addr := rfl

/-- **Changing the counters of memnodes.**  Where every memnode keeps its place
    and its arithmetic, the pool is still where it was. -/
theorem PoolAt.mapNodes {plat : Platform} {w w' : World} {p : Pool} {f : Memnode → Memnode}
    (h : PoolAt plat w p)
    (hplace : ∀ n ∈ p.nodes, (f n).addr = n.addr ∧ (f n).begin = n.begin ∧ (f n).size = n.size ∧
      (f n).deallocSize = n.deallocSize)
    (hok : ∀ n ∈ p.nodes, NodeOk (f n)) (hholds : ∀ n ∈ p.nodes, HoldsNode w'.mem (f n))
    (hlinks : ∀ n ∈ p.nodes, w'.mem n.addr = w.mem n.addr)
    (hframe : ∀ a, (∀ n ∈ p.nodes, ¬ Span.Covers ⟨n.addr, sizeofMemnode⟩ a) → w'.mem a = w.mem a)
    (hlive : w'.live = w.live) : PoolAt plat w' (p.mapNodes f) := by
  -- only the fields of memnodes are written, so the header and the records stay
  have hheader : ∀ a, (p.headerSpan plat).Covers a → w'.mem a = w.mem a := fun a ha =>
    hframe a fun n hn => (h.header_fields hn).not_covers ha
  have hrecords : ∀ r ∈ p.listed, ∀ a, (recordSpan r).Covers a → w'.mem a = w.mem a :=
    fun r hr a ha => hframe a fun n hn => (h.fields_record hn hr).symm.not_covers ha
  have hlow := le_sizeofPool plat
  have hword : ∀ j, j < 200 → w'.mem (p.addr + j) = w.mem (p.addr + j) := fun j hj =>
    hheader _ (by simp only [Span.Covers, Pool.headerSpan]; omega)
  refine ⟨⟨⟨fun i hi => ?_, fun m hm => ?_⟩, ?_, ?_⟩, ⟨?_, ?_, ?_, h.wf.apart, ?_⟩, ?_, ?_⟩
  · have hi' : i < 20 := hi
    have hmap : ((p.mapNodes f).slots i).map Memnode.addr = (p.slots i).map Memnode.addr := by
      rw [Pool.mapNodes, List.map_map]
      exact List.map_congr_left fun n hn => (hplace n (Pool.mem_nodes_of_slot hi hn)).1
    rw [hmap, mapNodes_addr, hword _ (by omega)]
    refine chain_congr (fun a ha => ?_) (h.rep.nodes.slot i hi)
    obtain ⟨n, hn, rfl⟩ := List.mem_map.mp ha
    exact hlinks n (Pool.mem_nodes_of_slot hi hn)
  · rw [mapNodes_nodes] at hm
    obtain ⟨n, hn, rfl⟩ := List.mem_map.mp hm
    exact hholds n hn
  · obtain ⟨hc, hr, hf⟩ :=
      h.rep.records.congr (hword 184 (by omega)) (hword 192 (by omega)) hrecords
    exact ⟨hc, hr, hf⟩
  · obtain ⟨h₁, h₂, h₃, h₄, h₅⟩ := h.rep.header.congr fun a ha hb _ _ => hheader a (by
      simp only [Span.Covers, Pool.headerSpan]; omega)
    exact ⟨h₁, h₂, h₃, h₄, h₅⟩
  · intro m hm
    rw [mapNodes_nodes] at hm
    obtain ⟨n, hn, rfl⟩ := List.mem_map.mp hm
    exact hok n hn
  · have hmap : (p.nodes.map f).map Memnode.addr = p.nodes.map Memnode.addr := by
      rw [List.map_map]
      exact List.map_congr_left fun n hn => (hplace n hn).1
    rw [mapNodes_nodes, hmap]
    exact h.wf.nodup
  · obtain ⟨home, hhome, haddr, hend⟩ := h.wf.home
    obtain ⟨ha, hb, -, -⟩ := hplace home hhome
    exact ⟨f home, by rw [mapNodes_nodes]; exact List.mem_map_of_mem hhome,
      by rw [ha]; exact haddr, by rw [hb]; exact hend⟩
  · intro r hr
    obtain ⟨hal, n, hn, hin⟩ := h.wf.inBody r hr
    obtain ⟨-, hb, hs, -⟩ := hplace n hn
    exact ⟨hal, f n, by rw [mapNodes_nodes]; exact List.mem_map_of_mem hn,
      by rw [Memnode.body, hb, hs]; exact hin⟩
  · intro m hm
    rw [mapNodes_nodes] at hm
    obtain ⟨n, hn, rfl⟩ := List.mem_map.mp hm
    obtain ⟨ha, -, -, hd⟩ := hplace n hn
    rw [Memnode.region, ha, hd, hlive]
    exact h.held n hn
  · rw [hlive]; exact h.live

theorem NodeOk.carve {n : Memnode} {k : Nat} (h : NodeOk n) (hk : k ≤ n.sizeAvail)
    (hal : k % 8 = 0) : NodeOk (n.carve k) := by
  obtain ⟨h₁, h₂, h₃, h₄, h₅, h₆, h₇, h₈, h₉⟩ := h
  refine ⟨h₁, h₂, ?_, ?_, h₅, h₆, h₇, h₈, ?_⟩ <;> simp only [Memnode.carve] <;> omega

/-- **A block is cut off** the memnode `n`: the pool changes there and nowhere
    else. -/
theorem carve_spec {plat : Platform} {w : World} {p : Pool} {n : Memnode} {k : Nat}
    (h : PoolAt plat w p) (hn : n ∈ p.nodes) (hk : k ≤ n.sizeAvail) (hal : k % 8 = 0) :
    ∃ w', carve n.addr k w = .ok n.firstAvail w' ∧ PoolAt plat w' (p.carveAt n.addr k) ∧
      (∀ b, ¬ Span.Covers ⟨n.addr, sizeofMemnode⟩ b → w'.mem b = w.mem b) ∧
      w'.live = w.live ∧ w'.log = w.log := by
  have hok := h.wf.node n hn
  have hrep := h.rep.nodes.node n hn
  have htotal := hok.total
  have hupper := hok.upper
  have hfits := hok.fits
  -- nothing wraps within a region
  have hadd : add n.firstAvail k = n.firstAvail + k := add_of_lt (by omega)
  have hsub : sub n.sizeAvail k = n.sizeAvail - k := sub_of_le hk (by omega)
  have hrun : carve n.addr k w = .ok n.firstAvail
      ((w.store (n.addr + 32) (n.sizeAvail - k)).store (n.addr + 16) (n.firstAvail + k)) := by
    simp [carve, hrep.sizeAvail, hrep.firstAvail, hadd, hsub]
  have hframe : ∀ b, ¬ Span.Covers ⟨n.addr, sizeofMemnode⟩ b →
      ((w.store (n.addr + 32) (n.sizeAvail - k)).store (n.addr + 16)
        (n.firstAvail + k)).mem b = w.mem b := by
    intro b hb
    simp only [Span.Covers, sizeofMemnode] at hb
    simp (disch := omega) [Function.update_of_ne]
  refine ⟨_, hrun, h.mapNodes (fun m _ => ?_) (fun m hm => ?_) (fun m hm => ?_) (fun m hm => ?_)
    (fun b hb => hframe b (hb n hn)) rfl, hframe, rfl, rfl⟩
  · split <;> simp [Memnode.carve]
  · split
    · rename_i heq
      obtain rfl := h.wf.node_inj hm hn heq
      exact hok.carve hk hal
    · exact h.wf.node m hm
  · split
    · rename_i heq
      obtain rfl := h.wf.node_inj hm hn heq
      constructor <;> simp [Memnode.carve, hrep.begin, hrep.size, hrep.deallocSize]
    · rename_i hne
      exact (h.rep.nodes.node m hm).congr fun a ha =>
        hframe a ((h.fields_fields hm hn hne).not_covers ha)
  · simp only [store_mem]
    by_cases heq : m.addr = n.addr
    · simp [heq]
    · have := h.fields_fields hm hn heq
      simp only [Span.Disjoint, sizeofMemnode] at this
      simp (disch := omega) [Function.update_of_ne]

/-! ## Section 4: The search -/

/-- The first memnode with `k` bytes left. -/
def firstFit (k : Nat) (ns : List Memnode) : Option Memnode :=
  ns.find? fun n => k ≤ n.sizeAvail

/-- The address of a memnode, `NULL` for none. -/
def addrOf (n : Option Memnode) : Nat := n.elim 0 Memnode.addr

/-- The memnodes of the slots from `index` on, in the order of the search. -/
def Pool.fromSlot (p : Pool) (index : Nat) : List Memnode :=
  (List.range' index (sprMaxPoolSlot - index)).flatMap p.slots

/-- The search from the first slot on passes all memnodes but the orphans. -/
theorem Pool.nodes_eq (p : Pool) : p.nodes = p.fromSlot 0 ++ p.orphans := by
  rw [Pool.nodes, Pool.fromSlot, Nat.sub_zero, List.range_eq_range']

theorem Pool.fromSlot_nodes {p : Pool} {index : Nat} {n : Memnode} (hn : n ∈ p.fromSlot index) :
    n ∈ p.nodes := by
  obtain ⟨i, hi, hn⟩ := List.mem_flatMap.mp hn
  rw [List.mem_range'_1] at hi
  exact Pool.mem_nodes_of_slot (by omega) hn

theorem firstFit_some {k : Nat} {ns : List Memnode} {n : Memnode} (h : firstFit k ns = some n) :
    n ∈ ns ∧ k ≤ n.sizeAvail :=
  ⟨List.mem_of_find?_eq_some h, by simpa using List.find?_some h⟩

theorem firstFit_append (k : Nat) (ns ms : List Memnode) :
    firstFit k (ns ++ ms) = (firstFit k ns).or (firstFit k ms) := List.find?_append

/-- The addresses of a slot are fewer than the address space. -/
theorem PoolAt.slot_length {plat : Platform} {w : World} {p : Pool} (h : PoolAt plat w p) {i : Nat}
    (hi : i < sprMaxPoolSlot) : (p.slots i).length < addressSpace := by
  have hnd := chain_nodup (h.rep.nodes.slot i hi)
  have hlt := length_lt_of_nodup hnd (fun a ha => ?_) (chain_ne_null (h.rep.nodes.slot i hi))
  · rw [List.length_map] at hlt
    exact hlt
  · obtain ⟨n, hn, rfl⟩ := List.mem_map.mp ha
    have hfits := (h.wf.node n (Pool.mem_nodes_of_slot hi hn)).fits
    omega

theorem searchChain_spec {mem : Mem} {k : Nat} {ns : List Memnode} :
    ∀ {start fuel : Nat}, Chain mem 0 start (ns.map Memnode.addr) → (∀ n ∈ ns, HoldsNode mem n) →
      ns.length < fuel → searchChain mem k fuel start = some (addrOf (firstFit k ns)) := by
  induction ns with
  | nil =>
    intro start fuel hchain _ hfuel
    obtain ⟨fuel, rfl⟩ : ∃ f, fuel = f + 1 := ⟨fuel - 1, by simp at hfuel; omega⟩
    rw [searchChain, if_pos (show start = 0 from hchain)]
    rfl
  | cons n ns ih =>
    intro start fuel hchain hholds hfuel
    obtain ⟨fuel, rfl⟩ : ∃ f, fuel = f + 1 := ⟨fuel - 1, by simp at hfuel; omega⟩
    obtain ⟨rfl, hne, hrest⟩ := hchain
    have havail := (hholds n List.mem_cons_self).sizeAvail
    rw [searchChain, if_neg hne, nodeSizeAvail, havail]
    by_cases hfit : k ≤ n.sizeAvail
    · simp [firstFit, hfit, addrOf]
    · rw [if_neg hfit, ih hrest (fun m hm => hholds m (List.mem_cons_of_mem _ hm))
        (by simpa using hfuel)]
      simp [firstFit, hfit]

/-- The search, in a memory that holds the memnodes of the pool. -/
theorem searchSlots_rep {plat : Platform} {w : World} {p : Pool} {mem : Mem} (h : PoolAt plat w p)
    (hnodes : NodesRep mem p) (k : Nat) :
    ∀ {n i : Nat}, i + n ≤ sprMaxPoolSlot →
      searchSlots mem p.addr k i n
        = some (addrOf (firstFit k ((List.range' i n).flatMap p.slots))) := by
  intro n
  induction n with
  | zero => intro i _; rfl
  | succ n ih =>
    intro i hi
    have hslot : i < sprMaxPoolSlot := by omega
    have hchain := searchChain_spec (k := k) (hnodes.slot i hslot)
      (fun m hm => hnodes.node m (Pool.mem_nodes_of_slot hslot hm)) (h.slot_length hslot)
    rw [searchSlots, poolNodes, hchain, List.range'_succ, List.flatMap_cons, firstFit_append]
    cases hfit : firstFit k (p.slots i) with
    | none =>
      simp only [addrOf, Option.elim_none, if_true]
      rw [ih (by omega), Option.none_or]
      rfl
    | some m =>
      have hm := firstFit_some hfit
      have hne := (h.wf.node m (Pool.mem_nodes_of_slot hslot hm.1)).ne_null
      simp [addrOf, hne]

/-- **The search finds the first memnode with room**, from its slot on. -/
theorem searchSlots_spec {plat : Platform} {w : World} {p : Pool} (h : PoolAt plat w p) (k : Nat)
    {n i : Nat} (hi : i + n ≤ sprMaxPoolSlot) :
    searchSlots w.mem p.addr k i n
      = some (addrOf (firstFit k ((List.range' i n).flatMap p.slots))) :=
  searchSlots_rep h h.rep.nodes k hi

/-! ## Section 5: Registration -/

/-- The pool with the memnode registered in the slot; one past the slots it
    lands in `parent`. -/
def Pool.addNode (index : Nat) (n : Memnode) (p : Pool) : Pool :=
  if index < sprMaxPoolSlot then
    { p with slots := Function.update p.slots index (n :: p.slots index) }
  else { p with orphans := n :: p.orphans, parent := n.addr }

theorem addNode_slot_self {index : Nat} (hi : index < sprMaxPoolSlot) (n : Memnode) (p : Pool) :
    (p.addNode index n).slots index = n :: p.slots index := by
  unfold Pool.addNode
  rw [if_pos hi]
  exact Function.update_self ..

theorem addNode_slot_of_ne {index i : Nat} (hne : ¬ (i = index ∧ index < sprMaxPoolSlot))
    (n : Memnode) (p : Pool) : (p.addNode index n).slots i = p.slots i := by
  unfold Pool.addNode
  split
  · rename_i hlt
    exact Function.update_of_ne (fun h => hne ⟨h, hlt⟩) _ _
  · rfl

theorem flatMap_update_perm {l : List Nat} {i : Nat} (hnd : l.Nodup) (hi : i ∈ l)
    (f : Nat → List Memnode) (n : Memnode) :
    (l.flatMap (Function.update f i (n :: f i))).Perm (n :: l.flatMap f) := by
  induction l with
  | nil => cases hi
  | cons j l ih =>
    obtain ⟨hj, hl⟩ := List.nodup_cons.mp hnd
    rw [List.flatMap_cons, List.flatMap_cons]
    by_cases heq : j = i
    · subst heq
      have hrest : l.flatMap (Function.update f j (n :: f j)) = l.flatMap f :=
        List.flatMap_congr fun x hx =>
          Function.update_of_ne (ne_of_mem_of_not_mem hx hj) _ _
      rw [Function.update_self, hrest, List.cons_append]
    · rw [Function.update_of_ne heq]
      have hmem : i ∈ l := (List.mem_cons.mp hi).resolve_left (fun h => heq h.symm)
      exact (List.Perm.append_left _ (ih hl hmem)).trans List.perm_middle

theorem addNode_nodes (index : Nat) (n : Memnode) (p : Pool) :
    (p.addNode index n).nodes.Perm (n :: p.nodes) := by
  unfold Pool.addNode
  split
  · rename_i hi
    have := flatMap_update_perm List.nodup_range (List.mem_range.mpr hi) p.slots n
    exact this.append_right p.orphans
  · exact List.perm_middle

theorem mem_addNode {index : Nat} {n m : Memnode} {p : Pool} :
    m ∈ (p.addNode index n).nodes ↔ m = n ∨ m ∈ p.nodes := by
  rw [(addNode_nodes index n p).mem_iff, List.mem_cons]

@[simp] theorem addNode_listed (index : Nat) (n : Memnode) (p : Pool) :
    (p.addNode index n).listed = p.listed := by
  unfold Pool.addNode
  split <;> rfl

@[simp] theorem addNode_addr (index : Nat) (n : Memnode) (p : Pool) :
    (p.addNode index n).addr = p.addr := by
  unfold Pool.addNode
  split <;> rfl

/-- A region that the system grants is apart from the pool. -/
theorem PoolAt.granted_apart {plat : Platform} {w : World} {p : Pool} (h : PoolAt plat w p)
    {a size : Nat} (hg : Grants w.live a size) {n : Memnode} (hn : n ∈ p.nodes) :
    Span.Disjoint ⟨a, size⟩ n.region := hg.2.2.2 _ (h.held n hn)

/-- The pool's regions are as they were, but for the word of one slot. -/
def SameButSlot (p : Pool) (index : Nat) (w v : World) : Prop :=
  ∀ b, (∃ n ∈ p.nodes, n.region.Covers b) → b ≠ p.addr + 8 * index → v.mem b = w.mem b

section Registering

variable {plat : Platform} {w w' v : World} {p : Pool} {a size index : Nat}

/-- The region of the new memnode is none of the pool's. -/
theorem NodeMade.sameButSlot (index : Nat) (hmade : NodeMade w a size w') (h : PoolAt plat w p)
    (hg : Grants w.live a size) (hsize : sizeofMemnode ≤ size) (x : Nat) :
    SameButSlot p index w ((w'.store (p.addr + 8 * index) a).store a x) := by
  rintro b ⟨n, hn, hb⟩ hne
  have hregion : ∀ b, Span.Covers ⟨a, sizeofMemnode⟩ b → Span.Covers ⟨a, size⟩ b := by
    intro b hb
    simp only [Span.Covers] at *
    omega
  have hout := (h.granted_apart hg hn).symm.not_covers hb
  have hba : b ≠ a := by
    rintro rfl
    exact hout (hregion b (by simp only [Span.Covers, sizeofMemnode]; omega))
  simp only [store_mem]
  rw [Function.update_of_ne hba, Function.update_of_ne hne]
  exact hmade.frame b fun hc => hout (hregion b hc)

theorem SameButSlot.header (hsame : SameButSlot p index w v) (h : PoolAt plat w p) {j : Nat}
    (hj : j < sizeofPool plat) (hne : j ≠ 8 * index) :
    v.mem (p.addr + j) = w.mem (p.addr + j) := by
  obtain ⟨home, hhome, haddr, hend⟩ := h.wf.home
  have hupper := (h.wf.node home hhome).upper
  refine hsame _ ⟨home, hhome, ?_⟩ (by omega)
  simp only [Span.Covers, Memnode.region]
  omega

theorem SameButSlot.fields (hsame : SameButSlot p index w v) (h : PoolAt plat w p)
    (hindex : index ≤ sprMaxPoolSlot) {n : Memnode} (hn : n ∈ p.nodes) {b : Nat}
    (hb : Span.Covers ⟨n.addr, sizeofMemnode⟩ b) : v.mem b = w.mem b := by
  have hlow := le_sizeofPool plat
  have hi20 : index ≤ 20 := hindex
  have hin := (h.wf.node n hn).fields_within
  have hdis := h.header_fields hn
  refine hsame b ⟨n, hn, ?_⟩ ?_
  · simp only [Span.Covers, Span.Within] at *
    omega
  · simp only [Span.Covers, Span.Disjoint, Pool.headerSpan, sizeofMemnode] at *
    omega

theorem SameButSlot.records (hsame : SameButSlot p index w v) (h : PoolAt plat w p)
    (hindex : index ≤ sprMaxPoolSlot) {r : Nat} (hr : r ∈ p.listed) {b : Nat}
    (hb : (recordSpan r).Covers b) : v.mem b = w.mem b := by
  have hlow := le_sizeofPool plat
  have hi20 : index ≤ 20 := hindex
  obtain ⟨-, n, hn, hin⟩ := h.wf.inBody r hr
  have hbody := (h.wf.node n hn).body_within
  have hdis := h.header_record hr
  refine hsame b ⟨n, hn, ?_⟩ ?_
  · simp only [Span.Covers, Span.Within, recordSpan] at *
    omega
  · simp only [Span.Covers, Span.Disjoint, Pool.headerSpan, recordSpan, sizeofCleanupNode] at *
    omega

/-- The chain of a slot, from the memnode that was its first. -/
theorem SameButSlot.chain (hsame : SameButSlot p index w v) (h : PoolAt plat w p)
    (hindex : index ≤ sprMaxPoolSlot) {i : Nat} (hi : i < sprMaxPoolSlot) :
    Chain v.mem 0 (w.mem (p.addr + 8 * i)) ((p.slots i).map Memnode.addr) := by
  refine chain_congr (fun b hb => ?_) (h.rep.nodes.slot i hi)
  obtain ⟨n, hn, rfl⟩ := List.mem_map.mp hb
  apply hsame.fields h hindex (Pool.mem_nodes_of_slot hi hn)
  simp only [Span.Covers, sizeofMemnode]
  omega

/-- The slots: the new memnode comes before what its slot had. -/
theorem SameButSlot.nodeSlots (hsame : SameButSlot p index w v) (h : PoolAt plat w p)
    (hindex : index ≤ sprMaxPoolSlot) (hnull : a ≠ 0) (hfirst : v.mem (p.addr + 8 * index) = a)
    (hlink : v.mem a = w.mem (p.addr + 8 * index)) {i : Nat} (hi : i < sprMaxPoolSlot) :
    Chain v.mem 0 (v.mem (p.addr + 8 * i))
      (((p.addNode index (freshNode a size)).slots i).map Memnode.addr) := by
  have hlow := le_sizeofPool plat
  have hi' : i < 20 := hi
  have hchain := hsame.chain h hindex hi
  by_cases heq : i = index ∧ index < sprMaxPoolSlot
  · obtain ⟨rfl, hlt⟩ := heq
    rw [addNode_slot_self hlt, List.map_cons]
    refine ⟨hfirst, hnull, ?_⟩
    show Chain v.mem 0 (v.mem a) _
    rw [hlink]
    exact hchain
  · rw [addNode_slot_of_ne heq]
    have hword : 8 * i ≠ 8 * index := by
      simp only [sprMaxPoolSlot] at heq hindex
      omega
    rw [hsame.header h (by omega) hword]
    exact hchain

/-- The records are where they were. -/
theorem SameButSlot.recordsRep (hsame : SameButSlot p index w v) (h : PoolAt plat w p)
    (hindex : index ≤ sprMaxPoolSlot) (n : Memnode) : RecordsRep v.mem (p.addNode index n) := by
  have hlow := le_sizeofPool plat
  have hi20 : index ≤ 20 := hindex
  obtain ⟨hc, hr, hf⟩ := h.rep.records.congr (hsame.header h (j := 184) (by omega) (by omega))
    (hsame.header h (j := 192) (by omega) (by omega))
    fun r hr b hb => hsame.records h hindex hr hb
  unfold Pool.addNode
  split <;> exact ⟨hc, hr, hf⟩

/-- The header; slot 20 is the word of `parent`. -/
theorem SameButSlot.headerRep (hsame : SameButSlot p index w v) (h : PoolAt plat w p)
    (hindex : index ≤ sprMaxPoolSlot) (hfirst : v.mem (p.addr + 8 * index) = a) :
    HeaderRep plat v.mem (p.addNode index (freshNode a size)) := by
  have hlow := le_sizeofPool plat
  have hi20 : index ≤ 20 := hindex
  obtain ⟨hparent, hbrother, hchild, hmutex, howner⟩ := h.rep.header
  have hbrother := (hsame.header h (j := 168) (by omega) (by omega)).trans hbrother
  have hchild := (hsame.header h (j := 176) (by omega) (by omega)).trans hchild
  have hmutex := fun hs => (hsame.header h (j := 200)
    (by rw [sizeofPool_safe hs]; omega) (by omega)).trans (hmutex hs)
  have howner := fun hs => (hsame.header h (j := 208)
    (by rw [sizeofPool_safe hs]; omega) (by omega)).trans (howner hs)
  unfold Pool.addNode
  by_cases hlt : index < sprMaxPoolSlot
  · rw [if_pos hlt]
    have hlt' : index < 20 := hlt
    exact ⟨(hsame.header h (j := 160) (by omega) (by omega)).trans hparent, hbrother, hchild,
      hmutex, howner⟩
  · rw [if_neg hlt]
    simp only [sprMaxPoolSlot] at hlt
    obtain rfl : index = 20 := by omega
    exact ⟨hfirst, hbrother, hchild, hmutex, howner⟩

/-- The pool with the new memnode is well formed. -/
theorem PoolAt.addNode_wf (h : PoolAt plat w p) (hg : Grants w.live a size)
    (hsize : sizeofMemnode ≤ size) (index : Nat) :
    Wf plat (p.addNode index (freshNode a size)) := by
  obtain ⟨home, hhome, haddr, hend⟩ := h.wf.home
  refine ⟨fun m hm => ?_, ?_, ?_, ?_, fun r hr => ?_⟩
  · rcases mem_addNode.mp hm with rfl | hm
    · exact freshNode_ok hg hsize
    · exact h.wf.node m hm
  · -- the new memnode is at none of the old addresses
    rw [((addNode_nodes index (freshNode a size) p).map _).nodup_iff, List.map_cons]
    refine List.nodup_cons.mpr ⟨fun hmem => ?_, h.wf.nodup⟩
    obtain ⟨n, hn, heq⟩ := List.mem_map.mp hmem
    have hdis := h.granted_apart hg hn
    have := (h.wf.node n hn).fields_within
    simp only [Span.Disjoint, Span.Within, Memnode.region, freshNode, sizeofMemnode] at *
    omega
  · refine ⟨home, mem_addNode.mpr (Or.inr hhome), ?_⟩
    rw [addNode_addr]
    exact ⟨haddr, hend⟩
  · rw [addNode_listed]
    exact h.wf.apart
  · rw [addNode_listed] at hr
    obtain ⟨hal, n, hn, hin⟩ := h.wf.inBody r hr
    exact ⟨hal, n, mem_addNode.mpr (Or.inr hn), hin⟩

/-- **A memnode is registered.**  What `spr_memnode_allocate` has made becomes
    the first memnode of its slot. -/
theorem PoolAt.addNode (h : PoolAt plat w p) (hg : Grants w.live a size)
    (hsize : sizeofMemnode ≤ size) (hmade : NodeMade w a size w')
    (hindex : index ≤ sprMaxPoolSlot) :
    PoolAt plat ((w'.store (p.addr + 8 * index) a).store a (w.mem (p.addr + 8 * index)))
      (p.addNode index (freshNode a size)) := by
  have hi20 : index ≤ 20 := hindex
  have hlow := le_sizeofPool plat
  have hsame := hmade.sameButSlot index h hg hsize (w.mem (p.addr + 8 * index))
  -- the new memnode is not where the slots are
  obtain ⟨home, hhome, haddr, hend⟩ := h.wf.home
  have hupper := (h.wf.node home hhome).upper
  have haway := h.granted_apart hg hhome
  simp only [Span.Disjoint, Memnode.region, sizeofMemnode] at haway haddr hsize
  have hne : a ≠ p.addr + 8 * index := by omega
  have hfirst : ((w'.store (p.addr + 8 * index) a).store a (w.mem (p.addr + 8 * index))).mem
      (p.addr + 8 * index) = a := by
    simp only [store_mem]
    rw [Function.update_of_ne hne.symm, Function.update_self]
  have hlink : ((w'.store (p.addr + 8 * index) a).store a (w.mem (p.addr + 8 * index))).mem a
      = w.mem (p.addr + 8 * index) := by
    simp only [store_mem]
    rw [Function.update_self]
  constructor
  · refine ⟨⟨fun i hi => ?_, fun m hm => ?_⟩, hsame.recordsRep h hindex _,
      hsame.headerRep h hindex hfirst⟩
    · rw [addNode_addr]
      exact hsame.nodeSlots h hindex hg.1 hfirst hlink hi
    · rcases mem_addNode.mp hm with rfl | hm
      · obtain ⟨h₁, h₂, h₃, h₄, h₅⟩ := hmade.holds
        have hout : ∀ j, 8 ≤ j → j < 48 → a + j ≠ p.addr + 8 * index := fun j _ _ => by omega
        constructor <;> simp only [store_mem, freshNode] at * <;>
          rw [Function.update_of_ne (by omega),
            Function.update_of_ne (hout _ (by omega) (by omega))] <;>
          assumption
      · exact (h.rep.nodes.node m hm).congr fun b hb => hsame.fields h hindex hm hb
  · exact h.addNode_wf hg hsize index
  · intro m hm
    simp only [store_live, hmade.live]
    rcases mem_addNode.mp hm with rfl | hm
    · exact List.mem_cons_self
    · exact List.mem_cons_of_mem _ (h.held m hm)
  · simp only [store_live, hmade.live]
    exact liveOk_obtain h.live hg (by omega)

end Registering

/-! ## Section 6: The slot path -/

/-- The log grown by some events. -/
def World.emits (w : World) (evs : List Event) : World := { w with log := w.log ++ evs }

@[simp] theorem emits_mem (w : World) (evs : List Event) : (w.emits evs).mem = w.mem := rfl
@[simp] theorem emits_live (w : World) (evs : List Event) : (w.emits evs).live = w.live := rfl
@[simp] theorem emits_log (w : World) (evs : List Event) :
    (w.emits evs).log = w.log ++ evs := rfl

@[simp] theorem emits_nil (w : World) : w.emits [] = w := by
  simp [World.emits]

/-- A way to read a field, and what it logs, given whether the field's region is
    given out. -/
structure Reader where
  run    : Nat → Act Nat
  events : Nat → Bool → List Event
  spec   : ∀ a w, run a w = .ok (w.mem a) (w.emits (events a (w.isLive a)))

/-- A plain read. -/
def Reader.plain : Reader := ⟨load, fun _ _ => [], fun a w => by simp⟩

/-- A read that is watched. -/
def Reader.watched : Reader := ⟨watch, fun a ok => [.read a ok], fun _ _ => rfl⟩

@[simp] theorem Reader.plain_run : Reader.plain.run = load := rfl
@[simp] theorem Reader.plain_events (a : Nat) (ok : Bool) : Reader.plain.events a ok = [] := rfl

@[simp] theorem Reader.run_run (rd : Reader) (a : Nat) (w : World) :
    rd.run a w = .ok (w.mem a) (w.emits (rd.events a (w.isLive a))) := rd.spec a w

/-- What `spr_mutex_lock(pool->mutex)` logs. -/
def lockEvents (plat : Platform) (thread : Nat) (p : Pool) : List Event :=
  if plat.threadSafety then [.locked p.mutex thread] else []

/-- What `spr_mutex_unlock(pool->mutex)` logs. -/
def unlockEvents (plat : Platform) (thread : Nat) (p : Pool) : List Event :=
  if plat.threadSafety then [.unlocked p.mutex thread] else []

/-- What holds of taking the mutex holds of all that `spr_mutex_lock` logs. -/
theorem forall_lockEvents {P : Event → Prop} {plat : Platform} {thread : Nat} {p : Pool}
    (h : P (.locked p.mutex thread)) : ∀ e ∈ lockEvents plat thread p, P e := by
  intro e he
  unfold lockEvents at he
  split at he
  · rwa [List.mem_singleton.mp he]
  · cases he

theorem forall_unlockEvents {P : Event → Prop} {plat : Platform} {thread : Nat} {p : Pool}
    (h : P (.unlocked p.mutex thread)) : ∀ e ∈ unlockEvents plat thread p, P e := by
  intro e he
  unfold unlockEvents at he
  split at he
  · rwa [List.mem_singleton.mp he]
  · cases he

theorem PoolAt.of_eq {plat : Platform} {w v : World} {p : Pool} (h : PoolAt plat w p)
    (hmem : v.mem = w.mem) (hlive : v.live = w.live) : PoolAt plat v p := by
  obtain ⟨h₁, h₂, h₃, h₄⟩ := h
  exact ⟨by rwa [hmem], h₂, by rwa [hlive], by rwa [hlive]⟩

/-- A region that is granted leaves the pool in place. -/
theorem PoolAt.obtain {plat : Platform} {w : World} {p : Pool} (h : PoolAt plat w p) {a size : Nat}
    (hg : Grants w.live a size) (hsize : 0 < size) : PoolAt plat (w.obtain a size) p :=
  ⟨h.rep, h.wf, fun n hn => List.mem_cons_of_mem _ (h.held n hn), liveOk_obtain h.live hg hsize⟩

theorem lockPool_run {plat : Platform} {w : World} {p : Pool} (h : PoolAt plat w p)
    (thread : Nat) :
    lockPool plat thread p.addr w = .ok () (w.emits (lockEvents plat thread p)) := by
  unfold lockPool lockEvents
  by_cases hs : plat.threadSafety = true
  · simp [hs, h.rep.header.mutex hs, World.emit, World.emits]
  · simp [hs, World.emits]

theorem unlockPool_run {plat : Platform} {w : World} {p : Pool} (h : PoolAt plat w p)
    (thread : Nat) :
    unlockPool plat thread p.addr w = .ok () (w.emits (unlockEvents plat thread p)) := by
  unfold unlockPool unlockEvents
  by_cases hs : plat.threadSafety = true
  · simp [hs, h.rep.header.mutex hs, World.emit, World.emits]
  · simp [hs, World.emits]

/-- What the slot path does to the pool `p` when it is asked for `k` bytes from
    the slot `index` on: the block, the pool and the world after it. -/
inductive Carving (plat : Platform) (thread : Nat) (w : World) (p : Pool) (k size index : Nat) :
    Nat → Pool → World → Prop where
  | refused (w' : World) (hfit : firstFit k (p.fromSlot index) = none) (hmem : w'.mem = w.mem)
      (hlive : w'.live = w.live)
      (hlog : w'.log = w.log ++ (lockEvents plat thread p ++ .refused size ::
        unlockEvents plat thread p)) :
      Carving plat thread w p k size index 0 p w'
  | fit (w' : World) (n : Memnode) (hfit : firstFit k (p.fromSlot index) = some n)
      (hlive : w'.live = w.live)
      (hlog : w'.log = w.log ++ (lockEvents plat thread p ++ unlockEvents plat thread p)) :
      Carving plat thread w p k size index n.firstAvail (p.carveAt n.addr k) w'
  | fresh (w' : World) (a : Nat) (hfit : firstFit k (p.fromSlot index) = none)
      (hgrant : Grants w.live a size) (hlive : w'.live = ⟨a, size⟩ :: w.live)
      (hlog : w'.log = w.log ++ (lockEvents plat thread p ++ .obtained a size :: .allocated a ::
        .registered p.addr a :: unlockEvents plat thread p)) :
      Carving plat thread w p k size index (a + sizeofMemnode)
        ((p.addNode index (freshNode a size)).carveAt a k) w'

/-- The memory outside the pool's regions is as it was. -/
def FrameOut (w w' : World) (p : Pool) : Prop :=
  ∀ b, (∀ n ∈ p.nodes, ¬ n.region.Covers b) → w'.mem b = w.mem b

/-- All words but the pool's own are as they were. -/
def FrameOwn (plat : Platform) (w w' : World) (p : Pool) : Prop :=
  ∀ b, ¬ p.Owns plat b → w'.mem b = w.mem b

theorem FrameOwn.out {plat : Platform} {w w' : World} {p : Pool} (h : FrameOwn plat w w' p)
    (hwf : Wf plat p) : FrameOut w w' p := by
  intro b hb
  refine h b fun hown => ?_
  obtain ⟨n, hn, hc⟩ := hwf.owns_region hown
  exact hb n hn hc

theorem carveAt_owns {plat : Platform} {a k : Nat} {p : Pool} {b : Nat} (hb : p.Owns plat b) :
    (p.carveAt a k).Owns plat b := by
  rcases hb with hb | ⟨n, hn, hb⟩ | hb
  · exact Or.inl hb
  · refine Or.inr (Or.inl ⟨if n.addr = a then n.carve k else n, ?_, ?_⟩)
    · rw [Pool.carveAt, mapNodes_nodes]
      exact List.mem_map_of_mem hn
    · split <;> exact hb
  · exact Or.inr (Or.inr hb)

section SlotPath

variable {plat : Platform} {w w₁ : World} {p : Pool} {k npages index : Nat}

/-- What the slot path finds in the slots. -/
theorem slotSearch (h : PoolAt plat w p) (k : Nat) (hindex : index ≤ sprMaxPoolSlot) :
    searchSlots w.mem p.addr k index (sprMaxPoolSlot - index)
      = some (addrOf (firstFit k (p.fromSlot index))) := searchSlots_spec h k (by omega)

/-- A memnode has room, and the piece is cut off it. -/
theorem pallocSlots_fit (thread npages : Nat) (h : PoolAt plat w p) (hk : k % 8 = 0)
    (hindex : index ≤ sprMaxPoolSlot) {n : Memnode}
    (hfit : firstFit k (p.fromSlot index) = some n) :
    ∃ w', pallocSlots plat thread p.addr k npages index w = .ok n.firstAvail w' ∧
      PoolAt plat w' (p.carveAt n.addr k) ∧
      Carving plat thread w p k (npages * plat.pageSize) index n.firstAvail
        (p.carveAt n.addr k) w' ∧
      FrameOwn plat w w' (p.carveAt n.addr k) := by
  have hlock := h.of_eq (v := w.emits (lockEvents plat thread p)) rfl rfl
  obtain ⟨hn, hfits⟩ := firstFit_some hfit
  have hn := Pool.fromSlot_nodes hn
  have hne := (h.wf.node n hn).ne_null
  obtain ⟨w₁, hcarve, hp₁, hframe, hlive, hlog⟩ := carve_spec hlock hn hfits hk
  refine ⟨w₁.emits (unlockEvents plat thread p), ?_, hp₁.of_eq rfl rfl,
    .fit _ n hfit hlive (by simp [hlog]), fun b hb => ?_⟩
  · have hunlock := unlockPool_run hp₁ thread
    rw [show (p.carveAt n.addr k).addr = p.addr from rfl] at hunlock
    simp [pallocSlots, lockPool_run h, slotSearch h k hindex, hfit, addrOf, hne, hcarve, hunlock]
    rfl
  · exact hframe b fun hc => hb (carveAt_owns (Or.inr (Or.inl ⟨n, hn, hc⟩)))

/-- No memnode has room, and the system refuses one. -/
theorem pallocSlots_refused (thread : Nat) (h : PoolAt plat w p) (hindex : index ≤ sprMaxPoolSlot)
    (hpages : npages * plat.pageSize < wordMod) (hfit : firstFit k (p.fromSlot index) = none)
    (hrun : sprMemnodeAllocate (npages * plat.pageSize) (w.emits (lockEvents plat thread p))
      = .ok 0 ((w.emits (lockEvents plat thread p)).refuse (npages * plat.pageSize))) :
    ∃ w', pallocSlots plat thread p.addr k npages index w = .ok 0 w' ∧ PoolAt plat w' p ∧
      Carving plat thread w p k (npages * plat.pageSize) index 0 p w' ∧
      FrameOwn plat w w' p := by
  have hlock := h.of_eq (v := w.emits (lockEvents plat thread p)) rfl rfl
  have hp₁ := hlock.of_eq (v := (w.emits (lockEvents plat thread p)).refuse
    (npages * plat.pageSize)) rfl rfl
  refine ⟨((w.emits (lockEvents plat thread p)).refuse (npages * plat.pageSize)).emits
    (unlockEvents plat thread p), ?_, hp₁.of_eq rfl rfl, .refused _ hfit rfl rfl ?_,
    fun b _ => rfl⟩
  · simp [pallocSlots, lockPool_run h, slotSearch h k hindex, hfit, addrOf, newMemnode,
      mul_of_lt hpages, hrun, unlockPool_run hp₁]
  · simp

/-- A new memnode is registered, and the piece is cut off it. -/
theorem pallocSlots_fresh (thread : Nat) (h : PoolAt plat w p) (hk : k % 8 = 0)
    (hindex : index ≤ sprMaxPoolSlot) (hroom : k + sizeofMemnode < npages * plat.pageSize)
    (hpages : npages * plat.pageSize < wordMod) (hfit : firstFit k (p.fromSlot index) = none)
    {a : Nat} (hg : Grants w.live a (npages * plat.pageSize))
    (hrun : sprMemnodeAllocate (npages * plat.pageSize) (w.emits (lockEvents plat thread p))
      = .ok a w₁)
    (hmade : NodeMade (w.emits (lockEvents plat thread p)) a (npages * plat.pageSize) w₁) :
    ∃ p' w', pallocSlots plat thread p.addr k npages index w = .ok (a + sizeofMemnode) w' ∧
      PoolAt plat w' p' ∧
      Carving plat thread w p k (npages * plat.pageSize) index (a + sizeofMemnode) p' w' ∧
      FrameOwn plat w w' p' := by
  have hlow := le_sizeofPool plat
  have hi : index ≤ 20 := hindex
  have hsize : sizeofMemnode ≤ npages * plat.pageSize := by omega
  have hlock := h.of_eq (v := w.emits (lockEvents plat thread p)) rfl rfl
  have hp₂ := (hlock.addNode hg hsize hmade hindex).of_eq (v := World.emit ((w₁.store
    (p.addr + 8 * index) a).store a (w.mem (p.addr + 8 * index))) (.registered p.addr a))
    rfl rfl
  have hnode : freshNode a (npages * plat.pageSize)
      ∈ (p.addNode index (freshNode a (npages * plat.pageSize))).nodes :=
    mem_addNode.mpr (Or.inl rfl)
  have hfits : k ≤ (freshNode a (npages * plat.pageSize)).sizeAvail := by
    simp only [freshNode]
    omega
  obtain ⟨w₃, hcarve, hp₃, hframe, hlive, hlog⟩ := carve_spec hp₂ hnode hfits hk
  -- making the memnode has not touched the word of the slot
  have hold : w₁.mem (p.addr + 8 * index) = w.mem (p.addr + 8 * index) := by
    refine hmade.frame _ fun hc => ?_
    obtain ⟨home, hhome, haddr, hend⟩ := h.wf.home
    have hupper := (h.wf.node home hhome).upper
    refine (h.granted_apart hg hhome).not_covers (a := p.addr + 8 * index) ?_ ?_ <;>
      simp only [Span.Covers, Memnode.region] at * <;> omega
  refine ⟨(p.addNode index (freshNode a (npages * plat.pageSize))).carveAt a k,
    w₃.emits (unlockEvents plat thread p), ?_, hp₃.of_eq rfl rfl,
    .fresh _ a hfit hg ?_ ?_, fun b hb => ?_⟩
  · have hunlock := unlockPool_run hp₃ thread
    have haddr : ((p.addNode index (freshNode a (npages * plat.pageSize))).carveAt a k).addr
        = p.addr := addNode_addr ..
    have hmutex : unlockEvents plat thread
        ((p.addNode index (freshNode a (npages * plat.pageSize))).carveAt a k)
          = unlockEvents plat thread p := by
      unfold Pool.addNode
      split <;> rfl
    rw [show (freshNode a (npages * plat.pageSize)).addr = a from rfl, haddr, hmutex] at hunlock
    rw [show (freshNode a (npages * plat.pageSize)).addr = a from rfl,
      show (freshNode a (npages * plat.pageSize)).firstAvail = a + sizeofMemnode from rfl]
      at hcarve
    simp [pallocSlots, lockPool_run h, slotSearch h k hindex, hfit, addrOf, newMemnode,
      mul_of_lt hpages, hrun, hg.1, hold, hcarve, hunlock]
  · simp only [emits_live, hlive, emit_live, store_live, hmade.live]
  · simp [hlog, hmade.log]
  · -- what is no word of the pool afterwards has not been written
    have hout : ¬ (p.addNode index (freshNode a (npages * plat.pageSize))).Owns plat b :=
      fun hown => hb (carveAt_owns hown)
    have hfresh : ¬ Span.Covers ⟨a, sizeofMemnode⟩ b := fun hc =>
      hout (Or.inr (Or.inl ⟨_, hnode, hc⟩))
    have hword : b ≠ p.addr + 8 * index := by
      rintro rfl
      refine hout (Or.inl ?_)
      simp only [Span.Covers, Pool.headerSpan, addNode_addr]
      omega
    have hstart : b ≠ a := by
      rintro rfl
      exact hfresh ⟨Nat.le_refl _, Nat.lt_add_of_pos_right (show 0 < sizeofMemnode by decide)⟩
    rw [emits_mem, hframe b hfresh]
    simp only [emit_mem, store_mem]
    rw [Function.update_of_ne hstart, Function.update_of_ne hword]
    exact hmade.frame b hfresh

/-- **The slot path of `spr_palloc`.** -/
theorem pallocSlots_cases (thread : Nat) (h : PoolAt plat w p) (hk : k % 8 = 0)
    (hindex : index ≤ sprMaxPoolSlot) (hroom : k + sizeofMemnode < npages * plat.pageSize)
    (hpages : npages * plat.pageSize < wordMod) :
    ∃ r p' w', pallocSlots plat thread p.addr k npages index w = .ok r w' ∧ PoolAt plat w' p' ∧
      Carving plat thread w p k (npages * plat.pageSize) index r p' w' ∧
      FrameOwn plat w w' p' := by
  have hsize : sizeofMemnode ≤ npages * plat.pageSize := by omega
  cases hfit : firstFit k (p.fromSlot index) with
  | some n =>
    obtain ⟨w', hcase⟩ := pallocSlots_fit thread npages h hk hindex hfit
    exact ⟨_, _, w', hcase⟩
  | none =>
    rcases sprMemnodeAllocate_cases hsize (w.emits (lockEvents plat thread p)) with
      hrun | ⟨a, w₁, hg, hrun, hmade⟩
    · obtain ⟨w', hcase⟩ := pallocSlots_refused thread h hindex hpages hfit hrun
      exact ⟨_, _, w', hcase⟩
    · exact ⟨_, pallocSlots_fresh thread h hk hindex hroom hpages hfit hg hrun hmade⟩

end SlotPath

end Spr.MemPool
