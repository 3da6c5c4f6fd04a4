import Spr.MemPool.Create

/-! # The loops over memnodes

    `spr_pool_clear` rewinds every memnode of the slots, `spr_pool_destroy`
    deallocates them.

    * `Pool.rewind`, `resetSlots_spec`: the counters go back to the start.
    * `World.deallocate`, `deallocateSlots_run`: the regions go back to the
      system. -/

namespace Spr.MemPool

open Spr.Words Spr.Chains

/-! ## Section 1: Rewinding -/

/-- The memnode with everything available again. -/
def Memnode.rewind (n : Memnode) : Memnode :=
  { n with firstAvail := n.begin, sizeAvail := n.size }

/-- The pool with the memnodes at some addresses rewound. -/
def Pool.rewind (addrs : List Nat) (p : Pool) : Pool :=
  p.mapNodes fun n => if n.addr ∈ addrs then n.rewind else n

theorem Pool.rewind_nil (p : Pool) : p.rewind [] = p := by
  simp [Pool.rewind, Pool.mapNodes]

theorem Pool.rewind_cons (a : Nat) (addrs : List Nat) (p : Pool) :
    (p.rewind [a]).rewind addrs = p.rewind (a :: addrs) := by
  have hstep : ∀ n : Memnode, (if (if n.addr ∈ [a] then n.rewind else n).addr ∈ addrs
      then (if n.addr ∈ [a] then n.rewind else n).rewind
      else if n.addr ∈ [a] then n.rewind else n)
        = if n.addr ∈ a :: addrs then n.rewind else n := by
    intro n
    by_cases h₁ : n.addr = a
    · subst h₁
      by_cases h₂ : n.addr ∈ addrs <;> simp [Memnode.rewind, h₂]
    · by_cases h₂ : n.addr ∈ addrs <;> simp [h₁, h₂]
  simp only [Pool.rewind, Pool.mapNodes, List.map_map]
  congr 1
  · funext i
    exact List.map_congr_left fun n _ => hstep n
  · exact List.map_congr_left fun n _ => hstep n

theorem Pool.rewind_append (as bs : List Nat) (p : Pool) :
    (p.rewind as).rewind bs = p.rewind (as ++ bs) := by
  induction as generalizing p with
  | nil => rw [Pool.rewind_nil, List.nil_append]
  | cons a as ih =>
    rw [← Pool.rewind_cons a as p, ih, List.cons_append, ← Pool.rewind_cons a (as ++ bs) p]

@[simp] theorem rewind_addr (as : List Nat) (p : Pool) : (p.rewind as).addr = p.addr := rfl

theorem map_addr_rewind (as : List Nat) (ns : List Memnode) :
    (ns.map fun n => if n.addr ∈ as then n.rewind else n).map Memnode.addr
      = ns.map Memnode.addr := by
  rw [List.map_map]
  refine List.map_congr_left fun n _ => ?_
  show (if n.addr ∈ as then n.rewind else n).addr = n.addr
  split <;> rfl

@[simp] theorem rewind_slot_addrs (as : List Nat) (p : Pool) (i : Nat) :
    ((p.rewind as).slots i).map Memnode.addr = (p.slots i).map Memnode.addr :=
  map_addr_rewind as (p.slots i)

@[simp] theorem rewind_addrs (as : List Nat) (p : Pool) :
    (p.rewind as).nodes.map Memnode.addr = p.nodes.map Memnode.addr := by
  rw [Pool.rewind, mapNodes_nodes]
  exact map_addr_rewind as p.nodes

theorem NodeOk.rewind {n : Memnode} (h : NodeOk n) : NodeOk n.rewind := by
  obtain ⟨h₁, h₂, h₃, h₄, h₅, h₆, h₇, h₈, h₉⟩ := h
  exact ⟨h₁, h₂, Nat.le_refl _, rfl, h₅, h₆, h₇, h₈, h₈⟩

/-- The memory outside the memnodes' own fields is as it was, and so are the
    links and the regions given out. -/
structure FieldsOnly (w w' : World) (p : Pool) : Prop where
  frame : ∀ b, (∀ n ∈ p.nodes, ¬ Span.Covers ⟨n.addr, sizeofMemnode⟩ b) → w'.mem b = w.mem b
  links : ∀ n ∈ p.nodes, w'.mem n.addr = w.mem n.addr
  live  : w'.live = w.live

theorem FieldsOnly.trans {w w₁ w₂ : World} {p q : Pool} (h₁ : FieldsOnly w w₁ p)
    (h₂ : FieldsOnly w₁ w₂ q) (haddrs : q.nodes.map Memnode.addr = p.nodes.map Memnode.addr) :
    FieldsOnly w w₂ p := by
  have hto : ∀ n ∈ p.nodes, ∃ m ∈ q.nodes, m.addr = n.addr := fun n hn =>
    List.mem_map.mp (haddrs ▸ List.mem_map_of_mem hn)
  have hfrom : ∀ m ∈ q.nodes, ∃ n ∈ p.nodes, n.addr = m.addr := fun m hm =>
    List.mem_map.mp (haddrs ▸ List.mem_map_of_mem hm)
  refine ⟨fun b hb => ?_, fun n hn => ?_, h₂.live.trans h₁.live⟩
  · rw [h₂.frame b fun m hm => ?_, h₁.frame b hb]
    obtain ⟨n, hn, heq⟩ := hfrom m hm
    rw [← heq]
    exact hb n hn
  · obtain ⟨m, hm, heq⟩ := hto n hn
    rw [← heq, h₂.links m hm, heq, h₁.links n hn]

/-- **One memnode is rewound.** -/
theorem resetNode_spec {plat : Platform} {w : World} {p : Pool} {a : Nat} (h : PoolAt plat w p)
    (ha : a ∈ p.nodes.map Memnode.addr) :
    ∃ w', resetNode a w = .ok (w.mem a) w' ∧ PoolAt plat w' (p.rewind [a]) ∧ FieldsOnly w w' p ∧
      w'.log = w.log ++ [.reset a] := by
  obtain ⟨n, hn, rfl⟩ := List.mem_map.mp ha
  have hrep := h.rep.nodes.node n hn
  have hrun : resetNode n.addr w = .ok (w.mem n.addr)
      (((w.emit (.reset n.addr)).store (n.addr + 16) n.begin).store (n.addr + 32) n.size) := by
    simp [resetNode, hrep.begin, hrep.size]
  -- only two fields of the memnode are written, and its link is none of them
  have hframe : ∀ b, ¬ Span.Covers ⟨n.addr, sizeofMemnode⟩ b → (((w.emit (.reset n.addr)).store
      (n.addr + 16) n.begin).store (n.addr + 32) n.size).mem b = w.mem b := by
    intro b hb
    simp only [Span.Covers, sizeofMemnode] at hb
    simp only [store_mem, emit_mem]
    rw [Function.update_of_ne (by omega), Function.update_of_ne (by omega)]
  have hlinks : ∀ m ∈ p.nodes, (((w.emit (.reset n.addr)).store (n.addr + 16) n.begin).store
      (n.addr + 32) n.size).mem m.addr = w.mem m.addr := by
    intro m hm
    by_cases heq : m.addr = n.addr
    · simp only [store_mem, emit_mem, heq]
      rw [Function.update_of_ne (by omega), Function.update_of_ne (by omega)]
    · refine hframe m.addr ((h.fields_fields hm hn heq).not_covers ⟨Nat.le_refl _, ?_⟩)
      simp [sizeofMemnode]
  have hfar : ∀ b, (∀ m ∈ p.nodes, ¬ Span.Covers ⟨m.addr, sizeofMemnode⟩ b) → (((w.emit
      (.reset n.addr)).store (n.addr + 16) n.begin).store (n.addr + 32) n.size).mem b = w.mem b :=
    fun b hb => hframe b (hb n hn)
  refine ⟨_, hrun, h.mapNodes (fun m _ => ?_) (fun m hm => ?_) (fun m hm => ?_) hlinks hfar rfl,
    ⟨hfar, hlinks, rfl⟩, rfl⟩
  · split <;> simp [Memnode.rewind]
  · split
    · exact (h.wf.node m hm).rewind
    · exact h.wf.node m hm
  · by_cases heq : m.addr = n.addr
    · obtain rfl := h.wf.node_inj hm hn heq
      rw [if_pos (List.mem_singleton_self _)]
      constructor <;> simp [Memnode.rewind, hrep.begin, hrep.size, hrep.deallocSize]
    · rw [if_neg (by simpa using heq)]
      exact (h.rep.nodes.node m hm).congr fun b hb =>
        hframe b ((h.fields_fields hm hn heq).not_covers hb)

/-- The inner loop of `spr_pool_clear`. -/
theorem nodeLoop_reset {plat : Platform} {addrs : List Nat} :
    ∀ {w : World} {p : Pool} {start fuel : Nat}, PoolAt plat w p →
      (∀ a ∈ addrs, a ∈ p.nodes.map Memnode.addr) → Chain w.mem 0 start addrs →
      addrs.length < fuel →
      ∃ w', nodeLoop resetNode fuel start w = .ok () w' ∧ PoolAt plat w' (p.rewind addrs) ∧
        FieldsOnly w w' p ∧ w'.log = w.log ++ addrs.map .reset := by
  induction addrs with
  | nil =>
    intro w p start fuel h _ hchain hfuel
    obtain ⟨fuel, rfl⟩ : ∃ f, fuel = f + 1 := ⟨fuel - 1, by simp at hfuel; omega⟩
    obtain rfl : start = 0 := hchain
    refine ⟨w, by simp [nodeLoop], by rwa [Pool.rewind_nil], ⟨fun _ _ => rfl, fun _ _ => rfl, rfl⟩,
      by simp⟩
  | cons a addrs ih =>
    intro w p start fuel h hin hchain hfuel
    obtain ⟨fuel, rfl⟩ : ∃ f, fuel = f + 1 := ⟨fuel - 1, by simp at hfuel; omega⟩
    obtain ⟨rfl, hne, hrest⟩ := hchain
    obtain ⟨w₁, hrun, hp₁, honly, hlog⟩ := resetNode_spec h (hin _ List.mem_cons_self)
    have hrest₁ : Chain w₁.mem 0 (w.mem start) addrs := by
      refine chain_congr (fun b hb => ?_) hrest
      obtain ⟨n, hn, rfl⟩ := List.mem_map.mp (hin b (List.mem_cons_of_mem _ hb))
      exact honly.links n hn
    obtain ⟨w₂, hrun₂, hp₂, honly₂, hlog₂⟩ := ih hp₁ (fun b hb => by
      rw [rewind_addrs]
      exact hin b (List.mem_cons_of_mem _ hb)) hrest₁ (by simpa using hfuel)
    refine ⟨w₂, by simp [nodeLoop, hne, hrun, hrun₂], by rwa [Pool.rewind_cons] at hp₂,
      honly.trans honly₂ (rewind_addrs _ _), ?_⟩
    rw [hlog₂, hlog]
    simp

/-- The addresses of the memnodes in the slots, in order. -/
def Pool.slotAddrs (p : Pool) (i : Nat) : List Nat := (p.fromSlot i).map Memnode.addr

theorem Pool.slotAddrs_nodes {p : Pool} {i a : Nat} (ha : a ∈ p.slotAddrs i) :
    a ∈ p.nodes.map Memnode.addr := by
  obtain ⟨n, hn, rfl⟩ := List.mem_map.mp ha
  exact List.mem_map_of_mem (Pool.fromSlot_nodes hn)

theorem Pool.slotAddrs_step (p : Pool) {i : Nat} (hi : i < sprMaxPoolSlot) :
    p.slotAddrs i = (p.slots i).map Memnode.addr ++ p.slotAddrs (i + 1) := by
  have hsub : sprMaxPoolSlot - i = sprMaxPoolSlot - (i + 1) + 1 := by omega
  rw [Pool.slotAddrs, Pool.fromSlot, hsub, List.range'_succ, List.flatMap_cons, List.map_append]
  rfl

/-- **The loop of `spr_pool_clear` over the slots.** -/
theorem resetSlots_spec {plat : Platform} {n : Nat} :
    ∀ {w : World} {p : Pool} {i : Nat}, PoolAt plat w p → i + n = sprMaxPoolSlot →
      ∃ w', slotLoop load resetNode p.addr i n w = .ok () w' ∧
        PoolAt plat w' (p.rewind (p.slotAddrs i)) ∧ FieldsOnly w w' p ∧
        w'.log = w.log ++ (p.slotAddrs i).map .reset := by
  induction n with
  | zero =>
    intro w p i h hi
    obtain rfl : i = sprMaxPoolSlot := by omega
    have hnil : p.slotAddrs sprMaxPoolSlot = [] := rfl
    rw [hnil, Pool.rewind_nil]
    exact ⟨w, rfl, h, ⟨fun _ _ => rfl, fun _ _ => rfl, rfl⟩, by simp⟩
  | succ n ih =>
    intro w p i h hi
    have hlt : i < sprMaxPoolSlot := by omega
    have hlen : ((p.slots i).map Memnode.addr).length < addressSpace := by
      rw [List.length_map]
      exact h.slot_length hlt
    obtain ⟨w₁, hrun, hp₁, honly, hlog⟩ := nodeLoop_reset h (fun a ha => by
      obtain ⟨m, hm, rfl⟩ := List.mem_map.mp ha
      exact List.mem_map_of_mem (Pool.mem_nodes_of_slot hlt hm)) (h.rep.nodes.slot i hlt) hlen
    obtain ⟨w₂, hrun₂, hp₂, honly₂, hlog₂⟩ := ih (i := i + 1) hp₁ (by omega)
    -- rewinding one slot leaves the others where they are
    have haddrs : (p.rewind ((p.slots i).map Memnode.addr)).slotAddrs (i + 1)
        = p.slotAddrs (i + 1) := by
      simp only [Pool.slotAddrs, Pool.fromSlot, List.map_flatMap, rewind_slot_addrs]
    rw [haddrs] at hp₂ hlog₂
    rw [Pool.rewind_append, ← Pool.slotAddrs_step p hlt] at hp₂
    rw [rewind_addr] at hrun₂
    refine ⟨w₂, by simp [slotLoop, hrun, hrun₂], hp₂, honly.trans honly₂ (rewind_addrs _ _), ?_⟩
    rw [hlog₂, hlog, Pool.slotAddrs_step p hlt]
    simp

/-! ## Section 2: Deallocation -/

/-- The memnode at `a` has been deallocated. -/
def World.deallocate (w : World) (a : Nat) : World := (w.emit (.deallocated a)).release a

/-- Some memnodes have been deallocated, in order. -/
def World.deallocates (w : World) (addrs : List Nat) : World := addrs.foldl World.deallocate w

@[simp] theorem deallocates_mem (addrs : List Nat) (w : World) :
    (w.deallocates addrs).mem = w.mem := by
  induction addrs generalizing w with
  | nil => rfl
  | cons a addrs ih => exact ih _

@[simp] theorem deallocates_live (addrs : List Nat) (w : World) :
    (w.deallocates addrs).live = w.live.filter fun s => s.start ∉ addrs := by
  induction addrs generalizing w with
  | nil => simp [World.deallocates]
  | cons a addrs ih =>
    have hstep : (w.deallocates (a :: addrs)) = (w.deallocate a).deallocates addrs := rfl
    rw [hstep, ih]
    simp only [World.deallocate, release_live, emit_live, List.filter_filter]
    refine List.filter_congr fun s _ => ?_
    simp only [List.mem_cons, not_or, Bool.decide_and, ne_eq]
    rw [Bool.and_comm]

/-- What deallocating a memnode logs. -/
def deallocEvents (a : Nat) : List Event := [.deallocated a, .freed a]

@[simp] theorem deallocates_log (addrs : List Nat) (w : World) :
    (w.deallocates addrs).log = w.log ++ addrs.flatMap deallocEvents := by
  induction addrs generalizing w with
  | nil => simp [World.deallocates]
  | cons a addrs ih =>
    have hstep : (w.deallocates (a :: addrs)) = (w.deallocate a).deallocates addrs := rfl
    rw [hstep, ih]
    simp [World.deallocate, deallocEvents]

/-- The memnodes are in regions that are given out. -/
def HeldAt (w : World) (addrs : List Nat) : Prop := ∀ a ∈ addrs, ∃ s ∈ w.live, s.start = a

theorem HeldAt.isLive {w : World} {addrs : List Nat} {a : Nat} (h : HeldAt w addrs)
    (hlive : LiveOk w.live) (ha : a ∈ addrs) : w.isLive a = true := by
  obtain ⟨s, hs, rfl⟩ := h a ha
  have hpos := (hlive.bounded s hs).2.2.1
  exact List.any_eq_true.mpr ⟨s, hs, decide_eq_true ⟨Nat.le_refl _, by omega⟩⟩

/-- What the inner loop of `spr_pool_destroy` logs. -/
def releaseChain (rd : Reader) (addrs : List Nat) : List Event :=
  addrs.flatMap fun a => rd.events a true ++ deallocEvents a

@[simp] theorem releaseChain_plain (addrs : List Nat) :
    releaseChain .plain addrs = addrs.flatMap deallocEvents := rfl

/-- The inner loop of `spr_pool_destroy`: the link is read before the memnode
    goes. -/
theorem nodeLoop_deallocate (rd : Reader) {addrs : List Nat} :
    ∀ (fuel start : Nat) (w : World), Chain w.mem 0 start addrs → HeldAt w addrs →
      LiveOk w.live → addrs.length < fuel →
      ∃ w', nodeLoop (deallocateNode rd.run) fuel start w = .ok () w' ∧ w'.mem = w.mem ∧
        w'.live = w.live.filter (fun s => s.start ∉ addrs) ∧
        w'.log = w.log ++ releaseChain rd addrs := by
  induction addrs with
  | nil =>
    intro fuel start w hchain _ _ hfuel
    obtain ⟨fuel, rfl⟩ : ∃ f, fuel = f + 1 := ⟨fuel - 1, by simp at hfuel; omega⟩
    obtain rfl : start = 0 := hchain
    exact ⟨w, by simp [nodeLoop], rfl, by simp, by simp [releaseChain]⟩
  | cons a addrs ih =>
    intro fuel start w hchain hheld hlive hfuel
    obtain ⟨fuel, rfl⟩ : ∃ f, fuel = f + 1 := ⟨fuel - 1, by simp at hfuel; omega⟩
    have hnew : a ∉ addrs := (List.nodup_cons.mp (chain_nodup hchain)).1
    obtain ⟨rfl, hne, hrest⟩ := hchain
    have hread := hheld.isLive hlive List.mem_cons_self
    -- the other memnodes are still there
    have hheld' : HeldAt ((w.emits (rd.events start true)).deallocate start) addrs := by
      intro b hb
      obtain ⟨s, hs, rfl⟩ := hheld b (List.mem_cons_of_mem _ hb)
      exact ⟨s, List.mem_filter.mpr ⟨hs, by simpa using ne_of_mem_of_not_mem hb hnew⟩, rfl⟩
    obtain ⟨w', hrun, hmem, hl, hlog⟩ := ih fuel (w.mem start)
      ((w.emits (rd.events start true)).deallocate start) hrest hheld'
      ⟨hlive.disjoint.filter _, fun s hs => hlive.bounded s (List.mem_of_mem_filter hs)⟩
      (by simpa using hfuel)
    refine ⟨w', ?_, hmem, ?_, ?_⟩
    · simp [nodeLoop, hne, deallocateNode, sprMemnodeDeallocate, hread]
      exact hrun
    · rw [hl]
      simp only [World.deallocate, release_live, emit_live, emits_live, List.filter_filter]
      refine List.filter_congr fun s _ => ?_
      simp only [List.mem_cons, not_or, Bool.decide_and, ne_eq]
      rw [Bool.and_comm]
    · rw [hlog]
      simp [World.deallocate, releaseChain, deallocEvents]

/-- What the loop of `spr_pool_destroy` over the slots logs, once the memnodes
    `gone` have been deallocated. -/
def releaseEvents (rd : Reader) (p : Pool) (gone : List Nat) : Nat → Nat → List Event
  | _, 0 => []
  | i, n + 1 =>
      rd.events (p.addr + 8 * i) (decide (p.addr - sizeofMemnode ∉ gone)) ++
        releaseChain rd ((p.slots i).map Memnode.addr) ++
        releaseEvents rd p (gone ++ (p.slots i).map Memnode.addr) (i + 1) n

theorem releaseEvents_congr {rd : Reader} {p q : Pool} (haddr : p.addr = q.addr)
    (hslots : p.slots = q.slots) {n : Nat} : ∀ {gone : List Nat} {i : Nat},
    releaseEvents rd p gone i n = releaseEvents rd q gone i n := by
  induction n with
  | zero => intro gone i; rfl
  | succ n ih =>
    intro gone i
    rw [releaseEvents, releaseEvents, haddr, hslots, ih]

theorem releaseEvents_plain (p : Pool) {n : Nat} : ∀ {gone : List Nat} {i : Nat},
    i + n = sprMaxPoolSlot → releaseEvents .plain p gone i n
      = (p.slotAddrs i).flatMap deallocEvents := by
  induction n with
  | zero =>
    intro gone i hi
    obtain rfl : i = sprMaxPoolSlot := by omega
    rfl
  | succ n ih =>
    intro gone i hi
    have hlt : i < sprMaxPoolSlot := by omega
    rw [releaseEvents, ih (by omega), Pool.slotAddrs_step p hlt, List.flatMap_append]
    rfl

/-- The header of a pool is given out while its first memnode is. -/
theorem PoolAt.header_isLive {plat : Platform} {w₀ w : World} {p : Pool} {gone : List Nat}
    (h : PoolAt plat w₀ p) (hlive : w.live = w₀.live.filter fun s => s.start ∉ gone) {j : Nat}
    (hj : j < sizeofPool plat) :
    w.isLive (p.addr + j) = decide (p.addr - sizeofMemnode ∉ gone) := by
  obtain ⟨home, hhome, haddr, hend⟩ := h.wf.home
  have hupper := (h.wf.node home hhome).upper
  have hcover : home.region.Covers (p.addr + j) := by
    simp only [Span.Covers, Memnode.region]
    omega
  have hsub : p.addr - sizeofMemnode = home.addr := by rw [haddr, Nat.add_sub_cancel]
  rw [hsub, World.isLive, Bool.eq_iff_iff, List.any_eq_true, decide_eq_true_eq, hlive]
  constructor
  · rintro ⟨s, hs, hc⟩
    obtain ⟨hs, hout⟩ := List.mem_filter.mp hs
    rcases Span.eq_or_disjoint h.live.disjoint (h.held home hhome) hs with rfl | hdis
    · exact of_decide_eq_true hout
    · exact absurd (of_decide_eq_true hc) (hdis.not_covers hcover)
  · intro hout
    exact ⟨home.region, List.mem_filter.mpr ⟨h.held home hhome, decide_eq_true hout⟩,
      decide_eq_true hcover⟩

/-- **The loop of `spr_pool_destroy` over the slots**, once `gone` have been
    deallocated. -/
theorem releaseSlots_run {plat : Platform} (rd : Reader) {p : Pool} {n : Nat} :
    ∀ {w w₀ : World} {i : Nat} {gone : List Nat}, PoolAt plat w₀ p → w.mem = w₀.mem →
      w.live = w₀.live.filter (fun s => s.start ∉ gone) →
      (∀ a ∈ p.slotAddrs i, a ∉ gone) → (p.slotAddrs i).Nodup → i + n = sprMaxPoolSlot →
      ∃ w', slotLoop rd.run (deallocateNode rd.run) p.addr i n w = .ok () w' ∧ w'.mem = w.mem ∧
        w'.live = w.live.filter (fun s => s.start ∉ p.slotAddrs i) ∧
        w'.log = w.log ++ releaseEvents rd p gone i n := by
  induction n with
  | zero =>
    intro w w₀ i gone _ _ _ _ _ hi
    obtain rfl : i = sprMaxPoolSlot := by omega
    have hnil : p.slotAddrs sprMaxPoolSlot = [] := rfl
    exact ⟨w, rfl, rfl, by simp [hnil], by simp [releaseEvents]⟩
  | succ n ih =>
    intro w w₀ i gone h hmem hlive hapart hnd hi
    have hlt : i < sprMaxPoolSlot := by omega
    have hlow := le_sizeofPool plat
    rw [Pool.slotAddrs_step p hlt] at hapart hnd
    -- the header is read after its own memnode may have gone
    have hread : w.isLive (p.addr + 8 * i) = decide (p.addr - sizeofMemnode ∉ gone) :=
      h.header_isLive hlive (by simp only [sprMaxPoolSlot] at hlt; omega)
    have hchain := h.rep.nodes.slot i hlt
    rw [← hmem] at hchain
    have hheld : HeldAt
        (w.emits (rd.events (p.addr + 8 * i) (decide (p.addr - sizeofMemnode ∉ gone))))
        ((p.slots i).map Memnode.addr) := by
      intro a ha
      obtain ⟨m, hm, rfl⟩ := List.mem_map.mp ha
      refine ⟨m.region, ?_, rfl⟩
      rw [emits_live, hlive]
      exact List.mem_filter.mpr ⟨h.held m (Pool.mem_nodes_of_slot hlt hm),
        decide_eq_true (hapart _ (List.mem_append_left _ ha))⟩
    have hok : LiveOk w.live := by
      rw [hlive]
      exact ⟨h.live.disjoint.filter _, fun s hs => h.live.bounded s (List.mem_of_mem_filter hs)⟩
    obtain ⟨w₁, hrun, hmem₁, hlive₁, hlog₁⟩ := nodeLoop_deallocate rd addressSpace
      (w.mem (p.addr + 8 * i))
      (w.emits (rd.events (p.addr + 8 * i) (decide (p.addr - sizeofMemnode ∉ gone)))) hchain hheld
      hok (by
        rw [List.length_map]
        exact h.slot_length hlt)
    -- the slot's memnodes are gone too
    have hlive₁' : w₁.live
        = w₀.live.filter fun s => s.start ∉ gone ++ (p.slots i).map Memnode.addr := by
      rw [hlive₁, emits_live, hlive, List.filter_filter]
      refine List.filter_congr fun s _ => ?_
      simp only [List.mem_append, not_or, Bool.decide_and]
      rw [Bool.and_comm]
    obtain ⟨w₂, hrun₂, hmem₂, hlive₂, hlog₂⟩ := ih (w := w₁) (i := i + 1) h
      (hmem₁.trans hmem) hlive₁' (fun a ha hin => by
        rcases List.mem_append.mp hin with hin | hin
        · exact hapart a (List.mem_append_right _ ha) hin
        · exact (List.nodup_append.mp hnd).2.2 a hin a ha rfl) (List.nodup_append.mp hnd).2.1
      (by omega)
    refine ⟨w₂, ?_, hmem₂.trans hmem₁, ?_, ?_⟩
    · simp only [slotLoop, bind_run, Reader.run_run, poolNodes, hread, hrun, hrun₂]
    · rw [hlive₂, hlive₁, emits_live, List.filter_filter, Pool.slotAddrs_step p hlt]
      refine List.filter_congr fun s _ => ?_
      simp only [List.mem_append, not_or, Bool.decide_and]
      rw [Bool.and_comm]
    · rw [hlog₂, hlog₁, releaseEvents]
      simp

end Spr.MemPool
