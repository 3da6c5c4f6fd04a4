import Spr.MemPool.Blocks

/-! # Blocks in place

    Where the blocks of the callers lie, in every state of every run.

    * `Session.Lawful`: the calls that callers may make.
    * `Session.OffRecords`: the calls that cut nothing off memory in which a record lies.
    * `Placement`, `blocks_placed`: the blocks and the memnodes. -/

namespace Spr.MemPool

open Spr.Words Spr.Chains Spr.Forests

/-! ## Section 1: Calls -/

/-- `SSIZE_MAX` -/
def ssizeMax : Nat := 2 ^ 63 - 1

/-- How many bytes the call asks for. -/
def Op.asked : Op → Nat
  | .create _ size _ => size
  | .palloc _ _ size => size
  | .pcalloc _ _ size => size
  | _ => 0

/-- The call neither moves a pool in the family nor takes one off. -/
def Op.KeepsPools : Op → Prop
  | .addChild _ _ => False
  | .destroy _ _ => False
  | _ => True

instance (op : Op) : Decidable op.KeepsPools := by
  unfold Op.KeepsPools
  rcases op <;> infer_instance

/-- What is registered for `spr_free` is the caller's. -/
def Session.OwnData (plat : Platform) (s : Session) : Op → Prop
  | .cleanupAdd _ _ data handler => OwnRegion plat s data handler
  | _ => True

instance (plat : Platform) (s : Session) (op : Op) : Decidable (s.OwnData plat op) := by
  unfold Session.OwnData
  rcases op <;> infer_instance

/-- **The calls that callers may make**: on pools that are there, of any size, and in
    any state of the records. -/
def Session.Lawful (plat : Platform) (s : Session) (op : Op) : Prop :=
  s.Legal plat op ∧ op.KeepsPools ∧ s.OwnData plat op

instance (plat : Platform) (s : Session) (op : Op) : Decidable (s.Lawful plat op) :=
  inferInstanceAs (Decidable (_ ∧ _ ∧ _))

/-- The arithmetic of the request does not wrap. -/
def Op.Fits (plat : Platform) : Op → Prop
  | .create _ size _ => CreateFits plat size
  | .palloc _ _ size => SizeFits plat size
  | .pcalloc _ _ size => SizeFits plat size
  | _ => True

instance (plat : Platform) (op : Op) : Decidable (op.Fits plat) := by
  unfold Op.Fits
  rcases op <;> infer_instance

/-- **The call cuts nothing off memory in which a record of the pool lies**: neither a
    block nor a record. -/
def Session.OffRecords (plat : Platform) (s : Session) : Op → Prop
  | .palloc _ pool size => CleanAlloc plat s.world pool size
  | .pcalloc _ pool size => CleanAlloc plat s.world pool size
  | .cleanupAdd _ pool _ _ => CleanRecord s.world pool
  | _ => True

instance (plat : Platform) (s : Session) (op : Op) : Decidable (s.OffRecords plat op) := by
  unfold Session.OffRecords
  rcases op <;> infer_instance

section Calls

variable {plat : Platform} {s : Session} {op : Op}

/-- Such calls are those of plain runs. -/
theorem Session.Lawful.plain (h : s.Lawful plat op) (hfits : op.Fits plat)
    (hoff : s.OffRecords plat op) : s.Plain plat op := by
  obtain ⟨hlegal, hkeeps, hown⟩ := h
  refine ⟨hlegal, ?_, ?_, ?_⟩
  · cases op with
    | create thread size parent => exact hfits
    | palloc thread pool size => exact ⟨hfits, hoff⟩
    | pcalloc thread pool size => exact ⟨hfits, hoff⟩
    | cleanupAdd thread pool data handler => exact ⟨hoff, hown⟩
    | _ => trivial
  · cases op with
    | addChild parent child => exact hkeeps.elim
    | destroy thread pool => exact hkeeps.elim
    | _ => trivial
  · -- nothing is destroyed
    intro hdestroys
    cases op with
    | destroy thread pool => exact hkeeps.elim
    | _ => exact hdestroys.elim

/-- **Requests up to `SSIZE_MAX` do not wrap**, whatever the size of a page. -/
theorem Op.fits_of_asked (plat : Platform) (h : op.asked ≤ ssizeMax) : op.Fits plat := by
  have hsize : ∀ size, size ≤ ssizeMax → sprAlignAllocation size ≠ 0 →
      sprAlignAllocation size ≤ 2 ^ 63 := by
    intro size hle halign
    obtain ⟨heq, -⟩ := sprAlignAllocation_eq halign
    simp only [ssizeMax] at hle
    omega
  have hslots : ∀ size, size ≤ ssizeMax → SizeFits plat size := fun size hle halign _ =>
    noWrap_of_le (Nat.le_add_right_of_le (hsize size hle halign))
  cases op with
  | create thread size parent =>
    intro halign _
    have hpool := sizeofPool_le plat
    have hle := hsize size h halign
    have hadd : add (sprAlignAllocation size) (sizeofPoolAlign plat)
        = sprAlignAllocation size + sizeofPool plat := by
      rw [sizeofPoolAlign_eq]
      exact add_of_lt (by rw [wordMod_eq]; omega)
    have hpages : NoWrap plat (add (sprAlignAllocation size) (sizeofPoolAlign plat)) :=
      noWrap_of_le (by rw [hadd]; omega)
    have hroom := hpages.pages.2
    rw [createBytes, createPages, mul_of_lt hpages.2]
    omega
  | palloc thread pool size => exact hslots size h
  | pcalloc thread pool size => exact hslots size h
  | _ => trivial

end Calls

/-! ## Section 2: Blocks -/

/-- The memory of the memnode that is handed out, `[begin, begin + size)`. -/
def bodyAt (w : World) (node : Nat) : Span := ⟨w.mem (nodeBegin node), w.mem (nodeSize node)⟩

/-- The memory in front of it: the memnode's fields, and in the first memnode of a pool
    the pool's header and its mutex. -/
def frontAt (w : World) (node : Nat) : Span := ⟨node, w.mem (nodeBegin node) - node⟩

/-- The fields of a memnode agree. -/
structure FieldsOk (w : World) (node : Nat) : Prop where
  front : node + sizeofMemnode ≤ w.mem (nodeBegin node)
  lower : w.mem (nodeBegin node) ≤ w.mem (nodeFirstAvail node)
  total : w.mem (nodeFirstAvail node) + w.mem (nodeSizeAvail node)
    = w.mem (nodeBegin node) + w.mem (nodeSize node)

/-- **The blocks that are held**, that is neither freed nor lost to a clear, are apart,
    aligned and long enough; those of the slot path lie in the body of a memnode. -/
structure Placement (plat : Platform) (s : Session) : Prop where
  apart   : (heldBlocks s.world.log).Pairwise fun b c => Span.Disjoint b.span c.span
  aligned : ∀ b ∈ heldBlocks s.world.log, b.addr % sprAlignSize = 0
  long    : ∀ b ∈ heldBlocks s.world.log, b.size ≤ b.span.len
  inside  : ∀ b ∈ heldBlocks s.world.log, slotIndex plat b.size ≤ sprMaxPoolSlot →
    ∃ m ∈ heldNodes s.world.log, m.1 = b.pool ∧ b.span.Within (bodyAt s.world m.2)
  off     : ∀ b ∈ heldBlocks s.world.log, ∀ m ∈ heldNodes s.world.log,
    (frontAt s.world m.2).Disjoint b.span
  fields  : ∀ m ∈ heldNodes s.world.log, FieldsOk s.world m.2

section Blocks

variable {plat : Platform} {s : Session} {f : Forest Pool}

/-- A memnode that is held, as one of the pool's. -/
theorem Inv.memnode (h : Inv plat s f) {m : Nat × Nat} (hm : m ∈ heldNodes s.world.log) :
    ∃ p ∈ f.toList, p.addr = m.1 ∧ ∃ n ∈ p.nodes, n.addr = m.2 := by
  obtain ⟨p, hp, haddr, ha⟩ := (h.nodes.held m.1 m.2).mp hm
  exact ⟨p, hp, haddr, List.mem_map.mp ha⟩

theorem Inv.fieldsOk (h : Inv plat s f) {m : Nat × Nat} (hm : m ∈ heldNodes s.world.log) :
    FieldsOk s.world m.2 := by
  obtain ⟨p, hp, -, n, hn, heq⟩ := h.memnode hm
  have hpw := h.pools.pool p hp
  have hok := hpw.wf.node n hn
  have hrep := hpw.rep.nodes.node n hn
  rw [← heq]
  constructor
  · rw [nodeBegin, hrep.begin]
    exact hok.header
  · rw [nodeBegin, nodeFirstAvail, hrep.begin, hrep.firstAvail]
    exact hok.lower
  · rw [nodeBegin, nodeFirstAvail, nodeSizeAvail, nodeSize, hrep.begin, hrep.firstAvail,
      hrep.sizeAvail, hrep.size]
    exact hok.total

/-- A block on the slot path lies in a body. -/
theorem Inv.block_inside (h : Inv plat s f) {b : Block} (hb : b ∈ heldBlocks s.world.log)
    (hindex : slotIndex plat b.size ≤ sprMaxPoolSlot) :
    ∃ m ∈ heldNodes s.world.log, m.1 = b.pool ∧ b.span.Within (bodyAt s.world m.2) := by
  cases h.blocks.place b hb with
  | big hbig => exact absurd hindex (Nat.not_le.mpr hbig)
  | slot p hp haddr _ hused _ =>
    have hpw := h.pools.pool p hp
    obtain ⟨n, hn, -, hbody⟩ := hpw.used_within hused
    have hrep := hpw.rep.nodes.node n hn
    have hheld := (h.nodes.held _ _).mpr ⟨p, hp, rfl, List.mem_map_of_mem hn⟩
    refine ⟨(p.addr, n.addr), hheld, haddr, ?_⟩
    rwa [bodyAt, nodeBegin, nodeSize, hrep.begin, hrep.size]

/-- No block lies over what is in front of a body. -/
theorem Inv.block_off (h : Inv plat s f) {b : Block} (hb : b ∈ heldBlocks s.world.log)
    {m : Nat × Nat} (hm : m ∈ heldNodes s.world.log) :
    (frontAt s.world m.2).Disjoint b.span := by
  obtain ⟨p, hp, -, n, hn, heq⟩ := h.memnode hm
  have hpw := h.pools.pool p hp
  have hok := hpw.wf.node n hn
  have hbegin : s.world.mem (nodeBegin m.2) = n.begin := by
    rw [← heq]
    exact (hpw.rep.nodes.node n hn).begin
  have hfront : (frontAt s.world m.2).Within n.region := by
    have hheader := hok.header
    have hupper := hok.upper
    simp only [frontAt, hbegin, Span.Within, Memnode.region]
    omega
  cases h.blocks.place b hb with
  | big _ hlive hnode => exact (h.pools.big_apart (s := b.span) hlive hnode hp hn).mono hfront
  | slot q hq haddr _ hused _ =>
    obtain ⟨k, hk, hregion, hbody⟩ := (h.pools.pool q hq).used_within hused
    rcases Span.eq_or_disjoint h.pools.live.disjoint (hpw.held n hn)
      ((h.pools.pool q hq).held k hk) with hsame | hapart
    · -- the memnode that the block is in: the block comes after the front
      have hnk : n.addr = k.addr := congrArg Span.start hsame
      have hbegin' : s.world.mem (nodeBegin m.2) = k.begin := by
        rw [← heq, hnk]
        exact ((h.pools.pool q hq).rep.nodes.node k hk).begin
      have hheader := hok.header
      simp only [Span.Within, Memnode.body] at hbody
      simp only [frontAt, hbegin', Span.Disjoint]
      omega
    · exact ((hapart.mono hfront).symm.mono hregion).symm

theorem Inv.placement (h : Inv plat s f) : Placement plat s where
  apart   := h.blocks.apart
  aligned := h.blocks.aligned
  long    := fun b hb => (sprAlignAllocation_bounds (h.blocks.size b hb)).1
  inside  := fun _ hb hindex => h.block_inside hb hindex
  off     := fun _ hb _ hm => h.block_off hb hm
  fields  := fun _ hm => h.fieldsOk hm

/-- **Blocks in place**: in every run whose calls cut nothing off memory in which a record
    of the pool lies. -/
theorem blocks_placed (plat : Platform) (s : Session) (h : Reachable plat (fun s op =>
    s.Lawful plat op ∧ op.asked ≤ ssizeMax ∧ s.OffRecords plat op) s) : Placement plat s := by
  have hplain : Reachable plat (Session.Plain plat) s := h.mono fun s op hop =>
    hop.1.plain (op.fits_of_asked plat hop.2.1) hop.2.2
  obtain ⟨f, hinv⟩ := reachable_inv hplain
  exact hinv.placement

/-- A run with a registration, a clear and blocks. -/
theorem blocks_placed_small : ∃ s, (heldBlocks s.world.log).length = 2 ∧ Placement machine s := by
  have hrun : ((session.run machine (fun s op =>
      s.Lawful machine op ∧ op.asked ≤ ssizeMax ∧ s.OffRecords machine op)
      [.create 1 0 0, .palloc 1 65584 1000, .cleanupAdd 1 65584 100 50, .clear 1 65584,
        .palloc 1 65584 100, .pcalloc 1 65584 100000]).any fun s =>
      (heldBlocks s.world.log).length = 2) = true := by decide +kernel
  obtain ⟨s, hs, hfacts⟩ := (Option.any_eq_true _ _).mp hrun
  exact ⟨s, of_decide_eq_true hfacts,
    blocks_placed machine s (reachable_run (.start session initial_session) hs)⟩

/-- A clear keeps two records in reserve, and a block of two bytes is cut off the memory of
    the first, which then leads to the memnode: the second registration after the clear is
    written over the fields of the memnode. -/
theorem blocks_misplaced : ¬ ∀ (plat : Platform) (s : Session), Reachable plat (fun s op =>
    s.Lawful plat op ∧ op.asked ≤ ssizeMax) s → Placement plat s := by
  intro hall
  have hrun : ((session.run machine (fun s op => s.Lawful machine op ∧ op.asked ≤ ssizeMax)
      [.create 1 0 0, .cleanupAdd 1 65584 100 50, .cleanupAdd 1 65584 101 50, .clear 1 65584,
        .pcalloc 1 65584 2, .cleanupAdd 1 65584 102 50, .cleanupAdd 1 65584 5 3]).any fun s =>
      ∃ m ∈ heldNodes s.world.log,
        s.world.mem (nodeFirstAvail m.2) < s.world.mem (nodeBegin m.2)) = true := by
    decide +kernel
  obtain ⟨s, hs, hfacts⟩ := (Option.any_eq_true _ _).mp hrun
  obtain ⟨m, hm, hless⟩ := of_decide_eq_true hfacts
  have hplaced := hall machine s (reachable_run (.start session initial_session) hs)
  exact absurd (hplaced.fields m hm).lower (Nat.not_le.mpr hless)

end Blocks

end Spr.MemPool
