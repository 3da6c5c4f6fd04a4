import Spr.MemPool.Accounts
import Spr.MemPool.Refusals

/-! # The search of `spr_palloc`

    The search starts at the slot of the request, as the memnodes of lower slots
    are too small for it: all but those that the request would fill up to the
    page boundary.

    * `HasRoom`, `MissesNothing`: what a search of all slots would find.
    * `reachable_sized`: the memnodes have the sizes of their slots.
    * `hasRoom_below`: a memnode of a lower slot has room at a page boundary only.
    * `misses_nothing_iff`: so nothing else is missed. -/

namespace Spr.MemPool

open Spr.Words Spr.Chains Spr.Forests

/-! ## Section 1: Room -/

/-- A memnode of the slot has room for `k` bytes. -/
def HasRoom (w : World) (pool k j : Nat) : Prop :=
  ∃ n ∈ walk w.mem 0 addressSpace (w.mem (poolNodes pool j)), k ≤ w.mem (nodeSizeAvail n)

instance (w : World) (pool k j : Nat) : Decidable (HasRoom w pool k j) :=
  inferInstanceAs (Decidable (∃ n ∈ _, _))

/-- `spr_palloc` returns and has obtained a memnode only when none in any slot has room,
    and its search finds one whenever a search of all slots would. -/
def MissesNothing (plat : Platform) (thread : Nat) (w : World) (pool size : Nat) : Prop :=
  (∃ r w', sprPalloc plat thread pool size w = .ok r w' ∧ (w'.live ≠ w.live →
    ∀ j < sprMaxPoolSlot, ¬ HasRoom w pool (sprAlignAllocation size) j)) ∧
  ((∃ j < sprMaxPoolSlot, HasRoom w pool (sprAlignAllocation size) j) →
    ∃ node, searchSlots w.mem pool (sprAlignAllocation size) (slotIndex plat size)
      (sprMaxPoolSlot - slotIndex plat size) = some node ∧ node ≠ 0)

/-- The request and the memnode's fields end at a page boundary, a memnode of exactly
    these pages has room, and no larger one has. -/
def AtBoundary (plat : Platform) (w : World) (pool size : Nat) : Prop :=
  sprAlignAllocation size + sizeofMemnode = slotIndex plat size * plat.pageSize ∧
    HasRoom w pool (sprAlignAllocation size) (slotIndex plat size - 1) ∧
    ∀ j < sprMaxPoolSlot, slotIndex plat size ≤ j → ¬ HasRoom w pool (sprAlignAllocation size) j

instance (plat : Platform) (w : World) (pool size : Nat) :
    Decidable (AtBoundary plat w pool size) := inferInstanceAs (Decidable (_ ∧ _ ∧ _))

section Room

variable {plat : Platform} {w : World} {p : Pool} {k j index : Nat}

theorem hasRoom_iff (h : PoolAt plat w p) (hj : j < sprMaxPoolSlot) :
    HasRoom w p.addr k j ↔ ∃ n ∈ p.slots j, k ≤ n.sizeAvail := by
  unfold HasRoom
  rw [walk_slot h hj]
  constructor
  · intro hroom
    obtain ⟨a, ha, hle⟩ := hroom
    obtain ⟨n, hn, rfl⟩ := List.mem_map.mp ha
    rw [nodeSizeAvail, (h.rep.nodes.node n (Pool.mem_nodes_of_slot hj hn)).sizeAvail] at hle
    exact ⟨n, hn, hle⟩
  · intro hroom
    obtain ⟨n, hn, hle⟩ := hroom
    refine ⟨n.addr, List.mem_map_of_mem hn, ?_⟩
    rwa [nodeSizeAvail, (h.rep.nodes.node n (Pool.mem_nodes_of_slot hj hn)).sizeAvail]

theorem firstFit_none {ns : List Memnode} :
    firstFit k ns = none ↔ ∀ n ∈ ns, ¬ k ≤ n.sizeAvail := by
  simp [firstFit]

/-- The search from a slot on finds nothing where no memnode has room. -/
theorem fromSlot_none_iff (h : PoolAt plat w p) :
    firstFit k (p.fromSlot index) = none ↔
      ∀ j < sprMaxPoolSlot, index ≤ j → ¬ HasRoom w p.addr k j := by
  rw [firstFit_none]
  constructor
  · intro hnone j hj hle hroom
    obtain ⟨n, hn, hfits⟩ := (hasRoom_iff h hj).mp hroom
    refine hnone n (List.mem_flatMap.mpr ⟨j, ?_, hn⟩) hfits
    rw [List.mem_range'_1]
    omega
  · intro hnone n hn hfits
    obtain ⟨j, hj, hn⟩ := List.mem_flatMap.mp hn
    rw [List.mem_range'_1] at hj
    have hlt : j < sprMaxPoolSlot := by omega
    exact hnone j hlt hj.1 ((hasRoom_iff h hlt).mpr ⟨n, hn, hfits⟩)

/-- The search ends, and it finds a memnode unless none from the slot on has room. -/
theorem searchSlots_found (h : PoolAt plat w p) (hindex : index ≤ sprMaxPoolSlot) :
    ∃ node, searchSlots w.mem p.addr k index (sprMaxPoolSlot - index) = some node ∧
      (node = 0 ↔ firstFit k (p.fromSlot index) = none) := by
  have hsearch : searchSlots w.mem p.addr k index (sprMaxPoolSlot - index)
      = some (addrOf (firstFit k (p.fromSlot index))) := searchSlots_spec h k (by omega)
  refine ⟨_, hsearch, ?_⟩
  cases hfit : firstFit k (p.fromSlot index) with
  | none => exact ⟨fun _ => rfl, fun _ => rfl⟩
  | some n =>
    have hne := (h.wf.node n (Pool.fromSlot_nodes (firstFit_some hfit).1)).ne_null
    exact ⟨fun hnull => absurd hnull hne, fun hnone => by cases hnone⟩

end Room

/-! ## Section 2: The sizes of memnodes -/

section Sizes

variable {plat : Platform} {s : Session} {f : Forest Pool} {p : Pool}

/-- One call keeps the sizes. -/
theorem Sized.fate {op : Op} {before after : Nat → List Nat} {p' : Pool}
    (hold : ∀ p ∈ f.toList, Sized plat p) (hfate : Fate plat f op before after p') :
    Sized plat p' := by
  cases hfate with
  | changed p p' hp hcut =>
    cases hcut with
    | none hshelf hcuts => exact (hold p hp).shelf hshelf
    | piece k index q hcut hshelf hfits hindex hcuts =>
      exact ((hold p hp).cut hfits hcut).shelf hshelf
  | made thread size parent a q hop hindex hcuts => exact sized_made plat thread size a q
  | cleared p hp hcuts => exact (hold p hp).clear

/-- **The memnodes have the sizes of their slots** in every plain run. -/
theorem reachable_sized (h : Reachable plat (Session.Plain plat) s) :
    ∃ f, Inv plat s f ∧ ∀ p ∈ f.toList, Sized plat p := by
  refine reachable_rule (P := fun _ f => ∀ p ∈ f.toList, Sized plat p) admits_plain
    (fun s _ p hp => (List.not_mem_nil hp).elim) (fun s f op s' f' hinv hp hop _ hs hinv' => ?_) h
  exact fun p' hp' => Sized.fate hp (step_fate hinv hinv' hop.2.1 hs p' hp')

/-- A memnode has no more than its size, less its fields. -/
theorem NodeOk.avail_le {n : Memnode} (h : NodeOk n) :
    n.sizeAvail + sizeofMemnode ≤ n.deallocSize := by
  have hheader := h.header
  have hlower := h.lower
  have htotal := h.total
  have hupper := h.upper
  omega

/-- The pages below the slot of a request are not enough for it. -/
theorem slotIndex_pages (size : Nat) (hpos : 0 < slotIndex plat size) :
    slotIndex plat size * plat.pageSize ≤ sprAlignAllocation size + sizeofMemnode := by
  have htotal : add (sprAlignAllocation size) sizeofMemnodeAlign
      ≤ sprAlignAllocation size + sizeofMemnode := Nat.mod_le _ _
  unfold slotIndex sprGetNpages at hpos ⊢
  simp only at hpos ⊢
  split at hpos
  · exact absurd hpos (Nat.lt_irrefl 0)
  · rename_i hlarge
    rw [if_neg hlarge, Nat.add_sub_cancel]
    exact (Nat.div_mul_le_self _ _).trans htotal

/-- **A memnode below the slot of the request** has room only if the request fills it to
    the last byte. -/
theorem hasRoom_below {w : World} {size j : Nat} (h : PoolAt plat w p) (hsized : Sized plat p)
    (hj : j < sprMaxPoolSlot) (hlow : j < slotIndex plat size)
    (hroom : HasRoom w p.addr (sprAlignAllocation size) j) :
    j + 1 = slotIndex plat size ∧
      sprAlignAllocation size + sizeofMemnode = slotIndex plat size * plat.pageSize := by
  obtain ⟨n, hn, hfits⟩ := (hasRoom_iff h hj).mp hroom
  have havail := (h.wf.node n (Pool.mem_nodes_of_slot hj hn)).avail_le
  have hsize : n.deallocSize ≤ (j + 1) * plat.pageSize := by
    rw [hsized j hj n hn, Nat.mul_comm (j + 1)]
    exact Nat.mod_le _ _
  have hpages := slotIndex_pages size (Nat.lt_of_le_of_lt (Nat.zero_le j) hlow)
  have hle : (j + 1) * plat.pageSize ≤ slotIndex plat size * plat.pageSize :=
    Nat.mul_le_mul_right _ hlow
  -- the bounds leave room for one value only
  have heq : (j + 1) * plat.pageSize = slotIndex plat size * plat.pageSize := by omega
  exact ⟨Nat.eq_of_mul_eq_mul_right plat.page_pos heq, by omega⟩

end Sizes

/-! ## Section 3: What the search misses -/

section Misses

variable {plat : Platform} {w : World} {p : Pool} {size : Nat}

/-- The slot path returns, and has obtained memory only when its search found nothing. -/
theorem palloc_obtains (thread : Nat) (h : PoolAt plat w p)
    (hpages : PagesFit plat) (halign : sprAlignAllocation size ≠ 0)
    (hindex : slotIndex plat size ≤ sprMaxPoolSlot) :
    ∃ r w', sprPalloc plat thread p.addr size w = .ok r w' ∧ (w'.live ≠ w.live →
      firstFit (sprAlignAllocation size) (p.fromSlot (slotIndex plat size)) = none) := by
  obtain ⟨r, w', hrun, hout⟩ := sprPalloc_outcome thread h hpages halign hindex
  refine ⟨r, w', hrun, fun hlive => ?_⟩
  cases hout with
  | found _ n hfit hsame => exact absurd hsame hlive
  | refused _ hfit hno hmem hsame herrno => exact hfit
  | fresh _ a hfit ha hgrant hsame => exact hfit

/-- **The search misses nothing** but a memnode that the request would fill exactly. -/
theorem misses_iff (thread : Nat) (h : PoolAt plat w p) (hsized : Sized plat p)
    (hpages : PagesFit plat) (halign : sprAlignAllocation size ≠ 0)
    (hindex : slotIndex plat size ≤ sprMaxPoolSlot) :
    MissesNothing plat thread w p.addr size ↔ ¬ AtBoundary plat w p.addr size := by
  obtain ⟨node, hsearch, hfound⟩ := searchSlots_found (k := sprAlignAllocation size) h hindex
  have hnull := hfound.trans (fromSlot_none_iff h)
  constructor
  · intro hall hedge
    obtain ⟨hend, hroom, hnone⟩ := hedge
    -- slot 0 has no slot below it
    have hpos : 0 < slotIndex plat size := by
      apply Nat.pos_of_ne_zero
      intro hzero
      rw [hzero, Nat.zero_mul, sizeofMemnode] at hend
      omega
    obtain ⟨node', hsearch', hne⟩ := hall.2 ⟨slotIndex plat size - 1, by omega, hroom⟩
    rw [hsearch] at hsearch'
    exact hne (Option.some.inj hsearch' ▸ hnull.mpr hnone)
  · intro hno
    -- where the search finds nothing, no slot at all has room
    have hfar : (∀ j < sprMaxPoolSlot, slotIndex plat size ≤ j →
        ¬ HasRoom w p.addr (sprAlignAllocation size) j) →
        ∀ j < sprMaxPoolSlot, ¬ HasRoom w p.addr (sprAlignAllocation size) j := by
      intro hnone j hj hroom
      by_cases hlow : slotIndex plat size ≤ j
      · exact hnone j hj hlow hroom
      · -- a memnode below the slot of the request is the case at the boundary
        obtain ⟨hnext, hend⟩ := hasRoom_below h hsized hj (Nat.lt_of_not_le hlow) hroom
        refine hno ⟨hend, ?_, hnone⟩
        rwa [← hnext, Nat.add_sub_cancel]
    obtain ⟨r, w', hrun, hobtains⟩ := palloc_obtains thread h hpages halign hindex
    refine ⟨⟨r, w', hrun, fun hlive => hfar ((fromSlot_none_iff h).mp (hobtains hlive))⟩,
      fun hsome => ⟨node, hsearch, fun hzero => ?_⟩⟩
    obtain ⟨j, hj, hroom⟩ := hsome
    exact hfar (hnull.mp hzero) j hj hroom

/-- **The search of `spr_palloc` misses nothing**, except at a page boundary. -/
theorem misses_nothing_iff {s : Session} (h : Reachable plat (Session.Plain plat) s)
    (hpages : PagesFit plat) {pool : Nat} (hpool : pool ∈ s.addrs) (thread size : Nat)
    (halign : sprAlignAllocation size ≠ 0) (hindex : slotIndex plat size ≤ sprMaxPoolSlot) :
    MissesNothing plat thread s.world pool size ↔ ¬ AtBoundary plat s.world pool size := by
  obtain ⟨f, hinv, hsized⟩ := reachable_sized h
  obtain ⟨p, hp, rfl⟩ := hinv.find hpool
  exact misses_iff thread (hinv.pools.pool p hp) (hsized p hp) hpages halign hindex

/-- A request of 100 bytes. -/
theorem misses_nothing_iff_small : ∃ (s : Session) (pool : Nat), pool ∈ s.addrs ∧
    MissesNothing machine 1 s.world pool 100 := by
  have hrun : ((session.run machine (Session.Plain machine) [.create 1 0 0]).any fun s =>
      65584 ∈ s.addrs ∧ ¬ AtBoundary machine s.world 65584 100) = true := by decide +kernel
  obtain ⟨s, hs, hfacts⟩ := (Option.any_eq_true _ _).mp hrun
  obtain ⟨hpool, hno⟩ := of_decide_eq_true hfacts
  have hreach := reachable_run (.start session initial_session) hs
  exact ⟨s, 65584, hpool,
    (misses_nothing_iff hreach (by decide) hpool 1 100 (by decide) (by decide)).mpr hno⟩

/-- The first memnode that `spr_palloc` obtains is whole again after the clear. A request
    for all of it goes to the next slot, and obtains two pages. -/
theorem boundary_missed : ¬ ∀ (plat : Platform) (s : Session) (thread pool size : Nat),
    Reachable plat (Session.Plain plat) s → pool ∈ s.addrs → sprAlignAllocation size ≠ 0 →
    slotIndex plat size ≤ sprMaxPoolSlot → MissesNothing plat thread s.world pool size := by
  intro hall
  have hrun : ((session.run machine (Session.Plain machine)
      [.create 1 0 0, .palloc 1 65584 4000, .clear 1 65584]).any fun s =>
      65584 ∈ s.addrs ∧ HasRoom s.world 65584 (sprAlignAllocation 4048) 0 ∧
        (match sprPalloc machine 1 65584 4048 s.world with
          | .ok _ w' => decide (w'.live ≠ s.world.live)
          | .error _ _ => false) = true) = true := by decide +kernel
  obtain ⟨s, hs, hfacts⟩ := (Option.any_eq_true _ _).mp hrun
  obtain ⟨hpool, hroom, hobtains⟩ := of_decide_eq_true hfacts
  have hmisses := hall machine s 1 65584 4048 (reachable_run (.start session initial_session) hs)
    hpool (by decide) (by decide)
  obtain ⟨r, w', hpalloc, hfar⟩ := hmisses.1
  rw [hpalloc] at hobtains
  exact hfar (of_decide_eq_true hobtains) 0 (by decide) hroom

end Misses

end Spr.MemPool
