import Spr.MemPool.Loops

/-! # The sizes of a pool

    * `wordSum`: a sum modulo `2^64`.
    * `sumSlots_spec`: what the loops over the slots add up.
    * `getSize_eq`, `getFreeSize_eq`, `getTotalSize_eq`: the three functions. -/

namespace Spr.MemPool

open Spr.Words Spr.Chains

/-- The sum modulo `2^64`. -/
def wordSum (start : Nat) (l : List Nat) : Nat := l.foldl add start

/-- A sum that does not wrap is the sum. -/
theorem wordSum_eq {l : List Nat} : ∀ {start : Nat}, start + l.sum < wordMod →
    wordSum start l = start + l.sum := by
  induction l with
  | nil => intro start _; rfl
  | cons a l ih =>
    intro start h
    rw [List.sum_cons] at h ⊢
    show wordSum (add start a) l = _
    rw [add_of_lt (by omega), ih (by omega), Nat.add_assoc]

theorem sumChain_spec {mem : Mem} (amount : Nat → Nat) {addrs : List Nat} :
    ∀ {start fuel : Nat} (size : Nat), Chain mem 0 start addrs → addrs.length < fuel →
      sumChain mem amount fuel size start = some (wordSum size (addrs.map amount)) := by
  induction addrs with
  | nil =>
    intro start fuel size hchain hfuel
    obtain ⟨fuel, rfl⟩ : ∃ f, fuel = f + 1 := ⟨fuel - 1, by simp at hfuel; omega⟩
    rw [sumChain, if_pos (show start = 0 from hchain)]
    rfl
  | cons a addrs ih =>
    intro start fuel size hchain hfuel
    obtain ⟨fuel, rfl⟩ : ∃ f, fuel = f + 1 := ⟨fuel - 1, by simp at hfuel; omega⟩
    obtain ⟨rfl, hne, hrest⟩ := hchain
    rw [sumChain, if_neg hne, ih _ hrest (by simpa using hfuel)]
    rfl

section Sizes

variable {plat : Platform} {w : World} {p : Pool}

/-- **The loops over the slots** add up the amounts of the memnodes. -/
theorem sumSlots_spec (h : PoolAt plat w p) (amount : Nat → Nat → Nat) {n : Nat} :
    ∀ {i size : Nat}, i + n ≤ sprMaxPoolSlot →
      sumSlots w.mem p.addr amount i n size = some (wordSum size
        ((List.range' i n).flatMap fun j => (p.slots j).map fun m => amount j m.addr)) := by
  induction n with
  | zero => intro i size _; rfl
  | succ n ih =>
    intro i size hi
    have hslot : i < sprMaxPoolSlot := by omega
    have hsum := sumChain_spec (amount i) size (h.rep.nodes.slot i hslot)
      (show ((p.slots i).map Memnode.addr).length < addressSpace by
        rw [List.length_map]
        exact h.slot_length hslot)
    rw [sumSlots, poolNodes, hsum]
    simp only
    rw [ih (by omega), List.range'_succ, List.flatMap_cons, wordSum, wordSum, wordSum,
      List.foldl_append, List.map_map]
    rfl

/-- What each memnode of the slots has of something, in the order of the search. -/
theorem slots_amount (amount : Nat → Nat) (field : Memnode → Nat)
    (hfield : ∀ n ∈ p.nodes, amount n.addr = field n) :
    ((List.range' 0 sprMaxPoolSlot).flatMap fun j => (p.slots j).map fun m => amount m.addr)
      = (p.fromSlot 0).map field := by
  rw [Pool.fromSlot, List.map_flatMap]
  refine List.flatMap_congr fun j hj => List.map_congr_left fun m hm => hfield m ?_
  rw [List.mem_range'_1] at hj
  exact Pool.mem_nodes_of_slot (by omega) hm

/-- **`spr_pool_get_size`.** -/
theorem getSize_eq (h : PoolAt plat w p) :
    sprPoolGetSize w.mem p.addr = some (wordSum 0 ((p.fromSlot 0).map Memnode.size)) := by
  rw [sprPoolGetSize, sumSlots_spec h _ (Nat.le_refl _),
    slots_amount (fun a => w.mem (nodeSize a)) Memnode.size
      fun n hn => (h.rep.nodes.node n hn).size]

/-- **`spr_pool_get_free_size`.** -/
theorem getFreeSize_eq (h : PoolAt plat w p) :
    sprPoolGetFreeSize w.mem p.addr = some (wordSum 0 ((p.fromSlot 0).map Memnode.sizeAvail)) := by
  rw [sprPoolGetFreeSize, sumSlots_spec h _ (Nat.le_refl _),
    slots_amount (fun a => w.mem (nodeSizeAvail a)) Memnode.sizeAvail fun n hn =>
      (h.rep.nodes.node n hn).sizeAvail]

/-- **`spr_pool_get_total_size`.** -/
theorem getTotalSize_eq (h : PoolAt plat w p) :
    sprPoolGetTotalSize plat w.mem p.addr = some (wordSum 0
      ((List.range' 0 sprMaxPoolSlot).flatMap fun j =>
        (p.slots j).map fun _ => mul plat.pageSize (j + 1))) := by
  rw [sprPoolGetTotalSize, sumSlots_spec h _ (Nat.le_refl _)]

end Sizes

end Spr.MemPool
