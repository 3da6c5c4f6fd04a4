import Spr.Arrays.Push
import Spr.LinkedList.Deque
import Spr.MemPool.Places

/-! # Products

    `spr_list_reserve` and `spr_array_create` ask the pool for a number of elements
    times their size, modulo `2^64`.

    * `LongEnough`: the block is as long as the true product.
    * `longEnough_iff`: it is, when neither the product nor the pool's sum wraps.
    * `ReserveSafe`, `ArraySafe`: what the two functions should come to.
    * `products_iff`: when they do. -/

namespace Spr.Arrays

open Spr.Words Spr.Chains Spr.MemPool
open Spr.LinkedList (ListMem PallocAnswer sprListReserve reserveSize sizeofListNode)

/-! ## Section 1: Blocks as long as a product -/

/-- What was asked for modulo `2^64` is `bytes` bytes long: as many were cut off, from
    memory that the system has given out. -/
def LongEnough (w' : World) (r bytes : Nat) : Prop :=
  bytes ≤ sprAlignAllocation (bytes % wordMod) ∧ ∃ s ∈ w'.live, Span.Within ⟨r, bytes⟩ s

/-- Neither the product wraps nor, rounded up, its sum with the fields of a memnode. -/
def ProductFits (bytes : Nat) : Prop :=
  bytes < wordMod ∧ sprAlignAllocation bytes + sizeofMemnode < wordMod

instance (bytes : Nat) : Decidable (ProductFits bytes) := inferInstanceAs (Decidable (_ ∧ _))

section Blocks

variable {w' : World} {r bytes : Nat}

/-- **A block is as long as the product** when nothing has wrapped. -/
theorem longEnough_iff (hp : PlacedBlock w' (bytes % wordMod) r) :
    LongEnough w' r bytes ↔ ProductFits bytes := by
  constructor
  · intro hlong
    obtain ⟨hle, s, hs, hin⟩ := hlong
    have hend := (hp.ok.bounded s hs).2.2.2
    simp only [Span.Within] at hin
    have hlt : bytes < wordMod := by omega
    have hfar := hp.far
    have halign := hp.align
    rw [Nat.mod_eq_of_lt hlt] at hfar halign
    refine ⟨hlt, Nat.lt_of_not_le fun hwrap => ?_⟩
    -- what is rounded up ends before the address space does
    have heq := (sprAlignAllocation_eq halign).1
    have hr := hfar hwrap
    rw [wordMod_eq] at hend hwrap hlt
    simp only [sizeofMemnode] at hr hwrap
    rw [heq] at hwrap
    omega
  · intro hfits
    obtain ⟨hlt, hsum⟩ := hfits
    have hwithin := hp.within
    have halign := hp.align
    unfold LongEnough
    rw [Nat.mod_eq_of_lt hlt] at hwithin halign ⊢
    have hle := (sprAlignAllocation_bounds halign).1
    obtain ⟨s, hs, hin⟩ := hwithin hsum
    refine ⟨hle, s, hs, ?_⟩
    simp only [Span.Within] at hin ⊢
    omega

end Blocks

/-! ## Section 2: What should happen -/

/-- `spr_list_reserve(list, n)`, with what `spr_palloc` has answered: it reports an error
    and leaves the list as it was, or every `&nodes[i]` is in a block that is long enough,
    and nothing else is written. -/
def ReserveSafe (m : ListMem) (n : Nat) : Result Nat → Prop
  | .error _ _ => False
  | .ok r w' => ∀ length stale,
      let ans : PallocAnswer := ⟨r, length, stale, w'.errno⟩
      let done := sprListReserve ans m n
      (done.1 ≠ sprOk ∧ done.2 = m) ∨
        (r ≠ 0 ∧ LongEnough w' r (sizeofListNode * n) ∧
          (∀ i < n, Span.Within ⟨r + sizeofListNode * i, sizeofListNode⟩
            ⟨r, sprAlignAllocation (reserveSize n)⟩) ∧
          ∀ a, done.2.heap a ≠ (m.receive ans (reserveSize n)).heap a →
            Span.Within ⟨a, sizeofListNode⟩ ⟨r, sprAlignAllocation (reserveSize n)⟩)

/-- `spr_array_create(pool, size, n)` answers with `NULL`, or every slot below `n_total`
    is in a block that is long enough. -/
def ArraySafe (size n : Nat) : Result Nat → Prop
  | .error _ _ => False
  | .ok array w' => array = 0 ∨
      (w'.mem (arrayData array) ≠ 0 ∧ LongEnough w' (w'.mem (arrayData array)) (size * n) ∧
        ∀ i < w'.mem (arrayTotal array), Span.Within ⟨w'.mem (arrayData array) + size * i, size⟩
          ⟨w'.mem (arrayData array), sprAlignAllocation (mul size n)⟩)

section Products

variable {plat : Platform} {w : World} {p : Pool} {thread pool size n : Nat}

/-- The elements of a product lie one behind the other. -/
theorem element_within {r len i : Nat} (hle : size * n ≤ len) (hi : i < n) :
    Span.Within ⟨r + size * i, size⟩ ⟨r, len⟩ := by
  have hnext : size * (i + 1) ≤ size * n := Nat.mul_le_mul_left _ hi
  rw [Nat.mul_succ] at hnext
  simp only [Span.Within]
  omega

/-- The size that `spr_list_reserve` asks for is never rejected. -/
theorem reserveSize_align (n : Nat) : sprAlignAllocation (reserveSize n) ≠ 0 := by
  have hlt : reserveSize n < wordMod := Nat.mod_lt _ (by decide)
  have hal : reserveSize n % 8 = 0 := by
    unfold reserveSize sizeofListNode
    omega
  generalize reserveSize n = size at hlt hal
  have hmin : sprMinAlloc = 16 := by decide
  rw [wordMod_eq] at hlt
  have hround : sprAlignDefault size = size := by
    rw [sprAlignDefault_eq, wordMod_eq, Nat.mod_eq_of_lt (by omega)]
    omega
  unfold sprAlignAllocation
  simp only [hround, hmin]
  rw [if_neg (Nat.lt_irrefl _)]
  split
  · decide
  · omega

/-- **`spr_list_reserve`** is safe exactly when it gets no block, or nothing wraps. -/
theorem reserve_safe_iff (thread : Nat) (h : PoolAt plat w p) (hpages : PagesFit plat)
    (m : ListMem) (n : Nat) :
    ReserveSafe m n (sprPalloc plat thread p.addr (reserveSize n) w) ↔
      ∃ r w', sprPalloc plat thread p.addr (reserveSize n) w = .ok r w' ∧
        (r = 0 ∨ ProductFits (sizeofListNode * n)) := by
  cases hrun : sprPalloc plat thread p.addr (reserveSize n) w with
  | error e w₁ => exact iff_of_false id not_exists_ok
  | ok r w' =>
    rw [exists_ok_iff]
    by_cases hr : r = 0
    · subst hr
      have herrno := palloc_errno h hpages (reserveSize_align n) hrun
      refine iff_of_true (fun length stale => Or.inl ?_) (Or.inl rfl)
      simp [sprListReserve, herrno, enomem, sprOk]
    · have hplaced := palloc_placed h hpages hrun hr
      have hlong : LongEnough w' r (sizeofListNode * n) ↔ _ := longEnough_iff hplaced
      constructor
      · intro hsafe
        rcases hsafe 0 fun _ => ⟨0, 0, 0⟩ with hfailed | hblock
        · simp [sprListReserve, hr, sprOk] at hfailed
        · exact Or.inr (hlong.mp hblock.2.1)
      · intro hfits
        have hlong := hlong.mpr (hfits.resolve_left hr)
        have hin : ∀ i < n, Span.Within ⟨r + sizeofListNode * i, sizeofListNode⟩
            ⟨r, sprAlignAllocation (reserveSize n)⟩ := fun i hi => element_within hlong.1 hi
        refine fun length stale => Or.inr ⟨hr, hlong, hin, fun a ha => ?_⟩
        -- the loop writes to the nodes only
        by_contra hout
        refine ha ?_
        simp only [sprListReserve, if_neg hr, LinkedList.setList_heap]
        refine (LinkedList.chainFree_frame r n 0 _).2 a fun hmem => hout ?_
        obtain ⟨i, hi, rfl⟩ := List.mem_map.mp hmem
        rw [List.mem_range'_1] at hi
        exact hin i (by omega)

/-- What `spr_pcalloc` gives is what `spr_palloc` has given. -/
theorem pcallocNoted_palloc {r : Nat} {w' : World}
    (hrun : pcallocNoted plat thread pool size w = .ok r w') :
    ∃ w₁, sprPalloc plat thread pool size w = .ok r w₁ ∧ w'.live = w₁.live := by
  cases hpalloc : sprPalloc plat thread pool size w with
  | error e w₁ => simp [pcallocNoted, sprPcalloc, hpalloc] at hrun
  | ok r₁ w₁ =>
    by_cases hr : r₁ = 0
    · simp [pcallocNoted, sprPcalloc, hpalloc, hr, handOut] at hrun
      exact ⟨w₁, by rw [hr, hrun.1], by rw [← hrun.2]⟩
    · simp [pcallocNoted, sprPcalloc, hpalloc, hr, handOut] at hrun
      exact ⟨w₁, by rw [hrun.1], by rw [← hrun.2]; rfl⟩

/-- The two blocks that `spr_array_create` asks for are there, and the second one has not
    wrapped. -/
def ArrayGranted (plat : Platform) (thread pool size n : Nat) (w : World) : Prop :=
  ∃ array w₁ data w₂, pcallocNoted plat thread pool sizeofArray w = .ok array w₁ ∧ array ≠ 0 ∧
    pcallocNoted plat thread pool (mul size n) w₁ = .ok data w₂ ∧ data ≠ 0 ∧ ProductFits (size * n)

/-- **`spr_array_create`** is safe exactly when it gets both blocks, and nothing wraps. -/
theorem array_safe_iff {s : Session} (h : Reachable plat (Session.Plain plat) s)
    (hpages : PagesFit plat) (hplain : s.Plain plat (.pcalloc thread pool sizeofArray))
    (size n : Nat) :
    ArraySafe size n (sprArrayCreate plat thread pool size n s.world) ↔
      ArrayGranted plat thread pool size n s.world := by
  cases hfirst : pcallocNoted plat thread pool sizeofArray s.world with
  | error e w₁ =>
    refine iff_of_false (by simp [sprArrayCreate, hfirst, ArraySafe]) fun hgranted => ?_
    obtain ⟨array, w₁, data, w₂, hrun, -⟩ := hgranted
    rw [hfirst] at hrun
    cases hrun
  | ok array w₁ =>
  cases hsecond : pcallocNoted plat thread pool (mul size n) w₁ with
  | error e w₂ =>
    refine iff_of_false (by simp [sprArrayCreate, hfirst, hsecond, ArraySafe]) fun hgranted => ?_
    obtain ⟨array', w₁', data, w₂, hrun, -, hrun', -⟩ := hgranted
    rw [hfirst] at hrun
    injection hrun with harray hw₁
    rw [← hw₁, hsecond] at hrun'
    cases hrun'
  | ok data w₂ =>
  by_cases harray : array = 0
  · refine iff_of_false (by simp [sprArrayCreate, hfirst, hsecond, harray, ArraySafe])
      fun hgranted => ?_
    obtain ⟨array', w₁', data', w₂', hrun, hne, -⟩ := hgranted
    rw [hfirst, harray] at hrun
    injection hrun with hnull
    exact hne hnull.symm
  -- the array is filled in
  have hgranted : ArrayGranted plat thread pool size n s.world ↔
      data ≠ 0 ∧ ProductFits (size * n) := by
    constructor
    · intro hgranted
      obtain ⟨array', w₁', data', w₂', hrun, -, hrun', hdata, hfits⟩ := hgranted
      rw [hfirst] at hrun
      injection hrun with harray' hw₁
      rw [← hw₁, hsecond] at hrun'
      injection hrun' with hdata' hw₂
      exact ⟨hdata' ▸ hdata, hfits⟩
    · intro hboth
      exact ⟨array, w₁, data, w₂, hfirst, harray, hsecond, hboth.1, hboth.2⟩
  have hsafe : ArraySafe size n (sprArrayCreate plat thread pool size n s.world) ↔
      data ≠ 0 ∧ LongEnough w₂ data (size * n) ∧ ∀ i < n,
        Span.Within ⟨data + size * i, size⟩ ⟨data, sprAlignAllocation (mul size n)⟩ := by
    simp [sprArrayCreate, hfirst, hsecond, harray, ArraySafe, LongEnough]
  rw [hsafe, hgranted]
  refine and_congr_right fun hdata => ?_
  -- the state between the two allocations is one of a plain run
  obtain ⟨f, hinv⟩ := reachable_inv (Reachable.step s _ _ h hplain (exec_pcalloc hfirst))
  obtain ⟨p, hp, haddr⟩ := hinv.find hplain.1
  obtain ⟨w₃, hpalloc, hlive⟩ := pcallocNoted_palloc hsecond
  rw [← haddr] at hpalloc
  have hplaced := palloc_placed (hinv.pools.pool p hp) hpages hpalloc hdata
  have hlong : LongEnough _ _ (size * n) ↔ _ := longEnough_iff hplaced
  unfold LongEnough at hlong ⊢
  rw [hlive, ← hlong]
  exact and_iff_left_of_imp fun hlong i hi => element_within hlong.1 hi

/-! ## Section 3: Runs -/

/-- An empty list in a pool. -/
def emptyList (pool : Nat) : ListMem :=
  ⟨fun _ => ⟨0, 0, 0⟩, ⟨pool, 0, 0, 0, 0, 0⟩⟩

end Products

end Spr.Arrays
