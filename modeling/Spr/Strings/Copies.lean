import Spr.Strings.Search
import Spr.Arrays.Products

/-! # Copies of strings

    `spr_pstrdup`, `spr_pstrndup` and `spr_pstrcat1` of `src/lib/spr_string.c`, which copy
    into a block of a pool.

    * `Copied`: the block of a call, and the stores into it.
    * `ConcatSafe`, `NdupSafe`: what `spr_pstrcat1` and `spr_pstrndup` should come to.
    * `pstrcat1_concat`: the two passes of `spr_pstrcat1` agree.
    * `pstrcat1_iff`, `pstrndup_iff`: when the two come to what they should. -/

namespace Spr.Strings

open Spr.Buffers Spr.Words Spr.MemPool
open Spr.Arrays (LongEnough ProductFits longEnough_iff)

/-! ## Section 1: The functions -/

/-- A block, `NULL` when the pool has given none, and the stores into it, oldest first. -/
structure Copied where
  mem    : Nat
  stores : List Store
  deriving DecidableEq

/-- `spr_pstrdup(pool, str)`; there is no result when it reads behind the object. -/
def sprPstrdup (plat : Platform) (thread pool : Nat) (str : List UInt8) :
    Act (Option Copied) :=
  match sprStrlen str with
  | none => pure none
  | some length => do
      -- the terminator is copied with the string
      let len := add length 1
      let mem ← sprPalloc plat thread pool len
      if mem = 0 then pure (some ⟨0, []⟩)
      else pure ((firstBytes str len).map fun bytes => ⟨mem, copyAt 0 bytes⟩)

/-- `spr_pstrndup(pool, str, n)`; there is no result when it reads behind the object. -/
def sprPstrndup (plat : Platform) (thread pool : Nat) (str : List UInt8) (n : UInt64) :
    Act (Option Copied) := do
  let mem ← sprPalloc plat thread pool (add n.toNat 1)
  if mem = 0 then pure (some ⟨0, []⟩)
  else pure ((firstBytes str n.toNat).map fun bytes =>
    ⟨mem, copyAt 0 bytes ++ [(n.toNat, 0)]⟩)

/-- The first pass of `spr_pstrcat1`: `len` is the length so far. -/
def lengthPass : List (List UInt8) → Nat → Option Nat
  | [], len => some len
  | argv :: args, len => do
      let more ← sprStrlen argv
      lengthPass args (add len more)

/-- The second pass: the stores, and how far `pos` gets into the block. -/
def copyPass : List (List UInt8) → Nat → Option (List Store × Nat)
  | [], pos => some ([], pos)
  | argv :: args, pos => do
      -- measured again, not kept from the first pass
      let len ← sprStrlen argv
      let bytes ← firstBytes argv len
      let (stores, last) ← copyPass args (pos + len)
      some (copyAt pos bytes ++ stores, last)

/-- `spr_pstrcat1(pool, args..., NULL)`: the copy, and how far `pos` has got. -/
def sprPstrcat1 (plat : Platform) (thread pool : Nat) (args : List (List UInt8)) :
    Act (Option (Copied × Nat)) :=
  match lengthPass args 0 with
  | none => pure none
  | some len => do
      let str ← sprPalloc plat thread pool (add len 1)
      if str = 0 then pure (some (⟨0, []⟩, 0))
      else pure ((copyPass args 0).map fun copies => (⟨str, (len, 0) :: copies.1⟩, copies.2))

/-- A short string. -/
def letters (bytes : List UInt8) (hnz : (0 : UInt8) ∉ bytes) (hlen : bytes.length < 100) :
    CString wordMod where
  bytes := bytes
  nonzero := hnz
  fits := by
    rw [wordMod_eq]
    omega

/-! ## Section 2: Concatenation -/

section Concat

variable {space : Nat}

/-- The strings one behind the other. -/
def concat (args : List (CString space)) : List UInt8 := (args.map CString.bytes).flatten

@[simp] theorem concat_nil : concat ([] : List (CString space)) = [] := rfl

@[simp] theorem concat_cons (s : CString space) (args : List (CString space)) :
    concat (s :: args) = s.bytes ++ concat args := by
  simp [concat]

/-- **The first pass** adds up the lengths, by induction on the strings. -/
theorem lengthPass_run (args : List (CString space)) (len : Nat)
    (h : len + (concat args).length < wordMod) :
    lengthPass (args.map CString.object) len = some (len + (concat args).length) := by
  induction args generalizing len with
  | nil => rfl
  | cons s args ih =>
    rw [concat_cons, List.length_append] at h ⊢
    rw [List.map_cons, lengthPass, sprStrlen_object]
    simp only [Option.bind_eq_bind, Option.bind_some]
    rw [add_of_lt (by omega), ih _ (by omega), Nat.add_assoc]

/-- **The second pass** is one copy of the strings put together, from where it begins: the
    invariant is that `pos` is as far as the strings so far are long. -/
theorem copyPass_run (args : List (CString space)) (pos : Nat) :
    copyPass (args.map CString.object) pos
      = some (copyAt pos (concat args), pos + (concat args).length) := by
  induction args generalizing pos with
  | nil => rfl
  | cons s args ih =>
    rw [List.map_cons, copyPass, sprStrlen_object]
    simp only [Option.bind_eq_bind, Option.bind_some, ih,
      CString.firstBytes_object (Nat.le_refl _), List.take_length]
    rw [concat_cons, copyAt_append, List.length_append, Nat.add_assoc]

/-- `spr_pstrcat1`, given what the pool answers. -/
theorem sprPstrcat1_run (plat : Platform) (thread pool : Nat) (args : List (CString wordMod))
    (hsum : (concat args).length + 1 < wordMod) (w : World) :
    sprPstrcat1 plat thread pool (args.map CString.object) w
      = match sprPalloc plat thread pool ((concat args).length + 1) w with
        | .ok str w' =>
            if str = 0 then .ok (some (⟨0, []⟩, 0)) w'
            else .ok (some (⟨str, ((concat args).length, 0) :: copyAt 0 (concat args)⟩,
              (concat args).length)) w'
        | .error e w' => .error e w' := by
  unfold sprPstrcat1
  rw [lengthPass_run args 0 (by omega)]
  simp only [Nat.zero_add, add_of_lt hsum, bind_run, ite_run, pure_run, copyPass_run,
    Option.map_some]
  cases sprPalloc plat thread pool ((concat args).length + 1) w <;> rfl

/-- **`spr_pstrcat1`** asks for one byte more than the strings have.  With `NULL` it stores
    nothing; else it stores to each byte of what it has asked for once, to no other byte,
    leaves the strings one behind the other and a NUL, and `pos` ends on that NUL. -/
theorem pstrcat1_concat (args : List (CString wordMod))
    (hsum : (concat args).length + 1 < wordMod) :
    ∃ stores, ((stores.map Prod.fst).Perm (List.range ((concat args).length + 1))) ∧
      Fills stores (concat args ++ [0]) ∧
      ∀ (plat : Platform) (thread pool : Nat) (w : World),
        sprPstrcat1 plat thread pool (args.map CString.object) w
          = match sprPalloc plat thread pool ((concat args).length + 1) w with
            | .ok str w' =>
                if str = 0 then .ok (some (⟨0, []⟩, 0)) w'
                else .ok (some (⟨str, stores⟩, (concat args).length)) w'
            | .error e w' => .error e w' := by
  refine ⟨((concat args).length, 0) :: copyAt 0 (concat args), ?_, ?_, ?_⟩
  · rw [List.map_cons, copyAt_offsets, ← List.range_eq_range', List.range_succ]
    exact (List.perm_append_singleton _ _).symm
  · exact fills_end_first (concat args) 0
  · intro plat thread pool w
    exact sprPstrcat1_run plat thread pool args hsum w

/-- `spr_pstrcat1` answers with `NULL` and stores nothing, or with a block as long as the
    strings and a NUL: it stores to each byte of that once and to no other byte, leaves the
    strings one behind the other and the NUL, and `pos` ends on that NUL. -/
def ConcatSafe (args : List (CString wordMod)) : Result (Option (Copied × Nat)) → Prop
  | .error _ _ => False
  | .ok none _ => False
  | .ok (some (copied, pos)) w' =>
      (copied.mem = 0 ∧ copied.stores = []) ∨
        (copied.mem ≠ 0 ∧ LongEnough w' copied.mem ((concat args).length + 1) ∧
          ((copied.stores.map Prod.fst).Perm (List.range ((concat args).length + 1))) ∧
          Fills copied.stores (concat args ++ [0]) ∧ pos = (concat args).length)

section Safe

variable {plat : Platform} {w : World} {p : Pool} {pool : Nat}

/-- **`spr_pstrcat1`** is safe exactly when it gets no block, or nothing wraps. -/
theorem concat_safe_iff (thread : Nat) (h : PoolAt plat w p) (hpages : PagesFit plat)
    (args : List (CString wordMod)) (hsum : (concat args).length + 1 < wordMod) :
    ConcatSafe args (sprPstrcat1 plat thread p.addr (args.map CString.object) w) ↔
      ∃ r w', sprPalloc plat thread p.addr ((concat args).length + 1) w = .ok r w' ∧
        (r = 0 ∨ ProductFits ((concat args).length + 1)) := by
  obtain ⟨stores, hperm, hfills, hrun⟩ := pstrcat1_concat args hsum
  rw [hrun]
  cases hpalloc : sprPalloc plat thread p.addr ((concat args).length + 1) w with
  | error e w₁ => exact iff_of_false id not_exists_ok
  | ok r w' =>
    rw [exists_ok_iff]
    dsimp only
    by_cases hr : r = 0
    · rw [if_pos hr]
      exact iff_of_true (Or.inl ⟨rfl, rfl⟩) (Or.inl hr)
    rw [if_neg hr]
    -- the block is long enough exactly when the pool's sum has not wrapped
    have hplaced := palloc_placed h hpages hpalloc hr
    rw [← Nat.mod_eq_of_lt hsum] at hplaced
    have hlong : LongEnough w' r ((concat args).length + 1) ↔
        ProductFits ((concat args).length + 1) := longEnough_iff hplaced
    constructor
    · intro hsafe
      rcases hsafe with hnull | hblock
      · exact absurd hnull.1 hr
      · exact Or.inr (hlong.mp hblock.2.1)
    · intro hfits
      exact Or.inr ⟨hr, hlong.mpr (hfits.resolve_left hr), hperm, hfills, rfl⟩

/-- **`spr_pstrcat1`** in a plain run: it is safe exactly when the pool has no block for it,
    or when the pool's sum for it does not wrap. -/
theorem pstrcat1_iff {st : Session} (h : Reachable plat (Session.Plain plat) st)
    (hpages : PagesFit plat) (hpool : pool ∈ st.addrs) (thread : Nat)
    (args : List (CString wordMod)) (hsum : (concat args).length + 1 < wordMod) :
    ConcatSafe args (sprPstrcat1 plat thread pool (args.map CString.object) st.world) ↔
      ∃ r w', sprPalloc plat thread pool ((concat args).length + 1) st.world = .ok r w' ∧
        (r = 0 ∨ ProductFits ((concat args).length + 1)) := by
  obtain ⟨f, hinv⟩ := reachable_inv h
  obtain ⟨p, hp, rfl⟩ := hinv.find hpool
  exact concat_safe_iff thread (hinv.pools.pool p hp) hpages args hsum

end Safe

end Concat

/-- Two strings with an empty one between them, in the first pool of a run. -/
theorem pstrcat1_iff_three : ∃ s : Session, Reachable machine (Session.Plain machine) s ∧
    ConcatSafe [letters [97, 98] (by decide) (by decide), letters [] (by decide) (by decide),
        letters [99] (by decide) (by decide)]
      (sprPstrcat1 machine 1 65584 [[97, 98, 0], [0], [99, 0]] s.world) := by
  have hrun : ((session.run machine (Session.Plain machine) [.create 1 0 0]).any fun s =>
      65584 ∈ s.addrs ∧
        (match sprPalloc machine 1 65584 4 s.world with
          | .ok _ _ => true
          | .error _ _ => false) = true) = true := by decide +kernel
  obtain ⟨s, hs, hfacts⟩ := (Option.any_eq_true _ _).mp hrun
  obtain ⟨hpool, hblock⟩ := of_decide_eq_true hfacts
  have hreach := reachable_run (.start session initial_session) hs
  refine ⟨s, hreach, (pstrcat1_iff hreach (by decide) hpool 1 _ (by decide)).mpr ?_⟩
  exact exists_ok_of_returns (fun _ => Or.inr (by decide)) hblock

/-- A string of 16 GiB less 16 bytes. -/
def longString : CString wordMod where
  bytes := List.replicate (2 ^ 34 - 16) 0x61
  nonzero h := absurd (List.eq_of_mem_replicate h) (by decide)
  fits := by
    rw [List.length_replicate, wordMod_eq]
    omega

theorem concat_replicate {space : Nat} (k : Nat) (s : CString space) :
    (concat (List.replicate k s)).length = k * s.bytes.length := by
  rw [concat, List.map_replicate, List.length_flatten, List.map_replicate,
    List.sum_replicate_nat]

/-- The long string `2^30 + 1` times over. -/
theorem exists_long_concat :
    ∃ args : List (CString wordMod), (concat args).length + 1 = 18446744073709551601 := by
  refine ⟨List.replicate (2 ^ 30 + 1) longString, ?_⟩
  have hlong : longString.bytes.length = 2 ^ 34 - 16 := List.length_replicate
  rw [concat_replicate, hlong]
  decide

/-- For these strings `2^64 - 15` bytes are asked for, and one page is taken. -/
theorem pstrcat1_wraps : ¬ ∀ (plat : Platform) (st : Session) (thread pool : Nat)
    (args : List (CString wordMod)), Reachable plat (Session.Plain plat) st →
    PagesFit plat → pool ∈ st.addrs → (concat args).length + 1 < wordMod →
    ConcatSafe args (sprPstrcat1 plat thread pool (args.map CString.object) st.world) := by
  intro hall
  have hrun : ((session.run machine (Session.Plain machine) [.create 1 0 0]).any fun s =>
      65584 ∈ s.addrs ∧
        (match sprPalloc machine 1 65584 18446744073709551601 s.world with
          | .ok r _ => decide (r ≠ 0)
          | .error _ _ => false) = true) = true := by decide +kernel
  obtain ⟨s, hs, hfacts⟩ := (Option.any_eq_true _ _).mp hrun
  obtain ⟨hpool, hblock⟩ := of_decide_eq_true hfacts
  have hreach := reachable_run (.start session initial_session) hs
  obtain ⟨f, hinv⟩ := reachable_inv hreach
  obtain ⟨p, hp, haddr⟩ := hinv.find hpool
  obtain ⟨args, htotal⟩ := exists_long_concat
  have hsum : (concat args).length + 1 < wordMod := by
    rw [htotal]
    decide
  have hsafe := hall machine s 1 65584 args hreach (by decide) hpool hsum
  rw [← haddr, concat_safe_iff 1 (hinv.pools.pool p hp) (by decide) _ hsum, htotal] at hsafe
  obtain ⟨r, w', hpalloc, hgranted⟩ := hsafe
  rw [haddr] at hpalloc
  rw [hpalloc] at hblock
  rcases hgranted with hnull | hfits
  · exact absurd hnull (of_decide_eq_true hblock)
  · exact absurd hfits (by decide)

/-! ## Section 3: What `spr_pstrndup` should do -/

/-- The stores leave this string. -/
def HoldsString (stores : List Store) (str : List UInt8) : Prop :=
  (0 : UInt8) ∉ str ∧ Fills stores (str ++ [0])

/-- The copy is the one that `spr_pstrdup` makes of the string, wherever that has the memory
    for it. -/
def LikePstrdup (s : CString wordMod) (stores : List Store) : Prop :=
  ∀ (plat : Platform) (thread pool : Nat) (w w' : World) (copied : Copied),
    sprPstrdup plat thread pool s.object w = .ok (some copied) w' → copied.mem ≠ 0 →
    ∃ str, HoldsString stores str ∧ HoldsString copied.stores str

/-- `spr_pstrndup(pool, str, n)` reads no byte behind the terminator; it answers with `NULL`
    or with a block as long as the `n + 1` bytes it stores to, and leaves the string cut off
    after `n` bytes there. -/
def NdupSafe (s : CString wordMod) (n : UInt64) : Result (Option Copied) → Prop
  | .error _ _ => False
  | .ok none _ => False
  | .ok (some copied) w' =>
      (copied.mem = 0 ∧ copied.stores = []) ∨
        (copied.mem ≠ 0 ∧ LongEnough w' copied.mem (n.toNat + 1) ∧
          Inside (n.toNat + 1) copied.stores ∧
          HoldsString copied.stores (s.bytes.take n.toNat) ∧
          (s.bytes.length ≤ n.toNat → LikePstrdup s copied.stores))

section Ndup

variable {plat : Platform} {w w' : World} {p : Pool} {thread pool : Nat} {s : CString wordMod}
  {n : UInt64}

/-- `spr_pstrdup`, where it gets a block. -/
theorem sprPstrdup_holds {copied : Copied}
    (hrun : sprPstrdup plat thread pool s.object w = .ok (some copied) w')
    (hmem : copied.mem ≠ 0) : HoldsString copied.stores s.bytes := by
  have hfits := s.fits
  have hall : firstBytes s.object (s.bytes.length + 1) = some s.object := by
    rw [firstBytes_of_le (by rw [s.object_length]), ← s.object_length, List.take_length]
  unfold sprPstrdup at hrun
  simp only [sprStrlen_object, bind_run, ite_run, pure_run, add_of_lt hfits, hall,
    Option.map_some] at hrun
  cases hpalloc : sprPalloc plat thread pool (s.bytes.length + 1) w with
  | error e w₁ => simp [hpalloc] at hrun
  | ok r w₁ =>
    by_cases hr : r = 0
    · simp only [hpalloc, if_pos hr, EStateM.Result.ok.injEq, Option.some.injEq] at hrun
      exact absurd (congrArg Copied.mem hrun.1).symm hmem
    · simp only [hpalloc, if_neg hr, EStateM.Result.ok.injEq, Option.some.injEq] at hrun
      rw [← hrun.1]
      exact ⟨s.nonzero, fills_copyAt s.object⟩

/-- The bytes that `spr_pstrndup` copies, with the terminator of the string or without. -/
theorem ndup_holds (hn : n.toNat ≤ s.bytes.length + 1) :
    HoldsString (copyAt 0 (s.object.take n.toNat) ++ [(n.toNat, 0)])
      (s.bytes.take n.toNat) := by
  refine ⟨fun h => s.nonzero (List.mem_of_mem_take h), ?_⟩
  have hlen : (s.object.take n.toNat).length = n.toNat := by
    rw [List.length_take, s.object_length]
    omega
  have hsnoc := (fills_copyAt (s.object.take n.toNat)).snoc 0
  rw [hlen] at hsnoc
  rcases Nat.lt_or_ge s.bytes.length n.toNat with hlt | hge
  · -- the terminator of the string is copied, and another one put behind it
    have hwhole : s.object.take n.toNat = s.bytes ++ [0] := by
      rw [List.take_of_length_le (by rw [s.object_length]; omega)]
      rfl
    rw [hwhole] at hsnoc ⊢
    rw [List.take_of_length_le (by omega)]
    have htake := hsnoc.take (s.bytes ++ [0]).length
    rwa [List.take_left] at htake
  · have hcut : s.object.take n.toNat = s.bytes.take n.toNat := by
      rw [CString.object, List.take_append_of_le_length hge]
    rw [hcut] at hsnoc ⊢
    exact hsnoc

theorem ndup_inside (object : List UInt8) :
    Inside (n.toNat + 1) (copyAt 0 (object.take n.toNat) ++ [(n.toNat, 0)]) := by
  apply inside_append.mpr
  constructor
  · apply inside_copyAt
    rw [List.length_take]
    omega
  · intro store hstore
    rw [List.mem_singleton.mp hstore]
    exact Nat.lt_succ_self _

/-- **`spr_pstrndup`** is safe exactly when it gets no block, or reads no further than the
    terminator and nothing wraps. -/
theorem ndup_safe_iff (thread : Nat) (h : PoolAt plat w p) (hpages : PagesFit plat)
    (s : CString wordMod) (n : UInt64) :
    NdupSafe s n (sprPstrndup plat thread p.addr s.object n w) ↔
      ∃ r w', sprPalloc plat thread p.addr (add n.toNat 1) w = .ok r w' ∧
        (r = 0 ∨ (n.toNat ≤ s.bytes.length + 1 ∧ ProductFits (n.toNat + 1))) := by
  unfold sprPstrndup
  simp only [bind_run, ite_run, pure_run]
  cases hrun : sprPalloc plat thread p.addr (add n.toNat 1) w with
  | error e w₁ => exact iff_of_false id not_exists_ok
  | ok r w' =>
    rw [exists_ok_iff]
    dsimp only
    by_cases hr : r = 0
    · rw [if_pos hr]
      exact iff_of_true (Or.inl ⟨rfl, rfl⟩) (Or.inl hr)
    rw [if_neg hr]
    -- whether the block is long enough depends on the sums alone
    have hlong : LongEnough w' r (n.toNat + 1) ↔ ProductFits (n.toNat + 1) :=
      longEnough_iff (palloc_placed h hpages hrun hr)
    rw [or_iff_right hr]
    by_cases hn : n.toNat ≤ s.bytes.length + 1
    · rw [firstBytes_of_le (by rw [s.object_length]; exact hn), Option.map_some]
      constructor
      · intro hsafe
        rcases hsafe with hnull | hblock
        · exact absurd hnull.1 hr
        · exact ⟨hn, hlong.mp hblock.2.1⟩
      · intro hfits
        refine Or.inr ⟨hr, hlong.mpr hfits.2, ndup_inside _, ndup_holds hn, ?_⟩
        intro hle plat' thread' pool' w₁ w₂ copied hdup hmem
        refine ⟨s.bytes, ?_, sprPstrdup_holds hdup hmem⟩
        have hholds := ndup_holds hn
        rwa [List.take_of_length_le hle] at hholds
    · rw [firstBytes_of_lt (by rw [s.object_length]; omega), Option.map_none]
      exact iff_of_false id fun hfits => hn hfits.1

/-- **`spr_pstrndup`** in a plain run: it is safe exactly when the pool has no block for it,
    or when `n` is at most one more than the string is long, and neither `n + 1` nor the
    pool's sum for it wraps. -/
theorem pstrndup_iff {st : Session} (h : Reachable plat (Session.Plain plat) st)
    (hpages : PagesFit plat) (hpool : pool ∈ st.addrs) (thread : Nat)
    (s : CString wordMod) (n : UInt64) :
    NdupSafe s n (sprPstrndup plat thread pool s.object n st.world) ↔
      ∃ r w', sprPalloc plat thread pool (add n.toNat 1) st.world = .ok r w' ∧
        (r = 0 ∨ (n.toNat ≤ s.bytes.length + 1 ∧ ProductFits (n.toNat + 1))) := by
  obtain ⟨f, hinv⟩ := reachable_inv h
  obtain ⟨p, hp, rfl⟩ := hinv.find hpool
  exact ndup_safe_iff thread (hinv.pools.pool p hp) hpages s n

/-- The first two bytes of three, in the first pool of a run. -/
theorem pstrndup_iff_two : ∃ s : Session, Reachable machine (Session.Plain machine) s ∧
    NdupSafe (letters [97, 98, 99] (by decide) (by decide)) 2
      (sprPstrndup machine 1 65584
        (letters [97, 98, 99] (by decide) (by decide)).object 2 s.world) := by
  have hrun : ((session.run machine (Session.Plain machine) [.create 1 0 0]).any fun s =>
      65584 ∈ s.addrs ∧
        (match sprPalloc machine 1 65584 (add 2 1) s.world with
          | .ok _ _ => true
          | .error _ _ => false) = true) = true := by decide +kernel
  obtain ⟨s, hs, hfacts⟩ := (Option.any_eq_true _ _).mp hrun
  obtain ⟨hpool, hblock⟩ := of_decide_eq_true hfacts
  have hreach := reachable_run (.start session initial_session) hs
  refine ⟨s, hreach, (pstrndup_iff hreach (by decide) hpool 1 _ 2).mpr ?_⟩
  exact exists_ok_of_returns (fun _ => Or.inr (by decide)) hblock

/-- Two bytes more than the string is long: the copy reads behind the terminator. -/
theorem pstrndup_reads_behind : ¬ ∀ (plat : Platform) (st : Session) (thread pool : Nat)
    (s : CString wordMod) (n : UInt64), Reachable plat (Session.Plain plat) st →
    PagesFit plat → pool ∈ st.addrs →
    NdupSafe s n (sprPstrndup plat thread pool s.object n st.world) := by
  intro hall
  have hrun : ((session.run machine (Session.Plain machine) [.create 1 0 0]).any fun s =>
      65584 ∈ s.addrs ∧
        (match sprPstrndup machine 1 65584 [97, 0] 3 s.world with
          | .ok none _ => true
          | _ => false) = true) = true := by decide +kernel
  obtain ⟨s, hs, hfacts⟩ := (Option.any_eq_true _ _).mp hrun
  obtain ⟨hpool, hread⟩ := of_decide_eq_true hfacts
  have hsafe := hall machine s 1 65584 (letters [97] (by decide) (by decide)) 3
    (reachable_run (.start session initial_session) hs) (by decide) hpool
  have hobject : (letters [97] (by decide) (by decide)).object = [97, 0] := rfl
  rw [hobject] at hsafe
  cases hndup : sprPstrndup machine 1 65584 [97, 0] 3 s.world with
  | error e w' =>
    rw [hndup] at hsafe
    exact hsafe
  | ok copied w' =>
    cases copied with
    | none =>
      rw [hndup] at hsafe
      exact hsafe
    | some copied =>
      rw [hndup] at hread
      cases hread

end Ndup

end Spr.Strings
