import Spr.Framework.Bytes
import Spr.MemPool.Contents

/-! # Arrays

    `src/lib/spr_array.c`: an array of `n` items of `size` bytes each, in two
    blocks of a pool.

    * `sprArrayCreate`, `sprArrayPush`, `sprArrayClear`: the functions of the source.
    * `Pushes`: the runs of pushes on one array.
    * `PushesOk`: what the pushes of a run are to do.
    * `pushes_iff`: they do when there are none, or no room for one. -/

namespace Spr.Arrays

open Spr.Words Spr.MemPool

/-! ## Section 1: `spr_array.c` -/

section Fields

-- `spr_array_t`
@[simp] abbrev arrayData (array : Nat) : Nat := array
@[simp] abbrev arraySize (array : Nat) : Nat := array + 8
@[simp] abbrev arrayTotal (array : Nat) : Nat := array + 16
@[simp] abbrev arrayCurrent (array : Nat) : Nat := array + 24

end Fields

/-- `sizeof(spr_array_t)` -/
def sizeofArray : Nat := 32

/-- `spr_array_create(pool, size, n)` -/
def sprArrayCreate (plat : Platform) (thread pool size n : Nat) : Act Nat := do
  let array ← pcallocNoted plat thread pool sizeofArray
  let data ← pcallocNoted plat thread pool (mul size n)
  -- neither block is checked; the first is written to
  if array = 0 then stop .null
  else do
    store (arraySize array) size
    store (arrayTotal array) n
    store (arrayData array) data
    pure array

/-- A copy that has been made. -/
structure Copy where
  dst : Nat
  src : Nat
  len : Nat
  deriving DecidableEq

/-- `spr_memmove(dst, src, len)`.  Address 0 is memory like any other here: a copy to `NULL`
    is a write there, where the machine stops the program. -/
def sprMemmove (dst src len : Nat) : Act Unit :=
  modify fun w => { w with mem := moved w.mem dst src len }

/-- `spr_array_push(array, data)`; the second result is what it has copied. -/
def sprArrayPush (array data : Nat) : Act (Int × List Copy) := do
  if (← load (arrayCurrent array)) ≥ (← load (arrayTotal array)) then pure (sprFailed, [])
  else do
    let mem := add (← load (arrayData array))
      (mul (← load (arrayCurrent array)) (← load (arraySize array)))
    let len ← load (arraySize array)
    sprMemmove mem data len
    store (arraySize array) (add (← load (arraySize array)) 1)
    pure (sprOk, [⟨mem, data, len⟩])

/-- `spr_array_clear(array)` -/
def sprArrayClear (array : Nat) : Act Unit := do
  store (arrayCurrent array) 0
  store (arrayData array) 0

/-! ## Section 2: Runs of pushes -/

/-- A push: the item, the world it is made in, what it returns and what it leaves. -/
structure Push where
  item   : Nat
  before : World
  ret    : Int
  copies : List Copy
  after  : World

/-- The array at `array` and its block are as they were. -/
structure Untouched (array : Nat) (block : Span) (w w' : World) : Prop where
  fields : ∀ a, array ≤ a → a < array + sizeofArray → w'.mem a = w.mem a
  items  : ∀ a, block.Covers a → byteAt w'.mem a = byteAt w.mem a

theorem Untouched.refl {array : Nat} {block : Span} (w : World) : Untouched array block w w :=
  ⟨fun _ _ _ => rfl, fun _ _ => rfl⟩

theorem Untouched.trans {array : Nat} {block : Span} {w w₁ w₂ : World}
    (h : Untouched array block w w₁) (h₁ : Untouched array block w₁ w₂) :
    Untouched array block w w₂ :=
  ⟨fun a hlo hhi => (h₁.fields a hlo hhi).trans (h.fields a hlo hhi),
    fun a ha => (h₁.items a ha).trans (h.items a ha)⟩

/-- **The runs of pushes** on an array, from one world to another.  Between two pushes
    anything may happen, but not to the array. -/
inductive Pushes (array : Nat) (block : Span) : World → List Push → World → Prop where
  | done (w : World) : Pushes array block w [] w
  | push (w w₁ w₂ w' : World) (item : Nat) (ret : Int) (copies : List Copy) (ps : List Push)
      (huntouched : Untouched array block w w₁)
      (hrun : sprArrayPush array item w₁ = .ok (ret, copies) w₂)
      (hrest : Pushes array block w₂ ps w') :
      Pushes array block w (⟨item, w₁, ret, copies, w₂⟩ :: ps) w'

/-- How many of the pushes have pushed their item. -/
def pushed (ps : List Push) : Nat := (ps.filter fun p => p.ret = sprOk).length

/-- What the pushes on an array of `n` items of `size` bytes are to do. -/
structure PushesOk (array : Nat) (block : Span) (size n : Nat) (ps : List Push) (w' : World) :
    Prop where
  /-- A push succeeds while there is room, and else changes nothing. -/
  ret : ∀ i p, ps[i]? = some p →
    if pushed (ps.take i) < n then p.ret = sprOk else p.ret = sprFailed ∧ p.after = p.before
  /-- The items are counted. -/
  counted : w'.mem (arrayCurrent array) = min ps.length n
  sizeKept : w'.mem (arraySize array) = size
  totalKept : w'.mem (arrayTotal array) = n
  /-- The items are stored one behind the other. -/
  stored : ∀ i p, ps[i]? = some p → i < n → ∀ j < size,
    byteAt w'.mem (block.start + i * size + j) = byteAt p.before.mem (p.item + j)
  /-- A push reads its item, and writes to the block only. -/
  copied : ∀ p ∈ ps, p.ret = sprOk →
    ∃ dst, p.copies = [⟨dst, p.item, size⟩] ∧ Span.Within ⟨dst, size⟩ block

/-! ## Section 3: A new array -/

/-- What the fields of an array hold, and that its block lies elsewhere. -/
structure ArrayAt (w : World) (array data size n current bytes : Nat) : Prop where
  dataIs    : w.mem (arrayData array) = data
  sizeIs    : w.mem (arraySize array) = size
  totalIs   : w.mem (arrayTotal array) = n
  currentIs : w.mem (arrayCurrent array) = current
  apart     : Span.Disjoint ⟨array, sizeofArray⟩ ⟨data, bytes⟩
  bounded   : data + bytes < wordMod

theorem ArrayAt.untouched {w w' : World} {array data size n current bytes : Nat} {block : Span}
    (h : ArrayAt w array data size n current bytes) (hu : Untouched array block w w') :
    ArrayAt w' array data size n current bytes := by
  have hf := hu.fields
  simp only [sizeofArray] at hf
  refine ⟨?_, ?_, ?_, ?_, h.apart, h.bounded⟩
  · exact (hf _ (by simp) (by simp)).trans h.dataIs
  · exact (hf _ (by simp) (by simp)).trans h.sizeIs
  · exact (hf _ (by simp) (by simp)).trans h.totalIs
  · exact (hf _ (by simp) (by simp)).trans h.currentIs

/-- The two allocations of a creation are plain. -/
structure CreatePlain (plat : Platform) (s : Session) (thread pool size n : Nat) : Prop where
  array : s.Plain plat (.pcalloc thread pool sizeofArray)
  data  : ∀ s', s.exec plat (.pcalloc thread pool sizeofArray) = some s' →
    s'.Plain plat (.pcalloc thread pool (mul size n))

section Create

variable {plat : Platform} {s : Session} {thread pool size n array : Nat} {w : World}

/-- **A new array** is empty, and its block lies elsewhere. -/
theorem sprArrayCreate_spec (h : Reachable plat (Session.Plain plat) s)
    (hplain : CreatePlain plat s thread pool size n)
    (hrun : sprArrayCreate plat thread pool size n s.world = .ok array w)
    (hdata : w.mem (arrayData array) ≠ 0) :
    ArrayAt w array (w.mem (arrayData array)) size n 0 (mul size n) := by
  cases hfirst : pcallocNoted plat thread pool sizeofArray s.world with
  | error e w₁ => simp [sprArrayCreate, hfirst] at hrun
  | ok a w₁ =>
  cases hsecond : pcallocNoted plat thread pool (mul size n) w₁ with
  | error e w₂ => simp [sprArrayCreate, hfirst, hsecond] at hrun
  | ok d w₂ =>
  by_cases ha : a = 0
  · simp [sprArrayCreate, hfirst, hsecond, ha] at hrun
  simp only [sprArrayCreate, bind_run, hfirst, hsecond, if_neg ha, store_run, pure_run,
    EStateM.Result.ok.injEq] at hrun
  obtain ⟨rfl, rfl⟩ := hrun
  simp only [arrayData, store_mem, Function.update_self] at hdata ⊢
  -- the blocks are held, and apart
  obtain ⟨f, hinv⟩ := reachable_inv h
  obtain ⟨-, hzero⟩ := hinv.pcalloc_keeps hplain.array hfirst
  obtain ⟨hheld, hzero⟩ := hzero ha
  have hexec := exec_pcalloc hfirst
  have hreach := Reachable.step s _ _ h hplain.array hexec
  obtain ⟨f₁, hinv₁⟩ := reachable_inv hreach
  have hplain₁ := hplain.data _ hexec
  obtain ⟨hkeeps, hnew⟩ := hinv₁.pcalloc_keeps hplain₁ hsecond
  obtain ⟨hheld₁, -⟩ := hnew hdata
  obtain ⟨f₂, hinv₂⟩ := reachable_inv (Reachable.step _ _ _ hreach hplain₁ (exec_pcalloc hsecond))
  have hblocks : heldBlocks w₂.log = ⟨pool, d, mul size n⟩ :: ⟨pool, a, sizeofArray⟩ ::
      heldBlocks s.world.log := by
    rw [hheld₁, hheld]
  have hsize : sizeofArray ≤ sprAlignAllocation sizeofArray := by decide
  have hitems : mul size n ≤ sprAlignAllocation (mul size n) := by
    have hnz := hinv₂.blocks.size ⟨pool, d, mul size n⟩ (by rw [hblocks]; exact List.mem_cons_self)
    exact (sprAlignAllocation_bounds hnz).1
  have hcurrent : w₂.mem (a + 24) = 0 := by
    rw [hkeeps ⟨pool, a, sizeofArray⟩ (by rw [hheld]; exact List.mem_cons_self) (a + 24) ?_]
    · exact hzero _ (by omega) (by simp only [sizeofArray]; omega)
    · simp only [Span.Covers, Block.span, sizeofArray] at hsize ⊢
      omega
  refine ⟨by simp, by simp, by simp, by simpa using hcurrent, ?_, ?_⟩
  · have hpair := hinv₂.blocks.apart
    rw [hblocks] at hpair
    have hdis := (List.pairwise_cons.mp hpair).1 _ List.mem_cons_self
    simp only [Span.Disjoint, Block.span] at hdis ⊢
    omega
  · obtain ⟨region, hregion, hin⟩ := (hinv₂.blocks.place ⟨pool, d, mul size n⟩
      (by rw [hblocks]; exact List.mem_cons_self)).in_live hinv₂.pools
    have := (hinv₂.pools.live.bounded region hregion).2.2.2
    simp only [Span.Within, Block.span] at hin
    omega

end Create

/-! ## Section 4: Pushes -/

section Push

variable {w w' : World} {array data size n bytes item : Nat} {block : Span} {ps : List Push}

/-- **A push on an empty array** copies the item to the front of the block, and counts
    it in the field of the item's size. -/
theorem sprArrayPush_empty (h : ArrayAt w array data size n 0 bytes) (hn : 0 < n)
    (hsize : size ≤ bytes) (item : Nat) :
    ∃ w', sprArrayPush array item w = .ok (sprOk, [⟨data, item, size⟩]) w' ∧
      ArrayAt w' array data (add size 1) n 0 bytes := by
  obtain ⟨h₁, h₂, h₃, h₄, h₅, h₆⟩ := h
  have hdst : add data (mul 0 size) = data := by
    rw [mul, Nat.zero_mul, Nat.zero_mod]
    exact add_of_lt (by omega)
  have hword : ∀ j, j + 8 ≤ sizeofArray → moved w.mem data item size (array + j)
      = w.mem (array + j) := by
    intro j hj
    refine moved_of_apart ?_
    simp only [Span.Disjoint] at h₅ ⊢
    omega
  have h0 := hword 0 (by decide)
  have h8 := hword 8 (by decide)
  have h16 := hword 16 (by decide)
  have h24 := hword 24 (by decide)
  rw [Nat.add_zero] at h0
  simp only [arrayData, arraySize, arrayTotal, arrayCurrent] at *
  refine ⟨_, by simp [sprArrayPush, sprMemmove, h₁, h₂, h₃, h₄, hn.ne', hdst]; rfl, ?_, ?_, ?_, ?_,
    h₅, h₆⟩
  · simp [h0, h₁]
  · simp [h8, h₂]
  · simp [h16, h₃]
  · simp [h24, h₄]

/-- A push on an array without room changes nothing. -/
theorem sprArrayPush_full (htotal : w.mem (arrayTotal array) = 0) (item : Nat) :
    sprArrayPush array item w = .ok (sprFailed, []) w := by
  simp only [arrayTotal] at htotal
  simp [sprArrayPush, htotal]

/-- Without room, all pushes fail. -/
theorem pushes_full (hrun : Pushes array block w ps w') (htotal : w.mem (arrayTotal array) = 0) :
    Untouched array block w w' ∧
      ∀ p ∈ ps, p.ret = sprFailed ∧ p.copies = [] ∧ p.after = p.before := by
  induction hrun with
  | done w => exact ⟨.refl w, fun p hp => (List.not_mem_nil hp).elim⟩
  | push w w₁ w₂ w' item ret copies ps huntouched hrun hrest ih =>
    have htotal₁ : w₁.mem (arrayTotal array) = 0 :=
      (huntouched.fields _ (by simp) (by simp [sizeofArray])).trans htotal
    rw [sprArrayPush_full htotal₁] at hrun
    injection hrun with hres hworld
    injection hres with hret hcopies
    subst hret hcopies hworld
    obtain ⟨hlast, hall⟩ := ih htotal₁
    refine ⟨huntouched.trans hlast, fun p hp => ?_⟩
    rcases List.mem_cons.mp hp with rfl | hp
    · exact ⟨rfl, rfl, rfl⟩
    · exact hall p hp

/-- With room, the first push spoils the array. -/
theorem pushes_spoil (hrun : Pushes array block w ps w') (h : ArrayAt w array data size n 0 bytes)
    (hn : 0 < n) (hbytes : bytes = size * n) (hps : ps ≠ []) :
    ¬ PushesOk array block size n ps w' := by
  intro hok
  have hle : size ≤ bytes := by
    rw [hbytes]
    exact Nat.le_mul_of_pos_right size hn
  cases hrun with
  | done => exact hps rfl
  | push _ w₁ w₂ _ item ret copies ps huntouched hpush hrest =>
    obtain ⟨w₂', hpush', h₂⟩ := sprArrayPush_empty (h.untouched huntouched) hn hle item
    rw [hpush] at hpush'
    injection hpush' with _ hworld
    subst hworld
    cases hrest with
    | done =>
      -- the item has not been counted
      have hcurrent := hok.counted
      rw [h₂.currentIs, List.length_singleton] at hcurrent
      omega
    | push _ w₃ w₄ _ item' ret' copies' ps huntouched' hpush' hrest =>
      -- the next push copies a byte too many
      have h₃ := h₂.untouched huntouched'
      have hcopies : ret' = sprOk ∧ ∃ dst, copies' = [⟨dst, item', add size 1⟩] := by
        simp only [sprArrayPush, bind_run, load_run, ite_run, h₃.currentIs, h₃.totalIs,
          if_neg (Nat.not_le.mpr hn), sprMemmove, modify_run, store_run, pure_run, h₃.sizeIs,
          EStateM.Result.ok.injEq, Prod.mk.injEq] at hpush'
        exact ⟨hpush'.1.1.symm, _, hpush'.1.2.symm⟩
      obtain ⟨hret, dst, hcopies⟩ := hcopies
      obtain ⟨dst', heq, -⟩ := hok.copied ⟨item', w₃, ret', copies', w₄⟩ (by simp) hret
      simp only [hcopies, List.cons.injEq, Copy.mk.injEq, and_true, true_and] at heq
      have hlen := heq.2
      have hbound := h.bounded
      unfold add at hlen
      rw [wordMod_eq] at *
      omega

/-- **The pushes on an array** do what they are to do when there are none, or no room
    for one. -/
theorem pushes_iff (plat : Platform) (s : Session) (thread pool size n array : Nat) (w : World)
    (ps : List Push) (w' : World) (h : Reachable plat (Session.Plain plat) s)
    (hplain : CreatePlain plat s thread pool size n) (hfits : size * n < wordMod)
    (hcreate : sprArrayCreate plat thread pool size n s.world = .ok array w)
    (hdata : w.mem (arrayData array) ≠ 0)
    (hrun : Pushes array ⟨w.mem (arrayData array), size * n⟩ w ps w') :
    PushesOk array ⟨w.mem (arrayData array), size * n⟩ size n ps w' ↔ ps = [] ∨ n = 0 := by
  have harray := sprArrayCreate_spec h hplain hcreate hdata
  rw [mul_of_lt hfits] at harray
  constructor
  · intro hok
    by_contra hnone
    rw [not_or] at hnone
    exact pushes_spoil hrun harray (Nat.pos_of_ne_zero hnone.2) rfl hnone.1 hok
  · rintro (rfl | rfl)
    · cases hrun
      exact ⟨fun i p hp => by simp at hp, by simpa using harray.currentIs, harray.sizeIs,
        harray.totalIs, fun i p hp => by simp at hp, fun p hp => (List.not_mem_nil hp).elim⟩
    · obtain ⟨hkept, hall⟩ := pushes_full hrun harray.totalIs
      have hlast := harray.untouched hkept
      refine ⟨fun i p hp => ?_, by simpa using hlast.currentIs, hlast.sizeIs, hlast.totalIs,
        fun i p _ hi => absurd hi (Nat.not_lt_zero i), fun p hp hret => ?_⟩
      · rw [if_neg (Nat.not_lt_zero _)]
        obtain ⟨hret, -, hsame⟩ := hall p (List.mem_of_getElem? hp)
        exact ⟨hret, hsame⟩
      · rw [(hall p hp).1] at hret
        exact absurd hret (by decide)

end Push

/-! ## Section 5: One push -/

/-- An item of four bytes is pushed on an array of two, in the first pool. -/
theorem one_push : ∃ s array w p w', Reachable machine (Session.Plain machine) s ∧
    CreatePlain machine s 1 65584 4 2 ∧
    sprArrayCreate machine 1 65584 4 2 s.world = .ok array w ∧ w.mem (arrayData array) ≠ 0 ∧
    Pushes array ⟨w.mem (arrayData array), 4 * 2⟩ w [p] w' := by
  have hrun : ((session.run machine (Session.Plain machine) [.create 1 0 0]).any fun s =>
      s.Plain machine (.pcalloc 1 65584 sizeofArray) ∧
        ((s.exec machine (.pcalloc 1 65584 sizeofArray)).all fun s' =>
          s'.Plain machine (.pcalloc 1 65584 (mul 4 2))) = true ∧
        (match sprArrayCreate machine 1 65584 4 2 s.world with
          | .ok array w => decide (w.mem (arrayData array) ≠ 0)
          | .error _ _ => false) = true) = true := by decide +kernel
  obtain ⟨s, hs, hfacts⟩ := (Option.any_eq_true _ _).mp hrun
  obtain ⟨hfirst, hsecond, hcreated⟩ := of_decide_eq_true hfacts
  have hreach := reachable_run (.start session initial_session) hs
  have hplain : CreatePlain machine s 1 65584 4 2 := by
    refine ⟨hfirst, fun s' hs' => ?_⟩
    rw [hs', Option.all_some] at hsecond
    exact of_decide_eq_true hsecond
  cases hcreate : sprArrayCreate machine 1 65584 4 2 s.world with
  | error e w => rw [hcreate] at hcreated; cases hcreated
  | ok array w =>
    rw [hcreate] at hcreated
    have hdata := of_decide_eq_true hcreated
    obtain ⟨w', hpush, -⟩ := sprArrayPush_empty
      (sprArrayCreate_spec hreach hplain hcreate hdata) (by decide) (by decide) 8000
    exact ⟨s, array, w, _, w', hreach, hplain, hcreate, hdata,
      .push w w w' w' 8000 _ _ [] (.refl w) hpush (.done w')⟩

/-- The push is not what it is to be. -/
theorem pushes_iff_one : ∃ (s : Session) (array : Nat) (w : World) (p : Push) (w' : World),
    sprArrayCreate machine 1 65584 4 2 s.world = .ok array w ∧
    Pushes array ⟨w.mem (arrayData array), 4 * 2⟩ w [p] w' ∧
    ¬ PushesOk array ⟨w.mem (arrayData array), 4 * 2⟩ 4 2 [p] w' := by
  obtain ⟨s, array, w, p, w', hreach, hplain, hcreate, hdata, hrun⟩ := one_push
  refine ⟨s, array, w, p, w', hcreate, hrun, fun hok => ?_⟩
  have hiff := pushes_iff machine s 1 65584 4 2 array w [p] w' hreach hplain (by decide) hcreate
    hdata hrun
  rcases hiff.mp hok with h | h
  · cases h
  · cases h

/-- **A push does not count its item.** -/
theorem pushes_uncounted : ¬ ∀ (plat : Platform) (s : Session) (thread pool size n array : Nat)
    (w : World) (ps : List Push) (w' : World), Reachable plat (Session.Plain plat) s →
    CreatePlain plat s thread pool size n → size * n < wordMod →
    sprArrayCreate plat thread pool size n s.world = .ok array w → w.mem (arrayData array) ≠ 0 →
    Pushes array ⟨w.mem (arrayData array), size * n⟩ w ps w' →
    PushesOk array ⟨w.mem (arrayData array), size * n⟩ size n ps w' := by
  intro hall
  obtain ⟨s, array, w, p, w', hreach, hplain, hcreate, hdata, hrun⟩ := one_push
  exact pushes_spoil hrun (sprArrayCreate_spec hreach hplain hcreate hdata) (by decide)
    rfl (List.cons_ne_nil _ _) (hall machine s 1 65584 4 2 array w [p] w' hreach hplain (by decide)
      hcreate hdata hrun)

end Spr.Arrays
