import Spr.Framework.Bytes
import Spr.MemPool.Owners
import Spr.Strings.Copies

/-! # Strings in pools

    The functions of `src/lib/spr_string.c` that measure and copy, on strings that lie
    in blocks of pools.

    * `sprStrlenAt`, `sprPstrdupAt`, `sprPstrndupAt`, `sprPstrcat1At`: the functions.
    * `Text`: a string as its owner knows it.
    * `CopyOf`: what a copy comes to, given what the pool answers.
    * `TextSession`, `TextEvent`: strings and pools side by side.
    * `strings_stay`, `copies_return`: strings stay, and copies are strings. -/

namespace Spr.Strings

open Spr.Words Spr.Simulations Spr.MemPool

/-! ## Section 1: The functions -/

/-- The `char` at `a`. -/
def loadChar (a : Nat) : Act UInt8 := do pure (charAt (← get).mem a)

/-- `*a = b` -/
def storeChar (a : Nat) (b : UInt8) : Act Unit := do
  store (a / 8 * 8) (withByte (← load (a / 8 * 8)) (a % 8) b)

/-- The `n` bytes from `a` on. -/
def loadChars (a n : Nat) : Act (List UInt8) := do pure (bytesAt (← get).mem a n)

/-- The bytes are stored from `a` on. -/
def storeChars : Nat → List UInt8 → Act Unit
  | _, [] => pure ()
  | a, b :: bs => do
      storeChar a b
      storeChars (a + 1) bs

/-- `spr_memmove(dst, src, n)`: all bytes are read before any is stored. -/
def sprMemmoveAt (dst src n : Nat) : Act Unit := do
  storeChars dst (← loadChars src n)

/-- The loop of `spr_strlen`. -/
def strlenLoopAt (str : Nat) : Nat → Nat → Act Nat
  | 0, _ => stop .diverge
  | left + 1, i => do
      if (← loadChar (add str i)) = 0 then pure i
      else strlenLoopAt str left (i + 1)

/-- `spr_strlen(str)` -/
def sprStrlenAt (str : Nat) : Act Nat := strlenLoopAt str addressSpace 0

/-- The loop of `spr_strnlen`: `left` is how many bytes are still to be looked at. -/
def strnlenLoopAt (str : Nat) : Nat → Nat → Act Nat
  | 0, i => pure i
  | left + 1, i => do
      if (← loadChar (add str i)) = 0 then pure i
      else strnlenLoopAt str left (i + 1)

/-- `spr_strnlen(str, n)` -/
def sprStrnlenAt (str n : Nat) : Act Nat := strnlenLoopAt str n 0

/-- `spr_pstrdup(pool, str)` -/
def sprPstrdupAt (plat : Platform) (thread pool str : Nat) : Act Nat := do
  let len := add (← sprStrlenAt str) 1
  let mem ← pallocNoted plat thread pool len
  if mem = 0 then pure 0
  else do
    sprMemmoveAt mem str len
    pure mem

/-- `spr_pstrndup(pool, str, n)` -/
def sprPstrndupAt (plat : Platform) (thread pool str n : Nat) : Act Nat := do
  let mem ← pallocNoted plat thread pool (add n 1)
  if mem = 0 then pure 0
  else do
    sprMemmoveAt mem str n
    storeChar (add mem n) 0
    pure mem

/-- The first loop of `spr_pstrcat1`. -/
def lengthPassAt : List Nat → Nat → Act Nat
  | [], len => pure len
  | argv :: args, len => do lengthPassAt args (add len (← sprStrlenAt argv))

/-- The second loop. -/
def copyPassAt : List Nat → Nat → Act Unit
  | [], _ => pure ()
  | argv :: args, pos => do
      let len ← sprStrlenAt argv
      sprMemmoveAt pos argv len
      copyPassAt args (add pos len)

/-- `spr_pstrcat1(pool, args..., NULL)` -/
def sprPstrcat1At (plat : Platform) (thread pool : Nat) (args : List Nat) : Act Nat := do
  let len ← lengthPassAt args 0
  let str ← pallocNoted plat thread pool (add len 1)
  if str = 0 then pure 0
  else do
    storeChar (add str len) 0
    copyPassAt args str
    pure str

/-! ## Section 2: Reading a string -/

section Reads

variable {w : World} {a n : Nat} {str : List UInt8}

/-- The bytes of a string are not 0, and its terminator is. -/
theorem stringAt_char {m : Mem} {i : Nat} (h : StringAt m a str) (hi : i ≤ str.length) :
    charAt m (a + i) = 0 ↔ i = str.length := by
  have hget := h.getElem hi
  rcases Nat.lt_or_eq_of_le hi with hlt | rfl
  · rw [List.getElem?_append_left hlt] at hget
    refine iff_of_false (fun hzero => h.nonzero ?_) (Nat.ne_of_lt hlt)
    rw [hzero] at hget
    exact List.mem_of_getElem? hget
  · rw [List.getElem?_append_right (Nat.le_refl _), Nat.sub_self] at hget
    exact iff_of_true (Option.some.inj hget).symm rfl

theorem loadChar_bind {α : Type} (a : Nat) (f : UInt8 → Act α) (w : World) :
    (loadChar a >>= f) w = f (charAt w.mem a) w := rfl

/-- **`spr_strlen`, from any place in the string.** -/
theorem strlenLoopAt_run (h : StringAt w.mem a str) (hend : a + str.length < wordMod)
    (left : Nat) : ∀ i ≤ str.length, str.length < i + left →
      strlenLoopAt a left i w = .ok str.length w := by
  induction left with
  | zero =>
    intro i hi hleft
    omega
  | succ left ih =>
    intro i hi hleft
    rw [strlenLoopAt, loadChar_bind, add_of_lt (by omega), ite_run]
    by_cases hlast : i = str.length
    · rw [if_pos ((stringAt_char h hi).mpr hlast), hlast]
      rfl
    · rw [if_neg fun hzero => hlast ((stringAt_char h hi).mp hzero)]
      exact ih (i + 1) (by omega) (by omega)

theorem sprStrlenAt_run (h : StringAt w.mem a str) (hend : a + str.length < wordMod) :
    sprStrlenAt a w = .ok str.length w :=
  strlenLoopAt_run h hend addressSpace 0 (Nat.zero_le _) (by rw [addressSpace]; omega)

/-- **`spr_strnlen`** looks at `n` bytes at most. -/
theorem sprStrnlenAt_run (h : StringAt w.mem a str) (hend : a + str.length < wordMod) (n : Nat) :
    sprStrnlenAt a n w = .ok (min str.length n) w := by
  have hloop : ∀ left i, i ≤ str.length → strnlenLoopAt a left i w
      = .ok (min str.length (i + left)) w := by
    intro left
    induction left with
    | zero =>
      intro i hi
      rw [strnlenLoopAt, Nat.add_zero, Nat.min_eq_right hi]
      rfl
    | succ left ih =>
      intro i hi
      rw [strnlenLoopAt, loadChar_bind, add_of_lt (by omega), ite_run]
      by_cases hlast : i = str.length
      · rw [if_pos ((stringAt_char h hi).mpr hlast), hlast, Nat.min_eq_left (Nat.le_add_right _ _)]
        rfl
      · rw [if_neg fun hzero => hlast ((stringAt_char h hi).mp hzero), ih (i + 1) (by omega),
          Nat.add_assoc, Nat.add_comm 1]
  rw [sprStrnlenAt, hloop n 0 (Nat.zero_le _), Nat.zero_add]

end Reads
/-! ## Section 3: Storing one -/

/-- A program that takes the memory `m` to `m'`, by stores to the block. -/
abbrev Stores (b : Block) {α : Type} (p : Act α) (m : Mem) (x : α) (m' : Mem) : Prop :=
  Simulates (fun (w : World) m => w.mem = m) (StoreTo [b]) p m x m'

/-- A string as its owner knows it: where it is, the block it is in, and its bytes. -/
structure Text where
  addr  : Nat
  block : Block
  str   : List UInt8
  deriving DecidableEq

/-- Where the string lies, with its terminator. -/
def Text.span (t : Text) : Span := ⟨t.addr, t.str.length + 1⟩

section Programs

variable {b : Block} {m : Mem} {a dst src n pos : Nat} {c : UInt8} {bs : List UInt8}
  {ts : List Text}

/-- The word of a byte of the block is one of the block. -/
theorem word_covered (hal : b.addr % 8 = 0) (ha : b.span.Covers a) :
    b.span.Covers (a / 8 * 8) := by
  simp only [Span.Covers, Block.span] at ha ⊢
  omega

theorem storeChar_stores (hal : b.addr % 8 = 0) (ha : b.span.Covers a) (c : UInt8) :
    Stores b (storeChar a c) m () (putByte m a c) := by
  refine Simulates.one (fun w => w.store (a / 8 * 8) (withByte (w.mem (a / 8 * 8)) (a % 8) c)) ?_
  rintro w rfl
  exact ⟨rfl, ⟨_, _, Nat.mul_mod_left _ 8, ⟨b, List.mem_singleton_self b,
    word_covered hal ha⟩, rfl⟩, rfl⟩

theorem storeChars_stores (hal : b.addr % 8 = 0) (bs : List UInt8) : ∀ {m : Mem} {a : Nat},
    Span.Within ⟨a, bs.length⟩ b.span → Stores b (storeChars a bs) m () (putBytes m a bs) := by
  induction bs with
  | nil =>
    intro m a _
    exact Simulates.pure () m
  | cons c bs ih =>
    intro m a hin
    simp only [Span.Within, List.length_cons] at hin
    have hfirst : b.span.Covers a := by
      simp only [Span.Covers]
      omega
    refine (storeChar_stores hal hfirst c).bind (ih ?_)
    simp only [Span.Within]
    omega

theorem sprMemmoveAt_stores (hal : b.addr % 8 = 0) (hin : Span.Within ⟨dst, n⟩ b.span) :
    Stores b (sprMemmoveAt dst src n) m () (putBytes m dst (bytesAt m src n)) := by
  have hread : Stores b (loadChars src n) m (bytesAt m src n) m :=
    Simulates.read fun w hw => by rw [← hw]; rfl
  exact hread.bind (storeChars_stores hal _ (by rwa [bytesAt_length]))

/-- **The second loop of `spr_pstrcat1`** is one copy of the strings put together, where none of
    them lies in the block: by induction on the strings, over what the loop has stored. -/
theorem copyPassAt_stores (hal : b.addr % 8 = 0) (hend : b.span.start + b.span.len ≤ wordMod) :
    ∀ (ts : List Text) {m : Mem} {pos : Nat},
      (∀ t ∈ ts, StringAt m t.addr t.str ∧ t.addr + t.str.length < wordMod ∧
        Span.Disjoint t.span b.span) →
      Span.Within ⟨pos, (ts.flatMap Text.str).length + 1⟩ b.span →
      Stores b (copyPassAt (ts.map Text.addr) pos) m () (putBytes m pos (ts.flatMap Text.str)) := by
  intro ts
  induction ts with
  | nil =>
    intro m pos _ _
    exact Simulates.pure () m
  | cons t ts ih =>
    intro m pos hts hin
    obtain ⟨ht, htend, -⟩ := hts t List.mem_cons_self
    simp only [Span.Within, List.flatMap_cons, List.length_append] at hin
    have hlen : Stores b (sprStrlenAt t.addr) m t.str.length m :=
      Simulates.read fun w hw => sprStrlenAt_run (hw ▸ ht) htend
    have hbytes : bytesAt m t.addr t.str.length = t.str := by
      rw [ht.front (Nat.le_succ _), List.take_left]
    have hcopy : Stores b (sprMemmoveAt pos t.addr t.str.length) m () (putBytes m pos t.str) := by
      have hpart : Span.Within ⟨pos, t.str.length⟩ b.span := by
        simp only [Span.Within]
        omega
      have hmove : Stores b (sprMemmoveAt pos t.addr t.str.length) m ()
          (putBytes m pos (bytesAt m t.addr t.str.length)) := sprMemmoveAt_stores hal hpart
      rwa [hbytes] at hmove
    -- the other strings do not lie where this one has been copied
    have hrest : ∀ t' ∈ ts, StringAt (putBytes m pos t.str) t'.addr t'.str ∧
        t'.addr + t'.str.length < wordMod ∧ Span.Disjoint t'.span b.span := by
      intro t' ht'
      obtain ⟨hstr, htend', hapart⟩ := hts t' (List.mem_cons_of_mem _ ht')
      refine ⟨hstr.congr fun x hx => charAt_putBytes_of_not_covers ?_, htend', hapart⟩
      have hnot := hapart.not_covers hx
      simp only [Span.Covers] at hnot ⊢
      omega
    refine hlen.bind (hcopy.bind ?_)
    rw [add_of_lt (by omega), List.flatMap_cons, putBytes_append]
    refine ih hrest ?_
    simp only [Span.Within]
    omega

/-- The first loop adds up the lengths. -/
theorem lengthPassAt_run {w : World} : ∀ (ts : List Text) {len : Nat},
    (∀ t ∈ ts, StringAt w.mem t.addr t.str ∧ t.addr + t.str.length < wordMod) →
    len + (ts.flatMap Text.str).length < wordMod →
    lengthPassAt (ts.map Text.addr) len w = .ok (len + (ts.flatMap Text.str).length) w := by
  intro ts
  induction ts with
  | nil =>
    intro len _ _
    rfl
  | cons t ts ih =>
    intro len hts hsum
    obtain ⟨ht, htend⟩ := hts t List.mem_cons_self
    rw [List.flatMap_cons, List.length_append] at hsum ⊢
    rw [List.map_cons, lengthPassAt, bind_run, sprStrlenAt_run ht htend]
    show lengthPassAt (ts.map Text.addr) (add len t.str.length) w = _
    rw [add_of_lt (by omega), ih (fun t' ht' => hts t' (List.mem_cons_of_mem _ ht')) (by omega),
      Nat.add_assoc]

end Programs

/-! ## Section 4: Copies -/

/-- The string is in its block, which is held. -/
def Text.Holds (w : World) (t : Text) : Prop :=
  t.block ∈ heldBlocks w.log ∧ Span.Within t.span t.block.span ∧ StringAt w.mem t.addr t.str

/-- What a copy leaves: `NULL`, or a new block with the string; the blocks that were held are
    held, and their words as they were. -/
structure CopyLeaves (plat : Platform) (s : Session) (pool size : Nat) (str : List UInt8)
    (r : Nat) (w' : World) : Prop where
  reach  : Reachable plat (Session.Plain plat) ⟨w', s.family⟩
  keeps  : KeepsBlocks s.world w'
  null   : r = 0 → heldBlocks w'.log = heldBlocks s.world.log ∧
    (sprAlignAllocation size ≠ 0 → w'.errno = enomem)
  copied : r ≠ 0 → heldBlocks w'.log = ⟨pool, r, size⟩ :: heldBlocks s.world.log ∧
    StringAt w'.mem r str

/-- **What a copy comes to**: it returns where the pool answers, with what the pool has
    answered. -/
structure CopyOf (plat : Platform) (thread : Nat) (s : Session) (pool size : Nat)
    (str : List UInt8) (p : Act Nat) : Prop where
  returns : ∀ r w₁, pallocNoted plat thread pool size s.world = .ok r w₁ →
    ∃ w', p s.world = .ok r w' ∧ CopyLeaves plat s pool size str r w'
  stops : ∀ e w₁, pallocNoted plat thread pool size s.world = .error e w₁ →
    p s.world = .error e w₁

section Copies

variable {plat : Platform} {s : Session} {w' : World} {thread pool size n r : Nat}
  {str : List UInt8} {t : Text} {ts : List Text}

/-- A string in a block ends below `2^64`. -/
theorem Text.Holds.fits {f : Spr.Forests.Forest Pool} (hinv : Inv plat s f)
    (ht : t.Holds s.world) : 8 ≤ t.addr ∧ t.addr + t.str.length + 1 ≤ wordMod := by
  obtain ⟨hne, hend⟩ := held_end hinv ht.1
  have hal := hinv.blocks.aligned _ ht.1
  have hin := ht.2.1
  simp only [Span.Within, Text.span, Block.span] at hin hend
  omega

/-- A string whose block is as it was is as it was. -/
theorem Text.Holds.frame {w : World} (ht : t.Holds w) (hheld : t.block ∈ heldBlocks w'.log)
    (hsame : ∀ a, t.block.span.Covers a → w'.mem a = w.mem a)
    (hal : t.block.addr % 8 = 0) : t.Holds w' := by
  refine ⟨hheld, ht.2.1, ht.2.2.congr fun x hx => ?_⟩
  have hcovers : t.block.span.Covers x := ht.2.1.covers hx
  show UInt8.ofNat (byteAt w'.mem x) = UInt8.ofNat (byteAt w.mem x)
  unfold byteAt
  rw [hsame _ (word_covered hal hcovers)]

/-- **A copy**: it asks for a block, and fills it. -/
theorem copyOf_fill (str : List UInt8) (hs : Reachable plat (Session.Plain plat) s)
    (hop : s.Plain plat (.palloc thread pool size)) (fill : Nat → Act Unit)
    (hfill : ∀ r w₁ f, r ≠ 0 → Inv plat ⟨w₁, s.family⟩ f → KeepsBlocks s.world w₁ →
      heldBlocks w₁.log = ⟨pool, r, size⟩ :: heldBlocks s.world.log →
      ∃ m', Stores ⟨pool, r, size⟩ (fill r) w₁.mem () m' ∧ StringAt m' r str) :
    CopyOf plat thread s pool size str (do
      let mem ← pallocNoted plat thread pool size
      if mem = 0 then pure 0
      else do
        fill mem
        pure mem) := by
  refine ⟨fun r w₁ hrun => ?_, fun e w₁ hrun => by rw [bind_run, hrun]⟩
  obtain ⟨hreach, hkeeps, hcase⟩ := pallocNoted_spec hs hop hrun
  rcases hcase with ⟨rfl, hsame, herrno⟩ | ⟨hr, hnew, -⟩
  · refine ⟨w₁, by rw [bind_run, hrun]; rfl, hreach, hkeeps, fun _ => ⟨hsame, herrno⟩,
      fun h => absurd rfl h⟩
  · obtain ⟨f, hinv⟩ := reachable_inv hreach
    obtain ⟨m', hstores, hstring⟩ := hfill r w₁ f hr hinv hkeeps hnew
    obtain ⟨w', hfilled, hsteps, rfl⟩ := hstores w₁ rfl
    have hb : ∀ b ∈ [Block.mk pool r size], b ∈ heldBlocks (Session.mk w₁ s.family).world.log := by
      intro b hb
      rw [List.mem_singleton.mp hb,
        show heldBlocks (Session.mk w₁ s.family).world.log = _ from hnew]
      exact List.mem_cons_self
    obtain ⟨hreach', hlog, hothers⟩ := stores_keep hreach hb hsteps
    refine ⟨w', ?_, hreach', fun b hold a ha => ?_, fun h => absurd h hr, fun _ => ⟨?_, hstring⟩⟩
    · rw [bind_run, hrun]
      show (if r = 0 then pure 0 else do fill r; pure r : Act Nat) w₁ = _
      rw [if_neg hr, bind_run, hfilled]
      rfl
    · -- the new block is none of the old ones
      have hne : b ∉ [Block.mk pool r size] := fun hmem =>
        (handed_new hinv hnew hold).1 (List.mem_singleton.mp hmem).symm
      have hin : b ∈ heldBlocks (Session.mk w₁ s.family).world.log := by
        rw [show heldBlocks (Session.mk w₁ s.family).world.log = _ from hnew]
        exact List.mem_cons_of_mem _ hold
      rw [hothers b hin hne a ha]
      exact hkeeps b hold a ha
    · rw [hlog]
      exact hnew

/-- A program that runs as a copy does is a copy. -/
theorem CopyOf.of_run {p q : Act Nat} (h : CopyOf plat thread s pool size str q)
    (heq : p s.world = q s.world) : CopyOf plat thread s pool size str p :=
  ⟨fun r w₁ hrun => by rw [heq]; exact h.returns r w₁ hrun,
    fun e w₁ hrun => by rw [heq]; exact h.stops e w₁ hrun⟩

/-- The block that has been given is aligned, and ends below `2^64`. -/
theorem handed_block {f : Spr.Forests.Forest Pool} (hinv : Inv plat ⟨w', s.family⟩ f)
    (hnew : heldBlocks w'.log = ⟨pool, r, size⟩ :: heldBlocks s.world.log) :
    r % 8 = 0 ∧ size ≤ (Block.mk pool r size).span.len ∧
      r + (Block.mk pool r size).span.len ≤ wordMod := by
  have hb : Block.mk pool r size ∈ heldBlocks (Session.mk w' s.family).world.log := by
    rw [show heldBlocks (Session.mk w' s.family).world.log = _ from hnew]
    exact List.mem_cons_self
  exact ⟨hinv.blocks.aligned _ hb, (held_size hinv hb).1, (held_end hinv hb).2⟩

/-- **A string beside the new block** is as it was. -/
theorem Text.Holds.beside {f : Spr.Forests.Forest Pool} (ht : t.Holds s.world)
    (hs : Reachable plat (Session.Plain plat) s) (hinv : Inv plat ⟨w', s.family⟩ f)
    (hkeeps : KeepsBlocks s.world w')
    (hnew : heldBlocks w'.log = ⟨pool, r, size⟩ :: heldBlocks s.world.log) :
    StringAt w'.mem t.addr t.str ∧ t.addr + t.str.length < wordMod ∧
      Span.Disjoint t.span (Block.mk pool r size).span := by
  obtain ⟨f₀, hinv₀⟩ := reachable_inv hs
  have hheld : t.block ∈ heldBlocks w'.log := by
    rw [hnew]
    exact List.mem_cons_of_mem _ ht.1
  have hkept := ht.frame hheld (hkeeps t.block ht.1) (hinv₀.blocks.aligned _ ht.1)
  have hfits := ht.fits hinv₀
  refine ⟨hkept.2.2, by omega, ?_⟩
  exact ((handed_new hinv hnew ht.1).2.symm).mono ht.2.1

/-- **`spr_pstrdup`** makes a copy of the string. -/
theorem pstrdup_copies (hs : Reachable plat (Session.Plain plat) s) (ht : t.Holds s.world)
    (hop : s.Plain plat (.palloc thread pool (t.str.length + 1))) :
    CopyOf plat thread s pool (t.str.length + 1) t.str
      (sprPstrdupAt plat thread pool t.addr) := by
  obtain ⟨f₀, hinv₀⟩ := reachable_inv hs
  have hfits := ht.fits hinv₀
  have hcopy := copyOf_fill t.str hs hop
    (fun mem => sprMemmoveAt mem t.addr (t.str.length + 1)) ?_
  · refine hcopy.of_run ?_
    rw [sprPstrdupAt, bind_run, sprStrlenAt_run ht.2.2 (by omega)]
    simp only [add_of_lt (show t.str.length + 1 < wordMod by omega)]
  · intro r w₁ f hr hinv hkeeps hnew
    obtain ⟨hal, hsize, -⟩ := handed_block hinv hnew
    obtain ⟨hstr, -, -⟩ := ht.beside hs hinv hkeeps hnew
    refine ⟨_, sprMemmoveAt_stores hal ⟨Nat.le_refl _, ?_⟩, hstr.nonzero, ?_⟩
    · exact Nat.add_le_add_left hsize r
    · have hput := bytesAt_putBytes w₁.mem r (t.str ++ [0])
      rw [List.length_append] at hput
      rw [hstr.bytes]
      exact hput

/-- The first `n` bytes of a string, its terminator perhaps among them, and a terminator. -/
theorem bytesAt_cut {m : Mem} {a : Nat} (hn : n ≤ str.length + 1) :
    bytesAt (putBytes m a ((str ++ [0]).take n ++ [0])) a ((str.take n).length + 1)
      = str.take n ++ [0] := by
  have hput := bytesAt_putBytes m a ((str ++ [0]).take n ++ [0])
  have hlen : ((str ++ [0]).take n ++ [0]).length = n + 1 := by
    rw [List.length_append, List.length_take, List.length_append]
    exact congrArg (· + 1) (Nat.min_eq_left hn)
  rw [hlen] at hput
  rw [List.length_take, ← bytesAt_take _ _ (show min n str.length + 1 ≤ n + 1 by omega), hput]
  rcases Nat.lt_or_ge str.length n with hlt | hge
  · -- the terminator has been copied too
    have hall : (str ++ [0]).take n = str ++ [0] :=
      List.take_of_length_le (by rw [List.length_append]; exact hlt)
    rw [Nat.min_eq_right (Nat.le_of_lt hlt), List.take_of_length_le (Nat.le_of_lt hlt), hall]
    exact List.take_left' (by rw [List.length_append]; rfl)
  · rw [Nat.min_eq_left hge, List.take_append_of_le_length hge]
    exact List.take_of_length_le (by simp [hge])

/-- **`spr_pstrndup`** makes a copy of the first `n` bytes. -/
theorem pstrndup_copies (hs : Reachable plat (Session.Plain plat) s) (ht : t.Holds s.world)
    (hn : n ≤ t.str.length + 1) (hop : s.Plain plat (.palloc thread pool (n + 1))) :
    CopyOf plat thread s pool (n + 1) (t.str.take n)
      (sprPstrndupAt plat thread pool t.addr n) := by
  obtain ⟨f₀, hinv₀⟩ := reachable_inv hs
  have hfits := ht.fits hinv₀
  have hcopy := copyOf_fill (t.str.take n) hs hop
    (fun mem => do sprMemmoveAt mem t.addr n; storeChar (add mem n) 0) ?_
  · refine hcopy.of_run ?_
    rw [sprPstrndupAt, add_of_lt (show n + 1 < wordMod by omega)]
    simp only [bind_assoc]
  · intro r w₁ f hr hinv hkeeps hnew
    obtain ⟨hal, hsize, hend⟩ := handed_block hinv hnew
    obtain ⟨hstr, -, -⟩ := ht.beside hs hinv hkeeps hnew
    have hmove : Span.Within ⟨r, n⟩ (Block.mk pool r (n + 1)).span :=
      ⟨Nat.le_refl _, Nat.add_le_add_left (Nat.le_of_lt hsize) r⟩
    have hlast : (Block.mk pool r (n + 1)).span.Covers (r + n) :=
      ⟨Nat.le_add_right _ _, Nat.add_lt_add_left hsize r⟩
    have hstores : Stores ⟨pool, r, n + 1⟩ (do sprMemmoveAt r t.addr n; storeChar (add r n) 0)
        w₁.mem () (putBytes w₁.mem r ((t.str ++ [0]).take n ++ [0])) := by
      have hlen : ((t.str ++ [0]).take n).length = n := by
        rw [List.length_take, List.length_append]
        exact Nat.min_eq_left hn
      rw [add_of_lt (by omega), putBytes_append, hlen, ← hstr.front hn]
      exact (sprMemmoveAt_stores hal hmove).bind (storeChar_stores hal hlast 0)
    exact ⟨_, hstores, fun h => hstr.nonzero (List.mem_of_mem_take h), bytesAt_cut hn⟩

/-- **`spr_pstrcat1`** makes a copy of the strings put together. -/
theorem pstrcat1_copies (hs : Reachable plat (Session.Plain plat) s)
    (hts : ∀ t ∈ ts, t.Holds s.world) (hsum : (ts.flatMap Text.str).length + 1 < wordMod)
    (hop : s.Plain plat (.palloc thread pool ((ts.flatMap Text.str).length + 1))) :
    CopyOf plat thread s pool ((ts.flatMap Text.str).length + 1) (ts.flatMap Text.str)
      (sprPstrcat1At plat thread pool (ts.map Text.addr)) := by
  obtain ⟨f₀, hinv₀⟩ := reachable_inv hs
  have hcopy := copyOf_fill (ts.flatMap Text.str) hs hop (fun mem => do
    storeChar (add mem (ts.flatMap Text.str).length) 0
    copyPassAt (ts.map Text.addr) mem) ?_
  · refine hcopy.of_run ?_
    have hread : ∀ t ∈ ts, StringAt s.world.mem t.addr t.str ∧
        t.addr + t.str.length < wordMod := by
      intro t ht
      have hfits := (hts t ht).fits hinv₀
      exact ⟨(hts t ht).2.2, by omega⟩
    rw [sprPstrcat1At, bind_run, lengthPassAt_run ts hread (by omega)]
    simp only [bind_assoc, Nat.zero_add, add_of_lt hsum]
  · intro r w₁ f hr hinv hkeeps hnew
    obtain ⟨hal, hsize, hend⟩ := handed_block hinv hnew
    have hlast : (Block.mk pool r ((ts.flatMap Text.str).length + 1)).span.Covers
        (r + (ts.flatMap Text.str).length) :=
      ⟨Nat.le_add_right _ _, Nat.add_lt_add_left hsize r⟩
    have hbeside := fun t ht => (hts t ht).beside hs hinv hkeeps hnew
    -- the terminator is stored first, and the strings are not where it is
    have hafter : ∀ t ∈ ts, StringAt (putByte w₁.mem (r + (ts.flatMap Text.str).length) 0)
        t.addr t.str ∧ t.addr + t.str.length < wordMod ∧
        Span.Disjoint t.span (Block.mk pool r ((ts.flatMap Text.str).length + 1)).span := by
      intro t ht
      obtain ⟨hstr, htend, hapart⟩ := hbeside t ht
      refine ⟨hstr.congr fun x hx => ?_, htend, hapart⟩
      rw [charAt_putByte, if_neg]
      rintro rfl
      exact hapart.not_covers hx hlast
    have hstores : Stores ⟨pool, r, (ts.flatMap Text.str).length + 1⟩
        (do storeChar (add r (ts.flatMap Text.str).length) 0; copyPassAt (ts.map Text.addr) r)
        w₁.mem () (putBytes (putByte w₁.mem (r + (ts.flatMap Text.str).length) 0) r
          (ts.flatMap Text.str)) := by
      rw [add_of_lt (by omega)]
      exact (storeChar_stores hal hlast 0).bind (copyPassAt_stores
        (b := ⟨pool, r, (ts.flatMap Text.str).length + 1⟩) hal hend ts hafter
        ⟨Nat.le_refl _, Nat.add_le_add_left hsize r⟩)
    refine ⟨_, hstores, ?_⟩
    refine stringAt_of_bytes (fun h => ?_) (bytesAt_putBytes _ _ _) ?_
    · obtain ⟨t, ht, hin⟩ := List.mem_flatMap.mp h
      exact (hts t ht).2.2.nonzero hin
    · rw [charAt_putBytes_of_not_covers, charAt_putByte, if_pos rfl]
      simp only [Span.Covers]
      omega

end Copies

end Spr.Strings
