import Spr.Framework.Words

/-! # The bytes of a memory of words

    A memory that holds a word at every aligned address has a byte at every
    address: the words are little endian.

    * `byteAt`: the byte at an address.
    * `moved`: the memory after a copy of bytes, which may overlap itself.
    * `moved_of_apart`: what a copy leaves alone.
    * `putBytes`, `bytesAt`: bytes stored one by one, and bytes read.
    * `StringAt`: a string, with its terminator. -/

namespace Spr.Words

/-! ## Section 1: Bytes of a word -/

/-- The byte at `a`. -/
def byteAt (m : Mem) (a : Nat) : Nat := m (a / 8 * 8) / 256 ^ (a % 8) % 256

/-- The number of the first `n` bytes. -/
def ofBytes : Nat → (Nat → Nat) → Nat
  | 0, _ => 0
  | n + 1, f => f 0 + 256 * ofBytes n fun j => f (j + 1)

/-- A number has the bytes it is made of. -/
theorem ofBytes_byte {n : Nat} : ∀ {f : Nat → Nat} {j : Nat}, (∀ j, f j < 256) → j < n →
    ofBytes n f / 256 ^ j % 256 = f j := by
  induction n with
  | zero => intro f j _ hj; omega
  | succ n ih =>
    intro f j hf hj
    have hlow := hf 0
    cases j with
    | zero =>
      rw [ofBytes, Nat.pow_zero, Nat.div_one, Nat.add_mul_mod_self_left, Nat.mod_eq_of_lt hlow]
    | succ j =>
      have hdiv : (f 0 + 256 * ofBytes n fun j => f (j + 1)) / 256
          = ofBytes n fun j => f (j + 1) := by
        omega
      rw [ofBytes, Nat.pow_succ', ← Nat.div_div_eq_div_mul, hdiv]
      exact ih (fun j => hf (j + 1)) (by omega)

/-! ## Section 2: Copies -/

/-- The byte at `a` after `len` bytes have been copied from `src` to `dst`. -/
def movedByte (m : Mem) (dst src len a : Nat) : Nat :=
  if dst ≤ a ∧ a < dst + len then byteAt m (src + (a - dst)) else byteAt m a

/-- `memmove(dst, src, len)`: all bytes are read before any is written. -/
def moved (m : Mem) (dst src len : Nat) : Mem := fun a =>
  if dst < a + 8 ∧ a < dst + len then ofBytes 8 fun j => movedByte m dst src len (a + j)
  else m a

/-- A word apart from the target is as it was. -/
theorem moved_of_apart {m : Mem} {dst src len a : Nat} (h : Span.Disjoint ⟨dst, len⟩ ⟨a, 8⟩) :
    moved m dst src len a = m a := by
  refine if_neg ?_
  simp only [Span.Disjoint] at h
  omega

/-! ## Section 3: Bytes, one by one -/

/-- The word with `b` as its `j`-th byte. -/
def withByte (word j : Nat) (b : UInt8) : Nat :=
  ofBytes 8 fun i => if i = j then b.toNat else word / 256 ^ i % 256

/-- The memory after `b` has been stored at `a`. -/
def putByte (m : Mem) (a : Nat) (b : UInt8) : Mem :=
  Function.update m (a / 8 * 8) (withByte (m (a / 8 * 8)) (a % 8) b)

/-- The memory after the bytes have been stored from `a` on. -/
def putBytes (m : Mem) (a : Nat) : List UInt8 → Mem
  | [] => m
  | b :: bs => putBytes (putByte m a b) (a + 1) bs

/-- The `char` at `a`. -/
def charAt (m : Mem) (a : Nat) : UInt8 := UInt8.ofNat (byteAt m a)

/-- The `n` bytes from `a` on. -/
def bytesAt (m : Mem) (a n : Nat) : List UInt8 := (List.range n).map fun j => charAt m (a + j)

section Puts

variable {m m' : Mem} {a n k x : Nat} {b : UInt8} {bs cs : List UInt8}

/-- The words of a byte that is stored. -/
theorem byteAt_putByte (m : Mem) (a : Nat) (b : UInt8) (x : Nat) :
    byteAt (putByte m a b) x = if x = a then b.toNat else byteAt m x := by
  have hlow : x % 8 < 8 := Nat.mod_lt _ (by decide)
  have hsmall : ∀ i, (if i = a % 8 then b.toNat else m (a / 8 * 8) / 256 ^ i % 256) < 256 := by
    intro i
    split
    · exact b.toNat_lt
    · exact Nat.mod_lt _ (by decide)
  unfold byteAt putByte
  by_cases hword : x / 8 * 8 = a / 8 * 8
  · rw [hword, Function.update_self, withByte, ofBytes_byte hsmall hlow]
    -- within one word the addresses differ where the offsets do
    by_cases hx : x = a
    · rw [if_pos (by rw [hx]), if_pos hx]
    · rw [if_neg (by omega), if_neg hx]
  · rw [Function.update_of_ne hword, if_neg]
    rintro rfl
    exact hword rfl

theorem charAt_putByte (m : Mem) (a : Nat) (b : UInt8) (x : Nat) :
    charAt (putByte m a b) x = if x = a then b else charAt m x := by
  unfold charAt
  rw [byteAt_putByte]
  split
  · exact UInt8.ofNat_toNat
  · rfl

/-- A byte that is not stored to is as it was. -/
theorem charAt_putBytes_of_not_covers (h : ¬ Span.Covers ⟨a, bs.length⟩ x) :
    charAt (putBytes m a bs) x = charAt m x := by
  induction bs generalizing m a with
  | nil => rfl
  | cons b bs ih =>
    simp only [Span.Covers, List.length_cons] at h
    rw [putBytes, ih (by simp only [Span.Covers]; omega), charAt_putByte, if_neg (by omega)]

theorem putBytes_append (m : Mem) (a : Nat) (bs cs : List UInt8) :
    putBytes m a (bs ++ cs) = putBytes (putBytes m a bs) (a + bs.length) cs := by
  induction bs generalizing m a with
  | nil => rfl
  | cons b bs ih =>
    rw [List.cons_append, putBytes, putBytes, ih, List.length_cons, Nat.add_assoc,
      Nat.add_comm 1]

@[simp] theorem bytesAt_length (m : Mem) (a n : Nat) : (bytesAt m a n).length = n := by
  simp [bytesAt]

/-- What is read is what is there. -/
theorem bytesAt_congr (h : ∀ x, Span.Covers ⟨a, n⟩ x → charAt m' x = charAt m x) :
    bytesAt m' a n = bytesAt m a n := by
  refine List.map_congr_left fun j hj => h (a + j) ?_
  have hlt := List.mem_range.mp hj
  simp only [Span.Covers]
  omega

theorem bytesAt_add (m : Mem) (a n k : Nat) :
    bytesAt m a (n + k) = bytesAt m a n ++ bytesAt m (a + n) k := by
  unfold bytesAt
  rw [List.range_add, List.map_append, List.map_map]
  congr 1
  exact List.map_congr_left fun j _ => by rw [Function.comp_apply, Nat.add_assoc]

theorem bytesAt_succ (m : Mem) (a n : Nat) :
    bytesAt m a (n + 1) = charAt m a :: bytesAt m (a + 1) n := by
  rw [Nat.add_comm, bytesAt_add]
  rfl

theorem bytesAt_take (m : Mem) (a : Nat) (h : k ≤ n) : (bytesAt m a n).take k = bytesAt m a k := by
  obtain ⟨j, rfl⟩ := Nat.le.dest h
  rw [bytesAt_add, List.take_left' (bytesAt_length m a k)]

/-- **What is stored is read.** -/
theorem bytesAt_putBytes (m : Mem) (a : Nat) (bs : List UInt8) :
    bytesAt (putBytes m a bs) a bs.length = bs := by
  induction bs generalizing m a with
  | nil => rfl
  | cons b bs ih =>
    rw [List.length_cons, bytesAt_succ, putBytes, ih, charAt_putBytes_of_not_covers,
      charAt_putByte, if_pos rfl]
    simp only [Span.Covers]
    omega

end Puts

/-! ## Section 4: Strings -/

/-- The string at `a`: these bytes, which are not 0, and a terminator. -/
structure StringAt (m : Mem) (a : Nat) (str : List UInt8) : Prop where
  nonzero : (0 : UInt8) ∉ str
  bytes   : bytesAt m a (str.length + 1) = str ++ [0]

section Strings

variable {m m' : Mem} {a n : Nat} {str : List UInt8}

/-- A string is what its bytes are. -/
theorem StringAt.congr (h : StringAt m a str)
    (hsame : ∀ x, Span.Covers ⟨a, str.length + 1⟩ x → charAt m' x = charAt m x) :
    StringAt m' a str :=
  ⟨h.nonzero, (bytesAt_congr hsame).trans h.bytes⟩

/-- The bytes in front of the terminator. -/
theorem StringAt.front (h : StringAt m a str) (hn : n ≤ str.length + 1) :
    bytesAt m a n = (str ++ [0]).take n := by
  rw [← h.bytes, bytesAt_take m a hn]

/-- A character of the string, or its terminator. -/
theorem StringAt.getElem {i : Nat} (h : StringAt m a str) (hi : i ≤ str.length) :
    (str ++ [0])[i]? = some (charAt m (a + i)) := by
  rw [← h.bytes, bytesAt, List.getElem?_map, List.getElem?_range (Nat.lt_succ_of_le hi)]
  rfl

/-- Bytes that are stored, and a terminator behind them, are a string. -/
theorem stringAt_of_bytes (hnonzero : (0 : UInt8) ∉ str) (hbytes : bytesAt m a str.length = str)
    (hend : charAt m (a + str.length) = 0) : StringAt m a str := by
  refine ⟨hnonzero, ?_⟩
  rw [bytesAt_add, hbytes]
  show str ++ [charAt m (a + str.length + 0)] = _
  rw [Nat.add_zero, hend]

end Strings

end Spr.Words
