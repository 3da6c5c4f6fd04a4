import Mathlib.Data.List.Basic
import Mathlib.Data.List.Range

/-! # Byte buffers and strings

    * `CString`: a NUL-terminated string.
    * `Store`, `copyAt`: the stores of a run into a buffer, oldest first.
    * `Inside`, `Fills`: where the stores go, and what they leave. -/

namespace Spr.Buffers

/-! ## Section 1: Strings -/

/-- A NUL-terminated string, without its terminator.  Both are in an address space of
    `space` bytes, the first of which is not used. -/
structure CString (space : Nat) where
  bytes   : List UInt8
  nonzero : (0 : UInt8) ∉ bytes
  fits    : bytes.length + 1 < space

section Strings

variable {space : Nat}

/-- The string as it lies in memory, with its terminator. -/
def CString.object (s : CString space) : List UInt8 := s.bytes ++ [0]

/-- The string cut off after `n` bytes. -/
def CString.cut (s : CString space) (n : Nat) : CString space where
  bytes := s.bytes.take n
  nonzero := fun h => s.nonzero (List.mem_of_mem_take h)
  fits := by
    have hfits := s.fits
    rw [List.length_take]
    omega

@[simp] theorem CString.object_length (s : CString space) :
    s.object.length = s.bytes.length + 1 := by
  simp [CString.object]

/-- The byte at a position of the string. -/
theorem CString.object_getElem {s : CString space} {i : Nat} (h : i < s.bytes.length) :
    s.object[i]? = some s.bytes[i] := by
  rw [CString.object, List.getElem?_append_left h, List.getElem?_eq_getElem h]

theorem CString.object_end (s : CString space) : s.object[s.bytes.length]? = some 0 := by
  rw [CString.object, List.getElem?_append_right (Nat.le_refl _), Nat.sub_self]
  rfl

/-- The first `n` bytes of an object, if it has as many. -/
def firstBytes (object : List UInt8) (n : Nat) : Option (List UInt8) :=
  if n ≤ object.length then some (object.take n) else none

theorem firstBytes_of_le {object : List UInt8} {n : Nat} (h : n ≤ object.length) :
    firstBytes object n = some (object.take n) := if_pos h

theorem firstBytes_of_lt {object : List UInt8} {n : Nat} (h : object.length < n) :
    firstBytes object n = none := if_neg (Nat.not_le.mpr h)

/-- No more bytes than the string has are bytes of the string. -/
theorem CString.firstBytes_object {s : CString space} {n : Nat} (h : n ≤ s.bytes.length) :
    firstBytes s.object n = some (s.bytes.take n) := by
  rw [firstBytes_of_le (by rw [s.object_length]; omega), CString.object,
    List.take_append_of_le_length h]

end Strings

/-! ## Section 2: Stores -/

/-- A store: how far behind the start of the buffer, and which byte. -/
abbrev Store : Type := Nat × UInt8

/-- The bytes are copied to consecutive places from `pos` on. -/
def copyAt (pos : Nat) : List UInt8 → List Store
  | [] => []
  | b :: bs => (pos, b) :: copyAt (pos + 1) bs

/-- The stores stay in a buffer of `n` bytes. -/
def Inside (n : Nat) (ws : List Store) : Prop := ∀ s ∈ ws, s.1 < n

/-- What is at a place after the stores, if there was one to it. -/
def byteAt (ws : List Store) (i : Nat) : Option UInt8 :=
  (ws.reverse.find? fun s => s.1 = i).map Prod.snd

/-- The stores leave these bytes at the start of the buffer. -/
def Fills (ws : List Store) (bytes : List UInt8) : Prop :=
  ∀ i < bytes.length, byteAt ws i = bytes[i]?

section Stores

variable {ws ws' : List Store} {bs cs s t : List UInt8} {pos n i : Nat}

@[simp] theorem copyAt_nil (pos : Nat) : copyAt pos [] = [] := rfl

@[simp] theorem copyAt_cons (pos : Nat) (b : UInt8) (bs : List UInt8) :
    copyAt pos (b :: bs) = (pos, b) :: copyAt (pos + 1) bs := rfl

theorem copyAt_append (pos : Nat) (bs cs : List UInt8) :
    copyAt pos (bs ++ cs) = copyAt pos bs ++ copyAt (pos + bs.length) cs := by
  induction bs generalizing pos with
  | nil => simp
  | cons b bs ih =>
    rw [List.cons_append, copyAt_cons, copyAt_cons, ih, List.length_cons, List.cons_append]
    congr 3
    omega

theorem copyAt_offsets (pos : Nat) (bs : List UInt8) :
    (copyAt pos bs).map Prod.fst = List.range' pos bs.length := by
  induction bs generalizing pos with
  | nil => rfl
  | cons b bs ih =>
    rw [copyAt_cons, List.map_cons, ih, List.length_cons, List.range'_succ]

theorem inside_append : Inside n (ws ++ ws') ↔ Inside n ws ∧ Inside n ws' :=
  List.forall_mem_append

/-- A copy stays in the buffer when its end does. -/
theorem inside_copyAt (h : pos + bs.length ≤ n) : Inside n (copyAt pos bs) := by
  intro s hs
  have hin : s.1 ∈ List.range' pos bs.length := by
    rw [← copyAt_offsets]
    exact List.mem_map_of_mem hs
  have hlt := (List.mem_range'_1.mp hin).2
  omega

/-- A copy to the start of the buffer stays in it when it is no longer. -/
theorem inside_copyAt_zero : Inside n (copyAt 0 bs) ↔ bs.length ≤ n := by
  constructor
  · intro h
    apply Nat.le_of_not_lt
    intro hlt
    have hlast : bs.length - 1 ∈ (copyAt 0 bs).map Prod.fst := by
      rw [copyAt_offsets, List.mem_range'_1]
      omega
    obtain ⟨s, hs, hoff⟩ := List.mem_map.mp hlast
    have hin := h s hs
    omega
  · intro h
    exact inside_copyAt (by omega)

theorem byteAt_append (ws ws' : List Store) (i : Nat) :
    byteAt (ws ++ ws') i = (byteAt ws' i).or (byteAt ws i) := by
  rw [byteAt, List.reverse_append, List.find?_append, Option.map_or]
  rfl

theorem byteAt_single (pos : Nat) (b : UInt8) (i : Nat) :
    byteAt [(pos, b)] i = if pos = i then some b else none := by
  by_cases h : pos = i
  · simp [byteAt, h]
  · simp [byteAt, h]

/-- What a copy leaves. -/
theorem byteAt_copyAt (pos : Nat) (bs : List UInt8) (i : Nat) :
    byteAt (copyAt pos bs) i = if pos ≤ i then bs[i - pos]? else none := by
  induction bs generalizing pos with
  | nil => simp [byteAt]
  | cons b bs ih =>
    have hsplit : copyAt pos (b :: bs) = [(pos, b)] ++ copyAt (pos + 1) bs := rfl
    rw [hsplit, byteAt_append, byteAt_single, ih]
    by_cases hlt : pos + 1 ≤ i
    · -- behind the first byte
      rw [if_pos hlt, if_neg (by omega), if_pos (by omega), Option.or_none,
        show i - pos = (i - (pos + 1)) + 1 by omega, List.getElem?_cons_succ]
    · rw [if_neg hlt, Option.none_or]
      by_cases heq : pos = i
      · subst heq
        simp
      · rw [if_neg heq, if_neg (by omega)]

/-- A copy to the start of the buffer. -/
theorem fills_copyAt (bs : List UInt8) : Fills (copyAt 0 bs) bs := by
  intro i hi
  rw [byteAt_copyAt, if_pos (Nat.zero_le _), Nat.sub_zero]

/-- A store right behind the bytes. -/
theorem Fills.snoc (h : Fills ws bs) (b : UInt8) :
    Fills (ws ++ [(bs.length, b)]) (bs ++ [b]) := by
  intro i hi
  rw [List.length_append, List.length_singleton] at hi
  rw [byteAt_append, byteAt_single]
  by_cases heq : bs.length = i
  · subst heq
    rw [if_pos rfl, List.getElem?_append_right (Nat.le_refl _), Nat.sub_self]
    rfl
  · rw [if_neg heq, Option.none_or, List.getElem?_append_left (by omega)]
    exact h i (by omega)

/-- A byte that is stored before the bytes in front of it. -/
theorem fills_end_first (bs : List UInt8) (b : UInt8) :
    Fills ((bs.length, b) :: copyAt 0 bs) (bs ++ [b]) := by
  intro i hi
  rw [List.length_append, List.length_singleton] at hi
  rw [← List.singleton_append, byteAt_append, byteAt_copyAt, if_pos (Nat.zero_le _),
    Nat.sub_zero, byteAt_single]
  by_cases heq : bs.length = i
  · subst heq
    rw [if_pos rfl, List.getElem?_eq_none (Nat.le_refl _), Option.none_or,
      List.getElem?_append_right (Nat.le_refl _), Nat.sub_self]
    rfl
  · rw [if_neg heq, Option.or_none, List.getElem?_append_left (by omega)]

/-- Of what fills a buffer, the start does. -/
theorem Fills.take (h : Fills ws bs) (n : Nat) : Fills ws (bs.take n) := by
  intro i hi
  rw [List.length_take] at hi
  rw [List.getElem?_take_of_lt (by omega)]
  exact h i (by omega)

end Stores

end Spr.Buffers
