import Spr.Framework.Unicode
import Mathlib.Data.Nat.Bitwise

/-! # Path conversion: UTF-8 bytes to 16-bit units

    `spr_utf8_decode` and `spr_path_to_wchar` of the Win32 file layer.

    A byte pointer is the list of the bytes from it to the end of the object
    it points into (`*p` is the head, `p++` the tail), and the output is the
    list of units stored so far: the stores go to consecutive places from
    `outstr` on.  Reading past the end of the input object and storing past the
    end of the output object are faults, so a run that ends without a fault has
    kept to both. -/

namespace Spr.Filesys

open Spr.Unicode

/-! ## Section 1: Model -/

/-- An access outside the object a pointer points into. -/
inductive Fault where
  | readPastEnd
  | writePastEnd
  deriving DecidableEq, Repr

/-- `*p` -/
def readByte : List UInt8 → Except Fault UInt8
  | [] => .error .readPastEnd
  | b :: _ => .ok b

/-- `*u++ = x`, into an object of `cap` units. -/
def storeUnit (cap : Nat) (out : List UInt16) (x : UInt16) : Except Fault (List UInt16) :=
  if out.length < cap then .ok (out ++ [x]) else .error .writePastEnd

/-- The continuation loop of `spr_utf8_decode`: `len` bytes are still owed.
    The value is `none` when a byte below `0x80` stops it. -/
def decodeTail : Nat → Nat → List UInt8 → Except Fault (Option Nat × List UInt8)
  | 0, u, p => .ok (some u, p)
  | _ + 1, _, [] => .error .readPastEnd
  | len + 1, u, i :: p =>
      if i < 0x80 then .ok (none, p)
      else decodeTail len ((u <<< 6) % 2 ^ 32 ||| (i.toNat &&& 0x3f)) p

/-- What `spr_utf8_decode` does after the lead byte has chosen `u`, `valid`
    and `len`; `p` still points at the lead byte. -/
def decodeLead (p : List UInt8) (n u valid len : Nat) : Except Fault (Nat × List UInt8) :=
  if (n + 2 ^ 64 - 1) % 2 ^ 64 < len then .ok (0xfffffffe, p)
  else do
    let (r, q) ← decodeTail len u p.tail
    match r with
    | none => .ok (0xffffffff, q)
    | some u => if valid < u then .ok (u, q) else .ok (0xffffffff, q)

/-- `spr_utf8_decode(&p, n)`: the decoded value and where `p` is left. -/
def sprUtf8Decode (p : List UInt8) (n : Nat) : Except Fault (Nat × List UInt8) := do
  let u ← readByte p
  if 0xf0 ≤ u then decodeLead p n (u.toNat &&& 0x07) 0xffff 3
  else if 0xe0 ≤ u then decodeLead p n (u.toNat &&& 0x0f) 0x7ff 2
  else if 0xc2 ≤ u then decodeLead p n (u.toNat &&& 0x1f) 0x7f 1
  else .ok (0xffffffff, p.tail)

/-- The `while (u < last)` loop of `spr_path_to_wchar`.  Every iteration that
    goes on stores a unit, so `outlen` iterations are enough. -/
def wcharLoop (cap outlen : Nat) :
    Nat → List UInt8 → List UInt16 → Except Fault (List UInt16 × Bool)
  | 0, _, out => .ok (out, false)
  | fuel + 1, p, out =>
      if out.length < outlen then do
        let c ← readByte p
        if c < 0x80 then do
          let out ← storeUnit cap out c.toUInt16
          if c = 0 then .ok (out, true) else wcharLoop cap outlen fuel p.tail out
        else if out.length + 1 = outlen then .ok (out, false)
        else do
          let (n, p) ← sprUtf8Decode p 4
          if 0x10ffff < n then .ok (out, false)
          else if 0xffff < n then do
            let out ← storeUnit cap out (UInt16.ofNat (0xd800 + ((n - 0x10000) >>> 10)))
            let out ← storeUnit cap out (UInt16.ofNat (0xdc00 + ((n - 0x10000) &&& 0x03ff)))
            wcharLoop cap outlen fuel p out
          else do
            let out ← storeUnit cap out (UInt16.ofNat n)
            wcharLoop cap outlen fuel p out
      else .ok (out, false)

/-- `spr_path_to_wchar(outstr, outlen, instr)`, where `outstr` really has room
    for `cap` units: the units stored, and whether `outstr` (not `NULL`) is
    returned. -/
def sprPathToWchar (cap outlen : Nat) (instr : List UInt8) : Except Fault (List UInt16 × Bool) :=
  wcharLoop cap outlen outlen instr []

/-! ## Section 2: The byte groups the decoder takes -/

/-- `Accepted w v`: the loop takes the bytes `w` as one character of value `v`.
    These are the tests of the code, no more: any lead byte from `0xf0` on opens
    four bytes, and any byte from `0x80` on continues. -/
inductive Accepted : List UInt8 → Nat → Prop where
  | one {a : UInt8} : 0 < a.toNat → a.toNat < 0x80 → Accepted [a] a.toNat
  | two {a b : UInt8} : 0xc2 ≤ a.toNat → a.toNat < 0xe0 → 0x80 ≤ b.toNat →
      Accepted [a, b] (a.toNat % 32 * 64 + b.toNat % 64)
  | three {a b c : UInt8} : 0xe0 ≤ a.toNat → a.toNat < 0xf0 → 0x80 ≤ b.toNat → 0x80 ≤ c.toNat →
      0x7ff < a.toNat % 16 * 4096 + b.toNat % 64 * 64 + c.toNat % 64 →
      Accepted [a, b, c] (a.toNat % 16 * 4096 + b.toNat % 64 * 64 + c.toNat % 64)
  | four {a b c d : UInt8} : 0xf0 ≤ a.toNat → 0x80 ≤ b.toNat → 0x80 ≤ c.toNat → 0x80 ≤ d.toNat →
      0xffff < a.toNat % 8 * 262144 + b.toNat % 64 * 4096 + c.toNat % 64 * 64 + d.toNat % 64 →
      a.toNat % 8 * 262144 + b.toNat % 64 * 4096 + c.toNat % 64 * 64 + d.toNat % 64 ≤ 0x10ffff →
      Accepted [a, b, c, d]
        (a.toNat % 8 * 262144 + b.toNat % 64 * 4096 + c.toNat % 64 * 64 + d.toNat % 64)

/-- The units stored for a value. -/
def unitsOf (v : Nat) : List UInt16 :=
  if 0xffff < v then
    [UInt16.ofNat (0xd800 + (v - 0x10000) / 0x400), UInt16.ofNat (0xdc00 + (v - 0x10000) % 0x400)]
  else [UInt16.ofNat v]

/-- A reading of a byte string: byte groups with their values. -/
abbrev Reading := List (List UInt8 × Nat)

/-- The bytes a reading spells. -/
def Reading.bytes (r : Reading) : List UInt8 := r.flatMap Prod.fst

/-- The units a reading is converted to. -/
def Reading.units (r : Reading) : List UInt16 := r.flatMap (fun x => unitsOf x.2)

/-- Every group of the reading passes the tests of the code. -/
def Reading.Ok (r : Reading) : Prop := ∀ x ∈ r, Accepted x.1 x.2

@[simp] theorem Reading.bytes_nil : Reading.bytes [] = [] := rfl
@[simp] theorem Reading.units_nil : Reading.units [] = [] := rfl
@[simp] theorem Reading.bytes_cons (x : List UInt8 × Nat) (r : Reading) :
    Reading.bytes (x :: r) = x.1 ++ Reading.bytes r := rfl
@[simp] theorem Reading.units_cons (x : List UInt8 × Nat) (r : Reading) :
    Reading.units (x :: r) = unitsOf x.2 ++ Reading.units r := rfl

theorem Reading.ok_cons {x : List UInt8 × Nat} {r : Reading} :
    Reading.Ok (x :: r) ↔ Accepted x.1 x.2 ∧ Reading.Ok r := by
  simp [Reading.Ok]

theorem unitsOf_length (v : Nat) : (unitsOf v).length = if 0xffff < v then 2 else 1 := by
  unfold unitsOf
  split <;> rfl

/-! ## Section 3: One call of the decoder -/

@[simp] theorem except_ok_bind {ε α β : Type} (a : α) (f : α → Except ε β) :
    (Except.ok a >>= f) = f a := rfl

@[simp] theorem except_error_bind {ε α β : Type} (e : ε) (f : α → Except ε β) :
    ((Except.error e : Except ε α) >>= f) = .error e := rfl

/-- One continuation byte shifts the value by six bits. -/
theorem shift_or (u i : Nat) (hu : u < 2 ^ 26) :
    (u <<< 6) % 2 ^ 32 ||| (i &&& 0x3f) = u * 64 + i % 64 := by
  have hshift : u <<< 6 = u * 64 := by rw [Nat.shiftLeft_eq]
  have hand : i &&& 0x3f = i % 64 := Nat.and_two_pow_sub_one_eq_mod i 6
  have hmod : (u <<< 6) % 2 ^ 32 = u <<< 6 := by
    rw [hshift]; exact Nat.mod_eq_of_lt (by omega)
  rw [hmod, hand, ← hshift]
  rw [← Nat.shiftLeft_add_eq_or_of_lt (b := i % 64) (by omega) u]

/-- A continuation byte that is let through. -/
theorem decodeTail_step {len u : Nat} {i : UInt8} {p : List UInt8} (hu : u < 2 ^ 26)
    (hi : 0x80 ≤ i.toNat) :
    decodeTail (len + 1) u (i :: p) = decodeTail len (u * 64 + i.toNat % 64) p := by
  have hlow : ¬ i < 0x80 := by
    rw [UInt8.lt_iff_toNat_lt]; exact Nat.not_lt.mpr hi
  rw [decodeTail, if_neg hlow, shift_or _ _ hu]

/-- The lead byte tests read as numbers. -/
theorem sprUtf8Decode_lead (a : UInt8) (p : List UInt8) :
    sprUtf8Decode (a :: p) 4 =
      if 0xf0 ≤ a.toNat then decodeLead (a :: p) 4 (a.toNat % 8) 0xffff 3
      else if 0xe0 ≤ a.toNat then decodeLead (a :: p) 4 (a.toNat % 16) 0x7ff 2
      else if 0xc2 ≤ a.toNat then decodeLead (a :: p) 4 (a.toNat % 32) 0x7f 1
      else .ok (0xffffffff, p) := by
  have h7 : a.toNat &&& 0x07 = a.toNat % 8 := Nat.and_two_pow_sub_one_eq_mod _ 3
  have hf : a.toNat &&& 0x0f = a.toNat % 16 := Nat.and_two_pow_sub_one_eq_mod _ 4
  have h1f : a.toNat &&& 0x1f = a.toNat % 32 := Nat.and_two_pow_sub_one_eq_mod _ 5
  simp only [sprUtf8Decode, readByte, except_ok_bind, UInt8.le_iff_toNat_le, h7, hf, h1f,
    List.tail_cons]
  rfl

/-- With four bytes announced, no lead byte is refused for want of input. -/
theorem decodeLead_four {a : UInt8} {p : List UInt8} {u valid len : Nat} (hlen : len ≤ 3) :
    decodeLead (a :: p) 4 u valid len = (do
      let (r, q) ← decodeTail len u p
      match r with
      | none => .ok (0xffffffff, q)
      | some u => if valid < u then .ok (u, q) else .ok (0xffffffff, q)) := by
  rw [decodeLead, if_neg (by omega)]
  rfl

/-- The value that the bytes behind the lead byte come to. -/
def tailValue (u : Nat) (l : List UInt8) : Nat := l.foldl (fun acc b => acc * 64 + b.toNat % 64) u

/-- The value has room for as many bytes as are announced. -/
theorem tail_room {u len : Nat} (hu : (u + 1) * 64 ^ (len + 1) ≤ 2 ^ 26) (i : Nat) :
    u < 2 ^ 26 ∧ (u * 64 + i % 64 + 1) * 64 ^ len ≤ 2 ^ 26 := by
  have hpos : 0 < 64 ^ (len + 1) := Nat.pow_pos (by omega)
  constructor
  · have : (u + 1) * 1 ≤ (u + 1) * 64 ^ (len + 1) := Nat.mul_le_mul_left _ hpos
    omega
  · calc (u * 64 + i % 64 + 1) * 64 ^ len
        ≤ ((u + 1) * 64) * 64 ^ len := Nat.mul_le_mul_right _ (by omega)
      _ = (u + 1) * 64 ^ (len + 1) := by rw [Nat.mul_assoc, Nat.pow_succ, Nat.mul_comm 64]
      _ ≤ 2 ^ 26 := hu

/-- The continuation loop takes all bytes that are let through. -/
theorem decodeTail_run {l : List UInt8} {u : Nat} (hu : (u + 1) * 64 ^ l.length ≤ 2 ^ 26)
    (hl : ∀ b ∈ l, 0x80 ≤ b.toNat) (rest : List UInt8) :
    decodeTail l.length u (l ++ rest) = .ok (some (tailValue u l), rest) := by
  induction l generalizing u with
  | nil => rfl
  | cons b l ih =>
    rw [List.length_cons] at hu ⊢
    obtain ⟨hlt, hnext⟩ := tail_room hu b.toNat
    rw [List.cons_append, decodeTail_step hlt (hl b List.mem_cons_self),
      ih hnext fun c hc => hl c (List.mem_cons_of_mem _ hc)]
    rfl

/-- What follows when the lead byte has announced these bytes. -/
theorem decodeLead_run (a : UInt8) (l : List UInt8) (u valid : Nat) (hlen : l.length ≤ 3)
    (hu : (u + 1) * 64 ^ l.length ≤ 2 ^ 26) (hl : ∀ b ∈ l, 0x80 ≤ b.toNat)
    (hvalid : valid < tailValue u l) (rest : List UInt8) :
    decodeLead (a :: (l ++ rest)) 4 u valid l.length = .ok (tailValue u l, rest) := by
  rw [decodeLead_four hlen, decodeTail_run hu hl, except_ok_bind]
  exact if_pos hvalid

/-- **The decoder consumes exactly the bytes of an accepted group** and returns
    its value. -/
theorem sprUtf8Decode_accepted {w : List UInt8} {v : Nat} (h : Accepted w v)
    (hv : 0x80 ≤ v) (rest : List UInt8) : sprUtf8Decode (w ++ rest) 4 = .ok (v, rest) := by
  cases h with
  | one _ hlt => omega
  | @two a b ha ha' hb =>
    have hrun := decodeLead_run a [b] (a.toNat % 32) 0x7f
      (Nat.le_of_ble_eq_true rfl) (by simp only [List.length_cons, List.length_nil]; omega)
      (by simpa using hb) (by simp only [tailValue, List.foldl_cons, List.foldl_nil]; omega) rest
    rw [List.cons_append, sprUtf8Decode_lead, if_neg (by omega), if_neg (by omega), if_pos ha]
    exact hrun
  | @three a b c ha ha' hb hc hv' =>
    have hvalue : tailValue (a.toNat % 16) [b, c]
        = a.toNat % 16 * 4096 + b.toNat % 64 * 64 + c.toNat % 64 := by
      simp only [tailValue, List.foldl_cons, List.foldl_nil]
      omega
    have hrun := decodeLead_run a [b, c] (a.toNat % 16) 0x7ff
      (Nat.le_of_ble_eq_true rfl) (by simp only [List.length_cons, List.length_nil]; omega)
      (by simpa using ⟨hb, hc⟩) (by rw [hvalue]; exact hv') rest
    rw [hvalue] at hrun
    rw [List.cons_append, sprUtf8Decode_lead, if_neg (by omega), if_pos ha]
    exact hrun
  | @four a b c d ha hb hc hd hv' hmax =>
    have hvalue : tailValue (a.toNat % 8) [b, c, d]
        = a.toNat % 8 * 262144 + b.toNat % 64 * 4096 + c.toNat % 64 * 64 + d.toNat % 64 := by
      simp only [tailValue, List.foldl_cons, List.foldl_nil]
      omega
    have hrun := decodeLead_run a [b, c, d] (a.toNat % 8) 0xffff
      (Nat.le_of_ble_eq_true rfl) (by simp only [List.length_cons, List.length_nil]; omega)
      (by simpa using ⟨hb, hc, hd⟩) (by rw [hvalue]; exact hv') rest
    rw [hvalue] at hrun
    rw [List.cons_append, sprUtf8Decode_lead, if_pos ha]
    exact hrun

/-- What the continuation loop says when it is not stopped: every byte it took
    is from `0x80` on. -/
theorem decodeTail_some {len u v : Nat} {p q : List UInt8} (hu : (u + 1) * 64 ^ len ≤ 2 ^ 26)
    (h : decodeTail len u p = .ok (some v, q)) :
    ∃ w, p = w ++ q ∧ w.length = len ∧ (∀ b ∈ w, 0x80 ≤ b.toNat) ∧
      v = tailValue u w := by
  induction len generalizing u p with
  | zero =>
    simp only [decodeTail, Except.ok.injEq, Prod.mk.injEq, Option.some.injEq] at h
    obtain ⟨rfl, rfl⟩ := h
    exact ⟨[], rfl, rfl, by simp, rfl⟩
  | succ len ih =>
    cases p with
    | nil => simp [decodeTail] at h
    | cons i p =>
      by_cases hi : 0x80 ≤ i.toNat
      · obtain ⟨hu', hnext⟩ := tail_room hu i.toNat
        rw [decodeTail_step hu' hi] at h
        obtain ⟨w, rfl, hlen, hw, hv⟩ := ih hnext h
        exact ⟨i :: w, rfl, by simp [hlen], by simpa using ⟨hi, hw⟩, hv⟩
      · have : i < 0x80 := by rw [UInt8.lt_iff_toNat_lt]; exact Nat.lt_of_not_le hi
        simp [decodeTail, this] at h

/-- What a call that returns a scalar-sized value says about the lead part. -/
theorem decodeLead_some {a : UInt8} {p q : List UInt8} {u valid len n : Nat} (hlen : len ≤ 3)
    (hu : (u + 1) * 64 ^ len ≤ 2 ^ 26) (hn : n ≤ 0x10ffff)
    (h : decodeLead (a :: p) 4 u valid len = .ok (n, q)) :
    ∃ w, p = w ++ q ∧ w.length = len ∧ (∀ b ∈ w, 0x80 ≤ b.toNat) ∧ valid < n ∧
      n = tailValue u w := by
  rw [decodeLead_four hlen] at h
  cases ht : decodeTail len u p with
  | error e => simp [ht] at h
  | ok r =>
    obtain ⟨r, q'⟩ := r
    rw [ht, except_ok_bind] at h
    cases r with
    | none =>
      simp only [Except.ok.injEq, Prod.mk.injEq] at h
      omega
    | some v =>
      dsimp only at h
      split at h
      · next hvalid =>
        simp only [Except.ok.injEq, Prod.mk.injEq] at h
        obtain ⟨rfl, rfl⟩ := h
        obtain ⟨w, hp, hl, hb, hv⟩ := decodeTail_some hu ht
        exact ⟨w, hp, hl, hb, hvalid, hv⟩
      · simp only [Except.ok.injEq, Prod.mk.injEq] at h
        omega

/-- **Only accepted groups get through**: a call that returns a value up to
    U+10FFFF has taken an accepted group of that value. -/
theorem accepted_of_sprUtf8Decode {a : UInt8} {p q : List UInt8} {n : Nat} (hn : n ≤ 0x10ffff)
    (h : sprUtf8Decode (a :: p) 4 = .ok (n, q)) :
    ∃ w, a :: p = w ++ q ∧ Accepted w n ∧ 0x80 ≤ n := by
  rw [sprUtf8Decode_lead] at h
  split at h
  · next ha =>
    obtain ⟨w, rfl, hl, hb, hv, hval⟩ := decodeLead_some (by omega) (by omega) hn h
    obtain ⟨b, c, d, rfl⟩ := List.length_eq_three.mp hl
    simp only [List.mem_cons, List.not_mem_nil, or_false, forall_eq_or_imp, forall_eq,
      tailValue, List.foldl_cons, List.foldl_nil] at hb hval
    have e : n = a.toNat % 8 * 262144 + b.toNat % 64 * 4096 + c.toNat % 64 * 64 + d.toNat % 64 := by
      omega
    subst e
    exact ⟨[a, b, c, d], rfl, Accepted.four ha hb.1 hb.2.1 hb.2.2 hv hn, by omega⟩
  split at h
  · next ha' ha =>
    obtain ⟨w, rfl, hl, hb, hv, hval⟩ := decodeLead_some (by omega) (by omega) hn h
    obtain ⟨b, c, rfl⟩ := List.length_eq_two.mp hl
    simp only [List.mem_cons, List.not_mem_nil, or_false, forall_eq_or_imp, forall_eq,
      tailValue, List.foldl_cons, List.foldl_nil] at hb hval
    have e : n = a.toNat % 16 * 4096 + b.toNat % 64 * 64 + c.toNat % 64 := by omega
    subst e
    exact ⟨[a, b, c], rfl, Accepted.three ha (by omega) hb.1 hb.2 hv, by omega⟩
  split at h
  · next ha' ha =>
    obtain ⟨w, rfl, hl, hb, hv, hval⟩ := decodeLead_some (by omega) (by omega) hn h
    obtain ⟨b, rfl⟩ := List.length_eq_one_iff.mp hl
    simp only [List.mem_cons, List.not_mem_nil, or_false, forall_eq,
      tailValue, List.foldl_cons, List.foldl_nil] at hb hval
    subst hval
    exact ⟨[a, b], rfl, Accepted.two ha (by omega) hb, by omega⟩
  · simp only [Except.ok.injEq, Prod.mk.injEq] at h
    omega

/-! ## Section 4: The conversion loop on a reading -/

/-- The two ways the code computes the halves of a surrogate pair. -/
theorem surrogate_bits (v : Nat) :
    (v - 0x10000) >>> 10 = (v - 0x10000) / 0x400 ∧
      (v - 0x10000) &&& 0x03ff = (v - 0x10000) % 0x400 :=
  ⟨Nat.shiftRight_eq_div_pow _ 10, Nat.and_two_pow_sub_one_eq_mod _ 10⟩

theorem storeUnit_ok {cap : Nat} {out : List UInt16} {x : UInt16} (h : out.length < cap) :
    storeUnit cap out x = .ok (out ++ [x]) := if_pos h

theorem unitsOf_ascii {a : UInt8} (h : a.toNat < 0x80) : unitsOf a.toNat = [a.toUInt16] := by
  have : UInt16.ofNat a.toNat = a.toUInt16 := by
    apply UInt16.toNat_inj.mp
    rw [toNat_ofNat_of_lt (by omega), UInt8.toNat_toUInt16]
  rw [unitsOf, if_neg (by omega), this]

/-- One iteration on an accepted group, with room for its units. -/
theorem wcharLoop_group {cap outlen fuel : Nat} {w : List UInt8} {v : Nat} (h : Accepted w v)
    {rest : List UInt8} {out : List UInt16}
    (hroom : out.length + (unitsOf v).length ≤ outlen)
    (hnext : 0x80 ≤ v → out.length + 1 < outlen)
    (hcap : out.length + (unitsOf v).length ≤ cap) :
    wcharLoop cap outlen (fuel + 1) (w ++ rest) out
      = wcharLoop cap outlen fuel rest (out ++ unitsOf v) := by
  by_cases hv : 0x80 ≤ v
  · -- a group of several bytes goes through the decoder
    have hdec := sprUtf8Decode_accepted h hv rest
    have hmax : v ≤ 0x10ffff := by cases h <;> omega
    obtain ⟨a, w', rfl, ha⟩ : ∃ a w', w = a :: w' ∧ 0x80 ≤ a.toNat := by
      cases h with
      | one _ _ => omega
      | two ha _ _ => exact ⟨_, _, rfl, by omega⟩
      | three ha _ _ _ _ => exact ⟨_, _, rfl, by omega⟩
      | four ha _ _ _ _ _ => exact ⟨_, _, rfl, by omega⟩
    have hnot : ¬ a < 0x80 := by rw [UInt8.lt_iff_toNat_lt]; exact Nat.not_lt.mpr ha
    have hlen := unitsOf_length v
    rw [wcharLoop, if_pos (by have := hnext hv; omega)]
    simp only [List.cons_append, readByte, except_ok_bind]
    rw [if_neg hnot, if_neg (by have := hnext hv; omega), ← List.cons_append, hdec]
    simp only [except_ok_bind]
    rw [if_neg (by omega)]
    by_cases hbig : 0xffff < v
    · rw [if_pos hbig] at hlen
      rw [if_pos hbig, storeUnit_ok (by omega)]
      simp only [except_ok_bind]
      rw [storeUnit_ok (by simp; omega), (surrogate_bits v).1, (surrogate_bits v).2, unitsOf,
        if_pos hbig]
      simp
    · rw [if_neg hbig] at hlen
      rw [if_neg hbig, storeUnit_ok (by omega), unitsOf, if_neg hbig]
      rfl
  · cases h with
    | @one a hpos hlt =>
      have hlen := unitsOf_length a.toNat
      rw [if_neg (by omega)] at hlen
      have hcond : a < 0x80 := by rw [UInt8.lt_iff_toNat_lt]; exact hlt
      have hne : a ≠ 0 := by
        rintro rfl
        exact absurd hpos (by decide)
      rw [wcharLoop, if_pos (by omega)]
      simp only [List.cons_append, readByte, except_ok_bind, List.nil_append]
      rw [if_pos hcond, storeUnit_ok (by omega), unitsOf_ascii hlt]
      simp [hne]
    | two _ _ _ => omega
    | three _ _ _ _ _ => omega
    | four _ _ _ _ _ _ => omega

/-- The terminator ends the loop with `outstr`. -/
theorem wcharLoop_nul {cap outlen fuel : Nat} {junk : List UInt8} {out : List UInt16}
    (hroom : out.length < outlen) (hcap : out.length < cap) :
    wcharLoop cap outlen (fuel + 1) (0 :: junk) out = .ok (out ++ [0], true) := by
  rw [wcharLoop, if_pos hroom]
  simp only [readByte, except_ok_bind]
  rw [if_pos (by decide), storeUnit_ok hcap]
  rfl

/-- Once the output is full the loop ends with `NULL`. -/
theorem wcharLoop_full {cap outlen fuel : Nat} {p : List UInt8} {out : List UInt16}
    (hfull : outlen ≤ out.length) : wcharLoop cap outlen fuel p out = .ok (out, false) := by
  cases fuel with
  | zero => rfl
  | succ fuel => rw [wcharLoop, if_neg (Nat.not_lt.mpr hfull)]

theorem Accepted.lead {w : List UInt8} {v : Nat} (h : Accepted w v) :
    ∃ a w', w = a :: w' ∧ (0x80 ≤ a.toNat ↔ 0x80 ≤ v) := by
  cases h with
  | one _ hlt => exact ⟨_, _, rfl, by omega⟩
  | two ha _ _ => exact ⟨_, _, rfl, by omega⟩
  | three ha _ _ _ _ => exact ⟨_, _, rfl, by omega⟩
  | four ha _ _ _ _ _ => exact ⟨_, _, rfl, by omega⟩

theorem unitsOf_pos (v : Nat) : 1 ≤ (unitsOf v).length := by
  rw [unitsOf_length]
  split <;> omega

/-- One iteration for each group of a reading that leaves room for a unit. -/
theorem wcharLoop_reading {cap outlen : Nat} {r : Reading} (hr : r.Ok) (rest : List UInt8) :
    ∀ {fuel : Nat} {out : List UInt16}, out.length + r.units.length < outlen →
      out.length + r.units.length ≤ cap →
      wcharLoop cap outlen (fuel + r.length) (r.bytes ++ rest) out
        = wcharLoop cap outlen fuel rest (out ++ r.units) := by
  induction r with
  | nil => intro fuel out _ _; simp
  | cons x r ih =>
    intro fuel out hroom hcap
    obtain ⟨hx, hr⟩ := Reading.ok_cons.mp hr
    simp only [Reading.units_cons, List.length_append] at hroom hcap
    have hpos := unitsOf_pos x.2
    rw [List.length_cons, ← Nat.add_assoc, Reading.bytes_cons, List.append_assoc,
      wcharLoop_group hx (by omega) (fun _ => by omega) (by omega),
      ih hr (by simp only [List.length_append]; omega) (by simp only [List.length_append]; omega)]
    simp

theorem Reading.length_le_units (r : Reading) : r.length ≤ r.units.length := by
  induction r with
  | nil => simp
  | cons x r ih =>
    have := unitsOf_pos x.2
    simp only [Reading.units_cons, List.length_append, List.length_cons]
    omega

/-- A reading with fewer units than `outlen` is converted in full. -/
theorem wcharLoop_fits {cap outlen fuel : Nat} {r : Reading} (hr : r.Ok) (junk : List UInt8)
    {out : List UInt16} (hfuel : outlen ≤ fuel + out.length)
    (hroom : out.length + r.units.length < outlen) (hcap : out.length + r.units.length < cap) :
    wcharLoop cap outlen fuel (r.bytes ++ 0 :: junk) out = .ok (out ++ r.units ++ [0], true) := by
  have hlen := r.length_le_units
  obtain ⟨k, rfl⟩ : ∃ k, fuel = k + 1 + r.length := ⟨fuel - 1 - r.length, by omega⟩
  rw [wcharLoop_reading hr _ hroom (by omega),
    wcharLoop_nul (by simpa using hroom) (by simpa using hcap)]

/-- A reading that fills the output object below `outlen` makes the store of the
    terminator fault. -/
theorem wcharLoop_overrun {cap outlen fuel : Nat} {r : Reading} (hr : r.Ok) (junk : List UInt8)
    (hfuel : outlen ≤ fuel) (hroom : cap < outlen) (hcap : r.units.length = cap) :
    wcharLoop cap outlen fuel (r.bytes ++ 0 :: junk) [] = .error .writePastEnd := by
  have hlen := r.length_le_units
  obtain ⟨k, rfl⟩ : ∃ k, fuel = k + 1 + r.length := ⟨fuel - 1 - r.length, by omega⟩
  rw [wcharLoop_reading hr _ (by simpa [hcap] using hroom) (by simp [hcap]), wcharLoop,
    if_pos (by simpa [hcap] using hroom)]
  simp only [readByte, except_ok_bind]
  rw [if_pos (by decide), storeUnit, if_neg (by simp [hcap])]
  rfl

/-- A reading with `outlen` units or more makes the loop return `NULL`, inside
    the output object. -/
theorem wcharLoop_long {cap outlen : Nat} (hcap : outlen ≤ cap) {r : Reading} (hr : r.Ok)
    (rest : List UInt8) :
    ∀ {fuel : Nat} {out : List UInt16}, outlen ≤ out.length + r.units.length →
      ∃ o, wcharLoop cap outlen fuel (r.bytes ++ rest) out = .ok (o, false) := by
  induction r with
  | nil =>
    intro fuel out hlong
    exact ⟨out, wcharLoop_full (by simpa using hlong)⟩
  | cons x r ih =>
    intro fuel out hlong
    obtain ⟨hx, hr⟩ := Reading.ok_cons.mp hr
    simp only [Reading.units_cons, List.length_append] at hlong
    cases fuel with
    | zero => exact ⟨out, rfl⟩
    | succ fuel =>
      by_cases hfull : outlen ≤ out.length
      · exact ⟨out, wcharLoop_full hfull⟩
      have hlen := unitsOf_length x.2
      by_cases hlast : 0x80 ≤ x.2 ∧ out.length + 1 = outlen
      · -- the character would need the place of the last unit: `u + 1 == last`
        obtain ⟨a, w', hw, ha⟩ := hx.lead
        have hnot : ¬ a < 0x80 := by
          rw [UInt8.lt_iff_toNat_lt]; exact Nat.not_lt.mpr (ha.mpr hlast.1)
        refine ⟨out, ?_⟩
        rw [Reading.bytes_cons, hw, wcharLoop, if_pos (by omega)]
        simp only [List.cons_append, readByte, except_ok_bind]
        rw [if_neg hnot, if_pos hlast.2]
      · have hstep : wcharLoop cap outlen (fuel + 1) (x.1 ++ (Reading.bytes r ++ rest)) out
            = wcharLoop cap outlen fuel (Reading.bytes r ++ rest) (out ++ unitsOf x.2) :=
          wcharLoop_group hx
            (by split at hlen <;> omega) (fun h => by omega) (by split at hlen <;> omega)
        have hlong' : outlen ≤ (out ++ unitsOf x.2).length + (Reading.units r).length := by
          simp only [List.length_append]; omega
        obtain ⟨o, ho⟩ : ∃ o, wcharLoop cap outlen fuel (Reading.bytes r ++ rest)
            (out ++ unitsOf x.2) = .ok (o, false) := ih hr hlong'
        exact ⟨o, by rw [Reading.bytes_cons, List.append_assoc, hstep, ho]⟩

/-- Going on after a store means that the store was made. -/
theorem of_storeUnit_bind {α : Type} {cap : Nat} {out : List UInt16} {x : UInt16}
    {f : List UInt16 → Except Fault α} {res : α}
    (h : (storeUnit cap out x >>= f) = .ok res) : f (out ++ [x]) = .ok res := by
  unfold storeUnit at h
  split at h
  · exact h
  · simp at h

/-- One iteration that goes on, or ends with `outstr`, has taken the terminator
    or an accepted group. -/
theorem wcharLoop_inv {cap outlen fuel : Nat} {p : List UInt8} {out o : List UInt16}
    (h : wcharLoop cap outlen (fuel + 1) p out = .ok (o, true)) :
    (∃ junk, p = 0 :: junk ∧ o = out ++ [0] ∧ out.length < outlen) ∨
    (∃ w v rest, p = w ++ rest ∧ Accepted w v ∧
      wcharLoop cap outlen fuel rest (out ++ unitsOf v) = .ok (o, true)) := by
  rw [wcharLoop] at h
  split at h
  case isFalse => simp at h
  case isTrue hroom =>
  cases p with
  | nil => simp [readByte] at h
  | cons c p =>
    simp only [readByte, except_ok_bind] at h
    split at h
    · next hc =>
      -- an ASCII byte is a unit, and the terminator ends the loop
      rw [UInt8.lt_iff_toNat_lt] at hc
      have h := of_storeUnit_bind h
      by_cases hz : c = 0
      · subst hz
        simp only [if_true, Except.ok.injEq, Prod.mk.injEq, and_true] at h
        exact Or.inl ⟨p, rfl, h.symm, hroom⟩
      · rw [if_neg hz, List.tail_cons] at h
        have hpos : 0 < c.toNat := by
          rcases Nat.eq_zero_or_pos c.toNat with h0 | h0
          · exact absurd (UInt8.toNat_inj.mp h0) hz
          · exact h0
        refine Or.inr ⟨[c], c.toNat, p, rfl, Accepted.one hpos hc, ?_⟩
        rwa [unitsOf_ascii hc]
    · split at h
      · simp at h
      · cases hd : sprUtf8Decode (c :: p) 4 with
        | error e => simp [hd] at h
        | ok res =>
          -- what the decoder has read is one or two units
          obtain ⟨n, q⟩ := res
          rw [hd, except_ok_bind] at h
          dsimp only at h
          split at h
          · simp at h
          · next hmax =>
            obtain ⟨w, hw, hacc, -⟩ := accepted_of_sprUtf8Decode (Nat.not_lt.mp hmax) hd
            refine Or.inr ⟨w, n, q, hw, hacc, ?_⟩
            split at h
            · next hbig =>
              have h := of_storeUnit_bind (of_storeUnit_bind h)
              rw [(surrogate_bits n).1, (surrogate_bits n).2] at h
              rw [unitsOf, if_pos hbig]
              simpa using h
            · next hbig =>
              rw [unitsOf, if_neg hbig]
              exact of_storeUnit_bind h

/-- **A conversion that succeeds has read its input** as accepted groups up to
    the terminator, and stored their units. -/
theorem reading_of_wcharLoop {cap outlen : Nat} :
    ∀ {fuel : Nat} {p : List UInt8} {out o : List UInt16},
      wcharLoop cap outlen fuel p out = .ok (o, true) →
      ∃ (r : Reading) (junk : List UInt8), r.Ok ∧ p = r.bytes ++ 0 :: junk ∧
        o = out ++ r.units ++ [0] ∧ out.length + r.units.length < outlen := by
  intro fuel
  induction fuel with
  | zero => intro p out o h; simp [wcharLoop] at h
  | succ fuel ih =>
    intro p out o h
    rcases wcharLoop_inv h with ⟨junk, rfl, rfl, hroom⟩ | ⟨w, v, rest, rfl, hacc, hgo⟩
    · exact ⟨[], junk, by simp [Reading.Ok], rfl, by simp, by simpa using hroom⟩
    · obtain ⟨r, junk, hr, rfl, rfl, hlen⟩ := ih hgo
      refine ⟨(w, v) :: r, junk, Reading.ok_cons.mpr ⟨hacc, hr⟩, by simp, by simp, ?_⟩
      simp only [List.length_append] at hlen
      simp only [Reading.units_cons, List.length_append]
      omega

/-! ## Section 5: When a path converts -/

theorem Accepted.ne_zero {w : List UInt8} {v : Nat} (h : Accepted w v) : (0 : UInt8) ∉ w := by
  intro hmem
  have hzero : (0 : UInt8).toNat = 0 := rfl
  cases h <;> simp only [List.mem_cons, List.not_mem_nil, or_false] at hmem <;>
    rcases hmem with rfl | rfl | rfl | rfl <;> omega

theorem Reading.Ok.ne_zero {r : Reading} (hr : r.Ok) : (0 : UInt8) ∉ r.bytes := by
  intro hmem
  obtain ⟨x, hx, hb⟩ := List.mem_flatMap.mp hmem
  exact (hr x hx).ne_zero hb

/-- A terminator cuts the input at one place only. -/
theorem append_zero_inj {s t junk : List UInt8} (hs : (0 : UInt8) ∉ s) (ht : (0 : UInt8) ∉ t)
    (h : s ++ [0] = t ++ 0 :: junk) : s = t := by
  induction s generalizing t with
  | nil =>
    cases t with
    | nil => rfl
    | cons b t =>
      simp only [List.nil_append, List.cons_append, List.cons.injEq] at h
      exact absurd (by simp [h.1]) ht
  | cons a s ih =>
    cases t with
    | nil =>
      simp only [List.nil_append, List.cons_append, List.cons.injEq] at h
      exact absurd (by simp [h.1]) hs
    | cons b t =>
      simp only [List.cons_append, List.cons.injEq] at h
      simp only [List.mem_cons, not_or] at hs ht
      rw [h.1, ih hs.2 ht.2 h.2]

/-- **Acceptance**: a path converts exactly when it reads as accepted groups
    with fewer units than `outlen`, and the result is those units, terminated. -/
theorem sprPathToWchar_ok_iff {cap outlen : Nat} (hcap : outlen ≤ cap) {s : List UInt8}
    (hs : (0 : UInt8) ∉ s) (o : List UInt16) :
    sprPathToWchar cap outlen (s ++ [0]) = .ok (o, true) ↔
      ∃ r : Reading, r.Ok ∧ r.bytes = s ∧ o = r.units ++ [0] ∧ r.units.length < outlen := by
  constructor
  · intro h
    obtain ⟨r, junk, hr, hp, ho, hlen⟩ := reading_of_wcharLoop h
    exact ⟨r, hr, (append_zero_inj hs hr.ne_zero hp).symm, by simpa using ho, by simpa using hlen⟩
  · rintro ⟨r, hr, rfl, rfl, hlen⟩
    have hrun : wcharLoop cap outlen outlen (r.bytes ++ [0]) []
        = .ok ([] ++ r.units ++ [0], true) :=
      wcharLoop_fits hr [] (by simp) (by simpa using hlen) (by simp only [List.length_nil]; omega)
    simpa [sprPathToWchar] using hrun

/-! ## Section 6: Well-formed input -/

/-- The encoding of a scalar is one accepted group. -/
theorem accepted_utf8EncodeChar {c : Char} (hc : c ≠ '\x00') :
    Accepted (String.utf8EncodeChar c) c.toNat := by
  have hmax := toNat_lt c
  have hpos : 0 < c.toNat := by
    rcases Nat.eq_zero_or_pos c.toNat with h0 | h0
    · exact absurd (Char.toNat_inj.mp h0) hc
    · exact h0
  have hbyte : ∀ {n : Nat}, n < 256 → (UInt8.ofNat n).toNat = n := fun h => by
    rw [UInt8.toNat_ofNat']; exact Nat.mod_eq_of_lt h
  have hval : c.val.toNat = c.toNat := rfl
  unfold String.utf8EncodeChar
  simp only [hval]
  split
  · next h1 =>
    have := Accepted.one (a := UInt8.ofNat c.toNat)
    rw [hbyte (by omega)] at this
    exact this hpos (by omega)
  split
  · next h1 h2 =>
    have := Accepted.two (a := UInt8.ofNat (c.toNat / 64 % 0x20 + 0xc0))
      (b := UInt8.ofNat (c.toNat % 0x40 + 0x80))
    rw [hbyte (by omega), hbyte (by omega)] at this
    have e : (c.toNat / 64 % 0x20 + 0xc0) % 32 * 64 + (c.toNat % 0x40 + 0x80) % 64 = c.toNat := by
      omega
    rw [e] at this
    exact this (by omega) (by omega) (by omega)
  split
  · next h1 h2 h3 =>
    have := Accepted.three (a := UInt8.ofNat (c.toNat / 4096 % 0x10 + 0xe0))
      (b := UInt8.ofNat (c.toNat / 64 % 0x40 + 0x80)) (c := UInt8.ofNat (c.toNat % 0x40 + 0x80))
    rw [hbyte (by omega), hbyte (by omega), hbyte (by omega)] at this
    have e : (c.toNat / 4096 % 0x10 + 0xe0) % 16 * 4096 + (c.toNat / 64 % 0x40 + 0x80) % 64 * 64
        + (c.toNat % 0x40 + 0x80) % 64 = c.toNat := by omega
    rw [e] at this
    exact this (by omega) (by omega) (by omega) (by omega) (by omega)
  · next h1 h2 h3 =>
    have := Accepted.four (a := UInt8.ofNat (c.toNat / 262144 % 0x08 + 0xf0))
      (b := UInt8.ofNat (c.toNat / 4096 % 0x40 + 0x80))
      (c := UInt8.ofNat (c.toNat / 64 % 0x40 + 0x80)) (d := UInt8.ofNat (c.toNat % 0x40 + 0x80))
    rw [hbyte (by omega), hbyte (by omega), hbyte (by omega), hbyte (by omega)] at this
    have e : (c.toNat / 262144 % 0x08 + 0xf0) % 8 * 262144
        + (c.toNat / 4096 % 0x40 + 0x80) % 64 * 4096 + (c.toNat / 64 % 0x40 + 0x80) % 64 * 64
        + (c.toNat % 0x40 + 0x80) % 64 = c.toNat := by omega
    rw [e] at this
    exact this (by omega) (by omega) (by omega) (by omega) (by omega) (by omega)

theorem unitsOf_toNat (c : Char) : unitsOf c.toNat = utf16EncodeChar c := by
  unfold unitsOf utf16EncodeChar
  by_cases h : c.toNat ≤ 0xffff
  · rw [if_neg (by omega), if_pos h]
  · rw [if_pos (by omega), if_neg h]

/-- The reading of a scalar sequence, one group per scalar. -/
def readingOf (cs : List Char) : Reading := cs.map (fun c => (String.utf8EncodeChar c, c.toNat))

theorem readingOf_bytes (cs : List Char) : (readingOf cs).bytes = utf8Encode cs := by
  simp [readingOf, Reading.bytes, utf8Encode, List.flatMap_map]

theorem readingOf_units (cs : List Char) : (readingOf cs).units = utf16Encode cs := by
  simp [readingOf, Reading.units, utf16Encode, List.flatMap_map, unitsOf_toNat]

theorem readingOf_ok {cs : List Char} (h : '\x00' ∉ cs) : (readingOf cs).Ok := by
  intro x hx
  obtain ⟨c, hc, rfl⟩ := List.mem_map.mp hx
  exact accepted_utf8EncodeChar (fun he => h (he ▸ hc))

/-- **Well-formed paths convert exactly**: the UTF-16 form, terminated, when
    `outlen` exceeds its length, and `NULL` otherwise.  The decoder takes
    exactly the bytes of each scalar it is called on, and two units are stored
    exactly for the scalars above U+FFFF. -/
theorem sprPathToWchar_utf8Encode (cs : List Char) (hcs : '\x00' ∉ cs) (outlen : Nat) :
    ((utf16Encode cs).length < outlen →
      sprPathToWchar outlen outlen (utf8Encode cs ++ [0]) = .ok (utf16Encode cs ++ [0], true)) ∧
    (outlen ≤ (utf16Encode cs).length →
      ∃ o, sprPathToWchar outlen outlen (utf8Encode cs ++ [0]) = .ok (o, false)) ∧
    (∀ c ∈ cs, 0x80 ≤ c.toNat → ∀ rest,
      sprUtf8Decode (String.utf8EncodeChar c ++ rest) 4 = .ok (c.toNat, rest)) ∧
    (∀ c ∈ cs, (utf16EncodeChar c).length = if 0xffff < c.toNat then 2 else 1) := by
  have hr := readingOf_ok hcs
  refine ⟨fun hlt => ?_, fun hle => ?_, fun c hc hbig rest => ?_, fun c _ => ?_⟩
  · have hs : (0 : UInt8) ∉ utf8Encode cs := by
      rw [← readingOf_bytes]; exact hr.ne_zero
    exact (sprPathToWchar_ok_iff (Nat.le_refl _) hs _).mpr
      ⟨readingOf cs, hr, readingOf_bytes cs, by rw [readingOf_units], by rwa [readingOf_units]⟩
  · obtain ⟨o, ho⟩ : ∃ o, wcharLoop outlen outlen outlen
        (Reading.bytes (readingOf cs) ++ [0]) [] = .ok (o, false) :=
      wcharLoop_long (Nat.le_refl outlen) hr [0] (by simpa [readingOf_units] using hle)
    exact ⟨o, by rw [sprPathToWchar, ← readingOf_bytes, ho]⟩
  · have hne : c ≠ '\x00' := by
      rintro rfl
      exact absurd hbig (by decide)
    exact sprUtf8Decode_accepted (accepted_utf8EncodeChar hne) hbig rest
  · rw [← unitsOf_toNat]
    exact unitsOf_length _

/-- A two-unit path: `a`, then the scalar U+1F600. -/
theorem sprPathToWchar_utf8Encode_pair :
    sprPathToWchar 4 4 (utf8Encode ['a', Char.ofNat 0x1f600] ++ [0])
      = .ok ([0x61, 0xd83d, 0xde00, 0], true) :=
  (sprPathToWchar_utf8Encode ['a', Char.ofNat 0x1f600] (by decide) 4).1 (by decide)

end Spr.Filesys
