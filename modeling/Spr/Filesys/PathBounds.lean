import Spr.Filesys.PathToWchar

/-! # Path conversion stays inside its two buffers

    `spr_path_to_wchar` on a byte string of any content.  The input object ends
    with the first zero byte and the output object with unit `outlen`, so a read
    behind the one or a store behind the other is a fault.

    * `decodeTail_stops`: a multi-byte sequence that is cut short ends at the
      terminator.
    * `sprUtf8Decode_stops`: one call of the decoder.
    * `wcharLoop_safe`: the loop, from any place in the string.
    * `sprPathToWchar_safe`: the conversion. -/

namespace Spr.Filesys

/-- `p` points into a string: what is left of it, and its terminator. -/
def Terminated (p : List UInt8) : Prop := ∃ s, p = s ++ [0] ∧ (0 : UInt8) ∉ s

/-- There is a byte to read, and behind the terminator there is none. -/
theorem Terminated.cases {p : List UInt8} (h : Terminated p) :
    p = [0] ∨ ∃ a q, p = a :: q ∧ a ≠ 0 ∧ Terminated q := by
  obtain ⟨s, rfl, hzero⟩ := h
  cases s with
  | nil => exact Or.inl rfl
  | cons a s =>
    have ha : a ≠ 0 := fun h => hzero (by simp [h])
    exact Or.inr ⟨a, s ++ [0], rfl, ha, s, rfl, fun hmem => hzero (List.mem_cons_of_mem _ hmem)⟩

/-- The continuation loop stops at the terminator, however many bytes it is still
    owed. -/
theorem decodeTail_stops (len : Nat) : ∀ (u : Nat) {p : List UInt8}, Terminated p →
    (∃ q, decodeTail len u p = .ok (none, q)) ∨
    ∃ v q, decodeTail len u p = .ok (some v, q) ∧ Terminated q := by
  induction len with
  | zero => intro u p hp; exact Or.inr ⟨u, p, rfl, hp⟩
  | succ len ih =>
    intro u p hp
    rcases hp.cases with rfl | ⟨a, q, rfl, -, hq⟩
    · -- the terminator is a byte below `0x80`
      exact Or.inl ⟨[], rfl⟩
    · rw [decodeTail]
      by_cases hlow : a < 0x80
      · rw [if_pos hlow]
        exact Or.inl ⟨q, rfl⟩
      · rw [if_neg hlow]
        exact ih _ hq

theorem decodeLead_stops {a : UInt8} {p : List UInt8} {u valid len : Nat} (hlen : len ≤ 3)
    (hp : Terminated p) :
    ∃ n q, decodeLead (a :: p) 4 u valid len = .ok (n, q) ∧ (n ≤ 0x10ffff → Terminated q) := by
  rw [decodeLead_four hlen]
  rcases decodeTail_stops len u hp with ⟨q, hrun⟩ | ⟨v, q, hrun, hq⟩
  · rw [hrun]
    exact ⟨0xffffffff, q, rfl, fun h => absurd h (by omega)⟩
  · rw [hrun]
    by_cases hvalid : valid < v
    · exact ⟨v, q, if_pos hvalid, fun _ => hq⟩
    · exact ⟨0xffffffff, q, if_neg hvalid, fun _ => hq⟩

/-- **One call of the decoder** in front of a lead byte never reads behind the
    terminator, and has not read it if its value is a scalar's. -/
theorem sprUtf8Decode_stops {a : UInt8} {p : List UInt8} (hp : Terminated p) :
    ∃ n q, sprUtf8Decode (a :: p) 4 = .ok (n, q) ∧ (n ≤ 0x10ffff → Terminated q) := by
  rw [sprUtf8Decode_lead]
  by_cases h4 : 0xf0 ≤ a.toNat
  · rw [if_pos h4]
    exact decodeLead_stops (by omega) hp
  rw [if_neg h4]
  by_cases h3 : 0xe0 ≤ a.toNat
  · rw [if_pos h3]
    exact decodeLead_stops (by omega) hp
  rw [if_neg h3]
  by_cases h2 : 0xc2 ≤ a.toNat
  · rw [if_pos h2]
    exact decodeLead_stops (by omega) hp
  rw [if_neg h2]
  exact ⟨0xffffffff, p, rfl, fun _ => hp⟩

/-- What a run of the loop owes: it ends, inside the output, and what it returns
    for a path is terminated. -/
def RunsInside (outlen left : Nat) (p : List UInt8) (out : List UInt16) : Prop :=
  ∃ o ret, (∀ fuel, left ≤ fuel → wcharLoop outlen outlen fuel p out = .ok (o, ret)) ∧
    o.length ≤ outlen ∧ (ret = true → ∃ units, o = units ++ [0])

/-- An iteration that is followed by the others. -/
theorem RunsInside.step {outlen left k : Nat} {p q : List UInt8} {out out' : List UInt16}
    (hk : k < left) (h : RunsInside outlen k q out')
    (hstep : ∀ fuel, wcharLoop outlen outlen (fuel + 1) p out
      = wcharLoop outlen outlen fuel q out') : RunsInside outlen left p out := by
  obtain ⟨o, ret, hrun, hlen, hnul⟩ := h
  refine ⟨o, ret, fun fuel hfuel => ?_, hlen, hnul⟩
  obtain ⟨fuel, rfl⟩ : ∃ n, fuel = n + 1 := ⟨fuel - 1, by omega⟩
  rw [hstep, hrun fuel (by omega)]

/-- An iteration that returns `NULL`. -/
theorem RunsInside.null {outlen left : Nat} {p : List UInt8} {out : List UInt16}
    (hleft : 0 < left) (hout : out.length ≤ outlen)
    (hstep : ∀ fuel, wcharLoop outlen outlen (fuel + 1) p out = .ok (out, false)) :
    RunsInside outlen left p out := by
  refine ⟨out, false, fun fuel hfuel => ?_, hout, fun h => absurd h (by decide)⟩
  obtain ⟨fuel, rfl⟩ : ∃ n, fuel = n + 1 := ⟨fuel - 1, by omega⟩
  exact hstep fuel

/-- **The loop**, with room for `left` more units: each iteration that goes on
    stores one or two of them. -/
theorem wcharLoop_safe (outlen : Nat) : ∀ (left : Nat) (p : List UInt8) (out : List UInt16),
    Terminated p → out.length + left = outlen → RunsInside outlen left p out := by
  intro left
  induction left using Nat.strong_induction_on with
  | _ left ih =>
    intro p out hp hroom
    by_cases hfull : left = 0
    · refine ⟨out, false, fun fuel _ => wcharLoop_full (by omega), by omega, fun h => ?_⟩
      exact absurd h (by decide)
    have hleft : 0 < left := Nat.pos_of_ne_zero hfull
    have hlt : out.length < outlen := by omega
    rcases hp.cases with rfl | ⟨a, q, rfl, ha, hq⟩
    · -- the terminator is stored
      refine ⟨out ++ [0], true, fun fuel hfuel => ?_, by simp; omega, fun _ => ⟨out, rfl⟩⟩
      obtain ⟨fuel, rfl⟩ : ∃ n, fuel = n + 1 := ⟨fuel - 1, by omega⟩
      exact wcharLoop_nul hlt hlt
    by_cases hascii : a < 0x80
    · apply RunsInside.step (k := left - 1) (by omega)
        (ih (left - 1) (by omega) q (out ++ [a.toUInt16]) hq (by simp; omega))
      intro fuel
      rw [wcharLoop, if_pos hlt]
      simp only [readByte, except_ok_bind]
      rw [if_pos hascii, storeUnit_ok hlt, except_ok_bind, if_neg ha, List.tail_cons]
    by_cases hone : out.length + 1 = outlen
    · -- a character above `0x7f` needs more than the last unit
      apply RunsInside.null hleft (by omega)
      intro fuel
      rw [wcharLoop, if_pos hlt]
      simp only [readByte, except_ok_bind]
      rw [if_neg hascii, if_pos hone]
    -- the decoder stops at the terminator at the latest
    obtain ⟨n, r, hdec, hr⟩ := sprUtf8Decode_stops (a := a) hq
    have hbody : ∀ fuel, wcharLoop outlen outlen (fuel + 1) (a :: q) out
        = if 0x10ffff < n then .ok (out, false)
          else wcharLoop outlen outlen fuel r (out ++ unitsOf n) := by
      intro fuel
      rw [wcharLoop, if_pos hlt]
      simp only [readByte, except_ok_bind]
      rw [if_neg hascii, if_neg hone, hdec, except_ok_bind, unitsOf]
      by_cases hbig : 0xffff < n
      · have hstored : ∀ x y, storeUnit outlen (out ++ [x]) y = .ok (out ++ [x] ++ [y]) :=
          fun x y => storeUnit_ok (by simp; omega)
        simp only [if_pos hbig, (surrogate_bits n).1, (surrogate_bits n).2, storeUnit_ok hlt,
          except_ok_bind, hstored, List.append_assoc, List.cons_append, List.nil_append]
      · simp only [if_neg hbig, storeUnit_ok hlt, except_ok_bind]
    by_cases hout : 0x10ffff < n
    · apply RunsInside.null hleft (by omega)
      intro fuel
      rw [hbody, if_pos hout]
    · have hlen := unitsOf_length n
      have hunits : 1 ≤ (unitsOf n).length ∧ (unitsOf n).length ≤ 2 := by
        split at hlen <;> omega
      apply RunsInside.step (k := left - (unitsOf n).length) (by omega)
        (ih _ (by omega) r (out ++ unitsOf n) (hr (by omega)) (by simp; omega))
      intro fuel
      rw [hbody, if_neg hout]

/-- **`spr_path_to_wchar` on any string and with any `outlen`**: it ends after at
    most `outlen` iterations, reads nothing behind the terminator and stores
    nothing behind `outlen`; what it returns for a path is terminated. -/
theorem sprPathToWchar_safe (s : List UInt8) (hs : (0 : UInt8) ∉ s) (outlen : Nat) :
    ∃ o ret, sprPathToWchar outlen outlen (s ++ [0]) = .ok (o, ret) ∧
      (∀ fuel, outlen ≤ fuel → wcharLoop outlen outlen fuel (s ++ [0]) [] = .ok (o, ret)) ∧
      o.length ≤ outlen ∧ (ret = true → ∃ units, o = units ++ [0]) := by
  obtain ⟨o, ret, hrun, hlen, hnul⟩ :=
    wcharLoop_safe outlen outlen (s ++ [0]) [] ⟨s, rfl, hs⟩ (by simp)
  exact ⟨o, ret, hrun outlen (Nat.le_refl _), hrun, hlen, hnul⟩

/-- A four-byte sequence cut short after its lead byte. -/
theorem sprPathToWchar_safe_cut :
    ∃ o, sprPathToWchar 8 8 [0xf0, 0] = .ok (o, false) ∧ o.length ≤ 8 := by
  obtain ⟨o, ret, hrun, -, hlen, -⟩ := sprPathToWchar_safe [0xf0] (by decide) 8
  have hcut : sprPathToWchar 8 8 ([0xf0] ++ [0]) = .ok ([], false) := by decide
  have hret : ret = false := (Prod.mk.inj (Except.ok.inj (hrun.symm.trans hcut))).2
  rw [hret] at hrun
  exact ⟨o, hrun, hlen⟩

end Spr.Filesys
