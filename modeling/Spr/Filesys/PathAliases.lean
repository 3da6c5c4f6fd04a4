import Spr.Filesys.PathToWchar

/-! # Which paths the decoder should have refused

    The decoder lets three kinds of byte groups through that are not UTF-8:

    * a lead byte from `0xf8` on (only its low three bits are kept),
    * a continuation byte from `0xc0` on (only its low six bits are kept),
    * a three-byte group whose value is a surrogate code point.

    A reading without such a group is the encoding of a scalar sequence, and a
    reading with one is never well-formed: `wellFormed_bytes_iff`.  From it,
    the exact set of paths on which an accepted path is a well-formed one. -/

namespace Spr.Filesys

open Spr.Unicode

/-! ## Section 1: The slips -/

/-- The group is taken by the decoder although it is not UTF-8. -/
def Slips (w : List UInt8) (v : Nat) : Prop :=
  (∃ a ∈ w.head?, 0xf8 ≤ a.toNat) ∨ (∃ b ∈ w.tail, 0xc0 ≤ b.toNat) ∨
    (0xd800 ≤ v ∧ v < 0xe000)

/-- No reading of the path by the decoder's own tests has a slip. -/
def ReadsStrictly (s : List UInt8) : Prop :=
  ∀ r : Reading, r.Ok → r.bytes = s → ∀ x ∈ r, ¬ Slips x.1 x.2

theorem byte_ext {n : Nat} {b : UInt8} (h : b.toNat = n) : UInt8.ofNat n = b := by
  rw [← h]; exact UInt8.ofNat_toNat

theorem toNat_ofNat_valid {v : Nat} (hv : v < 0xd800 ∨ (0xdfff < v ∧ v < 0x110000)) :
    (Char.ofNat v).toNat = v := by
  have hvalid : v.isValidChar := hv
  rw [Char.ofNat, dif_pos hvalid]
  rfl

/-- A group without a slip encodes a scalar. -/
theorem encodes_of_not_slips {w : List UInt8} {v : Nat} (h : Accepted w v) (hno : ¬ Slips w v) :
    ∃ c : Char, w = String.utf8EncodeChar c ∧ v = c.toNat := by
  simp only [Slips, not_or, not_exists, not_and] at hno
  obtain ⟨hlead, htail, hsur⟩ := hno
  have hmax : v ≤ 0x10ffff := by
    cases h <;> first | assumption | omega
  have hv : (Char.ofNat v).toNat = v := toNat_ofNat_valid (by omega)
  have hval : (Char.ofNat v).val.toNat = v := hv
  refine ⟨Char.ofNat v, ?_, hv.symm⟩
  unfold String.utf8EncodeChar
  simp only [hval]
  cases h with
  | @one a hpos hlt =>
    rw [if_pos (by omega), UInt8.ofNat_toNat]
  | @two a b ha ha' hb =>
    have := htail b (by simp)
    rw [if_neg (by omega), if_pos (by omega), byte_ext (b := a) (by omega),
      byte_ext (b := b) (by omega)]
  | @three a b c ha ha' hb hc hv' =>
    have := htail b (by simp)
    have := htail c (by simp)
    rw [if_neg (by omega), if_neg (by omega), if_pos (by omega), byte_ext (b := a) (by omega),
      byte_ext (b := b) (by omega), byte_ext (b := c) (by omega)]
  | @four a b c d ha hb hc hd hv' hmax' =>
    have := hlead a (by simp)
    have := htail b (by simp)
    have := htail c (by simp)
    have := htail d (by simp)
    rw [if_neg (by omega), if_neg (by omega), if_neg (by omega), byte_ext (b := a) (by omega),
      byte_ext (b := b) (by omega), byte_ext (b := c) (by omega), byte_ext (b := d) (by omega)]

/-- The encoding of a scalar has no slip. -/
theorem not_slips_utf8EncodeChar (c : Char) : ¬ Slips (String.utf8EncodeChar c) c.toNat := by
  have hmax := toNat_lt c
  have hns := toNat_not_surrogate c
  have hbyte : ∀ {n : Nat}, n < 256 → (UInt8.ofNat n).toNat = n := fun h => by
    rw [UInt8.toNat_ofNat']; exact Nat.mod_eq_of_lt h
  have hval : c.val.toNat = c.toNat := rfl
  rintro (⟨a, ha, hbig⟩ | ⟨b, hb, hbig⟩ | hs)
  · unfold String.utf8EncodeChar at ha
    simp only [hval] at ha
    split at ha
    · simp only [List.head?_cons, Option.mem_def, Option.some.injEq] at ha
      rw [← ha, hbyte (by omega)] at hbig
      omega
    split at ha
    · simp only [List.head?_cons, Option.mem_def, Option.some.injEq] at ha
      rw [← ha, hbyte (by omega)] at hbig
      omega
    split at ha <;>
    · simp only [List.head?_cons, Option.mem_def, Option.some.injEq] at ha
      rw [← ha, hbyte (by omega)] at hbig
      omega
  · -- all bytes but the first are continuation bytes
    have htail : ∀ n : Nat, b = UInt8.ofNat (n % 0x40 + 0x80) → False := by
      rintro n rfl
      rw [hbyte (by omega)] at hbig
      omega
    unfold String.utf8EncodeChar at hb
    simp only [hval] at hb
    split at hb
    · simp at hb
    split at hb
    · simp only [List.tail_cons, List.mem_singleton] at hb
      exact htail _ hb
    split at hb
    · simp only [List.tail_cons, List.mem_cons, List.not_mem_nil, or_false] at hb
      rcases hb with hb | hb <;> exact htail _ hb
    · simp only [List.tail_cons, List.mem_cons, List.not_mem_nil, or_false] at hb
      rcases hb with hb | hb | hb <;> exact htail _ hb
  · exact hns hs

/-! ## Section 2: Readings are unique -/

/-- The lead byte decides how many bytes a group has and, with them, its value. -/
theorem accepted_append_inj {w w' : List UInt8} {v v' : Nat} (h : Accepted w v)
    (h' : Accepted w' v') {t t' : List UInt8} (he : w ++ t = w' ++ t') :
    w = w' ∧ v = v' ∧ t = t' := by
  cases h <;> cases h' <;>
    simp only [List.cons_append, List.nil_append, List.cons.injEq] at he <;>
    first
      | (exfalso; obtain ⟨rfl, -⟩ := he; omega)  -- two lengths for one lead byte
      | (obtain ⟨rfl, rfl⟩ := he; exact ⟨rfl, rfl, rfl⟩)
      | (obtain ⟨rfl, rfl, rfl⟩ := he; exact ⟨rfl, rfl, rfl⟩)
      | (obtain ⟨rfl, rfl, rfl, rfl⟩ := he; exact ⟨rfl, rfl, rfl⟩)
      | (obtain ⟨rfl, rfl, rfl, rfl, rfl⟩ := he; exact ⟨rfl, rfl, rfl⟩)

theorem Accepted.ne_nil {w : List UInt8} {v : Nat} (h : Accepted w v) : w ≠ [] := by
  cases h <;> simp

/-- A byte string has at most one reading. -/
theorem reading_unique {r r' : Reading} (hr : r.Ok) (hr' : r'.Ok) (h : r.bytes = r'.bytes) :
    r = r' := by
  induction r generalizing r' with
  | nil =>
    cases r' with
    | nil => rfl
    | cons y r' =>
      obtain ⟨hy, -⟩ := Reading.ok_cons.mp hr'
      exact absurd (List.append_eq_nil_iff.mp h.symm).1 hy.ne_nil
  | cons x r ih =>
    obtain ⟨hx, hr⟩ := Reading.ok_cons.mp hr
    cases r' with
    | nil => exact absurd (List.append_eq_nil_iff.mp h).1 hx.ne_nil
    | cons y r' =>
      obtain ⟨hy, hr'⟩ := Reading.ok_cons.mp hr'
      obtain ⟨hw, hv, ht⟩ := accepted_append_inj hx hy h
      rw [ih hr hr' ht, Prod.ext hw hv]

/-- A reading without a slip is the reading of a scalar sequence. -/
theorem exists_readingOf {r : Reading} (hr : r.Ok) (hno : ∀ x ∈ r, ¬ Slips x.1 x.2) :
    ∃ cs, r = readingOf cs ∧ '\x00' ∉ cs := by
  induction r with
  | nil => exact ⟨[], rfl, by simp⟩
  | cons x r ih =>
    obtain ⟨hx, hr⟩ := Reading.ok_cons.mp hr
    obtain ⟨cs, rfl, hcs⟩ := ih hr (fun y hy => hno y (List.mem_cons_of_mem _ hy))
    obtain ⟨c, hw, hv⟩ := encodes_of_not_slips hx (hno x List.mem_cons_self)
    refine ⟨c :: cs, ?_, ?_⟩
    · show x :: readingOf cs = (String.utf8EncodeChar c, c.toNat) :: readingOf cs
      rw [← hw, ← hv]
    · rintro (_ | ⟨_, hmem⟩)
      · exact hx.ne_zero (by rw [hw]; decide)
      · exact hcs hmem

/-- **A path read by the decoder is well-formed exactly when no group slips.** -/
theorem wellFormed_bytes_iff {r : Reading} (hr : r.Ok) :
    WellFormedUtf8 r.bytes ↔ ∀ x ∈ r, ¬ Slips x.1 x.2 := by
  constructor
  · rintro ⟨cs, hcs⟩
    have h0 : '\x00' ∉ cs := by
      intro hmem
      refine hr.ne_zero ?_
      rw [hcs]
      exact List.mem_flatMap.mpr ⟨'\x00', hmem, by decide⟩
    have heq : r = readingOf cs :=
      reading_unique hr (readingOf_ok h0) (by rw [hcs, readingOf_bytes])
    intro x hx
    rw [heq] at hx
    obtain ⟨c, -, rfl⟩ := List.mem_map.mp hx
    exact not_slips_utf8EncodeChar c
  · intro hno
    obtain ⟨cs, rfl, -⟩ := exists_readingOf hr hno
    exact ⟨cs, readingOf_bytes cs⟩

/-! ## Section 3: Exactly when acceptance means well-formedness -/

/-- A strictly read path that converts is some scalar sequence, converted. -/
theorem scalars_of_strict {s : List UInt8} (hs : (0 : UInt8) ∉ s) (hstrict : ReadsStrictly s)
    {outlen : Nat} {o : List UInt16}
    (h : sprPathToWchar outlen outlen (s ++ [0]) = .ok (o, true)) :
    ∃ cs, s = utf8Encode cs ∧ o = utf16Encode cs ++ [0] := by
  obtain ⟨r, hr, rfl, rfl, -⟩ := (sprPathToWchar_ok_iff (Nat.le_refl _) hs o).mp h
  obtain ⟨cs, rfl, -⟩ := exists_readingOf hr (hstrict r hr rfl)
  exact ⟨cs, readingOf_bytes cs, by rw [readingOf_units]⟩

/-- **The paths on which acceptance means well-formedness** are exactly the
    strictly read ones.  Among them no two share a wide form, and the output
    has no unpaired surrogate. -/
theorem sprPathToWchar_wellFormed_iff (s : List UInt8) (hs : (0 : UInt8) ∉ s) :
    ((∀ outlen o, sprPathToWchar outlen outlen (s ++ [0]) = .ok (o, true) → WellFormedUtf8 s) ↔
      ReadsStrictly s) ∧
    (ReadsStrictly s → ∀ outlen o,
      sprPathToWchar outlen outlen (s ++ [0]) = .ok (o, true) → Paired o) ∧
    (ReadsStrictly s → ∀ t, (0 : UInt8) ∉ t → ReadsStrictly t → ∀ outlen outlen' o,
      sprPathToWchar outlen outlen (s ++ [0]) = .ok (o, true) →
      sprPathToWchar outlen' outlen' (t ++ [0]) = .ok (o, true) → s = t) := by
  refine ⟨⟨fun hall r hr hbytes => ?_, fun hstrict outlen o h => ?_⟩,
    fun hstrict outlen o h => ?_, fun hstrict t ht hstrict' outlen outlen' o h h' => ?_⟩
  · -- with room for every unit the path converts, so it is well-formed
    have hconv := (sprPathToWchar_ok_iff (Nat.le_refl (r.units.length + 1)) hs _).mpr
      ⟨r, hr, hbytes, rfl, Nat.lt_succ_self _⟩
    have hwf := hall _ _ hconv
    rw [← hbytes] at hwf
    exact (wellFormed_bytes_iff hr).mp hwf
  · obtain ⟨cs, hcs, -⟩ := scalars_of_strict hs hstrict h
    exact ⟨cs, hcs⟩
  · obtain ⟨cs, -, rfl⟩ := scalars_of_strict hs hstrict h
    exact paired_utf16Encode cs (Paired.unit (by decide) (by decide) Paired.nil)
  · obtain ⟨cs, rfl, rfl⟩ := scalars_of_strict hs hstrict h
    obtain ⟨ds, rfl, ho⟩ := scalars_of_strict ht hstrict' h'
    rw [utf16Encode_injective (List.append_cancel_right ho)]

/-- A path of two and of four bytes for a character is strictly read, hence accepted only
    as UTF-8, and its surrogates are paired. -/
theorem sprPathToWchar_wellFormed_iff_emoji :
    sprPathToWchar 4 4 ([0xc3, 0xa9, 0xf0, 0x9f, 0x98, 0x80] ++ [0])
      = .ok ([0xe9, 0xd83d, 0xde00, 0], true) ∧
    WellFormedUtf8 [0xc3, 0xa9, 0xf0, 0x9f, 0x98, 0x80] ∧ Paired [0xe9, 0xd83d, 0xde00, 0] := by
  have hstrict : ReadsStrictly [0xc3, 0xa9, 0xf0, 0x9f, 0x98, 0x80] := by
    have hread : Reading.Ok (readingOf ['é', Char.ofNat 0x1f600]) := readingOf_ok (by decide)
    intro r hr hbytes x hx
    rw [reading_unique hr hread (by rw [hbytes]; decide)] at hx
    obtain ⟨c, -, rfl⟩ := List.mem_map.mp hx
    exact not_slips_utf8EncodeChar c
  have hconv : sprPathToWchar 4 4 ([0xc3, 0xa9, 0xf0, 0x9f, 0x98, 0x80] ++ [0])
      = .ok ([0xe9, 0xd83d, 0xde00, 0], true) := by decide
  obtain ⟨hiff, hpaired, -⟩ :=
    sprPathToWchar_wellFormed_iff [0xc3, 0xa9, 0xf0, 0x9f, 0x98, 0x80] (by decide)
  exact ⟨hconv, hiff.mpr hstrict 4 _ hconv, hpaired hstrict 4 _ hconv⟩

/-- **Malformed paths are accepted and alias well-formed ones**: the bytes
    `f8 90 80 80` are not UTF-8, yet they convert, to the wide form of
    `f0 90 80 80`; and `ed a0 80` converts to a lone surrogate. -/
theorem sprPathToWchar_accepts_malformed :
    ¬ (∀ (s : List UInt8) (outlen : Nat) (o : List UInt16), (0 : UInt8) ∉ s →
        sprPathToWchar outlen outlen (s ++ [0]) = .ok (o, true) →
        WellFormedUtf8 s ∧ Paired o ∧
        ∀ t o', (0 : UInt8) ∉ t → sprPathToWchar outlen outlen (t ++ [0]) = .ok (o', true) →
          o = o' → s = t) := by
  intro hall
  have hconv : sprPathToWchar 3 3 ([0xf8, 0x90, 0x80, 0x80] ++ [0])
      = .ok ([0xd800, 0xdc00, 0], true) := by rfl
  have halias : sprPathToWchar 3 3 ([0xf0, 0x90, 0x80, 0x80] ++ [0])
      = .ok ([0xd800, 0xdc00, 0], true) := by rfl
  have hsame := (hall _ 3 _ (by decide) hconv).2.2 _ _ (by decide) halias rfl
  exact absurd hsame (by decide)

end Spr.Filesys
