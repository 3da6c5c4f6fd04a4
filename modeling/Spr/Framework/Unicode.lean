import Mathlib.Data.List.Basic

/-! # UTF-8 and UTF-16 encodings of scalar sequences

    The two encoding forms a path conversion moves between, over Lean's own
    `Char` (the Unicode scalar values: surrogates excluded, nothing above
    U+10FFFF):

    * `utf8Encode` / `WellFormedUtf8`: the byte sequences that encode some
      scalar sequence,
    * `utf16Encode`: the 16-bit form, one unit up to U+FFFF and a surrogate
      pair above,
    * `Paired`: no surrogate unit stands alone,
    * `utf16Encode_injective`: two scalar sequences never share a wide form. -/

namespace Spr.Unicode

/-! ## Section 1: Encoding forms -/

/-- The UTF-8 encoding of a sequence of scalars. -/
def utf8Encode (cs : List Char) : List UInt8 :=
  cs.flatMap String.utf8EncodeChar

/-- A byte sequence is well-formed UTF-8 when it encodes some scalars. -/
def WellFormedUtf8 (s : List UInt8) : Prop :=
  ∃ cs, s = utf8Encode cs

/-- The UTF-16 units of one scalar. -/
def utf16EncodeChar (c : Char) : List UInt16 :=
  if c.toNat ≤ 0xffff then [UInt16.ofNat c.toNat]
  else [UInt16.ofNat (0xd800 + (c.toNat - 0x10000) / 0x400),
        UInt16.ofNat (0xdc00 + (c.toNat - 0x10000) % 0x400)]

/-- The UTF-16 encoding of a sequence of scalars. -/
def utf16Encode (cs : List Char) : List UInt16 :=
  cs.flatMap utf16EncodeChar

/-- The unit opens a surrogate pair. -/
def isHigh (u : UInt16) : Prop := 0xd800 ≤ u.toNat ∧ u.toNat < 0xdc00

/-- The unit closes a surrogate pair. -/
def isLow (u : UInt16) : Prop := 0xdc00 ≤ u.toNat ∧ u.toNat < 0xe000

instance (u : UInt16) : Decidable (isHigh u) := inferInstanceAs (Decidable (_ ∧ _))
instance (u : UInt16) : Decidable (isLow u) := inferInstanceAs (Decidable (_ ∧ _))

/-- Every surrogate unit belongs to a high-low pair. -/
inductive Paired : List UInt16 → Prop where
  | nil : Paired []
  | unit {u us} : ¬ isHigh u → ¬ isLow u → Paired us → Paired (u :: us)
  | pair {u v us} : isHigh u → isLow v → Paired us → Paired (u :: v :: us)

@[simp] theorem utf8Encode_nil : utf8Encode [] = [] := rfl

@[simp] theorem utf8Encode_cons (c : Char) (cs : List Char) :
    utf8Encode (c :: cs) = String.utf8EncodeChar c ++ utf8Encode cs := rfl

@[simp] theorem utf16Encode_nil : utf16Encode [] = [] := rfl

@[simp] theorem utf16Encode_cons (c : Char) (cs : List Char) :
    utf16Encode (c :: cs) = utf16EncodeChar c ++ utf16Encode cs := rfl

/-! ## Section 2: The range of a scalar -/

theorem toNat_lt (c : Char) : c.toNat < 0x110000 := by
  rcases c.valid with h | h
  · exact Nat.lt_trans h (by decide)
  · exact h.2

theorem toNat_not_surrogate (c : Char) : ¬ (0xd800 ≤ c.toNat ∧ c.toNat < 0xe000) := by
  rcases c.valid with h | h
  · intro hs
    exact absurd h (Nat.not_lt.mpr hs.1)
  · intro hs
    exact absurd h.1 (by show ¬ 0xdfff < c.toNat; omega)

theorem toNat_ofNat_of_lt {n : Nat} (h : n < 0x10000) : (UInt16.ofNat n).toNat = n := by
  rw [UInt16.toNat_ofNat']
  exact Nat.mod_eq_of_lt h

/-! ## Section 3: Pairing and injectivity of the wide form -/

/-- Putting one scalar in front keeps every surrogate paired. -/
theorem paired_encodeChar_append (c : Char) {us : List UInt16} (h : Paired us) :
    Paired (utf16EncodeChar c ++ us) := by
  have hlt := toNat_lt c
  have hns := toNat_not_surrogate c
  unfold utf16EncodeChar
  split
  · next hle =>
    refine Paired.unit ?_ ?_ h <;>
      · simp only [isHigh, isLow, toNat_ofNat_of_lt (show c.toNat < 0x10000 by omega)]
        omega
  · next hgt =>
    have hhi : (UInt16.ofNat (0xd800 + (c.toNat - 0x10000) / 0x400)).toNat
        = 0xd800 + (c.toNat - 0x10000) / 0x400 := toNat_ofNat_of_lt (by omega)
    have hlo : (UInt16.ofNat (0xdc00 + (c.toNat - 0x10000) % 0x400)).toNat
        = 0xdc00 + (c.toNat - 0x10000) % 0x400 := toNat_ofNat_of_lt (by omega)
    refine Paired.pair ?_ ?_ h
    · simp only [isHigh, hhi]; omega
    · simp only [isLow, hlo]; omega

theorem paired_utf16Encode (cs : List Char) {us : List UInt16} (h : Paired us) :
    Paired (utf16Encode cs ++ us) := by
  induction cs with
  | nil => exact h
  | cons c cs ih =>
    rw [utf16Encode_cons, List.append_assoc]
    exact paired_encodeChar_append c ih

/-- The first scalar can be read back from the units in front. -/
theorem utf16EncodeChar_append_inj {c d : Char} {us vs : List UInt16}
    (h : utf16EncodeChar c ++ us = utf16EncodeChar d ++ vs) : c = d ∧ us = vs := by
  have hc := toNat_lt c
  have hd := toNat_lt d
  have hcs := toNat_not_surrogate c
  have hds := toNat_not_surrogate d
  have key : ∀ {n m : Nat}, n < 0x10000 → m < 0x10000 →
      UInt16.ofNat n = UInt16.ofNat m → n = m := by
    intro n m hn hm he
    have := congrArg UInt16.toNat he
    rwa [toNat_ofNat_of_lt hn, toNat_ofNat_of_lt hm] at this
  have char_eq : c.toNat = d.toNat → c = d := fun he => Char.toNat_inj.mp he
  unfold utf16EncodeChar at h
  split at h <;> split at h <;>
    simp only [List.cons_append, List.nil_append, List.cons.injEq] at h
  · obtain ⟨h1, h2⟩ := h
    exact ⟨char_eq (key (by omega) (by omega) h1), h2⟩
  · -- a unit below U+D800 or from U+E000 on never equals a high surrogate
    obtain ⟨h1, -⟩ := h
    have := key (by omega) (by omega) h1
    omega
  · obtain ⟨h1, -⟩ := h
    have := key (by omega) (by omega) h1
    omega
  · obtain ⟨h1, h2, h3⟩ := h
    have e1 := key (by omega) (by omega) h1
    have e2 := key (by omega) (by omega) h2
    exact ⟨char_eq (by omega), h3⟩

theorem utf16EncodeChar_ne_nil (c : Char) : utf16EncodeChar c ≠ [] := by
  unfold utf16EncodeChar
  split <;> simp

/-- **Two scalar sequences never share a wide form.** -/
theorem utf16Encode_injective {cs ds : List Char}
    (h : utf16Encode cs = utf16Encode ds) : cs = ds := by
  induction cs generalizing ds with
  | nil =>
    cases ds with
    | nil => rfl
    | cons d ds =>
      exact absurd (List.append_eq_nil_iff.mp h.symm).1 (utf16EncodeChar_ne_nil d)
  | cons c cs ih =>
    cases ds with
    | nil => exact absurd (List.append_eq_nil_iff.mp h).1 (utf16EncodeChar_ne_nil c)
    | cons d ds =>
      obtain ⟨rfl, hrest⟩ := utf16EncodeChar_append_inj h
      rw [ih hrest]

end Spr.Unicode
