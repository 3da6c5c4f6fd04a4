import Spr.Strings.Search
import Mathlib.Data.List.Lex
import Mathlib.Data.Int.Order.Basic

/-! # Comparing strings without case

    `spr_strcasecmp` and `spr_strncasecmp` of `src/lib/spr_string.c`, on 32-bit and on
    64-bit machines.  A `char` is signed, and is widened to the type `spr_uint_t`.

    * `Compares`: a number tells how two lists are ordered.
    * `strcasecmpLoop_run`: the loop, as a comparison of keys.
    * `strncasecmpLoop_run`: the other loop, as the first one on the strings cut off.
    * `strcasecmp_order`: the laws of the comparison. -/

namespace Spr.Strings

open Spr.Buffers

/-! ## Section 1: The functions -/

/-- `(spr_uint_t) *str` -/
def widen (w : PtrWidth) (b : UInt8) : BitVec w.bits := b.toBitVec.signExtend w.bits

/-- `(c >= 'A' && c <= 'Z') ? (c | 0x20) : c` -/
def lower {n : Nat} (c : BitVec n) : BitVec n :=
  if 65#n ≤ c ∧ c ≤ 90#n then c ||| 0x20#n else c

/-- `spr_strcasecmp(str1, str2)` -/
def sprStrcasecmp (w : PtrWidth) : List UInt8 → List UInt8 → Option Int
  | a :: str1, b :: str2 =>
      let c1 := lower (widen w a)
      let c2 := lower (widen w b)
      if c1 = c2 then
        if c1 ≠ 0 then sprStrcasecmp w str1 str2 else some 0
      else some (c1 - c2).toInt
  | _, _ => none

/-- `spr_strncasecmp(str1, str2, n)` -/
def sprStrncasecmp (w : PtrWidth) : List UInt8 → List UInt8 → Nat → Option Int
  | _, _, 0 => some 0
  | a :: str1, b :: str2, n + 1 =>
      let c1 := lower (widen w a)
      let c2 := lower (widen w b)
      if c1 = c2 then
        if c1 ≠ 0 then sprStrncasecmp w str1 str2 n else some 0
      else some (c1 - c2).toInt
  | _, _, _ + 1 => none

/-! ## Section 2: Bytes -/

/-- The letters `A` to `Z` become `a` to `z`, and no other byte changes. -/
def foldCase (b : UInt8) : UInt8 := if 65 ≤ b.toNat ∧ b.toNat ≤ 90 then b + 32 else b

/-- The place of a byte in the order of the comparison. -/
def rank (b : UInt8) : Int := asInt (foldCase b)

theorem asInt_bounds (b : UInt8) : -128 ≤ asInt b ∧ asInt b ≤ 127 :=
  ⟨Int8.le_toInt _, Int8.toInt_le _⟩

theorem asInt_injective : Function.Injective asInt := by
  intro a b h
  rw [← toChar_asInt a, h, toChar_asInt]

/-- Lowering the widened byte is widening the lowered one. -/
theorem lower_widen (w : PtrWidth) (b : UInt8) : lower (widen w b) = widen w (foldCase b) := by
  have hall : ∀ v : BitVec 8, lower (widen w ⟨v⟩) = widen w (foldCase ⟨v⟩) := by
    cases w <;> decide +kernel
  exact hall b.toBitVec

theorem widen_toInt (w : PtrWidth) (b : UInt8) : (widen w b).toInt = asInt b := by
  unfold widen
  rw [BitVec.toInt_signExtend_of_le (by cases w <;> decide)]
  rfl

/-- **The difference of two widened bytes** has the right sign as a signed number. -/
theorem lower_sub (w : PtrWidth) (a b : UInt8) :
    (lower (widen w a) - lower (widen w b)).toInt = rank a - rank b := by
  have ha := asInt_bounds (foldCase a)
  have hb := asInt_bounds (foldCase b)
  rw [lower_widen, lower_widen, BitVec.toInt_sub, widen_toInt, widen_toInt]
  show (rank a - rank b).bmod _ = _
  unfold rank
  cases w with
  | bits32 =>
    apply Int.bmod_eq_of_le
    · simp only [PtrWidth.bits]
      omega
    · simp only [PtrWidth.bits]
      omega
  | bits64 =>
    apply Int.bmod_eq_of_le
    · simp only [PtrWidth.bits]
      omega
    · simp only [PtrWidth.bits]
      omega

theorem lower_eq_iff (w : PtrWidth) (a b : UInt8) :
    lower (widen w a) = lower (widen w b) ↔ rank a = rank b := by
  rw [lower_widen, lower_widen, ← BitVec.toInt_inj, widen_toInt, widen_toInt]
  rfl

/-- Only the terminator is lowered to 0. -/
theorem foldCase_eq_zero (b : UInt8) : foldCase b = 0 ↔ b = 0 := by
  have hall : ∀ v : BitVec 8, foldCase ⟨v⟩ = 0 ↔ (⟨v⟩ : UInt8) = 0 := by decide +kernel
  exact hall b.toBitVec

theorem rank_eq_zero (b : UInt8) : rank b = 0 ↔ b = 0 := by
  rw [← foldCase_eq_zero b]
  exact asInt_injective.eq_iff (b := 0)

theorem lower_eq_zero (w : PtrWidth) (b : UInt8) : lower (widen w b) = 0 ↔ b = 0 := by
  have h := lower_eq_iff w b 0
  have hzero : lower (widen w 0) = 0 := by cases w <;> decide
  rw [hzero] at h
  rw [h, ← rank_eq_zero b]
  rfl

/-! ## Section 3: Ordered lists -/

/-- The number tells by its sign how the lists are ordered. -/
def Compares (x : Int) (p q : List Int) : Prop := (x < 0 ↔ p < q) ∧ (x = 0 ↔ p = q)

section Lists

variable {x y : Int} {p q r : List Int} {k l : Int}

theorem compares_self (p : List Int) : Compares 0 p p :=
  ⟨iff_of_false (Int.lt_irrefl 0) (lt_irrefl p), iff_of_true rfl rfl⟩

/-- Equal heads leave the order to the tails. -/
theorem Compares.cons (h : Compares x p q) (k : Int) : Compares x (k :: p) (k :: q) := by
  refine ⟨h.1.trans ?_, h.2.trans ?_⟩
  · simp
  · simp

/-- Different heads decide. -/
theorem compares_heads (hne : k ≠ l) (p q : List Int) : Compares (k - l) (k :: p) (l :: q) := by
  constructor
  · rw [List.cons_lt_cons_iff]
    constructor
    · intro h
      left
      omega
    · rintro (h | ⟨rfl, -⟩)
      · omega
      · exact absurd rfl hne
  · apply iff_of_false
    · omega
    · intro h
      exact hne (List.cons.inj h).1

theorem Compares.pos_iff (h : Compares x p q) : 0 < x ↔ q < p := by
  rcases lt_trichotomy p q with hlt | heq | hgt
  · have hx := h.1.mpr hlt
    exact iff_of_false (by omega) hlt.asymm
  · have hx := h.2.mpr heq
    exact iff_of_false (by omega) (heq ▸ lt_irrefl p)
  · have hneg : ¬ x < 0 := fun hx => (h.1.mp hx).asymm hgt
    have hzero : x ≠ 0 := fun hx => hgt.ne (h.2.mp hx).symm
    exact iff_of_true (by omega) hgt

theorem Compares.le_iff (h : Compares x p q) : x ≤ 0 ↔ p ≤ q := by
  rw [← not_lt, ← not_lt (a := q), h.pos_iff]

/-- The other way round, the sign turns. -/
theorem Compares.sign_swap (h : Compares x p q) (h' : Compares y q p) : x.sign = -y.sign := by
  rcases lt_trichotomy p q with hlt | heq | hgt
  · rw [Int.sign_eq_neg_one_of_neg (h.1.mpr hlt), Int.sign_eq_one_of_pos (h'.pos_iff.mpr hlt)]
  · rw [h.2.mpr heq, h'.2.mpr heq.symm]
    rfl
  · rw [Int.sign_eq_one_of_pos (h.pos_iff.mpr hgt), Int.sign_eq_neg_one_of_neg (h'.1.mpr hgt)]
    rfl

end Lists

/-! ## Section 4: The loops -/

section Loops

variable {w : PtrWidth}

/-- **The loop of `spr_strcasecmp`**, by induction on both strings. -/
theorem strcasecmpLoop_run (w : PtrWidth) (p q : List UInt8) (hp : (0 : UInt8) ∉ p)
    (hq : (0 : UInt8) ∉ q) : ∃ x, sprStrcasecmp w (p ++ [0]) (q ++ [0]) = some x ∧
      Compares x ((p ++ [0]).map rank) ((q ++ [0]).map rank) := by
  induction p generalizing q with
  | nil =>
    cases q with
    | nil => exact ⟨0, by cases w <;> decide, compares_self _⟩
    | cons b q =>
      -- the terminator ranks below every byte
      have hb : b ≠ 0 := fun h => hq (by simp [h])
      have hne : rank 0 ≠ rank b := fun h => hb ((rank_eq_zero b).mp h.symm)
      refine ⟨rank 0 - rank b, ?_, compares_heads hne _ _⟩
      show sprStrcasecmp w (0 :: []) (b :: (q ++ [0])) = _
      rw [sprStrcasecmp, if_neg (fun h => hne ((lower_eq_iff w _ _).mp h)), lower_sub]
  | cons a p ih =>
    have ha : a ≠ 0 := fun h => hp (by simp [h])
    have hp' : (0 : UInt8) ∉ p := fun h => hp (List.mem_cons_of_mem _ h)
    cases q with
    | nil =>
      have hne : rank a ≠ rank 0 := fun h => ha ((rank_eq_zero a).mp h)
      refine ⟨rank a - rank 0, ?_, compares_heads hne _ _⟩
      show sprStrcasecmp w (a :: (p ++ [0])) (0 :: []) = _
      rw [sprStrcasecmp, if_neg (fun h => hne ((lower_eq_iff w _ _).mp h)), lower_sub]
    | cons b q =>
      have hq' : (0 : UInt8) ∉ q := fun h => hq (List.mem_cons_of_mem _ h)
      rw [List.cons_append, List.cons_append, sprStrcasecmp]
      by_cases heq : rank a = rank b
      · -- the loop goes on, since neither byte is the terminator
        obtain ⟨x, hrun, hx⟩ := ih q hp' hq'
        refine ⟨x, ?_, ?_⟩
        · rw [if_pos ((lower_eq_iff w _ _).mpr heq),
            if_pos (fun h => ha ((lower_eq_zero w a).mp h))]
          exact hrun
        · rw [List.map_cons, List.map_cons, heq]
          exact hx.cons _
      · -- the first difference decides
        refine ⟨rank a - rank b, ?_, compares_heads heq _ _⟩
        rw [if_neg (fun h => heq ((lower_eq_iff w _ _).mp h)), lower_sub]

/-- **The loop of `spr_strncasecmp`** sees the strings cut off after `n` bytes. -/
theorem strncasecmpLoop_run (w : PtrWidth) (n : Nat) (p q : List UInt8) (hp : (0 : UInt8) ∉ p)
    (hq : (0 : UInt8) ∉ q) : sprStrncasecmp w (p ++ [0]) (q ++ [0]) n
      = sprStrcasecmp w (p.take n ++ [0]) (q.take n ++ [0]) := by
  induction n generalizing p q with
  | zero =>
    rw [List.take_zero, List.take_zero]
    have hends : sprStrcasecmp w ([] ++ [0]) ([] ++ [0]) = some 0 := by cases w <;> decide
    rw [hends]
    unfold sprStrncasecmp
    rfl
  | succ n ih =>
    cases p with
    | nil =>
      cases q with
      | nil => cases w <;> rfl
      | cons b q =>
        have hb : b ≠ 0 := fun h => hq (by simp [h])
        have hne : lower (widen w 0) ≠ lower (widen w b) := fun h =>
          hb ((rank_eq_zero b).mp ((lower_eq_iff w _ _).mp h).symm)
        simp [sprStrncasecmp, sprStrcasecmp, hne]
    | cons a p =>
      have ha : a ≠ 0 := fun h => hp (by simp [h])
      cases q with
      | nil =>
        have hne : lower (widen w a) ≠ lower (widen w 0) := fun h =>
          ha ((rank_eq_zero a).mp ((lower_eq_iff w _ _).mp h))
        simp [sprStrncasecmp, sprStrcasecmp, hne]
      | cons b q =>
        -- one round of the two loops is the same
        have hrest := ih p q (fun h => hp (List.mem_cons_of_mem _ h))
          (fun h => hq (List.mem_cons_of_mem _ h))
        simp only [List.cons_append, List.take_succ_cons, sprStrncasecmp, sprStrcasecmp, hrest]

end Loops

/-! ## Section 5: The comparison -/

/-- A string as the comparison sees it, with its terminator. -/
def sortKey {space : Nat} (s : CString space) : List Int := s.object.map rank

/-- Equal keys are equal strings in lower case. -/
theorem sortKey_eq_iff {space : Nat} (s t : CString space) :
    sortKey s = sortKey t ↔ s.bytes.map foldCase = t.bytes.map foldCase := by
  have hsplit : ∀ u : CString space, sortKey u = ((u.bytes.map foldCase) ++ [0]).map asInt := by
    intro u
    unfold sortKey CString.object rank
    simp [foldCase]
  rw [hsplit, hsplit, asInt_injective.list_map.eq_iff]
  exact List.append_left_inj _

/-- **`spr_strcasecmp` orders strings** by their bytes in lower case, as signed numbers:
    the result is 0 for equal strings only, its sign turns with the arguments, and `≤ 0` is
    transitive and total; `spr_strncasecmp` compares what is left of the strings when they
    are cut off after `n` bytes. -/
theorem strcasecmp_order (w : PtrWidth) {space : Nat} :
    ∃ cmp : CString space → CString space → Int,
      (∀ a b, sprStrcasecmp w a.object b.object = some (cmp a b)) ∧
      (∀ a b, cmp a b = 0 ↔ a.bytes.map foldCase = b.bytes.map foldCase) ∧
      (∀ a b, (cmp a b).sign = -(cmp b a).sign) ∧
      (∀ a b c, cmp a b ≤ 0 → cmp b c ≤ 0 → cmp a c ≤ 0) ∧
      (∀ a b, cmp a b ≤ 0 ∨ cmp b a ≤ 0) ∧
      (∀ a b, cmp a b < 0 ↔ sortKey a < sortKey b) ∧
      ∀ (a b : CString space) (n : Nat),
        sprStrncasecmp w a.object b.object n = some (cmp (a.cut n) (b.cut n)) := by
  have hrun : ∀ a b : CString space, ∃ x, sprStrcasecmp w a.object b.object = some x ∧
      Compares x (sortKey a) (sortKey b) := fun a b =>
    strcasecmpLoop_run w a.bytes b.bytes a.nonzero b.nonzero
  choose cmp hcmp hord using hrun
  refine ⟨cmp, hcmp, ?_, ?_, ?_, ?_, fun a b => (hord a b).1, ?_⟩
  · intro a b
    rw [(hord a b).2, sortKey_eq_iff]
  · intro a b
    exact (hord a b).sign_swap (hord b a)
  · intro a b c hab hbc
    rw [(hord a c).le_iff]
    exact ((hord a b).le_iff.mp hab).trans ((hord b c).le_iff.mp hbc)
  · intro a b
    rw [(hord a b).le_iff, (hord b a).le_iff]
    exact le_total _ _
  · intro a b n
    rw [← hcmp]
    exact strncasecmpLoop_run w n a.bytes b.bytes a.nonzero b.nonzero

end Spr.Strings
