import Mathlib.Algebra.Group.Int.Defs
import Mathlib.Algebra.Group.Nat.Defs
import Mathlib.Data.Nat.Basic

/-! # Decimal numbers

    `spr_atoi` and `spr_atosz` of `src/lib/spr_string.c`, on 32-bit and on 64-bit
    machines.

    * `PtrWidth`: the machines; `spr_int_t` and `ssize_t` are as wide as a pointer.
    * `sprAtoi`, `sprAtosz`: the two functions.  An operation whose value does
      not fit into its type has no result.
    * `atoLoop_spec`: the loop, with the cutoff of any maximum that fits.
    * `ato_iff`: when the two read a number.

    The limits are selected by `SPR_PTR_SIZE`, which `spr_memory.h` defines only
    after `spr_limits.h` has asked for it. -/

namespace Spr.Strings

/-! ## Section 1: Machines and limits -/

/-- The pointer widths. -/
inductive PtrWidth where
  | bits32
  | bits64
  deriving DecidableEq

def PtrWidth.bits : PtrWidth → Nat
  | .bits32 => 32
  | .bits64 => 64

/-- The maximum of `spr_int_t`, and of `ssize_t`. -/
def PtrWidth.maxInt : PtrWidth → Nat
  | .bits32 => 2147483647
  | .bits64 => 9223372036854775807

/-- The conversion to the signed type of that width. -/
def PtrWidth.toSigned (w : PtrWidth) (x : Int) : Int := x.bmod (2 ^ w.bits)

/-- The value of a signed operation, if it fits. -/
def PtrWidth.fit (w : PtrWidth) (x : Int) : Option Int :=
  if -(w.maxInt : Int) - 1 ≤ x ∧ x ≤ w.maxInt then some x else none

/-- `SPR_INT32_MAX_VALUE` -/
def sprInt32MaxValue : Nat := 0x7fffffff

/-- `SPR_INT64_MAX_VALUE` -/
def sprInt64MaxValue : Nat := 0x7fffffffffffffff

/-- `SPR_INT_T_MAX`, by the value that `#if` finds for `SPR_PTR_SIZE`. -/
def sprIntTMax (sprPtrSize : Nat) : Nat :=
  if sprPtrSize = 4 then sprInt32MaxValue else sprInt64MaxValue

/-- `SPR_SSIZE_T_MAX` -/
def sprSsizeTMax (sprPtrSize : Nat) : Nat :=
  if sprPtrSize = 4 then sprInt32MaxValue else sprInt64MaxValue

/-- What `#if` finds for `SPR_PTR_SIZE` when `spr_string.c` includes
    `spr_limits.h`: an identifier that is not defined yet. -/
def ptrSizeAtLimits : Nat := 0

/-! ## Section 2: The two functions -/

/-- `'0' <= str[i] && str[i] <= '9'` -/
def isDigit (b : UInt8) : Bool := 48 ≤ b.toNat && b.toNat ≤ 57

/-- The `for` loop of both functions. -/
def atoLoop (w : PtrWidth) (cutoff cutlim : Int) : List UInt8 → Int → Option Int
  | [], value => some value
  | b :: str, value =>
      if ¬ isDigit b then some (-1)
      else
        let temp : Int := b.toNat - 48
        if value ≥ cutoff ∧ (value > cutoff ∨ temp > cutlim) then some (-1)
        else do
          let scaled ← w.fit (value * 10)
          let value ← w.fit (scaled + temp)
          atoLoop w cutoff cutlim str value

/-- The common body: `max` is the limit of the result type. -/
def atoBody (w : PtrWidth) (max : Nat) (str : List UInt8) : Option Int :=
  if str.length = 0 then some (-1)
  else atoLoop w (w.toSigned (max / 10 : Nat)) (w.toSigned (max % 10 : Nat)) str 0

/-- `spr_atoi(str, n)` -/
def sprAtoi (w : PtrWidth) (str : List UInt8) : Option Int :=
  atoBody w (sprIntTMax ptrSizeAtLimits) str

/-- `spr_atosz(str, n)` -/
def sprAtosz (w : PtrWidth) (str : List UInt8) : Option Int :=
  atoBody w (sprSsizeTMax ptrSizeAtLimits) str

/-! ## Section 3: Digit strings -/

/-- The value of the digits of `str` behind those that have the value `v`. -/
def valueFrom (v : Nat) (str : List UInt8) : Nat :=
  str.foldl (fun v b => v * 10 + (b.toNat - 48)) v

/-- The decimal value of a digit string. -/
def decimalValue (str : List UInt8) : Nat := valueFrom 0 str

@[simp] theorem valueFrom_nil (v : Nat) : valueFrom v [] = v := rfl

@[simp] theorem valueFrom_cons (v : Nat) (b : UInt8) (str : List UInt8) :
    valueFrom v (b :: str) = valueFrom (v * 10 + (b.toNat - 48)) str := by
  simp only [valueFrom, List.foldl_cons]

/-- More digits never make the value smaller. -/
theorem le_valueFrom (str : List UInt8) : ∀ {v : Nat}, v ≤ valueFrom v str := by
  induction str with
  | nil => intro v; exact Nat.le_refl v
  | cons b str ih =>
    intro v
    have hnext := ih (v := v * 10 + (b.toNat - 48))
    rw [valueFrom_cons]
    omega

/-- The bytes are a decimal number that the result type holds, with any number of
    leading zeros. -/
def Numeral (w : PtrWidth) (str : List UInt8) : Prop :=
  str ≠ [] ∧ (∀ b ∈ str, isDigit b = true) ∧ decimalValue str ≤ w.maxInt

instance (w : PtrWidth) (str : List UInt8) : Decidable (Numeral w str) :=
  @instDecidableAnd _ _ inferInstance (@instDecidableAnd _ _ (List.decidableBAll _ _) inferInstance)

/-- The decimal value of the bytes, or `-1`. -/
def decimalOrMinusOne (w : PtrWidth) (str : List UInt8) : Int :=
  if Numeral w str then decimalValue str else -1

/-! ## Section 4: The loop -/

theorem PtrWidth.fit_of_le {w : PtrWidth} {x : Int} (h0 : 0 ≤ x) (h : x ≤ w.maxInt) :
    w.fit x = some x := by
  apply if_pos
  omega

/-- The cutoff stops exactly the digit that would go beyond the maximum. -/
theorem cutoff_iff (max v d : Nat) (hd : d ≤ 9) :
    ((v : Int) ≥ (max / 10 : Nat) ∧ ((v : Int) > (max / 10 : Nat) ∨ (d : Int) > (max % 10 : Nat))) ↔
      max < v * 10 + d := by
  omega

/-- **The loop**, with the cutoff of a maximum that fits: the value so far never
    goes beyond it, so no operation leaves the type. -/
theorem atoLoop_spec (w : PtrWidth) {max : Nat} (hmax : max ≤ w.maxInt) (str : List UInt8) :
    ∀ {v : Nat}, v ≤ max → atoLoop w (max / 10 : Nat) (max % 10 : Nat) str v =
      some (if str.all isDigit = true ∧ valueFrom v str ≤ max
        then (valueFrom v str : Int) else -1) := by
  induction str with
  | nil => intro v hv; simp [atoLoop, hv]
  | cons b str ih =>
    intro v hv
    rw [atoLoop]
    by_cases hdigit : isDigit b = true
    · have hrange : 48 ≤ b.toNat ∧ b.toNat ≤ 57 := by simpa [isDigit] using hdigit
      have htemp : (b.toNat : Int) - 48 = (b.toNat - 48 : Nat) := by omega
      rw [if_neg (by simpa using hdigit), htemp]
      by_cases hcut : max < v * 10 + (b.toNat - 48)
      · -- the digit is one too many, whatever follows
        have hbeyond := Nat.lt_of_lt_of_le hcut (le_valueFrom str)
        rw [if_pos ((cutoff_iff max v _ (by omega)).mpr hcut), if_neg]
        rintro ⟨-, hle⟩
        rw [valueFrom_cons] at hle
        omega
      · have hscaled : w.fit ((v : Int) * 10) = some ((v : Int) * 10) :=
          PtrWidth.fit_of_le (by omega) (by omega)
        have hnext : w.fit ((v : Int) * 10 + (b.toNat - 48 : Nat))
            = some ((v * 10 + (b.toNat - 48) : Nat) : Int) := by
          rw [PtrWidth.fit_of_le (by omega) (by omega)]
          push_cast
          rfl
        rw [if_neg (fun h => hcut ((cutoff_iff max v _ (by omega)).mp h))]
        simp only [hscaled, Option.bind_eq_bind, Option.bind_some, hnext]
        rw [ih (by omega), valueFrom_cons]
        simp [hdigit]
    · rw [if_pos hdigit, if_neg]
      intro h
      exact hdigit (List.all_eq_true.mp h.1 b List.mem_cons_self)

/-- Where the limit is the maximum of the type, a number is read. -/
theorem atoBody_spec (w : PtrWidth) (str : List UInt8) :
    (if str.length = 0 then some (-1)
      else atoLoop w (w.maxInt / 10 : Nat) (w.maxInt % 10 : Nat) str 0)
      = some (decimalOrMinusOne w str) := by
  unfold decimalOrMinusOne
  by_cases hnil : str = []
  · rw [if_pos (by rw [hnil]; rfl), if_neg (fun h => h.1 hnil)]
  · have hloop := atoLoop_spec w (Nat.le_refl w.maxInt) str (Nat.zero_le _)
    rw [if_neg (by simpa using hnil)]
    refine hloop.trans (congrArg some ?_)
    by_cases h : Numeral w str
    · rw [if_pos h]
      exact if_pos ⟨List.all_eq_true.mpr h.2.1, h.2.2⟩
    · rw [if_neg h]
      exact if_neg fun h' => h ⟨hnil, List.all_eq_true.mp h'.1, h'.2⟩

/-! ## Section 5: When a number is read -/

/-- On a 64-bit machine the limits are those of the types. -/
theorem atoBody_bits64 (str : List UInt8) :
    atoBody .bits64 sprInt64MaxValue str = some (decimalOrMinusOne .bits64 str) :=
  atoBody_spec .bits64 str

/-- On a 32-bit machine the cutoff of the 64-bit limit is negative, so the first
    digit is already one too many. -/
theorem atoBody_bits32 (str : List UInt8) :
    atoBody .bits32 sprInt64MaxValue str = some (-1) := by
  have hcutoff : PtrWidth.toSigned .bits32 (sprInt64MaxValue / 10 : Nat) = -858993460 := by decide
  unfold atoBody
  rw [hcutoff]
  cases str with
  | nil => rfl
  | cons b str =>
    rw [if_neg (by simp), atoLoop]
    by_cases hdigit : isDigit b = true
    · rw [if_neg (by simpa using hdigit), if_pos ⟨by decide, Or.inl (by decide)⟩]
    · rw [if_pos hdigit]

theorem atoBody_iff (w : PtrWidth) (str : List UInt8) :
    atoBody w sprInt64MaxValue str = some (decimalOrMinusOne w str) ↔
      w = .bits64 ∨ ¬ Numeral w str := by
  cases w with
  | bits64 => simp [atoBody_bits64]
  | bits32 =>
    rw [atoBody_bits32, decimalOrMinusOne]
    by_cases h : Numeral .bits32 str
    · rw [if_pos h]
      simp [h]
    · rw [if_neg h]
      simp [h]

/-- **The two functions read numbers on 64-bit machines**, and nothing but `-1` on
    32-bit machines. -/
theorem ato_iff (w : PtrWidth) (str : List UInt8) :
    (sprAtoi w str = some (decimalOrMinusOne w str) ↔ w = .bits64 ∨ ¬ Numeral w str) ∧
    (sprAtosz w str = some (decimalOrMinusOne w str) ↔ w = .bits64 ∨ ¬ Numeral w str) :=
  ⟨atoBody_iff w str, atoBody_iff w str⟩

/-- **The string `7` on a 32-bit machine.** -/
theorem ato_seven_breaks :
    Numeral .bits32 [55] ∧ decimalOrMinusOne .bits32 [55] = 7 ∧
    sprAtoi .bits32 [55] = some (-1) ∧ sprAtosz .bits32 [55] = some (-1) :=
  ⟨by decide +kernel, by decide +kernel, by decide +kernel, by decide +kernel⟩

end Spr.Strings
