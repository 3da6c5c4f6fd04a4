import Spr.Framework.Buffers
import Spr.Strings.Atoi

/-! # Searching a string

    `spr_strlen`, `spr_strchr` and `spr_strrchr` of `src/lib/spr_string.c`.  A pointer
    into a string is a position, and an access outside the string has no result.

    * `asInt`, `toChar`: a byte as a `char`, converted to `int` and back.
    * `First`, `Last`: what the two functions should find.
    * `strchr_iff`: when they find it. -/

namespace Spr.Strings

open Spr.Buffers

/-! ## Section 1: The functions -/

/-- The value of a `char` that is promoted to `int`. -/
def asInt (b : UInt8) : Int := b.toInt8.toInt

/-- `(char) c` -/
def toChar (c : Int) : UInt8 := (Int8.ofInt c).toUInt8

/-- The loop of `spr_strlen`, `i` bytes into the string. -/
def strlenLoop : List UInt8 → Nat → Option Nat
  | [], _ => none
  | b :: str, i => if b = 0 then some i else strlenLoop str (i + 1)

/-- `spr_strlen(str)` -/
def sprStrlen (str : List UInt8) : Option Nat := strlenLoop str 0

/-- The loop of `spr_strchr`, from `i` on; `left` positions are left. -/
def strchrLoop (str : List UInt8) (c : Int) (i : Nat) : Nat → Option (Option Nat)
  | 0 => some none
  | left + 1 => do
      let b ← str[i]?
      if asInt b = c then some (some i) else strchrLoop str c (i + 1) left

/-- `spr_strchr(str, c)`: the position, or `NULL`. -/
def sprStrchr (str : List UInt8) (c : Int) : Option (Option Nat) := do
  let len ← sprStrlen str
  strchrLoop str c 0 len

/-- The loop of `spr_strrchr`, from a position down. -/
def strrchrLoop (str : List UInt8) (c : Int) : Nat → Option (Option Nat)
  | 0 => do
      let b ← str[0]?
      if asInt b = c then some (some 0) else some none
  | i + 1 => do
      let b ← str[i + 1]?
      if asInt b = c then some (some (i + 1)) else strrchrLoop str c i

/-- `spr_strrchr(str, c)`; the index is of type `spr_int_t`. -/
def sprStrrchr (w : PtrWidth) (str : List UInt8) (c : Int) : Option (Option Nat) := do
  let len ← sprStrlen str
  match w.toSigned len with
  | .ofNat i => strrchrLoop str c i
  | .negSucc _ => some none

/-! ## Section 2: What should be found -/

/-- The character at a position of the string, whose terminator is at the last one. -/
def Occurs {space : Nat} (s : CString space) (d : UInt8) (i : Nat) : Prop := s.object[i]? = some d

/-- `p` is the first position of the character, `none` when there is none. -/
def First {space : Nat} (s : CString space) (d : UInt8) (p : Option Nat) : Prop :=
  ∀ i, p = some i ↔ Occurs s d i ∧ ∀ j < i, ¬ Occurs s d j

/-- `p` is the last position of the character, `none` when there is none. -/
def Last {space : Nat} (s : CString space) (d : UInt8) (p : Option Nat) : Prop :=
  ∀ i, p = some i ↔ Occurs s d i ∧ ∀ j, i < j → ¬ Occurs s d j

/-- The two results are those of the C functions: the first and the last position of the
    character, both `NULL` or neither, and in order. -/
structure SearchedAlike {space : Nat} (s : CString space) (d : UInt8) (p q : Option Nat) :
    Prop where
  first : First s d p
  last  : Last s d q
  null  : p = none ↔ q = none
  order : ∀ i j, p = some i → q = some j → i ≤ j

section Spec

variable {space : Nat} {s : CString space} {d : UInt8} {p q : Option Nat} {i : Nat}

theorem occurs_iff (s : CString space) (d : UInt8) : d ∈ s.object ↔ ∃ i, Occurs s d i :=
  List.mem_iff_getElem?

theorem Occurs.lt (h : Occurs s d i) : i < s.bytes.length + 1 := by
  rw [← s.object_length]
  exact (List.getElem?_eq_some_iff.mp h).1

/-- There is a first position when there is one at all. -/
theorem First.none_iff (h : First s d p) : p = none ↔ ∀ i, ¬ Occurs s d i := by
  constructor
  · rintro rfl i hi
    -- the least position would have been found
    induction i using Nat.strong_induction_on with
    | _ i ih =>
      have hnone := (h i).mpr ⟨hi, fun j hj hocc => ih j hj hocc⟩
      cases hnone
  · intro hno
    cases p with
    | none => rfl
    | some i => exact absurd ((h i).mp rfl).1 (hno i)

theorem Last.none_iff (h : Last s d q) : q = none ↔ ∀ i, ¬ Occurs s d i := by
  constructor
  · rintro rfl
    -- the greatest position would have been found
    suffices hdown : ∀ k i, s.bytes.length + 1 - i = k → ¬ Occurs s d i from
      fun i => hdown _ i rfl
    intro k
    induction k using Nat.strong_induction_on with
    | _ k ih =>
      intro i hk hi
      have hlt := hi.lt
      have hnone := (h i).mpr ⟨hi, fun j hj hocc => ih _ (by omega) j rfl hocc⟩
      cases hnone
  · intro hno
    cases q with
    | none => rfl
    | some i => exact absurd ((h i).mp rfl).1 (hno i)

/-- **The first and the last position** belong together. -/
theorem First.alike (hp : First s d p) (hq : Last s d q) : SearchedAlike s d p q := by
  refine ⟨hp, hq, hp.none_iff.trans hq.none_iff.symm, ?_⟩
  intro i j hi hj
  apply Nat.le_of_not_lt
  intro hlt
  exact ((hp i).mp hi).2 j hlt ((hq j).mp hj).1

/-- Where the character does not occur, `NULL` is right, and only `NULL`. -/
theorem first_absent (hno : d ∉ s.object) : First s d p ↔ p = none := by
  have hnone : ∀ i, ¬ Occurs s d i := fun i hi => hno ((occurs_iff s d).mpr ⟨i, hi⟩)
  constructor
  · intro h
    exact h.none_iff.mpr hnone
  · rintro rfl i
    exact iff_of_false (fun h => by cases h) fun h => hnone i h.1

theorem last_absent (hno : d ∉ s.object) : Last s d q ↔ q = none := by
  have hnone : ∀ i, ¬ Occurs s d i := fun i hi => hno ((occurs_iff s d).mpr ⟨i, hi⟩)
  constructor
  · intro h
    exact h.none_iff.mpr hnone
  · rintro rfl i
    exact iff_of_false (fun h => by cases h) fun h => hnone i h.1

end Spec

/-! ## Section 3: The loops -/

section Loops

variable {space : Nat} {s : CString space} {c : Int}

/-- `spr_strlen` from any place in the string. -/
theorem strlenLoop_run (str : List UInt8) (hno : (0 : UInt8) ∉ str) (i : Nat) :
    strlenLoop (str ++ [0]) i = some (i + str.length) := by
  induction str generalizing i with
  | nil => rfl
  | cons b str ih =>
    have hb : b ≠ 0 := fun h => hno (by simp [h])
    rw [List.cons_append, strlenLoop, if_neg hb, ih (fun h => hno (List.mem_cons_of_mem _ h)),
      List.length_cons]
    congr 1
    omega

/-- **`spr_strlen`.** -/
theorem sprStrlen_object (s : CString space) : sprStrlen s.object = some s.bytes.length := by
  unfold sprStrlen CString.object
  rw [strlenLoop_run s.bytes s.nonzero, Nat.zero_add]

/-- The conversion to `char` does nothing to the value of a `char`. -/
theorem toChar_asInt (b : UInt8) : toChar (asInt b) = b := by
  unfold toChar asInt
  rw [Int8.ofInt_toInt]
  rfl

/-- A byte equals `c` if `c` is the value of a `char`, and the byte that `char`. -/
theorem asInt_eq_iff (b : UInt8) (c : Int) : asInt b = c ↔ asInt (toChar c) = c ∧ b = toChar c := by
  constructor
  · rintro rfl
    rw [toChar_asInt]
    exact ⟨rfl, rfl⟩
  · rintro ⟨hc, rfl⟩
    exact hc

/-- **The loop of `spr_strchr`**, when nothing before `i` has matched: it looks at the
    positions in front of the terminator. -/
theorem strchrLoop_run (hc : asInt (toChar c) = c) : ∀ (left i : Nat),
    i + left = s.bytes.length → (∀ j < i, ¬ Occurs s (toChar c) j) →
    ∃ p, strchrLoop s.object c i left = some p ∧
      ∀ k, p = some k ↔ k < s.bytes.length ∧ Occurs s (toChar c) k ∧
        ∀ j < k, ¬ Occurs s (toChar c) j := by
  intro left
  induction left with
  | zero =>
    intro i hi hbefore
    refine ⟨none, rfl, fun k => iff_of_false (fun h => by cases h) ?_⟩
    intro hfound
    obtain ⟨hk, hocc, -⟩ := hfound
    exact hbefore k (by omega) hocc
  | succ left ih =>
    intro i hi hbefore
    have hlt : i < s.bytes.length := by omega
    have hbyte := CString.object_getElem hlt
    by_cases heq : asInt s.bytes[i] = c
    · have hd := ((asInt_eq_iff _ _).mp heq).2
      have hocc : Occurs s (toChar c) i := by rw [Occurs, hbyte, hd]
      refine ⟨some i, by simp [strchrLoop, hbyte, heq], fun k => ?_⟩
      constructor
      · intro h
        obtain rfl := Option.some.inj h
        exact ⟨hlt, hocc, hbefore⟩
      · intro hfound
        obtain ⟨-, hk, hfirst⟩ := hfound
        -- two first positions are one
        rcases Nat.lt_trichotomy i k with h | h | h
        · exact absurd hocc (hfirst i h)
        · rw [h]
        · exact absurd hk (hbefore k h)
    · have hnot : ¬ Occurs s (toChar c) i := by
        intro hocc
        rw [Occurs, hbyte] at hocc
        exact heq ((asInt_eq_iff _ _).mpr ⟨hc, Option.some.inj hocc⟩)
      obtain ⟨p, hrun, hp⟩ := ih (i + 1) (by omega) fun j hj => by
        rcases Nat.lt_succ_iff_lt_or_eq.mp hj with hj | rfl
        · exact hbefore j hj
        · exact hnot
      exact ⟨p, by simp [strchrLoop, hbyte, heq, hrun], hp⟩

/-- One round of `spr_strrchr` at a position that matches. -/
theorem strrchrLoop_found {i : Nat} {b : UInt8} (hb : s.object[i]? = some b) (heq : asInt b = c) :
    strrchrLoop s.object c i = some (some i) := by
  cases i with
  | zero =>
    unfold strrchrLoop
    rw [hb]
    exact if_pos heq
  | succ i =>
    unfold strrchrLoop
    rw [hb]
    exact if_pos heq

/-- One round at the start of the string, which does not match. -/
theorem strrchrLoop_start {b : UInt8} (hb : s.object[0]? = some b) (hne : asInt b ≠ c) :
    strrchrLoop s.object c 0 = some none := by
  unfold strrchrLoop
  rw [hb]
  exact if_neg hne

/-- One round further on, at a position that does not match. -/
theorem strrchrLoop_down {i : Nat} {b : UInt8} (hb : s.object[i + 1]? = some b)
    (hne : asInt b ≠ c) : strrchrLoop s.object c (i + 1) = strrchrLoop s.object c i := by
  rw [strrchrLoop, hb]
  exact if_neg hne

/-- **The loop of `spr_strrchr`**, when nothing behind `i` matches. -/
theorem strrchrLoop_run (hc : asInt (toChar c) = c) : ∀ i, i ≤ s.bytes.length →
    (∀ j, i < j → ¬ Occurs s (toChar c) j) →
    ∃ q, strrchrLoop s.object c i = some q ∧ Last s (toChar c) q := by
  -- a match is the last position
  have hfound : ∀ i, Occurs s (toChar c) i → (∀ j, i < j → ¬ Occurs s (toChar c) j) →
      Last s (toChar c) (some i) := by
    intro i hocc hbehind k
    constructor
    · intro h
      obtain rfl := Option.some.inj h
      exact ⟨hocc, hbehind⟩
    · intro hlast
      obtain ⟨hk, hlast⟩ := hlast
      rcases Nat.lt_trichotomy i k with h | h | h
      · exact absurd hk (hbehind k h)
      · rw [h]
      · exact absurd hocc (hlast i h)
  intro i
  induction i with
  | zero =>
    intro hle hbehind
    obtain ⟨b, hb⟩ : ∃ b, s.object[0]? = some b :=
      ⟨_, List.getElem?_eq_getElem (by rw [s.object_length]; omega)⟩
    by_cases heq : asInt b = c
    · have hd := ((asInt_eq_iff _ _).mp heq).2
      exact ⟨some 0, strrchrLoop_found hb heq, hfound 0 (by rw [Occurs, hb, hd]) hbehind⟩
    · refine ⟨none, strrchrLoop_start hb heq, fun k => ?_⟩
      apply iff_of_false (fun h => by cases h)
      intro hat
      obtain ⟨hk, -⟩ := hat
      rcases Nat.eq_zero_or_pos k with rfl | hpos
      · rw [Occurs, hb] at hk
        exact heq ((asInt_eq_iff _ _).mpr ⟨hc, Option.some.inj hk⟩)
      · exact hbehind k hpos hk
  | succ i ih =>
    intro hle hbehind
    obtain ⟨b, hb⟩ : ∃ b, s.object[i + 1]? = some b :=
      ⟨_, List.getElem?_eq_getElem (by rw [s.object_length]; omega)⟩
    by_cases heq : asInt b = c
    · have hd := ((asInt_eq_iff _ _).mp heq).2
      exact ⟨some (i + 1), strrchrLoop_found hb heq,
        hfound _ (by rw [Occurs, hb, hd]) hbehind⟩
    · obtain ⟨q, hrun, hq⟩ := ih (by omega) fun j hj => by
        rcases Nat.lt_or_eq_of_le (Nat.succ_le_of_lt hj) with hj | rfl
        · exact hbehind j hj
        · intro hocc
          rw [Occurs, hb] at hocc
          exact heq ((asInt_eq_iff _ _).mpr ⟨hc, Option.some.inj hocc⟩)
      exact ⟨q, (strrchrLoop_down hb heq).trans hrun, hq⟩

/-- A value that is no `char` is not found. -/
theorem strchrLoop_miss (hc : asInt (toChar c) ≠ c) : ∀ (left i : Nat),
    i + left = s.bytes.length → strchrLoop s.object c i left = some none := by
  intro left
  induction left with
  | zero => intro i _; rfl
  | succ left ih =>
    intro i hi
    have hbyte := CString.object_getElem (s := s) (i := i) (by omega)
    have hne : asInt s.bytes[i] ≠ c := fun h => hc ((asInt_eq_iff _ _).mp h).1
    simp [strchrLoop, hbyte, hne, ih (i + 1) (by omega)]

theorem strrchrLoop_miss (hc : asInt (toChar c) ≠ c) : ∀ i, i ≤ s.bytes.length →
    strrchrLoop s.object c i = some none := by
  have hbyte : ∀ i, i ≤ s.bytes.length → ∃ b, s.object[i]? = some b ∧ asInt b ≠ c := by
    intro i hi
    exact ⟨_, List.getElem?_eq_getElem (by rw [s.object_length]; omega),
      fun h => hc ((asInt_eq_iff _ _).mp h).1⟩
  intro i
  induction i with
  | zero =>
    intro hi
    obtain ⟨b, hb, hne⟩ := hbyte 0 hi
    exact strrchrLoop_start hb hne
  | succ i ih =>
    intro hi
    obtain ⟨b, hb, hne⟩ := hbyte (i + 1) hi
    rw [strrchrLoop_down hb hne]
    exact ih (by omega)

end Loops

/-! ## Section 4: The two functions -/

section Searches

variable {w : PtrWidth}

theorem PtrWidth.two_half (w : PtrWidth) : 2 ^ w.bits = 2 * 2 ^ (w.bits - 1) := by
  cases w <;> rfl

/-- The length of the string is an index of the signed type. -/
theorem toSigned_short {n : Nat} (h : n < 2 ^ (w.bits - 1)) : w.toSigned n = n := by
  have hhalf := w.two_half
  unfold PtrWidth.toSigned
  rw [hhalf]
  apply Int.bmod_eq_of_le
  · omega
  · omega

/-- From half of the address space on, it becomes negative. -/
theorem toSigned_long {n : Nat} (h : 2 ^ (w.bits - 1) ≤ n) (hlt : n < 2 ^ w.bits) :
    w.toSigned n < 0 := by
  have hhalf := w.two_half
  have hmod : (n : Int) % (2 ^ w.bits : Nat) = n := Int.emod_eq_of_lt (by omega) (by omega)
  unfold PtrWidth.toSigned Int.bmod
  rw [hmod]
  by_cases hlow : (n : Int) < ((2 ^ w.bits : Nat) + 1) / 2
  · omega
  · rw [if_neg hlow]
    omega

/-- `spr_strrchr` on a string whose length is an index. -/
theorem sprStrrchr_short {s : CString (2 ^ w.bits)} (hlen : s.bytes.length < 2 ^ (w.bits - 1))
    (c : Int) : sprStrrchr w s.object c = strrchrLoop s.object c s.bytes.length := by
  unfold sprStrrchr
  simp only [sprStrlen_object, Option.bind_eq_bind, Option.bind_some, toSigned_short hlen]

/-- `spr_strrchr` on a longer string looks nowhere. -/
theorem sprStrrchr_long {s : CString (2 ^ w.bits)} (hlen : 2 ^ (w.bits - 1) ≤ s.bytes.length)
    (c : Int) : sprStrrchr w s.object c = some none := by
  have hfits := s.fits
  obtain ⟨k, hk⟩ := Int.eq_negSucc_of_lt_zero (toSigned_long hlen (by omega))
  unfold sprStrrchr
  simp only [sprStrlen_object, Option.bind_eq_bind, Option.bind_some, hk]

theorem sprStrchr_object (s : CString space) (c : Int) :
    sprStrchr s.object c = strchrLoop s.object c 0 s.bytes.length := by
  unfold sprStrchr
  rw [sprStrlen_object]
  rfl

/-- A character that is not the terminator occurs in front of it. -/
theorem Occurs.lt_length {s : CString space} {d : UInt8} {i : Nat} (h : Occurs s d i)
    (hd : d ≠ 0) : i < s.bytes.length := by
  have hle := h.lt
  apply Nat.lt_of_le_of_ne (by omega)
  rintro rfl
  rw [Occurs, s.object_end] at h
  exact hd (Option.some.inj h).symm

/-- **`spr_strchr`** leaves the terminator out. -/
theorem strchr_first (s : CString space) {c : Int} (hc : asInt (toChar c) = c) :
    ∃ p, sprStrchr s.object c = some p ∧
      (First s (toChar c) p ↔ toChar c ∉ s.object ∨ c ≠ 0) := by
  obtain ⟨p, hrun, hp⟩ := strchrLoop_run (s := s) hc s.bytes.length 0 (Nat.zero_add _)
    fun j hj => absurd hj (Nat.not_lt_zero j)
  refine ⟨p, (sprStrchr_object s c).trans hrun, ?_⟩
  constructor
  · -- the terminator would have to be found
    intro hfirst
    by_cases hzero : c = 0
    · subst hzero
      left
      intro hin
      obtain ⟨i, hi⟩ := (occurs_iff s _).mp hin
      cases p with
      | none => exact hfirst.none_iff.mp rfl i hi
      | some k =>
        -- the loop has found a byte in front of it, which is not 0
        obtain ⟨hk, hocc, -⟩ := (hp k).mp rfl
        rw [Occurs, CString.object_getElem hk] at hocc
        have hb : s.bytes[k] = 0 := Option.some.inj hocc
        exact s.nonzero (hb ▸ List.getElem_mem hk)
    · exact Or.inr hzero
  · intro hcase i
    rw [hp i]
    apply and_iff_right_of_imp
    intro hocc
    obtain ⟨hocc, -⟩ := hocc
    rcases hcase with hno | hne
    · exact absurd ((occurs_iff s _).mpr ⟨i, hocc⟩) hno
    · apply hocc.lt_length
      intro hzero
      rw [hzero] at hc
      exact hne hc.symm

/-- **`spr_strrchr`** does not look at a string that is too long for its index. -/
theorem strrchr_last (s : CString (2 ^ w.bits)) {c : Int} (hc : asInt (toChar c) = c) :
    ∃ q, sprStrrchr w s.object c = some q ∧
      (Last s (toChar c) q ↔ toChar c ∉ s.object ∨ s.bytes.length < 2 ^ (w.bits - 1)) := by
  by_cases hlen : s.bytes.length < 2 ^ (w.bits - 1)
  · obtain ⟨q, hrun, hq⟩ := strrchrLoop_run hc s.bytes.length (Nat.le_refl _) fun j hj hocc => by
      have hlt := Occurs.lt hocc
      omega
    exact ⟨q, (sprStrrchr_short hlen c).trans hrun, iff_of_true hq (Or.inr hlen)⟩
  · refine ⟨none, sprStrrchr_long (Nat.not_lt.mp hlen) c, ?_⟩
    rw [or_iff_left hlen]
    constructor
    · intro hlast hin
      obtain ⟨i, hi⟩ := (occurs_iff s _).mp hin
      exact hlast.none_iff.mp rfl i hi
    · intro hno
      exact (last_absent hno).mpr rfl

/-- A value that is no `char` is found nowhere. -/
theorem searches_miss (s : CString (2 ^ w.bits)) {c : Int} (hc : asInt (toChar c) ≠ c) :
    sprStrchr s.object c = some none ∧ sprStrrchr w s.object c = some none := by
  constructor
  · rw [sprStrchr_object]
    exact strchrLoop_miss hc _ _ (Nat.zero_add _)
  · by_cases hlen : s.bytes.length < 2 ^ (w.bits - 1)
    · rw [sprStrrchr_short hlen]
      exact strrchrLoop_miss hc _ (Nat.le_refl _)
    · exact sprStrrchr_long (Nat.not_lt.mp hlen) c

/-- What the two functions return for a string and a value. -/
def SearchesAgree (w : PtrWidth) (s : CString (2 ^ w.bits)) (c : Int) : Prop :=
  ∃ p q, sprStrchr s.object c = some p ∧ sprStrrchr w s.object c = some q ∧
    SearchedAlike s (toChar c) p q

/-- **The two searches are those of the C functions** where the character does not occur
    at all, and where `c` is the value of a `char`, not 0, and the length is an index. -/
theorem strchr_iff (w : PtrWidth) (s : CString (2 ^ w.bits)) (c : Int) :
    SearchesAgree w s c ↔ toChar c ∉ s.object ∨
      (asInt (toChar c) = c ∧ c ≠ 0 ∧ s.bytes.length < 2 ^ (w.bits - 1)) := by
  by_cases hc : asInt (toChar c) = c
  · obtain ⟨p, hp, hfirst⟩ := strchr_first s hc
    obtain ⟨q, hq, hlast⟩ := strrchr_last s hc
    constructor
    · intro hagree
      obtain ⟨p', q', hp', hq', halike⟩ := hagree
      obtain rfl := Option.some.inj (hp.symm.trans hp')
      obtain rfl := Option.some.inj (hq.symm.trans hq')
      rcases hfirst.mp halike.first with hno | hne
      · exact Or.inl hno
      · exact (hlast.mp halike.last).imp_right fun hlen => ⟨hc, hne, hlen⟩
    · intro hcase
      refine ⟨p, q, hp, hq, First.alike (hfirst.mpr ?_) (hlast.mpr ?_)⟩
      · exact hcase.imp_right fun h => h.2.1
      · exact hcase.imp_right fun h => h.2.2
  · -- both return `NULL`
    obtain ⟨hp, hq⟩ := searches_miss s hc
    rw [or_iff_left fun h => hc h.1]
    constructor
    · intro hagree hin
      obtain ⟨p', q', hp', -, halike⟩ := hagree
      obtain rfl := Option.some.inj (hp.symm.trans hp')
      obtain ⟨i, hi⟩ := (occurs_iff s _).mp hin
      exact halike.first.none_iff.mp rfl i hi
    · intro hno
      exact ⟨none, none, hp, hq,
        First.alike ((first_absent hno).mpr rfl) ((last_absent hno).mpr rfl)⟩

/-- The string `a`. -/
def letterA : CString (2 ^ PtrWidth.bits64.bits) := ⟨[97], by decide, by decide⟩

/-- **The terminator of a string**: `spr_strrchr` finds it, and `spr_strchr` does not. -/
theorem strchr_terminator :
    sprStrchr letterA.object 0 = some none ∧
    sprStrrchr .bits64 letterA.object 0 = some (some 1) ∧
    ¬ SearchesAgree .bits64 letterA 0 := by
  have hp : sprStrchr letterA.object 0 = some none := by decide
  have hq : sprStrrchr .bits64 letterA.object 0 = some (some 1) := by decide
  refine ⟨hp, hq, ?_⟩
  intro hagree
  obtain ⟨p, q, hp', hq', halike⟩ := hagree
  obtain rfl := Option.some.inj (hp.symm.trans hp')
  obtain rfl := Option.some.inj (hq.symm.trans hq')
  cases halike.null.mp rfl

end Searches

end Spr.Strings
