import Mathlib.Data.List.Basic
import Mathlib.Data.List.Nodup
import Mathlib.Logic.Function.Basic

/-! # Intrusive linked chains

    A heap of links is a function `next : α → α`; a chain starts at a pointer,
    follows `next`, and ends at `null`.  `Chain next null p l` says that the
    walk from `p` visits exactly the cells `l`, in order, and then ends.

    * `chain_unique`, `chain_nodup`: a chain is determined by its start and
      never comes back to a cell.
    * `chain_congr`: a chain only reads the links of its own cells.
    * `chain_push`, `chain_unlink_head`, `chain_unlink`, `chain_snoc`: the
      edits of a linked list, as one or two updates of `next`.
    * `walk`: the executable walk, and when it is the chain. -/

namespace Spr.Chains

variable {α : Type}

/-! ## Section 1: Chains -/

/-- The walk from `p` along `next` visits exactly `l` and ends at `null`. -/
def Chain (next : α → α) (null : α) : α → List α → Prop
  | p, [] => p = null
  | p, a :: l => p = a ∧ a ≠ null ∧ Chain next null (next a) l

/-- The walk from `p` visits exactly `l` and then stands at `q`. -/
def Segment (next : α → α) (null : α) : α → List α → α → Prop
  | p, [], q => p = q
  | p, a :: l, q => p = a ∧ a ≠ null ∧ Segment next null (next a) l q

variable {next next' : α → α} {null p q a b : α} {l l' l₁ l₂ : List α}

@[simp] theorem chain_nil : Chain next null p [] ↔ p = null := Iff.rfl

@[simp] theorem chain_cons :
    Chain next null p (a :: l) ↔ p = a ∧ a ≠ null ∧ Chain next null (next a) l := Iff.rfl

@[simp] theorem segment_nil : Segment next null p [] q ↔ p = q := Iff.rfl

@[simp] theorem segment_cons :
    Segment next null p (a :: l) q ↔ p = a ∧ a ≠ null ∧ Segment next null (next a) l q := Iff.rfl

/-- A chain is a segment that ends at `null`. -/
theorem chain_iff_segment : Chain next null p l ↔ Segment next null p l null := by
  induction l generalizing p with
  | nil => rfl
  | cons a l ih => rw [chain_cons, segment_cons, ih]

theorem segment_append :
    Segment next null p (l₁ ++ l₂) q ↔
      ∃ r, Segment next null p l₁ r ∧ Segment next null r l₂ q := by
  induction l₁ generalizing p with
  | nil => simp
  | cons a l₁ ih =>
    simp only [List.cons_append, segment_cons, ih]
    constructor
    · rintro ⟨hp, ha, r, h₁, h₂⟩
      exact ⟨r, ⟨hp, ha, h₁⟩, h₂⟩
    · rintro ⟨r, ⟨hp, ha, h₁⟩, h₂⟩
      exact ⟨hp, ha, r, h₁, h₂⟩

/-- A chain splits at any of its cells. -/
theorem chain_append :
    Chain next null p (l₁ ++ l₂) ↔ ∃ r, Segment next null p l₁ r ∧ Chain next null r l₂ := by
  simp only [chain_iff_segment, segment_append]

theorem chain_ne_null (h : Chain next null p l) : ∀ a ∈ l, a ≠ null := by
  induction l generalizing p with
  | nil => simp
  | cons a l ih =>
    obtain ⟨-, ha, hl⟩ := h
    intro b hb
    rcases List.mem_cons.mp hb with rfl | hb
    · exact ha
    · exact ih hl b hb

/-- The start of a chain decides whether it is empty. -/
theorem chain_null_iff (h : Chain next null p l) : p = null ↔ l = [] := by
  cases l with
  | nil => simpa using h
  | cons a l =>
    obtain ⟨rfl, ha, -⟩ := h
    simp [ha]

/-- The list decides where the chain starts. -/
theorem chain_start (h : Chain next null p l) : p = l.headD null := by
  cases l with
  | nil => exact h
  | cons a l => exact h.1

theorem chain_head (h : Chain next null p (a :: l)) : p = a := h.1

/-- **A chain is determined by its start.** -/
theorem chain_unique (h : Chain next null p l) (h' : Chain next null p l') : l = l' := by
  induction l generalizing p l' with
  | nil => exact ((chain_null_iff h').mp h).symm
  | cons a l ih =>
    obtain ⟨rfl, ha, hl⟩ := h
    cases l' with
    | nil => exact absurd h' ha
    | cons b l' =>
      obtain ⟨rfl, -, hl'⟩ := h'
      rw [ih hl hl']

/-- **A chain never comes back to a cell.** -/
theorem chain_nodup (h : Chain next null p l) : l.Nodup := by
  induction l generalizing p with
  | nil => exact List.nodup_nil
  | cons a l ih =>
    obtain ⟨rfl, ha, hl⟩ := h
    refine List.nodup_cons.mpr ⟨fun hmem => ?_, ih hl⟩
    -- the chain from the second visit is the chain from the first, and shorter
    obtain ⟨s, t, rfl⟩ := List.append_of_mem hmem
    obtain ⟨r, -, hr⟩ := chain_append.mp hl
    obtain ⟨rfl, -, ht⟩ := hr
    have hsame := chain_unique ht hl
    have := congrArg List.length hsame
    simp at this
    omega

/-! ## Section 2: A chain reads only its own links -/

theorem segment_congr (hag : ∀ a ∈ l, next' a = next a) (h : Segment next null p l q) :
    Segment next' null p l q := by
  induction l generalizing p with
  | nil => exact h
  | cons a l ih =>
    obtain ⟨hp, ha, hl⟩ := h
    refine ⟨hp, ha, ?_⟩
    rw [hag a List.mem_cons_self]
    exact ih (fun b hb => hag b (List.mem_cons_of_mem _ hb)) hl

theorem chain_congr (hag : ∀ a ∈ l, next' a = next a) (h : Chain next null p l) :
    Chain next' null p l :=
  chain_iff_segment.mpr (segment_congr hag (chain_iff_segment.mp h))

/-- Taking the front cell: the start becomes its link. -/
theorem chain_unlink_head (h : Chain next null p (a :: l)) : Chain next null (next a) l := h.2.2

section Edits

variable [DecidableEq α]

theorem chain_update_of_notMem (ha : a ∉ l) (h : Chain next null p l) :
    Chain (Function.update next a b) null p l :=
  chain_congr (fun _ hx => Function.update_of_ne (ne_of_mem_of_not_mem hx ha) _ _) h

theorem segment_update_of_notMem (ha : a ∉ l) (h : Segment next null p l q) :
    Segment (Function.update next a b) null p l q :=
  segment_congr (fun _ hx => Function.update_of_ne (ne_of_mem_of_not_mem hx ha) _ _) h

/-! ## Section 3: Edits -/

/-- Pushing a cell in front: its link becomes the old start. -/
theorem chain_push (hne : a ≠ null) (ha : a ∉ l) (h : Chain next null p l) :
    Chain (Function.update next a p) null a (a :: l) := by
  refine ⟨rfl, hne, ?_⟩
  rw [Function.update_self]
  exact chain_update_of_notMem ha h

/-- Taking an inner cell: the link of the cell before it becomes its link. -/
theorem chain_unlink (h : Chain next null p (l₁ ++ b :: a :: l₂)) :
    Chain (Function.update next b (next a)) null p (l₁ ++ b :: l₂) := by
  have hnd := chain_nodup h
  obtain ⟨r, h₁, rfl, hb, ha, -, h₂⟩ := chain_append.mp h
  have hb₁ : r ∉ l₁ := fun hmem =>
    (List.nodup_append.mp hnd).2.2 r hmem r List.mem_cons_self rfl
  have hb₂ : r ∉ l₂ := fun hmem =>
    (List.nodup_cons.mp (List.nodup_append.mp hnd).2.1).1 (List.mem_cons_of_mem _ hmem)
  refine chain_append.mpr ⟨r, segment_update_of_notMem hb₁ h₁, rfl, hb, ?_⟩
  rw [Function.update_self]
  exact chain_update_of_notMem hb₂ h₂

/-- Hanging a cell behind the last one. -/
theorem chain_snoc (hne : a ≠ null) (ha : a ∉ l ++ [b]) (h : Chain next null p (l ++ [b])) :
    Chain (Function.update (Function.update next a null) b a) null p (l ++ [b, a]) := by
  have hnd := chain_nodup h
  obtain ⟨r, h₁, rfl, hb, -⟩ := chain_append.mp h
  have hbl : r ∉ l := fun hmem =>
    (List.nodup_append.mp hnd).2.2 r hmem r List.mem_cons_self rfl
  have hal : a ∉ l := fun hmem => ha (List.mem_append_left _ hmem)
  have hab : a ≠ r := fun he => ha (by simp [he])
  refine chain_append.mpr
    ⟨r, segment_update_of_notMem hbl (segment_update_of_notMem hal h₁), rfl, hb, ?_⟩
  rw [Function.update_self]
  refine ⟨rfl, hne, ?_⟩
  rw [Function.update_of_ne hab, Function.update_self]
  rfl

/-- Cutting off the last cell: the link of the cell before it becomes `null`. -/
theorem chain_cut (h : Chain next null p (l ++ [b, a])) :
    Chain (Function.update next b null) null p (l ++ [b]) := by
  have hcut : Chain (Function.update next b (next a)) null p (l ++ b :: []) := chain_unlink h
  obtain ⟨r, -, rfl, -, ha, -, hnull⟩ := chain_append.mp h
  rw [hnull] at hcut
  exact hcut

end Edits

/-! ## Section 4: The executable walk -/

variable [DecidableEq α]

/-- The cells visited from `p` in at most `fuel` steps. -/
def walk (next : α → α) (null : α) : Nat → α → List α
  | 0, _ => []
  | fuel + 1, p => if p = null then [] else p :: walk next null fuel (next p)

/-- With enough steps the walk is the chain. -/
theorem walk_of_chain {fuel : Nat} (h : Chain next null p l) (hfuel : l.length ≤ fuel) :
    walk next null fuel p = l := by
  induction l generalizing p fuel with
  | nil =>
    cases fuel with
    | zero => rfl
    | succ fuel => rw [walk, if_pos (show p = null from h)]
  | cons a l ih =>
    obtain ⟨rfl, ha, hl⟩ := h
    obtain ⟨fuel, rfl⟩ : ∃ k, fuel = k + 1 := ⟨fuel - 1, by simp at hfuel; omega⟩
    rw [walk, if_neg ha, ih hl (by simpa using hfuel)]

end Spr.Chains
