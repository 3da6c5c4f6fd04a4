import Mathlib.Data.List.Induction

/-! # Registries

    A registry is a list of entries, newest first: an entry is added in front, and
    the newest entry with some key is taken.

    * `Deal`, `play`: what is done to a registry, one deal after the other.
    * `playSplit`: the entries added on the way, apart from those that were there.
    * `insert_take`: taking an entry from an inner place of the registry is what
      taking it earlier would have done. -/

namespace Spr.Registries

variable {α κ : Type} [DecidableEq κ] {key : α → κ}

/-! ## Section 1: Deals -/

/-- An entry is added, or the newest one with a key is taken. -/
inductive Deal (α κ : Type) where
  | add (a : α)
  | take (k : κ)
  deriving DecidableEq

/-- The registry without the newest entry with the key. -/
def without (key : α → κ) (k : κ) (l : List α) : List α := l.eraseP fun a => key a = k

/-- What a deal does. -/
def act (key : α → κ) (l : List α) : Deal α κ → List α
  | .add a => a :: l
  | .take k => without key k l

/-- The registry after some deals. -/
def play (key : α → κ) (l : List α) (ds : List (Deal α κ)) : List α := ds.foldl (act key) l

variable {k k' : κ} {l l' new old pre : List α} {ds ds' : List (Deal α κ)}

theorem play_append : play key l (ds ++ ds') = play key (play key l ds) ds' := List.foldl_append

theorem without_sublist (key : α → κ) (k : κ) (l : List α) : (without key k l).Sublist l :=
  List.eraseP_sublist

theorem without_of_notMem (h : ∀ a ∈ l, key a ≠ k) : without key k l = l :=
  List.eraseP_of_forall_not fun a ha => by simpa using h a ha

theorem without_split {a : α} (h : ∀ b ∈ l, key b ≠ k) (ha : key a = k) :
    without key k (l ++ a :: l') = l ++ l' := by
  rw [without, List.eraseP_append_right _ fun b hb => by simpa using h b hb,
    List.eraseP_cons_of_pos (by simpa using ha)]

theorem without_append (h : ∀ b ∈ l, key b ≠ k) : without key k (l ++ l') = l ++ without key k l' :=
  List.eraseP_append_right _ fun b hb => by simpa using h b hb

theorem without_append_of_mem (h : ∃ b ∈ l, key b = k) :
    without key k (l ++ l') = without key k l ++ l' := by
  obtain ⟨b, hb, hk⟩ := h
  exact List.eraseP_append_left (by simpa using hk) l' hb

/-- Entries with different keys are taken in any order. -/
theorem without_comm (h : k ≠ k') (l : List α) :
    without key k (without key k' l) = without key k' (without key k l) := by
  refine List.eraseP_comm fun a _ => ?_
  by_cases ha : key a = k'
  · exact Or.inr (by simpa [ha] using h.symm)
  · exact Or.inl (by simpa using ha)

/-- The first entry with a key. -/
theorem exists_first (h : ∃ b ∈ l, key b = k) :
    ∃ pre a post, l = pre ++ a :: post ∧ (∀ b ∈ pre, key b ≠ k) ∧ key a = k := by
  obtain ⟨b, hb, hk⟩ := h
  obtain ⟨a, pre, post, hpre, ha, hsplit, -⟩ :=
    List.exists_of_eraseP (p := fun b => decide (key b = k)) hb (by simpa using hk)
  exact ⟨pre, a, post, hsplit, fun b hb => by simpa using hpre b hb, by simpa using ha⟩

/-! ## Section 2: New and old entries -/

/-- What a deal does to the entries that are new and to those that are old. -/
def actSplit (key : α → κ) (s : List α × List α) : Deal α κ → List α × List α
  | .add a => (a :: s.1, s.2)
  | .take k =>
      if ∃ b ∈ s.1, key b = k then (without key k s.1, s.2) else (s.1, without key k s.2)

/-- The new entries and the old ones after some deals. -/
def playSplit (key : α → κ) (l : List α) (ds : List (Deal α κ)) : List α × List α :=
  ds.foldl (actSplit key) ([], l)

theorem actSplit_append (s : List α × List α) (d : Deal α κ) :
    (actSplit key s d).1 ++ (actSplit key s d).2 = act key (s.1 ++ s.2) d := by
  cases d with
  | add a => rfl
  | take k =>
    simp only [actSplit, act]
    split
    · rename_i h
      exact (without_append_of_mem h).symm
    · rename_i h
      push Not at h
      exact (without_append h).symm

/-- Together they are the registry. -/
theorem playSplit_append : (playSplit key l ds).1 ++ (playSplit key l ds).2 = play key l ds := by
  induction ds using List.reverseRecOn with
  | nil => rfl
  | append_singleton ds d ih =>
    rw [playSplit, play, List.foldl_append, List.foldl_append]
    refine (actSplit_append _ d).trans ?_
    exact congrArg (fun l => act key l d) ih

theorem playSplit_snoc (d : Deal α κ) :
    playSplit key l (ds ++ [d]) = actSplit key (playSplit key l ds) d := List.foldl_append

/-- **A take in the past.**  When the newest entry with a key behind the new entries
    `pre` is taken, the registry is as if it had been taken, in its turn, at some
    point of the past. -/
theorem insert_take (k : κ) (hsplit : playSplit key l ds = (pre ++ new, old)) :
    ∃ ds₁ ds₂, ds = ds₁ ++ ds₂ ∧
      play key l (ds₁ ++ .take k :: ds₂) = pre ++ without key k (new ++ old) := by
  induction ds using List.reverseRecOn generalizing pre new old with
  | nil =>
    simp only [playSplit, List.foldl_nil, Prod.mk.injEq] at hsplit
    obtain ⟨hnil, rfl⟩ := hsplit
    obtain ⟨rfl, rfl⟩ := List.append_eq_nil_iff.mp hnil.symm
    exact ⟨[], [], rfl, rfl⟩
  | append_singleton ds d ih =>
    by_cases hpre : ∀ b ∈ pre, key b ≠ k
    · -- nothing in the way: it is taken now
      refine ⟨ds ++ [d], [], by simp, ?_⟩
      have hplay : (playSplit key l (ds ++ [d])).1 ++ (playSplit key l (ds ++ [d])).2
          = play key l (ds ++ [d]) := playSplit_append
      rw [hsplit] at hplay
      rw [play_append, ← hplay, List.append_assoc]
      exact without_append hpre
    push Not at hpre
    rw [playSplit_snoc] at hsplit
    cases d with
    | add a =>
      simp only [actSplit, Prod.mk.injEq] at hsplit
      obtain ⟨hnew, hold⟩ := hsplit
      obtain ⟨b, hb, -⟩ := hpre
      cases pre with
      | nil => cases hb
      | cons c pre =>
        obtain ⟨rfl, htail⟩ := List.cons.inj hnew
        obtain ⟨ds₁, ds₂, rfl, hplay⟩ := ih (Prod.ext htail hold)
        refine ⟨ds₁, ds₂ ++ [.add a], by simp, ?_⟩
        rw [← List.cons_append, ← List.append_assoc, play_append, hplay]
        rfl
    | take k' =>
      -- what is taken last is taken last again
      have hlast : ∀ {pre' rest}, (∃ ds₁ ds₂, ds = ds₁ ++ ds₂ ∧
          play key l (ds₁ ++ .take k :: ds₂) = pre' ++ rest) →
          without key k' (pre' ++ rest) = pre ++ without key k (new ++ old) →
          ∃ ds₁ ds₂, ds ++ [.take k'] = ds₁ ++ ds₂ ∧
            play key l (ds₁ ++ .take k :: ds₂) = pre ++ without key k (new ++ old) := by
        rintro pre' rest ⟨ds₁, ds₂, rfl, hplay⟩ hwithout
        refine ⟨ds₁, ds₂ ++ [.take k'], by simp, ?_⟩
        rw [← List.cons_append, ← List.append_assoc, play_append, hplay]
        exact hwithout
      -- an entry in the way with another key does not matter
      have hne : ∀ {pre' : List α}, (∀ b ∈ pre', key b ≠ k') → (∀ b ∈ pre, b ∈ pre') → k' ≠ k := by
        rintro pre' hno hsub rfl
        obtain ⟨b, hb, hbk⟩ := hpre
        exact hno b (hsub b hb) hbk
      simp only [actSplit] at hsplit
      split at hsplit
      · rename_i hin
        obtain ⟨front, a, back, hfront, hno, ha⟩ := exists_first hin
        rw [hfront, without_split hno ha] at hsplit
        obtain ⟨hnew, hold⟩ := Prod.mk.inj hsplit
        rcases List.append_eq_append_iff.mp hnew with ⟨mid, rfl, rfl⟩ | ⟨mid, rfl, rfl⟩
        · have hback : (playSplit key l ds).1 = (front ++ a :: mid) ++ new := by rw [hfront]; simp
          refine hlast (ih (Prod.ext hback hold)) ?_
          rw [List.append_assoc, List.cons_append, without_split hno ha, List.append_assoc]
        · have hk := hne hno fun b hb => List.mem_append_left _ hb
          have hback : (playSplit key l ds).1 = pre ++ (mid ++ a :: back) := by rw [hfront]; simp
          refine hlast (ih (Prod.ext hback hold)) ?_
          rw [without_append fun b hb => hno b (List.mem_append_left _ hb), without_comm hk,
            List.append_assoc, List.cons_append,
            without_split (fun b hb => hno b (List.mem_append_right _ hb)) ha, List.append_assoc]
      · rename_i hout
        push Not at hout
        obtain ⟨hnew, rfl⟩ := Prod.mk.inj hsplit
        rw [hnew] at hout
        have hno : ∀ b ∈ pre, key b ≠ k' := fun b hb => hout b (List.mem_append_left _ hb)
        have hk := hne hno fun b hb => hb
        refine hlast (ih (Prod.ext hnew rfl)) ?_
        rw [without_append hno, without_comm hk,
          without_append fun b hb => hout b (List.mem_append_right _ hb)]

end Spr.Registries
