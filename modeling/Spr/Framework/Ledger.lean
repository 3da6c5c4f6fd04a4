import Mathlib.Data.List.Range
import Spr.Framework.Registry

/-! # Ledgers

    A ledger follows what becomes of entries that are made one after the other.  Entries
    have keys; of two with the same key the newer one goes first.

    * `Post`, `Ledger.post`, `ledger`: what is posted to a ledger, one after the other.
    * `Ledger.Sound`: every entry is pending, used or struck, and in one place only.
    * `ledger_sound`: all ledgers are sound.
    * `map_newest`, `map_without`: what a post does to the keys. -/

namespace Spr.Ledgers

open Spr.Registries
open scoped List

variable {κ : Type} [DecidableEq κ]

/-! ## Section 1: Posts -/

/-- An entry is made; the newest pending one with a key is used, or struck; or all pending
    ones are used, newest first. -/
inductive Post (κ : Type) where
  | enter (k : κ)
  | use (k : κ)
  | strike (k : κ)
  | settle
  deriving DecidableEq, Repr

/-- The entries, with their numbers: all of them and the pending ones, newest first, those
    used, in the order of use, and those struck. -/
structure Ledger (κ : Type) where
  entered : List (Nat × κ)
  pending : List (Nat × κ)
  used    : List (Nat × κ)
  struck  : List (Nat × κ)
  deriving DecidableEq, Repr

/-- The first entry with the key, if there is one. -/
def newest (k : κ) (es : List (Nat × κ)) : List (Nat × κ) := (es.find? fun e => e.2 = k).toList

/-- What a post does. -/
def Ledger.post (l : Ledger κ) : Post κ → Ledger κ
  | .enter k =>
      { l with
        entered := (l.entered.length, k) :: l.entered
        pending := (l.entered.length, k) :: l.pending }
  | .use k =>
      { l with
        pending := without Prod.snd k l.pending
        used    := l.used ++ newest k l.pending }
  | .strike k =>
      { l with
        pending := without Prod.snd k l.pending
        struck  := l.struck ++ newest k l.pending }
  | .settle => { l with pending := [], used := l.used ++ l.pending }

/-- The ledger after some posts. -/
def ledger (ps : List (Post κ)) : Ledger κ := ps.foldl Ledger.post ⟨[], [], [], []⟩

theorem ledger_append (ps qs : List (Post κ)) :
    ledger (ps ++ qs) = qs.foldl Ledger.post (ledger ps) := List.foldl_append

/-! ## Section 2: Every entry once -/

/-- **Every entry is in one place**: the numbers tell the entries apart, the pending ones
    stand newest first, and each entry is pending, used or struck. -/
structure Ledger.Sound (l : Ledger κ) : Prop where
  numbers : l.entered.map Prod.fst = (List.range l.entered.length).reverse
  order   : l.pending.Pairwise fun e e' => e'.1 < e.1
  once    : (l.pending ++ (l.used ++ l.struck)).Perm l.entered

section Sound

variable {k : κ} {es : List (Nat × κ)} {l : Ledger κ}

/-- The newest entry with the key, and the others. -/
theorem newest_append_without (k : κ) (es : List (Nat × κ)) :
    (newest k es ++ without Prod.snd k es).Perm es := by
  induction es with
  | nil => exact List.Perm.refl _
  | cons e es ih =>
    by_cases hk : e.2 = k
    · have hnew : newest k (e :: es) = [e] := by simp [newest, hk]
      have hrest : without Prod.snd k (e :: es) = es := by simp [without, hk]
      rw [hnew, hrest]
      exact List.Perm.refl _
    · have hnew : newest k (e :: es) = newest k es := by simp [newest, hk]
      have hrest : without Prod.snd k (e :: es) = e :: without Prod.snd k es := by
        simp [without, hk]
      rw [hnew, hrest]
      exact List.perm_middle.trans (ih.cons e)

omit [DecidableEq κ] in
/-- A pending entry was made before the next one will be. -/
theorem Ledger.Sound.pending_lt (h : l.Sound) {e : Nat × κ} (he : e ∈ l.pending) :
    e.1 < l.entered.length := by
  have hin : e ∈ l.entered := h.once.subset (List.mem_append_left _ he)
  have hnumber : e.1 ∈ l.entered.map Prod.fst := List.mem_map_of_mem hin
  rw [h.numbers, List.mem_reverse, List.mem_range] at hnumber
  exact hnumber

/-- **A post keeps the ledger sound.** -/
theorem Ledger.Sound.post (h : l.Sound) (p : Post κ) : (l.post p).Sound := by
  cases p with
  | enter k =>
    refine ⟨?_, ?_, h.once.cons _⟩
    · show _ :: l.entered.map Prod.fst = (List.range (l.entered.length + 1)).reverse
      rw [h.numbers, List.range_succ, List.reverse_append]
      rfl
    · exact List.pairwise_cons.mpr ⟨fun e he => h.pending_lt he, h.order⟩
  | use k =>
    refine ⟨h.numbers, h.order.sublist (without_sublist _ _ _), ?_⟩
    refine List.Perm.trans ?_ h.once
    show (without Prod.snd k l.pending ++ ((l.used ++ newest k l.pending) ++ l.struck)).Perm _
    calc without Prod.snd k l.pending ++ ((l.used ++ newest k l.pending) ++ l.struck)
      _ = without Prod.snd k l.pending ++ l.used ++ newest k l.pending ++ l.struck := by
          simp only [List.append_assoc]
      _ ~ newest k l.pending ++ (without Prod.snd k l.pending ++ l.used) ++ l.struck :=
          List.perm_append_comm.append_right _
      _ = (newest k l.pending ++ without Prod.snd k l.pending) ++ (l.used ++ l.struck) := by
          simp only [List.append_assoc]
      _ ~ l.pending ++ (l.used ++ l.struck) := (newest_append_without k l.pending).append_right _
  | strike k =>
    refine ⟨h.numbers, h.order.sublist (without_sublist _ _ _), ?_⟩
    refine List.Perm.trans ?_ h.once
    show (without Prod.snd k l.pending ++ (l.used ++ (l.struck ++ newest k l.pending))).Perm _
    calc without Prod.snd k l.pending ++ (l.used ++ (l.struck ++ newest k l.pending))
      _ = without Prod.snd k l.pending ++ (l.used ++ l.struck) ++ newest k l.pending := by
          simp only [List.append_assoc]
      _ ~ newest k l.pending ++ (without Prod.snd k l.pending ++ (l.used ++ l.struck)) :=
          List.perm_append_comm
      _ = (newest k l.pending ++ without Prod.snd k l.pending) ++ (l.used ++ l.struck) := by
          simp only [List.append_assoc]
      _ ~ l.pending ++ (l.used ++ l.struck) := (newest_append_without k l.pending).append_right _
  | settle =>
    refine ⟨h.numbers, List.Pairwise.nil, List.Perm.trans ?_ h.once⟩
    show ((l.used ++ l.pending) ++ l.struck).Perm _
    rw [← List.append_assoc]
    exact List.perm_append_comm.append_right _

/-- **All ledgers are sound**, by induction on the posts. -/
theorem ledger_sound (ps : List (Post κ)) : (ledger ps).Sound := by
  have hrun : ∀ (ps : List (Post κ)) (l : Ledger κ), l.Sound → (ps.foldl Ledger.post l).Sound := by
    intro ps
    induction ps with
    | nil => exact fun l h => h
    | cons p ps ih => exact fun l h => ih _ (h.post p)
  exact hrun ps _ ⟨rfl, List.Pairwise.nil, List.Perm.refl _⟩

end Sound

/-! ## Section 3: Keys -/

section Keys

variable (k : κ) (es : List (Nat × κ))

theorem map_newest : (newest k es).map Prod.snd = if k ∈ es.map Prod.snd then [k] else [] := by
  induction es with
  | nil => rfl
  | cons e es ih =>
    by_cases hk : e.2 = k
    · simp [newest, hk]
    · have hnew : newest k (e :: es) = newest k es := by simp [newest, hk]
      have hin : k ∈ (e :: es).map Prod.snd ↔ k ∈ es.map Prod.snd := by
        rw [List.map_cons, List.mem_cons]
        exact or_iff_right fun heq => hk heq.symm
      rw [hnew, ih]
      simp only [hin]

theorem map_without :
    (without Prod.snd k es).map Prod.snd = without id k (es.map Prod.snd) := by
  unfold without
  rw [List.eraseP_map]
  rfl

end Keys

end Spr.Ledgers
