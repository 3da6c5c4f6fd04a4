import Spr.Arrays.Push

/-! # Clearing an array

    `spr_array_clear` sets the number of items to zero, and the block to `NULL`.

    * `observed`: what a caller sees of a run of pushes.
    * `LikeNew`: the pushes after a clear are those on a new array.
    * `array_clear_iff`: they are when there are none, or no room for one. -/

namespace Spr.Arrays

open Spr.Words Spr.MemPool

/-! ## Section 1: A cleared array -/

/-- What a caller sees of the pushes: the result of each and, for each item, where in
    the block it has gone. -/
def observed (block : Span) (ps : List Push) : List (Int × List (Int × Nat × Nat)) :=
  ps.map fun p => (p.ret, p.copies.map fun c => ((c.dst : Int) - block.start, c.src, c.len))

/-- The pushes `ps` on an array with the block `block` look like the pushes `ps'` on an
    array with the block `block'`, and keep to `block`. -/
structure LikeNew (block : Span) (ps : List Push) (block' : Span) (ps' : List Push) : Prop where
  same   : observed block ps = observed block' ps'
  inside : ∀ p ∈ ps, ∀ c ∈ p.copies, Span.Within ⟨c.dst, c.len⟩ block

section Cleared

variable {w w' : World} {array : Nat}

theorem sprArrayClear_run (array : Nat) (w : World) :
    sprArrayClear array w
      = .ok () ((w.store (arrayCurrent array) 0).store (arrayData array) 0) := by
  simp [sprArrayClear]

/-- The fields of a cleared array. -/
theorem sprArrayClear_fields (hclear : sprArrayClear array w = .ok () w') :
    w'.mem (arrayData array) = 0 ∧ w'.mem (arrayCurrent array) = 0 ∧
      w'.mem (arrayTotal array) = w.mem (arrayTotal array) := by
  rw [sprArrayClear_run] at hclear
  injection hclear with _ hworld
  subst hworld
  simp

/-- A push on an array with room succeeds. -/
theorem sprArrayPush_room {item : Nat} {ret : Int} {copies : List Copy}
    (hroom : w.mem (arrayCurrent array) < w.mem (arrayTotal array))
    (hrun : sprArrayPush array item w = .ok (ret, copies) w') : ret = sprOk := by
  simp only [arrayCurrent, arrayTotal] at hroom
  simp only [sprArrayPush, bind_run, load_run, ite_run, arrayCurrent, arrayTotal,
    if_neg (Nat.not_le.mpr hroom), sprMemmove, modify_run, store_run, pure_run,
    EStateM.Result.ok.injEq, Prod.mk.injEq] at hrun
  exact hrun.1.1.symm

/-- A push on a cleared array with room copies its item to `NULL`. -/
theorem sprArrayPush_cleared {item : Nat} {ret : Int} {copies : List Copy}
    (hdata : w.mem (arrayData array) = 0) (hcurrent : w.mem (arrayCurrent array) = 0)
    (hroom : w.mem (arrayTotal array) ≠ 0)
    (hrun : sprArrayPush array item w = .ok (ret, copies) w') :
    ∃ len, copies = [⟨0, item, len⟩] := by
  have hdst : ∀ len, add 0 (mul 0 len) = 0 := fun len => by simp [add, mul]
  simp only [arrayData, arrayCurrent, arrayTotal] at hdata hcurrent hroom
  simp only [sprArrayPush, bind_run, load_run, ite_run, arrayData, arrayCurrent, arrayTotal, hdata,
    hcurrent, if_neg (Nat.not_le.mpr (Nat.pos_of_ne_zero hroom)), sprMemmove, modify_run, store_run,
    pure_run, hdst, EStateM.Result.ok.injEq, Prod.mk.injEq] at hrun
  exact ⟨_, hrun.1.2.symm⟩

end Cleared

/-! ## Section 2: When a clear is right -/

section Clear

variable {w w' : World} {array size n : Nat} {block : Span} {ps : List Push}

/-- What is seen of pushes without room. -/
theorem observed_full (hrun : Pushes array block w ps w') (htotal : w.mem (arrayTotal array) = 0) :
    observed block ps = List.replicate ps.length (sprFailed, []) := by
  rw [List.eq_replicate_iff]
  refine ⟨by simp [observed], fun x hx => ?_⟩
  obtain ⟨p, hp, rfl⟩ := List.mem_map.mp hx
  obtain ⟨hret, hcopies, -⟩ := (pushes_full hrun htotal).2 p hp
  rw [hret, hcopies]
  rfl

/-- With room, the first push after a clear is unlike one on a new array. -/
theorem not_likeNew {v v' : World} {array' data bytes : Nat} {block' : Span} {ps' : List Push}
    (hn : 0 < n) (hblock : block.start ≠ 0) (hdata : w.mem (arrayData array) = 0)
    (hcurrent : w.mem (arrayCurrent array) = 0) (hrun : Pushes array block w ps w')
    (hnew : ArrayAt v array' data size n 0 bytes)
    (hrun' : Pushes array' block' v ps' v') (hps : ps ≠ []) : ¬ LikeNew block ps block' ps' := by
  intro hlike
  have hsame := hlike.same
  cases hrun with
  | done => exact hps rfl
  | push _ w₁ w₂ _ item ret copies ps huntouched hpush hrest =>
  cases hrun' with
  | done => simp [observed] at hsame
  | push _ v₁ v₂ _ item' ret' copies' ps' huntouched' hpush' hrest' =>
    have hfields := huntouched.fields
    by_cases htotal : w₁.mem (arrayTotal array) = 0
    · -- the clear has found the capacity gone, and the push fails
      have hnew₁ := hnew.untouched huntouched'
      have hok : ret' = sprOk := sprArrayPush_room
        (by rw [hnew₁.currentIs, hnew₁.totalIs]; exact hn) hpush'
      rw [sprArrayPush_full htotal] at hpush
      injection hpush with hres _
      injection hres with hret _
      simp only [observed, List.map_cons, List.cons.injEq, Prod.mk.injEq] at hsame
      rw [← hret, hok] at hsame
      exact absurd hsame.1.1 (by decide)
    · -- the item goes to `NULL`
      obtain ⟨len, rfl⟩ := sprArrayPush_cleared
        ((hfields _ (by simp) (by simp [sizeofArray])).trans hdata)
        ((hfields _ (by simp) (by simp [sizeofArray])).trans hcurrent) htotal hpush
      have hin := hlike.inside _ List.mem_cons_self _ List.mem_cons_self
      simp only [Span.Within] at hin
      omega

/-- **A cleared array is like a new one** when nothing is pushed on it, or it has no room
    for an item.  The pushes before the clear may have been any. -/
theorem array_clear_iff (plat : Platform) (s : Session) (thread pool array : Nat) (w w₁ w₂ : World)
    (ps : List Push) (h : Reachable plat (Session.Plain plat) s)
    (hplain : CreatePlain plat s thread pool size n)
    (hcreate : sprArrayCreate plat thread pool size n s.world = .ok array w)
    (hdata : w.mem (arrayData array) ≠ 0)
    (hbefore : Pushes array ⟨w.mem (arrayData array), mul size n⟩ w ps w₁)
    (huntouched : Untouched array ⟨w.mem (arrayData array), mul size n⟩ w₁ w₂) (w₃ w₄ : World)
    (hclear : sprArrayClear array w₂ = .ok () w₃) (qs : List Push)
    (hlater : Pushes array ⟨w.mem (arrayData array), mul size n⟩ w₃ qs w₄)
    -- a new array
    (s' : Session) (thread' pool' array' : Nat) (v v' : World) (qs' : List Push)
    (h' : Reachable plat (Session.Plain plat) s')
    (hplain' : CreatePlain plat s' thread' pool' size n)
    (hcreate' : sprArrayCreate plat thread' pool' size n s'.world = .ok array' v)
    (hdata' : v.mem (arrayData array') ≠ 0)
    (hlater' : Pushes array' ⟨v.mem (arrayData array'), mul size n⟩ v qs' v')
    (hitems : qs.map Push.item = qs'.map Push.item) :
    LikeNew ⟨w.mem (arrayData array), mul size n⟩ qs ⟨v.mem (arrayData array'), mul size n⟩ qs' ↔
      qs = [] ∨ n = 0 := by
  have harray := sprArrayCreate_spec h hplain hcreate hdata
  have hnew := sprArrayCreate_spec h' hplain' hcreate' hdata'
  obtain ⟨hnull, hnone, htotal⟩ := sprArrayClear_fields hclear
  have hlength : qs.length = qs'.length := by simpa using congrArg List.length hitems
  constructor
  · intro hlike
    by_contra hsome
    rw [not_or] at hsome
    have hn : 0 < n := Nat.pos_of_ne_zero hsome.2
    exact not_likeNew hn hdata hnull hnone hlater hnew hlater'
      hsome.1 hlike
  · rintro (rfl | rfl)
    · have hnil : qs' = [] := List.length_eq_zero_iff.mp (by simpa using hlength.symm)
      subst hnil
      exact ⟨rfl, fun p hp => (List.not_mem_nil hp).elim⟩
    · have hkept := (pushes_full hbefore harray.totalIs).1.trans huntouched
      have htotal₃ : w₃.mem (arrayTotal array) = 0 := by
        rw [htotal]
        exact (harray.untouched hkept).totalIs
      refine ⟨?_, fun p hp c hc => ?_⟩
      · rw [observed_full hlater htotal₃, observed_full hlater' hnew.totalIs, hlength]
      · rw [((pushes_full hlater htotal₃).2 p hp).2.1] at hc
        exact (List.not_mem_nil hc).elim

end Clear

/-! ## Section 3: One push after a clear -/

/-- A push returns, whatever the fields hold. -/
theorem sprArrayPush_returns (array item : Nat) (w : World) :
    ∃ ret copies w', sprArrayPush array item w = .ok (ret, copies) w' := by
  by_cases hroom : w.mem (arrayCurrent array) ≥ w.mem (arrayTotal array)
  · refine ⟨sprFailed, [], w, ?_⟩
    simp only [arrayCurrent, arrayTotal] at hroom
    simp [sprArrayPush, hroom]
  · simp only [arrayCurrent, arrayTotal] at hroom
    simp [sprArrayPush, sprMemmove, hroom]

/-- In the first pool, an array of two items of four bytes is created; it is cleared, and
    an item is pushed on it; or the item is pushed at once. -/
theorem one_push_cleared : ∃ s array w w₃ w₄ v p q, Reachable machine (Session.Plain machine) s ∧
    CreatePlain machine s 1 65584 4 2 ∧
    sprArrayCreate machine 1 65584 4 2 s.world = .ok array w ∧ w.mem (arrayData array) ≠ 0 ∧
    sprArrayClear array w = .ok () w₃ ∧
    Pushes array ⟨w.mem (arrayData array), mul 4 2⟩ w₃ [p] w₄ ∧
    Pushes array ⟨w.mem (arrayData array), mul 4 2⟩ w [q] v ∧
    [p].map Push.item = [q].map Push.item := by
  obtain ⟨s, array, w, q, v, hreach, hplain, hcreate, hdata, hnew⟩ := one_push
  obtain ⟨ret, copies, w₄, hpush⟩ := sprArrayPush_returns array q.item
    ((w.store (arrayCurrent array) 0).store (arrayData array) 0)
  exact ⟨s, array, w, _, w₄, v, _, q, hreach, hplain, hcreate, hdata, sprArrayClear_run array w,
    .push _ _ w₄ w₄ q.item ret copies [] (.refl _) hpush (.done w₄), hnew, rfl⟩

/-- The push on the cleared array is not what it is to be. -/
theorem array_clear_iff_one : ∃ (array : Nat) (w w₃ w₄ v : World) (p q : Push),
    sprArrayClear array w = .ok () w₃ ∧
    Pushes array ⟨w.mem (arrayData array), mul 4 2⟩ w₃ [p] w₄ ∧
    Pushes array ⟨w.mem (arrayData array), mul 4 2⟩ w [q] v ∧
    ¬ LikeNew ⟨w.mem (arrayData array), mul 4 2⟩ [p] ⟨w.mem (arrayData array), mul 4 2⟩ [q] := by
  obtain ⟨s, array, w, w₃, w₄, v, p, q, hreach, hplain, hcreate, hdata, hclear, hlater, hnew,
    hitems⟩ := one_push_cleared
  refine ⟨array, w, w₃, w₄, v, p, q, hclear, hlater, hnew, fun hlike => ?_⟩
  have hiff := array_clear_iff machine s 1 65584 array w w w [] hreach hplain hcreate hdata
    (.done w) (.refl w) w₃ w₄ hclear [p] hlater s 1 65584 array w v [q] hreach hplain hcreate
    hdata hnew hitems
  rcases hiff.mp hlike with h | h
  · cases h
  · cases h

/-- **A push after a clear goes to `NULL`.** -/
theorem array_clear_breaks : ¬ ∀ (plat : Platform) (s : Session) (thread pool size n array : Nat)
    (w w₃ w₄ v : World) (ps qs : List Push), Reachable plat (Session.Plain plat) s →
    CreatePlain plat s thread pool size n →
    sprArrayCreate plat thread pool size n s.world = .ok array w → w.mem (arrayData array) ≠ 0 →
    sprArrayClear array w = .ok () w₃ →
    Pushes array ⟨w.mem (arrayData array), mul size n⟩ w₃ ps w₄ →
    Pushes array ⟨w.mem (arrayData array), mul size n⟩ w qs v →
    ps.map Push.item = qs.map Push.item →
    LikeNew ⟨w.mem (arrayData array), mul size n⟩ ps ⟨w.mem (arrayData array), mul size n⟩ qs := by
  intro hall
  obtain ⟨s, array, w, w₃, w₄, v, p, q, hreach, hplain, hcreate, hdata, hclear, hlater, hnew,
    hitems⟩ := one_push_cleared
  obtain ⟨hnull, hnone, -⟩ := sprArrayClear_fields hclear
  exact not_likeNew (by decide) hdata hnull hnone hlater
    (sprArrayCreate_spec hreach hplain hcreate hdata) hnew
    (List.cons_ne_nil _ _) (hall machine s 1 65584 4 2 array w w₃ w₄ v [p] [q] hreach hplain
      hcreate hdata hclear hlater hnew hitems)

end Spr.Arrays
