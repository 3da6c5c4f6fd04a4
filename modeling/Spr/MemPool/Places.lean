import Spr.MemPool.Refusals

/-! # Where blocks lie

    What `spr_palloc` gives in any reachable state, for requests of any size and
    however the system answers.

    * `PlacedBlock`, `palloc_placed`: where the block lies, if there is one.
    * `palloc_errno`: and what `errno` says if there is none. -/

namespace Spr.MemPool

open Spr.Words

section Places

variable {plat : Platform} {w w' : World} {p : Pool} {thread size r : Nat}

/-- The pages of a request whose sum does not wrap. -/
theorem PagesFit.noWrap (hpages : PagesFit plat) (hindex : slotIndex plat size ≤ sprMaxPoolSlot)
    (hsum : sprAlignAllocation size + sizeofMemnode < wordMod) :
    NoWrap plat (sprAlignAllocation size) := by
  refine ⟨hsum, Nat.lt_of_le_of_lt (Nat.mul_le_mul_right _ ?_) hpages⟩
  unfold slotIndex at hindex
  omega

/-- An oversized request has not wrapped. -/
theorem slotIndex_noWrap (hbig : sprMaxPoolSlot < slotIndex plat size)
    (hlt : sprAlignAllocation size < wordMod) :
    sprAlignAllocation size + sizeofMemnode < wordMod := by
  apply Nat.lt_of_not_le
  intro hwrap
  have hpage := plat.le_pageSize
  have hsum : add (sprAlignAllocation size) sizeofMemnodeAlign < plat.pageSize := by
    rw [sizeofMemnodeAlign_eq, add, Nat.mod_eq_sub_mod (show wordMod ≤ _ + 48 from hwrap)]
    refine Nat.lt_of_le_of_lt (Nat.mod_le _ _) ?_
    simp only [sizeofMemnode] at hwrap ⊢
    omega
  unfold slotIndex sprGetNpages at hbig
  simp only [if_pos hsum] at hbig
  exact absurd hbig (by decide)

/-- A fact about the result of a call that returns, and none about one that does not. -/
theorem exists_ok_iff {Q : Nat → Prop} :
    (∃ r' w₁, (.ok r w' : Result Nat) = .ok r' w₁ ∧ Q r') ↔ Q r := by
  constructor
  · intro hsome
    obtain ⟨r', w₁, heq, hfact⟩ := hsome
    injection heq with hr
    exact hr ▸ hfact
  · intro hfact
    exact ⟨r, w', rfl, hfact⟩

theorem not_exists_ok {why : Stop} {Q : Nat → Prop} :
    ¬ ∃ r' w₁, (.error why w' : Result Nat) = .ok r' w₁ ∧ Q r' := by
  intro hsome
  obtain ⟨r', w₁, heq, -⟩ := hsome
  cases heq

/-- A call that has been seen to return. -/
theorem exists_ok_of_returns {res : Result Nat} {Q : Nat → Prop} (hall : ∀ r, Q r)
    (h : (match res with | .ok _ _ => true | .error _ _ => false) = true) :
    ∃ r' w₁, res = .ok r' w₁ ∧ Q r' := by
  cases res with
  | error why w => cases h
  | ok r w => exact ⟨r, w, rfl, hall r⟩

/-- Where a block lies: in memory given out if the sum has not wrapped, and never at the
    very start of the memory if it has. -/
structure PlacedBlock (w' : World) (size r : Nat) : Prop where
  align  : sprAlignAllocation size ≠ 0
  ok     : LiveOk w'.live
  within : sprAlignAllocation size + sizeofMemnode < wordMod →
    ∃ s ∈ w'.live, Span.Within ⟨r, sprAlignAllocation size⟩ s
  far    : wordMod ≤ sprAlignAllocation size + sizeofMemnode → 8 + sizeofMemnode ≤ r

/-- The block of the slot path. -/
theorem slot_placed (h : PoolAt plat w p) (hpages : PagesFit plat)
    (halign : sprAlignAllocation size ≠ 0) (hindex : slotIndex plat size ≤ sprMaxPoolSlot)
    (hout : SlotOutcome w p (sprAlignAllocation size)
      (sprGetNpages plat (sprAlignAllocation size) * plat.pageSize) (slotIndex plat size) r w')
    (hr : r ≠ 0) : PlacedBlock w' size r := by
  have hpos : 0 < sprGetNpages plat (sprAlignAllocation size) * plat.pageSize := by
    have hmul := (hpages.mul_npages hindex).2
    rw [(hpages.mul_npages hindex).1] at hmul
    exact Nat.lt_of_lt_of_le (by decide) hmul
  refine ⟨halign, (hout.extends h.live hpos).ok, fun hsum => ?_, fun _ => ?_⟩
  · cases hout with
    | found _ n hfit hlive =>
      -- the block lies in the region of its memnode
      obtain ⟨hn, hfits⟩ := firstFit_some hfit
      have hn := Pool.fromSlot_nodes hn
      have hok := h.wf.node n hn
      have hheader := hok.header
      have hlower := hok.lower
      have htotal := hok.total
      have hupper := hok.upper
      refine ⟨n.region, hlive ▸ h.held n hn, ?_⟩
      simp only [Span.Within, Memnode.region]
      omega
    | refused _ hfit hno hmem hlive herrno => exact absurd rfl hr
    | fresh _ a hfit ha hgrant hlive =>
      have hroom := (hpages.noWrap hindex hsum).pages.2
      refine ⟨_, hlive ▸ List.mem_cons_self, ?_⟩
      simp only [Span.Within]
      omega
  · cases hout with
    | found _ n hfit hlive =>
      -- it begins behind the header, so it is not `NULL`
      have hok := h.wf.node n (Pool.fromSlot_nodes (firstFit_some hfit).1)
      have hne := hok.ne_null
      have hal := hok.aligned.1
      have hheader := hok.header
      have hlower := hok.lower
      omega
    | refused _ hfit hno hmem hlive herrno => exact absurd rfl hr
    | fresh _ a hfit ha hgrant hlive =>
      have hne := hgrant.1
      have hal := hgrant.2.1
      simp only [sprAlignSize] at hal
      omega

/-- **The block of `spr_palloc`**, if it gives one. -/
theorem palloc_placed (h : PoolAt plat w p) (hpages : PagesFit plat)
    (hrun : sprPalloc plat thread p.addr size w = .ok r w') (hr : r ≠ 0) :
    PlacedBlock w' size r := by
  by_cases halign : sprAlignAllocation size = 0
  · obtain ⟨evs, hunlock⟩ := unlockPool_runs plat thread p.addr w
    rw [sprPalloc_rejected halign hunlock] at hrun
    injection hrun with hr₀ _
    exact absurd hr₀.symm hr
  by_cases hindex : slotIndex plat size ≤ sprMaxPoolSlot
  · obtain ⟨r₁, w₁, hrun₁, hout⟩ := sprPalloc_outcome thread h hpages halign hindex
    rw [hrun] at hrun₁
    injection hrun₁ with hr₁ hw₁
    subst hr₁ hw₁
    exact slot_placed h hpages halign hindex hout hr
  · have hlt := (sprAlignAllocation_bounds halign).2.2.2
    have hsum := slotIndex_noWrap (Nat.lt_of_not_le hindex) hlt
    have hout := sprPalloc_big thread h (Nat.lt_of_not_le hindex)
    rw [hrun] at hout
    cases hout with
    | refused _ hno hsame herrno => exact absurd rfl hr
    | registered _ _ hno hgrant hlinks hmore =>
      refine ⟨halign, hmore.ok, fun _ => ⟨_, hmore.kept _ List.mem_cons_self, ?_⟩,
        fun hwrap => absurd hsum (Nat.not_lt.mpr hwrap)⟩
      exact ⟨Nat.le_refl _, Nat.le_refl _⟩

/-- A request that is not rejected fails for want of memory. -/
theorem palloc_errno (h : PoolAt plat w p) (hpages : PagesFit plat)
    (halign : sprAlignAllocation size ≠ 0)
    (hrun : sprPalloc plat thread p.addr size w = .ok 0 w') : w'.errno = enomem := by
  by_cases hindex : slotIndex plat size ≤ sprMaxPoolSlot
  · obtain ⟨r₁, w₁, hrun₁, hout⟩ := sprPalloc_outcome thread h hpages halign hindex
    rw [hrun] at hrun₁
    injection hrun₁ with hr₁ hw₁
    subst hw₁
    cases hout with
    | found _ n hfit hlive =>
      have hok := h.wf.node n (Pool.fromSlot_nodes (firstFit_some hfit).1)
      have hheader := hok.header
      have hlower := hok.lower
      simp only [sizeofMemnode] at hheader
      omega
    | refused _ hfit hno hmem hlive herrno => exact herrno
    | fresh _ a hfit ha hgrant hlive =>
      simp only [sizeofMemnode] at hr₁
      omega
  · have hout := sprPalloc_big thread h (Nat.lt_of_not_le hindex)
    rw [hrun] at hout
    cases hout with
    | refused _ hno hsame herrno => exact herrno
    | registered _ _ hno hgrant hlinks hmore => exact absurd rfl hgrant.1

end Places

end Spr.MemPool
