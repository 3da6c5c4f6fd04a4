import Spr.MemPool.Blocks

/-! # Refusals

    What `spr_palloc` and `spr_pool_cleanup_add1` do when the system refuses, in
    any reachable state and for requests of any size.

    * `SlotOutcome`, `sprPalloc_outcome`: the slot path, whatever the sizes.
    * `RecordRefused`, `cleanupAdd1With_adds`: when a registration is made.
    * `BigOutcome`, `sprPalloc_big`: an oversized request.
    * `refusals_iff`: when neither function writes through `NULL`. -/

namespace Spr.MemPool

open Spr.Words Spr.Chains

/-- One page more than there are slots can be addressed. -/
def PagesFit (plat : Platform) : Prop := (sprMaxPoolSlot + 1) * plat.pageSize < wordMod

instance (plat : Platform) : Decidable (PagesFit plat) := inferInstanceAs (Decidable (_ < _))

/-! ## Section 1: The slot path -/

theorem sprMemnodeAllocate_refused {w : World} {size : Nat}
    (h : ¬ Grants w.live (w.answers.headD 0) size) :
    sprMemnodeAllocate size w = .ok 0 (w.refuse size) := by
  have hsys : sysAlloc size w = .ok 0 (w.refuse size) := if_neg h
  simp [sprMemnodeAllocate, hsys]

theorem sprMemnodeAllocate_granted {w : World} {size : Nat} (hsize : sizeofMemnode ≤ size)
    (h : Grants w.live (w.answers.headD 0) size) :
    ∃ w', sprMemnodeAllocate size w = .ok (w.answers.headD 0) w' ∧
      NodeMade w (w.answers.headD 0) size w' := by
  have hsys : sysAlloc size w = .ok (w.answers.headD 0) (w.obtain (w.answers.headD 0) size) :=
    if_pos h
  generalize w.answers.headD 0 = a at h hsys
  obtain ⟨w₁, hw₁⟩ : ∃ w₁, sprMemnodeAllocate size w = .ok a w₁ := by
    simp [sprMemnodeAllocate, hsys, h.1]
  rcases sprMemnodeAllocate_cases hsize w with hrun | ⟨b, w', -, hrun, hmade⟩
  · rw [hrun] at hw₁
    injection hw₁ with hnull
    exact absurd hnull.symm h.1
  · rw [hrun] at hw₁
    injection hw₁ with hb hw
    subst hb
    exact ⟨w', hrun, hmade⟩

theorem mul_one_page (plat : Platform) : mul 1 plat.pageSize = plat.pageSize := by
  have hpage := plat.page_lt
  rw [mul_of_lt (by rw [Nat.one_mul, wordMod_eq]; omega), Nat.one_mul]

/-- A page has room for the fields of a memnode. -/
theorem one_page_room (plat : Platform) : sizeofMemnode ≤ mul 1 plat.pageSize := by
  have hpage := plat.le_pageSize
  rw [mul_one_page]
  simp only [sizeofMemnode]
  omega

/-- What the slot path comes to when it is asked for `k` bytes from the slot `index` on
    and obtains memnodes of `size` bytes: the block and the world after it. -/
inductive SlotOutcome (w : World) (p : Pool) (k size index : Nat) : Nat → World → Prop where
  | found (w' : World) (n : Memnode) (hfit : firstFit k (p.fromSlot index) = some n)
      (hlive : w'.live = w.live) : SlotOutcome w p k size index n.firstAvail w'
  | refused (w' : World) (hfit : firstFit k (p.fromSlot index) = none)
      (hno : ¬ Grants w.live (w.answers.headD 0) size) (hmem : w'.mem = w.mem)
      (hlive : w'.live = w.live) (herrno : w'.errno = enomem) :
      SlotOutcome w p k size index 0 w'
  | fresh (w' : World) (a : Nat) (hfit : firstFit k (p.fromSlot index) = none)
      (ha : a = w.answers.headD 0) (hgrant : Grants w.live a size)
      (hlive : w'.live = ⟨a, size⟩ :: w.live) :
      SlotOutcome w p k size index (a + sizeofMemnode) w'

section Outcome

variable {plat : Platform} {w w' : World} {p : Pool} {k size index npages r : Nat}

theorem carve_run (node k : Nat) (w : World) :
    ∃ w', carve node k w = .ok (w.mem (node + 16)) w' ∧ w'.live = w.live ∧
      ∀ b, b ≠ node + 16 → b ≠ node + 32 → w'.mem b = w.mem b := by
  refine ⟨(w.store (node + 32) (sub (w.mem (node + 32)) k)).store (node + 16)
    (add (w.mem (node + 16)) k), by simp [carve], rfl, fun b h₁ h₂ => ?_⟩
  simp [Function.update_of_ne h₁, Function.update_of_ne h₂]

/-- The mutex is a word of the header that the slot path leaves alone. -/
theorem unlockPool_runs (plat : Platform) (thread pool : Nat) (w : World) :
    ∃ evs, unlockPool plat thread pool w = .ok () (w.emits evs) := by
  unfold unlockPool
  by_cases hs : plat.threadSafety = true
  · exact ⟨[.unlocked (w.mem (pool + 200)) thread], by simp [hs, World.emit, World.emits]⟩
  · exact ⟨[], by simp [hs, World.emits]⟩

/-- **The slot path**, whatever the sizes. -/
theorem pallocSlots_outcome (thread : Nat) (h : PoolAt plat w p) (hindex : index ≤ sprMaxPoolSlot)
    (hsize : sizeofMemnode ≤ mul npages plat.pageSize) :
    ∃ r w', pallocSlots plat thread p.addr k npages index w = .ok r w' ∧
      SlotOutcome w p k (mul npages plat.pageSize) index r w' := by
  have hsearch : searchSlots w.mem p.addr k index (sprMaxPoolSlot - index)
      = some (addrOf (firstFit k (p.fromSlot index))) := searchSlots_spec h k (by omega)
  generalize hv : w.emits (lockEvents plat thread p) = v
  have hmem : v.mem = w.mem := by rw [← hv]; rfl
  have hlive : v.live = w.live := by rw [← hv]; rfl
  have hanswers : v.answers = w.answers := by rw [← hv]; rfl
  have hlock : lockPool plat thread p.addr w = .ok () v := by rw [← hv]; exact lockPool_run h thread
  cases hfit : firstFit k (p.fromSlot index) with
  | some n =>
    have hn := Pool.fromSlot_nodes (firstFit_some hfit).1
    have hne := (h.wf.node n hn).ne_null
    obtain ⟨w₁, hcarve, hlive₁, -⟩ := carve_run n.addr k v
    obtain ⟨evs, hunlock⟩ := unlockPool_runs plat thread p.addr w₁
    rw [hmem, (h.rep.nodes.node n hn).firstAvail] at hcarve
    refine ⟨n.firstAvail, w₁.emits evs, ?_, .found _ n hfit (by rw [emits_live, hlive₁, hlive])⟩
    simp [pallocSlots, hlock, hmem, hsearch, hfit, addrOf, hne, hcarve, hunlock]
  | none =>
    by_cases hgrant : Grants w.live (w.answers.headD 0) (mul npages plat.pageSize)
    · have hgrant' : Grants v.live (v.answers.headD 0) (mul npages plat.pageSize) := by
        rwa [hlive, hanswers]
      obtain ⟨w₁, hrun, hmade⟩ := sprMemnodeAllocate_granted hsize hgrant'
      rw [hanswers] at hrun hmade
      generalize ha : w.answers.headD 0 = a at hgrant hrun hmade
      have hfirst : w₁.mem (a + 16) = a + sizeofMemnode := hmade.holds.firstAvail
      -- the slot's word lies in the header, and the new memnode does not
      have hslot : a + 16 ≠ p.addr + 8 * index := by
        obtain ⟨home, hhome, haddr, hend⟩ := h.wf.home
        have hupper := (h.wf.node home hhome).upper
        have hlow := le_sizeofPool plat
        have hapart := h.granted_apart hgrant hhome
        have hi : index ≤ 20 := hindex
        simp only [Span.Disjoint, Memnode.region, sizeofMemnode] at hapart hsize haddr
        omega
      obtain ⟨w₂, hcarve, hlive₂, -⟩ := carve_run a k
        ((((w₁.store (p.addr + 8 * index) a).store a (w₁.mem (p.addr + 8 * index)))).emit
          (.registered p.addr a))
      have hread : ((((w₁.store (p.addr + 8 * index) a).store a (w₁.mem (p.addr + 8 * index)))).emit
          (.registered p.addr a)).mem (a + 16) = a + sizeofMemnode := by
        simp [Function.update_of_ne hslot, hfirst]
      rw [hread] at hcarve
      obtain ⟨evs, hunlock⟩ := unlockPool_runs plat thread p.addr w₂
      refine ⟨a + sizeofMemnode, w₂.emits evs, ?_, .fresh _ a hfit ha.symm hgrant ?_⟩
      · simp [pallocSlots, hlock, hmem, hsearch, hfit, addrOf, newMemnode, hrun, hgrant.1, hcarve,
          hunlock]
      · rw [emits_live, hlive₂, emit_live, store_live, store_live, hmade.live, hlive]
    · have hgrant' : ¬ Grants v.live (v.answers.headD 0) (mul npages plat.pageSize) := by
        rwa [hlive, hanswers]
      obtain ⟨evs, hunlock⟩ := unlockPool_runs plat thread p.addr
        (v.refuse (mul npages plat.pageSize))
      refine ⟨0, (v.refuse (mul npages plat.pageSize)).emits evs, ?_,
        .refused _ hfit hgrant hmem hlive rfl⟩
      simp [pallocSlots, hlock, hmem, hsearch, hfit, addrOf, newMemnode,
        sprMemnodeAllocate_refused hgrant', hunlock]

/-- The pages of a request on the slot path, where they fit. -/
theorem PagesFit.mul_npages (hpages : PagesFit plat) {size : Nat}
    (hindex : slotIndex plat size ≤ sprMaxPoolSlot) :
    mul (sprGetNpages plat (sprAlignAllocation size)) plat.pageSize
        = sprGetNpages plat (sprAlignAllocation size) * plat.pageSize ∧
      sizeofMemnode ≤ mul (sprGetNpages plat (sprAlignAllocation size)) plat.pageSize := by
  have hone : 1 ≤ sprGetNpages plat (sprAlignAllocation size) := by
    unfold sprGetNpages
    simp only
    split
    · exact Nat.le_refl 1
    · exact Nat.le_add_left 1 _
  unfold slotIndex at hindex
  generalize sprGetNpages plat (sprAlignAllocation size) = npages at *
  have hle : npages * plat.pageSize ≤ (sprMaxPoolSlot + 1) * plat.pageSize :=
    Nat.mul_le_mul_right _ (by omega)
  have hmul : mul npages plat.pageSize = npages * plat.pageSize :=
    mul_of_lt (Nat.lt_of_le_of_lt hle hpages)
  have hpage := plat.le_pageSize
  have hleast : plat.pageSize ≤ npages * plat.pageSize := Nat.le_mul_of_pos_left _ hone
  refine ⟨hmul, ?_⟩
  rw [hmul]
  simp only [sizeofMemnode]
  omega

/-- **`spr_palloc` on the slot path**, whatever the size. -/
theorem sprPalloc_outcome (thread : Nat) {size : Nat} (h : PoolAt plat w p)
    (hpages : PagesFit plat) (halign : sprAlignAllocation size ≠ 0)
    (hindex : slotIndex plat size ≤ sprMaxPoolSlot) :
    ∃ r w', sprPalloc plat thread p.addr size w = .ok r w' ∧
      SlotOutcome w p (sprAlignAllocation size)
        (sprGetNpages plat (sprAlignAllocation size) * plat.pageSize) (slotIndex plat size)
        r w' := by
  obtain ⟨hmul, hsize⟩ := hpages.mul_npages hindex
  obtain ⟨r, w', hrun, hout⟩ := pallocSlots_outcome (k := sprAlignAllocation size) thread h hindex
    hsize
  rw [hmul] at hout
  exact ⟨r, w', (sprPalloc_slots halign hindex).trans hrun, hout⟩

end Outcome

/-! ## Section 2: Registrations -/

/-- A record cannot be had: none is in reserve, no memnode has room for one, and the
    system refuses a page. -/
def RecordRefused (plat : Platform) (w : World) (pool : Nat) : Prop :=
  w.mem (poolFreeCleanups pool) = 0 ∧
    searchSlots w.mem pool sizeofCleanupNode 0 sprMaxPoolSlot = some 0 ∧
    ¬ Grants w.live (w.answers.headD 0) plat.pageSize

instance (plat : Platform) (w : World) (pool : Nat) : Decidable (RecordRefused plat w pool) :=
  inferInstanceAs (Decidable (_ ∧ _ ∧ _))

/-- A record with the data and the handler has been linked in front of the cleanups. -/
def Links (w w' : World) (pool data handler : Nat) : Prop :=
  ∃ node, node ≠ 0 ∧ w'.mem (poolCleanups pool) = node ∧ w'.mem (recordData node) = data ∧
    w'.mem (recordHandler node) = handler ∧
    w'.mem (recordNext node) = w.mem (poolCleanups pool)

/-- No region has been given back, and all are in order. -/
structure Extends (w w' : World) : Prop where
  kept : ∀ s ∈ w.live, s ∈ w'.live
  ok   : LiveOk w'.live

section Registrations

variable {plat : Platform} {w w' : World} {p : Pool}

theorem Extends.of_live (h : LiveOk w.live) (hlive : w'.live = w.live) : Extends w w' :=
  ⟨fun _ hs => hlive ▸ hs, hlive ▸ h⟩

theorem SlotOutcome.extends {k size index r : Nat} (h : LiveOk w.live) (hpos : 0 < size)
    (hout : SlotOutcome w p k size index r w') : Extends w w' := by
  cases hout with
  | found _ n hfit hlive => exact .of_live h hlive
  | refused _ hfit hno hmem hlive herrno => exact .of_live h hlive
  | fresh _ a hfit ha hgrant hlive =>
    exact ⟨fun s hs => hlive ▸ List.mem_cons_of_mem _ hs, hlive ▸ liveOk_obtain h hgrant hpos⟩

/-- A record that does not lie over the start of the cleanups is filled in and linked. -/
theorem linkRecord_links {node : Nat} (pool data handler : Nat) (hne : node ≠ 0)
    (hapart : Span.Disjoint ⟨poolCleanups pool, 8⟩ (recordSpan node)) :
    ∃ w', linkRecord pool node data handler w = .ok () w' ∧ Links w w' pool data handler ∧
      w'.live = w.live := by
  simp only [Span.Disjoint, recordSpan, sizeofCleanupNode, poolCleanups] at hapart
  have h0 : node ≠ pool + 184 := by omega
  have h8 : node + 8 ≠ pool + 184 := by omega
  have h16 : node + 16 ≠ pool + 184 := by omega
  refine ⟨(((w.store (node + 8) data).store (node + 16) handler).store node
    (w.mem (pool + 184))).store (pool + 184) node, ?_, ⟨node, hne, ?_⟩, rfl⟩
  · simp [linkRecord, Function.update_of_ne h8.symm, Function.update_of_ne h16.symm]
  · simp [Function.update_of_ne h0, Function.update_of_ne h8, Function.update_of_ne h16]

/-- The slot path finds no room for a record, and no page, exactly when it answers
    `NULL`. -/
theorem SlotOutcome.null_iff {r : Nat} (h : PoolAt plat w p)
    (hout : SlotOutcome w p sizeofCleanupNode plat.pageSize 0 r w') :
    r = 0 ↔ searchSlots w.mem p.addr sizeofCleanupNode 0 sprMaxPoolSlot = some 0 ∧
      ¬ Grants w.live (w.answers.headD 0) plat.pageSize := by
  have hsearch : searchSlots w.mem p.addr sizeofCleanupNode 0 sprMaxPoolSlot
      = some (addrOf (firstFit sizeofCleanupNode (p.fromSlot 0))) := searchSlots_spec h _ (by simp)
  rw [hsearch]
  cases hout with
  | found _ n hfit _ =>
    have hok := h.wf.node n (Pool.fromSlot_nodes (firstFit_some hfit).1)
    have hne := hok.ne_null
    have hlow := hok.header
    have hlow' := hok.lower
    simp only [hfit, addrOf, Option.elim_some, Option.some.injEq]
    omega
  | refused _ hfit hno _ _ _ =>
    rw [hfit]
    exact ⟨fun _ => ⟨rfl, hno⟩, fun _ => rfl⟩
  | fresh _ a hfit ha hgrant _ =>
    rw [← ha]
    refine ⟨fun hnull => ?_, fun h => absurd hgrant h.2⟩
    simp only [sizeofMemnode] at hnull
    omega

/-- A record that is carved does not lie over the header. -/
theorem carving_record_header {thread size index r : Nat} {p' : Pool} (h : PoolAt plat w p)
    (h' : PoolAt plat w' p') (hc : Carving plat thread w p sizeofCleanupNode size index r p' w')
    (hsize : sizeofCleanupNode + sizeofMemnode ≤ size) (hr : r ≠ 0) :
    (p.headerSpan plat).Disjoint (recordSpan r) := by
  obtain ⟨-, hused⟩ := carving_used h hc hsize
  obtain ⟨-, huse, -⟩ := hused hr
  obtain ⟨haddr, -, -, -, -, -, -, -, hbody⟩ := carving_kept h' hc
  obtain ⟨n, hn, hin⟩ := hbody _ huse
  have hheader := h'.header_body hn hin
  rwa [Pool.headerSpan, haddr] at hheader

/-- **`spr_pool_cleanup_add1`** writes through `NULL` exactly when it needs a record that
    cannot be had. -/
theorem cleanupAdd1With_adds {thread : Nat} {palloc : Nat → Nat → Act Nat} (data handler : Nat)
    (h : PoolAt plat w p)
    (hpalloc : palloc p.addr sizeofCleanupNode
      = pallocSlots plat thread p.addr sizeofCleanupNode 1 0) :
    (RecordRefused plat w p.addr → ∃ w₁,
      sprPoolCleanupAdd1With plat palloc thread p.addr data handler w = .error .null w₁) ∧
    (¬ RecordRefused plat w p.addr → ∃ w',
      sprPoolCleanupAdd1With plat palloc thread p.addr data handler w = .ok () w' ∧
        Links w w' p.addr data handler ∧ Extends w w') := by
  have hlock := h.of_eq (v := w.emits (lockEvents plat thread p)) rfl rfl
  have hwide := le_sizeofPool plat
  have hstart : ∀ s : Span, (p.headerSpan plat).Disjoint s →
      Span.Disjoint ⟨poolCleanups p.addr, 8⟩ s := by
    intro s hs
    simp only [Span.Disjoint, Pool.headerSpan, poolCleanups] at hs ⊢
    omega
  cases hfrees : p.frees with
  | cons a fs =>
    -- the first record in reserve is taken
    obtain ⟨hhead, hne, -, -⟩ := popRecord hlock hfrees
    rw [emits_mem] at hhead
    have hlisted : a ∈ p.listed := by
      apply List.mem_append_right
      rw [hfrees]
      exact List.mem_cons_self
    obtain ⟨w₁, hlink, hlinks, hlive⟩ := linkRecord_links
      (w := (w.emits (lockEvents plat thread p)).store (p.addr + 192) (w.mem a)) p.addr data handler
      hne (hstart _ (h.header_record hlisted))
    obtain ⟨evs, hunlock⟩ := unlockPool_runs plat thread p.addr w₁
    refine ⟨fun hrefused => absurd hrefused.1 (by rw [poolFreeCleanups, hhead]; exact hne),
      fun _ => ⟨w₁.emits evs, ?_, ?_, .of_live h.live hlive⟩⟩
    · exact cleanupAdd1With_recycled (lockPool_run h thread) hhead hne hlink hunlock
    · simpa [Links] using hlinks
  | nil =>
    have hnull := h.frees_null hfrees
    obtain ⟨r, p₁, w₁, hrun, hp₁, hcarve, -⟩ := pallocSlots_record thread hlock
    have hout : SlotOutcome (w.emits (lockEvents plat thread p)) p sizeofCleanupNode plat.pageSize 0
        r w₁ := by
      obtain ⟨r', w₁', hrun', hout⟩ := pallocSlots_outcome (k := sizeofCleanupNode) thread hlock
        (Nat.zero_le _) (one_page_room plat)
      rw [hrun] at hrun'
      injection hrun' with hr hw
      rwa [mul_one_page, ← hr, ← hw] at hout
    have hrefused : RecordRefused plat w p.addr ↔ r = 0 := by
      rw [hout.null_iff hlock]
      exact and_iff_right hnull
    refine ⟨fun hno => ⟨w₁, ?_⟩, fun hyes => ?_⟩
    · rw [hrefused.mp hno] at hrun
      exact cleanupAdd1With_null (lockPool_run h thread) hnull (by rw [hpalloc, hrun])
    · have hr : r ≠ 0 := fun h => hyes (hrefused.mpr h)
      obtain ⟨haddr, -, hcleanups, -⟩ := carving_kept hp₁ hcarve
      have hheader := carving_record_header hlock hp₁ hcarve (record_room plat) hr
      obtain ⟨w₂, hlink, hlinks, hlive⟩ := linkRecord_links (w := w₁.emit (.record p.addr r)) p.addr
        data handler hr (hstart (recordSpan r) hheader)
      have hmore := hout.extends hlock.live plat.page_pos
      have hsame : w₁.mem (p.addr + 184) = w.mem (p.addr + 184) := by
        have hbefore := chain_start h.rep.records.cleanups
        have hafter := chain_start hp₁.rep.records.cleanups
        rw [haddr, hcleanups] at hafter
        rw [hbefore, hafter]
      obtain ⟨evs, hunlock⟩ := unlockPool_runs plat thread p.addr w₂
      refine ⟨w₂.emits evs, ?_, ?_, ?_⟩
      · exact cleanupAdd1With_carved (lockPool_run h thread) hnull (by rw [hpalloc, hrun]) hr hlink
          hunlock
      · simpa [Links, hsame] using hlinks
      · exact ⟨fun s hs => hlive ▸ hmore.kept s hs, hlive ▸ hmore.ok⟩

end Registrations

/-! ## Section 3: Oversized requests -/

/-- The call has left the memory and the regions as they were. -/
def Unchanged (w w' : World) : Prop := w'.mem = w.mem ∧ w'.live = w.live

/-- An oversized block is granted, and its record cannot be had. -/
def RegistrationRefused (plat : Platform) (w : World) (pool size : Nat) : Prop :=
  sprMaxPoolSlot < slotIndex plat size ∧
    Grants w.live (w.answers.headD 0) (sprAlignAllocation size) ∧
    RecordRefused plat (w.obtain (w.answers.headD 0) (sprAlignAllocation size)) pool

instance (plat : Platform) (w : World) (pool size : Nat) :
    Decidable (RegistrationRefused plat w pool size) :=
  inferInstanceAs (Decidable (_ ∧ _ ∧ _))

/-- What an oversized request comes to. -/
inductive BigOutcome (plat : Platform) (w : World) (pool size : Nat) : Result Nat → Prop where
  | refused (w' : World) (hno : ¬ RegistrationRefused plat w pool size) (hsame : Unchanged w w')
      (herrno : w'.errno = enomem) : BigOutcome plat w pool size (.ok 0 w')
  | unrecorded (w₁ : World) (hyes : RegistrationRefused plat w pool size) :
      BigOutcome plat w pool size (.error .null w₁)
  | registered (w' : World) (a : Nat) (hno : ¬ RegistrationRefused plat w pool size)
      (hgrant : Grants w.live a (sprAlignAllocation size))
      (hlinks : Links w w' pool a plat.sprFree)
      (hmore : Extends (w.obtain a (sprAlignAllocation size)) w') :
      BigOutcome plat w pool size (.ok a w')

section Oversized

variable {plat : Platform} {w : World} {p : Pool} {size : Nat}

/-- A rejected size looks in the first slot. -/
theorem slotIndex_rejected (plat : Platform) (h : sprAlignAllocation size = 0) :
    slotIndex plat size = 0 := by
  have hpage := plat.le_pageSize
  have hadd : add 0 sizeofMemnodeAlign = 48 := by decide
  rw [slotIndex, h, sprGetNpages]
  simp only [hadd]
  rw [if_pos (by omega)]

/-- **`spr_palloc` on an oversized request.** -/
theorem sprPalloc_big (thread : Nat) (h : PoolAt plat w p)
    (hbig : sprMaxPoolSlot < slotIndex plat size) :
    BigOutcome plat w p.addr size (sprPalloc plat thread p.addr size w) := by
  have halign : sprAlignAllocation size ≠ 0 := by
    intro halign
    rw [slotIndex_rejected plat halign] at hbig
    exact absurd hbig (Nat.not_lt_zero _)
  by_cases hgrant : Grants w.live (w.answers.headD 0) (sprAlignAllocation size)
  swap
  · have hsys : sysAlloc (sprAlignAllocation size) w
        = .ok 0 (w.refuse (sprAlignAllocation size)) := if_neg hgrant
    obtain ⟨evs, hunlock⟩ := unlockPool_runs plat thread p.addr
      (w.refuse (sprAlignAllocation size))
    rw [sprPalloc_refused halign hbig hsys hunlock]
    exact .refused _ (fun hrefused => hgrant hrefused.2.1) ⟨rfl, rfl⟩ rfl
  · have hsys : sysAlloc (sprAlignAllocation size) w = .ok (w.answers.headD 0)
        (w.obtain (w.answers.headD 0) (sprAlignAllocation size)) := if_pos hgrant
    have hrefusal : RegistrationRefused plat w p.addr size ↔
        RecordRefused plat (w.obtain (w.answers.headD 0) (sprAlignAllocation size)) p.addr :=
      ⟨fun h => h.2.2, fun h => ⟨hbig, hgrant, h⟩⟩
    generalize w.answers.headD 0 = a at hgrant hsys hrefusal
    -- the block is the caller's from here on, and its record is added
    have hobtain := h.obtain hgrant (Nat.pos_of_ne_zero halign)
    obtain ⟨hstops, hadds⟩ := cleanupAdd1With_adds a plat.sprFree hobtain
      (pallocDepth_record plat thread 0 p.addr)
    by_cases hrefused : RecordRefused plat (w.obtain a (sprAlignAllocation size)) p.addr
    · obtain ⟨w₁, hadd⟩ := hstops hrefused
      rw [sprPalloc_oversize halign hbig hgrant.1 hsys, bind_run, hadd]
      exact .unrecorded w₁ (hrefusal.mpr hrefused)
    · obtain ⟨w₁, hadd, hlinks, hmore⟩ := hadds hrefused
      obtain ⟨evs, hunlock⟩ := unlockPool_runs plat thread p.addr w₁
      have hrun : sprPalloc plat thread p.addr size w = .ok a (w₁.emits evs) := by
        rw [sprPalloc_oversize halign hbig hgrant.1 hsys]
        simp [hadd, hunlock]
      rw [hrun]
      exact .registered _ a (fun hyes => hrefused (hrefusal.mp hyes)) hgrant
        (by simpa [Links] using hlinks) ⟨hmore.kept, hmore.ok⟩

end Oversized

/-! ## Section 4: What should happen -/

/-- `spr_palloc` answers with a block, registered if it is oversized, or with `NULL`
    and nothing changed. -/
def PallocSafe (plat : Platform) (w : World) (pool size : Nat) : Result Nat → Prop
  | .ok r w' =>
      (r ≠ 0 ∧ (sprMaxPoolSlot < slotIndex plat size → Links w w' pool r plat.sprFree)) ∨
        (r = 0 ∧ Unchanged w w')
  | .error _ _ => False

/-- `spr_pool_cleanup_add1` links a record that is filled in, or changes nothing. -/
def AddSafe (w : World) (pool data handler : Nat) : Result Unit → Prop
  | .ok _ w' => Links w w' pool data handler ∨ Unchanged w w'
  | .error _ _ => False

section Refusals

variable {plat : Platform} {w : World} {p : Pool}

/-- **`spr_pool_cleanup_add1`** is safe exactly when a record can be had. -/
theorem add_safe_iff (thread data handler : Nat) (h : PoolAt plat w p) :
    AddSafe w p.addr data handler (sprPoolCleanupAdd1 plat thread p.addr data handler w) ↔
      ¬ RecordRefused plat w p.addr := by
  obtain ⟨hstops, hadds⟩ := cleanupAdd1With_adds data handler h
    (pallocDepth_record plat thread 1 p.addr)
  constructor
  · intro hsafe hrefused
    obtain ⟨w₁, hrun⟩ := hstops hrefused
    unfold sprPoolCleanupAdd1 sprPalloc at hsafe
    rw [hrun] at hsafe
    exact hsafe
  · intro hyes
    obtain ⟨w', hrun, hlinks, -⟩ := hadds hyes
    unfold sprPoolCleanupAdd1 sprPalloc
    rw [hrun]
    exact Or.inl hlinks

/-- The slot path is safe. -/
theorem palloc_safe_slots (thread : Nat) {size : Nat} (h : PoolAt plat w p)
    (hpages : PagesFit plat) (halign : sprAlignAllocation size ≠ 0)
    (hindex : slotIndex plat size ≤ sprMaxPoolSlot) :
    PallocSafe plat w p.addr size (sprPalloc plat thread p.addr size w) := by
  have hnot : ¬ sprMaxPoolSlot < slotIndex plat size := Nat.not_lt.mpr hindex
  obtain ⟨r, w', hrun, hout⟩ := sprPalloc_outcome thread h hpages halign hindex
  rw [hrun]
  cases hout with
  | found _ n hfit hlive =>
    have hok := h.wf.node n (Pool.fromSlot_nodes (firstFit_some hfit).1)
    have hlow := hok.header
    have hlow' := hok.lower
    simp only [sizeofMemnode] at hlow
    exact Or.inl ⟨by omega, fun hbig => absurd hbig hnot⟩
  | refused _ hfit hno hmem hlive _ => exact Or.inr ⟨rfl, hmem, hlive⟩
  | fresh _ a hfit ha hgrant hlive =>
    exact Or.inl ⟨by simp only [sizeofMemnode]; omega, fun hbig => absurd hbig hnot⟩

/-- **`spr_palloc`** is safe unless the system grants an oversized block and then no
    memory for its record. -/
theorem palloc_safe_iff (thread size : Nat) (h : PoolAt plat w p) (hpages : PagesFit plat) :
    PallocSafe plat w p.addr size (sprPalloc plat thread p.addr size w) ↔
      ¬ RegistrationRefused plat w p.addr size := by
  by_cases halign : sprAlignAllocation size = 0
  · have hsmall := slotIndex_rejected plat halign
    obtain ⟨evs, hunlock⟩ := unlockPool_runs plat thread p.addr w
    rw [sprPalloc_rejected halign hunlock]
    refine iff_of_true (Or.inr ⟨rfl, rfl, rfl⟩) fun hrefused => ?_
    have hbig := hrefused.1
    omega
  by_cases hindex : slotIndex plat size ≤ sprMaxPoolSlot
  · exact iff_of_true (palloc_safe_slots thread h hpages halign hindex) fun hrefused =>
      absurd hrefused.1 (Nat.not_lt.mpr hindex)
  have hbig : sprMaxPoolSlot < slotIndex plat size := Nat.lt_of_not_le hindex
  have hout := sprPalloc_big thread h hbig
  generalize sprPalloc plat thread p.addr size w = res at hout ⊢
  cases hout with
  | refused w' hno hsame herrno => exact iff_of_true (Or.inr ⟨rfl, hsame⟩) hno
  | unrecorded w₁ hyes => exact iff_of_false id fun hno => hno hyes
  | registered w' a hno hgrant hlinks hmore =>
    exact iff_of_true (Or.inl ⟨hgrant.1, fun _ => hlinks⟩) hno

/-! ## Section 5: Runs -/

/-- **A refused allocation is answered with `NULL`, and a failed call changes
    nothing**, except where memory for a record is refused: then the record is
    written through `NULL`. -/
theorem refusals_iff {s : Session} (h : Reachable plat (Session.Plain plat) s)
    (hpages : PagesFit plat) {pool : Nat} (hpool : pool ∈ s.addrs)
    (thread size data handler : Nat) :
    (PallocSafe plat s.world pool size (sprPalloc plat thread pool size s.world) ↔
      ¬ RegistrationRefused plat s.world pool size) ∧
    (AddSafe s.world pool data handler (sprPoolCleanupAdd1 plat thread pool data handler s.world) ↔
      ¬ RecordRefused plat s.world pool) := by
  obtain ⟨f, hinv⟩ := reachable_inv h
  obtain ⟨p, hp, rfl⟩ := hinv.find hpool
  have hpw := hinv.pools.pool p hp
  exact ⟨palloc_safe_iff thread size hpw hpages, add_safe_iff thread data handler hpw⟩

/-- Before the first call, on a system that will grant two regions. -/
def scarce : Session := ⟨{ boot with answers := [65536, 131072] }, .nil⟩

theorem initial_scarce : Initial scarce := ⟨initial_session.live, rfl, rfl⟩

/-- A record can be had, and the block is registered. -/
theorem refusals_iff_oversized : ∃ (s : Session) (pool : Nat), pool ∈ s.addrs ∧
    sprMaxPoolSlot < slotIndex machine 100000 ∧
    PallocSafe machine s.world pool 100000 (sprPalloc machine 1 pool 100000 s.world) ∧
    AddSafe s.world pool 5 9 (sprPoolCleanupAdd1 machine 1 pool 5 9 s.world) := by
  have hrun : ((scarce.run machine (Session.Plain machine) [.create 1 0 0]).any fun s =>
      65584 ∈ s.addrs ∧ ¬ RecordRefused machine s.world 65584 ∧
        ¬ RegistrationRefused machine s.world 65584 100000) = true := by decide +kernel
  obtain ⟨s, hs, hfacts⟩ := (Option.any_eq_true _ _).mp hrun
  obtain ⟨hpool, hrecord, hregistration⟩ := of_decide_eq_true hfacts
  have hreach := reachable_run (.start scarce initial_scarce) hs
  have hsafe := refusals_iff hreach (by decide) hpool 1 100000 5 9
  exact ⟨s, 65584, hpool, by decide +kernel, hsafe.1.mpr hregistration, hsafe.2.mpr hrecord⟩

/-- The pool's page is full; the system grants the block, and no page for the record. -/
theorem refused_record_breaks : ¬ ∀ (plat : Platform) (s : Session) (thread pool size : Nat),
    Reachable plat (Session.Plain plat) s → pool ∈ s.addrs →
    PallocSafe plat s.world pool size (sprPalloc plat thread pool size s.world) := by
  intro hall
  have hrun : ((scarce.run machine (Session.Plain machine)
      [.create 1 0 0, .palloc 1 65584 3792]).any fun s =>
        65584 ∈ s.addrs ∧ (match sprPalloc machine 1 65584 100000 s.world with
        | .ok _ _ => false
        | .error why _ => decide (why = .null)) = true) = true := by decide +kernel
  obtain ⟨s, hs, hfacts⟩ := (Option.any_eq_true _ _).mp hrun
  obtain ⟨hpool, hnull⟩ := of_decide_eq_true hfacts
  have hreach := reachable_run (.start scarce initial_scarce) hs
  have hsafe := hall machine s 1 65584 100000 hreach hpool
  cases hpalloc : sprPalloc machine 1 65584 100000 s.world with
  | ok r w' => rw [hpalloc] at hnull; cases hnull
  | error why w₁ =>
    rw [hpalloc] at hsafe
    exact hsafe

end Refusals

end Spr.MemPool
