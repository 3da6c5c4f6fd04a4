import Spr.MemPool.Runs

/-! # What the calls cut off a pool

    The blocks and the records of a pool are cut off its memnodes; a clear makes
    everything available again.

    * `cuts`: what has been cut off a pool since its last clear, by the log.
    * `Cut`: one piece is cut off the memnodes.
    * `Fate`: what a call does to the memnodes of each pool, and to its cuts.
    * `step_fate`: every call is one of these to every pool. -/

namespace Spr.MemPool

open Spr.Words Spr.Chains Spr.Forests

/-! ## Section 1: The log -/

/-- How an event changes what has been cut off the pool: a block of the slot path, a
    record, a clear, or the first memnode. -/
def cutStep (plat : Platform) (pool : Nat) (ks : List Nat) : Event → List Nat
  | .handed q _ size =>
      if q = pool ∧ slotIndex plat size ≤ sprMaxPoolSlot then sprAlignAllocation size :: ks else ks
  | .record q _ => if q = pool then sizeofCleanupNode :: ks else ks
  | .cleared q => if q = pool then [] else ks
  | .registered q n => if q = pool ∧ n + sizeofMemnode = pool then [] else ks
  | _ => ks

/-- The sizes of what has been cut off the pool since its last clear, newest first. -/
def cuts (plat : Platform) (log : List Event) (pool : Nat) : List Nat :=
  log.foldl (cutStep plat pool) []

/-- The event bears on what has been cut off the pool. -/
def Event.bears (pool : Nat) : Event → Bool
  | .handed q _ _ => q = pool
  | .record q _ => q = pool
  | .cleared q => q = pool
  | .registered q n => q = pool ∧ n + sizeofMemnode = pool
  | _ => false

section Log

variable {plat : Platform} {thread pool : Nat} {p : Pool} {log evs : List Event}

theorem cutStep_of_not_bears {e : Event} (he : e.bears pool = false) (ks : List Nat) :
    cutStep plat pool ks e = ks := by
  cases e <;> simp [cutStep, Event.bears] at he ⊢
  · exact fun h h' => absurd h' (he h)
  · exact fun h => absurd h he
  · exact fun h => absurd h he
  · exact fun h => absurd h he

/-- **Events that do not bear on the pool** change nothing. -/
theorem cuts_append (h : ∀ e ∈ evs, e.bears pool = false) :
    cuts plat (log ++ evs) pool = cuts plat log pool := by
  have hfold : ∀ ks, evs.foldl (cutStep plat pool) ks = ks := by
    induction evs with
    | nil => exact fun _ => rfl
    | cons e evs ih =>
      intro ks
      rw [List.foldl_cons, cutStep_of_not_bears (h e List.mem_cons_self)]
      exact ih (fun e' he' => h e' (List.mem_cons_of_mem _ he')) ks
  rw [cuts, List.foldl_append, hfold]
  rfl

theorem cuts_snoc (e : Event) :
    cuts plat (log ++ [e]) pool = cutStep plat pool (cuts plat log pool) e := by
  rw [cuts, List.foldl_append]
  rfl

theorem bears_lock : ∀ e ∈ lockEvents plat thread p, e.bears pool = false :=
  forall_lockEvents rfl

theorem bears_unlock : ∀ e ∈ unlockEvents plat thread p, e.bears pool = false :=
  forall_unlockEvents rfl

theorem bears_call (r : Record) : ∀ e ∈ callEvents plat r, e.bears pool = false := by
  intro e he
  unfold callEvents at he
  rcases List.mem_cons.mp he with rfl | he
  · rfl
  · split at he
    · rw [List.mem_singleton.mp he]
      rfl
    · cases he

theorem bears_calls (rs : List Record) :
    ∀ e ∈ rs.flatMap (callEvents plat), e.bears pool = false := by
  intro e he
  obtain ⟨r, -, he⟩ := List.mem_flatMap.mp he
  exact bears_call r e he

theorem FailedLog.bears {live : List Span} (h : FailedLog live evs) :
    ∀ e ∈ evs, e.bears pool = false := by
  cases h <;> simp [Event.bears]

end Log

/-! ## Section 2: One piece -/

/-- A piece of `k` bytes is cut off the first memnode with room from the slot `index`
    on, else off a new memnode of that slot. -/
inductive Cut (plat : Platform) (p : Pool) (k index : Nat) : Pool → Prop where
  | fit (n : Memnode) (hfit : firstFit k (p.fromSlot index) = some n) :
      Cut plat p k index (p.carveAt n.addr k)
  | fresh (a : Nat) (hfit : firstFit k (p.fromSlot index) = none) (hnew : a ∉ p.nodeAddrs) :
      Cut plat p k index
        ((p.addNode index (freshNode a ((index + 1) * plat.pageSize))).carveAt a k)

/-- The piece is smaller than a new memnode of the slot, and nothing wraps. -/
def CutFits (plat : Platform) (k index : Nat) : Prop :=
  k + sizeofMemnode < (index + 1) * plat.pageSize ∧ (index + 1) * plat.pageSize < wordMod ∧
    index ≤ sprMaxPoolSlot

/-- The pools have the same memnodes, in the same slots. -/
def SameShelf (p p' : Pool) : Prop :=
  p'.addr = p.addr ∧ p'.slots = p.slots ∧ p'.orphans = p.orphans

theorem SameShelf.refl (p : Pool) : SameShelf p p := ⟨rfl, rfl, rfl⟩

theorem SameShelf.of_core {p p' : Pool} (h : p'.core = p.core) : SameShelf p p' := by
  have haddr : p'.core.addr = p.core.addr := congrArg Pool.addr h
  have hslots : p'.core.slots = p.core.slots := congrArg Pool.slots h
  have horphans : p'.core.orphans = p.core.orphans := congrArg Pool.orphans h
  exact ⟨haddr, hslots, horphans⟩

/-- What happens to the memnodes of the pool `p`, and to its cuts, by some events. -/
inductive Cutting (plat : Platform) (slot : Option Nat) (p p' : Pool) (ks ks' : List Nat) :
    Prop where
  | none (hshelf : SameShelf p p') (hcuts : ks' = ks)
  | piece (k index : Nat) (q : Pool) (hcut : Cut plat p k index q) (hshelf : SameShelf q p')
      (hfits : CutFits plat k index) (hslot : index = 0 ∨ slot = some index)
      (hcuts : ks' = k :: ks)

section Pieces

variable {plat : Platform} {thread : Nat} {w w' : World} {p p' : Pool} {log : List Event}
  {slot : Option Nat}

/-- The memnodes after the slot path: nothing is cut, or one piece. -/
theorem carving_cut {k index r : Nat} (h : PoolAt plat w p) (hfits : CutFits plat k index)
    (hc : Carving plat thread w p k ((index + 1) * plat.pageSize) index r p' w') :
    ∃ evs, w'.log = w.log ++ evs ∧ (∀ pool, ∀ e ∈ evs, e.bears pool = false) ∧
      (r = 0 ∧ p' = p ∨ r ≠ 0 ∧ Cut plat p k index p') := by
  cases hc with
  | refused _ hfit hmem hlive hlog =>
    refine ⟨_, hlog, fun pool e he => ?_, Or.inl ⟨rfl, rfl⟩⟩
    rw [List.mem_append, List.mem_cons] at he
    rcases he with he | rfl | he
    · exact bears_lock e he
    · rfl
    · exact bears_unlock e he
  | fit _ n hfit hlive hlog =>
    have hok := h.wf.node n (Pool.fromSlot_nodes (firstFit_some hfit).1)
    have hheader := hok.header
    have hlower := hok.lower
    simp only [sizeofMemnode] at hheader
    refine ⟨_, hlog, fun pool e he => ?_, Or.inr ⟨by omega, .fit n hfit⟩⟩
    exact (List.mem_append.mp he).elim (bears_lock e) (bears_unlock e)
  | fresh _ a hfit hgrant hlive hlog =>
    obtain ⟨hroom, -⟩ := hfits
    have hfresh : ∀ n ∈ p.nodes, n.addr ≠ a := fun n hn =>
      hgrant.fresh h.live (by omega) (h.held n hn)
    -- the pool's own memnode is another one, so no pool is born here
    have hhome : a + sizeofMemnode ≠ p.addr := by
      obtain ⟨home, hhome, haddr, -⟩ := h.wf.home
      have := hfresh home hhome
      omega
    refine ⟨_, hlog, fun pool e he => ?_,
      Or.inr ⟨by simp [sizeofMemnode], .fresh a hfit fun ha => ?_⟩⟩
    · simp only [List.mem_append, List.mem_cons] at he
      rcases he with he | rfl | rfl | rfl | he
      · exact bears_lock e he
      · rfl
      · rfl
      · refine decide_eq_false ?_
        rintro ⟨rfl, heq⟩
        exact hhome heq
      · exact bears_unlock e he
    · obtain ⟨n, hn, heq⟩ := List.mem_map.mp ha
      exact hfresh n hn heq

theorem record_cutFits (plat : Platform) : CutFits plat sizeofCleanupNode 0 := by
  have hpage := plat.le_pageSize
  have hlt := plat.page_lt
  refine ⟨?_, ?_, Nat.zero_le _⟩
  · simp only [sizeofCleanupNode, sizeofMemnode]
    omega
  · rw [wordMod_eq]
    omega

/-- **Adding a record** cuts it off the pool, unless one is in reserve. -/
theorem adding_cut {data handler : Nat} (log : List Event) (slot : Option Nat) (h : PoolAt plat w p)
    (ha : Adding plat thread w p data handler p' w') :
    ∃ evs, w'.log = w.log ++ evs ∧ (∀ pool, pool ≠ p.addr → ∀ e ∈ evs, e.bears pool = false) ∧
      Cutting plat slot p p' (cuts plat log p.addr) (cuts plat (log ++ evs) p.addr) := by
  cases ha with
  | recycled _ a fs hfrees hlive hlog =>
    have hquiet : ∀ pool, ∀ e ∈ lockEvents plat thread p ++ unlockEvents plat thread p,
        e.bears pool = false := fun pool e he =>
      (List.mem_append.mp he).elim (bears_lock e) (bears_unlock e)
    exact ⟨_, hlog, fun pool _ => hquiet pool, .none ⟨rfl, rfl, rfl⟩ (cuts_append (hquiet p.addr))⟩
  | carved _ w₁ a p₁ hfrees hne hcarve hlive hlog =>
    have hpage : plat.pageSize = (0 + 1) * plat.pageSize := by omega
    rw [hpage] at hcarve
    have hlock := h.of_eq (v := w.emits (lockEvents plat thread p)) rfl rfl
    -- the record itself is what is cut off
    obtain ⟨evs, hlog₁, hquiet, hcut⟩ := carving_cut hlock (record_cutFits plat) hcarve
    obtain ⟨-, hcut⟩ := hcut.resolve_left fun h => hne h.1
    have hbefore : ∀ pool, ∀ e ∈ lockEvents plat thread p ++ evs, e.bears pool = false :=
      fun pool e he => (List.mem_append.mp he).elim (bears_lock e) (hquiet pool e)
    refine ⟨(lockEvents plat thread p ++ evs) ++ ([.record p.addr a] ++ unlockEvents plat thread p),
      by simp [hlog, hlog₁], fun pool hpool e he => ?_,
      .piece _ 0 p₁ hcut ⟨rfl, rfl, rfl⟩ (record_cutFits plat) (Or.inl rfl) ?_⟩
    · rcases List.mem_append.mp he with he | he
      · exact hbefore pool e he
      · rcases List.mem_append.mp he with he | he
        · rw [List.mem_singleton.mp he]
          exact decide_eq_false (Ne.symm hpool)
        · exact bears_unlock e he
    · rw [← List.append_assoc, ← List.append_assoc, cuts_append bears_unlock, cuts_snoc,
        cuts_append (hbefore p.addr)]
      simp [cutStep]

/-- The block is noted. -/
theorem handOut_log (pool r size : Nat) (w : World) :
    (handOut pool r size w).log = w.log ++ if r = 0 then [] else [.handed pool r size] := by
  unfold handOut
  split <;> simp

/-- **An allocation** cuts its block off the pool, or a record for an oversized one. -/
theorem allocating_cut {size r : Nat} (h : PoolAt plat w p)
    (hwrap : SizeFits plat size) (ha : Allocating plat thread w p size r p' w') :
    ∃ evs, (handOut p.addr r size w').log = w.log ++ evs ∧
      (∀ pool, pool ≠ p.addr → ∀ e ∈ evs, e.bears pool = false) ∧
      Cutting plat (some (slotIndex plat size)) p p' (cuts plat w.log p.addr)
        (cuts plat (w.log ++ evs) p.addr) := by
  cases ha with
  | rejected halign =>
    exact ⟨unlockEvents plat thread p, by simp [handOut_log], fun pool _ => bears_unlock,
      .none (SameShelf.refl p) (cuts_append bears_unlock)⟩
  | refused halign hindex =>
    have hquiet : ∀ pool, ∀ e ∈ .refused (sprAlignAllocation size) :: unlockEvents plat thread p,
        e.bears pool = false := by
      intro pool e he
      rcases List.mem_cons.mp he with rfl | he
      · rfl
      · exact bears_unlock e he
    exact ⟨.refused (sprAlignAllocation size) :: unlockEvents plat thread p, by simp [handOut_log],
      fun pool _ => hquiet pool, .none (SameShelf.refl p) (cuts_append (hquiet p.addr))⟩
  | slots r p' w' halign hindex hcarve =>
    have hno := hwrap halign hindex
    obtain ⟨hpages, hroom⟩ := hno.pages
    have hn : sprGetNpages plat (sprAlignAllocation size) = slotIndex plat size + 1 := by
      rw [slotIndex]
      omega
    have hword := hno.2
    rw [hn] at hcarve hroom hword
    -- the piece is what the pool hands out next
    obtain ⟨evs, hlog, hquiet, hcut⟩ := carving_cut h ⟨hroom, hword, hindex⟩ hcarve
    rcases hcut with ⟨rfl, rfl⟩ | ⟨hne, hcut⟩
    · refine ⟨evs, by simp [handOut_log, hlog], fun pool _ => hquiet pool,
        .none (SameShelf.refl _) (cuts_append (hquiet _))⟩
    · refine ⟨evs ++ [.handed p.addr r size], by simp [handOut_log, hlog, hne],
        fun pool hpool e he => ?_, .piece _ _ p' hcut (SameShelf.refl p') ⟨hroom, hword, hindex⟩
          (Or.inr rfl) ?_⟩
      · rcases List.mem_append.mp he with he | he
        · exact hquiet pool e he
        · rw [List.mem_singleton.mp he]
          exact decide_eq_false (Ne.symm hpool)
      · rw [← List.append_assoc, cuts_snoc, cuts_append (hquiet _)]
        simp [cutStep, hindex]
  | oversize a p' w₁ halign hindex hgrant hadd =>
    have hobtain := h.obtain hgrant (Nat.pos_of_ne_zero halign)
    -- only the record of the region is cut off a memnode
    obtain ⟨evs, hlog, hquiet, hcut⟩ := adding_cut
      (w.obtain r (sprAlignAllocation size)).log (some (slotIndex plat size)) hobtain hadd
    have hafter : ∀ pool, (∀ e ∈ unlockEvents plat thread p, e.bears pool = false) :=
      fun pool => bears_unlock
    refine ⟨[.obtained r (sprAlignAllocation size)] ++ evs ++ unlockEvents plat thread p ++
      [.handed p.addr r size], by simp [handOut_log, hlog, hgrant.1], fun pool hpool e he => ?_, ?_⟩
    · simp only [List.mem_append, List.mem_singleton] at he
      rcases he with ((rfl | he) | he) | rfl
      · rfl
      · exact hquiet pool hpool e he
      · exact bears_unlock e he
      · exact decide_eq_false (Ne.symm hpool)
    · have hobt : cuts plat (w.obtain r (sprAlignAllocation size)).log p.addr
          = cuts plat w.log p.addr := cuts_append fun e he => by
        rw [List.mem_singleton.mp he]
        rfl
      have hend : cuts plat (w.log ++ ([.obtained r (sprAlignAllocation size)] ++ evs ++
          unlockEvents plat thread p ++ [.handed p.addr r size])) p.addr
            = cuts plat ((w.obtain r (sprAlignAllocation size)).log ++ evs) p.addr := by
        rw [← List.append_assoc, cuts_snoc]
        have hbig : ¬ slotIndex plat size ≤ sprMaxPoolSlot := Nat.not_le.mpr hindex
        simp only [cutStep, hbig, and_false, if_false]
        rw [← List.append_assoc, cuts_append bears_unlock, ← List.append_assoc]
        rfl
      rw [hend, ← hobt]
      exact hcut

end Pieces

/-! ## Section 3: Clearing and destroying -/

section Trees

variable {plat : Platform} {thread pool : Nat} {p : Pool} {f : Forest Pool} {log evs : List Event}

/-- **Events that bear on the pool only as a clear** empty its cuts, if there is one. -/
theorem cuts_cleared (h : ∀ e ∈ evs, e.bears pool = true → e = .cleared pool) :
    cuts plat (log ++ evs) pool = if .cleared pool ∈ evs then [] else cuts plat log pool := by
  have hfold : ∀ ks, evs.foldl (cutStep plat pool) ks = if .cleared pool ∈ evs then [] else ks := by
    induction evs with
    | nil => exact fun ks => by simp
    | cons e evs ih =>
      intro ks
      have ih := ih fun e' he' => h e' (List.mem_cons_of_mem _ he')
      rw [List.foldl_cons, ih]
      by_cases he : e.bears pool = true
      · obtain rfl := h e List.mem_cons_self he
        simp [cutStep]
      · have hne : Event.cleared pool ≠ e := by
          rintro rfl
          exact he (by simp [Event.bears])
        rw [cutStep_of_not_bears (Bool.eq_false_iff.mpr he)]
        simp only [List.mem_cons, hne, false_or]
  rw [cuts, List.foldl_append, hfold]
  rfl

/-- What clearing one pool logs, given what its children log. -/
theorem clearEvents_bears {inner : List Event}
    (hinner : ∀ e ∈ inner, e.bears pool = true → e = .cleared pool) :
    ∀ e ∈ clearEvents plat thread p inner, e.bears pool = true → e = .cleared pool := by
  intro e he hb
  rw [clearEvents, List.mem_cons] at he
  rcases he with rfl | he
  · cases hb
  · split at he
    · simp only [List.append_assoc, List.mem_append, List.mem_cons, List.mem_map] at he
      rcases he with he | he | he | ⟨a, -, rfl⟩ | rfl | he
      · rw [bears_lock e he] at hb
        cases hb
      · rw [bears_calls _ e he] at hb
        cases hb
      · exact hinner e he hb
      · cases hb
      · rw [of_decide_eq_true hb]
      · rw [bears_unlock e he] at hb
        cases hb
    · cases he

theorem clearLog_bears :
    ∀ e ∈ clearLog plat thread f, e.bears pool = true → e = .cleared pool := by
  induction f with
  | nil => exact fun e he => by cases he
  | node p cs bs ihc ihb =>
    intro e he hb
    rw [clearLog, List.cons_append, List.mem_cons, List.mem_append] at he
    rcases he with rfl | he | he
    · cases hb
    · exact clearEvents_bears ihc e he hb
    · exact ihb e he hb

/-- The pools after a clear: some as they were, some cleared. -/
theorem clearTree_fates {q : Pool} {cs : Forest Pool}
    (hcs : q ∈ (clearForest plat thread cs).toList → q ∈ cs.toList ∨
      ∃ r ∈ cs.toList, q = r.clear ∧ .cleared r.addr ∈ evs)
    (hq : q ∈ (clearTree plat thread p cs).1 :: (clearTree plat thread p cs).2.toList) :
    q ∈ p :: cs.toList ∨
      ∃ r ∈ p :: cs.toList, q = r.clear ∧ .cleared r.addr ∈ clearEvents plat thread p evs := by
  rw [clearTree] at hq
  rw [clearEvents]
  split at hq
  · rename_i howned
    rw [if_pos howned]
    rcases List.mem_cons.mp hq with rfl | hq
    · exact Or.inr ⟨p, List.mem_cons_self, rfl, by simp⟩
    · refine (hcs hq).imp (List.mem_cons_of_mem _) ?_
      rintro ⟨r, hr, heq, hin⟩
      exact ⟨r, List.mem_cons_of_mem _ hr, heq, by simp [hin]⟩
  · exact Or.inl hq

theorem clearForest_fates {q : Pool} (hq : q ∈ (clearForest plat thread f).toList) :
    q ∈ f.toList ∨ ∃ r ∈ f.toList, q = r.clear ∧ .cleared r.addr ∈ clearLog plat thread f := by
  induction f with
  | nil => cases hq
  | node p cs bs ihc ihb =>
    rw [clearForest_toList, List.mem_append] at hq
    rw [Forest.toList_node, ← List.cons_append, clearLog]
    rcases hq with hq | hq
    · refine (clearTree_fates ihc hq).imp (List.mem_append_left _) ?_
      rintro ⟨r, hr, heq, hin⟩
      exact ⟨r, List.mem_append_left _ hr, heq,
        List.mem_append_left _ (List.mem_cons_of_mem _ hin)⟩
    · refine (ihb hq).imp (List.mem_append_right _) ?_
      rintro ⟨r, hr, heq, hin⟩
      exact ⟨r, List.mem_append_right _ hr, heq, List.mem_append_right _ hin⟩

/-- A pool that the log says is cleared is. -/
theorem clearTree_logged {cs : Forest Pool} {a : Nat} {inner : List Event}
    (hcs : .cleared a ∈ inner → ∃ r ∈ cs.toList, r.addr = a ∧
      r.clear ∈ (clearForest plat thread cs).toList)
    (hin : .cleared a ∈ clearEvents plat thread p inner) :
    ∃ r ∈ p :: cs.toList, r.addr = a ∧
      r.clear ∈ (clearTree plat thread p cs).1 :: (clearTree plat thread p cs).2.toList := by
  rw [clearEvents, List.mem_cons] at hin
  rcases hin with hin | hin
  · cases hin
  rw [clearTree]
  split at hin
  · rename_i howned
    rw [if_pos howned]
    have hno : ∀ evs : List Event, (∀ e ∈ evs, e.bears a = false) → .cleared a ∉ evs :=
      fun evs h hin => by simpa [Event.bears] using h _ hin
    simp only [List.append_assoc, List.mem_append, List.mem_cons, List.mem_map, reduceCtorEq,
      and_false, exists_false, false_or, Event.cleared.injEq] at hin
    rcases hin with hin | hin | hin | rfl | hin
    · exact absurd hin (hno _ bears_lock)
    · exact absurd hin (hno _ (bears_calls _))
    · obtain ⟨r, hr, heq, hin⟩ := hcs hin
      exact ⟨r, List.mem_cons_of_mem _ hr, heq, List.mem_cons_of_mem _ hin⟩
    · exact ⟨p, List.mem_cons_self, rfl, List.mem_cons_self⟩
    · exact absurd hin (hno _ bears_unlock)
  · cases hin

theorem clearForest_logged {a : Nat} (hin : .cleared a ∈ clearLog plat thread f) :
    ∃ r ∈ f.toList, r.addr = a ∧ r.clear ∈ (clearForest plat thread f).toList := by
  induction f with
  | nil => cases hin
  | node p cs bs ihc ihb =>
    rw [clearLog, List.cons_append, List.mem_cons, List.mem_append] at hin
    rw [clearForest_toList, Forest.toList_node, ← List.cons_append]
    rcases hin with hin | hin | hin
    · cases hin
    · obtain ⟨r, hr, heq, hin⟩ := clearTree_logged ihc hin
      exact ⟨r, List.mem_append_left _ hr, heq, List.mem_append_left _ hin⟩
    · obtain ⟨r, hr, heq, hin⟩ := ihb hin
      exact ⟨r, List.mem_append_right _ hr, heq, List.mem_append_right _ hin⟩

/-- Destroying bears on no pool's cuts. -/
theorem destroyEvents_bears {inner : List Event} (hinner : ∀ e ∈ inner, e.bears pool = false) :
    ∀ e ∈ destroyEvents plat .plain thread p inner, e.bears pool = false := by
  intro e he
  by_cases howned : Owned plat thread p
  · rw [destroyEvents_plain howned, List.mem_cons] at he
    simp only [List.append_assoc, List.mem_append, List.mem_singleton, List.mem_flatMap] at he
    rcases he with rfl | ⟨r, -, he⟩ | he | ⟨a, -, he⟩ | rfl
    · rfl
    · exact bears_call r e he
    · exact hinner e he
    · simp only [deallocEvents, List.mem_cons, List.not_mem_nil, or_false] at he
      rcases he with rfl | rfl <;> rfl
    · rfl
  · simp only [destroyEvents, if_neg howned, ownerEvents_plain, List.append_nil,
      List.mem_singleton] at he
    rw [he]
    rfl

theorem destroyLog_bears : ∀ e ∈ destroyLog plat .plain thread f, e.bears pool = false := by
  induction f with
  | nil => exact fun e he => by cases he
  | node p cs bs ihc ihb =>
    intro e he
    rw [destroyLog, Reader.plain_events, List.append_assoc, List.cons_append, List.nil_append,
      List.mem_cons, List.mem_append] at he
    rcases he with rfl | he | he
    · rfl
    · exact destroyEvents_bears ihc e he
    · exact ihb e he

end Trees

/-! ## Section 4: Any call -/

/-- The slot that the call's request goes to. -/
def Op.slot (plat : Platform) : Op → Option Nat
  | .create _ size _ => some (createIndex plat size)
  | .palloc _ _ size => some (slotIndex plat size)
  | .pcalloc _ _ size => some (slotIndex plat size)
  | _ => none

/-- **What a call does to the memnodes of a pool** of the family after it. -/
inductive Fate (plat : Platform) (f : Forest Pool) (op : Op) (before after : Nat → List Nat) :
    Pool → Prop where
  | changed (p p' : Pool) (hp : p ∈ f.toList)
      (hcut : Cutting plat (op.slot plat) p p' (before p.addr) (after p.addr)) :
      Fate plat f op before after p'
  | made (thread size parent a : Nat) (q : Option Pool) (hop : op = .create thread size parent)
      (hindex : createIndex plat size ≤ sprMaxPoolSlot) (hcuts : after (a + sizeofMemnode) = []) :
      Fate plat f op before after (madePool plat thread size a q)
  | cleared (p : Pool) (hp : p ∈ f.toList) (hcuts : after p.addr = []) :
      Fate plat f op before after p.clear

section Fates

variable {plat : Platform} {s s' : Session} {f f' : Forest Pool} {op : Op}

theorem Fate.kept {before after : Nat → List Nat} {p : Pool} (hp : p ∈ f.toList)
    (hcuts : after p.addr = before p.addr) : Fate plat f op before after p :=
  .changed p p hp (.none (SameShelf.refl p) hcuts)

/-- A call on one pool. -/
theorem replace_fate {p p' : Pool} {w' : World} {evs : List Event} {slot : Option Nat}
    (h : Inv plat s f) (hp : p ∈ f.toList) (hlog : w'.log = s.world.log ++ evs)
    (hslot : op.slot plat = slot)
    (hothers : ∀ pool, pool ≠ p.addr → ∀ e ∈ evs, e.bears pool = false)
    (hcut : Cutting plat slot p p' (cuts plat s.world.log p.addr)
      (cuts plat (s.world.log ++ evs) p.addr)) :
    ∀ q ∈ (replace f p p').toList,
      Fate plat f op (cuts plat s.world.log) (cuts plat w'.log) q := by
  intro q hq
  obtain ⟨rest, hold, -, hnew⟩ := Forest.split_at h.nodup hp
  have hnew := hnew fun _ cs => (p', cs)
  rcases List.mem_cons.mp (hnew.mem_iff.mp hq) with hself | hrest
  · subst hslot hself
    exact .changed p _ hp (by rw [hlog]; exact hcut)
  · -- what is logged does not bear on another pool
    have hnd := (hold.map Pool.addr).nodup_iff.mp h.nodup
    rw [List.map_cons, List.nodup_cons] at hnd
    have hne : q.addr ≠ p.addr := fun heq => by
      have hin : q.addr ∈ ((f.childrenAt Pool.addr p.addr).toList ++ rest).map Pool.addr :=
        List.mem_map_of_mem hrest
      exact hnd.1 (heq ▸ hin)
    refine .kept (hold.mem_iff.mpr (List.mem_cons_of_mem _ hrest)) ?_
    rw [hlog]
    exact cuts_append (hothers q.addr hne)

/-- A creation: the new pool has no cuts, and the others keep theirs. -/
theorem made_fate {thread size parent a : Nat} {q : Option Pool} (h' : Inv plat s' f')
    (hlog : s'.world.log = s.world.log ++ [.obtained a (createBytes plat size), .allocated a,
      .registered (a + sizeofMemnode) a])
    (hindex : createIndex plat size ≤ sprMaxPoolSlot)
    (hin : madePool plat thread size a q ∈ f'.toList)
    (hothers : ∀ p' ∈ f'.toList, p' = madePool plat thread size a q ∨
      ∃ p ∈ f.toList, SameShelf p p') : ∀ p' ∈ f'.toList,
      Fate plat f (.create thread size parent) (cuts plat s.world.log) (cuts plat s'.world.log)
        p' := by
  intro p' hp'
  have haddr : (madePool plat thread size a q).addr = a + sizeofMemnode := by
    cases q <;> rfl
  by_cases heq : p'.addr = a + sizeofMemnode
  · obtain rfl := List.inj_on_of_nodup_map h'.nodup hp' hin (heq.trans haddr.symm)
    refine .made thread size parent a q rfl hindex ?_
    have hsplit : s'.world.log = (s.world.log ++ [.obtained a (createBytes plat size),
        .allocated a]) ++ [.registered (a + sizeofMemnode) a] := by simp [hlog]
    rw [hsplit, cuts_snoc]
    simp [cutStep]
  · -- of what is logged only the registration bears on a pool, the new one
    rcases hothers p' hp' with rfl | ⟨p, hp, hshelf⟩
    · exact absurd haddr heq
    · refine .changed p p' hp (.none hshelf ?_)
      rw [hlog, cuts_append]
      intro e he
      simp only [List.mem_cons, List.not_mem_nil, or_false] at he
      rcases he with rfl | rfl | rfl
      · rfl
      · rfl
      · refine decide_eq_false fun hb => heq ?_
        rw [hshelf.1, hb.1]

/-- Taking a record leaves the memnodes alone. -/
theorem taking_fate {thread data handler : Nat} {use : Use} {p p' : Pool} {w' : World}
    (h : Inv plat s f) (hp : p ∈ f.toList) (hslot : op.slot plat = none)
    (huse : ∀ r, ∀ pool, ∀ e ∈ use.events r, e.bears pool = false)
    (ht : Taking plat thread use s.world p data handler p' w') :
    ∀ q ∈ (replace f p p').toList,
      Fate plat f op (cuts plat s.world.log) (cuts plat w'.log) q := by
  cases ht with
  | absent hno =>
    exact replace_fate h hp (emits_log _ _) hslot
      (fun _ _ => bears_lock) (.none (SameShelf.refl p) (cuts_append bears_lock))
  | found rs rs' r _ hsplit hmatch hfirst hlive hlog =>
    have hquiet : ∀ pool, ∀ e ∈ lockEvents plat thread p ++ use.events r ++
        unlockEvents plat thread p, e.bears pool = false := by
      intro pool e he
      rcases List.mem_append.mp he with he | he
      · rcases List.mem_append.mp he with he | he
        · exact bears_lock e he
        · exact huse r pool e he
      · exact bears_unlock e he
    exact replace_fate h hp hlog hslot (fun pool _ => hquiet pool)
      (.none ⟨rfl, rfl, rfl⟩ (cuts_append (hquiet p.addr)))

/-- A clear: the pools that it passes are rewound, and the others are as they were. -/
theorem clear_fate {thread : Nat} {p : Pool} {w' : World} (h : Inv plat s f)
    (hnd : ((f.splice Pool.addr p.addr (clearTree plat thread)).toList.map Pool.addr).Nodup)
    (hp : p ∈ f.toList)
    (hlog : w'.log = s.world.log ++
      clearEvents plat thread p (clearLog plat thread (f.childrenAt Pool.addr p.addr))) :
    ∀ q ∈ (f.splice Pool.addr p.addr (clearTree plat thread)).toList,
      Fate plat f op (cuts plat s.world.log) (cuts plat w'.log) q := by
  intro q hq
  have hbears : ∀ e ∈ clearEvents plat thread p (clearLog plat thread
      (f.childrenAt Pool.addr p.addr)), e.bears q.addr = true → e = .cleared q.addr :=
    clearEvents_bears clearLog_bears
  have hafter : cuts plat (s.world.log ++ _) q.addr = _ := cuts_cleared hbears
  rw [← hlog] at hafter
  obtain ⟨rest, hold, -, hnew⟩ := Forest.split_at h.nodup hp
  have hnew := hnew (clearTree plat thread)
  by_cases hin : .cleared q.addr ∈ clearEvents plat thread p (clearLog plat thread
      (f.childrenAt Pool.addr p.addr))
  · -- the log says that it has been cleared
    rw [if_pos hin] at hafter
    obtain ⟨r, hr, heq, hclear⟩ := clearTree_logged clearForest_logged hin
    have hr' : r.clear ∈ (f.splice Pool.addr p.addr (clearTree plat thread)).toList := by
      rw [hnew.mem_iff, ← List.cons_append]
      exact List.mem_append_left _ hclear
    obtain rfl := List.inj_on_of_nodup_map hnd hq hr' heq.symm
    refine .cleared r (hold.mem_iff.mpr ?_) hafter
    rw [← List.cons_append]
    exact List.mem_append_left _ hr
  · -- the clear has not come to it
    rw [if_neg hin] at hafter
    refine .kept (hold.mem_iff.mpr ?_) hafter
    have hq := hnew.mem_iff.mp hq
    rw [← List.cons_append, List.mem_append] at hq ⊢
    refine hq.imp_left fun hq => (clearTree_fates clearForest_fates hq).resolve_right ?_
    rintro ⟨r, -, rfl, hcleared⟩
    exact hin hcleared

/-- **Every call, to every pool of the family after it.** -/
theorem step_fate (h : Inv plat s f) (h' : Inv plat s' f') (hclean : s.Clean plat op)
    (hs : Step plat s f op s' f') : ∀ p' ∈ f'.toList,
      Fate plat f op (cuts plat s.world.log) (cuts plat s'.world.log) p' := by
  cases hs with
  | createFailed thread size parent w' evs hevs hlog =>
    intro p hp
    refine .kept hp ?_
    show cuts plat w'.log _ = _
    rw [hlog, cuts_append hevs.bears]
  | createRoot thread size a w' hgrant hindex hlog =>
    -- the new pool comes first, and the others are as they were
    refine made_fate h' hlog hindex List.mem_cons_self fun p' hp' => ?_
    refine (List.mem_cons.mp hp').imp_right fun hp' => ⟨p', ?_, SameShelf.refl p'⟩
    simpa using hp'
  | createChild thread size a q w' hq hgrant hindex hlog =>
    -- of the parent only the link to its first child changes
    obtain ⟨rest, hold, -, hnew⟩ := Forest.split_at h.nodup hq
    have hnew := hnew fun q cs => (q.withLinks q.parent q.brother (a + sizeofMemnode),
      .node (madePool plat thread size a (some q)) .nil cs)
    refine made_fate h' hlog hindex (q := some q) (hnew.mem_iff.mpr (by simp)) fun p' hp' => ?_
    have hin := hnew.mem_iff.mp hp'
    simp only [Forest.toList_node, Forest.toList_nil, List.nil_append, List.cons_append,
      List.mem_cons] at hin
    rcases hin with rfl | rfl | hin
    · exact Or.inr ⟨q, hq, SameShelf.of_core rfl⟩
    · exact Or.inl rfl
    · exact Or.inr ⟨p', hold.mem_iff.mpr (List.mem_cons_of_mem _ hin), SameShelf.refl p'⟩
  | addChild p q w' hp hq hne hout hlog =>
    -- links change, and nothing is cut off
    intro p' hp'
    obtain ⟨rest, hold, hnew⟩ := Forest.graft_perm (g := linkPools) h.nodup
      (Forest.roots_subset hp) hq hne hout
    have hcuts : cuts plat w'.log = cuts plat s.world.log := by rw [hlog]
    rcases List.mem_cons.mp (hnew.mem_iff.mp hp') with rfl | hin
    · exact .changed p _ (Forest.roots_subset hp) (.none (SameShelf.of_core rfl)
        (congrFun hcuts _))
    · rcases List.mem_cons.mp hin with rfl | hin
      · exact .changed q _ hq (.none (SameShelf.of_core rfl) (congrFun hcuts _))
      · exact .kept (hold.mem_iff.mpr (List.mem_cons_of_mem _ (List.mem_cons_of_mem _ hin)))
          (congrFun hcuts _)
  | palloc thread size r p p' w' hp halloc =>
    obtain ⟨evs, hlog, hothers, hcut⟩ := allocating_cut (h.pools.pool p hp) hclean.1 halloc
    exact replace_fate h hp hlog rfl hothers hcut
  | pcalloc thread size r p p' w' hp halloc =>
    obtain ⟨evs, hlog, hothers, hcut⟩ := allocating_cut (h.pools.pool p hp) hclean.1 halloc
    refine replace_fate h hp ?_ rfl hothers hcut
    rw [← hlog, handOut_log, handOut_log, clearBlock]
    split <;> rfl
  | add thread data handler p p' w' hp hadd =>
    obtain ⟨evs, hlog, hothers, hcut⟩ := adding_cut s.world.log none
      (h.pools.pool p hp) hadd
    exact replace_fate h hp hlog rfl hothers hcut
  | run thread data handler p p' w' hp htake =>
    exact taking_fate h hp rfl (fun r _ => bears_call r) htake
  | remove thread data handler p p' w' hp htake =>
    exact taking_fate h hp rfl (fun _ _ e he => by cases he) htake
  | clear thread p w' hp hlog => exact clear_fate h h'.nodup hp hlog
  | destroy thread p w' hp howned hlog =>
    intro q hq
    obtain ⟨rest, hold, hrest, -⟩ := Forest.split_at h.nodup (Forest.roots_subset hp)
    refine .kept (hold.mem_iff.mpr ?_) ?_
    · exact List.mem_cons_of_mem _ (List.mem_append_right _ (hrest.mem_iff.mp hq))
    · show cuts plat w'.log _ = _
      rw [hlog, cuts_append (destroyEvents_bears destroyLog_bears)]
  | write addr value => exact fun p hp => .kept hp rfl

end Fates

end Spr.MemPool
