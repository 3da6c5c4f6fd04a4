import Spr.MemPool.Blocks

/-! # The contents of blocks

    An allocation leaves alone what callers keep in the blocks they hold.

    * `Steady`: events that end the life of no block.
    * `Inv.palloc_keeps`: no word of a block that is held changes.
    * `noteBlock`, `Inv.pcalloc_keeps`: the block of `spr_pcalloc` is zero, and
      the other blocks are as they were. -/

namespace Spr.MemPool

open Spr.Words Spr.Forests

/-! ## Section 1: Blocks that stay -/

/-- The events leave the blocks that are held as they are. -/
def Steady (evs : List Event) : Prop := ∀ e ∈ evs, ∀ bs, heldStep bs e = bs

theorem Steady.append {evs evs' : List Event} (h : Steady evs) (h' : Steady evs') :
    Steady (evs ++ evs') := by
  intro e he
  rcases List.mem_append.mp he with he | he
  · exact h e he
  · exact h' e he

theorem Steady.cons {e : Event} {evs : List Event} (he : ∀ bs, heldStep bs e = bs)
    (h : Steady evs) : Steady (e :: evs) := by
  intro e' he'
  rcases List.mem_cons.mp he' with rfl | he'
  · exact he
  · exact h e' he'

/-- Nothing is dropped by steady events. -/
theorem Steady.held {evs : List Event} (h : Steady evs) (log : List Event) :
    heldBlocks (log ++ evs) = heldBlocks log := by
  have hall : ∀ bs, evs.foldl heldStep bs = bs := by
    intro bs
    induction evs with
    | nil => rfl
    | cons e evs ih =>
      rw [List.foldl_cons, h e List.mem_cons_self]
      exact ih fun e' he' => h e' (List.mem_cons_of_mem _ he')
  rw [heldBlocks, List.foldl_append]
  exact hall _

section Steady

variable {plat : Platform} {thread : Nat} {w w' : World} {p p' : Pool}

theorem steady_lock (plat : Platform) (thread : Nat) (p : Pool) :
    Steady (lockEvents plat thread p) :=
  forall_lockEvents fun _ => rfl

theorem steady_unlock (plat : Platform) (thread : Nat) (p : Pool) :
    Steady (unlockEvents plat thread p) :=
  forall_unlockEvents fun _ => rfl

theorem carving_steady {k size index r : Nat} (hc : Carving plat thread w p k size index r p' w') :
    ∃ evs, w'.log = w.log ++ evs ∧ Steady evs := by
  have hlock := steady_lock plat thread p
  have hunlock := steady_unlock plat thread p
  cases hc with
  | refused _ hfit hmem hlive hlog => exact ⟨_, hlog, hlock.append (hunlock.cons fun _ => rfl)⟩
  | fit _ n hfit hlive hlog => exact ⟨_, hlog, hlock.append hunlock⟩
  | fresh _ a hfit hgrant hlive hlog =>
    exact ⟨_, hlog,
      hlock.append (((hunlock.cons fun _ => rfl).cons fun _ => rfl).cons fun _ => rfl)⟩

theorem adding_steady {data handler : Nat} (ha : Adding plat thread w p data handler p' w') :
    ∃ evs, w'.log = w.log ++ evs ∧ Steady evs := by
  have hlock := steady_lock plat thread p
  have hunlock := steady_unlock plat thread p
  cases ha with
  | recycled _ a fs hfrees hlive hlog => exact ⟨_, hlog, hlock.append hunlock⟩
  | carved _ w₁ a p₁ hfrees ha hcarve hlive hlog =>
    obtain ⟨evs, hlog₁, hsteady⟩ := carving_steady hcarve
    refine ⟨lockEvents plat thread p ++ evs ++ .record p.addr a :: unlockEvents plat thread p, ?_,
      (hlock.append hsteady).append (hunlock.cons fun _ => rfl)⟩
    simp [hlog, hlog₁]

/-- **An allocation ends the life of no block.** -/
theorem allocating_steady {size r : Nat} (ha : Allocating plat thread w p size r p' w') :
    ∃ evs, w'.log = w.log ++ evs ∧ Steady evs := by
  have hunlock := steady_unlock plat thread p
  cases ha with
  | rejected halign => exact ⟨_, rfl, hunlock⟩
  | slots _ _ _ halign hindex hcarve => exact carving_steady hcarve
  | refused halign hindex => exact ⟨_, by simp; rfl, hunlock.cons fun _ => rfl⟩
  | oversize a p' w₁ halign hindex hgrant hadd =>
    obtain ⟨evs, hlog, hsteady⟩ := adding_steady hadd
    refine ⟨.obtained r (sprAlignAllocation size) :: (evs ++ unlockEvents plat thread p), ?_,
      (hsteady.append hunlock).cons fun _ => rfl⟩
    simp [hlog]

end Steady

/-! ## Section 2: Words that stay -/

section Keeps

variable {plat : Platform} {s : Session} {f : Forest Pool} {thread pool size r : Nat} {w' : World}

/-- The words of the blocks that are held are as they were. -/
def KeepsBlocks (w w' : World) : Prop :=
  ∀ b ∈ heldBlocks w.log, ∀ a, b.span.Covers a → w'.mem a = w.mem a

/-- **An allocation changes no word of a block that is held.** -/
theorem Inv.palloc_keeps (h : Inv plat s f) (hpool : pool ∈ s.addrs) (hfits : SizeFits plat size)
    (hclean : CleanAlloc plat s.world pool size)
    (hrun : sprPalloc plat thread pool size s.world = .ok r w') :
    heldBlocks w'.log = heldBlocks s.world.log ∧ KeepsBlocks s.world w' := by
  obtain ⟨p, hp, rfl, p', halloc, hframe, hinv, -⟩ := h.palloc hpool hfits hclean hrun
  obtain ⟨evs, hlog, hsteady⟩ := allocating_steady halloc
  have hheld : heldBlocks w'.log = heldBlocks s.world.log := hlog ▸ hsteady.held _
  refine ⟨hheld, fun b hb a ha => hframe a fun hown => ?_⟩
  have hin : b ∈ heldBlocks (handOut p.addr r size w').log := by
    unfold handOut
    split
    · rwa [hheld]
    · rw [emit_log, heldBlocks_handed, hheld]
      exact List.mem_cons_of_mem _ hb
  obtain ⟨hheader, hfields, hrecords⟩ :=
    (hinv.blocks.place b hin).apart_own hinv.pools (h.mem_replace hp p')
  rcases hown with hc | ⟨n, hn, hc⟩ | ⟨a', ha', hc⟩
  · exact hheader.not_covers hc ha
  · exact (hfields n hn).not_covers hc ha
  · exact (hrecords a' ha').not_covers hc ha

/-- `spr_pcalloc(pool, size)`, and the block is noted. -/
def pcallocNoted (plat : Platform) (thread pool size : Nat) : Act Nat := do
  let r ← sprPcalloc plat thread pool size
  modify (handOut pool r size)
  pure r

theorem exec_pcalloc (h : pcallocNoted plat thread pool size s.world = .ok r w') :
    s.exec plat (.pcalloc thread pool size) = some ⟨w', s.family⟩ := by
  unfold pcallocNoted at h
  cases hrun : sprPcalloc plat thread pool size s.world with
  | error e w₁ => simp [hrun] at h
  | ok r' w₁ =>
    simp only [bind_run, hrun, modify_run, pure_run, EStateM.Result.ok.injEq] at h
    obtain ⟨rfl, rfl⟩ := h
    simp [Session.exec, hrun, returned]

/-- **`spr_pcalloc` gives a block of zeros**, apart from all blocks that are held, and
    these are as they were. -/
theorem Inv.pcalloc_keeps (h : Inv plat s f) (hop : s.Plain plat (.pcalloc thread pool size))
    (hrun : pcallocNoted plat thread pool size s.world = .ok r w') :
    KeepsBlocks s.world w' ∧
      (r ≠ 0 → heldBlocks w'.log = ⟨pool, r, size⟩ :: heldBlocks s.world.log ∧
        ∀ a, r ≤ a → a + 8 ≤ r + size → w'.mem a = 0) := by
  obtain ⟨hpool, ⟨hfits, hclean⟩, -⟩ := hop
  cases hpalloc : sprPalloc plat thread pool size s.world with
  | error e w₁ => simp [pcallocNoted, sprPcalloc, hpalloc] at hrun
  | ok r' w₁ =>
    obtain ⟨p, -, -, p', -, -, hinv, hnew⟩ := h.palloc hpool hfits hclean hpalloc
    obtain ⟨hheld, hkeeps⟩ := h.palloc_keeps hpool hfits hclean hpalloc
    by_cases hr : r' = 0
    · simp [pcallocNoted, sprPcalloc, hpalloc, hr, handOut] at hrun
      obtain ⟨rfl, rfl⟩ := hrun
      exact ⟨hkeeps, fun hne => absurd rfl hne⟩
    · obtain ⟨-, halign⟩ := hnew hr
      simp [pcallocNoted, sprPcalloc, hpalloc, hr, handOut] at hrun
      obtain ⟨rfl, rfl⟩ := hrun
      have hpair := hinv.blocks.apart
      rw [handOut, if_neg hr, emit_log, heldBlocks_handed, hheld] at hpair
      refine ⟨fun b hb a ha => ?_, fun _ => ⟨?_, fun a h₁ h₂ => zeroed_of_within h₁ h₂⟩⟩
      · have hdis := (List.pairwise_cons.mp hpair).1 b hb
        have hle := (sprAlignAllocation_bounds halign).1
        refine (zeroed_of_not_covers fun hc => hdis.not_covers (a := a) ?_ ha).trans
          (hkeeps b hb a ha)
        simp only [Span.Covers, Block.span] at hc ⊢
        omega
      · rw [emit_log, heldBlocks_handed, hheld]

end Keeps

end Spr.MemPool
