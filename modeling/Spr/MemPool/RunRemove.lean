import Spr.MemPool.Alloc

/-! # `spr_pool_cleanup_run1` and `spr_pool_cleanup_remove1`

    Both look for the newest registration of a handler for some data, take its
    record off the list and reserve it.  They differ in one call.

    * `Taking`: what they do; `TakingFrom`: from some record of the list on.
    * `cleanupBody_from`: the common part.
    * `sprPoolCleanupRun1_cases`, `sprPoolCleanupRemove1_cases`. -/

namespace Spr.MemPool

open Spr.Words Spr.Chains

/-- What is done with the match: what it logs, and what it leaves of the regions
    given out. -/
structure Use where
  events : Record → List Event
  after  : List Span → Record → List Span

/-- `run1` calls the handler. -/
def useRun (plat : Platform) : Use := ⟨callEvents plat, liveAfter plat⟩

/-- `remove1` does not. -/
def useRemove : Use := ⟨fun _ => [], fun live _ => live⟩

/-- What the two functions do to the pool `p`.  A record that is not there leaves
    the mutex locked. -/
inductive Taking (plat : Platform) (thread : Nat) (use : Use) (w : World) (p : Pool)
    (data handler : Nat) : Pool → World → Prop where
  | absent (hno : ∀ r ∈ p.cleanups, ¬ r.Matches data handler) :
      Taking plat thread use w p data handler p (w.emits (lockEvents plat thread p))
  | found (rs rs' : List Record) (r : Record) (w' : World) (hsplit : p.cleanups = rs ++ r :: rs')
      (hmatch : r.Matches data handler) (hfirst : ∀ s ∈ rs, ¬ s.Matches data handler)
      (hlive : w'.live = use.after w.live r)
      (hlog : w'.log
        = w.log ++ (lockEvents plat thread p ++ use.events r ++ unlockEvents plat thread p)) :
      Taking plat thread use w p data handler
        (p.withRecords (rs ++ rs') (r.addr :: p.frees)) w'

/-- What they do when the search starts at the records `seen`, behind `pre`. -/
inductive TakingFrom (plat : Platform) (thread : Nat) (use : Use) (w : World) (p : Pool)
    (pre seen : List Record) (data handler : Nat) : Pool → World → Prop where
  | absent (hno : ∀ r ∈ seen, ¬ r.Matches data handler) :
      TakingFrom plat thread use w p pre seen data handler p (w.emits (lockEvents plat thread p))
  | found (rs rs' : List Record) (r : Record) (w' : World) (hsplit : seen = rs ++ r :: rs')
      (hmatch : r.Matches data handler) (hfirst : ∀ s ∈ rs, ¬ s.Matches data handler)
      (hlive : w'.live = use.after w.live r)
      (hlog : w'.log
        = w.log ++ (lockEvents plat thread p ++ use.events r ++ unlockEvents plat thread p)) :
      TakingFrom plat thread use w p pre seen data handler
        (p.withRecords (pre ++ (rs ++ rs')) (r.addr :: p.frees)) w'

theorem TakingFrom.taking {plat : Platform} {thread data handler : Nat} {use : Use} {w w' : World}
    {p p' : Pool} (h : TakingFrom plat thread use w p [] p.cleanups data handler p' w') :
    Taking plat thread use w p data handler p' w' := by
  cases h with
  | absent hno => exact .absent hno
  | found rs rs' r _ hsplit hmatch hfirst hlive hlog =>
    exact .found rs rs' r _ hsplit hmatch hfirst hlive hlog

theorem Taking.from {plat : Platform} {thread data handler : Nat} {use : Use} {w w' : World}
    {p p' : Pool} (h : Taking plat thread use w p data handler p' w') :
    TakingFrom plat thread use w p [] p.cleanups data handler p' w' := by
  cases h with
  | absent hno => exact .absent hno
  | found rs rs' r _ hsplit hmatch hfirst hlive hlog =>
    exact .found rs rs' r _ hsplit hmatch hfirst hlive hlog

/-- The step on the match does what `use` says and touches no memory. -/
def Uses (plat : Platform) (found : Nat → Act Unit) (use : Use) (p : Pool) : Prop :=
  ∀ w r, PoolAt plat w p → r ∈ p.cleanups →
    ∃ w', found r.addr w = .ok () w' ∧ PoolAt plat w' p ∧ w'.mem = w.mem ∧
      w'.live = use.after w.live r ∧ w'.log = w.log ++ use.events r

theorem uses_run {plat : Platform} {p : Pool} (hkeep : KeepsNodes plat p p.cleanups) :
    Uses plat (runRecord plat) (useRun plat) p := by
  intro w r h hr
  obtain ⟨hd, hh⟩ := h.rep.records.record r hr
  refine ⟨w.ran plat r, runRecord_run hd hh, h.ran fun s hs => hkeep s ?_, rfl, rfl, rfl⟩
  rw [List.mem_singleton.mp hs]
  exact hr

theorem uses_remove (plat : Platform) (p : Pool) : Uses plat (fun _ => pure ()) useRemove p :=
  fun w r h _ => ⟨w, rfl, h, rfl, rfl, by simp [useRemove]⟩

/-- The record before one that is not the first. -/
theorem lastAddr_append {pre rs : List Record} (h : rs = [] → pre = []) :
    lastAddr 0 (pre ++ rs) = lastAddr 0 rs := by
  cases rs with
  | nil => rw [h rfl]; rfl
  | cons r rs =>
    rw [lastAddr, lastAddr, List.getLast?_append_of_ne_nil _ (List.cons_ne_nil r rs)]

/-- **The common part**: the first match from the record `start` on goes from the list
    to the reserve.  Where the record itself matches, it has to be the first of the list. -/
theorem cleanupBody_from {plat : Platform} {w : World} {p : Pool} {start : Nat} {use : Use}
    {found : Nat → Act Unit} {pre seen : List Record} (thread data handler : Nat)
    (h : PoolAt plat w p) (hfound : Uses plat found use p) (hseen : p.cleanups = pre ++ seen)
    (hchain : Chain w.mem 0 start (seen.map Record.addr))
    (hhead : ∀ r rs, seen = r :: rs → r.Matches data handler → pre = []) :
    ∃ p' w', cleanupBody plat found thread p.addr data handler start w = .ok () w' ∧
      PoolAt plat w' p' ∧ TakingFrom plat thread use w p pre seen data handler p' w' ∧
      FrameOut w w' p' := by
  have hlock := h.of_eq (v := w.emits (lockEvents plat thread p)) rfl rfl
  rcases findRecord_from h hseen hchain data handler with
    ⟨hno, prev, hsearch⟩ | ⟨rs, r, rs', hsplit, hmatch, hfirst, hne, hsearch⟩
  · refine ⟨p, w.emits (lockEvents plat thread p), ?_, hlock, .absent hno, fun _ _ => rfl⟩
    simp [cleanupBody, lockPool_run h, hsearch]
  · have hall : p.cleanups = (pre ++ rs) ++ r :: rs' := by rw [hseen, hsplit, List.append_assoc]
    have hmem : r ∈ p.cleanups := by rw [hall]; simp
    -- a match that is found first is the first of the list, so its `prev` is right
    have hlast : lastAddr 0 (pre ++ rs) = lastAddr 0 rs := lastAddr_append fun hnil =>
      hhead r rs' (by rw [hsplit, hnil]; rfl) hmatch
    rw [← hlast] at hsearch
    obtain ⟨w₁, hrun₁, hp₁, hmem₁, hlive₁, hlog₁⟩ := hfound _ r hlock hmem
    obtain ⟨x, hrun₂, hp₂, hx⟩ := unlinkRecord_spec hp₁ hall
    have hplaced := h.wf.placed_without _ hall
    obtain ⟨hrun₃, hp₃⟩ := reserveRecord_spec hp₂ (hplaced.of_nodes rfl) hne
    have hunlock := unlockPool_run hp₃ thread
    simp only [withRecords_addr, withRecords_cleanups, withRecords_frees,
      withRecords_withRecords] at hrun₃ hp₃ hunlock
    have hout : p.withRecords (pre ++ rs ++ rs') (r.addr :: p.frees)
        = p.withRecords (pre ++ (rs ++ rs')) (r.addr :: p.frees) := by rw [List.append_assoc]
    refine ⟨p.withRecords (pre ++ (rs ++ rs')) (r.addr :: p.frees),
      World.emits (((w₁.store x (w₁.mem r.addr)).store r.addr
        ((w₁.store x (w₁.mem r.addr)).mem (p.addr + 192))).store (p.addr + 192) r.addr)
        (unlockEvents plat thread p), ?_, hout ▸ hp₃.of_eq rfl rfl,
      .found rs rs' r _ hsplit hmatch hfirst (by simp [hlive₁]) (by simp [hlog₁]),
      hout ▸ frameOut_of_body hp₃ fun b hb h₁ h₂ => ?_⟩
    · simp only [store_mem] at hunlock
      simp [cleanupBody, lockPool_run h, hsearch, hne, hrun₁, hrun₂, hrun₃, hunlock]
      rfl
    · rw [withRecords_addr] at h₁ h₂
      -- the two words of records lie in bodies
      have hbr : b ≠ r.addr := by
        obtain ⟨n, hn, hc⟩ := hplaced.covered (i := 0) List.mem_cons_self (by omega)
        rintro rfl
        exact hb n hn hc
      have hbx : b ≠ x := by
        rintro rfl
        rcases hx with rfl | ⟨n, hn, hc⟩
        · exact h₁ rfl
        · exact hb n hn hc
      simp only [emits_mem, store_mem]
      rw [Function.update_of_ne h₂, Function.update_of_ne hbr, Function.update_of_ne hbx, hmem₁]
      rfl

/-- From the start of the list. -/
theorem cleanupBody_cases {plat : Platform} {w : World} {p : Pool} {thread : Nat} {use : Use}
    {found : Nat → Act Unit} (data handler : Nat) (h : PoolAt plat w p)
    (hfound : Uses plat found use p) :
    ∃ p' w', cleanupBody plat found thread p.addr data handler (w.mem (p.addr + 184)) w
        = .ok () w' ∧ PoolAt plat w' p' ∧ Taking plat thread use w p data handler p' w' ∧
      FrameOut w w' p' := by
  obtain ⟨p', w', hrun, hp', ht, hframe⟩ := cleanupBody_from thread data handler h hfound
    (List.nil_append _).symm h.rep.records.cleanups fun _ _ _ _ => rfl
  exact ⟨p', w', hrun, hp', ht.taking, hframe⟩

/-- **`spr_pool_cleanup_run1`.** -/
theorem sprPoolCleanupRun1_cases {plat : Platform} {w : World} {p : Pool}
    (thread data handler : Nat) (h : PoolAt plat w p) (hkeep : KeepsNodes plat p p.cleanups) :
    ∃ p' w', sprPoolCleanupRun1 plat thread p.addr data handler w = .ok () w' ∧
      PoolAt plat w' p' ∧ Taking plat thread (useRun plat) w p data handler p' w' ∧
      FrameOut w w' p' :=
  cleanupBody_cases data handler h (uses_run hkeep)

/-- **`spr_pool_cleanup_remove1`.** -/
theorem sprPoolCleanupRemove1_cases {plat : Platform} {w : World} {p : Pool}
    (thread data handler : Nat) (h : PoolAt plat w p) :
    ∃ p' w', sprPoolCleanupRemove1 plat thread p.addr data handler w = .ok () w' ∧
      PoolAt plat w' p' ∧ Taking plat thread useRemove w p data handler p' w' ∧
      FrameOut w w' p' :=
  cleanupBody_cases data handler h (uses_remove plat p)

end Spr.MemPool
