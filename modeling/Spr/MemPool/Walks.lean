import Spr.MemPool.Handlers
import Spr.MemPool.Refusals

/-! # Walks with handlers that register cleanups

    * `BlindAt`: a call that neither reads nor writes one word.
    * `Midway`: the pool in the middle of the walk, when the start of its
      cleanups is not what the walk goes by.
    * `Midway.register`, `Midway.serves`: a registration, and all of a handler.
    * `runAllWith_spec`: the walk calls what was pending, and nothing that was
      registered meanwhile. -/

namespace Spr.MemPool

open Spr.Words Spr.Chains

/-! ## Section 1: Calls that are blind to a word -/

/-- The result with the word at `x` set. -/
def stored {α : Type} (x c : Nat) : Result α → Result α
  | .ok a w => .ok a (w.store x c)
  | .error e w => .error e (w.store x c)

/-- From the world `w`, the call neither reads nor writes the word at `x`. -/
def BlindAt {α : Type} (x : Nat) (act : Act α) (w : World) : Prop :=
  ∀ c, act (w.store x c) = stored x c (act w)

section Blind

variable {α β : Type} {x : Nat} {w : World}

theorem BlindAt.bind {act : Act α} {f : α → Act β} (h : BlindAt x act w)
    (hf : ∀ a w', act w = .ok a w' → BlindAt x (f a) w') : BlindAt x (act >>= f) w := by
  intro c
  rw [bind_run, bind_run, h c]
  cases hact : act w with
  | ok a w' => exact hf a w' hact c
  | error e w' => rfl

/-- The word is kept. -/
theorem BlindAt.kept {act : Act α} {a : α} {w' : World} (h : BlindAt x act w)
    (hrun : act w = .ok a w') : w'.mem x = w.mem x := by
  have hsame := h (w.mem x)
  have hself : w.store x (w.mem x) = w := by simp [World.store]
  rw [hself, hrun] at hsame
  injection hsame with _ hw
  have hword := congrArg (fun v : World => v.mem x) hw
  simpa using hword

theorem blindAt_pure (a : α) : BlindAt x (pure a) w := fun _ => rfl

theorem blindAt_emit (e : Event) : BlindAt x (emit e) w := fun _ => rfl

theorem blindAt_load {a : Nat} (h : a ≠ x) : BlindAt x (load a) w := by
  intro c
  simp [stored, Function.update_of_ne h]

theorem blindAt_store {a : Nat} (v : Nat) (h : a ≠ x) : BlindAt x (store a v) w := by
  intro c
  simp [stored, World.store, Function.update_comm h]

theorem blindAt_sysAlloc (size : Nat) : BlindAt x (sysAlloc size) w := by
  intro c
  by_cases h : Grants w.live (w.answers.headD 0) size
  · have hrun : sysAlloc size w = .ok (w.answers.headD 0) (w.obtain _ size) := if_pos h
    rw [hrun]
    exact if_pos h
  · have hrun : sysAlloc size w = .ok 0 (w.refuse size) := if_neg h
    rw [hrun]
    exact if_neg h

/-- Taking the memory in hand is blind when what follows is. -/
theorem BlindAt.get {f : World → Act β}
    (h : ∀ c, f (w.store x c) (w.store x c) = stored x c (f w w)) :
    BlindAt x ((get : Act World) >>= f) w := by
  intro c
  rw [bind_run, bind_run]
  exact h c

end Blind

/-! ### The slot path -/

section SlotPath

variable {plat : Platform} {w : World} {p : Pool} {x k npages index : Nat}

theorem blindAt_sprMemnodeAllocate {size : Nat} (hsize : sizeofMemnode ≤ size)
    (hx : ∀ a, Grants w.live a size → ¬ Span.Covers ⟨a, size⟩ x) :
    BlindAt x (sprMemnodeAllocate size) w := by
  unfold sprMemnodeAllocate
  apply (blindAt_sysAlloc size).bind
  intro a w' hrun
  by_cases hnull : a = 0
  · simp only [if_pos hnull]
    exact blindAt_pure 0
  simp only [if_neg hnull]
  -- what is loaded and stored lies in the region that was granted
  have hout : ∀ i < 48, a + i ≠ x := by
    rcases sysAlloc_cases size w with hno | ⟨b, hg, hyes⟩
    · rw [hno] at hrun
      injection hrun with hz
      exact absurd hz.symm hnull
    · rw [hyes] at hrun
      injection hrun with hb
      subst hb
      intro i hi heq
      refine hx b hg ?_
      simp only [Span.Covers, sizeofMemnode] at hsize ⊢
      omega
  have h₀ : a ≠ x := hout 0 (by omega)
  have h₈ := hout 8 (by omega)
  have h₁₆ := hout 16 (by omega)
  have h₂₄ := hout 24 (by omega)
  have h₃₂ := hout 32 (by omega)
  have h₄₀ := hout 40 (by omega)
  apply (blindAt_store _ h₀).bind
  intro _ _ _
  apply (blindAt_store _ h₈).bind
  intro _ _ _
  apply (blindAt_load h₈).bind
  intro _ _ _
  apply (blindAt_store _ h₁₆).bind
  intro _ _ _
  apply (blindAt_store _ h₂₄).bind
  intro _ _ _
  apply (blindAt_load h₂₄).bind
  intro _ _ _
  apply (blindAt_store _ h₃₂).bind
  intro _ _ _
  apply (blindAt_store _ h₄₀).bind
  intro _ _ _
  apply (blindAt_emit _).bind
  intro _ _ _
  exact blindAt_pure a

theorem blindAt_carve {node : Nat} (h₁₆ : node + 16 ≠ x) (h₃₂ : node + 32 ≠ x) :
    BlindAt x (carve node k) w := by
  unfold carve
  apply (blindAt_load h₃₂).bind
  intro _ _ _
  apply (blindAt_store _ h₃₂).bind
  intro _ _ _
  apply (blindAt_load h₁₆).bind
  intro _ _ _
  apply (blindAt_load h₁₆).bind
  intro _ _ _
  apply (blindAt_store _ h₁₆).bind
  intro _ _ _
  exact blindAt_pure _

theorem blindAt_lockPool {thread pool : Nat} (h : pool + 200 ≠ x) :
    BlindAt x (lockPool plat thread pool) w := by
  unfold lockPool
  by_cases hs : plat.threadSafety = true
  · simp only [if_pos hs]
    apply (blindAt_load h).bind
    intro _ _ _
    exact blindAt_emit _
  · simp only [if_neg hs]
    exact blindAt_pure ()

theorem blindAt_unlockPool {thread pool : Nat} (h : pool + 200 ≠ x) :
    BlindAt x (unlockPool plat thread pool) w := by
  unfold unlockPool
  by_cases hs : plat.threadSafety = true
  · simp only [if_pos hs]
    apply (blindAt_load h).bind
    intro _ _ _
    exact blindAt_emit _
  · simp only [if_neg hs]
    exact blindAt_pure ()

/-- A word of the header is none of the words of a region that is granted. -/
theorem PoolAt.header_out (h : PoolAt plat w p) {j : Nat} (hj : j < sizeofPool plat) {a size : Nat}
    (hg : Grants w.live a size) : ¬ Span.Covers ⟨a, size⟩ (p.addr + j) := by
  obtain ⟨home, hhome, haddr, hend⟩ := h.wf.home
  have hupper := (h.wf.node home hhome).upper
  have hapart := h.granted_apart hg hhome
  refine hapart.symm.not_covers ?_
  simp only [Span.Covers, Memnode.region]
  omega

theorem blindAt_newMemnode (h : PoolAt plat w p) (hindex : index ≤ sprMaxPoolSlot)
    (hsize : sizeofMemnode ≤ mul npages plat.pageSize) {j : Nat} (hlow : 160 < j)
    (hj : j < sizeofPool plat) :
    BlindAt (p.addr + j) (newMemnode plat p.addr npages index) w := by
  have hi : index ≤ 20 := hindex
  unfold newMemnode
  apply (blindAt_sprMemnodeAllocate hsize fun a hg => h.header_out hj hg).bind
  intro node w' hrun
  by_cases hnull : node = 0
  · simp only [if_pos hnull]
    exact blindAt_pure 0
  simp only [if_neg hnull]
  -- the new memnode lies off the header
  have hne : node ≠ p.addr + j := by
    rcases sprMemnodeAllocate_cases hsize w with hno | ⟨a, w₁, hg, hyes, -⟩
    · rw [hno] at hrun
      injection hrun with hz
      exact absurd hz.symm hnull
    · rw [hyes] at hrun
      injection hrun with ha
      subst ha
      rintro rfl
      refine h.header_out hj hg ⟨Nat.le_refl _, Nat.lt_add_of_pos_right ?_⟩
      show 0 < mul npages plat.pageSize
      simp only [sizeofMemnode] at hsize
      omega
  have hslot : p.addr + 8 * index ≠ p.addr + j := by omega
  apply (blindAt_load hslot).bind
  intro _ _ _
  apply (blindAt_store _ hslot).bind
  intro _ _ _
  apply (blindAt_store _ hne).bind
  intro _ _ _
  apply (blindAt_emit _).bind
  intro _ _ _
  exact blindAt_pure node

/-- The fields of a new memnode are none of the words of the header. -/
theorem PoolAt.newMemnode_out (h : PoolAt plat w p)
    (hsize : sizeofMemnode ≤ mul npages plat.pageSize) {j : Nat} (hj : j < sizeofPool plat)
    {node : Nat} {w' : World}
    (hrun : newMemnode plat p.addr npages index w = .ok node w') (hne : node ≠ 0) :
    node + 16 ≠ p.addr + j ∧ node + 32 ≠ p.addr + j := by
  have hout : ∀ a, Grants w.live a (mul npages plat.pageSize) → a + 16 ≠ p.addr + j ∧
      a + 32 ≠ p.addr + j := by
    intro a hg
    have hnot := h.header_out hj hg
    simp only [Span.Covers, sizeofMemnode] at hnot hsize
    omega
  rcases sprMemnodeAllocate_cases hsize w with hno | ⟨a, w₁, hg, hyes, -⟩
  · simp only [newMemnode, bind_run, hno, if_true, pure_run] at hrun
    injection hrun with hz
    exact absurd hz.symm hne
  · simp only [newMemnode, bind_run, hyes, if_neg hg.1, load_run, store_run, emit_run, pure_run]
      at hrun
    injection hrun with ha
    subst ha
    exact hout a hg

/-- The memnodes of a pool do not depend on the start of its cleanups. -/
theorem PoolAt.nodes_store (h : PoolAt plat w p) (c : Nat) :
    NodesRep (w.store (p.addr + 184) c).mem p := by
  refine h.rep.nodes.congr (fun i hi => ?_) fun n hn b hb => ?_
  · have hi' : i < 20 := hi
    exact Function.update_of_ne (by omega) _ _
  · have hapart := h.header_fields hn
    have hlow := le_sizeofPool plat
    refine Function.update_of_ne ?_ _ _
    rintro rfl
    simp only [Span.Disjoint, Span.Covers, Pool.headerSpan] at hapart hb
    omega

/-- The end of the slot path, given the memnode. -/
def cutBlock (plat : Platform) (thread pool k node : Nat) : Act Nat := do
  if node = 0 then do
    unlockPool plat thread pool
    pure 0
  else do
    let mem ← carve node k
    unlockPool plat thread pool
    pure mem

theorem blindAt_cutBlock {thread node pool : Nat}
    (hout : node ≠ 0 → node + 16 ≠ pool + 184 ∧ node + 32 ≠ pool + 184) :
    BlindAt (pool + 184) (cutBlock plat thread pool k node) w := by
  unfold cutBlock
  by_cases hnull : node = 0
  · simp only [if_pos hnull]
    apply (blindAt_unlockPool (by omega)).bind
    intro _ _ _
    exact blindAt_pure 0
  · simp only [if_neg hnull]
    apply (blindAt_carve (hout hnull).1 (hout hnull).2).bind
    intro _ _ _
    apply (blindAt_unlockPool (by omega)).bind
    intro _ _ _
    exact blindAt_pure _

/-- **The slot path does not look at the cleanups.** -/
theorem blindAt_pallocSlots (thread : Nat) (h : PoolAt plat w p) (hindex : index ≤ sprMaxPoolSlot)
    (hsize : sizeofMemnode ≤ mul npages plat.pageSize) :
    BlindAt (p.addr + 184) (pallocSlots plat thread p.addr k npages index) w := by
  have hi : index ≤ 20 := hindex
  have hlow := le_sizeofPool plat
  unfold pallocSlots
  apply (blindAt_lockPool (by omega)).bind
  intro _ w₁ hlock
  rw [lockPool_run h thread] at hlock
  injection hlock with _ hw₁
  have h₁ : PoolAt plat w₁ p := h.of_eq (by rw [← hw₁]; rfl) (by rw [← hw₁]; rfl)
  apply BlindAt.get
  intro c
  -- the search goes by slots and memnodes
  have hnodes := h₁.nodes_store c
  have hfind : ∀ mem : Mem, NodesRep mem p →
      searchSlots mem p.addr k index (sprMaxPoolSlot - index)
        = some (addrOf (firstFit k (p.fromSlot index))) := fun mem hm =>
    searchSlots_rep h₁ hm k (by omega)
  rw [hfind _ h₁.rep.nodes, hfind _ hnodes]
  have hfound : addrOf (firstFit k (p.fromSlot index)) ≠ 0 →
      addrOf (firstFit k (p.fromSlot index)) + 16 ≠ p.addr + 184 ∧
        addrOf (firstFit k (p.fromSlot index)) + 32 ≠ p.addr + 184 := by
    cases hfit : firstFit k (p.fromSlot index) with
    | none => exact fun hne => absurd rfl hne
    | some n =>
      intro _
      have hapart := h₁.header_fields (Pool.fromSlot_nodes (firstFit_some hfit).1)
      have hlow := le_sizeofPool plat
      simp only [Span.Disjoint, Pool.headerSpan, sizeofMemnode, addrOf, Option.elim_some]
        at hapart ⊢
      omega
  generalize addrOf (firstFit k (p.fromSlot index)) = found at hfound
  by_cases hf : found = 0
  · have hnew : BlindAt (p.addr + 184) (newMemnode plat p.addr npages index >>=
        cutBlock plat thread p.addr k) w₁ :=
      (blindAt_newMemnode h₁ hindex hsize (by omega) (by omega)).bind fun node w₂ hrun =>
        blindAt_cutBlock fun hne => h₁.newMemnode_out hsize (by omega) hrun hne
    rw [hf]
    exact hnew c
  · have hcut : BlindAt (p.addr + 184) (cutBlock plat thread p.addr k found) w₁ :=
      blindAt_cutBlock hfound
    simp only [if_pos hf]
    exact hcut c

end SlotPath

/-! ## Section 2: In the middle of the walk -/

/-- **The pool in the middle of the walk**: the word that starts its cleanups has any
    value; with `start` there, the pool would be in place, and so are the others. -/
def Midway (plat : Platform) (w : World) (start : Nat) (p : Pool) (rest : List Pool) : Prop :=
  PoolsAt plat (w.store (p.addr + 184) start) (p :: rest)

/-- What handlers leave of a pool: its links and its cleanups, and no more in reserve. -/
structure Stays (p p' : Pool) : Prop where
  addr     : p'.addr = p.addr
  owner    : p'.owner = p.owner
  mutex    : p'.mutex = p.mutex
  child    : p'.child = p.child
  brother  : p'.brother = p.brother
  cleanups : p'.cleanups = p.cleanups
  frees    : ∀ a ∈ p'.frees, a ∈ p.frees

theorem Stays.refl (p : Pool) : Stays p p := ⟨rfl, rfl, rfl, rfl, rfl, rfl, fun _ h => h⟩

theorem Stays.trans {p q r : Pool} (h : Stays p q) (h' : Stays q r) : Stays p r :=
  ⟨h'.addr.trans h.addr, h'.owner.trans h.owner, h'.mutex.trans h.mutex, h'.child.trans h.child,
    h'.brother.trans h.brother, h'.cleanups.trans h.cleanups, fun a ha => h.frees a (h'.frees a ha)⟩

theorem Stays.listed {p q : Pool} (h : Stays p q) {a : Nat} (ha : a ∈ q.listed) : a ∈ p.listed := by
  rw [Pool.listed, h.cleanups] at ha
  exact (List.mem_append.mp ha).elim (List.mem_append_left _)
    fun ha => List.mem_append_right _ (h.frees a ha)

section Registering

variable {plat : Platform} {thread : Nat} {w w' : World} {p : Pool} {rest : List Pool}
  {start data handler : Nat}

/-- What linking a record writes: its own words, and the start of the cleanups. -/
theorem linkRecord_run (node pool data handler : Nat) (w : World) :
    ∃ w', linkRecord pool node data handler w = .ok () w' ∧ w'.live = w.live ∧
      ∀ b, ¬ (recordSpan node).Covers b → b ≠ pool + 184 → w'.mem b = w.mem b := by
  refine ⟨_, rfl, rfl, fun b hb hne => ?_⟩
  simp only [Span.Covers, recordSpan, sizeofCleanupNode] at hb
  have h₀ : b ≠ node := by omega
  have h₈ : b ≠ node + 8 := by omega
  have h₁₆ : b ≠ node + 16 := by omega
  simp [Function.update_of_ne hne, Function.update_of_ne h₀, Function.update_of_ne h₈,
    Function.update_of_ne h₁₆]

/-- A pool stays in place when a record is written that is none of its lists. -/
theorem PoolAt.scribbled {a : Nat} {v v' : World} (h : PoolAt plat v p)
    (hplaced : Placed p (a :: p.listed)) (hlive : v'.live = v.live)
    (hmem : ∀ b, ¬ (recordSpan a).Covers b → v'.mem b = v.mem b) : PoolAt plat v' p := by
  have hlow := le_sizeofPool plat
  have hself : a ∈ a :: p.listed := List.mem_cons_self
  have hfresh : a ∉ p.listed := (List.nodup_cons.mp hplaced.nodup).1
  -- only words of the record are written
  have hout : ∀ b, (∀ i < 24, a + i ≠ b) → v'.mem b = v.mem b := by
    intro b hb
    refine hmem b fun hc => ?_
    simp only [Span.Covers, recordSpan, sizeofCleanupNode] at hc
    exact hb (b - a) (by omega) (by omega)
  have hheader : ∀ j < sizeofPool plat, v'.mem (p.addr + j) = v.mem (p.addr + j) := fun j hj =>
    hout _ fun i hi => h.record_word hplaced hself hi hj
  have hrecords : ∀ r ∈ p.listed, ∀ b, (recordSpan r).Covers b → v'.mem b = v.mem b := by
    intro r hr b hb
    refine hout b fun i hi heq => ?_
    simp only [Span.Covers, recordSpan, sizeofCleanupNode] at hb
    have hword := hplaced.words hself (List.mem_cons_of_mem _ hr)
      (ne_of_mem_of_not_mem hr hfresh).symm hi (show b - r < 24 by omega)
    omega
  have hfields : ∀ n ∈ p.nodes, ∀ b, Span.Covers ⟨n.addr, sizeofMemnode⟩ b →
      v'.mem b = v.mem b := by
    intro n hn b hb
    obtain ⟨-, m, hm, hin⟩ := hplaced.inBody a hself
    exact hmem b fun hc => (h.fields_body hn hm hin).not_covers hb hc
  refine ⟨h.rep.congr (fun b hb => ?_) hfields hrecords, h.wf, fun n hn => hlive ▸ h.held n hn,
    hlive ▸ h.live⟩
  simp only [Span.Covers, Pool.headerSpan] at hb
  have := hheader (b - p.addr) (by omega)
  rwa [Nat.add_sub_cancel' hb.1] at this

/-- **A record is linked** whose memory the pool `q` has spare: the pool is still in the
    middle of the walk. -/
theorem Midway.linked {q : Pool} {u : World} {a : Nat} (h : Midway plat w start p rest)
    (hq : PoolAt plat u q) (hstays : Stays p q) (hplaced : Placed q (a :: q.listed))
    (hgrow : Grows (w.store (p.addr + 184) start) u p q)
    (hframe : FrameOut (w.store (p.addr + 184) start) u q) (hstart : u.mem (p.addr + 184) = start)
    (hlive : w'.live = u.live)
    (hmem : ∀ b, ¬ (recordSpan a).Covers b → b ≠ p.addr + 184 → w'.mem b = u.mem b) :
    Midway plat w' start q rest := by
  have hword : ∀ b, ¬ (recordSpan a).Covers b →
      (w'.store (p.addr + 184) start).mem b = u.mem b := by
    intro b hb
    by_cases hx : b = p.addr + 184
    · rw [hx, store_mem, Function.update_self, hstart]
    · rw [store_mem, Function.update_of_ne hx]
      exact hmem b hb hx
  have hplace : PoolAt plat (w'.store (p.addr + 184) start) q := hq.scribbled hplaced hlive hword
  have hfreed : q.freed plat = p.freed plat := by rw [Pool.freed, hstays.cleanups, Pool.freed]
  have hmoves : Moves plat (w.store (p.addr + 184) start) (w'.store (p.addr + 184) start) p q := by
    refine Grows.moves ⟨hgrow.nodes, fun s hs => ?_⟩ hplace (fun b hb => ?_)
      (h.registered List.mem_cons_self) (Or.inl hfreed)
    · exact hlive ▸ hgrow.live s hs
    · rw [hword b fun hc => ?_]
      · exact hframe b hb
      · obtain ⟨-, n, hn, hin⟩ := hplaced.inBody a List.mem_cons_self
        exact hb n hn ((hin.trans (hq.wf.node n hn).body_within).covers hc)
  show PoolsAt plat (w'.store (q.addr + 184) start) (q :: rest)
  rw [hstays.addr]
  exact PoolsAt.step h hmoves (.of_subset fun b hb => hfreed ▸ hb)

theorem lockPool_runs (plat : Platform) (thread pool : Nat) (w : World) :
    ∃ evs, lockPool plat thread pool w = .ok () (w.emits evs) := by
  unfold lockPool
  by_cases hs : plat.threadSafety = true
  · exact ⟨[.locked (w.mem (pool + 200)) thread], by simp [hs, World.emit, World.emits]⟩
  · exact ⟨[], by simp [hs, World.emits]⟩

/-- **A registration in the middle of the walk**: the record comes from the reserve or
    from spare memory, and the walk does not meet it. -/
theorem Midway.register {palloc : Nat → Nat → Act Nat} (h : Midway plat w start p rest)
    (hpalloc : palloc p.addr sizeofCleanupNode
      = pallocSlots plat thread p.addr sizeofCleanupNode 1 0)
    (hclean : p.frees = [] → CleanFor p sizeofCleanupNode 0)
    (hrun : sprPoolCleanupAdd1With plat palloc thread p.addr data handler w = .ok () w') :
    ∃ p', Midway plat w' start p' rest ∧ Stays p p' := by
  have hlow := le_sizeofPool plat
  have hp := PoolsAt.pool h p List.mem_cons_self
  obtain ⟨evs, hlock⟩ := lockPool_runs plat thread p.addr w
  cases hfrees : p.frees with
  | cons a fs =>
    obtain ⟨hhead, hne, hpop, hplaced⟩ := popRecord hp hfrees
    have hax : a ≠ p.addr + 184 :=
      hp.record_word (i := 0) hplaced List.mem_cons_self (by omega) (by omega)
    have hreserve : w.mem (p.addr + 192) = a := by
      rw [← hhead, store_mem, Function.update_of_ne (by omega)]
    obtain ⟨w₁, hlink, hlive, hmem⟩ := linkRecord_run a p.addr data handler
      ((w.emits evs).store (p.addr + 192) (w.mem a))
    obtain ⟨evs', hunlock⟩ := unlockPool_runs plat thread p.addr w₁
    have hend : w' = w₁.emits evs' := by
      rw [cleanupAdd1With_recycled hlock hreserve hne hlink hunlock] at hrun
      injection hrun with _ hw
      exact hw.symm
    have hstays : Stays p (p.withRecords p.cleanups fs) :=
      ⟨rfl, rfl, rfl, rfl, rfl, rfl, fun b hb => by
        rw [hfrees]
        exact List.mem_cons_of_mem _ hb⟩
    have hload : (w.store (p.addr + 184) start).mem a = w.mem a := by
      rw [store_mem, Function.update_of_ne hax]
    rw [hload] at hpop
    refine ⟨_, h.linked hpop hstays (hplaced.of_nodes rfl) ⟨fun b hb => Or.inl hb, fun s hs => hs⟩
      (frameOut_of_body hpop fun b _ _ hb => Function.update_of_ne hb _ _) ?_ (hend ▸ hlive)
      fun b hb hx => ?_, hstays⟩
    · simp (disch := omega) [Function.update_of_ne]
    · rw [hend, emits_mem, hmem b hb hx]
      simp only [store_mem, emits_mem]
      by_cases hb' : b = p.addr + 192
      · rw [hb', Function.update_self, Function.update_self]
      · rw [Function.update_of_ne hb', Function.update_of_ne hb', Function.update_of_ne hx]
  | nil =>
    have hreserve : w.mem (p.addr + 192) = 0 := by
      have hchain := hp.rep.records.frees
      rw [hfrees, store_mem, Function.update_of_ne (by omega)] at hchain
      exact hchain
    have hlocked := hp.of_eq (v := (w.store (p.addr + 184) start).emits evs) rfl rfl
    obtain ⟨r, p₁, v₁, hrun₁, hp₁, hcarve, hown⟩ := pallocSlots_record thread hlocked
    obtain ⟨haddr, hlisted, hcs, hfs, hmutex, howner, hchild, hbrother, -⟩ :=
      carving_kept hp₁ hcarve
    -- the slot path runs alike, whatever the cleanups start with
    have hblind := blindAt_pallocSlots (k := sizeofCleanupNode) thread hlocked
      (Nat.zero_le sprMaxPoolSlot) (one_page_room plat)
    have hreal := hblind (w.mem (p.addr + 184))
    have hback : ((w.store (p.addr + 184) start).emits evs).store (p.addr + 184)
        (w.mem (p.addr + 184)) = w.emits evs := by
      simp [World.store, World.emits, Function.update_eq_self]
    rw [hback, hrun₁] at hreal
    have hstart : v₁.mem (p.addr + 184) = start := by
      rw [hblind.kept hrun₁]
      simp
    have hfits : palloc p.addr sizeofCleanupNode (w.emits evs)
        = .ok r (v₁.store (p.addr + 184) (w.mem (p.addr + 184))) := by
      rw [hpalloc, hreal]
      rfl
    by_cases hr : r = 0
    · subst hr
      rw [cleanupAdd1With_null hlock hreserve hfits] at hrun
      cases hrun
    obtain ⟨w₁, hlink, hlive, hmem⟩ := linkRecord_run r p.addr data handler
      ((v₁.store (p.addr + 184) (w.mem (p.addr + 184))).emit (.record p.addr r))
    obtain ⟨evs', hunlock⟩ := unlockPool_runs plat thread p.addr w₁
    have hend : w' = w₁.emits evs' := by
      rw [cleanupAdd1With_carved hlock hreserve hfits hr hlink hunlock] at hrun
      injection hrun with _ hw
      exact hw.symm
    have hstays : Stays p p₁ :=
      ⟨haddr, howner, hmutex, hchild, hbrother, hcs, fun b hb => hfs ▸ hb⟩
    have hgrow := carving_grows hlocked hcarve (record_room plat)
    refine ⟨p₁, h.linked hp₁ hstays (carving_placed hlocked hp₁ hcarve (record_room plat)
      (hclean hfrees) hr) ⟨hgrow.nodes, hgrow.live⟩ (hown.out hp₁.wf) hstart (hend ▸ hlive)
      fun b hb hx => ?_, hstays⟩
    rw [hend, emits_mem, hmem b hb hx, emit_mem, store_mem, Function.update_of_ne hx]

theorem Midway.of_eq (h : Midway plat w start p rest) (hmem : w'.mem = w.mem)
    (hlive : w'.live = w.live) : Midway plat w' start p rest :=
  PoolsAt.of_eq h (by simp only [store_mem, hmem]) hlive

/-- The memory itself holds the memnodes. -/
theorem Midway.nodes (h : Midway plat w start p rest) : NodesRep w.mem p := by
  have hnodes := (PoolsAt.pool h p List.mem_cons_self).nodes_store (w.mem (p.addr + 184))
  simpa [Function.update_eq_self] using hnodes

/-- What the memory says of the next record, in terms of the pool. -/
theorem Midway.clean {rs : List Nat} (h : Midway plat w start p rest)
    (hoff : CarvedOff w p.addr rs) (hrs : ∀ a ∈ p.listed, a ∈ rs) :
    p.frees = [] → CleanFor p sizeofCleanupNode 0 := by
  intro hfrees n hfit r hr
  have hp := PoolsAt.pool h p List.mem_cons_self
  have hnull : w.mem (p.addr + 192) = 0 := by
    have hchain := hp.rep.records.frees
    rw [hfrees, store_mem, Function.update_of_ne (by omega)] at hchain
    exact hchain
  have hn := Pool.fromSlot_nodes (firstFit_some hfit).1
  have hne := (hp.wf.node n hn).ne_null
  have hsearch : searchSlots w.mem p.addr sizeofCleanupNode 0 sprMaxPoolSlot
      = some (addrOf (firstFit sizeofCleanupNode (p.fromSlot 0))) :=
    searchSlots_rep hp h.nodes sizeofCleanupNode (by omega)
  have hoff := hoff hnull
  rw [hsearch, hfit] at hoff
  rcases hoff with hz | hoff
  · exact absurd hz hne
  · have hdis := hoff r (hrs r hr)
    rwa [show w.mem (nodeFirstAvail (addrOf (some n))) = n.firstAvail from
      (h.nodes.node n hn).firstAvail] at hdis

/-- **What a handler asks for** leaves the walk its records. -/
theorem Midway.serve {rs : List Nat} {wish : Wish plat} {made : List Made}
    (h : Midway plat w start p rest) (hrun : grant plat thread p.addr wish w = .ok made w')
    (hoff : ∀ m ∈ made, CarvedOff m.before p.addr rs) (hrs : ∀ a ∈ p.listed, a ∈ rs) :
    ∃ p', Midway plat w' start p' rest ∧ Stays p p' ∧ (made = [] → p' = p) := by
  cases wish with
  | add data handler =>
    simp only [grant, bind_run, get_run] at hrun
    cases hadd : sprPoolCleanupAdd1 plat thread p.addr data handler w with
    | error e w₁ => simp [hadd] at hrun
    | ok u w₁ =>
      simp only [hadd, load_run, pure_run] at hrun
      injection hrun with hmade hw
      subst hw
      -- the record that is made is one of those that were made
      have hmem : ⟨w, w₁.mem (poolCleanups p.addr), data, handler⟩ ∈ made := by
        rw [← hmade]
        exact List.mem_cons_self
      have hclean := h.clean (hoff _ hmem) hrs
      obtain ⟨p', h', hstays⟩ := h.register (pallocDepth_record plat thread 1 p.addr) hclean hadd
      exact ⟨p', h', hstays, fun hnil => absurd (hmade.trans hnil) (List.cons_ne_nil _ _)⟩
  | oversized size hbig =>
    simp only [grant, bind_run, get_run] at hrun
    have halign : sprAlignAllocation size ≠ 0 := by
      intro hnull
      rw [slotIndex_rejected plat hnull] at hbig
      exact absurd hbig (Nat.not_lt_zero _)
    rcases sysAlloc_cases (sprAlignAllocation size) w with hsys | ⟨a, hg, hsys⟩
    · -- the system refuses the block
      obtain ⟨evs, hunlock⟩ := unlockPool_runs plat thread p.addr
        (w.refuse (sprAlignAllocation size))
      rw [sprPalloc_refused halign hbig hsys hunlock] at hrun
      injection hrun with _ hw
      exact ⟨p, h.of_eq (by rw [← hw]; rfl) (by rw [← hw]; rfl), Stays.refl p, fun _ => rfl⟩
    · -- the block is given out, and its record is made
      have hobtain : Midway plat (w.obtain a (sprAlignAllocation size)) start p rest :=
        PoolsAt.obtain h hg (Nat.pos_of_ne_zero halign)
      rw [sprPalloc_oversize halign hbig hg.1 hsys] at hrun
      cases hadd : sprPoolCleanupAdd1With plat (pallocDepth plat thread 1) thread p.addr a
          plat.sprFree (w.obtain a (sprAlignAllocation size)) with
      | error e w₁ => simp [hadd] at hrun
      | ok u w₁ =>
        obtain ⟨evs, hunlock⟩ := unlockPool_runs plat thread p.addr w₁
        simp [hadd, hunlock, hg.1] at hrun
        obtain ⟨hmade, hw⟩ := hrun
        have hclean := hobtain.clean
          (hoff ⟨w, _, a, plat.sprFree⟩ (by rw [← hmade]; exact List.mem_cons_self)) hrs
        obtain ⟨p', h', hstays⟩ := hobtain.register (pallocDepth_record plat thread 0 p.addr) hclean
          hadd
        exact ⟨p', h'.of_eq (by rw [← hw]; rfl) (by rw [← hw]; rfl), hstays,
          fun hnil => absurd (hmade.trans hnil) (List.cons_ne_nil _ _)⟩

/-- All that a handler asks for, by induction on its wishes. -/
theorem Midway.serves {rs : List Nat} : ∀ {wishes : List (Wish plat)} {w : World} {p : Pool}
    {made : List Made}, Midway plat w start p rest →
    grants plat thread p.addr wishes w = .ok made w' →
    (∀ m ∈ made, CarvedOff m.before p.addr rs) → (∀ a ∈ p.listed, a ∈ rs) →
    ∃ p', Midway plat w' start p' rest ∧ Stays p p' ∧ (made = [] → p' = p) := by
  intro wishes
  induction wishes with
  | nil =>
    intro w p made h hrun _ _
    injection hrun with _ hw
    exact ⟨p, hw ▸ h, Stays.refl p, fun _ => rfl⟩
  | cons wish wishes ih =>
    intro w p made h hrun hoff hrs
    -- the wishes are granted one after the other
    obtain ⟨made₁, w₁, made₂, hfirst, hmore, rfl⟩ := grants_ok hrun
    obtain ⟨p₁, h₁, hstays₁, hsame₁⟩ := h.serve hfirst
      (fun m hm => hoff m (List.mem_append_left _ hm)) hrs
    rw [← hstays₁.addr] at hmore hoff
    obtain ⟨p₂, h₂, hstays₂, hsame₂⟩ := ih h₁ hmore
      (fun m hm => hoff m (List.mem_append_right _ hm)) fun a ha => hrs a (hstays₁.listed ha)
    refine ⟨p₂, h₂, hstays₁.trans hstays₂, fun hnil => ?_⟩
    obtain ⟨hnil₁, hnil₂⟩ := List.append_eq_nil_iff.mp hnil
    exact (hsame₂ hnil₂).trans (hsame₁ hnil₁)

end Registering

/-! ## Section 3: The walk -/

section Walk

variable {plat : Platform} {script : Script plat} {thread : Nat} {w w' : World} {p : Pool}
  {rest : List Pool} {start : Nat}

/-- **A record whose handler has run is passed**: the walk goes on behind it. -/
theorem Midway.pass {r : Record} {rs : List Record} (h : Midway plat w start p rest)
    (hcons : p.cleanups = r :: rs) (hmem : w'.mem = w.mem)
    (hlive : w'.live = liveAfter plat w.live r) :
    Midway plat w' (w.mem r.addr) (p.withRecords rs p.frees) rest ∧
      Placed p (r.addr :: (rs.map Record.addr ++ p.frees)) := by
  have hlow := le_sizeofPool plat
  have hp := PoolsAt.pool h p List.mem_cons_self
  have hplaced := hp.wf.placed_without [] hcons
  have hx : r.addr ≠ p.addr + 184 :=
    hp.record_word (i := 0) hplaced List.mem_cons_self (by omega) (by omega)
  have hregs := PoolsAt.registered h (p := p) List.mem_cons_self
  have hfreed : p.freed plat = freedBy plat (r :: rs) := by rw [Pool.freed, hcons]
  have hkeeps : KeepsNodes plat p [r] := fun q hq => PoolsAt.keeps h List.mem_cons_self
    List.mem_cons_self q (by rw [hcons, List.mem_singleton.mp hq]; exact List.mem_cons_self)
  have hplace : PoolAt plat (w'.store (p.addr + 184) (w.mem r.addr))
      (p.withRecords rs p.frees) := by
    refine ((hp.unlinkFirst hcons).ran (r := r) hkeeps).of_eq ?_ hlive
    simp only [ran_mem, store_mem, hmem, Function.update_idem, Function.update_of_ne hx]
  -- what is registered without the record, and is still given out
  have hsub : ∀ a ∈ freedBy plat rs, a ∈ p.freed plat ∧
      (r.handler = plat.sprFree → a ≠ r.data) := by
    intro a ha
    rw [hfreed, freedBy_cons]
    have hnd := hregs.once
    rw [hfreed, freedBy_cons] at hnd
    by_cases hf : r.handler = plat.sprFree
    · rw [if_pos hf] at hnd ⊢
      exact ⟨List.mem_cons_of_mem _ ha, fun _ heq => (List.nodup_cons.mp hnd).1 (heq ▸ ha)⟩
    · rw [if_neg hf]
      exact ⟨ha, fun hyes => absurd hyes hf⟩
  have honce : (freedBy plat rs).Nodup := by
    have hnd := hregs.once
    rw [hfreed, freedBy_cons] at hnd
    split at hnd
    · exact (List.nodup_cons.mp hnd).2
    · exact hnd
  refine ⟨PoolsAt.step h ⟨hplace, frameOut_of_body hplace fun b _ hb _ => ?_, fun a ha => Or.inl ha,
    fun s hs hout => ?_, honce, fun a ha => ?_⟩ (.of_subset fun a ha => (hsub a ha).1), hplaced⟩
  · simp only [store_mem, hmem, withRecords_addr] at hb ⊢
    rw [Function.update_of_ne hb, Function.update_of_ne hb]
  · show s ∈ w'.live
    rw [hlive]
    refine mem_liveAfter hs fun hf heq => hout ?_
    rw [hfreed, freedBy_cons, if_pos hf, heq]
    exact List.mem_cons_self
  · obtain ⟨⟨s, hs, heq⟩, hout⟩ := hregs.region a (hsub a ha).1
    refine ⟨⟨s, ?_, heq⟩, hout⟩
    show s ∈ w'.live
    rw [hlive]
    exact mem_liveAfter hs fun hf hdata => (hsub a ha).2 hf (heq.symm.trans hdata)

/-- **The record that has been passed is reserved.** -/
theorem Midway.reserve {a : Nat} (h : Midway plat w start p rest)
    (hplaced : Placed p (a :: p.listed)) (ha : a ≠ 0) :
    ∃ w', reserveRecord load p.addr a w = .ok () w' ∧
      Midway plat w' start (p.withRecords p.cleanups (a :: p.frees)) rest := by
  have hlow := le_sizeofPool plat
  have hp := PoolsAt.pool h p List.mem_cons_self
  obtain ⟨-, hplace⟩ := reserveRecord_spec hp hplaced ha
  have hx : a ≠ p.addr + 184 :=
    hp.record_word (i := 0) hplaced List.mem_cons_self (by omega) (by omega)
  have hx' : p.addr + 192 ≠ p.addr + 184 := by omega
  replace hplace := hplace.of_eq (v := ((w.store a (w.mem (p.addr + 192))).store (p.addr + 192)
    a).store (p.addr + 184) start) (by
      simp only [store_mem, Function.update_of_ne hx']
      rw [Function.update_comm hx', Function.update_comm hx]) rfl
  refine ⟨(w.store a (w.mem (p.addr + 192))).store (p.addr + 192) a, by simp [reserveRecord],
    PoolsAt.step h ⟨hplace, ?_, fun b hb => Or.inl hb, fun s hs _ => hs,
      ⟨(h.registered List.mem_cons_self).once, (h.registered List.mem_cons_self).region⟩⟩
      (.of_subset fun b hb => hb)⟩
  · refine frameOut_of_body hplace fun b hb hb₁ hb₂ => ?_
    obtain ⟨n, hn, hc⟩ := hplaced.covered (i := 0) List.mem_cons_self (by omega)
    have hba : b ≠ a := by
      rintro rfl
      exact hb n hn hc
    simp only [store_mem, withRecords_addr] at hb₁ hb₂ ⊢
    rw [Function.update_of_ne hb₁, Function.update_of_ne hb₂, Function.update_of_ne hba,
      Function.update_of_ne hb₁]

/-- What a walk leaves of a pool: its links, no cleanups, and all records in reserve unless
    some have been taken meanwhile. -/
structure Walked (p p' : Pool) (made : List Made) : Prop where
  addr     : p'.addr = p.addr
  owner    : p'.owner = p.owner
  mutex    : p'.mutex = p.mutex
  child    : p'.child = p.child
  brother  : p'.brother = p.brother
  cleanups : p'.cleanups = []
  frees    : made = [] → p'.frees = (p.cleanups.map Record.addr).reverse ++ p.frees

/-- What the memory says of the record that the walk has come to. -/
theorem Midway.first {r : Record} {rs : List Record} (h : Midway plat w start p rest)
    (hcons : p.cleanups = r :: rs) :
    start = r.addr ∧ r.addr ≠ 0 ∧ w.mem r.addr = (rs.map Record.addr).headD 0 ∧
      w.mem (r.addr + 8) = r.data ∧ w.mem (r.addr + 16) = r.handler := by
  have hlow := le_sizeofPool plat
  have hp := PoolsAt.pool h p List.mem_cons_self
  have hin : r ∈ p.cleanups := by rw [hcons]; exact List.mem_cons_self
  have hword : ∀ i < 24, r.addr + i ≠ p.addr + 184 := fun i hi =>
    hp.record_word hp.wf.placed (List.mem_append_left _ (List.mem_map_of_mem hin)) hi (by omega)
  have hchain := hp.rep.records.cleanups
  rw [hcons, store_mem, Function.update_self, List.map_cons] at hchain
  obtain ⟨hstart, hne, hnext⟩ := hchain
  obtain ⟨hd, hh⟩ := hp.rep.records.record r hin
  rw [store_mem, Function.update_of_ne (hword 8 (by omega))] at hd
  rw [store_mem, Function.update_of_ne (hword 16 (by omega))] at hh
  refine ⟨hstart, hstart ▸ hne, ?_, hd, hh⟩
  have hlink := chain_start hnext
  rwa [hstart, Function.update_of_ne (show r.addr ≠ p.addr + 184 from hword 0 (by omega))] at hlink

/-- **A handler is called**, and does all it wants: its record is passed. -/
theorem Midway.call {r : Record} {rs : List Record} {served : Served} {records : List Nat}
    (h : Midway plat w start p rest) (hcons : p.cleanups = r :: rs)
    (hrun : callWith plat script thread p.addr r.handler r.data w = .ok served w')
    (hoff : ∀ m ∈ served.made, CarvedOff m.before p.addr records)
    (hrecords : ∀ a ∈ p.listed, a ∈ records) :
    ∃ p', Midway plat w' (w.mem r.addr) (p'.withRecords rs p'.frees) rest ∧ Stays p p' ∧
      Placed p' (r.addr :: (rs.map Record.addr ++ p'.frees)) ∧
      (served.handler, served.data) = (r.handler, r.data) ∧ (served.made = [] → p' = p) := by
  by_cases hf : r.handler = plat.sprFree
  · -- `spr_free` gives a region back and registers nothing
    simp [callWith, callHandler, hf] at hrun
    obtain ⟨hserved, hw⟩ := hrun
    have hlive : w'.live = liveAfter plat w.live r := by
      rw [← hw, liveAfter, if_pos hf]
      rfl
    obtain ⟨hpass, hplaced⟩ := h.pass hcons (by rw [← hw]; rfl) hlive
    exact ⟨p, hpass, Stays.refl p, hplaced, by rw [← hserved, hf], fun _ => rfl⟩
  · obtain ⟨made, hall, rfl⟩ := callWith_ok hf hrun
    -- another handler gets its wishes, and the walk goes on from the record's own link
    have hcalled : Midway plat (w.emit (.called r.handler r.data)) start p rest := h.of_eq rfl rfl
    obtain ⟨p', h', hstays, hsame⟩ := hcalled.serves hall hoff hrecords
    have hcons' : p'.cleanups = r :: rs := hstays.cleanups.trans hcons
    obtain ⟨hpass, hplaced⟩ := h'.pass hcons' rfl (by rw [liveAfter, if_neg hf])
    rw [(h'.first hcons').2.2.1, ← (h.first hcons).2.2.1] at hpass
    exact ⟨p', hpass, hstays, hplaced, rfl, hsame⟩

/-- **The loop of `spr_pool_cleanup_run_all`**, by induction on the records it is still to
    meet: it calls their handlers, whatever has been registered in front of them. -/
theorem runAllLoopWith_spec {records : List Nat} {rs : List Record} :
    ∀ {fuel : Nat} {start : Nat} {w : World} {p : Pool} {visits : List Served},
      Midway plat w start p rest → p.cleanups = rs →
      runAllLoopWith plat script thread p.addr fuel start w = .ok visits w' →
      (∀ m ∈ visits.flatMap Served.made, CarvedOff m.before p.addr records) →
      (∀ a ∈ p.listed, a ∈ records) →
      ∃ p', Midway plat w' 0 p' rest ∧ Walked p p' (visits.flatMap Served.made) ∧
        visits.map (fun v => (v.handler, v.data)) = rs.map fun r => (r.handler, r.data) := by
  induction rs with
  | nil =>
    intro fuel start w p visits h hnil hrun _ _
    have hchain := (PoolsAt.pool h p List.mem_cons_self).rep.records.cleanups
    rw [hnil, store_mem, Function.update_self] at hchain
    have hstart : start = 0 := hchain
    cases fuel with
    | zero => simp [runAllLoopWith] at hrun
    | succ fuel =>
      rw [runAllLoopWith, if_pos hstart, pure_run] at hrun
      injection hrun with hvisits hw
      subst hvisits hw
      refine ⟨p, hstart ▸ h, ⟨rfl, rfl, rfl, rfl, rfl, hnil, fun _ => ?_⟩, rfl⟩
      rw [hnil]
      rfl
  | cons r rs ih =>
    intro fuel start w p visits h hcons hrun hoff hrecords
    obtain ⟨hstart, hne, -, hdata, hhandler⟩ := h.first hcons
    cases fuel with
    | zero => simp [runAllLoopWith] at hrun
    | succ fuel =>
      rw [hstart] at hrun
      obtain ⟨served, w₁, w₂, more, hcall, hres, hmore, rfl⟩ := runAllLoopWith_ok hne hrun
      rw [recordHandler, recordData, hhandler, hdata] at hcall
      -- what is registered is known only once the run has returned
      rw [List.flatMap_cons] at hoff
      obtain ⟨p₁, h₁, hstays, hplaced, hpair, hsame⟩ := h.call hcons hcall
        (fun m hm => hoff m (List.mem_append_left _ hm)) hrecords
      obtain ⟨w₂', hres', h₂⟩ := h₁.reserve (hplaced.of_nodes rfl) hne
      rw [withRecords_addr, hstays.addr, hres] at hres'
      injection hres' with _ hw₂
      subst hw₂
      rw [← hstays.addr] at hmore hoff
      -- the records are those of the start
      have hlisted : ∀ a ∈ (p₁.withRecords rs (r.addr :: p₁.frees)).listed, a ∈ records := by
        intro a ha
        simp only [withRecords_listed, List.mem_append, List.mem_cons] at ha
        refine hrecords a ?_
        rw [Pool.listed, hcons, List.map_cons]
        rcases ha with ha | rfl | ha
        · exact List.mem_append_left _ (List.mem_cons_of_mem _ ha)
        · exact List.mem_append_left _ List.mem_cons_self
        · exact List.mem_append_right _ (hstays.frees a ha)
      obtain ⟨p₃, h₃, hwalked, hcalled⟩ := ih h₂ rfl hmore
        (fun m hm => hoff m (List.mem_append_right _ hm)) hlisted
      refine ⟨p₃, h₃, ⟨hwalked.addr.trans hstays.addr, hwalked.owner.trans hstays.owner,
        hwalked.mutex.trans hstays.mutex, hwalked.child.trans hstays.child,
        hwalked.brother.trans hstays.brother, hwalked.cleanups, fun hnil => ?_⟩, ?_⟩
      · rw [List.flatMap_cons] at hnil
        obtain ⟨hnil₁, hnil₂⟩ := List.append_eq_nil_iff.mp hnil
        rw [hwalked.frees hnil₂, hsame hnil₁, hcons]
        simp
      · rw [List.map_cons, List.map_cons, hpair, hcalled]

theorem runAllWith_pool {pool : Nat} {round : Round}
    (hrun : runAllWith plat script thread pool w = .ok round w') : round.pool = pool := by
  obtain ⟨visits, w₁, -, -, rfl⟩ := runAllWith_ok hrun
  rfl

/-- **`spr_pool_cleanup_run_all`**: the handlers that were pending are called, newest
    registration first, and no registration is pending afterwards. -/
theorem runAllWith_spec {records : List Nat} {round : Round} (h : PoolsAt plat w (p :: rest))
    (hrun : runAllWith plat script thread p.addr w = .ok round w')
    (hoff : ∀ m ∈ round.made, CarvedOff m.before p.addr records)
    (hrecords : ∀ a ∈ p.listed, a ∈ records) :
    ∃ p', PoolsAt plat w' (p' :: rest) ∧ Walked p p' round.made ∧ round.pool = p.addr ∧
      round.called = p.pending := by
  obtain ⟨visits, w₁, hloop, rfl, rfl⟩ := runAllWith_ok hrun
  have hself : Midway plat w (w.mem (p.addr + 184)) p rest :=
    h.of_eq (Function.update_eq_self _ _) rfl
  obtain ⟨p', h', hwalked, hcalled⟩ := runAllLoopWith_spec hself rfl hloop hoff hrecords
  have hat : PoolsAt plat (w₁.store (p'.addr + 184) 0) (p' :: rest) := h'
  rw [hwalked.addr] at hat
  exact ⟨p', hat, hwalked, rfl, hcalled⟩

end Walk

end Spr.MemPool
