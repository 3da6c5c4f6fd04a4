import Spr.MemPool.Frames

/-! # How far clearing and destroying go

    A thread that clears or destroys a pool goes down from it, and passes over
    the trees of other threads' pools.

    * `Session.reach`: the pools that such a call goes into.
    * `ClearDrops`, `DestroyDrops`: what it logs about blocks and memnodes.
    * `Spares`: what is dropped, and that everything else is as it was.
    * `clear_reaches_owned`, `destroy_reaches_owned`: so it is for every thread and
      pool. -/

namespace Spr.MemPool

open Spr.Words Spr.Chains Spr.Forests

/-! ## Section 1: The pools of a walk -/

/-- The pools that `spr_pool_clear(pool)` and `spr_pool_destroy(pool)` of the thread go
    into. -/
def Session.reach (plat : Platform) (s : Session) (thread pool : Nat) : List Nat :=
  if ∃ m ∈ s.family.toList, m.addr = pool ∧ m.Owned plat thread then
    pool :: ((s.family.childrenAt Member.addr pool).descend (Member.Owned plat thread)).map
      Member.addr
  else []

section Reach

variable {plat : Platform} {s : Session} {f : Forest Pool} {p q : Pool} {thread : Nat}

theorem Inv.reach (h : Inv plat s f) (hp : p ∈ f.toList) :
    s.reach plat thread p.addr
      = (enteredTree plat thread p (f.childrenAt Pool.addr p.addr)).map Pool.addr := by
  have howned : (∃ m ∈ s.family.toList, m.addr = p.addr ∧ m.Owned plat thread) ↔
      Owned plat thread p := by
    rw [← h.family, Forest.toList_map]
    constructor
    · rintro ⟨m, hm, haddr, hown⟩
      obtain ⟨q, hq, rfl⟩ := List.mem_map.mp hm
      obtain rfl : q = p := List.inj_on_of_nodup_map h.nodup hq hp haddr
      exact hown
    · exact fun hown => ⟨p.member, List.mem_map_of_mem hp, rfl, hown⟩
  have hchildren : (s.family.childrenAt Member.addr p.addr).descend (Member.Owned plat thread)
      = (entered plat thread (f.childrenAt Pool.addr p.addr)).map Pool.member := by
    rw [← h.family, ← Forest.map_childrenAt member_addr f]
    exact descend_map _ fun _ _ => Iff.rfl
  unfold Session.reach enteredTree
  rw [hchildren, List.map_map]
  by_cases hown : Owned plat thread p
  · rw [if_pos (howned.mpr hown), if_pos hown]
    rfl
  · rw [if_neg fun hex => hown (howned.mp hex), if_neg hown]
    rfl

theorem enteredTree_subset {cs : Forest Pool} {rest : List Pool} :
    enteredTree plat thread p cs ⊆ p :: (cs.toList ++ rest) := by
  intro q hq
  unfold enteredTree at hq
  split at hq
  · rcases List.mem_cons.mp hq with rfl | hq
    · exact List.mem_cons_self
    · exact List.mem_cons_of_mem _ (List.mem_append_left _ (descend_subset hq))
  · cases hq

end Reach

/-! ## Section 2: Events about what is held -/

/-- The event changes which blocks or memnodes are held. -/
def Event.isHold : Event → Bool
  | .registered _ _ => true
  | .deallocated _ => true
  | .handed _ _ _ => true
  | .freed _ => true
  | .cleared _ => true
  | .destroyed _ => true
  | _ => false

/-- Clearing the pool drops something by this event. -/
def ClearDrops (plat : Platform) (e : Event) (p : Pool) : Prop :=
  e = .cleared p.addr ∨ ∃ a ∈ p.freed plat, e = .freed a

/-- Destroying the pool drops something by this event. -/
def DestroyDrops (plat : Platform) (e : Event) (p : Pool) : Prop :=
  e = .destroyed p.addr ∨ (∃ a ∈ p.freed plat, e = .freed a) ∨
    ∃ a ∈ p.slotAddrs 0, e ∈ deallocEvents a

section Drops

variable {plat : Platform} {thread : Nat} {e : Event} {p : Pool} {inner : List Event}
  {f : Forest Pool}

theorem isHold_of_drops {b : Block} (h : e.drops b = true) : e.isHold = true := by
  cases e <;> simp_all [Event.drops, Event.isHold]

theorem hold_callEvents (he : e.isHold = true) :
    e ∈ p.cleanups.flatMap (callEvents plat) ↔ ∃ a ∈ p.freed plat, e = .freed a := by
  constructor
  · intro hin
    obtain ⟨r, hr, hin'⟩ := List.mem_flatMap.mp hin
    unfold callEvents at hin'
    split at hin'
    · rcases List.mem_cons.mp hin' with rfl | hin'
      · cases he
      · obtain rfl := List.mem_singleton.mp hin'
        exact ⟨_, mem_callEvents.mp hin, rfl⟩
    · rw [List.mem_singleton] at hin'
      rw [hin'] at he
      cases he
  · rintro ⟨a, ha, rfl⟩
    exact mem_callEvents.mpr ha

theorem not_mem_of_hold {evs : List Event} (he : e.isHold = true)
    (h : ∀ e ∈ evs, e.isHold = false) :
    e ∉ evs := fun hin => by rw [h e hin] at he; cases he

theorem lock_hold : ∀ e ∈ lockEvents plat thread p, e.isHold = false :=
  forall_lockEvents rfl

theorem unlock_hold : ∀ e ∈ unlockEvents plat thread p, e.isHold = false :=
  forall_unlockEvents rfl

/-- What is dropped while one pool is cleared. -/
theorem hold_clearEvents {cs : Forest Pool} (he : e.isHold = true)
    (hinner : e ∈ inner ↔ ∃ q ∈ entered plat thread cs, ClearDrops plat e q) :
    e ∈ clearEvents plat thread p inner ↔
      ∃ q ∈ enteredTree plat thread p cs, ClearDrops plat e q := by
  have hvisit : e ≠ .visited p.addr := by rintro rfl; cases he
  have hreset : e ∉ (p.slotAddrs 0).map Event.reset := not_mem_of_hold he fun e' he' => by
    obtain ⟨a, -, rfl⟩ := List.mem_map.mp he'
    rfl
  rw [clearEvents, enteredTree, List.mem_cons, or_iff_right hvisit]
  split
  · simp only [List.mem_append, List.mem_cons, not_mem_of_hold he lock_hold,
      not_mem_of_hold he unlock_hold, hold_callEvents he, hinner, hreset, false_or, or_false,
      ClearDrops, exists_eq_or_imp]
    exact or_comm.trans or_assoc.symm
  · simp

/-- What is dropped while a forest is cleared. -/
theorem hold_clearLog (he : e.isHold = true) :
    e ∈ clearLog plat thread f ↔ ∃ q ∈ entered plat thread f, ClearDrops plat e q := by
  induction f with
  | nil => simp [clearLog, entered, Forest.descend]
  | node p cs bs ihc ihb =>
    have hfollow : e ≠ .followed p.addr := by rintro rfl; cases he
    rw [clearLog, List.cons_append, List.mem_cons, or_iff_right hfollow, List.mem_append,
      hold_clearEvents he ihc, ihb, entered_node]
    simp only [List.mem_append, or_and_right, exists_or]

/-- What is dropped while one pool is destroyed. -/
theorem hold_destroyEvents {cs : Forest Pool} (he : e.isHold = true)
    (hinner : e ∈ inner ↔ ∃ q ∈ entered plat thread cs, DestroyDrops plat e q) :
    e ∈ destroyEvents plat .plain thread p inner ↔
      ∃ q ∈ enteredTree plat thread p cs, DestroyDrops plat e q := by
  have hvisit : e ≠ .visited p.addr := by rintro rfl; cases he
  have horder : ∀ a i s d : Prop, ((a ∨ i) ∨ s) ∨ d ↔ (d ∨ a ∨ s) ∨ i := by tauto
  by_cases howned : Owned plat thread p
  · rw [destroyEvents_plain howned, enteredTree, if_pos howned, List.mem_cons,
      or_iff_right hvisit]
    simp only [List.mem_append, List.mem_cons, List.not_mem_nil, or_false, hold_callEvents he,
      List.mem_flatMap, hinner, exists_eq_or_imp, DestroyDrops]
    exact horder _ _ _ _
  · simp [destroyEvents, enteredTree, howned, hvisit]

/-- What is dropped while a forest is destroyed. -/
theorem hold_destroyLog (he : e.isHold = true) :
    e ∈ destroyLog plat .plain thread f ↔ ∃ q ∈ entered plat thread f, DestroyDrops plat e q := by
  induction f with
  | nil => simp [destroyLog, entered, Forest.descend]
  | node p cs bs ihc ihb =>
    have hfollow : e ≠ .followed p.addr := by rintro rfl; cases he
    rw [destroyLog, Reader.plain_events, List.singleton_append, List.cons_append, List.mem_cons,
      or_iff_right hfollow, List.mem_append, hold_destroyEvents he ihc, ihb, entered_node]
    simp only [List.mem_append, or_and_right, exists_or]

/-- What is handed out is not dropped by the event. -/
theorem hands_isHold (he : e.hands = true) : e.isHold = true := by
  cases e <;> simp_all [Event.hands, Event.isHold]

/-- A block stays whose life no event ends. -/
theorem held_of_life {evs : List Event} {b : Block} : ∀ {bs : List Block},
    (∀ e ∈ evs, e.hands = false) → (∀ e ∈ evs, e.drops b = false) → b ∈ bs →
      b ∈ evs.foldl heldStep bs := by
  induction evs with
  | nil => exact fun _ _ hb => hb
  | cons e evs ih =>
    intro bs hno hlife hb
    refine ih (fun e' he' => hno e' (List.mem_cons_of_mem _ he'))
      (fun e' he' => hlife e' (List.mem_cons_of_mem _ he')) ?_
    rw [heldStep_quiet (hno e List.mem_cons_self), List.mem_filter]
    exact ⟨hb, by simpa using hlife e List.mem_cons_self⟩

/-- **The blocks after events** that hand none out: those whose lives none ends. -/
theorem mem_heldBlocks {log evs : List Event} {b : Block} (hno : ∀ e ∈ evs, e.hands = false) :
    b ∈ heldBlocks (log ++ evs) ↔ b ∈ heldBlocks log ∧ ∀ e ∈ evs, e.drops b = false := by
  refine ⟨fun hb => ⟨(heldBlocks_append log hno).1.subset hb, (heldBlocks_append log hno).2 b hb⟩,
    fun ⟨hb, hlife⟩ => ?_⟩
  rw [heldBlocks, List.foldl_append]
  exact held_of_life hno hlife hb

/-- **The memnodes after events** that register none: those that none deallocates. -/
theorem mem_heldNodes {log : List Event} {m : Nat × Nat} : ∀ {evs : List Event},
    (∀ q n, Event.registered q n ∉ evs) →
      (m ∈ heldNodes (log ++ evs) ↔ m ∈ heldNodes log ∧ Event.deallocated m.2 ∉ evs) := by
  intro evs hno
  rw [heldNodes, List.foldl_append]
  rw [heldNodes]
  generalize log.foldl nodeStep [] = ns
  induction evs generalizing ns with
  | nil => simp
  | cons e evs ih =>
    rw [List.foldl_cons, ih fun q n hin => hno q n (List.mem_cons_of_mem _ hin)]
    cases e with
    | registered q n => exact absurd List.mem_cons_self (hno q n)
    | deallocated n =>
      simp only [nodeStep, List.mem_filter, List.mem_cons, Event.deallocated.injEq, not_or,
        decide_eq_true_eq]
      tauto
    | _ => simp [nodeStep]

end Drops

/-! ## Section 3: What is spared -/

/-- What a walk over the pools `gone` leaves: it drops their blocks and what they have
    registered for `spr_free`; the words of the other blocks, and the memnodes of the
    other pools to the last word, are as they were. -/
structure Spares (plat : Platform) (w w' : World) (gone : List Nat) : Prop where
  blocks  : ∀ b, b ∈ heldBlocks w'.log ↔
    b ∈ heldBlocks w.log ∧ b.pool ∉ gone ∧ ∀ q ∈ gone, b.addr ∉ freedAt plat w q
  words   : ∀ b ∈ heldBlocks w'.log, ∀ a, b.span.Covers a → w'.mem a = w.mem a
  regions : ∀ m ∈ heldNodes w.log, m.1 ∉ gone → ∀ r ∈ w.live, r.start = m.2 →
    r ∈ w'.live ∧ ∀ a, r.Covers a → w'.mem a = w.mem a

section Spares

variable {plat : Platform} {s : Session} {f : Forest Pool} {p : Pool} {thread : Nat} {w' : World}
  {gone : List Pool} {evs : List Event}

/-- A pool that is not among the others has regions of its own. -/
theorem PoolsAt.frame_region {w : World} {ps : List Pool} (h : PoolsAt plat w ps)
    (hgone : gone ⊆ ps) (hframe : FrameOf gone w w') (hp : p ∈ ps)
    (hout : p.addr ∉ gone.map Pool.addr) {n : Memnode} (hn : n ∈ p.nodes) {a : Nat}
    (ha : n.region.Covers a) : w'.mem a = w.mem a := by
  refine hframe a fun q hq m hm hc => ?_
  have hne : p.addr ≠ q.addr := fun heq => hout (heq ▸ List.mem_map_of_mem hq)
  exact (h.regions_apart hp (hgone hq) hne hn hm).not_covers ha hc

/-- **A block of another pool** keeps its words. -/
theorem BlockAt.frame {w : World} {ps : List Pool} {b : Block} (h : PoolsAt plat w ps)
    (hgone : gone ⊆ ps) (hframe : FrameOf gone w w') (hb : BlockAt plat w ps b)
    (hout : b.pool ∉ gone.map Pool.addr) {a : Nat} (ha : b.span.Covers a) :
    w'.mem a = w.mem a := by
  cases hb with
  | slot p hp haddr hindex hused hrecords =>
    obtain ⟨n, hn, hregion, -⟩ := (h.pool p hp).used_within hused
    exact h.frame_region hgone hframe hp (haddr ▸ hout) hn (hregion.covers ha)
  | big hindex hlive hnode =>
    refine hframe a fun q hq m hm hc => ?_
    exact (h.big_apart (s := b.span) hlive hnode (hgone hq) hm).not_covers hc ha

/-- The address of a block that is held is no memnode of another pool. -/
theorem BlockAt.not_node {w : World} {ps : List Pool} {b : Block} {q : Pool}
    (h : PoolsAt plat w ps) (hb : BlockAt plat w ps b) (hsize : sprAlignAllocation b.size ≠ 0)
    (hq : q ∈ ps) (hne : b.pool ≠ q.addr) : b.addr ∉ q.nodeAddrs := by
  intro hin
  cases hb with
  | slot p hp haddr hindex hused hrecords =>
    obtain ⟨m, hm, heq⟩ := List.mem_map.mp hin
    obtain ⟨n, hn, hregion, -⟩ := (h.pool p hp).used_within hused
    have hdis := h.regions_apart hp hq (haddr ▸ hne) hn hm
    have hheader := ((h.pool q hq).wf.node m hm).fields_within
    simp only [Span.Disjoint, Span.Within, Memnode.region, Block.span, sizeofMemnode] at *
    omega
  | big hindex hlive hnode => exact hnode (List.mem_flatMap.mpr ⟨q, hq, hin⟩)

/-- No memnode is in two pools. -/
theorem PoolsAt.node_apart {w : World} {ps : List Pool} {q : Pool} (h : PoolsAt plat w ps)
    (hp : p ∈ ps) (hq : q ∈ ps) (hne : p.addr ≠ q.addr) {n : Memnode} (hn : n ∈ p.nodes) :
    n.addr ∉ q.nodeAddrs := by
  intro hin
  obtain ⟨m, hm, heq⟩ := List.mem_map.mp hin
  have hdis := h.regions_apart hp hq hne hn hm
  have hn' := ((h.pool p hp).wf.node n hn).fields_within
  have hm' := ((h.pool q hq).wf.node m hm).fields_within
  simp only [Span.Disjoint, Span.Within, Memnode.region, sizeofMemnode] at *
  omega

/-- The pools are those of the walk, by its events. -/
structure WalkOf (plat : Platform) (gone : List Pool) (evs : List Event) : Prop where
  last  : ∀ q ∈ gone, Event.cleared q.addr ∈ evs ∨ Event.destroyed q.addr ∈ evs
  freed : ∀ q ∈ gone, ∀ a ∈ q.freed plat, Event.freed a ∈ evs
  all   : ∀ e ∈ evs, e.isHold = true → ∃ q ∈ gone, e = .cleared q.addr ∨ e = .destroyed q.addr ∨
    (∃ a ∈ q.freed plat, e = .freed a) ∨ ∃ a ∈ q.slotAddrs 0, e ∈ deallocEvents a

theorem WalkOf.hands (h : WalkOf plat gone evs) : ∀ e ∈ evs, e.hands = false := by
  intro e he
  by_contra hhands
  rw [Bool.not_eq_false] at hhands
  obtain ⟨q, -, rfl | rfl | ⟨a, -, rfl⟩ | ⟨a, -, hin⟩⟩ := h.all e he (hands_isHold hhands)
  · cases hhands
  · cases hhands
  · cases hhands
  · simp only [deallocEvents, List.mem_cons, List.not_mem_nil, or_false] at hin
    rcases hin with rfl | rfl <;> cases hhands

theorem WalkOf.drops (h : WalkOf plat gone evs) {e : Event} {b : Block} (he : e ∈ evs)
    (hdrops : e.drops b = true) : ∃ q ∈ gone, b.pool = q.addr ∨ b.addr ∈ q.freed plat ∨
      b.addr ∈ q.nodeAddrs := by
  obtain ⟨q, hq, rfl | rfl | ⟨a, ha, rfl⟩ | ⟨a, ha, hin⟩⟩ := h.all e he (isHold_of_drops hdrops)
  · exact ⟨q, hq, Or.inl (by simpa [Event.drops] using hdrops)⟩
  · exact ⟨q, hq, Or.inl (by simpa [Event.drops] using hdrops)⟩
  · obtain rfl : b.addr = a := by simpa [Event.drops] using hdrops
    exact ⟨q, hq, Or.inr (Or.inl ha)⟩
  · simp only [deallocEvents, List.mem_cons, List.not_mem_nil, or_false] at hin
    rcases hin with rfl | rfl
    · cases hdrops
    · obtain rfl : b.addr = a := by simpa [Event.drops] using hdrops
      exact ⟨q, hq, Or.inr (Or.inr (Pool.slotAddrs_nodes ha))⟩

/-- **The blocks after a walk.** -/
theorem Inv.walk_blocks (h : Inv plat s f) (hsub : gone ⊆ f.toList)
    (hlog : w'.log = s.world.log ++ evs) (hwalk : WalkOf plat gone evs) (b : Block) :
    b ∈ heldBlocks w'.log ↔ b ∈ heldBlocks s.world.log ∧ b.pool ∉ gone.map Pool.addr ∧
      ∀ q ∈ gone.map Pool.addr, b.addr ∉ freedAt plat s.world q := by
  rw [hlog, mem_heldBlocks hwalk.hands]
  refine and_congr_right fun hb => ⟨fun hlife => ⟨fun hin => ?_, fun a ha hin => ?_⟩,
    fun ⟨hpool, hreg⟩ e he => ?_⟩
  · obtain ⟨q, hq, heq⟩ := List.mem_map.mp hin
    rcases hwalk.last q hq with he | he
    · have := hlife _ he
      simp [Event.drops, heq] at this
    · have := hlife _ he
      simp [Event.drops, heq] at this
  · obtain ⟨q, hq, rfl⟩ := List.mem_map.mp ha
    rw [freedAt_eq (h.pools.pool q (hsub hq))] at hin
    have := hlife _ (hwalk.freed q hq _ hin)
    simp [Event.drops] at this
  · -- an event that drops the block is about one of the pools that are gone
    by_contra hdrops
    rw [Bool.not_eq_false] at hdrops
    obtain ⟨q, hq, heq | hfreed | hnode⟩ := hwalk.drops he hdrops
    · exact hpool (heq ▸ List.mem_map_of_mem hq)
    · refine hreg q.addr (List.mem_map_of_mem hq) ?_
      rwa [freedAt_eq (h.pools.pool q (hsub hq))]
    · exact (h.blocks.place b hb).not_node h.pools (h.blocks.size b hb) (hsub hq)
        (fun heq => hpool (heq ▸ List.mem_map_of_mem hq)) hnode

/-- **A walk spares** what is not its own. -/
theorem Inv.spares (h : Inv plat s f) (hsub : gone ⊆ f.toList)
    (hframe : FrameOf gone s.world w') (hlog : w'.log = s.world.log ++ evs)
    (hkept : KeptBy evs s.world w') (hwalk : WalkOf plat gone evs) :
    Spares plat s.world w' (gone.map Pool.addr) := by
  have hblocks := h.walk_blocks hsub hlog hwalk
  refine ⟨hblocks, fun b hb a ha => ?_, fun m hm hout r hr hstart => ?_⟩
  · obtain ⟨hheld, hpool, -⟩ := (hblocks b).mp hb
    exact (h.blocks.place b hheld).frame h.pools hsub hframe hpool ha
  · obtain ⟨p, hp, hpm, hnode⟩ := (h.nodes.held m.1 m.2).mp hm
    obtain ⟨n, hn, heq⟩ := List.mem_map.mp hnode
    rw [← hpm] at hout
    rw [← heq] at hstart
    refine ⟨hkept r hr fun hin => ?_, fun a ha => ?_⟩
    · -- the walk gives back no memnode of the pool
      obtain ⟨q, hq, hcase⟩ := hwalk.drops (b := ⟨p.addr, r.start, 0⟩) hin (by simp [Event.drops])
      rw [hstart] at hcase
      have hne : p.addr ≠ q.addr := fun heq => hout (heq ▸ List.mem_map_of_mem hq)
      rcases hcase with heq | hfreed | hnode
      · exact hne heq
      · exact (h.pools.region _ (List.mem_flatMap.mpr ⟨q, hsub hq, hfreed⟩)).2
          (List.mem_flatMap.mpr ⟨p, hp, List.mem_map_of_mem (f := Memnode.addr) hn⟩)
      · exact h.pools.node_apart hp (hsub hq) hne hn hnode
    · -- the region at the memnode's address is the memnode's
      refine h.pools.frame_region hsub hframe hp hout hn ?_
      rcases Span.eq_or_disjoint h.pools.live.disjoint hr ((h.pools.pool p hp).held n hn) with
        heq | hdis
      · rwa [← heq]
      · have hfields := ((h.pools.pool p hp).wf.node n hn).fields_within
        simp only [Span.Disjoint, Span.Within, Span.Covers, Memnode.region, sizeofMemnode] at *
        omega

/-- The pools of a call are among the others, and its events are a walk's. -/
theorem clear_walk (cs : Forest Pool) : WalkOf plat (enteredTree plat thread p cs)
    (clearEvents plat thread p (clearLog plat thread cs)) := by
  have hmem : ∀ e : Event, e.isHold = true →
      (e ∈ clearEvents plat thread p (clearLog plat thread cs) ↔
        ∃ q ∈ enteredTree plat thread p cs, ClearDrops plat e q) :=
    fun e he => hold_clearEvents he (hold_clearLog he)
  refine ⟨fun q hq => Or.inl ((hmem _ rfl).mpr ⟨q, hq, Or.inl rfl⟩),
    fun q hq a ha => (hmem _ rfl).mpr ⟨q, hq, Or.inr ⟨a, ha, rfl⟩⟩, fun e he hhold => ?_⟩
  obtain ⟨q, hq, hdrop | hdrop⟩ := (hmem e hhold).mp he
  · exact ⟨q, hq, Or.inl hdrop⟩
  · exact ⟨q, hq, Or.inr (Or.inr (Or.inl hdrop))⟩

theorem destroy_walk (cs : Forest Pool) : WalkOf plat (enteredTree plat thread p cs)
    (destroyEvents plat .plain thread p (destroyLog plat .plain thread cs)) := by
  have hmem : ∀ e : Event, e.isHold = true →
      (e ∈ destroyEvents plat .plain thread p (destroyLog plat .plain thread cs) ↔
        ∃ q ∈ enteredTree plat thread p cs, DestroyDrops plat e q) :=
    fun e he => hold_destroyEvents he (hold_destroyLog he)
  refine ⟨fun q hq => Or.inr ((hmem _ rfl).mpr ⟨q, hq, Or.inl rfl⟩),
    fun q hq a ha => (hmem _ rfl).mpr ⟨q, hq, Or.inr (Or.inl ⟨a, ha, rfl⟩)⟩, fun e he hhold => ?_⟩
  obtain ⟨q, hq, hdrop | hdrop⟩ := (hmem e hhold).mp he
  · exact ⟨q, hq, Or.inr (Or.inl hdrop)⟩
  · exact ⟨q, hq, Or.inr (Or.inr hdrop)⟩

/-- A walk registers no memnode. -/
theorem WalkOf.registered (h : WalkOf plat gone evs) (q n : Nat) :
    Event.registered q n ∉ evs := by
  intro hin
  obtain ⟨q, -, he | he | ⟨a, -, he⟩ | ⟨a, -, he⟩⟩ := h.all _ hin rfl
  · cases he
  · cases he
  · cases he
  · simp [deallocEvents] at he

theorem Inv.clear_spares {pool : Nat} (thread : Nat) (h : Inv plat s f) (hpool : pool ∈ s.addrs) :
    ∃ w', sprPoolClear plat thread pool s.world = .ok () w' ∧
      Spares plat s.world w' (s.reach plat thread pool) ∧
      ∀ m, m ∈ heldNodes w'.log ↔ m ∈ heldNodes s.world.log := by
  obtain ⟨p, hp, rfl⟩ := h.find hpool
  obtain ⟨rest, hold, -, -⟩ := Forest.split_at h.nodup hp
  have hlink := rooted_childrenAt h.rooted h.nodup hp
  have hat := h.pools.perm hold
  obtain ⟨w', hrun, -, hlog, hkept⟩ := sprPoolClear_spec thread hlink hat
  have hwalk : WalkOf plat (enteredTree plat thread p (f.childrenAt Pool.addr p.addr)) _ :=
    clear_walk (f.childrenAt Pool.addr p.addr)
  have hsub : enteredTree plat thread p (f.childrenAt Pool.addr p.addr) ⊆ f.toList :=
    fun q hq => hold.mem_iff.mpr (enteredTree_subset hq)
  refine ⟨w', hrun, ?_, fun m => ?_⟩
  · rw [h.reach hp]
    exact h.spares hsub (sprPoolClear_frame hlink hat hrun) hlog hkept hwalk
  · rw [hlog, mem_heldNodes hwalk.registered]
    refine and_iff_left fun hin => ?_
    rcases (hold_clearEvents rfl (hold_clearLog rfl)).mp hin with ⟨q, -, hdrop | ⟨a, -, hdrop⟩⟩
    · cases hdrop
    · cases hdrop

theorem Inv.destroy_spares {pool : Nat} (thread : Nat) (h : Inv plat s f) (hpool : pool ∈ s.addrs) :
    ∃ w', sprPoolDestroy plat thread pool s.world = .ok () w' ∧
      Spares plat s.world w' (s.reach plat thread pool) ∧
      (s.Shelved → ∀ m, m ∈ heldNodes w'.log ↔
        m ∈ heldNodes s.world.log ∧ m.1 ∉ s.reach plat thread pool) := by
  obtain ⟨p, hp, rfl⟩ := h.find hpool
  obtain ⟨rest, hold, -, -⟩ := Forest.split_at h.nodup hp
  have hlink := rooted_childrenAt h.rooted h.nodup hp
  have hat := h.pools.perm hold
  obtain ⟨w', hrun, -, hlog, hkept⟩ := sprPoolDestroy_spec .plain thread hlink hat
  have hwalk : WalkOf plat (enteredTree plat thread p (f.childrenAt Pool.addr p.addr)) _ :=
    destroy_walk (f.childrenAt Pool.addr p.addr)
  have hsub : enteredTree plat thread p (f.childrenAt Pool.addr p.addr) ⊆ f.toList :=
    fun q hq => hold.mem_iff.mpr (enteredTree_subset hq)
  refine ⟨w', hrun, ?_, fun hshelved m => ?_⟩
  · rw [h.reach hp]
    exact h.spares hsub (sprPoolDestroy_frame hlink hat hrun) hlog hkept hwalk
  · rw [hlog, mem_heldNodes hwalk.registered, h.reach hp]
    refine and_congr_right fun hm => ?_
    obtain ⟨q, hq, hqm, hnode⟩ := (h.nodes.held m.1 m.2).mp hm
    have hslots : m.2 ∈ q.slotAddrs 0 := (mem_slotAddrs (h.shelved_iff.mp hshelved q hq)).mpr hnode
    -- the memnodes of a pool that is reached are all in its slots
    refine not_congr ⟨fun hin => ?_, fun hin => ?_⟩
    · rcases (hold_destroyEvents rfl (hold_destroyLog rfl)).mp hin with
        ⟨q', hq', hdrop | ⟨a, -, hdrop⟩ | ⟨a, ha, hdrop⟩⟩
      · cases hdrop
      · cases hdrop
      · obtain rfl : m.2 = a := by simpa [deallocEvents] using hdrop
        by_contra hout
        obtain ⟨n, hn, heq⟩ := List.mem_map.mp hnode
        refine h.pools.node_apart hq (hsub hq') (fun heq => hout ?_) hn
          (heq ▸ Pool.slotAddrs_nodes ha)
        rw [← hqm, heq]
        exact List.mem_map_of_mem hq'
    · obtain ⟨q', hq', haddr⟩ := List.mem_map.mp hin
      obtain rfl : q' = q := List.inj_on_of_nodup_map h.nodup (hsub hq') hq (haddr.trans hqm.symm)
      exact (hold_destroyEvents rfl (hold_destroyLog rfl)).mpr
        ⟨q', hq', Or.inr (Or.inr ⟨m.2, hslots, by simp [deallocEvents]⟩)⟩

end Spares

end Spr.MemPool
