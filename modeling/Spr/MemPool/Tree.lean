import Spr.Framework.Forest
import Spr.MemPool.Family

/-! # `spr_pool_clear` and `spr_pool_destroy`

    Both run over the tree below a pool: its handlers, then its children, then
    its memnodes.

    * `LinkedPools`: the words `child` and `brother` make up a forest.
    * `clearPool_spec`, `clearBrothers`: clearing, which passes over pools of
      other threads.
    * `destroyPool_spec`, `destroyBrothers`: destroying; the trees of other
      threads are spared. -/

namespace Spr.MemPool

open Spr.Words Spr.Chains Spr.Forests

/-! ## Section 1: Forests of pools -/

/-- The brothers from `start` on, with all that is below them. -/
def LinkedPools : Nat → Forest Pool → Prop := Linked Pool.addr Pool.child Pool.brother

/-- The trees of the family. -/
def RootedPools : Forest Pool → Prop := Rooted Pool.addr Pool.child Pool.brother

/-- The pool is the thread's. -/
def Owned (plat : Platform) (thread : Nat) (p : Pool) : Prop :=
  plat.threadSafety = true → p.owner = thread

instance (plat : Platform) (thread : Nat) (p : Pool) : Decidable (Owned plat thread p) :=
  inferInstanceAs (Decidable (_ → _))

theorem PoolAt.addr_ne_null {plat : Platform} {w : World} {p : Pool} (h : PoolAt plat w p) :
    p.addr ≠ 0 := by
  have := (Pool.home_addr h.wf).2
  simp only [sizeofMemnode] at this
  omega

theorem PoolAt.addr_lt {plat : Platform} {w : World} {p : Pool} (h : PoolAt plat w p) :
    p.addr < wordMod := by
  obtain ⟨home, hhome, haddr, hend⟩ := h.wf.home
  have hupper := (h.wf.node home hhome).upper
  have hfits := (h.wf.node home hhome).fits
  omega

/-- Pools side by side are fewer than the address space. -/
theorem PoolsAt.length_lt {plat : Platform} {w : World} {ps : List Pool} (h : PoolsAt plat w ps) :
    ps.length < addressSpace := by
  have hlt := length_lt_of_nodup h.addrs_nodup (fun a ha => ?_) fun a ha => ?_
  · rwa [List.length_map] at hlt
  · obtain ⟨p, hp, rfl⟩ := List.mem_map.mp ha
    exact (h.pool p hp).addr_lt
  · obtain ⟨p, hp, rfl⟩ := List.mem_map.mp ha
    exact (h.pool p hp).addr_ne_null

/-- A pool without a first child has none. -/
theorem linkedPools_null {plat : Platform} {w : World} {f : Forest Pool} {ps : List Pool}
    (h : LinkedPools 0 f) (hat : PoolsAt plat w ps) (hsub : ∀ p ∈ f.toList, p ∈ ps) : f = .nil := by
  cases f with
  | nil => rfl
  | node p cs bs => exact absurd h.1.symm (hat.pool p (hsub p List.mem_cons_self)).addr_ne_null

/-- What looking at the owner logs. -/
def ownerEvents (plat : Platform) (rd : Reader) (p : Pool) : List Event :=
  if plat.threadSafety then rd.events (p.addr + 208) true else []

@[simp] theorem ownerEvents_plain (plat : Platform) (p : Pool) :
    ownerEvents plat .plain p = [] := by
  simp [ownerEvents]

theorem notOwner_run {plat : Platform} {w : World} {p : Pool} (rd : Reader) (h : PoolAt plat w p)
    (thread : Nat) :
    notOwner plat rd.run thread p.addr w
      = .ok (decide ¬ Owned plat thread p) (w.emits (ownerEvents plat rd p)) := by
  unfold notOwner Owned ownerEvents
  by_cases hs : plat.threadSafety = true
  · have hlive : w.isLive (p.addr + 208) = true := h.header_live (by
      rw [sizeofPool_safe hs]
      omega)
    simp [hs, h.rep.header.owner hs, hlive]
  · simp [hs]

/-- What stays given out, by what has been logged. -/
def KeptBy (evs : List Event) (w w' : World) : Prop :=
  ∀ s ∈ w.live, Event.freed s.start ∉ evs → s ∈ w'.live

theorem KeptBy.of_live {evs : List Event} {w w' : World} (h : w'.live = w.live) :
    KeptBy evs w w' := fun s hs _ => by rwa [h]

/-- **The children of a pool**, if there are any: what the visit does to brothers it does
    to them. -/
theorem visit_children {plat : Platform} {rd : Nat → Act Nat} {visit : Nat → Act Unit}
    {cs : Forest Pool} {left : List Pool} {evs : List Event}
    (hvisit : ∀ (fuel : Nat) {start : Nat} {w : World} {rest : List Pool}, LinkedPools start cs →
      PoolsAt plat w (cs.toList ++ rest) → cs.toList.length < fuel →
      ∃ w', visitBrothers rd visit fuel start w = .ok () w' ∧ PoolsAt plat w' (left ++ rest) ∧
        w'.log = w.log ++ evs ∧ KeptBy evs w w')
    (hnone : cs = .nil → left = [] ∧ evs = []) {child : Nat} (hlink : LinkedPools child cs)
    {w : World} {p : Pool} {rest : List Pool} (h : PoolsAt plat w (p :: (cs.toList ++ rest))) :
    ∃ w', (if child ≠ 0 then visitBrothers rd visit addressSpace child else pure ()) w
        = .ok () w' ∧
      PoolsAt plat w' (p :: (left ++ rest)) ∧ w'.log = w.log ++ evs ∧ KeptBy evs w w' := by
  by_cases hnull : child = 0
  · have hnil : cs = .nil := by
      rw [hnull] at hlink
      exact linkedPools_null hlink h fun q hq =>
        List.mem_cons_of_mem _ (List.mem_append_left _ hq)
    obtain ⟨rfl, rfl⟩ := hnone hnil
    rw [hnil] at h
    exact ⟨w, by rw [if_neg (by simpa using hnull)]; rfl, h, (List.append_nil _).symm,
      KeptBy.of_live rfl⟩
  · obtain ⟨w', hrun, hat, hlog, hkept⟩ := hvisit addressSpace hlink
      (h.perm List.perm_middle.symm) (by
        have := h.length_lt
        simp only [List.length_cons, List.length_append] at this
        omega)
    exact ⟨w', by rw [if_pos hnull]; exact hrun, hat.perm List.perm_middle, hlog, hkept⟩

theorem mem_callEvents {plat : Platform} {rs : List Record} {a : Nat} :
    Event.freed a ∈ rs.flatMap (callEvents plat) ↔ a ∈ freedBy plat rs := by
  rw [mem_freedBy, List.mem_flatMap]
  refine exists_congr fun r => and_congr_right fun _ => ?_
  unfold callEvents
  by_cases hf : r.handler = plat.sprFree
  · simp [hf, eq_comm]
  · simp [hf]

/-! ## Section 2: Clearing -/

/-- The pool after `spr_pool_clear`. -/
def Pool.clear (p : Pool) : Pool := p.flush.rewind (p.flush.slotAddrs 0)

/-- The forest after `spr_pool_clear` has gone over it: trees of other threads are
    passed over. -/
def clearForest (plat : Platform) (thread : Nat) : Forest Pool → Forest Pool
  | .nil => .nil
  | .node p cs bs =>
      if Owned plat thread p then
        .node p.clear (clearForest plat thread cs) (clearForest plat thread bs)
      else .node p cs (clearForest plat thread bs)

/-- The pool and its children after `spr_pool_clear`. -/
def clearTree (plat : Platform) (thread : Nat) (p : Pool) (cs : Forest Pool) :
    Pool × Forest Pool :=
  if Owned plat thread p then (p.clear, clearForest plat thread cs) else (p, cs)

/-- What clearing a pool logs, given what its children log. -/
def clearEvents (plat : Platform) (thread : Nat) (p : Pool) (inner : List Event) : List Event :=
  .visited p.addr :: if Owned plat thread p then
    lockEvents plat thread p ++ p.cleanups.flatMap (callEvents plat) ++ inner ++
      (p.slotAddrs 0).map .reset ++ .cleared p.addr :: unlockEvents plat thread p
  else []

/-- What clearing the pools of a forest logs. -/
def clearLog (plat : Platform) (thread : Nat) : Forest Pool → List Event
  | .nil => []
  | .node p cs bs =>
      .followed p.addr :: clearEvents plat thread p (clearLog plat thread cs)
        ++ clearLog plat thread bs

@[simp] theorem clear_addr (p : Pool) : p.clear.addr = p.addr := rfl
@[simp] theorem clear_child (p : Pool) : p.clear.child = p.child := rfl
@[simp] theorem clear_brother (p : Pool) : p.clear.brother = p.brother := rfl
@[simp] theorem clear_owner (p : Pool) : p.clear.owner = p.owner := rfl
@[simp] theorem clear_mutex (p : Pool) : p.clear.mutex = p.mutex := rfl

@[simp] theorem flush_addr (p : Pool) : p.flush.addr = p.addr := rfl
@[simp] theorem flush_slotAddrs (p : Pool) (i : Nat) : p.flush.slotAddrs i = p.slotAddrs i := rfl

@[simp] theorem clear_unlockEvents (plat : Platform) (thread : Nat) (p : Pool) :
    unlockEvents plat thread p.clear = unlockEvents plat thread p := rfl

/-- What visiting the brothers of a forest does to it. -/
def ClearsBrothers (plat : Platform) (thread depth : Nat) (f : Forest Pool) : Prop :=
  ∀ (fuel : Nat) {start : Nat} {w : World} {rest : List Pool}, LinkedPools start f →
    PoolsAt plat w (f.toList ++ rest) → f.toList.length < fuel →
    ∃ w', visitBrothers load (clearDepth plat thread depth) fuel start w = .ok () w' ∧
      PoolsAt plat w' ((clearForest plat thread f).toList ++ rest) ∧
      w'.log = w.log ++ clearLog plat thread f ∧ KeptBy (clearLog plat thread f) w w'

/-- **`spr_pool_clear` on one pool**, given what it does to the children. -/
theorem clearPool_spec {plat : Platform} {thread depth : Nat} {p : Pool} {cs : Forest Pool}
    {w : World} {rest : List Pool} (hvisit : ClearsBrothers plat thread depth cs)
    (hlink : LinkedPools p.child cs) (h : PoolsAt plat w (p :: (cs.toList ++ rest))) :
    ∃ w', clearDepth plat thread (depth + 1) p.addr w = .ok () w' ∧
      PoolsAt plat w' ((clearTree plat thread p cs).1 ::
        ((clearTree plat thread p cs).2.toList ++ rest)) ∧
      w'.log = w.log ++ clearEvents plat thread p (clearLog plat thread cs) ∧
      KeptBy (clearEvents plat thread p (clearLog plat thread cs)) w w' := by
  have hp := h.pool p List.mem_cons_self
  have hv := h.of_eq (v := w.emit (.visited p.addr)) rfl rfl
  have hpv := hv.pool p List.mem_cons_self
  by_cases howned : Owned plat thread p
  · -- the owner: handlers, children, memnodes
    have hl := hv.of_eq (v := (w.emit (.visited p.addr)).emits (lockEvents plat thread p)) rfl rfl
    have hpl := hl.pool p List.mem_cons_self
    obtain ⟨w₁, hrun₁, hm₁, hlive₁, hlog₁⟩ :=
      runAll_moves .plain hpl (hl.keeps List.mem_cons_self List.mem_cons_self)
    rw [Reader.plain_run] at hrun₁
    rw [runAllEvents_plain] at hlog₁
    have howner := notOwner_run .plain hpv thread
    rw [Reader.plain_run, ownerEvents_plain, emits_nil] at howner
    have h₁ := hl.step hm₁ (.of_subset fun a ha => by cases ha)
    have hchild : w₁.mem (p.addr + 176) = p.child := hm₁.place.rep.header.child
    obtain ⟨w₂, hrun₂, h₂, hlog₂, hkept₂⟩ := visit_children hvisit
      (by rintro rfl; exact ⟨rfl, rfl⟩) hlink h₁
    -- the memnodes of a flushed pool are rewound
    obtain ⟨w₃, hrun₃, hm₃, hlive₃, hlog₃⟩ := resetSlots_moves (h₂.pool _ List.mem_cons_self)
      (h₂.registered List.mem_cons_self)
    have h₃ : PoolsAt plat w₃ (p.clear :: ((clearForest plat thread cs).toList ++ rest)) :=
      h₂.step hm₃ (.of_subset fun a ha => ha)
    have hp₃ : PoolAt plat w₃ p.clear := hm₃.place
    have hunlock := unlockPool_run (hp₃.of_eq (v := w₃.emit (.cleared p.addr)) rfl rfl) thread
    rw [clear_addr, clear_unlockEvents] at hunlock
    rw [flush_addr] at hrun₃
    refine ⟨(w₃.emit (.cleared p.addr)).emits (unlockEvents plat thread p), ?_, ?_, ?_, ?_⟩
    · by_cases hnull : p.child = 0
      · rw [if_neg (by simpa using hnull)] at hrun₂
        obtain rfl : w₁ = w₂ := by simpa using hrun₂
        simp [clearDepth, howner, howned, lockPool_run hpv, hrun₁, hchild, hnull, hrun₃,
          hunlock]
      · rw [if_pos hnull] at hrun₂
        simp [clearDepth, howner, howned, lockPool_run hpv, hrun₁, hchild, hnull, hrun₂,
          hrun₃, hunlock]
    · rw [clearTree, if_pos howned]
      exact h₃.of_eq rfl rfl
    · rw [clearEvents, if_pos howned]
      rw [emits_log, emit_log, hlog₃, hlog₂, hlog₁, flush_slotAddrs]
      simp
    · rw [clearEvents, if_pos howned]
      intro s hs hout
      simp only [List.mem_cons, List.mem_append, not_or] at hout
      show s ∈ w₃.live
      rw [hlive₃]
      refine hkept₂ s (hm₁.kept s hs fun hin => ?_) hout.2.1.1.2
      exact hout.2.1.1.1.2 (mem_callEvents.mpr hin)
  · refine ⟨w.emit (.visited p.addr), ?_, ?_, ?_, KeptBy.of_live rfl⟩
    · have howner := notOwner_run .plain hpv thread
      rw [Reader.plain_run, ownerEvents_plain, emits_nil] at howner
      simp [clearDepth, howner, howned]
    · rw [clearTree, if_neg howned]
      exact hv
    · rw [clearEvents, if_neg howned]
      rfl

/-- **`spr_pool_clear` on all brothers**, by induction on the forest. -/
theorem clearBrothers {plat : Platform} {thread : Nat} {f : Forest Pool} :
    ∀ (depth : Nat), f.toList.length ≤ depth → ClearsBrothers plat thread depth f := by
  induction f with
  | nil =>
    intro depth _ fuel start w rest hlink h hfuel
    obtain ⟨fuel, rfl⟩ : ∃ k, fuel = k + 1 := ⟨fuel - 1, by omega⟩
    obtain rfl : start = 0 := hlink
    exact ⟨w, by simp [visitBrothers], h, by simp [clearLog], KeptBy.of_live rfl⟩
  | node p cs bs ihc ihb =>
    intro depth hdepth fuel start w rest hlink h hfuel
    simp only [Forest.toList_node, List.length_cons, List.length_append] at hdepth hfuel
    obtain ⟨depth, rfl⟩ : ∃ d, depth = d + 1 := ⟨depth - 1, by omega⟩
    obtain ⟨fuel, rfl⟩ : ∃ k, fuel = k + 1 := ⟨fuel - 1, by omega⟩
    obtain ⟨rfl, hchildren, hbrothers⟩ := hlink
    have hne := (h.pool p List.mem_cons_self).addr_ne_null
    have hbrother : w.mem (p.addr + 168) = p.brother :=
      (h.pool p List.mem_cons_self).rep.header.brother
    -- the pool and what is below it
    have h₀ : PoolsAt plat (w.emit (.followed p.addr))
        (p :: (cs.toList ++ (bs.toList ++ rest))) := by
      have := h.of_eq (v := w.emit (.followed p.addr)) rfl rfl
      rwa [Forest.toList_node, List.cons_append, List.append_assoc] at this
    obtain ⟨w₁, hrun₁, h₁, hlog₁, hkept₁⟩ := clearPool_spec
      (ihc depth (by omega)) hchildren h₀
    -- its brothers
    have hswap : ((clearTree plat thread p cs).1 :: ((clearTree plat thread p cs).2.toList ++
        (bs.toList ++ rest))).Perm (bs.toList ++ ((clearTree plat thread p cs).1 ::
          ((clearTree plat thread p cs).2.toList ++ rest))) := by
      classical
      rw [List.perm_iff_count]
      intro x
      simp only [List.count_cons, List.count_append]
      omega
    obtain ⟨w₂, hrun₂, h₂, hlog₂, hkept₂⟩ :=
      ihb (depth + 1) (by omega) fuel hbrothers (h₁.perm hswap) (by omega)
    refine ⟨w₂, ?_, h₂.perm ?_, ?_, ?_⟩
    · simp [visitBrothers, hne, hbrother, hrun₁, hrun₂]
    · have hforest : (clearForest plat thread (.node p cs bs)).toList
          = (clearTree plat thread p cs).1 :: ((clearTree plat thread p cs).2.toList ++
            (clearForest plat thread bs).toList) := by
        rw [clearForest, clearTree]
        split <;> rfl
      classical
      rw [hforest, List.perm_iff_count]
      intro x
      simp only [List.cons_append, List.count_cons, List.count_append]
      omega
    · rw [hlog₂, hlog₁]
      simp [clearLog]
    · intro s hs hout
      simp only [clearLog, List.cons_append, List.mem_cons, List.mem_append, not_or] at hout
      exact hkept₂ s (hkept₁ s hs hout.2.1) hout.2.2

/-- **`spr_pool_clear`.** -/
theorem sprPoolClear_spec {plat : Platform} (thread : Nat) {p : Pool} {cs : Forest Pool} {w : World}
    {rest : List Pool} (hlink : LinkedPools p.child cs)
    (h : PoolsAt plat w (p :: (cs.toList ++ rest))) :
    ∃ w', sprPoolClear plat thread p.addr w = .ok () w' ∧
      PoolsAt plat w' ((clearTree plat thread p cs).1 ::
        ((clearTree plat thread p cs).2.toList ++ rest)) ∧
      w'.log = w.log ++ clearEvents plat thread p (clearLog plat thread cs) ∧
      KeptBy (clearEvents plat thread p (clearLog plat thread cs)) w w' := by
  have hlen := h.length_lt
  simp only [List.length_cons, List.length_append] at hlen
  obtain ⟨d, hd⟩ : ∃ d, addressSpace = d + 1 := ⟨addressSpace - 1, by omega⟩
  rw [sprPoolClear, hd]
  exact clearPool_spec (clearBrothers d (by omega)) hlink h

/-! ## Section 3: Destroying -/

/-- What destroying a pool logs, given what its children log. -/
def destroyEvents (plat : Platform) (rd : Reader) (thread : Nat) (p : Pool) (inner : List Event) :
    List Event :=
  .visited p.addr :: (ownerEvents plat rd p ++ if Owned plat thread p then
    runAllEvents plat rd p ++ rd.events (p.addr + 176) true ++ inner ++
      releaseEvents rd p [] 0 sprMaxPoolSlot ++ [.destroyed p.addr]
  else [])

/-- What destroying the pools of a forest logs. -/
def destroyLog (plat : Platform) (rd : Reader) (thread : Nat) : Forest Pool → List Event
  | .nil => []
  | .node p cs bs =>
      .followed p.addr :: rd.events (p.addr + 168) true ++
        destroyEvents plat rd thread p (destroyLog plat rd thread cs) ++
        destroyLog plat rd thread bs

/-- What is left of the forest: the trees of other threads. -/
def spared (plat : Platform) (thread : Nat) : Forest Pool → List Pool
  | .nil => []
  | .node p cs bs =>
      (if Owned plat thread p then spared plat thread cs else p :: cs.toList) ++
        spared plat thread bs

/-- What is left of the tree of a pool. -/
def sparedTree (plat : Platform) (thread : Nat) (p : Pool) (cs : Forest Pool) : List Pool :=
  if Owned plat thread p then spared plat thread cs else p :: cs.toList

theorem destroyEvents_plain {plat : Platform} {thread : Nat} {p : Pool}
    (howned : Owned plat thread p) (inner : List Event) :
    destroyEvents plat .plain thread p inner
      = .visited p.addr :: (p.cleanups.flatMap (callEvents plat) ++ inner ++
        (p.slotAddrs 0).flatMap deallocEvents ++ [.destroyed p.addr]) := by
  simp [destroyEvents, releaseEvents_plain, howned]

/-- Nothing is left of a forest that is the thread's. -/
theorem spared_owned {plat : Platform} {thread : Nat} {f : Forest Pool}
    (howned : ∀ p ∈ f.toList, Owned plat thread p) : spared plat thread f = [] := by
  induction f with
  | nil => rfl
  | node p cs bs ihc ihb =>
    rw [spared, if_pos (howned p List.mem_cons_self),
      ihc fun q hq => howned q (List.mem_cons_of_mem _ (List.mem_append_left _ hq)),
      ihb fun q hq => howned q (List.mem_cons_of_mem _ (List.mem_append_right _ hq))]
    rfl

/-- **A pool whose memnodes are deallocated is gone**, and the others stay. -/
theorem PoolsAt.deallocate {plat : Platform} {w : World} {p : Pool} {rest : List Pool}
    (addrs : List Nat) (h : PoolsAt plat w (p :: rest)) (haddrs : ∀ a ∈ addrs, a ∈ p.nodeAddrs) :
    PoolsAt plat (w.deallocates addrs) rest := by
  have hnodes := h.apart
  rw [List.flatMap_cons, List.nodup_append] at hnodes
  have hlive : LiveOk (w.deallocates addrs).live := by
    rw [deallocates_live]
    exact ⟨h.live.disjoint.filter _, fun s hs => h.live.bounded s (List.mem_of_mem_filter hs)⟩
  have hkept : ∀ s ∈ w.live, s.start ∉ p.nodeAddrs → s ∈ (w.deallocates addrs).live := by
    intro s hs hout
    rw [deallocates_live, List.mem_filter]
    exact ⟨hs, by simpa using fun hin => hout (haddrs _ hin)⟩
  refine ⟨fun q hq => ?_, hnodes.2.1, h.tail.once, fun a ha => ?_, hlive⟩
  · have hq' := h.tail.pool q hq
    refine hq'.congr (fun b _ => by rw [deallocates_mem]) (fun n hn => ?_) hlive
    refine hkept _ (hq'.held n hn) fun hin => ?_
    exact hnodes.2.2 _ hin _ (List.mem_flatMap.mpr ⟨q, hq, List.mem_map_of_mem hn⟩) rfl
  · obtain ⟨⟨s, hs, rfl⟩, hout⟩ := h.tail.region a ha
    have hall := (h.region s.start (by
      rw [List.flatMap_cons]
      exact List.mem_append_right _ ha)).2
    rw [List.flatMap_cons, List.mem_append, not_or] at hall
    exact ⟨⟨s, hkept s hs hall.1, rfl⟩, hout⟩

/-- What visiting the brothers of a forest does to it. -/
def DestroysBrothers (plat : Platform) (rd : Reader) (thread depth : Nat) (f : Forest Pool) :
    Prop :=
  ∀ (fuel : Nat) {start : Nat} {w : World} {rest : List Pool}, LinkedPools start f →
    PoolsAt plat w (f.toList ++ rest) → f.toList.length < fuel →
    ∃ w', visitBrothers rd.run (destroyDepth plat rd.run thread depth) fuel start w = .ok () w' ∧
      PoolsAt plat w' (spared plat thread f ++ rest) ∧
      w'.log = w.log ++ destroyLog plat rd thread f ∧ KeptBy (destroyLog plat rd thread f) w w'

/-- The addresses that the loop of `spr_pool_destroy` gives back are logged. -/
theorem freed_mem_releaseEvents {rd : Reader} {p : Pool} {a n : Nat} :
    ∀ {gone : List Nat} {i : Nat}, i + n = sprMaxPoolSlot → a ∈ p.slotAddrs i →
      Event.freed a ∈ releaseEvents rd p gone i n := by
  induction n with
  | zero =>
    intro gone i hi ha
    obtain rfl : i = sprMaxPoolSlot := by omega
    cases ha
  | succ n ih =>
    intro gone i hi ha
    rw [Pool.slotAddrs_step p (by omega), List.mem_append] at ha
    rw [releaseEvents, List.mem_append, List.mem_append]
    rcases ha with ha | ha
    · refine Or.inl (Or.inr (List.mem_flatMap.mpr ⟨a, ha, ?_⟩))
      exact List.mem_append_right _ (by simp [deallocEvents])
    · exact Or.inr (ih (by omega) ha)

theorem freed_mem_runAllEvents {plat : Platform} {rd : Reader} {p : Pool} {a : Nat}
    (ha : a ∈ p.freed plat) : Event.freed a ∈ runAllEvents plat rd p := by
  obtain ⟨r, hr, hf, rfl⟩ := mem_freedBy.mp ha
  refine List.mem_append_right _ (List.mem_flatMap.mpr ⟨r, hr, List.mem_append_left _ ?_⟩)
  simp [callEvents, hf]

/-- The memnodes in the slots are in different places. -/
theorem slotAddrs_nodup {p : Pool} (h : p.nodeAddrs.Nodup) : (p.slotAddrs 0).Nodup := by
  rw [Pool.nodeAddrs, Pool.nodes_eq, List.map_append] at h
  exact h.of_append_left

/-- **`spr_pool_destroy` on one pool**, given what it does to the children. -/
theorem destroyPool_spec {plat : Platform} {rd : Reader} {thread depth : Nat} {p : Pool}
    {cs : Forest Pool} {w : World} {rest : List Pool}
    (hvisit : DestroysBrothers plat rd thread depth cs) (hlink : LinkedPools p.child cs)
    (h : PoolsAt plat w (p :: (cs.toList ++ rest))) :
    ∃ w', destroyDepth plat rd.run thread (depth + 1) p.addr w = .ok () w' ∧
      PoolsAt plat w' (sparedTree plat thread p cs ++ rest) ∧
      w'.log = w.log ++ destroyEvents plat rd thread p (destroyLog plat rd thread cs) ∧
      KeptBy (destroyEvents plat rd thread p (destroyLog plat rd thread cs)) w w' := by
  have hlow := le_sizeofPool plat
  have hpv := (h.pool p List.mem_cons_self).of_eq (v := w.emit (.visited p.addr)) rfl rfl
  have howner := notOwner_run rd hpv thread
  have hv := h.of_eq (v := (w.emit (.visited p.addr)).emits (ownerEvents plat rd p)) rfl rfl
  by_cases howned : Owned plat thread p
  swap
  · -- a pool of another thread is passed over
    refine ⟨(w.emit (.visited p.addr)).emits (ownerEvents plat rd p), ?_, ?_, ?_,
      KeptBy.of_live rfl⟩
    · simp [destroyDepth, howner, howned]
    · rw [sparedTree, if_neg howned]
      exact hv
    · simp [destroyEvents, howned]
  obtain ⟨w₁, hrun₁, hm₁, hlive₁, hlog₁⟩ := runAll_moves rd (hv.pool p List.mem_cons_self)
    (hv.keeps List.mem_cons_self List.mem_cons_self)
  have h₁ := (hv.step hm₁ (.of_subset fun a ha => by cases ha)).of_eq
    (v := w₁.emits (rd.events (p.addr + 176) true)) rfl rfl
  have hchild : w₁.mem (p.addr + 176) = p.child := hm₁.place.rep.header.child
  have hread : w₁.isLive (p.addr + 176) = true := hm₁.place.header_live (by omega)
  obtain ⟨w₂, hrun₂, h₂, hlog₂, hkept₂⟩ := visit_children hvisit
    (by rintro rfl; exact ⟨rfl, rfl⟩) hlink h₁
  -- the memnodes are given back
  have hp₂ := h₂.pool _ List.mem_cons_self
  obtain ⟨w₃, hrun₃, hmem₃, hlive₃, hlog₃⟩ := releaseSlots_run rd (w := w₂) (i := 0)
    (n := sprMaxPoolSlot) hp₂ rfl (show w₂.live = w₂.live.filter fun s => s.start ∉ [] by simp)
    (fun _ _ => List.not_mem_nil) (slotAddrs_nodup hp₂.wf.nodup) rfl
  have h₃ := (PoolsAt.deallocate (p.slotAddrs 0) h₂ fun a ha =>
    Pool.slotAddrs_nodes (show a ∈ p.slotAddrs 0 from ha)).of_eq (v := w₃)
      (by rw [hmem₃, deallocates_mem]) (by rw [hlive₃, deallocates_live, flush_slotAddrs])
  have hevents : releaseEvents rd p.flush [] 0 sprMaxPoolSlot
      = releaseEvents rd p [] 0 sprMaxPoolSlot := releaseEvents_congr rfl rfl
  rw [flush_addr] at hrun₃
  rw [hevents] at hlog₃
  rw [flush_slotAddrs] at hlive₃
  refine ⟨w₃.emit (.destroyed p.addr), ?_, ?_, ?_, ?_⟩
  · by_cases hnull : p.child = 0
    · rw [if_neg (by simpa using hnull)] at hrun₂
      simp only [pure_run, EStateM.Result.ok.injEq, true_and] at hrun₂
      subst hrun₂
      simp [destroyDepth, howner, howned, hrun₁, hread, hchild, hnull, hrun₃]
    · rw [if_pos hnull] at hrun₂
      simp [destroyDepth, howner, howned, hrun₁, hread, hchild, hnull, hrun₂, hrun₃]
  · rw [sparedTree, if_pos howned]
    exact h₃.of_eq rfl rfl
  · rw [emit_log, hlog₃, hlog₂, emits_log, hlog₁]
    simp [destroyEvents, howned]
  · intro s hs hout
    rw [destroyEvents, if_pos howned] at hout
    simp only [List.mem_cons, List.mem_append, not_or] at hout
    show s ∈ w₃.live
    rw [hlive₃, List.mem_filter]
    refine ⟨hkept₂ s (hm₁.kept s hs fun hin => ?_) hout.2.2.1.1.2, decide_eq_true fun hin => ?_⟩
    · exact hout.2.2.1.1.1.1 (freed_mem_runAllEvents hin)
    · exact hout.2.2.1.2 (freed_mem_releaseEvents rfl hin)

/-- **`spr_pool_destroy` on all brothers**, by induction on the forest. -/
theorem destroyBrothers {plat : Platform} {rd : Reader} {thread : Nat} {f : Forest Pool} :
    ∀ (depth : Nat), f.toList.length ≤ depth → DestroysBrothers plat rd thread depth f := by
  induction f with
  | nil =>
    intro depth _ fuel start w rest hlink h hfuel
    obtain ⟨fuel, rfl⟩ : ∃ k, fuel = k + 1 := ⟨fuel - 1, by omega⟩
    obtain rfl : start = 0 := hlink
    exact ⟨w, by simp [visitBrothers], h, by simp [destroyLog], KeptBy.of_live rfl⟩
  | node p cs bs ihc ihb =>
    intro depth hdepth fuel start w rest hlink h hfuel
    simp only [Forest.toList_node, List.length_cons, List.length_append] at hdepth hfuel
    obtain ⟨depth, rfl⟩ : ∃ d, depth = d + 1 := ⟨depth - 1, by omega⟩
    obtain ⟨fuel, rfl⟩ : ∃ k, fuel = k + 1 := ⟨fuel - 1, by omega⟩
    obtain ⟨rfl, hchildren, hbrothers⟩ := hlink
    have hlow := le_sizeofPool plat
    have hne := (h.pool p List.mem_cons_self).addr_ne_null
    have hbrother : w.mem (p.addr + 168) = p.brother :=
      (h.pool p List.mem_cons_self).rep.header.brother
    have hread : (w.emit (.followed p.addr)).isLive (p.addr + 168) = true :=
      (h.pool p List.mem_cons_self).header_live (by omega)
    have h₀ : PoolsAt plat ((w.emit (.followed p.addr)).emits (rd.events (p.addr + 168) true))
        (p :: (cs.toList ++ (bs.toList ++ rest))) := by
      have := h.of_eq
        (v := (w.emit (.followed p.addr)).emits (rd.events (p.addr + 168) true)) rfl rfl
      rwa [Forest.toList_node, List.cons_append, List.append_assoc] at this
    obtain ⟨w₁, hrun₁, h₁, hlog₁, hkept₁⟩ := destroyPool_spec
      (ihc depth (by omega)) hchildren h₀
    -- the brothers come to the front
    have hswap : ∀ l : List Pool, (sparedTree plat thread p cs ++ (l ++ rest)).Perm
        (l ++ (sparedTree plat thread p cs ++ rest)) := by
      classical
      intro l
      rw [List.perm_iff_count]
      intro x
      simp only [List.count_append]
      omega
    obtain ⟨w₂, hrun₂, h₂, hlog₂, hkept₂⟩ := ihb (depth + 1) (by omega) fuel hbrothers
      (h₁.perm (hswap _)) (by omega)
    refine ⟨w₂, by simp [visitBrothers, hne, hread, hbrother, hrun₁, hrun₂], ?_, ?_, ?_⟩
    · have hall := h₂.perm (hswap _).symm
      rwa [← List.append_assoc] at hall
    · rw [hlog₂, hlog₁]
      simp [destroyLog]
    · intro s hs hout
      simp only [destroyLog, List.cons_append, List.mem_cons, List.mem_append, not_or] at hout
      exact hkept₂ s (hkept₁ s hs hout.2.1.2) hout.2.2

/-- **`spr_pool_destroy`.** -/
theorem sprPoolDestroy_spec {plat : Platform} (rd : Reader) (thread : Nat) {p : Pool}
    {cs : Forest Pool} {w : World} {rest : List Pool} (hlink : LinkedPools p.child cs)
    (h : PoolsAt plat w (p :: (cs.toList ++ rest))) :
    ∃ w', sprPoolDestroyWith plat rd.run thread p.addr w = .ok () w' ∧
      PoolsAt plat w' (sparedTree plat thread p cs ++ rest) ∧
      w'.log = w.log ++ destroyEvents plat rd thread p (destroyLog plat rd thread cs) ∧
      KeptBy (destroyEvents plat rd thread p (destroyLog plat rd thread cs)) w w' := by
  have hlen := h.length_lt
  simp only [List.length_cons, List.length_append] at hlen
  obtain ⟨d, hd⟩ : ∃ d, addressSpace = d + 1 := ⟨addressSpace - 1, by omega⟩
  rw [sprPoolDestroyWith, hd]
  exact destroyPool_spec (destroyBrothers d (by omega)) hlink h

end Spr.MemPool
