import Spr.MemPool.Contents
import Spr.MemPool.Refusals

/-! # What the walks over the tree leave alone

    `spr_pool_clear` and `spr_pool_destroy` go down the tree through pools of the
    calling thread only.

    * `entered`: the pools that such a walk goes into.
    * `FrameOf`: the memory outside the regions of some pools is as it was.
    * `sprPoolClear_frame`, `sprPoolDestroy_frame`: the walks write to the pools
      they reach, and to no others. -/

namespace Spr.MemPool

open Spr.Words Spr.Chains Spr.Forests

/-! ## Section 1: Reach -/

/-- The pools of the forest that a walk of the thread goes into. -/
def entered (plat : Platform) (thread : Nat) (f : Forest Pool) : List Pool :=
  f.descend (Owned plat thread)

/-- The pools that a walk of the thread from `p` on goes into. -/
def enteredTree (plat : Platform) (thread : Nat) (p : Pool) (cs : Forest Pool) : List Pool :=
  if Owned plat thread p then p :: entered plat thread cs else []

/-- The memory outside the regions of the pools is as it was. -/
def FrameOf (ps : List Pool) (w w' : World) : Prop :=
  ∀ b, (∀ p ∈ ps, ∀ n ∈ p.nodes, ¬ n.region.Covers b) → w'.mem b = w.mem b

section Frame

variable {plat : Platform} {thread : Nat} {w w₁ w' : World} {p p' : Pool} {ps qs : List Pool}

theorem entered_node (p : Pool) (cs bs : Forest Pool) :
    entered plat thread (.node p cs bs)
      = enteredTree plat thread p cs ++ entered plat thread bs := rfl

theorem FrameOf.of_mem (h : w'.mem = w.mem) : FrameOf ps w w' := fun b _ => by rw [h]

theorem FrameOf.mono (h : FrameOf ps w w') (hsub : ps ⊆ qs) : FrameOf qs w w' :=
  fun b hb => h b fun p hp => hb p (hsub hp)

theorem FrameOf.trans (h : FrameOf ps w w₁) (h' : FrameOf ps w₁ w') : FrameOf ps w w' :=
  fun b hb => (h' b hb).trans (h b hb)

/-- A call on one pool that ends with regions of the pool `q` only. -/
theorem Moves.frame_of {q : Pool} (h : Moves plat w w' p p') (hq : q ∈ ps)
    (hregions : ∀ n ∈ p'.nodes, ∃ m ∈ q.nodes, m.region = n.region) : FrameOf ps w w' := by
  intro b hb
  refine h.frame b fun n hn hc => ?_
  obtain ⟨m, hm, heq⟩ := hregions n hn
  exact hb q hq m hm (heq ▸ hc)

theorem flush_regions (p : Pool) : ∀ n ∈ p.flush.nodes, ∃ m ∈ p.nodes, m.region = n.region :=
  fun n hn => ⟨n, hn, rfl⟩

theorem clear_regions (p : Pool) : ∀ n ∈ p.clear.nodes, ∃ m ∈ p.nodes, m.region = n.region := by
  intro n hn
  rw [Pool.clear, Pool.rewind, mapNodes_nodes] at hn
  obtain ⟨m, hm, rfl⟩ := List.mem_map.mp hn
  refine ⟨m, hm, ?_⟩
  split <;> rfl

/-- What visiting the brothers of a forest writes to. -/
def FramesBrothers (plat : Platform) (thread : Nat) (visit : Nat → Act Unit) (f : Forest Pool) :
    Prop :=
  ∀ (fuel : Nat) {start : Nat} {w w' : World} {rest : List Pool}, LinkedPools start f →
    PoolsAt plat w (f.toList ++ rest) → visitBrothers load visit fuel start w = .ok () w' →
    FrameOf (entered plat thread f) w w'

/-- **The children of a pool**, if there are any. -/
theorem frame_children {visit : Nat → Act Unit} {cs : Forest Pool} {child : Nat}
    {rest : List Pool} (hframe : FramesBrothers plat thread visit cs)
    (hlink : LinkedPools child cs) (h : PoolsAt plat w (p :: (cs.toList ++ rest)))
    (hrun : (if child ≠ 0 then visitBrothers load visit addressSpace child else pure ()) w
      = .ok () w') : FrameOf (entered plat thread cs) w w' := by
  by_cases hnull : child = 0
  · rw [if_neg (by simpa using hnull)] at hrun
    obtain rfl : w = w' := by simpa using hrun
    exact FrameOf.of_mem rfl
  · rw [if_pos hnull] at hrun
    exact hframe addressSpace hlink (h.perm List.perm_middle.symm) hrun

/-- No brothers: nothing is done. -/
theorem visitBrothers_none {visit : Nat → Act Unit} {fuel : Nat}
    (hrun : visitBrothers load visit fuel 0 w = .ok () w') : FrameOf ps w w' := by
  cases fuel with
  | zero => cases hrun
  | succ fuel =>
    obtain rfl : w = w' := by simpa [visitBrothers] using hrun
    exact FrameOf.of_mem rfl

/-- The first brother is visited, then the others. -/
theorem visitBrothers_node {visit : Nat → Act Unit} {fuel : Nat} {cs bs : Forest Pool}
    {rest : List Pool} (h : PoolsAt plat w ((Forest.node p cs bs).toList ++ rest))
    (hrun : visitBrothers load visit fuel p.addr w = .ok () w') :
    ∃ fuel w₁, visit p.addr (w.emit (.followed p.addr)) = .ok () w₁ ∧
      visitBrothers load visit fuel p.brother w₁ = .ok () w' ∧
      PoolsAt plat (w.emit (.followed p.addr)) (p :: (cs.toList ++ (bs.toList ++ rest))) := by
  have hpw := h.pool p List.mem_cons_self
  have hbrother : w.mem (p.addr + 168) = p.brother := hpw.rep.header.brother
  cases fuel with
  | zero => cases hrun
  | succ fuel =>
    rw [visitBrothers, if_neg hpw.addr_ne_null, emit_bind, load_bind] at hrun
    obtain ⟨_, w₁, hvisit, hrest⟩ := bind_ok hrun
    rw [emit_mem, hbrother] at hrest
    have h₀ := h.of_eq (v := w.emit (.followed p.addr)) rfl rfl
    rw [Forest.toList_node, List.cons_append, List.append_assoc] at h₀
    exact ⟨fuel, w₁, hvisit, hrest, h₀⟩

theorem frame_node {cs bs : Forest Pool}
    (hpool : FrameOf (enteredTree plat thread p cs) (w.emit (.followed p.addr)) w₁)
    (hothers : FrameOf (entered plat thread bs) w₁ w') :
    FrameOf (entered plat thread (.node p cs bs)) w w' := by
  rw [entered_node]
  have hfirst : FrameOf (enteredTree plat thread p cs) w w₁ := hpool
  exact (hfirst.mono (List.subset_append_left _ _)).trans
    (hothers.mono (List.subset_append_right _ _))

end Frame

/-! ## Section 2: Clearing -/

section Clear

variable {plat : Platform} {thread depth : Nat} {w w' : World} {p : Pool}

/-- The parts of clearing one pool. -/
theorem clearDepth_ok (h : PoolAt plat w p) (howned : Owned plat thread p)
    (hrun : clearDepth plat thread (depth + 1) p.addr w = .ok () w') :
    ∃ evs w₁ w₂ w₃,
      sprPoolCleanupRunAll plat load p.addr ((w.emit (.visited p.addr)).emits evs) = .ok () w₁ ∧
      (if w₁.mem (p.addr + 176) ≠ 0 then
        visitBrothers load (clearDepth plat thread depth) addressSpace (w₁.mem (p.addr + 176))
        else pure ()) w₁ = .ok () w₂ ∧
      slotLoop load resetNode p.addr 0 sprMaxPoolSlot w₂ = .ok () w₃ ∧ w'.mem = w₃.mem := by
  have hv := h.of_eq (v := w.emit (.visited p.addr)) rfl rfl
  have howner := notOwner_run .plain hv thread
  rw [Reader.plain_run, ownerEvents_plain, emits_nil] at howner
  rw [clearDepth, emit_bind, bind_run, howner] at hrun
  simp only [howned, not_true_eq_false, decide_false, Bool.false_eq_true, if_false] at hrun
  rw [bind_run, lockPool_run hv] at hrun
  obtain ⟨_, w₁, hall, hrun⟩ := bind_ok hrun
  rw [load_bind] at hrun
  -- the memnodes are rewound whether there are children or not
  obtain ⟨w₂, hchildren, hrest⟩ : ∃ w₂,
      (if w₁.mem (p.addr + 176) ≠ 0 then
        visitBrothers load (clearDepth plat thread depth) addressSpace (w₁.mem (p.addr + 176))
        else pure ()) w₁ = .ok () w₂ ∧
      (do
        slotLoop load resetNode p.addr 0 sprMaxPoolSlot
        emit (.cleared p.addr)
        unlockPool plat thread p.addr) w₂ = .ok () w' := by
    split at hrun
    · rename_i hchild
      obtain ⟨_, w₂, hvisit, hrun⟩ := bind_ok hrun
      exact ⟨w₂, by rw [if_pos hchild]; exact hvisit, hrun⟩
    · rename_i hchild
      exact ⟨w₁, by rw [if_neg hchild]; rfl, hrun⟩
  obtain ⟨_, w₃, hslots, hrest⟩ := bind_ok hrest
  obtain ⟨evs, hunlock⟩ := unlockPool_runs plat thread p.addr (w₃.emit (.cleared p.addr))
  rw [emit_bind, hunlock] at hrest
  injection hrest with _ hw
  exact ⟨_, w₁, w₂, w₃, hall, hchildren, hslots, by rw [← hw]; rfl⟩

/-- **Clearing one pool**, given what it does to the children. -/
theorem clearPool_frame {cs : Forest Pool} {rest : List Pool}
    (hvisit : ClearsBrothers plat thread depth cs)
    (hframe : FramesBrothers plat thread (clearDepth plat thread depth) cs)
    (hlink : LinkedPools p.child cs) (h : PoolsAt plat w (p :: (cs.toList ++ rest)))
    (hrun : clearDepth plat thread (depth + 1) p.addr w = .ok () w') :
    FrameOf (enteredTree plat thread p cs) w w' := by
  have hp := h.pool p List.mem_cons_self
  unfold enteredTree
  by_cases howned : Owned plat thread p
  swap
  · -- a pool of another thread is only visited
    have howner := notOwner_run .plain (hp.of_eq (v := w.emit (.visited p.addr)) rfl rfl) thread
    rw [Reader.plain_run, ownerEvents_plain, emits_nil] at howner
    obtain rfl : w.emit (.visited p.addr) = w' := by simpa [clearDepth, howner, howned] using hrun
    exact FrameOf.of_mem rfl
  rw [if_pos howned]
  obtain ⟨evs, w₁, w₂, w₃, hall, hchildren, hslots, hmem⟩ := clearDepth_ok hp howned hrun
  -- the handlers
  have hl := h.of_eq (v := (w.emit (.visited p.addr)).emits evs) rfl rfl
  obtain ⟨v₁, hall', hm₁, -, -⟩ := runAll_moves .plain (hl.pool p List.mem_cons_self)
    (hl.keeps List.mem_cons_self List.mem_cons_self)
  rw [Reader.plain_run, hall] at hall'
  obtain rfl : w₁ = v₁ := by injection hall'
  have h₁ := hl.step hm₁ (.of_subset fun a ha => by cases ha)
  have hframe₁ : FrameOf (p :: entered plat thread cs) w w₁ :=
    hm₁.frame_of List.mem_cons_self (flush_regions p)
  -- the children
  rw [show w₁.mem (p.addr + 176) = p.child from hm₁.place.rep.header.child] at hchildren
  have hframe₂ := (frame_children hframe hlink h₁ hchildren).mono
    (List.subset_cons_self p _)
  obtain ⟨v₂, hchildren', h₂, -, -⟩ := visit_children hvisit (by rintro rfl; exact ⟨rfl, rfl⟩)
    hlink h₁
  rw [hchildren] at hchildren'
  obtain rfl : w₂ = v₂ := by injection hchildren'
  -- the memnodes
  obtain ⟨v₃, hslots', hm₃, -, -⟩ := resetSlots_moves (h₂.pool _ List.mem_cons_self)
    (h₂.registered List.mem_cons_self)
  rw [flush_addr, hslots] at hslots'
  obtain rfl : w₃ = v₃ := by injection hslots'
  have hframe₃ : FrameOf (p :: entered plat thread cs) w₂ w₃ :=
    hm₃.frame_of List.mem_cons_self (clear_regions p)
  exact ((hframe₁.trans hframe₂).trans hframe₃).trans (FrameOf.of_mem hmem)

/-- **Clearing all brothers**, by induction on the forest. -/
theorem clearBrothers_frame {f : Forest Pool} : ∀ (depth : Nat), f.toList.length ≤ depth →
    FramesBrothers plat thread (clearDepth plat thread depth) f := by
  induction f with
  | nil =>
    intro depth _ fuel start w w' rest hlink h hrun
    obtain rfl : start = 0 := hlink
    exact visitBrothers_none hrun
  | node p cs bs ihc ihb =>
    intro depth hdepth fuel start w w' rest hlink h hrun
    simp only [Forest.toList_node, List.length_cons, List.length_append] at hdepth
    obtain ⟨depth, rfl⟩ : ∃ d, depth = d + 1 := ⟨depth - 1, by omega⟩
    obtain ⟨rfl, hchildren, hbrothers⟩ := hlink
    obtain ⟨fuel, w₁, hvisit, hrest, h₀⟩ := visitBrothers_node h hrun
    obtain ⟨v₁, hvisit', h₁, -, -⟩ := clearPool_spec (clearBrothers depth (by omega)) hchildren h₀
    rw [hvisit] at hvisit'
    obtain rfl : w₁ = v₁ := by injection hvisit'
    have hpool := clearPool_frame (clearBrothers depth (by omega)) (ihc depth (by omega))
      hchildren h₀ hvisit
    have hswap : ((clearTree plat thread p cs).1 :: ((clearTree plat thread p cs).2.toList ++
        (bs.toList ++ rest))).Perm (bs.toList ++ ((clearTree plat thread p cs).1 ::
          ((clearTree plat thread p cs).2.toList ++ rest))) := by
      rw [← List.cons_append, ← List.append_assoc, ← List.cons_append, ← List.append_assoc]
      exact List.perm_append_comm.append_right _
    exact frame_node hpool (ihb (depth + 1) (by omega) fuel hbrothers (h₁.perm hswap) hrest)

/-- **`spr_pool_clear` writes to the pools it reaches only.** -/
theorem sprPoolClear_frame {cs : Forest Pool} {rest : List Pool} (hlink : LinkedPools p.child cs)
    (h : PoolsAt plat w (p :: (cs.toList ++ rest)))
    (hrun : sprPoolClear plat thread p.addr w = .ok () w') :
    FrameOf (enteredTree plat thread p cs) w w' := by
  have hlen := h.length_lt
  simp only [List.length_cons, List.length_append] at hlen
  obtain ⟨d, hd⟩ : ∃ d, addressSpace = d + 1 := ⟨addressSpace - 1, by omega⟩
  rw [sprPoolClear, hd] at hrun
  exact clearPool_frame (clearBrothers d (by omega)) (clearBrothers_frame d (by omega)) hlink h hrun

end Clear

/-! ## Section 3: Destroying -/

section Destroy

variable {plat : Platform} {thread depth : Nat} {w w' : World} {p : Pool}

/-- The parts of destroying one pool. -/
theorem destroyDepth_ok (h : PoolAt plat w p) (howned : Owned plat thread p)
    (hrun : destroyDepth plat load thread (depth + 1) p.addr w = .ok () w') :
    ∃ w₁ w₂ w₃, sprPoolCleanupRunAll plat load p.addr (w.emit (.visited p.addr)) = .ok () w₁ ∧
      (if w₁.mem (p.addr + 176) ≠ 0 then
        visitBrothers load (destroyDepth plat load thread depth) addressSpace
          (w₁.mem (p.addr + 176))
        else pure ()) w₁ = .ok () w₂ ∧
      slotLoop load (deallocateNode load) p.addr 0 sprMaxPoolSlot w₂ = .ok () w₃ ∧
      w'.mem = w₃.mem := by
  have howner := notOwner_run .plain (h.of_eq (v := w.emit (.visited p.addr)) rfl rfl) thread
  rw [Reader.plain_run, ownerEvents_plain, emits_nil] at howner
  rw [destroyDepth, emit_bind, bind_run, howner] at hrun
  simp only [howned, not_true_eq_false, decide_false, Bool.false_eq_true, if_false] at hrun
  obtain ⟨_, w₁, hall, hrun⟩ := bind_ok hrun
  rw [load_bind] at hrun
  -- the memnodes are given back whether there are children or not
  obtain ⟨w₂, hchildren, hrest⟩ : ∃ w₂,
      (if w₁.mem (p.addr + 176) ≠ 0 then
        visitBrothers load (destroyDepth plat load thread depth) addressSpace
          (w₁.mem (p.addr + 176))
        else pure ()) w₁ = .ok () w₂ ∧
      (do
        slotLoop load (deallocateNode load) p.addr 0 sprMaxPoolSlot
        emit (.destroyed p.addr)) w₂ = .ok () w' := by
    split at hrun
    · rename_i hchild
      obtain ⟨_, w₂, hvisit, hrun⟩ := bind_ok hrun
      exact ⟨w₂, by rw [if_pos hchild]; exact hvisit, hrun⟩
    · rename_i hchild
      exact ⟨w₁, by rw [if_neg hchild]; rfl, hrun⟩
  obtain ⟨_, w₃, hslots, hrest⟩ := bind_ok hrest
  obtain rfl : w₃.emit (.destroyed p.addr) = w' := by simpa using hrest
  exact ⟨w₁, w₂, w₃, hall, hchildren, hslots, rfl⟩

/-- **Destroying one pool**, given what it does to the children. -/
theorem destroyPool_frame {cs : Forest Pool} {rest : List Pool}
    (hvisit : DestroysBrothers plat .plain thread depth cs)
    (hframe : FramesBrothers plat thread (destroyDepth plat load thread depth) cs)
    (hlink : LinkedPools p.child cs) (h : PoolsAt plat w (p :: (cs.toList ++ rest)))
    (hrun : destroyDepth plat load thread (depth + 1) p.addr w = .ok () w') :
    FrameOf (enteredTree plat thread p cs) w w' := by
  have hp := h.pool p List.mem_cons_self
  unfold enteredTree
  by_cases howned : Owned plat thread p
  swap
  · -- a pool of another thread is only visited
    have howner := notOwner_run .plain (hp.of_eq (v := w.emit (.visited p.addr)) rfl rfl) thread
    rw [Reader.plain_run, ownerEvents_plain, emits_nil] at howner
    obtain rfl : w.emit (.visited p.addr) = w' := by
      simpa [destroyDepth, howner, howned] using hrun
    exact FrameOf.of_mem rfl
  rw [if_pos howned]
  obtain ⟨w₁, w₂, w₃, hall, hchildren, hslots, hmem⟩ := destroyDepth_ok hp howned hrun
  -- the handlers
  have hl := h.of_eq (v := w.emit (.visited p.addr)) rfl rfl
  obtain ⟨v₁, hall', hm₁, -, -⟩ := runAll_moves .plain (hl.pool p List.mem_cons_self)
    (hl.keeps List.mem_cons_self List.mem_cons_self)
  rw [Reader.plain_run, hall] at hall'
  obtain rfl : w₁ = v₁ := by injection hall'
  have h₁ := hl.step hm₁ (.of_subset fun a ha => by cases ha)
  have hframe₁ : FrameOf (p :: entered plat thread cs) w w₁ :=
    hm₁.frame_of List.mem_cons_self (flush_regions p)
  -- the children
  rw [show w₁.mem (p.addr + 176) = p.child from hm₁.place.rep.header.child] at hchildren
  have hframe₂ := (frame_children hframe hlink h₁ hchildren).mono
    (List.subset_cons_self p _)
  obtain ⟨v₂, hchildren', h₂, -, -⟩ := visit_children hvisit (by rintro rfl; exact ⟨rfl, rfl⟩)
    hlink h₁
  rw [Reader.plain_run, hchildren] at hchildren'
  obtain rfl : w₂ = v₂ := by injection hchildren'
  -- the memnodes are read, and given back
  have hp₂ := h₂.pool _ List.mem_cons_self
  obtain ⟨v₃, hslots', hmem₃, -, -⟩ := releaseSlots_run .plain (w := w₂) (i := 0)
    (n := sprMaxPoolSlot) hp₂ rfl (show w₂.live = w₂.live.filter fun s => s.start ∉ [] by simp)
    (fun _ _ => List.not_mem_nil) (slotAddrs_nodup hp₂.wf.nodup) rfl
  rw [flush_addr, Reader.plain_run, hslots] at hslots'
  obtain rfl : w₃ = v₃ := by injection hslots'
  exact (hframe₁.trans hframe₂).trans (FrameOf.of_mem (hmem.trans hmem₃))

/-- **Destroying all brothers**, by induction on the forest. -/
theorem destroyBrothers_frame {f : Forest Pool} : ∀ (depth : Nat), f.toList.length ≤ depth →
    FramesBrothers plat thread (destroyDepth plat load thread depth) f := by
  induction f with
  | nil =>
    intro depth _ fuel start w w' rest hlink h hrun
    obtain rfl : start = 0 := hlink
    exact visitBrothers_none hrun
  | node p cs bs ihc ihb =>
    intro depth hdepth fuel start w w' rest hlink h hrun
    simp only [Forest.toList_node, List.length_cons, List.length_append] at hdepth
    obtain ⟨depth, rfl⟩ : ∃ d, depth = d + 1 := ⟨depth - 1, by omega⟩
    obtain ⟨rfl, hchildren, hbrothers⟩ := hlink
    obtain ⟨fuel, w₁, hvisit, hrest, h₀⟩ := visitBrothers_node h hrun
    obtain ⟨v₁, hvisit', h₁, -, -⟩ := destroyPool_spec (destroyBrothers depth (by omega))
      hchildren h₀
    rw [Reader.plain_run, hvisit] at hvisit'
    obtain rfl : w₁ = v₁ := by injection hvisit'
    have hpool := destroyPool_frame (destroyBrothers depth (by omega)) (ihc depth (by omega))
      hchildren h₀ hvisit
    have hswap : (sparedTree plat thread p cs ++ (bs.toList ++ rest)).Perm
        (bs.toList ++ (sparedTree plat thread p cs ++ rest)) := by
      rw [← List.append_assoc, ← List.append_assoc]
      exact List.perm_append_comm.append_right _
    exact frame_node hpool (ihb (depth + 1) (by omega) fuel hbrothers (h₁.perm hswap) hrest)

/-- **`spr_pool_destroy` writes to the pools it reaches only.** -/
theorem sprPoolDestroy_frame {cs : Forest Pool} {rest : List Pool}
    (hlink : LinkedPools p.child cs) (h : PoolsAt plat w (p :: (cs.toList ++ rest)))
    (hrun : sprPoolDestroy plat thread p.addr w = .ok () w') :
    FrameOf (enteredTree plat thread p cs) w w' := by
  have hlen := h.length_lt
  simp only [List.length_cons, List.length_append] at hlen
  obtain ⟨d, hd⟩ : ∃ d, addressSpace = d + 1 := ⟨addressSpace - 1, by omega⟩
  rw [sprPoolDestroy, sprPoolDestroyWith, hd] at hrun
  exact destroyPool_frame (destroyBrothers d (by omega)) (destroyBrothers_frame d (by omega)) hlink
    h hrun

end Destroy

end Spr.MemPool
