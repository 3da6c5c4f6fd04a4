import Spr.MemPool.Tree

/-! # What the log says

    The log is the history of a run; what the callers hold and what the system
    has not got back are read off it.

    * `heldBlocks`: the blocks handed out and neither cleared nor released.
    * `outstanding`, `heldNodes`: the memnodes that have not been deallocated, and
      the pools they were registered with.
    * `Audited`: nothing is deallocated twice, and no link leads to a pool that is
      gone. -/

namespace Spr.MemPool

open Spr.Words Spr.Forests

/-! ## Section 1: Blocks -/

/-- A block that `spr_palloc` has handed out. -/
structure Block where
  pool : Nat
  addr : Nat
  /-- What was asked for. -/
  size : Nat
  deriving DecidableEq, Repr

/-- What the block takes. -/
def Block.span (b : Block) : Span := ⟨b.addr, sprAlignAllocation b.size⟩

/-- How an event changes the blocks that are held. -/
def heldStep (bs : List Block) : Event → List Block
  | .handed pool a size => ⟨pool, a, size⟩ :: bs
  | .freed a => bs.filter fun b => b.addr ≠ a
  | .cleared pool => bs.filter fun b => b.pool ≠ pool
  | .destroyed pool => bs.filter fun b => b.pool ≠ pool
  | _ => bs

/-- The blocks handed out since the last clear of their pool and not released. -/
def heldBlocks (log : List Event) : List Block := log.foldl heldStep []

/-- The event hands out a block. -/
def Event.hands : Event → Bool
  | .handed _ _ _ => true
  | _ => false

/-- The event ends the life of the block. -/
def Event.drops (b : Block) : Event → Bool
  | .freed a => b.addr = a
  | .cleared pool => b.pool = pool
  | .destroyed pool => b.pool = pool
  | _ => false

theorem heldStep_quiet {bs : List Block} {e : Event} (he : e.hands = false) :
    heldStep bs e = bs.filter fun b => !e.drops b := by
  cases e <;> simp [heldStep, Event.drops, Event.hands] at he ⊢

theorem held_sublist {evs : List Event} : ∀ {bs : List Block}, (∀ e ∈ evs, e.hands = false) →
    (evs.foldl heldStep bs).Sublist bs ∧
      ∀ b ∈ evs.foldl heldStep bs, ∀ e ∈ evs, e.drops b = false := by
  induction evs with
  | nil => intro bs _; exact ⟨List.Sublist.refl _, fun _ _ e he => by cases he⟩
  | cons e evs ih =>
    intro bs hno
    obtain ⟨hsub, hdrops⟩ := @ih (heldStep bs e) fun e' he' =>
      hno e' (List.mem_cons_of_mem _ he')
    rw [List.foldl_cons]
    rw [heldStep_quiet (hno e List.mem_cons_self)] at hsub hdrops ⊢
    refine ⟨hsub.trans List.filter_sublist, fun b hb e' he' => ?_⟩
    rcases List.mem_cons.mp he' with rfl | he'
    · have := (List.mem_filter.mp (hsub.subset hb)).2
      simpa using this
    · exact hdrops b hb e' he'

/-- **Events that hand out nothing** leave a part of the blocks, none of which
    they drop. -/
theorem heldBlocks_append (log : List Event) {evs : List Event} (hno : ∀ e ∈ evs, e.hands = false) :
    (heldBlocks (log ++ evs)).Sublist (heldBlocks log) ∧
      ∀ b ∈ heldBlocks (log ++ evs), ∀ e ∈ evs, e.drops b = false := by
  rw [heldBlocks, List.foldl_append]
  exact held_sublist hno

theorem heldBlocks_handed (log : List Event) (pool a size : Nat) :
    heldBlocks (log ++ [.handed pool a size]) = ⟨pool, a, size⟩ :: heldBlocks log := by
  simp [heldBlocks, heldStep]

/-! ## Section 2: Memnodes -/

/-- How an event changes the memnodes the system has not got back. -/
def outStep (ns : List Nat) : Event → List Nat
  | .allocated n => n :: ns
  | .deallocated n => ns.filter fun m => m ≠ n
  | _ => ns

/-- The memnodes allocated and not deallocated. -/
def outstanding (log : List Event) : List Nat := log.foldl outStep []

/-- How an event changes the memnodes of the pools. -/
def nodeStep (ns : List (Nat × Nat)) : Event → List (Nat × Nat)
  | .registered pool n => (pool, n) :: ns
  | .deallocated n => ns.filter fun m => m.2 ≠ n
  | _ => ns

/-- The memnodes registered with a pool and not deallocated. -/
def heldNodes (log : List Event) : List (Nat × Nat) := log.foldl nodeStep []

/-- The event is as it should be while the memnodes `ns` are out: only one of
    these is deallocated, and a pool that is visited lives in one. -/
def AuditOk (ns : List Nat) : Event → Prop
  | .deallocated n => n ∈ ns
  | .visited pool => pool - sizeofMemnode ∈ ns
  | .followed pool => pool - sizeofMemnode ∈ ns
  | _ => True

/-- All events are as they should be. -/
def Audited : List Nat → List Event → Prop
  | _, [] => True
  | ns, e :: es => AuditOk ns e ∧ Audited (outStep ns e) es

instance (ns : List Nat) (e : Event) : Decidable (AuditOk ns e) := by
  unfold AuditOk
  cases e <;> infer_instance

instance decidableAudited : (ns : List Nat) → (es : List Event) → Decidable (Audited ns es)
  | _, [] => isTrue trivial
  | ns, e :: es =>
      have := decidableAudited (outStep ns e) es
      inferInstanceAs (Decidable (AuditOk ns e ∧ Audited (outStep ns e) es))

/-- The event is about memnodes or pools. -/
def Event.isTree : Event → Bool
  | .allocated _ => true
  | .registered _ _ => true
  | .deallocated _ => true
  | .visited _ => true
  | .followed _ => true
  | _ => false

theorem audited_append {es fs : List Event} : ∀ {ns : List Nat},
    Audited ns (es ++ fs) ↔ Audited ns es ∧ Audited (es.foldl outStep ns) fs := by
  induction es with
  | nil => intro ns; exact ⟨fun h => ⟨trivial, h⟩, fun h => h.2⟩
  | cons e es ih =>
    intro ns
    simp only [List.cons_append, Audited, List.foldl_cons, ih, and_assoc]

/-- An event of another kind changes nothing here. -/
theorem quiet_step {e : Event} (he : e.isTree = false) :
    (∀ ns, outStep ns e = ns) ∧ (∀ ns, nodeStep ns e = ns) ∧ ∀ ns, AuditOk ns e := by
  cases e <;> simp [outStep, nodeStep, AuditOk, Event.isTree] at he ⊢

/-- **Only the events about memnodes and pools count.** -/
theorem foldl_tree (evs : List Event) :
    (∀ ns, evs.foldl outStep ns = (evs.filter Event.isTree).foldl outStep ns) ∧
    (∀ ns, evs.foldl nodeStep ns = (evs.filter Event.isTree).foldl nodeStep ns) ∧
    ∀ ns, Audited ns evs ↔ Audited ns (evs.filter Event.isTree) := by
  induction evs with
  | nil => exact ⟨fun _ => rfl, fun _ => rfl, fun _ => Iff.rfl⟩
  | cons e evs ih =>
    obtain ⟨ih₁, ih₂, ih₃⟩ := ih
    by_cases he : e.isTree = true
    · rw [List.filter_cons_of_pos he]
      exact ⟨fun ns => ih₁ _, fun ns => ih₂ _, fun ns => and_congr Iff.rfl (ih₃ _)⟩
    · obtain ⟨h₁, h₂, h₃⟩ := quiet_step (Bool.not_eq_true _ ▸ he)
      rw [List.filter_cons_of_neg he]
      refine ⟨fun ns => ?_, fun ns => ?_, fun ns => ?_⟩
      · rw [List.foldl_cons, h₁, ih₁]
      · rw [List.foldl_cons, h₂, ih₂]
      · rw [Audited, h₁, ih₃]
        exact and_iff_right (h₃ ns)

/-- What the log says about the memnodes of some pools. -/
structure NodesLogged (log : List Event) (ps : List Pool) : Prop where
  held  : ∀ q n, (q, n) ∈ heldNodes log ↔ ∃ p ∈ ps, p.addr = q ∧ n ∈ p.nodeAddrs
  out   : ∀ n, n ∈ outstanding log ↔ n ∈ ps.flatMap Pool.nodeAddrs
  audit : Audited [] log

/-- Pools with the same addresses and memnodes have the same history. -/
theorem NodesLogged.of_same {log : List Event} {ps qs : List Pool} (h : NodesLogged log ps)
    (hsame : ∀ q n, (∃ p ∈ qs, p.addr = q ∧ n ∈ p.nodeAddrs) ↔
      ∃ p ∈ ps, p.addr = q ∧ n ∈ p.nodeAddrs) : NodesLogged log qs := by
  refine ⟨fun q n => (h.held q n).trans (hsame q n).symm, fun n => (h.out n).trans ?_, h.audit⟩
  simp only [List.mem_flatMap]
  constructor
  · rintro ⟨p, hp, hn⟩
    obtain ⟨q, hq, -, hn⟩ := (hsame p.addr n).mpr ⟨p, hp, rfl, hn⟩
    exact ⟨q, hq, hn⟩
  · rintro ⟨q, hq, hn⟩
    obtain ⟨p, hp, -, hn⟩ := (hsame q.addr n).mp ⟨q, hq, rfl, hn⟩
    exact ⟨p, hp, hn⟩

theorem NodesLogged.perm {log : List Event} {ps qs : List Pool} (h : NodesLogged log ps)
    (hp : ps.Perm qs) : NodesLogged log qs :=
  h.of_same fun _ _ => exists_congr fun _ => and_congr_left fun _ => hp.mem_iff.symm

theorem NodesLogged.quiet {log evs : List Event} {ps : List Pool} (h : NodesLogged log ps)
    (hq : evs.filter Event.isTree = []) : NodesLogged (log ++ evs) ps := by
  obtain ⟨h₁, h₂, h₃⟩ := foldl_tree evs
  refine ⟨fun q n => ?_, fun n => ?_, audited_append.mpr ⟨h.audit, (h₃ _).mpr ?_⟩⟩
  · rw [heldNodes, List.foldl_append, h₂, hq]
    exact h.held q n
  · rw [outstanding, List.foldl_append, h₁, hq]
    exact h.out n
  · rw [hq]
    trivial

/-- **A pool gains a memnode.** -/
theorem NodesLogged.gain {log evs : List Event} {ps qs : List Pool} {pool a : Nat}
    (h : NodesLogged log ps)
    (hnodes : ∀ q n, (∃ p ∈ qs, p.addr = q ∧ n ∈ p.nodeAddrs) ↔
      q = pool ∧ n = a ∨ ∃ p ∈ ps, p.addr = q ∧ n ∈ p.nodeAddrs)
    (hevs : evs.filter Event.isTree = [.allocated a, .registered pool a]) :
    NodesLogged (log ++ evs) qs := by
  obtain ⟨h₁, h₂, h₃⟩ := foldl_tree evs
  refine ⟨fun q n => ?_, fun n => ?_, audited_append.mpr ⟨h.audit, (h₃ _).mpr ?_⟩⟩
  · have hold : (q, n) ∈ log.foldl nodeStep [] ↔ _ := h.held q n
    rw [heldNodes, List.foldl_append, h₂, hevs, hnodes]
    simp only [List.foldl_cons, List.foldl_nil, nodeStep, List.mem_cons, Prod.mk.injEq, hold]
  · have hold : n ∈ log.foldl outStep [] ↔ _ := h.out n
    rw [outstanding, List.foldl_append, h₁, hevs]
    simp only [List.foldl_cons, List.foldl_nil, outStep, List.mem_cons, hold, List.mem_flatMap]
    constructor
    · rintro (rfl | ⟨p, hp, hn⟩)
      · obtain ⟨p, hp, -, hn⟩ := (hnodes pool n).mpr (Or.inl ⟨rfl, rfl⟩)
        exact ⟨p, hp, hn⟩
      · obtain ⟨q, hq, -, hn⟩ := (hnodes p.addr n).mpr (Or.inr ⟨p, hp, rfl, hn⟩)
        exact ⟨q, hq, hn⟩
    · rintro ⟨q, hq, hn⟩
      rcases (hnodes q.addr n).mp ⟨q, hq, rfl, hn⟩ with ⟨-, rfl⟩ | ⟨p, hp, -, hn⟩
      · exact Or.inl rfl
      · exact Or.inr ⟨p, hp, hn⟩
  · rw [hevs]
    exact ⟨trivial, trivial, trivial⟩

/-- The event is a visit to one of the pools. -/
def Visit (ps : List Pool) (e : Event) : Prop :=
  ∃ p ∈ ps, e = .visited p.addr ∨ e = .followed p.addr

/-- Every pool lives in one of its own memnodes. -/
def Housed (ps : List Pool) : Prop := ∀ p ∈ ps, p.addr - sizeofMemnode ∈ p.nodeAddrs

theorem PoolsAt.housed {plat : Platform} {w : World} {ps : List Pool} (h : PoolsAt plat w ps) :
    Housed ps := fun p hp => (Pool.home_addr (h.pool p hp).wf).1

/-- **Visits to pools that are there** are as they should be, and change nothing. -/
theorem NodesLogged.visits {log evs : List Event} {ps : List Pool} (h : NodesLogged log ps)
    (hhoused : Housed ps) (hevs : ∀ e ∈ evs.filter Event.isTree, Visit ps e) :
    NodesLogged (log ++ evs) ps := by
  have hall : ∀ es : List Event, (∀ e ∈ es, Visit ps e) → (∀ ns, es.foldl outStep ns = ns) ∧
      (∀ ns, es.foldl nodeStep ns = ns) ∧
      ∀ ns, (∀ p ∈ ps, p.addr - sizeofMemnode ∈ ns) → Audited ns es := by
    intro es
    induction es with
    | nil => exact fun _ => ⟨fun _ => rfl, fun _ => rfl, fun _ _ => trivial⟩
    | cons e es ih =>
      intro hes
      obtain ⟨i₁, i₂, i₃⟩ := ih fun e' he' => hes e' (List.mem_cons_of_mem _ he')
      obtain ⟨p, hp, rfl | rfl⟩ := hes e List.mem_cons_self
      · exact ⟨i₁, i₂, fun ns hns => ⟨hns p hp, i₃ ns hns⟩⟩
      · exact ⟨i₁, i₂, fun ns hns => ⟨hns p hp, i₃ ns hns⟩⟩
  obtain ⟨h₁, h₂, h₃⟩ := foldl_tree evs
  obtain ⟨i₁, i₂, i₃⟩ := hall _ hevs
  refine ⟨fun q n => ?_, fun n => ?_, audited_append.mpr ⟨h.audit, (h₃ _).mpr (i₃ _ ?_)⟩⟩
  · rw [heldNodes, List.foldl_append, h₂, i₂]
    exact h.held q n
  · rw [outstanding, List.foldl_append, h₁, i₁]
    exact h.out n
  · intro p hp
    exact (h.out _).mpr (List.mem_flatMap.mpr ⟨p, hp, hhoused p hp⟩)

/-- Deallocating memnodes that are out, each once. -/
theorem dealloc_steps (addrs : List Nat) :
    (∀ ns, (addrs.flatMap deallocEvents).foldl outStep ns = ns.filter fun n => n ∉ addrs) ∧
    (∀ ns, (addrs.flatMap deallocEvents).foldl nodeStep ns = ns.filter fun m => m.2 ∉ addrs) ∧
    ∀ ns, addrs.Nodup → (∀ a ∈ addrs, a ∈ ns) → Audited ns (addrs.flatMap deallocEvents) := by
  induction addrs with
  | nil => exact ⟨fun ns => by simp, fun ns => by simp, fun _ _ _ => trivial⟩
  | cons a addrs ih =>
    obtain ⟨i₁, i₂, i₃⟩ := ih
    have hcons : (a :: addrs).flatMap deallocEvents
        = .deallocated a :: .freed a :: addrs.flatMap deallocEvents := rfl
    refine ⟨fun ns => ?_, fun ns => ?_, fun ns hnd hin => ?_⟩
    · rw [hcons, List.foldl_cons, List.foldl_cons, i₁]
      simp only [outStep, List.filter_filter]
      refine List.filter_congr fun n _ => ?_
      simp [Bool.and_comm]
    · rw [hcons, List.foldl_cons, List.foldl_cons, i₂]
      simp only [nodeStep, List.filter_filter]
      refine List.filter_congr fun n _ => ?_
      simp [Bool.and_comm]
    · obtain ⟨hnew, hnd⟩ := List.nodup_cons.mp hnd
      rw [hcons]
      refine ⟨hin a List.mem_cons_self, trivial, i₃ _ hnd fun b hb => ?_⟩
      refine List.mem_filter.mpr ⟨hin b (List.mem_cons_of_mem _ hb), ?_⟩
      simpa using ne_of_mem_of_not_mem hb hnew

/-- **A pool goes with all its memnodes.** -/
theorem NodesLogged.dealloc {log : List Event} {p : Pool} {rest : List Pool} {addrs : List Nat}
    (h : NodesLogged log (p :: rest)) (hnd : addrs.Nodup)
    (haddrs : ∀ a, a ∈ addrs ↔ a ∈ p.nodeAddrs)
    (hapart : ∀ q ∈ rest, ∀ a ∈ p.nodeAddrs, a ∉ q.nodeAddrs) :
    NodesLogged (log ++ addrs.flatMap deallocEvents) rest := by
  obtain ⟨h₁, h₂, h₃⟩ := dealloc_steps addrs
  refine ⟨fun q n => ?_, fun n => ?_, audited_append.mpr ⟨h.audit, h₃ _ hnd fun a ha => ?_⟩⟩
  · -- what is held is what was, less these memnodes, and they are the pool's
    have hold : (q, n) ∈ log.foldl nodeStep [] ↔ _ := h.held q n
    rw [heldNodes, List.foldl_append, h₂, List.mem_filter, hold, List.exists_mem_cons_iff]
    simp only [haddrs, decide_not, Bool.not_eq_eq_eq_not, Bool.not_true, decide_eq_false_iff_not]
    constructor
    · rintro ⟨⟨-, hn⟩ | hrest, hout⟩
      · exact absurd hn hout
      · exact hrest
    · rintro ⟨r, hr, hrest⟩
      exact ⟨Or.inr ⟨r, hr, hrest⟩, fun hn => hapart r hr n hn hrest.2⟩
  · have hold : n ∈ log.foldl outStep [] ↔ _ := h.out n
    rw [outstanding, List.foldl_append, h₁, List.mem_filter, hold, List.flatMap_cons,
      List.mem_append]
    simp only [haddrs, decide_not, Bool.not_eq_eq_eq_not, Bool.not_true, decide_eq_false_iff_not]
    constructor
    · rintro ⟨hn | hrest, hout⟩
      · exact absurd hn hout
      · exact hrest
    · intro hrest
      refine ⟨Or.inr hrest, fun hn => ?_⟩
      obtain ⟨r, hr, hin⟩ := List.mem_flatMap.mp hrest
      exact hapart r hr n hn hin
  · have hold : a ∈ log.foldl outStep [] ↔ _ := h.out a
    rw [hold, List.flatMap_cons]
    exact List.mem_append_left _ ((haddrs a).mp ha)

end Spr.MemPool
