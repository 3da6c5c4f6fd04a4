import Spr.MemPool.Runs

/-! # What is released

    `spr_pool_destroy` gives the memnodes of a pool back slot by slot, and reads
    `pool->nodes[i]` before each slot; the header is in the first memnode that
    the pool ever had.

    * `SafeReads`: nothing that is read has been given back.
    * `razed`: the pools that go.
    * `Pool.HomeLast`: the memnode with the header is in none of the slots that
      are given back before the last one.
    * `destroy_reads_iff`: the reads are safe exactly when all pools that go are
      such.
    * `Returned`, `memnodes_returned`: every memnode is given back once, with its
      pool. -/

namespace Spr.MemPool

open Spr.Words Spr.Chains Spr.Forests

/-! ## Section 1: Slots -/

/-- Nothing is read in a region that is not given out. -/
def SafeReads (evs : List Event) : Prop := ∀ a, Event.read a false ∉ evs

/-- The memnode that the header is in is not in a slot before the last. -/
def Pool.HomeLast (p : Pool) : Prop :=
  ∀ i, i + 1 < sprMaxPoolSlot → p.addr - sizeofMemnode ∉ (p.slots i).map Memnode.addr

/-- The pools of the forest that `spr_pool_destroy` reaches. -/
def razed (plat : Platform) (thread : Nat) : Forest Pool → List Pool
  | .nil => []
  | .node p cs bs =>
      (if Owned plat thread p then p :: razed plat thread cs else []) ++ razed plat thread bs

section Reads

variable {plat : Platform} {thread : Nat} {p : Pool} {evs evs' : List Event}

theorem safeReads_append : SafeReads (evs ++ evs') ↔ SafeReads evs ∧ SafeReads evs' := by
  simp only [SafeReads, List.mem_append, not_or, forall_and]

theorem safeReads_nil : SafeReads [] := fun _ => List.not_mem_nil

/-- Only a read can be unsafe. -/
theorem safeReads_cons {e : Event} (he : ∀ a, e ≠ .read a false) :
    SafeReads (e :: evs) ↔ SafeReads evs := by
  simp only [SafeReads, List.mem_cons, not_or]
  exact forall_congr' fun a => and_iff_right fun heq => he a heq.symm

theorem safeReads_read {a : Nat} {ok : Bool} :
    SafeReads (.read a ok :: evs) ↔ ok = true ∧ SafeReads evs := by
  cases ok with
  | true => rw [safeReads_cons fun b => by simp]; simp
  | false => exact ⟨fun h => absurd List.mem_cons_self (h a), fun h => by cases h.1⟩

/-- Running the handlers is safe. -/
theorem safeReads_runAll : SafeReads (runAllEvents plat .watched p) := by
  intro a ha
  rcases List.mem_append.mp ha with ha | ha
  · simp [Reader.watched] at ha
  · obtain ⟨r, -, hr⟩ := List.mem_flatMap.mp ha
    rcases List.mem_append.mp hr with hr | hr
    · unfold callEvents at hr
      split at hr <;> simp at hr
    · simp [Reader.watched] at hr

/-- Within a slot the link is read before the memnode goes. -/
theorem safeReads_releaseChain (addrs : List Nat) : SafeReads (releaseChain .watched addrs) := by
  intro a ha
  obtain ⟨b, -, hb⟩ := List.mem_flatMap.mp ha
  simp [Reader.watched, deallocEvents] at hb

/-- **The loop over the slots**, once the memnodes `gone` have been deallocated: the
    header must not be in one of them, nor in a slot that is followed by another. -/
theorem safeReads_release {n : Nat} : ∀ {gone : List Nat} {i : Nat},
    SafeReads (releaseEvents .watched p gone i n) ↔ n = 0 ∨
      p.addr - sizeofMemnode ∉ gone ∧ ∀ j, i ≤ j → j + 1 < i + n →
        p.addr - sizeofMemnode ∉ (p.slots j).map Memnode.addr := by
  induction n with
  | zero => intro gone i; simpa [releaseEvents] using safeReads_nil
  | succ n ih =>
    intro gone i
    have hread : SafeReads (Reader.watched.events (p.addr + 8 * i)
        (decide (p.addr - sizeofMemnode ∉ gone))) ↔ p.addr - sizeofMemnode ∉ gone := by
      show SafeReads [.read _ _] ↔ _
      rw [safeReads_read, decide_eq_true_eq]
      exact and_iff_left safeReads_nil
    rw [releaseEvents, safeReads_append, safeReads_append, hread, ih,
      and_iff_left (safeReads_releaseChain _), List.mem_append, not_or]
    constructor
    · rintro ⟨hgone, rfl | ⟨⟨-, hslot⟩, hrest⟩⟩
      · exact Or.inr ⟨hgone, fun j h₁ h₂ => absurd h₂ (by omega)⟩
      · refine Or.inr ⟨hgone, fun j h₁ h₂ => ?_⟩
        -- the slot whose memnodes are going, or one behind it
        rcases Nat.eq_or_lt_of_le h₁ with rfl | h₁
        · exact hslot
        · exact hrest j h₁ (by omega)
    · -- `nodes[i]` is read before the memnodes of its slot go
      rintro (hzero | ⟨hgone, hrest⟩)
      · cases hzero
      · refine ⟨hgone, ?_⟩
        rcases Nat.eq_zero_or_pos n with hn | hn
        · exact Or.inl hn
        · exact Or.inr ⟨⟨hgone, hrest i (Nat.le_refl _) (by omega)⟩,
            fun j h₁ h₂ => hrest j (by omega) (by omega)⟩

/-! ## Section 2: Trees -/

/-- Looking at the owner is safe. -/
theorem safeReads_owner : SafeReads (ownerEvents plat .watched p) := by
  intro a ha
  unfold ownerEvents at ha
  split at ha <;> simp [Reader.watched] at ha

/-- **Destroying one pool.** -/
theorem safeReads_destroyEvents (howned : Owned plat thread p) (inner : List Event) :
    SafeReads (destroyEvents plat .watched thread p inner) ↔ p.HomeLast ∧ SafeReads inner := by
  have hchild : SafeReads (Reader.watched.events (p.addr + 176) true) :=
    safeReads_read.mpr ⟨rfl, safeReads_nil⟩
  have hlast : SafeReads [Event.destroyed p.addr] :=
    (safeReads_cons fun a => by simp).mpr safeReads_nil
  have hslots : SafeReads (releaseEvents .watched p [] 0 sprMaxPoolSlot) ↔ p.HomeLast := by
    rw [safeReads_release]
    simp [Pool.HomeLast, sprMaxPoolSlot]
  rw [destroyEvents, if_pos howned, safeReads_cons fun a => by simp]
  simp only [safeReads_append, safeReads_owner, safeReads_runAll, hchild, hlast, hslots, true_and,
    and_true]
  exact and_comm

theorem safeReads_passed (howned : ¬ Owned plat thread p) (inner : List Event) :
    SafeReads (destroyEvents plat .watched thread p inner) := by
  rw [destroyEvents, if_neg howned, safeReads_cons fun a => by simp, safeReads_append]
  exact ⟨safeReads_owner, safeReads_nil⟩

/-- **Destroying a forest**, by induction on it. -/
theorem safeReads_destroyLog {f : Forest Pool} :
    SafeReads (destroyLog plat .watched thread f) ↔ ∀ q ∈ razed plat thread f, q.HomeLast := by
  induction f with
  | nil => exact ⟨fun _ q hq => (List.not_mem_nil hq).elim, fun _ => safeReads_nil⟩
  | node p cs bs ihc ihb =>
    have hbrother : SafeReads (.followed p.addr :: Reader.watched.events (p.addr + 168) true) := by
      rw [safeReads_cons fun a => by simp]
      exact safeReads_read.mpr ⟨rfl, safeReads_nil⟩
    rw [destroyLog, safeReads_append, safeReads_append, and_iff_right hbrother, ihb, razed]
    by_cases howned : Owned plat thread p
    · -- the pool goes, and the owned ones among its children
      rw [safeReads_destroyEvents howned, ihc, if_pos howned]
      simp only [List.cons_append, List.forall_mem_cons, List.forall_mem_append, and_assoc]
    · -- it is skipped with all below it
      rw [if_neg howned, List.nil_append]
      exact and_iff_right (safeReads_passed howned _)

/-- What `spr_pool_destroy` reads of a tree of pools in order. -/
theorem destroy_reads {plat : Platform} {thread : Nat} {w : World} {p : Pool} {cs : Forest Pool}
    {rest : List Pool} (hlink : LinkedPools p.child cs)
    (h : PoolsAt plat w (p :: (cs.toList ++ rest))) (howned : Owned plat thread p) :
    ∃ w' evs, sprPoolDestroyWith plat watch thread p.addr w = .ok () w' ∧ w'.log = w.log ++ evs ∧
      (SafeReads evs ↔ ∀ q ∈ p :: razed plat thread cs, q.HomeLast) := by
  obtain ⟨w', hrun, -, hlog, -⟩ := sprPoolDestroy_spec .watched thread hlink h
  refine ⟨w', _, hrun, hlog, ?_⟩
  rw [safeReads_destroyEvents howned, safeReads_destroyLog]
  simp only [List.mem_cons, forall_eq_or_imp]

/-- **No read after release**: `spr_pool_destroy` reads no field of a pool or a
    memnode that has been given back, exactly when the header of every pool that
    goes is in a memnode of the last slot, or of none.  The pools are in order, each apart
    from the others and linked to a tree, as they are in every plain run. -/
theorem destroy_reads_iff (plat : Platform) (thread : Nat) :
    (∀ (w : World) (p : Pool) (cs : Forest Pool) (rest : List Pool), LinkedPools p.child cs →
      PoolsAt plat w (p :: (cs.toList ++ rest)) → Owned plat thread p →
      ∃ w' evs, sprPoolDestroyWith plat watch thread p.addr w = .ok () w' ∧
        w'.log = w.log ++ evs ∧
        (SafeReads evs ↔ ∀ q ∈ p :: razed plat thread cs, q.HomeLast)) ∧
    ∀ s : Session, Reachable plat (Session.Plain plat) s → ∀ m ∈ s.family.toList,
      m.Owned plat thread → ∃ (p : Pool) (cs : Forest Pool) (rest : List Pool), p.member = m ∧
        cs.map Pool.member = s.family.childrenAt Member.addr m.addr ∧ LinkedPools p.child cs ∧
        PoolsAt plat s.world (p :: (cs.toList ++ rest)) ∧
        ∃ w' evs, sprPoolDestroyWith plat watch thread m.addr s.world = .ok () w' ∧
          w'.log = s.world.log ++ evs ∧
          (SafeReads evs ↔ ∀ q ∈ p :: razed plat thread cs, q.HomeLast) := by
  constructor
  · intro w p cs rest hlink h howned
    exact destroy_reads hlink h howned
  · intro s hreach m hm howned
    obtain ⟨p, cs, rest, rfl, hcs, hlink, hat⟩ := reachable_member hreach hm
    exact ⟨p, cs, rest, rfl, hcs, hlink, hat, destroy_reads hlink hat howned⟩

/-- A pool of twenty pages, with its header in a memnode of the last slot. -/
theorem destroy_reads_iff_wide : ∃ (s : Session) (w' : World) (evs : List Event),
    Reachable machine (Session.Plain machine) s ∧
    sprPoolDestroyWith machine watch 1 65584 s.world = .ok () w' ∧ w'.log = s.world.log ++ evs ∧
      SafeReads evs := by
  have hrun : ((session.run machine (Session.Plain machine) [.create 1 80000 0]).any fun s =>
      s.family = .node ⟨65584, 1⟩ .nil .nil ∧ ∀ i ∈ List.range 19,
        65536 ∉ walk s.world.mem 0 addressSpace (s.world.mem (poolNodes 65584 i))) = true := by
    decide +kernel
  obtain ⟨s, hs, hfacts⟩ := (Option.any_eq_true _ _).mp hrun
  obtain ⟨hfamily, hslots⟩ := of_decide_eq_true hfacts
  have hreach := reachable_run (.start session initial_session) hs
  obtain ⟨f, hinv⟩ := reachable_inv hreach
  obtain ⟨p, cs, -, hp, hcs, hlink, hat⟩ := hinv.oneTree hfamily
  obtain rfl : cs = .nil := by
    cases cs with
    | nil => rfl
    | node _ _ _ => cases hcs
  have haddr : p.addr = 65584 := congrArg Member.addr hp
  have howner : p.owner = 1 := congrArg Member.owner hp
  have hhome : p.HomeLast := by
    intro i hi
    have hwalk := walk_slot (hat.pool p List.mem_cons_self) (Nat.lt_of_succ_lt hi)
    rw [haddr] at hwalk ⊢
    rw [← hwalk]
    exact hslots i (List.mem_range.mpr (Nat.lt_of_succ_lt_succ hi))
  obtain ⟨w', evs, hdestroy, hlog, hiff⟩ :=
    (destroy_reads_iff machine 1).1 s.world p .nil [] hlink hat fun _ => howner
  refine ⟨s, w', evs, hreach, haddr ▸ hdestroy, hlog, hiff.mpr fun q hq => ?_⟩
  rwa [List.mem_singleton.mp hq]

/-- The log after a call. -/
def resultLog {α : Type} : Result α → List Event
  | .ok _ w => w.log
  | .error _ w => w.log

/-- A pool of one page: `nodes[1]` is read once the page is gone. -/
theorem destroy_reads_unsafe : ¬ ∀ (plat : Platform) (thread : Nat) (w : World) (p : Pool)
    (cs : Forest Pool) (rest : List Pool), LinkedPools p.child cs →
    PoolsAt plat w (p :: (cs.toList ++ rest)) → Owned plat thread p →
    ∃ w' evs, sprPoolDestroyWith plat watch thread p.addr w = .ok () w' ∧ w'.log = w.log ++ evs ∧
      SafeReads evs := by
  intro hall
  have hrun : ((session.run machine (Session.Plain machine) [.create 1 0 0]).any fun s =>
      s.family = .node ⟨65584, 1⟩ .nil .nil ∧
        Event.read 65592 false ∈ (resultLog (sprPoolDestroyWith machine watch 1 65584
          s.world)).drop s.world.log.length) = true := by decide +kernel
  obtain ⟨s, hs, hfacts⟩ := (Option.any_eq_true _ _).mp hrun
  obtain ⟨hfamily, hread⟩ := of_decide_eq_true hfacts
  obtain ⟨f, hinv⟩ := reachable_inv (reachable_run (.start session initial_session) hs)
  obtain ⟨p, cs, -, hp, hcs, hlink, hat⟩ := hinv.oneTree hfamily
  have haddr : p.addr = 65584 := congrArg Member.addr hp
  have howner : p.owner = 1 := congrArg Member.owner hp
  obtain ⟨w', evs, hdestroy, hlog, hsafe⟩ :=
    hall machine 1 s.world p cs [] hlink hat fun _ => howner
  rw [haddr] at hdestroy
  rw [hdestroy, resultLog, hlog, List.drop_left] at hread
  exact hsafe _ hread

end Reads

/-! ## Section 3: Memnodes in runs -/

/-- **The memnodes are accounted for**: the log gives none back that is not out, and visits
    no pool whose memnode is not; what is out belongs to the pools that are there. -/
structure Returned (s : Session) : Prop where
  audited : Audited [] s.world.log
  held    : ∀ n ∈ outstanding s.world.log, n ∈ (heldNodes s.world.log).map Prod.snd
  pools   : ∀ m ∈ heldNodes s.world.log, m.1 ∈ s.addrs

instance (s : Session) : Decidable (Returned s) :=
  decidable_of_iff (Audited [] s.world.log ∧
      (∀ n ∈ outstanding s.world.log, n ∈ (heldNodes s.world.log).map Prod.snd) ∧
      ∀ m ∈ heldNodes s.world.log, m.1 ∈ s.addrs)
    ⟨fun h => ⟨h.1, h.2.1, h.2.2⟩, fun h => ⟨h.audited, h.held, h.pools⟩⟩

section Runs

variable {plat : Platform} {s : Session} {f : Forest Pool}

theorem Inv.returned (h : Inv plat s f) : Returned s := by
  refine ⟨h.nodes.audit, fun n hn => ?_, fun m hm => ?_⟩
  · obtain ⟨p, hp, hin⟩ := List.mem_flatMap.mp ((h.nodes.out n).mp hn)
    exact List.mem_map.mpr ⟨(p.addr, n), (h.nodes.held _ _).mpr ⟨p, hp, rfl, hin⟩, rfl⟩
  · obtain ⟨p, hp, haddr, -⟩ := (h.nodes.held m.1 m.2).mp hm
    rw [h.addrs, ← haddr]
    exact List.mem_map_of_mem hp

end Runs

end Spr.MemPool
