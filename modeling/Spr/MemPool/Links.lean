import Spr.MemPool.Runs

/-! # The links of the family

    Creating pools, and putting them under each other.

    * `ChildList`, `LinksOk`: the words `child`, `brother` and `parent` make up a
      forest, and the walks of `spr_pool_clear` and `spr_pool_destroy` end.
    * `links_ok`: so they do while only pools without a parent are put under
      others.
    * `relinked_breaks`: a pool that has a parent breaks the lists. -/

namespace Spr.MemPool

open Spr.Words Spr.Chains Spr.Forests

/-! ## Section 1: The property -/

/-- The pools on the child list of `pool`, in order. -/
def ChildList (mem : Mem) (pool : Nat) (l : List Nat) : Prop :=
  Chain (fun a => mem (poolBrother a)) 0 (mem (poolChild pool)) l

/-- The pool that an event visits. -/
def Event.visit : Event → Option Nat
  | .visited pool => some pool
  | _ => none

/-- The pools that are visited, in order. -/
def visits (evs : List Event) : List Nat := evs.filterMap Event.visit

/-- The pools that a walk of the thread over the forest visits: it does not go
    below a pool of another thread. -/
def reached (plat : Platform) (thread : Nat) : Forest Member → List Nat
  | .nil => []
  | .node m cs bs =>
      m.addr :: (if m.Owned plat thread then reached plat thread cs else []) ++
        reached plat thread bs

/-- The pools that a walk from one pool visits. -/
def reachedFrom (plat : Platform) (thread : Nat) (m : Member) (cs : Forest Member) : List Nat :=
  m.addr :: if m.Owned plat thread then reached plat thread cs else []

/-- The addresses of the pools that were not put under another. -/
def Session.rootAddrs (s : Session) : List Nat := s.family.roots.map Member.addr

/-- **The links make up a forest.** -/
structure LinksOk (plat : Platform) (s : Session) : Prop where
  /-- Every chain of brothers is finite and without cycles. -/
  chain : ∀ a ∈ s.addrs, ∃ l, ChildList s.world.mem a l ∧ l.Nodup ∧ ∀ b ∈ l, b ∈ s.addrs
  /-- A pool that is no root is on one child list, that of the pool its parent
      field names. -/
  listed : ∀ c ∈ s.addrs, c ∉ s.rootAddrs → s.world.mem (poolParent c) ∈ s.addrs ∧
    ∀ a ∈ s.addrs, ∀ l, ChildList s.world.mem a l → (c ∈ l ↔ a = s.world.mem (poolParent c))
  /-- A root is on none. -/
  root : ∀ c ∈ s.rootAddrs, ∀ a ∈ s.addrs, ∀ l, ChildList s.world.mem a l → c ∉ l
  /-- Clearing ends, and visits each pool it reaches once. -/
  clear : ∀ thread, ∀ m ∈ s.family.toList, ∃ w',
    sprPoolClear plat thread m.addr s.world = .ok () w' ∧
      visits w'.log = visits s.world.log ++
        reachedFrom plat thread m (s.family.childrenAt Member.addr m.addr)
  /-- So does destroying. -/
  destroy : ∀ thread, ∀ m ∈ s.family.toList, ∃ w',
    sprPoolDestroy plat thread m.addr s.world = .ok () w' ∧
      visits w'.log = visits s.world.log ++
        reachedFrom plat thread m (s.family.childrenAt Member.addr m.addr)
  /-- No pool is reached twice. -/
  once : ∀ thread, ∀ m ∈ s.family.toList,
    (reachedFrom plat thread m (s.family.childrenAt Member.addr m.addr)).Nodup
  /-- Every pool of a tree that is the thread's is reached. -/
  all : ∀ thread, ∀ m ∈ s.family.toList,
    (∀ q ∈ m :: (s.family.childrenAt Member.addr m.addr).toList, q.Owned plat thread) →
      reachedFrom plat thread m (s.family.childrenAt Member.addr m.addr)
        = m.addr :: (s.family.childrenAt Member.addr m.addr).toList.map Member.addr

/-! ## Section 2: Child lists -/

section Lists

variable {plat : Platform} {w : World} {f : Forest Pool} {s : Session}

/-- Linked brothers are a chain in memory. -/
theorem linked_chain {mem : Mem} : ∀ {start : Nat}, LinkedPools start f →
    (∀ p ∈ f.toList, p.addr ≠ 0 ∧ mem (p.addr + 168) = p.brother) →
    Chain (fun a => mem (poolBrother a)) 0 start (f.roots.map Pool.addr) := by
  induction f with
  | nil => intro _ h _; exact h
  | node p cs bs _ ihb =>
    intro start h hmem
    obtain ⟨rfl, -, hb⟩ := h
    obtain ⟨hne, hbrother⟩ := hmem p List.mem_cons_self
    refine ⟨rfl, hne, ?_⟩
    show Chain _ 0 (mem (p.addr + 168)) _
    rw [hbrother]
    exact ihb hb fun q hq => hmem q (List.mem_cons_of_mem _ (List.mem_append_right _ hq))

/-- The child list of a pool is that of the forest. -/
theorem Inv.childList (h : Inv plat s f) {p : Pool} (hp : p ∈ f.toList) :
    ChildList s.world.mem p.addr ((f.childrenAt Pool.addr p.addr).roots.map Pool.addr) := by
  obtain ⟨rest, hold, -, -⟩ := Forest.split_at h.nodup hp
  show Chain _ 0 (s.world.mem (p.addr + 176)) _
  rw [(h.pools.pool p hp).rep.header.child]
  refine linked_chain (rooted_childrenAt h.rooted h.nodup hp) fun q hq => ?_
  have hin := hold.mem_iff.mpr (List.mem_cons_of_mem _ (List.mem_append_left rest hq))
  exact ⟨(h.pools.pool q hin).addr_ne_null, (h.pools.pool q hin).rep.header.brother⟩

end Lists

/-! ## Section 3: Walks -/

section Walks

variable {plat : Platform} {thread : Nat} {f : Forest Pool}

theorem visits_append (evs evs' : List Event) : visits (evs ++ evs') = visits evs ++ visits evs' :=
  List.filterMap_append

theorem visits_of_notVisit {evs : List Event} (h : ∀ e ∈ evs, e.visit = none) : visits evs = [] :=
  List.filterMap_eq_nil_iff.mpr h

theorem Quiet.visits {evs : List Event} (h : Quiet evs) : visits evs = [] := by
  refine visits_of_notVisit fun e he => ?_
  cases e with
  | visited pool =>
    have hin : Event.visited pool ∈ evs.filter Event.isTree := List.mem_filter.mpr ⟨he, rfl⟩
    rw [h.tree] at hin
    cases hin
  | _ => rfl

theorem visits_clearEvents (p : Pool) (inner : List Event) :
    visits (clearEvents plat thread p inner)
      = p.addr :: if Owned plat thread p then visits inner else [] := by
  rw [clearEvents]
  split
  · have hpost : visits (.cleared p.addr :: unlockEvents plat thread p) = [] :=
      ((quiet_unlock plat thread p).cons rfl rfl).visits
    show p.addr :: visits _ = _
    rw [visits_append, visits_append, visits_append, visits_append, hpost,
      (quiet_lock plat thread p).visits, (quiet_calls plat p.cleanups).visits,
      (quiet_resets (p.slotAddrs 0)).visits]
    simp
  · rfl

theorem visits_clearLog (f : Forest Pool) :
    visits (clearLog plat thread f) = reached plat thread (f.map Pool.member) := by
  induction f with
  | nil => rfl
  | node p cs bs ihc ihb =>
    rw [clearLog, visits_append, ihb, Forest.map, reached]
    show visits (clearEvents plat thread p (clearLog plat thread cs)) ++ _ = _
    rw [visits_clearEvents, ihc]
    rfl

theorem visits_destroyEvents (p : Pool) (inner : List Event) :
    visits (destroyEvents plat .plain thread p inner)
      = p.addr :: if Owned plat thread p then visits inner else [] := by
  by_cases howned : Owned plat thread p
  · have hgone : visits ((p.slotAddrs 0).flatMap deallocEvents ++ [.destroyed p.addr]) = [] := by
      refine visits_of_notVisit fun e he => ?_
      rcases List.mem_append.mp he with he | he
      · obtain ⟨a, -, he⟩ := List.mem_flatMap.mp he
        simp only [deallocEvents, List.mem_cons, List.not_mem_nil, or_false] at he
        rcases he with rfl | rfl <;> rfl
      · rw [List.mem_singleton.mp he]
        rfl
    rw [destroyEvents_plain howned, if_pos howned, List.append_assoc]
    show p.addr :: visits _ = _
    rw [visits_append, visits_append, hgone, (quiet_calls plat p.cleanups).visits]
    simp
  · rw [if_neg howned, destroyEvents, if_neg howned]
    simp [visits, Event.visit]

theorem visits_destroyLog (f : Forest Pool) :
    visits (destroyLog plat .plain thread f) = reached plat thread (f.map Pool.member) := by
  induction f with
  | nil => rfl
  | node p cs bs ihc ihb =>
    rw [destroyLog, visits_append, ihb, Forest.map, reached]
    show visits (destroyEvents plat .plain thread p (destroyLog plat .plain thread cs)) ++ _ = _
    rw [visits_destroyEvents, ihc]
    rfl

/-- A walk reaches pools of the forest, in the forest's order. -/
theorem reached_sublist (t : Forest Member) :
    (reached plat thread t).Sublist (t.toList.map Member.addr) := by
  induction t with
  | nil => exact List.Sublist.refl _
  | node m cs bs ihc ihb =>
    rw [reached, Forest.toList_node, List.map_cons, List.map_append]
    refine (List.Sublist.cons_cons _ ?_).append ihb
    split
    · exact ihc
    · exact List.nil_sublist _

/-- A walk over a forest of the thread reaches every pool. -/
theorem reached_owned {t : Forest Member} (howned : ∀ m ∈ t.toList, m.Owned plat thread) :
    reached plat thread t = t.toList.map Member.addr := by
  induction t with
  | nil => rfl
  | node m cs bs ihc ihb =>
    rw [reached, if_pos (howned m List.mem_cons_self),
      ihc fun q hq => howned q (List.mem_cons_of_mem _ (List.mem_append_left _ hq)),
      ihb fun q hq => howned q (List.mem_cons_of_mem _ (List.mem_append_right _ hq))]
    simp

end Walks

/-! ## Section 4: The links of a run -/

section Runs

variable {plat : Platform} {s s' : Session} {f f' : Forest Pool} {op : Op}

/-- The parent fields of the pools. -/
def NestedPools : Forest Pool → Prop := Nested Pool.parent Pool.addr

theorem Inv.rootAddrs (h : Inv plat s f) : s.rootAddrs = f.roots.map Pool.addr := by
  rw [Session.rootAddrs, ← h.family, Forest.roots_map, List.map_map]
  rfl

theorem Inv.childrenAt (h : Inv plat s f) (k : Nat) :
    s.family.childrenAt Member.addr k = (f.childrenAt Pool.addr k).map Pool.member := by
  rw [← h.family]
  exact (Forest.map_childrenAt member_addr f).symm

/-- A pool is on the child list of its parent, and on no other. -/
theorem Inv.mem_children (h : Inv plat s f) (hn : NestedPools f) {p q : Pool} (hp : p ∈ f.toList)
    (hq : q ∈ f.toList) (hroot : p ∉ f.roots) :
    p.addr ∈ (f.childrenAt Pool.addr q.addr).roots.map Pool.addr ↔ q.addr = p.parent := by
  have hparent : ∀ {r : Pool}, r ∈ f.toList → p ∈ (f.childrenAt Pool.addr r.addr).roots →
      p.parent = r.addr := fun hr hin => under_roots (nested_childrenAt hn h.nodup hr) hin
  obtain ⟨r, hr, hin⟩ := exists_parent h.nodup hp hroot
  constructor
  · intro hmem
    obtain ⟨p', hp', heq⟩ := List.mem_map.mp hmem
    obtain rfl : p' = p := List.inj_on_of_nodup_map h.nodup
      (childrenAt_subset (Forest.roots_subset hp')) hp heq
    exact (hparent hq hp').symm
  · intro heq
    rw [heq, hparent hr hin]
    exact List.mem_map_of_mem hin

/-- **What the invariant says of the links.** -/
theorem Inv.linksOk (h : Inv plat s f) (hn : NestedPools f) : LinksOk plat s := by
  -- the child list in memory is the one of the forest
  have hlist : ∀ {q : Pool}, q ∈ f.toList → ∀ {l : List Nat}, ChildList s.world.mem q.addr l →
      l = (f.childrenAt Pool.addr q.addr).roots.map Pool.addr := fun hq _ hl =>
    chain_unique hl (h.childList hq)
  have hpools : ∀ m ∈ s.family.toList, ∃ p ∈ f.toList, p.member = m := by
    rw [← h.family, Forest.toList_map]
    exact fun m hm => List.mem_map.mp hm
  have hroot : ∀ {p : Pool}, p ∈ f.toList → p.addr ∈ s.rootAddrs → p ∈ f.roots := by
    intro p hp hin
    rw [h.rootAddrs] at hin
    obtain ⟨r, hr, heq⟩ := List.mem_map.mp hin
    rwa [← List.inj_on_of_nodup_map h.nodup (Forest.roots_subset hr) hp heq]
  refine ⟨fun a ha => ?_, fun c hc hout => ?_, fun c hc a ha l hl => ?_, fun thread m hm => ?_,
    fun thread m hm => ?_, fun thread m hm => ?_, fun thread m hm howned => ?_⟩
  · obtain ⟨p, hp, rfl⟩ := h.find ha
    refine ⟨_, h.childList hp, chain_nodup (h.childList hp), fun b hb => ?_⟩
    obtain ⟨q, hq, rfl⟩ := List.mem_map.mp hb
    rw [h.addrs]
    exact List.mem_map_of_mem (childrenAt_subset (Forest.roots_subset hq))
  · obtain ⟨p, hp, rfl⟩ := h.find hc
    have hout : p ∉ f.roots := fun hin => hout (by
      rw [h.rootAddrs]
      exact List.mem_map_of_mem hin)
    have hfield : s.world.mem (poolParent p.addr) = p.parent :=
      (h.pools.pool p hp).rep.header.parent
    rw [hfield]
    refine ⟨?_, fun a ha l hl => ?_⟩
    · -- what is no root is a child, and its field names the parent
      obtain ⟨r, hr, hin⟩ := exists_parent h.nodup hp hout
      rw [under_roots (nested_childrenAt hn h.nodup hr) hin, h.addrs]
      exact List.mem_map_of_mem hr
    · obtain ⟨q, hq, rfl⟩ := h.find ha
      rw [hlist hq hl]
      exact h.mem_children hn hp hq hout
  · obtain ⟨q, hq, rfl⟩ := h.find ha
    rw [hlist hq hl]
    intro hin
    obtain ⟨p, hp, rfl⟩ := List.mem_map.mp hin
    have hp' := Forest.roots_subset hp
    -- a root is on no child list
    exact roots_notMem h.nodup (hroot (childrenAt_subset hp') hc) hp'
  · obtain ⟨p, hp, rfl⟩ := hpools m hm
    obtain ⟨rest, hold, -, -⟩ := Forest.split_at h.nodup hp
    obtain ⟨w', hrun, -, hlog, -⟩ := sprPoolClear_spec thread
      (rooted_childrenAt h.rooted h.nodup hp) (h.pools.perm hold)
    refine ⟨w', hrun, ?_⟩
    rw [hlog, visits_append, visits_clearEvents, visits_clearLog, h.childrenAt]
    rfl
  · obtain ⟨p, hp, rfl⟩ := hpools m hm
    obtain ⟨rest, hold, -, -⟩ := Forest.split_at h.nodup hp
    obtain ⟨w', hrun, -, hlog, -⟩ := sprPoolDestroy_spec .plain thread
      (rooted_childrenAt h.rooted h.nodup hp) (h.pools.perm hold)
    refine ⟨w', hrun, ?_⟩
    rw [hlog, visits_append, visits_destroyEvents, visits_destroyLog, h.childrenAt]
    rfl
  · obtain ⟨p, hp, rfl⟩ := hpools m hm
    obtain ⟨rest, hold, -, -⟩ := Forest.split_at h.nodup hp
    have hnd := (hold.map Pool.addr).nodup_iff.mp h.nodup
    rw [← List.cons_append, List.map_append] at hnd
    refine hnd.of_append_left.sublist ?_
    rw [List.map_cons, reachedFrom, h.childrenAt]
    refine List.Sublist.cons_cons _ ?_
    split
    · refine (reached_sublist _).trans ?_
      rw [Forest.toList_map, List.map_map]
      exact List.Sublist.refl _
    · exact List.nil_sublist _
  · rw [reachedFrom, if_pos (howned m List.mem_cons_self),
      reached_owned fun q hq => howned q (List.mem_cons_of_mem _ hq)]

/-- The calls that create pools and link them. -/
def Op.Builds : Op → Prop
  | .create _ _ _ => True
  | .addChild _ _ => True
  | _ => False

instance (op : Op) : Decidable op.Builds := by
  unfold Op.Builds
  rcases op <;> infer_instance

theorem Op.Builds.keeps (h : op.Builds) : ¬ op.Destroys := by
  cases op <;> first | exact fun hd => hd | exact fun _ => h

/-- **Building keeps the parent fields.** -/
theorem step_nested (h : Inv plat s f) (hbuild : op.Builds) (hn : NestedPools f)
    (hs : Step plat s f op s' f') : NestedPools f' := by
  cases hs with
  | createFailed => exact hn
  | createRoot => exact ⟨trivial, hn⟩
  | createChild thread size a q w' hq =>
    exact nested_splice (fun r hr heq cs hcs => ⟨rfl, rfl, rfl, trivial, hcs⟩) hn
  | addChild p q w' hp hq =>
    exact nested_graft hn h.nodup (Forest.roots_subset hp) fun r _ heq => ⟨rfl, rfl, rfl, rfl⟩
  | _ => cases hbuild

/-- **Links**: in every run that creates pools and puts pools without a parent under
    others, the links make up a forest. -/
theorem links_ok (plat : Platform) (s : Session)
    (h : Reachable plat (fun s op => op.Builds ∧ s.Legal plat op ∧ s.Clean plat op ∧
      s.AtRoots plat op) s) : LinksOk plat s := by
  obtain ⟨f, hinv, hn⟩ := reachable_rule (P := fun _ f => NestedPools f)
    ⟨fun s op h => h.2.1, fun s f op h _ _ => h.2.2.1, fun s op h => h.2.2.2,
      fun s f op h hd _ _ => absurd hd h.1.keeps⟩
    (fun _ _ => trivial) (fun s f op s' f' hinv hn hop _ hs _ => step_nested hinv hop.1 hn hs) h
  exact hinv.linksOk hn

/-- A family of two. -/
theorem links_ok_two : ∃ s, Reachable machine (fun s op => op.Builds ∧ s.Legal machine op ∧
    s.Clean machine op ∧ s.AtRoots machine op) s ∧ s.addrs = [65584, 131120] ∧
      LinksOk machine s := by
  have hrun : ((session.run machine (fun s op => op.Builds ∧ s.Legal machine op ∧
      s.Clean machine op ∧ s.AtRoots machine op)
      [.create 1 0 0, .create 1 0 0, .addChild 65584 131120]).any fun s =>
        s.addrs = [65584, 131120]) = true := by decide +kernel
  obtain ⟨s, hs, haddrs⟩ := (Option.any_eq_true _ _).mp hrun
  have hreach := reachable_run (.start session initial_session) hs
  exact ⟨s, hreach, of_decide_eq_true haddrs, links_ok machine s hreach⟩

/-- A pool that is put under its parent again becomes its own brother. -/
theorem relinked_breaks : ¬ ∀ (plat : Platform) (s : Session), Reachable plat (fun s op =>
    op.Builds ∧ s.Legal plat op ∧ s.Clean plat op) s → LinksOk plat s := by
  intro hall
  have hrun : ((session.run machine (fun s op => op.Builds ∧ s.Legal machine op ∧
      s.Clean machine op)
      [.create 1 0 0, .create 1 0 0, .addChild 65584 131120, .addChild 65584 131120]).any fun s =>
        65584 ∈ s.addrs ∧ s.world.mem (poolChild 65584) = 131120 ∧
          s.world.mem (poolBrother 131120) = 131120) = true := by decide +kernel
  obtain ⟨s, hs, hfacts⟩ := (Option.any_eq_true _ _).mp hrun
  obtain ⟨haddr, hchild, hbrother⟩ := of_decide_eq_true hfacts
  obtain ⟨l, hl, hnd, -⟩ := (hall machine s
    (reachable_run (.start session initial_session) hs)).chain _ haddr
  rw [ChildList, hchild] at hl
  cases l with
  | nil => cases hl
  | cons a l =>
    obtain ⟨rfl, -, hrest⟩ := hl
    have hrest : Chain _ 0 (s.world.mem (poolBrother 131120)) l := hrest
    rw [hbrother] at hrest
    cases l with
    | nil => cases hrest
    | cons b l =>
      obtain ⟨rfl, -, -⟩ := hrest
      simp at hnd

end Runs

end Spr.MemPool
