import Spr.MemPool.TreeSteps

/-! # Invariants of runs

    * `reachable_rule`: what holds at first and is kept by every step holds in
      every reachable state, beside the invariant.
    * `Session.Plain`: the calls of plain runs, which keep the invariant.
    * `machine`, `boot`: a machine to run examples on. -/

namespace Spr.MemPool

open Spr.Words Spr.Chains Spr.Forests

/-! ## Section 1: The rule -/

section Rule

variable {plat : Platform} {ok : Session → Op → Prop} {P : Session → Forest Pool → Prop}

/-- Every memnode that has not been deallocated is on a list of its pool. -/
def Session.Shelved (s : Session) : Prop :=
  ∀ m ∈ heldNodes s.world.log, ∃ i ∈ List.range sprMaxPoolSlot,
    m.2 ∈ walk s.world.mem 0 addressSpace (s.world.mem (poolNodes m.1 i))

instance (s : Session) : Decidable s.Shelved :=
  inferInstanceAs (Decidable (∀ m ∈ _, ∃ i ∈ _, _))

/-- The walk over a slot. -/
theorem walk_slot {w : World} {p : Pool} (h : PoolAt plat w p) {i : Nat} (hi : i < sprMaxPoolSlot) :
    walk w.mem 0 addressSpace (w.mem (poolNodes p.addr i)) = (p.slots i).map Memnode.addr :=
  walk_of_chain (h.rep.nodes.slot i hi) (by
    rw [List.length_map]
    exact (h.slot_length hi).le)

/-- Where all memnodes are on lists, none are in `nodes[20]`. -/
theorem Inv.shelved_iff {s : Session} {f : Forest Pool} (h : Inv plat s f) :
    s.Shelved ↔ ∀ p ∈ f.toList, p.orphans = [] := by
  constructor
  · intro hs p hp
    refine List.eq_nil_iff_forall_not_mem.mpr fun n hn => ?_
    have hpw := h.pools.pool p hp
    obtain ⟨i, hi, hin⟩ := hs (p.addr, n.addr) ((h.nodes.held _ _).mpr ⟨p, hp, rfl,
      List.mem_map_of_mem (Pool.mem_nodes.mpr (Or.inr hn))⟩)
    have hi := List.mem_range.mp hi
    rw [walk_slot hpw hi] at hin
    have hnd := hpw.wf.nodup
    rw [Pool.nodes, List.map_append, List.nodup_append] at hnd
    obtain ⟨m, hm, heq⟩ := List.mem_map.mp hin
    exact hnd.2.2 m.addr (List.mem_map_of_mem (List.mem_flatMap.mpr ⟨i, List.mem_range.mpr hi, hm⟩))
      n.addr (List.mem_map_of_mem hn) heq
  · rintro hs ⟨q, a⟩ hm
    obtain ⟨p, hp, rfl, ha⟩ := (h.nodes.held _ _).mp hm
    obtain ⟨n, hn, rfl⟩ := List.mem_map.mp ha
    rcases Pool.mem_nodes.mp hn with ⟨i, hi, hn⟩ | hn
    · refine ⟨i, List.mem_range.mpr hi, ?_⟩
      rw [walk_slot (h.pools.pool p hp) hi]
      exact List.mem_map_of_mem hn
    · rw [hs p hp] at hn
      cases hn

/-- **The calls of a plain run**: they are allowed and keep clear of the records,
    links change at roots only, and nothing is destroyed while a memnode is on no
    list. -/
def Session.Plain (plat : Platform) (s : Session) (op : Op) : Prop :=
  s.Legal plat op ∧ s.Clean plat op ∧ s.AtRoots plat op ∧ (op.Destroys → s.Shelved)

instance (plat : Platform) (s : Session) (op : Op) : Decidable (s.Plain plat op) :=
  inferInstanceAs (Decidable (_ ∧ _ ∧ _ ∧ (_ → _)))

/-- The calls that meet the condition are steps that keep the invariant. -/
structure Admits (plat : Platform) (ok : Session → Op → Prop) (P : Session → Forest Pool → Prop) :
    Prop where
  legal   : ∀ s op, ok s op → s.Legal plat op
  clean   : ∀ s f op, ok s op → Inv plat s f → P s f → s.Clean plat op
  roots   : ∀ s op, ok s op → s.AtRoots plat op
  shelved : ∀ s f op, ok s op → op.Destroys → Inv plat s f → P s f → s.Shelved

/-- **The rule for runs**: a property that holds at first and is kept by every step
    holds in every reachable state. -/
theorem reachable_rule (hok : Admits plat ok P) (hinit : ∀ s, Initial s → P s .nil)
    (hstep : ∀ s f op s' f', Inv plat s f → P s f → ok s op → s.exec plat op = some s' →
      Step plat s f op s' f' → Inv plat s' f' → P s' f') {s : Session}
    (h : Reachable plat ok s) :
    ∃ f, Inv plat s f ∧ P s f := by
  induction h with
  | start s h => exact ⟨.nil, inv_initial h, hinit s h⟩
  | step s s' op _ hop hexec ih =>
    obtain ⟨f, hinv, hp⟩ := ih
    obtain ⟨f', hs, hinv'⟩ := exec_step hinv (hok.legal s op hop) (hok.clean s f op hop hinv hp)
      (hok.roots s op hop) (fun hd => hinv.shelved_iff.mp (hok.shelved s f op hop hd hinv hp)) hexec
    exact ⟨f', hinv', hstep s f op s' f' hinv hp hop hexec hs hinv'⟩

/-- Plain runs keep the invariant. -/
theorem admits_plain : Admits plat (Session.Plain plat) P :=
  ⟨fun _ _ h => h.1, fun _ _ _ h _ _ => h.2.1, fun _ _ h => h.2.2.1,
    fun _ _ _ h hd _ _ => h.2.2.2 hd⟩

/-- **The invariant** holds in the states of plain runs. -/
theorem reachable_inv {s : Session} (h : Reachable plat (Session.Plain plat) s) :
    ∃ f, Inv plat s f := by
  obtain ⟨f, hinv, -⟩ := reachable_rule admits_plain (P := fun _ _ => True) (fun _ _ => trivial)
    (fun _ _ _ _ _ _ _ _ _ _ _ => trivial) h
  exact ⟨f, hinv⟩

/-- **The pools of a plain run are in order**: each with the tree below it, as the callers
    know it, and apart from all others. -/
theorem reachable_tree {s : Session} {pool : Nat} (h : Reachable plat (Session.Plain plat) s)
    (hpool : pool ∈ s.addrs) :
    ∃ p cs rest, p.addr = pool ∧ p.member ∈ s.family.toList ∧
      cs.map Pool.member = s.family.childrenAt Member.addr pool ∧ LinkedPools p.child cs ∧
      PoolsAt plat s.world (p :: (cs.toList ++ rest)) := by
  obtain ⟨f, hinv⟩ := reachable_inv h
  obtain ⟨p, hp, rfl⟩ := hinv.find hpool
  obtain ⟨rest, hold, -, -⟩ := Forest.split_at hinv.nodup hp
  refine ⟨p, f.childrenAt Pool.addr p.addr, rest, rfl, ?_, ?_,
    rooted_childrenAt hinv.rooted hinv.nodup hp, hinv.pools.perm hold⟩
  · rw [← hinv.family, Forest.toList_map]
    exact List.mem_map_of_mem hp
  · rw [← hinv.family]
    exact Forest.map_childrenAt member_addr f

/-- The same, of a pool that the callers know. -/
theorem reachable_member {s : Session} {m : Member} (h : Reachable plat (Session.Plain plat) s)
    (hm : m ∈ s.family.toList) :
    ∃ p cs rest, p.member = m ∧ cs.map Pool.member = s.family.childrenAt Member.addr m.addr ∧
      LinkedPools p.child cs ∧ PoolsAt plat s.world (p :: (cs.toList ++ rest)) := by
  obtain ⟨p, cs, rest, haddr, hp, hcs, hlink, hat⟩ := reachable_tree h (List.mem_map_of_mem hm)
  obtain ⟨f, hinv⟩ := reachable_inv h
  -- the callers know no two pools at one address
  have hnd : (s.family.toList.map Member.addr).Nodup := by
    have hnd := hinv.nodup
    rwa [← hinv.addrs] at hnd
  exact ⟨p, cs, rest, List.inj_on_of_nodup_map hnd hp hm haddr, hcs, hlink, hat⟩

/-- A family of one tree. -/
theorem Inv.oneTree {s : Session} {f : Forest Pool} {m : Member} {ms : Forest Member}
    (h : Inv plat s f) (hfamily : s.family = .node m ms .nil) :
    ∃ p cs, f = .node p cs .nil ∧ p.member = m ∧ cs.map Pool.member = ms ∧
      LinkedPools p.child cs ∧ PoolsAt plat s.world (p :: (cs.toList ++ [])) := by
  have hmap := h.family.trans hfamily
  cases f with
  | nil => cases hmap
  | node p cs bs =>
    simp only [Forest.map, Forest.node.injEq] at hmap
    obtain ⟨hp, hcs, hbs⟩ := hmap
    obtain rfl : bs = .nil := by
      cases bs with
      | nil => rfl
      | node _ _ _ => cases hbs
    exact ⟨p, cs, rfl, hp, hcs, h.rooted.1, by simpa using h.pools⟩

end Rule

/-! ## Section 2: A machine -/

/-- Pages of 4096 bytes, a mutex of 40, and `spr_free` at 77. -/
def machine : Platform where
  pageSize     := 4096
  sizeofMutex  := 40
  threadSafety := true
  sprFree      := 77
  page_pos     := by decide
  page_dvd     := by decide
  page_lt      := by decide
  mutex_le     := by decide

/-- Nothing is given out; the system will answer with regions of 64 KiB each, and
    `spr_mutex_init` with success. -/
def boot : World where
  mem       := fun _ => 0
  live      := []
  answers   := [65536, 131072, 196608, 262144, 327680]
  mutexInit := []
  errno     := 0
  log       := []

/-- Before the first call. -/
def session : Session := ⟨boot, .nil⟩

theorem initial_session : Initial session :=
  ⟨⟨List.Pairwise.nil, fun _ h => (List.not_mem_nil h).elim⟩, rfl, rfl⟩

end Spr.MemPool
