import Mathlib.Data.List.Perm.Basic
import Spr.LinkedList.Pooled

/-! # Lists over runs

    Callers keep several lists in the pools, and meanwhile go on with the pools.

    * `ListSession`, `Call`, `ListSession.exec`: the session with its lists, the calls,
      and what they do.
    * `ListSession.Allowed`: the calls keep to the conditions of pools and lists.
    * `Kept`: the invariant; every list is in blocks of its own.
    * `lists_are_deques`, `removals_return`: so every list is a deque throughout. -/

namespace Spr.LinkedList

open Spr.Words Spr.Chains Spr.Simulations Spr.MemPool

/-! ## Section 1: Calls -/

/-- The calls on a list. -/
inductive ListCall where
  | pushBack (data : Nat)
  | pushFront (data : Nat)
  | reserve (n : Nat)
  | remove1 (node : Nat)
  | remove (data : Nat)
  deriving DecidableEq

/-- The call, by a thread. -/
def ListCall.run (plat : Platform) (thread fuel list : Nat) : ListCall → Act Int
  | .pushBack data => sprListPushBackAt plat thread list data
  | .pushFront data => sprListPushFrontAt plat thread list data
  | .reserve n => sprListReserveAt plat thread list n
  | .remove1 node => sprListRemove1At fuel list node
  | .remove data => sprListRemoveAt fuel list data

/-- What the call does to the elements, if it answers `rc`; the nodes that carry them are
    `linked`. -/
def ListCall.onDeque (linked : List Nat) (rc : Int) (ds : List Nat) : ListCall → List Nat
  | .pushBack data => if rc = sprOk then ds ++ [data] else ds
  | .pushFront data => if rc = sprOk then data :: ds else ds
  | .reserve _ => ds
  | .remove1 node => ds.eraseIdx (linked.idxOf node)
  | .remove data => dropData data ds

/-- The allocation that a push makes, if it makes one, is one of a plain run. -/
def PushAllocates (plat : Platform) (thread : Nat) (s : Session) (list : Nat) : Prop :=
  s.world.mem (listFree list) = 0 →
    s.Plain plat (.palloc thread (s.world.mem (listPool list)) chunkSize)

/-- **The list can take the call**: what it allocates it may allocate, the first node has no
    stale link, and a removal leaves a node, or looks past one for what is not there. -/
def ListCall.Fit (plat : Platform) (thread : Nat) (s : Session) (l : Owned) : ListCall → Prop
  | .pushBack _ => PushAllocates plat thread s l.list ∧
      (l.elems ≠ [] ∨ OuterNull plat ListNode.prev thread l.list s.world)
  | .pushFront _ => PushAllocates plat thread s l.list ∧
      (l.elems ≠ [] ∨ OuterNull plat ListNode.next thread l.list s.world)
  | .reserve n => sizeofListNode * n < wordMod ∧
      s.Plain plat (.palloc thread (s.world.mem (listPool l.list)) (sizeofListNode * n))
  | .remove1 node =>
      if node ∈ linkedAt s.world l.list then 2 ≤ l.elems.length else 3 ≤ l.elems.length
  | .remove data => if data ∈ l.elems then 2 ≤ l.elems.length else 3 ≤ l.elems.length

/-- A session, and the lists as their owners know them. -/
structure ListSession where
  session : Session
  lists   : List Owned

/-- A call on the pools, on no list; a new list; a call on the `i`-th list; the `i`-th list is
    given up. -/
inductive Call where
  | pools (op : Op)
  | create (thread pool : Nat)
  | list (thread fuel i : Nat) (call : ListCall)
  | forget (i : Nat)

/-- The list after a call on it. -/
def Owned.after (call : ListCall) (w w' : World) (rc : Int) (l : Owned) : Owned :=
  ⟨l.list, handedSince w w' ++ l.blocks, call.onDeque (linkedAt w l.list) rc l.elems⟩

/-- What a call does, if it returns. -/
def ListSession.exec (plat : Platform) (u : ListSession) : Call → Option ListSession
  | .pools op => (u.session.exec plat op).map fun s => ⟨s, u.lists⟩
  | .create thread pool =>
      match sprListCreate1At plat thread pool u.session.world with
      | .error _ _ => none
      | .ok r w => some ⟨⟨w, u.session.family⟩, if r.1 = sprOk then
          ⟨r.2, handedSince u.session.world w, []⟩ :: u.lists else u.lists⟩
  | .list thread fuel i call =>
      match u.lists[i]? with
      | none => none
      | some l =>
          match call.run plat thread fuel l.list u.session.world with
          | .ok rc w => some ⟨⟨w, u.session.family⟩,
              u.lists.set i (l.after call u.session.world w rc)⟩
          | .error _ _ => none
  | .forget i => some ⟨u.session, u.lists.eraseIdx i⟩

/-- **The calls of a run**: plain calls on the pools that leave the blocks of the lists alone,
    and calls that the lists can take. -/
def ListSession.Allowed (plat : Platform) (u : ListSession) : Call → Prop
  | .pools op => u.session.Plain plat op ∧
      ∀ l ∈ u.lists, ∀ b ∈ l.blocks, Respects plat u.session b op
  | .create thread pool => u.session.Plain plat (.pcalloc thread pool sizeofList)
  | .list thread fuel i call =>
      ∀ l ∈ u.lists[i]?, l.elems.length ≤ fuel ∧ call.Fit plat thread u.session l
  | .forget _ => True

section Decisions

variable (plat : Platform) (thread : Nat) (s : Session) (l : Owned) (u : ListSession)

instance (list : Nat) : Decidable (PushAllocates plat thread s list) :=
  inferInstanceAs (Decidable (_ → _))

instance (outer : ListNode → Nat) (list : Nat) (w : World) :
    Decidable (OuterNull plat outer thread list w) := by
  unfold OuterNull
  split
  · infer_instance
  · split <;> infer_instance

instance (call : ListCall) : Decidable (call.Fit plat thread s l) := by
  unfold ListCall.Fit
  rcases call <;> infer_instance

instance (c : Call) : Decidable (u.Allowed plat c) := by
  unfold ListSession.Allowed
  rcases c <;> infer_instance

end Decisions

/-- The states of the runs. -/
inductive Reached (plat : Platform) : ListSession → Prop where
  | start (s : Session) (h : Initial s) : Reached plat ⟨s, []⟩
  | step (u u' : ListSession) (call : Call) (h : Reached plat u) (hok : u.Allowed plat call)
      (hexec : u.exec plat call = some u') : Reached plat u'

/-! ## Section 2: The invariant -/

/-- No block is in both lists. -/
def Separate (l k : Owned) : Prop := ∀ b ∈ l.blocks, b ∉ k.blocks

theorem Separate.symm {l k : Owned} (h : Separate l k) : Separate k l :=
  fun b hk hl => h b hl hk

/-- **The invariant**: the run is one of the pools, and every list is in blocks of its own. -/
structure Kept (plat : Platform) (u : ListSession) : Prop where
  reach : Reachable plat (Session.Plain plat) u.session
  holds : ∀ l ∈ u.lists, l.Holds u.session.world
  apart : u.lists.Pairwise Separate

section Kept

variable {plat : Platform} {u u' : ListSession} {s : Session} {l k : Owned} {ls : List Owned}
  {w' : World} {list : Nat} {bs : List Block} {ds : List Nat}

/-- **A list beside the one that is called** stays as it is. -/
theorem Leaves.beside (h : Leaves plat s list bs ds w') (hk : k.Holds s.world)
    (hsep : ∀ b ∈ k.blocks, b ∉ bs) : k.Holds w' := by
  refine hk.frame (fun b hb => ?_) fun b hb => h.others b (hk.1 b hb) (hsep b hb)
  rw [h.held]
  exact List.mem_append_right _ (hk.1 b hb)

/-- The blocks handed out by a call are in no other list. -/
theorem Leaves.separate (h : Leaves plat s list bs ds w') (hk : k.Holds s.world)
    (hsep : ∀ b ∈ k.blocks, b ∉ bs) {ds' : List Nat} :
    Separate ⟨list, handedSince s.world w' ++ bs, ds'⟩ k := by
  intro b hb hbk
  rcases List.mem_append.mp hb with hb | hb
  · obtain ⟨fs, hinv⟩ := reachable_inv h.reach
    have hnd := heldBlocks_nodup hinv
    rw [show heldBlocks (Session.mk w' s.family).world.log = _ from h.held] at hnd
    exact (List.nodup_append.mp hnd).2.2 b hb b (hk.1 b hbk) rfl
  · exact hsep b hbk hb

/-- **A call on a list keeps the invariant**: that list is as the call has left it, and the
    others are as they were. -/
theorem Kept.leaves (h : Kept plat ⟨s, l :: ls⟩) (hleaves : Leaves plat s l.list l.blocks ds w') :
    Kept plat ⟨⟨w', s.family⟩, ⟨l.list, handedSince s.world w' ++ l.blocks, ds⟩ :: ls⟩ := by
  obtain ⟨hl, hls⟩ := List.pairwise_cons.mp h.apart
  have hheld : ∀ k ∈ ls, k.Holds s.world := fun k hk => h.holds k (List.mem_cons_of_mem _ hk)
  have hsep : ∀ k ∈ ls, ∀ b ∈ k.blocks, b ∉ l.blocks := fun k hk => (hl k hk).symm
  refine ⟨hleaves.reach, fun k hk => ?_, List.pairwise_cons.mpr ⟨fun k hk => ?_, hls⟩⟩
  · rcases List.mem_cons.mp hk with rfl | hk
    · exact hleaves.holds
    · exact hleaves.beside (hheld k hk) (hsep k hk)
  · exact hleaves.separate (hheld k hk) (hsep k hk)

/-- The order of the lists is no matter. -/
theorem Kept.perm (h : Kept plat u) (hsession : u'.session = u.session)
    (hperm : u'.lists.Perm u.lists) : Kept plat u' := by
  refine ⟨hsession ▸ h.reach, fun l hl => ?_, ?_⟩
  · rw [hsession]
    exact h.holds l (hperm.mem_iff.mp hl)
  · exact (hperm.pairwise_iff Separate.symm).mpr h.apart

end Kept

/-! ## Section 3: One call -/

section Step

variable {plat : Platform} {u u' : ListSession} {s : Session} {l : Owned} {thread fuel : Nat}
  {call : ListCall} {rc : Int} {w' : World}

/-- **A call on a list** does to its elements what it does to those of a deque. -/
theorem call_leaves (hs : Reachable plat (Session.Plain plat) s) (hl : l.Holds s.world)
    (hfuel : l.elems.length ≤ fuel) (hfit : call.Fit plat thread s l)
    (hrun : call.run plat thread fuel l.list s.world = .ok rc w') :
    Leaves plat s l.list l.blocks (call.onDeque (linkedAt s.world l.list) rc l.elems) w' := by
  cases call with
  | pushBack data => exact push_leaves (linking_back l.list data) hs hl rfl hfit.1 hfit.2 hrun
  | pushFront data => exact push_leaves (linking_front l.list data) hs hl rfl hfit.1 hfit.2 hrun
  | reserve n => exact reserve_leaves hs hl hfit.1 hfit.2 hrun
  | remove1 node =>
    obtain ⟨w₁, hrun₁, hleaves⟩ := remove1_leaves hs hl hfuel hfit
    have heq := hrun₁.symm.trans hrun
    injection heq with _ hw
    rw [← hw]
    exact hleaves
  | remove data =>
    obtain ⟨w₁, hrun₁, hleaves⟩ := remove_leaves hs hl hfuel hfit
    have heq := hrun₁.symm.trans hrun
    injection heq with _ hw
    rw [← hw]
    exact hleaves

/-- **A call on the pools** that leaves the blocks of the lists alone. -/
theorem Kept.pools {op : Op} {s' : Session} (h : Kept plat u) (hop : u.session.Plain plat op)
    (hrespects : ∀ l ∈ u.lists, ∀ b ∈ l.blocks, Respects plat u.session b op)
    (hexec : u.session.exec plat op = some s') : Kept plat ⟨s', u.lists⟩ := by
  obtain ⟨fs, hinv⟩ := reachable_inv h.reach
  refine ⟨.step _ s' op h.reach hop hexec, fun l hl => ?_, h.apart⟩
  have hkept : ∀ b ∈ l.blocks, b ∈ heldBlocks s'.world.log ∧
      ∀ a, b.span.Covers a → s'.world.mem a = u.session.world.mem a := fun b hb =>
    respects_keeps hinv hop (hrespects l hl b hb) hexec ((h.holds l hl).1 b hb)
  exact (h.holds l hl).frame (fun b hb => (hkept b hb).1) fun b hb => (hkept b hb).2

/-- **A new list.** -/
theorem Kept.create {pool : Nat} {r : Int × Nat} (h : Kept plat u)
    (hop : u.session.Plain plat (.pcalloc thread pool sizeofList))
    (hrun : sprListCreate1At plat thread pool u.session.world = .ok r w') :
    Kept plat ⟨⟨w', u.session.family⟩, if r.1 = sprOk then
      ⟨r.2, handedSince u.session.world w', []⟩ :: u.lists else u.lists⟩ := by
  rcases create_leaves h.reach hop hrun with ⟨hok, hleaves⟩ | ⟨herr, hreach, hkeeps, hsame⟩
  · rw [if_pos hok]
    have hnone : ∀ k ∈ u.lists, ∀ b ∈ k.blocks, b ∉ ([] : List Block) := fun _ _ _ _ =>
      List.not_mem_nil
    have hholds := hleaves.holds
    rw [List.append_nil] at hholds
    refine ⟨hleaves.reach, fun k hk => ?_, List.pairwise_cons.mpr ⟨fun k hk => ?_, h.apart⟩⟩
    · rcases List.mem_cons.mp hk with rfl | hk
      · exact hholds
      · exact hleaves.beside (h.holds k hk) (hnone k hk)
    · rw [← List.append_nil (handedSince _ _)]
      exact hleaves.separate (h.holds k hk) (hnone k hk)
  · rw [if_neg herr]
    exact ⟨hreach, fun k hk => (h.holds k hk).frame
      (fun b hb => by rw [hsame]; exact (h.holds k hk).1 b hb)
      fun b hb => hkeeps b ((h.holds k hk).1 b hb), h.apart⟩

/-- **Every call keeps the invariant.** -/
theorem exec_kept {c : Call} (h : Kept plat u) (hok : u.Allowed plat c)
    (hexec : u.exec plat c = some u') : Kept plat u' := by
  cases c with
  | pools op =>
    obtain ⟨s', hs', rfl⟩ := Option.map_eq_some_iff.mp hexec
    exact h.pools hok.1 hok.2 hs'
  | create thread pool =>
    cases hrun : sprListCreate1At plat thread pool u.session.world with
    | error e w => simp [ListSession.exec, hrun] at hexec
    | ok r w =>
      simp only [ListSession.exec, hrun, Option.some.injEq] at hexec
      subst hexec
      exact h.create hok hrun
  | list thread fuel i call =>
    cases hl : u.lists[i]? with
    | none => simp [ListSession.exec, hl] at hexec
    | some l =>
      obtain ⟨hi, hget⟩ := List.getElem?_eq_some_iff.mp hl
      obtain ⟨hfuel, hfit⟩ := hok l (by rw [hl]; rfl)
      cases hrun : call.run plat thread fuel l.list u.session.world with
      | error e w => simp [ListSession.exec, hl, hrun] at hexec
      | ok rc w =>
        simp only [ListSession.exec, hl, hrun, Option.some.injEq] at hexec
        subst hexec
        -- the list is brought to the front, and put back
        have hfront : Kept plat ⟨u.session, l :: u.lists.eraseIdx i⟩ :=
          h.perm rfl (by rw [← hget]; exact List.getElem_cons_eraseIdx_perm hi)
        have hleaves := call_leaves h.reach (hfront.holds l List.mem_cons_self) hfuel hfit hrun
        exact (hfront.leaves hleaves).perm rfl (List.set_perm_cons_eraseIdx hi _)
  | forget i =>
    obtain rfl : (⟨u.session, u.lists.eraseIdx i⟩ : ListSession) = u' := Option.some.inj hexec
    exact ⟨h.reach, fun l hl => h.holds l (List.eraseIdx_subset hl), h.apart.eraseIdx i⟩

end Step

/-! ## Section 4: Runs -/

/-- The free nodes, as the memory has them. -/
def freeAt (w : World) (list : Nat) : List Nat :=
  walk w.mem 0 addressSpace (w.mem (listFree list))

/-- **The memory shows a deque**: from the head the elements, from the tail the same nodes
    backwards; the counters count the linked nodes and the free ones, and no node is both. -/
structure ShowsDeque (w : World) (list : Nat) (ds : List Nat) : Prop where
  forward  : (linkedAt w list).map (fun x => w.mem (linkData x)) = ds
  backward : walk (fun x => w.mem (linkPrev x)) 0 addressSpace (w.mem (listTail list))
    = (linkedAt w list).reverse
  size     : w.mem (listSize list) = ds.length
  capacity : w.mem (listCapacity list) = (freeAt w list).length
  apart    : ∀ x ∈ linkedAt w list, x ∉ freeAt w list

section Runs

variable {plat : Platform} {u : ListSession} {s : Session} {l : Owned}

/-- **A list in its blocks is a deque.** -/
theorem Owned.Holds.showsDeque (hl : l.Holds s.world)
    (hs : Reachable plat (Session.Plain plat) s) : ShowsDeque s.world l.list l.elems := by
  obtain ⟨hheld, nodes, sl, f, hplaced, hin⟩ := hl
  obtain ⟨fs, hinv⟩ := reachable_inv hs
  have hcount := hplaced.count (fun b hb => (held_end hinv (hheld b hb)).2) hin
  simp only [sizeofListNode] at hcount
  have hwf := hin.wellFormed
  have hlinked : linkedAt s.world l.list = sl := hin.walked (by omega)
  have hfree : freeAt s.world l.list = f :=
    walk_of_chain hwf.free (show f.length ≤ wordMod by omega)
  refine ⟨by rw [hlinked]; exact hin.data, ?_, ?_, by rw [hfree]; exact hwf.capacity, ?_⟩
  · rw [hlinked]
    exact walk_of_chain hwf.backward (show sl.reverse.length ≤ wordMod by
      rw [List.length_reverse]
      omega)
  · rw [← hin.data, List.length_map]
    exact hwf.size
  · rw [hlinked, hfree]
    exact hwf.disjoint

/-- The invariant holds in every state of a run. -/
theorem reached_kept (h : Reached plat u) : Kept plat u := by
  induction h with
  | start s h =>
    exact ⟨.start s h, fun l hl => (List.not_mem_nil hl).elim, List.Pairwise.nil⟩
  | step u u' call _ hok hexec ih => exact exec_kept ih hok hexec

theorem reached_run {cs : List Call} {u' : ListSession} (h : Reached plat u)
    (hrun : runWhile (ListSession.Allowed plat) (ListSession.exec plat) u cs = some u') :
    Reached plat u' :=
  runWhile_keeps (fun u call u' h hok hexec => .step u u' call h hok hexec) h hrun

/-- A call that has left the list as a deque, and all that others hold as it was. -/
def LeavesDeque (w w' : World) (l : Owned) (ds : List Nat) : Prop :=
  ShowsDeque w' l.list ds ∧
    ∀ b ∈ heldBlocks w.log, b ∉ l.blocks → ∀ a, b.span.Covers a → w'.mem a = w.mem a

theorem Leaves.leavesDeque {ds : List Nat} {w' : World}
    (h : Leaves plat s l.list l.blocks ds w') : LeavesDeque s.world w' l ds := by
  refine ⟨?_, h.others⟩
  have hdeque := Owned.Holds.showsDeque (s := ⟨w', s.family⟩) h.holds h.reach
  exact hdeque

end Runs

end Spr.LinkedList
