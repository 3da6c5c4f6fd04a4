import Spr.MemPool.Links
import Spr.MemPool.Placement
import Spr.MemPool.Sizes

/-! # What `spr_pool_clear` leaves behind

    * `ClearedTo`: a pool after it has been cleared.
    * `Pool.Idle`, `sprPoolClear_idle`: a second clear changes nothing.
    * `clear_tree`: **the pools of a tree are cleared**, and their handlers
      called. -/

namespace Spr.MemPool

open Spr.Words Spr.Chains Spr.Forests

/-! ## Section 1: Cleared pools -/

/-- `q'` is the pool `q` after it has been cleared. -/
structure ClearedTo (q q' : Pool) : Prop where
  addr     : q'.addr = q.addr
  slots    : ∀ i < sprMaxPoolSlot, q'.slots i = (q.slots i).map Memnode.rewind
  cleanups : q'.cleanups = []
  parent   : q'.parent = q.parent
  brother  : q'.brother = q.brother
  child    : q'.child = q.child
  mutex    : q'.mutex = q.mutex
  owner    : q'.owner = q.owner

theorem clear_slots (p : Pool) {i : Nat} (hi : i < sprMaxPoolSlot) :
    p.clear.slots i = (p.slots i).map Memnode.rewind := by
  refine List.map_congr_left fun n hn => if_pos ?_
  refine List.mem_map_of_mem (List.mem_flatMap.mpr ⟨i, ?_, hn⟩)
  rw [List.mem_range'_1]
  omega

theorem clear_fromSlot (p : Pool) : p.clear.fromSlot 0 = (p.fromSlot 0).map Memnode.rewind := by
  rw [Pool.fromSlot, Pool.fromSlot, List.map_flatMap]
  refine List.flatMap_congr fun i hi => clear_slots p ?_
  rw [List.mem_range'_1] at hi
  omega

theorem clearedTo_clear (p : Pool) : ClearedTo p p.clear :=
  ⟨rfl, fun _ hi => clear_slots p hi, rfl, rfl, rfl, rfl, rfl, rfl⟩

/-- All of a cleared pool's memory is free. -/
theorem clear_sizes {plat : Platform} {w : World} {p : Pool} (h : PoolAt plat w p.clear) :
    sprPoolGetFreeSize w.mem p.addr = sprPoolGetSize w.mem p.addr := by
  rw [← clear_addr p, getFreeSize_eq h, getSize_eq h, clear_fromSlot, List.map_map, List.map_map]
  rfl

/-! ## Section 2: The second clear -/

/-- The pool is as a clear leaves it. -/
structure Pool.Idle (p : Pool) : Prop where
  cleanups : p.cleanups = []
  rewound  : ∀ n ∈ p.fromSlot 0, n.firstAvail = n.begin ∧ n.sizeAvail = n.size

theorem clear_idle (p : Pool) : p.clear.Idle := by
  refine ⟨rfl, fun n hn => ?_⟩
  rw [clear_fromSlot] at hn
  obtain ⟨m, -, rfl⟩ := List.mem_map.mp hn
  exact ⟨rfl, rfl⟩

/-- Storing what is there changes nothing. -/
theorem store_same {w : World} {a v : Nat} (h : w.mem a = v) : w.store a v = w := by
  subst h
  simp [World.store]

theorem emits_emits (w : World) (evs evs' : List Event) :
    (w.emits evs).emits evs' = w.emits (evs ++ evs') := by
  simp [World.emits]

theorem emit_eq_emits (w : World) (e : Event) : w.emit e = w.emits [e] := rfl

theorem nodeLoop_idle {ns : List Memnode} : ∀ {w : World} {start fuel : Nat},
    Chain w.mem 0 start (ns.map Memnode.addr) → (∀ n ∈ ns, HoldsNode w.mem n) →
      (∀ n ∈ ns, n.firstAvail = n.begin ∧ n.sizeAvail = n.size) → ns.length < fuel →
      nodeLoop resetNode fuel start w = .ok () (w.emits ((ns.map Memnode.addr).map .reset)) := by
  induction ns with
  | nil =>
    intro w start fuel hchain _ _ hfuel
    obtain ⟨fuel, rfl⟩ : ∃ f, fuel = f + 1 := ⟨fuel - 1, by simp at hfuel; omega⟩
    obtain rfl : start = 0 := hchain
    simp [nodeLoop]
  | cons n ns ih =>
    intro w start fuel hchain hholds hidle hfuel
    obtain ⟨fuel, rfl⟩ : ∃ f, fuel = f + 1 := ⟨fuel - 1, by simp at hfuel; omega⟩
    obtain ⟨rfl, hne, hrest⟩ := hchain
    obtain ⟨h₁, h₂, h₃, h₄, -⟩ := hholds n List.mem_cons_self
    obtain ⟨hfirst, havail⟩ := hidle n List.mem_cons_self
    have hs₁ : (w.emit (.reset n.addr)).store (n.addr + 16) n.begin = w.emit (.reset n.addr) :=
      store_same (h₂.trans hfirst)
    have hs₂ : (w.emit (.reset n.addr)).store (n.addr + 32) n.size = w.emit (.reset n.addr) :=
      store_same (h₄.trans havail)
    have hloop := ih (w := w.emit (.reset n.addr)) hrest
      (fun m hm => hholds m (List.mem_cons_of_mem _ hm))
      (fun m hm => hidle m (List.mem_cons_of_mem _ hm)) (by simpa using hfuel)
    have hreset : resetNode n.addr w = .ok (w.mem n.addr) (w.emit (.reset n.addr)) := by
      simp [resetNode, h₁, h₃, hs₁, hs₂]
    simp only [nodeLoop, if_neg hne, bind_run, hreset, hloop]
    rw [emit_eq_emits, emits_emits]
    rfl

section Idle

variable {plat : Platform} {thread : Nat} {w : World} {p : Pool} {f : Forest Pool}

theorem slotLoop_idle (h : PoolAt plat w p) (hidle : p.Idle) {n : Nat} :
    ∀ (i : Nat) (evs : List Event), i + n = sprMaxPoolSlot →
      slotLoop load resetNode p.addr i n (w.emits evs)
        = .ok () (w.emits (evs ++ (p.slotAddrs i).map .reset)) := by
  induction n with
  | zero =>
    intro i evs hi
    obtain rfl : i = sprMaxPoolSlot := by omega
    have hnil : p.slotAddrs sprMaxPoolSlot = [] := rfl
    simp [slotLoop, hnil]
  | succ n ih =>
    intro i evs hi
    have hlt : i < sprMaxPoolSlot := by omega
    have hnode := nodeLoop_idle (w := w.emits evs) (h.rep.nodes.slot i hlt)
      (fun m hm => h.rep.nodes.node m (Pool.mem_nodes_of_slot hlt hm))
      (fun m hm => hidle.rewound m (List.mem_flatMap.mpr ⟨i, by
        rw [List.mem_range'_1]
        omega, hm⟩)) (h.slot_length hlt)
    have hload : load (poolNodes p.addr i) (w.emits evs)
        = .ok (w.mem (p.addr + 8 * i)) (w.emits evs) := rfl
    rw [slotLoop, bind_run, hload]
    simp only [bind_run, hnode, emits_emits, ih (i + 1) _ (by omega)]
    rw [Pool.slotAddrs_step p hlt, List.map_append, List.append_assoc]

theorem runAll_idle (h : PoolAt plat w p) (hidle : p.Idle) :
    sprPoolCleanupRunAll plat load p.addr w = .ok () w := by
  have hnull : w.mem (p.addr + 184) = 0 := by
    have hchain := h.rep.records.cleanups
    rwa [hidle.cleanups] at hchain
  obtain ⟨k, hk⟩ : ∃ k, addressSpace = k + 1 := ⟨addressSpace - 1, by decide⟩
  simp [sprPoolCleanupRunAll, hnull, hk, runAllLoop, store_same hnull]

/-- What visiting brothers that are idle does. -/
def IdleBrothers (plat : Platform) (thread depth : Nat) (f : Forest Pool) : Prop :=
  ∀ (fuel : Nat) {start : Nat} {w : World} {rest : List Pool}, LinkedPools start f →
    PoolsAt plat w (f.toList ++ rest) → (∀ q ∈ f.toList, q.Idle ∧ Owned plat thread q) →
    f.toList.length < fuel →
    visitBrothers load (clearDepth plat thread depth) fuel start w
      = .ok () (w.emits (clearLog plat thread f))

/-- Clearing an idle pool, given what it does to the children. -/
theorem clearPool_idle {depth : Nat} {cs : Forest Pool} {rest : List Pool}
    (hvisit : IdleBrothers plat thread depth cs) (hlink : LinkedPools p.child cs)
    (h : PoolsAt plat w (p :: (cs.toList ++ rest)))
    (hidle : ∀ q ∈ p :: cs.toList, q.Idle ∧ Owned plat thread q) :
    clearDepth plat thread (depth + 1) p.addr w
      = .ok () (w.emits (clearEvents plat thread p (clearLog plat thread cs))) := by
  obtain ⟨hself, howned⟩ := hidle p List.mem_cons_self
  have hp := h.pool p List.mem_cons_self
  have hpv := hp.of_eq (v := w.emit (.visited p.addr)) rfl rfl
  have howner := notOwner_run .plain hpv thread
  rw [Reader.plain_run, ownerEvents_plain, emits_nil] at howner
  obtain ⟨w₁, hw₁⟩ : ∃ w₁, w₁ = (w.emit (.visited p.addr)).emits (lockEvents plat thread p) :=
    ⟨_, rfl⟩
  have hlock : lockPool plat thread p.addr (w.emit (.visited p.addr)) = .ok () w₁ :=
    hw₁ ▸ lockPool_run hpv thread
  have h₁ : PoolsAt plat w₁ (p :: (cs.toList ++ rest)) := by
    rw [hw₁]
    exact h.of_eq rfl rfl
  have hp₁ := h₁.pool p List.mem_cons_self
  have hall := runAll_idle hp₁ hself
  have hload : w₁.mem (p.addr + 176) = p.child := hp₁.rep.header.child
  -- the children are idle too
  have hchildren : (if p.child ≠ 0 then
      visitBrothers load (clearDepth plat thread depth) addressSpace p.child else pure ()) w₁
        = .ok () (w₁.emits (clearLog plat thread cs)) := by
    by_cases hnull : p.child = 0
    · have hnil : cs = .nil := by
        rw [hnull] at hlink
        exact linkedPools_null hlink h fun q hq =>
          List.mem_cons_of_mem _ (List.mem_append_left _ hq)
      subst hnil
      simp [hnull, clearLog]
    · rw [if_pos hnull]
      refine hvisit addressSpace hlink (h₁.perm List.perm_middle.symm)
        (fun q hq => hidle q (List.mem_cons_of_mem _ hq)) ?_
      have hlen := h.length_lt
      simp only [List.length_cons, List.length_append] at hlen
      omega
  have hloop := slotLoop_idle hp₁ hself 0 (clearLog plat thread cs)
    (Nat.zero_add sprMaxPoolSlot)
  have hunlock := unlockPool_run (hp₁.of_eq (v := (w₁.emits (clearLog plat thread cs ++
    (p.slotAddrs 0).map .reset)).emit (.cleared p.addr)) rfl rfl) thread
  -- so all that a second call does is to log
  have hend : ((w₁.emits (clearLog plat thread cs ++ (p.slotAddrs 0).map .reset)).emit
      (.cleared p.addr)).emits (unlockEvents plat thread p)
        = w.emits (clearEvents plat thread p (clearLog plat thread cs)) := by
    rw [clearEvents, if_pos howned, hself.cleanups, hw₁]
    simp [World.emits, World.emit]
  rw [← hend]
  by_cases hnull : p.child = 0
  · rw [if_neg (by simpa using hnull)] at hchildren
    have hw₂ : w₁.emits (clearLog plat thread cs) = w₁ := by simpa using hchildren.symm
    rw [hw₂] at hloop
    simp [clearDepth, howner, howned, hlock, hall, hload, hnull, hloop, hunlock]
  · rw [if_pos hnull] at hchildren
    simp [clearDepth, howner, howned, hlock, hall, hload, hnull, hchildren, hloop, hunlock]

/-- Clearing idle brothers, by induction on the forest. -/
theorem clearBrothers_idle {f : Forest Pool} :
    ∀ (depth : Nat), f.toList.length ≤ depth → IdleBrothers plat thread depth f := by
  induction f with
  | nil =>
    intro depth _ fuel start w rest hlink _ _ hfuel
    obtain ⟨fuel, rfl⟩ : ∃ k, fuel = k + 1 := ⟨fuel - 1, by omega⟩
    obtain rfl : start = 0 := hlink
    simp [visitBrothers, clearLog]
  | node p cs bs ihc ihb =>
    intro depth hdepth fuel start w rest hlink h hidle hfuel
    simp only [Forest.toList_node, List.length_cons, List.length_append] at hdepth hfuel
    obtain ⟨depth, rfl⟩ : ∃ d, depth = d + 1 := ⟨depth - 1, by omega⟩
    obtain ⟨fuel, rfl⟩ : ∃ k, fuel = k + 1 := ⟨fuel - 1, by omega⟩
    obtain ⟨rfl, hchildren, hbrothers⟩ := hlink
    have hne := (h.pool p List.mem_cons_self).addr_ne_null
    have hbrother : w.mem (p.addr + 168) = p.brother :=
      (h.pool p List.mem_cons_self).rep.header.brother
    rw [Forest.toList_node, List.cons_append, List.append_assoc] at h
    have h₀ : PoolsAt plat (w.emit (.followed p.addr)) (p :: (cs.toList ++ (bs.toList ++ rest))) :=
      h.of_eq rfl rfl
    have hpool := clearPool_idle (ihc depth (by omega)) hchildren h₀ fun q hq =>
      hidle q (by
        rw [Forest.toList_node, ← List.cons_append]
        exact List.mem_append_left _ hq)
    -- the brothers come to the front
    have hswap : (p :: (cs.toList ++ (bs.toList ++ rest))).Perm
        (bs.toList ++ (p :: (cs.toList ++ rest))) := by
      classical
      rw [List.perm_iff_count]
      intro x
      simp only [List.count_cons, List.count_append]
      omega
    have hrest := ihb (depth + 1) (by omega) fuel hbrothers
      ((h.perm hswap).of_eq (v := (w.emit (.followed p.addr)).emits
        (clearEvents plat thread p (clearLog plat thread cs))) rfl rfl)
      (fun q hq => hidle q (List.mem_cons_of_mem _ (List.mem_append_right _ hq))) (by omega)
    simp only [visitBrothers, if_neg hne, bind_run, emit_run, load_run, emit_mem, poolBrother,
      hbrother, hpool, hrest]
    rw [emit_eq_emits, emits_emits, emits_emits]
    rfl

/-- **Clearing a tree that is idle** only logs. -/
theorem sprPoolClear_idle {cs : Forest Pool} {rest : List Pool} (hlink : LinkedPools p.child cs)
    (h : PoolsAt plat w (p :: (cs.toList ++ rest)))
    (hidle : ∀ q ∈ p :: cs.toList, q.Idle ∧ Owned plat thread q) :
    sprPoolClear plat thread p.addr w
      = .ok () (w.emits (clearEvents plat thread p (clearLog plat thread cs))) := by
  have hlen := h.length_lt
  simp only [List.length_cons, List.length_append] at hlen
  obtain ⟨d, hd⟩ : ∃ d, addressSpace = d + 1 := ⟨addressSpace - 1, by omega⟩
  rw [sprPoolClear, hd]
  exact clearPool_idle (clearBrothers_idle d (by omega)) hlink h hidle

end Idle

/-! ## Section 3: The tree -/

/-- The handler that an event calls, and the data. -/
def Event.call : Event → Option (Nat × Nat)
  | .called handler data => some (handler, data)
  | _ => none

/-- The handlers that are called, in order. -/
def calls (evs : List Event) : List (Nat × Nat) := evs.filterMap Event.call

/-- The registrations that are pending, newest first. -/
def Pool.pending (p : Pool) : List (Nat × Nat) := p.cleanups.map fun r => (r.handler, r.data)

section Tree

variable {plat : Platform} {thread : Nat} {w : World} {p : Pool}

theorem calls_append (evs evs' : List Event) : calls (evs ++ evs') = calls evs ++ calls evs' :=
  List.filterMap_append

theorem calls_of_notCall {evs : List Event} (h : ∀ e ∈ evs, e.call = none) : calls evs = [] :=
  List.filterMap_eq_nil_iff.mpr h

theorem calls_lockEvents : calls (lockEvents plat thread p) = [] :=
  calls_of_notCall (forall_lockEvents rfl)

theorem calls_unlockEvents : calls (unlockEvents plat thread p) = [] :=
  calls_of_notCall (forall_unlockEvents rfl)

theorem calls_callEvents (plat : Platform) (rs : List Record) :
    calls (rs.flatMap (callEvents plat)) = rs.map fun r => (r.handler, r.data) := by
  induction rs with
  | nil => rfl
  | cons r rs ih =>
    rw [List.flatMap_cons, calls_append, ih, callEvents]
    split <;> rfl

theorem calls_clearEvents (howned : Owned plat thread p) (inner : List Event) :
    calls (clearEvents plat thread p inner) = p.pending ++ calls inner := by
  have hresets : calls ((p.slotAddrs 0).map .reset) = [] := by
    refine calls_of_notCall fun e he => ?_
    obtain ⟨a, -, rfl⟩ := List.mem_map.mp he
    rfl
  rw [clearEvents, if_pos howned]
  show calls (_ ++ .cleared p.addr :: unlockEvents plat thread p) = _
  rw [calls_append, calls_append, calls_append, calls_append, hresets, calls_lockEvents,
    calls_callEvents plat]
  show _ ++ calls (unlockEvents plat thread p) = _
  rw [calls_unlockEvents]
  simp [Pool.pending]

theorem calls_clearLog {f : Forest Pool} (howned : ∀ q ∈ f.toList, Owned plat thread q) :
    calls (clearLog plat thread f) = f.toList.flatMap Pool.pending := by
  induction f with
  | nil => rfl
  | node p cs bs ihc ihb =>
    have hc := ihc fun q hq => howned q (List.mem_cons_of_mem _ (List.mem_append_left _ hq))
    have hb := ihb fun q hq => howned q (List.mem_cons_of_mem _ (List.mem_append_right _ hq))
    rw [clearLog, calls_append, hb, Forest.toList_node, List.flatMap_cons, List.flatMap_append,
      ← List.append_assoc]
    show calls (clearEvents plat thread p (clearLog plat thread cs)) ++ _ = _
    rw [calls_clearEvents (howned p List.mem_cons_self), hc]

/-- A forest that is the thread's is cleared all over. -/
theorem clearForest_owned {f : Forest Pool} (howned : ∀ q ∈ f.toList, Owned plat thread q) :
    clearForest plat thread f = f.map Pool.clear := by
  induction f with
  | nil => rfl
  | node p cs bs ihc ihb =>
    rw [clearForest, if_pos (howned p List.mem_cons_self), Forest.map,
      ihc fun q hq => howned q (List.mem_cons_of_mem _ (List.mem_append_left _ hq)),
      ihb fun q hq => howned q (List.mem_cons_of_mem _ (List.mem_append_right _ hq))]

/-- What `spr_pool_clear` on the pool `p` leads to: `qs` are the pool and all below
    it, `rest` the other pools. -/
structure ClearsTree (plat : Platform) (thread : Nat) (w : World) (p : Pool) (qs rest : List Pool)
    (w' : World) : Prop where
  /-- Each pool is cleared, where it was. -/
  cleared : ∀ q ∈ qs, ∃ q', ClearedTo q q' ∧ PoolAt plat w' q'
  /-- All its memory is free. -/
  free : ∀ q ∈ qs, ∃ size, sprPoolGetSize w'.mem q.addr = some size ∧
    sprPoolGetFreeSize w'.mem q.addr = some size
  /-- The other pools are as they were. -/
  others : ∀ q ∈ rest, PoolAt plat w' q
  /-- Every handler that was pending is called once. -/
  called : calls w'.log = calls w.log ++ qs.flatMap Pool.pending
  /-- A second clear calls no handler and changes nothing. -/
  again : ∃ evs, sprPoolClear plat thread p.addr w' = .ok () (w'.emits evs) ∧ calls evs = []

/-- **`spr_pool_clear` on a tree of the thread.** -/
theorem clears_tree {cs : Forest Pool} {rest : List Pool} (hlink : LinkedPools p.child cs)
    (h : PoolsAt plat w (p :: (cs.toList ++ rest)))
    (howned : ∀ q ∈ p :: cs.toList, Owned plat thread q) :
    ∃ w', sprPoolClear plat thread p.addr w = .ok () w' ∧
      ClearsTree plat thread w p (p :: cs.toList) rest w' := by
  have hself := howned p List.mem_cons_self
  have hbelow : ∀ q ∈ cs.toList, Owned plat thread q := fun q hq =>
    howned q (List.mem_cons_of_mem _ hq)
  obtain ⟨w', hrun, hat, hlog, -⟩ := sprPoolClear_spec thread hlink h
  rw [clearTree, if_pos hself, clearForest_owned hbelow] at hat
  simp only [Forest.toList_map] at hat
  have hpool : ∀ q ∈ p :: cs.toList, PoolAt plat w' q.clear := by
    intro q hq
    rcases List.mem_cons.mp hq with rfl | hq
    · exact hat.pool _ List.mem_cons_self
    · exact hat.pool _ (List.mem_cons_of_mem _ (List.mem_append_left _ (List.mem_map_of_mem hq)))
  -- nothing is left to do for a second call
  have hidle : ∀ q ∈ p.clear :: (cs.map Pool.clear).toList, q.Idle ∧ Owned plat thread q := by
    intro q hq
    rw [Forest.toList_map] at hq
    rcases List.mem_cons.mp hq with rfl | hq
    · exact ⟨clear_idle p, hself⟩
    · obtain ⟨r, hr, rfl⟩ := List.mem_map.mp hq
      exact ⟨clear_idle r, hbelow r hr⟩
  have hlinked : LinkedPools p.clear.child (cs.map Pool.clear) :=
    clearForest_owned hbelow ▸ linked_clearForest hlink
  have hagain := sprPoolClear_idle hlinked (show PoolsAt plat w' (_ :: (_ ++ rest)) by
    simpa using hat) hidle
  refine ⟨w', hrun, fun q hq => ⟨q.clear, clearedTo_clear q, hpool q hq⟩, fun q hq => ?_,
    fun q hq => ?_, ?_, _, hagain, ?_⟩
  · have hsize := getSize_eq (hpool q hq)
    exact ⟨_, hsize, (clear_sizes (hpool q hq)).trans hsize⟩
  · exact hat.pool q (List.mem_cons_of_mem _ (List.mem_append_right _ hq))
  · rw [hlog, calls_append, calls_clearEvents hself, calls_clearLog hbelow, List.flatMap_cons]
  · rw [calls_clearEvents (p := p.clear) hself, calls_clearLog fun q hq => ?_, Forest.toList_map]
    · rw [List.flatMap_map]
      exact List.flatMap_eq_nil_iff.mpr fun q _ => rfl
    · rw [Forest.toList_map] at hq
      obtain ⟨r, hr, rfl⟩ := List.mem_map.mp hq
      exact hbelow r hr

/-- **`spr_pool_clear` on a tree of the thread**, whose pools are in order: headers, memnodes
    and records lie apart, and the links make up the tree.  In plain runs they always are. -/
theorem clear_tree (plat : Platform) (thread : Nat) :
    (∀ (w : World) (p : Pool) (cs : Forest Pool) (rest : List Pool), LinkedPools p.child cs →
      PoolsAt plat w (p :: (cs.toList ++ rest)) →
      (∀ q ∈ p :: cs.toList, Owned plat thread q) →
      ∃ w', sprPoolClear plat thread p.addr w = .ok () w' ∧
        ClearsTree plat thread w p (p :: cs.toList) rest w') ∧
    ∀ (s : Session) (m : Member), Reachable plat (Session.Plain plat) s → m ∈ s.family.toList →
      (∀ n ∈ m :: (s.family.childrenAt Member.addr m.addr).toList, n.Owned plat thread) →
      ∃ (p : Pool) (cs : Forest Pool) (rest : List Pool) (w' : World), p.member = m ∧
        cs.map Pool.member = s.family.childrenAt Member.addr m.addr ∧ LinkedPools p.child cs ∧
        PoolsAt plat s.world (p :: (cs.toList ++ rest)) ∧
        sprPoolClear plat thread m.addr s.world = .ok () w' ∧
        ClearsTree plat thread s.world p (p :: cs.toList) rest w' := by
  constructor
  · intro w p cs rest hlink h howned
    exact clears_tree hlink h howned
  · intro s m hreach hm howned
    obtain ⟨p, cs, rest, rfl, hcs, hlink, hat⟩ := reachable_member hreach hm
    have hall : ∀ q ∈ p :: cs.toList, Owned plat thread q := by
      intro q hq
      rcases List.mem_cons.mp hq with rfl | hq
      · exact howned q.member List.mem_cons_self
      · refine howned q.member (List.mem_cons_of_mem _ ?_)
        rw [← hcs, Forest.toList_map]
        exact List.mem_map_of_mem hq
    obtain ⟨w', hclear, hspec⟩ := clears_tree hlink hat hall
    exact ⟨p, cs, rest, w', rfl, hcs, hlink, hat, hclear, hspec⟩

/-- A pool with one child and a pending handler. -/
theorem clear_tree_two : ∃ (s : Session) (p : Pool) (cs : Forest Pool) (rest : List Pool)
    (w' : World), Reachable machine (Session.Plain machine) s ∧ p.addr = 65584 ∧
      cs.toList.map Pool.addr = [131120] ∧ sprPoolClear machine 1 65584 s.world = .ok () w' ∧
      ClearsTree machine 1 s.world p (p :: cs.toList) rest w' := by
  have hrun : ((session.run machine (Session.Plain machine)
      [.create 1 0 0, .create 1 0 65584, .cleanupAdd 1 65584 100 50]).any fun s =>
        s.family = .node ⟨65584, 1⟩ (.node ⟨131120, 1⟩ .nil .nil) .nil) = true := by
    decide +kernel
  obtain ⟨s, hs, hfacts⟩ := (Option.any_eq_true _ _).mp hrun
  have hfamily := of_decide_eq_true hfacts
  have hreach := reachable_run (.start session initial_session) hs
  obtain ⟨p, cs, rest, w', hmember, hcs, -, -, hclear, hspec⟩ :=
    (clear_tree machine 1).2 s ⟨65584, 1⟩ hreach (by rw [hfamily]; decide)
      (by rw [hfamily]; decide)
  rw [hfamily] at hcs
  have haddrs : cs.toList.map Pool.addr = (cs.map Pool.member).toList.map Member.addr := by
    rw [Forest.toList_map, List.map_map]
    rfl
  exact ⟨s, p, cs, rest, w', hreach, congrArg Member.addr hmember,
    by rw [haddrs, hcs]; decide, hclear, hspec⟩

/-- A clear keeps a record in reserve; of two registrations after it the second is carved over
    the first: the next clear calls the handler 52 twice, and the handler 51 never. -/
theorem pending_called_twice : ¬ ∀ (plat : Platform) (s s₁ s₂ s₃ s' : Session)
    (thread pool data handler data' handler' : Nat),
    Reachable plat (fun s op => s.Lawful plat op ∧ op.Fits plat) s →
    pool ∈ s.family.roots.map Member.addr → (∀ m ∈ s.family.toList, m.Owned plat thread) →
    handler ≠ plat.sprFree → handler' ≠ plat.sprFree →
    s.exec plat (.clear thread pool) = some s₁ →
    s₁.exec plat (.cleanupAdd thread pool data handler) = some s₂ →
    s₂.exec plat (.cleanupAdd thread pool data' handler') = some s₃ →
    s₃.exec plat (.clear thread pool) = some s' →
    calls s'.world.log = calls s₃.world.log ++ [(handler', data'), (handler, data)] := by
  intro hall
  have hrun : ((session.run machine (fun s op => s.Lawful machine op ∧ op.Fits machine)
      [.create 1 0 0, .cleanupAdd 1 65584 100 50]).any fun s =>
        65584 ∈ s.family.roots.map Member.addr ∧ (∀ m ∈ s.family.toList, m.Owned machine 1) ∧
          (s.exec machine (.clear 1 65584)).any fun s₁ =>
            (s₁.exec machine (.cleanupAdd 1 65584 101 51)).any fun s₂ =>
              (s₂.exec machine (.cleanupAdd 1 65584 102 52)).any fun s₃ =>
                (s₃.exec machine (.clear 1 65584)).any fun s' =>
                  calls s'.world.log ≠ calls s₃.world.log ++ [(52, 102), (51, 101)]) = true := by
    decide +kernel
  obtain ⟨s, hs, hfacts⟩ := (Option.any_eq_true _ _).mp hrun
  obtain ⟨hpool, howned, hcalls⟩ := of_decide_eq_true hfacts
  obtain ⟨s₁, hclear, hcalls⟩ := (Option.any_eq_true _ _).mp hcalls
  obtain ⟨s₂, hfirst, hcalls⟩ := (Option.any_eq_true _ _).mp hcalls
  obtain ⟨s₃, hsecond, hcalls⟩ := (Option.any_eq_true _ _).mp hcalls
  obtain ⟨s', hagain, hcalls⟩ := (Option.any_eq_true _ _).mp hcalls
  exact of_decide_eq_true hcalls (hall machine s s₁ s₂ s₃ s' 1 65584 101 51 102 52
    (reachable_run (.start session initial_session) hs) hpool howned (by decide) (by decide)
    hclear hfirst hsecond hagain)

end Tree

end Spr.MemPool
