import Mathlib.Data.List.Range
import Spr.LinkedList.Model

/-! # A well-formed list is a deque

    * `WellFormed m s f`: the linked nodes of `m` are `s`, in order, and its
      free nodes are `f`.
    * `chainFree_spec`, `takeNode_spec`: what allocation and recycling hand out.
    * `linkBack_wellFormed`, `linkFront_wellFormed`: what a push does with it.
    * `list_deque_iff`: when the operations are those of a deque, and runs.

    Neither push sets the outer link of the first node of an empty list; it
    keeps whatever the node had there. -/

namespace Spr.LinkedList

open Spr.Chains

/-! ## Section 1: Well-formed lists -/

/-- The linked nodes of `m` are `s`, from head to tail, and its free nodes are `f`. -/
structure WellFormed (m : ListMem) (s f : List Nat) : Prop where
  forward  : Chain (nextOf m) 0 m.list.head s
  backward : Chain (prevOf m) 0 m.list.tail s.reverse
  size     : m.list.size = s.length
  free     : Chain (nextOf m) 0 m.list.freeNodes f
  capacity : m.list.capacity = f.length
  disjoint : ∀ a ∈ s, a ∉ f

/-- A well-formed list whose elements are `ds`. -/
def IsList (m : ListMem) (ds : List Nat) : Prop :=
  ∃ s f, WellFormed m s f ∧ s.map (dataOf m) = ds

theorem WellFormed.unique {m : ListMem} {s s' f f' : List Nat} (h : WellFormed m s f)
    (h' : WellFormed m s' f') : s = s' ∧ f = f' :=
  ⟨chain_unique h.forward h'.forward, chain_unique h.free h'.free⟩

theorem WellFormed.head_null_iff {m : ListMem} {s f : List Nat} (h : WellFormed m s f) :
    m.list.head = 0 ↔ s = [] := chain_null_iff h.forward

theorem WellFormed.tail_null_iff {m : ListMem} {s f : List Nat} (h : WellFormed m s f) :
    m.list.tail = 0 ↔ s = [] := by
  rw [chain_null_iff h.backward, List.reverse_eq_nil_iff]

theorem WellFormed.free_null_iff {m : ListMem} {s f : List Nat} (h : WellFormed m s f) :
    m.list.freeNodes = 0 ↔ f = [] := chain_null_iff h.free

/-- The list that `spr_list_create1` returns is well formed and empty. -/
theorem isList_create {block pool : Nat} {errno : Int} {l : SprList} {e : Int}
    (h : sprListCreate1 block errno pool = (e, some l)) (heap : Nat → ListNode) :
    IsList { heap := heap, list := l } [] := by
  unfold sprListCreate1 at h
  split at h
  · simp at h
  · simp only [Prod.mk.injEq, Option.some.injEq] at h
    obtain ⟨-, rfl⟩ := h
    exact ⟨[], [], ⟨rfl, rfl, rfl, rfl, rfl, by simp⟩, rfl⟩

/-! ## Section 2: The contract of `spr_palloc` -/

/-- What a caller may rely on while the nodes `used` are in use: a block does not wrap,
    and touches no node in use. -/
structure PallocAnswer.Honest (ans : PallocAnswer) (used : List Nat) : Prop where
  room  : ans.block ≠ 0 → ans.block + ans.length ≤ 2 ^ 64
  fresh : ans.block ≠ 0 →
    ∀ a ∈ used, a + sizeofListNode ≤ ans.block ∨ ans.block + ans.length ≤ a

/-- A block has the `size` bytes it was asked for, which it need not have: the pool's sum
    may have wrapped. -/
def PallocAnswer.Long (ans : PallocAnswer) (size : Nat) : Prop := ans.block ≠ 0 → size ≤ ans.length

/-- A failure leaves an error code, which it need not do: on Win32 the last error may
    be 0. -/
def PallocAnswer.Reported (ans : PallocAnswer) : Prop := ans.block = 0 → ans.errno ≠ sprOk

/-- The `k` nodes from `&nodes[i]` on. -/
def nodeAddrs (nodes i k : Nat) : List Nat :=
  (List.range' i k).map fun j => nodes + sizeofListNode * j

theorem nodeAddrs_succ (nodes i k : Nat) :
    nodeAddrs nodes i (k + 1) = (nodes + sizeofListNode * i) :: nodeAddrs nodes (i + 1) k := by
  simp [nodeAddrs, List.range'_succ]

theorem mem_nodeAddrs {nodes i k a : Nat} (h : a ∈ nodeAddrs nodes i k) :
    nodes + 24 * i ≤ a ∧ a + 24 ≤ nodes + 24 * (i + k) := by
  obtain ⟨j, hj, rfl⟩ := List.mem_map.mp h
  rw [List.mem_range'_1] at hj
  simp only [sizeofListNode]
  omega

@[simp] theorem nodeAddrs_length (nodes i k : Nat) : (nodeAddrs nodes i k).length = k := by
  simp [nodeAddrs]

/-! ## Section 3: Allocation -/

/-- What the chaining loop leaves alone: all but the start of the free chain and
    the links of the nodes it hangs on it. -/
theorem chainFree_frame (nodes : Nat) : ∀ (k i : Nat) (m : ListMem),
    (∃ first, (chainFree nodes i k m).list = { m.list with freeNodes := first }) ∧
    ∀ a, a ∉ nodeAddrs nodes i k → (chainFree nodes i k m).heap a = m.heap a := by
  intro k
  induction k with
  | zero => intro i m; exact ⟨⟨_, rfl⟩, fun _ _ => rfl⟩
  | succ k ih =>
    intro i m
    rw [chainFree]
    obtain ⟨⟨first, hlist⟩, hheap⟩ := ih (i + 1)
      ((m.setList { m.list with freeNodes := nodes + sizeofListNode * i }).setNext
        (nodes + sizeofListNode * i) m.list.freeNodes)
    refine ⟨⟨first, hlist⟩, fun a ha => ?_⟩
    rw [nodeAddrs_succ, List.mem_cons, not_or] at ha
    rw [hheap a ha.2]
    simp [ListMem.setNext, Function.update_of_ne ha.1]

/-- The loop hangs the nodes, last one first, before the free ones. -/
theorem chainFree_free {nodes : Nat} (hn : nodes ≠ 0) : ∀ (k i : Nat) (m : ListMem) (f : List Nat),
    Chain (nextOf m) 0 m.list.freeNodes f → (∀ a ∈ f, a ∉ nodeAddrs nodes i k) →
    Chain (nextOf (chainFree nodes i k m)) 0 (chainFree nodes i k m).list.freeNodes
      ((nodeAddrs nodes i k).reverse ++ f) := by
  intro k
  induction k with
  | zero => intro i m f hf _; simpa [chainFree, nodeAddrs] using hf
  | succ k ih =>
    intro i m f hf hdis
    rw [chainFree, nodeAddrs_succ, List.reverse_cons, List.append_assoc, List.singleton_append]
    rw [nodeAddrs_succ] at hdis
    have hfresh : nodes + sizeofListNode * i ∉ f := fun hmem =>
      hdis _ hmem List.mem_cons_self
    apply ih
    · rw [nextOf_setNext, nextOf_setList]
      exact chain_push (by omega) hfresh hf
    · intro a ha hmem
      rcases List.mem_cons.mp ha with rfl | ha
      · have := mem_nodeAddrs hmem
        simp only [sizeofListNode] at this
        omega
      · exact hdis a ha (List.mem_cons_of_mem _ hmem)

/-- **A block made into free nodes.**  The nodes of a fresh block, as far as they
    are hung on the free chain, are new; the list is otherwise as it was. -/
theorem freshChain_wellFormed {ans : PallocAnswer} {m m₁ : ListMem} {s f : List Nat}
    {size nodes k : Nat} (hwf : WellFormed m s f) (hans : ans.Honest (s ++ f))
    (hlong : ans.Long size) (hb : ans.block ≠ 0) (hlow : ans.block ≤ nodes)
    (hhigh : nodes + sizeofListNode * k ≤ ans.block + size)
    (hm₁ : chainFree nodes 0 k (m.receive ans size) = m₁) :
    WellFormed (m₁.setList { m₁.list with capacity := m.list.capacity + k }) s
        ((nodeAddrs nodes 0 k).reverse ++ f) ∧
      s.map (dataOf m₁) = s.map (dataOf m) := by
  have hsize := hlong hb
  -- the new nodes are none of those in use or kept
  have haway : ∀ a ∈ s ++ f, a ∉ nodeAddrs nodes 0 k := by
    intro a ha hmem
    have hfar := hans.fresh hb a ha
    have := mem_nodeAddrs hmem
    simp only [sizeofListNode] at hfar hhigh
    omega
  have hold : ∀ a ∈ s ++ f, (m.receive ans size).heap a = m.heap a := by
    intro a ha
    have hfar := hans.fresh hb a ha
    simp only [sizeofListNode] at hfar
    simp only [ListMem.receive]
    rw [if_neg (by omega)]
  obtain ⟨⟨first, hlist⟩, hheap⟩ := chainFree_frame nodes k 0 (m.receive ans size)
  rw [hm₁] at hlist hheap
  have hsame : ∀ a ∈ s, m₁.heap a = m.heap a := fun a ha => by
    have ha' := List.mem_append_left f ha
    rw [hheap a (haway a ha'), hold a ha']
  have hfree : Chain (nextOf (m.receive ans size)) 0 m.list.freeNodes f :=
    chain_congr (fun a ha => congrArg ListNode.next (hold a (List.mem_append_right s ha))) hwf.free
  have hchain := chainFree_free (by omega) k 0 (m.receive ans size) f hfree
    fun a ha => haway a (List.mem_append_right s ha)
  rw [hm₁] at hchain
  refine ⟨⟨?_, ?_, ?_, hchain, ?_, ?_⟩,
    List.map_congr_left fun a ha => congrArg ListNode.data (hsame a ha)⟩
  · simp only [setList_list, nextOf_setList, hlist]
    exact chain_congr (fun a ha => congrArg ListNode.next (hsame a ha)) hwf.forward
  · simp only [setList_list, prevOf_setList, hlist]
    exact chain_congr
      (fun a ha => congrArg ListNode.prev (hsame a (List.mem_reverse.mp ha))) hwf.backward
  · simp only [setList_list, hlist]
    exact hwf.size
  · simp [hwf.capacity, Nat.add_comm]
  · intro a ha hmem
    rcases List.mem_append.mp hmem with hmem | hmem
    · exact haway a (List.mem_append_left f ha) (List.mem_reverse.mp hmem)
    · exact hwf.disjoint a ha hmem

/-- The node a push is about to use, with what it holds: the first free node, or
    the first of the block. -/
def usedNode (ans : PallocAnswer) (m : ListMem) : ListNode :=
  if m.list.freeNodes ≠ 0 then m.heap m.list.freeNodes else ans.stale ans.block

/-- The push cannot get a node. -/
def NoNode (ans : PallocAnswer) (m : ListMem) : Prop := m.list.freeNodes = 0 ∧ ans.block = 0

/-- The size both pushes ask for. -/
def chunkSize : Nat := sizeofListNode * sprListInitialSize

/-- A node has been taken: it is neither linked nor free, it holds what it held,
    and the list is well formed without it. -/
structure Taken (ans : PallocAnswer) (m : ListMem) (s : List Nat) (node : Nat) (m' : ListMem)
    (f' : List Nat) : Prop where
  result     : takeNode ans m = .ok (node, m')
  ne_null    : node ≠ 0
  not_linked : node ∉ s
  not_free   : node ∉ f'
  wellFormed : WellFormed m' s f'
  data       : s.map (dataOf m') = s.map (dataOf m)
  contents   : m'.heap node = usedNode ans m

theorem takeNode_recycled (ans : PallocAnswer) {m : ListMem} {s f : List Nat} {a : Nat}
    (hwf : WellFormed m s (a :: f)) : ∃ m', Taken ans m s a m' f := by
  have ha : m.list.freeNodes = a := chain_head hwf.free
  have hne : m.list.freeNodes ≠ 0 := by
    rw [ha]; exact chain_ne_null hwf.free a List.mem_cons_self
  refine ⟨m.setList
    { m.list with freeNodes := nextOf m a, capacity := m.list.capacity - 1 },
    { result := by rw [takeNode, if_pos hne, ha]
      ne_null := by rwa [← ha]
      not_linked := fun hmem => hwf.disjoint a hmem List.mem_cons_self
      not_free := (List.nodup_cons.mp (chain_nodup hwf.free)).1
      wellFormed := ?_
      data := rfl
      contents := by rw [setList_heap, usedNode, if_pos hne, ha] }⟩
  refine ⟨hwf.forward, hwf.backward, hwf.size, chain_unlink_head hwf.free, ?_,
    fun b hb hmem => hwf.disjoint b hb (List.mem_cons_of_mem _ hmem)⟩
  simp [hwf.capacity]

theorem takeNode_fresh {ans : PallocAnswer} {m : ListMem} {s : List Nat}
    (hwf : WellFormed m s []) (hans : ans.Honest s) (hlong : ans.Long chunkSize)
    (hb : ans.block ≠ 0) : ∃ m' f', Taken ans m s ans.block m' f' := by
  have hnull : m.list.freeNodes = 0 := hwf.free_null_iff.mpr rfl
  have hroom : ans.block + sizeofListNode + sizeofListNode * 9 ≤ ans.block + chunkSize := by
    simp only [chunkSize, sizeofListNode, sprListInitialSize]; omega
  obtain ⟨hchunk, hdata⟩ := freshChain_wellFormed hwf (by rwa [List.append_nil]) hlong
    hb (Nat.le_add_right _ _) hroom rfl
  have hfirst : ans.block ∉ nodeAddrs (ans.block + sizeofListNode) 0 9 := fun hmem => by
    have := mem_nodeAddrs hmem
    simp only [sizeofListNode] at this
    omega
  rw [hwf.capacity] at hchunk
  refine ⟨_, _,
    { result := by rw [takeNode, if_neg (by simpa using hnull), if_neg hb]; rfl
      ne_null := hb
      not_linked := fun hmem => ?_
      not_free := ?_
      wellFormed := hchunk
      data := hdata
      contents := ?_ }⟩
  · have hfar := hans.fresh hb _ hmem
    have hsize := hlong hb
    simp only [chunkSize, sizeofListNode, sprListInitialSize] at hfar hsize
    omega
  · simpa using hfirst
  · rw [setList_heap, (chainFree_frame _ 9 0 _).2 _ hfirst, usedNode,
      if_neg (by simpa using hnull)]
    simp [ListMem.receive, chunkSize, sizeofListNode, sprListInitialSize]

/-- **Where a push gets its node**: nowhere, and then the allocation's `errno` is
    the answer, or from the free chain or a fresh block. -/
theorem takeNode_spec {ans : PallocAnswer} {m : ListMem} {s f : List Nat}
    (hwf : WellFormed m s f) (hans : ans.Honest (s ++ f))
    (hlong : m.list.freeNodes = 0 → ans.Long chunkSize) :
    (NoNode ans m ∧ takeNode ans m = .error ans.errno) ∨
    (¬ NoNode ans m ∧ ∃ node m' f', Taken ans m s node m' f') := by
  cases f with
  | cons a f =>
    have hne : m.list.freeNodes ≠ 0 := fun h => by simpa using hwf.free_null_iff.mp h
    obtain ⟨m', hm'⟩ := takeNode_recycled ans hwf
    exact Or.inr ⟨fun h => hne h.1, a, m', f, hm'⟩
  | nil =>
    have hnull : m.list.freeNodes = 0 := hwf.free_null_iff.mpr rfl
    by_cases hb : ans.block = 0
    · exact Or.inl ⟨⟨hnull, hb⟩, by simp [takeNode, hnull, hb]⟩
    · rw [List.append_nil] at hans
      obtain ⟨m', f', hm'⟩ := takeNode_fresh hwf hans (hlong hnull) hb
      exact Or.inr ⟨fun h => hb h.2, _, m', f', hm'⟩

/-! ## Section 4: Linking -/

theorem linkBack_data (d node : Nat) (m : ListMem) :
    dataOf (linkBack d node m) = Function.update (dataOf m) node d := by
  by_cases h : m.list.tail = 0 <;> simp [linkBack, h]

theorem linkFront_data (d node : Nat) (m : ListMem) :
    dataOf (linkFront d node m) = Function.update (dataOf m) node d := by
  by_cases h : m.list.head = 0 <;> simp [linkFront, h]

/-- `spr_list_push_back` hangs the node behind the last one; on an empty list
    only if the node's stale `prev` happens to be `NULL`. -/
theorem linkBack_wellFormed {m : ListMem} {s f : List Nat} {node : Nat} (d : Nat)
    (hwf : WellFormed m s f) (hnode : node ≠ 0) (hs : node ∉ s) (hf : node ∉ f)
    (hprev : s ≠ [] ∨ prevOf m node = 0) : WellFormed (linkBack d node m) (s ++ [node]) f := by
  by_cases hnil : s = []
  · have hzero : prevOf m node = 0 := hprev.resolve_left (fun h => h hnil)
    subst hnil
    have htail : m.list.tail = 0 := hwf.tail_null_iff.mpr rfl
    have hbody : linkBack d node m
        = ((m.setNext node 0).setData node d).setList
            { m.list with head := node, tail := node, size := m.list.size + 1 } := by
      simp [linkBack, htail, ListMem.setList]
    rw [hbody]
    refine ⟨?_, ?_, ?_, ?_, hwf.capacity, ?_⟩
    · simp [hnode]
    · simp [hnode, hzero]
    · simp [hwf.size]
    · simpa using chain_update_of_notMem hf hwf.free
    · simpa using hf
  · -- the node goes behind the last one
    obtain ⟨l, b, rfl⟩ : ∃ l b, s = l ++ [b] := ⟨_, _, (List.dropLast_concat_getLast hnil).symm⟩
    have htail : m.list.tail = b := by
      have := hwf.backward
      rw [List.reverse_append] at this
      exact chain_head this
    have hb : b ≠ 0 := chain_ne_null hwf.forward b (by simp)
    have hbf : b ∉ f := hwf.disjoint b (by simp)
    have hbody : linkBack d node m
        = ((((m.setNext node 0).setData node d).setNext b node).setPrev node b).setList
            { m.list with tail := node, size := m.list.size + 1 } := by
      simp [linkBack, htail, hb, ListMem.setList]
    rw [hbody]
    refine ⟨?_, ?_, ?_, ?_, hwf.capacity, ?_⟩
    · simpa using chain_snoc hnode hs hwf.forward
    · have hback := chain_push hnode (by rwa [List.mem_reverse]) hwf.backward
      rw [htail] at hback
      simpa using hback
    · simp [hwf.size]
    · simpa using chain_update_of_notMem hbf (chain_update_of_notMem hf hwf.free)
    · intro a ha
      rcases List.mem_append.mp ha with ha | ha
      · exact hwf.disjoint a ha
      · rwa [List.mem_singleton.mp ha]

/-- `spr_list_push_front` hangs the node before the first one; on an empty list
    only if the node's stale `next` happens to be `NULL`. -/
theorem linkFront_wellFormed {m : ListMem} {s f : List Nat} {node : Nat} (d : Nat)
    (hwf : WellFormed m s f) (hnode : node ≠ 0) (hs : node ∉ s) (hf : node ∉ f)
    (hnext : s ≠ [] ∨ nextOf m node = 0) : WellFormed (linkFront d node m) (node :: s) f := by
  cases s with
  | nil =>
    have hzero : nextOf m node = 0 := hnext.resolve_left (fun h => h rfl)
    have hhead : m.list.head = 0 := hwf.head_null_iff.mpr rfl
    have hbody : linkFront d node m
        = ((m.setPrev node 0).setData node d).setList
            { m.list with head := node, tail := node, size := m.list.size + 1 } := by
      simp [linkFront, hhead, ListMem.setList]
    rw [hbody]
    refine ⟨?_, ?_, ?_, ?_, hwf.capacity, ?_⟩
    · simp [hnode, hzero]
    · simp [hnode]
    · simp [hwf.size]
    · simpa using hwf.free
    · simpa using hf
  | cons b l =>
    -- the node goes before the first one
    have hhead : m.list.head = b := chain_head hwf.forward
    have hb : b ≠ 0 := chain_ne_null hwf.forward b List.mem_cons_self
    have hbody : linkFront d node m
        = ((((m.setPrev node 0).setData node d).setPrev b node).setNext node b).setList
            { m.list with head := node, size := m.list.size + 1 } := by
      simp [linkFront, hhead, hb, ListMem.setList]
    have hrev : (b :: l).reverse = l.reverse ++ [b] := List.reverse_cons
    rw [hbody]
    refine ⟨?_, ?_, ?_, ?_, hwf.capacity, ?_⟩
    · have hforw := chain_push hnode hs hwf.forward
      rw [hhead] at hforw
      simpa using hforw
    · have hback := hwf.backward
      rw [hrev] at hback
      have hnew := chain_snoc hnode (by rwa [← hrev, List.mem_reverse]) hback
      simpa using hnew
    · simp [hwf.size]
    · simpa using chain_update_of_notMem hf hwf.free
    · intro a ha
      rcases List.mem_cons.mp ha with rfl | ha
      · exact hf
      · exact hwf.disjoint a ha

/-- On an empty list `push_back` keeps the node's stale `prev`. -/
theorem linkBack_stale {m : ListMem} {f : List Nat} {node : Nat} (d : Nat)
    (hwf : WellFormed m [] f) (hnode : node ≠ 0) (hprev : prevOf m node ≠ 0) :
    ¬ ∃ ds, IsList (linkBack d node m) ds := by
  rintro ⟨ds, s', f', hwf', -⟩
  have htail : m.list.tail = 0 := hwf.tail_null_iff.mpr rfl
  have hforw := hwf'.forward
  have hback := hwf'.backward
  simp only [linkBack, htail, setNext_list, setData_list, ne_eq, not_true_eq_false, if_false,
    setList_list, nextOf_setList, prevOf_setList, nextOf_setData, prevOf_setData, nextOf_setNext,
    prevOf_setNext] at hforw hback
  -- the forward chain is the node alone, so the backward chain ends behind it
  have hs' : s' = [node] := chain_unique hforw (by simp [hnode])
  rw [hs'] at hback
  exact hprev hback.2.2

/-- On an empty list `push_front` keeps the node's stale `next`. -/
theorem linkFront_stale {m : ListMem} {f : List Nat} {node : Nat} (d : Nat)
    (hwf : WellFormed m [] f) (hnode : node ≠ 0) (hnext : nextOf m node ≠ 0) :
    ¬ ∃ ds, IsList (linkFront d node m) ds := by
  rintro ⟨ds, s', f', hwf', -⟩
  have hhead : m.list.head = 0 := hwf.head_null_iff.mpr rfl
  have hforw := hwf'.forward
  have hback := hwf'.backward
  simp only [linkFront, hhead, setPrev_list, setData_list, ne_eq, not_true_eq_false, if_false,
    setList_list, nextOf_setList, prevOf_setList, nextOf_setData, prevOf_setData, nextOf_setPrev,
    prevOf_setPrev] at hforw hback
  -- the backward chain is the node alone, so the forward chain ends behind it
  have hs' : s'.reverse = [node] := chain_unique hback (by simp [hnode])
  rw [← List.reverse_reverse s', hs'] at hforw
  exact hnext hforw.2.2

/-! ## Section 5: One operation -/

/-- The deque operations, with the answer of the allocation each may make. -/
inductive ListOp where
  | pushBack  : Nat → ListOp
  | pushFront : Nat → ListOp
  | reserve   : Nat → ListOp

/-- The call. -/
def ListOp.run (op : ListOp) (ans : PallocAnswer) (m : ListMem) : Int × ListMem :=
  match op with
  | .pushBack d => sprListPushBack ans m d
  | .pushFront d => sprListPushFront ans m d
  | .reserve n => sprListReserve ans m n

/-- What it does to the elements. -/
def ListOp.onDeque (op : ListOp) (ds : List Nat) : List Nat :=
  match op with
  | .pushBack d => ds ++ [d]
  | .pushFront d => d :: ds
  | .reserve _ => ds

/-- The bytes it has use for in a block of `spr_palloc`. -/
def ListOp.bytes (op : ListOp) : Nat :=
  match op with
  | .pushBack _ => chunkSize
  | .pushFront _ => chunkSize
  | .reserve n => sizeofListNode * n

/-- It asks `spr_palloc` for a block. -/
def ListOp.Asks (op : ListOp) (m : ListMem) : Prop :=
  match op with
  | .pushBack _ => m.list.freeNodes = 0
  | .pushFront _ => m.list.freeNodes = 0
  | .reserve _ => True

/-- The size of a reservation is representable. -/
def ListOp.Representable (op : ListOp) : Prop :=
  match op with
  | .pushBack _ => True
  | .pushFront _ => True
  | .reserve n => sizeofListNode * n < 2 ^ 64

/-- The allocation the operation may make keeps the contract of `spr_palloc`
    towards the nodes of the list. -/
def HonestFor (m : ListMem) (ans : PallocAnswer) : Prop :=
  ∀ s f, WellFormed m s f → ans.Honest (s ++ f)

/-- The nodes of a block that the operation asks for lie inside it. -/
def Room (m : ListMem) (op : ListOp) (ans : PallocAnswer) : Prop := op.Asks m → ans.Long op.bytes

/-- Where a push has a node to use, the list is not empty, or the node already holds `NULL`
    in the outer link that the push leaves alone; where it has none, the allocation has left
    an error code. -/
def NodeReady (m : ListMem) (op : ListOp) (ans : PallocAnswer) : Prop :=
  match op with
  | .pushBack _ =>
      (NoNode ans m ∧ ans.errno ≠ sprOk) ∨
        (¬ NoNode ans m ∧ (m.list.tail ≠ 0 ∨ (usedNode ans m).prev = 0))
  | .pushFront _ =>
      (NoNode ans m ∧ ans.errno ≠ sprOk) ∨
        (¬ NoNode ans m ∧ (m.list.head ≠ 0 ∨ (usedNode ans m).next = 0))
  | .reserve _ => True

/-- **The condition**: a block that is given has the bytes it was asked for, and the node
    of a push is ready for it. -/
structure Clean (m : ListMem) (op : ListOp) (ans : PallocAnswer) : Prop where
  room  : Room m op ans
  ready : NodeReady m op ans

/-- The operation, if it returns `SPR_OK`, does what it does on a deque, with nodes that
    lie in the block it was given. -/
def ActsOnDeque (m : ListMem) (ds : List Nat) (op : ListOp) (ans : PallocAnswer) : Prop :=
  (op.run ans m).1 = sprOk → IsList (op.run ans m).2 (op.onDeque ds) ∧ Room m op ans

theorem map_data_update {m m' : ListMem} {s : List Nat} {node d : Nat} (hs : node ∉ s)
    (hdata : s.map (dataOf m') = s.map (dataOf m)) :
    s.map (Function.update (dataOf m') node d) = s.map (dataOf m) := by
  rw [← hdata]
  exact List.map_congr_left fun a ha => Function.update_of_ne (ne_of_mem_of_not_mem ha hs) _ _

/-- A list has one sequence of elements. -/
theorem IsList.unique {m : ListMem} {ds ds' : List Nat} (h : IsList m ds) (h' : IsList m ds') :
    ds = ds' := by
  obtain ⟨s, f, hwf, rfl⟩ := h
  obtain ⟨s', f', hwf', rfl⟩ := h'
  rw [(hwf.unique hwf').1]

/-- **A push that has no node** leaves the list as it was, and must say so. -/
theorem noNode_iff {m : ListMem} {ds : List Nat} {op : ListOp} {ans : PallocAnswer}
    (hm : IsList m ds) (hrun : op.run ans m = (ans.errno, m))
    (hlonger : (op.onDeque ds).length ≠ ds.length) :
    ((op.run ans m).1 = sprOk → IsList (op.run ans m).2 (op.onDeque ds)) ↔
      ans.errno ≠ sprOk := by
  rw [hrun]
  constructor
  · intro hact hok
    exact hlonger (congrArg List.length ((hact hok).unique hm))
  · exact fun herr hok => absurd hok herr

theorem pushBack_iff {m : ListMem} {ds : List Nat} {ans : PallocAnswer} {d : Nat}
    (hm : IsList m ds) (hans : HonestFor m ans) (hroom : Room m (.pushBack d) ans) :
    (((ListOp.pushBack d).run ans m).1 = sprOk →
      IsList ((ListOp.pushBack d).run ans m).2 ((ListOp.pushBack d).onDeque ds)) ↔
      NodeReady m (.pushBack d) ans := by
  have hlist := hm
  obtain ⟨s, f, hwf, rfl⟩ := hm
  rcases takeNode_spec hwf (hans s f hwf) hroom with ⟨hno, htake⟩ | ⟨hsome, node, m', f', ht⟩
  · have hrun : (ListOp.pushBack d).run ans m = (ans.errno, m) := by
      simp [ListOp.run, sprListPushBack, htake]
    rw [noNode_iff hlist hrun (by simp [ListOp.onDeque])]
    simp [NodeReady, hno]
  · have hrun : (ListOp.pushBack d).run ans m = (sprOk, linkBack d node m') := by
      simp [ListOp.run, sprListPushBack, ht.result]
    have hused : prevOf m' node = (usedNode ans m).prev := congrArg ListNode.prev ht.contents
    rw [hrun]
    constructor
    · intro hact
      refine Or.inr ⟨hsome, ?_⟩
      by_contra hdirty
      simp only [not_or, not_not] at hdirty
      have hnil : s = [] := hwf.tail_null_iff.mp hdirty.1
      subst hnil
      exact linkBack_stale d ht.wellFormed ht.ne_null (by rw [hused]; exact hdirty.2)
        ⟨_, hact rfl⟩
    · intro hready _
      refine ⟨s ++ [node], f', linkBack_wellFormed d ht.wellFormed ht.ne_null ht.not_linked
        ht.not_free ?_, ?_⟩
      · rcases hready with hno | ⟨-, hne | hzero⟩
        · exact absurd hno.1 hsome
        · exact Or.inl fun h => hne (hwf.tail_null_iff.mpr h)
        · exact Or.inr (by rw [hused, hzero])
      · rw [linkBack_data, List.map_append, map_data_update ht.not_linked ht.data]
        simp [ListOp.onDeque]

theorem pushFront_iff {m : ListMem} {ds : List Nat} {ans : PallocAnswer} {d : Nat}
    (hm : IsList m ds) (hans : HonestFor m ans) (hroom : Room m (.pushFront d) ans) :
    (((ListOp.pushFront d).run ans m).1 = sprOk →
      IsList ((ListOp.pushFront d).run ans m).2 ((ListOp.pushFront d).onDeque ds)) ↔
      NodeReady m (.pushFront d) ans := by
  have hlist := hm
  obtain ⟨s, f, hwf, rfl⟩ := hm
  rcases takeNode_spec hwf (hans s f hwf) hroom with ⟨hno, htake⟩ | ⟨hsome, node, m', f', ht⟩
  · have hrun : (ListOp.pushFront d).run ans m = (ans.errno, m) := by
      simp [ListOp.run, sprListPushFront, htake]
    rw [noNode_iff hlist hrun (by simp [ListOp.onDeque])]
    simp [NodeReady, hno]
  · have hrun : (ListOp.pushFront d).run ans m = (sprOk, linkFront d node m') := by
      simp [ListOp.run, sprListPushFront, ht.result]
    have hused : nextOf m' node = (usedNode ans m).next := congrArg ListNode.next ht.contents
    rw [hrun]
    constructor
    · intro hact
      refine Or.inr ⟨hsome, ?_⟩
      by_contra hdirty
      simp only [not_or, not_not] at hdirty
      have hnil : s = [] := hwf.head_null_iff.mp hdirty.1
      subst hnil
      exact linkFront_stale d ht.wellFormed ht.ne_null (by rw [hused]; exact hdirty.2)
        ⟨_, hact rfl⟩
    · intro hready _
      refine ⟨node :: s, f', linkFront_wellFormed d ht.wellFormed ht.ne_null ht.not_linked
        ht.not_free ?_, ?_⟩
      · rcases hready with hno | ⟨-, hne | hzero⟩
        · exact absurd hno.1 hsome
        · exact Or.inl fun h => hne (hwf.head_null_iff.mpr h)
        · exact Or.inr (by rw [hused, hzero])
      · rw [linkFront_data, List.map_cons, map_data_update ht.not_linked ht.data]
        simp [ListOp.onDeque]

theorem reserve_acts {m : ListMem} {ds : List Nat} {ans : PallocAnswer} {n : Nat}
    (hm : IsList m ds) (hn : (ListOp.reserve n).Representable) (hans : HonestFor m ans)
    (hroom : Room m (.reserve n) ans) :
    IsList ((ListOp.reserve n).run ans m).2 ((ListOp.reserve n).onDeque ds) := by
  obtain ⟨s, f, hwf, rfl⟩ := hm
  have hhon := hans s f hwf
  by_cases hb : ans.block = 0
  · have hrun : (ListOp.reserve n).run ans m = (ans.errno, m) := by
      simp [ListOp.run, sprListReserve, hb]
    rw [hrun]
    exact ⟨s, f, hwf, rfl⟩
  · have hsize : reserveSize n = sizeofListNode * n := Nat.mod_eq_of_lt hn
    have hlong : ans.Long (reserveSize n) := hsize ▸ hroom trivial
    obtain ⟨hnew, hdata⟩ := freshChain_wellFormed hwf hhon hlong hb (Nat.le_refl _)
      (by rw [hsize]) rfl
    have hcap : (chainFree ans.block 0 n (m.receive ans (reserveSize n))).list.capacity
        = m.list.capacity := by
      obtain ⟨⟨first, hlist⟩, -⟩ := chainFree_frame ans.block n 0 (m.receive ans (reserveSize n))
      rw [hlist]
      rfl
    refine ⟨s, (nodeAddrs ans.block 0 n).reverse ++ f, ?_, ?_⟩
    · simp only [ListOp.run, sprListReserve, if_neg hb, hcap]
      exact hnew
    · simp only [ListOp.run, sprListReserve, if_neg hb]
      exact hdata

/-- An operation that asks for a block and is given one returns `SPR_OK`. -/
theorem run_given {m : ListMem} {op : ListOp} {ans : PallocAnswer} (hasks : op.Asks m)
    (hb : ans.block ≠ 0) : (op.run ans m).1 = sprOk := by
  cases op with
  | pushBack d =>
    have hnull : m.list.freeNodes = 0 := hasks
    simp [ListOp.run, sprListPushBack, takeNode, hnull, hb]
  | pushFront d =>
    have hnull : m.list.freeNodes = 0 := hasks
    simp [ListOp.run, sprListPushFront, takeNode, hnull, hb]
  | reserve n => simp [ListOp.run, sprListReserve, hb]

/-- Each operation acts on the deque exactly when it is clean. -/
theorem actsOnDeque_iff {m : ListMem} {ds : List Nat} {op : ListOp} {ans : PallocAnswer}
    (hm : IsList m ds) (hop : op.Representable) (hans : HonestFor m ans) :
    ActsOnDeque m ds op ans ↔ Clean m op ans := by
  have hmain : Room m op ans → (((op.run ans m).1 = sprOk →
      IsList (op.run ans m).2 (op.onDeque ds)) ↔ NodeReady m op ans) := by
    intro hroom
    cases op with
    | pushBack d => exact pushBack_iff hm hans hroom
    | pushFront d => exact pushFront_iff hm hans hroom
    | reserve n => exact ⟨fun _ => trivial, fun _ _ => reserve_acts hm hop hans hroom⟩
  constructor
  · intro hact
    have hroom : Room m op ans := fun hasks hb => (hact (run_given hasks hb)).2 hasks hb
    exact ⟨hroom, (hmain hroom).mp fun hok => (hact hok).1⟩
  · intro hclean hok
    exact ⟨(hmain hclean.room).mpr hclean.ready hok, hclean.room⟩

/-- An operation that fails leaves the list as it was. -/
theorem run_failed {m : ListMem} {op : ListOp} {ans : PallocAnswer}
    (h : (op.run ans m).1 ≠ sprOk) : (op.run ans m).2 = m := by
  cases op with
  | pushBack d =>
    cases htake : takeNode ans m with
    | error errno => simp [ListOp.run, sprListPushBack, htake]
    | ok x => simp [ListOp.run, sprListPushBack, htake] at h
  | pushFront d =>
    cases htake : takeNode ans m with
    | error errno => simp [ListOp.run, sprListPushFront, htake]
    | ok x => simp [ListOp.run, sprListPushFront, htake] at h
  | reserve n =>
    by_cases hb : ans.block = 0
    · simp [ListOp.run, sprListReserve, hb]
    · simp [ListOp.run, sprListReserve, hb] at h

/-! ## Section 6: Runs -/

/-- The memory after a run of operations. -/
def runOps (m : ListMem) : List (ListOp × PallocAnswer) → ListMem
  | [] => m
  | (op, ans) :: ops => runOps (op.run ans m).2 ops

/-- The deque after the run: an operation that fails has no effect. -/
def runDeque (m : ListMem) (ds : List Nat) : List (ListOp × PallocAnswer) → List Nat
  | [] => ds
  | (op, ans) :: ops =>
      runDeque (op.run ans m).2 (if (op.run ans m).1 = sprOk then op.onDeque ds else ds) ops

/-- Every step of the run meets `P` in the state it is made in. -/
def EachStep (P : ListMem → ListOp → PallocAnswer → Prop) (m : ListMem) :
    List (ListOp × PallocAnswer) → Prop
  | [] => True
  | (op, ans) :: ops => P m op ans ∧ EachStep P (op.run ans m).2 ops

/-- A step whose allocation is honest and whose size is representable. -/
def Sound (m : ListMem) (op : ListOp) (ans : PallocAnswer) : Prop :=
  op.Representable ∧ HonestFor m ans

/-- And whose allocation gives the bytes it was asked for, or leaves an error code. -/
def Fair (m : ListMem) (op : ListOp) (ans : PallocAnswer) : Prop :=
  Sound m op ans ∧ Room m op ans ∧ ans.Reported

theorem EachStep.mono {P Q : ListMem → ListOp → PallocAnswer → Prop}
    (hmono : ∀ m op ans, P m op ans → Q m op ans) :
    ∀ {ops : List (ListOp × PallocAnswer)} {m : ListMem}, EachStep P m ops → EachStep Q m ops
  | [], _, _ => trivial
  | (op, ans) :: _, m, h => ⟨hmono m op ans h.1, EachStep.mono hmono h.2⟩

/-- One clean step of a run. -/
theorem run_step {m : ListMem} {ds : List Nat} {op : ListOp} {ans : PallocAnswer}
    (hm : IsList m ds) (hsound : Sound m op ans) (hclean : Clean m op ans) :
    IsList (op.run ans m).2 (if (op.run ans m).1 = sprOk then op.onDeque ds else ds) := by
  by_cases hok : (op.run ans m).1 = sprOk
  · rw [if_pos hok]
    exact ((actsOnDeque_iff hm hsound.1 hsound.2).mpr hclean hok).1
  · rw [if_neg hok, run_failed hok]
    exact hm

/-- **A run of clean steps is a run of a deque.** -/
theorem runOps_isList {ops : List (ListOp × PallocAnswer)} : ∀ {m : ListMem} {ds : List Nat},
    IsList m ds → EachStep Sound m ops → EachStep Clean m ops →
      IsList (runOps m ops) (runDeque m ds ops) := by
  induction ops with
  | nil => intro m ds hm _ _; exact hm
  | cons x ops ih =>
    intro m ds hm hsound hclean
    obtain ⟨op, ans⟩ := x
    exact ih (run_step hm hsound.1 hclean.1) hsound.2 hclean.2

/-- **The list is a deque as long as every step is clean**, and a single step is
    right exactly when it is. -/
theorem list_deque_iff (m : ListMem) (ds : List Nat) (op : ListOp) (ans : PallocAnswer)
    (hm : IsList m ds) (hop : op.Representable) (hans : HonestFor m ans) :
    (ActsOnDeque m ds op ans ↔ Clean m op ans) ∧
    ∀ (block pool : Nat) (errno e : Int) (l : SprList) (heap : Nat → ListNode)
      (ops : List (ListOp × PallocAnswer)),
      sprListCreate1 block errno pool = (e, some l) →
      EachStep Sound { heap := heap, list := l } ops →
      EachStep Clean { heap := heap, list := l } ops →
        IsList (runOps { heap := heap, list := l } ops)
          (runDeque { heap := heap, list := l } [] ops) :=
  ⟨actsOnDeque_iff hm hop hans, fun _ _ _ _ _ heap _ hcreate hsound hclean =>
    runOps_isList (isList_create hcreate heap) hsound hclean⟩

/-! ### Two runs -/

/-- A list as `spr_list_create1` returns it, on a heap of zeroed nodes. -/
def emptyList : ListMem where
  heap _ := { next := 0, prev := 0, data := 0 }
  list := { pool := 1, head := 0, tail := 0, freeNodes := 0, size := 0, capacity := 0 }

/-- A block of ten nodes at `4096`, which all hold `stale`. -/
def blockAnswer (stale : ListNode) : PallocAnswer where
  block := 4096
  length := 240
  stale _ := stale
  errno := sprOk

theorem emptyList_wellFormed {s f : List Nat} (h : WellFormed emptyList s f) : s = [] ∧ f = [] :=
  ⟨(chain_null_iff h.forward).mp rfl, (chain_null_iff h.free).mp rfl⟩

theorem isList_emptyList : IsList emptyList [] := ⟨[], [], ⟨rfl, rfl, rfl, rfl, rfl, by simp⟩, rfl⟩

theorem blockAnswer_honest (stale : ListNode) : HonestFor emptyList (blockAnswer stale) := by
  intro s f hwf
  obtain ⟨rfl, rfl⟩ := emptyList_wellFormed hwf
  have hend : 4096 + 240 ≤ 2 ^ 64 := by decide
  exact ⟨fun _ => hend, fun _ a ha => (List.not_mem_nil ha).elim⟩

theorem blockAnswer_room (stale : ListNode) (op : ListOp) (hop : op.bytes ≤ 240) :
    Room emptyList op (blockAnswer stale) := fun _ _ => hop

/-- One element pushed through a zeroed block. -/
theorem list_deque_iff_push :
    IsList ((ListOp.pushBack 7).run (blockAnswer ⟨0, 0, 0⟩) emptyList).2 [7] :=
  ((list_deque_iff emptyList [] (.pushBack 7) (blockAnswer ⟨0, 0, 0⟩) isList_emptyList trivial
    (blockAnswer_honest _)).1.mpr ⟨blockAnswer_room _ _ (by decide),
      Or.inr ⟨fun hno => absurd hno.2 (by decide), Or.inr rfl⟩⟩ rfl).1

/-- **The first push breaks the list when the node's outer link is stale**, at
    either end. -/
theorem first_push_breaks :
    (IsList emptyList [] ∧ HonestFor emptyList (blockAnswer ⟨0, 7, 0⟩) ∧
      ¬ ActsOnDeque emptyList [] (.pushBack 1) (blockAnswer ⟨0, 7, 0⟩)) ∧
    (HonestFor emptyList (blockAnswer ⟨7, 0, 0⟩) ∧
      ¬ ActsOnDeque emptyList [] (.pushFront 1) (blockAnswer ⟨7, 0, 0⟩)) := by
  have hback := blockAnswer_honest ⟨0, 7, 0⟩
  have hfront := blockAnswer_honest ⟨7, 0, 0⟩
  refine ⟨⟨isList_emptyList, hback, fun hact => ?_⟩, hfront, fun hact => ?_⟩
  · have hrep : (ListOp.pushBack 1).Representable := trivial
    have hclean := (actsOnDeque_iff isList_emptyList hrep hback).mp hact
    rcases hclean.ready with h | ⟨-, h | h⟩
    · exact absurd h.1.2 (by decide)
    · exact h rfl
    · exact absurd h (by decide)
  · have hrep : (ListOp.pushFront 1).Representable := trivial
    have hclean := (actsOnDeque_iff isList_emptyList hrep hfront).mp hact
    rcases hclean.ready with h | ⟨-, h | h⟩
    · exact absurd h.1.2 (by decide)
    · exact h rfl
    · exact absurd h (by decide)

end Spr.LinkedList
