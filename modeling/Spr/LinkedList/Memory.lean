import Spr.Framework.Simulation
import Spr.LinkedList.Remove
import Spr.MemPool.Model

/-! # The list in memory

    `src/lib/spr_list.c` on the memory that the pools are in: the header and the
    nodes are words, and every read and store of the source is one.

    * `takeNodeAt`, `linkBackAt`, `linkFrontAt`, `removeAt`: the functions.
    * `Layout`, `Shows`: the memory shows a list of the model.
    * `linkBack_sim`, `linkFront_sim`, `removeWith_sim`: on such a memory the
      functions do what they do in the model. -/

namespace Spr.LinkedList

open Spr.Words Spr.Chains Spr.Simulations Spr.MemPool

/-! ## Section 1: The functions -/

section Fields

-- `spr_list_t`
@[simp] abbrev listPool (list : Nat) : Nat := list
@[simp] abbrev listHead (list : Nat) : Nat := list + 8
@[simp] abbrev listTail (list : Nat) : Nat := list + 16
@[simp] abbrev listFree (list : Nat) : Nat := list + 24
@[simp] abbrev listSize (list : Nat) : Nat := list + 32
@[simp] abbrev listCapacity (list : Nat) : Nat := list + 40

-- `spr_list_node_t`
@[simp] abbrev linkNext (node : Nat) : Nat := node
@[simp] abbrev linkPrev (node : Nat) : Nat := node + 8
@[simp] abbrev linkData (node : Nat) : Nat := node + 16

end Fields

/-- `sizeof(spr_list_t)` -/
def sizeofList : Nat := 48

/-- A read of a field of the node `node`, which may be `NULL`. -/
def readNode (field : Nat → Nat) (node : Nat) : Act Nat :=
  if node = 0 then stop .null else load (field node)

/-- A store to a field of the node `node`, which may be `NULL`. -/
def writeNode (field : Nat → Nat) (node v : Nat) : Act Unit :=
  if node = 0 then stop .null else store (field node) v

/-- The loop that hangs `&nodes[i]`, `&nodes[i + 1]`, … (`k` of them) on
    `list->free_nodes`. -/
def chainFreeAt (list nodes : Nat) : Nat → Nat → Act Unit
  | _, 0 => pure ()
  | i, k + 1 => do
      let temp ← load (listFree list)
      store (listFree list) (nodes + sizeofListNode * i)
      writeNode linkNext (← load (listFree list)) temp
      chainFreeAt list nodes (i + 1) k

/-- The first free node is taken. -/
def takeFreeAt (list : Nat) : Act Nat := do
  let node ← load (listFree list)
  store (listFree list) (← readNode linkNext node)
  store (listCapacity list) (sub (← load (listCapacity list)) 1)
  pure node

/-- A fresh chunk is cut up: its first node is taken, the others are free. -/
def takeChunkAt (list nodes : Nat) : Act Nat := do
  let node := nodes
  let nodes := nodes + sizeofListNode
  chainFreeAt list nodes 0 (sprListInitialSize - 1)
  store (listCapacity list) (sprListInitialSize - 1)
  pure node

/-- The node is hung behind the last one, `if (list->tail)`. -/
def hangBackAt (list node : Nat) : Act Unit := do
  if (← load (listTail list)) ≠ 0 then do
    writeNode linkNext (← load (listTail list)) node
    writeNode linkPrev node (← load (listTail list))
    store (listTail list) node
  else do
    store (listHead list) node
    store (listTail list) node

/-- `spr_list_push_back` from `node->next = NULL` on. -/
def linkBackAt (list data node : Nat) : Act Unit := do
  writeNode linkNext node 0
  writeNode linkData node data
  hangBackAt list node
  store (listSize list) (add (← load (listSize list)) 1)

/-- The node is hung before the first one, `if (list->head)`. -/
def hangFrontAt (list node : Nat) : Act Unit := do
  if (← load (listHead list)) ≠ 0 then do
    writeNode linkPrev (← load (listHead list)) node
    writeNode linkNext node (← load (listHead list))
    store (listHead list) node
  else do
    store (listHead list) node
    store (listTail list) node

/-- `spr_list_push_front` from `node->prev = NULL` on. -/
def linkFrontAt (list data node : Nat) : Act Unit := do
  writeNode linkPrev node 0
  writeNode linkData node data
  hangFrontAt list node
  store (listSize list) (add (← load (listSize list)) 1)

/-- The node after the first one loses its `prev`, `if (list->head->next)`. -/
def cutHeadAt (list : Nat) : Act Unit := do
  if (← readNode linkNext (← load (listHead list))) ≠ 0 then
    writeNode linkPrev (← readNode linkNext (← load (listHead list))) 0
  else pure ()

/-- The first element is taken out. -/
def unlinkHeadAt (list : Nat) : Act Nat := do
  let foundedNode ← load (listHead list)
  cutHeadAt list
  store (listHead list) (← readNode linkNext (← load (listHead list)))
  store (listSize list) (sub (← load (listSize list)) 1)
  pure foundedNode

/-- The node before the last one loses its `next`, `if (list->tail->prev)`. -/
def cutTailAt (list : Nat) : Act Unit := do
  if (← readNode linkPrev (← load (listTail list))) ≠ 0 then
    writeNode linkNext (← readNode linkPrev (← load (listTail list))) 0
  else pure ()

/-- The last element is taken out. -/
def unlinkTailAt (list : Nat) : Act Nat := do
  let foundedNode ← load (listTail list)
  cutTailAt list
  store (listTail list) (← readNode linkPrev (← load (listTail list)))
  store (listSize list) (sub (← load (listSize list)) 1)
  pure foundedNode

/-- An inner element is taken out. -/
def unlinkInnerAt (list temp1 : Nat) : Act Nat := do
  writeNode linkPrev (← readNode linkNext temp1) (← readNode linkPrev temp1)
  writeNode linkNext (← readNode linkPrev temp1) (← readNode linkNext temp1)
  store (listSize list) (sub (← load (listSize list)) 1)
  pure temp1

/-- The `while` loop of both removals: `test` is its negated condition, and the
    tail ends the search. -/
def removeSearchAt (test : Nat → Act Bool) (list : Nat) : Nat → Nat → Act (Option Nat)
  | 0, _ => stop .diverge
  | fuel + 1, temp1 => do
      if ← test temp1 then pure (some temp1)
      else do
        let temp1 ← readNode linkNext temp1
        if temp1 = (← load (listTail list)) then pure none
        else removeSearchAt test list fuel temp1

/-- The node taken out goes to the front of the free chain. -/
def recycleAt (list foundedNode : Nat) : Act Unit := do
  let temp1 ← load (listFree list)
  store (listFree list) foundedNode
  writeNode linkNext foundedNode temp1
  store (listCapacity list) (add (← load (listCapacity list)) 1)

/-- An inner element is looked for and taken out. -/
def removeInnerAt (test : Nat → Act Bool) (fuel list temp1 : Nat) : Act Int := do
  match ← removeSearchAt test list fuel (← readNode linkNext temp1) with
  | none => pure sprNotFound
  | some temp1 => do
      recycleAt list (← unlinkInnerAt list temp1)
      pure sprOk

/-- The common body of the two removals, which differ in the `test` that picks
    the node. -/
def removeAt (test : Nat → Act Bool) (fuel list : Nat) : Act Int := do
  let temp1 ← load (listHead list)
  if ← test (← load (listHead list)) then do
    recycleAt list (← unlinkHeadAt list)
    pure sprOk
  else if ← test (← load (listTail list)) then do
    recycleAt list (← unlinkTailAt list)
    pure sprOk
  else removeInnerAt test fuel list temp1

/-- `temp1 == node` -/
def isNodeAt (node temp1 : Nat) : Act Bool := pure (temp1 == node)

/-- `temp1->data == data` -/
def hasDataAt (data temp1 : Nat) : Act Bool := do
  pure ((← readNode linkData temp1) == data)

/-- `spr_list_remove1(list, node)` -/
def sprListRemove1At (fuel list node : Nat) : Act Int := removeAt (isNodeAt node) fuel list

/-- `spr_list_remove(list, data)` -/
def sprListRemoveAt (fuel list data : Nat) : Act Int := removeAt (hasDataAt data) fuel list

/-! ## Section 2: What the memory shows -/

/-- The header and the nodes are aligned, and apart. -/
structure Layout (list : Nat) (nodes : List Nat) : Prop where
  aligned : list % 8 = 0 ∧ ∀ x ∈ nodes, x % 8 = 0
  header  : ∀ x ∈ nodes, Span.Disjoint ⟨list, sizeofList⟩ ⟨x, sizeofListNode⟩
  apart   : ∀ x ∈ nodes, ∀ y ∈ nodes, x ≠ y →
    Span.Disjoint ⟨x, sizeofListNode⟩ ⟨y, sizeofListNode⟩

/-- The memory shows the list `m`: in the header, and in the nodes `nodes`. -/
structure Shows (list : Nat) (nodes : List Nat) (w : World) (m : ListMem) : Prop where
  header : m.list = ⟨w.mem (listPool list), w.mem (listHead list), w.mem (listTail list),
    w.mem (listFree list), w.mem (listSize list), w.mem (listCapacity list)⟩
  nodes  : ∀ x ∈ nodes, m.heap x
    = ⟨w.mem (linkNext x), w.mem (linkPrev x), w.mem (linkData x)⟩

/-- A store to an aligned word of the header or of a node. -/
def ListStore (list : Nat) (nodes : List Nat) (w w' : World) : Prop :=
  ∃ a v, a % 8 = 0 ∧ (Span.Covers ⟨list, sizeofList⟩ a ∨
    ∃ x ∈ nodes, Span.Covers ⟨x, sizeofListNode⟩ a) ∧ w' = w.store a v

section Words

variable {list : Nat} {nodes : List Nat} {w : World} {m : ListMem} {x y v : Nat}

theorem Layout.header_ne (h : Layout list nodes) (hx : x ∈ nodes) {j k : Nat}
    (hj : j < sizeofList) (hk : k < sizeofListNode) : list + j ≠ x + k := by
  have hdis := h.header x hx
  simp only [Span.Disjoint, sizeofList, sizeofListNode] at hdis hj hk
  omega

theorem Layout.node_ne (h : Layout list nodes) (hx : x ∈ nodes) (hy : y ∈ nodes) (hne : x ≠ y)
    {j k : Nat} (hj : j < sizeofListNode) (hk : k < sizeofListNode) : x + j ≠ y + k := by
  have hdis := h.apart x hx y hy hne
  simp only [Span.Disjoint, sizeofListNode] at hdis hj hk
  omega

/-- A store to the `k`-th byte of a node is a store to no other word of the list. -/
theorem Shows.store_node (hl : Layout list nodes) (h : Shows list nodes w m) (hx : x ∈ nodes)
    {k : Nat} (hk : k < sizeofListNode) {m' : ListMem} (hlist : m'.list = m.list)
    (hother : ∀ y, y ≠ x → m'.heap y = m.heap y)
    (hnode : m'.heap x = ⟨Function.update w.mem (x + k) v (linkNext x),
      Function.update w.mem (x + k) v (linkPrev x), Function.update w.mem (x + k) v (linkData x)⟩) :
    Shows list nodes (w.store (x + k) v) m' := by
  refine ⟨?_, fun y hy => ?_⟩
  · have hne : ∀ j < sizeofList, Function.update w.mem (x + k) v (list + j) = w.mem (list + j) :=
      fun j hj => Function.update_of_ne (hl.header_ne hx hj hk) _ _
    have h₀ := hne 0 (by decide)
    rw [Nat.add_zero] at h₀
    rw [hlist, h.header]
    simp only [store_mem, listPool, listHead, listTail, listFree, listSize, listCapacity, h₀,
      hne 8 (by decide), hne 16 (by decide), hne 24 (by decide), hne 32 (by decide),
      hne 40 (by decide)]
  · by_cases heq : y = x
    · subst heq
      exact hnode
    · have hne : ∀ j < sizeofListNode, Function.update w.mem (x + k) v (y + j) = w.mem (y + j) :=
        fun j hj => Function.update_of_ne (hl.node_ne hy hx heq hj hk) _ _
      have h₀ := hne 0 (by decide)
      rw [Nat.add_zero] at h₀
      rw [hother y heq, h.nodes y hy]
      simp only [store_mem, linkNext, linkPrev, linkData, h₀, hne 8 (by decide),
        hne 16 (by decide)]

/-- A store to the `j`-th byte of the header is a store to no node. -/
theorem Shows.store_header (hl : Layout list nodes) (h : Shows list nodes w m) {j : Nat}
    (hj : j < sizeofList) {l : SprList}
    (hheader : l = ⟨Function.update w.mem (list + j) v (listPool list),
      Function.update w.mem (list + j) v (listHead list),
      Function.update w.mem (list + j) v (listTail list),
      Function.update w.mem (list + j) v (listFree list),
      Function.update w.mem (list + j) v (listSize list),
      Function.update w.mem (list + j) v (listCapacity list)⟩) :
    Shows list nodes (w.store (list + j) v) (m.setList l) := by
  refine ⟨hheader, fun y hy => ?_⟩
  have hne : ∀ k < sizeofListNode, Function.update w.mem (list + j) v (y + k) = w.mem (y + k) :=
    fun k hk => Function.update_of_ne (hl.header_ne hy hj hk).symm _ _
  have h₀ := hne 0 (by decide)
  rw [Nat.add_zero] at h₀
  rw [setList_heap, h.nodes y hy]
  simp only [store_mem, linkNext, linkPrev, linkData, h₀, hne 8 (by decide), hne 16 (by decide)]

end Words

/-! ## Section 3: Reads and stores -/

section Access

variable {list : Nat} {nodes : List Nat} {m : ListMem} {x v : Nat}

/-- On a memory that shows `m`, the program returns `a`, and stores to the list's own words
    only, until the memory shows `m'`. -/
def ListSim {α : Type} (list : Nat) (nodes : List Nat) (p : Act α) (m : ListMem) (a : α)
    (m' : ListMem) : Prop :=
  Simulates (Shows list nodes) (ListStore list nodes) p m a m'

theorem ListSim.pure {α : Type} (a : α) (m : ListMem) : ListSim list nodes (Pure.pure a) m a m :=
  Simulates.pure a m

theorem ListSim.bind {α β : Type} {p : Act α} {q : α → Act β} {m₁ m' : ListMem} {a : α} {b : β}
    (hp : ListSim list nodes p m a m₁) (hq : ListSim list nodes (q a) m₁ b m') :
    ListSim list nodes (p >>= q) m b m' := Simulates.bind hp hq

/-- A word of the header is read. -/
theorem load_sim {a n : Nat} (h : ∀ w, Shows list nodes w m → w.mem a = n) :
    ListSim list nodes (load a) m n m :=
  Simulates.read fun w hw => by rw [load_run, h w hw]

theorem loadHead_sim : ListSim list nodes (load (listHead list)) m m.list.head m :=
  load_sim fun _ h => by rw [h.header]

theorem loadTail_sim : ListSim list nodes (load (listTail list)) m m.list.tail m :=
  load_sim fun _ h => by rw [h.header]

theorem loadFree_sim : ListSim list nodes (load (listFree list)) m m.list.freeNodes m :=
  load_sim fun _ h => by rw [h.header]

theorem loadSize_sim : ListSim list nodes (load (listSize list)) m m.list.size m :=
  load_sim fun _ h => by rw [h.header]

theorem loadCapacity_sim : ListSim list nodes (load (listCapacity list)) m m.list.capacity m :=
  load_sim fun _ h => by rw [h.header]

/-- A node's field is read. -/
theorem readNode_sim {field : Nat → Nat} {n : Nat} (hx : x ≠ 0)
    (h : ∀ w, Shows list nodes w m → w.mem (field x) = n) :
    ListSim list nodes (readNode field x) m n m :=
  Simulates.read fun w hw => by rw [readNode, if_neg hx, load_run, h w hw]

theorem readNext_sim (hx : x ∈ nodes) (hx0 : x ≠ 0) :
    ListSim list nodes (readNode linkNext x) m (nextOf m x) m :=
  readNode_sim hx0 fun w h => by rw [nextOf, h.nodes x hx]

theorem readPrev_sim (hx : x ∈ nodes) (hx0 : x ≠ 0) :
    ListSim list nodes (readNode linkPrev x) m (prevOf m x) m :=
  readNode_sim hx0 fun w h => by rw [prevOf, h.nodes x hx]

theorem readData_sim (hx : x ∈ nodes) (hx0 : x ≠ 0) :
    ListSim list nodes (readNode linkData x) m (dataOf m x) m :=
  readNode_sim hx0 fun w h => by rw [dataOf, h.nodes x hx]

/-- A word of the header is stored to. -/
theorem storeHeader_sim (hl : Layout list nodes) {j : Nat} (hj : j < sizeofList) (hal : j % 8 = 0)
    {l : SprList} (h : ∀ w, Shows list nodes w m → Shows list nodes (w.store (list + j) v)
      (m.setList l)) : ListSim list nodes (store (list + j) v) m () (m.setList l) := by
  refine Simulates.one (fun w => w.store (list + j) v) fun w hw => ⟨rfl, ⟨list + j, v, ?_, ?_, rfl⟩,
    h w hw⟩
  · have := hl.aligned.1
    omega
  · left
    simp only [Span.Covers, sizeofList] at hj ⊢
    omega

theorem storeHead_sim (hl : Layout list nodes) :
    ListSim list nodes (store (listHead list) v) m () (m.setList { m.list with head := v }) :=
  storeHeader_sim hl (by decide) rfl fun w h => h.store_header hl (by decide) (by
    simp [h.header])

theorem storeTail_sim (hl : Layout list nodes) :
    ListSim list nodes (store (listTail list) v) m () (m.setList { m.list with tail := v }) :=
  storeHeader_sim hl (by decide) rfl fun w h => h.store_header hl (by decide) (by
    simp [h.header])

theorem storeFree_sim (hl : Layout list nodes) :
    ListSim list nodes (store (listFree list) v) m () (m.setList { m.list with freeNodes := v }) :=
  storeHeader_sim hl (by decide) rfl fun w h => h.store_header hl (by decide) (by
    simp [h.header])

theorem storeSize_sim (hl : Layout list nodes) :
    ListSim list nodes (store (listSize list) v) m () (m.setList { m.list with size := v }) :=
  storeHeader_sim hl (by decide) rfl fun w h => h.store_header hl (by decide) (by
    simp [h.header])

theorem storeCapacity_sim (hl : Layout list nodes) :
    ListSim list nodes (store (listCapacity list) v) m ()
      (m.setList { m.list with capacity := v }) :=
  storeHeader_sim hl (by decide) rfl fun w h => h.store_header hl (by decide) (by
    simp [h.header])

/-- A node's field is stored to. -/
theorem writeNode_sim (hl : Layout list nodes) (hx : x ∈ nodes) (hx0 : x ≠ 0)
    {field : Nat → Nat} {k : Nat} (hfield : field x = x + k) (hk : k < sizeofListNode)
    (hal : k % 8 = 0) {m' : ListMem}
    (h : ∀ w, Shows list nodes w m → Shows list nodes (w.store (x + k) v) m') :
    ListSim list nodes (writeNode field x v) m () m' := by
  refine Simulates.one (fun w => w.store (x + k) v) fun w hw => ⟨?_, ⟨x + k, v, ?_, ?_, rfl⟩,
    h w hw⟩
  · rw [writeNode, if_neg hx0, hfield]
    rfl
  · have := hl.aligned.2 x hx
    omega
  · refine Or.inr ⟨x, hx, ?_⟩
    simp only [Span.Covers, sizeofListNode] at hk ⊢
    omega

theorem writeNext_sim (hl : Layout list nodes) (hx : x ∈ nodes) (hx0 : x ≠ 0) :
    ListSim list nodes (writeNode linkNext x v) m () (m.setNext x v) :=
  writeNode_sim hl hx hx0 (Nat.add_zero x).symm (by decide) rfl fun w h =>
    h.store_node hl hx (by decide) rfl (fun y hy => Function.update_of_ne hy _ _) (by
      simp [ListMem.setNext, h.nodes x hx])

theorem writePrev_sim (hl : Layout list nodes) (hx : x ∈ nodes) (hx0 : x ≠ 0) :
    ListSim list nodes (writeNode linkPrev x v) m () (m.setPrev x v) :=
  writeNode_sim hl hx hx0 (show linkPrev x = x + 8 from rfl) (by decide) rfl fun w h =>
    h.store_node hl hx (by decide) rfl (fun y hy => Function.update_of_ne hy _ _) (by
      simp [ListMem.setPrev, h.nodes x hx])

theorem writeData_sim (hl : Layout list nodes) (hx : x ∈ nodes) (hx0 : x ≠ 0) :
    ListSim list nodes (writeNode linkData x v) m () (m.setData x v) :=
  writeNode_sim hl hx hx0 (show linkData x = x + 16 from rfl) (by decide) rfl fun w h =>
    h.store_node hl hx (by decide) rfl (fun y hy => Function.update_of_ne hy _ _) (by
      simp [ListMem.setData, h.nodes x hx])

end Access

/-! ## Section 4: Pushes -/

section Pushes

variable {list : Nat} {nodes : List Nat} {m : ListMem} {node data : Nat}

theorem ListSim.of_eq {α : Type} {p : Act α} {a : α} {m₁ m' : ListMem}
    (h : ListSim list nodes p m a m₁) (heq : m₁ = m') : ListSim list nodes p m a m' := heq ▸ h

theorem sub_one {n : Nat} (hpos : 0 < n) (hlt : n < wordMod) : sub n 1 = n - 1 := by
  rw [wordMod_eq] at hlt
  simp only [sub, wordMod_eq]
  omega

theorem add_one {n : Nat} (hlt : n + 1 < wordMod) : add n 1 = n + 1 := Nat.mod_eq_of_lt hlt

/-- **The loop over a fresh block**, node by node. -/
theorem chainFree_sim (hl : Layout list nodes) (base : Nat) : ∀ (k i : Nat) (m : ListMem),
    (∀ x ∈ nodeAddrs base i k, x ∈ nodes ∧ x ≠ 0) →
      ListSim list nodes (chainFreeAt list base i k) m () (chainFree base i k m) := by
  intro k
  induction k with
  | zero => exact fun _ m _ => ListSim.pure () m
  | succ k ih =>
    intro i m hnodes
    rw [nodeAddrs_succ] at hnodes
    obtain ⟨hx, hx0⟩ := hnodes _ List.mem_cons_self
    rw [chainFreeAt, chainFree]
    refine loadFree_sim.bind ((storeFree_sim hl).bind (loadFree_sim.bind ?_))
    exact (writeNext_sim hl hx hx0).bind (ih (i + 1) _ fun x hx =>
      hnodes x (List.mem_cons_of_mem _ hx))

/-- **The first free node is taken.** -/
theorem takeFree_sim (hl : Layout list nodes) (hfree : m.list.freeNodes ∈ nodes)
    (hfree0 : m.list.freeNodes ≠ 0) (hpos : 0 < m.list.capacity)
    (hlt : m.list.capacity < wordMod) :
    ListSim list nodes (takeFreeAt list) m m.list.freeNodes (m.setList
      { m.list with freeNodes := nextOf m m.list.freeNodes, capacity := m.list.capacity - 1 }) := by
  rw [takeFreeAt]
  refine loadFree_sim.bind ((readNext_sim hfree hfree0).bind ((storeFree_sim hl).bind
    (loadCapacity_sim.bind ((storeCapacity_sim hl).bind ?_))))
  refine (ListSim.pure _ _).of_eq ?_
  simp only [setList_list, sub_one hpos hlt]
  rfl

/-- **A fresh chunk is cut up.** -/
theorem takeChunk_sim (hl : Layout list nodes)
    (hnodes : ∀ x ∈ nodeAddrs (node + sizeofListNode) 0 (sprListInitialSize - 1),
      x ∈ nodes ∧ x ≠ 0) :
    ListSim list nodes (takeChunkAt list node) m node
      ((chainFree (node + sizeofListNode) 0 (sprListInitialSize - 1) m).setList
        { (chainFree (node + sizeofListNode) 0 (sprListInitialSize - 1) m).list with
          capacity := sprListInitialSize - 1 }) := by
  rw [takeChunkAt]
  exact (chainFree_sim hl _ _ _ _ hnodes).bind ((storeCapacity_sim hl).bind (ListSim.pure _ _))

theorem hangBack_sim (hl : Layout list nodes) (hnode : node ∈ nodes) (hnode0 : node ≠ 0)
    (htail : m.list.tail = 0 ∨ m.list.tail ∈ nodes) :
    ListSim list nodes (hangBackAt list node) m () (if m.list.tail ≠ 0 then
      ((m.setNext m.list.tail node).setPrev node m.list.tail).setList { m.list with tail := node }
      else m.setList { m.list with head := node, tail := node }) := by
  rw [hangBackAt]
  refine loadTail_sim.bind ?_
  split
  · rename_i hne
    refine loadTail_sim.bind ((writeNext_sim hl (htail.resolve_left hne) hne).bind ?_)
    exact loadTail_sim.bind ((writePrev_sim hl hnode hnode0).bind (storeTail_sim hl))
  · exact (storeHead_sim hl).bind (storeTail_sim hl)

/-- **`spr_list_push_back`, once it has its node.** -/
theorem linkBack_sim (hl : Layout list nodes) (hnode : node ∈ nodes) (hnode0 : node ≠ 0)
    (htail : m.list.tail = 0 ∨ m.list.tail ∈ nodes) (hsize : m.list.size + 1 < wordMod) :
    ListSim list nodes (linkBackAt list data node) m () (linkBack data node m) := by
  rw [linkBackAt]
  refine (writeNext_sim hl hnode hnode0).bind ((writeData_sim hl hnode hnode0).bind
    ((hangBack_sim hl hnode hnode0 (m := (m.setNext node 0).setData node data) htail).bind
      (loadSize_sim.bind ?_)))
  refine (storeSize_sim hl).of_eq ?_
  by_cases hnull : m.list.tail = 0 <;> simp [linkBack, hnull, add_one hsize]

theorem hangFront_sim (hl : Layout list nodes) (hnode : node ∈ nodes) (hnode0 : node ≠ 0)
    (hhead : m.list.head = 0 ∨ m.list.head ∈ nodes) :
    ListSim list nodes (hangFrontAt list node) m () (if m.list.head ≠ 0 then
      ((m.setPrev m.list.head node).setNext node m.list.head).setList { m.list with head := node }
      else m.setList { m.list with head := node, tail := node }) := by
  rw [hangFrontAt]
  refine loadHead_sim.bind ?_
  split
  · rename_i hne
    refine loadHead_sim.bind ((writePrev_sim hl (hhead.resolve_left hne) hne).bind ?_)
    exact loadHead_sim.bind ((writeNext_sim hl hnode hnode0).bind (storeHead_sim hl))
  · exact (storeHead_sim hl).bind (storeTail_sim hl)

/-- **`spr_list_push_front`, once it has its node.** -/
theorem linkFront_sim (hl : Layout list nodes) (hnode : node ∈ nodes) (hnode0 : node ≠ 0)
    (hhead : m.list.head = 0 ∨ m.list.head ∈ nodes) (hsize : m.list.size + 1 < wordMod) :
    ListSim list nodes (linkFrontAt list data node) m () (linkFront data node m) := by
  rw [linkFrontAt]
  refine (writePrev_sim hl hnode hnode0).bind ((writeData_sim hl hnode hnode0).bind
    ((hangFront_sim hl hnode hnode0 (m := (m.setPrev node 0).setData node data) hhead).bind
      (loadSize_sim.bind ?_)))
  refine (storeSize_sim hl).of_eq ?_
  by_cases hnull : m.list.head = 0 <;> simp [linkFront, hnull, add_one hsize]

end Pushes

/-! ## Section 5: Removals -/

section Removals

variable {list : Nat} {nodes s f : List Nat} {m m' : ListMem} {a x : Nat}

/-- The links of a chain stay in it. -/
theorem chain_closed {next : Nat → Nat} {p : Nat} {l : List Nat} (h : Chain next 0 p l) :
    ∀ x ∈ l, next x = 0 ∨ next x ∈ l := by
  induction l generalizing p with
  | nil => exact fun x hx => (List.not_mem_nil hx).elim
  | cons b l ih =>
    intro x hx
    rcases List.mem_cons.mp hx with rfl | hx
    · cases l with
      | nil => exact Or.inl h.2.2
      | cons c l => exact Or.inr (by rw [chain_head h.2.2]; simp)
    · exact (ih h.2.2 x hx).imp_right (List.mem_cons_of_mem b)

theorem chain_start_mem {next : Nat → Nat} {p : Nat} {l : List Nat} (h : Chain next 0 p l) :
    p = 0 ∨ p ∈ l := by
  cases l with
  | nil => exact Or.inl h
  | cons b l => exact Or.inr (by rw [chain_head h]; simp)

theorem WellFormed.head_mem (h : WellFormed m s f) : m.list.head = 0 ∨ m.list.head ∈ s :=
  chain_start_mem h.forward

theorem WellFormed.tail_mem (h : WellFormed m s f) : m.list.tail = 0 ∨ m.list.tail ∈ s :=
  (chain_start_mem h.backward).imp_right List.mem_reverse.mp

theorem WellFormed.next_mem (h : WellFormed m s f) (hx : x ∈ s) : nextOf m x = 0 ∨ nextOf m x ∈ s :=
  chain_closed h.forward x hx

theorem WellFormed.prev_mem (h : WellFormed m s f) (hx : x ∈ s) : prevOf m x = 0 ∨ prevOf m x ∈ s :=
  (chain_closed h.backward x (List.mem_reverse.mpr hx)).imp_right List.mem_reverse.mp

/-- A list with a first node has a size. -/
theorem WellFormed.size_pos (h : WellFormed m s f) (hx : x ∈ s) : 0 < m.list.size := by
  rw [h.size]
  exact List.length_pos_of_mem hx

/-- A read that succeeds is not through `NULL`. -/
theorem deref_ne_null {n : ListNode} (h : m.deref a = .ok n) : a ≠ 0 ∧ n = m.heap a := by
  unfold ListMem.deref at h
  split at h
  · cases h
  · exact ⟨‹_›, (Except.ok.inj h).symm⟩

/-- A program of the model that returns has run its first part, and then the rest. -/
theorem except_bind_ok {α β : Type} {p : Except Stop α} {q : α → Except Stop β} {b : β}
    (h : p >>= q = .ok b) : ∃ a, p = .ok a ∧ q a = .ok b := by
  cases p with
  | error e => cases h
  | ok a => exact ⟨a, rfl, h⟩

theorem cutHead_sim (hl : Layout list nodes) (hhead : m.list.head ∈ nodes)
    (hhead0 : m.list.head ≠ 0)
    (hnext : nextOf m m.list.head = 0 ∨ nextOf m m.list.head ∈ nodes) :
    ListSim list nodes (cutHeadAt list) m () (if nextOf m m.list.head ≠ 0 then
      m.setPrev (nextOf m m.list.head) 0 else m) := by
  rw [cutHeadAt]
  refine loadHead_sim.bind ((readNext_sim hhead hhead0).bind ?_)
  split
  · rename_i hne
    exact loadHead_sim.bind ((readNext_sim hhead hhead0).bind
      (writePrev_sim hl (hnext.resolve_left hne) hne))
  · exact ListSim.pure _ _

/-- **The first element is taken out.** -/
theorem unlinkHead_sim (hl : Layout list nodes) (hwf : WellFormed m s f) (hs : s ⊆ nodes)
    (hsize : m.list.size < wordMod) (h : unlinkHead m = .ok (a, m')) :
    ListSim list nodes (unlinkHeadAt list) m a m' ∧ a ∈ s := by
  unfold unlinkHead at h
  obtain ⟨n, hderef, h⟩ := except_bind_ok h
  obtain ⟨hhead0, rfl⟩ := deref_ne_null hderef
  have hmem := hwf.head_mem.resolve_left hhead0
  have hhead := hs hmem
  injection h with h
  obtain ⟨rfl, rfl⟩ := Prod.mk.inj h
  refine ⟨?_, hmem⟩
  rw [unlinkHeadAt]
  have hlist : (if nextOf m m.list.head ≠ 0 then m.setPrev (nextOf m m.list.head) 0 else m).list
      = m.list := by split <;> rfl
  refine loadHead_sim.bind ((cutHead_sim hl hhead hhead0
    ((hwf.next_mem hmem).imp_right fun hin => hs hin)).bind ?_)
  refine loadHead_sim.bind ((readNext_sim (by rwa [hlist]) (by rwa [hlist])).bind
    ((storeHead_sim hl).bind (loadSize_sim.bind ((storeSize_sim hl).bind ?_))))
  refine (ListSim.pure _ _).of_eq ?_
  rw [show (m.heap m.list.head).next = nextOf m m.list.head from rfl]
  simp only [setList_list, hlist, sub_one (hwf.size_pos hmem) hsize]
  rfl

theorem cutTail_sim (hl : Layout list nodes) (htail : m.list.tail ∈ nodes)
    (htail0 : m.list.tail ≠ 0)
    (hprev : prevOf m m.list.tail = 0 ∨ prevOf m m.list.tail ∈ nodes) :
    ListSim list nodes (cutTailAt list) m () (if prevOf m m.list.tail ≠ 0 then
      m.setNext (prevOf m m.list.tail) 0 else m) := by
  rw [cutTailAt]
  refine loadTail_sim.bind ((readPrev_sim htail htail0).bind ?_)
  split
  · rename_i hne
    exact loadTail_sim.bind ((readPrev_sim htail htail0).bind
      (writeNext_sim hl (hprev.resolve_left hne) hne))
  · exact ListSim.pure _ _

/-- **The last element is taken out.** -/
theorem unlinkTail_sim (hl : Layout list nodes) (hwf : WellFormed m s f) (hs : s ⊆ nodes)
    (hsize : m.list.size < wordMod) (h : unlinkTail m = .ok (a, m')) :
    ListSim list nodes (unlinkTailAt list) m a m' ∧ a ∈ s := by
  unfold unlinkTail at h
  obtain ⟨n, hderef, h⟩ := except_bind_ok h
  obtain ⟨htail0, rfl⟩ := deref_ne_null hderef
  have hmem := hwf.tail_mem.resolve_left htail0
  have htail := hs hmem
  injection h with h
  obtain ⟨rfl, rfl⟩ := Prod.mk.inj h
  refine ⟨?_, hmem⟩
  rw [unlinkTailAt]
  have hlist : (if prevOf m m.list.tail ≠ 0 then m.setNext (prevOf m m.list.tail) 0 else m).list
      = m.list := by split <;> rfl
  refine loadTail_sim.bind ((cutTail_sim hl htail htail0
    ((hwf.prev_mem hmem).imp_right fun hin => hs hin)).bind ?_)
  refine loadTail_sim.bind ((readPrev_sim (by rwa [hlist]) (by rwa [hlist])).bind
    ((storeTail_sim hl).bind (loadSize_sim.bind ((storeSize_sim hl).bind ?_))))
  refine (ListSim.pure _ _).of_eq ?_
  rw [show (m.heap m.list.tail).prev = prevOf m m.list.tail from rfl]
  simp only [setList_list, hlist, sub_one (hwf.size_pos hmem) hsize]
  rfl

/-- **An inner element is taken out.** -/
theorem unlinkInner_sim (hl : Layout list nodes) (hwf : WellFormed m s f) (hs : s ⊆ nodes)
    (hsize : m.list.size < wordMod) (hx : x = 0 ∨ x ∈ s) (h : unlinkInner x m = .ok (a, m')) :
    ListSim list nodes (unlinkInnerAt list x) m a m' ∧ a ∈ s := by
  unfold unlinkInner at h
  obtain ⟨n, hderef, h⟩ := except_bind_ok h
  obtain ⟨hx0, rfl⟩ := deref_ne_null hderef
  obtain ⟨n, hderef, h⟩ := except_bind_ok h
  obtain ⟨hnext0, rfl⟩ := deref_ne_null hderef
  obtain ⟨n, hderef, h⟩ := except_bind_ok h
  obtain ⟨-, rfl⟩ := deref_ne_null hderef
  obtain ⟨n, hderef, h⟩ := except_bind_ok h
  obtain ⟨hprev0, rfl⟩ := deref_ne_null hderef
  injection h with h
  obtain ⟨rfl, rfl⟩ := Prod.mk.inj h
  have hmem := hx.resolve_left hx0
  have hnext : nextOf m x ∈ s := (hwf.next_mem hmem).resolve_left hnext0
  -- the node's own `prev` is the same after the first store
  have hsame : prevOf (m.setPrev (nextOf m x) (prevOf m x)) x = prevOf m x := by
    rw [prevOf_setPrev, Function.update_apply]
    split <;> rfl
  have hprev0' : prevOf m x ≠ 0 := by
    rw [← hsame]
    exact hprev0
  have hprev : prevOf m x ∈ s := (hwf.prev_mem hmem).resolve_left hprev0'
  refine ⟨?_, hmem⟩
  rw [unlinkInnerAt]
  refine (readNext_sim (hs hmem) hx0).bind ((readPrev_sim (hs hmem) hx0).bind
    ((writePrev_sim hl (hs hnext) hnext0).bind ?_))
  refine (readPrev_sim (hs hmem) hx0).bind ((readNext_sim (hs hmem) hx0).bind
    ((writeNext_sim hl (by rw [hsame]; exact hs hprev) (by rw [hsame]; exact hprev0')).bind ?_))
  refine loadSize_sim.bind ((storeSize_sim hl).bind ((ListSim.pure _ _).of_eq ?_))
  simp only [setNext_list, setPrev_list, sub_one (hwf.size_pos hmem) hsize]
  rfl

/-- **The node taken out goes to the free chain.** -/
theorem recycle_sim (hl : Layout list nodes) (hx : x ∈ nodes) (hx0 : x ≠ 0)
    (hlt : m.list.capacity + 1 < wordMod) :
    ListSim list nodes (recycleAt list x) m () (recycle x m) := by
  rw [recycleAt]
  refine loadFree_sim.bind ((storeFree_sim hl).bind ((writeNext_sim hl hx hx0).bind
    (loadCapacity_sim.bind ((storeCapacity_sim hl).of_eq ?_))))
  simp only [setNext_list, setList_list, add_one hlt]
  rfl

/-- On the nodes, a test of the source answers as the model's does. -/
def TestSim (list : Nat) (nodes : List Nat) (testAt : Nat → Act Bool)
    (test : ListMem → Nat → Except Stop Bool) : Prop :=
  ∀ (m : ListMem) (x : Nat) (b : Bool), x = 0 ∨ x ∈ nodes → test m x = .ok b →
    ListSim list nodes (testAt x) m b m

theorem isNode_sim (node : Nat) : TestSim list nodes (isNodeAt node) (isNode node) := by
  intro m x b _ h
  obtain rfl := Except.ok.inj h
  exact ListSim.pure _ _

theorem hasData_sim (data : Nat) : TestSim list nodes (hasDataAt data) (hasData data) := by
  intro m x b hx h
  obtain ⟨n, hderef, h⟩ := except_bind_ok h
  obtain ⟨hx0, rfl⟩ := deref_ne_null hderef
  obtain rfl := Except.ok.inj h
  exact (readData_sim (hx.resolve_left hx0) hx0).bind (ListSim.pure _ _)

/-- **The search**, along the nodes from `x` on. -/
theorem removeSearch_sim {testAt : Nat → Act Bool} {test : ListMem → Nat → Except Stop Bool}
    (htest : TestSim list nodes testAt test) : ∀ {fuel x : Nat} {u : List Nat} {res : Option Nat},
      Chain (nextOf m) 0 x u → u ⊆ nodes → removeSearch test m fuel x = .ok res →
        ListSim list nodes (removeSearchAt testAt list fuel x) m res m ∧
          ∀ y, res = some y → y = 0 ∨ y ∈ u := by
  intro fuel
  induction fuel with
  | zero => intro x u res _ _ h; cases h
  | succ fuel ih =>
    intro x u res hchain hu h
    have hx := chain_start_mem hchain
    rw [removeSearch] at h
    obtain ⟨b, hb, h⟩ := except_bind_ok h
    rw [removeSearchAt]
    have hsim := htest m x b (hx.imp_right fun hin => hu hin) hb
    cases b with
    | true =>
      obtain rfl := Except.ok.inj h
      refine ⟨hsim.bind (ListSim.pure _ _), fun y hy => ?_⟩
      obtain rfl := Option.some.inj hy
      exact hx
    | false =>
      rw [if_neg Bool.false_ne_true] at h
      obtain ⟨n, hderef, h⟩ := except_bind_ok h
      obtain ⟨hx0, rfl⟩ := deref_ne_null hderef
      have hread : ListSim list nodes (readNode linkNext x) m (nextOf m x) m :=
        readNext_sim (hu (hx.resolve_left hx0)) hx0
      by_cases htail : nextOf m x = m.list.tail
      · rw [if_pos (show (m.heap x).next = m.list.tail from htail)] at h
        obtain rfl := Except.ok.inj h
        refine ⟨hsim.bind ?_, fun y hy => by cases hy⟩
        exact hread.bind (loadTail_sim.bind (by rw [if_pos htail]; exact ListSim.pure _ _))
      · rw [if_neg (show ¬ (m.heap x).next = m.list.tail from htail)] at h
        cases u with
        | nil => exact absurd hchain hx0
        | cons c u =>
          obtain ⟨rfl, -, hrest⟩ := hchain
          obtain ⟨hrest, hres⟩ := ih hrest (fun y hy => hu (List.mem_cons_of_mem _ hy)) h
          refine ⟨hsim.bind ?_, fun y hy => (hres y hy).imp_right (List.mem_cons_of_mem _)⟩
          exact hread.bind (loadTail_sim.bind (by rw [if_neg htail]; exact hrest))

/-! ### The counter of free nodes -/

theorem unlinkHead_capacity (h : unlinkHead m = .ok (a, m')) :
    m'.list.capacity = m.list.capacity := by
  obtain ⟨n, -, h⟩ := except_bind_ok h
  obtain ⟨-, rfl⟩ := Prod.mk.inj (Except.ok.inj h)
  by_cases hnext : n.next = 0 <;> simp [hnext]

theorem unlinkTail_capacity (h : unlinkTail m = .ok (a, m')) :
    m'.list.capacity = m.list.capacity := by
  obtain ⟨n, -, h⟩ := except_bind_ok h
  obtain ⟨-, rfl⟩ := Prod.mk.inj (Except.ok.inj h)
  by_cases hprev : n.prev = 0 <;> simp [hprev]

theorem unlinkInner_capacity (h : unlinkInner x m = .ok (a, m')) :
    m'.list.capacity = m.list.capacity := by
  obtain ⟨_, -, h⟩ := except_bind_ok h
  obtain ⟨_, -, h⟩ := except_bind_ok h
  obtain ⟨_, -, h⟩ := except_bind_ok h
  obtain ⟨_, -, h⟩ := except_bind_ok h
  obtain ⟨-, rfl⟩ := Prod.mk.inj (Except.ok.inj h)
  rfl

/-- **Both removals**, where the model's returns. -/
theorem removeWith_sim {testAt : Nat → Act Bool} {test : ListMem → Nat → Except Stop Bool}
    {fuel : Nat} {res : Int} (hl : Layout list nodes) (htest : TestSim list nodes testAt test)
    (hwf : WellFormed m s f) (hs : s ⊆ nodes) (hsize : m.list.size < wordMod)
    (hcap : m.list.capacity + 1 < wordMod) (h : removeWith test fuel m = .ok (res, m')) :
    ListSim list nodes (removeAt testAt fuel list) m res m' := by
  have hne : ∀ {y : Nat}, y ∈ s → y ≠ 0 := fun hy => chain_ne_null hwf.forward _ hy
  unfold removeWith at h
  obtain ⟨b, hb, h⟩ := except_bind_ok h
  rw [removeAt]
  refine loadHead_sim.bind (loadHead_sim.bind ((htest m _ b (hwf.head_mem.imp_right
    fun hin => hs hin) hb).bind ?_))
  cases b with
  | true =>
    rw [if_pos rfl] at h ⊢
    obtain ⟨⟨a, m₁⟩, hunlink, h⟩ := except_bind_ok h
    obtain ⟨rfl, rfl⟩ := Prod.mk.inj (Except.ok.inj h)
    obtain ⟨hsim, ha⟩ := unlinkHead_sim hl hwf hs hsize hunlink
    refine hsim.bind ((recycle_sim hl (hs ha) (hne ha) ?_).bind (ListSim.pure _ _))
    rwa [unlinkHead_capacity hunlink]
  | false =>
    rw [if_neg Bool.false_ne_true] at h ⊢
    obtain ⟨b, hb, h⟩ := except_bind_ok h
    refine loadTail_sim.bind ((htest m _ b (hwf.tail_mem.imp_right fun hin => hs hin) hb).bind ?_)
    cases b with
    | true =>
      rw [if_pos rfl] at h ⊢
      obtain ⟨⟨a, m₁⟩, hunlink, h⟩ := except_bind_ok h
      obtain ⟨rfl, rfl⟩ := Prod.mk.inj (Except.ok.inj h)
      obtain ⟨hsim, ha⟩ := unlinkTail_sim hl hwf hs hsize hunlink
      refine hsim.bind ((recycle_sim hl (hs ha) (hne ha) ?_).bind (ListSim.pure _ _))
      rwa [unlinkTail_capacity hunlink]
    | false =>
      rw [if_neg Bool.false_ne_true] at h ⊢
      obtain ⟨n, hderef, h⟩ := except_bind_ok h
      obtain ⟨hhead0, rfl⟩ := deref_ne_null hderef
      have hhead := hwf.head_mem.resolve_left hhead0
      obtain ⟨found, hsearch, h⟩ := except_bind_ok h
      obtain ⟨v, hv⟩ : ∃ v, s = m.list.head :: v := by
        cases hs' : s with
        | nil => rw [hs'] at hhead; cases hhead
        | cons c v =>
          have hf := hwf.forward
          rw [hs'] at hf
          exact ⟨v, by rw [chain_head hf]⟩
      have hchain : Chain (nextOf m) 0 (nextOf m m.list.head) v := by
        have hf := hwf.forward
        rw [hv] at hf
        exact hf.2.2
      have hvs : v ⊆ s := by rw [hv]; exact List.subset_cons_self _ _
      obtain ⟨hsim, hfound⟩ := removeSearch_sim htest hchain (fun y hy => hs (hvs hy)) hsearch
      rw [removeInnerAt]
      refine (readNext_sim (hs hhead) hhead0).bind (hsim.bind ?_)
      cases found with
      | none =>
        obtain ⟨rfl, rfl⟩ := Prod.mk.inj (Except.ok.inj h)
        exact ListSim.pure _ _
      | some y =>
        obtain ⟨⟨a, m₁⟩, hunlink, h⟩ := except_bind_ok h
        obtain ⟨rfl, rfl⟩ := Prod.mk.inj (Except.ok.inj h)
        obtain ⟨hsim, ha⟩ := unlinkInner_sim hl hwf hs hsize
          ((hfound y rfl).imp_right fun hin => hvs hin) hunlink
        refine hsim.bind ((recycle_sim hl (hs ha) (hne ha) ?_).bind (ListSim.pure _ _))
        rwa [unlinkInner_capacity hunlink]

end Removals

end Spr.LinkedList
