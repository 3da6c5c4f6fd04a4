import Mathlib.Algebra.Group.Nat.Defs
import Spr.Errors.Codes
import Spr.Framework.Chain

/-! # Doubly linked list with recycled nodes

    `src/lib/spr_list.c`: the list header, the nodes on a heap, and the
    operations `spr_list_push_back`, `spr_list_push_front`, `spr_list_reserve`,
    `spr_list_remove1` / `spr_list_remove` and `spr_list_clear`.

    * A heap gives every address a node; address `0` is `NULL`.
    * `spr_palloc` is a parameter: each call is given its answer, a block with
      arbitrary stale nodes in it or a failure with its `errno`.
    * A read through `NULL` and a loop that does not end are outcomes of their
      own (`Stop`). -/

namespace Spr.LinkedList

/-! ## Section 1: Nodes, header and heap -/

/-- `sizeof(spr_list_node_t)` -/
def sizeofListNode : Nat := 24

/-- `SPR_LIST_INITIAL_SIZE` -/
def sprListInitialSize : Nat := 10

/-- `spr_list_node_t` -/
structure ListNode where
  next : Nat
  prev : Nat
  data : Nat
  deriving DecidableEq

/-- `spr_list_t` -/
structure SprList where
  pool      : Nat
  head      : Nat
  tail      : Nat
  freeNodes : Nat
  size      : Nat
  capacity  : Nat
  deriving DecidableEq

/-- A list header and the heap its nodes are on. -/
structure ListMem where
  heap : Nat → ListNode
  list : SprList

def nextOf (m : ListMem) (a : Nat) : Nat := (m.heap a).next

def prevOf (m : ListMem) (a : Nat) : Nat := (m.heap a).prev

def dataOf (m : ListMem) (a : Nat) : Nat := (m.heap a).data

/-- `a->next = v` -/
def ListMem.setNext (m : ListMem) (a v : Nat) : ListMem :=
  { m with heap := Function.update m.heap a { m.heap a with next := v } }

/-- `a->prev = v` -/
def ListMem.setPrev (m : ListMem) (a v : Nat) : ListMem :=
  { m with heap := Function.update m.heap a { m.heap a with prev := v } }

/-- `a->data = v` -/
def ListMem.setData (m : ListMem) (a v : Nat) : ListMem :=
  { m with heap := Function.update m.heap a { m.heap a with data := v } }

/-- A write to the header. -/
def ListMem.setList (m : ListMem) (l : SprList) : ListMem := { m with list := l }

section Updates

variable (m : ListMem) (a v : Nat) (l : SprList)

@[simp] theorem setNext_list : (m.setNext a v).list = m.list := rfl
@[simp] theorem setPrev_list : (m.setPrev a v).list = m.list := rfl
@[simp] theorem setData_list : (m.setData a v).list = m.list := rfl
@[simp] theorem setList_list : (m.setList l).list = l := rfl
@[simp] theorem setList_heap : (m.setList l).heap = m.heap := rfl

/-- A write that leaves the projection `f` of the node alone. -/
theorem comp_update_same {f : ListNode → Nat} {n : ListNode} (h : f n = f (m.heap a)) :
    (fun b => f (Function.update m.heap a n b)) = fun b => f (m.heap b) := by
  have := Function.comp_update f m.heap a n
  rw [h] at this
  exact this.trans (Function.update_eq_self a _)

@[simp] theorem nextOf_setNext :
    nextOf (m.setNext a v) = Function.update (nextOf m) a v :=
  Function.comp_update ListNode.next m.heap a _

@[simp] theorem prevOf_setPrev :
    prevOf (m.setPrev a v) = Function.update (prevOf m) a v :=
  Function.comp_update ListNode.prev m.heap a _

@[simp] theorem dataOf_setData :
    dataOf (m.setData a v) = Function.update (dataOf m) a v :=
  Function.comp_update ListNode.data m.heap a _

@[simp] theorem prevOf_setNext : prevOf (m.setNext a v) = prevOf m := comp_update_same m a rfl
@[simp] theorem dataOf_setNext : dataOf (m.setNext a v) = dataOf m := comp_update_same m a rfl
@[simp] theorem nextOf_setPrev : nextOf (m.setPrev a v) = nextOf m := comp_update_same m a rfl
@[simp] theorem dataOf_setPrev : dataOf (m.setPrev a v) = dataOf m := comp_update_same m a rfl
@[simp] theorem nextOf_setData : nextOf (m.setData a v) = nextOf m := comp_update_same m a rfl
@[simp] theorem prevOf_setData : prevOf (m.setData a v) = prevOf m := comp_update_same m a rfl

@[simp] theorem nextOf_setList : nextOf (m.setList l) = nextOf m := rfl
@[simp] theorem prevOf_setList : prevOf (m.setList l) = prevOf m := rfl
@[simp] theorem dataOf_setList : dataOf (m.setList l) = dataOf m := rfl

end Updates

/-! ## Section 2: Allocation -/

/-- What one call of `spr_palloc` answers: the block (`NULL` when it fails), how many
    bytes it has, which the functions do not see, the nodes that happen to be in it, and
    `errno`. -/
structure PallocAnswer where
  block  : Nat
  length : Nat
  stale  : Nat → ListNode
  errno  : Int

/-- The memory once a block of `size` bytes has been received. -/
def ListMem.receive (m : ListMem) (ans : PallocAnswer) (size : Nat) : ListMem :=
  { m with heap := fun a =>
      if ans.block ≤ a ∧ a < ans.block + size then ans.stale a else m.heap a }

/-- `spr_list_create1`: the header comes zeroed from `spr_pcalloc`. -/
def sprListCreate1 (pcallocAnswer : Nat) (errno : Int) (pool : Nat) : Int × Option SprList :=
  if pcallocAnswer = 0 then (errno, none)
  else
    (sprOk, some
      { pool := pool, head := 0, tail := 0, freeNodes := 0, size := 0, capacity := 0 })

/-- The loop that hangs `&nodes[i]`, `&nodes[i + 1]`, … (`k` of them) on
    `free_nodes`. -/
def chainFree (nodes : Nat) : Nat → Nat → ListMem → ListMem
  | _, 0, m => m
  | i, k + 1, m =>
      let temp := m.list.freeNodes
      let node := nodes + sizeofListNode * i
      let m := m.setList { m.list with freeNodes := node }
      chainFree nodes (i + 1) k (m.setNext node temp)

/-- How both pushes come by a node: the first free one, or the first of a fresh
    chunk whose other nodes become free. -/
def takeNode (ans : PallocAnswer) (m : ListMem) : Except Int (Nat × ListMem) :=
  if m.list.freeNodes ≠ 0 then
    let node := m.list.freeNodes
    .ok (node, m.setList
      { m.list with freeNodes := nextOf m node, capacity := m.list.capacity - 1 })
  else
    let allocSize := sizeofListNode * sprListInitialSize
    -- `spr_get_errno()`, whatever it says
    if ans.block = 0 then .error ans.errno
    else
      let node := ans.block
      let nodes := ans.block + sizeofListNode
      let m := chainFree nodes 0 (sprListInitialSize - 1) (m.receive ans allocSize)
      -- an assignment, as the free chain was empty
      .ok (node, m.setList { m.list with capacity := sprListInitialSize - 1 })

/-! ## Section 3: Pushes and reserve -/

/-- `spr_list_push_back` from `node->next = NULL` on. -/
def linkBack (data node : Nat) (m : ListMem) : ListMem :=
  let m := m.setNext node 0
  let m := m.setData node data
  let m :=
    if m.list.tail ≠ 0 then
      let m := m.setNext m.list.tail node
      let m := m.setPrev node m.list.tail
      m.setList { m.list with tail := node }
    -- `node->prev` is not written: it keeps what the memory held
    else m.setList { m.list with head := node, tail := node }
  m.setList { m.list with size := m.list.size + 1 }

/-- `spr_list_push_back(list, data)` -/
def sprListPushBack (ans : PallocAnswer) (m : ListMem) (data : Nat) : Int × ListMem :=
  match takeNode ans m with
  | .error errno => (errno, m)
  | .ok (node, m) => (sprOk, linkBack data node m)

/-- `spr_list_push_front` from `node->prev = NULL` on. -/
def linkFront (data node : Nat) (m : ListMem) : ListMem :=
  let m := m.setPrev node 0
  let m := m.setData node data
  let m :=
    if m.list.head ≠ 0 then
      let m := m.setPrev m.list.head node
      let m := m.setNext node m.list.head
      m.setList { m.list with head := node }
    -- `node->next` is not written
    else m.setList { m.list with head := node, tail := node }
  m.setList { m.list with size := m.list.size + 1 }

/-- `spr_list_push_front(list, data)` -/
def sprListPushFront (ans : PallocAnswer) (m : ListMem) (data : Nat) : Int × ListMem :=
  match takeNode ans m with
  | .error errno => (errno, m)
  | .ok (node, m) => (sprOk, linkFront data node m)

/-- The size `spr_list_reserve` asks for, in `size_t`. -/
def reserveSize (n : Nat) : Nat := sizeofListNode * n % 2 ^ 64

/-- `spr_list_reserve(list, n)` -/
def sprListReserve (ans : PallocAnswer) (m : ListMem) (n : Nat) : Int × ListMem :=
  if ans.block = 0 then (ans.errno, m)
  else
    let m := chainFree ans.block 0 n (m.receive ans (reserveSize n))
    (sprOk, m.setList { m.list with capacity := m.list.capacity + n })

/-! ## Section 4: Removals and clear -/

/-- Why a call does not return. -/
inductive Stop where
  | null
  | diverge
  deriving DecidableEq

/-- `*a` -/
def ListMem.deref (m : ListMem) (a : Nat) : Except Stop ListNode :=
  if a = 0 then .error .null else .ok (m.heap a)

/-- The first element is taken out. -/
def unlinkHead (m : ListMem) : Except Stop (Nat × ListMem) := do
  let foundedNode := m.list.head
  let node ← m.deref foundedNode
  let m := if node.next ≠ 0 then m.setPrev node.next 0 else m
  .ok (foundedNode,
    -- `tail` stays, also when this was the only node
    m.setList { m.list with head := nextOf m foundedNode, size := m.list.size - 1 })

/-- The last element is taken out. -/
def unlinkTail (m : ListMem) : Except Stop (Nat × ListMem) := do
  let foundedNode := m.list.tail
  let node ← m.deref foundedNode
  let m := if node.prev ≠ 0 then m.setNext node.prev 0 else m
  .ok (foundedNode,
    m.setList { m.list with tail := prevOf m foundedNode, size := m.list.size - 1 })

/-- An inner element is taken out. -/
def unlinkInner (temp1 : Nat) (m : ListMem) : Except Stop (Nat × ListMem) := do
  let node ← m.deref temp1
  let _ ← m.deref node.next
  let m := m.setPrev node.next node.prev
  let node ← m.deref temp1
  let _ ← m.deref node.prev
  let m := m.setNext node.prev node.next
  .ok (temp1, m.setList { m.list with size := m.list.size - 1 })

/-- The `while` loop of both removals: `test` is its negated condition, and the
    tail ends the search. -/
def removeSearch (test : ListMem → Nat → Except Stop Bool) (m : ListMem) :
    Nat → Nat → Except Stop (Option Nat)
  | 0, _ => .error .diverge
  | fuel + 1, temp1 => do
      if ← test m temp1 then .ok (some temp1)
      else
        let node ← m.deref temp1
        -- the tail has been looked at before the loop
        if node.next = m.list.tail then .ok none
        else removeSearch test m fuel node.next

/-- The node taken out goes to the front of the free chain. -/
def recycle (foundedNode : Nat) (m : ListMem) : ListMem :=
  let temp1 := m.list.freeNodes
  let m := m.setList { m.list with freeNodes := foundedNode }
  let m := m.setNext foundedNode temp1
  m.setList { m.list with capacity := m.list.capacity + 1 }

/-- The common body of the two removals, which differ in the `test` that picks
    the node. -/
def removeWith (test : ListMem → Nat → Except Stop Bool) (fuel : Nat) (m : ListMem) :
    Except Stop (Int × ListMem) := do
  if ← test m m.list.head then
    let (foundedNode, m) ← unlinkHead m
    .ok (sprOk, recycle foundedNode m)
  else if ← test m m.list.tail then
    let (foundedNode, m) ← unlinkTail m
    .ok (sprOk, recycle foundedNode m)
  else
    let temp1 ← m.deref m.list.head
    match ← removeSearch test m fuel temp1.next with
    | none => .ok (sprNotFound, m)
    | some temp1 =>
        let (foundedNode, m) ← unlinkInner temp1 m
        .ok (sprOk, recycle foundedNode m)

/-- `temp1 == node` -/
def isNode (node : Nat) (_ : ListMem) (temp1 : Nat) : Except Stop Bool := .ok (temp1 == node)

/-- `temp1->data == data` -/
def hasData (data : Nat) (m : ListMem) (temp1 : Nat) : Except Stop Bool := do
  let node ← m.deref temp1
  .ok (node.data == data)

/-- `spr_list_remove1(list, node)` -/
def sprListRemove1 (fuel : Nat) (m : ListMem) (node : Nat) : Except Stop (Int × ListMem) :=
  removeWith (isNode node) fuel m

/-- `spr_list_remove(list, data)` -/
def sprListRemove (fuel : Nat) (m : ListMem) (data : Nat) : Except Stop (Int × ListMem) :=
  removeWith (hasData data) fuel m

/-- The loop of `spr_list_clear`: `node` itself is what `spr_list_remove` is asked
    to look for. -/
def clearLoop (fuel : Nat) : Nat → Nat → ListMem → Except Stop ListMem
  | 0, node, m => if node = 0 then .ok m else .error .diverge
  | steps + 1, node, m =>
      if node = 0 then .ok m
      else do
        let temp := (← m.deref node).next
        -- by data, with the node's address for the data
        let (_, m) ← sprListRemove fuel m node
        clearLoop fuel steps temp m

/-- `spr_list_clear(list)` -/
def sprListClear (fuel : Nat) (m : ListMem) : Except Stop ListMem :=
  clearLoop fuel fuel m.list.head m

end Spr.LinkedList
