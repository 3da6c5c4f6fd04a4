import Spr.LinkedList.Clear
import Spr.LinkedList.Memory
import Spr.MemPool.Owners

/-! # Lists in pools

    The header of a list is a block of a pool, and its nodes are cut from others.

    * `sprListCreate1At`, `sprListPushBackAt`, `sprListPushFrontAt`,
      `sprListReserveAt`: the functions that allocate.
    * `Owned.Holds`: the list is in its blocks, and its elements are these.
    * `Leaves`: what a call on the list leaves of the list and of all else.
    * `push_leaves`, `reserve_leaves`, `create_leaves`, `removal_leaves`: the
      calls, one by one. -/

namespace Spr.LinkedList

open Spr.Words Spr.Chains Spr.Simulations Spr.MemPool

/-! ## Section 1: The functions -/

/-- `spr_get_errno()` -/
def sprGetErrno : Act Int := do pure (← get).errno

/-- `spr_list_create1(&list, pool)`: the header comes zeroed. -/
def sprListCreate1At (plat : Platform) (thread pool : Nat) : Act (Int × Nat) := do
  let list ← pcallocNoted plat thread pool sizeofList
  if list = 0 then pure ((← sprGetErrno), 0)
  else do
    store (listPool list) pool
    pure (sprOk, list)

/-- The common body of the two pushes, which differ in how they link the node. -/
def pushAt (plat : Platform) (link : Nat → Act Unit) (thread list : Nat) : Act Int := do
  if (← load (listFree list)) ≠ 0 then do
    link (← takeFreeAt list)
    pure sprOk
  else do
    let nodes ← pallocNoted plat thread (← load (listPool list)) chunkSize
    if nodes = 0 then sprGetErrno
    else do
      link (← takeChunkAt list nodes)
      pure sprOk

/-- `spr_list_push_back(list, data)` -/
def sprListPushBackAt (plat : Platform) (thread list data : Nat) : Act Int :=
  pushAt plat (linkBackAt list data) thread list

/-- `spr_list_push_front(list, data)` -/
def sprListPushFrontAt (plat : Platform) (thread list data : Nat) : Act Int :=
  pushAt plat (linkFrontAt list data) thread list

/-- `spr_list_reserve(list, n)` -/
def sprListReserveAt (plat : Platform) (thread list n : Nat) : Act Int := do
  let nodes ← pallocNoted plat thread (← load (listPool list)) (mul sizeofListNode n)
  if nodes = 0 then sprGetErrno
  else do
    chainFreeAt list nodes 0 n
    store (listCapacity list) (add (← load (listCapacity list)) n)
    pure sprOk

/-! ## Section 2: A list and its blocks -/

/-- A list as its owner knows it: the header, the blocks, and the elements. -/
structure Owned where
  list   : Nat
  blocks : List Block
  elems  : List Nat

/-- The list that the memory has at `list`. -/
def listAt (w : World) (list : Nat) : ListMem where
  heap x := ⟨w.mem (linkNext x), w.mem (linkPrev x), w.mem (linkData x)⟩
  list   := ⟨w.mem (listPool list), w.mem (listHead list), w.mem (listTail list),
    w.mem (listFree list), w.mem (listSize list), w.mem (listCapacity list)⟩

/-- The header and the nodes lie in the blocks. -/
structure Placed (list : Nat) (bs : List Block) (nodes : List Nat) : Prop where
  header : ∃ b ∈ bs, Span.Within ⟨list, sizeofList⟩ b.span
  inside : ∀ x ∈ nodes, ∃ b ∈ bs, Span.Within ⟨x, sizeofListNode⟩ b.span
  layout : Layout list nodes

/-- The memory has a well-formed list, with its nodes among `nodes`. -/
structure ListIn (m : ListMem) (nodes s f ds : List Nat) : Prop where
  wellFormed : WellFormed m s f
  linked     : s ⊆ nodes
  free       : f ⊆ nodes
  data       : s.map (dataOf m) = ds

/-- **The list is in its blocks**, they are held, and its elements are as its owner
    knows them. -/
def Owned.Holds (w : World) (l : Owned) : Prop :=
  (∀ b ∈ l.blocks, b ∈ heldBlocks w.log) ∧ ∃ nodes s f, Placed l.list l.blocks nodes ∧
    ListIn (listAt w l.list) nodes s f l.elems

/-- The words of the blocks are the same. -/
def SameIn (w w' : World) (bs : List Block) : Prop :=
  ∀ b ∈ bs, ∀ a, b.span.Covers a → w'.mem a = w.mem a

section Holds

variable {w w' : World} {list : Nat} {nodes s f ds : List Nat} {bs : List Block} {m : ListMem}
  {l : Owned}

theorem shows_listAt : Shows list nodes w (listAt w list) := ⟨rfl, fun _ _ => rfl⟩

/-- What a list is made of is what the memory shows of it. -/
theorem ListIn.shown (h : ListIn m nodes s f ds) (hshows : Shows list nodes w m) :
    ListIn (listAt w list) nodes s f ds := by
  have hnode : ∀ x ∈ nodes, (listAt w list).heap x = m.heap x :=
    fun x hx => (hshows.nodes x hx).symm
  have hlist : (listAt w list).list = m.list := hshows.header.symm
  have hwf := h.wellFormed
  refine ⟨⟨?_, ?_, ?_, ?_, ?_, hwf.disjoint⟩, h.linked, h.free, ?_⟩
  · rw [hlist]
    exact chain_congr (fun x hx => congrArg ListNode.next (hnode x (h.linked hx))) hwf.forward
  · rw [hlist]
    exact chain_congr (fun x hx => congrArg ListNode.prev
      (hnode x (h.linked (List.mem_reverse.mp hx)))) hwf.backward
  · rw [hlist]
    exact hwf.size
  · rw [hlist]
    exact chain_congr (fun x hx => congrArg ListNode.next (hnode x (h.free hx))) hwf.free
  · rw [hlist]
    exact hwf.capacity
  · rw [← h.data]
    exact List.map_congr_left fun x hx => congrArg ListNode.data (hnode x (h.linked hx))

/-- The words of the list are in its blocks. -/
theorem Placed.shows (h : Placed list bs nodes) (hsame : SameIn w w' bs)
    (hshows : Shows list nodes w m) : Shows list nodes w' m := by
  obtain ⟨b, hb, hin⟩ := h.header
  have hheader : ∀ j < sizeofList, w'.mem (list + j) = w.mem (list + j) := fun j hj =>
    hsame b hb _ (hin.covers (by simp only [Span.Covers]; omega))
  have h₀ := hheader 0 (by decide)
  refine ⟨?_, fun x hx => ?_⟩
  · rw [Nat.add_zero] at h₀
    rw [hshows.header]
    simp only [listPool, listHead, listTail, listFree, listSize, listCapacity, h₀,
      hheader 8 (by decide), hheader 16 (by decide), hheader 24 (by decide),
      hheader 32 (by decide), hheader 40 (by decide)]
  · obtain ⟨c, hc, hin⟩ := h.inside x hx
    have hnode : ∀ k < sizeofListNode, w'.mem (x + k) = w.mem (x + k) := fun k hk =>
      hsame c hc _ (hin.covers (by simp only [Span.Covers]; omega))
    have h₀ := hnode 0 (by decide)
    rw [Nat.add_zero] at h₀
    rw [hshows.nodes x hx]
    simp only [linkNext, linkPrev, linkData, h₀, hnode 8 (by decide), hnode 16 (by decide)]

/-- **A list whose blocks are left alone** stays as it is. -/
theorem Owned.Holds.frame (h : l.Holds w) (hheld : ∀ b ∈ l.blocks, b ∈ heldBlocks w'.log)
    (hsame : SameIn w w' l.blocks) : l.Holds w' := by
  obtain ⟨-, nodes, s, f, hplaced, hlist⟩ := h
  exact ⟨hheld, nodes, s, f, hplaced, hlist.shown (hplaced.shows hsame shows_listAt)⟩

/-- A store of the list is a store to one of its blocks. -/
theorem Placed.covers (h : Placed list bs nodes) {a : Nat}
    (ha : Span.Covers ⟨list, sizeofList⟩ a ∨ ∃ x ∈ nodes, Span.Covers ⟨x, sizeofListNode⟩ a) :
    ∃ b ∈ bs, b.span.Covers a := by
  rcases ha with ha | ⟨x, hx, ha⟩
  · obtain ⟨b, hb, hin⟩ := h.header
    exact ⟨b, hb, hin.covers ha⟩
  · obtain ⟨b, hb, hin⟩ := h.inside x hx
    exact ⟨b, hb, hin.covers ha⟩

/-- **The counters do not wrap**: the nodes are apart, in the memory that there is. -/
theorem Placed.count (h : Placed list bs nodes)
    (hend : ∀ b ∈ bs, b.span.start + b.span.len ≤ wordMod)
    (hlist : ListIn m nodes s f ds) : sizeofListNode * (s.length + f.length) ≤ wordMod := by
  have hwf := hlist.wellFormed
  have hin : ∀ x ∈ s ++ f, x ∈ nodes := fun x hx => by
    rcases List.mem_append.mp hx with hx | hx
    · exact hlist.linked hx
    · exact hlist.free hx
  have hnodup : (s ++ f).Nodup := List.nodup_append.mpr ⟨chain_nodup hwf.forward,
    chain_nodup hwf.free, fun x hx y hy heq => hwf.disjoint x hx (heq ▸ hy)⟩
  have hapart : ((s ++ f).map fun x => (⟨x, sizeofListNode⟩ : Span)).Pairwise Span.Disjoint := by
    rw [List.pairwise_map]
    exact hnodup.imp_of_mem fun hx hy hne => h.layout.apart _ (hin _ hx) _ (hin _ hy) hne
  have hends : ∀ t ∈ (s ++ f).map fun x => (⟨x, sizeofListNode⟩ : Span),
      t.start + t.len ≤ wordMod := by
    intro t ht
    obtain ⟨x, hx, rfl⟩ := List.mem_map.mp ht
    obtain ⟨b, hb, hwithin⟩ := h.inside x (hin x hx)
    have := hend b hb
    simp only [Span.Within] at hwithin ⊢
    omega
  have hbound := Span.sum_len_le hapart hends
  rw [List.map_map] at hbound
  change ((s ++ f).map fun _ => sizeofListNode).sum ≤ wordMod at hbound
  rw [List.map_const', List.sum_replicate, List.length_append, Nat.nsmul_eq_mul,
    Nat.mul_comm] at hbound
  exact hbound

end Holds

/-! ## Section 3: What a call leaves -/

/-- The blocks handed out since. -/
def handedSince (w w' : World) : List Block :=
  (heldBlocks w'.log).take ((heldBlocks w'.log).length - (heldBlocks w.log).length)

/-- What a call on the list leaves: the list has its blocks and those handed out to it, and
    what others hold is as it was. -/
structure Leaves (plat : Platform) (s : Session) (list : Nat) (bs : List Block) (ds : List Nat)
    (w' : World) : Prop where
  reach  : Reachable plat (Session.Plain plat) ⟨w', s.family⟩
  holds  : (⟨list, handedSince s.world w' ++ bs, ds⟩ : Owned).Holds w'
  held   : heldBlocks w'.log = handedSince s.world w' ++ heldBlocks s.world.log
  others : ∀ b ∈ heldBlocks s.world.log, b ∉ bs → ∀ a, b.span.Covers a →
    w'.mem a = s.world.mem a

section Leaves

variable {plat : Platform} {s : Session} {w w' : World} {list thread pool size r : Nat}
  {nodes sl f ds : List Nat} {bs : List Block} {b c : Block} {m m' : ListMem}

theorem handedSince_of_eq (h : heldBlocks w'.log = heldBlocks w.log) : handedSince w w' = [] := by
  rw [handedSince, h, Nat.sub_self, List.take_zero]

theorem handedSince_cons (h : heldBlocks w'.log = b :: heldBlocks w.log) :
    handedSince w w' = [b] := by
  rw [handedSince, h, List.length_cons, Nat.add_sub_cancel_left]
  rfl

/-- A store to the list's words is one to its blocks. -/
theorem Placed.storeTo (h : Placed list bs nodes) (hstore : ListStore list nodes w w') :
    StoreTo bs w w' := by
  obtain ⟨a, v, hal, ha, rfl⟩ := hstore
  exact ⟨a, v, hal, h.covers ha, rfl⟩

/-- **A program that only stores to the list**, as the simulation has it. -/
theorem sim_leaves {α : Type} {p : Act α} {x : α} (hs : Reachable plat (Session.Plain plat) s)
    (hplaced : Placed list bs nodes) (hheld : ∀ b ∈ bs, b ∈ heldBlocks s.world.log)
    (hshows : Shows list nodes s.world m) (hsim : ListSim list nodes p m x m')
    (hlist : ListIn m' nodes sl f ds) :
    ∃ w', p s.world = .ok x w' ∧ w'.log = s.world.log ∧ Leaves plat s list bs ds w' := by
  obtain ⟨w', hrun, hsteps, hshows'⟩ := hsim s.world hshows
  have hstores : Relation.ReflTransGen (StoreTo bs) s.world w' :=
    hsteps.lift id fun _ _ => hplaced.storeTo
  obtain ⟨hreach, hlog, hothers⟩ := stores_keep hs hheld hstores
  have hnone : handedSince s.world w' = [] := handedSince_of_eq (congrArg heldBlocks hlog)
  refine ⟨w', hrun, hlog, hreach, ?_, by rw [hnone, hlog]; rfl, hothers⟩
  rw [hnone]
  exact ⟨fun b hb => by rw [hlog]; exact hheld b hb, nodes, sl, f, hplaced,
    hlist.shown hshows'⟩

/-! ### Allocation -/

/-- A call that has allocated first. -/
theorem Leaves.of_alloc {w₁ : World} (h : Leaves plat ⟨w₁, s.family⟩ list (b :: bs) ds w')
    (hkeeps : KeepsBlocks s.world w₁) (hheld : heldBlocks w₁.log = b :: heldBlocks s.world.log)
    (hlog : w'.log = w₁.log) : Leaves plat s list bs ds w' := by
  have hnone : handedSince w₁ w' = [] := handedSince_of_eq (congrArg heldBlocks hlog)
  have hone : handedSince s.world w' = [b] := handedSince_cons (by rw [hlog, hheld])
  have hholds := h.holds
  rw [show handedSince (Session.mk w₁ s.family).world w' = [] from hnone, List.nil_append] at hholds
  refine ⟨h.reach, by rw [hone]; exact hholds, by rw [hone, hlog, hheld]; rfl,
    fun c hc hout a ha => ?_⟩
  obtain ⟨fs, hinv⟩ := reachable_inv h.reach
  obtain ⟨hne, -⟩ := handed_new hinv (by rw [hlog, hheld]) hc
  rw [h.others c (by rw [hheld]; exact List.mem_cons_of_mem _ hc)
    (by rw [List.mem_cons, not_or]; exact ⟨hne.symm, hout⟩) a ha, hkeeps c hc a ha]

/-- The nodes of a fresh block are places for the list. -/
theorem Placed.extend {fs : Spr.Forests.Forest Pool} {k : Nat} (h : Placed list bs nodes)
    (hinv : Inv plat ⟨w', s.family⟩ fs) (hbs : ∀ c ∈ bs, c ∈ heldBlocks w.log)
    (hheld : heldBlocks w'.log = b :: heldBlocks w.log) (hk : sizeofListNode * k ≤ b.size) :
    Placed list (b :: bs) (nodeAddrs b.addr 0 k ++ nodes) ∧
      ∀ x ∈ nodes, x + sizeofListNode ≤ b.addr ∨ b.addr + b.size ≤ x := by
  have hb : b ∈ heldBlocks w'.log := by rw [hheld]; exact List.mem_cons_self
  have hlong := (sprAlignAllocation_bounds (hinv.blocks.size b hb)).1
  have hal := hinv.blocks.aligned b hb
  simp only [sizeofListNode] at hk
  have hin : ∀ x ∈ nodeAddrs b.addr 0 k, Span.Within ⟨x, sizeofListNode⟩ b.span := by
    intro x hx
    have := mem_nodeAddrs hx
    simp only [Span.Within, Block.span, sizeofListNode]
    omega
  have hapart : ∀ c ∈ bs, Span.Disjoint b.span c.span := fun c hc =>
    (handed_new hinv hheld (hbs c hc)).2
  have hold : ∀ y ∈ nodes, Span.Disjoint b.span ⟨y, sizeofListNode⟩ := by
    intro y hy
    obtain ⟨c, hc, hwithin⟩ := h.inside y hy
    exact ((hapart c hc).symm.mono hwithin).symm
  refine ⟨⟨?_, ?_, ⟨⟨h.layout.aligned.1, ?_⟩, ?_, ?_⟩⟩, ?_⟩
  · obtain ⟨c, hc, hwithin⟩ := h.header
    exact ⟨c, List.mem_cons_of_mem _ hc, hwithin⟩
  · intro x hx
    rcases List.mem_append.mp hx with hx | hx
    · exact ⟨b, List.mem_cons_self, hin x hx⟩
    · obtain ⟨c, hc, hwithin⟩ := h.inside x hx
      exact ⟨c, List.mem_cons_of_mem _ hc, hwithin⟩
  · intro x hx
    rcases List.mem_append.mp hx with hx | hx
    · obtain ⟨j, -, rfl⟩ := List.mem_map.mp hx
      simp only [sizeofListNode]
      omega
    · exact h.layout.aligned.2 x hx
  · intro x hx
    rcases List.mem_append.mp hx with hx | hx
    · obtain ⟨c, hc, hwithin⟩ := h.header
      exact ((hapart c hc).mono (hin x hx)).symm.mono hwithin
    · exact h.layout.header x hx
  · intro x hx y hy hne
    rcases List.mem_append.mp hx with hx | hx <;> rcases List.mem_append.mp hy with hy | hy
    · obtain ⟨i, -, rfl⟩ := List.mem_map.mp hx
      obtain ⟨j, -, rfl⟩ := List.mem_map.mp hy
      simp only [Span.Disjoint, sizeofListNode] at hne ⊢
      omega
    · exact (hold y hy).mono (hin x hx)
    · exact ((hold x hx).mono (hin y hy)).symm
    · exact h.layout.apart x hx y hy hne
  · intro x hx
    have hdis := hold x hx
    simp only [Span.Disjoint, Block.span] at hdis
    omega

/-- A call after which the list is as it was. -/
theorem leaves_kept {l : Owned} (hreach : Reachable plat (Session.Plain plat) ⟨w', s.family⟩)
    (hl : l.Holds s.world) (hkeeps : KeepsBlocks s.world w')
    (hsame : heldBlocks w'.log = heldBlocks s.world.log) :
    Leaves plat s l.list l.blocks l.elems w' := by
  have hnone := handedSince_of_eq hsame
  refine ⟨hreach, ?_, by rw [hnone, hsame]; rfl, fun b hb _ a ha => hkeeps b hb a ha⟩
  rw [hnone]
  exact hl.frame (fun b hb => by rw [hsame]; exact hl.1 b hb) fun b hb => hkeeps b (hl.1 b hb)

/-- **A fresh block for the list**: the list is as it was, and has room for `k` nodes more. -/
theorem fresh_block {fs : Spr.Forests.Forest Pool} {k : Nat} (hinv : Inv plat ⟨w', s.family⟩ fs)
    (hheld : ∀ c ∈ bs, c ∈ heldBlocks s.world.log) (hplaced : Placed list bs nodes)
    (hlist : ListIn (listAt s.world list) nodes sl f ds) (hkeeps : KeepsBlocks s.world w')
    (hnew : heldBlocks w'.log = b :: heldBlocks s.world.log) (hk : sizeofListNode * k ≤ b.size) :
    Placed list (b :: bs) (nodeAddrs b.addr 0 k ++ nodes) ∧
      ListIn (listAt w' list) (nodeAddrs b.addr 0 k ++ nodes) sl f ds ∧
      (∀ c ∈ b :: bs, c ∈ heldBlocks w'.log) ∧ b.addr + b.size ≤ 2 ^ 64 ∧
      ∀ x ∈ nodes, x + sizeofListNode ≤ b.addr ∨ b.addr + b.size ≤ x := by
  have hb : b ∈ heldBlocks w'.log := by rw [hnew]; exact List.mem_cons_self
  obtain ⟨hplaced', hfar⟩ := hplaced.extend hinv hheld hnew hk
  obtain ⟨hwf, hlinked, hfree, hdata⟩ := hlist.shown
    (hplaced.shows (fun c hc => hkeeps c (hheld c hc)) shows_listAt)
  refine ⟨hplaced', ⟨hwf, fun x hx => List.mem_append_right _ (hlinked hx),
    fun x hx => List.mem_append_right _ (hfree hx), hdata⟩, fun c hc => ?_, ?_, hfar⟩
  · rcases List.mem_cons.mp hc with rfl | hc
    · exact hb
    · rw [hnew]
      exact List.mem_cons_of_mem _ (hheld c hc)
  · have hend := (held_end hinv hb).2
    have hlong := (sprAlignAllocation_bounds (hinv.blocks.size b hb)).1
    simp only [Block.span, wordMod] at hend
    omega

end Leaves

/-! ## Section 4: Pushes -/

/-- How a push links its node: by a program that does what the model's operation does, at one
    end; the node's link at the other side stays as it is. -/
structure Linking (list data : Nat) (linkAt : Nat → Act Unit) (link : Nat → ListMem → ListMem)
    (place : List Nat → Nat → List Nat) (outer : ListNode → Nat) : Prop where
  sim : ∀ {nodes s f : List Nat} {m : ListMem} {node : Nat}, Layout list nodes →
    WellFormed m s f → s ⊆ nodes → node ∈ nodes → node ≠ 0 → m.list.size + 1 < wordMod →
      ListSim list nodes (linkAt node) m () (link node m)
  wellFormed : ∀ {s f : List Nat} {m : ListMem} {node : Nat}, WellFormed m s f → node ≠ 0 →
    node ∉ s → node ∉ f → (s ≠ [] ∨ outer (m.heap node) = 0) →
      WellFormed (link node m) (place s node) f
  data : ∀ node m, dataOf (link node m) = Function.update (dataOf m) node data
  mem : ∀ s node, place s node ⊆ node :: s
  map : ∀ (g : Nat → Nat) s node, (place s node).map g = place (s.map g) (g node)

theorem linking_back (list data : Nat) : Linking list data (linkBackAt list data) (linkBack data)
    (fun s node => s ++ [node]) ListNode.prev where
  sim hl hwf hs hnode hnode0 hsize :=
    linkBack_sim hl hnode hnode0 (hwf.tail_mem.imp_right fun hin => hs hin) hsize
  wellFormed := linkBack_wellFormed data
  data := linkBack_data data
  mem s node x hx := by simpa [or_comm] using hx
  map g s node := by simp

theorem linking_front (list data : Nat) : Linking list data (linkFrontAt list data)
    (linkFront data) (fun s node => node :: s) ListNode.next where
  sim hl hwf hs hnode hnode0 hsize :=
    linkFront_sim hl hnode hnode0 (hwf.head_mem.imp_right fun hin => hs hin) hsize
  wellFormed := linkFront_wellFormed data
  data := linkFront_data data
  mem _ _ _ hx := hx
  map _ _ _ := rfl

/-- The node that a push will use has `NULL` in the link that the push leaves as it is. -/
def OuterNull (plat : Platform) (outer : ListNode → Nat) (thread list : Nat) (w : World) : Prop :=
  if w.mem (listFree list) ≠ 0 then outer ((listAt w list).heap (w.mem (listFree list))) = 0
  else match pallocNoted plat thread (w.mem (listPool list)) chunkSize w with
    | .error _ _ => True
    | .ok r w' => r ≠ 0 → outer ((listAt w' list).heap r) = 0

section Pushes

variable {plat : Platform} {s : Session} {w' : World} {list data thread : Nat}
  {nodes sl f ds : List Nat} {bs : List Block} {m : ListMem} {linkAt : Nat → Act Unit}
  {link : Nat → ListMem → ListMem} {place : List Nat → Nat → List Nat}
  {outer : ListNode → Nat} {rc : Int}

/-- **A node that has been taken is linked.** -/
theorem Linking.leaves (hlink : Linking list data linkAt link place outer) {node : Nat}
    {ans : PallocAnswer} {m₁ : ListMem} {take : Act Nat} {f' : List Nat}
    (hs : Reachable plat (Session.Plain plat) s) (hplaced : Placed list bs nodes)
    (hheld : ∀ b ∈ bs, b ∈ heldBlocks s.world.log)
    (hlist : ListIn (listAt s.world list) nodes sl f ds)
    (htake : ListSim list nodes take (listAt s.world list) node m₁)
    (ht : Taken ans (listAt s.world list) sl node m₁ f') (hnode : node ∈ nodes) (hf : f' ⊆ nodes)
    (houter : ds ≠ [] ∨ outer (m₁.heap node) = 0) :
    ∃ w', (do linkAt (← take); pure sprOk : Act Int) s.world = .ok sprOk w' ∧
      w'.log = s.world.log ∧ Leaves plat s list bs (place ds data) w' := by
  obtain ⟨fs, hinv⟩ := reachable_inv hs
  have hcount := hplaced.count (fun b hb => (held_end hinv (hheld b hb)).2) hlist
  have hsize : m₁.list.size + 1 < wordMod := by
    rw [ht.wellFormed.size]
    simp only [sizeofListNode, wordMod_eq] at hcount ⊢
    omega
  have hsl : ds ≠ [] → sl ≠ [] := by
    rintro hds rfl
    exact hds (by rw [← hlist.data]; rfl)
  have htaken : ListIn m₁ nodes sl f' ds :=
    ⟨ht.wellFormed, hlist.linked, hf, ht.data.trans hlist.data⟩
  have hlinked : ListIn (link node m₁) nodes (place sl node) f' (place ds data) := by
    refine ⟨hlink.wellFormed ht.wellFormed ht.ne_null ht.not_linked ht.not_free
      (houter.imp_left hsl), fun x hx => ?_, hf, ?_⟩
    · rcases List.mem_cons.mp (hlink.mem sl node hx) with rfl | hx
      · exact hnode
      · exact hlist.linked hx
    · rw [hlink.map, hlink.data, map_data_update ht.not_linked rfl, htaken.data,
        Function.update_self]
  exact sim_leaves hs hplaced hheld shows_listAt (htake.bind ((hlink.sim hplaced.layout
    ht.wellFormed hlist.linked hnode ht.ne_null hsize).bind (ListSim.pure _ _))) hlinked

/-- A push takes the first free node. -/
theorem push_free (hlink : Linking list data linkAt link place outer)
    (hs : Reachable plat (Session.Plain plat) s) (hplaced : Placed list bs nodes)
    (hheld : ∀ b ∈ bs, b ∈ heldBlocks s.world.log)
    (hlist : ListIn (listAt s.world list) nodes sl f ds) (hfree : s.world.mem (listFree list) ≠ 0)
    (houter : ds ≠ [] ∨
      outer ((listAt s.world list).heap (s.world.mem (listFree list))) = 0) :
    ∃ w', pushAt plat linkAt thread list s.world = .ok sprOk w' ∧
      Leaves plat s list bs (place ds data) w' := by
  obtain ⟨fs, hinv⟩ := reachable_inv hs
  have hwf := hlist.wellFormed
  obtain ⟨a, f', rfl⟩ : ∃ a f', f = a :: f' := List.exists_cons_of_ne_nil fun hnil =>
    hfree (hwf.free_null_iff.mpr hnil)
  have ha : (listAt s.world list).list.freeNodes = a := chain_head hwf.free
  have hne : (listAt s.world list).list.freeNodes ≠ 0 := hfree
  obtain ⟨m', ht⟩ := takeNode_recycled ⟨0, 0, fun _ => ⟨0, 0, 0⟩, 0⟩ hwf
  have hres := ht.result
  rw [takeNode, if_pos hne] at hres
  obtain ⟨-, rfl⟩ := Prod.mk.inj (Except.ok.inj hres)
  rw [← ha] at ht
  have hcount := hplaced.count (fun b hb => (held_end hinv (hheld b hb)).2) hlist
  have hcap := hwf.capacity
  simp only [List.length_cons, sizeofListNode, wordMod_eq] at hcount hcap
  have hmem : (listAt s.world list).list.freeNodes ∈ nodes := by
    rw [ha]
    exact hlist.free List.mem_cons_self
  obtain ⟨w', hrun, -, hleaves⟩ := hlink.leaves hs hplaced hheld hlist
    (takeFree_sim hplaced.layout hmem hne (by omega) (by rw [wordMod_eq]; omega)) ht hmem
    (fun x hx => hlist.free (List.mem_cons_of_mem _ hx)) houter
  refine ⟨w', ?_, hleaves⟩
  rw [pushAt, load_bind, if_pos hfree]
  exact hrun

/-- A block whose contents the memory already shows is received as it is. -/
theorem receive_heap (m : ListMem) (block length size : Nat) (errno : Int) :
    m.receive ⟨block, length, m.heap, errno⟩ size = m := by
  simp [ListMem.receive]

/-- The nodes of a block after its first one. -/
theorem nodeAddrs_rest {r k : Nat} :
    nodeAddrs (r + sizeofListNode) 0 k ⊆ nodeAddrs r 0 (k + 1) := by
  intro x hx
  obtain ⟨j, hj, rfl⟩ := List.mem_map.mp hx
  refine List.mem_map.mpr ⟨j + 1, ?_, by rw [Nat.mul_add, Nat.mul_one]; omega⟩
  rw [List.mem_range'_1] at hj ⊢
  omega

/-- A push cuts up a fresh block. -/
theorem push_fresh {r : Nat} (hlink : Linking list data linkAt link place outer)
    (hs : Reachable plat (Session.Plain plat) s) (hplaced : Placed list bs nodes)
    (hheld : ∀ b ∈ bs, b ∈ heldBlocks s.world.log)
    (hlist : ListIn (listAt s.world list) nodes sl [] ds)
    (hr : r ≠ 0) (hend : r + chunkSize ≤ 2 ^ 64)
    (hfar : ∀ x ∈ sl, x + sizeofListNode ≤ r ∨ r + chunkSize ≤ x)
    (hnodes : nodeAddrs r 0 sprListInitialSize ⊆ nodes)
    (houter : ds ≠ [] ∨ outer ((listAt s.world list).heap r) = 0) :
    ∃ w', (do linkAt (← takeChunkAt list r); pure sprOk : Act Int) s.world = .ok sprOk w' ∧
      w'.log = s.world.log ∧ Leaves plat s list bs (place ds data) w' := by
  have hwf := hlist.wellFormed
  have hnull : (listAt s.world list).list.freeNodes = 0 := hwf.free_null_iff.mpr rfl
  have hans : PallocAnswer.Honest ⟨r, chunkSize, (listAt s.world list).heap, 0⟩ sl :=
    ⟨fun _ => hend, fun _ => hfar⟩
  have hlong : PallocAnswer.Long ⟨r, chunkSize, (listAt s.world list).heap, 0⟩ chunkSize :=
    fun _ => Nat.le_refl _
  obtain ⟨m', f', ht⟩ := takeNode_fresh hwf hans hlong hr
  have hres := ht.result
  rw [takeNode, if_neg (by simpa using hnull), if_neg hr, receive_heap] at hres
  obtain ⟨-, rfl⟩ := Prod.mk.inj (Except.ok.inj hres)
  -- the other nodes of the block are the free ones
  have hroom : r + sizeofListNode + sizeofListNode * 9 ≤ r + chunkSize := by
    simp only [chunkSize, sizeofListNode, sprListInitialSize]
    omega
  obtain ⟨hchain, -⟩ := freshChain_wellFormed hwf (by rwa [List.append_nil]) hlong hr
    (Nat.le_add_right r sizeofListNode) hroom rfl
  rw [hwf.capacity, receive_heap] at hchain
  have hf' := (ht.wellFormed.unique hchain).2
  have hin : r ∈ nodes := hnodes (by rw [sprListInitialSize, nodeAddrs_succ]; simp)
  have hrest : f' ⊆ nodes := by
    rw [hf', List.append_nil]
    exact fun x hx => hnodes (nodeAddrs_rest (List.mem_reverse.mp hx))
  refine hlink.leaves hs hplaced hheld hlist (takeChunk_sim hplaced.layout fun x hx => ?_) ht hin
    hrest (houter.imp_right fun hzero => ?_)
  · refine ⟨hnodes (nodeAddrs_rest hx), ?_⟩
    have := mem_nodeAddrs hx
    simp only [sizeofListNode] at this
    omega
  · rw [ht.contents, usedNode, if_neg (by simpa using hnull)]
    exact hzero

/-- **The pushes**: one element more at one end, or none and an `errno`. -/
theorem push_leaves (hlink : Linking list data linkAt link place outer) {l : Owned}
    (hs : Reachable plat (Session.Plain plat) s) (hl : l.Holds s.world) (hlist : l.list = list)
    (hop : s.world.mem (listFree list) = 0 →
      s.Plain plat (.palloc thread (s.world.mem (listPool list)) chunkSize))
    (houter : l.elems ≠ [] ∨ OuterNull plat outer thread list s.world)
    (hrun : pushAt plat linkAt thread list s.world = .ok rc w') :
    Leaves plat s list l.blocks (if rc = sprOk then place l.elems data else l.elems) w' := by
  subst hlist
  have hholds := hl
  obtain ⟨hheld, nodes, sl, f, hplaced, hin⟩ := hl
  by_cases hfree : s.world.mem (listFree l.list) = 0
  swap
  · rw [OuterNull, if_pos hfree] at houter
    obtain ⟨w₁, hrun₁, hleaves⟩ := push_free hlink hs hplaced hheld hin hfree houter
    rw [hrun₁] at hrun
    injection hrun with hrc hw
    rw [← hrc, ← hw, if_pos rfl]
    exact hleaves
  · obtain rfl : f = [] := hin.wellFormed.free_null_iff.mp hfree
    rw [OuterNull, if_neg (not_not.mpr hfree)] at houter
    rw [pushAt, load_bind, if_neg (not_not.mpr hfree), load_bind] at hrun
    obtain ⟨r, w₁, hpalloc, hrun⟩ := bind_ok hrun
    rw [hpalloc] at houter
    obtain ⟨hreach, hkeeps, ⟨rfl, hsame, herrno⟩ | ⟨hr, hnew, -⟩⟩ :=
      pallocNoted_spec hs (hop hfree) hpalloc
    · -- no block: nothing but `errno` has changed
      have hnomem : w₁.errno ≠ sprOk := by rw [herrno (by decide)]; decide
      obtain ⟨rfl, rfl⟩ : w₁.errno = rc ∧ w₁ = w' := by simpa [sprGetErrno] using hrun
      rw [if_neg hnomem]
      exact leaves_kept hreach hholds hkeeps hsame
    · rw [if_neg hr] at hrun
      obtain ⟨fs, hinv⟩ := reachable_inv hreach
      obtain ⟨hplaced₁, hin₁, hheld₁, hend, hfar⟩ :=
        fresh_block hinv hheld hplaced hin hkeeps hnew (k := sprListInitialSize) (Nat.le_refl _)
      obtain ⟨w₂, hrun₂, hlog, hleaves⟩ := push_fresh hlink hreach hplaced₁ hheld₁ hin₁ hr hend
        (fun x hx => hfar x (hin.linked hx)) (fun x hx => List.mem_append_left _ hx)
        (houter.imp_right fun hzero => hzero hr)
      rw [hrun₂] at hrun
      injection hrun with hrc hw
      rw [← hrc, ← hw, if_pos rfl]
      exact hleaves.of_alloc hkeeps hnew hlog

end Pushes

/-! ## Section 5: Reserve and create -/

section Allocs

variable {plat : Platform} {s : Session} {w' : World} {list thread pool n : Nat} {l : Owned}
  {rc : Int}

/-- **`spr_list_reserve`** changes no element. -/
theorem reserve_leaves (hs : Reachable plat (Session.Plain plat) s) (hl : l.Holds s.world)
    (hn : sizeofListNode * n < wordMod)
    (hop : s.Plain plat (.palloc thread (s.world.mem (listPool l.list)) (sizeofListNode * n)))
    (hrun : sprListReserveAt plat thread l.list n s.world = .ok rc w') :
    Leaves plat s l.list l.blocks l.elems w' := by
  have hholds := hl
  obtain ⟨hheld, nodes, sl, f, hplaced, hin⟩ := hl
  rw [sprListReserveAt, load_bind, mul_of_lt hn] at hrun
  obtain ⟨r, w₁, hpalloc, hrun⟩ := bind_ok hrun
  obtain ⟨hreach, hkeeps, ⟨rfl, hsame, -⟩ | ⟨hr, hnew, -⟩⟩ := pallocNoted_spec hs hop hpalloc
  · obtain ⟨-, rfl⟩ : w₁.errno = rc ∧ w₁ = w' := by simpa [sprGetErrno] using hrun
    exact leaves_kept hreach hholds hkeeps hsame
  · rw [if_neg hr] at hrun
    obtain ⟨fs, hinv⟩ := reachable_inv hreach
    obtain ⟨hplaced₁, hin₁, hheld₁, hend, hfar⟩ :=
      fresh_block hinv hheld hplaced hin hkeeps hnew (k := n) (Nat.le_refl _)
    have hwf := hin₁.wellFormed
    have hans : PallocAnswer.Honest ⟨r, sizeofListNode * n, (listAt w₁ l.list).heap, 0⟩
        (sl ++ f) := by
      refine ⟨fun _ => hend, fun _ x hx => hfar x ?_⟩
      rcases List.mem_append.mp hx with hx | hx
      · exact hin.linked hx
      · exact hin.free hx
    obtain ⟨hchain, hdata⟩ := freshChain_wellFormed hwf hans (fun _ => Nat.le_refl _) hr
      (Nat.le_refl r) (Nat.le_refl _) rfl
    rw [receive_heap] at hchain hdata
    obtain ⟨⟨first, hlist⟩, -⟩ := chainFree_frame r n 0 (listAt w₁ l.list)
    have hcount := hplaced₁.count (fun b hb => (held_end hinv (hheld₁ b hb)).2) hin₁
    have hcap := hwf.capacity
    simp only [sizeofListNode, wordMod_eq] at hcount hn
    have hadd : add (chainFree r 0 n (listAt w₁ l.list)).list.capacity n
        = (listAt w₁ l.list).list.capacity + n := by
      rw [hlist]
      exact add_of_lt (show (listAt w₁ l.list).list.capacity + n < wordMod by
        rw [wordMod_eq]; omega)
    have hsim : ListSim l.list (nodeAddrs r 0 n ++ nodes)
        (do chainFreeAt l.list r 0 n
            store (listCapacity l.list) (add (← load (listCapacity l.list)) n)
            pure sprOk : Act Int) (listAt w₁ l.list) sprOk _ :=
      (chainFree_sim hplaced₁.layout r n 0 _ fun x hx => ⟨List.mem_append_left _ hx, by
        have := mem_nodeAddrs hx
        omega⟩).bind (loadCapacity_sim.bind ((storeCapacity_sim hplaced₁.layout).bind
          (ListSim.pure _ _)))
    rw [hadd] at hsim
    have hfree : (nodeAddrs r 0 n).reverse ++ f ⊆ nodeAddrs r 0 n ++ nodes := by
      intro x hx
      rcases List.mem_append.mp hx with hx | hx
      · exact List.mem_append_left _ (List.mem_reverse.mp hx)
      · exact hin₁.free hx
    obtain ⟨w₂, hrun₂, hlog, hleaves⟩ := sim_leaves hreach hplaced₁ hheld₁ shows_listAt hsim
      ⟨hchain, hin₁.linked, hfree, hdata.trans hin₁.data⟩
    rw [hrun₂] at hrun
    injection hrun with _ hw
    rw [← hw]
    exact hleaves.of_alloc hkeeps hnew hlog

/-- A zeroed block that cannot be had. -/
theorem pcallocNoted_null {size : Nat} (hs : Reachable plat (Session.Plain plat) s)
    (hop : s.Plain plat (.pcalloc thread pool size)) (halign : sprAlignAllocation size ≠ 0)
    (hrun : pcallocNoted plat thread pool size s.world = .ok 0 w') :
    heldBlocks w'.log = heldBlocks s.world.log ∧ w'.errno = enomem := by
  obtain ⟨fs, hinv⟩ := reachable_inv hs
  cases hpalloc : sprPalloc plat thread pool size s.world with
  | error e w₁ => simp [pcallocNoted, sprPcalloc, hpalloc] at hrun
  | ok r w₁ =>
    obtain ⟨hheld, -⟩ := hinv.palloc_keeps hop.1 hop.2.1.1 hop.2.1.2 hpalloc
    by_cases hr : r = 0
    · subst hr
      obtain rfl : w₁ = w' := by simpa [pcallocNoted, sprPcalloc, hpalloc, handOut] using hrun
      exact ⟨hheld, hinv.palloc_errno hop.1 hop.2.1.1 halign hpalloc⟩
    · simp [pcallocNoted, sprPcalloc, hpalloc, hr] at hrun

/-- **`spr_list_create1`**: an empty list in a block of its own, or an `errno`. -/
theorem create_leaves (hs : Reachable plat (Session.Plain plat) s)
    (hop : s.Plain plat (.pcalloc thread pool sizeofList))
    (hrun : sprListCreate1At plat thread pool s.world = .ok (rc, list) w') :
    (rc = sprOk ∧ Leaves plat s list [] [] w') ∨
      (rc ≠ sprOk ∧ Reachable plat (Session.Plain plat) ⟨w', s.family⟩ ∧
        KeepsBlocks s.world w' ∧ heldBlocks w'.log = heldBlocks s.world.log) := by
  obtain ⟨fs, hinv⟩ := reachable_inv hs
  rw [sprListCreate1At] at hrun
  obtain ⟨r, w₁, hpcalloc, hrun⟩ := bind_ok hrun
  have hreach : Reachable plat (Session.Plain plat) ⟨w₁, s.family⟩ :=
    .step s _ _ hs hop (exec_pcalloc hpcalloc)
  obtain ⟨hkeeps, hnew⟩ := hinv.pcalloc_keeps hop hpcalloc
  by_cases hr : r = 0
  · subst hr
    obtain ⟨hsame, herrno⟩ := pcallocNoted_null hs hop (by decide) hpcalloc
    obtain ⟨⟨rfl, -⟩, rfl⟩ : (w₁.errno = rc ∧ 0 = list) ∧ w₁ = w' := by
      simpa [sprGetErrno] using hrun
    refine Or.inr ⟨?_, hreach, hkeeps, hsame⟩
    rw [herrno]
    decide
  · obtain ⟨hheld, hzero⟩ := hnew hr
    obtain ⟨⟨rfl, rfl⟩, rfl⟩ : (sprOk = rc ∧ r = list) ∧ w₁.store r pool = w' := by
      simpa [hr] using hrun
    obtain ⟨fs', hinv'⟩ := reachable_inv hreach
    have hb : ⟨pool, r, sizeofList⟩ ∈ heldBlocks w₁.log := by
      rw [hheld]
      exact List.mem_cons_self
    have hlong := (sprAlignAllocation_bounds (hinv'.blocks.size _ hb)).1
    have hal := hinv'.blocks.aligned _ hb
    have hcovers : Span.Covers (Block.span ⟨pool, r, sizeofList⟩) r := by
      simp only [Span.Covers, Block.span, sizeofList] at hlong ⊢
      omega
    have hwords : ∀ j, 0 < j → j + 8 ≤ sizeofList → (w₁.store r pool).mem (r + j) = 0 := by
      intro j hpos hj
      rw [store_mem, Function.update_of_ne (by omega), hzero _ (by omega) (by omega)]
    have hwf : WellFormed (listAt (w₁.store r pool) r) [] [] :=
      ⟨hwords 8 (by decide) (by decide), hwords 16 (by decide) (by decide),
        hwords 32 (by decide) (by decide), hwords 24 (by decide) (by decide),
        hwords 40 (by decide) (by decide), fun _ h => (List.not_mem_nil h).elim⟩
    have hone : handedSince s.world (w₁.store r pool) = [⟨pool, r, sizeofList⟩] :=
      handedSince_cons hheld
    refine Or.inl ⟨rfl, ⟨.step _ _ (.write r pool) hreach ⟨⟨hal, _, hb, hcovers⟩, trivial, trivial,
      fun h => h.elim⟩ rfl, ?_, by rw [hone]; exact hheld, fun b hb' _ a ha => ?_⟩⟩
    · rw [hone]
      refine ⟨fun b hb' => ?_, [], [], [], ⟨⟨_, List.mem_cons_self, Nat.le_refl _,
          Nat.add_le_add_left hlong r⟩,
        fun x hx => (List.not_mem_nil hx).elim, ⟨hal, fun x hx => (List.not_mem_nil hx).elim⟩,
        fun x hx => (List.not_mem_nil hx).elim, fun x hx => (List.not_mem_nil hx).elim⟩,
        hwf, fun x hx => hx, fun x hx => hx, rfl⟩
      · rw [List.mem_append, List.mem_singleton] at hb'
        rcases hb' with rfl | hb'
        · exact hb
        · cases hb'
    · have hapart := (handed_new hinv' hheld hb').2
      rw [store_mem, Function.update_of_ne, hkeeps b hb' a ha]
      rintro rfl
      exact hapart.not_covers hcovers ha

end Allocs

/-! ## Section 6: Removals -/

/-- What `spr_list_remove` leaves of the elements: it looks at the first one, then at the last
    one, and then at the others from the front. -/
def dropData (d : Nat) (ds : List Nat) : List Nat :=
  if ds.head? ≠ some d ∧ ds.getLast? = some d then ds.dropLast else ds.erase d

/-- The linked nodes, as the memory has them. -/
def linkedAt (w : World) (list : Nat) : List Nat :=
  walk w.mem 0 addressSpace (w.mem (listHead list))

section Drop

variable {m : ListMem} {s f : List Nat} {fuel data : Nat}

theorem dropData_head (ds : List Nat) : dropData data (data :: ds) = ds := by
  simp [dropData]

theorem dropData_last {x : Nat} {ds : List Nat} (hx : x ≠ data) :
    dropData data (x :: ds ++ [data]) = x :: ds := by
  rw [dropData, if_pos ⟨by simp [hx], List.getLast?_concat⟩, List.dropLast_concat]

theorem dropData_inner {y : Nat} {us vs : List Nat} (hus : data ∉ us) (hy : y ≠ data) :
    dropData data (us ++ data :: (vs ++ [y])) = us ++ (vs ++ [y]) := by
  have hlast : (us ++ data :: (vs ++ [y])).getLast? ≠ some data := by
    rw [← List.cons_append, ← List.append_assoc, List.getLast?_concat]
    simpa using hy
  rw [dropData, if_neg fun hboth => hlast hboth.2, List.erase_append_right _ hus,
    List.erase_cons_head]

/-- **Which of several equal elements is removed.** -/
theorem remove_drops (hwf : WellFormed m s f) (hdata : data ∈ s.map (dataOf m))
    (hlen : 2 ≤ s.length) (hfuel : s.length ≤ fuel) :
    ∃ a ∈ s, ∃ m', Removes (sprListRemove fuel m data) m s f a m' ∧
      (s.erase a).map (dataOf m) = dropData data (s.map (dataOf m)) := by
  have htest := hasData_linked hwf data
  obtain ⟨h, mid, t, rfl⟩ : ∃ h mid t, s = h :: (mid ++ [t]) := by
    cases s with
    | nil => simp at hlen
    | cons h rest =>
      have hrest : rest ≠ [] := by rintro rfl; simp at hlen
      exact ⟨h, _, _, by rw [List.dropLast_concat_getLast hrest]⟩
  have hth := htest h List.mem_cons_self
  have htt := htest t (by simp)
  by_cases hh : dataOf m h = data
  · -- the first one
    rw [hh, beq_self_eq_true] at hth
    obtain ⟨b, r, hbr⟩ : ∃ b r, mid ++ [t] = b :: r := List.exists_cons_of_ne_nil (by simp)
    rw [hbr] at hwf ⊢
    obtain ⟨m', hm'⟩ : ∃ m', Removes (removeWith (hasData data) fuel m) m _ f h m' :=
      removeWith_head hwf hth
    refine ⟨h, List.mem_cons_self, m', hm', ?_⟩
    rw [List.erase_cons_head, List.map_cons (a := h), hh, dropData_head]
  rw [beq_eq_false_iff_ne.mpr hh] at hth
  by_cases ht : dataOf m t = data
  · -- the last one
    rw [ht, beq_self_eq_true] at htt
    have hhead : hasData data m m.list.head = .ok false := by rwa [chain_head hwf.forward]
    obtain ⟨l, b, hlb⟩ : ∃ l b, h :: mid = l ++ [b] :=
      ⟨_, _, (List.dropLast_concat_getLast (List.cons_ne_nil _ _)).symm⟩
    have hs : h :: (mid ++ [t]) = l ++ [b, t] := by
      rw [← List.cons_append, hlb, List.append_assoc]
      rfl
    have hwf' := hwf
    rw [hs] at hwf'
    obtain ⟨m', hm'⟩ : ∃ m', Removes (removeWith (hasData data) fuel m) m _ f t m' :=
      removeWith_tail hwf' hhead htt
    rw [← hs] at hm'
    refine ⟨t, by simp, m', hm', ?_⟩
    have hnd := chain_nodup hwf.forward
    rw [← List.cons_append] at hnd ⊢
    rw [erase_middle hnd, List.append_nil, List.map_append, List.map_singleton, ht, List.map_cons,
      dropData_last hh]
  · -- one in between
    rw [beq_eq_false_iff_ne.mpr ht] at htt
    obtain ⟨x, hx, hdx⟩ := List.mem_map.mp hdata
    have hxmid : x ∈ mid := by
      rcases List.mem_cons.mp hx with rfl | hx
      · exact absurd hdx hh
      · rcases List.mem_append.mp hx with hx | hx
        · exact hx
        · exact absurd (List.mem_singleton.mp hx ▸ hdx) ht
    obtain ⟨a, hfind⟩ := Option.isSome_iff_exists.mp (List.find?_isSome (p := fun y =>
      dataOf m y == data).mpr ⟨x, hxmid, by simp [hdx]⟩)
    obtain ⟨ha, u, v, rfl, hu⟩ := List.find?_eq_some_iff_append.mp hfind
    have hta : hasData data m a = .ok true := by rw [htest a (by simp), ha]
    have hu' : ∀ y ∈ u, dataOf m y ≠ data := fun y hy => by simpa using hu y hy
    have htu : ∀ y ∈ u, hasData data m y = .ok false := fun y hy => by
      rw [htest y (by simp [hy]), beq_eq_false_iff_ne.mpr (hu' y hy)]
    have hnd := chain_nodup hwf.forward
    rw [List.append_assoc, List.cons_append] at hwf hnd ⊢
    obtain ⟨m', hm'⟩ := removeWith_inner hwf hth htt htu hta
      (show u.length < fuel by simp at hfuel; omega)
    refine ⟨a, by simp, m', hm', ?_⟩
    have hout : data ∉ (h :: u).map (dataOf m) := by
      intro hmem
      obtain ⟨y, hy, hyd⟩ := List.mem_map.mp hmem
      rcases List.mem_cons.mp hy with rfl | hy
      · exact hh hyd
      · exact hu' y hy hyd
    rw [← List.cons_append] at hnd ⊢
    rw [erase_middle hnd]
    simp only [List.map_append, List.map_cons (a := a), List.map_singleton,
      show dataOf m a = data from by simpa using ha]
    exact (dropData_inner hout ht).symm

end Drop

section Removals

variable {plat : Platform} {s : Session} {l : Owned} {fuel : Nat}

/-- The linked nodes carry the elements. -/
theorem ListIn.walked {w : World} {list : Nat} {nodes sl f ds : List Nat}
    (h : ListIn (listAt w list) nodes sl f ds) (hlen : sl.length ≤ wordMod) :
    linkedAt w list = sl := walk_of_chain h.wellFormed.forward hlen

/-- **A removal**, as the model has it. -/
theorem removal_leaves {testAt : Nat → Act Bool} {test : ListMem → Nat → Except Stop Bool}
    {nodes sl f sl' f' ds ds' : List Nat} {m' : ListMem} {rc : Int} {list : Nat} {bs : List Block}
    (hs : Reachable plat (Session.Plain plat) s) (hplaced : Placed list bs nodes)
    (hheld : ∀ b ∈ bs, b ∈ heldBlocks s.world.log)
    (hin : ListIn (listAt s.world list) nodes sl f ds) (htest : TestSim list nodes testAt test)
    (hrun : removeWith test fuel (listAt s.world list) = .ok (rc, m'))
    (hin' : ListIn m' nodes sl' f' ds') :
    ∃ w', removeAt testAt fuel list s.world = .ok rc w' ∧ Leaves plat s list bs ds' w' := by
  obtain ⟨fs, hinv⟩ := reachable_inv hs
  have hcount := hplaced.count (fun b hb => (held_end hinv (hheld b hb)).2) hin
  have hsize := hin.wellFormed.size
  have hcap := hin.wellFormed.capacity
  simp only [sizeofListNode, wordMod_eq] at hcount
  have hsim := removeWith_sim hplaced.layout htest hin.wellFormed hin.linked
    (by rw [wordMod_eq]; omega) (by rw [wordMod_eq]; omega) hrun
  obtain ⟨w', hrun', -, hleaves⟩ := sim_leaves hs hplaced hheld shows_listAt hsim hin'
  exact ⟨w', hrun', hleaves⟩

/-- What is left of the list once a node has been taken out. -/
theorem ListIn.removed {nodes sl f ds : List Nat} {m m' : ListMem} {a : Nat}
    {res : Except Stop (Int × ListMem)} (h : ListIn m nodes sl f ds) (ha : a ∈ sl)
    (hr : Removes res m sl f a m') :
    ListIn m' nodes (sl.erase a) (a :: f) ((sl.erase a).map (dataOf m)) := by
  obtain ⟨-, hwf, hdata⟩ := hr
  refine ⟨hwf, fun x hx => h.linked (List.mem_of_mem_erase hx), fun x hx => ?_, by rw [hdata]⟩
  rcases List.mem_cons.mp hx with rfl | hx
  · exact h.linked ha
  · exact h.free hx

/-- **`spr_list_remove1`** takes out the node, if it is linked and not the only one. -/
theorem remove1_leaves (hs : Reachable plat (Session.Plain plat) s) (hl : l.Holds s.world)
    (hfuel : l.elems.length ≤ fuel) {node : Nat}
    (hlen : if node ∈ linkedAt s.world l.list then 2 ≤ l.elems.length else 3 ≤ l.elems.length) :
    ∃ w', sprListRemove1At fuel l.list node s.world
        = .ok (if node ∈ linkedAt s.world l.list then sprOk else sprNotFound) w' ∧
      Leaves plat s l.list l.blocks
        (l.elems.eraseIdx ((linkedAt s.world l.list).idxOf node)) w' := by
  obtain ⟨hheld, nodes, sl, f, hplaced, hin⟩ := hl
  obtain ⟨fs, hinv⟩ := reachable_inv hs
  have hcount := hplaced.count (fun b hb => (held_end hinv (hheld b hb)).2) hin
  have hlinked : linkedAt s.world l.list = sl :=
    hin.walked (by simp only [sizeofListNode] at hcount; omega)
  have hlength : l.elems.length = sl.length := by rw [← hin.data, List.length_map]
  rw [hlinked] at hlen ⊢
  rw [hlength] at hfuel hlen
  have hwf := hin.wellFormed
  by_cases hnode : node ∈ sl
  · rw [if_pos hnode] at hlen ⊢
    have htest : ∀ x ∈ sl, isNode node (listAt s.world l.list) x = .ok (x == node) :=
      fun _ _ => rfl
    obtain ⟨a, ha, hpa, m', hm'⟩ := removeWith_spec hwf htest
      ⟨node, hnode, beq_self_eq_true node⟩ hlen hfuel
    obtain rfl : a = node := by simpa using hpa
    have hin' := hin.removed ha hm'
    rw [← List.eraseIdx_idxOf_eq_erase, ← List.eraseIdx_map, hin.data] at hin'
    rw [List.eraseIdx_idxOf_eq_erase] at hin'
    exact removal_leaves hs hplaced hheld hin (isNode_sim a) hm'.1 hin'
  · rw [if_neg hnode] at hlen ⊢
    have habsent := removeWith_absent hwf (isNode_false hnode) (isNode_null node _) hfuel
    rw [if_pos hlen] at habsent
    rw [List.idxOf_eq_length hnode, List.eraseIdx_of_length_le (by omega)]
    exact removal_leaves hs hplaced hheld hin (isNode_sim node) habsent hin

/-- **`spr_list_remove`** takes out an element with the data, if there is one and it is not the
    only one. -/
theorem remove_leaves (hs : Reachable plat (Session.Plain plat) s) (hl : l.Holds s.world)
    (hfuel : l.elems.length ≤ fuel) {data : Nat}
    (hlen : if data ∈ l.elems then 2 ≤ l.elems.length else 3 ≤ l.elems.length) :
    ∃ w', sprListRemoveAt fuel l.list data s.world
        = .ok (if data ∈ l.elems then sprOk else sprNotFound) w' ∧
      Leaves plat s l.list l.blocks (dropData data l.elems) w' := by
  obtain ⟨hheld, nodes, sl, f, hplaced, hin⟩ := hl
  have hlength : l.elems.length = sl.length := by rw [← hin.data, List.length_map]
  rw [hlength] at hfuel hlen
  have hwf := hin.wellFormed
  by_cases hdata : data ∈ l.elems
  · rw [if_pos hdata] at hlen ⊢
    obtain ⟨a, ha, m', hm', hdrop⟩ := remove_drops hwf (by rwa [hin.data]) hlen hfuel
    have hin' := hin.removed ha hm'
    rw [hdrop, hin.data] at hin'
    exact removal_leaves hs hplaced hheld hin (hasData_sim data) hm'.1 hin'
  · rw [if_neg hdata] at hlen ⊢
    have habsent := removeWith_absent hwf (hasData_false hwf (by rwa [hin.data]))
      (hasData_null data _) hfuel
    rw [if_pos hlen] at habsent
    have hlast : l.elems.getLast? ≠ some data := fun h => hdata (List.mem_of_getLast? h)
    rw [dropData, if_neg fun hboth => hlast hboth.2, List.erase_of_not_mem hdata]
    exact removal_leaves hs hplaced hheld hin (hasData_sim data) habsent hin

end Removals

end Spr.LinkedList
