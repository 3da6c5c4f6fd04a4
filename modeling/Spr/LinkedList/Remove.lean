import Spr.LinkedList.Deque

/-! # Removals from a well-formed list

    * `unlinkHead_spec`, `unlinkTail_spec`, `unlinkInner_spec`: the three ways
      a node is taken out.
    * `removeSearch_finds`: the loop that looks for an inner node.
    * `removeWith_spec`: both removals, on a list of two nodes or more.
    * `remove_iff`: when a removal is right.

    The node that is head and tail at once is taken out as the head, and
    `list->tail` keeps pointing at it. -/

namespace Spr.LinkedList

open Spr.Chains

/-! ## Section 1: Taking a node out -/

theorem deref_ok {m : ListMem} {a : Nat} (ha : a ≠ 0) : m.deref a = .ok (m.heap a) := if_neg ha

@[simp] theorem ok_bind {α β : Type} (x : α) (k : α → Except Stop β) :
    ((Except.ok x : Except Stop α) >>= k) = k x := rfl

/-- The head goes when another node follows it. -/
theorem unlinkHead_spec {m : ListMem} {a b : Nat} {t f : List Nat}
    (hwf : WellFormed m (a :: b :: t) f) :
    ∃ m', unlinkHead m = .ok (a, m') ∧ WellFormed m' (b :: t) f ∧ dataOf m' = dataOf m := by
  have hhead : m.list.head = a := chain_head hwf.forward
  have ha : a ≠ 0 := chain_ne_null hwf.forward a List.mem_cons_self
  have hforw : Chain (nextOf m) 0 (nextOf m a) (b :: t) := hwf.forward.2.2
  have hnext : (m.heap a).next = b := chain_head hforw
  have hb : b ≠ 0 := chain_ne_null hforw b List.mem_cons_self
  refine ⟨(m.setPrev b 0).setList { m.list with head := nextOf m a, size := m.list.size - 1 },
    ?_, ⟨by simpa using hforw, ?_, ?_, ?_, hwf.capacity, ?_⟩, ?_⟩
  · simp [unlinkHead, hhead, deref_ok ha, hnext, hb, nextOf_setPrev]
  · have hback := hwf.backward
    simp only [List.reverse_cons, List.append_assoc, List.cons_append, List.nil_append] at hback
    simpa using chain_cut hback
  · simp [hwf.size]
  · simpa using hwf.free
  · exact fun c hc => hwf.disjoint c (List.mem_cons_of_mem _ hc)
  · simp

/-- The tail goes when another node comes before it. -/
theorem unlinkTail_spec {m : ListMem} {a b : Nat} {t f : List Nat}
    (hwf : WellFormed m (t ++ [b, a]) f) :
    ∃ m', unlinkTail m = .ok (a, m') ∧ WellFormed m' (t ++ [b]) f ∧ dataOf m' = dataOf m := by
  have hback := hwf.backward
  simp only [List.reverse_append, List.reverse_cons, List.reverse_nil, List.nil_append,
    List.cons_append] at hback
  have htail : m.list.tail = a := chain_head hback
  have ha : a ≠ 0 := chain_ne_null hwf.forward a (by simp)
  have hb : b ≠ 0 := chain_ne_null hwf.forward b (by simp)
  have hrest : Chain (prevOf m) 0 (prevOf m a) (b :: t.reverse) := hback.2.2
  have hprev : (m.heap a).prev = b := chain_head hrest
  refine ⟨(m.setNext b 0).setList { m.list with tail := prevOf m a, size := m.list.size - 1 },
    ?_, ⟨?_, ?_, ?_, ?_, hwf.capacity, ?_⟩, ?_⟩
  · simp [unlinkTail, htail, deref_ok ha, hprev, hb]
  · simpa using chain_cut hwf.forward
  · simpa using hrest
  · simp [hwf.size]
  · simpa using chain_update_of_notMem (hwf.disjoint b (by simp)) hwf.free
  · exact fun c hc => hwf.disjoint c (by
      rcases List.mem_append.mp hc with hc | hc
      · exact List.mem_append_left _ hc
      · simp [List.mem_singleton.mp hc])
  · simp

/-- An inner node goes. -/
theorem unlinkInner_spec {m : ListMem} {a b c : Nat} {l r f : List Nat}
    (hwf : WellFormed m (l ++ b :: a :: c :: r) f) :
    ∃ m', unlinkInner a m = .ok (a, m') ∧ WellFormed m' (l ++ b :: c :: r) f ∧
      dataOf m' = dataOf m := by
  have hback := hwf.backward
  simp only [List.reverse_append, List.reverse_cons, List.append_assoc, List.cons_append,
    List.nil_append] at hback
  have ha : a ≠ 0 := chain_ne_null hwf.forward a (by simp)
  have hb : b ≠ 0 := chain_ne_null hwf.forward b (by simp)
  have hc : c ≠ 0 := chain_ne_null hwf.forward c (by simp)
  obtain ⟨-, -, -, -, hforwb⟩ := chain_append.mp hwf.forward
  obtain ⟨-, -, -, -, hbackc⟩ := chain_append.mp hback
  -- the neighbours are read before the two stores
  have hnext : (m.heap a).next = c := chain_head hforwb.2.2
  have hprev : (m.heap a).prev = b := chain_head hbackc.2.2
  have hnext' : ((m.setPrev c b).heap a).next = c :=
    (congrFun (nextOf_setPrev m c b) a).trans hnext
  have hprev' : ((m.setPrev c b).heap a).prev = b := by
    have hac : a ≠ c := by
      intro h
      have hnd := (List.nodup_append.mp (chain_nodup hwf.forward)).2.1
      simp [h] at hnd
    have := congrFun (prevOf_setPrev m c b) a
    rw [Function.update_of_ne hac] at this
    exact this.trans hprev
  refine ⟨((m.setPrev c b).setNext b c).setList { m.list with size := m.list.size - 1 },
    ?_, ⟨?_, ?_, ?_, ?_, hwf.capacity, ?_⟩, ?_⟩
  · simp [unlinkInner, deref_ok ha, hnext, deref_ok hc, hprev, hnext', hprev', deref_ok hb]
  · have := chain_unlink hwf.forward
    rw [show nextOf m a = c from hnext] at this
    simpa using this
  · have := chain_unlink hback
    rw [show prevOf m a = b from hprev] at this
    simpa using this
  · simp [hwf.size]
  · simpa using chain_update_of_notMem (hwf.disjoint b (by simp)) hwf.free
  · exact fun x hx => hwf.disjoint x (by
      simp only [List.mem_append, List.mem_cons] at hx ⊢
      tauto)
  · simp

/-- The node taken out becomes the first free one. -/
theorem recycle_wellFormed {m : ListMem} {t f : List Nat} {a : Nat} (hwf : WellFormed m t f)
    (ha : a ≠ 0) (hat : a ∉ t) (haf : a ∉ f) : WellFormed (recycle a m) t (a :: f) := by
  refine ⟨?_, ?_, hwf.size, ?_, ?_, ?_⟩
  · simpa [recycle] using chain_update_of_notMem hat hwf.forward
  · simpa [recycle] using hwf.backward
  · simpa [recycle] using chain_push ha haf hwf.free
  · simp [recycle, hwf.capacity]
  · intro b hb
    rw [List.mem_cons, not_or]
    exact ⟨ne_of_mem_of_not_mem hb hat, hwf.disjoint b hb⟩

@[simp] theorem recycle_data (a : Nat) (m : ListMem) : dataOf (recycle a m) = dataOf m := by
  simp [recycle]

/-! ## Section 2: The search -/

/-- The loop comes to the first node that passes the test, if that comes before
    the tail. -/
theorem removeSearch_finds {test : ListMem → Nat → Except Stop Bool} {m : ListMem} {a : Nat}
    (ha : test m a = .ok true) (hlast : a ≠ m.list.tail) :
    ∀ {u v : List Nat} {p fuel : Nat}, Chain (nextOf m) 0 p (u ++ a :: v) →
      (∀ x ∈ u, test m x = .ok false) → m.list.tail ∉ u → u.length < fuel →
        removeSearch test m fuel p = .ok (some a) := by
  intro u
  induction u with
  | nil =>
    intro v p fuel hchain _ _ hfuel
    obtain ⟨fuel, rfl⟩ : ∃ k, fuel = k + 1 := ⟨fuel - 1, by simp at hfuel; omega⟩
    have hp : p = a := chain_head hchain
    simp [removeSearch, hp, ha]
  | cons x u ih =>
    intro v p fuel hchain hfalse htail hfuel
    obtain ⟨fuel, rfl⟩ : ∃ k, fuel = k + 1 := ⟨fuel - 1, by simp at hfuel; omega⟩
    obtain ⟨rfl, hne, hrest⟩ := hchain
    have hstop : (m.heap p).next ≠ m.list.tail := by
      cases u with
      | nil => rw [show (m.heap p).next = a from chain_head hrest]; exact hlast
      | cons y u =>
        rw [show (m.heap p).next = y from chain_head hrest]
        rintro rfl
        simp at htail
    rw [removeSearch, hfalse p List.mem_cons_self, ok_bind, if_neg (by decide), deref_ok hne,
      ok_bind, if_neg hstop]
    exact ih hrest (fun y hy => hfalse y (List.mem_cons_of_mem _ hy))
      (fun h => htail (List.mem_cons_of_mem _ h)) (by simpa using hfuel)

/-! ## Section 3: Both removals -/

/-- What a removal of the node `a` owes: `SPR_OK`, and the list without `a`. -/
def Removes (res : Except Stop (Int × ListMem)) (m : ListMem) (s f : List Nat) (a : Nat)
    (m' : ListMem) : Prop :=
  res = .ok (sprOk, m') ∧ WellFormed m' (s.erase a) (a :: f) ∧ dataOf m' = dataOf m

/-- Unlinking and recycling `a` removes it. -/
theorem removes_of_unlinked {m m₁ : ListMem} {s t f : List Nat} {a : Nat}
    {res : Except Stop (Int × ListMem)} (hwf : WellFormed m s f) (ha : a ∈ s)
    (herase : s.erase a = t) (hm₁ : WellFormed m₁ t f) (hdata : dataOf m₁ = dataOf m)
    (hres : res = .ok (sprOk, recycle a m₁)) : Removes res m s f a (recycle a m₁) := by
  have hnotin : a ∉ t := by
    rw [← herase]
    exact (chain_nodup hwf.forward).not_mem_erase
  refine ⟨hres, ?_, by rw [recycle_data, hdata]⟩
  rw [herase]
  exact recycle_wellFormed hm₁ (chain_ne_null hwf.forward a ha) hnotin (hwf.disjoint a ha)

theorem erase_middle {l r : List Nat} {a : Nat} (hnd : (l ++ a :: r).Nodup) :
    (l ++ a :: r).erase a = l ++ r := by
  have hout : a ∉ l := fun hmem =>
    (List.nodup_append.mp hnd).2.2 a hmem a List.mem_cons_self rfl
  rw [List.erase_append_right _ hout, List.erase_cons_head]

theorem WellFormed.tail_eq {m : ListMem} {l f : List Nat} {t : Nat}
    (hwf : WellFormed m (l ++ [t]) f) : m.list.tail = t := by
  have hback := hwf.backward
  rw [List.reverse_append] at hback
  exact chain_head hback

section

variable {test : ListMem → Nat → Except Stop Bool} {m : ListMem} {f : List Nat} {fuel : Nat}

theorem removeWith_head {h b : Nat} {r : List Nat} (hwf : WellFormed m (h :: b :: r) f)
    (hh : test m h = .ok true) :
    ∃ m', Removes (removeWith test fuel m) m (h :: b :: r) f h m' := by
  have hhead : m.list.head = h := chain_head hwf.forward
  obtain ⟨m₁, hrun, hm₁, hdata⟩ := unlinkHead_spec hwf
  refine ⟨_, removes_of_unlinked hwf List.mem_cons_self (List.erase_cons_head _ _) hm₁ hdata ?_⟩
  simp [removeWith, hhead, hh, hrun]

theorem removeWith_tail {l : List Nat} {b t : Nat} (hwf : WellFormed m (l ++ [b, t]) f)
    (hh : test m m.list.head = .ok false) (ht : test m t = .ok true) :
    ∃ m', Removes (removeWith test fuel m) m (l ++ [b, t]) f t m' := by
  have hsplit : l ++ [b, t] = (l ++ [b]) ++ [t] := by simp
  have htail : m.list.tail = t := by
    rw [hsplit] at hwf
    exact hwf.tail_eq
  obtain ⟨m₁, hrun, hm₁, hdata⟩ := unlinkTail_spec hwf
  have herase : (l ++ [b, t]).erase t = l ++ [b] := by
    have hnd := chain_nodup hwf.forward
    rw [hsplit] at hnd ⊢
    rw [erase_middle hnd, List.append_nil]
  refine ⟨_, removes_of_unlinked hwf (by simp) herase hm₁ hdata ?_⟩
  simp [removeWith, htail, hh, ht, hrun]

theorem removeWith_inner {h a t : Nat} {u v : List Nat}
    (hwf : WellFormed m (h :: (u ++ a :: (v ++ [t]))) f) (hh : test m h = .ok false)
    (ht : test m t = .ok false) (hu : ∀ x ∈ u, test m x = .ok false) (ha : test m a = .ok true)
    (hfuel : u.length < fuel) :
    ∃ m', Removes (removeWith test fuel m) m (h :: (u ++ a :: (v ++ [t]))) f a m' := by
  have hnd := chain_nodup hwf.forward
  have hhead : m.list.head = h := chain_head hwf.forward
  have htail : m.list.tail = t := by
    rw [show h :: (u ++ a :: (v ++ [t])) = (h :: (u ++ a :: v)) ++ [t] by simp] at hwf
    exact hwf.tail_eq
  have hh0 : h ≠ 0 := chain_ne_null hwf.forward h List.mem_cons_self
  have hinner : t ∉ u ∧ t ≠ a := by
    have hnd' := (List.nodup_cons.mp hnd).2
    refine ⟨fun hmem => (List.nodup_append.mp hnd').2.2 t hmem t (by simp) rfl, ?_⟩
    rintro rfl
    have := (List.nodup_append.mp hnd').2.1
    simp at this
  have hsearch : removeSearch test m fuel (m.heap h).next = .ok (some a) := by
    have hchain : Chain (nextOf m) 0 (nextOf m h) (u ++ a :: (v ++ [t])) := hwf.forward.2.2
    exact removeSearch_finds ha (by rw [htail]; exact hinner.2.symm) hchain hu
      (by rw [htail]; exact hinner.1) hfuel
  -- the neighbours that are linked to each other
  obtain ⟨l, b, hlb⟩ : ∃ l b, h :: u = l ++ [b] :=
    ⟨_, _, (List.dropLast_concat_getLast (List.cons_ne_nil _ _)).symm⟩
  obtain ⟨c, r, hcr⟩ : ∃ c r, v ++ [t] = c :: r := List.exists_cons_of_ne_nil (by simp)
  have hs : h :: (u ++ a :: (v ++ [t])) = (h :: u) ++ a :: (v ++ [t]) := rfl
  rw [hs, hlb, hcr] at hwf hnd ⊢
  have hs' : l ++ [b] ++ a :: c :: r = l ++ b :: a :: c :: r := by simp
  obtain ⟨m₁, hrun, hm₁, hdata⟩ := unlinkInner_spec (by rwa [hs'] at hwf)
  have herase : (l ++ [b] ++ a :: c :: r).erase a = l ++ b :: c :: r := by
    rw [erase_middle hnd]
    simp
  refine ⟨_, removes_of_unlinked hwf (by simp) herase hm₁ hdata ?_⟩
  simp [removeWith, hhead, htail, hh, ht, deref_ok hh0, hsearch, hrun]

end

/-- **A removal takes out one node that passes the test**, when at least two are
    linked. -/
theorem removeWith_spec {test : ListMem → Nat → Except Stop Bool} {p : Nat → Bool} {m : ListMem}
    {s f : List Nat} {fuel : Nat} (hwf : WellFormed m s f) (htest : ∀ x ∈ s, test m x = .ok (p x))
    (hsome : ∃ x ∈ s, p x = true) (hlen : 2 ≤ s.length) (hfuel : s.length ≤ fuel) :
    ∃ a ∈ s, p a = true ∧ ∃ m', Removes (removeWith test fuel m) m s f a m' := by
  -- first node, inner nodes, last node
  obtain ⟨h, mid, t, rfl⟩ : ∃ h mid t, s = h :: (mid ++ [t]) := by
    cases s with
    | nil => simp at hlen
    | cons h rest =>
      have hrest : rest ≠ [] := by rintro rfl; simp at hlen
      exact ⟨h, _, _, by rw [List.dropLast_concat_getLast hrest]⟩
  have hth := htest h List.mem_cons_self
  have htt := htest t (by simp)
  by_cases hph : p h = true
  · rw [hph] at hth
    obtain ⟨b, r, hbr⟩ : ∃ b r, mid ++ [t] = b :: r := List.exists_cons_of_ne_nil (by simp)
    rw [hbr] at hwf ⊢
    exact ⟨h, List.mem_cons_self, hph, removeWith_head hwf hth⟩
  rw [Bool.not_eq_true] at hph
  rw [hph] at hth
  by_cases hpt : p t = true
  · rw [hpt] at htt
    have hhead : test m m.list.head = .ok false := by rwa [chain_head hwf.forward]
    obtain ⟨l, b, hlb⟩ : ∃ l b, h :: mid = l ++ [b] :=
      ⟨_, _, (List.dropLast_concat_getLast (List.cons_ne_nil _ _)).symm⟩
    have hs : h :: (mid ++ [t]) = l ++ [b, t] := by
      rw [← List.cons_append, hlb, List.append_assoc]; rfl
    rw [hs] at hwf ⊢
    exact ⟨t, by simp, hpt, removeWith_tail hwf hhead htt⟩
  · -- neither end passes the test, so an inner node does
    rw [Bool.not_eq_true] at hpt
    rw [hpt] at htt
    obtain ⟨x, hx, hpx⟩ := hsome
    have hxmid : x ∈ mid := by
      rcases List.mem_cons.mp hx with rfl | hx
      · simp [hph] at hpx
      · rcases List.mem_append.mp hx with hx | hx
        · exact hx
        · simp [List.mem_singleton.mp hx, hpt] at hpx
    obtain ⟨a, hfind⟩ := Option.isSome_iff_exists.mp (List.find?_isSome.mpr ⟨x, hxmid, hpx⟩)
    obtain ⟨hpa, u, v, rfl, hu⟩ := List.find?_eq_some_iff_append.mp hfind
    have hta : test m a = .ok true := by rw [htest a (by simp), hpa]
    have htu : ∀ x ∈ u, test m x = .ok false := fun x hx => by
      have hpx : p x = false := by simpa using hu x hx
      rw [htest x (by simp [hx]), hpx]
    rw [List.append_assoc, List.cons_append] at hwf ⊢
    exact ⟨a, by simp, hpa,
      removeWith_inner hwf hth htt htu hta (by simp at hfuel; omega)⟩

/-! ## Section 4: When a removal is right -/

/-- The removal of `a` is right: it returns `SPR_OK`, `a` moves from the list to
    the free chain, the counters follow, the other elements stay as they are,
    and the pushes that come after it find the deque without `a`. -/
def TakesOut (res : Except Stop (Int × ListMem)) (m : ListMem) (s f : List Nat) (a : Nat) :
    Prop :=
  ∃ m', Removes res m s f a m' ∧
    m'.list.size + 1 = m.list.size ∧ m'.list.capacity = m.list.capacity + 1 ∧
    ∀ ops, EachStep Fair m' ops →
      IsList (runOps m' ops) (runDeque m' ((s.erase a).map (dataOf m)) ops)

/-- On a list that is not empty every fair step is clean. -/
theorem clean_of_nonempty {m : ListMem} {ds : List Nat} (hm : IsList m ds) (hne : ds ≠ [])
    (op : ListOp) {ans : PallocAnswer} (hroom : Room m op ans) (hans : ans.Reported) :
    Clean m op ans := by
  obtain ⟨s, f, hwf, rfl⟩ := hm
  have hs : s ≠ [] := by rintro rfl; exact hne rfl
  refine ⟨hroom, ?_⟩
  by_cases hno : NoNode ans m
  · cases op with
    | pushBack d => exact Or.inl ⟨hno, hans hno.2⟩
    | pushFront d => exact Or.inl ⟨hno, hans hno.2⟩
    | reserve n => trivial
  · cases op with
    | pushBack d => exact Or.inr ⟨hno, Or.inl fun h => hs (hwf.tail_null_iff.mp h)⟩
    | pushFront d => exact Or.inr ⟨hno, Or.inl fun h => hs (hwf.head_null_iff.mp h)⟩
    | reserve n => trivial

/-- A run from a list that is not empty is a run of a deque. -/
theorem runOps_nonempty {ops : List (ListOp × PallocAnswer)} : ∀ {m : ListMem} {ds : List Nat},
    IsList m ds → ds ≠ [] → EachStep Fair m ops → IsList (runOps m ops) (runDeque m ds ops) := by
  induction ops with
  | nil => intro m ds hm _ _; exact hm
  | cons x ops ih =>
    intro m ds hm hne hfair
    obtain ⟨op, ans⟩ := x
    have hclean := clean_of_nonempty hm hne op hfair.1.2.1 hfair.1.2.2
    refine ih (run_step hm hfair.1.1 hclean) ?_ hfair.2
    split
    · cases op <;> simp [ListOp.onDeque, hne]
    · exact hne

/-- The list without one of its two or more nodes is not empty. -/
theorem takesOut_of_removes {res : Except Stop (Int × ListMem)} {m m' : ListMem} {s f : List Nat}
    {a : Nat} (hwf : WellFormed m s f) (ha : a ∈ s) (hlen : 2 ≤ s.length)
    (h : Removes res m s f a m') : TakesOut res m s f a := by
  obtain ⟨hres, hwf', hdata⟩ := h
  have hlen' : (s.erase a).length + 1 = s.length := by
    rw [List.length_erase_of_mem ha]; omega
  refine ⟨m', ⟨hres, hwf', hdata⟩, ?_, ?_, fun ops hfair => ?_⟩
  · rw [hwf'.size, hwf.size, hlen']
  · rw [hwf'.capacity, hwf.capacity, List.length_cons]
  · have hlist : IsList m' ((s.erase a).map (dataOf m)) := ⟨_, _, hwf', by rw [hdata]⟩
    refine runOps_nonempty hlist (fun hnil => ?_) hfair
    rw [List.map_eq_nil_iff] at hnil
    rw [hnil] at hlen'
    simp at hlen'
    omega

/-- The only node is taken out as the head. -/
theorem removeWith_single {test : ListMem → Nat → Except Stop Bool} {m : ListMem}
    {f : List Nat} {a : Nat} (fuel : Nat) (hwf : WellFormed m [a] f) (ha : test m a = .ok true) :
    removeWith test fuel m = .ok (sprOk,
      recycle a (m.setList { m.list with head := 0, size := m.list.size - 1 })) := by
  have hhead : m.list.head = a := chain_head hwf.forward
  have ha0 : a ≠ 0 := chain_ne_null hwf.forward a List.mem_cons_self
  have hnext : (m.heap a).next = 0 := hwf.forward.2.2
  simp [removeWith, hhead, ha, unlinkHead, deref_ok ha0, hnext, nextOf]

/-- The only node is taken out as the head, and the tail still points at it. -/
theorem not_takesOut_single {test : ListMem → Nat → Except Stop Bool} {m : ListMem}
    {f : List Nat} {a b fuel : Nat} (hwf : WellFormed m [a] f) (ha : test m a = .ok true) :
    ¬ TakesOut (removeWith test fuel m) m [a] f b := by
  rintro ⟨m', ⟨hres, hwf', -⟩, hsize, -⟩
  have htail : m.list.tail = a := WellFormed.tail_eq (l := []) hwf
  have ha0 : a ≠ 0 := chain_ne_null hwf.forward a List.mem_cons_self
  rw [removeWith_single _ hwf ha] at hres
  have hm' := (Prod.mk.inj (Except.ok.inj hres)).2
  have hnil : ([a] : List Nat).erase b = [] := by
    have hlen := hwf'.size
    rw [hwf.size] at hsize
    exact List.length_eq_zero_iff.mp (by simp at hsize; omega)
  rw [hnil] at hwf'
  have : m'.list.tail = 0 := hwf'.tail_null_iff.mpr rfl
  rw [← hm'] at this
  simp only [recycle, setList_list, setNext_list, htail] at this
  exact ha0 this

/-- The test of `spr_list_remove`, on the linked nodes. -/
theorem hasData_linked {m : ListMem} {s f : List Nat} (hwf : WellFormed m s f) (data : Nat) :
    ∀ y ∈ s, hasData data m y = .ok (dataOf m y == data) := by
  intro y hy
  have hy0 : y ≠ 0 := chain_ne_null hwf.forward y hy
  simp [hasData, deref_ok hy0, dataOf]

/-- **Removals are right exactly when two nodes or more are linked.** -/
theorem remove_iff (m : ListMem) (s f : List Nat) (hwf : WellFormed m s f) (hne : s ≠ [])
    (fuel : Nat) (hfuel : s.length ≤ fuel) :
    (∀ node ∈ s, TakesOut (sprListRemove1 fuel m node) m s f node ↔ 2 ≤ s.length) ∧
    (∀ data ∈ s.map (dataOf m),
      (∃ node ∈ s, dataOf m node = data ∧ TakesOut (sprListRemove fuel m data) m s f node) ↔
        2 ≤ s.length) := by
  have hsingle : ¬ 2 ≤ s.length → ∃ a, s = [a] := fun hlen => by
    have := List.length_pos_iff.mpr hne
    exact List.length_eq_one_iff.mp (by omega)
  refine ⟨fun node hnode => ⟨fun htakes => ?_, fun hlen => ?_⟩,
    fun data hdata => ⟨fun htakes => ?_, fun hlen => ?_⟩⟩
  · -- the only node stays linked from the tail
    by_contra hlen
    obtain ⟨a, rfl⟩ := hsingle hlen
    rw [List.mem_singleton] at hnode
    exact not_takesOut_single hwf (by simp [isNode, hnode]) htakes
  · have htest : ∀ y ∈ s, isNode node m y = .ok (y == node) := fun _ _ => rfl
    obtain ⟨a, ha, hpa, m', hm'⟩ := removeWith_spec hwf htest ⟨node, hnode, by simp⟩ hlen hfuel
    obtain rfl : a = node := by simpa using hpa
    exact takesOut_of_removes hwf ha hlen hm'
  · by_contra hlen
    obtain ⟨a, rfl⟩ := hsingle hlen
    obtain ⟨b, -, -, htakes⟩ := htakes
    have hda : dataOf m a = data := (List.mem_singleton.mp hdata).symm
    have htest := hasData_linked hwf data a List.mem_cons_self
    rw [hda, beq_self_eq_true] at htest
    exact not_takesOut_single hwf htest htakes
  · obtain ⟨x, hx, hdx⟩ := List.mem_map.mp hdata
    obtain ⟨a, ha, hpa, m', hm'⟩ :=
      removeWith_spec hwf (hasData_linked hwf data) ⟨x, hx, by simp [hdx]⟩ hlen hfuel
    exact ⟨a, ha, by simpa using hpa, takesOut_of_removes hwf ha hlen hm'⟩

/-! ### Two lists -/

/-- Two linked nodes. -/
def twoElements : ListMem where
  heap a := if a = 4096 then ⟨4120, 0, 7⟩ else ⟨0, 4096, 8⟩
  list := { pool := 1, head := 4096, tail := 4120, freeNodes := 0, size := 2, capacity := 0 }

/-- One linked node. -/
def oneElement : ListMem where
  heap _ := ⟨0, 0, 7⟩
  list := { pool := 1, head := 4096, tail := 4096, freeNodes := 0, size := 1, capacity := 0 }

/-- The first of two nodes is taken out. -/
theorem remove_iff_two :
    TakesOut (sprListRemove1 2 twoElements 4096) twoElements [4096, 4120] [] 4096 :=
  ((remove_iff twoElements [4096, 4120] []
    ⟨by simp [twoElements, nextOf], by simp [twoElements, prevOf], rfl, rfl, rfl, by simp⟩
    (by simp) 2 (by simp)).1 4096 (by simp)).mpr (by simp)

/-- **The only node is not taken out**, by either removal, and an element pushed
    afterwards cannot be reached from the head. -/
theorem remove_only_breaks :
    WellFormed oneElement [4096] [] ∧
    ¬ TakesOut (sprListRemove1 1 oneElement 4096) oneElement [4096] [] 4096 ∧
    ¬ TakesOut (sprListRemove 1 oneElement 7) oneElement [4096] [] 4096 ∧
    ∃ m', sprListRemove1 1 oneElement 4096 = .ok (sprOk, m') ∧
      (sprListPushBack ⟨0, 0, fun _ => ⟨0, 0, 0⟩, 12⟩ m' 8).2.list
        = { pool := 1, head := 0, tail := 4096, freeNodes := 0, size := 1, capacity := 0 } := by
  have hwf : WellFormed oneElement [4096] [] :=
    ⟨by simp [oneElement, nextOf], by simp [oneElement, prevOf], rfl, rfl, rfl, by simp⟩
  exact ⟨hwf, not_takesOut_single hwf rfl, not_takesOut_single hwf rfl, _, rfl, by decide⟩

end Spr.LinkedList
