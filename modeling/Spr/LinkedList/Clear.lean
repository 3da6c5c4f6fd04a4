import Spr.LinkedList.Remove

/-! # What is not in the list, and clearing it

    * `removeWith_absent`: both removals on what the list does not hold.
    * `remove_absent_iff`: when they answer `SPR_NOT_FOUND`.
    * `clearLoop_keeps`: what the loop of `spr_list_clear` never brings about.
    * `clear_iff`: when `spr_list_clear` clears the list.

    The search moves on before it looks for the tail, so it runs past the end of
    a list of one or two nodes.  `spr_list_clear` hands the node itself to
    `spr_list_remove`, which looks for a node that carries it as data. -/

namespace Spr.LinkedList

open Spr.Chains

/-! ## Section 1: The search for what is not there -/

theorem deref_null (m : ListMem) : m.deref 0 = .error .null := if_pos rfl

@[simp] theorem error_bind {α β : Type} (e : Stop) (k : α → Except Stop β) :
    ((Except.error e : Except Stop α) >>= k) = Except.error e := rfl

section

variable {test : ListMem → Nat → Except Stop Bool} {m : ListMem}

/-- The loop moves over the inner nodes and stops before the tail. -/
theorem removeSearch_misses {t : Nat} (htail : m.list.tail = t) :
    ∀ {u : List Nat} {p fuel : Nat}, u ≠ [] → Chain (nextOf m) 0 p (u ++ [t]) →
      (∀ x ∈ u, test m x = .ok false) → u.length ≤ fuel →
        removeSearch test m fuel p = .ok none := by
  intro u
  induction u with
  | nil => intro p fuel hne; exact absurd rfl hne
  | cons x u ih =>
    intro p fuel _ hchain hfalse hfuel
    obtain ⟨fuel, rfl⟩ : ∃ k, fuel = k + 1 := ⟨fuel - 1, by simp at hfuel; omega⟩
    have hnd := chain_nodup hchain
    obtain ⟨rfl, hne, hrest⟩ := hchain
    rw [removeSearch, hfalse p List.mem_cons_self, ok_bind, if_neg (by decide), deref_ok hne,
      ok_bind]
    cases u with
    | nil =>
      have hnext : (m.heap p).next = t := chain_head hrest
      rw [if_pos (by rw [hnext, htail])]
    | cons y u =>
      have hnext : (m.heap p).next = y := chain_head hrest
      have hyt : y ≠ t := by
        intro h
        simp [h] at hnd
      rw [if_neg (by rw [hnext, htail]; exact hyt)]
      apply ih (List.cons_ne_nil _ _) hrest
      · exact fun z hz => hfalse z (List.mem_cons_of_mem _ hz)
      · simpa using hfuel

/-- What either test says of `NULL`: nothing, or that it is or is not the node. -/
def TestsNull (test : ListMem → Nat → Except Stop Bool) (m : ListMem) : Prop :=
  test m 0 = .error .null ∨ ∃ b, test m 0 = .ok b

theorem isNode_null (node : Nat) (m : ListMem) : TestsNull (isNode node) m := Or.inr ⟨_, rfl⟩

theorem hasData_null (data : Nat) (m : ListMem) : TestsNull (hasData data) m :=
  Or.inl (by rw [hasData, deref_null, error_bind])

/-- A search that has come to `NULL` follows it, or takes it for the node. -/
theorem removeSearch_null (hnull : TestsNull test m) (fuel : Nat) :
    removeSearch test m (fuel + 1) 0 = .error .null ∨
    removeSearch test m (fuel + 1) 0 = .ok (some 0) := by
  rcases hnull with herr | ⟨b, hb⟩
  · left
    rw [removeSearch, herr, error_bind]
  · cases b with
    | true =>
      right
      rw [removeSearch, hb, ok_bind, if_pos rfl]
    | false =>
      left
      rw [removeSearch, hb, ok_bind, if_neg (by decide), deref_null, error_bind]

theorem unlinkInner_null (m : ListMem) : unlinkInner 0 m = .error .null := by
  rw [unlinkInner, deref_null, error_bind]

/-! ## Section 2: Removals of what is not there -/

/-- A removal that gets past both ends and whose search comes to `NULL`. -/
theorem removeWith_runs_past {h t fuel : Nat} (hhead : m.list.head = h) (htail : m.list.tail = t)
    (hne : h ≠ 0) (hh : test m h = .ok false) (ht : test m t = .ok false)
    (hsearch : removeSearch test m fuel (m.heap h).next = .error .null ∨
      removeSearch test m fuel (m.heap h).next = .ok (some 0)) :
    removeWith test fuel m = .error .null := by
  rcases hsearch with hs | hs <;>
    simp [removeWith, hhead, htail, hh, ht, deref_ok hne, hs, unlinkInner_null]

/-- **What is not in the list is missed from three nodes on**, and before that a
    `NULL` link is followed. -/
theorem removeWith_absent {s f : List Nat} {fuel : Nat} (hwf : WellFormed m s f)
    (hfalse : ∀ x ∈ s, test m x = .ok false) (hnull : TestsNull test m)
    (hfuel : s.length ≤ fuel) :
    removeWith test fuel m = if 3 ≤ s.length then .ok (sprNotFound, m) else .error .null := by
  -- the list by its length: none, one, two, or inner nodes between two ends
  match s with
  | [] =>
    have hhead : m.list.head = 0 := hwf.head_null_iff.mpr rfl
    have htail : m.list.tail = 0 := hwf.tail_null_iff.mpr rfl
    rcases hnull with herr | ⟨b, hb⟩
    · simp [removeWith, hhead, herr]
    · cases b <;> simp [removeWith, unlinkHead, hhead, htail, hb, deref_null]
  | [a] =>
    have hhead : m.list.head = a := chain_head hwf.forward
    have htail : m.list.tail = a := WellFormed.tail_eq (l := []) hwf
    have ha : test m a = .ok false := hfalse a (by simp)
    have hnext : (m.heap a).next = 0 := hwf.forward.2.2
    obtain ⟨fuel, rfl⟩ : ∃ k, fuel = k + 1 := ⟨fuel - 1, by simp at hfuel; omega⟩
    rw [if_neg (by simp)]
    apply removeWith_runs_past hhead htail (chain_ne_null hwf.forward a (by simp)) ha ha
    rw [hnext]
    exact removeSearch_null hnull fuel
  | [a, b] =>
    have hhead : m.list.head = a := chain_head hwf.forward
    have htail : m.list.tail = b := WellFormed.tail_eq (l := [a]) hwf
    have hb : test m b = .ok false := hfalse b (by simp)
    have hb0 : b ≠ 0 := chain_ne_null hwf.forward b (by simp)
    have hab : (m.heap a).next = b := chain_head hwf.forward.2.2
    have hnext : (m.heap b).next = 0 := hwf.forward.2.2.2.2
    obtain ⟨fuel, rfl⟩ : ∃ k, fuel = k + 2 := ⟨fuel - 2, by simp at hfuel; omega⟩
    rw [if_neg (by simp)]
    apply removeWith_runs_past hhead htail (chain_ne_null hwf.forward a (by simp))
      (hfalse a (by simp)) hb
    have hstep : removeSearch test m (fuel + 2) b = removeSearch test m (fuel + 1) 0 := by
      rw [removeSearch, hb, ok_bind, if_neg (by decide), deref_ok hb0, ok_bind, hnext, htail,
        if_neg hb0.symm]
    rw [hab, hstep]
    exact removeSearch_null hnull fuel
  | h :: b :: c :: r =>
    obtain ⟨u, t, hut⟩ : ∃ u t, b :: c :: r = u ++ [t] :=
      ⟨_, _, (List.dropLast_concat_getLast (List.cons_ne_nil _ _)).symm⟩
    have hu : u ≠ [] := by
      rintro rfl
      simp at hut
    rw [hut] at hwf hfalse hfuel ⊢
    have hhead : m.list.head = h := chain_head hwf.forward
    have htail : m.list.tail = t := WellFormed.tail_eq (l := h :: u) hwf
    have hh0 : h ≠ 0 := chain_ne_null hwf.forward h List.mem_cons_self
    have hsearch : removeSearch test m fuel (m.heap h).next = .ok none := by
      apply removeSearch_misses htail hu hwf.forward.2.2
      · exact fun x hx => hfalse x (by simp [hx])
      · simp at hfuel
        omega
    have hlen : 3 ≤ (h :: (u ++ [t])).length := by
      have := List.length_pos_iff.mpr hu
      simp
      omega
    rw [if_pos hlen]
    simp [removeWith, hhead, htail, hfalse h List.mem_cons_self, hfalse t (by simp), deref_ok hh0,
      hsearch]

end

/-- The tests of the two removals on nodes they are not after. -/
theorem isNode_false {m : ListMem} {s : List Nat} {node : Nat} (hnode : node ∉ s) :
    ∀ x ∈ s, isNode node m x = .ok false := fun x hx => by
  simp [isNode, ne_of_mem_of_not_mem hx hnode]

theorem hasData_false {m : ListMem} {s f : List Nat} {data : Nat} (hwf : WellFormed m s f)
    (hdata : data ∉ s.map (dataOf m)) : ∀ x ∈ s, hasData data m x = .ok false := fun x hx => by
  have hne : dataOf m x ≠ data := ne_of_mem_of_not_mem (List.mem_map_of_mem hx) hdata
  rw [hasData_linked hwf data x hx, beq_eq_false_iff_ne.mpr hne]

/-- **The removals answer `SPR_NOT_FOUND`, with the list as it was, exactly when
    three nodes or more are linked.** -/
theorem remove_absent_iff (m : ListMem) (s f : List Nat) (hwf : WellFormed m s f) (fuel : Nat)
    (hfuel : s.length ≤ fuel) (node : Nat) (hnode : node ∉ s) (data : Nat)
    (hdata : data ∉ s.map (dataOf m)) :
    (sprListRemove1 fuel m node = .ok (sprNotFound, m) ↔ 3 ≤ s.length) ∧
    (sprListRemove fuel m data = .ok (sprNotFound, m) ↔ 3 ≤ s.length) := by
  have h1 := removeWith_absent hwf (isNode_false hnode) (isNode_null node m) hfuel
  have h2 := removeWith_absent hwf (hasData_false hwf hdata) (hasData_null data m) hfuel
  unfold sprListRemove1 sprListRemove
  rw [h1, h2]
  by_cases hlen : 3 ≤ s.length <;> simp [hlen]

/-- Three linked nodes. -/
def threeElements : ListMem where
  heap a := if a = 4096 then ⟨4120, 0, 7⟩ else if a = 4120 then ⟨4144, 4096, 8⟩ else ⟨0, 4120, 9⟩
  list := { pool := 1, head := 4096, tail := 4144, freeNodes := 0, size := 3, capacity := 0 }

/-- Neither a node nor a value is found in a list of three. -/
theorem remove_absent_iff_three :
    sprListRemove1 3 threeElements 24 = .ok (sprNotFound, threeElements) ∧
    sprListRemove 3 threeElements 5 = .ok (sprNotFound, threeElements) := by
  have hboth := remove_absent_iff threeElements [4096, 4120, 4144] []
    ⟨by simp [threeElements, nextOf], by simp [threeElements, prevOf], rfl, rfl, rfl, by simp⟩
    3 (by simp) 24 (by simp) 5 (by simp [threeElements, dataOf])
  exact ⟨hboth.1.mpr (by simp), hboth.2.mpr (by simp)⟩

/-- **A value and a node looked for in a list of two**: a `NULL` link is followed. -/
theorem remove_absent_breaks :
    WellFormed twoElements [4096, 4120] [] ∧ 5 ∉ [4096, 4120].map (dataOf twoElements) ∧
    24 ∉ [4096, 4120] ∧ sprListRemove 2 twoElements 5 = .error .null ∧
    sprListRemove1 2 twoElements 24 = .error .null :=
  ⟨⟨by simp [twoElements, nextOf], by simp [twoElements, prevOf], rfl, rfl, rfl, by simp⟩,
    by simp [twoElements, dataOf], by decide, rfl, rfl⟩

/-! ## Section 3: What a clear comes to -/

/-- A list that is not cleared: it has nodes, or its head is gone and its tail is
    not. -/
def Uncleared (fuel : Nat) (m : ListMem) : Prop :=
  (∃ s f, WellFormed m s f ∧ s ≠ [] ∧ s.length ≤ fuel) ∨ (m.list.head = 0 ∧ m.list.tail ≠ 0)

theorem Uncleared.not_wellFormed {fuel : Nat} {m : ListMem} (h : Uncleared fuel m) (f : List Nat) :
    ¬ WellFormed m [] f := by
  intro hwf
  rcases h with ⟨s, f', hwf', hne, -⟩ | ⟨-, htail⟩
  · exact hne (hwf'.unique hwf).1
  · exact htail (hwf.tail_null_iff.mpr rfl)

/-- Whatever value it looks for, a removal leaves a list that is not cleared. -/
theorem sprListRemove_uncleared {fuel : Nat} {m m' : ListMem} {data : Nat} {r : Int}
    (h : Uncleared fuel m) (hres : sprListRemove fuel m data = .ok (r, m')) :
    Uncleared fuel m' := by
  rcases h with ⟨s, f, hwf, hne, hfuel⟩ | ⟨hhead, -⟩
  · by_cases hdata : data ∈ s.map (dataOf m)
    · by_cases hlen : 2 ≤ s.length
      · -- one of several nodes goes
        obtain ⟨x, hx, hdx⟩ := List.mem_map.mp hdata
        obtain ⟨a, ha, -, m₁, hrun, hwf₁, -⟩ :=
          removeWith_spec hwf (hasData_linked hwf data) ⟨x, hx, by simp [hdx]⟩ hlen hfuel
        unfold sprListRemove at hres
        rw [hrun] at hres
        obtain rfl : m₁ = m' := (Prod.mk.inj (Except.ok.inj hres)).2
        have hshort := List.length_erase_of_mem ha
        left
        refine ⟨_, _, hwf₁, ?_, by omega⟩
        rw [← List.length_pos_iff]
        omega
      · -- the only node goes, and the tail keeps pointing at it
        obtain ⟨a, rfl⟩ : ∃ a, s = [a] := by
          have := List.length_pos_iff.mpr hne
          exact List.length_eq_one_iff.mp (by omega)
        have ha0 : a ≠ 0 := chain_ne_null hwf.forward a List.mem_cons_self
        have htail : m.list.tail = a := WellFormed.tail_eq (l := []) hwf
        have hda : dataOf m a = data := (List.mem_singleton.mp hdata).symm
        have htest := hasData_linked hwf data a List.mem_cons_self
        rw [hda, beq_self_eq_true] at htest
        have hrun := removeWith_single fuel hwf htest
        unfold sprListRemove at hres
        rw [hrun] at hres
        obtain rfl := (Prod.mk.inj (Except.ok.inj hres)).2
        exact Or.inr ⟨rfl, by simpa [recycle, htail] using ha0⟩
    · -- nothing goes
      have hrun := removeWith_absent hwf (hasData_false hwf hdata) (hasData_null data m) hfuel
      unfold sprListRemove at hres
      rw [hrun] at hres
      split at hres
      · obtain rfl := (Prod.mk.inj (Except.ok.inj hres)).2
        exact Or.inl ⟨s, f, hwf, hne, hfuel⟩
      · exact absurd hres (by simp)
  · have hrun : sprListRemove fuel m data = .error .null := by
      simp [sprListRemove, removeWith, hasData, hhead, deref_null]
    rw [hrun] at hres
    exact absurd hres (by simp)

/-- The loop never clears a list that is not. -/
theorem clearLoop_uncleared {fuel : Nat} {m' : ListMem} : ∀ {steps node : Nat} {m : ListMem},
    Uncleared fuel m → clearLoop fuel steps node m = .ok m' → Uncleared fuel m' := by
  intro steps
  induction steps with
  | zero =>
    intro node m h hres
    rw [clearLoop] at hres
    split at hres
    · rwa [← Except.ok.inj hres]
    · exact absurd hres (by simp)
  | succ steps ih =>
    intro node m h hres
    rw [clearLoop] at hres
    by_cases hnode : node = 0
    · rw [if_pos hnode] at hres
      rwa [← Except.ok.inj hres]
    · rw [if_neg hnode, deref_ok hnode, ok_bind] at hres
      cases hrem : sprListRemove fuel m node with
      | error e => rw [hrem, error_bind] at hres; exact absurd hres (by simp)
      | ok x =>
        rw [hrem, ok_bind] at hres
        exact ih (sprListRemove_uncleared h hrem) hres

/-! ## Section 4: When a clear is right -/

/-- The clear is right: the list ends up empty with every node free once, and the
    pushes that come after it find an empty deque. -/
def Clears (res : Except Stop ListMem) (m : ListMem) (s f : List Nat) : Prop :=
  ∃ m' f', res = .ok m' ∧ WellFormed m' [] f' ∧ f'.Perm (s ++ f) ∧
    m'.list.capacity = m.list.capacity + m.list.size ∧
    ∀ ops, EachStep Fair m' ops → EachStep Clean m' ops →
      IsList (runOps m' ops) (runDeque m' [] ops)

/-- **`spr_list_clear` is right exactly on the empty list.** -/
theorem clear_iff (m : ListMem) (s f : List Nat) (hwf : WellFormed m s f) (fuel : Nat)
    (hfuel : s.length ≤ fuel) : Clears (sprListClear fuel m) m s f ↔ s = [] := by
  constructor
  · rintro ⟨m', f', hres, hwf', -⟩
    by_contra hne
    exact (clearLoop_uncleared (Or.inl ⟨s, f, hwf, hne, hfuel⟩) hres).not_wellFormed f' hwf'
  · rintro rfl
    have hhead : m.list.head = 0 := hwf.head_null_iff.mpr rfl
    have hres : sprListClear fuel m = .ok m := by
      unfold sprListClear
      rw [hhead]
      cases fuel <;> rw [clearLoop, if_pos rfl]
    refine ⟨m, f, hres, hwf, List.Perm.refl _, by simp [hwf.size], fun ops hfair hclean => ?_⟩
    exact runOps_isList ⟨[], f, hwf, rfl⟩ (hfair.mono fun _ _ _ h => h.1) hclean

/-- An empty list is cleared. -/
theorem clear_iff_empty : Clears (sprListClear 0 emptyList) emptyList [] [] :=
  (clear_iff emptyList [] [] ⟨rfl, rfl, rfl, rfl, rfl, by simp⟩ 0 (by simp)).mpr rfl

/-- **One element is not cleared**: the search for a node that carries the node
    follows a `NULL` link. -/
theorem clear_one_breaks :
    WellFormed oneElement [4096] [] ∧ sprListClear 1 oneElement = .error .null ∧
    ¬ Clears (sprListClear 1 oneElement) oneElement [4096] [] := by
  have hres : sprListClear 1 oneElement = .error .null := rfl
  refine ⟨⟨by simp [oneElement, nextOf], by simp [oneElement, prevOf], rfl, rfl, rfl, by simp⟩,
    hres, ?_⟩
  rintro ⟨m', f', hok, -⟩
  rw [hres] at hok
  exact absurd hok (by simp)

end Spr.LinkedList
