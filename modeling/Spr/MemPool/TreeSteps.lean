import Spr.MemPool.LinkSteps

/-! # The steps that walk the tree

    * `step_clear`: clearing keeps the forest but for counters and records.
    * `step_destroy`: a tree goes with all its memnodes.
    * `exec_step`: **every call that is allowed is a step.** -/

namespace Spr.MemPool

open Spr.Words Spr.Chains Spr.Forests

/-! ## Section 1: `spr_pool_clear` -/

/-- **The blocks after a walk** that hands none out: the blocks of a pool go with the pool,
    and a block of its own region goes with the region. -/
theorem BlocksOk.walked {plat : Platform} {w w' : World} {ps qs : List Pool} {log evs : List Event}
    (h : BlocksOk plat w ps (heldBlocks log)) (hno : ∀ e ∈ evs, e.hands = false)
    (hkept : KeptBy evs w w')
    (hpools : ∀ p ∈ ps, p ∈ qs ∨ .cleared p.addr ∈ evs ∨ .destroyed p.addr ∈ evs)
    (hnodes : ∀ a ∈ qs.flatMap Pool.nodeAddrs, a ∈ ps.flatMap Pool.nodeAddrs) :
    BlocksOk plat w' qs (heldBlocks (log ++ evs)) := by
  obtain ⟨hsub, hlife⟩ := heldBlocks_append log hno
  refine ⟨fun b hb => ?_, h.apart.sublist hsub, fun b hb => h.aligned b (hsub.subset hb),
    fun b hb => h.size b (hsub.subset hb)⟩
  -- no event has dropped a block that is still held
  cases h.place b (hsub.subset hb) with
  | slot p hp haddr hindex hused hrecords =>
    refine .slot p ((hpools p hp).resolve_right fun hgone => ?_) haddr hindex hused hrecords
    rcases hgone with hin | hin
    · have hdrops := hlife b hb _ hin
      simp [Event.drops, haddr] at hdrops
    · have hdrops := hlife b hb _ hin
      simp [Event.drops, haddr] at hdrops
  | big hindex hlive hnode =>
    refine .big hindex (hkept _ hlive fun hin => ?_) fun hin => hnode (hnodes _ hin)
    have hdrops := hlife b hb _ hin
    simp [Event.drops, Block.span] at hdrops

section Clear

variable {plat : Platform} {thread : Nat} {s s' : Session} {f : Forest Pool}

/-- What clearing does not touch is the same all over the forest. -/
theorem map_clearForest {β : Type} {g : Pool → β} (hg : ∀ p, g p.clear = g p) (f : Forest Pool) :
    (clearForest plat thread f).map g = f.map g := by
  induction f with
  | nil => rfl
  | node p cs bs ihc ihb =>
    rw [clearForest]
    split
    · rw [Forest.map, Forest.map, hg, ihc, ihb]
    · rw [Forest.map, Forest.map, ihb]

theorem map_splice_clearTree {β : Type} {g : Pool → β} (hg : ∀ p, g p.clear = g p) (k : Nat)
    (f : Forest Pool) :
    (f.splice Pool.addr k (clearTree plat thread)).map g = f.map g := by
  induction f with
  | nil => rfl
  | node p cs bs ihc ihb =>
    rw [Forest.splice]
    split
    · rw [clearTree]
      split
      · rw [Forest.map, Forest.map, hg, map_clearForest hg]
      · rfl
    · rw [Forest.map, Forest.map, ihc, ihb]

/-- Where a pool is, and its memnodes. -/
def Pool.housing (p : Pool) : Nat × List Nat := (p.addr, p.nodeAddrs)

theorem flatMap_housing {ps qs : List Pool} (h : qs.map Pool.housing = ps.map Pool.housing) :
    qs.flatMap Pool.nodeAddrs = ps.flatMap Pool.nodeAddrs := by
  have hall : ∀ l : List Pool, l.flatMap Pool.nodeAddrs = (l.map Pool.housing).flatMap Prod.snd :=
    fun l => by rw [List.flatMap_map]; rfl
  rw [hall qs, h, ← hall ps]

theorem NodesLogged.of_housing {log : List Event} {ps qs : List Pool} (h : NodesLogged log ps)
    (hsame : qs.map Pool.housing = ps.map Pool.housing) : NodesLogged log qs := by
  have hall : ∀ (l : List Pool) (a n : Nat), (∃ p ∈ l, p.addr = a ∧ n ∈ p.nodeAddrs) ↔
      ∃ x ∈ l.map Pool.housing, x.1 = a ∧ n ∈ x.2 := fun l a n => by simp [Pool.housing]
  exact h.of_same fun a n => by rw [hall qs, hsame, ← hall ps]

@[simp] theorem clear_member (p : Pool) : p.clear.member = p.member := rfl

@[simp] theorem clear_nodeAddrs (p : Pool) : p.clear.nodeAddrs = p.nodeAddrs := by
  simp [Pool.clear, Pool.flush]

@[simp] theorem clear_housing (p : Pool) : p.clear.housing = p.housing := by
  simp [Pool.housing]

theorem linked_clearForest : ∀ {start : Nat}, LinkedPools start f →
    LinkedPools start (clearForest plat thread f) := by
  induction f with
  | nil => intro _ h; exact h
  | node p cs bs ihc ihb =>
    intro start h
    obtain ⟨rfl, hc, hb⟩ := h
    rw [clearForest]
    split
    · exact ⟨rfl, ihc hc, ihb hb⟩
    · exact ⟨rfl, hc, ihb hb⟩

/-- The event hands out nothing, and concerns memnodes only as a visit. -/
def Harmless (ps : List Pool) (e : Event) : Prop :=
  e.hands = false ∧ (e.isTree = true → Visit ps e)

theorem Quiet.harmless {evs : List Event} (h : Quiet evs) (ps : List Pool) :
    ∀ e ∈ evs, Harmless ps e := by
  refine fun e he => ⟨h.hands e he, fun ht => ?_⟩
  have hin : e ∈ evs.filter Event.isTree := List.mem_filter.mpr ⟨he, ht⟩
  rw [h.tree] at hin
  cases hin

theorem Harmless.mono {ps qs : List Pool} {e : Event} (h : Harmless ps e) (hsub : ps ⊆ qs) :
    Harmless qs e := by
  refine ⟨h.1, fun ht => ?_⟩
  obtain ⟨p, hp, heq⟩ := h.2 ht
  exact ⟨p, hsub hp, heq⟩

theorem quiet_resets (addrs : List Nat) : Quiet (addrs.map Event.reset) := by
  induction addrs with
  | nil => exact quiet_nil
  | cons a addrs ih => exact ih.cons rfl rfl

/-- What clearing one pool logs, given what its children log. -/
theorem clearEvents_harmless {p : Pool} {inner : List Event} {ps : List Pool} (hp : p ∈ ps)
    (hinner : ∀ e ∈ inner, Harmless ps e) :
    ∀ e ∈ clearEvents plat thread p inner, Harmless ps e := by
  intro e he
  rw [clearEvents, List.mem_cons] at he
  rcases he with rfl | he
  · exact ⟨rfl, fun _ => ⟨p, hp, Or.inl rfl⟩⟩
  · split at he
    · simp only [List.append_assoc, List.mem_append] at he
      rcases he with he | he | he | he | he
      · exact (quiet_lock plat thread p).harmless ps e he
      · exact (quiet_calls plat p.cleanups).harmless ps e he
      · exact hinner e he
      · exact (quiet_resets _).harmless ps e he
      · exact ((quiet_unlock plat thread p).cons rfl rfl).harmless ps e he
    · cases he

theorem clearLog_harmless (f : Forest Pool) :
    ∀ e ∈ clearLog plat thread f, Harmless f.toList e := by
  induction f with
  | nil => intro e he; cases he
  | node p cs bs ihc ihb =>
    intro e he
    rw [clearLog, List.cons_append, List.mem_cons, List.mem_append] at he
    rcases he with rfl | he | he
    · exact ⟨rfl, fun _ => ⟨p, List.mem_cons_self, Or.inr rfl⟩⟩
    · refine clearEvents_harmless List.mem_cons_self (fun e he => (ihc e he).mono ?_) e he
      exact fun q hq => List.mem_cons_of_mem _ (List.mem_append_left _ hq)
    · refine (ihb e he).mono ?_
      exact fun q hq => List.mem_cons_of_mem _ (List.mem_append_right _ hq)

/-- A pool that is not as before has been cleared. -/
theorem clearTree_mem {p q : Pool} {cs : Forest Pool} {inner : List Event}
    (hcs : q ∈ cs.toList → q ∈ (clearForest plat thread cs).toList ∨ .cleared q.addr ∈ inner)
    (hq : q ∈ p :: cs.toList) :
    q ∈ (clearTree plat thread p cs).1 :: (clearTree plat thread p cs).2.toList ∨
      .cleared q.addr ∈ clearEvents plat thread p inner := by
  rw [clearTree, clearEvents]
  split
  · refine (List.mem_cons.mp hq).elim ?_ fun hq => (hcs hq).imp (List.mem_cons_of_mem _) ?_
    · rintro rfl
      exact Or.inr (by simp)
    · intro hin
      simp [hin]
  · exact Or.inl hq

theorem clearForest_toList (p : Pool) (cs bs : Forest Pool) :
    (clearForest plat thread (.node p cs bs)).toList
      = ((clearTree plat thread p cs).1 :: (clearTree plat thread p cs).2.toList) ++
        (clearForest plat thread bs).toList := by
  rw [clearForest, clearTree]
  split <;> rfl

theorem clearForest_mem {q : Pool} (hq : q ∈ f.toList) :
    q ∈ (clearForest plat thread f).toList ∨ .cleared q.addr ∈ clearLog plat thread f := by
  induction f with
  | nil => cases hq
  | node p cs bs ihc ihb =>
    rw [Forest.toList_node, ← List.cons_append, List.mem_append] at hq
    rw [clearForest_toList, clearLog]
    rcases hq with hq | hq
    · refine (clearTree_mem ihc hq).imp (List.mem_append_left _) fun h => ?_
      exact List.mem_append_left _ (List.mem_cons_of_mem _ h)
    · exact (ihb hq).imp (List.mem_append_right _) (List.mem_append_right _)

/-- **`spr_pool_clear`.** -/
theorem step_clear {pool : Nat} (h : Inv plat s f) (hlegal : s.Legal plat (.clear thread pool))
    (hexec : s.exec plat (.clear thread pool) = some s') :
    Leads plat s f (.clear thread pool) s' := by
  obtain ⟨p, hp, rfl⟩ := h.find hlegal
  obtain ⟨rest, hold, -, hnew⟩ := Forest.split_at h.nodup hp
  have hnew := hnew (clearTree plat thread)
  have hlink := rooted_childrenAt h.rooted h.nodup hp
  obtain ⟨w', hrun, hat, hlog, hkept⟩ := sprPoolClear_spec thread hlink
    (h.pools.perm hold)
  simp only [Session.exec, hrun, returned, Option.some.injEq] at hexec
  subst hexec
  have hunique : ∀ q ∈ f.toList, q.addr = p.addr → q = p := fun q hq heq =>
    List.inj_on_of_nodup_map h.nodup hq hp heq
  have hharm : ∀ e ∈ clearEvents plat thread p (clearLog plat thread
      (f.childrenAt Pool.addr p.addr)), Harmless f.toList e := by
    refine clearEvents_harmless hp fun e he => (clearLog_harmless _ e he).mono fun q hq => ?_
    exact hold.mem_iff.mpr (List.mem_cons_of_mem _ (List.mem_append_left _ hq))
  have hnodes : (f.splice Pool.addr p.addr (clearTree plat thread)).toList.map Pool.housing
      = f.toList.map Pool.housing := by
    rw [← Forest.toList_map, map_splice_clearTree clear_housing, Forest.toList_map]
  refine ⟨_, .clear thread p w' hp hlog, ?_, hat.perm hnew.symm,
    rooted_splice (fun q hq heq cs hl => ?_) h.rooted, ?_, ?_⟩
  · show Forest.map _ _ = _
    rw [map_splice_clearTree clear_member, h.family]
  · rw [clearTree]
    split
    · exact ⟨rfl, rfl, linked_clearForest hl⟩
    · exact ⟨rfl, rfl, hl⟩
  · show NodesLogged w'.log _
    rw [hlog]
    refine (h.nodes.visits h.pools.housed fun e he => ?_).of_housing hnodes
    obtain ⟨he, ht⟩ := List.mem_filter.mp he
    exact (hharm e he).2 ht
  · show BlocksOk plat w' _ (heldBlocks w'.log)
    rw [hlog]
    refine h.blocks.walked (fun e he => (hharm e he).1) hkept (fun q hq => ?_) fun a ha => ?_
    · have hq := hold.mem_iff.mp hq
      rw [← List.cons_append, List.mem_append] at hq
      rw [hnew.mem_iff, ← List.cons_append, List.mem_append]
      rcases hq with hq | hq
      · exact (clearTree_mem clearForest_mem hq).imp Or.inl Or.inl
      · exact Or.inl (Or.inr hq)
    · rwa [flatMap_housing hnodes] at ha

end Clear

/-! ## Section 2: `spr_pool_destroy` -/

section Destroy

variable {plat : Platform} {thread : Nat} {s s' : Session} {f : Forest Pool}

/-- No memnode of the pools is in two places. -/
def Lodged (ps : List Pool) : Prop := (ps.flatMap Pool.nodeAddrs).Nodup ∧ Housed ps

theorem Lodged.perm {ps qs : List Pool} (h : Lodged ps) (hp : ps.Perm qs) : Lodged qs :=
  ⟨(hp.flatMap_right Pool.nodeAddrs).nodup_iff.mp h.1, fun q hq => h.2 q (hp.mem_iff.mpr hq)⟩

theorem Lodged.append_right {ps qs : List Pool} (h : Lodged (ps ++ qs)) : Lodged qs := by
  refine ⟨?_, fun q hq => h.2 q (List.mem_append_right _ hq)⟩
  have := h.1
  rw [List.flatMap_append] at this
  exact this.of_append_right

theorem Lodged.tail {p : Pool} {ps : List Pool} (h : Lodged (p :: ps)) : Lodged ps :=
  Lodged.append_right (show Lodged ([p] ++ ps) from h)

/-- All memnodes of the pool are in its slots. -/
theorem mem_slotAddrs {p : Pool} (horphans : p.orphans = []) {a : Nat} :
    a ∈ p.slotAddrs 0 ↔ a ∈ p.nodeAddrs := by
  rw [Pool.slotAddrs, Pool.nodeAddrs, Pool.nodes_eq, horphans, List.append_nil]

/-- **A pool is destroyed**, given what happens to its children. -/
theorem NodesLogged.destroyPool {log inner : List Event} {p : Pool} {cs rest : List Pool}
    (h : NodesLogged log (p :: (cs ++ rest))) (hl : Lodged (p :: (cs ++ rest)))
    (howned : Owned plat thread p) (horphans : p.orphans = [])
    (hinner : ∀ {log : List Event}, NodesLogged log (cs ++ (p :: rest)) →
      NodesLogged (log ++ inner) (p :: rest)) :
    NodesLogged (log ++ destroyEvents plat .plain thread p inner) rest := by
  have hswap : (p :: (cs ++ rest)).Perm (cs ++ (p :: rest)) := List.perm_middle.symm
  have hl' : Lodged (p :: rest) := (hl.perm hswap).append_right
  have hnd := hl'.1
  rw [List.flatMap_cons, List.nodup_append] at hnd
  have hvisit : NodesLogged (log ++ (.visited p.addr :: p.cleanups.flatMap (callEvents plat)))
      (p :: (cs ++ rest)) := by
    refine h.visits hl.2 fun e he => ?_
    rw [List.filter_cons_of_pos rfl, (quiet_calls plat p.cleanups).tree, List.mem_singleton] at he
    exact ⟨p, List.mem_cons_self, Or.inl he⟩
  have hgone := (hinner (hvisit.perm hswap)).dealloc (slotAddrs_nodup hnd.1)
    (fun a => mem_slotAddrs horphans) fun q hq a ha hin =>
      hnd.2.2 a ha a (List.mem_flatMap.mpr ⟨q, hq, hin⟩) rfl
  have hdone := hgone.quiet (show List.filter Event.isTree [.destroyed p.addr] = [] from rfl)
  rw [destroyEvents_plain howned]
  simpa using hdone

/-- **A forest is destroyed**, by induction on it. -/
theorem NodesLogged.destroyForest {f : Forest Pool} : ∀ {log : List Event} {rest : List Pool},
    NodesLogged log (f.toList ++ rest) → Lodged (f.toList ++ rest) →
      (∀ p ∈ f.toList, Owned plat thread p ∧ p.orphans = []) →
        NodesLogged (log ++ destroyLog plat .plain thread f) rest := by
  induction f with
  | nil =>
    intro log rest h _ _
    rw [destroyLog, List.append_nil]
    exact h
  | node p cs bs ihc ihb =>
    intro log rest h hl hall
    rw [Forest.toList_node, List.cons_append, List.append_assoc] at h hl
    have hfollow : NodesLogged (log ++ [.followed p.addr])
        (p :: (cs.toList ++ (bs.toList ++ rest))) :=
      h.visits hl.2 fun e he => ⟨p, List.mem_cons_self, Or.inr (List.mem_singleton.mp he)⟩
    have hswap : (p :: (cs.toList ++ (bs.toList ++ rest))).Perm
        (cs.toList ++ (p :: (bs.toList ++ rest))) := List.perm_middle.symm
    obtain ⟨howned, horphans⟩ := hall p List.mem_cons_self
    have hpool := hfollow.destroyPool hl howned horphans fun hin =>
      ihc hin (hl.perm hswap) fun q hq =>
        hall q (List.mem_cons_of_mem _ (List.mem_append_left _ hq))
    have hrest := ihb hpool (hl.perm hswap).append_right.tail fun q hq =>
      hall q (List.mem_cons_of_mem _ (List.mem_append_right _ hq))
    simpa [destroyLog] using hrest

/-- Destroying hands out nothing. -/
theorem destroyEvents_hands (p : Pool) {inner : List Event}
    (hinner : ∀ e ∈ inner, e.hands = false) :
    ∀ e ∈ destroyEvents plat .plain thread p inner, e.hands = false := by
  intro e he
  by_cases howned : Owned plat thread p
  · rw [destroyEvents_plain howned, List.mem_cons, List.append_assoc, List.append_assoc,
      List.mem_append, List.mem_append, List.mem_append, List.mem_singleton] at he
    rcases he with rfl | he | he | he | rfl
    · rfl
    · exact (quiet_calls plat p.cleanups).hands e he
    · exact hinner e he
    · obtain ⟨a, -, he⟩ := List.mem_flatMap.mp he
      simp only [deallocEvents, List.mem_cons, List.not_mem_nil, or_false] at he
      rcases he with rfl | rfl <;> rfl
    · rfl
  · simp only [destroyEvents, if_neg howned, ownerEvents_plain, List.append_nil,
      List.mem_singleton] at he
    rw [he]
    rfl

theorem destroyLog_hands (f : Forest Pool) :
    ∀ e ∈ destroyLog plat .plain thread f, e.hands = false := by
  induction f with
  | nil => intro e he; cases he
  | node p cs bs ihc ihb =>
    intro e he
    rw [destroyLog, Reader.plain_events, List.append_assoc, List.cons_append, List.nil_append,
      List.mem_cons, List.mem_append] at he
    rcases he with rfl | he | he
    · rfl
    · exact destroyEvents_hands p ihc e he
    · exact ihb e he

/-- Every pool of the thread's forest is destroyed. -/
theorem destroyed_mem {q : Pool} (howned : ∀ p ∈ f.toList, Owned plat thread p)
    (hq : q ∈ f.toList) : Event.destroyed q.addr ∈ destroyLog plat .plain thread f := by
  induction f with
  | nil => cases hq
  | node p cs bs ihc ihb =>
    have hc := ihc fun r hr => howned r (List.mem_cons_of_mem _ (List.mem_append_left _ hr))
    have hb := ihb fun r hr => howned r (List.mem_cons_of_mem _ (List.mem_append_right _ hr))
    rw [destroyLog, destroyEvents_plain (howned p List.mem_cons_self)]
    rcases List.mem_cons.mp hq with rfl | hq
    · simp
    · rcases List.mem_append.mp hq with hq | hq
      · simp [hc hq]
      · simp [hb hq]

/-- **`spr_pool_destroy`** on a pool without a parent, where the thread owns the
    whole tree and every memnode is in a slot. -/
theorem step_destroy {pool : Nat} (h : Inv plat s f)
    (hroots : s.AtRoots plat (.destroy thread pool))
    (hlegal : s.Legal plat (.destroy thread pool)) (horphans : ∀ p ∈ f.toList, p.orphans = [])
    (hexec : s.exec plat (.destroy thread pool) = some s') :
    Leads plat s f (.destroy thread pool) s' := by
  obtain ⟨⟨m, hm, hpool⟩, hbelow⟩ := hroots
  obtain ⟨m', hm', hpool', howner⟩ := hlegal
  rw [← h.family, Forest.roots_map] at hm
  obtain ⟨p, hp, rfl⟩ := List.mem_map.mp hm
  rw [← h.family, Forest.toList_map] at hm'
  obtain ⟨p', hp', rfl⟩ := List.mem_map.mp hm'
  have hin := Forest.roots_subset hp
  obtain rfl : p' = p := List.inj_on_of_nodup_map h.nodup hp' hin (hpool'.trans hpool.symm)
  have howner : Owned plat thread p' := howner
  subst hpool
  obtain ⟨rest, hold, hrest, -⟩ := Forest.split_at h.nodup hin
  have hmap : (f.childrenAt Pool.addr p'.addr).map Pool.member
      = (f.map Pool.member).childrenAt Member.addr p'.addr := Forest.map_childrenAt member_addr f
  have howned : ∀ q ∈ (f.childrenAt Pool.addr p'.addr).toList, Owned plat thread q := by
    intro q hq
    refine hbelow q.member ?_
    show q.member ∈ (s.family.childrenAt Member.addr p'.addr).toList
    rw [← h.family, ← hmap, Forest.toList_map]
    exact List.mem_map_of_mem hq
  obtain ⟨w', hrun, hat, hlog, hkept⟩ := sprPoolDestroy_spec .plain thread
    (rooted_childrenAt h.rooted h.nodup hin) (h.pools.perm hold)
  rw [sparedTree, if_pos howner, spared_owned howned, List.nil_append] at hat
  rw [Reader.plain_run] at hrun
  obtain rfl : s' = ⟨w', s.family.remove Member.addr p'.addr⟩ := by
    simpa [Session.exec, sprPoolDestroy, hrun, returned, Pool.member] using hexec.symm
  have hall : ∀ q ∈ p' :: (f.childrenAt Pool.addr p'.addr).toList, Owned plat thread q := by
    intro q hq
    rcases List.mem_cons.mp hq with rfl | hq
    · exact howner
    · exact howned q hq
  have hlodged : Lodged (p' :: ((f.childrenAt Pool.addr p'.addr).toList ++ rest)) :=
    ⟨(h.pools.perm hold).apart, (h.pools.perm hold).housed⟩
  have hempty : ∀ q ∈ p' :: ((f.childrenAt Pool.addr p'.addr).toList ++ rest), q.orphans = [] :=
    fun q hq => horphans q (hold.mem_iff.mpr hq)
  refine ⟨_, .destroy thread p' w' hp hall hlog, ?_, hat.perm hrest.symm,
    rooted_remove h.rooted h.nodup hp, ?_, ?_⟩
  · show Forest.map _ _ = _
    rw [Forest.map_remove member_addr, h.family]
  · show NodesLogged w'.log _
    rw [hlog]
    refine NodesLogged.perm ?_ hrest.symm
    refine (h.nodes.perm hold).destroyPool hlodged howner (hempty _ List.mem_cons_self) fun hin =>
      hin.destroyForest (hlodged.perm List.perm_middle.symm) fun q hq => ⟨howned q hq, ?_⟩
    exact hempty q (List.mem_cons_of_mem _ (List.mem_append_left _ hq))
  · show BlocksOk plat w' _ (heldBlocks w'.log)
    rw [hlog]
    have hhands : ∀ e ∈ destroyEvents plat .plain thread p' (destroyLog plat .plain thread
        (f.childrenAt Pool.addr p'.addr)), e.hands = false :=
      destroyEvents_hands p' (destroyLog_hands _)
    refine h.blocks.walked hhands hkept (fun q hq => ?_) fun a ha => ?_
    · have hq := hold.mem_iff.mp hq
      rw [← List.cons_append, List.mem_append] at hq
      rcases hq with hq | hq
      · refine Or.inr (Or.inr ?_)
        rw [destroyEvents_plain howner]
        rcases List.mem_cons.mp hq with rfl | hq
        · simp
        · simp [destroyed_mem howned hq]
      · exact Or.inl (hrest.mem_iff.mpr hq)
    · rw [(hold.flatMap_right Pool.nodeAddrs).mem_iff, List.flatMap_cons, List.flatMap_append]
      exact List.mem_append_right _ (List.mem_append_right _
        ((hrest.flatMap_right Pool.nodeAddrs).mem_iff.mp ha))

end Destroy

/-! ## Section 3: Any call -/

/-- **Every call that is allowed is a step**, and keeps the invariant. -/
theorem exec_step {plat : Platform} {s s' : Session} {f : Forest Pool} {op : Op}
    (h : Inv plat s f) (hlegal : s.Legal plat op) (hclean : s.Clean plat op)
    (hroots : s.AtRoots plat op) (horphans : op.Destroys → ∀ p ∈ f.toList, p.orphans = [])
    (hexec : s.exec plat op = some s') : Leads plat s f op s' := by
  cases op with
  | create thread size parent => exact step_create h hlegal hclean hexec
  | addChild parent child => exact step_addChild h hlegal hroots hexec
  | palloc thread pool size => exact step_palloc h hlegal hclean hexec
  | pcalloc thread pool size => exact step_pcalloc h hlegal hclean hexec
  | cleanupAdd thread pool data handler => exact step_add h hlegal hclean hexec
  | cleanupRun thread pool data handler => exact step_run h hlegal hexec
  | cleanupRemove thread pool data handler => exact step_remove h hlegal hexec
  | clear thread pool => exact step_clear h hlegal hexec
  | destroy thread pool => exact step_destroy h hroots hlegal (horphans trivial) hexec
  | write addr value => exact step_write h hlegal hexec

end Spr.MemPool
