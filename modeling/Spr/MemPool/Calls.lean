import Spr.MemPool.History

/-! # The calls on one pool

    * `Call`: everything the invariants of a run need to know about a call on one
      pool.
    * `call_palloc`, `call_add`, `call_take`: the calls that are such. -/

namespace Spr.MemPool

open Spr.Words Spr.Forests

/-! ## Section 1: Events -/

/-- The events hand out nothing, and are about a memnode gained or about none. -/
structure Quiet (evs : List Event) : Prop where
  hands : ∀ e ∈ evs, e.hands = false
  tree  : evs.filter Event.isTree = []

theorem Quiet.append {evs evs' : List Event} (h : Quiet evs) (h' : Quiet evs') :
    Quiet (evs ++ evs') := by
  refine ⟨fun e he => ?_, by rw [List.filter_append, h.tree, h'.tree]; rfl⟩
  rcases List.mem_append.mp he with he | he
  · exact h.hands e he
  · exact h'.hands e he

theorem Quiet.cons {e : Event} {evs : List Event} (h : Quiet evs) (h₁ : e.hands = false)
    (h₂ : e.isTree = false) : Quiet (e :: evs) := by
  refine ⟨fun e' he' => ?_, by rw [List.filter_cons_of_neg (by simp [h₂]), h.tree]⟩
  rcases List.mem_cons.mp he' with rfl | he'
  · exact h₁
  · exact h.hands e' he'

theorem Quiet.of_forall {evs : List Event}
    (h : ∀ e ∈ evs, e.hands = false ∧ e.isTree = false) : Quiet evs := by
  refine ⟨fun e he => (h e he).1, List.filter_eq_nil_iff.mpr fun e he => ?_⟩
  simp [(h e he).2]

theorem quiet_nil : Quiet [] := ⟨fun _ he => (List.not_mem_nil he).elim, rfl⟩

section Sources

variable (plat : Platform) (thread : Nat) (p : Pool)

theorem quiet_lock : Quiet (lockEvents plat thread p) := by
  apply Quiet.of_forall
  exact forall_lockEvents ⟨rfl, rfl⟩

theorem quiet_unlock : Quiet (unlockEvents plat thread p) := by
  apply Quiet.of_forall
  exact forall_unlockEvents ⟨rfl, rfl⟩

theorem quiet_call (r : Record) : Quiet (callEvents plat r) := by
  unfold callEvents
  refine Quiet.cons ?_ rfl rfl
  split
  · exact quiet_nil.cons rfl rfl
  · exact quiet_nil

theorem quiet_calls (rs : List Record) : Quiet (rs.flatMap (callEvents plat)) := by
  induction rs with
  | nil => exact quiet_nil
  | cons r rs ih => exact (quiet_call plat r).append ih

end Sources

/-! ## Section 2: Calls -/

/-- The memnodes of the pool are as before, or one is gained and logged. -/
inductive NodesOf (p p' : Pool) : List Event → Prop where
  | same (evs : List Event) (hquiet : Quiet evs)
      (hnodes : ∀ n, n ∈ p'.nodeAddrs ↔ n ∈ p.nodeAddrs) :
      NodesOf p p' evs
  | gain (a : Nat) (pre post : List Event) (hpre : Quiet pre) (hpost : Quiet post)
      (hnodes : ∀ n, n ∈ p'.nodeAddrs ↔ n = a ∨ n ∈ p.nodeAddrs) :
      NodesOf p p' (pre ++ .allocated a :: .registered p.addr a :: post)

theorem NodesOf.hands {p p' : Pool} {evs : List Event} (h : NodesOf p p' evs) :
    ∀ e ∈ evs, e.hands = false := by
  cases h with
  | same _ hquiet _ => exact hquiet.hands
  | gain a pre post hpre hpost _ =>
    intro e he
    rcases List.mem_append.mp he with he | he
    · exact hpre.hands e he
    · rcases List.mem_cons.mp he with rfl | he
      · rfl
      · rcases List.mem_cons.mp he with rfl | he
        · rfl
        · exact hpost.hands e he

theorem NodesOf.wrap {p p' : Pool} {evs pre post : List Event} (h : NodesOf p p' evs)
    (hpre : Quiet pre) (hpost : Quiet post) : NodesOf p p' (pre ++ evs ++ post) := by
  cases h with
  | same _ hquiet hnodes => exact .same _ ((hpre.append hquiet).append hpost) hnodes
  | gain a pre' post' hpre' hpost' hnodes =>
    have := NodesOf.gain a (pre ++ pre') (post' ++ post) (hpre.append hpre') (hpost'.append hpost)
      hnodes
    simpa using this

theorem NodesLogged.call {log evs : List Event} {p p' : Pool} {rest : List Pool}
    (h : NodesLogged log (p :: rest)) (haddr : p'.addr = p.addr) (hn : NodesOf p p' evs) :
    NodesLogged (log ++ evs) (p' :: rest) := by
  cases hn with
  | same _ hquiet hnodes =>
    refine (h.of_same fun q n => ?_).quiet hquiet.tree
    simp only [List.exists_mem_cons_iff, haddr, hnodes]
  | gain a pre post hpre hpost hnodes =>
    have hevs : (pre ++ .allocated a :: .registered p.addr a :: post).filter Event.isTree
        = [.allocated a, .registered p.addr a] := by
      rw [List.filter_append, hpre.tree, List.nil_append, List.filter_cons_of_pos rfl,
        List.filter_cons_of_pos rfl, hpost.tree]
    refine h.gain (fun q n => ?_) hevs
    simp only [List.exists_mem_cons_iff, haddr, hnodes, and_or_left, ← or_assoc]
    rw [eq_comm (a := p.addr)]

/-- **A call on the pool `p`**: where it leaves the pool, and what it logs. -/
structure Call (plat : Platform) (w w' : World) (p p' : Pool) (evs : List Event) : Prop where
  moves   : Moves plat w w' p p'
  log     : w'.log = w.log ++ evs
  kept    : KeptBy evs w w'
  addr    : p'.addr = p.addr
  child   : p'.child = p.child
  brother : p'.brother = p.brother
  owner   : p'.owner = p.owner
  used    : ∀ b, p.Used b → p'.Used b
  records : ∀ r ∈ p'.listed, r ∈ p.listed ∨ ∀ b, p.Used b → Span.Disjoint b (recordSpan r)
  nodes   : NodesOf p p' evs

section Calls

variable {plat : Platform} {thread : Nat} {w w' : World} {p p' : Pool}

theorem carving_nodes {k size index r : Nat} (hc : Carving plat thread w p k size index r p' w') :
    ∃ evs, w'.log = w.log ++ evs ∧ NodesOf p p' evs := by
  cases hc with
  | refused _ hfit hmem hlive hlog =>
    exact ⟨_, hlog, .same _ ((quiet_lock ..).append ((quiet_unlock ..).cons rfl rfl))
      fun _ => Iff.rfl⟩
  | fit _ n hfit hlive hlog =>
    exact ⟨_, hlog, .same _ ((quiet_lock ..).append (quiet_unlock ..)) fun n => by simp⟩
  | fresh _ a hfit hgrant hlive hlog =>
    refine ⟨_, hlog, ?_⟩
    have := @NodesOf.gain p ((p.addNode index (freshNode a size)).carveAt a k) a
      (lockEvents plat thread p ++ [.obtained a size]) (unlockEvents plat thread p)
      ((quiet_lock ..).append (quiet_nil.cons rfl rfl)) (quiet_unlock ..) fun n => by
        rw [nodeAddrs_carveAt, mem_nodeAddrs_addNode]
        rfl
    simpa using this

theorem adding_nodes {data handler : Nat} (ha : Adding plat thread w p data handler p' w') :
    ∃ evs, w'.log = w.log ++ evs ∧ NodesOf p p' evs := by
  cases ha with
  | recycled _ a fs hfrees hlive hlog =>
    exact ⟨_, hlog, .same _ ((quiet_lock ..).append (quiet_unlock ..)) fun _ => Iff.rfl⟩
  | carved _ w₁ a p₁ hfrees hne hcarve hlive hlog =>
    obtain ⟨evs, hlog₁, hn⟩ := carving_nodes hcarve
    refine ⟨lockEvents plat thread p ++ evs ++ .record p.addr a :: unlockEvents plat thread p,
      by simp [hlog, hlog₁], ?_⟩
    have hn' : NodesOf p (p₁.withRecords (⟨a, data, handler⟩ :: p.cleanups) []) evs := by
      cases hn with
      | same _ hquiet hnodes => exact .same _ hquiet hnodes
      | gain a pre post hpre hpost hnodes => exact .gain a pre post hpre hpost hnodes
    exact hn'.wrap (quiet_lock ..) ((quiet_unlock ..).cons rfl rfl)

/-- Nothing is given back where the regions only grow. -/
theorem KeptBy.of_grows {evs : List Event} (h : Grows w w' p p') : KeptBy evs w w' :=
  fun s hs _ => h.live s hs

/-- **The slot path is a call.** -/
theorem carving_call {k size index r : Nat} (h : PoolAt plat w p) (hregs : Registered plat w p)
    (hc : Carving plat thread w p k size index r p' w') (hsize : k + sizeofMemnode ≤ size)
    (hp' : PoolAt plat w' p') (hframe : FrameOut w w' p') : ∃ evs, Call plat w w' p p' evs := by
  obtain ⟨evs, hlog, hn⟩ := carving_nodes hc
  obtain ⟨haddr, hlisted, -, -, -, howner, hchild, hbrother, -⟩ := carving_kept hp' hc
  exact ⟨evs, (carving_moves h hregs hc hsize hp' hframe).1, hlog,
    KeptBy.of_grows (carving_grows h hc hsize), haddr, hchild, hbrother, howner,
    (carving_used h hc hsize).1, fun r hr => Or.inl (hlisted ▸ hr), hn⟩

theorem adding_records {data handler : Nat} (h : PoolAt plat w p)
    (ha : Adding plat thread w p data handler p' w') :
    (∀ b, p.Used b → p'.Used b) ∧
      ∀ r ∈ p'.listed, r ∈ p.listed ∨ ∀ b, p.Used b → Span.Disjoint b (recordSpan r) := by
  cases ha with
  | recycled _ a fs hfrees hlive hlog =>
    refine ⟨fun _ hb => hb, fun r hr => Or.inl ?_⟩
    rw [withRecords_listed] at hr
    rw [Pool.listed, hfrees]
    simp only [List.map_cons, List.cons_append, List.mem_cons, List.mem_append] at hr ⊢
    tauto
  | carved _ w₁ a p₁ hfrees hne hcarve hlive hlog =>
    have hlock := h.of_eq (v := w.emits (lockEvents plat thread p)) rfl rfl
    obtain ⟨hused, hnew⟩ := carving_used hlock hcarve (record_room plat)
    refine ⟨hused, fun r hr => ?_⟩
    rw [withRecords_listed, List.append_nil, List.map_cons, List.mem_cons] at hr
    rcases hr with rfl | hr
    · exact Or.inr fun b hb => ((hnew hne).2.2 b hb).symm
    · exact Or.inl (List.mem_append_left _ hr)

/-- **Adding a record is a call.** -/
theorem adding_call {data handler : Nat} (h : PoolAt plat w p) (hregs : Registered plat w p)
    (ha : Adding plat thread w p data handler p' w') (hp' : PoolAt plat w' p')
    (hframe : FrameOut w w' p')
    (hdata : handler = plat.sprFree →
      (∃ s ∈ w.live, s.start = data) ∧ data ∉ p.nodeAddrs ∧ data ∉ p.freed plat) :
    ∃ evs, Call plat w w' p p' evs := by
  obtain ⟨evs, hlog, hn⟩ := adding_nodes ha
  obtain ⟨haddr, -, howner, hchild, hbrother, -⟩ := adding_kept hp' ha
  obtain ⟨hused, hrecords⟩ := adding_records h ha
  exact ⟨evs, (adding_moves h hregs ha hp' hframe hdata).1, hlog,
    KeptBy.of_grows (adding_grows h ha), haddr, hchild, hbrother, howner, hused, hrecords, hn⟩

/-- **An allocation is a call.** -/
theorem allocating_call {size r : Nat} (h : PoolAt plat w p) (hregs : Registered plat w p)
    (hwrap : slotIndex plat size ≤ sprMaxPoolSlot → sprAlignAllocation size ≠ 0 →
      NoWrap plat (sprAlignAllocation size))
    (ha : Allocating plat thread w p size r p' w') (hp' : PoolAt plat w' p')
    (hframe : FrameOut w w' p') : ∃ evs, Call plat w w' p p' evs := by
  have hmoves := (allocating_moves h hregs hwrap ha hp' hframe).1
  cases ha with
  | rejected halign =>
    exact ⟨unlockEvents plat thread p, hmoves, rfl, KeptBy.of_live rfl, rfl, rfl, rfl, rfl,
      fun _ hb => hb, fun _ hr => Or.inl hr, .same _ (quiet_unlock ..) fun _ => Iff.rfl⟩
  | slots r p' w' halign hindex hcarve =>
    exact carving_call h hregs hcarve (hwrap hindex halign).pages.2.le hp' hframe
  | refused halign hindex =>
    exact ⟨.refused (sprAlignAllocation size) :: unlockEvents plat thread p, hmoves,
      by simp, KeptBy.of_live rfl, rfl, rfl, rfl, rfl, fun _ hb => hb, fun _ hr => Or.inl hr,
      .same _ ((quiet_unlock ..).cons rfl rfl) fun _ => Iff.rfl⟩
  | oversize b p' w₁ halign hindex hgrant hadd =>
    have hobtain := h.obtain hgrant (Nat.pos_of_ne_zero halign)
    obtain ⟨evs, hlog, hn⟩ := adding_nodes hadd
    obtain ⟨haddr, -, howner, hchild, hbrother, -⟩ := adding_kept (hp'.of_eq (v := w₁) rfl rfl) hadd
    obtain ⟨hused, hrecords⟩ := adding_records hobtain hadd
    refine ⟨[.obtained r (sprAlignAllocation size)] ++ evs ++ unlockEvents plat thread p, hmoves,
      by simp [hlog], fun s hs _ => ?_, haddr, hchild, hbrother, howner, hused, hrecords,
      hn.wrap (quiet_nil.cons rfl rfl) (quiet_unlock ..)⟩
    exact (adding_grows hobtain hadd).live s (List.mem_cons_of_mem _ hs)

/-- What is done with a match, as far as the invariants care. -/
structure Use.Logged (plat : Platform) (use : Use) : Prop where
  mild  : use.Mild plat
  quiet : ∀ r, Quiet (use.events r)
  kept  : ∀ (live : List Span) (r : Record) (s : Span), s ∈ live →
    Event.freed s.start ∉ use.events r → s ∈ use.after live r

theorem useRun_logged (plat : Platform) : (useRun plat).Logged plat := by
  refine ⟨useRun_mild plat, quiet_call plat,
    fun live r s hs hout => mem_liveAfter hs fun hf heq => ?_⟩
  refine hout ?_
  simp [useRun, callEvents, hf, heq]

theorem useRemove_logged (plat : Platform) : useRemove.Logged plat :=
  ⟨useRemove_mild plat, fun _ => quiet_nil, fun _ _ _ hs _ => hs⟩

/-- **Taking a record is a call.** -/
theorem taking_call {use : Use} {data handler : Nat} {pre seen : List Record}
    (hregs : Registered plat w p) (huse : use.Logged plat) (hseen : p.cleanups = pre ++ seen)
    (ht : TakingFrom plat thread use w p pre seen data handler p' w')
    (hp' : PoolAt plat w' p') (hframe : FrameOut w w' p') : ∃ evs, Call plat w w' p p' evs := by
  have hmoves := (taking_moves hregs huse.mild hseen ht hp' hframe).1
  cases ht with
  | absent hno =>
    exact ⟨lockEvents plat thread p, hmoves, rfl, KeptBy.of_live rfl, rfl, rfl, rfl, rfl,
      fun _ hb => hb, fun _ hr => Or.inl hr, .same _ (quiet_lock ..) fun _ => Iff.rfl⟩
  | found rs rs' r _ hsplit hmatch hfirst hlive hlog =>
    refine ⟨_, hmoves, hlog, fun s hs hout => ?_, rfl, rfl, rfl, rfl, fun _ hb => hb,
      fun a ha => Or.inl ?_, .same _ (((quiet_lock ..).append (huse.quiet r)).append
        (quiet_unlock ..)) fun _ => Iff.rfl⟩
    · rw [hlive]
      refine huse.kept w.live r s hs fun hin => hout ?_
      exact List.mem_append_left _ (List.mem_append_right _ hin)
    · rw [Pool.listed, hseen, hsplit]
      simp only [withRecords_listed, List.map_append, List.map_cons, List.mem_append,
        List.mem_cons] at ha ⊢
      tauto

end Calls

end Spr.MemPool
