import Spr.Framework.Registry
import Spr.MemPool.Runs

/-! # Two threads at the cleanups of a pool

    `spr_pool_cleanup_run1` and `spr_pool_cleanup_remove1` read `pool->cleanups`
    before they take the mutex, so a call is two steps, and the other thread may
    step in between.  `spr_pool_cleanup_add1` is one step.

    * `Shared`, `Shared.step`: the pool, what each thread is in the middle of, and
      what a step does.  Registrations are numbered, to tell equal ones apart.
    * `Shared.Sound`: the record a thread has read is still on the list.
    * `Consistent`: no registration is taken twice, and the pending ones are those
      of a sequential order of the calls.
    * `threads_consistent`: so it is for every interleaving of sound steps. -/

namespace Spr.MemPool

open Spr.Words Spr.Chains Spr.Forests Spr.Registries

/-! ## Section 1: The machine -/

/-- A registration, with its number. -/
structure Registration where
  number  : Nat
  data    : Nat
  handler : Nat
  deriving DecidableEq, Repr

/-- What a registration is looked for by. -/
def Registration.key (r : Registration) : Nat × Nat := (r.data, r.handler)

/-- A call, as it would be on its own: a registration is added, or the newest one for
    some data and handler is taken. -/
abbrev Handling : Type := Deal Registration (Nat × Nat)

/-- What was done with the registration of a number. -/
inductive Deed where
  | ran (number : Nat)
  | removed (number : Nat)
  deriving DecidableEq, Repr

def Deed.number : Deed → Nat
  | .ran n => n
  | .removed n => n

/-- A call of `run1`, or of `remove1`, that has read `pool->cleanups`. -/
structure Errand where
  runs    : Bool
  data    : Nat
  handler : Nat
  head    : Nat
  deriving DecidableEq, Repr

/-- A pool that two threads share. -/
structure Shared where
  session : Session
  /-- The number of the registration that a record holds. -/
  tag     : Nat → Nat
  /-- The number of the next registration. -/
  next    : Nat
  /-- What each thread is in the middle of. -/
  errand  : Bool → Option Errand
  deeds   : List Deed
  /-- The calls that have returned, in this order. -/
  done    : List (Bool × Handling)

/-- A step of a thread. -/
inductive Move where
  | add (t : Bool) (data handler : Nat)
  | read (t : Bool) (runs : Bool) (data handler : Nat)
  | body (t : Bool)
  deriving DecidableEq, Repr

/-- What `run1` and `remove1` do with the match. -/
def Errand.found (plat : Platform) (e : Errand) : Nat → Act Unit :=
  if e.runs then runRecord plat else fun _ => pure ()

/-- What is done with the registration that the search finds, if there is one. -/
def Errand.deed (e : Errand) (mem : Mem) (tag : Nat → Nat) : List Deed :=
  match findRecord mem e.data e.handler addressSpace 0 e.head with
  | some (_, node) =>
      if node = 0 then [] else [if e.runs then .ran (tag node) else .removed (tag node)]
  | none => []

/-- What a step does; `threads` are the handles of the two threads. -/
def Shared.step (plat : Platform) (threads : Bool → Nat) (pool : Nat) (st : Shared) :
    Move → Option Shared
  | .add t data handler =>
      if st.errand t = none then
        (st.session.exec plat (.cleanupAdd (threads t) pool data handler)).map fun s =>
          { st with
            session := s
            tag     := Function.update st.tag (s.world.mem (poolCleanups pool)) st.next
            next    := st.next + 1
            done    := st.done ++ [(t, .add ⟨st.next, data, handler⟩)] }
      else none
  | .read t runs data handler =>
      if st.errand t = none then
        some { st with
          errand := Function.update st.errand t
            (some ⟨runs, data, handler, st.session.world.mem (poolCleanups pool)⟩) }
      else none
  | .body t =>
      match st.errand t with
      | none => none
      | some e =>
          match cleanupBody plat (e.found plat) (threads t) pool e.data e.handler e.head
              st.session.world with
          | .error _ _ => none
          | .ok _ w =>
              some { st with
                session := ⟨w, st.session.family⟩
                errand  := Function.update st.errand t none
                deeds   := st.deeds ++ e.deed st.session.world.mem st.tag
                done    := st.done ++ [(t, .take (e.data, e.handler))] }

/-- The registrations on the list of the pool, as the memory has them. -/
def Shared.pending (pool : Nat) (st : Shared) : List Registration :=
  (walk st.session.world.mem 0 addressSpace (st.session.world.mem (poolCleanups pool))).map
    fun r => ⟨st.tag r, st.session.world.mem (recordData r), st.session.world.mem (recordHandler r)⟩

/-- Before the two threads begin: a pool of a plain run, with the registrations on it
    numbered. -/
structure Starts (plat : Platform) (pool : Nat) (st : Shared) : Prop where
  plain   : Reachable plat (Session.Plain plat) st.session
  known   : pool ∈ st.session.addrs
  numbers : ((st.pending pool).map Registration.number).Nodup
  below   : ∀ r ∈ st.pending pool, r.number < st.next
  idle    : ∀ t, st.errand t = none
  deeds   : st.deeds = []
  done    : st.done = []

/-- The states that steps lead to. -/
inductive Interleaved (plat : Platform) (threads : Bool → Nat) (pool : Nat)
    (ok : Shared → Move → Prop) (st : Shared) : Shared → Prop where
  | start : Interleaved plat threads pool ok st st
  | step (st₁ st₂ : Shared) (m : Move) (h : Interleaved plat threads pool ok st st₁)
      (hok : ok st₁ m) (hstep : st₁.step plat threads pool m = some st₂) :
      Interleaved plat threads pool ok st st₂

/-- **A step is sound**: a registration is added as in a plain run, and the record that
    the call has read, unless it is `NULL`, is still on the list when the mutex is taken,
    and still the first one if it is the one that is looked for. -/
def Shared.Sound (plat : Platform) (threads : Bool → Nat) (pool : Nat) (st : Shared) : Move → Prop
  | .add t data handler => st.session.Plain plat (.cleanupAdd (threads t) pool data handler)
  | .read _ _ _ _ => True
  | .body t => ∀ e ∈ st.errand t, e.head = 0 ∨
      e.head ∈ walk st.session.world.mem 0 addressSpace (st.session.world.mem (poolCleanups pool)) ∧
      (st.session.world.mem (recordData e.head) = e.data ∧
        st.session.world.mem (recordHandler e.head) = e.handler →
        e.head = st.session.world.mem (poolCleanups pool))

/-- A step adds registrations as in a plain run. -/
def Shared.Allowed (plat : Platform) (threads : Bool → Nat) (pool : Nat) (st : Shared) :
    Move → Prop
  | .add t data handler => st.session.Plain plat (.cleanupAdd (threads t) pool data handler)
  | _ => True

instance (plat : Platform) (threads : Bool → Nat) (pool : Nat) (st : Shared) (m : Move) :
    Decidable (st.Sound plat threads pool m) := by
  unfold Shared.Sound
  cases m <;> infer_instance

instance (plat : Platform) (threads : Bool → Nat) (pool : Nat) (st : Shared) (m : Move) :
    Decidable (st.Allowed plat threads pool m) := by
  unfold Shared.Allowed
  cases m <;> infer_instance

/-- **The threads are consistent**: no handler runs twice for a registration or after it
    has been removed; the pending registrations are those that some sequential order of
    the calls leaves, in which each thread's calls keep their order; and a sound call
    returns. -/
structure Consistent (plat : Platform) (threads : Bool → Nat) (pool : Nat) (st st' : Shared) :
    Prop where
  once    : ∀ n, st'.deeds.count (.ran n) ≤ 1
  removed : ∀ n ds es, st'.deeds = ds ++ .removed n :: es → .ran n ∉ es
  order   : ∃ order : List (Bool × Handling),
    (∀ t, order.filter (fun c => c.1 = t) = st'.done.filter (fun c => c.1 = t)) ∧
    st'.pending pool = play Registration.key (st.pending pool) (order.map Prod.snd)
  returns : ∀ t e, st'.errand t = some e → st'.Sound plat threads pool (.body t) →
    (st'.step plat threads pool (.body t)).isSome

/-! ## Section 2: Windows

    While a thread is between the two steps of a call, what has happened since it has
    read `pool->cleanups` is a window at the end of the order. -/

/-- The registration in the record that the call has read is none of the list, or it is
    the first; and the list is empty if the call has read `NULL`. -/
def Fresh (tag : Nat → Nat) (e : Errand) (l : List Registration) : Prop :=
  (e.head = 0 → l = []) ∧ ∀ r ∈ l.tail, r.number ≠ tag e.head

/-- The order ends with calls of the other thread, and what was there before these is
    fresh for the call. -/
def Window (x : List Registration) (order : List (Bool × Handling)) (tag : Nat → Nat) (t : Bool)
    (e : Errand) : Prop :=
  ∃ o₁ o₂, order = o₁ ++ o₂ ∧ (∀ c ∈ o₂, c.1 ≠ t) ∧
    Fresh tag e (playSplit Registration.key (play Registration.key x (o₁.map Prod.snd))
      (o₂.map Prod.snd)).2

section Windows

variable {x l l' pre seen : List Registration} {order : List (Bool × Handling)} {tag : Nat → Nat}
  {t u : Bool} {e : Errand}

theorem Fresh.sublist (h : Fresh tag e l) (hs : l'.Sublist l) : Fresh tag e l' := by
  refine ⟨fun h0 => ?_, fun r hr => h.2 r (hs.tail.subset hr)⟩
  rw [h.1 h0] at hs
  exact List.sublist_nil.mp hs

/-- Another record gets a registration of its own. -/
theorem Fresh.retag {a n : Nat} (h : Fresh tag e l) (hn : ∀ r ∈ l, r.number ≠ n) :
    Fresh (Function.update tag a n) e l := by
  refine ⟨h.1, fun r hr => ?_⟩
  by_cases ha : e.head = a
  · rw [ha, Function.update_self]
    exact hn r (List.mem_of_mem_tail hr)
  · rw [Function.update_of_ne ha]
    exact h.2 r hr

theorem Fresh.window (h : Fresh tag e (play Registration.key x (order.map Prod.snd))) :
    Window x order tag t e :=
  ⟨order, [], by simp, fun _ hc => (List.not_mem_nil hc).elim, h⟩

/-- The record that the call has read comes first. -/
theorem Fresh.first (h : Fresh tag e (pre ++ seen))
    (hseen : e.head = 0 ∧ seen = [] ∨ ∃ r rest, seen = r :: rest ∧ r.number = tag e.head) :
    pre = [] := by
  rcases hseen with ⟨h0, -⟩ | ⟨r, rest, rfl, hnumber⟩
  · exact (List.append_eq_nil_iff.mp (h.1 h0)).1
  · cases pre with
    | nil => rfl
    | cons q qs => exact absurd hnumber (h.2 r (by simp))

/-- A call is one of its thread's calls only. -/
theorem filter_call (t u : Bool) (d : Handling) :
    [(t, d)].filter (fun c => c.1 = u) = if u = t then [(t, d)] else [] := by
  by_cases hu : u = t
  · simp [hu]
  · simp [hu, Ne.symm hu]

/-- What is old is part of the list. -/
theorem old_subset {ds : List Handling} {r : Registration}
    (hr : r ∈ (playSplit Registration.key x ds).2) : r ∈ play Registration.key x ds := by
  rw [← playSplit_append]
  exact List.mem_append_right _ hr

/-- The other thread's call is added to the window. -/
theorem Window.snoc (h : Window x order tag t e) (hu : u ≠ t) (d : Handling) :
    Window x (order ++ [(u, d)]) tag t e := by
  obtain ⟨o₁, o₂, rfl, hothers, hfresh⟩ := h
  refine ⟨o₁, o₂ ++ [(u, d)], by simp, fun c hc => ?_, ?_⟩
  · rcases List.mem_append.mp hc with hc | hc
    · exact hothers c hc
    · rw [List.mem_singleton.mp hc]
      exact hu
  · rw [List.map_append, List.map_singleton, playSplit_snoc]
    refine hfresh.sublist ?_
    cases d with
    | add a => exact List.Sublist.refl _
    | take k =>
      simp only [actSplit]
      split
      · exact List.Sublist.refl _
      · exact without_sublist _ _ _

theorem Window.retag {a n : Nat} (h : Window x order tag t e)
    (hn : ∀ r ∈ play Registration.key x (order.map Prod.snd), r.number ≠ n) :
    Window x order (Function.update tag a n) t e := by
  obtain ⟨o₁, o₂, rfl, hothers, hfresh⟩ := h
  refine ⟨o₁, o₂, rfl, hothers, hfresh.retag fun r hr => hn r ?_⟩
  rw [List.map_append, play_append]
  exact old_subset hr

/-- **The call is put into the order** where it takes what it has taken. -/
theorem Window.insert (h : Window x order tag t e)
    (hplay : play Registration.key x (order.map Prod.snd) = pre ++ seen)
    (hseen : e.head = 0 ∧ seen = [] ∨ ∃ r rest, seen = r :: rest ∧ r.number = tag e.head)
    (k : Nat × Nat) : ∃ order' : List (Bool × Handling),
      (∀ u, order'.filter (fun c => c.1 = u) = order.filter (fun c => c.1 = u) ++
        if u = t then [(t, .take k)] else []) ∧
      play Registration.key x (order'.map Prod.snd) = pre ++ without Registration.key k seen := by
  obtain ⟨o₁, o₂, rfl, hothers, hfresh⟩ := h
  generalize hsplit : playSplit Registration.key (play Registration.key x (o₁.map Prod.snd))
    (o₂.map Prod.snd) = s at hfresh
  obtain ⟨new, old⟩ := s
  -- the list from the record on starts among the new ones, or with the old ones
  have hparts : ∃ rest, new = pre ++ rest ∧ seen = rest ++ old := by
    have hall : new ++ old = pre ++ seen := by
      rw [← hplay, List.map_append, play_append, ← playSplit_append, hsplit]
    rcases List.append_eq_append_iff.mp hall with ⟨rest, hpre, hold⟩ | ⟨rest, hnew, hold⟩
    · rcases hseen with ⟨h0, rfl⟩ | ⟨r, tail, rfl, hr⟩
      · obtain rfl := hfresh.1 h0
        obtain ⟨rfl, -⟩ := List.append_eq_nil_iff.mp hold.symm
        exact ⟨[], by simp [hpre], by simp⟩
      · cases rest with
        | nil => exact ⟨[], by simpa using hpre.symm, by simpa using hold.symm⟩
        | cons b rest =>
          refine absurd hr (hfresh.2 r ?_)
          rw [hold]
          simp
    · exact ⟨rest, hnew, hold⟩
  obtain ⟨rest, rfl, rfl⟩ := hparts
  obtain ⟨ds₁, ds₂, hds, hput⟩ := insert_take k hsplit
  obtain ⟨c₁, c₂, rfl, rfl, rfl⟩ := List.map_eq_append_iff.mp hds
  refine ⟨o₁ ++ (c₁ ++ (t, .take k) :: c₂), fun u => ?_, ?_⟩
  · have hnone : u = t → c₂.filter (fun c => c.1 = u) = [] := by
      rintro rfl
      exact List.filter_eq_nil_iff.mpr fun c hc => by
        simpa using hothers c (List.mem_append_right _ hc)
    simp only [List.filter_append, List.filter_cons, List.append_assoc]
    by_cases hu : u = t
    · rw [hnone hu]
      simp [hu]
    · simp [hu, Ne.symm hu]
  · rw [List.map_append, play_append, List.map_append, List.map_cons]
    exact hput

end Windows

/-! ## Section 3: The records and their registrations -/

/-- The registrations on the list of the pool. -/
def entries (tag : Nat → Nat) (rs : List Record) : List Registration :=
  rs.map fun r => ⟨tag r.addr, r.data, r.handler⟩

section Records

variable {plat : Platform} {thread data handler head : Nat} {use : Use} {w w' : World}
  {p p' : Pool} {tag : Nat → Nat} {rs pre seen : List Record}

theorem entries_append (rs rs' : List Record) :
    entries tag (rs ++ rs') = entries tag rs ++ entries tag rs' := List.map_append

/-- The memory holds the registrations of the list. -/
theorem pending_eq {st : Shared} (h : PoolAt plat st.session.world p) :
    st.pending p.addr = entries st.tag p.cleanups := by
  rw [Shared.pending, poolCleanups, walk_cleanups h, List.map_map]
  refine List.map_congr_left fun r hr => ?_
  obtain ⟨hd, hh⟩ := h.rep.records.record r hr
  simp only [Function.comp_apply, recordData, recordHandler, hd, hh]

/-- Taking a record takes its registration. -/
theorem without_entries (data handler : Nat) (rs : List Record) :
    without Registration.key (data, handler) (entries tag rs)
      = entries tag (rs.eraseP fun r => r.Matches data handler) := by
  rw [without, entries, List.eraseP_map]
  refine congrArg (List.map _) (congrArg (fun f => rs.eraseP f) (funext fun r => ?_))
  exact decide_eq_decide.mpr Prod.mk_inj

theorem TakingFrom.cleanups (h : TakingFrom plat thread use w p pre seen data handler p' w')
    (hseen : p.cleanups = pre ++ seen) : p'.addr = p.addr ∧
      p'.cleanups = pre ++ seen.eraseP fun r => r.Matches data handler := by
  cases h with
  | absent hno =>
    rw [List.eraseP_of_forall_not fun r hr => by simpa using hno r hr]
    exact ⟨rfl, hseen⟩
  | found rs rs' r _ hsplit hmatch hfirst =>
    rw [hsplit, List.eraseP_append_right _ fun s hs => by simpa using hfirst s hs,
      List.eraseP_cons_of_pos (by simpa using hmatch)]
    exact ⟨rfl, rfl⟩

/-- The list from a record on. -/
theorem PoolAt.split_head (h : PoolAt plat w p)
    (hhead : head = 0 ∨ head ∈ p.cleanups.map Record.addr) :
    ∃ pre seen, p.cleanups = pre ++ seen ∧ Chain w.mem 0 head (seen.map Record.addr) ∧
      (head = 0 ∧ seen = [] ∨ ∃ r rest, seen = r :: rest ∧ r.addr = head) := by
  rcases hhead with rfl | hin
  · exact ⟨p.cleanups, [], by simp, rfl, Or.inl ⟨rfl, rfl⟩⟩
  · obtain ⟨r, hr, rfl⟩ := List.mem_map.mp hin
    obtain ⟨pre, rest, hsplit⟩ := List.append_of_mem hr
    have hchain := h.rep.records.cleanups
    rw [hsplit, List.map_append] at hchain
    obtain ⟨start, -, hrest⟩ := chain_append.mp hchain
    obtain rfl := chain_head hrest
    exact ⟨pre, r :: rest, hsplit, hrest, Or.inr ⟨r, rest, rfl, rfl⟩⟩

/-- What the search finds, as a deed. -/
theorem deed_eq {e : Errand} (tag : Nat → Nat) (h : PoolAt plat w p)
    (hseen : p.cleanups = pre ++ seen) (hchain : Chain w.mem 0 e.head (seen.map Record.addr)) :
    (e.deed w.mem tag = [] ∧ seen.eraseP (fun r => r.Matches e.data e.handler) = seen) ∨
    ∃ r, (seen.Perm (r :: seen.eraseP fun r => r.Matches e.data e.handler)) ∧
      e.deed w.mem tag = [if e.runs then .ran (tag r.addr) else .removed (tag r.addr)] := by
  rcases findRecord_from h hseen hchain e.data e.handler with
    ⟨hno, prev, hsearch⟩ | ⟨rs, r, rs', hsplit, hmatch, hfirst, hne, hsearch⟩
  · refine Or.inl ⟨?_, List.eraseP_of_forall_not fun r hr => by simpa using hno r hr⟩
    rw [Errand.deed, hsearch]
    rfl
  · refine Or.inr ⟨r, ?_, ?_⟩
    · rw [hsplit, List.eraseP_append_right _ fun s hs => by simpa using hfirst s hs,
        List.eraseP_cons_of_pos (by simpa using hmatch)]
      exact List.perm_middle
    · rw [Errand.deed, hsearch]
      exact if_neg hne

end Records

/-! ## Section 4: The invariant -/

/-- **The invariant**: the pool is in place; the order of the calls gives what is on the
    list; no number is on the list or among the deeds twice; and every call that has read
    the list has its window. -/
structure Orderly (plat : Platform) (pool : Nat) (x : List Registration) (st : Shared)
    (f : Forest Pool) (p : Pool) (order : List (Bool × Handling)) : Prop where
  inv     : Inv plat st.session f
  mem     : p ∈ f.toList
  addr    : p.addr = pool
  plays   : play Registration.key x (order.map Prod.snd) = entries st.tag p.cleanups
  own     : ∀ t, order.filter (fun c => c.1 = t) = st.done.filter (fun c => c.1 = t)
  nodup   : ((entries st.tag p.cleanups).map Registration.number ++ st.deeds.map Deed.number).Nodup
  below   : ∀ n ∈ (entries st.tag p.cleanups).map Registration.number ++ st.deeds.map Deed.number,
    n < st.next
  windows : ∀ t e, st.errand t = some e → Window x order st.tag t e
  fresh   : ∀ t e e', st.errand t = some e → st.errand (!t) = some e' →
    Fresh st.tag e (entries st.tag p.cleanups) ∨ Fresh st.tag e' (entries st.tag p.cleanups)

section Invariant

variable {plat : Platform} {threads : Bool → Nat} {pool : Nat} {x : List Registration}
  {st st' : Shared} {f : Forest Pool} {p : Pool} {order : List (Bool × Handling)}

/-- Before the two threads begin. -/
theorem orderly_start (h : Starts plat pool st) :
    ∃ f p, Orderly plat pool (st.pending pool) st f p [] := by
  obtain ⟨f, hinv⟩ := reachable_inv h.plain
  obtain ⟨p, hp, rfl⟩ := hinv.find h.known
  have hpending := pending_eq (hinv.pools.pool p hp)
  have hnone : ∀ t e, st.errand t ≠ some e := fun t e he => by
    rw [h.idle t] at he
    cases he
  refine ⟨f, p, hinv, hp, rfl, hpending, fun t => by rw [h.done], ?_, ?_,
    fun t e he => absurd he (hnone t e), fun t e _ he _ => absurd he (hnone t e)⟩
  · rw [h.deeds, ← hpending]
    simpa using h.numbers
  · rw [h.deeds, ← hpending]
    intro n hn
    simp only [List.map_nil, List.append_nil] at hn
    obtain ⟨r, hr, rfl⟩ := List.mem_map.mp hn
    exact h.below r hr

/-- **Adding a registration.** -/
theorem orderly_add {t : Bool} {data handler : Nat} (h : Orderly plat pool x st f p order)
    (hok : st.Sound plat threads pool (.add t data handler))
    (hstep : st.step plat threads pool (.add t data handler) = some st') :
    ∃ f' p' order', Orderly plat pool x st' f' p' order' := by
  rw [Shared.step] at hstep
  split at hstep
  swap
  · cases hstep
  rename_i hidle
  obtain ⟨s', hexec, rfl⟩ := Option.map_eq_some_iff.mp hstep
  obtain ⟨f', hs, hinv'⟩ := exec_step h.inv hok.1 hok.2.1 hok.2.2.1 (fun hd => hd.elim) hexec
  have haddr := h.addr
  subst haddr
  generalize hq : p.addr = a at hs
  cases hs with
  | add thread _ _ q p' w' hq' hadd =>
    obtain rfl := List.inj_on_of_nodup_map h.inv.nodup h.mem hq' hq
    have hp' := h.inv.mem_replace h.mem p'
    have hpw' := hinv'.pools.pool p' hp'
    obtain ⟨haddr', -, -, -, -, r, hcleanups⟩ := adding_kept hpw' hadd
    -- the record is a new one on the list
    have hhead : w'.mem (poolCleanups p.addr) = r := by
      have hchain := hpw'.rep.records.cleanups
      rw [hcleanups, haddr'] at hchain
      exact chain_head hchain
    have hfresh : ∀ s ∈ p.cleanups, s.addr ≠ r := by
      have hnd := hpw'.wf.listed_nodup
      rw [Pool.listed, hcleanups, List.map_cons, List.cons_append, List.nodup_cons] at hnd
      rintro s hs rfl
      exact hnd.1 (List.mem_append_left _ (List.mem_map.mpr ⟨s, hs, rfl⟩))
    have hentries : entries (Function.update st.tag r st.next) p'.cleanups
        = ⟨st.next, data, handler⟩ :: entries st.tag p.cleanups := by
      rw [hcleanups, entries, List.map_cons, Function.update_self]
      refine congrArg (List.cons _) (List.map_congr_left fun s hs => ?_)
      rw [Function.update_of_ne (hfresh s hs)]
    have hbelow : ∀ s ∈ entries st.tag p.cleanups, s.number < st.next := fun s hs =>
      h.below _ (List.mem_append_left _ (List.mem_map_of_mem hs))
    simp only [hhead]
    refine ⟨_, p', order ++ [(t, .add ⟨st.next, data, handler⟩)], hinv', hp', haddr', ?_,
      fun u => ?_, ?_, fun n hn => ?_, fun u e he => ?_, fun u e e' he he' => ?_⟩
    · rw [hentries, ← h.plays, List.map_append, play_append]
      rfl
    · rw [List.filter_append, List.filter_append, h.own u]
    · rw [hentries, List.map_cons, List.cons_append, List.nodup_cons]
      exact ⟨fun hin => Nat.lt_irrefl _ (h.below _ hin), h.nodup⟩
    · rw [hentries, List.map_cons, List.cons_append, List.mem_cons] at hn
      rcases hn with rfl | hn
      · exact Nat.lt_succ_self _
      · exact Nat.lt_succ_of_lt (h.below n hn)
    · have hne : u ≠ t := by
        rintro rfl
        rw [hidle] at he
        cases he
      refine ((h.windows u e he).retag fun s hs => ?_).snoc hne.symm _
      rw [h.plays] at hs
      exact Nat.ne_of_lt (hbelow s hs)
    · -- the thread itself is not in the middle of anything
      have hboth : u = t ∨ (!u) = t := by
        cases u <;> cases t <;> simp
      rcases hboth with rfl | rfl
      · rw [hidle] at he
        cases he
      · rw [hidle] at he'
        cases he'

/-- **Reading `pool->cleanups`.** -/
theorem orderly_read {t runs : Bool} {data handler : Nat} (h : Orderly plat pool x st f p order)
    (hstep : st.step plat threads pool (.read t runs data handler) = some st') :
    ∃ f' p' order', Orderly plat pool x st' f' p' order' := by
  rw [Shared.step] at hstep
  split at hstep
  swap
  · cases hstep
  obtain rfl := Option.some.inj hstep
  have haddr := h.addr
  subst haddr
  have hpw := h.inv.pools.pool p h.mem
  -- what has been read is the first record
  have hfresh : Fresh st.tag ⟨runs, data, handler, st.session.world.mem (poolCleanups p.addr)⟩
      (entries st.tag p.cleanups) := by
    have hnd := (List.nodup_append.mp h.nodup).1
    have hchain := hpw.rep.records.cleanups
    cases hc : p.cleanups with
    | nil => exact ⟨fun _ => rfl, fun r hr => by cases hr⟩
    | cons r rs =>
      rw [hc] at hnd hchain
      obtain ⟨hhead, hne, -⟩ := hchain
      refine ⟨fun h0 => absurd (hhead.symm.trans h0) hne, fun s hs heq => ?_⟩
      rw [entries, List.map_cons, List.map_cons, List.nodup_cons] at hnd
      have hs : s.number ∈ (entries st.tag rs).map Registration.number := List.mem_map_of_mem hs
      rw [heq] at hs
      have htag : st.tag (st.session.world.mem (poolCleanups p.addr)) = st.tag r.addr :=
        congrArg st.tag hhead
      exact hnd.1 (htag ▸ hs)
  refine ⟨f, p, order, h.inv, h.mem, rfl, h.plays, h.own, h.nodup, h.below, fun u e he => ?_,
    fun u e e' he he' => ?_⟩
  · by_cases hu : u = t
    · subst hu
      simp only [Function.update_self, Option.some.injEq] at he
      subst he
      exact Fresh.window (h.plays ▸ hfresh)
    · simp only [Function.update_of_ne hu] at he
      exact h.windows u e he
  · by_cases hu : u = t
    · subst hu
      simp only [Function.update_self, Option.some.injEq] at he
      subst he
      exact Or.inl hfresh
    · obtain rfl := Bool.eq_not_of_ne hu
      rw [Bool.not_not] at he'
      simp only [Function.update_self, Option.some.injEq] at he'
      subst he'
      exact Or.inr hfresh

/-- **A sound call returns**, and takes what it finds behind the record it has read. -/
theorem Orderly.body {t : Bool} {e : Errand} (h : Orderly plat pool x st f p order)
    (he : st.errand t = some e) (hok : st.Sound plat threads pool (.body t)) :
    ∃ pre seen p' w', p.cleanups = pre ++ seen ∧
      Chain st.session.world.mem 0 e.head (seen.map Record.addr) ∧
      (e.head = 0 ∧ seen = [] ∨ ∃ r rest, seen = r :: rest ∧ r.addr = e.head) ∧
      cleanupBody plat (e.found plat) (threads t) pool e.data e.handler e.head st.session.world
        = .ok () w' ∧ p'.addr = pool ∧
      p'.cleanups = pre ++ seen.eraseP (fun r => r.Matches e.data e.handler) ∧
      Inv plat ⟨w', st.session.family⟩ (replace f p p') := by
  have haddr := h.addr
  subst haddr
  have hpw := h.inv.pools.pool p h.mem
  have hsound := hok e he
  rw [poolCleanups, walk_cleanups hpw] at hsound
  obtain ⟨pre, seen, hseen, hchain, hhead⟩ := hpw.split_head (hsound.imp_right And.left)
  -- a head that matches was read as the first record, and still is
  have hfirst : ∀ r rs, seen = r :: rs → r.Matches e.data e.handler → pre = [] := by
    rintro r rs rfl hmatch
    have haddr : r.addr = e.head := (chain_head hchain).symm
    obtain ⟨hd, hh⟩ := hpw.rep.records.record r (by rw [hseen]; simp)
    have hall := hpw.rep.records.cleanups
    rcases hsound with h0 | ⟨-, hmatches⟩
    · obtain ⟨-, hne, -⟩ := hchain
      exact absurd (haddr.trans h0) hne
    · have hstart : e.head = st.session.world.mem (p.addr + 184) := by
        refine hmatches ?_
        rw [← haddr]
        exact ⟨hd.trans hmatch.1, hh.trans hmatch.2⟩
      have hnd := chain_nodup hall
      cases pre with
      | nil => rfl
      | cons q pre =>
        rw [hseen] at hall hnd
        have hq : q.addr = r.addr := by
          rw [haddr, hstart]
          exact (chain_head hall).symm
        rw [List.cons_append, List.map_cons, List.nodup_cons] at hnd
        refine absurd ?_ hnd.1
        rw [hq]
        simp
  have hkeep := h.inv.pools.keeps h.mem h.mem
  cases hruns : e.runs with
  | true =>
    obtain ⟨p', w', hrun, hp', ht, hframe⟩ := cleanupBody_from (threads t) e.data
      e.handler hpw (uses_run hkeep) hseen hchain hfirst
    obtain ⟨haddr, hcleanups⟩ := ht.cleanups hseen
    refine ⟨pre, seen, p', w', hseen, hchain, hhead, ?_, haddr, hcleanups,
      h.inv.taking h.mem (useRun_logged plat) hseen ht hp' hframe⟩
    rw [Errand.found, if_pos hruns]
    exact hrun
  | false =>
    obtain ⟨p', w', hrun, hp', ht, hframe⟩ := cleanupBody_from (threads t) e.data
      e.handler hpw (uses_remove plat p) hseen hchain hfirst
    obtain ⟨haddr, hcleanups⟩ := ht.cleanups hseen
    refine ⟨pre, seen, p', w', hseen, hchain, hhead, ?_, haddr, hcleanups,
      h.inv.taking h.mem (useRemove_logged plat) hseen ht hp' hframe⟩
    rw [Errand.found, if_neg (by simp [hruns])]
    exact hrun

/-- What is on the list and among the deeds after a call. -/
theorem Orderly.deeds {e : Errand} {pre seen : List Record} (h : Orderly plat pool x st f p order)
    (hseen : p.cleanups = pre ++ seen)
    (hchain : Chain st.session.world.mem 0 e.head (seen.map Record.addr)) :
    ((entries st.tag (pre ++ seen.eraseP fun r => r.Matches e.data e.handler)).map
        Registration.number ++
      (st.deeds ++ e.deed st.session.world.mem st.tag).map Deed.number).Perm
    ((entries st.tag p.cleanups).map Registration.number ++ st.deeds.map Deed.number) := by
  have hpw := h.inv.pools.pool p h.mem
  rw [hseen]
  rcases deed_eq st.tag hpw hseen hchain with ⟨hnone, hsame⟩ | ⟨r, hperm, hone⟩
  · rw [hnone, hsame, List.append_nil]
  · have hnumber : (e.deed st.session.world.mem st.tag).map Deed.number = [st.tag r.addr] := by
      rw [hone]
      split <;> rfl
    have htaken : (entries st.tag (pre ++ seen)).Perm (⟨st.tag r.addr, r.data, r.handler⟩ ::
        entries st.tag (pre ++ seen.eraseP fun r => r.Matches e.data e.handler)) :=
      ((hperm.append_left pre).trans List.perm_middle).map _
    rw [List.map_append, hnumber, ← List.append_assoc]
    refine List.Perm.trans ?_ ((htaken.map Registration.number).symm.append_right _)
    exact List.perm_append_singleton _ _

/-- **A call returns**: whatever order it is put into, the invariant holds if the other
    thread's window is kept. -/
theorem Orderly.returned {t : Bool} {k : Nat × Nat} {w' : World} {p' : Pool} {deeds : List Deed}
    {order' : List (Bool × Handling)} (h : Orderly plat pool x st f p order)
    (hinv' : Inv plat ⟨w', st.session.family⟩ (replace f p p')) (haddr : p'.addr = pool)
    (hnumbers : ((entries st.tag p'.cleanups).map Registration.number ++
        deeds.map Deed.number).Perm
      ((entries st.tag p.cleanups).map Registration.number ++ st.deeds.map Deed.number))
    (hown : ∀ u, order'.filter (fun c => c.1 = u) = order.filter (fun c => c.1 = u) ++
      if u = t then [(t, .take k)] else [])
    (hplays : play Registration.key x (order'.map Prod.snd) = entries st.tag p'.cleanups)
    (hwindow : ∀ e, st.errand (!t) = some e → Window x order' st.tag (!t) e) :
    Orderly plat pool x { st with
      session := ⟨w', st.session.family⟩
      errand  := Function.update st.errand t none
      deeds   := deeds
      done    := st.done ++ [(t, .take k)] } (replace f p p') p' order' := by
  -- the thread itself is in the middle of nothing
  have hidle : ∀ e, Function.update st.errand t none t ≠ some e := fun e he => by
    rw [Function.update_self] at he
    cases he
  refine ⟨hinv', h.inv.mem_replace h.mem p', haddr, hplays, fun u => ?_,
    hnumbers.nodup_iff.mpr h.nodup, fun n hn => h.below n (hnumbers.mem_iff.mp hn),
    fun u e he => ?_, fun u e₁ e₂ he₁ he₂ => ?_⟩
  · rw [hown, h.own u, List.filter_append, filter_call]
  · by_cases hu : u = t
    · subst hu
      exact absurd he (hidle e)
    · obtain rfl := Bool.eq_not_of_ne hu
      have hother : Function.update st.errand t none (!t) = st.errand (!t) :=
        Function.update_of_ne hu _ _
      exact hwindow e (hother.symm.trans he)
  · by_cases hu : u = t
    · subst hu
      exact absurd he₁ (hidle e₁)
    · obtain rfl := Bool.eq_not_of_ne hu
      rw [Bool.not_not] at he₂
      exact absurd he₂ (hidle e₂)

/-- **The body of a call.** -/
theorem orderly_body {t : Bool} (h : Orderly plat pool x st f p order)
    (hok : st.Sound plat threads pool (.body t))
    (hstep : st.step plat threads pool (.body t) = some st') :
    ∃ f' p' order', Orderly plat pool x st' f' p' order' := by
  rw [Shared.step] at hstep
  cases he : st.errand t with
  | none => simp [he] at hstep
  | some e =>
    obtain ⟨pre, seen, p', w', hseen, hchain, hhead, hrun, haddr, hcleanups, hinv'⟩ := h.body he hok
    simp only [he, hrun, Option.some.injEq] at hstep
    subst hstep
    have hnumbers := h.deeds hseen hchain
    rw [← hcleanups] at hnumbers
    have hbefore : entries st.tag p.cleanups = entries st.tag pre ++ entries st.tag seen := by
      rw [hseen, entries_append]
    have hafter : entries st.tag p'.cleanups = entries st.tag pre ++
        without Registration.key (e.data, e.handler) (entries st.tag seen) := by
      rw [hcleanups, entries_append, without_entries]
    have hsub : (entries st.tag p'.cleanups).Sublist (entries st.tag p.cleanups) := by
      rw [hafter, hbefore]
      exact (without_sublist _ _ _).append_left _
    have hplay := h.plays.trans hbefore
    have hseen' : e.head = 0 ∧ entries st.tag seen = [] ∨
        ∃ r rest, entries st.tag seen = r :: rest ∧ r.number = st.tag e.head := by
      rcases hhead with ⟨h0, rfl⟩ | ⟨r, rest, rfl, hr⟩
      · exact Or.inl ⟨h0, rfl⟩
      · exact Or.inr ⟨_, _, rfl, congrArg st.tag hr⟩
    obtain ⟨order', hown, hplays⟩ := (h.windows t e he).insert hplay hseen' (e.data, e.handler)
    rw [← hafter] at hplays
    cases hother : st.errand (!t) with
    | none =>
      refine ⟨_, p', order', h.returned hinv' haddr hnumbers hown hplays fun e' he' => ?_⟩
      rw [hother] at he'
      cases he'
    | some e' =>
      rcases h.fresh t e e' he hother with hfresh | hfresh
      · -- nothing is before the record: the call comes last
        rw [hbefore] at hfresh
        have hpre := hfresh.first hseen'
        refine ⟨_, p', order ++ [(t, .take (e.data, e.handler))],
          h.returned hinv' haddr hnumbers (fun u => ?_) ?_ fun e₁ he₁ => ?_⟩
        · rw [List.filter_append, filter_call]
        · rw [List.map_append, play_append, hplay, hafter, hpre]
          rfl
        · exact (h.windows (!t) e₁ he₁).snoc (by cases t <;> simp) _
      · -- the other call still has what it has read at the front
        refine ⟨_, p', order', h.returned hinv' haddr hnumbers hown hplays fun e₁ he₁ => ?_⟩
        rw [hother] at he₁
        obtain rfl := Option.some.inj he₁
        exact Fresh.window (hplays ▸ hfresh.sublist hsub)

/-- **The invariant** holds for every interleaving of sound steps. -/
theorem orderly_interleaved (h : Starts plat pool st)
    (hrun : Interleaved plat threads pool (Shared.Sound plat threads pool) st st') :
    ∃ f p order, Orderly plat pool (st.pending pool) st' f p order := by
  induction hrun with
  | start =>
    obtain ⟨f, p, hstart⟩ := orderly_start h
    exact ⟨f, p, [], hstart⟩
  | step st₁ st₂ m _ hok hstep ih =>
    obtain ⟨f, p, order, ho⟩ := ih
    cases m with
    | add t data handler => exact orderly_add ho hok hstep
    | read t runs data handler => exact orderly_read ho hstep
    | body t => exact orderly_body ho hok hstep

end Invariant

/-! ## Section 5: Two runs -/

/-- The pool of the session, with no registration on it. -/
def shared (s : Session) : Shared where
  session := s
  tag     := fun _ => 0
  next    := 0
  errand  := fun _ => none
  deeds   := []
  done    := []

/-- The handles of two threads. -/
def handles (t : Bool) : Nat := if t then 2 else 1

/-- The state after some steps, if they meet the condition and return. -/
def Shared.run (plat : Platform) (threads : Bool → Nat) (pool : Nat) (ok : Shared → Move → Prop)
    [∀ st m, Decidable (ok st m)] : Shared → List Move → Option Shared
  | st, [] => some st
  | st, m :: ms =>
      if ok st m then (st.step plat threads pool m).bind fun st' => st'.run plat threads pool ok ms
      else none

theorem interleaved_run {plat : Platform} {threads : Bool → Nat} {pool : Nat}
    {ok : Shared → Move → Prop} [∀ st m, Decidable (ok st m)] {st : Shared} {ms : List Move} :
    ∀ {st₁ st₂ : Shared}, Interleaved plat threads pool ok st st₁ →
      st₁.run plat threads pool ok ms = some st₂ → Interleaved plat threads pool ok st st₂ := by
  induction ms with
  | nil =>
    intro st₁ st₂ h hrun
    obtain rfl : st₁ = st₂ := by simpa [Shared.run] using hrun
    exact h
  | cons m ms ih =>
    intro st₁ st₂ h hrun
    rw [Shared.run] at hrun
    split at hrun
    · rename_i hok
      obtain ⟨st', hstep, hrest⟩ := Option.bind_eq_some_iff.mp hrun
      exact ih (.step st₁ st' m h hok hstep) hrest
    · cases hrun

theorem starts_shared {plat : Platform} {pool : Nat} {s : Session}
    (h : Reachable plat (Session.Plain plat) s) (hpool : pool ∈ s.addrs)
    (hnone : (shared s).pending pool = []) : Starts plat pool (shared s) := by
  refine ⟨h, hpool, ?_, fun r hr => ?_, fun _ => rfl, rfl, rfl⟩
  · rw [hnone]
    exact List.nodup_nil
  · rw [hnone] at hr
    cases hr

end Spr.MemPool
