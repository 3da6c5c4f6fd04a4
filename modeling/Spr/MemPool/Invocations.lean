import Spr.Framework.Ledger
import Spr.MemPool.Placement
import Spr.MemPool.Registrations

/-! # Every handler once

    What becomes of the cleanups of a pool, from its creation to its end.

    * `posts`, `postsAlong`: what the calls of a run do to the registrations.
    * `Effect`: what one call does to the pool, and to the ledger of its registrations.
    * `Handled`: the handlers called, the cleanups pending and the records on the
      lists, by the ledger.
    * `cleanups_once`: so it is in every run on one pool. -/

namespace Spr.MemPool

open Spr.Words Spr.Chains Spr.Forests Spr.Ledgers Spr.Registries

/-! ## Section 1: Runs on one pool -/

/-- The registrations of a pool, by handler and data. -/
abbrev Book := Ledger (Nat × Nat)

/-- The record that an event says was carved. -/
def Event.recorded : Event → Option Nat
  | .record _ a => some a
  | _ => none

/-- The records that were carved, in order. -/
def recordsOf (evs : List Event) : List Nat := evs.filterMap Event.recorded

/-- The oversized block that an event hands out. -/
def Event.bigBlock (plat : Platform) : Event → Option Nat
  | .handed _ r size => if sprMaxPoolSlot < slotIndex plat size then some r else none
  | _ => none

/-- What a call has logged. -/
def Session.news (s s' : Session) : List Event := s'.world.log.drop s.world.log.length

/-- **What a call does to the registrations**: an oversized block that it hands out is
    registered for `spr_free`. -/
def posts (plat : Platform) (s s' : Session) : Op → List (Post (Nat × Nat))
  | .palloc _ _ _ => ((s.news s').filterMap (Event.bigBlock plat)).map fun r =>
      .enter (plat.sprFree, r)
  | .pcalloc _ _ _ => ((s.news s').filterMap (Event.bigBlock plat)).map fun r =>
      .enter (plat.sprFree, r)
  | .cleanupAdd _ _ data handler => [.enter (handler, data)]
  | .cleanupRun _ _ data handler => [.use (handler, data)]
  | .cleanupRemove _ _ data handler => [.strike (handler, data)]
  | .clear _ _ => [.settle]
  | .destroy _ _ => [.settle]
  | _ => []

/-- What the calls of a run do to them. -/
def postsAlong (plat : Platform) : Session → List Op → List (Post (Nat × Nat))
  | _, [] => []
  | s, op :: ops =>
      match s.exec plat op with
      | none => []
      | some s' => posts plat s s' op ++ postsAlong plat s' ops

/-- **The calls of a run on one pool**: it is made once, without a parent, and cleared by
    its owner. -/
def Session.Solo (plat : Platform) (s : Session) : Op → Prop
  | .create _ _ parent => s.family = .nil ∧ parent = 0
  | .clear thread pool => ∃ m ∈ s.family.toList, m.addr = pool ∧ m.Owned plat thread
  | _ => True

instance (plat : Platform) (s : Session) (op : Op) : Decidable (s.Solo plat op) := by
  unfold Session.Solo
  rcases op <;> infer_instance

/-- Such calls, where no request wraps. -/
def Session.OnOne (plat : Platform) (s : Session) (op : Op) : Prop :=
  s.Lawful plat op ∧ s.Solo plat op ∧ op.Fits plat

instance (plat : Platform) (s : Session) (op : Op) : Decidable (s.OnOne plat op) :=
  inferInstanceAs (Decidable (_ ∧ _ ∧ _))

/-! ## Section 2: One call -/

/-- Nothing is handed out, called or carved for a record. -/
def Event.Idle (e : Event) : Prop := e.hands = false ∧ e.call = none ∧ e.recorded = none

section Idle

variable {plat : Platform} {thread : Nat} {w w' : World} {p p' : Pool} {evs evs' : List Event}

theorem recordsOf_append (evs evs' : List Event) :
    recordsOf (evs ++ evs') = recordsOf evs ++ recordsOf evs' := List.filterMap_append

theorem calls_idle (h : ∀ e ∈ evs, e.Idle) : calls evs = [] :=
  calls_of_notCall fun e he => (h e he).2.1

theorem recordsOf_idle (h : ∀ e ∈ evs, e.Idle) : recordsOf evs = [] :=
  List.filterMap_eq_nil_iff.mpr fun e he => (h e he).2.2

theorem bigBlocks_of_hands (h : ∀ e ∈ evs, e.hands = false) :
    evs.filterMap (Event.bigBlock plat) = [] := by
  refine List.filterMap_eq_nil_iff.mpr fun e he => ?_
  have hno := h e he
  cases e with
  | handed pool r size => cases hno
  | _ => rfl

theorem idle_lock : ∀ e ∈ lockEvents plat thread p, e.Idle := forall_lockEvents ⟨rfl, rfl, rfl⟩

theorem idle_unlock : ∀ e ∈ unlockEvents plat thread p, e.Idle :=
  forall_unlockEvents ⟨rfl, rfl, rfl⟩

/-- The slot path is idle. -/
theorem carving_idle {k size index r : Nat} (hc : Carving plat thread w p k size index r p' w') :
    ∃ evs, w'.log = w.log ++ evs ∧ ∀ e ∈ evs, e.Idle := by
  have hlock : ∀ e ∈ lockEvents plat thread p, e.Idle := idle_lock
  have hunlock : ∀ e ∈ unlockEvents plat thread p, e.Idle := idle_unlock
  cases hc with
  | refused _ hfit hmem hlive hlog =>
    refine ⟨_, hlog, List.forall_mem_append.mpr ⟨hlock, ?_⟩⟩
    exact List.forall_mem_cons.mpr ⟨⟨rfl, rfl, rfl⟩, hunlock⟩
  | fit _ n hfit hlive hlog => exact ⟨_, hlog, List.forall_mem_append.mpr ⟨hlock, hunlock⟩⟩
  | fresh _ a hfit hgrant hlive hlog =>
    refine ⟨_, hlog, List.forall_mem_append.mpr ⟨hlock, ?_⟩⟩
    simp only [List.forall_mem_cons]
    exact ⟨⟨rfl, rfl, rfl⟩, ⟨rfl, rfl, rfl⟩, ⟨rfl, rfl, rfl⟩, hunlock⟩

end Idle

/-- **What a call on the pool `p` does**, by its log `evs`: the posts `ps` to the ledger
    follow the cleanups and the handlers called, and every record stays on the lists. -/
structure Effect (p p' : Pool) (evs : List Event) (ps : List (Post (Nat × Nat))) : Prop where
  pending : ∀ l : Book, p.pending = l.pending.map Prod.snd →
    p'.pending = (ps.foldl Ledger.post l).pending.map Prod.snd
  calls   : ∀ l : Book, p.pending = l.pending.map Prod.snd →
    (ps.foldl Ledger.post l).used.map Prod.snd = l.used.map Prod.snd ++ calls evs
  records : p'.listed.Perm (p.listed ++ recordsOf evs)

section Effects

variable {plat : Platform} {thread data handler : Nat} {w w' : World} {p p' : Pool}
  {evs evs' : List Event}

/-- A call that leaves cleanups and records alone. -/
theorem effect_idle (hcleanups : p'.cleanups = p.cleanups) (hfrees : p'.frees = p.frees)
    (hidle : ∀ e ∈ evs, e.Idle) : Effect p p' evs [] := by
  refine ⟨fun l hl => ?_, fun l _ => ?_, ?_⟩
  · rw [Pool.pending, hcleanups]
    exact hl
  · rw [calls_idle hidle, List.append_nil]
    rfl
  · rw [recordsOf_idle hidle, List.append_nil, Pool.listed, Pool.listed, hcleanups, hfrees]

/-- More that is idle is logged. -/
theorem Effect.idle {ps : List (Post (Nat × Nat))} (h : Effect p p' evs ps)
    {pre post : List Event} (hpre : ∀ e ∈ pre, e.Idle) (hpost : ∀ e ∈ post, e.Idle) :
    Effect p p' (pre ++ evs ++ post) ps := by
  refine ⟨h.pending, fun l hl => ?_, ?_⟩
  · rw [h.calls l hl, calls_append, calls_append, calls_idle hpre, calls_idle hpost,
      List.append_nil, List.nil_append]
  · rw [recordsOf_append, recordsOf_append, recordsOf_idle hpre, recordsOf_idle hpost,
      List.append_nil, List.nil_append]
    exact h.records

/-- **A registration.** -/
theorem adding_effect (ha : Adding plat thread w p data handler p' w') :
    ∃ evs, w'.log = w.log ++ evs ∧ (∀ e ∈ evs, e.hands = false) ∧
      Effect p p' evs [.enter (handler, data)] := by
  have hlock : ∀ e ∈ lockEvents plat thread p, e.Idle := idle_lock
  have hunlock : ∀ e ∈ unlockEvents plat thread p, e.Idle := idle_unlock
  cases ha with
  | recycled _ a fs hfrees hlive hlog =>
    -- a record moves from one list to the other
    have hidle := List.forall_mem_append.mpr ⟨hlock, hunlock⟩
    refine ⟨_, hlog, fun e he => (hidle e he).1, fun l hl => ?_, fun l _ => ?_, ?_⟩
    · show (handler, data) :: p.pending = (handler, data) :: l.pending.map Prod.snd
      rw [hl]
    · rw [calls_idle hidle, List.append_nil]
      rfl
    · rw [recordsOf_idle hidle, List.append_nil, withRecords_listed, Pool.listed, hfrees]
      exact List.perm_middle.symm
  | carved _ w₁ a p₁ hfrees hne hcarve hlive hlog =>
    obtain ⟨evs, hlog₁, hidle⟩ := carving_idle hcarve
    -- a new record is logged, and in use
    have hfront := List.forall_mem_append.mpr ⟨hlock, hidle⟩
    refine ⟨lockEvents plat thread p ++ evs ++ .record p.addr a :: unlockEvents plat thread p,
      by simp [hlog, hlog₁], ?_, fun l hl => ?_, fun l _ => ?_, ?_⟩
    · refine List.forall_mem_append.mpr ⟨fun e he => (hfront e he).1, ?_⟩
      exact List.forall_mem_cons.mpr ⟨rfl, fun e he => (hunlock e he).1⟩
    · show (handler, data) :: p.pending = (handler, data) :: l.pending.map Prod.snd
      rw [hl]
    · rw [calls_append, calls_idle hfront]
      show _ = _ ++ ([] ++ calls (unlockEvents plat thread p))
      rw [calls_unlockEvents, List.append_nil]
      exact (List.append_nil _).symm
    · rw [recordsOf_append, recordsOf_idle hfront]
      show List.Perm _ (_ ++ ([] ++ (a :: recordsOf (unlockEvents plat thread p))))
      rw [recordsOf_idle hunlock, withRecords_listed, Pool.listed, hfrees, List.nil_append,
        List.append_nil, List.append_nil]
      exact (List.perm_append_singleton a _).symm

/-- The slot path leaves the two lists alone. -/
theorem carving_lists {k size index r : Nat} (hc : Carving plat thread w p k size index r p' w') :
    p'.cleanups = p.cleanups ∧ p'.frees = p.frees := by
  cases hc with
  | refused => exact ⟨rfl, rfl⟩
  | fit => exact ⟨rfl, rfl⟩
  | fresh =>
    unfold Pool.addNode
    split <;> exact ⟨rfl, rfl⟩

/-- **A block.** -/
theorem allocating_effect {size r : Nat}
    (ha : Allocating plat thread w p size r p' w') :
    ∃ evs, w'.log = w.log ++ evs ∧ (∀ e ∈ evs, e.hands = false) ∧
      Effect p p' evs (if sprMaxPoolSlot < slotIndex plat size ∧ r ≠ 0 then
        [.enter (plat.sprFree, r)] else []) := by
  have hunlock : ∀ e ∈ unlockEvents plat thread p, e.Idle := idle_unlock
  cases ha with
  | rejected halign =>
    rw [if_neg fun h => h.2 rfl]
    exact ⟨_, rfl, fun e he => (hunlock e he).1, effect_idle rfl rfl hunlock⟩
  | slots _ _ _ halign hindex hcarve =>
    rw [if_neg fun h => absurd h.1 (Nat.not_lt.mpr hindex)]
    obtain ⟨evs, hlog, hidle⟩ := carving_idle hcarve
    obtain ⟨hcleanups, hfrees⟩ := carving_lists hcarve
    exact ⟨evs, hlog, fun e he => (hidle e he).1, effect_idle hcleanups hfrees hidle⟩
  | refused halign hindex =>
    rw [if_neg fun h => h.2 rfl]
    have hidle : ∀ e ∈ .refused (sprAlignAllocation size) :: unlockEvents plat thread p, e.Idle :=
      List.forall_mem_cons.mpr ⟨⟨rfl, rfl, rfl⟩, hunlock⟩
    exact ⟨_, by simp, fun e he => (hidle e he).1, effect_idle rfl rfl hidle⟩
  | oversize _ _ w₁ halign hindex hgrant hadd =>
    rw [if_pos ⟨hindex, hgrant.1⟩]
    -- a region of its own is registered for `spr_free`
    obtain ⟨evs, hlog, hhands, heffect⟩ := adding_effect hadd
    have hgot : ∀ e ∈ [Event.obtained r (sprAlignAllocation size)], e.Idle := by
      rintro e he
      rw [List.mem_singleton.mp he]
      exact ⟨rfl, rfl, rfl⟩
    refine ⟨[.obtained r (sprAlignAllocation size)] ++ evs ++ unlockEvents plat thread p,
      by simp [hlog], ?_, heffect.idle hgot hunlock⟩
    simp only [List.forall_mem_append]
    exact ⟨⟨fun e he => (hgot e he).1, hhands⟩, fun e he => (hunlock e he).1⟩

/-- A record that is taken: where it stands among the pending ones. -/
theorem pending_split {rs rs' : List Record} {r : Record} (hsplit : p.cleanups = rs ++ r :: rs')
    (hmatch : r.Matches data handler) (hfirst : ∀ s ∈ rs, ¬ s.Matches data handler) :
    (handler, data) ∈ p.pending ∧
      without id (handler, data) p.pending = (rs ++ rs').map fun r => (r.handler, r.data) := by
  have hkey : (r.handler, r.data) = (handler, data) := Prod.ext hmatch.2 hmatch.1
  have hout : ∀ b ∈ rs.map fun r => (r.handler, r.data), id b ≠ (handler, data) := by
    intro b hb heq
    obtain ⟨s, hs, rfl⟩ := List.mem_map.mp hb
    injection heq with hh hd
    exact hfirst s hs ⟨hd, hh⟩
  rw [Pool.pending, hsplit, List.map_append, List.map_cons, hkey]
  refine ⟨List.mem_append_right _ List.mem_cons_self, ?_⟩
  rw [without_split hout rfl, List.map_append]

theorem pending_absent (hno : ∀ r ∈ p.cleanups, ¬ r.Matches data handler) :
    (handler, data) ∉ p.pending ∧ without id (handler, data) p.pending = p.pending := by
  have hout : ∀ b ∈ p.pending, id b ≠ (handler, data) := by
    intro b hb heq
    obtain ⟨r, hr, rfl⟩ := List.mem_map.mp hb
    injection heq with hh hd
    exact hno r hr ⟨hd, hh⟩
  exact ⟨fun hin => hout _ hin rfl, without_of_notMem hout⟩

/-- The records after one is taken. -/
theorem taken_listed {rs rs' : List Record} {r : Record} (hsplit : p.cleanups = rs ++ r :: rs') :
    (p.withRecords (rs ++ rs') (r.addr :: p.frees)).listed.Perm p.listed := by
  rw [withRecords_listed, Pool.listed, hsplit, List.map_append, List.map_append, List.map_cons,
    List.append_assoc, List.append_assoc, List.cons_append]
  refine List.Perm.append_left _ ?_
  exact List.perm_middle

/-- **A handler is run.** -/
theorem run_effect (ht : Taking plat thread (useRun plat) w p data handler p' w') :
    ∃ evs, w'.log = w.log ++ evs ∧ Effect p p' evs [.use (handler, data)] := by
  have hlock : ∀ e ∈ lockEvents plat thread p, e.Idle := idle_lock
  have hunlock : ∀ e ∈ unlockEvents plat thread p, e.Idle := idle_unlock
  cases ht with
  | absent hno =>
    obtain ⟨hout, hsame⟩ := pending_absent hno
    refine ⟨_, rfl, fun l hl => ?_, fun l hl => ?_, ?_⟩
    · show _ = (without Prod.snd (handler, data) l.pending).map Prod.snd
      rw [map_without, ← hl, hsame]
    · show (l.used ++ newest (handler, data) l.pending).map Prod.snd = _
      rw [List.map_append, map_newest, ← hl, if_neg hout, calls_idle hlock]
    · rw [recordsOf_idle hlock, List.append_nil]
  | found rs rs' r _ hsplit hmatch hfirst hlive hlog =>
    obtain ⟨hin, herase⟩ := pending_split hsplit hmatch hfirst
    -- the one handler that is called is the newest match
    have hcalls : calls (lockEvents plat thread p ++ callEvents plat r ++
        unlockEvents plat thread p) = [(handler, data)] := by
      have hone := calls_callEvents plat [r]
      rw [List.flatMap_cons, List.flatMap_nil, List.append_nil] at hone
      rw [calls_append, calls_append, calls_lockEvents, calls_unlockEvents, hone]
      show [(r.handler, r.data)] = _
      rw [hmatch.1, hmatch.2]
    have hrecords : recordsOf (callEvents plat r) = [] := by
      unfold callEvents
      by_cases hf : r.handler = plat.sprFree
      · rw [if_pos hf]
        rfl
      · rw [if_neg hf]
        rfl
    refine ⟨_, hlog, fun l hl => ?_, fun l hl => ?_, ?_⟩
    · show _ = (without Prod.snd (handler, data) l.pending).map Prod.snd
      rw [map_without, ← hl, herase]
      rfl
    · show (l.used ++ newest (handler, data) l.pending).map Prod.snd = _
      rw [List.map_append, map_newest, ← hl, if_pos hin]
      exact congrArg _ hcalls.symm
    · rw [recordsOf_append, recordsOf_append, recordsOf_idle hlock, recordsOf_idle hunlock]
      show List.Perm _ (_ ++ ([] ++ recordsOf (callEvents plat r) ++ []))
      rw [hrecords]
      exact (taken_listed hsplit).trans (List.append_nil _ ▸ List.Perm.refl _)

/-- **A cleanup is taken off.** -/
theorem remove_effect (ht : Taking plat thread useRemove w p data handler p' w') :
    ∃ evs, w'.log = w.log ++ evs ∧ Effect p p' evs [.strike (handler, data)] := by
  have hlock : ∀ e ∈ lockEvents plat thread p, e.Idle := idle_lock
  have hunlock : ∀ e ∈ unlockEvents plat thread p, e.Idle := idle_unlock
  cases ht with
  | absent hno =>
    obtain ⟨hout, hsame⟩ := pending_absent hno
    refine ⟨_, rfl, fun l hl => ?_, fun l _ => ?_, ?_⟩
    · show _ = (without Prod.snd (handler, data) l.pending).map Prod.snd
      rw [map_without, ← hl, hsame]
    · rw [calls_idle hlock, List.append_nil]
      rfl
    · rw [recordsOf_idle hlock, List.append_nil]
  | found rs rs' r _ hsplit hmatch hfirst hlive hlog =>
    obtain ⟨-, herase⟩ := pending_split hsplit hmatch hfirst
    have hidle : ∀ e ∈ lockEvents plat thread p ++ useRemove.events r ++
        unlockEvents plat thread p, e.Idle := by
      simp only [List.forall_mem_append]
      exact ⟨⟨hlock, fun e he => (List.not_mem_nil he).elim⟩, hunlock⟩
    refine ⟨_, hlog, fun l hl => ?_, fun l _ => ?_, ?_⟩
    · show _ = (without Prod.snd (handler, data) l.pending).map Prod.snd
      rw [map_without, ← hl, herase]
      rfl
    · rw [calls_idle hidle, List.append_nil]
      rfl
    · rw [recordsOf_idle hidle, List.append_nil]
      exact taken_listed hsplit

end Effects

/-! ## Section 3: Clear and destroy -/

/-- The event resets or gives back a memnode. -/
def Event.releases : Event → Bool
  | .reset _ => true
  | .deallocated _ => true
  | _ => false

/-- **The handlers come first**: no memnode is reset or given back before the last call. -/
def CallsFirst (evs : List Event) : Prop :=
  ∃ pre post, evs = pre ++ post ∧ calls post = [] ∧ ∀ e ∈ pre, e.releases = false

section Settling

variable {plat : Platform} {thread : Nat} {p : Pool}

theorem calls_release (rs : List Record) :
    ∀ e ∈ rs.flatMap (callEvents plat), e.releases = false ∧ e.recorded = none := by
  intro e he
  obtain ⟨r, -, hr⟩ := List.mem_flatMap.mp he
  unfold callEvents at hr
  rcases List.mem_cons.mp hr with rfl | hr
  · exact ⟨rfl, rfl⟩
  · by_cases hf : r.handler = plat.sprFree
    · rw [if_pos hf] at hr
      rw [List.mem_singleton.mp hr]
      exact ⟨rfl, rfl⟩
    · rw [if_neg hf] at hr
      cases hr

/-- The records of a pool that is cleared are in reserve. -/
theorem clear_listed (p : Pool) : p.clear.listed.Perm p.listed := by
  show ([] ++ ((p.cleanups.map Record.addr).reverse ++ p.frees)).Perm _
  rw [List.nil_append, Pool.listed]
  exact (List.reverse_perm _).append_right _

/-- What a clear logs: the calls, and then what is idle. -/
theorem clearEvents_split (howned : Owned plat thread p) :
    ∃ pre post, clearEvents plat thread p [] = pre ++ post ∧ calls pre = p.pending ∧
      recordsOf pre = [] ∧ (∀ e ∈ pre, e.releases = false) ∧ ∀ e ∈ post, e.Idle := by
  refine ⟨.visited p.addr :: (lockEvents plat thread p ++ p.cleanups.flatMap (callEvents plat)),
    (p.slotAddrs 0).map .reset ++ .cleared p.addr :: unlockEvents plat thread p, ?_, ?_, ?_, ?_, ?_⟩
  · rw [clearEvents, if_pos howned]
    simp
  · show calls (lockEvents plat thread p ++ p.cleanups.flatMap (callEvents plat)) = _
    rw [calls_append, calls_lockEvents, calls_callEvents plat]
    rfl
  · show recordsOf (lockEvents plat thread p ++ p.cleanups.flatMap (callEvents plat)) = _
    rw [recordsOf_append, recordsOf_idle idle_lock, List.nil_append]
    exact List.filterMap_eq_nil_iff.mpr fun e he => (calls_release p.cleanups e he).2
  · refine List.forall_mem_cons.mpr ⟨rfl, List.forall_mem_append.mpr ⟨forall_lockEvents rfl, ?_⟩⟩
    exact fun e he => (calls_release p.cleanups e he).1
  · refine List.forall_mem_append.mpr ⟨fun e he => ?_, ?_⟩
    · obtain ⟨a, -, rfl⟩ := List.mem_map.mp he
      exact ⟨rfl, rfl, rfl⟩
    · exact List.forall_mem_cons.mpr ⟨⟨rfl, rfl, rfl⟩, idle_unlock⟩

/-- **A clear.** -/
theorem clear_effect (howned : Owned plat thread p) :
    Effect p p.clear (clearEvents plat thread p []) [.settle] := by
  obtain ⟨pre, post, hsplit, hcalls, hrecords, -, hidle⟩ := clearEvents_split howned
  rw [hsplit]
  refine ⟨fun l _ => rfl, fun l hl => ?_, ?_⟩
  · show (l.used ++ l.pending).map Prod.snd = _
    rw [List.map_append, ← hl, calls_append, hcalls, calls_idle hidle, List.append_nil]
  · rw [recordsOf_append, hrecords, recordsOf_idle hidle, List.append_nil, List.append_nil]
    exact clear_listed p

/-- What a destroy logs: the calls, and then the memnodes. -/
theorem destroyEvents_calls (howned : Owned plat thread p) :
    calls (destroyEvents plat .plain thread p []) = p.pending ∧
      CallsFirst (destroyEvents plat .plain thread p []) := by
  have hlast : calls ((p.slotAddrs 0).flatMap deallocEvents ++ [.destroyed p.addr]) = [] := by
    refine calls_of_notCall (List.forall_mem_append.mpr ⟨fun e he => ?_, fun e he => ?_⟩)
    · obtain ⟨a, -, ha⟩ := List.mem_flatMap.mp he
      unfold deallocEvents at ha
      rcases List.mem_cons.mp ha with rfl | ha
      · rfl
      · rw [List.mem_singleton.mp ha]
        rfl
    · rw [List.mem_singleton.mp he]
      rfl
  have hevs : destroyEvents plat .plain thread p []
      = (.visited p.addr :: p.cleanups.flatMap (callEvents plat)) ++
        ((p.slotAddrs 0).flatMap deallocEvents ++ [.destroyed p.addr]) := by
    rw [destroyEvents_plain howned]
    simp
  rw [hevs]
  constructor
  · rw [calls_append, hlast, List.append_nil]
    exact calls_callEvents plat p.cleanups
  · refine ⟨_, _, rfl, hlast, List.forall_mem_cons.mpr ⟨rfl, fun e he => ?_⟩⟩
    exact (calls_release p.cleanups e he).1

end Settling

/-! ## Section 4: The ledger of a run -/

/-- **The ledger follows the run**: at most one pool, whose cleanups are the pending
    entries; the handlers called are the entries used; and the lists hold the records. -/
structure Follows (log : List Event) (f : Forest Pool) (l : Book) : Prop where
  lone    : f = .nil ∨ ∃ p, f = .node p .nil .nil
  pending : f.toList.flatMap Pool.pending = l.pending.map Prod.snd
  calls   : calls log = l.used.map Prod.snd
  records : (f.toList.flatMap Pool.listed).Perm (recordsOf log)

section Follows

variable {plat : Platform} {s s' : Session} {f f' : Forest Pool} {p p' : Pool} {l : Book}
  {log evs : List Event} {op : Op}

theorem Follows.only (h : Follows log f l) (hp : p ∈ f.toList) : f = .node p .nil .nil := by
  rcases h.lone with rfl | ⟨q, rfl⟩
  · cases hp
  · rw [List.mem_singleton.mp hp]

/-- The one pool has no children. -/
theorem childrenAt_lone (p : Pool) :
    (Forest.node p .nil .nil).childrenAt Pool.addr p.addr = .nil := by
  simp [Forest.childrenAt]

/-- A clear or a destroy of it finds a tree of one pool. -/
theorem Follows.lone_tree (h : Follows log f l) (hinv : Inv plat s f) (hp : p ∈ f.toList) :
    LinkedPools p.child .nil ∧ PoolsAt plat s.world (p :: (Forest.nil.toList ++ [])) := by
  have hlink := rooted_childrenAt hinv.rooted hinv.nodup hp
  obtain rfl := h.only hp
  rw [childrenAt_lone] at hlink
  exact ⟨hlink, hinv.pools⟩

/-- **A call on the pool.** -/
theorem Follows.effect {ps : List (Post (Nat × Nat))} (h : Follows log (.node p .nil .nil) l)
    (he : Effect p p' evs ps) :
    Follows (log ++ evs) (.node p' .nil .nil) (ps.foldl Ledger.post l) := by
  have hflat : ∀ (q : Pool) {β : Type} (g : Pool → List β),
      (Forest.node q .nil .nil).toList.flatMap g = g q := fun q _ g => List.append_nil _
  have hpending := h.pending
  have hrecords := h.records
  rw [hflat] at hpending hrecords
  refine ⟨Or.inr ⟨p', rfl⟩, ?_, ?_, ?_⟩
  · rw [hflat]
    exact he.pending l hpending
  · rw [calls_append, he.calls l hpending, h.calls]
  · rw [hflat, recordsOf_append]
    exact he.records.trans (hrecords.append_right _)

/-- More that is neither called nor carved is logged. -/
theorem Follows.quiet (h : Follows log f l) (hcalls : MemPool.calls evs = [])
    (hrecords : recordsOf evs = []) : Follows (log ++ evs) f l := by
  refine ⟨h.lone, h.pending, ?_, ?_⟩
  · rw [calls_append, hcalls, List.append_nil]
    exact h.calls
  · rw [recordsOf_append, hrecords, List.append_nil]
    exact h.records

theorem replace_only (p p' : Pool) :
    replace (.node p .nil .nil) p p' = .node p' .nil .nil := by
  simp [replace, Forest.splice]

theorem news_append (s' : Session) (hlog : s'.world.log = s.world.log ++ evs) :
    s.news s' = evs := by
  rw [Session.news, hlog, List.drop_left]

/-- **An allocation**, with what it hands out. -/
theorem Follows.alloc {thread size r : Nat} {w' : World} (h : Follows s.world.log f l)
    (hp : p ∈ f.toList) (ha : Allocating plat thread s.world p size r p' w')
    (hlog : s'.world.log = (handOut p.addr r size w').log) :
    Follows s'.world.log (replace f p p')
      ((((s.news s').filterMap (Event.bigBlock plat)).map fun r =>
        Post.enter (plat.sprFree, r)).foldl Ledger.post l) := by
  obtain ⟨evs, hevs, hhands, heffect⟩ := allocating_effect ha
  obtain rfl := h.only hp
  have hfollows := h.effect heffect
  rw [replace_only]
  by_cases hr : r = 0
  · -- nothing is handed out
    have hsame : s'.world.log = s.world.log ++ evs := by rw [hlog, handOut, if_pos hr, hevs]
    rw [news_append _ hsame, bigBlocks_of_hands hhands, hsame]
    rwa [if_neg fun h => h.2 hr] at hfollows
  · have hmore : s'.world.log = s.world.log ++ (evs ++ [.handed p.addr r size]) := by
      rw [hlog, handOut, if_neg hr, emit_log, hevs, List.append_assoc]
    have hblocks : (evs ++ [Event.handed p.addr r size]).filterMap (Event.bigBlock plat)
        = if sprMaxPoolSlot < slotIndex plat size then [r] else [] := by
      rw [List.filterMap_append, bigBlocks_of_hands hhands, List.nil_append]
      by_cases hbig : sprMaxPoolSlot < slotIndex plat size
      · simp [Event.bigBlock, hbig]
      · simp [Event.bigBlock, hbig]
    rw [news_append _ hmore, hblocks, hmore, ← List.append_assoc]
    have hnext : Follows (s.world.log ++ evs ++ [.handed p.addr r size]) _ _ :=
      hfollows.quiet rfl rfl
    by_cases hbig : sprMaxPoolSlot < slotIndex plat size
    · rw [if_pos ⟨hbig, hr⟩] at hnext
      rw [if_pos hbig]
      exact hnext
    · rw [if_neg fun h => hbig h.1] at hnext
      rw [if_neg hbig]
      exact hnext

/-- A call on one pool. -/
theorem Follows.call {ps : List (Post (Nat × Nat))} {w' : World} (h : Follows s.world.log f l)
    (hp : p ∈ f.toList) (hlog : w'.log = s.world.log ++ evs) (he : Effect p p' evs ps) :
    Follows w'.log (replace f p p') (ps.foldl Ledger.post l) := by
  obtain rfl := h.only hp
  rw [hlog, replace_only]
  exact h.effect he

/-- The owner of the pool, as its callers know it. -/
theorem Inv.owned_pool {thread : Nat} (h : Inv plat s f) (hp : p ∈ f.toList)
    (howned : ∃ m ∈ s.family.toList, m.addr = p.addr ∧ m.Owned plat thread) :
    Owned plat thread p := by
  obtain ⟨m, hm, haddr, howned⟩ := howned
  rw [← h.family, Forest.toList_map] at hm
  obtain ⟨q, hq, rfl⟩ := List.mem_map.mp hm
  obtain rfl := List.inj_on_of_nodup_map h.nodup hq hp haddr
  exact howned

/-- **Every step of a run on one pool** is followed by the ledger. -/
theorem step_follows (h : Follows s.world.log f l) (hinv : Inv plat s f)
    (hop : s.OnOne plat op) (hs : Step plat s f op s' f') (hinv' : Inv plat s' f') :
    Follows s'.world.log f' ((posts plat s s' op).foldl Ledger.post l) := by
  obtain ⟨⟨-, hkeeps, -⟩, hsolo, -⟩ := hop
  -- there is one pool at most, so a step is one on that pool
  have hnone : s.family = .nil → f = .nil := by
    intro hnil
    have hmap := hinv.family.trans hnil
    cases f with
    | nil => rfl
    | node q cs bs => cases hmap
  cases hs with
  | createFailed thread size parent w' evs hevs hlog =>
    show Follows w'.log f l
    rw [hlog]
    cases hevs <;> exact h.quiet rfl rfl
  | createRoot thread size a w' hgrant hindex hlog =>
    obtain rfl := hnone hsolo.1
    show Follows w'.log _ l
    rw [hlog]
    have hlogged : Follows (s.world.log ++ [.obtained a (createBytes plat size), .allocated a,
      .registered (a + sizeofMemnode) a]) .nil l := h.quiet rfl rfl
    exact ⟨Or.inr ⟨_, rfl⟩, hlogged.pending, hlogged.calls, hlogged.records⟩
  | createChild thread size a q w' hq hgrant hindex hlog =>
    obtain rfl := hnone hsolo.1
    cases hq
  | addChild p q w' hp hq hne hout hlog => exact hkeeps.elim
  | palloc thread size r p p' w' hp halloc => exact h.alloc hp halloc rfl
  | pcalloc thread size r p p' w' hp halloc =>
    refine h.alloc hp halloc ?_
    unfold handOut clearBlock
    split <;> rfl
  | add thread data handler p p' w' hp hadd =>
    obtain ⟨evs, hlog, -, heffect⟩ := adding_effect hadd
    exact h.call hp hlog heffect
  | run thread data handler p p' w' hp htake =>
    obtain ⟨evs, hlog, heffect⟩ := run_effect htake
    exact h.call hp hlog heffect
  | remove thread data handler p p' w' hp htake =>
    obtain ⟨evs, hlog, heffect⟩ := remove_effect htake
    exact h.call hp hlog heffect
  | clear thread p w' hp hlog =>
    have howned := hinv.owned_pool hp hsolo
    obtain rfl := h.only hp
    have htree : (Forest.node p .nil .nil).splice Pool.addr p.addr (clearTree plat thread)
        = .node p.clear .nil .nil := by
      simp [Forest.splice, clearTree, howned, clearForest]
    rw [childrenAt_lone] at hlog
    rw [htree]
    show Follows w'.log _ _
    rw [hlog]
    exact h.effect (clear_effect howned)
  | destroy thread p w' hp howned hlog => exact hkeeps.elim
  | write addr value => exact h

/-- A run keeps the invariant, and the ledger follows it. -/
theorem run_follows {ops : List Op} : ∀ {s s' : Session} {f : Forest Pool} {l : Book},
    Inv plat s f → Follows s.world.log f l →
    s.run plat (fun s op => s.OnOne plat op ∧ s.OffRecords plat op) ops = some s' →
    ∃ f', Inv plat s' f' ∧
      Follows s'.world.log f' ((postsAlong plat s ops).foldl Ledger.post l) := by
  induction ops with
  | nil =>
    intro s s' f l hinv h hrun
    obtain rfl : s = s' := by simpa [Session.run] using hrun
    exact ⟨f, hinv, h⟩
  | cons op ops ih =>
    intro s s' f l hinv h hrun
    rw [Session.run] at hrun
    split at hrun
    · rename_i hop
      obtain ⟨s₁, hexec, hrest⟩ := Option.bind_eq_some_iff.mp hrun
      have hplain : s.Plain plat op := hop.1.1.plain hop.1.2.2 hop.2
      obtain ⟨hlegal, hclean, hroots, -⟩ := hplain
      obtain ⟨f₁, hs, hinv₁⟩ := exec_step hinv hlegal hclean hroots (fun hd => by
        cases op with
        | destroy thread pool => exact hop.1.1.2.1.elim
        | _ => exact hd.elim) hexec
      have hnext := ih hinv₁ (step_follows h hinv hop.1 hs hinv₁) hrest
      rw [postsAlong, hexec, List.foldl_append]
      exact hnext
    · cases hrun

/-- **What the ledger says of a state**: which handlers have been called, each with its own
    data and in which order, which cleanups are pending, and that the two lists are
    acyclic, disjoint and hold every record that was carved. -/
structure Handled (s : Session) (l : Book) : Prop where
  sound   : l.Sound
  calls   : calls s.world.log = l.used.map Prod.snd
  pending : ∀ pool ∈ s.addrs, pendingAt s.world pool = l.pending.map Prod.snd
  lists   : ∀ pool ∈ s.addrs, ∃ cs fs, Chain s.world.mem 0 (s.world.mem (poolCleanups pool)) cs ∧
    Chain s.world.mem 0 (s.world.mem (poolFreeCleanups pool)) fs ∧ (cs ++ fs).Nodup ∧
      (cs ++ fs).Perm (recordsOf s.world.log)

theorem Follows.handled (h : Follows s.world.log f l) (hinv : Inv plat s f) (hsound : l.Sound) :
    Handled s l := by
  refine ⟨hsound, h.calls, fun pool hpool => ?_, fun pool hpool => ?_⟩
  · obtain ⟨p, hp, rfl⟩ := hinv.find hpool
    have hpending := h.pending
    rw [h.only hp] at hpending
    rw [pendingAt_eq (hinv.pools.pool p hp), ← hpending]
    exact (List.append_nil _).symm
  · obtain ⟨p, hp, rfl⟩ := hinv.find hpool
    have hpw := hinv.pools.pool p hp
    have hrecords := h.records
    rw [h.only hp] at hrecords
    refine ⟨_, _, hpw.rep.records.cleanups, hpw.rep.records.frees, hpw.wf.placed.nodup, ?_⟩
    rwa [Forest.toList_node, List.flatMap_cons, Forest.toList_nil, List.append_nil,
      List.flatMap_nil, List.append_nil] at hrecords

/-- The call clears the pool or destroys it. -/
def Op.Settles : Op → Prop
  | .clear _ _ => True
  | .destroy _ _ => True
  | _ => False

/-- **The end of a round**: all that is pending is called, newest first and before any
    memnode is reset or given back. -/
theorem settle_follows (h : Follows s.world.log f l) (hinv : Inv plat s f)
    (hop : op.Settles) (hlegal : s.Legal plat op) (hsolo : s.Solo plat op) :
    ∃ s', s.exec plat op = some s' ∧
      calls s'.world.log = (l.post .settle).used.map Prod.snd ∧ CallsFirst (s.news s') := by
  -- with one pool, what is pending in it is all that is pending
  have hcalls : ∀ {p : Pool} {log evs : List Event}, p ∈ f.toList → log = s.world.log ++ evs →
      calls evs = p.pending → calls log = (l.post .settle).used.map Prod.snd := by
    intro p log evs hp hlog hevs
    have hpending := h.pending
    rw [h.only hp] at hpending
    have hall : p.pending = l.pending.map Prod.snd := by
      rw [← hpending]
      exact (List.append_nil _).symm
    rw [hlog, calls_append, h.calls, hevs, hall]
    exact (List.map_append).symm
  cases op with
  | clear thread pool =>
    obtain ⟨p, hp, rfl⟩ := hinv.find hlegal
    have howned := hinv.owned_pool hp hsolo
    obtain ⟨hlink, hone⟩ := h.lone_tree hinv hp
    obtain ⟨w', hrun, -, hlog, -⟩ := sprPoolClear_spec thread hlink hone
    obtain ⟨pre, post, hsplit, hpre, -, hfirst, hidle⟩ := clearEvents_split howned
    refine ⟨⟨w', s.family⟩, by simp only [Session.exec, hrun, returned], hcalls hp hlog ?_, ?_⟩
    · show calls (clearEvents plat thread p []) = _
      rw [hsplit, calls_append, hpre, calls_idle hidle, List.append_nil]
    · rw [news_append _ hlog]
      exact ⟨pre, post, hsplit, calls_idle hidle, hfirst⟩
  | destroy thread pool =>
    have hpool : pool ∈ s.addrs := by
      obtain ⟨m, hm, rfl, -⟩ := hlegal
      exact List.mem_map_of_mem hm
    obtain ⟨p, hp, rfl⟩ := hinv.find hpool
    have howned := hinv.owned_pool hp hlegal
    obtain ⟨hlink, hone⟩ := h.lone_tree hinv hp
    obtain ⟨w', hrun, -, hlog, -⟩ := sprPoolDestroy_spec .plain thread hlink hone
    have hrun' : sprPoolDestroy plat thread p.addr s.world = .ok () w' := hrun
    obtain ⟨hpending, hfirst⟩ := destroyEvents_calls howned
    refine ⟨⟨w', s.family.remove Member.addr p.addr⟩,
      by simp only [Session.exec, hrun', returned], hcalls hp hlog hpending, ?_⟩
    rw [news_append _ hlog]
    exact hfirst
  | _ => exact hop.elim

/-- **Every handler once.**  In a run on one pool whose calls cut nothing off memory in which
    a record lies, the ledger tells which handlers have been called and which are pending,
    and every registration is in one place of it; a clear or a destroy returns and calls all
    that are pending, newest first and before any memnode is reset or given back. -/
theorem cleanups_once (plat : Platform) (s₀ s : Session) (ops : List Op) (h₀ : Initial s₀)
    (hrun : s₀.run plat (fun s op => s.OnOne plat op ∧ s.OffRecords plat op) ops = some s) :
    Handled s (ledger (postsAlong plat s₀ ops)) ∧
    ∀ op, op.Settles → s.Legal plat op → s.Solo plat op → ∃ s', s.exec plat op = some s' ∧
      (ledger (postsAlong plat s₀ ops ++ [.settle])).Sound ∧
      (ledger (postsAlong plat s₀ ops ++ [.settle])).pending = [] ∧
      calls s'.world.log = (ledger (postsAlong plat s₀ ops ++ [.settle])).used.map Prod.snd ∧
      CallsFirst (s.news s') := by
  have hfollows : Follows s₀.world.log .nil (ledger ([] : List (Post (Nat × Nat)))) := by
    refine ⟨Or.inl rfl, rfl, ?_, ?_⟩
    · rw [h₀.log]
      rfl
    · rw [h₀.log]
      exact List.Perm.refl _
  obtain ⟨f, hinv, h⟩ := run_follows (inv_initial h₀) hfollows hrun
  rw [← ledger_append, List.nil_append] at h
  refine ⟨h.handled hinv (ledger_sound _), fun op hop hlegal hsolo => ?_⟩
  obtain ⟨s', hexec, hcalls, hfirst⟩ := settle_follows h hinv hop hlegal hsolo
  rw [ledger_append]
  exact ⟨s', hexec, (ledger_sound _).post .settle, rfl, hcalls, hfirst⟩

/-- Two registrations with the same handler and data, of which one is run, and an oversized
    block. -/
theorem cleanups_once_twice : ∃ s : Session,
    calls s.world.log = [(50, 100)] ∧ pendingAt s.world 65584 = [(77, 131072), (50, 100)] ∧
    ∃ l : Book, Handled s l := by
  have hrun : ((session.run machine (fun s op => s.OnOne machine op ∧ s.OffRecords machine op)
      [.create 1 0 0, .cleanupAdd 1 65584 100 50, .cleanupAdd 1 65584 100 50,
        .cleanupRun 1 65584 100 50, .palloc 1 65584 100000]).any fun s =>
      calls s.world.log = [(50, 100)] ∧
        pendingAt s.world 65584 = [(77, 131072), (50, 100)]) = true := by decide +kernel
  obtain ⟨s, hs, hfacts⟩ := (Option.any_eq_true _ _).mp hrun
  obtain ⟨hcalls, hpending⟩ := of_decide_eq_true hfacts
  exact ⟨s, hcalls, hpending, _, (cleanups_once machine session s _ initial_session hs).1⟩

/-- A clear keeps one record in reserve; of two registrations after it the second is carved
    over the first: at the end the handler 52 is called twice, and the handler 51 never. -/
theorem handler_called_twice : ¬ ∀ (plat : Platform) (s₀ s : Session) (ops : List Op),
    Initial s₀ → s₀.run plat (Session.OnOne plat) ops = some s →
    ∀ op s', op.Settles → s.Legal plat op → s.Solo plat op → s.exec plat op = some s' →
      calls s'.world.log = (ledger (postsAlong plat s₀ ops ++ [.settle])).used.map Prod.snd := by
  intro hall
  have hrun : ((session.run machine (Session.OnOne machine)
      [.create 1 0 0, .cleanupAdd 1 65584 100 50, .clear 1 65584, .cleanupAdd 1 65584 101 51,
        .cleanupAdd 1 65584 102 52]).any fun s =>
      s.Legal machine (.destroy 1 65584) ∧
        (s.exec machine (.destroy 1 65584)).any fun s' =>
          calls s'.world.log = [(50, 100), (52, 102), (52, 102)]) = true := by decide +kernel
  obtain ⟨s, hs, hfacts⟩ := (Option.any_eq_true _ _).mp hrun
  obtain ⟨hlegal, hdestroy⟩ := of_decide_eq_true hfacts
  obtain ⟨s', hexec, hcalls⟩ := (Option.any_eq_true _ _).mp hdestroy
  have htwice : calls s'.world.log = [(50, 100), (52, 102), (52, 102)] := of_decide_eq_true hcalls
  have hposts : (ledger (postsAlong machine session [.create 1 0 0, .cleanupAdd 1 65584 100 50,
      .clear 1 65584, .cleanupAdd 1 65584 101 51, .cleanupAdd 1 65584 102 52] ++
      [.settle])).used.map Prod.snd = [(50, 100), (52, 102), (51, 101)] := by decide +kernel
  have honce := hall machine session s _ initial_session hs (.destroy 1 65584) s' trivial hlegal
    trivial hexec
  rw [htwice, hposts] at honce
  exact absurd honce (by decide)

end Follows

end Spr.MemPool
