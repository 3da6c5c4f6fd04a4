import Spr.MemPool.Cuts
import Spr.MemPool.Placement
import Spr.MemPool.Reach

/-! # Records in place

    Where the records of the pools lie, in every state of runs that clear no pool while
    it has a record on a list.

    * `Session.ClearsBare`: the clears of such runs.
    * `Settled`: every record lies in memory that is handed out.
    * `step_settled`: one call keeps it so, and so the next one cuts nothing off memory in
      which a record lies (`Settled.offRecords`).
    * `RecordsApart`, `records_apart`: the records, the blocks, and no overlap. -/

namespace Spr.MemPool

open Spr.Words Spr.Chains Spr.Forests

/-! ## Section 1: Clears -/

/-- **The call clears no pool that has a record on a list**, in use or in reserve. -/
def Session.ClearsBare (plat : Platform) (s : Session) : Op → Prop
  | .clear thread pool => ∀ q ∈ s.reach plat thread pool, listedAt s.world q = []
  | _ => True

instance (plat : Platform) (s : Session) (op : Op) : Decidable (s.ClearsBare plat op) := by
  unfold Session.ClearsBare
  rcases op <;> infer_instance

/-! ## Section 2: Settled records -/

/-- The records of the pool lie in memory that it has handed out. -/
def Pool.Settled (p : Pool) : Prop := ∀ r ∈ p.listed, p.Used (recordSpan r)

/-- So do those of all pools. -/
def Settled (f : Forest Pool) : Prop := ∀ p ∈ f.toList, p.Settled

section OnePool

variable {plat : Platform} {thread : Nat} {w w' : World} {p p' : Pool}

/-- The same records, or fewer, on the same memnodes. -/
theorem Pool.Settled.of_nodes (h : p.Settled) (hnodes : p'.nodes = p.nodes)
    (hlisted : ∀ r ∈ p'.listed, r ∈ p.listed) : p'.Settled := by
  intro r hr
  obtain ⟨n, hn, hin⟩ := h r (hlisted r hr)
  exact ⟨n, hnodes ▸ hn, hin⟩

/-- **Nothing is found over a record** that lies in memory handed out. -/
theorem Pool.Settled.cleanFor (hset : p.Settled) (h : PoolAt plat w p) (k index : Nat) :
    CleanFor p k index :=
  fun _ hfit r hr => h.fit_apart hfit (hset r hr)

theorem Pool.Settled.cleanRecord (hset : p.Settled) (h : PoolAt plat w p) :
    CleanRecord w p.addr :=
  (cleanRecord_iff h).mpr fun _ => hset.cleanFor h sizeofCleanupNode 0

theorem Pool.Settled.cleanAlloc (hset : p.Settled) (h : PoolAt plat w p) (size : Nat) :
    CleanAlloc plat w p.addr size := by
  intro _
  by_cases hindex : slotIndex plat size ≤ sprMaxPoolSlot
  · rw [if_pos hindex]
    exact (cleanAt_iff h hindex).mpr (hset.cleanFor h _ _)
  · rw [if_neg hindex]
    exact fun _ => hset.cleanRecord h

theorem carving_listed {k size index r : Nat}
    (hc : Carving plat thread w p k size index r p' w') : p'.listed = p.listed := by
  cases hc with
  | refused => rfl
  | fit => rfl
  | fresh => exact addNode_listed ..

/-- A record that is carved is cut off what is free. -/
theorem adding_settled {data handler : Nat} (h : PoolAt plat w p)
    (ha : Adding plat thread w p data handler p' w') (hset : p.Settled) : p'.Settled := by
  cases ha with
  | recycled _ a fs hfrees hlive hlog =>
    refine hset.of_nodes rfl fun r hr => ?_
    rw [withRecords_listed] at hr
    rw [Pool.listed, hfrees]
    simp only [List.map_cons, List.cons_append, List.mem_cons, List.mem_append] at hr ⊢
    tauto
  | carved _ w₁ a p₁ hfrees hne hcarve hlive hlog =>
    have hlock := h.of_eq (v := w.emits (lockEvents plat thread p)) rfl rfl
    obtain ⟨hused, hnew⟩ := carving_used hlock hcarve (record_room plat)
    intro r hr
    rw [withRecords_listed, List.append_nil, List.map_cons, List.mem_cons] at hr
    rcases hr with rfl | hr
    · exact (hnew hne).2.1
    · exact hused _ (hset r (List.mem_append_left _ hr))

/-- An allocation leaves the records where they are. -/
theorem allocating_settled {size r : Nat} (h : PoolAt plat w p) (hfits : SizeFits plat size)
    (ha : Allocating plat thread w p size r p' w') (hset : p.Settled) : p'.Settled := by
  cases ha with
  | rejected halign => exact hset
  | slots r p' w' halign hindex hcarve =>
    intro a ha
    rw [carving_listed hcarve] at ha
    exact (carving_used h hcarve (hfits halign hindex).pages.2.le).1 _ (hset a ha)
  | refused halign hindex => exact hset
  | oversize a p' w₁ halign hindex hgrant hadd =>
    exact adding_settled (h.obtain hgrant (Nat.pos_of_ne_zero halign)) hadd hset

/-- A record that is taken goes to the reserve. -/
theorem taking_settled {use : Use} {data handler : Nat}
    (ht : Taking plat thread use w p data handler p' w') (hset : p.Settled) : p'.Settled := by
  cases ht with
  | absent hno => exact hset
  | found rs rs' r _ hsplit hmatch hfirst hlive hlog =>
    refine hset.of_nodes rfl fun a ha => ?_
    rw [Pool.listed, hsplit]
    simp only [withRecords_listed, List.map_append, List.map_cons, List.mem_append,
      List.mem_cons] at ha ⊢
    tauto

end OnePool

section Steps

variable {plat : Platform} {s s' : Session} {f f' : Forest Pool} {op : Op}

/-- A call on one pool. -/
theorem Settled.replace {p p' : Pool} (hset : Settled f) (h : Inv plat s f) (hp : p ∈ f.toList)
    (hnew : p'.Settled) : Settled (replace f p p') := by
  obtain ⟨rest, hold, -, hperm⟩ := Forest.split_at h.nodup hp
  intro q hq
  rcases List.mem_cons.mp ((hperm fun _ cs => (p', cs)).mem_iff.mp hq) with rfl | hq
  · exact hnew
  · exact hset q (hold.mem_iff.mpr (List.mem_cons_of_mem _ hq))

/-- A pool that the clear goes into has no record. -/
theorem bare_of_cleared {thread : Nat} {p r : Pool} (h : Inv plat s f) (hp : p ∈ f.toList)
    (hbare : s.ClearsBare plat (.clear thread p.addr)) (hr : r ∈ f.toList)
    (hin : .cleared r.addr ∈ clearEvents plat thread p
      (clearLog plat thread (f.childrenAt Pool.addr p.addr))) : r.listed = [] := by
  obtain ⟨q, hq, hdrops⟩ := (hold_clearEvents rfl (hold_clearLog rfl)).mp hin
  have haddr : r.addr = q.addr := by
    rcases hdrops with heq | ⟨a, -, heq⟩
    · exact Event.cleared.inj heq
    · cases heq
  have hreach : r.addr ∈ s.reach plat thread p.addr := by
    rw [h.reach hp, haddr]
    exact List.mem_map_of_mem hq
  rw [← listedAt_eq (h.pools.pool r hr)]
  exact hbare r.addr hreach

/-- A clear of bare pools leaves them bare. -/
theorem clear_settled {thread : Nat} {p : Pool} (h : Inv plat s f) (hp : p ∈ f.toList)
    (hbare : s.ClearsBare plat (.clear thread p.addr)) (hset : Settled f) :
    Settled (f.splice Pool.addr p.addr (clearTree plat thread)) := by
  obtain ⟨rest, hold, -, hnew⟩ := Forest.split_at h.nodup hp
  have hnew := hnew (clearTree plat thread)
  intro q hq
  have hq := hnew.mem_iff.mp hq
  rw [← List.cons_append, List.mem_append] at hq
  rcases hq with hq | hq
  · rcases clearTree_fates clearForest_fates hq with hkept | ⟨r, hr, rfl, hin⟩
    · refine hset q (hold.mem_iff.mpr ?_)
      rw [← List.cons_append]
      exact List.mem_append_left _ hkept
    · -- a pool that is cleared has no record, before the clear or after it
      have hr : r ∈ f.toList := by
        refine hold.mem_iff.mpr ?_
        rw [← List.cons_append]
        exact List.mem_append_left _ hr
      have hnone := bare_of_cleared h hp hbare hr hin
      intro a ha
      have hcleared : r.clear.listed = (r.cleanups.map Record.addr).reverse ++ r.frees := rfl
      rw [Pool.listed, List.append_eq_nil_iff] at hnone
      rw [hcleared, hnone.1, hnone.2] at ha
      cases ha
  · exact hset q (hold.mem_iff.mpr (List.mem_cons_of_mem _ (List.mem_append_right _ hq)))

/-- A new pool has no records. -/
theorem settled_made (plat : Platform) (thread size a : Nat) (q : Option Pool) :
    (madePool plat thread size a q).Settled := by
  intro r hr
  cases q with
  | none => cases hr
  | some q => cases hr

/-- **One call keeps the records settled.** -/
theorem step_settled (h : Inv plat s f) (hkeeps : op.KeepsPools) (hfits : op.Fits plat)
    (hbare : s.ClearsBare plat op) (hs : Step plat s f op s' f') (hset : Settled f) :
    Settled f' := by
  cases hs with
  | createFailed thread size parent w' evs hevs hlog => exact hset
  | createRoot thread size a w' hgrant hindex hlog =>
    intro p hp
    rcases List.mem_cons.mp hp with rfl | hp
    · exact settled_made plat thread size a none
    · exact hset p (by simpa using hp)
  | createChild thread size a q w' hq hgrant hindex hlog =>
    -- of the parent only the link to its first child changes
    obtain ⟨rest, hold, -, hnew⟩ := Forest.split_at h.nodup hq
    have hnew := hnew fun q cs => (q.withLinks q.parent q.brother (a + sizeofMemnode),
      .node (madePool plat thread size a (some q)) .nil cs)
    intro p hp
    have hin := hnew.mem_iff.mp hp
    simp only [Forest.toList_node, Forest.toList_nil, List.nil_append, List.cons_append,
      List.mem_cons] at hin
    rcases hin with rfl | rfl | hin
    · exact (hset q hq).of_nodes rfl fun _ hr => hr
    · exact settled_made plat thread size a (some q)
    · exact hset p (hold.mem_iff.mpr (List.mem_cons_of_mem _ hin))
  | addChild => exact hkeeps.elim
  | palloc thread size r p p' w' hp halloc =>
    exact hset.replace h hp (allocating_settled (h.pools.pool p hp) hfits halloc (hset p hp))
  | pcalloc thread size r p p' w' hp halloc =>
    exact hset.replace h hp (allocating_settled (h.pools.pool p hp) hfits halloc (hset p hp))
  | add thread data handler p p' w' hp hadd =>
    exact hset.replace h hp (adding_settled (h.pools.pool p hp) hadd (hset p hp))
  | run thread data handler p p' w' hp htake =>
    exact hset.replace h hp (taking_settled htake (hset p hp))
  | remove thread data handler p p' w' hp htake =>
    exact hset.replace h hp (taking_settled htake (hset p hp))
  | clear thread p w' hp hlog => exact clear_settled h hp hbare hset
  | destroy => exact hkeeps.elim
  | write addr value => exact hset

/-- **The next call** cuts nothing off memory in which a record lies. -/
theorem Settled.offRecords (hset : Settled f) (h : Inv plat s f) (hlegal : s.Legal plat op) :
    s.OffRecords plat op := by
  cases op with
  | palloc thread pool size =>
    obtain ⟨p, hp, rfl⟩ := h.find hlegal
    exact (hset p hp).cleanAlloc (h.pools.pool p hp) size
  | pcalloc thread pool size =>
    obtain ⟨p, hp, rfl⟩ := h.find hlegal
    exact (hset p hp).cleanAlloc (h.pools.pool p hp) size
  | cleanupAdd thread pool data handler =>
    obtain ⟨p, hp, rfl⟩ := h.find hlegal
    exact (hset p hp).cleanRecord (h.pools.pool p hp)
  | _ => trivial

/-- Calls that clear bare pools only, and wrap no size. -/
def Session.Bare (plat : Platform) (s : Session) (op : Op) : Prop :=
  s.Lawful plat op ∧ op.Fits plat ∧ s.ClearsBare plat op

instance (plat : Platform) (s : Session) (op : Op) : Decidable (s.Bare plat op) :=
  inferInstanceAs (Decidable (_ ∧ _ ∧ _))

/-- They are those of plain runs, as long as the records are settled. -/
theorem Session.Bare.plain (hop : s.Bare plat op) (h : Inv plat s f) (hset : Settled f) :
    s.Plain plat op :=
  hop.1.plain hop.2.1 (hset.offRecords h hop.1.1)

theorem admits_bare : Admits plat (Session.Bare plat) fun _ f => Settled f where
  legal _ _ h := h.1.1
  clean _ _ _ h hinv hset := (h.plain hinv hset).2.1
  roots _ op h := by
    cases op with
    | addChild => exact h.1.2.1.elim
    | destroy => exact h.1.2.1.elim
    | _ => trivial
  shelved _ _ op h hdestroys _ _ := by
    cases op with
    | destroy => exact h.1.2.1.elim
    | _ => exact hdestroys.elim

/-- **The records are settled** in every state of such runs. -/
theorem reachable_settled (h : Reachable plat (Session.Bare plat) s) :
    ∃ f, Inv plat s f ∧ Settled f := by
  refine reachable_rule (P := fun _ f => Settled f) admits_bare
    (fun s _ p hp => (List.not_mem_nil hp).elim) (fun s f op s' f' hinv hset hop _ hs _ => ?_) h
  exact step_settled hinv hop.1.2.1 hop.2.1 hop.2.2 hs hset

end Steps

/-! ## Section 3: Records -/

/-- **No record on a list lies over a block that is held, nor over another record.** -/
structure RecordsApart (s : Session) : Prop where
  blocks  : ∀ pool ∈ s.addrs, ∀ r ∈ listedAt s.world pool, ∀ b ∈ heldBlocks s.world.log,
    (recordSpan r).Disjoint b.span
  records : ∀ pool ∈ s.addrs, (listedAt s.world pool).Pairwise fun r r' =>
    (recordSpan r).Disjoint (recordSpan r')
  pools   : ∀ pool ∈ s.addrs, ∀ pool' ∈ s.addrs, pool ≠ pool' → ∀ r ∈ listedAt s.world pool,
    ∀ r' ∈ listedAt s.world pool', (recordSpan r).Disjoint (recordSpan r')

section Records

variable {plat : Platform} {s : Session} {f : Forest Pool}

theorem Inv.recordsApart (h : Inv plat s f) : RecordsApart s := by
  constructor
  · intro pool hpool r hr b hb
    obtain ⟨p, hp, rfl⟩ := h.find hpool
    rw [listedAt_eq (h.pools.pool p hp)] at hr
    exact ((h.blocks.place b hb).apart_own h.pools hp).2.2 r hr
  · intro pool hpool
    obtain ⟨p, hp, rfl⟩ := h.find hpool
    rw [listedAt_eq (h.pools.pool p hp)]
    exact (h.pools.pool p hp).wf.apart
  · intro pool hpool pool' hpool' hne r hr r' hr'
    obtain ⟨p, hp, rfl⟩ := h.find hpool
    obtain ⟨q, hq, rfl⟩ := h.find hpool'
    have hpw := h.pools.pool p hp
    have hqw := h.pools.pool q hq
    rw [listedAt_eq hpw] at hr
    rw [listedAt_eq hqw] at hr'
    -- each lies in a region of its own pool
    obtain ⟨-, n, hn, hin⟩ := hpw.wf.inBody r hr
    obtain ⟨-, k, hk, hin'⟩ := hqw.wf.inBody r' hr'
    have hapart := (h.pools.regions_apart hp hq hne hn hk).mono
      (hin.trans (hpw.wf.node n hn).body_within)
    exact (hapart.symm.mono (hin'.trans (hqw.wf.node k hk).body_within)).symm

/-- **Records apart**: in every run that clears no pool while it has a record on a list, and
    of which no request wraps. -/
theorem records_apart (plat : Platform) (s : Session) (h : Reachable plat (fun s op =>
    s.Lawful plat op ∧ op.Fits plat ∧ s.ClearsBare plat op) s) : RecordsApart s := by
  obtain ⟨f, hinv, -⟩ := reachable_settled h
  exact hinv.recordsApart

/-- A clear of a bare pool, and then blocks and records, one of them in reserve. -/
theorem records_apart_small : ∃ s, 2 ≤ (listedAt s.world 65584).length ∧
    2 ≤ (heldBlocks s.world.log).length ∧ RecordsApart s := by
  have hrun : ((session.run machine (fun s op =>
      s.Lawful machine op ∧ op.Fits machine ∧ s.ClearsBare machine op)
      [.create 1 0 0, .palloc 1 65584 1000, .clear 1 65584, .cleanupAdd 1 65584 100 50,
        .palloc 1 65584 100, .cleanupAdd 1 65584 101 50, .cleanupRun 1 65584 100 50,
        .palloc 1 65584 16]).any fun s =>
      2 ≤ (listedAt s.world 65584).length ∧ 2 ≤ (heldBlocks s.world.log).length) = true := by
    decide +kernel
  obtain ⟨s, hs, hfacts⟩ := (Option.any_eq_true _ _).mp hrun
  obtain ⟨hlisted, hheld⟩ := of_decide_eq_true hfacts
  exact ⟨s, hlisted, hheld,
    records_apart machine s (reachable_run (.start session initial_session) hs)⟩

/-- A clear keeps a record in reserve, and the next block is cut off its memory. -/
theorem record_overlaid : ¬ ∀ (plat : Platform) (s : Session), Reachable plat (fun s op =>
    s.Lawful plat op ∧ op.Fits plat) s → RecordsApart s := by
  intro hall
  have hrun : ((session.run machine (fun s op => s.Lawful machine op ∧ op.Fits machine)
      [.create 1 0 0, .cleanupAdd 1 65584 100 50, .clear 1 65584, .palloc 1 65584 16]).any fun s =>
      65584 ∈ s.addrs ∧ ∃ r ∈ listedAt s.world 65584, ∃ b ∈ heldBlocks s.world.log,
        ¬ (recordSpan r).Disjoint b.span) = true := by decide +kernel
  obtain ⟨s, hs, hfacts⟩ := (Option.any_eq_true _ _).mp hrun
  obtain ⟨hpool, r, hr, b, hb, hover⟩ := of_decide_eq_true hfacts
  have hapart := hall machine s (reachable_run (.start session initial_session) hs)
  exact hover (hapart.blocks 65584 hpool r hr b hb)

end Records

end Spr.MemPool
