import Spr.MemPool.Reach

/-! # Blocks are their holders' own

    What lies in a block that is held is what its holder has stored there, whatever
    calls are made meanwhile, on any pools and from any threads.

    * `cleanupBody_frame`: taking a record writes to the pool's own words.
    * `exec_keeps`: no call but a store to it changes a word of a block that stays
      held.
    * `Session.Holding`, `block_contents`: runs over which a block is held. -/

namespace Spr.MemPool

open Spr.Words Spr.Chains Spr.Forests

/-! ## Section 1: Own words -/

section Own

variable {plat : Platform} {s : Session} {f : Forest Pool} {p : Pool} {b : Block} {a : Nat}
  {w w' : World}

/-- A word of a block that is held is no word of a pool's own. -/
theorem Inv.not_own (h : Inv plat s f) (hb : b ∈ heldBlocks s.world.log) (ha : b.span.Covers a)
    (hp : p ∈ f.toList) : ¬ p.Owns plat a := by
  obtain ⟨hheader, hfields, hrecords⟩ := (h.blocks.place b hb).apart_own h.pools hp
  rintro (hc | ⟨n, hn, hc⟩ | ⟨r, hr, hc⟩)
  · exact hheader.not_covers hc ha
  · exact (hfields n hn).not_covers hc ha
  · exact (hrecords r hr).not_covers hc ha

/-- A word of a block that is held is no word of a pool's header. -/
theorem Inv.not_header (h : Inv plat s f) (hb : b ∈ heldBlocks s.world.log)
    (ha : b.span.Covers a) (hp : p ∈ f.toList) {j : Nat} (hj : j < 200) : a ≠ p.addr + j := by
  have hlow := le_sizeofPool plat
  rintro rfl
  refine h.not_own hb ha hp (Or.inl ?_)
  simp only [Span.Covers, Pool.headerSpan]
  omega

/-- A word of a block that is held is no link of a record. -/
theorem Inv.not_record (h : Inv plat s f) (hb : b ∈ heldBlocks s.world.log)
    (ha : b.span.Covers a) (hp : p ∈ f.toList) {r : Record} (hr : r ∈ p.cleanups) :
    a ≠ r.addr := by
  rintro rfl
  refine h.not_own hb ha hp (Or.inr (Or.inr ⟨r.addr, ?_, ?_⟩))
  · exact List.mem_append_left _ (List.mem_map_of_mem hr)
  · simp only [Span.Covers, recordSpan, sizeofCleanupNode]
    omega

/-! ### Taking a record -/

theorem unlinkRecord_frame {pool prev node : Nat} (h : unlinkRecord pool prev node w = .ok () w')
    (ha : a ≠ pool + 184) (hprev : prev ≠ 0 → a ≠ prev) : w'.mem a = w.mem a := by
  unfold unlinkRecord at h
  rw [load_bind, ite_run] at h
  split at h
  · obtain rfl : w.store (pool + 184) (w.mem node) = w' := by simpa using h
    exact Function.update_of_ne ha _ _
  · rw [ite_run] at h
    split at h
    · cases h
    · rename_i hne
      obtain rfl : w.store prev (w.mem node) = w' := by simpa using h
      exact Function.update_of_ne (hprev hne) _ _

theorem reserveRecord_frame {pool node : Nat} (h : reserveRecord load pool node w = .ok () w')
    (ha : a ≠ pool + 192) (hnode : a ≠ node) : w'.mem a = w.mem a := by
  obtain rfl : (w.store node (w.mem (pool + 192))).store (pool + 192) node = w' := by
    simpa [reserveRecord] using h
  rw [store_mem, store_mem, Function.update_of_ne ha, Function.update_of_ne hnode]

/-- Where the last record is. -/
theorem lastAddr_mem (rs : List Record) : lastAddr 0 rs = 0 ∨ ∃ r ∈ rs, lastAddr 0 rs = r.addr := by
  rcases List.eq_nil_or_concat' rs with rfl | ⟨rs, r, rfl⟩
  · exact Or.inl rfl
  · exact Or.inr ⟨r, by simp, by simp [lastAddr]⟩

/-- **Taking a record** changes words of the pool's header and of its records only. -/
theorem cleanupBody_frame {found : Nat → Act Unit} {thread data handler : Nat}
    (hp : PoolAt plat w p)
    (hfound : ∀ (node : Nat) (w w' : World), found node w = .ok () w' → w'.mem = w.mem)
    (hrun : cleanupBody plat found thread p.addr data handler (w.mem (p.addr + 184)) w = .ok () w')
    (hheader : ∀ j < 200, a ≠ p.addr + j) (hrecord : ∀ r ∈ p.cleanups, a ≠ r.addr) :
    w'.mem a = w.mem a := by
  rw [cleanupBody, bind_run, lockPool_run hp] at hrun
  have hlock := hp.of_eq (v := w.emits (lockEvents plat thread p)) rfl rfl
  simp only [bind_run, get_run] at hrun
  have hseen : p.cleanups = [] ++ p.cleanups := rfl
  rcases findRecord_from hlock hseen hp.rep.records.cleanups data handler with
    ⟨-, prev, hsearch⟩ | ⟨rs, r, rs', hsplit, -, -, hne, hsearch⟩
  · -- nothing is found, and the mutex stays locked
    rw [emits_mem] at hsearch
    simp only [emits_mem, hsearch, if_true, pure_run] at hrun
    injection hrun with _ hw
    rw [← hw]
    rfl
  · rw [emits_mem] at hsearch
    simp only [emits_mem, hsearch, if_neg hne] at hrun
    obtain ⟨_, w₁, hrun₁, hrun⟩ := bind_ok hrun
    obtain ⟨_, w₂, hrun₂, hrun⟩ := bind_ok hrun
    obtain ⟨_, w₃, hrun₃, hrun⟩ := bind_ok hrun
    obtain ⟨evs, hunlock⟩ := unlockPool_runs plat thread p.addr w₃
    rw [hunlock] at hrun
    injection hrun with _ hw
    have hall : p.cleanups = rs ++ r :: rs' := hsplit
    have hr : r ∈ p.cleanups := by rw [hall]; simp
    have hprev : lastAddr 0 rs ≠ 0 → a ≠ lastAddr 0 rs := by
      intro hne
      obtain ⟨q, hq, heq⟩ := (lastAddr_mem rs).resolve_left hne
      rw [heq]
      exact hrecord q (by rw [hall]; simp [hq])
    calc w'.mem a = w₃.mem a := by rw [← hw]; rfl
      _ = w₂.mem a := reserveRecord_frame hrun₃ (hheader 192 (by omega)) (hrecord r hr)
      _ = w₁.mem a := unlinkRecord_frame hrun₂ (hheader 184 (by omega)) hprev
      _ = w.mem a := by rw [hfound _ _ _ hrun₁]; rfl

theorem runRecord_mem (node : Nat) (w w' : World) (h : runRecord plat node w = .ok () w') :
    w'.mem = w.mem := by
  unfold runRecord callHandler at h
  simp only [bind_run, load_run, emit_run, ite_run] at h
  split at h
  · injection h with _ hw
    rw [← hw]
    rfl
  · injection h with _ hw
    rw [← hw]
    rfl

end Own

/-! ## Section 2: One call -/

section Calls

variable {plat : Platform} {s s' : Session} {f f' : Forest Pool} {b : Block} {a : Nat}

/-- The block keeps its word `a` over the call. -/
def KeepsWord (s s' : Session) (b : Block) (a : Nat) : Prop :=
  b ∈ heldBlocks s.world.log → b ∈ heldBlocks s'.world.log → b.span.Covers a →
    s'.world.mem a = s.world.mem a

/-- A call that writes to the own words of a pool, as they are afterwards. -/
theorem keeps_of_own {p : Pool} {w' : World} {family : Forest Member}
    (h : Inv plat ⟨w', family⟩ f) (hp : p ∈ f.toList) (hframe : FrameOwn plat s.world w' p) :
    KeepsWord s ⟨w', family⟩ b a := fun _ hb ha => hframe a (h.not_own hb ha hp)

theorem keeps_create {thread size parent : Nat} (h : Inv plat s f)
    (hop : s.Plain plat (.create thread size parent))
    (hexec : s.exec plat (.create thread size parent) = some s') : KeepsWord s s' b a := by
  intro hb _ ha
  obtain ⟨hlegal, hclean, -⟩ := hop
  obtain ⟨q, hq, rfl⟩ : ∃ q : Option Pool, (∀ p ∈ q, p ∈ f.toList) ∧ parentAddr q = parent := by
    rcases hlegal with rfl | hin
    · exact ⟨none, fun p hp => (Option.not_mem_none p hp).elim, rfl⟩
    · obtain ⟨p, hp, rfl⟩ := h.find hin
      exact ⟨some p, fun r hr => by cases hr; exact hp, rfl⟩
  obtain ⟨r, w', hrun, hcreate⟩ := sprPoolCreate1_cases thread h.pools.live
    (fun p hp => h.pools.pool p (hq p hp)) hclean
  simp only [Session.exec, hrun, returned, Option.some.injEq] at hexec
  subst hexec
  obtain ⟨region, hlive, hin⟩ := (h.blocks.place b hb).in_live h.pools
  cases hcreate with
  | failed err _ evs herr hframe _ _ _ => exact hframe region hlive a (hin.covers ha)
  | made x _ _ _ _ _ hframe _ _ =>
    exact hframe region hlive a (hin.covers ha) fun p hp =>
      h.not_header hb ha (hq p hp) (by omega)

theorem keeps_addChild {parent child : Nat} (h : Inv plat s f)
    (hlegal : s.Legal plat (.addChild parent child))
    (hexec : s.exec plat (.addChild parent child) = some s') : KeepsWord s s' b a := by
  intro hb _ ha
  obtain ⟨hparent, hchild, -, -⟩ := hlegal
  obtain ⟨q, hq, rfl⟩ := h.find hparent
  obtain ⟨p, hp, rfl⟩ := h.find hchild
  have hstores : ∀ (x v : Nat) (w : World), (∃ r ∈ f.toList, ∃ j < 200, x = r.addr + j) →
      (w.store x v).mem a = w.mem a := by
    rintro x v w ⟨r, hr, j, hj, rfl⟩
    exact Function.update_of_ne (h.not_header hb ha hr hj) _ _
  have hlink : ∀ {w : World}, sprPoolAddChild q.addr p.addr s.world = .ok () w →
      w.mem a = s.world.mem a := by
    intro w hrun
    unfold sprPoolAddChild at hrun
    simp only [bind_run, store_run, load_run, ite_run] at hrun
    split at hrun <;> injection hrun with _ hw <;> rw [← hw]
    all_goals
      rw [hstores _ _ _ ⟨p, hp, 168, by omega, rfl⟩, hstores _ _ _ ⟨q, hq, 176, by omega, rfl⟩,
        hstores _ _ _ ⟨p, hp, 160, by omega, rfl⟩]
  cases hrun : sprPoolAddChild q.addr p.addr s.world with
  | error e w => simp [Session.exec, hrun, returned] at hexec
  | ok u w =>
    simp only [Session.exec, hrun, returned, Option.some.injEq] at hexec
    subst hexec
    exact hlink hrun

theorem keeps_palloc {thread pool size : Nat} (h : Inv plat s f)
    (hop : s.Plain plat (.palloc thread pool size))
    (hexec : s.exec plat (.palloc thread pool size) = some s') : KeepsWord s s' b a := by
  intro hb _ ha
  cases hrun : sprPalloc plat thread pool size s.world with
  | error e w => simp [Session.exec, hrun, returned] at hexec
  | ok r w' =>
    obtain ⟨-, hkeeps⟩ := h.palloc_keeps hop.1 hop.2.1.1 hop.2.1.2 hrun
    simp only [Session.exec, hrun, returned, Option.some.injEq] at hexec
    subst hexec
    refine Eq.trans ?_ (hkeeps b hb a ha)
    show (handOut pool r size w').mem a = w'.mem a
    unfold handOut
    split <;> rfl

theorem keeps_pcalloc {thread pool size : Nat} (h : Inv plat s f)
    (hop : s.Plain plat (.pcalloc thread pool size))
    (hexec : s.exec plat (.pcalloc thread pool size) = some s') : KeepsWord s s' b a := by
  intro hb _ ha
  cases hrun : pcallocNoted plat thread pool size s.world with
  | error e w =>
    cases hpcalloc : sprPcalloc plat thread pool size s.world with
    | error e w => simp [Session.exec, hpcalloc, returned] at hexec
    | ok r w => simp [pcallocNoted, hpcalloc] at hrun
  | ok r w' =>
    rw [exec_pcalloc hrun, Option.some.injEq] at hexec
    subst hexec
    exact (h.pcalloc_keeps hop hrun).1 b hb a ha

theorem keeps_add {thread pool data handler : Nat} (h : Inv plat s f)
    (hop : s.Plain plat (.cleanupAdd thread pool data handler))
    (hexec : s.exec plat (.cleanupAdd thread pool data handler) = some s') :
    KeepsWord s s' b a := by
  obtain ⟨hpool, ⟨hrecord, hown⟩, -⟩ := hop
  obtain ⟨p, hp, rfl⟩ := h.find hpool
  have hpw := h.pools.pool p hp
  rcases sprPoolCleanupAdd1_cases thread data handler hpw ((cleanRecord_iff hpw).mp hrecord) with
    ⟨p', w', hrun, hp', hadd, hframe⟩ | ⟨w₁, hrun, -⟩
  swap
  · simp [Session.exec, hrun, returned] at hexec
  simp only [Session.exec, hrun, returned, Option.some.injEq] at hexec
  subst hexec
  exact keeps_of_own (h.adding hp hown hadd hp' (hframe.out hp'.wf)) (h.mem_replace hp p') hframe

theorem keeps_take {thread pool data handler : Nat} {found : Nat → Act Unit} {w' : World}
    (h : Inv plat s f) (hpool : pool ∈ s.addrs)
    (hfound : ∀ (node : Nat) (w w' : World), found node w = .ok () w' → w'.mem = w.mem)
    (hrun : cleanupBody plat found thread pool data handler (s.world.mem (pool + 184)) s.world
      = .ok () w') : KeepsWord s ⟨w', s.family⟩ b a := by
  intro hb _ ha
  obtain ⟨p, hp, rfl⟩ := h.find hpool
  exact cleanupBody_frame (h.pools.pool p hp) hfound hrun
    (fun j hj => h.not_header hb ha hp hj) fun r hr => h.not_record hb ha hp hr

theorem keeps_clear {thread pool : Nat} (h : Inv plat s f) (hpool : pool ∈ s.addrs)
    (hexec : s.exec plat (.clear thread pool) = some s') : KeepsWord s s' b a := by
  intro hb hb' ha
  obtain ⟨w', hrun, hspares, -⟩ := h.clear_spares thread hpool
  simp only [Session.exec, hrun, returned, Option.some.injEq] at hexec
  subst hexec
  exact hspares.words b hb' a ha

theorem keeps_destroy {thread pool : Nat} (h : Inv plat s f) (hpool : pool ∈ s.addrs)
    (hexec : s.exec plat (.destroy thread pool) = some s') : KeepsWord s s' b a := by
  intro hb hb' ha
  obtain ⟨w', hrun, hspares, -⟩ := h.destroy_spares thread hpool
  simp only [Session.exec, hrun, returned, Option.some.injEq] at hexec
  subst hexec
  exact hspares.words b hb' a ha

/-- **No call but a store to the word** changes it while its block is held. -/
theorem exec_keeps {op : Op} (h : Inv plat s f) (hop : s.Plain plat op)
    (hexec : s.exec plat op = some s') (hwrite : ∀ v, op ≠ .write a v) : KeepsWord s s' b a := by
  have hlegal := hop.1
  cases op with
  | create thread size parent => exact keeps_create h hop hexec
  | addChild parent child => exact keeps_addChild h hlegal hexec
  | palloc thread pool size => exact keeps_palloc h hop hexec
  | pcalloc thread pool size => exact keeps_pcalloc h hop hexec
  | cleanupAdd thread pool data handler => exact keeps_add h hop hexec
  | cleanupRun thread pool data handler =>
    cases hrun : sprPoolCleanupRun1 plat thread pool data handler s.world with
    | error e w => simp [Session.exec, hrun, returned] at hexec
    | ok u w =>
      simp only [Session.exec, hrun, returned, Option.some.injEq] at hexec
      subst hexec
      exact keeps_take h hlegal (fun node w w' => runRecord_mem node w w') hrun
  | cleanupRemove thread pool data handler =>
    cases hrun : sprPoolCleanupRemove1 plat thread pool data handler s.world with
    | error e w => simp [Session.exec, hrun, returned] at hexec
    | ok u w =>
      simp only [Session.exec, hrun, returned, Option.some.injEq] at hexec
      subst hexec
      refine keeps_take h hlegal (fun node w w' h => ?_) hrun
      injection h with _ hw
      rw [hw]
  | clear thread pool => exact keeps_clear h hlegal hexec
  | destroy thread pool =>
    obtain ⟨m, hm, rfl, -⟩ := hlegal
    exact keeps_destroy h (List.mem_map_of_mem hm) hexec
  | write x v =>
    intro _ _ _
    obtain rfl : ⟨s.world.store x v, s.family⟩ = s' := Option.some.inj hexec
    refine Function.update_of_ne ?_ _ _
    rintro rfl
    exact hwrite v rfl

end Calls

/-! ## Section 3: Runs -/

section Runs

variable {plat : Platform} {b : Block}

/-- A call of a plain run that is made while the block is held. -/
def Session.Holding (plat : Platform) (b : Block) (s : Session) (op : Op) : Prop :=
  s.Plain plat op ∧ b ∈ heldBlocks s.world.log

instance (s : Session) (op : Op) : Decidable (s.Holding plat b op) :=
  inferInstanceAs (Decidable (_ ∧ _))

/-- The word `a` after the call, by what is stored to it. -/
def Op.stored (a : Nat) (v : Nat) : Op → Nat
  | .write x y => if x = a then y else v
  | _ => v

/-- A run that ends with the block held starts with it held. -/
theorem held_of_run {ops : List Op} {s s' : Session}
    (hrun : s.run plat (Session.Holding plat b) ops = some s')
    (hlast : b ∈ heldBlocks s'.world.log) : b ∈ heldBlocks s.world.log := by
  cases ops with
  | nil =>
    obtain rfl : s = s' := by simpa [Session.run] using hrun
    exact hlast
  | cons op ops =>
    rw [Session.run] at hrun
    split at hrun
    · rename_i hop
      exact hop.2
    · cases hrun

/-- **One call**: the word is as the call has stored it. -/
theorem stored_of_exec {s s' : Session} {f : Forest Pool} {op : Op} {a : Nat} (h : Inv plat s f)
    (hop : s.Holding plat b op) (hexec : s.exec plat op = some s')
    (hheld : b ∈ heldBlocks s'.world.log) (ha : b.span.Covers a) :
    s'.world.mem a = op.stored a (s.world.mem a) := by
  have hkeeps : (∀ v, op ≠ .write a v) → s'.world.mem a = s.world.mem a :=
    fun hwrite => exec_keeps h hop.1 hexec hwrite hop.2 hheld ha
  cases op with
  | write x y =>
    rw [Op.stored]
    by_cases hx : x = a
    · subst hx
      obtain rfl : ⟨s.world.store x y, s.family⟩ = s' := Option.some.inj hexec
      simp
    · rw [if_neg hx]
      exact hkeeps fun v heq => hx (Op.write.inj heq).1
  | _ => exact hkeeps fun v heq => by cases heq

/-- **A block is its holder's own**: over a run of calls of any kind, on any pools and from
    any threads, what is in a word of the block is what was stored there last. -/
theorem block_contents (plat : Platform) (s s' : Session) (ops : List Op) (b : Block) (a : Nat)
    (hs : Reachable plat (Session.Plain plat) s)
    (hrun : s.run plat (Session.Holding plat b) ops = some s')
    (hlast : b ∈ heldBlocks s'.world.log) (ha : b.span.Covers a) :
    s'.world.mem a = ops.foldl (Op.stored a) (s.world.mem a) := by
  induction ops generalizing s with
  | nil =>
    obtain rfl : s = s' := by simpa [Session.run] using hrun
    rfl
  | cons op ops ih =>
    rw [Session.run] at hrun
    split at hrun
    · rename_i hop
      obtain ⟨s₁, hexec, hrest⟩ := Option.bind_eq_some_iff.mp hrun
      obtain ⟨f, hinv⟩ := reachable_inv hs
      rw [List.foldl_cons, ← stored_of_exec hinv hop hexec (held_of_run hrest hlast) ha]
      exact ih s₁ (.step s s₁ op hs hop.1 hexec) hrest
    · cases hrun

/-- A word is stored; other blocks come, handlers are registered and run, and pools are
    created, cleared and destroyed beside it. -/
theorem block_contents_traffic : ∃ s s' : Session, Reachable machine (Session.Plain machine) s ∧
    65840 ∈ (heldBlocks s'.world.log).map Block.addr ∧ s'.world.mem 65840 = 7 := by
  have hrun : ((session.run machine (Session.Plain machine)
      [.create 1 0 0, .palloc 1 65584 100]).any fun s =>
        ((s.run machine (Session.Holding machine ⟨65584, 65840, 100⟩)
          [.write 65840 7, .create 2 0 65584, .palloc 2 131120 40, .cleanupAdd 1 65584 5 9,
            .cleanupRun 1 65584 5 9, .pcalloc 1 65584 16, .clear 2 131120]).any fun s' =>
              ⟨65584, 65840, 100⟩ ∈ heldBlocks s'.world.log) = true) = true := by
    decide +kernel
  obtain ⟨s, hs, hrest⟩ := (Option.any_eq_true _ _).mp hrun
  obtain ⟨s', hs', hlast⟩ := (Option.any_eq_true _ _).mp (of_decide_eq_true hrest)
  have hreach := reachable_run (.start session initial_session) hs
  have hlast := of_decide_eq_true hlast
  refine ⟨s, s', hreach, List.mem_map_of_mem (f := Block.addr) hlast, ?_⟩
  exact block_contents machine s s' _ ⟨65584, 65840, 100⟩ 65840 hreach hs' hlast (by decide)

end Runs

end Spr.MemPool
