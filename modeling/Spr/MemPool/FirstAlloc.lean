import Spr.MemPool.Runs

/-! # The first allocation from a new pool

    `spr_pool_create1(&pool, size, parent)` is to make a pool whose first memnode
    has room for `size` bytes.

    * `KeepsLog`, `sprPoolCreate1_log`: what a creation that succeeds asks for.
    * `RoomFor`: the size, the headers and the mutex fit the pages counted.
    * `Serves`: what the first memnode is to serve.
    * `create_serves_iff`: it does exactly when they fit. -/

namespace Spr.MemPool

open Spr.Words Spr.Chains

/-! ## Section 1: Calls that log nothing -/

/-- The call logs nothing. -/
def KeepsLog {α : Type} (x : Act α) : Prop := ∀ w a w', x w = .ok a w' → w'.log = w.log

section KeepsLog

theorem keepsLog_bind {α β : Type} {x : Act α} {f : α → Act β} (hx : KeepsLog x)
    (hf : ∀ a, KeepsLog (f a)) : KeepsLog (x >>= f) := by
  intro w b w' h
  rw [bind_run] at h
  cases hrun : x w with
  | error e w₁ => rw [hrun] at h; cases h
  | ok a w₁ =>
    rw [hrun] at h
    exact (hf a w₁ b w' h).trans (hx w a w₁ hrun)

theorem keepsLog_ite {α : Type} {c : Prop} [Decidable c] {x y : Act α} (hx : KeepsLog x)
    (hy : KeepsLog y) : KeepsLog (if c then x else y) := by
  split <;> assumption

theorem keepsLog_pure {α : Type} (a : α) : KeepsLog (pure a : Act α) := by
  rintro w _ _ ⟨rfl, rfl⟩
  rfl

theorem keepsLog_load (a : Nat) : KeepsLog (load a) := by
  rintro w _ _ ⟨rfl, rfl⟩
  rfl

theorem keepsLog_store (a v : Nat) : KeepsLog (store a v) := by
  rintro w _ _ ⟨rfl, rfl⟩
  rfl

theorem keepsLog_mutexInit : KeepsLog sprMutexInit := by
  rintro w _ _ ⟨rfl, rfl⟩
  rfl

theorem keepsLog_addChild (parent child : Nat) : KeepsLog (sprPoolAddChild parent child) :=
  keepsLog_bind (keepsLog_store _ _) fun _ => keepsLog_bind (keepsLog_load _) fun _ =>
    keepsLog_ite (keepsLog_bind (keepsLog_store _ _) fun _ => keepsLog_store _ _)
      (keepsLog_bind (keepsLog_store _ _) fun _ => keepsLog_store _ _)

theorem keepsLog_chooseMutex (plat : Platform) (node parent : Nat) :
    KeepsLog (chooseMutex plat node parent) :=
  keepsLog_ite (keepsLog_bind (keepsLog_load _) fun _ => keepsLog_pure _)
    (keepsLog_bind (keepsLog_load _) fun _ => keepsLog_bind (keepsLog_load _) fun _ =>
      keepsLog_bind (keepsLog_store _ _) fun _ => keepsLog_bind (keepsLog_load _) fun _ =>
        keepsLog_bind (keepsLog_store _ _) fun _ => keepsLog_bind keepsLog_mutexInit fun _ =>
          keepsLog_pure _)

theorem keepsLog_reserveMutex (plat : Platform) (thread node pool parent : Nat) :
    KeepsLog (reserveMutex plat thread node pool parent) :=
  keepsLog_ite (keepsLog_bind (keepsLog_chooseMutex plat node parent) fun _ =>
    keepsLog_ite (keepsLog_pure _) (keepsLog_bind (keepsLog_store _ _) fun _ =>
      keepsLog_bind (keepsLog_store _ _) fun _ => keepsLog_pure _)) (keepsLog_pure _)

end KeepsLog

/-- The end of a creation logs that the memnode is registered. -/
theorem finishCreate_log {a node index parent pool : Nat} {w w' : World}
    (h : finishCreate a node index parent sprOk w = .ok (sprOk, pool) w') :
    w'.log = w.log ++ [.registered pool a] := by
  simp only [finishCreate, ne_eq, not_true_eq_false, if_false, bind_run, load_run, store_run,
    emit_run, ite_run, pure_run] at h
  by_cases hnull : parent = 0
  · rw [if_neg (by simpa using hnull)] at h
    simp only [EStateM.Result.ok.injEq, Prod.mk.injEq, true_and] at h
    obtain ⟨rfl, rfl⟩ := h
    simp
  · rw [if_pos hnull] at h
    cases hadd : sprPoolAddChild parent node (World.emit _ _) with
    | error e w₁ =>
      rw [hadd] at h
      cases h
    | ok u w₁ =>
      have hlog := keepsLog_addChild _ _ _ _ _ hadd
      simp only [emit_log, store_log] at hlog
      rw [hadd] at h
      simp only [EStateM.Result.ok.injEq, Prod.mk.injEq, true_and] at h
      obtain ⟨rfl, rfl⟩ := h
      exact hlog

/-- **A creation that succeeds** has asked the system for one memnode. -/
theorem sprPoolCreate1_log {plat : Platform} {thread size parent pool : Nat} {w w' : World}
    (h : sprPoolCreate1 plat thread size parent w = .ok (sprOk, pool) w') :
    ∃ a, w'.log = w.log ++ [.obtained a (createBytes plat size), .allocated a,
      .registered pool a] := by
  obtain ⟨a, w₁, mem, node, index, w₃, -, hlog, -, hres, hfinish⟩ := sprPoolCreate1_made h
  have hlog₃ := keepsLog_reserveMutex _ _ _ _ _ _ _ _ hres
  refine ⟨a, ?_⟩
  rw [finishCreate_log hfinish, hlog₃]
  simp [hlog]

/-! ## Section 2: Room -/

/-- What a creation asks for: the size, the header and the memnode's fields. -/
def createTotal (plat : Platform) (size : Nat) : Nat :=
  sprAlignAllocation size + sizeofPool plat + sizeofMemnode

/-- The pages counted for a creation have room for the mutex too, nothing wraps, and
    the memnode does not go to `nodes[20]`. -/
structure RoomFor (plat : Platform) (size parent : Nat) : Prop where
  total : createTotal plat size < wordMod
  bytes : (createTotal plat size / plat.pageSize + 1) * plat.pageSize < wordMod
  mutex : createTotal plat size % plat.pageSize + mutexBytes plat parent ≤ plat.pageSize
  slot  : createTotal plat size / plat.pageSize ≠ sprMaxPoolSlot

/-- The pages of a request that does not wrap. -/
theorem sprGetNpages_eq (plat : Platform) {k : Nat} (h : k + sizeofMemnode < wordMod) :
    sprGetNpages plat k = (k + sizeofMemnode) / plat.pageSize + 1 := by
  have htotal : add k sizeofMemnodeAlign = k + sizeofMemnode := by
    rw [sizeofMemnodeAlign_eq]
    exact add_of_lt h
  unfold sprGetNpages
  simp only [htotal]
  split
  · rename_i hlt
    rw [Nat.div_eq_of_lt hlt]
  · rfl

section Room

variable {plat : Platform} {size parent : Nat}

theorem createPages_eq (h : createTotal plat size < wordMod) :
    createPages plat size = createTotal plat size / plat.pageSize + 1 := by
  unfold createTotal at h
  have hadd : add (sprAlignAllocation size) (sizeofPoolAlign plat)
      = sprAlignAllocation size + sizeofPool plat := by
    rw [sizeofPoolAlign_eq]
    exact add_of_lt (by omega)
  rw [createPages, hadd, sprGetNpages_eq plat h, createTotal]

/-- A creation whose arithmetic wraps is left with a single page. -/
theorem createPages_wrapped (h : wordMod ≤ createTotal plat size)
    (hlt : sprAlignAllocation size < wordMod) : createPages plat size = 1 := by
  have hhigh := sizeofPool_le plat
  have hpage := plat.le_pageSize
  unfold createTotal at h
  simp only [sizeofMemnode] at h
  have hsmall : add (add (sprAlignAllocation size) (sizeofPoolAlign plat)) sizeofMemnodeAlign
      < plat.pageSize := by
    rw [sizeofPoolAlign_eq, sizeofMemnodeAlign_eq]
    unfold add
    rw [wordMod_eq] at *
    omega
  rw [createPages, sprGetNpages]
  simp only [if_pos hsmall]

/-- **The room of the first memnode.** -/
theorem roomFor_iff (hlt : sprAlignAllocation size < wordMod) : RoomFor plat size parent ↔
      createTotal plat size + mutexBytes plat parent ≤ createBytes plat size ∧
        createIndex plat size ≠ sprMaxPoolSlot := by
  have hpage := plat.le_pageSize
  have hmax := plat.page_lt
  have hhigh := sizeofPool_le plat
  have hdiv := Nat.div_add_mod (createTotal plat size) plat.pageSize
  have hrest := Nat.mod_lt (createTotal plat size) plat.page_pos
  have hpages : (createTotal plat size / plat.pageSize + 1) * plat.pageSize
      = plat.pageSize * (createTotal plat size / plat.pageSize) + plat.pageSize := by
    rw [Nat.add_mul, Nat.one_mul, Nat.mul_comm]
  constructor
  · rintro ⟨htotal, hbytes, hmutex, hslot⟩
    have hn := createPages_eq htotal
    rw [createBytes, hn, mul_of_lt hbytes, createIndex, hn, Nat.add_sub_cancel]
    exact ⟨by omega, hslot⟩
  · rintro ⟨hroom, hslot⟩
    -- a sum or a product that wraps would leave too little
    have htotal : createTotal plat size < wordMod := by
      by_contra hwrap
      have hn := createPages_wrapped (Nat.not_lt.mp hwrap) hlt
      rw [createBytes, hn, mul_of_lt (by rw [wordMod_eq]; omega)] at hroom
      rw [wordMod_eq] at hwrap
      omega
    have hn := createPages_eq htotal
    rw [createBytes, hn, mul] at hroom
    rw [createIndex, hn, Nat.add_sub_cancel] at hslot
    have hbytes : (createTotal plat size / plat.pageSize + 1) * plat.pageSize < wordMod := by
      by_contra hwrap
      rw [Nat.mod_eq_sub_mod (Nat.not_lt.mp hwrap), Nat.mod_eq_of_lt (by
        rw [wordMod_eq] at *
        omega)] at hroom
      rw [wordMod_eq] at *
      omega
    rw [Nat.mod_eq_of_lt hbytes] at hroom
    exact ⟨htotal, hbytes, by omega, hslot⟩

end Room

/-! ## Section 3: The first allocation -/

/-- The system is asked for memory. -/
def Event.asks : Event → Bool
  | .obtained _ _ => true
  | .refused _ => true
  | _ => false

/-- What the first memnode, `bytes` bytes at `node`, is to serve: any request up to
    `size`, without asking the system. -/
structure Serves (plat : Platform) (w : World) (pool size node bytes : Nat) : Prop where
  avail : sprAlignDefault size ≤ w.mem (nodeSizeAvail node)
  first : ∀ thread s, s ≤ size → ∃ r w' evs, sprPalloc plat thread pool s w = .ok r w' ∧ r ≠ 0 ∧
    Span.Within ⟨r, sprAlignAllocation s⟩ ⟨node, bytes⟩ ∧
    w'.log = w.log ++ evs ∧ ∀ e ∈ evs, e.asks = false

section Made

variable {plat : Platform} {thread size a : Nat} {q : Option Pool}

/-- The first memnode. -/
def firstNode (plat : Platform) (size a : Nat) (q : Option Pool) : Memnode :=
  homeNode a (createBytes plat size) (sizeofPool plat + mutexBytes plat (parentAddr q))

theorem madePool_addr : (madePool plat thread size a q).addr = a + sizeofMemnode := by
  cases q <;> rfl

theorem madePool_nodes : (madePool plat thread size a q).nodes = [firstNode plat size a q] := by
  cases q with
  | none => exact newPool_nodes
  | some q => exact (withLinks_nodes ..).trans newPool_nodes

/-- The memnodes from a slot on. -/
theorem madePool_fromSlot {i : Nat} : (madePool plat thread size a q).fromSlot i
    = if i ≤ createIndex plat size ∧ createIndex plat size < sprMaxPoolSlot then
        [firstNode plat size a q] else [] := by
  have hslots : (madePool plat thread size a q).slots = (newPool (firstNode plat size a q)
      (createIndex plat size) (mutexOf plat a q) thread).slots := by
    cases q <;> rfl
  rw [Pool.fromSlot, hslots, newPool_slots List.nodup_range']
  refine if_congr ?_ rfl rfl
  rw [List.mem_range'_1]
  omega

/-- An allocation from a new pool, where it does not wrap: from the first memnode, or
    the system is asked. -/
theorem first_palloc {w : World} {s : Nat} (hp : PoolAt plat w (madePool plat thread size a q))
    (halign : sprAlignAllocation s ≠ 0) (hindex : slotIndex plat s ≤ sprMaxPoolSlot)
    (hwrap : NoWrap plat (sprAlignAllocation s)) (user : Nat) :
    ∃ r w' evs, sprPalloc plat user (a + sizeofMemnode) s w = .ok r w' ∧ w'.log = w.log ++ evs ∧
      if slotIndex plat s ≤ createIndex plat size ∧ createIndex plat size < sprMaxPoolSlot ∧
        sprAlignAllocation s ≤ (firstNode plat size a q).sizeAvail
      then r = (firstNode plat size a q).firstAvail ∧ ∀ e ∈ evs, e.asks = false
      else ∃ e ∈ evs, e.asks = true := by
  -- the only memnode fits, or none does
  have hfirst : firstFit (sprAlignAllocation s) ((madePool plat thread size a q).fromSlot
      (slotIndex plat s)) = if slotIndex plat s ≤ createIndex plat size ∧
        createIndex plat size < sprMaxPoolSlot ∧
          sprAlignAllocation s ≤ (firstNode plat size a q).sizeAvail
        then some (firstNode plat size a q) else none := by
    rw [madePool_fromSlot]
    by_cases hslot : slotIndex plat s ≤ createIndex plat size ∧
        createIndex plat size < sprMaxPoolSlot
    · rw [if_pos hslot, firstFit, List.find?_singleton]
      simp [hslot]
    · rw [if_neg hslot, if_neg fun h => hslot ⟨h.1, h.2.1⟩]
      rfl
  rcases sprPalloc_cases user hp (fun _ _ => hwrap) fun hover => absurd hindex (by omega) with
    ⟨r, p', w', hrun, -, halloc, -⟩ | ⟨w₁, -, hnone⟩
  swap
  · exact absurd hnone.index (by omega)
  rw [madePool_addr] at hrun
  cases halloc with
  | rejected hzero => exact absurd hzero halign
  | refused _ hover => exact absurd hover (by omega)
  | oversize _ _ _ _ hover => exact absurd hover (by omega)
  | slots _ _ _ _ _ hcarve =>
    cases hcarve with
    | refused _ hfit hmem hlive hlog =>
      refine ⟨0, w', _, hrun, hlog, ?_⟩
      rw [if_neg fun h => by rw [hfirst, if_pos h] at hfit; cases hfit]
      exact ⟨_, List.mem_append_right _ List.mem_cons_self, rfl⟩
    | fit _ n hfit hlive hlog =>
      -- the request is met from it, and nothing is asked
      refine ⟨n.firstAvail, w', _, hrun, hlog, ?_⟩
      by_cases h : slotIndex plat s ≤ createIndex plat size ∧
          createIndex plat size < sprMaxPoolSlot ∧
            sprAlignAllocation s ≤ (firstNode plat size a q).sizeAvail
      · rw [hfirst, if_pos h] at hfit
        rw [if_pos h, ← Option.some.inj hfit]
        refine ⟨rfl, fun e he => ?_⟩
        rcases List.mem_append.mp he with he | he
        · exact forall_lockEvents (P := fun e => e.asks = false) rfl e he
        · exact forall_unlockEvents (P := fun e => e.asks = false) rfl e he
      · rw [hfirst, if_neg h] at hfit
        cases hfit
    | fresh _ b hfit hgrant hlive hlog =>
      refine ⟨_, w', _, hrun, hlog, ?_⟩
      rw [if_neg fun h => by rw [hfirst, if_pos h] at hfit; cases hfit]
      exact ⟨_, List.mem_append_right _ List.mem_cons_self, rfl⟩

/-- **What the first memnode serves.** -/
theorem madePool_serves {w : World} (hp : PoolAt plat w (madePool plat thread size a q))
    (halign : sprAlignAllocation size ≠ 0) (hindex : createIndex plat size ≤ sprMaxPoolSlot)
    (hbytes : createBytes plat size ≠ 0) :
    Serves plat w (a + sizeofMemnode) size a (createBytes plat size)
      ↔ RoomFor plat size (parentAddr q) := by
  obtain ⟨heq, hlt⟩ := sprAlignAllocation_eq halign
  obtain ⟨hsize, hword⟩ := createBytes_bounds hbytes
  have hlow := (mutexBytes_bounds plat (parentAddr q)).1
  have hhigh := sizeofPool_le plat
  have hpage := plat.le_pageSize
  have hdefault : sprAlignDefault size = (size + 7) / 8 * 8 := by
    rw [sprAlignDefault_eq, Nat.mod_eq_of_lt hlt]
  have hnode : firstNode plat size a q ∈ (madePool plat thread size a q).nodes := by
    rw [madePool_nodes]
    exact List.mem_singleton_self _
  have havail : w.mem (nodeSizeAvail a)
      = createBytes plat size - 48 - (sizeofPool plat + mutexBytes plat (parentAddr q)) :=
    (hp.rep.nodes.node _ hnode).sizeAvail
  have htotal : createTotal plat size = sprAlignAllocation size + sizeofPool plat + 48 := rfl
  rw [roomFor_iff (by omega)]
  constructor
  · rintro ⟨hroom, hfirst⟩
    rw [havail, hdefault] at hroom
    refine ⟨by omega, fun hlast => ?_⟩
    -- no slot leads to the memnode, not even for the smallest request
    have hzero : sprAlignAllocation 0 = 16 := by decide
    have hpages : sprGetNpages plat 16 = 1 := by
      rw [sprGetNpages_eq plat (by decide), Nat.div_eq_of_lt (by simp only [sizeofMemnode]; omega)]
    have hslot : slotIndex plat 0 = 0 := by rw [slotIndex, hzero, hpages]
    have hwrap : NoWrap plat (sprAlignAllocation 0) := by
      rw [hzero]
      exact noWrap_of_le (by decide)
    obtain ⟨r, w', evs, hrun, hlog, hask⟩ := first_palloc hp (by rw [hzero]; decide)
      (by rw [hslot]; exact Nat.zero_le _) hwrap 0
    rw [if_neg fun h => absurd h.2.1 (by omega)] at hask
    obtain ⟨r', w₁, evs', hrun', -, -, hlog', hquiet⟩ := hfirst 0 0 (Nat.zero_le _)
    rw [hrun] at hrun'
    injection hrun' with _ hw
    rw [← hw, hlog, List.append_cancel_left_eq] at hlog'
    obtain ⟨e, he, hasks⟩ := hask
    rw [hquiet e (hlog' ▸ he)] at hasks
    cases hasks
  · rintro ⟨hroom, hslot⟩
    refine ⟨by rw [havail, hdefault]; omega, fun user s hs => ?_⟩
    obtain ⟨halign', hle⟩ := sprAlignAllocation_mono halign hs
    have hfits : createTotal plat size < wordMod := by omega
    have hn := createPages_eq hfits
    have hpages := sprGetNpages_eq plat (show sprAlignAllocation s + sizeofMemnode < wordMod by
      simp only [sizeofMemnode]
      omega)
    have hmono : (sprAlignAllocation s + sizeofMemnode) / plat.pageSize
        ≤ createTotal plat size / plat.pageSize :=
      Nat.div_le_div_right (by simp only [sizeofMemnode]; omega)
    have hindex' : slotIndex plat s ≤ createIndex plat size := by
      rw [slotIndex, createIndex, hpages, hn]
      omega
    have hwrap : NoWrap plat (sprAlignAllocation s) := by
      refine ⟨by simp only [sizeofMemnode]; omega, ?_⟩
      have hfit : RoomFor plat size (parentAddr q) := (roomFor_iff (by omega)).mpr ⟨hroom, hslot⟩
      have hall := hfit.bytes
      refine Nat.lt_of_le_of_lt (Nat.mul_le_mul_right _ ?_) hall
      omega
    obtain ⟨r, w', evs, hrun, hlog, hfirst⟩ := first_palloc hp halign' (by omega) hwrap user
    have hfit : sprAlignAllocation s ≤ (firstNode plat size a q).sizeAvail := by
      simp only [firstNode, homeNode, sizeofMemnode]
      omega
    rw [if_pos ⟨hindex', by omega, hfit⟩] at hfirst
    obtain ⟨rfl, hquiet⟩ := hfirst
    refine ⟨_, w', evs, hrun, ?_, ?_, hlog, hquiet⟩
    · simp only [firstNode, homeNode, sizeofMemnode]
      omega
    · simp only [firstNode, homeNode, sizeofMemnode, Span.Within] at hfit ⊢
      omega

end Made

end Spr.MemPool
