import Spr.MemPool.Slots

/-! # Cleanup records

    * `PoolAt.relist`: the two lists of records change, the pool stays in place.
    * `linkRecord_spec`, `popRecord`: a record goes from the reserve, or from
      fresh memory, to the front of the cleanups.
    * `takeRecord_spec`: the first match goes to the reserve.
    * `sprPoolCleanupRunAll_spec`: all handlers run, all records are reserved. -/

namespace Spr.MemPool

open Spr.Words Spr.Chains

/-! ## Section 1: Changing the lists -/

/-- The pool with other lists of records. -/
def Pool.withRecords (cs : List Record) (fs : List Nat) (p : Pool) : Pool :=
  { p with cleanups := cs, frees := fs }

@[simp] theorem withRecords_nodes (cs : List Record) (fs : List Nat) (p : Pool) :
    (p.withRecords cs fs).nodes = p.nodes := rfl

@[simp] theorem withRecords_addr (cs : List Record) (fs : List Nat) (p : Pool) :
    (p.withRecords cs fs).addr = p.addr := rfl

@[simp] theorem withRecords_listed (cs : List Record) (fs : List Nat) (p : Pool) :
    (p.withRecords cs fs).listed = cs.map Record.addr ++ fs := rfl

/-- The records of a list lie apart, each in a memnode's body. -/
structure Placed (p : Pool) (rs : List Nat) : Prop where
  apart  : rs.Pairwise fun a b => (recordSpan a).Disjoint (recordSpan b)
  inBody : ∀ r ∈ rs, r % 8 = 0 ∧ ∃ n ∈ p.nodes, (recordSpan r).Within n.body

theorem Wf.placed {plat : Platform} {p : Pool} (h : Wf plat p) : Placed p p.listed :=
  ⟨h.apart, h.inBody⟩

theorem Placed.perm {p : Pool} {rs rs' : List Nat} (h : Placed p rs) (hp : rs.Perm rs') :
    Placed p rs' :=
  ⟨(hp.pairwise_iff fun hab => hab.symm).mp h.apart, fun r hr => h.inBody r (hp.mem_iff.mpr hr)⟩

theorem Placed.of_nodes {p q : Pool} {rs : List Nat} (h : Placed p rs) (hn : q.nodes = p.nodes) :
    Placed q rs := ⟨h.apart, by rw [hn]; exact h.inBody⟩

theorem Placed.tail {p : Pool} {a : Nat} {rs : List Nat} (h : Placed p (a :: rs)) : Placed p rs :=
  ⟨(List.pairwise_cons.mp h.apart).2, fun r hr => h.inBody r (List.mem_cons_of_mem _ hr)⟩

theorem Placed.nodup {p : Pool} {rs : List Nat} (h : Placed p rs) : rs.Nodup := by
  refine h.apart.imp fun {a b} hab => ?_
  rintro rfl
  simp only [Span.Disjoint, recordSpan, sizeofCleanupNode] at hab
  omega

/-- Words of different records are different words. -/
theorem Placed.words {p : Pool} {rs : List Nat} (h : Placed p rs) {r r' i j : Nat} (hr : r ∈ rs)
    (hr' : r' ∈ rs) (hne : r ≠ r') (hi : i < 24) (hj : j < 24) : r + i ≠ r' + j := by
  have hpair : (rs.map recordSpan).Pairwise Span.Disjoint := List.pairwise_map.mpr h.apart
  rcases Span.eq_or_disjoint hpair (List.mem_map_of_mem hr) (List.mem_map_of_mem hr') with
    heq | hdis
  · exact absurd (congrArg Span.start heq) hne
  · simp only [Span.Disjoint, recordSpan, sizeofCleanupNode] at hdis
    omega

/-- A record's words are words of a body. -/
theorem Placed.covered {p : Pool} {rs : List Nat} (h : Placed p rs) {r i : Nat} (hr : r ∈ rs)
    (hi : i < 24) : ∃ n ∈ p.nodes, n.body.Covers (r + i) := by
  obtain ⟨-, n, hn, hin⟩ := h.inBody r hr
  refine ⟨n, hn, ?_⟩
  simp only [Span.Within, Span.Covers, recordSpan, sizeofCleanupNode] at *
  omega

/-- A word of the header is no word of a body. -/
theorem PoolAt.header_word {plat : Platform} {w : World} {p : Pool} (h : PoolAt plat w p) {j : Nat}
    (hj : j < sizeofPool plat) {n : Memnode} (hn : n ∈ p.nodes) : ¬ n.body.Covers (p.addr + j) :=
  (h.header_body hn ⟨Nat.le_refl _, Nat.le_refl _⟩).not_covers
    ⟨Nat.le_add_right _ _, Nat.add_lt_add_left hj _⟩

/-- **The lists of records change** within bodies and the two words that start
    them, and the pool is still where it was. -/
theorem PoolAt.relist {plat : Platform} {w w' : World} {p : Pool} {cs : List Record}
    {fs : List Nat} (h : PoolAt plat w p)
    (hrep : RecordsRep w'.mem (p.withRecords cs fs)) (hplaced : Placed p (cs.map Record.addr ++ fs))
    (hframe : ∀ b, (∀ n ∈ p.nodes, ¬ n.body.Covers b) → b ≠ p.addr + 184 → b ≠ p.addr + 192 →
      w'.mem b = w.mem b)
    (hheld : ∀ n ∈ p.nodes, n.region ∈ w'.live) (hlive : LiveOk w'.live) :
    PoolAt plat w' (p.withRecords cs fs) := by
  have hlow := le_sizeofPool plat
  have hfields : ∀ n ∈ p.nodes, ∀ b, Span.Covers ⟨n.addr, sizeofMemnode⟩ b →
      w'.mem b = w.mem b := by
    intro n hn b hb
    have hout := h.header_fields hn
    simp only [Span.Disjoint, Pool.headerSpan, sizeofMemnode] at hout
    refine hframe b (fun m hm => ?_) ?_ ?_
    · exact (h.fields_body hn hm ⟨Nat.le_refl _, Nat.le_refl _⟩).not_covers hb
    · simp only [Span.Covers, sizeofMemnode] at hb; omega
    · simp only [Span.Covers, sizeofMemnode] at hb; omega
  have hnodes : NodesRep w'.mem p := by
    refine h.rep.nodes.congr (fun i hi => ?_) hfields
    have hi' : i < 20 := hi
    exact hframe _ (fun n hn => h.header_word (by omega) hn) (by omega) (by omega)
  have hheader : HeaderRep plat w'.mem p := by
    refine h.rep.header.congr fun b hb₁ hb₂ hb₃ hb₄ => ?_
    obtain ⟨j, rfl⟩ := Nat.exists_eq_add_of_le hb₁
    rw [Nat.add_assoc] at hb₃ hb₄ ⊢
    exact hframe _ (fun n hn => h.header_word (by omega) hn) hb₃ hb₄
  obtain ⟨h₁, h₂, h₃, h₄, h₅⟩ := hheader
  exact ⟨⟨⟨hnodes.slot, hnodes.node⟩, hrep, ⟨h₁, h₂, h₃, h₄, h₅⟩⟩,
    ⟨h.wf.node, h.wf.nodup, h.wf.home, hplaced.apart, hplaced.inBody⟩, hheld, hlive⟩

/-! ## Section 2: Adding a record -/

/-- **A record is linked** in front of the cleanups, in memory of its own. -/
theorem linkRecord_spec {plat : Platform} {w : World} {p : Pool} {a : Nat} (data handler : Nat)
    (h : PoolAt plat w p) (hplaced : Placed p (a :: p.listed)) (ha : a ≠ 0) :
    ∃ w', linkRecord p.addr a data handler w = .ok () w' ∧
      PoolAt plat w' (p.withRecords (⟨a, data, handler⟩ :: p.cleanups) p.frees) ∧
      (∀ b, ¬ (recordSpan a).Covers b → b ≠ p.addr + 184 → w'.mem b = w.mem b) ∧
      w'.live = w.live ∧ w'.log = w.log := by
  have hlow := le_sizeofPool plat
  have hmem : a ∈ a :: p.listed := List.mem_cons_self
  have hfresh : a ∉ p.listed := (List.nodup_cons.mp hplaced.nodup).1
  have hword : ∀ i j, i < 24 → j < 200 → a + i ≠ p.addr + j := by
    intro i j hi hj heq
    obtain ⟨n, hn, hc⟩ := hplaced.covered hmem hi
    rw [heq] at hc
    exact h.header_word (by omega) hn hc
  have h8 := hword 8 184 (by omega) (by omega)
  have h16 := hword 16 184 (by omega) (by omega)
  have h0 := hword 0 184 (by omega) (by omega)
  have h0' := hword 0 192 (by omega) (by omega)
  have h8' := hword 8 192 (by omega) (by omega)
  have h16' := hword 16 192 (by omega) (by omega)
  -- the words that change are the record's own and the start of the cleanups
  have hsame : ∀ b, b ≠ a → b ≠ a + 8 → b ≠ a + 16 → b ≠ p.addr + 184 →
      ((((w.store (a + 8) data).store (a + 16) handler).store a
        (w.mem (p.addr + 184))).store (p.addr + 184) a).mem b = w.mem b := by
    intro b h₁ h₂ h₃ h₄
    simp (disch := assumption) [Function.update_of_ne]
  have hrun : linkRecord p.addr a data handler w
      = .ok () ((((w.store (a + 8) data).store (a + 16) handler).store a
          (w.mem (p.addr + 184))).store (p.addr + 184) a) := by
    simp (disch := omega) [linkRecord, Function.update_of_ne]
  have hlisted : ∀ r ∈ p.listed, ∀ i < 24, ((((w.store (a + 8) data).store (a + 16) handler).store a
        (w.mem (p.addr + 184))).store (p.addr + 184) a).mem (r + i) = w.mem (r + i) := by
    intro r hr i hi
    have hr' : r ∈ a :: p.listed := List.mem_cons_of_mem _ hr
    have hne : r ≠ a := ne_of_mem_of_not_mem hr hfresh
    have hd := fun j (hj : j < 24) => hplaced.words hr' hmem hne hi hj
    refine hsame _ (hd 0 (by omega)) (hd 8 (by omega)) (hd 16 (by omega)) fun heq => ?_
    obtain ⟨n, hn, hc⟩ := hplaced.covered hr' hi
    rw [heq] at hc
    exact h.header_word (by omega) hn hc
  have hframe : ∀ b, ¬ (recordSpan a).Covers b → b ≠ p.addr + 184 →
      ((((w.store (a + 8) data).store (a + 16) handler).store a
        (w.mem (p.addr + 184))).store (p.addr + 184) a).mem b = w.mem b := by
    intro b hb hne
    simp only [Span.Covers, recordSpan, sizeofCleanupNode] at hb
    exact hsame b (by omega) (by omega) (by omega) hne
  refine ⟨_, hrun, h.relist ⟨?_, ?_, ?_⟩ hplaced (fun b hb h₁ _ => hframe b (fun hc => ?_) h₁)
    h.held h.live, hframe, rfl, rfl⟩
  · refine ⟨?_, ha, ?_⟩
    · simp [Pool.withRecords]
    · have hlink : ((((w.store (a + 8) data).store (a + 16) handler).store a
          (w.mem (p.addr + 184))).store (p.addr + 184) a).mem a = w.mem (p.addr + 184) := by
        simp (disch := omega) [Function.update_of_ne]
      rw [hlink]
      exact chain_congr (fun r hr => hlisted r (List.mem_append_left _ hr) 0 (by omega))
        h.rep.records.cleanups
  · intro r hr
    rcases List.mem_cons.mp hr with rfl | hr
    · simp (disch := omega) [Function.update_of_ne]
    · have hin : r.addr ∈ p.listed := List.mem_append_left _ (List.mem_map_of_mem hr)
      rw [hlisted _ hin 8 (by omega), hlisted _ hin 16 (by omega)]
      exact h.rep.records.record r hr
  · have hstart : ((((w.store (a + 8) data).store (a + 16) handler).store a
        (w.mem (p.addr + 184))).store (p.addr + 184) a).mem (p.addr + 192)
          = w.mem (p.addr + 192) := by
      refine hsame _ ?_ ?_ ?_ ?_ <;> omega
    simp only [withRecords_addr]
    rw [hstart]
    exact chain_congr (fun r hr => hlisted r (List.mem_append_right _ hr) 0 (by omega))
      h.rep.records.frees
  · obtain ⟨-, n, hn, hin⟩ := hplaced.inBody a hmem
    exact hb n hn (hin.covers hc)

/-- **A record is taken from the reserve.** -/
theorem popRecord {plat : Platform} {w : World} {p : Pool} {a : Nat} {fs : List Nat}
    (h : PoolAt plat w p) (hfs : p.frees = a :: fs) :
    w.mem (p.addr + 192) = a ∧ a ≠ 0 ∧
      PoolAt plat (w.store (p.addr + 192) (w.mem a)) (p.withRecords p.cleanups fs) ∧
      Placed p (a :: (p.cleanups.map Record.addr ++ fs)) := by
  have hlow := le_sizeofPool plat
  have hchain := h.rep.records.frees
  rw [hfs] at hchain
  have hplaced : Placed p (a :: (p.cleanups.map Record.addr ++ fs)) :=
    h.wf.placed.perm (by rw [Pool.listed, hfs]; exact List.perm_middle)
  have hsame : ∀ b, b ≠ p.addr + 192 →
      (w.store (p.addr + 192) (w.mem a)).mem b = w.mem b := fun b hb =>
    Function.update_of_ne hb _ _
  -- the word that is written is in the header, and the records are in bodies
  have hword : ∀ r ∈ p.cleanups.map Record.addr ++ fs, ∀ i < 24, r + i ≠ p.addr + 192 := by
    intro r hr i hi heq
    obtain ⟨n, hn, hc⟩ := hplaced.tail.covered hr hi
    rw [heq] at hc
    exact h.header_word (by omega) hn hc
  refine ⟨chain_head hchain, chain_ne_null hchain a List.mem_cons_self, h.relist ⟨?_, ?_, ?_⟩
    hplaced.tail (fun b _ _ hb => hsame b hb) h.held h.live, hplaced⟩
  · simp only [withRecords_addr]
    rw [hsame _ (by omega)]
    exact chain_congr (fun r hr => hsame r (hword r (List.mem_append_left _ hr) 0 (by omega)))
      h.rep.records.cleanups
  · intro r hr
    have hin := List.mem_append_left fs (List.mem_map_of_mem (f := Record.addr) hr)
    rw [hsame _ (hword _ hin 8 (by omega)), hsame _ (hword _ hin 16 (by omega))]
    exact h.rep.records.record r hr
  · simp only [withRecords_addr, store_mem, Function.update_self]
    exact chain_congr (fun r hr => hsame r (hword r (List.mem_append_right _ hr) 0 (by omega)))
      hchain.2.2

/-! ## Section 3: Taking a record -/

/-- The record is the one asked for. -/
def Record.Matches (data handler : Nat) (r : Record) : Prop := r.data = data ∧ r.handler = handler

instance (data handler : Nat) (r : Record) : Decidable (r.Matches data handler) :=
  inferInstanceAs (Decidable (_ ∧ _))

/-- The address of the last of some records, `prev` when there are none. -/
def lastAddr (prev : Nat) (rs : List Record) : Nat := (rs.getLast?.map Record.addr).getD prev

theorem lastAddr_cons (prev : Nat) (r : Record) (rs : List Record) :
    lastAddr prev (r :: rs) = lastAddr r.addr rs := by
  cases rs with
  | nil => rfl
  | cons s rs => simp [lastAddr, List.getLast?_eq_some_getLast]

/-- The search passes the records that do not match. -/
theorem findRecord_skip {mem : Mem} {data handler : Nat} :
    ∀ {rs : List Record} {tail : List Nat} {start : Nat} (prev fuel : Nat),
      Chain mem 0 start (rs.map Record.addr ++ tail) →
      (∀ r ∈ rs, mem (r.addr + 8) = r.data ∧ mem (r.addr + 16) = r.handler) →
      (∀ r ∈ rs, ¬ r.Matches data handler) → rs.length ≤ fuel →
      ∃ next, Chain mem 0 next tail ∧ findRecord mem data handler fuel prev start
        = findRecord mem data handler (fuel - rs.length) (lastAddr prev rs) next := by
  intro rs
  induction rs with
  | nil => intro tail start prev fuel hchain _ _ _; exact ⟨start, hchain, rfl⟩
  | cons r rs ih =>
    intro tail start prev fuel hchain hholds hno hfuel
    obtain ⟨fuel, rfl⟩ : ∃ f, fuel = f + 1 := ⟨fuel - 1, by simp at hfuel; omega⟩
    obtain ⟨rfl, hne, hrest⟩ := hchain
    obtain ⟨hd, hh⟩ := hholds r List.mem_cons_self
    have hmiss : ¬ (mem (r.addr + 8) = data ∧ mem (r.addr + 16) = handler) := by
      rw [hd, hh]; exact hno r List.mem_cons_self
    obtain ⟨next, hnext, hrun⟩ := ih r.addr fuel hrest
      (fun s hs => hholds s (List.mem_cons_of_mem _ hs))
      (fun s hs => hno s (List.mem_cons_of_mem _ hs)) (by simpa using hfuel)
    refine ⟨next, hnext, ?_⟩
    rw [findRecord, if_neg hne, recordData, recordHandler, if_neg hmiss, recordNext, hrun,
      lastAddr_cons, List.length_cons, Nat.add_sub_add_right]

/-- The records on the cleanups are fewer than the address space. -/
theorem PoolAt.cleanups_length {plat : Platform} {w : World} {p : Pool} (h : PoolAt plat w p) :
    p.cleanups.length < addressSpace := by
  have hchain := h.rep.records.cleanups
  have hlt := length_lt_of_nodup (chain_nodup hchain) (fun a ha => ?_) (chain_ne_null hchain)
  · rw [List.length_map] at hlt
    exact hlt
  · obtain ⟨-, n, hn, hin⟩ := h.wf.inBody a (List.mem_append_left _ ha)
    have hok := h.wf.node n hn
    have hupper := hok.upper
    have hfits := hok.fits
    simp only [Span.Within, Memnode.body, sizeofCleanupNode] at hin
    omega

/-- **The search of `run1` and `remove1`**, from some record of the list on: the first
    match there, or none. -/
theorem findRecord_from {plat : Platform} {w : World} {p : Pool} {pre seen : List Record}
    {start : Nat} (h : PoolAt plat w p) (hseen : p.cleanups = pre ++ seen)
    (hchain : Chain w.mem 0 start (seen.map Record.addr)) (data handler : Nat) :
    ((∀ r ∈ seen, ¬ r.Matches data handler) ∧
      ∃ prev, findRecord w.mem data handler addressSpace 0 start = some (prev, 0)) ∨
    ∃ rs r rs', seen = rs ++ r :: rs' ∧ r.Matches data handler ∧
      (∀ s ∈ rs, ¬ s.Matches data handler) ∧ r.addr ≠ 0 ∧
      findRecord w.mem data handler addressSpace 0 start = some (lastAddr 0 rs, r.addr) := by
  have hholds : ∀ r ∈ seen, w.mem (r.addr + 8) = r.data ∧ w.mem (r.addr + 16) = r.handler :=
    fun r hr => h.rep.records.record r (by rw [hseen]; exact List.mem_append_right _ hr)
  have hlen : seen.length < addressSpace := by
    have hall := h.cleanups_length
    rw [hseen, List.length_append] at hall
    omega
  by_cases hall : ∀ r ∈ seen, ¬ r.Matches data handler
  · left
    -- the walk skips them all and ends at the end of the list
    obtain ⟨next, hnext, hrun⟩ := findRecord_skip 0 addressSpace
      (by rwa [List.append_nil]) hholds hall hlen.le
    obtain ⟨k, hk⟩ : ∃ k, addressSpace - seen.length = k + 1 :=
      ⟨addressSpace - seen.length - 1, by omega⟩
    refine ⟨hall, lastAddr 0 seen, ?_⟩
    rw [hrun, hk, findRecord, if_pos (show next = 0 from hnext)]
  · right
    push Not at hall
    obtain ⟨s, hs, hmatch⟩ := hall
    -- the walk skips those in front of the first match
    obtain ⟨r, rs, rs', hrs, hr, hsplit, -⟩ :=
      List.exists_of_eraseP (p := fun r => decide (Record.Matches data handler r)) hs
        (by simpa using hmatch)
    have hr' : r.Matches data handler := by simpa using hr
    have hno : ∀ s ∈ rs, ¬ s.Matches data handler := fun s hs => by simpa using hrs s hs
    rw [hsplit] at hlen hholds
    rw [hsplit, List.map_append] at hchain
    obtain ⟨next, hnext, hrun⟩ := findRecord_skip 0 addressSpace hchain
      (fun s hs => hholds s (List.mem_append_left _ hs)) hno (by simp at hlen; omega)
    obtain ⟨rfl, hne, -⟩ := hnext
    obtain ⟨k, hk⟩ : ∃ k, addressSpace - rs.length = k + 1 :=
      ⟨addressSpace - rs.length - 1, by simp at hlen; omega⟩
    obtain ⟨hd, hh⟩ := hholds r (by simp)
    refine ⟨rs, r, rs', hsplit, hr', hno, hne, ?_⟩
    rw [hrun, hk, findRecord, if_neg hne, recordData, recordHandler, if_pos]
    rw [hd, hh]
    exact hr'

/-- A record's words are not words of the header. -/
theorem PoolAt.record_word {plat : Platform} {w : World} {p : Pool} {rs : List Nat} {r i j : Nat}
    (h : PoolAt plat w p) (hplaced : Placed p rs) (hr : r ∈ rs) (hi : i < 24)
    (hj : j < sizeofPool plat) : r + i ≠ p.addr + j := by
  intro heq
  obtain ⟨n, hn, hc⟩ := hplaced.covered hr hi
  rw [heq] at hc
  exact h.header_word hj hn hc

/-- The records without `r`. -/
theorem Wf.placed_without {plat : Platform} {p : Pool} {rs' : List Record} {r : Record}
    (h : Wf plat p) (rs : List Record) (hsplit : p.cleanups = rs ++ r :: rs') :
    Placed p (r.addr :: ((rs ++ rs').map Record.addr ++ p.frees)) := by
  refine h.placed.perm ?_
  rw [Pool.listed, hsplit, List.map_append, List.map_cons, List.append_assoc, List.map_append,
    List.append_assoc]
  exact List.perm_middle

/-- The first record is taken off: the list starts behind it. -/
theorem PoolAt.unlinkFirst {plat : Platform} {w : World} {p : Pool} {rs : List Record} {r : Record}
    (h : PoolAt plat w p) (hsplit : p.cleanups = r :: rs) :
    PoolAt plat (w.store (p.addr + 184) (w.mem r.addr)) (p.withRecords rs p.frees) := by
  have hlow := le_sizeofPool plat
  have hplaced := (h.wf.placed_without [] hsplit).tail
  have hword : ∀ a ∈ rs.map Record.addr ++ p.frees, ∀ i < 24, a + i ≠ p.addr + 184 :=
    fun a ha i hi => h.record_word hplaced ha hi (by omega)
  have hchain := h.rep.records.cleanups
  rw [hsplit, List.map_cons] at hchain
  refine h.relist ⟨?_, fun s hs => ?_, ?_⟩ hplaced (fun b _ hb _ => Function.update_of_ne hb _ _)
    h.held h.live
  · simp only [withRecords_addr, store_mem, Function.update_self]
    refine chain_congr (fun a ha => Function.update_of_ne ?_ _ _) hchain.2.2
    exact hword a (List.mem_append_left _ ha) 0 (by omega)
  · have hin : s.addr ∈ rs.map Record.addr ++ p.frees :=
      List.mem_append_left _ (List.mem_map_of_mem hs)
    simp only [store_mem]
    rw [Function.update_of_ne (hword _ hin 8 (by omega)),
      Function.update_of_ne (hword _ hin 16 (by omega))]
    exact h.rep.records.record s (by rw [hsplit]; exact List.mem_cons_of_mem _ hs)
  · simp only [withRecords_addr, store_mem]
    rw [Function.update_of_ne (by omega)]
    refine chain_congr (fun a ha => Function.update_of_ne ?_ _ _) h.rep.records.frees
    exact hword a (List.mem_append_right _ ha) 0 (by omega)

/-- A record in the middle is taken off: the one before it is linked to the one behind it. -/
theorem PoolAt.unlinkInner {plat : Platform} {w : World} {p : Pool} {rs rs' : List Record}
    {q r : Record} (h : PoolAt plat w p) (hsplit : p.cleanups = (rs ++ [q]) ++ r :: rs') :
    PoolAt plat (w.store q.addr (w.mem r.addr)) (p.withRecords ((rs ++ [q]) ++ rs') p.frees) := by
  have hlow := le_sizeofPool plat
  have hplaced := h.wf.placed
  have hchain := h.rep.records.cleanups
  have hkept : ∀ s ∈ (rs ++ [q]) ++ rs', s ∈ p.cleanups := by
    intro s hs
    rw [hsplit]
    rcases List.mem_append.mp hs with hs | hs
    · exact List.mem_append_left _ hs
    · exact List.mem_append_right _ (List.mem_cons_of_mem _ hs)
  have hlisted : ∀ s ∈ p.cleanups, s.addr ∈ p.listed := fun s hs =>
    List.mem_append_left _ (List.mem_map_of_mem hs)
  have hq : q ∈ p.cleanups := hkept q (by simp)
  have hql := hlisted q hq
  -- the word that is written is none of the header, and none of another record
  have hhead : ∀ j, 184 ≤ j → j < 200 → p.addr + j ≠ q.addr := fun j _ hj =>
    (h.record_word hplaced hql (i := 0) (by omega) (by omega)).symm
  have hother : ∀ a ∈ p.listed, ∀ i < 24, a ≠ q.addr ∨ 0 < i → a + i ≠ q.addr := by
    intro a ha i hi hor heq
    by_cases haq : a = q.addr
    · omega
    · exact hplaced.words ha hql haq hi (j := 0) (by omega) heq
  refine h.relist ⟨?_, fun s hs => ?_, ?_⟩ (h.wf.placed_without _ hsplit).tail
    (fun b hb _ _ => ?_) h.held h.live
  · simp only [withRecords_addr, store_mem]
    rw [Function.update_of_ne (hhead 184 (by omega) (by omega))]
    have hform : ((rs ++ [q]) ++ r :: rs').map Record.addr
        = rs.map Record.addr ++ q.addr :: r.addr :: rs'.map Record.addr := by simp
    rw [hsplit, hform] at hchain
    have := chain_unlink hchain
    simpa [Pool.withRecords] using this
  · have hin := hlisted s (hkept s hs)
    simp only [store_mem]
    rw [Function.update_of_ne (hother _ hin 8 (by omega) (Or.inr (by omega))),
      Function.update_of_ne (hother _ hin 16 (by omega) (Or.inr (by omega)))]
    exact h.rep.records.record s (hkept s hs)
  · simp only [withRecords_addr, store_mem]
    rw [Function.update_of_ne (hhead 192 (by omega) (by omega))]
    refine chain_congr (fun a ha => Function.update_of_ne ?_ _ _) h.rep.records.frees
    have hne : a ≠ q.addr := by
      rintro rfl
      exact (List.nodup_append.mp h.wf.listed_nodup).2.2 _ (List.mem_map_of_mem hq) _ ha rfl
    exact hother a (List.mem_append_right _ ha) 0 (by omega) (Or.inl hne)
  · obtain ⟨n, hn, hc⟩ := hplaced.covered hql (i := 0) (by omega)
    refine Function.update_of_ne ?_ _ _
    rintro rfl
    exact hb n hn hc

/-- **A record is taken off the cleanups** by one store, to the start of the
    list or to the record before it. -/
theorem unlinkRecord_spec {plat : Platform} {w : World} {p : Pool} {rs rs' : List Record}
    {r : Record} (h : PoolAt plat w p) (hsplit : p.cleanups = rs ++ r :: rs') :
    ∃ x, unlinkRecord p.addr (lastAddr 0 rs) r.addr w = .ok () (w.store x (w.mem r.addr)) ∧
      PoolAt plat (w.store x (w.mem r.addr)) (p.withRecords (rs ++ rs') p.frees) ∧
      (x = p.addr + 184 ∨ ∃ n ∈ p.nodes, n.body.Covers x) := by
  have hchain := h.rep.records.cleanups
  rw [hsplit, List.map_append, List.map_cons] at hchain
  rcases List.eq_nil_or_concat' rs with rfl | ⟨rs₀, q, rfl⟩
  · -- the record is the first: the list starts behind it
    have hhead : w.mem (p.addr + 184) = r.addr := chain_head hchain
    exact ⟨p.addr + 184, by simp [unlinkRecord, hhead], h.unlinkFirst hsplit, Or.inl rfl⟩
  · -- the record before it is linked to the one behind it
    have hq : q ∈ p.cleanups := by rw [hsplit]; simp
    have hlast : lastAddr 0 (rs₀ ++ [q]) = q.addr := by simp [lastAddr]
    have hqne : q.addr ≠ 0 := chain_ne_null hchain _ (by simp)
    have hnd := chain_nodup hchain
    have hhead : w.mem (p.addr + 184) ≠ r.addr := by
      intro heq
      rw [heq] at hchain
      have hmem : r.addr ∈ (rs₀ ++ [q]).map Record.addr := by
        cases hc : (rs₀ ++ [q]).map Record.addr with
        | nil => simp at hc
        | cons a l =>
          rw [hc] at hchain
          rw [chain_head hchain]
          exact List.mem_cons_self
      exact (List.nodup_append.mp hnd).2.2 _ hmem _ List.mem_cons_self rfl
    refine ⟨q.addr, by simp [unlinkRecord, hhead, hlast, hqne], h.unlinkInner hsplit, Or.inr ?_⟩
    exact h.wf.placed.covered (List.mem_append_left _ (List.mem_map_of_mem hq)) (i := 0) (by omega)

/-- **A record is reserved**: two stores, to the record and to the start of the
    reserve. -/
theorem reserveRecord_spec {plat : Platform} {w : World} {p : Pool} {a : Nat}
    (h : PoolAt plat w p) (hplaced : Placed p (a :: p.listed)) (ha : a ≠ 0) :
    reserveRecord load p.addr a w
        = .ok () ((w.store a (w.mem (p.addr + 192))).store (p.addr + 192) a) ∧
      PoolAt plat ((w.store a (w.mem (p.addr + 192))).store (p.addr + 192) a)
        (p.withRecords p.cleanups (a :: p.frees)) := by
  have hlow := le_sizeofPool plat
  have hmem : a ∈ a :: p.listed := List.mem_cons_self
  have hfresh : a ∉ p.listed := (List.nodup_cons.mp hplaced.nodup).1
  have hplaced' : Placed p (p.cleanups.map Record.addr ++ a :: p.frees) :=
    hplaced.perm List.perm_middle.symm
  have hword : ∀ x ∈ a :: p.listed, ∀ i < 24, ∀ j < 200, x + i ≠ p.addr + j := fun x hx i hi j hj =>
    h.record_word hplaced hx hi (by omega)
  have hne := hword a hmem 0 (by omega) 192 (by omega)
  -- the record is new, so the words of the others stay
  have hlisted : ∀ r ∈ p.listed, ∀ i < 24,
      ((w.store a (w.mem (p.addr + 192))).store (p.addr + 192) a).mem (r + i) = w.mem (r + i) := by
    intro r hr i hi
    have hr' : r ∈ a :: p.listed := List.mem_cons_of_mem _ hr
    have h₁ : r + i ≠ a :=
      hplaced.words hr' hmem (ne_of_mem_of_not_mem hr hfresh) hi (j := 0) (by omega)
    simp only [store_mem]
    rw [Function.update_of_ne (hword r hr' i hi 192 (by omega)), Function.update_of_ne h₁]
  refine ⟨by simp [reserveRecord], h.relist ⟨?_, fun s hs => ?_, ?_⟩ hplaced' (fun b hb _ hb' => ?_)
    h.held h.live⟩
  · have h184 := hword a hmem 0 (by omega) 184 (by omega)
    have hstart : ((w.store a (w.mem (p.addr + 192))).store (p.addr + 192) a).mem (p.addr + 184)
        = w.mem (p.addr + 184) := by
      simp only [store_mem]
      rw [Function.update_of_ne (by omega), Function.update_of_ne (by omega)]
    rw [withRecords_addr, hstart]
    exact chain_congr (fun r hr => hlisted r (List.mem_append_left _ hr) 0 (by omega))
      h.rep.records.cleanups
  · have hin : s.addr ∈ p.listed := List.mem_append_left _ (List.mem_map_of_mem hs)
    rw [hlisted _ hin 8 (by omega), hlisted _ hin 16 (by omega)]
    exact h.rep.records.record s hs
  · refine ⟨by simp, ha, ?_⟩
    have hlink : ((w.store a (w.mem (p.addr + 192))).store (p.addr + 192) a).mem a
        = w.mem (p.addr + 192) := by
      simp only [store_mem]
      rw [Function.update_of_ne (by omega), Function.update_self]
    rw [hlink]
    exact chain_congr (fun r hr => hlisted r (List.mem_append_right _ hr) 0 (by omega))
      h.rep.records.frees
  · obtain ⟨n, hn, hc⟩ := hplaced.covered hmem (i := 0) (by omega)
    have hba : b ≠ a := by
      rintro rfl
      exact hb n hn hc
    simp only [store_mem]
    rw [Function.update_of_ne hb', Function.update_of_ne hba]

/-! ## Section 4: Running all records -/

/-- What running a record logs. -/
def callEvents (plat : Platform) (r : Record) : List Event :=
  .called r.handler r.data :: if r.handler = plat.sprFree then [.freed r.data] else []

/-- What running a record leaves of the regions given out. -/
def liveAfter (plat : Platform) (live : List Span) (r : Record) : List Span :=
  if r.handler = plat.sprFree then live.filter fun s => s.start ≠ r.data else live

/-- The world after the handler of `r`. -/
def World.ran (plat : Platform) (r : Record) (w : World) : World :=
  { w with live := liveAfter plat w.live r, log := w.log ++ callEvents plat r }

@[simp] theorem ran_mem (plat : Platform) (r : Record) (w : World) :
    (w.ran plat r).mem = w.mem := rfl

@[simp] theorem ran_live (plat : Platform) (r : Record) (w : World) :
    (w.ran plat r).live = liveAfter plat w.live r := rfl

@[simp] theorem ran_log (plat : Platform) (r : Record) (w : World) :
    (w.ran plat r).log = w.log ++ callEvents plat r := rfl

theorem runRecord_run {plat : Platform} {w : World} {r : Record} (hd : w.mem (r.addr + 8) = r.data)
    (hh : w.mem (r.addr + 16) = r.handler) : runRecord plat r.addr w = .ok () (w.ran plat r) := by
  by_cases hf : r.handler = plat.sprFree
  · simp [runRecord, callHandler, hd, hh, hf, World.ran, liveAfter, callEvents, World.release,
      World.emit]
  · simp [runRecord, callHandler, hd, hh, hf, World.ran, liveAfter, callEvents, World.emit]

/-- The records do not free the pool's own memnodes. -/
def KeepsNodes (plat : Platform) (p : Pool) (rs : List Record) : Prop :=
  ∀ r ∈ rs, r.handler = plat.sprFree → ∀ n ∈ p.nodes, n.addr ≠ r.data

theorem mem_liveAfter {plat : Platform} {live : List Span} {r : Record} {s : Span}
    (hs : s ∈ live) (hkeep : r.handler = plat.sprFree → s.start ≠ r.data) :
    s ∈ liveAfter plat live r := by
  unfold liveAfter
  split
  · exact List.mem_filter.mpr ⟨hs, by simpa using hkeep (by assumption)⟩
  · exact hs

theorem liveOk_liveAfter {plat : Platform} {live : List Span} (h : LiveOk live) (r : Record) :
    LiveOk (liveAfter plat live r) := by
  unfold liveAfter
  split
  · exact liveOk_release h r.data
  · exact h

/-- A handler leaves the pool in place. -/
theorem PoolAt.ran {plat : Platform} {w : World} {p : Pool} {r : Record} (h : PoolAt plat w p)
    (hkeep : KeepsNodes plat p [r]) : PoolAt plat (w.ran plat r) p :=
  ⟨h.rep, h.wf, fun n hn => mem_liveAfter (h.held n hn) fun hf =>
    hkeep r List.mem_cons_self hf n hn, liveOk_liveAfter h.live r⟩

@[simp] theorem withRecords_withRecords (cs cs' : List Record) (fs fs' : List Nat) (p : Pool) :
    (p.withRecords cs fs).withRecords cs' fs' = p.withRecords cs' fs' := rfl

@[simp] theorem withRecords_cleanups (cs : List Record) (fs : List Nat) (p : Pool) :
    (p.withRecords cs fs).cleanups = cs := rfl

@[simp] theorem withRecords_frees (cs : List Record) (fs : List Nat) (p : Pool) :
    (p.withRecords cs fs).frees = fs := rfl

/-- The header of a pool that is in place is given out. -/
theorem PoolAt.header_live {plat : Platform} {w : World} {p : Pool} (h : PoolAt plat w p) {j : Nat}
    (hj : j < sizeofPool plat) : w.isLive (p.addr + j) = true := by
  obtain ⟨home, hhome, haddr, hend⟩ := h.wf.home
  have hupper := (h.wf.node home hhome).upper
  refine List.any_eq_true.mpr ⟨home.region, h.held home hhome, ?_⟩
  have hcover : home.addr ≤ p.addr + j ∧ p.addr + j < home.addr + home.deallocSize := by omega
  exact decide_eq_true hcover

/-- What running a record and reserving it logs. -/
def runEvents (plat : Platform) (rd : Reader) (pool : Nat) (r : Record) : List Event :=
  callEvents plat r ++ rd.events (pool + 192) true

/-- The loop of `spr_pool_cleanup_run_all`.  While it runs, `pool->cleanups`
    still has the old start; the pool would be in place if it had the current
    one. -/
theorem runAllLoop_spec {plat : Platform} (rd : Reader) {rs : List Record} :
    ∀ {w : World} {p : Pool} {start fuel : Nat}, PoolAt plat (w.store (p.addr + 184) start) p →
      p.cleanups = rs → KeepsNodes plat p rs → rs.length < fuel →
      ∃ w', runAllLoop plat rd.run p.addr fuel start w = .ok () w' ∧
        PoolAt plat (w'.store (p.addr + 184) 0)
          (p.withRecords [] ((rs.map Record.addr).reverse ++ p.frees)) ∧
        (∀ b, (∀ n ∈ p.nodes, ¬ n.body.Covers b) → b ≠ p.addr + 192 → w'.mem b = w.mem b) ∧
        w'.live = rs.foldl (liveAfter plat) w.live ∧
        w'.log = w.log ++ rs.flatMap (runEvents plat rd p.addr) := by
  induction rs with
  | nil =>
    intro w p start fuel h hnil _ hfuel
    obtain ⟨fuel, rfl⟩ : ∃ f, fuel = f + 1 := ⟨fuel - 1, by simp at hfuel; omega⟩
    have hchain := h.rep.records.cleanups
    rw [hnil, store_mem, Function.update_self] at hchain
    obtain rfl : start = 0 := hchain
    refine ⟨w, by simp [runAllLoop], ?_, fun _ _ _ => rfl, rfl, by simp⟩
    have hsame : p.withRecords [] ((([] : List Record).map Record.addr).reverse ++ p.frees)
        = p := by
      rw [← hnil, List.map_eq_nil_iff.mpr hnil]
      rfl
    rwa [hsame]
  | cons r rs ih =>
    intro w p start fuel h hcons hkeep hfuel
    obtain ⟨fuel, rfl⟩ : ∃ f, fuel = f + 1 := ⟨fuel - 1, by simp at hfuel; omega⟩
    have hlow := le_sizeofPool plat
    have hin : r ∈ p.cleanups := by rw [hcons]; exact List.mem_cons_self
    have hlisted : r.addr ∈ p.listed := List.mem_append_left _ (List.mem_map_of_mem hin)
    have hplaced := h.wf.placed_without [] hcons
    have hword : ∀ i < 24, ∀ j < 200, r.addr + i ≠ p.addr + j := fun i hi j hj =>
      h.record_word h.wf.placed hlisted hi (by omega)
    have h184 : r.addr ≠ p.addr + 184 := hword 0 (by omega) 184 (by omega)
    have h192 : r.addr ≠ p.addr + 192 := hword 0 (by omega) 192 (by omega)
    have hchain := h.rep.records.cleanups
    rw [hcons, store_mem, Function.update_self, List.map_cons] at hchain
    obtain ⟨rfl, hne, -⟩ := hchain
    obtain ⟨hd, hh⟩ := h.rep.records.record r hin
    rw [store_mem, Function.update_of_ne (hword 8 (by omega) 184 (by omega))] at hd
    rw [store_mem, Function.update_of_ne (hword 16 (by omega) 184 (by omega))] at hh
    have hkeep₁ : KeepsNodes plat p [r] := fun s hs =>
      hkeep s (by rw [List.mem_singleton.mp hs]; exact List.mem_cons_self)
    -- the record is off the list, its handler has run, and it is reserved
    have hoff := ((h.unlinkFirst hcons).ran (r := r) hkeep₁)
    obtain ⟨-, hres⟩ := reserveRecord_spec hoff (hplaced.of_nodes rfl) hne
    have hlive : (w.ran plat r).isLive (p.addr + 192) = true := hoff.header_live (by omega)
    have hnext : PoolAt plat ((((((w.ran plat r).emits (rd.events (p.addr + 192) true)).store r.addr
        (w.mem (p.addr + 192))).store (p.addr + 192) r.addr)).store (p.addr + 184) (w.mem r.addr))
        (p.withRecords rs (r.addr :: p.frees)) := by
      refine hres.of_eq ?_ rfl
      simp only [store_mem, ran_mem, emits_mem, withRecords_addr, Function.update_idem,
        Function.update_of_ne h184,
        Function.update_of_ne (show p.addr + 192 ≠ p.addr + 184 by omega)]
      rw [Function.update_comm (show p.addr + 192 ≠ p.addr + 184 by omega),
        Function.update_comm h184]
    obtain ⟨w', hrun, hp', hframe, hlive', hlog⟩ := ih (p := p.withRecords rs (r.addr :: p.frees))
      hnext rfl (fun s hs => hkeep s (List.mem_cons_of_mem _ hs)) (by simpa using hfuel)
    refine ⟨w', ?_, ?_, fun b hb hb' => ?_, ?_, ?_⟩
    · rw [← hrun]
      simp [runAllLoop, hne, runRecord_run hd hh, reserveRecord, hlive]
    · simpa using hp'
    · obtain ⟨n, hn, hc⟩ := hplaced.covered (i := 0) List.mem_cons_self (by omega)
      have hba : b ≠ r.addr := by
        rintro rfl
        exact hb n hn hc
      rw [hframe b hb hb']
      simp only [store_mem, emits_mem, ran_mem]
      rw [Function.update_of_ne hb', Function.update_of_ne hba]
    · rw [hlive']; rfl
    · rw [hlog]
      simp [runEvents]

/-- What `spr_pool_cleanup_run_all` logs. -/
def runAllEvents (plat : Platform) (rd : Reader) (p : Pool) : List Event :=
  rd.events (p.addr + 184) true ++ p.cleanups.flatMap (runEvents plat rd p.addr)

@[simp] theorem runAllEvents_plain (plat : Platform) (p : Pool) :
    runAllEvents plat .plain p = p.cleanups.flatMap (callEvents plat) := by
  have hrun : runEvents plat .plain p.addr = callEvents plat := by
    funext r
    simp [runEvents]
  rw [runAllEvents, hrun]
  rfl

/-- **`spr_pool_cleanup_run_all`**: every handler runs, newest registration
    first, and every record goes to the reserve. -/
theorem sprPoolCleanupRunAll_spec {plat : Platform} {w : World} {p : Pool} (rd : Reader)
    (h : PoolAt plat w p) (hkeep : KeepsNodes plat p p.cleanups) :
    ∃ w', sprPoolCleanupRunAll plat rd.run p.addr w = .ok () w' ∧
      PoolAt plat w' (p.withRecords [] ((p.cleanups.map Record.addr).reverse ++ p.frees)) ∧
      (∀ b, (∀ n ∈ p.nodes, ¬ n.body.Covers b) → b ≠ p.addr + 184 → b ≠ p.addr + 192 →
        w'.mem b = w.mem b) ∧
      w'.live = p.cleanups.foldl (liveAfter plat) w.live ∧
      w'.log = w.log ++ runAllEvents plat rd p := by
  have hlow := le_sizeofPool plat
  have hread : w.isLive (p.addr + 184) = true := h.header_live (by omega)
  have hself : PoolAt plat ((w.emits (rd.events (p.addr + 184) true)).store (p.addr + 184)
      (w.mem (p.addr + 184))) p := h.of_eq (Function.update_eq_self _ _) rfl
  obtain ⟨w', hrun, hp', hframe, hlive, hlog⟩ :=
    runAllLoop_spec rd hself rfl hkeep h.cleanups_length
  refine ⟨w'.store (p.addr + 184) 0, by simp [sprPoolCleanupRunAll, hread, hrun], hp', ?_, hlive,
    by simp [hlog, runAllEvents]⟩
  intro b hb h₁ h₂
  rw [store_mem, Function.update_of_ne h₁]
  exact hframe b hb h₂

end Spr.MemPool
