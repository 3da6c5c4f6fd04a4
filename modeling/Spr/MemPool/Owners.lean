import Spr.Framework.Simulation
import Spr.MemPool.Keeps
import Spr.MemPool.Refusals

/-! # What the owners of blocks rely on

    Code that keeps its data in blocks of a pool asks for blocks, and stores to those it
    has.

    * `pallocNoted`, `pallocNoted_spec`: a block apart from all others, or `NULL`.
    * `StoreTo`, `stores_keep`: stores to some blocks leave the others alone.
    * `Respects`, `respects_keeps`: calls that leave a block and its words to its owner. -/

namespace Spr.MemPool

open Spr.Words Spr.Simulations Spr.Forests

/-! ## Section 1: Blocks that are held -/

section Held

variable {plat : Platform} {s : Session} {f : Forest Pool} {w w' : World} {b c : Block}

/-- Blocks that are held are apart. -/
theorem held_apart (h : Inv plat s f) (hb : b ∈ heldBlocks s.world.log)
    (hc : c ∈ heldBlocks s.world.log) (hne : b ≠ c) : Span.Disjoint b.span c.span := by
  have hsymm : Std.Symm fun b c : Block => Span.Disjoint b.span c.span :=
    ⟨fun _ _ hdis => hdis.symm⟩
  exact h.blocks.apart.forall hb hc hne

/-- A block that is held ends below `2^64`. -/
theorem held_end (h : Inv plat s f) (hb : b ∈ heldBlocks s.world.log) :
    b.addr ≠ 0 ∧ b.span.start + b.span.len ≤ wordMod := by
  obtain ⟨t, ht, hin⟩ := (h.blocks.place b hb).in_live h.pools
  obtain ⟨hstart, -, -, hend⟩ := h.pools.live.bounded t ht
  simp only [Span.Within, Block.span] at hin ⊢
  omega

/-- A block that is held has bytes. -/
theorem held_size (h : Inv plat s f) (hb : b ∈ heldBlocks s.world.log) :
    b.size ≤ b.span.len ∧ 0 < b.span.len := by
  obtain ⟨hle, hpos, -⟩ := sprAlignAllocation_bounds (h.blocks.size b hb)
  exact ⟨hle, show 0 < sprAlignAllocation b.size by omega⟩

theorem not_disjoint_self {t : Span} (h : 0 < t.len) : ¬ Span.Disjoint t t := by
  simp only [Span.Disjoint]
  omega

/-- Each block that is held is held once. -/
theorem heldBlocks_nodup (h : Inv plat s f) : (heldBlocks s.world.log).Nodup := by
  refine h.blocks.apart.imp_of_mem fun {b c} hb _ hdis => ?_
  rintro rfl
  exact not_disjoint_self (held_size h hb).2 hdis

/-- A block that has just been handed out is new. -/
theorem handed_new (h : Inv plat ⟨w', s.family⟩ f)
    (hheld : heldBlocks w'.log = b :: heldBlocks w.log) (hc : c ∈ heldBlocks w.log) :
    b ≠ c ∧ Span.Disjoint b.span c.span := by
  have hpair := h.blocks.apart
  rw [show heldBlocks (Session.mk w' s.family).world.log = _ from hheld] at hpair
  have hdis := (List.pairwise_cons.mp hpair).1 c hc
  refine ⟨?_, hdis⟩
  rintro rfl
  have hb : b ∈ heldBlocks (Session.mk w' s.family).world.log := by
    rw [show heldBlocks (Session.mk w' s.family).world.log = _ from hheld]
    exact List.mem_cons_self
  exact not_disjoint_self (held_size h hb).2 hdis

end Held

/-! ## Section 2: Allocation -/

/-- `spr_palloc(pool, size)`, and the block is noted. -/
def pallocNoted (plat : Platform) (thread pool size : Nat) : Act Nat := do
  let r ← sprPalloc plat thread pool size
  modify (handOut pool r size)
  pure r

section Allocation

variable {plat : Platform} {s : Session} {f : Forest Pool} {w' : World} {thread pool size r : Nat}

/-- The pages of a request that fits. -/
theorem SizeFits.pages (hfits : SizeFits plat size) (halign : sprAlignAllocation size ≠ 0)
    (hindex : slotIndex plat size ≤ sprMaxPoolSlot) :
    sizeofMemnode ≤ mul (sprGetNpages plat (sprAlignAllocation size)) plat.pageSize := by
  have hwrap := hfits halign hindex
  obtain ⟨-, hroom⟩ := hwrap.pages
  rw [mul_of_lt hwrap.2]
  omega

/-- A refused allocation has set `errno`. -/
theorem Inv.palloc_errno (h : Inv plat s f) (hpool : pool ∈ s.addrs)
    (hfits : SizeFits plat size) (halign : sprAlignAllocation size ≠ 0)
    (hrun : sprPalloc plat thread pool size s.world = .ok 0 w') : w'.errno = enomem := by
  obtain ⟨p, hp, rfl⟩ := h.find hpool
  have hpw := h.pools.pool p hp
  by_cases hindex : slotIndex plat size ≤ sprMaxPoolSlot
  · obtain ⟨r, w₁, hslots, hout⟩ := pallocSlots_outcome (k := sprAlignAllocation size) thread hpw
      hindex (hfits.pages halign hindex)
    rw [sprPalloc_slots halign hindex, hslots] at hrun
    injection hrun with hr hw
    subst hw
    generalize hz : r = z at hout
    cases hout with
    | found _ n hfit _ =>
      have hok := (hpw.wf.node n (Pool.fromSlot_nodes (firstFit_some hfit).1))
      have hheader := hok.header
      have hlower := hok.lower
      simp only [sizeofMemnode] at hheader
      omega
    | refused _ _ _ _ _ herrno => exact herrno
    | fresh _ a _ _ _ _ =>
      simp only [sizeofMemnode] at hz
      omega
  · have hout := sprPalloc_big thread hpw (Nat.lt_of_not_le hindex)
    rw [hrun] at hout
    generalize hz : (0 : Nat) = z at hout
    cases hout with
    | refused _ _ _ herrno => exact herrno
    | registered _ a _ hgrant _ _ => exact absurd hz.symm hgrant.1

/-- **What `spr_palloc` gives**: nothing, or a block apart from all others. -/
theorem pallocNoted_spec (hs : Reachable plat (Session.Plain plat) s)
    (hop : s.Plain plat (.palloc thread pool size))
    (hrun : pallocNoted plat thread pool size s.world = .ok r w') :
    Reachable plat (Session.Plain plat) ⟨w', s.family⟩ ∧ KeepsBlocks s.world w' ∧
      ((r = 0 ∧ heldBlocks w'.log = heldBlocks s.world.log ∧
          (sprAlignAllocation size ≠ 0 → w'.errno = enomem)) ∨
        (r ≠ 0 ∧ heldBlocks w'.log = ⟨pool, r, size⟩ :: heldBlocks s.world.log ∧
          sprAlignAllocation size ≠ 0)) := by
  obtain ⟨fs, hinv⟩ := reachable_inv hs
  cases hpalloc : sprPalloc plat thread pool size s.world with
  | error e w₁ => simp [pallocNoted, hpalloc] at hrun
  | ok r' w₁ =>
    simp only [pallocNoted, bind_run, hpalloc, modify_run, pure_run,
      EStateM.Result.ok.injEq] at hrun
    obtain ⟨rfl, rfl⟩ := hrun
    have hpool := hop.1
    obtain ⟨hfits, hclean⟩ := hop.2.1
    obtain ⟨-, -, -, -, -, -, -, hnew⟩ := hinv.palloc hpool hfits hclean hpalloc
    obtain ⟨hheld, hkeeps⟩ := hinv.palloc_keeps hpool hfits hclean hpalloc
    refine ⟨.step s _ (.palloc thread pool size) hs hop ?_, ?_, ?_⟩
    · simp [Session.exec, hpalloc, returned]
    · intro b hb a ha
      rw [← hkeeps b hb a ha, handOut]
      split <;> rfl
    · by_cases hr : r' = 0
      · subst hr
        exact Or.inl ⟨rfl, hheld, fun halign => hinv.palloc_errno hpool hfits halign hpalloc⟩
      · refine Or.inr ⟨hr, ?_, (hnew hr).2⟩
        rw [handOut, if_neg hr, emit_log, heldBlocks_handed, hheld]

end Allocation

/-! ## Section 3: Stores to blocks -/

/-- A word is stored to one of the blocks. -/
def StoreTo (bs : List Block) (w w' : World) : Prop :=
  ∃ a v, a % 8 = 0 ∧ (∃ b ∈ bs, b.span.Covers a) ∧ w' = w.store a v

section Stores

variable {plat : Platform} {s : Session} {w' : World} {bs : List Block}

/-- **Stores to some blocks**: calls that a plain run allows, which leave the other blocks
    alone. -/
theorem stores_keep (hs : Reachable plat (Session.Plain plat) s)
    (hheld : ∀ b ∈ bs, b ∈ heldBlocks s.world.log)
    (hsteps : Relation.ReflTransGen (StoreTo bs) s.world w') :
    Reachable plat (Session.Plain plat) ⟨w', s.family⟩ ∧ w'.log = s.world.log ∧
      ∀ b ∈ heldBlocks s.world.log, b ∉ bs → ∀ a, b.span.Covers a →
        w'.mem a = s.world.mem a := by
  obtain ⟨fs, hinv⟩ := reachable_inv hs
  refine steps_keep (P := fun w => Reachable plat (Session.Plain plat) ⟨w, s.family⟩ ∧
    w.log = s.world.log ∧ ∀ b ∈ heldBlocks s.world.log, b ∉ bs → ∀ a, b.span.Covers a →
      w.mem a = s.world.mem a) hsteps ?_ ⟨hs, rfl, fun _ _ _ _ _ => rfl⟩
  rintro w₁ w₂ ⟨hreach, hlog, hsame⟩ ⟨a, v, hal, ⟨c, hc, hca⟩, rfl⟩
  refine ⟨.step ⟨w₁, s.family⟩ _ (.write a v) hreach ?_ rfl, hlog, fun b hb hout x hx => ?_⟩
  · -- the block is held still, as a store logs nothing
    exact ⟨⟨hal, c, by rw [hlog]; exact hheld c hc, hca⟩, trivial, trivial, fun h => h.elim⟩
  · rw [store_mem, Function.update_of_ne, hsame b hb hout x hx]
    rintro rfl
    have hne : b ≠ c := fun heq => hout (heq ▸ hc)
    exact (held_apart hinv hb (hheld c hc) hne).not_covers hx hca

end Stores

/-! ## Section 4: Calls of others -/

/-- The call takes the block from no one and stores nothing to it. -/
def Respects (plat : Platform) (s : Session) (b : Block) (op : Op) : Prop :=
  (∀ s' ∈ s.exec plat op, b ∈ heldBlocks s'.world.log) ∧
    match op with
    | .write a _ => ¬ b.span.Covers a
    | _ => True

instance (plat : Platform) (s : Session) (b : Block) (op : Op) :
    Decidable (Respects plat s b op) := by
  unfold Respects
  rcases op <;> infer_instance

/-- A block that is respected stays held, and its words as they are. -/
theorem respects_keeps {plat : Platform} {s s' : Session} {f : Forest Pool} {b : Block} {op : Op}
    (h : Inv plat s f) (hop : s.Plain plat op) (hrespects : Respects plat s b op)
    (hexec : s.exec plat op = some s') (hb : b ∈ heldBlocks s.world.log) :
    b ∈ heldBlocks s'.world.log ∧ ∀ a, b.span.Covers a → s'.world.mem a = s.world.mem a := by
  have hb' := hrespects.1 s' hexec
  refine ⟨hb', fun a ha => exec_keeps h hop hexec (fun v hwrite => ?_) hb hb' ha⟩
  subst hwrite
  exact hrespects.2 ha

end Spr.MemPool
