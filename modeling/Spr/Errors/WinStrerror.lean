import Mathlib.Algebra.Group.Nat.Defs
import Mathlib.Data.List.DropRight

/-! # Texts of errors on Win32

    `spr_os_strerror` of `src/lib/spr_errno.c` for Win32.  `FormatMessage` leaves a message
    of any bytes in the buffer, behind it a NUL, and returns the length of the message.

    * `trimLoop`: the loop at the end of the function.
    * `TrimsMarks`, `Ends`: what it should leave, and for which messages it does.
    * `osStrerror_trims_iff`: that it does for those. -/

namespace Spr.Errors

/-! ## Section 1: The function -/

/-- `MAKELANGID(LANG_ENGLISH, SUBLANG_ENGLISH_US)` -/
def langEnglishUs : UInt32 := 0x0409

/-- The test of the loop. -/
def trimmable (b : UInt8) : Bool := b = 0 || b = 13 || b = 10 || b = 46

/-- The loop of `spr_os_strerror`, with `len` the position it looks at; there is no result
    when it leaves the buffer, or has not ended after `fuel` rounds. -/
def trimLoop : Nat → List UInt8 → UInt32 → Option (List UInt8)
  | 0, _, _ => none
  | fuel + 1, buf, len => do
      let b ← buf[len.toNat]?
      if trimmable b then trimLoop fuel (buf.set len.toNat 0) (len - 1) else some buf

/-- The message that `FormatMessage` leaves in the buffer, none when it fails twice. -/
def formatted (formatMessage : UInt32 → List UInt8) : List UInt8 :=
  if formatMessage langEnglishUs = [] ∧ langEnglishUs ≠ 0 then formatMessage 0
  else formatMessage langEnglishUs

/-- `spr_os_strerror(err, buf, bufsize)` of Win32: what it leaves in the bytes of the
    message and its terminator, or `NULL`.  `FormatMessage` depends on the language. -/
def winOsStrerror (formatMessage : UInt32 → List UInt8) (bufsize fuel : Nat) :
    Option (Option (List UInt8)) :=
  if bufsize = 0 then some none
  else
    let message := formatted formatMessage
    if message = [] then some none
    else do
      let buf ← trimLoop fuel (message ++ [0]) (UInt32.ofNat message.length)
      some (some buf)

/-! ## Section 2: What it is for -/

/-- The bytes that should be trimmed. -/
def isMark (b : UInt8) : Bool := b = 13 || b = 10 || b = 46

/-- The loop ends with the message in the buffer, less the marks at its end. -/
def TrimsMarks (formatMessage : UInt32 → List UInt8) (bufsize : Nat) : Prop :=
  let trimmed := (formatted formatMessage).rdropWhile isMark
  ∃ fuel buf, winOsStrerror formatMessage bufsize fuel = some (some buf) ∧
    buf.take (trimmed.length + 1) = trimmed ++ [0]

/-- A message of which something is left, and that has no mark in front of a NUL behind
    that. -/
def Ends (message : List UInt8) : Prop :=
  ∃ keep b zeros marks, message = keep ++ b :: (zeros ++ marks) ∧ trimmable b = false ∧
    (∀ z ∈ zeros, z = 0) ∧ ∀ m ∈ marks, isMark m = true

/-! ## Section 3: The loop -/

section Trimming

variable {buf keep tail message zeros marks : List UInt8} {b : UInt8} {n : Nat}

theorem trimmable_of_isMark (h : isMark b = true) : trimmable b = true := by
  unfold isMark at h
  unfold trimmable
  simp only [Bool.or_eq_true, decide_eq_true_eq] at *
  tauto

/-- More rounds do not change what the loop leaves. -/
theorem trimLoop_unique {fuel fuel' : Nat} {len : UInt32} {out out' : List UInt8}
    (h : trimLoop fuel buf len = some out) (h' : trimLoop fuel' buf len = some out') :
    out = out' := by
  induction fuel generalizing fuel' buf len with
  | zero => exact absurd h (by simp [trimLoop])
  | succ fuel ih =>
    cases fuel' with
    | zero => exact absurd h' (by simp [trimLoop])
    | succ fuel' =>
      rw [trimLoop] at h h'
      cases hb : buf[len.toNat]? with
      | none => simp [hb] at h
      | some b =>
        rw [hb] at h h'
        simp only [Option.bind_eq_bind, Option.bind_some] at h h'
        by_cases htrim : trimmable b = true
        · rw [if_pos htrim] at h h'
          exact ih h h'
        · rw [if_neg htrim] at h h'
          exact Option.some.inj (h.symm.trans h')

/-- **The loop does not end** on a buffer that it would trim to nothing: it goes on in
    front of the first byte, at the greatest index. -/
theorem trimLoop_all (h : ∀ b ∈ buf, trimmable b = true) (fuel : Nat) (len : UInt32) :
    trimLoop fuel buf len = none := by
  induction fuel generalizing buf len with
  | zero => rfl
  | succ fuel ih =>
    rw [trimLoop]
    cases hb : buf[len.toNat]? with
    | none => rfl
    | some b =>
      simp only [Option.bind_eq_bind, Option.bind_some]
      rw [if_pos (h b (List.mem_of_getElem? hb))]
      apply ih
      intro c hc
      rcases List.mem_or_eq_of_mem_set hc with hin | rfl
      · exact h c hin
      · rfl

/-- **The loop stops** at the last byte that is not trimmed, by induction on the end of
    the message that is left. -/
theorem trimLoop_stops (hb : trimmable b = false) (htail : ∀ c ∈ tail, trimmable c = true)
    (hlen : keep.length + tail.length < 2 ^ 32) (n : Nat) :
    trimLoop (tail.length + 1) (keep ++ b :: (tail ++ List.replicate n 0))
        (UInt32.ofNat (keep.length + tail.length))
      = some (keep ++ b :: List.replicate (tail.length + n) 0) := by
  induction tail using List.reverseRecOn generalizing n with
  | nil =>
    rw [trimLoop, UInt32.toNat_ofNat_of_lt' (by simpa using hlen)]
    simp [hb]
  | append_singleton tail c ih =>
    have hc : trimmable c = true := htail c (by simp)
    have hrest := ih (fun d hd => htail d (List.mem_append_left [c] hd))
      (by rw [List.length_append] at hlen; omega) (n + 1)
    rw [List.length_append, List.length_singleton] at hlen ⊢
    -- the last mark becomes a NUL, and the loop goes one down
    have hpos : (UInt32.ofNat (keep.length + (tail.length + 1))).toNat
        = keep.length + (tail.length + 1) := UInt32.toNat_ofNat_of_lt' hlen
    have hget : (keep ++ b :: (tail ++ [c] ++ List.replicate n 0))[keep.length
        + (tail.length + 1)]? = some c := by
      rw [List.getElem?_append_right (by omega)]
      simp
    have hset : (keep ++ b :: (tail ++ [c] ++ List.replicate n 0)).set
        (keep.length + (tail.length + 1)) 0 = keep ++ b :: (tail ++ List.replicate (n + 1) 0) := by
      rw [List.set_append_right _ _ (by omega)]
      simp [List.replicate_succ]
    have hdown : UInt32.ofNat (keep.length + (tail.length + 1)) - 1
        = UInt32.ofNat (keep.length + tail.length) := by
      rw [← Nat.add_assoc, UInt32.ofNat_add]
      exact UInt32.add_sub_cancel _ _
    rw [trimLoop, hpos, hget]
    simp only [Option.bind_eq_bind, Option.bind_some]
    rw [if_pos hc, hset, hdown, hrest, Nat.add_assoc, Nat.add_comm 1 n]

/-! ## Section 4: Messages -/

/-- A message is trimmed to nothing, or has a last byte that is not trimmed. -/
theorem last_kept (message : List UInt8) : (∀ b ∈ message, trimmable b = true) ∨
    ∃ keep b tail, message = keep ++ b :: tail ∧ trimmable b = false ∧
      ∀ c ∈ tail, trimmable c = true := by
  induction message with
  | nil =>
    left
    intro b hb
    cases hb
  | cons c message ih =>
    rcases ih with hall | ⟨keep, b, tail, rfl, hb, htail⟩
    · cases hc : trimmable c with
      | false => exact Or.inr ⟨[], c, message, rfl, hc, hall⟩
      | true =>
        left
        intro d hd
        rcases List.mem_cons.mp hd with rfl | hin
        · exact hc
        · exact hall d hin
    · exact Or.inr ⟨c :: keep, b, tail, rfl, hb, htail⟩

/-- The marks at the end of a message are behind its last byte that is not trimmed. -/
theorem rdropWhile_kept (hb : trimmable b = false) (keep tail : List UInt8) :
    (keep ++ b :: tail).rdropWhile isMark = keep ++ b :: tail.rdropWhile isMark := by
  have hmark : ¬ isMark b = true := fun h => by simp [trimmable_of_isMark h] at hb
  induction tail using List.reverseRecOn with
  | nil => rw [List.rdropWhile_nil, List.rdropWhile_concat_neg _ _ _ hmark]
  | append_singleton tail c ih =>
    rw [← List.cons_append, ← List.append_assoc, List.rdropWhile_concat, List.rdropWhile_concat]
    by_cases hc : isMark c = true
    · rw [if_pos hc, if_pos hc, ih]
    · rw [if_neg hc, if_neg hc, List.append_assoc, List.cons_append]

/-! ## Section 5: Runs -/

/-- What the loop leaves of a message that has a last byte which is not trimmed. -/
theorem winOsStrerror_run {formatMessage : UInt32 → List UInt8} {bufsize : Nat}
    (hmsg : formatted formatMessage = keep ++ b :: tail) (hb : trimmable b = false)
    (htail : ∀ c ∈ tail, trimmable c = true) (hdword : (formatted formatMessage).length < 2 ^ 32)
    (hfit : (formatted formatMessage).length < bufsize) :
    winOsStrerror formatMessage bufsize (tail.length + 2)
      = some (some (keep ++ b :: List.replicate (tail.length + 1) 0)) := by
  have hlen : (formatted formatMessage).length = keep.length + (tail ++ [0]).length := by
    rw [hmsg]
    simp
  have hend : ∀ c ∈ tail ++ [0], trimmable c = true := by
    intro c hc
    rcases List.mem_append.mp hc with hin | hzero
    · exact htail c hin
    · rw [List.mem_singleton.mp hzero]
      rfl
  have hstop := trimLoop_stops hb hend (by rw [← hlen]; exact hdword) 0
  have hobject : keep ++ b :: (tail ++ [0] ++ List.replicate 0 0)
      = formatted formatMessage ++ [0] := by
    rw [hmsg]
    simp
  rw [hobject, ← hlen, List.length_append, List.length_singleton, Nat.add_zero] at hstop
  unfold winOsStrerror
  rw [if_neg (by omega)]
  simp only [hstop, Option.bind_eq_bind, Option.bind_some]
  rw [if_neg (by rw [hmsg]; simp)]

/-- The function leaves one result. -/
theorem winOsStrerror_unique {formatMessage : UInt32 → List UInt8} {bufsize fuel fuel' : Nat}
    {out out' : List UInt8} (h : winOsStrerror formatMessage bufsize fuel = some (some out))
    (h' : winOsStrerror formatMessage bufsize fuel' = some (some out')) : out = out' := by
  unfold winOsStrerror at h h'
  by_cases hsize : bufsize = 0
  · simp [hsize] at h
  · by_cases hnil : formatted formatMessage = []
    · simp [hnil] at h
    · simp only [if_neg hsize, if_neg hnil, Option.bind_eq_bind, Option.bind_eq_some_iff,
        Option.some.injEq] at h h'
      obtain ⟨buf, hloop, rfl⟩ := h
      obtain ⟨buf', hloop', rfl⟩ := h'
      exact trimLoop_unique hloop hloop'

/-- A message of marks and NULs only. -/
theorem winOsStrerror_all {formatMessage : UInt32 → List UInt8} {bufsize fuel : Nat}
    {out : List UInt8} (h : ∀ b ∈ formatted formatMessage, trimmable b = true) :
    winOsStrerror formatMessage bufsize fuel ≠ some (some out) := by
  have hall : ∀ b ∈ formatted formatMessage ++ [0], trimmable b = true := by
    intro b hb
    rcases List.mem_append.mp hb with hin | hzero
    · exact h b hin
    · rw [List.mem_singleton.mp hzero]
      rfl
  unfold winOsStrerror
  by_cases hsize : bufsize = 0
  · simp [hsize]
  · rw [if_neg hsize]
    by_cases hnil : formatted formatMessage = []
    · simp [hnil]
    · simp [hnil, trimLoop_all hall]

/-- The result is right when what is left behind the last byte that is not trimmed, less
    the marks at its end, is NULs. -/
theorem trimsMarks_iff {formatMessage : UInt32 → List UInt8} {bufsize : Nat}
    (hmsg : formatted formatMessage = keep ++ b :: tail) (hb : trimmable b = false)
    (htail : ∀ c ∈ tail, trimmable c = true) (hdword : (formatted formatMessage).length < 2 ^ 32)
    (hfit : (formatted formatMessage).length < bufsize) :
    TrimsMarks formatMessage bufsize ↔ ∀ z ∈ tail.rdropWhile isMark, z = 0 := by
  have hrun := winOsStrerror_run hmsg hb htail hdword hfit
  have hle : (tail.rdropWhile isMark).length ≤ tail.length :=
    (List.rdropWhile_prefix isMark tail).length_le
  have htake : (keep ++ b :: List.replicate (tail.length + 1) 0).take
      ((keep ++ b :: tail.rdropWhile isMark).length + 1)
      = keep ++ b :: (List.replicate (tail.rdropWhile isMark).length 0 ++ [0]) := by
    rw [List.length_append, List.length_cons, Nat.add_assoc, List.take_length_add_append,
      List.take_succ_cons, List.take_replicate, Nat.min_eq_left (by omega),
      List.replicate_succ']
  have hsame : keep ++ b :: (List.replicate (tail.rdropWhile isMark).length 0 ++ [0])
      = keep ++ b :: tail.rdropWhile isMark ++ [0] ↔ ∀ z ∈ tail.rdropWhile isMark, z = 0 := by
    rw [List.append_assoc, List.cons_append, List.append_right_inj, List.cons.injEq,
      List.append_left_inj, eq_comm (a := List.replicate _ _), List.eq_replicate_iff]
    simp
  unfold TrimsMarks
  rw [hmsg, rdropWhile_kept hb, ← hsame, ← htake]
  constructor
  · rintro ⟨fuel, buf, hbuf, heq⟩
    rwa [winOsStrerror_unique hbuf hrun] at heq
  · intro heq
    exact ⟨_, _, hrun, heq⟩

/-- Marks at the end are dropped. -/
theorem rdropWhile_append_marks (h : ∀ m ∈ marks, isMark m = true) :
    (zeros ++ marks).rdropWhile isMark = zeros.rdropWhile isMark := by
  induction marks using List.reverseRecOn with
  | nil => rw [List.append_nil]
  | append_singleton marks m ih =>
    rw [← List.append_assoc, List.rdropWhile_concat_pos _ _ _ (h m (by simp))]
    exact ih fun c hc => h c (List.mem_append_left [m] hc)

end Trimming

/-- **The loop at the end of `spr_os_strerror`** takes the marks off the end of a message,
    and stays in it, when something is left of the message and no mark stands in front of a
    NUL behind that. -/
theorem osStrerror_trims_iff (formatMessage : UInt32 → List UInt8) (bufsize : Nat)
    (hdword : (formatted formatMessage).length < 2 ^ 32)
    (hfit : (formatted formatMessage).length < bufsize) :
    TrimsMarks formatMessage bufsize ↔ Ends (formatted formatMessage) := by
  constructor
  · intro htrims
    rcases last_kept (formatted formatMessage) with hall | ⟨keep, b, tail, hmsg, hb, htail⟩
    · obtain ⟨fuel, buf, hbuf, -⟩ := htrims
      exact absurd hbuf (winOsStrerror_all hall)
    · have hzeros := (trimsMarks_iff hmsg hb htail hdword hfit).mp htrims
      refine ⟨keep, b, tail.rdropWhile isMark, tail.rtakeWhile isMark, ?_, hb, hzeros, ?_⟩
      · rw [List.rdropWhile_append_rtakeWhile]
        exact hmsg
      · intro m hm
        exact List.mem_rtakeWhile_imp hm
  · rintro ⟨keep, b, zeros, marks, hmsg, hb, hzeros, hmarks⟩
    have htail : ∀ c ∈ zeros ++ marks, trimmable c = true := by
      intro c hc
      rcases List.mem_append.mp hc with hzero | hmark
      · rw [hzeros c hzero]
        rfl
      · exact trimmable_of_isMark (hmarks c hmark)
    apply (trimsMarks_iff hmsg hb htail hdword hfit).mpr
    intro z hz
    rw [rdropWhile_append_marks hmarks] at hz
    exact hzeros z ((List.rdropWhile_prefix isMark zeros).subset hz)

/-- A message that ends as those of the system do. -/
theorem osStrerror_trims_iff_busy : TrimsMarks (fun _ => [66, 117, 115, 121, 46, 13, 10]) 1024 ↔
    Ends (formatted fun _ => [66, 117, 115, 121, 46, 13, 10]) :=
  osStrerror_trims_iff _ _ (by decide) (by decide)

/-- A message of marks only: the loop goes on in front of the buffer. -/
theorem osStrerror_leaves : ¬ TrimsMarks (fun _ => [46, 13, 10]) 1024 := by
  rintro ⟨fuel, buf, hbuf, -⟩
  exact winOsStrerror_all (by decide +kernel) hbuf

end Spr.Errors
