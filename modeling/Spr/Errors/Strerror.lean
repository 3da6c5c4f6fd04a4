import Spr.Errors.Codes
import Spr.Strings.Search

/-! # Texts of errors

    `spr_strerror` and the `spr_os_strerror` of POSIX, in `src/lib/spr_errno.c`, and
    `spr_dlerror` of `src/lib/spr_dso.c`.  The texts of the system are those of `strerror`
    and `dlerror`, whatever they are.

    * `putMessage`: the copy into the buffer of the caller, which three functions have.
    * `errorList`, `messageOf`: the messages of the library, and which one a code has.
    * `strerror_iff`: when the stores stay in the buffer and leave the message. -/

namespace Spr.Errors

open Spr.Buffers Spr.Strings

/-! ## Section 1: Messages -/

/-- `SPR_ERR_UNKNOW` -/
def sprErrUnknow : Int := 2147483647

/-- `error_list`: codes and messages. -/
def errorList : List (Int × String) :=
  [ (sprOk, "OK"),
    (sprFailed, "Internal error"),
    (sprBusy, "Resource is busy"),
    (sprDone, "Operation is done"),
    (sprAbort, "Operation aborted"),
    (sprDeclined, "Operation declined"),
    (sprNotFound, "Resource not found"),
    (sprErrFilesysAbsPath, "Specified path is not absolute"),
    (sprErrFilesysLongPath, "Result path is too long"),
    (sprErrUnknow, "Unknown error code") ]

/-- The characters of a string literal of the source, all of them ASCII. -/
def literal (text : String) : List UInt8 := text.toList.map fun c => c.val.toUInt8

/-- The search of `error_list`; there is no result when it runs past the end. -/
def searchErrorList (err : Int) : List (Int × String) → Option String
  | [] => none
  | (code, message) :: rest =>
      if code = err ∨ code = sprErrUnknow then some message else searchErrorList err rest

/-! ## Section 2: The functions -/

/-- What a call does: its stores into `buf`, oldest first, and the pointer it returns, a
    position in `buf` or `NULL`. -/
structure Answer where
  stores : List Store
  str    : Option Nat

section Functions

variable {w : PtrWidth}

/-- The lines from `len = spr_strlen(str)` to `return buf`. -/
def putMessage (str : List UInt8) (bufsize : BitVec w.bits) : Option Answer := do
  let len ← sprStrlen str
  if BitVec.ofNat w.bits len < bufsize then
    let bytes ← firstBytes str len
    some ⟨copyAt 0 bytes ++ [(len, 0)], some 0⟩
  else
    let bytes ← firstBytes str bufsize.toNat
    some ⟨copyAt 0 bytes ++ [((bufsize - 1).toNat, 0)], some 0⟩

/-- `spr_os_strerror(err, buf, bufsize)` of POSIX -/
def sprOsStrerror (strerror : Int → CString (2 ^ w.bits)) (err : Int)
    (bufsize : BitVec w.bits) : Option Answer :=
  putMessage (strerror err).object bufsize

/-- `spr_strerror` behind its test of the range -/
def listedStrerror (err : Int) (bufsize : BitVec w.bits) : Option Answer := do
  let str ← searchErrorList err errorList
  putMessage (literal str ++ [0]) bufsize

/-- `spr_strerror(err, buf, bufsize)` -/
def sprStrerror (strerror : Int → CString (2 ^ w.bits)) (err : Int)
    (bufsize : BitVec w.bits) : Option Answer :=
  if 0 < err ∧ err < sprErrorDomainBase then do
    let answer ← sprOsStrerror strerror err bufsize
    match answer.str with
    | some _ => some answer
    | none =>
        -- the call `spr_strerror(SPR_ERR_UNKNOW, ...)`, a code behind the range
        let unknown ← listedStrerror sprErrUnknow bufsize
        some ⟨answer.stores ++ unknown.stores, unknown.str⟩
  else listedStrerror err bufsize

/-- `spr_dlerror(buf, bufsize)` of POSIX; `dlerror` may return `NULL`. -/
def sprDlerror (dlerror : Option (CString (2 ^ w.bits))) (bufsize : BitVec w.bits) :
    Option Answer :=
  match dlerror with
  | some str => putMessage str.object bufsize
  | none => putMessage [0] bufsize

end Functions

/-! ## Section 3: What they are for -/

/-- The message of a code. -/
def messageOf {space : Nat} (strerror : Int → CString space) (err : Int) : List UInt8 :=
  if 0 < err ∧ err < sprErrorDomainBase then (strerror err).bytes
  else
    match errorList.find? fun e => e.1 = err with
    | some e => literal e.2
    | none => literal "Unknown error code"

/-- The message of `dlerror`. -/
def dlerrorMessage {space : Nat} : Option (CString space) → List UInt8
  | some str => str.bytes
  | none => []

/-- The call stays in a buffer of `n` bytes, and leaves in it as much of the message as it
    has room for. -/
structure Truncates (n : Nat) (message : List UInt8) (a : Answer) : Prop where
  inside   : Inside n a.stores
  fills    : 1 ≤ n → Fills a.stores (message.take (n - 1) ++ [0])
  returned : a.str = some 0

/-! ## Section 4: The copy -/

section Copy

variable {w : PtrWidth} {bufsize : BitVec w.bits}

/-- A buffer of no bytes has none for the terminator. -/
theorem not_truncates_zero (message : List UInt8) (ws : List Store) (s : Store)
    (str : Option Nat) : ¬ Truncates 0 message ⟨ws ++ [s], str⟩ := by
  intro h
  have hs := h.inside s (List.mem_append_right ws (List.mem_singleton_self s))
  exact absurd hs (Nat.not_lt_zero _)

/-- The message has room. -/
theorem putMessage_whole (s : CString (2 ^ w.bits)) (h : s.bytes.length < bufsize.toNat) :
    putMessage s.object bufsize = some ⟨copyAt 0 s.bytes ++ [(s.bytes.length, 0)], some 0⟩ := by
  have hfits := s.fits
  have hlt : BitVec.ofNat w.bits s.bytes.length < bufsize := by
    rw [BitVec.lt_def, BitVec.toNat_ofNat, Nat.mod_eq_of_lt (by omega)]
    exact h
  unfold putMessage
  simp only [sprStrlen_object, Option.bind_eq_bind, Option.bind_some, if_pos hlt,
    CString.firstBytes_object (Nat.le_refl _), List.take_length]

/-- It has not. -/
theorem putMessage_cut (s : CString (2 ^ w.bits)) (h : bufsize.toNat ≤ s.bytes.length) :
    putMessage s.object bufsize
      = some ⟨copyAt 0 (s.bytes.take bufsize.toNat) ++ [((bufsize - 1).toNat, 0)], some 0⟩ := by
  have hfits := s.fits
  have hge : ¬ BitVec.ofNat w.bits s.bytes.length < bufsize := by
    rw [BitVec.lt_def, BitVec.toNat_ofNat, Nat.mod_eq_of_lt (by omega)]
    omega
  unfold putMessage
  simp only [sprStrlen_object, Option.bind_eq_bind, Option.bind_some, if_neg hge,
    CString.firstBytes_object h]

/-- The stores of a message with room. -/
theorem truncates_whole {n : Nat} {message : List UInt8} (h : message.length < n) :
    Truncates n message ⟨copyAt 0 message ++ [(message.length, 0)], some 0⟩ where
  inside := by
    apply inside_append.mpr
    constructor
    · apply inside_copyAt
      omega
    · intro s hs
      rw [List.mem_singleton.mp hs]
      exact h
  fills := by
    intro _
    rw [List.take_of_length_le (by omega)]
    exact (fills_copyAt message).snoc 0
  returned := rfl

/-- The stores of a message without: the terminator goes over the last byte. -/
theorem truncates_cut {n : Nat} {message : List UInt8} (h : n ≤ message.length) (hn : 1 ≤ n) :
    Truncates n message ⟨copyAt 0 (message.take n) ++ [(n - 1, 0)], some 0⟩ where
  inside := by
    apply inside_append.mpr
    constructor
    · apply inside_copyAt
      rw [List.length_take]
      omega
    · intro s hs
      rw [List.mem_singleton.mp hs]
      show n - 1 < n
      omega
  fills := by
    intro _
    have hfills := ((fills_copyAt (message.take n)).take (n - 1)).snoc 0
    have hlen : (message.take (n - 1)).length = n - 1 := by
      rw [List.length_take]
      omega
    rw [List.take_take, Nat.min_eq_left (Nat.sub_le n 1), hlen] at hfills
    exact hfills
  returned := rfl

/-- **The copy into the buffer**: it does what it should for a buffer that has a byte. -/
theorem putMessage_spec (s : CString (2 ^ w.bits)) (bufsize : BitVec w.bits) :
    ∃ a, putMessage s.object bufsize = some a ∧ a.str = some 0 ∧
      (Truncates bufsize.toNat s.bytes a ↔ bufsize ≠ 0) := by
  by_cases hzero : bufsize = 0
  · refine ⟨_, putMessage_cut s (by rw [hzero]; exact Nat.zero_le _), rfl, ?_⟩
    apply iff_of_false
    · rw [hzero]
      exact not_truncates_zero _ _ _ _
    · exact fun h => h hzero
  · have hpos : 1 ≤ bufsize.toNat := Nat.pos_of_ne_zero fun h => hzero (BitVec.eq_of_toNat_eq h)
    rcases Nat.lt_or_ge s.bytes.length bufsize.toNat with hlt | hge
    · exact ⟨_, putMessage_whole s hlt, rfl, iff_of_true (truncates_whole hlt) hzero⟩
    · refine ⟨_, putMessage_cut s hge, rfl, iff_of_true ?_ hzero⟩
      have hone : (bufsize - 1).toNat = bufsize.toNat - 1 := by
        have h1 : (1 : BitVec w.bits).toNat = 1 := by cases w <;> rfl
        rw [BitVec.toNat_sub_of_le (by rw [BitVec.le_def, h1]; exact hpos), h1]
      rw [hone]
      exact truncates_cut hge hpos

end Copy

/-! ## Section 5: The search -/

/-- A string of the library. -/
def ofLiteral (w : PtrWidth) (text : List UInt8) (hnz : (0 : UInt8) ∉ text)
    (hlen : text.length < 100) : CString (2 ^ w.bits) where
  bytes := text
  nonzero := hnz
  fits := by
    cases w <;> simp only [PtrWidth.bits] <;> omega

/-- **The messages of the list** are strings. -/
theorem errorList_messages :
    ∀ e ∈ errorList, (0 : UInt8) ∉ literal e.2 ∧ (literal e.2).length < 100 := by
  decide +kernel

/-- A search of a list that ends in the unknown code, by induction on the list. -/
theorem searchErrorList_run (err : Int) (unknown : String) (list : List (Int × String))
    (h : ∀ e ∈ list, e.1 ≠ sprErrUnknow) :
    searchErrorList err (list ++ [(sprErrUnknow, unknown)])
      = some (((list.find? fun e => e.1 = err).map Prod.snd).getD unknown) := by
  induction list with
  | nil => simp [searchErrorList]
  | cons e list ih =>
    have he : e.1 ≠ sprErrUnknow := h e List.mem_cons_self
    have hrest := ih fun d hd => h d (List.mem_cons_of_mem e hd)
    rw [List.cons_append, searchErrorList]
    by_cases hcode : e.1 = err
    · simp [hcode]
    · rw [if_neg (by simp [hcode, he]), hrest, List.find?_cons_of_neg (by simpa using hcode)]

/-- **The search ends in the list**, with the message of the code. -/
theorem searchErrorList_spec {space : Nat} (strerror : Int → CString space) {err : Int}
    (h : ¬ (0 < err ∧ err < sprErrorDomainBase)) :
    ∃ e ∈ errorList, searchErrorList err errorList = some e.2 ∧
      messageOf strerror err = literal e.2 := by
  have hsplit : errorList = errorList.dropLast ++ [(sprErrUnknow, "Unknown error code")] := rfl
  have hrun := searchErrorList_run err "Unknown error code" errorList.dropLast (by decide)
  rw [← hsplit] at hrun
  have hfind : (errorList.find? fun e => e.1 = err) = ((errorList.dropLast.find? fun e =>
      e.1 = err).or ([(sprErrUnknow, "Unknown error code")].find? fun e => e.1 = err)) := by
    conv_lhs => rw [hsplit]
    exact List.find?_append
  unfold messageOf
  rw [if_neg h, hfind]
  cases hcode : errorList.dropLast.find? fun e => e.1 = err with
  | some e =>
    rw [hcode] at hrun
    exact ⟨e, List.dropLast_subset _ (List.mem_of_find?_eq_some hcode), hrun, rfl⟩
  | none =>
    rw [hcode] at hrun
    refine ⟨(sprErrUnknow, "Unknown error code"), by decide, hrun, ?_⟩
    by_cases hunknown : sprErrUnknow = err
    · simp [hunknown]
    · simp [hunknown]

/-- `spr_strerror` behind its test of the range. -/
theorem listedStrerror_spec {w : PtrWidth} {space : Nat} (strerror : Int → CString space)
    {err : Int} (h : ¬ (0 < err ∧ err < sprErrorDomainBase)) (bufsize : BitVec w.bits) :
    ∃ a, listedStrerror err bufsize = some a ∧
      (Truncates bufsize.toNat (messageOf strerror err) a ↔ bufsize ≠ 0) := by
  obtain ⟨e, he, hsearch, hmessage⟩ := searchErrorList_spec strerror h
  obtain ⟨hnz, hlen⟩ := errorList_messages e he
  unfold listedStrerror
  simp only [hsearch, Option.bind_eq_bind, Option.bind_some, hmessage]
  obtain ⟨a, hput, -, hiff⟩ := putMessage_spec (ofLiteral w (literal e.2) hnz hlen) bufsize
  exact ⟨a, hput, hiff⟩

/-- **`spr_strerror` and `spr_dlerror`** end, with a search that does not leave the list;
    they stay in the buffer and leave the message in it, cut off where it has no room for
    more, when the buffer has at least one byte. -/
theorem strerror_iff (w : PtrWidth) (strerror : Int → CString (2 ^ w.bits))
    (dlerror : Option (CString (2 ^ w.bits))) (err : Int) (bufsize : BitVec w.bits) :
    ∃ a d, sprStrerror strerror err bufsize = some a ∧ sprDlerror dlerror bufsize = some d ∧
      (Truncates bufsize.toNat (messageOf strerror err) a ↔ bufsize ≠ 0) ∧
      (Truncates bufsize.toNat (dlerrorMessage dlerror) d ↔ bufsize ≠ 0) := by
  have hstr : ∃ a, sprStrerror strerror err bufsize = some a ∧
      (Truncates bufsize.toNat (messageOf strerror err) a ↔ bufsize ≠ 0) := by
    unfold sprStrerror
    by_cases hrange : 0 < err ∧ err < sprErrorDomainBase
    · -- a text of the system
      obtain ⟨a, hput, hstr, hiff⟩ := putMessage_spec (strerror err) bufsize
      refine ⟨a, ?_, ?_⟩
      · rw [if_pos hrange]
        unfold sprOsStrerror
        simp only [hput, Option.bind_eq_bind, Option.bind_some, hstr]
      · unfold messageOf
        rw [if_pos hrange]
        exact hiff
    · rw [if_neg hrange]
      exact listedStrerror_spec strerror hrange bufsize
  -- a missing text is the empty one
  have hdl : ∃ d, sprDlerror dlerror bufsize = some d ∧
      (Truncates bufsize.toNat (dlerrorMessage dlerror) d ↔ bufsize ≠ 0) := by
    cases dlerror with
    | some str =>
      obtain ⟨d, hput, -, hiff⟩ := putMessage_spec str bufsize
      exact ⟨d, hput, hiff⟩
    | none =>
      obtain ⟨d, hput, -, hiff⟩ := putMessage_spec (ofLiteral w [] (by simp) (by simp)) bufsize
      exact ⟨d, hput, hiff⟩
  obtain ⟨a, ha, haiff⟩ := hstr
  obtain ⟨d, hd, hdiff⟩ := hdl
  exact ⟨a, d, ha, hd, haiff, hdiff⟩

/-- With a size of 0 the terminator is stored at the last address there is. -/
theorem strerror_no_room : ∃ a,
    sprStrerror (fun _ => ofLiteral .bits64 [] List.not_mem_nil (Nat.succ_pos 99)) 0
      (0 : BitVec (PtrWidth.bits .bits64)) = some a ∧
    (2 ^ 64 - 1, 0) ∈ a.stores ∧ ¬ Inside 0 a.stores := by
  refine ⟨⟨[(2 ^ 64 - 1, 0)], some 0⟩, rfl, List.mem_singleton_self _, ?_⟩
  intro h
  exact absurd (h _ (List.mem_singleton_self _)) (Nat.not_lt_zero _)

end Spr.Errors
