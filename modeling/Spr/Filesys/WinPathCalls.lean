import Spr.Errors.Codes
import Spr.Filesys.PathToWchar

/-! # Win32 calls that take a converted path

    `spr_file_open` and `spr_file_stat_by_path` convert the path into a local
    `uint16_t wpath[SPR_MAX_PATH_LEN]` and hand it to the system.  Both announce
    `sizeof(wpath)`, a number of bytes, where `spr_path_to_wchar` counts units,
    and neither looks at the result of the conversion.

    The system is a parameter: what it answers for a wide path, and the last
    error it leaves when it refuses. -/

namespace Spr.Filesys

open Spr.Unicode

/-! ## Section 1: Model -/

/-- `SPR_MAX_PATH_LEN` on Win32: `MAX_PATH`. -/
def sprMaxPathLen : Nat := 260

/-- `sizeof(uint16_t)` -/
def sizeofUint16 : Nat := 2

/-- `WIN32_FILE_ATTRIBUTE_DATA`, as far as it is copied. -/
structure FileAttributes where
  dwFileAttributes : Nat
  ftCreationTime   : Nat
  ftLastAccessTime : Nat
  ftLastWriteTime  : Nat
  nFileSizeHigh    : Nat
  nFileSizeLow     : Nat

/-- `spr_file_t`; the name is the path pointer. -/
structure SprFile where
  fd     : Nat
  name   : List UInt8
  offset : Nat

/-- The system calls, as answers: `none` is `INVALID_HANDLE_VALUE`, or zero. -/
structure Win32 where
  createFileW          : List UInt16 → Nat → Nat → Option Nat
  getFileAttributesExW : List UInt16 → Option FileAttributes
  getLastError         : List UInt16 → Int

/-- What a call returns, what it fills in, and the wide paths it has handed to
    the system. -/
structure CallResult (α : Type) where
  err   : Int
  value : Option α
  calls : List (List UInt16)

/-- Both functions convert into `wpath`, ignore what the conversion returns, and
    go on with the call. -/
def convertThenCall {α : Type} (path : List UInt8) (call : List UInt16 → CallResult α) :
    Except Fault (CallResult α) := do
  let (wpath, _) ← sprPathToWchar sprMaxPathLen (sizeofUint16 * sprMaxPathLen) path
  .ok (call wpath)

/-- `CreateFileW`, and `file` filled in when a handle comes back (it was zeroed
    before). -/
def openConverted (os : Win32) (path : List UInt8) (mode create : Nat) (wpath : List UInt16) :
    CallResult SprFile :=
  match os.createFileW wpath mode create with
  | none => { err := os.getLastError wpath, value := none, calls := [wpath] }
  | some fd =>
      { err := sprOk, value := some { fd := fd, name := path, offset := 0 }, calls := [wpath] }

/-- `GetFileAttributesExW`, and the attributes copied into `stat`. -/
def statConverted (os : Win32) (wpath : List UInt16) : CallResult FileAttributes :=
  match os.getFileAttributesExW wpath with
  | none => { err := os.getLastError wpath, value := none, calls := [wpath] }
  | some attr => { err := sprOk, value := some attr, calls := [wpath] }

/-- `spr_file_open(file, path, mode, create, access)` -/
def sprFileOpen (os : Win32) (path : List UInt8) (mode create : Nat) :
    Except Fault (CallResult SprFile) :=
  convertThenCall path (openConverted os path mode create)

/-- `spr_file_stat_by_path(stat, path)` -/
def sprFileStatByPath (os : Win32) (path : List UInt8) : Except Fault (CallResult FileAttributes) :=
  convertThenCall path (statConverted os)

theorem openConverted_calls (os : Win32) (path : List UInt8) (mode create : Nat)
    (w : List UInt16) : (openConverted os path mode create w).calls = [w] := by
  unfold openConverted
  split <;> rfl

theorem statConverted_calls (os : Win32) (w : List UInt16) :
    (statConverted os w).calls = [w] := by
  unfold statConverted
  split <;> rfl

/-! ## Section 2: What the calls owe their caller -/

/-- The path converts into a `wpath` of `SPR_MAX_PATH_LEN` units. -/
def ConvertsTo (path : List UInt8) (w : List UInt16) : Prop :=
  sprPathToWchar sprMaxPathLen sprMaxPathLen (path ++ [0]) = .ok (w, true)

/-- The call stays inside `wpath`, hands the system only terminated conversions
    of the path, and refuses a path that does not convert without a call. -/
def SafeCall {α : Type} (path : List UInt8) (res : Except Fault (CallResult α)) : Prop :=
  ∃ r, res = .ok r ∧ (∀ w ∈ r.calls, ConvertsTo path w ∧ ∃ us, w = us ++ [0]) ∧
    ((¬ ∃ w, ConvertsTo path w) → r.err ≠ sprOk ∧ r.calls = [])

/-- The path reads as accepted groups with fewer than `SPR_MAX_PATH_LEN` units. -/
def FitsWpath (path : List UInt8) : Prop :=
  ∃ r : Reading, r.Ok ∧ r.bytes = path ∧ r.units.length < sprMaxPathLen

theorem convertsTo_iff {path : List UInt8} (hp : (0 : UInt8) ∉ path) (w : List UInt16) :
    ConvertsTo path w ↔
      ∃ r : Reading, r.Ok ∧ r.bytes = path ∧ w = r.units ++ [0] ∧
        r.units.length < sprMaxPathLen :=
  sprPathToWchar_ok_iff (Nat.le_refl _) hp w

/-- For a path that fits, the announced length makes no difference. -/
theorem conversion_of_fits {path : List UInt8} (hp : (0 : UInt8) ∉ path) (hfit : FitsWpath path) :
    ∃ w, ConvertsTo path w ∧ (∃ us, w = us ++ [0]) ∧
      sprPathToWchar sprMaxPathLen (sizeofUint16 * sprMaxPathLen) (path ++ [0])
        = .ok (w, true) := by
  obtain ⟨r, hr, rfl, hlen⟩ := hfit
  refine ⟨r.units ++ [0], (convertsTo_iff hp _).mpr ⟨r, hr, rfl, rfl, hlen⟩, ⟨_, rfl⟩, ?_⟩
  have hbig : r.units.length < sizeofUint16 * sprMaxPathLen :=
    Nat.lt_of_lt_of_le hlen (by decide)
  have hrun : wcharLoop sprMaxPathLen (sizeofUint16 * sprMaxPathLen)
      (sizeofUint16 * sprMaxPathLen) (r.bytes ++ [0]) [] = .ok ([] ++ r.units ++ [0], true) :=
    wcharLoop_fits hr [] (by simp) (by simpa using hbig) (by simpa using hlen)
  simpa [sprPathToWchar] using hrun

/-- **A call that goes ahead whatever the conversion said** is safe exactly for
    the paths that fit. -/
theorem safe_convertThenCall_iff {α : Type} {path : List UInt8} (hp : (0 : UInt8) ∉ path)
    {call : List UInt16 → CallResult α} (hcalls : ∀ w, (call w).calls = [w]) :
    SafeCall path (convertThenCall (path ++ [0]) call) ↔ FitsWpath path := by
  constructor
  · rintro ⟨res, hres, hall, -⟩
    unfold convertThenCall at hres
    cases hc : sprPathToWchar sprMaxPathLen (sizeofUint16 * sprMaxPathLen) (path ++ [0]) with
    | error e => simp [hc] at hres
    | ok out =>
      rw [hc, except_ok_bind] at hres
      have hw : out.1 ∈ res.calls := by
        rw [← Except.ok.inj hres, hcalls]; exact List.mem_singleton_self _
      obtain ⟨r, hr, hbytes, -, hlen⟩ := (convertsTo_iff hp _).mp (hall _ hw).1
      exact ⟨r, hr, hbytes, hlen⟩
  · intro hfit
    obtain ⟨w, hw, hterm, hconv⟩ := conversion_of_fits hp hfit
    refine ⟨call w, by rw [convertThenCall, hconv]; rfl, ?_, fun hno => absurd ⟨w, hw⟩ hno⟩
    intro w' hw'
    rw [hcalls, List.mem_singleton] at hw'
    subst hw'
    exact ⟨hw, hterm⟩

/-! ## Section 3: The two entry points -/

/-- **The paths on which the two calls keep to `wpath`** and reach the system
    only with its conversion are exactly those that fit. -/
theorem safe_calls_iff_fits (os : Win32) (path : List UInt8) (hp : (0 : UInt8) ∉ path)
    (mode create : Nat) :
    (SafeCall path (sprFileOpen os (path ++ [0]) mode create) ↔ FitsWpath path) ∧
    (SafeCall path (sprFileStatByPath os (path ++ [0])) ↔ FitsWpath path) :=
  ⟨safe_convertThenCall_iff hp (openConverted_calls os _ mode create),
    safe_convertThenCall_iff hp (statConverted_calls os)⟩

/-- A system that opens everything. -/
def yesWin32 : Win32 where
  createFileW _ _ _ := some 3
  getFileAttributesExW _ := none
  getLastError _ := 2

/-- A path of two and of four bytes for a character is opened safely. -/
theorem safe_calls_iff_fits_emoji :
    SafeCall [0xc3, 0xa9, 0xf0, 0x9f, 0x98, 0x80]
      (sprFileOpen yesWin32 ([0xc3, 0xa9, 0xf0, 0x9f, 0x98, 0x80] ++ [0]) 0 3) :=
  (safe_calls_iff_fits yesWin32 [0xc3, 0xa9, 0xf0, 0x9f, 0x98, 0x80] (by decide) 0 3).1.mpr
    ⟨readingOf ['é', Char.ofNat 0x1f600], readingOf_ok (by decide), by decide, by decide⟩

/-- A path that does not convert is handed over all the same. -/
theorem not_fits_continuation : ¬ FitsWpath [0x80] := by
  rintro ⟨r, hr, hbytes, -⟩
  cases r with
  | nil => simp at hbytes
  | cons x r =>
    obtain ⟨hx, -⟩ := Reading.ok_cons.mp hr
    obtain ⟨w, v⟩ := x
    cases hx with
    | one _ hlt =>
      simp only [Reading.bytes_cons, List.cons_append, List.cons.injEq] at hbytes
      rw [hbytes.1] at hlt
      exact absurd hlt (by decide)
    | two _ _ _ => simp at hbytes
    | three _ _ _ _ _ => simp at hbytes
    | four _ _ _ _ _ _ => simp at hbytes

/-- `n` letters are `n` bytes and `n` units. -/
theorem letters_encode (n : Nat) :
    utf8Encode (List.replicate n 'a') = List.replicate n 0x61 ∧
      (utf16Encode (List.replicate n 'a')).length = n := by
  induction n with
  | zero => exact ⟨rfl, rfl⟩
  | succ n ih =>
    rw [List.replicate_succ, utf8Encode_cons, utf16Encode_cons, List.length_append, ih.1, ih.2]
    exact ⟨rfl, Nat.add_comm 1 n⟩

/-- **Neither call is safe for every path.**  A path of 260 letters is stored
    past the end of `wpath`, and the single byte `80`, which does not convert,
    reaches the system with nothing stored in `wpath`. -/
theorem calls_not_safe :
    sprFileOpen yesWin32 (List.replicate 260 0x61 ++ [0]) 0 3 = .error .writePastEnd ∧
    ¬ SafeCall (List.replicate 260 0x61)
        (sprFileOpen yesWin32 (List.replicate 260 0x61 ++ [0]) 0 3) ∧
    ¬ SafeCall [0x80] (sprFileOpen yesWin32 ([0x80] ++ [0]) 0 3) ∧
    ¬ SafeCall [0x80] (sprFileStatByPath yesWin32 ([0x80] ++ [0])) := by
  have hlong : sprFileOpen yesWin32 (List.replicate 260 0x61 ++ [0]) 0 3
      = .error .writePastEnd := by
    have hread : Reading.Ok (readingOf (List.replicate 260 'a')) := readingOf_ok (by decide)
    obtain ⟨hbytes, hunits⟩ := letters_encode 260
    have hrun : wcharLoop sprMaxPathLen (sizeofUint16 * sprMaxPathLen)
        (sizeofUint16 * sprMaxPathLen)
        (Reading.bytes (readingOf (List.replicate 260 'a')) ++ [0]) []
          = .error .writePastEnd :=
      wcharLoop_overrun hread [] (Nat.le_refl _) (by decide) (by rw [readingOf_units, hunits]; rfl)
    rw [sprFileOpen, convertThenCall, sprPathToWchar, ← hbytes, ← readingOf_bytes, hrun]
    rfl
  have hmal : ∀ {α : Type} {call : List UInt16 → CallResult α}, (∀ w, (call w).calls = [w]) →
      ¬ SafeCall [0x80] (convertThenCall ([0x80] ++ [0]) call) := fun hcalls hsafe =>
    not_fits_continuation ((safe_convertThenCall_iff (by decide) hcalls).mp hsafe)
  refine ⟨hlong, ?_, hmal (openConverted_calls _ _ 0 3), hmal (statConverted_calls _)⟩
  rintro ⟨r, hr, -⟩
  rw [hlong] at hr
  cases hr

end Spr.Filesys
