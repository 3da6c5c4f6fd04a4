import Spr.Filesys.DirRead
import Spr.Strings.Search

/-! # The path buffers of the directory functions

    The buffers `str` of the `spr_dir_open` of Win32 and `fullpath` of both `spr_dir_read`,
    byte by byte, and what `spr_file_full_path` reads of its path.

    * `dirOpenStores`, `fullPathStores`: the stores into the two buffers.
    * `OpenSafe`, `FullPathSafe`: they stay in it, and the reads in the path.
    * `winDirOpen_faults`, `sprFileFullPath_runs`: the coarser functions fault where the
      accesses leave the buffers.
    * `dir_paths_iff`: the lengths for which the buffers are large enough. -/

namespace Spr.Filesys

open Spr.Buffers Spr.Strings

/-! ## Section 1: Accesses -/

/-- `n - 1`, of type `size_t`. -/
def predSize (space n : Nat) : Nat := (n + (space - 1)) % space

section Accesses

variable {space : Nat}

/-- The stores of the Win32 `spr_dir_open(dir, path)` into `str`; none when it returns
    `E2BIG`. -/
def dirOpenStores (path : CString space) : Option (List Store) := do
  let len ← sprStrlen path.object
  if sprMaxPathLen + 3 ≤ len then some []
  else
    let bytes ← firstBytes path.object len
    some (copyAt 0 bytes ++ [(len, 0x5c), (len + 1, 0x2a), (len + 2, 0)])

/-- Where `spr_file_full_path` looks for a separator, behind the start of the path. -/
def probe (path : CString space) : Nat := predSize space path.bytes.length

/-- The stores of `spr_file_full_path(buf, path, file)` into `buf`.  The byte in front of
    the path is `before`; there is no result when a copy reads behind a string. -/
def fullPathStores (separator before : UInt8) (path file : CString space) :
    Option (List Store) := do
  let pathLen ← sprStrlen path.object
  let fileLen ← sprStrlen file.object
  let pathLen :=
    if (path.object[probe path]?).getD before = separator then predSize space pathLen
    else pathLen
  let dir ← firstBytes path.object pathLen
  let name ← firstBytes file.object fileLen
  some (copyAt 0 dir ++ copyAt pathLen [separator] ++ copyAt (pathLen + 1) name ++
    [(pathLen + 1 + fileLen, 0)])

/-- `str` is large enough. -/
def OpenSafe (path : CString space) : Prop :=
  ∃ stores, dirOpenStores path = some stores ∧ Inside (sprMaxPathLen + 3) stores

/-- A buffer of `cap` bytes is large enough, and only bytes of the path are read. -/
def FullPathSafe (cap : Nat) (separator before : UInt8) (path file : CString space) : Prop :=
  probe path < path.object.length ∧
    ∃ stores, fullPathStores separator before path file = some stores ∧ Inside cap stores

/-- The path without a separator at its end. -/
def trimmed (separator : UInt8) (path : List UInt8) : List UInt8 :=
  if path.getLast? = some separator then path.dropLast else path

/-- How many bytes a path and a name take, with the separator and the terminator. -/
def fullSize (separator : UInt8) (path file : List UInt8) : Nat :=
  (trimmed separator path).length + 1 + file.length + 1

/-! ## Section 2: Opening -/

theorem dirOpenStores_short (path : CString space) (h : path.bytes.length < sprMaxPathLen + 3) :
    dirOpenStores path = some (copyAt 0 (path.bytes ++ [0x5c, 0x2a, 0])) := by
  unfold dirOpenStores
  simp only [sprStrlen_object, Option.bind_eq_bind, Option.bind_some,
    CString.firstBytes_object (Nat.le_refl _), List.take_length]
  rw [if_neg (Nat.not_le.mpr h), copyAt_append, Nat.zero_add]
  rfl

/-- **The guard of `spr_dir_open`** lets three bytes more through than `str` has room for. -/
theorem openSafe_iff (path : CString space) : OpenSafe path ↔
    path.bytes.length ≤ sprMaxPathLen ∨ sprMaxPathLen + 3 ≤ path.bytes.length := by
  rcases Nat.lt_or_ge path.bytes.length (sprMaxPathLen + 3) with hlt | hge
  · have hstores : OpenSafe path ↔
        Inside (sprMaxPathLen + 3) (copyAt 0 (path.bytes ++ [0x5c, 0x2a, 0])) := by
      unfold OpenSafe
      rw [dirOpenStores_short path hlt]
      simp
    rw [hstores, inside_copyAt_zero, List.length_append]
    simp only [List.length_cons, List.length_nil]
    omega
  · have hrefused : dirOpenStores path = some [] := by
      unfold dirOpenStores
      simp only [sprStrlen_object, Option.bind_eq_bind, Option.bind_some]
      exact if_pos hge
    exact iff_of_true ⟨[], hrefused, fun s hs => nomatch hs⟩ (Or.inr hge)

/-- **`spr_dir_open` faults** where its stores leave `str`. -/
theorem winDirOpen_faults (os : Win32Find) (path : CString space) (lastError : Nat) :
    (∃ err, winDirOpen os path.bytes lastError = .error err) ↔ ¬ OpenSafe path := by
  rw [openSafe_iff]
  unfold winDirOpen
  by_cases hbig : sprMaxPathLen + 3 ≤ path.bytes.length
  · simp [hbig]
  · by_cases hover : sprMaxPathLen + 3 ≤ path.bytes.length + 2
    · simp only [if_neg hbig, if_pos hover]
      apply iff_of_true ⟨_, rfl⟩
      omega
    · simp only [if_neg hbig, if_neg hover]
      apply iff_of_false
      · rintro ⟨err, hrun⟩
        cases hfind : os.find (findPattern path.bytes) with
        | nil => simp [hfind, errorFileNotFound, sprOk] at hrun
        | cons e rest => simp [hfind] at hrun
      · omega

/-! ## Section 3: Full paths -/

theorem predSize_pos {n : Nat} (hpos : 1 ≤ n) (h : n < space) : predSize space n = n - 1 := by
  unfold predSize
  rw [show n + (space - 1) = (n - 1) + space by omega, Nat.add_mod_right]
  exact Nat.mod_eq_of_lt (by omega)

/-- The separator of an empty path is looked for in front of it. -/
theorem probe_empty {path : CString space} (h : path.bytes = []) :
    ¬ probe path < path.object.length := by
  have hfits := path.fits
  rw [path.object_length]
  unfold probe predSize
  rw [h] at hfits ⊢
  simp only [List.length_nil] at hfits ⊢
  rw [Nat.zero_add, Nat.mod_eq_of_lt (by omega)]
  omega

theorem probe_last {path : CString space} (h : path.bytes ≠ []) :
    probe path = path.bytes.length - 1 ∧ path.object[probe path]? = path.bytes.getLast? := by
  have hfits := path.fits
  have hpos : 1 ≤ path.bytes.length := List.length_pos_of_ne_nil h
  have hprobe : probe path = path.bytes.length - 1 := predSize_pos hpos (by omega)
  refine ⟨hprobe, ?_⟩
  rw [hprobe, CString.object, List.getElem?_append_left (by omega), List.getLast?_eq_getElem?]

/-- **The stores for a path that is not empty** are one copy of it, without the separator at
    its end, of a separator, of the name and a NUL. -/
theorem fullPathStores_run (separator before : UInt8) {path : CString space} (file : CString space)
    (h : path.bytes ≠ []) : fullPathStores separator before path file
      = some (copyAt 0 (trimmed separator path.bytes ++ separator :: file.bytes ++ [0])) := by
  have hfits := path.fits
  have hpos : 1 ≤ path.bytes.length := List.length_pos_of_ne_nil h
  obtain ⟨-, hlast⟩ := probe_last h
  -- the pieces lie one behind the other
  have hcopy : ∀ n, n ≤ path.bytes.length → path.bytes.take n = trimmed separator path.bytes →
      copyAt 0 (path.bytes.take n) ++ copyAt n [separator] ++ copyAt (n + 1) file.bytes ++
          [(n + 1 + file.bytes.length, 0)]
        = copyAt 0 (trimmed separator path.bytes ++ separator :: file.bytes ++ [0]) := by
    intro n hn htrim
    have hlen : (trimmed separator path.bytes).length = n := by
      rw [← htrim, List.length_take]
      omega
    rw [htrim, copyAt_append, copyAt_append, copyAt_cons, Nat.zero_add, hlen, List.length_append,
      hlen, List.length_cons]
    simp [Nat.add_assoc, Nat.add_comm 1]
  unfold fullPathStores
  simp only [sprStrlen_object, Option.bind_eq_bind, Option.bind_some, hlast,
    CString.firstBytes_object (Nat.le_refl file.bytes.length), List.take_length]
  by_cases hsep : path.bytes.getLast? = some separator
  · have hread : path.bytes.getLast?.getD before = separator := by rw [hsep]; rfl
    rw [if_pos hread, predSize_pos hpos (by omega),
      CString.firstBytes_object (Nat.sub_le _ 1), Option.bind_some]
    congr 1
    apply hcopy _ (Nat.sub_le _ 1)
    rw [trimmed, if_pos hsep, List.dropLast_eq_take]
  · have hread : path.bytes.getLast?.getD before ≠ separator := by
      cases hget : path.bytes.getLast? with
      | none => exact absurd (List.getLast?_eq_none_iff.mp hget) h
      | some last =>
        intro heq
        exact hsep (hget.trans (congrArg some heq))
    rw [if_neg hread, CString.firstBytes_object (Nat.le_refl _), Option.bind_some]
    congr 1
    apply hcopy _ (Nat.le_refl _)
    rw [trimmed, if_neg hsep, List.take_length]

/-- **A full path is safe** when the path is not empty and the bytes fit the buffer. -/
theorem fullPathSafe_iff (cap : Nat) (separator before : UInt8) (path file : CString space) :
    FullPathSafe cap separator before path file ↔
      path.bytes ≠ [] ∧ fullSize separator path.bytes file.bytes ≤ cap := by
  by_cases h : path.bytes = []
  · apply iff_of_false
    · intro hsafe
      exact probe_empty h hsafe.1
    · intro hfits
      exact hfits.1 h
  · have hprobe : probe path < path.object.length := by
      rw [(probe_last h).1, path.object_length]
      omega
    have hstores : FullPathSafe cap separator before path file ↔ Inside cap
        (copyAt 0 (trimmed separator path.bytes ++ separator :: file.bytes ++ [0])) := by
      unfold FullPathSafe
      rw [fullPathStores_run separator before file h, and_iff_right hprobe]
      simp
    rw [hstores, inside_copyAt_zero]
    unfold fullSize
    simp only [List.length_append, List.length_cons, List.length_nil]
    constructor
    · intro hle
      exact ⟨h, by omega⟩
    · intro hfits
      omega

/-- The coarser `spr_file_full_path`, for a path that is not empty. -/
theorem sprFileFullPath_eq (cap : Nat) (separator : UInt8) {path : List UInt8} (file : List UInt8)
    (h : path ≠ []) : sprFileFullPath separator cap path file
      = if fullSize separator path file ≤ cap then .ok (trimmed separator path ++ separator :: file)
        else .error .writePastEnd := by
  unfold sprFileFullPath fullSize trimmed
  cases hlast : path.getLast? with
  | none => exact absurd (List.getLast?_eq_none_iff.mp hlast) h
  | some last => simp [Nat.add_assoc, Nat.add_comm 1]

/-- **`spr_file_full_path` succeeds** where it is safe. -/
theorem sprFileFullPath_safe (cap : Nat) (separator before : UInt8) (path file : CString space) :
    (∃ full, sprFileFullPath separator cap path.bytes file.bytes = .ok full) ↔
      FullPathSafe cap separator before path file := by
  rw [fullPathSafe_iff]
  by_cases h : path.bytes = []
  · apply iff_of_false
    · rintro ⟨full, hrun⟩
      rw [h] at hrun
      cases hrun
    · intro hsafe
      exact hsafe.1 h
  · rw [sprFileFullPath_eq cap separator file.bytes h, and_iff_right h]
    by_cases hfits : fullSize separator path.bytes file.bytes ≤ cap
    · rw [if_pos hfits]
      exact iff_of_true ⟨_, rfl⟩ hfits
    · rw [if_neg hfits]
      apply iff_of_false
      · rintro ⟨full, hrun⟩
        cases hrun
      · exact hfits

/-- **Its result** is what the stores leave in the buffer. -/
theorem sprFileFullPath_fills {cap : Nat} {separator : UInt8} (before : UInt8)
    {path file : CString space} {full : List UInt8}
    (h : sprFileFullPath separator cap path.bytes file.bytes = .ok full) :
    ∃ stores, fullPathStores separator before path file = some stores ∧
      Fills stores (full ++ [0]) := by
  have hne : path.bytes ≠ [] := by
    intro hnil
    rw [hnil] at h
    cases h
  rw [sprFileFullPath_eq cap separator file.bytes hne] at h
  by_cases hfits : fullSize separator path.bytes file.bytes ≤ cap
  · rw [if_pos hfits] at h
    injection h with hfull
    rw [← hfull]
    exact ⟨_, fullPathStores_run separator before file hne, fills_copyAt _⟩
  · rw [if_neg hfits] at h
    cases h

/-- The tail of `spr_dir_read`. -/
theorem describe_faults (cap : Nat) (separator before : UInt8) (stat : List UInt8 → StatResult)
    (path file : CString space) (errno : Nat) :
    (∃ err, describe separator cap stat path.bytes file.bytes errno = .error err) ↔
      ¬ FullPathSafe cap separator before path file := by
  rw [← sprFileFullPath_safe]
  unfold describe
  cases hfull : sprFileFullPath separator cap path.bytes file.bytes with
  | ok full =>
    apply iff_of_false
    · rintro ⟨err, hrun⟩
      cases hrun
    · exact fun hno => hno ⟨full, rfl⟩
  | error err =>
    apply iff_of_true ⟨err, rfl⟩
    rintro ⟨full, hrun⟩
    cases hrun

/-- **The `spr_dir_read` of POSIX faults** where its stores leave `fullpath`. -/
theorem posixDirRead_faults {os : Posix} {dir : PosixDir} {e : DirEntry} {stream : List DirEntry}
    {path file : CString space} (before : UInt8) (htype : os.haveDType = false)
    (hstream : dir.stream = e :: stream) (hname : dir.name = path.bytes)
    (hfile : e.name = file.bytes) :
    (∃ err, posixDirRead os dir = .error err) ↔
      ¬ FullPathSafe os.maxPathLen 0x2f before path file := by
  rw [← describe_faults os.maxPathLen 0x2f before os.stat path file dir.errno, ← hname, ← hfile]
  unfold posixDirRead
  rw [hstream]
  simp only [htype]
  cases describe 0x2f os.maxPathLen os.stat dir.name e.name dir.errno with
  | ok r => simp
  | error err => simp

/-- **And that of Win32.** -/
theorem winDirRead_faults {os : Win32Find} {dir : WinDir} {e : DirEntry} {rest : List DirEntry}
    {path file : CString space} (before : UInt8) (hhandle : dir.handle = e :: rest)
    (hname : dir.name = path.bytes) (hfile : e.name = file.bytes) :
    (∃ err, winDirRead os dir = .error err) ↔
      ¬ FullPathSafe sprMaxPathLen 0x5c before path file := by
  rw [← describe_faults sprMaxPathLen 0x5c before os.stat path file dir.lastError, ← hname, ← hfile]
  unfold winDirRead
  rw [hhandle]
  simp only
  cases describe 0x5c sprMaxPathLen os.stat dir.name e.name dir.lastError with
  | ok r => simp
  | error err => simp

end Accesses

/-! ## Section 4: Both buffers -/

/-- **The buffers are large enough**, and nothing in front of the path is read: in
    `spr_dir_open` when the path has at most `SPR_MAX_PATH_LEN` bytes, or so many that it
    is refused; in the two `spr_dir_read` when the path is not empty, and has room in
    `SPR_MAX_PATH_LEN` bytes, whatever that is on POSIX, with a separator, the name and
    the terminator. -/
theorem dir_paths_iff {space : Nat} (os : Posix) (path file : CString space) (before : UInt8) :
    (OpenSafe path ↔
      path.bytes.length ≤ sprMaxPathLen ∨ sprMaxPathLen + 3 ≤ path.bytes.length) ∧
    (FullPathSafe os.maxPathLen 0x2f before path file ↔
      path.bytes ≠ [] ∧ fullSize 0x2f path.bytes file.bytes ≤ os.maxPathLen) ∧
    (FullPathSafe sprMaxPathLen 0x5c before path file ↔
      path.bytes ≠ [] ∧ fullSize 0x5c path.bytes file.bytes ≤ sprMaxPathLen) :=
  ⟨openSafe_iff path, fullPathSafe_iff _ _ before path file, fullPathSafe_iff _ _ before path file⟩

/-- A string of this many letters. -/
def repeated (n : Nat) (h : n < 5000) : CString (2 ^ 64) where
  bytes := List.replicate n 0x61
  nonzero := by simp
  fits := by
    rw [List.length_replicate]
    omega

/-- A path of 261 bytes goes over the end of `str`; where `PATH_MAX` is 4096, a path of
    4095 and a name of one byte go over the end of `fullpath`; and in front of an empty path
    something is read. -/
theorem dir_paths_break :
    ((repeated 261 (by decide)).bytes.length < sprMaxPathLen + 3 ∧
      ¬ OpenSafe (repeated 261 (by decide))) ∧
    ((repeated 4095 (by decide)).bytes.length < onePosix.maxPathLen ∧
      ¬ FullPathSafe onePosix.maxPathLen 0x2f 0 (repeated 4095 (by decide))
        (repeated 1 (by decide))) ∧
    ¬ probe (repeated 0 (by decide)) < (repeated 0 (by decide)).object.length := by
  have hlen : ∀ n (h : n < 5000), (repeated n h).bytes.length = n := fun n _ =>
    List.length_replicate
  refine ⟨⟨?_, ?_⟩, ⟨?_, ?_⟩, probe_empty rfl⟩
  · rw [hlen]
    decide
  · rw [openSafe_iff, hlen]
    decide
  · rw [hlen]
    decide
  · rw [fullPathSafe_iff]
    rintro ⟨-, hfits⟩
    unfold fullSize at hfits
    rw [hlen] at hfits
    have hlast : (repeated 4095 (by decide)).bytes.getLast? ≠ some 0x2f := by
      unfold repeated
      rw [List.getLast?_replicate]
      decide
    rw [trimmed, if_neg hlast, hlen] at hfits
    exact absurd hfits (by decide)

end Spr.Filesys
