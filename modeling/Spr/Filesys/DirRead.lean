import Spr.Filesys.WinPathCalls

/-! # Reading a directory

    `spr_dir_open` and `spr_dir_read`, once over `opendir` and `readdir` and once
    over `FindFirstFile` and `FindNextFile`.

    * `Posix`, `Win32Find`: the systems, as what they answer.
    * `posixDirOpen`, `posixDirRead`, `winDirOpen`, `winDirRead`: the two
      implementations.  `errno`, and the last error, stay as they are until a
      call fails.
    * `Yields`: what a caller sees that reads until the result is not `SPR_OK`.
    * `dir_read_complete_iff`: when that is the whole directory. -/

namespace Spr.Filesys

/-! ## Section 1: Entries and paths -/

/-- `E2BIG` -/
def e2big : Int := 7

/-- An entry, as the system enumerates it. -/
structure DirEntry where
  name  : List UInt8
  dType : Nat
  deriving DecidableEq

/-- What `spr_file_stat_by_path` leaves: the type that is then read out of the
    buffer, and the error it has set if it failed. -/
structure StatResult where
  fileType : Nat
  failure  : Option Nat

/-- `spr_file_full_path(buf, path, file)`, into a buffer of `cap` bytes. -/
def sprFileFullPath (separator : UInt8) (cap : Nat) (path file : List UInt8) :
    Except Fault (List UInt8) :=
  match path.getLast? with
  | none => .error .readPastEnd
  | some last =>
      let path := if last = separator then path.dropLast else path
      let full := path ++ separator :: file
      if full.length + 1 ≤ cap then .ok full else .error .writePastEnd

/-- The tail of `spr_dir_read`: the type of the entry, and the error variable
    afterwards.  What `spr_file_stat_by_path` returns is not looked at. -/
def describe (separator : UInt8) (cap : Nat) (stat : List UInt8 → StatResult)
    (name file : List UInt8) (err : Nat) : Except Fault (Nat × Nat) := do
  let fullpath ← sprFileFullPath separator cap name file
  let fstat := stat fullpath
  .ok (fstat.fileType, fstat.failure.getD err)

/-! ## Section 2: POSIX -/

/-- The system below the POSIX implementation. -/
structure Posix where
  /-- `SPR_MAX_PATH_LEN`, which is `PATH_MAX` or a default. -/
  maxPathLen : Nat
  /-- `SPR_HAVE_D_TYPE` -/
  haveDType  : Bool
  /-- What `opendir` finds, or its error. -/
  opendir    : List UInt8 → Except Nat (List DirEntry)
  stat       : List UInt8 → StatResult
  /-- A call that fails sets an error. -/
  failure    : ∀ path e, (stat path).failure = some e → e ≠ 0

/-- `spr_dir_t`, and `errno`.  The stream holds the entries that `readdir` has not
    delivered. -/
structure PosixDir where
  stream : List DirEntry
  dirent : Option DirEntry
  name   : List UInt8
  type   : Nat
  errno  : Nat

/-- `spr_dir_open(dir, path)` -/
def posixDirOpen (os : Posix) (path : List UInt8) (errno : Nat) : Int × PosixDir :=
  match os.opendir path with
  | .error e => (e, { stream := [], dirent := none, name := [], type := 0, errno := e })
  | .ok entries =>
      (sprOk, { stream := entries, dirent := none, name := path, type := 0, errno := errno })

/-- `spr_dir_read(dir)` -/
def posixDirRead (os : Posix) (dir : PosixDir) : Except Fault (Int × PosixDir) :=
  match dir.stream with
  | [] =>
      -- `readdir` answers `NULL`, at the end of the stream without an error
      let dir := { dir with dirent := none }
      let err : Int := dir.errno
      if err ≠ sprOk then .ok (err, dir) else .ok (sprDone, dir)
  | e :: stream =>
      let dir := { dir with stream := stream, dirent := some e }
      if os.haveDType then .ok (sprOk, { dir with type := e.dType })
      else do
        let (type, errno) ← describe 0x2f os.maxPathLen os.stat dir.name e.name dir.errno
        .ok (sprOk, { dir with type := type, errno := errno })

/-! ## Section 3: Win32 -/

/-- `ERROR_FILE_NOT_FOUND` -/
def errorFileNotFound : Nat := 2

/-- `ERROR_NO_MORE_FILES` -/
def errorNoMoreFiles : Nat := 18

/-- The system below the Win32 implementation: the entries that match a pattern,
    in its order. -/
structure Win32Find where
  find : List UInt8 → List DirEntry
  stat : List UInt8 → StatResult

/-- `spr_dir_t`, and the last error.  The handle stands for the entries that
    `FindNextFile` will deliver. -/
structure WinDir where
  handle    : List DirEntry
  finddata  : Option DirEntry
  name      : List UInt8
  type      : Nat
  lastError : Nat

/-- `path\*` -/
def findPattern (path : List UInt8) : List UInt8 := path ++ [0x5c, 0x2a]

/-- `spr_dir_open(dir, path)` -/
def winDirOpen (os : Win32Find) (path : List UInt8) (lastError : Nat) :
    Except Fault (Int × WinDir) :=
  let dir : WinDir :=
    { handle := [], finddata := none, name := [], type := 0, lastError := lastError }
  if sprMaxPathLen + 3 ≤ path.length then .ok (e2big, dir)
  else if sprMaxPathLen + 3 ≤ path.length + 2 then .error .writePastEnd
  else
    match os.find (findPattern path) with
    | [] =>
        let dir := { dir with lastError := errorFileNotFound }
        let err : Int := dir.lastError
        if err ≠ sprOk then .ok (err, dir) else .ok (sprDone, dir)
    | e :: rest => .ok (sprOk, { dir with handle := rest, finddata := some e, name := path })

/-- `spr_dir_read(dir)`: the first thing it does is to go on to the next entry. -/
def winDirRead (os : Win32Find) (dir : WinDir) : Except Fault (Int × WinDir) :=
  match dir.handle with
  | [] =>
      let dir := { dir with lastError := errorNoMoreFiles }
      let err := dir.lastError
      if (err : Int) ≠ sprOk ∧ err ≠ errorNoMoreFiles then .ok (err, dir) else .ok (sprDone, dir)
  | e :: rest => do
      let dir := { dir with handle := rest, finddata := some e }
      let (type, lastError) ← describe 0x5c sprMaxPathLen os.stat dir.name e.name dir.lastError
      .ok (sprOk, { dir with type := type, lastError := lastError })

/-! ## Section 4: Enumeration -/

/-- Reading from `s` until the result is not `SPR_OK` yields the entries, in this
    order, and then the result. -/
inductive Yields {σ : Type} (read : σ → Except Fault (Int × σ)) (current : σ → Option DirEntry) :
    σ → List DirEntry → Int → Prop where
  | stop (s s' : σ) (err : Int) (hread : read s = .ok (err, s')) (herr : err ≠ sprOk) :
      Yields read current s [] err
  | entry (s s' : σ) (e : DirEntry) (es : List DirEntry) (err : Int)
      (hread : read s = .ok (sprOk, s')) (hcurrent : current s' = some e)
      (hrest : Yields read current s' es err) : Yields read current s (e :: es) err

/-- The POSIX implementation enumerates the entries. -/
def PosixComplete (os : Posix) (path : List UInt8) (entries : List DirEntry) (errno : Nat) : Prop :=
  (posixDirOpen os path errno).1 = sprOk ∧
    Yields (posixDirRead os) PosixDir.dirent (posixDirOpen os path errno).2 entries sprDone

/-- The Win32 implementation enumerates the entries. -/
def Win32Complete (os : Win32Find) (path : List UInt8) (entries : List DirEntry) (lastError : Nat) :
    Prop :=
  ∃ dir, winDirOpen os path lastError = .ok (sprOk, dir) ∧
    Yields (winDirRead os) WinDir.finddata dir entries sprDone

/-- The entry's path fits its buffer, and the system can describe it. -/
def Describable (os : Posix) (name : List UInt8) (e : DirEntry) : Prop :=
  ∃ path, sprFileFullPath 0x2f os.maxPathLen name e.name = .ok path ∧
    (os.stat path).failure = none

/-- At the end of the stream the result is `errno`, if there is one. -/
theorem posix_end_iff {os : Posix} {dir : PosixDir} (hend : dir.stream = []) :
    Yields (posixDirRead os) PosixDir.dirent dir [] sprDone ↔ dir.errno = 0 := by
  have hread : posixDirRead os dir = if (dir.errno : Int) ≠ sprOk
      then .ok ((dir.errno : Int), { dir with dirent := none })
      else .ok (sprDone, { dir with dirent := none }) := by
    rw [posixDirRead, hend]
  constructor
  · intro h
    cases h with
    | stop _ s' _ hstop _ =>
      rw [hread] at hstop
      by_cases herrno : (dir.errno : Int) ≠ sprOk
      · -- an error number is not `SPR_DONE`
        rw [if_pos herrno] at hstop
        injection hstop with hpair
        have : (dir.errno : Int) = sprDone := congrArg Prod.fst hpair
        simp only [sprDone] at this
        omega
      · simp only [sprOk] at herrno
        omega
  · intro h
    refine .stop dir { dir with dirent := none } sprDone ?_ (by decide)
    rw [hread, if_neg (by simp [h, sprOk])]

/-- **One read** delivers the next entry, or faults over its path. -/
theorem posixDirRead_next (os : Posix) {dir : PosixDir} {e : DirEntry} {es : List DirEntry}
    (hstream : dir.stream = e :: es) :
    (∃ err, posixDirRead os dir = .error err ∧ os.haveDType = false ∧
      ¬ Describable os dir.name e) ∨
    (∃ dir', posixDirRead os dir = .ok (sprOk, dir') ∧ dir'.stream = es ∧
      dir'.dirent = some e ∧ dir'.name = dir.name ∧
      (dir'.errno = 0 ↔ dir.errno = 0 ∧ (os.haveDType = true ∨ Describable os dir.name e))) := by
  by_cases htype : os.haveDType = true
  · right
    refine ⟨{ dir with stream := es, dirent := some e, type := e.dType }, ?_, rfl, rfl, rfl,
      by simp [htype]⟩
    rw [posixDirRead, hstream]
    exact if_pos htype
  · cases hfull : sprFileFullPath 0x2f os.maxPathLen dir.name e.name with
    | error err =>
      left
      refine ⟨err, ?_, by simpa using htype, ?_⟩
      · rw [posixDirRead, hstream]
        simp only [htype, describe, hfull]
        rfl
      · rintro ⟨path, hpath, -⟩
        rw [hfull] at hpath
        cases hpath
    | ok path =>
      right
      refine ⟨{ dir with
        stream := es, dirent := some e, type := (os.stat path).fileType,
        errno := (os.stat path).failure.getD dir.errno }, ?_, rfl, rfl, rfl, ?_⟩
      · rw [posixDirRead, hstream]
        simp only [describe, hfull]
        exact if_neg htype
      have hdesc : Describable os dir.name e ↔ (os.stat path).failure = none := by
        constructor
        · rintro ⟨path', hpath, hno⟩
          rw [hfull] at hpath
          injection hpath with hpath
          rwa [hpath]
        · exact fun hno => ⟨path, hfull, hno⟩
      show (os.stat path).failure.getD dir.errno = 0 ↔ _
      rw [hdesc]
      cases hfail : (os.stat path).failure with
      | none => simp [htype]
      | some n =>
        -- the call failed: `errno` is its error from here on
        have := os.failure path n hfail
        simp [htype, this]

/-- **Reading on** yields the rest of the stream just if no error is left behind. -/
theorem posix_yields_iff {os : Posix} {entries : List DirEntry} :
    ∀ {dir : PosixDir}, dir.stream = entries →
      (Yields (posixDirRead os) PosixDir.dirent dir entries sprDone ↔
        dir.errno = 0 ∧ (os.haveDType = true ∨ ∀ e ∈ entries, Describable os dir.name e)) := by
  induction entries with
  | nil =>
    intro dir hstream
    rw [posix_end_iff hstream]
    simp
  | cons e es ih =>
    intro dir hstream
    rcases posixDirRead_next os hstream with
      ⟨err, hread, htype, hno⟩ | ⟨dir', hread, hstream', hdirent, hname, herrno⟩
    · constructor
      · intro h
        cases h with
        | entry _ s' _ _ _ hok _ _ =>
          rw [hread] at hok
          cases hok
      · rintro ⟨-, hd | hall⟩
        · rw [htype] at hd
          cases hd
        · exact absurd (hall e List.mem_cons_self) hno
    · have hrest := ih hstream'
      rw [hname] at hrest
      -- the entry is read, so all depends on those behind it
      have hstep : Yields (posixDirRead os) PosixDir.dirent dir (e :: es) sprDone ↔
          Yields (posixDirRead os) PosixDir.dirent dir' es sprDone := by
        constructor
        · intro h
          cases h with
          | entry _ s' _ _ _ hok _ htail =>
            rw [hread] at hok
            injection hok with hpair
            obtain rfl : dir' = s' := congrArg Prod.snd hpair
            exact htail
        · exact fun h => .entry dir dir' e es sprDone hread hdirent h
      rw [hstep, hrest, herrno, List.forall_mem_cons, or_and_left, and_assoc]

/-- What `FindFirstFile` has delivered is gone: what can be read is shorter. -/
theorem win_yields_length {os : Win32Find} {dir : WinDir} {es : List DirEntry} {err : Int}
    (h : Yields (winDirRead os) WinDir.finddata dir es err) : es.length ≤ dir.handle.length := by
  induction h with
  | stop => exact Nat.zero_le _
  | entry s s' e es err hread hcurrent _ ih =>
    cases hhandle : s.handle with
    | nil =>
      -- no entry is left, and the result is `SPR_DONE`
      rw [winDirRead, hhandle] at hread
      simp [sprOk, errorNoMoreFiles, sprDone] at hread
    | cons e' rest =>
      rw [winDirRead, hhandle] at hread
      cases hdesc : describe 0x5c sprMaxPathLen os.stat s.name e'.name s.lastError with
      | error f =>
        simp only [hdesc] at hread
        cases hread
      | ok r =>
        simp only [hdesc] at hread
        injection hread with hpair
        have hs : s'.handle = rest := (congrArg (fun r => WinDir.handle r.2) hpair).symm
        rw [hs] at ih
        simpa using ih

/-- **The Win32 implementation** never enumerates a directory: the entry that
    opening it delivers is overwritten before anybody sees it, and an empty one is
    an error. -/
theorem not_win32Complete (os : Win32Find) (path : List UInt8) (lastError : Nat) :
    ¬ Win32Complete os path (os.find (findPattern path)) lastError := by
  rintro ⟨dir, hopen, hyields⟩
  have hlen := win_yields_length hyields
  unfold winDirOpen at hopen
  simp only at hopen
  split at hopen
  · simp [e2big, sprOk] at hopen
  · split at hopen
    · cases hopen
    · cases hfind : os.find (findPattern path) with
      | nil =>
        rw [hfind] at hopen
        simp [errorFileNotFound, sprOk] at hopen
      | cons e rest =>
        rw [hfind] at hopen hlen
        injection hopen with hpair
        have hhandle : dir.handle = rest := (congrArg (fun r => WinDir.handle r.2) hpair).symm
        rw [hhandle, List.length_cons] at hlen
        omega

/-- **When a directory is enumerated**: by the POSIX implementation if no error
    was left behind before, nor is by describing an entry; by the Win32
    implementation never. -/
theorem dir_read_complete_iff (os : Posix) (win : Win32Find) (path : List UInt8)
    (entries : List DirEntry) (errno lastError : Nat) (hopen : os.opendir path = .ok entries) :
    (PosixComplete os path entries errno ↔
      errno = 0 ∧ (os.haveDType = true ∨ ∀ e ∈ entries, Describable os path e)) ∧
    ¬ Win32Complete win path (win.find (findPattern path)) lastError := by
  refine ⟨?_, not_win32Complete win path lastError⟩
  have hdir : posixDirOpen os path errno = (sprOk,
      { stream := entries, dirent := none, name := path, type := 0, errno := errno }) := by
    rw [posixDirOpen, hopen]
  rw [PosixComplete, hdir, posix_yields_iff rfl]
  exact and_iff_right rfl

/-- A directory `d` of one entry, on a system with `d_type`. -/
def onePosix : Posix where
  maxPathLen := 4096
  haveDType := true
  opendir _ := .ok [⟨[0x61], 8⟩]
  stat _ := ⟨0, none⟩
  failure _ _ h := by cases h

/-- The same directory on Win32. -/
def oneWin32 : Win32Find where
  find _ := [⟨[0x61], 8⟩]
  stat _ := ⟨0, none⟩

/-- It is enumerated where no error was left behind. -/
theorem dir_read_complete_iff_one : PosixComplete onePosix [0x64] [⟨[0x61], 8⟩] 0 :=
  (dir_read_complete_iff onePosix oneWin32 [0x64] [⟨[0x61], 8⟩] 0 0 rfl).1.mpr
    ⟨rfl, Or.inl rfl⟩

/-- **An error left behind by an earlier call** is taken for one of `readdir`, and
    on Win32 the only entry of a directory is lost. -/
theorem dir_read_incomplete :
    ¬ PosixComplete onePosix [0x64] [⟨[0x61], 8⟩] 2 ∧
    ¬ Win32Complete oneWin32 [0x64] [⟨[0x61], 8⟩] 0 := by
  constructor
  · rintro ⟨-, h⟩
    have := (posix_yields_iff rfl).mp h
    exact absurd this.1 (by decide)
  · exact not_win32Complete oneWin32 [0x64] 0

end Spr.Filesys
