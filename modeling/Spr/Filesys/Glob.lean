import Spr.Filesys.DirRead

/-! # Globbing

    `spr_glob_open` and `spr_glob_read` of `src/lib/spr_filesys.c`, once over `glob` and
    once over `FindFirstFile` and `FindNextFile`.

    * `Globber`, `Finder`: the systems, as what they find.
    * `posixGlobOpen`, `posixGlobRead`, `winGlobOpen`, `winGlobRead`: the two
      implementations.
    * `Reads`: what a caller sees that reads until the result is not `SPR_OK`, with any
      last error before each read.
    * `glob_reads`: which matches these are. -/

namespace Spr.Filesys

/-! ## Section 1: Results -/

/-- What `spr_glob_read` returns, the string it leaves in `res`, and the state after it. -/
structure GlobRead (σ : Type) where
  err : Int
  res : List UInt8
  gl  : σ

/-- Reading until the result is not `SPR_OK` leaves these strings in `res`, one after the
    other, and then the result.  The last error is `stale i` when the read number `i`
    begins. -/
inductive Reads {σ : Type} (read : Int → σ → Except Fault (GlobRead σ)) :
    (Nat → Int) → σ → List (List UInt8) → Int → Prop where
  | stop (stale : Nat → Int) (s : σ) (r : GlobRead σ) (hread : read (stale 0) s = .ok r)
      (herr : r.err ≠ sprOk) : Reads read stale s [] r.err
  | path (stale : Nat → Int) (s : σ) (r : GlobRead σ) (paths : List (List UInt8)) (err : Int)
      (hread : read (stale 0) s = .ok r) (hok : r.err = sprOk)
      (hrest : Reads read (fun i => stale (i + 1)) r.gl paths err) :
      Reads read stale s (r.res :: paths) err

/-- The first read of several. -/
theorem Reads.first {σ : Type} {read : Int → σ → Except Fault (GlobRead σ)} {stale : Nat → Int}
    {s : σ} {path : List UInt8} {paths : List (List UInt8)} {err : Int}
    (h : Reads read stale s (path :: paths) err) :
    ∃ r, read (stale 0) s = .ok r ∧ r.err = sprOk := by
  cases h with
  | path _ _ r _ _ hread hok _ => exact ⟨r, hread, hok⟩

/-! ## Section 2: POSIX -/

/-- `glob_t` -/
structure GlobT where
  pathc  : Nat
  matchc : Nat
  pathv  : List (List UInt8)

/-- The system below the POSIX implementation. -/
structure Globber where
  /-- `GLOB_NOMATCH` is defined. -/
  globNomatch : Bool
  /-- What `glob` returns, and what it leaves in the `glob_t`. -/
  glob        : List UInt8 → Int × GlobT
  /-- When it succeeds, it counts the paths. -/
  counts      : ∀ pattern, (glob pattern).1 = 0 →
    (glob pattern).2.pathc = (glob pattern).2.pathv.length ∧
    (glob pattern).2.matchc = (glob pattern).2.pathv.length

/-- `spr_glob_t` -/
structure PosixGlob where
  glob    : GlobT
  pattern : List UInt8
  last    : Nat

/-- `spr_glob_open(gl, pattern)` -/
def posixGlobOpen (os : Globber) (gl : PosixGlob) (pattern : List UInt8) (errno : Int) :
    Int × PosixGlob :=
  let (rv, glob) := os.glob pattern
  let gl := { gl with glob := glob }
  if rv ≠ 0 then (errno, gl) else (sprOk, { gl with pattern := pattern, last := 0 })

/-- `spr_glob_read(gl, res)`; `errno` is not looked at. -/
def posixGlobRead (os : Globber) (_errno : Int) (gl : PosixGlob) :
    Except Fault (GlobRead PosixGlob) :=
  let n := if os.globNomatch then gl.glob.pathc else gl.glob.matchc
  if n ≤ gl.last then .ok ⟨sprDone, [], gl⟩
  else
    match gl.glob.pathv[gl.last]? with
    | none => .error .readPastEnd
    | some path => .ok ⟨sprOk, path, { gl with last := gl.last + 1 }⟩

/-! ## Section 3: Win32 -/

/-- The system below the Win32 implementation: the names that match a pattern, in its
    order. -/
structure Finder where
  find : List UInt8 → List (List UInt8)

/-- `spr_glob_t`.  The handle stands for the names that `FindNextFile` will deliver, and
    `last_res` always points to the name in `finddata`. -/
structure WinGlob where
  handle    : List (List UInt8)
  finddata  : List UInt8
  pattern   : List UInt8
  done      : Bool
  prefixLen : Nat

/-- The loop of `spr_glob_open`, from a position down; a separator at the very start is
    as good as none. -/
def lastSeparator (pattern : List UInt8) : Nat → Nat
  | 0 => 0
  | i + 1 => if pattern[i + 1]? = some 0x5c then i + 1 else lastSeparator pattern i

/-- `spr_glob_open(gl, pattern)` -/
def winGlobOpen (os : Finder) (gl : WinGlob) (pattern : List UInt8) : Int × WinGlob :=
  match os.find pattern with
  | [] => (sprFailed, { gl with handle := [] })
  | name :: names =>
      let gl := { gl with handle := names, finddata := name }
      let len := lastSeparator pattern pattern.length
      if len = 0 then (sprErrFilesysAbsPath, gl)
      else (sprOk, { gl with prefixLen := len + 1, pattern := pattern, done := false })

/-- `spr_glob_read(gl, res)`: `res` is filled before the next name is asked for. -/
def winGlobRead (lastError : Int) (gl : WinGlob) : Except Fault (GlobRead WinGlob) :=
  if gl.done then .ok ⟨sprDone, [], gl⟩
  else
    let len := gl.prefixLen + gl.finddata.length + 1
    if sprMaxPathLen < len then .ok ⟨sprErrFilesysLongPath, [], gl⟩
    else
      let res := gl.pattern.take gl.prefixLen ++ gl.finddata
      match gl.handle with
      | name :: names =>
          let gl := { gl with handle := names, finddata := name }
          -- `FindNextFile` has succeeded, and the last error is an earlier one
          let err := lastError
          if err ≠ sprOk ∧ err ≠ errorNoMoreFiles then .ok ⟨err, res, { gl with done := true }⟩
          else .ok ⟨sprOk, res, gl⟩
      | [] => .ok ⟨sprOk, res, { gl with done := true }⟩

/-! ## Section 4: Reading on POSIX -/

theorem sprDone_ne : sprDone ≠ sprOk := by decide

theorem longPath_ne : sprErrFilesysLongPath ≠ sprOk := by decide

/-- **The reads deliver the paths** from the index on, by induction on how many are left. -/
theorem posix_reads (os : Globber) {gl : PosixGlob} (stale : Nat → Int)
    (hpathc : gl.glob.pathc = gl.glob.pathv.length)
    (hmatchc : gl.glob.matchc = gl.glob.pathv.length) :
    Reads (posixGlobRead os) stale gl (gl.glob.pathv.drop gl.last) sprDone := by
  have hn : (if os.globNomatch then gl.glob.pathc else gl.glob.matchc) = gl.glob.pathv.length := by
    rw [hpathc, hmatchc]
    exact ite_self _
  generalize hleft : gl.glob.pathv.length - gl.last = left
  induction left generalizing gl stale with
  | zero =>
    rw [List.drop_eq_nil_of_le (by omega)]
    apply Reads.stop stale gl ⟨sprDone, [], gl⟩
    · unfold posixGlobRead
      rw [hn]
      exact if_pos (by omega)
    · exact sprDone_ne
  | succ left ih =>
    have hlt : gl.last < gl.glob.pathv.length := by omega
    rw [List.drop_eq_getElem_cons hlt]
    apply Reads.path stale gl ⟨sprOk, gl.glob.pathv[gl.last], { gl with last := gl.last + 1 }⟩
    · unfold posixGlobRead
      simp only [hn, List.getElem?_eq_getElem hlt]
      exact if_neg (by omega)
    · rfl
    · exact ih _ hpathc hmatchc hn (by simp only; omega)

/-! ## Section 5: Reading on Win32 -/

/-- The directory of a pattern, which is not empty, with the separator behind it. -/
def IsDirPrefix (directory pattern : List UInt8) : Prop :=
  ∃ dir file, dir ≠ [] ∧ directory = dir ++ [0x5c] ∧ pattern = directory ++ file ∧
    (0x5c : UInt8) ∉ file

theorem IsDirPrefix.eq_take {directory pattern : List UInt8} (h : IsDirPrefix directory pattern) :
    directory = pattern.take directory.length := by
  obtain ⟨dir, file, -, -, hpattern, -⟩ := h
  rw [hpattern, List.take_left]

/-- The last error does not look like one of `FindNextFile`. -/
def Unremarkable (err : Int) : Prop := err = sprOk ∨ err = errorNoMoreFiles

/-- The name fits `res` behind the directory. -/
def Fits (prefixLen : Nat) (name : List UInt8) : Bool :=
  prefixLen + name.length + 1 ≤ sprMaxPathLen

/-- What the loop finds is the last separator, by induction on the position. -/
theorem lastSeparator_last (pattern : List UInt8) (i : Nat) (h : lastSeparator pattern i ≠ 0) :
    pattern[lastSeparator pattern i]? = some 0x5c ∧
      ∀ j, lastSeparator pattern i < j → j ≤ i → pattern[j]? ≠ some 0x5c := by
  induction i with
  | zero => exact absurd rfl h
  | succ i ih =>
    rw [lastSeparator] at h ⊢
    by_cases hsep : pattern[i + 1]? = some 0x5c
    · rw [if_pos hsep]
      refine ⟨hsep, ?_⟩
      intro j hlt hle
      omega
    · rw [if_neg hsep] at h ⊢
      obtain ⟨hat, hbehind⟩ := ih h
      refine ⟨hat, ?_⟩
      intro j hlt hle
      rcases Nat.lt_or_ge i j with hj | hj
      · obtain rfl : j = i + 1 := by omega
        exact hsep
      · exact hbehind j hlt hj

theorem lastSeparator_prefix {pattern : List UInt8}
    (h : lastSeparator pattern pattern.length ≠ 0) :
    IsDirPrefix (pattern.take (lastSeparator pattern pattern.length + 1)) pattern := by
  obtain ⟨hat, hbehind⟩ := lastSeparator_last pattern pattern.length h
  obtain ⟨hlt, hsep⟩ := List.getElem?_eq_some_iff.mp hat
  refine ⟨pattern.take (lastSeparator pattern pattern.length),
    pattern.drop (lastSeparator pattern pattern.length + 1), ?_, ?_,
    (List.take_append_drop _ _).symm, ?_⟩
  · -- the separator is not the first character
    apply List.ne_nil_of_length_pos
    rw [List.length_take]
    omega
  · rw [List.take_succ_eq_append_getElem hlt, hsep]
  · intro hmem
    obtain ⟨j, hj⟩ := List.mem_iff_getElem?.mp hmem
    rw [List.getElem?_drop] at hj
    have hle := (List.getElem?_eq_some_iff.mp hj).1
    exact hbehind _ (by omega) (by omega) hj

/-- A name that does not fit stops the reading. -/
theorem winGlobRead_long {gl : WinGlob} (lastError : Int) (hdone : gl.done = false)
    (h : Fits gl.prefixLen gl.finddata = false) :
    winGlobRead lastError gl = .ok ⟨sprErrFilesysLongPath, [], gl⟩ := by
  have hlong : sprMaxPathLen < gl.prefixLen + gl.finddata.length + 1 := by
    simpa [Fits] using h
  unfold winGlobRead
  rw [if_neg (by simp [hdone])]
  exact if_pos hlong

/-- The last name. -/
theorem winGlobRead_last {gl : WinGlob} (lastError : Int) (hdone : gl.done = false)
    (h : Fits gl.prefixLen gl.finddata = true) (hhandle : gl.handle = []) :
    winGlobRead lastError gl
      = .ok ⟨sprOk, gl.pattern.take gl.prefixLen ++ gl.finddata, { gl with done := true }⟩ := by
  have hfits : ¬ sprMaxPathLen < gl.prefixLen + gl.finddata.length + 1 := by
    simpa [Fits] using h
  unfold winGlobRead
  rw [if_neg (by simp [hdone]), hhandle]
  exact if_neg hfits

/-- A name with another one behind it. -/
theorem winGlobRead_next {gl : WinGlob} {lastError : Int} {name : List UInt8}
    {names : List (List UInt8)} (hdone : gl.done = false)
    (h : Fits gl.prefixLen gl.finddata = true) (hhandle : gl.handle = name :: names)
    (herr : Unremarkable lastError) :
    winGlobRead lastError gl = .ok ⟨sprOk, gl.pattern.take gl.prefixLen ++ gl.finddata,
      { gl with handle := names, finddata := name }⟩ := by
  have hfits : ¬ sprMaxPathLen < gl.prefixLen + gl.finddata.length + 1 := by
    simpa [Fits] using h
  have hpass : ¬ (lastError ≠ sprOk ∧ lastError ≠ errorNoMoreFiles) := by
    rintro ⟨hne, hmore⟩
    exact herr.elim hne hmore
  unfold winGlobRead
  rw [if_neg (by simp [hdone]), hhandle]
  simp only [if_neg hfits, if_neg hpass]

/-- What the reads deliver of the names that are left. -/
def delivered (directory : List UInt8) (names : List (List UInt8)) : List (List UInt8) :=
  (names.takeWhile (Fits directory.length)).map fun name => directory ++ name

/-- The read number `i` delivers a match, and `FindNextFile` then finds another one. -/
def FindsNext (directory : List UInt8) (names : List (List UInt8)) (i : Nat) : Prop :=
  i < (delivered directory names).length ∧ i + 1 < names.length

/-- How the reading ends. -/
def lastResult (directory : List UInt8) (names : List (List UInt8)) : Int :=
  if names.all (Fits directory.length) then sprDone else sprErrFilesysLongPath

section Delivered

variable {directory name : List UInt8} {names : List (List UInt8)}

theorem delivered_fits (h : Fits directory.length name = true) :
    delivered directory (name :: names) = (directory ++ name) :: delivered directory names := by
  rw [delivered, List.takeWhile_cons_of_pos h]
  rfl

theorem delivered_long (h : Fits directory.length name = false) :
    delivered directory (name :: names) = [] := by
  rw [delivered, List.takeWhile_cons_of_neg (by simp [h])]
  rfl

theorem FindsNext.first {next : List UInt8} (h : Fits directory.length name = true) :
    FindsNext directory (name :: next :: names) 0 := by
  refine ⟨?_, ?_⟩
  · rw [delivered_fits h]
    exact Nat.zero_lt_succ _
  · exact Nat.succ_lt_succ (Nat.zero_lt_succ _)

theorem FindsNext.later {i : Nat} (h : Fits directory.length name = true)
    (hi : FindsNext directory names i) : FindsNext directory (name :: names) (i + 1) := by
  refine ⟨?_, Nat.succ_lt_succ hi.2⟩
  rw [delivered_fits h]
  exact Nat.succ_lt_succ hi.1

theorem lastResult_fits (h : Fits directory.length name = true) :
    lastResult directory (name :: names) = lastResult directory names := by
  rw [lastResult, List.all_cons, h, Bool.true_and]
  rfl

theorem lastResult_long (h : Fits directory.length name = false) :
    lastResult directory (name :: names) = sprErrFilesysLongPath := by
  rw [lastResult, List.all_cons, h, Bool.false_and]
  rfl

/-- A name that does not fit ends the reading. -/
theorem win_reads_long {gl : WinGlob} (stale : Nat → Int) (hdone : gl.done = false)
    (hlen : gl.prefixLen = directory.length) (h : Fits directory.length gl.finddata = false) :
    Reads winGlobRead stale gl (delivered directory (gl.finddata :: names))
      (lastResult directory (gl.finddata :: names)) := by
  rw [delivered_long h, lastResult_long h]
  exact .stop stale gl _ (winGlobRead_long (stale 0) hdone (hlen ▸ h)) longPath_ne

/-- **The reads deliver the names** up to the first that does not fit, by induction on the
    names that `FindNextFile` has left. -/
theorem win_reads (names : List (List UInt8)) {gl : WinGlob} (stale : Nat → Int)
    (hdone : gl.done = false) (hhandle : gl.handle = names)
    (hlen : gl.prefixLen = directory.length)
    (hhead : gl.pattern.take gl.prefixLen = directory)
    (hstale : ∀ i, FindsNext directory (gl.finddata :: names) i → Unremarkable (stale i)) :
    Reads winGlobRead stale gl (delivered directory (gl.finddata :: names))
      (lastResult directory (gl.finddata :: names)) := by
  induction names generalizing gl stale with
  | nil =>
    cases hfits : Fits directory.length gl.finddata with
    | false => exact win_reads_long stale hdone hlen hfits
    | true =>
      have hread := winGlobRead_last (stale 0) hdone (hlen ▸ hfits) hhandle
      rw [hhead] at hread
      rw [delivered_fits hfits, lastResult_fits hfits]
      apply Reads.path stale gl _ _ _ hread rfl
      -- `done` is set now
      exact .stop _ _ ⟨sprDone, [], { gl with done := true }⟩ rfl sprDone_ne
  | cons name names ih =>
    cases hfits : Fits directory.length gl.finddata with
    | false => exact win_reads_long stale hdone hlen hfits
    | true =>
      have hclear : Unremarkable (stale 0) := hstale 0 (FindsNext.first hfits)
      have hread := winGlobRead_next hdone (hlen ▸ hfits) hhandle hclear
      rw [hhead] at hread
      rw [delivered_fits hfits, lastResult_fits hfits]
      apply Reads.path stale gl _ _ _ hread rfl
      have hlater : ∀ i, FindsNext directory (name :: names) i → Unremarkable (stale (i + 1)) := by
        intro i hi
        exact hstale (i + 1) (hi.later hfits)
      exact ih (fun i => stale (i + 1)) (by exact hdone) (by rfl) (by exact hlen)
        (by exact hhead) hlater

end Delivered

/-! ## Section 6: Globbing -/

/-- What `spr_glob_open` leaves on Win32 when it returns `SPR_OK`. -/
theorem winGlobOpen_ok {os : Finder} {gl : WinGlob} {pattern : List UInt8}
    (h : (winGlobOpen os gl pattern).1 = sprOk) :
    ∃ name names, os.find pattern = name :: names ∧
      lastSeparator pattern pattern.length ≠ 0 ∧
      (winGlobOpen os gl pattern).2 = ⟨names, name, pattern, false,
        lastSeparator pattern pattern.length + 1⟩ := by
  unfold winGlobOpen at h ⊢
  cases hfind : os.find pattern with
  | nil =>
    have hfailed : sprFailed ≠ sprOk := by decide
    rw [hfind] at h
    exact absurd h hfailed
  | cons name names =>
    rw [hfind] at h
    simp only at h ⊢
    by_cases hnone : lastSeparator pattern pattern.length = 0
    · have habs : sprErrFilesysAbsPath ≠ sprOk := by decide
      rw [if_pos hnone] at h
      exact absurd h habs
    · refine ⟨name, names, rfl, hnone, ?_⟩
      rw [if_neg hnone]

/-- **Globbing.**  On POSIX, `spr_glob_open` returns `SPR_OK` when `glob` succeeds, and an
    error when it fails and has set `errno`; the reads then deliver the paths that `glob`
    has found.  On Win32, it returns `SPR_OK` only if there is a match and the pattern has
    a directory; as long as nobody leaves an error behind before a read that finds another
    match, the reads then deliver the matches in that directory, up to the first whose path
    is too long. -/
theorem glob_reads :
    (∀ (os : Globber) (gl : PosixGlob) (pattern : List UInt8) (errno : Int) (stale : Nat → Int),
      ((os.glob pattern).1 = 0 →
        posixGlobOpen os gl pattern errno = (sprOk, ⟨(os.glob pattern).2, pattern, 0⟩) ∧
        Reads (posixGlobRead os) stale (posixGlobOpen os gl pattern errno).2
          (os.glob pattern).2.pathv sprDone) ∧
      ((os.glob pattern).1 ≠ 0 → errno ≠ sprOk →
        (posixGlobOpen os gl pattern errno).1 = errno)) ∧
    ∀ (os : Finder) (gl : WinGlob) (pattern : List UInt8) (stale : Nat → Int),
      (winGlobOpen os gl pattern).1 = sprOk →
      ∃ name names directory, os.find pattern = name :: names ∧ IsDirPrefix directory pattern ∧
        (winGlobOpen os gl pattern).2 = ⟨names, name, pattern, false, directory.length⟩ ∧
        ((∀ i, FindsNext directory (name :: names) i → Unremarkable (stale i)) →
          Reads winGlobRead stale (winGlobOpen os gl pattern).2
            (delivered directory (name :: names)) (lastResult directory (name :: names))) := by
  constructor
  · intro os gl pattern errno stale
    constructor
    · intro hrv
      -- the list that `glob` has made is read by index
      have hopen : posixGlobOpen os gl pattern errno
          = (sprOk, ⟨(os.glob pattern).2, pattern, 0⟩) := by
        unfold posixGlobOpen
        exact if_neg (not_not_intro hrv)
      obtain ⟨hpathc, hmatchc⟩ := os.counts pattern hrv
      rw [hopen]
      exact ⟨rfl, posix_reads os stale hpathc hmatchc⟩
    · intro hrv _
      unfold posixGlobOpen
      simp only [if_pos hrv]
  · intro os gl pattern stale hok
    -- the first match is found by the opening, and the others are looked for one by one
    obtain ⟨name, names, hfind, hsep, hopen⟩ := winGlobOpen_ok hok
    have hdir := lastSeparator_prefix hsep
    have hlast : lastSeparator pattern pattern.length + 1 ≤ pattern.length := by
      have hat := (lastSeparator_last pattern pattern.length hsep).1
      exact (List.getElem?_eq_some_iff.mp hat).1
    have hlen : (pattern.take (lastSeparator pattern pattern.length + 1)).length
        = lastSeparator pattern pattern.length + 1 := by
      rw [List.length_take, Nat.min_eq_left hlast]
    refine ⟨name, names, _, hfind, hdir, ?_, ?_⟩
    · rw [hlen]
      exact hopen
    · intro hstale
      rw [hopen]
      exact win_reads names stale rfl rfl hlen.symm rfl hstale

/-- A system on which `glob` finds these paths, or finds none and fails. -/
def globber (paths : List (List UInt8)) : Globber where
  globNomatch := true
  glob _ := (if paths = [] then 3 else 0, ⟨paths.length, paths.length, paths⟩)
  counts _ _ := ⟨rfl, rfl⟩

/-- A system with these matches. -/
def finder (names : List (List UInt8)) : Finder where
  find _ := names

/-- Before the first call. -/
def winFresh : WinGlob := ⟨[], [], [], false, 0⟩

/-- A name of 259 bytes, the longest that fits into `cFileName`. -/
def longName : List UInt8 := List.replicate 259 0x61

theorem longName_fits : Fits 2 longName = false := by
  have hlen : longName.length = 259 := List.length_replicate
  unfold Fits
  rw [hlen]
  rfl

/-- Two matches of `d/*` and of `d\\*`. -/
theorem glob_reads_two :
    Reads (posixGlobRead (globber [[0x64, 0x2f, 0x61], [0x64, 0x2f, 0x62]])) (fun _ => 0)
      ⟨⟨2, 2, [[0x64, 0x2f, 0x61], [0x64, 0x2f, 0x62]]⟩, [0x64, 0x2f, 0x2a], 0⟩
      [[0x64, 0x2f, 0x61], [0x64, 0x2f, 0x62]] sprDone ∧
    Reads winGlobRead (fun _ => 0) ⟨[[0x62]], [0x61], [0x64, 0x5c, 0x2a], false, 2⟩
      [[0x64, 0x5c, 0x61], [0x64, 0x5c, 0x62]] sprDone := by
  constructor
  · exact ((glob_reads.1 (globber [[0x64, 0x2f, 0x61], [0x64, 0x2f, 0x62]]) ⟨⟨0, 0, []⟩, [], 0⟩
      [0x64, 0x2f, 0x2a] 0 fun _ => 0).1 rfl).2
  · obtain ⟨name, names, directory, hfind, hhead, hopen, hreads⟩ := glob_reads.2
      (finder [[0x61], [0x62]]) winFresh [0x64, 0x5c, 0x2a] (fun _ => 0) (by decide)
    injection hfind with hname hnames
    subst hname hnames
    have hlen : 2 = directory.length := congrArg WinGlob.prefixLen hopen
    have hdir : directory = [0x64, 0x5c] := by
      rw [hhead.eq_take, ← hlen]
      rfl
    rw [hdir] at hreads
    exact hreads fun _ _ => Or.inl rfl

/-- A path of 261 bytes is too long for `res`; `glob` finds nothing and leaves `errno` at 0;
    an error is left behind before the second of two matches is looked for. -/
theorem glob_breaks :
    ((winGlobOpen (finder [longName]) winFresh [0x64, 0x5c, 0x2a]).1 = sprOk ∧
      ¬ Reads winGlobRead (fun _ => 0)
        (winGlobOpen (finder [longName]) winFresh [0x64, 0x5c, 0x2a]).2
        [[0x64, 0x5c] ++ longName] sprDone) ∧
    (((globber []).glob [0x64, 0x2f, 0x2a]).1 ≠ 0 ∧
      (posixGlobOpen (globber []) ⟨⟨0, 0, []⟩, [], 0⟩ [0x64, 0x2f, 0x2a] 0).1 = sprOk) ∧
    ((winGlobOpen (finder [[0x61], [0x62]]) winFresh [0x64, 0x5c, 0x2a]).1 = sprOk ∧
      ¬ Reads winGlobRead (fun _ => 2)
        (winGlobOpen (finder [[0x61], [0x62]]) winFresh [0x64, 0x5c, 0x2a]).2
        [[0x64, 0x5c, 0x61], [0x64, 0x5c, 0x62]] sprDone) := by
  refine ⟨⟨rfl, ?_⟩, ⟨by decide, rfl⟩, ⟨rfl, ?_⟩⟩
  · intro h
    have hopen : (winGlobOpen (finder [longName]) winFresh [0x64, 0x5c, 0x2a]).2
        = ⟨[], longName, [0x64, 0x5c, 0x2a], false, 2⟩ := rfl
    have hlong : winGlobRead 0 ⟨[], longName, [0x64, 0x5c, 0x2a], false, 2⟩
        = .ok ⟨sprErrFilesysLongPath, [], _⟩ := winGlobRead_long 0 rfl longName_fits
    rw [hopen] at h
    obtain ⟨r, hread, hok⟩ := h.first
    rw [hlong] at hread
    injection hread with hr
    subst hr
    exact longPath_ne hok
  · intro h
    obtain ⟨r, hread, hok⟩ := h.first
    injection hread with hr
    subst hr
    exact absurd hok (by decide)

end Spr.Filesys
