import Mathlib.Algebra.Group.Int.Defs
import Mathlib.Algebra.Group.Nat.Defs
import Mathlib.Algebra.GroupWithZero.Nat
import Mathlib.Data.List.Basic
import Mathlib.Logic.Function.Basic

/-! # Files, and descriptors with a position

    The files of a POSIX system.  How many bytes a call moves, and whether it fails,
    is not up to the system but to its answer.

    * `splice`, `slice`: bytes that are written to a place, and read from it.
    * `Disk`: the names and the contents; `Disk.read` and `Disk.write` name a place.
    * `Kernel`: a disk and open descriptors; `sysRead` and `sysWrite` go on from the
      position of a descriptor. -/

namespace Spr.Files

/-! ## Section 1: Places in a file -/

/-- The content after `bytes` have been written at `pos`; a gap in front of them is
    filled with zeros. -/
def splice (c : List UInt8) (pos : Nat) (bytes : List UInt8) : List UInt8 :=
  if bytes = [] then c
  else c.take pos ++ List.replicate (pos - c.length) 0 ++ bytes ++ c.drop (pos + bytes.length)

/-- At most `n` bytes at `pos`. -/
def slice (c : List UInt8) (pos n : Nat) : List UInt8 := (c.drop pos).take n

section Places

variable {old bs : List UInt8} {pos : Nat}

@[simp] theorem splice_nil (c : List UInt8) (pos : Nat) : splice c pos [] = c := if_pos rfl

/-- What is where after a write. -/
theorem getElem?_splice (hne : bs ≠ []) (i : Nat) :
    (splice old pos bs)[i]? =
      if i < pos then (if i < old.length then old[i]? else some 0)
      else if i < pos + bs.length then bs[i - pos]? else old[i]? := by
  have hfront : (old.take pos ++ List.replicate (pos - old.length) 0).length = pos := by simp; omega
  rw [splice, if_neg hne, List.append_assoc, List.getElem?_append, hfront]
  by_cases hlt : i < pos
  · rw [if_pos hlt, if_pos hlt, List.getElem?_append, List.length_take]
    by_cases hc : i < old.length
    · rw [if_pos hc, if_pos (by omega), List.getElem?_take_of_lt hlt]
    · rw [if_neg hc, if_neg (by omega), List.getElem?_replicate, if_pos (by omega)]
  · rw [if_neg hlt, if_neg hlt, List.getElem?_append]
    by_cases hin : i < pos + bs.length
    · rw [if_pos hin, if_pos (by omega)]
    · rw [if_neg hin, if_neg (by omega), List.getElem?_drop]
      congr 1
      omega

/-- Where a splice ends, the next one begins. -/
theorem splice_append (c bs cs : List UInt8) (pos : Nat) :
    splice (splice c pos bs) (pos + bs.length) cs = splice c pos (bs ++ cs) := by
  by_cases hbs : bs = []
  · subst hbs
    simp
  by_cases hcs : cs = []
  · subst hcs
    simp
  have hpos : 0 < bs.length := List.length_pos_of_ne_nil hbs
  have hlen : ∀ i, i < pos + bs.length → i < (splice c pos bs).length := by
    intro i hi
    rw [splice, if_neg hbs]
    simp only [List.length_append, List.length_take, List.length_replicate]
    omega
  apply List.ext_getElem?
  intro i
  rw [getElem?_splice hcs, getElem?_splice (List.append_ne_nil_of_left_ne_nil hbs cs),
    getElem?_splice hbs, List.length_append]
  by_cases hfront : i < pos
  · rw [if_pos (by omega), if_pos (hlen i (by omega)), if_pos hfront, if_pos hfront]
  · rw [if_neg hfront, if_neg hfront]
    by_cases hfirst : i < pos + bs.length
    · rw [if_pos hfirst, if_pos (hlen i hfirst), if_pos hfirst, if_pos (by omega),
        List.getElem?_append_left (by omega)]
    · rw [if_neg hfirst, if_neg hfirst]
      by_cases hsecond : i < pos + bs.length + cs.length
      · rw [if_pos hsecond, if_pos (by omega), List.getElem?_append_right (by omega)]
        congr 1
        omega
      · rw [if_neg hsecond, if_neg (by omega)]

/-- A splice at the end. -/
theorem splice_last (c bs : List UInt8) : splice c c.length bs = c ++ bs := by
  by_cases hbs : bs = []
  · subst hbs
    simp
  · rw [splice, if_neg hbs, List.take_length, Nat.sub_self, List.drop_eq_nil_of_le (by omega)]
    simp

/-- What has been written is read. -/
theorem take_slice_splice (c bs : List UInt8) (pos m : Nat) :
    (slice (splice c pos bs) pos m).take bs.length = bs.take m := by
  apply List.ext_getElem?
  intro i
  by_cases hbs : bs = []
  · subst hbs
    simp
  by_cases hi : i < bs.length
  · rw [List.getElem?_take_of_lt hi, slice, List.getElem?_take, List.getElem?_take]
    congr 1
    rw [List.getElem?_drop, getElem?_splice hbs, if_neg (by omega), if_pos (by omega)]
    congr 1
    omega
  · rw [List.getElem?_eq_none (by rw [List.length_take]; omega),
      List.getElem?_eq_none (by rw [List.length_take]; omega)]

end Places

/-! ## Section 2: The disk -/

/-- The path of a file. -/
abbrev Path : Type := List UInt8

/-- Files, by number, and their names. -/
structure Disk where
  names : Path → Option Nat
  files : Nat → Option (List UInt8)

/-- What is open, and for what. -/
structure Target where
  file    : Nat
  reads   : Bool
  writes  : Bool
  appends : Bool
  deriving DecidableEq, Repr

-- the flags of `open`
@[simp] abbrev oWronly : Nat := 1
@[simp] abbrev oRdwr : Nat := 2
@[simp] abbrev oCreat : Nat := 64
@[simp] abbrev oTrunc : Nat := 512
@[simp] abbrev oAppend : Nat := 1024

/-- A file that is opened with these flags. -/
def Target.of (file flags : Nat) : Target where
  file    := file
  reads   := flags % 4 = 0 ∨ flags % 4 = oRdwr
  writes  := flags % 4 = oWronly ∨ flags % 4 = oRdwr
  appends := flags &&& oAppend ≠ 0

namespace Disk

variable (d : Disk)

def content (file : Nat) : List UInt8 := (d.files file).getD []

def put (file : Nat) (c : List UInt8) : Disk :=
  { d with files := Function.update d.files file (some c) }

/-- `open(path, flags)` opens the file of this number. -/
def opening (path : Path) (flags file : Nat) : Option Disk :=
  match d.names path with
  | some known =>
      if known = file then some (if flags &&& oTrunc ≠ 0 then d.put file [] else d) else none
  | none =>
      -- a file that is created is empty
      if flags &&& oCreat ≠ 0 ∧ d.files file = none then
        some { d.put file [] with names := Function.update d.names path (some file) }
      else none

/-- `unlink(path)`: an open file stays where it is. -/
def unlink (path : Path) : Disk := { d with names := Function.update d.names path none }

/-- `rename(from, to)`: nothing happens when there is no such file, or both are names of it. -/
def rename (old new : Path) : Disk :=
  match d.names old with
  | none => d
  | some file =>
      if d.names new = some file then d
      else { d with names := Function.update (Function.update d.names new (some file)) old none }

/-- `m` of the `n` bytes at `pos`, if a read may answer so: some, unless there are none. -/
def read (t : Target) (pos n m : Nat) : Option (List UInt8) :=
  if t.reads ∧ m ≤ n ∧ m < 2 ^ 63 ∧ m ≤ (slice (d.content t.file) pos n).length ∧
      (m = 0 → slice (d.content t.file) pos n = []) then
    some (slice (d.content t.file) pos m)
  else none

/-- Where a write of a file goes that is asked to go to `pos`. -/
def place (t : Target) (pos : Nat) : Nat :=
  if t.appends then (d.content t.file).length else pos

/-- The first `m` of the bytes are written, if a write may answer so. -/
def write (t : Target) (pos : Nat) (bytes : List UInt8) (m : Nat) : Option Disk :=
  if t.writes ∧ m ≤ bytes.length ∧ m < 2 ^ 63 ∧ (m = 0 → bytes = []) then
    some (d.put t.file (splice (d.content t.file) (d.place t pos) (bytes.take m)))
  else none

section Cases

variable {d d' : Disk} {t : Target} {pos n m : Nat} {bytes : List UInt8}

/-- What a write does. -/
theorem write_cases (h : d.write t pos bytes m = some d') :
    m ≤ bytes.length ∧ m < 2 ^ 63 ∧
      d'.content t.file = splice (d.content t.file) (d.place t pos) (bytes.take m) := by
  unfold write at h
  split at h
  · rename_i hok
    obtain rfl := Option.some.inj h
    refine ⟨hok.2.1, hok.2.2.1, ?_⟩
    simp [content, put]
  · cases h

/-- What a read answers with. -/
theorem read_cases (h : d.read t pos n m = some bytes) :
    m ≤ n ∧ m ≤ (slice (d.content t.file) pos n).length ∧
      (m = 0 → slice (d.content t.file) pos n = []) ∧ bytes = slice (d.content t.file) pos m := by
  unfold read at h
  split at h
  · rename_i hok
    exact ⟨hok.2.1, hok.2.2.2.1, hok.2.2.2.2, (Option.some.inj h).symm⟩
  · cases h

end Cases

end Disk

/-! ## Section 3: The kernel -/

/-- An open file description. -/
structure Opened where
  target : Target
  pos    : Nat
  deriving DecidableEq, Repr

/-- A disk and the open descriptors. -/
structure Kernel where
  disk   : Disk
  opened : Int → Option Opened

/-- What a system call answers: an error, that it has done its part, or what it has
    opened. -/
inductive Answer where
  | fails (errno : Int)
  | moves (n : Nat)
  | opens (fd : Int) (file : Nat)
  deriving DecidableEq, Repr

/-- Where `lseek` goes. -/
inductive Whence where
  | set (offset : Int)
  | cur
  | last
  deriving DecidableEq, Repr

namespace Kernel

variable (k : Kernel)

/-- The descriptor is set to `o`. -/
def setOpened (fd : Int) (o : Option Opened) : Kernel :=
  { k with opened := Function.update k.opened fd o }

@[simp] theorem setOpened_disk (fd : Int) (o : Option Opened) : (k.setOpened fd o).disk = k.disk :=
  rfl

@[simp] theorem setOpened_self (fd : Int) (o : Option Opened) : (k.setOpened fd o).opened fd = o :=
  Function.update_self ..

theorem setOpened_of_ne {fd fd' : Int} (h : fd' ≠ fd) (o : Option Opened) :
    (k.setOpened fd o).opened fd' = k.opened fd' := Function.update_of_ne h ..

/-- `open(path, flags)` answers with this descriptor. -/
def sysOpen (path : Path) (flags : Nat) (fd : Int) (file : Nat) : Option Kernel :=
  if 0 ≤ fd ∧ k.opened fd = none then
    (k.disk.opening path flags file).map fun disk =>
      { k with disk := disk }.setOpened fd (some ⟨Target.of file flags, 0⟩)
  else none

/-- `close(fd)` -/
def sysClose (fd : Int) : Kernel := k.setOpened fd none

/-- Where `lseek` goes from here. -/
def goal (o : Opened) : Whence → Int
  | .set offset => offset
  | .cur => o.pos
  | .last => (k.disk.content o.target.file).length

/-- `lseek(fd, whence)` answers with this position. -/
def sysLseek (fd : Int) (whence : Whence) (pos : Nat) : Option Kernel :=
  match k.opened fd with
  | none => none
  | some o =>
      if k.goal o whence = pos ∧ pos < 2 ^ 63 then
        some (k.setOpened fd (some { o with pos := pos }))
      else none

/-- `read(fd, buf, n)` reads `m` bytes. -/
def sysRead (fd : Int) (n m : Nat) : Option (List UInt8 × Kernel) :=
  match k.opened fd with
  | none => none
  | some o =>
      (k.disk.read o.target o.pos n m).map fun bytes =>
        (bytes, k.setOpened fd (some { o with pos := o.pos + m }))

/-- `write(fd, bytes)` writes `m` bytes. -/
def sysWrite (fd : Int) (bytes : List UInt8) (m : Nat) : Option Kernel :=
  match k.opened fd with
  | none => none
  | some o =>
      (k.disk.write o.target o.pos bytes m).map fun disk =>
        { k with disk := disk }.setOpened fd
          (some { o with pos := k.disk.place o.target o.pos + m })

section Cases

variable {k : Kernel} {k' : Kernel} {fd : Int} {n m pos : Nat} {bytes : List UInt8}

/-- What `lseek` does when it does not fail. -/
theorem sysLseek_cases {whence : Whence} (h : k.sysLseek fd whence pos = some k') :
    ∃ o, k.opened fd = some o ∧ k.goal o whence = pos ∧ pos < 2 ^ 63 ∧
      k' = k.setOpened fd (some { o with pos := pos }) := by
  unfold sysLseek at h
  cases ho : k.opened fd with
  | none => simp [ho] at h
  | some o =>
    rw [ho] at h
    dsimp only at h
    split at h
    · rename_i hgoal
      exact ⟨o, rfl, hgoal.1, hgoal.2, (Option.some.inj h).symm⟩
    · cases h

/-- What `read` does when it does not fail. -/
theorem sysRead_cases {r : List UInt8 × Kernel} (h : k.sysRead fd n m = some r) :
    ∃ o, k.opened fd = some o ∧ k.disk.read o.target o.pos n m = some r.1 ∧
      r.2 = k.setOpened fd (some { o with pos := o.pos + m }) := by
  unfold sysRead at h
  cases ho : k.opened fd with
  | none => simp [ho] at h
  | some o =>
    rw [ho] at h
    obtain ⟨bytes, hread, rfl⟩ := Option.map_eq_some_iff.mp h
    exact ⟨o, rfl, hread, rfl⟩

/-- What `write` does when it does not fail. -/
theorem sysWrite_cases (h : k.sysWrite fd bytes m = some k') :
    ∃ o disk, k.opened fd = some o ∧ k.disk.write o.target o.pos bytes m = some disk ∧
      k' = { k with disk := disk }.setOpened fd
        (some { o with pos := k.disk.place o.target o.pos + m }) := by
  unfold sysWrite at h
  cases ho : k.opened fd with
  | none => simp [ho] at h
  | some o =>
    rw [ho] at h
    obtain ⟨disk, hwrite, rfl⟩ := Option.map_eq_some_iff.mp h
    exact ⟨o, disk, rfl, hwrite, rfl⟩

/-- What `open` does when it does not fail. -/
theorem sysOpen_cases {path : Path} {flags file : Nat}
    (h : k.sysOpen path flags fd file = some k') :
    0 ≤ fd ∧ k.opened fd = none ∧ ∃ disk, k.disk.opening path flags file = some disk ∧
      k' = { k with disk := disk }.setOpened fd (some ⟨Target.of file flags, 0⟩) := by
  unfold sysOpen at h
  split at h
  · rename_i hfree
    obtain ⟨disk, hopening, rfl⟩ := Option.map_eq_some_iff.mp h
    exact ⟨hfree.1, hfree.2, disk, hopening, rfl⟩
  · cases h

end Cases

end Kernel

end Spr.Files
