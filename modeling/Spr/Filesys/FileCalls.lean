import Spr.Filesys.FileWrite
import Spr.Framework.Files

/-! # Calls on open files

    `spr_file_open`, `spr_file_read`, `spr_file_write`, `spr_file_size` and
    `spr_file_close` of `src/lib/spr_filesys.c` on POSIX, one system call after the
    other.  Calls on different files may be under way at the same time, and the system
    calls of one come between those of another.

    * `PosixSprFile`, `Frame`: what is open, and how far a call on it has got.
    * `sprFileReadStep` and the others: what a system call of a call leads to.
    * `Process`, `Process.step`: the files of a process and the kernel under it.
    * `Process.exec`: the events that are allowed. -/

namespace Spr.Filesys

open Spr.Files

/-! ## Section 1: The functions -/

/-- `spr_file_t` -/
structure PosixSprFile where
  fd     : Int
  name   : Option Path
  offset : Int

/-- `spr_memzero(file, sizeof(spr_file_t))` -/
def PosixSprFile.zero : PosixSprFile := ⟨0, none, 0⟩

/-- A call on a `spr_file_t`; `mode` and `create` are flags of `open`. -/
inductive FileCall where
  | openFile (path : Path) (mode create : Nat)
  | readFile (size : Nat) (offset : Int)
  | writeFile (buf : List UInt8) (offset : Int)
  | fileSize
  | closeFile
  deriving DecidableEq

/-- How far a call has got: which system call comes next, and what its variables hold. -/
inductive Frame where
  | entered
  | reading
  | writing (written : Int) (size : Nat)
  | atEnd (off : Int)
  | restoring (off : Int) (size : Nat)
  deriving DecidableEq

/-- After a system call: another one comes, or the call returns a value, and the bytes in
    its buffer. -/
inductive Next where
  | more (frame : Frame)
  | ret (value : Int) (bytes : List UInt8)

/-- What a system call of a call leads to. -/
abbrev CallStep : Type := Option (Kernel × PosixSprFile × Next)

section Functions

variable (k : Kernel) (file : PosixSprFile)

/-- `spr_file_open(file, path, mode, create, access)` -/
def sprFileOpenStep (path : Path) (mode create : Nat) : Frame → Answer → CallStep
  | .entered, .fails errno => some (k, .zero, .ret errno [])
  | .entered, .opens fd number =>
      (k.sysOpen path (mode ||| create) fd number).map fun k =>
        (k, ⟨fd, some path, 0⟩, .ret 0 [])
  | _, _ => none

/-- `spr_file_read(file, buf, size, offset)` -/
def sprFileReadStep (size : Nat) (offset : Int) : Frame → Answer → CallStep
  | .entered, .fails _ => some (k, file, .ret (-1) [])
  | .entered, .moves pos =>
      (k.sysLseek file.fd (.set offset) pos).map fun k => (k, file, .more .reading)
  | .reading, .fails _ => some (k, file, .ret (-1) [])
  | .reading, .moves n =>
      (k.sysRead file.fd size n).map fun (bytes, k) =>
        (k, { file with offset := toSsize (file.offset + n) }, .ret n bytes)
  | _, _ => none

/-- `spr_file_write(file, buf, size, offset)`, where `size` is the length of `buf` -/
def sprFileWriteStep (buf : List UInt8) (offset : Int) : Frame → Answer → CallStep
  | .entered, .fails _ => some (k, file, .ret (-1) [])
  | .entered, .moves pos =>
      (k.sysLseek file.fd (.set offset) pos).map fun k =>
        (k, file, .more (.writing 0 buf.length))
  | .writing _ _, .fails _ => some (k, file, .ret (-1) [])
  | .writing written size, .moves n =>
      (k.sysWrite file.fd ((buf.drop written.toNat).take size) n).map fun k =>
        let file := { file with offset := toSsize (file.offset + n) }
        let written := toSsize (written + n)
        if n = size then (k, file, .ret written [])
        -- a short write: the next turn of the loop
        else (k, file, .more (.writing written (toSize (size - n))))
  | _, _ => none

/-- `spr_file_size(file)` -/
def sprFileSizeStep : Frame → Answer → CallStep
  | .entered, .moves off =>
      -- where the position was, to come back to it
      (k.sysLseek file.fd .cur off).map fun k => (k, file, .more (.atEnd off))
  | .atEnd off, .moves size =>
      (k.sysLseek file.fd .last size).map fun k => (k, file, .more (.restoring off size))
  | .restoring off size, .moves pos =>
      (k.sysLseek file.fd (.set off) pos).map fun k => (k, file, .ret size [])
  | .entered, .fails _ => some (k, file, .ret (-1) [])
  | .atEnd _, .fails _ => some (k, file, .ret (-1) [])
  | .restoring _ _, .fails _ => some (k, file, .ret (-1) [])
  | _, _ => none

/-- `spr_file_close(file)`, which returns nothing and does not look at what `close`
    answers -/
def sprFileCloseStep : Frame → Answer → CallStep
  | .entered, _ => some (k.sysClose file.fd, ⟨-1, none, 0⟩, .ret 0 [])
  | _, _ => none

/-- A system call of a call. -/
def FileCall.step : FileCall → Frame → Answer → CallStep
  | .openFile path mode create => sprFileOpenStep k path mode create
  | .readFile size offset => sprFileReadStep k file size offset
  | .writeFile buf offset => sprFileWriteStep k file buf offset
  | .fileSize => sprFileSizeStep k file
  | .closeFile => sprFileCloseStep k file

end Functions

/-! ## Section 2: Processes -/

/-- A process and the kernel under it.  The files are numbered, and at most one call is
    under way on each. -/
structure Process where
  kernel : Kernel
  files  : Nat → PosixSprFile
  /-- The files whose last `spr_file_open` has succeeded. -/
  ready  : Nat → Bool
  calls  : Nat → Option (FileCall × Frame)
  /-- What the calls have returned. -/
  done   : List (Nat × FileCall × Int × List UInt8)

/-- What happens in a process. -/
inductive FileEvent where
  | call (h : Nat) (c : FileCall)
  | system (h : Nat) (answer : Answer)
  | delete (path : Path)
  | rename (old new : Path)
  deriving DecidableEq

/-- What a call opens its file for. -/
def FileCall.Opens : FileCall → Prop
  | .openFile _ _ _ => True
  | _ => False

instance (c : FileCall) : Decidable c.Opens := by
  cases c <;> unfold FileCall.Opens <;> infer_instance

/-- After a system call of the call `c` on the file `h`. -/
def Process.goOn (s : Process) (h : Nat) (c : FileCall) : Kernel × PosixSprFile × Next → Process
  | (k, file, .more frame) =>
      { s with
        kernel := k
        files  := Function.update s.files h file
        calls  := Function.update s.calls h (some (c, frame)) }
  | (k, file, .ret value bytes) =>
      { s with
        kernel := k
        files  := Function.update s.files h file
        ready  := if c.Opens then Function.update s.ready h (value = 0) else s.ready
        calls  := Function.update s.calls h none
        done   := s.done ++ [(h, c, value, bytes)] }

/-- One event. -/
def Process.step (s : Process) : FileEvent → Option Process
  | .call h c =>
      -- one call at a time on each file
      if s.calls h = none then
        some { s with calls := Function.update s.calls h (some (c, .entered)) }
      else none
  | .system h answer =>
      match s.calls h with
      | none => none
      | some (c, frame) => (c.step s.kernel (s.files h) frame answer).map (s.goOn h c)
  | .delete path => some { s with kernel := { s.kernel with disk := s.kernel.disk.unlink path } }
  | .rename old new =>
      some { s with kernel := { s.kernel with disk := s.kernel.disk.rename old new } }

/-- A file is used only after it has been opened, a buffer is an object in memory, and
    what fails says why. -/
def Process.Allowed (s : Process) : FileEvent → Prop
  | .call h (.openFile _ _ _) => s.calls h = none
  | .call h (.writeFile buf _) => s.ready h ∧ buf.length < 2 ^ 63
  | .call h _ => s.ready h
  | .system _ (.fails errno) => errno ≠ 0
  | _ => True

instance (s : Process) (e : FileEvent) : Decidable (s.Allowed e) := by
  unfold Process.Allowed
  split <;> infer_instance

/-- One event that is allowed. -/
def Process.exec (s : Process) (e : FileEvent) : Option Process :=
  if s.Allowed e then s.step e else none

theorem exec_allowed {s s' : Process} {e : FileEvent} (h : s.exec e = some s') :
    s.Allowed e ∧ s.step e = some s' := by
  unfold Process.exec at h
  split at h
  · exact ⟨‹_›, h⟩
  · cases h

/-- A process over a kernel, before it has opened a file. -/
def Process.start (k : Kernel) (files : Nat → PosixSprFile) : Process :=
  ⟨k, files, fun _ => false, fun _ => none, []⟩

/-! ## Section 3: The loop of `spr_file_write` -/

/-- What a system call answers, as the C function returns it. -/
def answered : Answer → Int
  | .fails _ => -1
  | .moves n => n
  | .opens fd _ => fd

/-- A call of `spr_file_write` on its own, from a frame on: the file and what is returned. -/
def writeAlone (buf : List UInt8) (offset : Int) :
    Kernel → PosixSprFile → Frame → List Answer → Option (PosixSprFile × Int)
  | _, _, _, [] => none
  | k, file, frame, answer :: answers =>
      match sprFileWriteStep k file buf offset frame answer with
      | none => none
      | some (_, file, .ret value _) => if answers = [] then some (file, value) else none
      | some (k, file, .more frame) => writeAlone buf offset k file frame answers

/-- The system that has `answers` still to give. -/
def answering : Writer (List Answer) := fun answers _ =>
  ((answers.head?.map answered).getD 0, answers.tail)

/-- **The system calls of a write are those of `writeLoop`**, by induction on their answers. -/
theorem writeLoop_of_alone {buf : List UInt8} {offset : Int} {addr : Nat}
    {file' : PosixSprFile} {value : Int} : ∀ {answers : List Answer} {k : Kernel}
    {file : PosixSprFile} {written : Int} {size fuel : Nat},
    writeAlone buf offset k file (.writing written size) answers = some (file', value) →
    answers.length ≤ fuel →
    ∃ calls, writeLoop answering addr fuel answers ⟨file.fd, file.offset⟩ written size
      = some ⟨value, ⟨file'.fd, file'.offset⟩, [], calls⟩ := by
  intro answers
  induction answers with
  | nil => intro k file written size fuel h; cases h
  | cons answer answers ih =>
    intro k file written size fuel halone hfuel
    obtain ⟨fuel, rfl⟩ : ∃ f, fuel = f + 1 := ⟨fuel - 1, by simp at hfuel; omega⟩
    have hfirst : ∀ call, answering (answer :: answers) call = (answered answer, answers) :=
      fun _ => rfl
    rw [writeAlone] at halone
    rw [writeLoop]
    simp only [hfirst]
    cases answer with
    | fails errno =>
      simp only [sprFileWriteStep] at halone
      split at halone
      · obtain rfl : answers = [] := ‹_›
        simp only [Option.some.injEq, Prod.mk.injEq] at halone
        obtain ⟨rfl, rfl⟩ := halone
        rw [if_pos (show answered (.fails errno) = -1 from rfl)]
        exact ⟨_, rfl⟩
      · cases halone
    | opens fd number => simp [sprFileWriteStep] at halone
    | moves n =>
      have hvalue : answered (.moves n) = n := rfl
      rw [hvalue, if_neg (by omega)]
      simp only [sprFileWriteStep] at halone
      cases hsys : k.sysWrite file.fd ((buf.drop written.toNat).take size) n with
      | none => simp [hsys] at halone
      | some k₁ =>
        obtain ⟨o, disk, -, hdisk, -⟩ := Kernel.sysWrite_cases hsys
        have hn : toSize (n : Int) = n :=
          toSize_of_lt (by have := (Disk.write_cases hdisk).2.1; omega)
        rw [hn]
        simp only [hsys, Option.map_some] at halone
        by_cases hall : n = size
        · rw [if_pos hall] at halone ⊢
          simp only at halone
          split at halone
          · obtain rfl : answers = [] := ‹_›
            simp only [Option.some.injEq, Prod.mk.injEq] at halone
            obtain ⟨rfl, rfl⟩ := halone
            exact ⟨_, rfl⟩
          · cases halone
        · rw [if_neg hall] at halone ⊢
          simp only at halone
          obtain ⟨calls, hloop⟩ := ih halone (by simp at hfuel; omega)
          rw [hloop]
          exact ⟨_, rfl⟩

end Spr.Filesys
