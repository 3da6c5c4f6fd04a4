import Spr.Filesys.FileCalls
import Spr.Framework.Simulation

/-! # Files without positions

    The calls of `FileCalls.lean` move the position of a descriptor, and read and write
    where it is.  Seen from outside there are no positions.

    * `FileStore`: a disk and the files that are open, without descriptors.
    * `FileCall.act`: a step of a call there: a read or a write names its place.
    * `Process.store`: what a process is, seen from outside.
    * `Process.Sound`: what holds in every state of a run.
    * `calls_positional`: every run of a process is a run of its store. -/

namespace Spr.Filesys

open Spr.Files Spr.Simulations

/-! ## Section 1: The store -/

/-- How far a call has got: how many bytes it has moved, or which size it has found. -/
inductive Task where
  | moved (n : Nat)
  | sized (n : Nat)
  deriving DecidableEq

/-- After a step of a call. -/
inductive After where
  | more (task : Task)
  | ret (value : Int) (bytes : List UInt8)

/-- A disk, what the files are open for, and the calls under way. -/
structure FileStore where
  disk    : Disk
  targets : Nat → Option Target
  calls   : Nat → Option (FileCall × Task)
  done    : List (Nat × FileCall × Int × List UInt8)

/-- A step of a call on what is open as `t`. -/
def FileCall.act (d : Disk) (t : Option Target) :
    FileCall → Task → Answer → Option (Disk × Option Target × After)
  | .openFile _ _ _, _, .fails errno => some (d, none, .ret errno [])
  | .openFile path mode create, .moved 0, .opens _ number =>
      (d.opening path (mode ||| create) number).map fun d =>
        (d, some (.of number (mode ||| create)), .ret 0 [])
  | .closeFile, _, _ => some (d, none, .ret 0 [])
  | _, _, .fails _ => some (d, t, .ret (-1) [])
  | .readFile size offset, .moved 0, .moves n =>
      if 0 ≤ offset then
        t.bind fun t' => (d.read t' offset.toNat size n).map fun bytes => (d, t, .ret n bytes)
      else none
  | .writeFile buf offset, .moved m, .moves n =>
      if 0 ≤ offset then
        t.bind fun t' => (d.write t' (offset.toNat + m) (buf.drop m) n).map fun d =>
          (d, t, if m + n = buf.length then .ret buf.length [] else .more (.moved (m + n)))
      else none
  | .fileSize, .moved 0, .moves n =>
      t.bind fun t' =>
        if (d.content t'.file).length = n then some (d, t, .more (.sized n)) else none
  | .fileSize, .sized n, .moves _ => some (d, t, .ret n [])
  | _, _, _ => none

/-- After a step of the call `c` on the file `h`. -/
def FileStore.goOn (st : FileStore) (h : Nat) (c : FileCall) :
    Disk × Option Target × After → FileStore
  | (d, t, .more task) =>
      { st with
        disk    := d
        targets := Function.update st.targets h t
        calls   := Function.update st.calls h (some (c, task)) }
  | (d, t, .ret value bytes) =>
      { st with
        disk    := d
        targets := Function.update st.targets h t
        calls   := Function.update st.calls h none
        done    := st.done ++ [(h, c, value, bytes)] }

/-- One event. -/
def FileStore.step (st : FileStore) : FileEvent → Option FileStore
  | .call h c =>
      if st.calls h = none then
        some { st with calls := Function.update st.calls h (some (c, .moved 0)) }
      else none
  | .system h answer =>
      match st.calls h with
      | none => none
      | some (c, task) => (c.act st.disk (st.targets h) task answer).map (st.goOn h c)
  | .delete path => some { st with disk := st.disk.unlink path }
  | .rename old new => some { st with disk := st.disk.rename old new }

/-! ## Section 2: What a process is -/

def Frame.task : Frame → Task
  | .entered => .moved 0
  | .reading => .moved 0
  | .writing written _ => .moved written.toNat
  | .atEnd _ => .moved 0
  | .restoring _ size => .sized size

def Next.after : Next → After
  | .more frame => .more frame.task
  | .ret value bytes => .ret value bytes

/-- What is open at a descriptor. -/
def targetAt (k : Kernel) (fd : Int) : Option Target := (k.opened fd).map Opened.target

/-- What a file of the process is open for. -/
def Process.target (s : Process) (h : Nat) : Option Target :=
  if s.ready h then targetAt s.kernel (s.files h).fd else none

/-- **A process, seen from outside**: there are no descriptors and no positions. -/
def Process.store (s : Process) : FileStore where
  disk    := s.kernel.disk
  targets := s.target
  calls   := fun h => (s.calls h).map fun c => (c.1, c.2.task)
  done    := s.done

/-- What the variables of a call hold, and where its descriptor is. -/
def FrameOk (o : Option Opened) : FileCall → Frame → Prop
  | .readFile _ offset, .reading => ∀ o' ∈ o, (o'.pos : Int) = offset
  | .writeFile buf _, .entered => buf.length < 2 ^ 63
  | .writeFile buf offset, .writing written size =>
      buf.length < 2 ^ 63 ∧ 0 ≤ offset ∧ ∃ m : Nat, written = m ∧ m + size = buf.length ∧
        ∀ o' ∈ o, o'.target.appends = false → (o'.pos : Int) = offset + m
  | _, _ => True

/-- **What holds in every state of a run**: files that are open have descriptors of their
    own, and a call that is under way is where it thinks it is. -/
structure Process.Sound (s : Process) : Prop where
  nonneg : ∀ fd o, s.kernel.opened fd = some o → 0 ≤ fd
  own    : ∀ h, s.ready h → (s.files h).fd = -1 ∨ s.kernel.opened (s.files h).fd ≠ none
  apart  : ∀ h h', s.ready h → s.ready h' → (s.files h).fd = (s.files h').fd →
    (s.files h).fd = -1 ∨ h = h'
  called : ∀ h c frame, s.calls h = some (c, frame) →
    (¬ c.Opens → s.ready h) ∧ FrameOk (s.kernel.opened (s.files h).fd) c frame

/-! ## Section 3: One system call -/

section Acts

variable {k k' : Kernel} {file file' : PosixSprFile} {c : FileCall} {frame : Frame}
  {answer : Answer} {next : Next} {o : Opened}

/-- What a system call of a call does that opens nothing: it leaves the other descriptors
    alone, the call stays where it thinks it is, and seen from outside it is a step or
    nothing. -/
structure Acts (k : Kernel) (file : PosixSprFile) (c : FileCall) (frame : Frame) (answer : Answer)
    (k' : Kernel) (file' : PosixSprFile) (next : Next) : Prop where
  others  : ∀ fd, fd ≠ file.fd → k'.opened fd = k.opened fd
  own     : (file'.fd = file.fd ∧ (k.opened file.fd ≠ none → k'.opened file.fd ≠ none)) ∨
    (file'.fd = -1 ∧ k'.opened file.fd = none)
  closed  : k.opened file.fd = none → k'.opened file.fd = none
  stays   : ∀ frame', next = .more frame' → FrameOk (k'.opened file'.fd) c frame'
  refines : (k'.disk = k.disk ∧ targetAt k' file'.fd = targetAt k file.fd ∧
      ∃ frame', next = .more frame' ∧ frame'.task = frame.task) ∨
    c.act k.disk (targetAt k file.fd) frame.task answer
      = some (k'.disk, targetAt k' file'.fd, next.after)

/-- A call that fails. -/
theorem acts_fails {errno value : Int} {bytes : List UInt8}
    (hact : c.act k.disk (targetAt k file.fd) frame.task (.fails errno)
      = some (k.disk, targetAt k file.fd, .ret value bytes)) :
    Acts k file c frame (.fails errno) k file (.ret value bytes) where
  others _ _ := rfl
  own := Or.inl ⟨rfl, id⟩
  closed := id
  stays _ h := by cases h
  refines := Or.inr hact

/-- A system call that moves the position of the descriptor. -/
theorem acts_moves {d : Disk} {n pos : Nat} (ho : k.opened file.fd = some o)
    (hfd : file'.fd = file.fd)
    (hframe : ∀ frame', next = .more frame' → FrameOk (some { o with pos := pos }) c frame')
    (hrefines : (d = k.disk ∧ ∃ frame', next = .more frame' ∧ frame'.task = frame.task) ∨
      c.act k.disk (some o.target) frame.task (.moves n) = some (d, some o.target, next.after)) :
    Acts k file c frame (.moves n)
      ({ k with disk := d }.setOpened file.fd (some { o with pos := pos })) file' next := by
  have htarget : targetAt k file.fd = some o.target := by rw [targetAt, ho]; rfl
  have htarget' : targetAt ({ k with disk := d }.setOpened file.fd (some { o with pos := pos }))
      file'.fd = some o.target := by
    rw [targetAt, hfd, Kernel.setOpened_self]
    rfl
  constructor
  · intro fd hne
    exact Kernel.setOpened_of_ne _ hne _
  · refine Or.inl ⟨hfd, fun _ => ?_⟩
    rw [Kernel.setOpened_self]
    exact Option.some_ne_none _
  · intro hnone
    rw [ho] at hnone
    cases hnone
  · intro frame' h
    rw [hfd, Kernel.setOpened_self]
    exact hframe frame' h
  · rw [htarget, htarget', Kernel.setOpened_disk]
    rcases hrefines with ⟨hdisk, hnext⟩ | hact
    · exact Or.inl ⟨hdisk, rfl, hnext⟩
    · exact Or.inr hact

theorem read_acts {size : Nat} {offset : Int}
    (hok : FrameOk (k.opened file.fd) (.readFile size offset) frame)
    (hstep : sprFileReadStep k file size offset frame answer = some (k', file', next)) :
    Acts k file (.readFile size offset) frame answer k' file' next := by
  unfold sprFileReadStep at hstep
  split at hstep
  · -- `lseek` fails
    cases hstep
    exact acts_fails rfl
  · -- the descriptor is set to the offset
    obtain ⟨k₁, hseek, heq⟩ := Option.map_eq_some_iff.mp hstep
    simp only [Prod.mk.injEq] at heq
    obtain ⟨rfl, rfl, rfl⟩ := heq
    obtain ⟨o, ho, hgoal, -, rfl⟩ := Kernel.sysLseek_cases hseek
    refine acts_moves (d := k.disk) ho rfl ?_ (Or.inl ⟨rfl, _, rfl, rfl⟩)
    intro frame' hmore
    injection hmore with hmore
    subst hmore
    rintro o' ⟨⟩
    exact hgoal.symm
  · -- `read` fails
    cases hstep
    exact acts_fails rfl
  · -- the bytes are read where the descriptor is
    obtain ⟨⟨bytes, k₁⟩, hread, heq⟩ := Option.map_eq_some_iff.mp hstep
    simp only [Prod.mk.injEq] at heq
    obtain ⟨rfl, rfl, rfl⟩ := heq
    obtain ⟨o, ho, hread, rfl⟩ := Kernel.sysRead_cases hread
    have hpos : (o.pos : Int) = offset := hok o ho
    refine acts_moves (d := k.disk) ho rfl (fun _ h => by cases h) (Or.inr ?_)
    simp only [FileCall.act, Frame.task]
    rw [if_pos (by omega), Option.bind_some, show offset.toNat = o.pos by omega, hread]
    rfl
  · cases hstep

theorem write_acts {buf : List UInt8} {offset : Int}
    (hok : FrameOk (k.opened file.fd) (.writeFile buf offset) frame)
    (hstep : sprFileWriteStep k file buf offset frame answer = some (k', file', next)) :
    Acts k file (.writeFile buf offset) frame answer k' file' next := by
  unfold sprFileWriteStep at hstep
  split at hstep
  · cases hstep
    exact acts_fails rfl
  · obtain ⟨k₁, hseek, heq⟩ := Option.map_eq_some_iff.mp hstep
    simp only [Prod.mk.injEq] at heq
    obtain ⟨rfl, rfl, rfl⟩ := heq
    obtain ⟨o, ho, hgoal, -, rfl⟩ := Kernel.sysLseek_cases hseek
    have hgoal : offset = _ := hgoal
    refine acts_moves (d := k.disk) ho rfl ?_ (Or.inl ⟨rfl, _, rfl, rfl⟩)
    intro frame' hmore
    injection hmore with hmore
    subst hmore
    refine ⟨hok, by omega, 0, rfl, Nat.zero_add _, ?_⟩
    rintro o' ⟨⟩ -
    simp [hgoal]
  · cases hstep
    exact acts_fails rfl
  · -- a part of the buffer is written where the descriptor is, or at the end
    rename_i written size n
    obtain ⟨k₁, hwrite, heq⟩ := Option.map_eq_some_iff.mp hstep
    obtain ⟨hlen, hoff, m, rfl, hsum, hpos⟩ := hok
    obtain ⟨o, disk, ho, hdisk, rfl⟩ := Kernel.sysWrite_cases hwrite
    have htail : (buf.drop m).take size = buf.drop m := by
      rw [List.take_of_length_le]
      rw [List.length_drop]
      omega
    rw [Int.toNat_natCast, htail] at hdisk
    have hle : n ≤ size := by
      have hn := (Disk.write_cases hdisk).1
      rw [List.length_drop] at hn
      omega
    have hwritten : toSsize ((m : Int) + n) = ((m + n : Nat) : Int) := by
      rw [toSsize_of_le (by omega) (by omega)]
      rfl
    -- where the bytes go does not depend on the position of a file that appends
    have hplace : k.disk.write o.target o.pos (buf.drop m) n
        = k.disk.write o.target (offset.toNat + m) (buf.drop m) n := by
      by_cases happ : o.target.appends = true
      · simp only [Disk.write, Disk.place, if_pos happ]
      · have h := hpos o ho (by simpa using happ)
        rw [show o.pos = offset.toNat + m by omega]
    have hact : FileCall.act k.disk (some o.target) (.writeFile buf offset) (.moved m) (.moves n)
        = some (disk, some o.target,
            if m + n = buf.length then .ret buf.length [] else .more (.moved (m + n))) := by
      simp only [FileCall.act]
      rw [if_pos hoff, Option.bind_some, ← hplace, hdisk]
      rfl
    rw [hwritten] at heq
    by_cases hall : n = size
    · rw [if_pos hall] at heq
      simp only [Prod.mk.injEq] at heq
      obtain ⟨rfl, rfl, rfl⟩ := heq
      refine acts_moves ho rfl (fun _ h => by cases h) (Or.inr ?_)
      rw [if_pos (by omega)] at hact
      rw [show m + n = buf.length by omega]
      exact hact
    · rw [if_neg hall] at heq
      simp only [Prod.mk.injEq] at heq
      obtain ⟨rfl, rfl, rfl⟩ := heq
      refine acts_moves ho rfl ?_ (Or.inr ?_)
      · intro frame' hmore
        injection hmore with hmore
        subst hmore
        have hleft : toSize ((size : Int) - n) = size - n := by
          rw [← Int.ofNat_sub hle]
          exact toSize_of_lt (by omega)
        refine ⟨hlen, hoff, m + n, rfl, by omega, ?_⟩
        rintro o' ⟨⟩ happ
        have h := hpos o ho happ
        have happ : o.target.appends = false := happ
        have hplace : k.disk.place o.target o.pos = o.pos := if_neg (by simp [happ])
        show ((k.disk.place o.target o.pos + n : Nat) : Int) = offset + (m + n : Nat)
        omega
      · rw [if_neg (by omega)] at hact
        exact hact
  · cases hstep

theorem size_acts (hstep : sprFileSizeStep k file frame answer = some (k', file', next)) :
    Acts k file .fileSize frame answer k' file' next := by
  unfold sprFileSizeStep at hstep
  split at hstep
  · obtain ⟨k₁, hseek, heq⟩ := Option.map_eq_some_iff.mp hstep
    simp only [Prod.mk.injEq] at heq
    obtain ⟨rfl, rfl, rfl⟩ := heq
    obtain ⟨o, ho, -, -, rfl⟩ := Kernel.sysLseek_cases hseek
    exact acts_moves (d := k.disk) ho rfl (fun _ _ => trivial) (Or.inl ⟨rfl, _, rfl, rfl⟩)
  · -- the size is found
    rename_i off size
    obtain ⟨k₁, hseek, heq⟩ := Option.map_eq_some_iff.mp hstep
    simp only [Prod.mk.injEq] at heq
    obtain ⟨rfl, rfl, rfl⟩ := heq
    obtain ⟨o, ho, hgoal, -, rfl⟩ := Kernel.sysLseek_cases hseek
    refine acts_moves (d := k.disk) ho rfl (fun _ _ => trivial) (Or.inr ?_)
    have hsize : (k.disk.content o.target.file).length = size := Int.ofNat.inj hgoal
    simp only [FileCall.act, Frame.task]
    rw [Option.bind_some, if_pos hsize]
    rfl
  · obtain ⟨k₁, hseek, heq⟩ := Option.map_eq_some_iff.mp hstep
    simp only [Prod.mk.injEq] at heq
    obtain ⟨rfl, rfl, rfl⟩ := heq
    obtain ⟨o, ho, -, -, rfl⟩ := Kernel.sysLseek_cases hseek
    exact acts_moves (d := k.disk) ho rfl (fun _ _ => trivial) (Or.inr rfl)
  · cases hstep
    exact acts_fails rfl
  · cases hstep
    exact acts_fails rfl
  · cases hstep
    exact acts_fails rfl
  · cases hstep

theorem close_acts (hneg : k.opened (-1) = none)
    (hstep : sprFileCloseStep k file frame answer = some (k', file', next)) :
    Acts k file .closeFile frame answer k' file' next := by
  unfold sprFileCloseStep at hstep
  split at hstep
  · simp only [Option.some.injEq, Prod.mk.injEq] at hstep
    obtain ⟨rfl, rfl, rfl⟩ := hstep
    have hnone : (k.sysClose file.fd).opened (-1) = none := by
      by_cases hfd : file.fd = -1
      · rw [hfd]
        exact Kernel.setOpened_self ..
      · exact (Kernel.setOpened_of_ne _ (Ne.symm hfd) _).trans hneg
    refine ⟨fun fd hne => Kernel.setOpened_of_ne _ hne _, Or.inr ⟨rfl, Kernel.setOpened_self ..⟩,
      fun _ => Kernel.setOpened_self .., fun _ h => (by cases h), Or.inr ?_⟩
    have htarget : targetAt (k.sysClose file.fd) (-1) = none := by rw [targetAt, hnone]; rfl
    show FileCall.act _ _ _ _ _ = some (_, targetAt (k.sysClose file.fd) (-1), _)
    rw [htarget]
    cases answer <;> rfl
  · cases hstep

/-- **A call that opens nothing.** -/
theorem step_acts (hc : ¬ c.Opens) (hneg : k.opened (-1) = none)
    (hok : FrameOk (k.opened file.fd) c frame)
    (hstep : c.step k file frame answer = some (k', file', next)) :
    Acts k file c frame answer k' file' next := by
  cases c with
  | openFile path mode create => exact absurd trivial hc
  | readFile size offset => exact read_acts hok hstep
  | writeFile buf offset => exact write_acts hok hstep
  | fileSize => exact size_acts hstep
  | closeFile => exact close_acts hneg hstep

end Acts

/-! ## Section 4: One event -/

section Events

variable {s s' : Process} {h : Nat} {c : FileCall} {frame : Frame} {answer : Answer}
  {k' : Kernel} {file' : PosixSprFile} {next : Next}

theorem Process.Sound.closed (hs : s.Sound) : s.kernel.opened (-1) = none := by
  rw [Option.eq_none_iff_forall_ne_some]
  intro o ho
  have hnonneg := hs.nonneg _ o ho
  omega

theorem frameOk_opens {o : Option Opened} (hc : c.Opens) (frame : Frame) : FrameOk o c frame := by
  cases c with
  | openFile path mode create => cases frame <;> trivial
  | _ => exact hc.elim

section GoOn

variable (s h c k' file' next)

@[simp] theorem goOn_kernel : (s.goOn h c (k', file', next)).kernel = k' := by cases next <;> rfl

@[simp] theorem goOn_files :
    (s.goOn h c (k', file', next)).files = Function.update s.files h file' := by
  cases next <;> rfl

theorem goOn_ready (hc : ¬ c.Opens) : (s.goOn h c (k', file', next)).ready = s.ready := by
  cases next with
  | more frame => rfl
  | ret value bytes => exact if_neg hc

theorem goOn_calls_of_ne {h' : Nat} (hh : h' ≠ h) :
    (s.goOn h c (k', file', next)).calls h' = s.calls h' := by
  cases next <;> exact Function.update_of_ne hh ..

end GoOn

/-- A call that is under way after the system call has gone on. -/
theorem goOn_calls_self {call : FileCall × Frame}
    (hcall : (s.goOn h c (k', file', next)).calls h = some call) :
    ∃ frame', next = .more frame' ∧ call = (c, frame') := by
  cases next with
  | more frame' =>
    refine ⟨frame', rfl, ?_⟩
    have hself : (s.goOn h c (k', file', .more frame')).calls h = some (c, frame') :=
      Function.update_self ..
    rw [hself] at hcall
    exact (Option.some.inj hcall).symm
  | ret value bytes =>
    have hself : (s.goOn h c (k', file', .ret value bytes)).calls h = none :=
      Function.update_self ..
    rw [hself] at hcall
    cases hcall

/-- What is seen from outside after a system call. -/
theorem store_goOn {t : Option Target}
    (hself : (s.goOn h c (k', file', next)).target h = t)
    (hother : ∀ h', h' ≠ h → (s.goOn h c (k', file', next)).target h' = s.target h') :
    (s.goOn h c (k', file', next)).store = s.store.goOn h c (k'.disk, t, next.after) := by
  have htargets : (s.goOn h c (k', file', next)).target = Function.update s.target h t := by
    funext h'
    by_cases hh : h' = h
    · rw [hh, hself, Function.update_self]
    · rw [hother h' hh, Function.update_of_ne hh]
  have hcalls : ∀ call : Option (FileCall × Frame),
      (fun h' => (Function.update s.calls h call h').map fun c => (c.1, c.2.task))
        = Function.update s.store.calls h (call.map fun c => (c.1, c.2.task)) := by
    intro call
    funext h'
    by_cases hh : h' = h
    · rw [hh, Function.update_self, Function.update_self]
    · rw [Function.update_of_ne hh, Function.update_of_ne hh]
      rfl
  cases next with
  | more frame =>
    simp only [Process.store, htargets, FileStore.goOn, Next.after]
    simp only [Process.goOn, hcalls]
    rfl
  | ret value bytes =>
    simp only [Process.store, htargets, FileStore.goOn, Next.after]
    simp only [Process.goOn, hcalls]
    rfl

/-- Seen from outside, the event is one event, or nothing. -/
def Refines (s s' : Process) (e : FileEvent) : Prop :=
  s'.store = s.store ∨ s.store.step e = some s'.store

/-- The descriptor of another file is left alone. -/
theorem Acts.keeps {fd : Int} (ha : Acts s.kernel (s.files h) c frame answer k' file' next)
    (hs : s.Sound) (hfd : fd ≠ (s.files h).fd ∨ fd = -1) : k'.opened fd = s.kernel.opened fd := by
  by_cases hne : fd = (s.files h).fd
  · obtain rfl := hfd.resolve_left (not_not.mpr hne)
    rw [hs.closed]
    rw [hne]
    exact ha.closed (hne ▸ hs.closed)
  · exact ha.others fd hne

/-- Two files that are open have different descriptors. -/
theorem Process.Sound.descriptors (hs : s.Sound) {h' : Nat} (hh : h' ≠ h) (hready : s.ready h)
    (hready' : s.ready h') : (s.files h').fd ≠ (s.files h).fd ∨ (s.files h').fd = -1 := by
  by_cases heq : (s.files h').fd = (s.files h).fd
  · exact Or.inr ((hs.apart h' h hready' hready heq).resolve_right hh)
  · exact Or.inl heq

theorem sound_acts (hs : s.Sound) (hcall : s.calls h = some (c, frame)) (hc : ¬ c.Opens)
    (ha : Acts s.kernel (s.files h) c frame answer k' file' next) :
    (s.goOn h c (k', file', next)).Sound := by
  have hready := (hs.called h c frame hcall).1 hc
  have hother : ∀ h', h' ≠ h → s.ready h' →
      k'.opened (s.files h').fd = s.kernel.opened (s.files h').fd :=
    fun h' hh hready' => ha.keeps hs (hs.descriptors hh hready hready')
  constructor
  · intro fd o ho
    rw [goOn_kernel] at ho
    by_cases hfd : fd = (s.files h).fd
    · subst hfd
      cases hk : s.kernel.opened (s.files h).fd with
      | none =>
        rw [ha.closed hk] at ho
        cases ho
      | some o' => exact hs.nonneg _ o' hk
    · exact hs.nonneg fd o ((ha.others fd hfd).symm.trans ho)
  · intro h' hready'
    rw [goOn_ready _ _ _ _ _ _ hc] at hready'
    rw [goOn_kernel, goOn_files]
    by_cases hh : h' = h
    · subst hh
      rw [Function.update_self]
      rcases ha.own with ⟨hfd, hopen⟩ | ⟨hfd, -⟩
      · rw [hfd]
        exact (hs.own h' hready').imp_right hopen
      · exact Or.inl hfd
    · rw [Function.update_of_ne hh, hother h' hh hready']
      exact hs.own h' hready'
  · intro h₁ h₂ hready₁ hready₂ heq
    rw [goOn_ready _ _ _ _ _ _ hc] at hready₁ hready₂
    rw [goOn_files] at heq ⊢
    -- the descriptor of the file is the old one, or it is closed
    have hfd : ∀ i, (Function.update s.files h file' i).fd = (s.files i).fd ∨
        (Function.update s.files h file' i).fd = -1 := by
      intro i
      by_cases hi : i = h
      · subst hi
        rw [Function.update_self]
        exact ha.own.imp (fun h => h.1) fun h => h.1
      · exact Or.inl (by rw [Function.update_of_ne hi])
    rcases hfd h₁ with h₁' | h₁'
    · rcases hfd h₂ with h₂' | h₂'
      · rw [h₁', h₂'] at heq
        rw [h₁']
        exact hs.apart h₁ h₂ hready₁ hready₂ heq
      · exact Or.inl (heq.trans h₂')
    · exact Or.inl h₁'
  · intro h' c' frame' hcall'
    rw [goOn_ready _ _ _ _ _ _ hc, goOn_kernel, goOn_files]
    by_cases hh : h' = h
    · subst hh
      obtain ⟨frame'', hmore, heq⟩ := goOn_calls_self hcall'
      injection heq with hc' hframe'
      subst hc' hframe'
      rw [Function.update_self]
      exact ⟨fun _ => hready, ha.stays _ hmore⟩
    · rw [goOn_calls_of_ne _ _ _ _ _ _ hh] at hcall'
      obtain ⟨hready', hok⟩ := hs.called h' c' frame' hcall'
      rw [Function.update_of_ne hh]
      refine ⟨hready', ?_⟩
      by_cases hc' : c'.Opens
      · exact frameOk_opens hc' frame'
      · rw [hother h' hh (hready' hc')]
        exact hok

/-- **A call that opens nothing**, seen from outside. -/
theorem refines_acts (hs : s.Sound) (hcall : s.calls h = some (c, frame)) (hc : ¬ c.Opens)
    (ha : Acts s.kernel (s.files h) c frame answer k' file' next) :
    Refines s (s.goOn h c (k', file', next)) (.system h answer) := by
  have hready := (hs.called h c frame hcall).1 hc
  have htarget : s.target h = targetAt s.kernel (s.files h).fd := if_pos hready
  have hself : (s.goOn h c (k', file', next)).target h = targetAt k' file'.fd := by
    rw [Process.target, goOn_ready _ _ _ _ _ _ hc, if_pos hready, goOn_kernel, goOn_files,
      Function.update_self]
  have hother : ∀ h', h' ≠ h → (s.goOn h c (k', file', next)).target h' = s.target h' := by
    intro h' hh
    rw [Process.target, Process.target, goOn_ready _ _ _ _ _ _ hc, goOn_kernel, goOn_files,
      Function.update_of_ne hh]
    by_cases hready' : s.ready h' = true
    · rw [if_pos hready', if_pos hready', targetAt, targetAt,
        ha.keeps hs (hs.descriptors hh hready hready')]
    · rw [if_neg hready', if_neg hready']
  have hstore : s.store.calls h = some (c, frame.task) := by
    show (s.calls h).map _ = _
    rw [hcall]
    rfl
  have hgoOn := store_goOn hself hother
  rcases ha.refines with ⟨hdisk, htargets, frame', hmore, htask⟩ | hact
  · -- nothing has happened that could be seen
    refine Or.inl ?_
    rw [hgoOn, hmore]
    simp only [Next.after, FileStore.goOn, hdisk, htargets, htask]
    rw [← htarget]
    have htargets' : Function.update s.store.targets h (s.target h) = s.store.targets :=
      Function.update_eq_self h s.store.targets
    have hcalls' : Function.update s.store.calls h (some (c, frame.task)) = s.store.calls := by
      rw [← hstore]
      exact Function.update_eq_self h s.store.calls
    rw [htargets', hcalls']
    rfl
  · refine Or.inr ?_
    have htargets : s.store.targets h = targetAt s.kernel (s.files h).fd := htarget
    simp only [FileStore.step, hstore, htargets]
    show (FileCall.act s.kernel.disk _ _ _ _).map _ = _
    rw [hact, Option.map_some, hgoOn]

/-! ### Opening a file -/

/-- **`spr_file_open`** fails and leaves nothing open, or opens a new descriptor. -/
theorem open_cases {k : Kernel} {path : Path} {mode create : Nat}
    (hstep : sprFileOpenStep k path mode create frame answer = some (k', file', next)) :
    frame = .entered ∧
      ((∃ errno, answer = .fails errno ∧ k' = k ∧ next = .ret errno []) ∨
        ∃ fd number disk, answer = .opens fd number ∧ 0 ≤ fd ∧ k.opened fd = none ∧
          k.disk.opening path (mode ||| create) number = some disk ∧
          k' = { k with disk := disk }.setOpened fd (some ⟨.of number (mode ||| create), 0⟩) ∧
          file'.fd = fd ∧ next = .ret 0 []) := by
  unfold sprFileOpenStep at hstep
  split at hstep
  · cases hstep
    exact ⟨rfl, Or.inl ⟨_, rfl, rfl, rfl⟩⟩
  · rename_i fd number
    obtain ⟨k₁, hopen, heq⟩ := Option.map_eq_some_iff.mp hstep
    simp only [Prod.mk.injEq] at heq
    obtain ⟨rfl, rfl, rfl⟩ := heq
    obtain ⟨hnonneg, hfree, disk, hopening, rfl⟩ := Kernel.sysOpen_cases hopen
    exact ⟨rfl, Or.inr ⟨fd, number, disk, rfl, hnonneg, hfree, hopening, rfl, rfl, rfl⟩⟩
  · cases hstep

/-- The file is ready for use if it has been opened. -/
theorem goOn_ready_open {path : Path} {mode create : Nat} {value : Int} {bytes : List UInt8}
    (s : Process) (h : Nat) (k' : Kernel) (file' : PosixSprFile) :
    (s.goOn h (.openFile path mode create) (k', file', .ret value bytes)).ready
      = Function.update s.ready h (value = 0) := by
  simp only [Process.goOn]
  exact if_pos trivial

theorem sound_open {path : Path} {mode create : Nat} (hs : s.Sound)
    (hallowed : s.Allowed (.system h answer))
    (hstep : sprFileOpenStep s.kernel path mode create frame answer = some (k', file', next)) :
    (s.goOn h (.openFile path mode create) (k', file', next)).Sound := by
  have hcalls : ∀ {value : Int} {bytes : List UInt8} {h' : Nat} {call : FileCall × Frame},
      (s.goOn h (.openFile path mode create) (k', file', .ret value bytes)).calls h' = some call →
      h' ≠ h ∧ s.calls h' = some call := by
    intro value bytes h' call hcall
    by_cases hh : h' = h
    · subst hh
      obtain ⟨frame', hmore, -⟩ := goOn_calls_self hcall
      cases hmore
    · exact ⟨hh, by rwa [goOn_calls_of_ne _ _ _ _ _ _ hh] at hcall⟩
  obtain ⟨-, ⟨errno, rfl, rfl, rfl⟩ | ⟨fd, number, disk, rfl, hnonneg, hfree, -, hk', hfd, rfl⟩⟩ :=
    open_cases hstep
  · -- the file is not ready
    have hready : ∀ h', (Function.update s.ready h (decide (errno = 0)) h') = true →
        h' ≠ h ∧ s.ready h' = true := by
      intro h' hr
      by_cases hh : h' = h
      · subst hh
        rw [Function.update_self] at hr
        exact absurd (of_decide_eq_true hr) hallowed
      · rw [Function.update_of_ne hh] at hr
        exact ⟨hh, hr⟩
    constructor
    · rw [goOn_kernel]
      exact hs.nonneg
    · intro h' hr
      rw [goOn_ready_open] at hr
      obtain ⟨hh, hr⟩ := hready h' hr
      rw [goOn_kernel, goOn_files, Function.update_of_ne hh]
      exact hs.own h' hr
    · intro h₁ h₂ hr₁ hr₂
      rw [goOn_ready_open] at hr₁ hr₂
      obtain ⟨hh₁, hr₁⟩ := hready h₁ hr₁
      obtain ⟨hh₂, hr₂⟩ := hready h₂ hr₂
      rw [goOn_files, Function.update_of_ne hh₁, Function.update_of_ne hh₂]
      exact hs.apart h₁ h₂ hr₁ hr₂
    · intro h' c' frame' hcall
      obtain ⟨hh, hcall⟩ := hcalls hcall
      rw [goOn_ready_open, goOn_kernel, goOn_files, Function.update_of_ne hh,
        Function.update_of_ne hh]
      exact hs.called h' c' frame' hcall
  · -- the descriptor is a new one
    have hothers : ∀ fd', fd' ≠ fd → k'.opened fd' = s.kernel.opened fd' := by
      intro fd' hne
      rw [hk']
      exact Kernel.setOpened_of_ne _ hne _
    have hnew : ∀ h', s.ready h' → (s.files h').fd ≠ fd := by
      intro h' hr heq
      rcases hs.own h' hr with hclosed | hopen
      · omega
      · exact hopen (heq ▸ hfree)
    have hself : k'.opened fd ≠ none := by
      rw [hk', Kernel.setOpened_self]
      exact Option.some_ne_none _
    have hready : ∀ h', h' ≠ h → Function.update s.ready h (decide ((0 : Int) = 0)) h' = true →
        s.ready h' = true := by
      intro h' hh hr
      rwa [Function.update_of_ne hh] at hr
    constructor
    · intro fd' o ho
      rw [goOn_kernel] at ho
      by_cases hne : fd' = fd
      · rwa [hne]
      · exact hs.nonneg fd' o ((hothers fd' hne).symm.trans ho)
    · intro h' hr
      rw [goOn_ready_open] at hr
      rw [goOn_kernel, goOn_files]
      by_cases hh : h' = h
      · subst hh
        rw [Function.update_self, hfd]
        exact Or.inr hself
      · have hr := hready h' hh hr
        rw [Function.update_of_ne hh, hothers _ (hnew h' hr)]
        exact hs.own h' hr
    · intro h₁ h₂ hr₁ hr₂ heq
      rw [goOn_ready_open] at hr₁ hr₂
      rw [goOn_files] at heq ⊢
      by_cases hh₁ : h₁ = h
      · by_cases hh₂ : h₂ = h
        · exact Or.inr (hh₁.trans hh₂.symm)
        · subst hh₁
          rw [Function.update_self, Function.update_of_ne hh₂, hfd] at heq
          exact absurd heq.symm (hnew h₂ (hready h₂ hh₂ hr₂))
      · by_cases hh₂ : h₂ = h
        · subst hh₂
          rw [Function.update_self, Function.update_of_ne hh₁, hfd] at heq
          exact absurd heq (hnew h₁ (hready h₁ hh₁ hr₁))
        · rw [Function.update_of_ne hh₁, Function.update_of_ne hh₂] at heq
          rw [Function.update_of_ne hh₁]
          exact hs.apart h₁ h₂ (hready h₁ hh₁ hr₁) (hready h₂ hh₂ hr₂) heq
    · intro h' c' frame' hcall
      obtain ⟨hh, hcall⟩ := hcalls hcall
      obtain ⟨hr, hok⟩ := hs.called h' c' frame' hcall
      rw [goOn_ready_open, goOn_kernel, goOn_files, Function.update_of_ne hh,
        Function.update_of_ne hh]
      refine ⟨hr, ?_⟩
      by_cases hc' : c'.Opens
      · exact frameOk_opens hc' frame'
      · rw [hothers _ (hnew h' (hr hc'))]
        exact hok

/-- **`spr_file_open`**, seen from outside. -/
theorem refines_open {path : Path} {mode create : Nat} (hs : s.Sound)
    (hallowed : s.Allowed (.system h answer))
    (hcall : s.calls h = some (.openFile path mode create, frame))
    (hstep : sprFileOpenStep s.kernel path mode create frame answer = some (k', file', next)) :
    Refines s (s.goOn h (.openFile path mode create) (k', file', next)) (.system h answer) := by
  have hstore : s.store.calls h = some (.openFile path mode create, frame.task) := by
    show (s.calls h).map _ = _
    rw [hcall]
    rfl
  obtain ⟨rfl, ⟨errno, rfl, rfl, rfl⟩ |
    ⟨fd, number, disk, rfl, hnonneg, hfree, hopening, hk', hfd, rfl⟩⟩ := open_cases hstep
  · have hself : (s.goOn h (.openFile path mode create) (s.kernel, file', .ret errno [])).target h
        = none := by
      rw [Process.target, goOn_ready_open, Function.update_self, if_neg]
      exact fun h => hallowed (of_decide_eq_true h)
    have hother : ∀ h', h' ≠ h → (s.goOn h (.openFile path mode create)
        (s.kernel, file', .ret errno [])).target h' = s.target h' := by
      intro h' hh
      rw [Process.target, Process.target, goOn_ready_open, goOn_kernel, goOn_files,
        Function.update_of_ne hh, Function.update_of_ne hh]
    refine Or.inr ?_
    rw [store_goOn hself hother]
    simp only [FileStore.step, hstore]
    rfl
  · have hself : (s.goOn h (.openFile path mode create) (k', file', .ret 0 [])).target h
        = some (.of number (mode ||| create)) := by
      rw [Process.target, goOn_ready_open, goOn_kernel, goOn_files, Function.update_self,
        Function.update_self, if_pos (by decide), targetAt, hfd, hk', Kernel.setOpened_self]
      rfl
    have hother : ∀ h', h' ≠ h → (s.goOn h (.openFile path mode create)
        (k', file', .ret 0 [])).target h' = s.target h' := by
      intro h' hh
      rw [Process.target, Process.target, goOn_ready_open, goOn_kernel, goOn_files,
        Function.update_of_ne hh, Function.update_of_ne hh]
      by_cases hr : s.ready h' = true
      · have hne : (s.files h').fd ≠ fd := by
          intro heq
          rcases hs.own h' hr with hclosed | hopen
          · omega
          · exact hopen (heq ▸ hfree)
        rw [if_pos hr, if_pos hr, targetAt, targetAt, hk', Kernel.setOpened_of_ne _ hne]
      · rw [if_neg hr, if_neg hr]
    refine Or.inr ?_
    rw [store_goOn hself hother]
    simp only [FileStore.step, hstore]
    show (FileCall.act s.kernel.disk _ _ _ _).map _ = _
    have hact : FileCall.act s.kernel.disk (s.store.targets h) (.openFile path mode create)
        (Frame.task .entered) (.opens fd number)
        = some (disk, some (.of number (mode ||| create)), .ret 0 []) := by
      simp only [FileCall.act, Frame.task, hopening, Option.map_some]
    rw [hact, hk']
    rfl

end Events

/-! ## Section 5: Runs -/

section Runs

variable {s s' : Process}

/-- **One event** keeps a process sound, and seen from outside it is one event or nothing. -/
theorem sound_exec {e : FileEvent} (hs : s.Sound) (hexec : s.exec e = some s') :
    s'.Sound ∧ Refines s s' e := by
  obtain ⟨hallowed, hexec⟩ := exec_allowed hexec
  cases e with
  | call h c =>
    simp only [Process.step] at hexec
    split at hexec
    swap
    · cases hexec
    rename_i hidle
    obtain rfl := Option.some.inj hexec
    constructor
    · refine ⟨hs.nonneg, hs.own, hs.apart, fun h' c' frame' hcall => ?_⟩
      by_cases hh : h' = h
      · subst hh
        have hself : (Function.update s.calls h' (some (c, Frame.entered))) h'
            = some (c, Frame.entered) := Function.update_self ..
        have heq := hself.symm.trans hcall
        injection heq with heq
        injection heq with hc hframe
        subst hc hframe
        cases c with
        | openFile path mode create => exact ⟨fun hc => absurd trivial hc, trivial⟩
        | writeFile buf offset => exact ⟨fun _ => hallowed.1, hallowed.2⟩
        | _ => exact ⟨fun _ => hallowed, trivial⟩
      · have hother : (Function.update s.calls h (some (c, Frame.entered))) h' = s.calls h' :=
          Function.update_of_ne hh ..
        exact hs.called h' c' frame' (hother.symm.trans hcall)
    · refine Or.inr ?_
      have hidle' : s.store.calls h = none := by
        show (s.calls h).map _ = _
        rw [hidle]
        rfl
      simp only [FileStore.step, if_pos hidle']
      congr 1
      simp only [Process.store, FileStore.mk.injEq, true_and, and_true]
      refine ⟨rfl, ?_⟩
      funext h'
      by_cases hh : h' = h
      · rw [hh, Function.update_self, Function.update_self]
        rfl
      · rw [Function.update_of_ne hh, Function.update_of_ne hh]
  | system h answer =>
    simp only [Process.step] at hexec
    split at hexec
    · cases hexec
    rename_i c frame hcall
    obtain ⟨⟨k', file', next⟩, hstep, rfl⟩ := Option.map_eq_some_iff.mp hexec
    by_cases hc : c.Opens
    · cases c with
      | openFile path mode create =>
        exact ⟨sound_open hs hallowed hstep, refines_open hs hallowed hcall hstep⟩
      | _ => exact hc.elim
    · have ha := step_acts hc hs.closed (hs.called h c frame hcall).2 hstep
      exact ⟨sound_acts hs hcall hc ha, refines_acts hs hcall hc ha⟩
  | delete path =>
    obtain rfl := Option.some.inj hexec
    exact ⟨⟨hs.nonneg, hs.own, hs.apart, hs.called⟩, Or.inr rfl⟩
  | rename old new =>
    obtain rfl := Option.some.inj hexec
    exact ⟨⟨hs.nonneg, hs.own, hs.apart, hs.called⟩, Or.inr rfl⟩

theorem start_sound {k : Kernel} (hk : ∀ fd o, k.opened fd = some o → 0 ≤ fd)
    (files : Nat → PosixSprFile) : (Process.start k files).Sound :=
  ⟨hk, fun _ h => (by cases h), fun _ _ h => (by cases h), fun _ _ _ h => by cases h⟩

/-- A process that has been started over some kernel, and has run. -/
def Process.Reached (s : Process) : Prop :=
  ∃ (k : Kernel) (files : Nat → PosixSprFile) (events : List FileEvent),
    (∀ fd o, k.opened fd = some o → 0 ≤ fd) ∧
    events.foldlM Process.exec (Process.start k files) = some s

theorem Process.Reached.sound (h : s.Reached) : s.Sound := by
  obtain ⟨k, files, events, hk, hrun⟩ := h
  exact run_keeps (fun _ _ _ hs hexec => (sound_exec hs hexec).1) (start_sound hk files) hrun

/-- **Files have no positions.**  Calls on different files run at the same time, their
    system calls come in any order and move as much as they like, or fail; files are opened,
    closed, renamed and deleted, and descriptors used again.  The contents of the files, and
    all that the calls return, are those of a run of a store, in which a read names the place
    it reads from and a write the place it writes to. -/
theorem calls_positional (k : Kernel) (files : Nat → PosixSprFile) (events : List FileEvent)
    (s : Process) (hk : ∀ fd o, k.opened fd = some o → 0 ≤ fd)
    (hrun : events.foldlM Process.exec (Process.start k files) = some s) :
    ∃ seen : List FileEvent, seen.Sublist events ∧
      seen.foldlM FileStore.step (Process.start k files).store = some s.store :=
  run_refines (I := Process.Sound) (fun _ _ _ hs hexec => (sound_exec hs hexec).1)
    (fun _ _ _ hs hexec => (sound_exec hs hexec).2) (start_sound hk files) hrun

/-- Two files with one name; the size of one is asked for between the two parts of a write to
    the other. -/
theorem calls_positional_two : ∃ (s : Process) (seen : List FileEvent),
    s.done.map (fun d => d.2.2) =
      [(0, []), (0, []), (3, []), (2, []), (2, [2, 3]), (0, [])] ∧
    seen.foldlM FileStore.step
      (Process.start ⟨⟨fun _ => none, fun _ => none⟩, fun _ => none⟩ fun _ => .zero).store
        = some s.store := by
  have hrun : ((([.call 0 (.openFile [97] oRdwr oCreat), .system 0 (.opens 3 0),
      .call 1 (.openFile [97] oRdwr 0), .system 1 (.opens 4 0),
      .call 0 (.writeFile [1, 2, 3] 0), .call 1 .fileSize, .system 0 (.moves 0),
      .system 1 (.moves 0), .system 0 (.moves 2), .system 1 (.moves 2), .system 0 (.moves 1),
      .system 1 (.moves 0), .call 1 (.readFile 5 1), .system 1 (.moves 1), .system 1 (.moves 2),
      .call 0 .closeFile, .system 0 (.moves 0)] : List FileEvent).foldlM Process.exec
      (Process.start ⟨⟨fun _ => none, fun _ => none⟩, fun _ => none⟩ fun _ => .zero)).any fun s =>
        s.done.map (fun d => d.2.2) =
          [(0, []), (0, []), (3, []), (2, []), (2, [2, 3]), (0, [])]) = true := by
    decide +kernel
  obtain ⟨s, hs, hdone⟩ := (Option.any_eq_true _ _).mp hrun
  obtain ⟨seen, -, hseen⟩ := calls_positional _ _ _ s (fun _ _ h => by cases h) hs
  exact ⟨s, seen, of_decide_eq_true hdone, hseen⟩

end Runs

end Spr.Filesys
