import Mathlib.Logic.Relation
import Spr.Filesys.FileStore

/-! # What calls on files come to

    A call is a number of system calls, and other things happen in between.

    * `Serving`, `Completes`: a call from its beginning until it returns.
    * `exec_other`: what happens elsewhere leaves the file of a call alone.
    * `write_whole`, `written_read_back`: what is written is there, and is read again.
    * `size_keeps_position`: `spr_file_size` puts the position back. -/

namespace Spr.Filesys

open Spr.Files

/-! ## Section 1: Calls -/

/-- A call on the file `h` is under way, and in the end it has returned.  Whatever else
    happens in between is a `P`. -/
inductive Serving (h : Nat) (P : Process → Process → Prop) : Process → Process → Prop where
  | last (s s' : Process) (answer : Answer) (hexec : s.exec (.system h answer) = some s')
      (hret : s'.calls h = none) : Serving h P s s'
  | own (s s₁ s' : Process) (answer : Answer) (hexec : s.exec (.system h answer) = some s₁)
      (hmore : s₁.calls h ≠ none) (hrest : Serving h P s₁ s') : Serving h P s s'
  | other (s s₁ s' : Process) (e : FileEvent) (helse : ∀ answer, e ≠ .system h answer)
      (hexec : s.exec e = some s₁) (hP : P s s₁) (hrest : Serving h P s₁ s') : Serving h P s s'

/-- The call `c` is made on the file `h`, and returns `ret` with `bytes` in its buffer. -/
def Completes (h : Nat) (c : FileCall) (P : Process → Process → Prop) (s s' : Process) (ret : Int)
    (bytes : List UInt8) : Prop :=
  ∃ s₁, s.exec (.call h c) = some s₁ ∧ Serving h P s₁ s' ∧
    s'.done.getLast? = some (h, c, ret, bytes)

/-- The contents of a file. -/
def Process.content (s : Process) (f : Nat) : List UInt8 := s.kernel.disk.content f

/-- The file is left as it is. -/
def LeavesFile (f : Nat) (s s' : Process) : Prop := s'.content f = s.content f

/-- Events that leave the file as it is. -/
def Meanwhile (f : Nat) : Process → Process → Prop :=
  Relation.ReflTransGen fun s s' => (∃ e, s.exec e = some s') ∧ LeavesFile f s s'

/-- **A call, to its end**: what its own system calls and the other events keep while it is
    under way, until it has returned. -/
theorem Serving.induct {h : Nat} {P : Process → Process → Prop} {I E : Process → Prop}
    {s s' : Process}
    (hown : ∀ s s' answer, I s → s.exec (.system h answer) = some s' →
      I s' ∨ (s'.calls h = none ∧ E s'))
    (hother : ∀ s s' e, I s → (∀ answer, e ≠ .system h answer) → s.exec e = some s' → P s s' →
      I s')
    (hcall : ∀ s, I s → s.calls h ≠ none) (hrun : Serving h P s s') (hI : I s) : E s' := by
  induction hrun with
  | last s s' answer hexec hret =>
    rcases hown s s' answer hI hexec with hI' | ⟨-, hE⟩
    · exact absurd hret (hcall s' hI')
    · exact hE
  | own s s₁ s' answer hexec hmore _ ih =>
    rcases hown s s₁ answer hI hexec with hI' | ⟨hret, -⟩
    · exact ih hI'
    · exact absurd hret hmore
  | other s s₁ s' e helse hexec hP _ ih => exact ih (hother s s₁ e hI helse hexec hP)

/-- A system call of the call on `h`. -/
def FileEvent.Own (h : Nat) : FileEvent → Prop
  | .system h' _ => h' = h
  | _ => False

instance (h : Nat) (e : FileEvent) : Decidable (e.Own h) :=
  match e with
  | .call _ _ => instDecidableFalse
  | .system h' _ => instDecidableEqNat h' h
  | .delete _ => instDecidableFalse
  | .rename _ _ => instDecidableFalse

/-- The events of a call from its second one on, if that is what they are. -/
def Process.serve (h f : Nat) : List FileEvent → Process → Option Process
  | [], _ => none
  | e :: es, s =>
      (s.exec e).bind fun s₁ =>
        if e.Own h then
          if s₁.calls h = none then if es = [] then some s₁ else none
          else serve h f es s₁
        else if s₁.content f = s.content f then serve h f es s₁
        else none

theorem serving_of_serve {h f : Nat} {es : List FileEvent} {s s' : Process}
    (hserve : Process.serve h f es s = some s') : Serving h (LeavesFile f) s s' := by
  induction es generalizing s with
  | nil => cases hserve
  | cons e es ih =>
    obtain ⟨s₁, hexec, hrest⟩ := Option.bind_eq_some_iff.mp hserve
    by_cases hown : e.Own h
    · obtain ⟨answer, rfl⟩ : ∃ answer, e = .system h answer := by
        cases e with
        | system h' answer => exact ⟨answer, congrArg (FileEvent.system · answer) hown⟩
        | _ => exact hown.elim
      rw [if_pos hown] at hrest
      split at hrest
      · rename_i hret
        split at hrest
        · obtain rfl := Option.some.inj hrest
          exact .last s s₁ answer hexec hret
        · cases hrest
      · rename_i hmore
        exact .own s s₁ s' answer hexec hmore (ih hrest)
    · rw [if_neg hown] at hrest
      split at hrest
      · rename_i hleaves
        refine .other s s₁ s' e ?_ hexec hleaves (ih hrest)
        rintro answer rfl
        exact hown rfl
      · cases hrest

/-- A call as it is run. -/
theorem served_of_serve {h f : Nat} {c : FileCall} {es : List FileEvent} {s : Process} {ret : Int}
    {bytes : List UInt8} {p : Process → Bool}
    (hserve : ((s.exec (.call h c)).bind (Process.serve h f es)).any (fun s' =>
      s'.done.getLast? = some (h, c, ret, bytes) ∧ p s' = true) = true) :
    ∃ s', Completes h c (LeavesFile f) s s' ret bytes ∧ p s' = true := by
  obtain ⟨s', hs', hlast⟩ := (Option.any_eq_true _ _).mp hserve
  obtain ⟨s₁, hexec, hrun⟩ := Option.bind_eq_some_iff.mp hs'
  obtain ⟨hdone, hp⟩ := of_decide_eq_true hlast
  exact ⟨s', ⟨s₁, hexec, serving_of_serve hrun, hdone⟩, hp⟩

/-! ## Section 2: What happens elsewhere -/

section Elsewhere

variable {s s' : Process} {h : Nat} {e : FileEvent}

/-- A file, its call and its descriptor are as they were. -/
structure SameFile (h : Nat) (s s' : Process) : Prop where
  calls  : s'.calls h = s.calls h
  files  : s'.files h = s.files h
  ready  : s'.ready h = s.ready h
  opened : s'.kernel.opened (s.files h).fd = s.kernel.opened (s.files h).fd

theorem SameFile.target (hsame : SameFile h s s') : s'.target h = s.target h := by
  rw [Process.target, Process.target, hsame.ready, hsame.files, targetAt, targetAt, hsame.opened]

/-- **What happens elsewhere** leaves alone a file on which a call is under way. -/
theorem exec_other (hs : s.Sound) (helse : ∀ answer, e ≠ .system h answer)
    (hcall : s.calls h ≠ none) (hready : s.ready h) (hexec : s.exec e = some s') :
    SameFile h s s' := by
  obtain ⟨-, hexec⟩ := exec_allowed hexec
  cases e with
  | call h' c =>
    simp only [Process.step] at hexec
    split at hexec
    swap
    · cases hexec
    rename_i hidle
    obtain rfl := Option.some.inj hexec
    refine ⟨Function.update_of_ne ?_ .., rfl, rfl, rfl⟩
    rintro rfl
    exact hcall hidle
  | system h' answer =>
    have hh : h ≠ h' := by
      rintro rfl
      exact helse answer rfl
    simp only [Process.step] at hexec
    split at hexec
    · cases hexec
    rename_i c frame hcall'
    obtain ⟨⟨k', file', next⟩, hstep, rfl⟩ := Option.map_eq_some_iff.mp hexec
    refine ⟨goOn_calls_of_ne _ _ _ _ _ _ hh, ?_, ?_, ?_⟩
    · rw [goOn_files, Function.update_of_ne hh]
    · cases next with
      | more frame' => rfl
      | ret value bytes =>
        simp only [Process.goOn]
        split
        · exact Function.update_of_ne hh ..
        · rfl
    · rw [goOn_kernel]
      by_cases hc : c.Opens
      · cases c with
        | openFile path mode create =>
          obtain ⟨-, ⟨_, -, rfl, -⟩ | ⟨fd, _, _, -, hnonneg, hfree, -, rfl, -, -⟩⟩ :=
            open_cases hstep
          · rfl
          · refine Kernel.setOpened_of_ne _ (fun heq => ?_) _
            rcases hs.own h hready with hclosed | hopen
            · omega
            · exact hopen (heq ▸ hfree)
        | _ => exact hc.elim
      · have hcalled := hs.called h' c frame hcall'
        have ha := step_acts hc hs.closed hcalled.2 hstep
        exact ha.keeps hs (hs.descriptors hh (hcalled.1 hc) hready)
  | delete path =>
    obtain rfl := Option.some.inj hexec
    exact ⟨rfl, rfl, rfl, rfl⟩
  | rename old new =>
    obtain rfl := Option.some.inj hexec
    exact ⟨rfl, rfl, rfl, rfl⟩

/-- The own system calls of a call, seen from outside. -/
theorem exec_own {c : FileCall} {task : Task} {answer : Answer} (hs : s.Sound)
    (hcall : s.store.calls h = some (c, task)) (hexec : s.exec (.system h answer) = some s') :
    s'.store = s.store ∨ ∃ r, c.act s.kernel.disk (s.target h) task answer = some r ∧
      s'.store = s.store.goOn h c r := by
  rcases (sound_exec hs hexec).2 with hsame | hone
  · exact Or.inl hsame
  · simp only [FileStore.step, hcall] at hone
    obtain ⟨r, hact, hr⟩ := Option.map_eq_some_iff.mp hone
    exact Or.inr ⟨r, hact, hr.symm⟩

/-- A call that is under way is a call of the store. -/
theorem store_calls_none : s.store.calls h = none ↔ s.calls h = none := by
  show (s.calls h).map _ = none ↔ _
  exact Option.map_eq_none_iff

/-- A file on which a call is under way that opens nothing is ready for use. -/
theorem Process.Sound.ready_of_call {c : FileCall} {task : Task} (hs : s.Sound)
    (hc : ¬ c.Opens) (hcall : s.store.calls h = some (c, task)) : s.ready h := by
  obtain ⟨⟨c', frame⟩, hcall', heq⟩ := Option.map_eq_some_iff.mp hcall
  injection heq with hc' _
  subst hc'
  exact (hs.called h _ frame hcall').1 hc

/-- A call begins. -/
theorem exec_call {c : FileCall} (hexec : s.exec (.call h c) = some s') :
    s.Allowed (.call h c) ∧
      s' = { s with calls := Function.update s.calls h (some (c, .entered)) } := by
  obtain ⟨hallowed, hexec⟩ := exec_allowed hexec
  simp only [Process.step] at hexec
  split at hexec
  · exact ⟨hallowed, (Option.some.inj hexec).symm⟩
  · cases hexec

/-- A call that opens nothing is under way on a file. -/
structure UnderWay (h : Nat) (c : FileCall) (task : Task) (t : Target) (s : Process) : Prop where
  sound  : s.Sound
  call   : s.store.calls h = some (c, task)
  target : s.target h = some t

section UnderWay

variable {c : FileCall} {task : Task} {t : Target}

theorem UnderWay.start (hs : s.Sound) (ht : s.target h = some t)
    (hexec : s.exec (.call h c) = some s') : UnderWay h c (.moved 0) t s' := by
  have hsound := (sound_exec hs hexec).1
  obtain ⟨-, rfl⟩ := exec_call hexec
  refine ⟨hsound, ?_, ht⟩
  show (Function.update s.calls h _ h).map _ = _
  rw [Function.update_self]
  rfl

theorem UnderWay.calling (hu : UnderWay h c task t s) : s.calls h ≠ none := by
  rw [Ne, ← store_calls_none, hu.call]
  exact Option.some_ne_none _

theorem UnderWay.other (hc : ¬ c.Opens) (hu : UnderWay h c task t s)
    (helse : ∀ answer, e ≠ .system h answer) (hexec : s.exec e = some s') :
    UnderWay h c task t s' := by
  have hready := hu.sound.ready_of_call hc hu.call
  have hsame := exec_other hu.sound helse hu.calling hready hexec
  refine ⟨(sound_exec hu.sound hexec).1, ?_, hsame.target.trans hu.target⟩
  rw [← hu.call]
  show (s'.calls h).map _ = (s.calls h).map _
  rw [hsame.calls]

/-- A system call that is not seen. -/
theorem UnderWay.unseen (hu : UnderWay h c task t s) (hs' : s'.Sound) (hsame : s'.store = s.store) :
    UnderWay h c task t s' :=
  ⟨hs', hsame ▸ hu.call, (congrFun (congrArg FileStore.targets hsame) h).trans hu.target⟩

/-- The call goes on. -/
theorem UnderWay.goOn {task' : Task} {d : Disk} (hs' : s'.Sound)
    (hr : s'.store = s.store.goOn h c (d, some t, .more task')) : UnderWay h c task' t s' := by
  refine ⟨hs', ?_, ?_⟩
  · rw [hr]
    exact Function.update_self ..
  · exact (congrFun (congrArg FileStore.targets hr) h).trans (Function.update_self ..)

end UnderWay

/-- The call has returned, and it is the last that has. -/
theorem returned_goOn {c : FileCall} {d : Disk} {t : Option Target} {ret : Int}
    {bytes : List UInt8} (hr : s'.store = s.store.goOn h c (d, t, .ret ret bytes)) :
    s'.calls h = none ∧ s'.done.getLast? = some (h, c, ret, bytes) := by
  constructor
  · rw [← store_calls_none, hr]
    exact Function.update_self ..
  · have hdone : s'.done = s.done ++ [(h, c, ret, bytes)] := congrArg FileStore.done hr
    rw [hdone]
    exact List.getLast?_concat

end Elsewhere

/-! ## Section 3: Writing -/

section Writing

variable {s s' : Process} {h : Nat} {t : Target} {buf c : List UInt8} {offset : Int} {pos : Nat}

/-- What a step of a write comes to. -/
theorem act_write_cases {d : Disk} {m : Nat} {answer : Answer} {r : Disk × Option Target × After}
    (hact : FileCall.act d (some t) (.writeFile buf offset) (.moved m) answer = some r) :
    r = (d, some t, .ret (-1) []) ∨
      ∃ n d', n ≤ buf.length - m ∧ (d'.content t.file =
          splice (d.content t.file) (d.place t (offset.toNat + m)) ((buf.drop m).take n)) ∧
        r = (d', some t,
          if m + n = buf.length then .ret buf.length [] else .more (.moved (m + n))) := by
  cases answer with
  | fails errno => exact Or.inl (Option.some.inj hact).symm
  | moves n =>
    simp only [FileCall.act] at hact
    split at hact
    · rw [Option.bind_some] at hact
      obtain ⟨d', hwrite, heq⟩ := Option.map_eq_some_iff.mp hact
      obtain ⟨hle, -, hcontent⟩ := Disk.write_cases hwrite
      rw [List.length_drop] at hle
      exact Or.inr ⟨n, d', hle, hcontent, heq.symm⟩
    · cases hact
  | opens fd number => simp [FileCall.act] at hact

/-- **While a write is under way**, what it has moved so far is in the file. -/
structure Written (h : Nat) (t : Target) (buf c : List UInt8) (offset : Int) (pos m : Nat)
    (s : Process) : Prop where
  under   : UnderWay h (.writeFile buf offset) (.moved m) t s
  le      : m ≤ buf.length
  content : s.content t.file = splice c pos (buf.take m)

/-- Where the next part goes. -/
theorem Written.place {m : Nat} (hw : Written h t buf c offset pos m s)
    (hpos : pos = if t.appends then c.length else offset.toNat) :
    s.kernel.disk.place t (offset.toNat + m) = pos + (buf.take m).length := by
  have hlen : (buf.take m).length = m := by rw [List.length_take, Nat.min_eq_left hw.le]
  unfold Disk.place
  by_cases happ : t.appends = true
  · rw [if_pos happ] at hpos ⊢
    have hcontent : s.kernel.disk.content t.file = c ++ buf.take m := by
      rw [← splice_last, ← hpos]
      exact hw.content
    rw [hcontent, List.length_append, hpos]
  · rw [if_neg happ] at hpos ⊢
    rw [hlen, hpos]

/-- A write that has returned: a part of the buffer is in the file, and all of it unless the
    call has failed. -/
def Wrote (h : Nat) (t : Target) (buf c : List UInt8) (offset : Int) (pos : Nat) (s : Process) :
    Prop :=
  ∃ ret, ∃ n ≤ buf.length, s.done.getLast? = some (h, .writeFile buf offset, ret, []) ∧
    s.content t.file = splice c pos (buf.take n) ∧ (ret = -1 ∨ (ret = buf.length ∧ n = buf.length))

/-- **A system call of a write**: another part is in the file, or the write has returned. -/
theorem Written.own {m : Nat} {answer : Answer} (hw : Written h t buf c offset pos m s)
    (hpos : pos = if t.appends then c.length else offset.toNat)
    (hexec : s.exec (.system h answer) = some s') :
    (∃ m', Written h t buf c offset pos m' s') ∨
      (s'.calls h = none ∧ Wrote h t buf c offset pos s') := by
  have hsound := (sound_exec hw.under.sound hexec).1
  have hle := hw.le
  have hcontent : ∀ {st : FileStore}, s'.store = st → s'.content t.file = st.disk.content t.file :=
    fun hr => congrArg (fun st => st.disk.content t.file) hr
  rcases exec_own hw.under.sound hw.under.call hexec with hsame | ⟨r, hact, hr⟩
  · exact Or.inl ⟨m, hw.under.unseen hsound hsame, hle, (hcontent hsame).trans hw.content⟩
  rw [hw.under.target] at hact
  rcases act_write_cases hact with rfl | ⟨n, d', hn, hsplice, rfl⟩
  · obtain ⟨hcalls, hdone⟩ := returned_goOn hr
    exact Or.inr ⟨hcalls, -1, m, hle, hdone, (hcontent hr).trans hw.content, Or.inl rfl⟩
  · -- `n` more bytes are in the file
    have hmore : d'.content t.file = splice c pos (buf.take (m + n)) := by
      rw [hsplice, hw.place hpos, show s.kernel.disk.content t.file = _ from hw.content,
        splice_append, List.take_add]
    by_cases hall : m + n = buf.length
    · rw [if_pos hall] at hr
      obtain ⟨hcalls, hdone⟩ := returned_goOn hr
      exact Or.inr ⟨hcalls, buf.length, m + n, by omega, hdone, (hcontent hr).trans hmore,
        Or.inr ⟨rfl, hall⟩⟩
    · rw [if_neg hall] at hr
      exact Or.inl ⟨m + n, .goOn hsound hr, by omega, (hcontent hr).trans hmore⟩

/-- **A write, to its end.** -/
theorem serving_write {m : Nat} (hpos : pos = if t.appends then c.length else offset.toNat)
    (hrun : Serving h (LeavesFile t.file) s s') (hw : Written h t buf c offset pos m s) :
    Wrote h t buf c offset pos s' := by
  refine hrun.induct (I := fun s => ∃ m, Written h t buf c offset pos m s) ?_ ?_ ?_ ⟨m, hw⟩
  · rintro s s₁ answer ⟨m, hw⟩ hexec
    exact hw.own hpos hexec
  · rintro s s₁ e ⟨m, hw⟩ helse hexec hleaves
    exact ⟨m, hw.under.other id helse hexec, hw.le, hleaves.trans hw.content⟩
  · rintro s ⟨m, hw⟩
    exact hw.under.calling

/-- What a write comes to. -/
theorem Completes.wrote {ret : Int} {bytes : List UInt8} (hs : s.Sound) (ht : s.target h = some t)
    (hserved : Completes h (.writeFile buf offset) (LeavesFile t.file) s s' ret bytes) :
    ∃ n ≤ buf.length, s'.content t.file = splice (s.content t.file)
        (s.kernel.disk.place t offset.toNat) (buf.take n) ∧
      (ret = -1 ∨ (ret = buf.length ∧ n = buf.length)) := by
  obtain ⟨s₁, hexec, hrun, hlast⟩ := hserved
  have hstart : Written h t buf (s.content t.file) offset (s.kernel.disk.place t offset.toNat) 0
      s₁ := by
    refine ⟨.start hs ht hexec, Nat.zero_le _, ?_⟩
    rw [List.take_zero, splice_nil, (exec_call hexec).2]
    rfl
  obtain ⟨ret', n, hn, hlast', hcontent, hret⟩ := serving_write rfl hrun hstart
  rw [hlast] at hlast'
  injection hlast' with heq
  simp only [Prod.mk.injEq, true_and] at heq
  exact ⟨n, hn, hcontent, heq.1 ▸ hret⟩

end Writing

/-! ## Section 4: Reading -/

section Reading

variable {s s' : Process} {h : Nat} {t : Target} {size : Nat} {offset : Int}

/-- What a step of a read comes to. -/
theorem act_read_cases {d : Disk} {answer : Answer} {r : Disk × Option Target × After}
    (hact : FileCall.act d (some t) (.readFile size offset) (.moved 0) answer = some r) :
    ∃ ret bytes, r = (d, some t, .ret ret bytes) ∧
      (ret = -1 ∨ ∃ n : Nat, ret = n ∧ d.read t offset.toNat size n = some bytes) := by
  cases answer with
  | fails errno => exact ⟨-1, [], (Option.some.inj hact).symm, Or.inl rfl⟩
  | moves n =>
    simp only [FileCall.act] at hact
    split at hact
    · rw [Option.bind_some] at hact
      obtain ⟨bytes, hread, heq⟩ := Option.map_eq_some_iff.mp hact
      exact ⟨n, bytes, heq.symm, Or.inr ⟨n, rfl, hread⟩⟩
    · cases hact
  | opens fd number => simp [FileCall.act] at hact

/-- A read that has returned: the bytes have been in the file. -/
def HasRead (h : Nat) (t : Target) (c : List UInt8) (size : Nat) (offset : Int) (s : Process) :
    Prop :=
  ∃ ret bytes, s.done.getLast? = some (h, .readFile size offset, ret, bytes) ∧
    (ret = -1 ∨ ∃ (n : Nat) (d : Disk), ret = n ∧ d.content t.file = c ∧
      d.read t offset.toNat size n = some bytes)

/-- **A read, to its end.** -/
theorem serving_read {c : List UInt8} (hrun : Serving h (LeavesFile t.file) s s')
    (hu : UnderWay h (.readFile size offset) (.moved 0) t s) (hcontent : s.content t.file = c) :
    HasRead h t c size offset s' := by
  refine hrun.induct (I := fun s => UnderWay h (.readFile size offset) (.moved 0) t s ∧
    s.content t.file = c) ?_ ?_ ?_ ⟨hu, hcontent⟩
  · rintro s s₁ answer ⟨hu, hcontent⟩ hexec
    rcases exec_own hu.sound hu.call hexec with hsame | ⟨r, hact, hr⟩
    · refine Or.inl ⟨hu.unseen (sound_exec hu.sound hexec).1 hsame, ?_⟩
      exact (congrArg (fun st => st.disk.content t.file) hsame).trans hcontent
    rw [hu.target] at hact
    obtain ⟨ret, bytes, rfl, hret⟩ := act_read_cases hact
    obtain ⟨hcalls, hdone⟩ := returned_goOn hr
    refine Or.inr ⟨hcalls, ret, bytes, hdone, hret.imp_right ?_⟩
    rintro ⟨n, hn, hread⟩
    exact ⟨n, _, hn, hcontent, hread⟩
  · rintro s s₁ e ⟨hu, hcontent⟩ helse hexec hleaves
    exact ⟨hu.other id helse hexec, hleaves.trans hcontent⟩
  · rintro s ⟨hu, -⟩
    exact hu.calling

/-- What a read comes to. -/
theorem Completes.read {ret : Int} {bytes : List UInt8} (hs : s.Sound) (ht : s.target h = some t)
    (hserved : Completes h (.readFile size offset) (LeavesFile t.file) s s' ret bytes) :
    ret = -1 ∨ ∃ n : Nat, ret = n ∧ bytes = slice (s.content t.file) offset.toNat n ∧
      n = bytes.length ∧ (n = 0 → slice (s.content t.file) offset.toNat size = []) := by
  obtain ⟨s₁, hexec, hrun, hlast⟩ := hserved
  have hcontent : s₁.content t.file = s.content t.file := by
    rw [(exec_call hexec).2]
    rfl
  obtain ⟨ret', bytes', hlast', hret⟩ := serving_read hrun (.start hs ht hexec) hcontent
  rw [hlast] at hlast'
  injection hlast' with heq
  simp only [Prod.mk.injEq, true_and] at heq
  obtain ⟨rfl, rfl⟩ := heq
  refine hret.imp_right ?_
  rintro ⟨n, d, hn, hd, hread⟩
  obtain ⟨hle, hlen, hzero, hbytes⟩ := Disk.read_cases hread
  rw [hd] at hlen hzero hbytes
  refine ⟨n, hn, hbytes, ?_, hzero⟩
  rw [hbytes, slice, List.length_take]
  rw [slice, List.length_take] at hlen
  omega

end Reading

/-! ## Section 5: What has been written is read -/

section WrittenRead

/-- **A write is whole.**  A write to a file that nothing else changes meanwhile leaves there
    what one write of the buffer at its place would, however many system calls it takes; if
    it fails, it leaves what a write of a part of the buffer would, from its first byte on.
    A file that appends is written at its end. -/
theorem write_whole (s s' : Process) (h : Nat) (t : Target) (buf : List UInt8) (offset ret : Int)
    (bytes : List UInt8) (hs : s.Reached) (ht : s.target h = some t)
    (hserved : Completes h (.writeFile buf offset) (LeavesFile t.file) s s' ret bytes) :
    ∃ n ≤ buf.length,
      s'.content t.file = splice (s.content t.file)
        (if t.appends then (s.content t.file).length else offset.toNat) (buf.take n) ∧
      (ret = -1 ∨ (ret = buf.length ∧ n = buf.length)) :=
  hserved.wrote hs.sound ht

/-- A process with two files that are open on one. -/
def twoFiles : List FileEvent :=
  [.call 0 (.openFile [97] oRdwr oCreat), .system 0 (.opens 3 7),
    .call 1 (.openFile [97] oRdwr 0), .system 1 (.opens 4 7)]

/-- A process that has done nothing. -/
def fresh : Process := .start ⟨⟨fun _ => none, fun _ => none⟩, fun _ => none⟩ fun _ => .zero

theorem fresh_reached {events : List FileEvent} {s : Process}
    (hrun : events.foldlM Process.exec fresh = some s) : s.Reached :=
  ⟨_, _, events, fun _ _ h => (by cases h), hrun⟩

/-- Three bytes in two parts, with the size asked for in between. -/
theorem write_whole_parts : ∃ s s' : Process, s.Reached ∧
    Completes 0 (.writeFile [1, 2, 3] 1) (LeavesFile 7) s s' 3 [] ∧
    s'.content 7 = [0, 1, 2, 3] := by
  have hrun : ((twoFiles.foldlM Process.exec fresh).any fun s =>
      s.target 0 = some ⟨7, true, true, false⟩ ∧ s.content 7 = [] ∧
      ((s.exec (.call 0 (.writeFile [1, 2, 3] 1))).bind (Process.serve 0 7
        [.system 0 (.moves 1), .call 1 .fileSize, .system 0 (.moves 2), .system 1 (.moves 0),
          .system 0 (.moves 1)])).any (fun s' =>
        s'.done.getLast? = some (0, .writeFile [1, 2, 3] 1, 3, []) ∧ true = true) = true)
      = true := by
    decide +kernel
  obtain ⟨s, hs, hfacts⟩ := (Option.any_eq_true _ _).mp hrun
  obtain ⟨htarget, hempty, hserve⟩ := of_decide_eq_true hfacts
  obtain ⟨s', hserved, -⟩ := served_of_serve (p := fun _ => true) hserve
  have hreached := fresh_reached hs
  obtain ⟨n, -, hcontent, hret⟩ := write_whole s s' 0 _ _ _ _ _ hreached htarget hserved
  obtain ⟨-, rfl⟩ := hret.resolve_left (by decide)
  refine ⟨s, s', hreached, hserved, ?_⟩
  rw [hcontent, hempty]
  decide

theorem Meanwhile.content {f : Nat} {s s' : Process} (h : Meanwhile f s s') :
    s'.content f = s.content f := by
  induction h with
  | refl => rfl
  | tail _ hstep ih => exact hstep.2.trans ih

theorem Meanwhile.sound {f : Nat} {s s' : Process} (h : Meanwhile f s s') (hs : s.Sound) :
    s'.Sound := by
  induction h with
  | refl => exact hs
  | tail _ hstep ih =>
    obtain ⟨⟨e, hexec⟩, -⟩ := hstep
    exact (sound_exec ih hexec).1

theorem Serving.sound {h : Nat} {P : Process → Process → Prop} {s s' : Process}
    (hrun : Serving h P s s') (hs : s.Sound) : s'.Sound := by
  induction hrun with
  | last _ _ _ hexec _ => exact (sound_exec hs hexec).1
  | own _ _ _ _ hexec _ _ ih => exact ih (sound_exec hs hexec).1
  | other _ _ _ _ _ hexec _ _ ih => exact ih (sound_exec hs hexec).1

/-- **What has been written is read**: through any file that is open on the same file, after
    anything that leaves the file as it is. -/
theorem written_read_back (s s₁ s₂ s' : Process) (h h' : Nat) (t t' : Target)
    (buf bytes empty : List UInt8) (offset offset' ret ret' : Int) (size : Nat)
    (hs : s.Reached) (ht : s.target h = some t)
    (hwrite : Completes h (.writeFile buf offset) (LeavesFile t.file) s s₁ ret empty)
    (hret : ret ≠ -1)
    (hmeanwhile : Meanwhile t.file s₁ s₂)
    (ht' : s₂.target h' = some t') (hfile : t'.file = t.file)
    (hplace : offset' = (if t.appends then (s.content t.file).length else offset.toNat : Nat))
    (hread : Completes h' (.readFile size offset') (LeavesFile t.file) s₂ s' ret' bytes)
    (hret' : ret' ≠ -1) :
    ret' = bytes.length ∧ bytes.take buf.length = buf.take bytes.length ∧
      (bytes = [] → size = 0 ∨ buf = []) := by
  obtain ⟨n, -, hcontent, hfailed⟩ := hwrite.wrote hs.sound ht
  obtain ⟨-, rfl⟩ := hfailed.resolve_left hret
  rw [List.take_length] at hcontent
  have hs₂ : s₂.Sound := by
    obtain ⟨s₀, hexec, hrun, -⟩ := hwrite
    exact hmeanwhile.sound (hrun.sound (sound_exec hs.sound hexec).1)
  rw [← hfile] at hread
  obtain ⟨m, rfl, hbytes, hm, hzero⟩ := (hread.read hs₂ ht').resolve_left hret'
  rw [hfile, hmeanwhile.content, hcontent, hplace, Int.toNat_natCast] at hbytes hzero
  refine ⟨by rw [← hm], ?_, ?_⟩
  · rw [← hm]
    rw [hbytes]
    exact take_slice_splice ..
  · intro hnil
    have hempty := hzero (by rw [hm, hnil]; rfl)
    have hback := take_slice_splice (s.content t.file) buf
      (s.kernel.disk.place t offset.toNat) size
    rw [show slice _ (s.kernel.disk.place t offset.toNat) size = [] from hempty] at hback
    rcases Nat.eq_zero_or_pos size with hsize | hsize
    · exact Or.inl hsize
    · refine Or.inr ?_
      cases buf with
      | nil => rfl
      | cons b bs =>
        obtain ⟨size, rfl⟩ : ∃ k, size = k + 1 := ⟨size - 1, by omega⟩
        simp at hback

/-- Three bytes are written through one file and read through another. -/
theorem written_read_back_two : ∃ (s s₁ s' : Process) (bytes : List UInt8), s.Reached ∧
    Completes 0 (.writeFile [1, 2, 3] 1) (LeavesFile 7) s s₁ 3 [] ∧
    Completes 1 (.readFile 2 1) (LeavesFile 7) s₁ s' 2 bytes ∧ bytes.take 3 = [1, 2] := by
  have hrun : ((twoFiles.foldlM Process.exec fresh).any fun s =>
      s.target 0 = some ⟨7, true, true, false⟩ ∧
      ((s.exec (.call 0 (.writeFile [1, 2, 3] 1))).bind (Process.serve 0 7
        [.system 0 (.moves 1), .system 0 (.moves 2), .system 0 (.moves 1)])).any (fun s₁ =>
        s₁.done.getLast? = some (0, .writeFile [1, 2, 3] 1, 3, []) ∧
        decide (s₁.target 1 = some ⟨7, true, true, false⟩ ∧
          ((s₁.exec (.call 1 (.readFile 2 1))).bind (Process.serve 1 7
            [.system 1 (.moves 1), .system 1 (.moves 2)])).any (fun s' =>
            s'.done.getLast? = some (1, .readFile 2 1, 2, [1, 2]) ∧ true = true) = true) = true)
          = true) = true := by
    decide +kernel
  obtain ⟨s, hs, hfacts⟩ := (Option.any_eq_true _ _).mp hrun
  obtain ⟨htarget, hserve⟩ := of_decide_eq_true hfacts
  obtain ⟨s₁, hwrite, hrest⟩ := served_of_serve (p := fun s₁ =>
    decide (s₁.target 1 = some ⟨7, true, true, false⟩ ∧
      ((s₁.exec (.call 1 (.readFile 2 1))).bind (Process.serve 1 7
        [.system 1 (.moves 1), .system 1 (.moves 2)])).any (fun s' =>
        s'.done.getLast? = some (1, .readFile 2 1, 2, [1, 2]) ∧ true = true) = true)) hserve
  obtain ⟨htarget₁, hserve₁⟩ := of_decide_eq_true hrest
  obtain ⟨s', hread, -⟩ := served_of_serve (p := fun _ => true) hserve₁
  have hreached := fresh_reached hs
  obtain ⟨-, hback, -⟩ := written_read_back s s₁ s₁ s' 0 1 _ _ _ _ _ _ _ _ _ _ hreached htarget
    hwrite (by decide) .refl htarget₁ rfl rfl hread (by decide)
  exact ⟨s, s₁, s', _, hreached, hwrite, hread, hback⟩

end WrittenRead

/-! ## Section 6: The size of a file -/

section Size

variable {s s' : Process} {h : Nat} {fd : Int} {o : Opened} {c : List UInt8} {fixed : Prop}

/-- Where the descriptor is while the size is asked for; `c` is what is in the file, if that
    is `fixed`. -/
def SizingAt (o : Opened) (c : List UInt8) (fixed : Prop) (opened : Option Opened) : Frame → Prop
  | .entered => opened = some o
  | .atEnd off => opened = some o ∧ off = o.pos
  | .restoring off size =>
      off = o.pos ∧ (fixed → size = c.length) ∧ ∃ pos, opened = some { o with pos := pos }
  | _ => False

/-- **While the size is asked for**, the old position is known. -/
structure Sizing (h : Nat) (fd : Int) (o : Opened) (c : List UInt8) (fixed : Prop) (s : Process) :
    Prop where
  sound   : s.Sound
  ready   : s.ready h
  file    : (s.files h).fd = fd
  content : fixed → s.content o.target.file = c
  call    : ∃ frame, s.calls h = some (.fileSize, frame) ∧
    SizingAt o c fixed (s.kernel.opened fd) frame

/-- The size has been found, and the descriptor is where it was; or the call has failed. -/
def SizeFound (h : Nat) (fd : Int) (o : Opened) (c : List UInt8) (fixed : Prop) (s : Process) :
    Prop :=
  ∃ ret, s.done.getLast? = some (h, .fileSize, ret, []) ∧
    (ret = -1 ∨ ((s.files h).fd = fd ∧ s.kernel.opened fd = some o ∧ (fixed → ret = c.length)))

theorem Sizing.own {answer : Answer} (hz : Sizing h fd o c fixed s)
    (hexec : s.exec (.system h answer) = some s') :
    Sizing h fd o c fixed s' ∨ (s'.calls h = none ∧ SizeFound h fd o c fixed s') := by
  have hsound := (sound_exec hz.sound hexec).1
  obtain ⟨frame, hcall, hat⟩ := hz.call
  have hfd := hz.file
  obtain ⟨-, hsystem⟩ := exec_allowed hexec
  simp only [Process.step, hcall] at hsystem
  obtain ⟨⟨k', file', next⟩, hrun, rfl⟩ := Option.map_eq_some_iff.mp hsystem
  have hstep : sprFileSizeStep s.kernel (s.files h) frame answer = some (k', file', next) := hrun
  -- a system call that has not failed
  have hmoved : ∀ {pos : Nat} {frame' : Frame},
      file' = s.files h → k' = s.kernel.setOpened fd (some { o with pos := pos }) →
      next = .more frame' → SizingAt o c fixed (some { o with pos := pos }) frame' →
      Sizing h fd o c fixed (s.goOn h .fileSize (k', file', next)) := by
    intro pos frame' hfile hk hnext hat'
    subst hfile hk hnext
    refine ⟨hsound, hz.ready, ?_, hz.content, frame', Function.update_self .., ?_⟩
    · rw [goOn_files, Function.update_self]
      exact hz.file
    · rw [goOn_kernel, Kernel.setOpened_self]
      exact hat'
  -- a system call that has
  have hfailed : next = .ret (-1) [] → (s.goOn h .fileSize (k', file', next)).calls h = none ∧
      SizeFound h fd o c fixed (s.goOn h .fileSize (k', file', next)) := by
    rintro rfl
    exact ⟨Function.update_self .., -1, List.getLast?_concat, Or.inl rfl⟩
  unfold sprFileSizeStep at hstep
  rw [hfd] at hstep
  split at hstep
  · obtain ⟨k₁, hseek, heq⟩ := Option.map_eq_some_iff.mp hstep
    cases heq
    obtain ⟨o', ho', hgoal, -, rfl⟩ := Kernel.sysLseek_cases hseek
    have hat : s.kernel.opened fd = some o := hat
    obtain rfl := Option.some.inj (hat.symm.trans ho')
    have hpos : o.pos = _ := Int.ofNat.inj hgoal
    subst hpos
    exact Or.inl (hmoved rfl rfl rfl ⟨rfl, rfl⟩)
  · rename_i off size
    obtain ⟨k₁, hseek, heq⟩ := Option.map_eq_some_iff.mp hstep
    cases heq
    obtain ⟨o', ho', hgoal, -, rfl⟩ := Kernel.sysLseek_cases hseek
    obtain ⟨hat, hoff⟩ : s.kernel.opened fd = some o ∧ off = o.pos := hat
    obtain rfl := Option.some.inj (hat.symm.trans ho')
    refine Or.inl (hmoved rfl rfl rfl ⟨hoff, fun hfixed => ?_, _, rfl⟩)
    rw [← hz.content hfixed]
    exact (Int.ofNat.inj hgoal).symm
  · -- the position is put back
    rename_i off size _
    obtain ⟨k₁, hseek, heq⟩ := Option.map_eq_some_iff.mp hstep
    cases heq
    obtain ⟨o', ho', hgoal, -, rfl⟩ := Kernel.sysLseek_cases hseek
    obtain ⟨hoff, hsize, pos, hat⟩ : off = o.pos ∧ (fixed → size = c.length) ∧
      ∃ pos, s.kernel.opened fd = some { o with pos := pos } := hat
    obtain rfl := Option.some.inj (hat.symm.trans ho')
    have hpos : o.pos = _ := Int.ofNat.inj (hoff.symm.trans hgoal)
    subst hpos
    refine Or.inr ⟨Function.update_self .., _, List.getLast?_concat, Or.inr ⟨?_, ?_, ?_⟩⟩
    · rw [goOn_files, Function.update_self]
      exact hfd
    · rw [goOn_kernel, Kernel.setOpened_self]
    · exact fun hfixed => congrArg Int.ofNat (hsize hfixed)
  · cases hstep
    exact Or.inr (hfailed rfl)
  · cases hstep
    exact Or.inr (hfailed rfl)
  · cases hstep
    exact Or.inr (hfailed rfl)
  · cases hstep

/-- **`spr_file_size` puts the position back**, whatever else happens meanwhile: a read or a
    write of the descriptor goes on where it would have gone on before.  What it returns is
    the length of the file, if that does not change under it. -/
theorem size_keeps_position (s s' : Process) (h : Nat) (o : Opened) (ret : Int)
    (bytes : List UInt8) (P : Process → Process → Prop) (hs : s.Reached)
    (ho : s.kernel.opened (s.files h).fd = some o)
    (hserved : Completes h .fileSize P s s' ret bytes) (hret : ret ≠ -1) :
    (s'.files h).fd = (s.files h).fd ∧ s'.kernel.opened (s'.files h).fd = some o ∧
      ((∀ a b, P a b → LeavesFile o.target.file a b) →
        ret = (s.content o.target.file).length) := by
  obtain ⟨s₁, hexec, hrun, hlast⟩ := hserved
  have hsound := (sound_exec hs.sound hexec).1
  obtain ⟨hallowed, rfl⟩ := exec_call hexec
  have hsized : SizeFound h (s.files h).fd o (s.content o.target.file)
      (∀ a b, P a b → LeavesFile o.target.file a b) s' := by
    refine hrun.induct (I := Sizing h (s.files h).fd o (s.content o.target.file)
      (∀ a b, P a b → LeavesFile o.target.file a b)) (fun _ _ _ hz => hz.own) ?_ ?_
      ⟨hsound, hallowed, rfl, fun _ => rfl, .entered, Function.update_self .., ho⟩
    · intro s₂ s₃ e hz helse hexec hP
      obtain ⟨frame, hcall, hat⟩ := hz.call
      have hcalling : s₂.calls h ≠ none := by
        rw [hcall]
        exact Option.some_ne_none _
      have hsame := exec_other hz.sound helse hcalling hz.ready hexec
      refine ⟨(sound_exec hz.sound hexec).1, ?_, ?_, ?_, frame, hsame.calls.trans hcall, ?_⟩
      · rw [hsame.ready]
        exact hz.ready
      · rw [hsame.files]
        exact hz.file
      · exact fun hfixed => (hfixed _ _ hP).trans (hz.content hfixed)
      · have hopened := hsame.opened
        rw [hz.file] at hopened
        rwa [hopened]
    · intro s₂ hz
      obtain ⟨frame, hcall, -⟩ := hz.call
      rw [hcall]
      exact Option.some_ne_none _
  obtain ⟨ret', hlast', hend⟩ := hsized
  rw [hlast] at hlast'
  injection hlast' with heq
  simp only [Prod.mk.injEq, true_and] at heq
  obtain ⟨rfl, -⟩ := heq
  obtain ⟨hfd, hopened, hlength⟩ := hend.resolve_left hret
  exact ⟨hfd, by rw [hfd]; exact hopened, hlength⟩

/-- A file that is written to from its start, and then asked for its size. -/
theorem size_keeps_position_three : ∃ (s s' : Process), s.Reached ∧
    Completes 1 .fileSize (LeavesFile 7) s s' 3 [] ∧ s'.kernel.opened (s'.files 1).fd
      = s.kernel.opened (s.files 1).fd := by
  have hrun : (((twoFiles ++ ([.call 0 (.writeFile [1, 2, 3] 0), .system 0 (.moves 0),
      .system 0 (.moves 3), .call 1 (.readFile 2 0), .system 1 (.moves 0),
      .system 1 (.moves 2)] : List FileEvent)).foldlM Process.exec fresh).any fun s =>
      s.kernel.opened (s.files 1).fd = some ⟨⟨7, true, true, false⟩, 2⟩ ∧
      ((s.exec (.call 1 .fileSize)).bind (Process.serve 1 7
        [.system 1 (.moves 2), .system 1 (.moves 3), .call 0 (.readFile 1 1), .system 0 (.moves 1),
          .system 1 (.moves 2)])).any (fun s' =>
        s'.done.getLast? = some (1, .fileSize, 3, []) ∧ true = true) = true) = true := by
    decide +kernel
  obtain ⟨s, hs, hfacts⟩ := (Option.any_eq_true _ _).mp hrun
  obtain ⟨hopened, hserve⟩ := of_decide_eq_true hfacts
  obtain ⟨s', hserved, -⟩ := served_of_serve (p := fun _ => true) hserve
  have hreached := fresh_reached hs
  obtain ⟨-, hkept, -⟩ := size_keeps_position s s' 1 _ 3 [] _ hreached hopened hserved (by decide)
  exact ⟨s, s', hreached, hserved, hkept.trans hopened.symm⟩

end Size

end Spr.Filesys
