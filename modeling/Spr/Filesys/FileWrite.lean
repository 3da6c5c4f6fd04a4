import Mathlib.Algebra.Group.Int.Defs
import Mathlib.Algebra.Group.Nat.Defs
import Mathlib.Algebra.GroupWithZero.Nat
import Mathlib.Data.List.Range

/-! # Writing a file

    `spr_file_write` over `lseek` and `write`.

    * `Writer`: the system, as what `write` answers and leaves in each of its states.
    * `sprFileWrite`: the call, with a record of the `write` calls it makes.
    * `Issued`: the record holds the calls that were made, and what the system answered.
    * `Consecutive`: the chunks follow one another through the buffer.
    * `file_write_spec`: what the call comes to, whatever `write` answers. -/

namespace Spr.Filesys

/-! ## Section 1: Machine words -/

/-- The value of a `ssize_t`, or of an `intptr_t`. -/
def toSsize (x : Int) : Int := x.bmod (2 ^ 64)

/-- The value of a `size_t`. -/
def toSize (x : Int) : Nat := (x % 2 ^ 64).toNat

theorem toSsize_add (x n : Int) : toSsize (toSsize x + n) = toSsize (x + n) :=
  Int.bmod_add_bmod ..

theorem toSsize_of_le {x : Int} (h0 : 0 ≤ x) (h : x < 2 ^ 63) : toSsize x = x := by
  apply Int.bmod_eq_of_le <;> omega

theorem toSize_of_lt {x : Nat} (h : x < 2 ^ 64) : toSize x = x := by
  unfold toSize
  omega

/-- An offset kept in a `ssize_t` leads to the address it stands for. -/
theorem toSize_add_toSsize {a b : Nat} (h : a + b < 2 ^ 64) : toSize (a + toSsize b) = a + b := by
  have hmod : ((a : Int) + toSsize b) % 2 ^ 64 = ((a : Int) + b) % 2 ^ 64 := by
    have hb : toSsize b % 2 ^ 64 = b % 2 ^ 64 := Int.bmod_emod
    rw [Int.add_emod, hb, ← Int.add_emod]
  unfold toSize
  rw [hmod]
  omega

/-! ## Section 2: The call -/

/-- `spr_file_t` on POSIX, as far as a write uses it. -/
structure PosixFile where
  fd     : Int
  offset : Int
  deriving DecidableEq

/-- One call of `write`. -/
structure WriteCall where
  fd    : Int
  buf   : Nat
  asked : Nat
  deriving DecidableEq

/-- `write`, as what it answers in a state of the system, and the state it leaves. -/
abbrev Writer (σ : Type) : Type := σ → WriteCall → Int × σ

/-- What a call of `spr_file_write` leaves: its value, the file, the system, and the
    calls of `write` with their answers. -/
structure WriteRun (σ : Type) where
  ret   : Int
  file  : PosixFile
  sys   : σ
  calls : List (WriteCall × Int)
  deriving DecidableEq

variable {σ : Type}

/-- The `for` loop, in a state of the system. -/
def writeLoop (write : Writer σ) (buf : Nat) :
    Nat → σ → PosixFile → Int → Nat → Option (WriteRun σ)
  | 0, _, _, _, _ => none
  | fuel + 1, sys, file, written, size =>
      let call : WriteCall := ⟨file.fd, toSize (buf + written), size⟩
      let (n, sys) := write sys call
      if n = -1 then some ⟨-1, file, sys, [(call, n)]⟩
      else
        let file := { file with offset := toSsize (file.offset + n) }
        let written := toSsize (written + n)
        -- `if (n == size) return written`, in `size_t`
        if toSize n = size then some ⟨written, file, sys, [(call, n)]⟩
        else
          (writeLoop write buf fuel sys file written (toSize (size - n))).map fun run =>
            { run with calls := (call, n) :: run.calls }

/-- `spr_file_write(file, buf, size, offset)` -/
def sprFileWrite (fuel : Nat) (lseek : Int → Int → Int) (write : Writer σ) (sys : σ)
    (file : PosixFile) (buf size : Nat) (offset : Int) : Option (WriteRun σ) :=
  if lseek file.fd offset = -1 then some ⟨-1, file, sys, []⟩
  else writeLoop write buf fuel sys file 0 size

/-! ## Section 3: The chunks -/

/-- The contract of `write`: it fails, or it writes some of what it is asked to,
    and nothing only if it is asked for nothing. -/
def Writer.Honest (write : Writer σ) : Prop :=
  ∀ sys call, (write sys call).1 = -1 ∨ ((write sys call).1 = 0 ∧ call.asked = 0) ∨
    (1 ≤ (write sys call).1 ∧ (write sys call).1 ≤ call.asked ∧ (write sys call).1 < 2 ^ 63)

/-- What happens to the system is `calls`, one after another: each is a call of `write`
    in the state that the one before it left, and is answered as recorded. -/
def Issued (write : Writer σ) : σ → List (WriteCall × Int) → σ → Prop
  | sys, [], sys' => sys' = sys
  | sys, (call, n) :: calls, sys' =>
      ∃ next, write sys call = (n, next) ∧ Issued write next calls sys'

/-- The bytes that the calls have written. -/
def bytesWritten (calls : List (WriteCall × Int)) : Nat := (calls.map fun c => c.2.toNat).sum

/-- Where the bytes came from, in the order they were written. -/
def sources (calls : List (WriteCall × Int)) : List Nat :=
  calls.flatMap fun c => List.range' c.1.buf c.2.toNat

/-- Each chunk begins where the bytes written so far end and reaches up to the end
    of the buffer, and the call that fails is the last. -/
def Consecutive (fd : Int) : Nat → Nat → List (WriteCall × Int) → Prop
  | _, _, [] => True
  | start, left, (call, n) :: calls =>
      call = ⟨fd, start, left⟩ ∧ n.toNat ≤ left ∧ (n = -1 → calls = []) ∧
        Consecutive fd (start + n.toNat) (left - n.toNat) calls

/-- The bytes of consecutive chunks are written once and in order. -/
theorem sources_of_consecutive {fd : Int} {calls : List (WriteCall × Int)} :
    ∀ {start left : Nat}, Consecutive fd start left calls →
      sources calls = List.range' start (bytesWritten calls) ∧ bytesWritten calls ≤ left := by
  induction calls with
  | nil => intro start left _; simp [sources, bytesWritten]
  | cons c calls ih =>
    intro start left h
    obtain ⟨call, n⟩ := c
    obtain ⟨rfl, hle, -, hrest⟩ := h
    obtain ⟨hsources, hbytes⟩ := ih hrest
    have hsum : bytesWritten ((⟨fd, start, left⟩, n) :: calls) = n.toNat + bytesWritten calls := by
      simp [bytesWritten]
    refine ⟨?_, by omega⟩
    rw [hsum, ← List.range'_append_1, ← hsources]
    simp [sources]

/-! ## Section 4: What a write comes to -/

/-- What the call owes to a buffer that has `size` bytes left at `start`, when
    `done` bytes have been written already and the system is in the state `sys`. -/
structure Writes (write : Writer σ) (sys : σ) (start size done : Nat) (file : PosixFile)
    (run : WriteRun σ) : Prop where
  issued : Issued write sys run.calls run.sys
  chunks : Consecutive file.fd start size run.calls
  whole  : (∀ c ∈ run.calls, c.2 ≠ -1) →
    bytesWritten run.calls = size ∧ run.ret = toSsize (done + size : Nat)
  failed : (∃ c ∈ run.calls, c.2 = -1) → run.ret = -1
  file   : run.file = { file with offset := toSsize (file.offset + bytesWritten run.calls) }

section FirstCall

variable {write : Writer σ} {sys next : σ} {start size done : Nat} {file : PosixFile}

/-- The first call fails. -/
theorem Writes.fail (hcall : write sys ⟨file.fd, start, size⟩ = (-1, next))
    (hoff : toSsize file.offset = file.offset) :
    Writes write sys start size done file
      ⟨-1, file, next, [(⟨file.fd, start, size⟩, -1)]⟩ where
  issued := ⟨next, hcall, rfl⟩
  chunks := ⟨rfl, by simp, fun _ => rfl, trivial⟩
  whole h := absurd rfl (h _ (List.mem_singleton.mpr rfl))
  failed _ := rfl
  file := by simp [bytesWritten, hoff]

/-- The first call writes all that is left. -/
theorem Writes.all (hcall : write sys ⟨file.fd, start, size⟩ = ((size : Int), next)) :
    Writes write sys start size done file ⟨toSsize (done + size : Nat),
      { file with offset := toSsize (file.offset + size) }, next,
      [(⟨file.fd, start, size⟩, size)]⟩ := by
  -- nothing is left, so there is one call
  have hbytes : bytesWritten [(⟨file.fd, start, size⟩, (size : Int))] = size := by
    simp [bytesWritten]
  refine ⟨⟨next, hcall, rfl⟩, ⟨rfl, by simp, fun _ => rfl, trivial⟩,
    fun _ => ⟨hbytes, by simp only⟩, ?_, ?_⟩
  · rintro ⟨c, hc, hneg⟩
    rw [List.mem_singleton.mp hc] at hneg
    simp only at hneg
    omega
  · simp only [hbytes]

/-- The first call writes `n` bytes, and the others write on from there. -/
theorem Writes.step {n : Nat} {run : WriteRun σ}
    (hcall : write sys ⟨file.fd, start, size⟩ = ((n : Int), next)) (hn : n ≤ size)
    (h : Writes write next (start + n) (size - n) (done + n)
      { file with offset := toSsize (file.offset + n) } run) :
    Writes write sys start size done file
      { run with calls := (⟨file.fd, start, size⟩, (n : Int)) :: run.calls } := by
  have hbytes : bytesWritten ((⟨file.fd, start, size⟩, (n : Int)) :: run.calls)
      = n + bytesWritten run.calls := by simp [bytesWritten]
  refine ⟨⟨next, hcall, h.issued⟩,
    ⟨rfl, by simpa using hn, fun hneg => by omega, by simpa using h.chunks⟩, ?_, ?_, ?_⟩
  · intro hok
    -- the bytes of the first call and of the others add up
    obtain ⟨hall, hret⟩ := h.whole fun c hc => hok c (List.mem_cons_of_mem _ hc)
    refine ⟨by rw [hbytes, hall]; omega, ?_⟩
    rw [hret, show done + n + (size - n) = done + size by omega]
  · rintro ⟨c, hc, hneg⟩
    rcases List.mem_cons.mp hc with rfl | hc
    · simp only at hneg
      omega
    · exact h.failed ⟨c, hc, hneg⟩
  · rw [h.file, hbytes]
    simp only [toSsize_add]
    congr 2
    push_cast
    omega

end FirstCall

/-- **The loop**, once `done` bytes have been written.  Every call but the last
    leaves less to write, so `size + 1` turns are enough. -/
theorem writeLoop_spec {write : Writer σ} (hwrite : write.Honest) {buf : Nat} :
    ∀ (size : Nat) (sys : σ) (done : Nat) (file : PosixFile), buf + done < 2 ^ 64 →
      buf + done + size ≤ 2 ^ 64 → toSsize file.offset = file.offset →
      ∃ run, (∀ fuel, size < fuel →
          writeLoop write buf fuel sys file (toSsize done) size = some run) ∧
        Writes write sys (buf + done) size done file run := by
  intro size
  induction size using Nat.strong_induction_on with
  | _ size ih =>
    intro sys done file hstart hend hoff
    have haddr : toSize (buf + toSsize done) = buf + done := toSize_add_toSsize hstart
    have hanswer := hwrite sys ⟨file.fd, buf + done, size⟩
    cases hcall : write sys ⟨file.fd, buf + done, size⟩ with
    | mk n next =>
    rw [hcall] at hanswer
    rcases hanswer with hfail | hpart
    · obtain rfl : n = -1 := hfail
      refine ⟨_, fun fuel hfuel => ?_, Writes.fail hcall hoff⟩
      obtain ⟨fuel, rfl⟩ : ∃ k, fuel = k + 1 := ⟨fuel - 1, by omega⟩
      rw [writeLoop, haddr]
      simp only [hcall, if_true]
    · -- `n` bytes go
      obtain ⟨n, rfl⟩ : ∃ k : Nat, n = k := Int.eq_ofNat_of_zero_le (by omega)
      have hle : n ≤ size := by simp only at hpart; omega
      have hsize : toSize (n : Int) = n := toSize_of_lt (by simp only at hpart; omega)
      have hwritten : toSsize (toSsize done + n) = toSsize (done + n : Nat) := by
        rw [toSsize_add, Int.natCast_add]
      have hneg : (n : Int) ≠ -1 := by omega
      by_cases hall : n = size
      · subst hall
        refine ⟨_, fun fuel hfuel => ?_, Writes.all hcall⟩
        obtain ⟨fuel, rfl⟩ : ∃ k, fuel = k + 1 := ⟨fuel - 1, by omega⟩
        rw [writeLoop, haddr]
        simp only [hcall, if_neg hneg, hsize, if_true, hwritten]
      · -- a part has gone: the loop goes on with the rest
        have hpos : 1 ≤ n := by simp only at hpart; omega
        have hleft : toSize ((size : Int) - n) = size - n := by
          rw [← Int.ofNat_sub hle]
          exact toSize_of_lt (by omega)
        obtain ⟨run, hrun, hwrites⟩ := ih (size - n) (by omega) next (done + n)
          { file with offset := toSsize (file.offset + n) } (by omega) (by omega)
          (Int.bmod_bmod ..)
        refine ⟨_, fun fuel hfuel => ?_, Writes.step hcall hle (by rwa [Nat.add_assoc])⟩
        obtain ⟨fuel, rfl⟩ : ∃ k, fuel = k + 1 := ⟨fuel - 1, by omega⟩
        rw [writeLoop, haddr]
        simp only [hcall, if_neg hneg, hsize, if_neg hall, hwritten, hleft,
          hrun fuel (by omega), Option.map_some]

/-- **`spr_file_write` after its `lseek`**: it returns; its calls of `write` are those
    recorded, with the answers the system gave; its chunks follow one another from the
    first byte of the buffer and never reach past its last; if no call fails the whole
    buffer is written once and in order, and otherwise the file has moved by what was
    written before the failure. -/
theorem file_write_spec {σ : Type} (lseek : Int → Int → Int) (write : Writer σ)
    (hwrite : write.Honest) (sys : σ) (file : PosixFile)
    (hoff : toSsize file.offset = file.offset) (buf size : Nat) (hbuf : buf < 2 ^ 64)
    (hsize : size < 2 ^ 64) (hend : buf + size ≤ 2 ^ 64) (offset : Int)
    (hseek : lseek file.fd offset ≠ -1) :
    ∃ run, (∀ fuel, size < fuel →
        sprFileWrite fuel lseek write sys file buf size offset = some run) ∧
      Issued write sys run.calls run.sys ∧
      Consecutive file.fd buf size run.calls ∧
      sources run.calls = List.range' buf (bytesWritten run.calls) ∧
      ((∀ c ∈ run.calls, c.2 ≠ -1) →
        bytesWritten run.calls = size ∧ toSize run.ret = size ∧ (size < 2 ^ 63 → run.ret = size)) ∧
      ((∃ c ∈ run.calls, c.2 = -1) → run.ret = -1) ∧
      run.file = { file with offset := toSsize (file.offset + bytesWritten run.calls) } := by
  obtain ⟨run, hrun, hwrites⟩ := writeLoop_spec hwrite size sys 0 file hbuf hend hoff
  refine ⟨run, fun fuel hfuel => ?_, hwrites.issued, hwrites.chunks,
    (sources_of_consecutive hwrites.chunks).1, fun hok => ?_, hwrites.failed, hwrites.file⟩
  · rw [sprFileWrite, if_neg hseek]
    exact hrun fuel hfuel
  · obtain ⟨hall, hret⟩ := hwrites.whole hok
    rw [Nat.zero_add] at hret
    refine ⟨hall, ?_, fun hsmall => ?_⟩
    · have hback := toSize_add_toSsize (show 0 + size < 2 ^ 64 by omega)
      rw [hret]
      simpa using hback
    · rw [hret]
      exact toSsize_of_le (by omega) (by omega)

/-- A `write` that takes one byte a call, and remembers the calls. -/
def byteWriter : Writer (List WriteCall) := fun made call =>
  (if call.asked = 0 then 0 else 1, made ++ [call])

theorem byteWriter_honest : byteWriter.Honest := by
  intro made call
  unfold byteWriter
  by_cases hnone : call.asked = 0
  · exact Or.inr (Or.inl ⟨if_pos hnone, hnone⟩)
  · simp only [if_neg hnone]
    exact Or.inr (Or.inr ⟨by omega, by omega, by omega⟩)

/-- Three bytes, one by one, in three calls. -/
theorem file_write_three_bytes :
    ∃ run, sprFileWrite 4 (fun _ offset => offset) byteWriter [] ⟨3, 7⟩ 4096 3 0 = some run ∧
      run.sys = [⟨3, 4096, 3⟩, ⟨3, 4097, 2⟩, ⟨3, 4098, 1⟩] ∧
      run.ret = 3 ∧ run.file = ⟨3, 10⟩ ∧ sources run.calls = [4096, 4097, 4098] := by
  obtain ⟨run, hrun, -, -, hsources, hok, -, hfile⟩ :=
    file_write_spec (fun _ offset => offset) byteWriter byteWriter_honest [] ⟨3, 7⟩ (by decide)
      4096 3 (by decide) (by decide) (by decide) 0 (by decide)
  have hcalls : (sprFileWrite 4 (fun _ offset => offset) byteWriter [] ⟨3, 7⟩ 4096 3 0).all
      (fun run => (run.calls.all fun c => c.2 ≠ -1) &&
        run.sys = [⟨3, 4096, 3⟩, ⟨3, 4097, 2⟩, ⟨3, 4098, 1⟩]) = true := by decide
  rw [hrun 4 (by decide)] at hcalls
  simp only [Option.all_some, Bool.and_eq_true, decide_eq_true_eq] at hcalls
  obtain ⟨hnone, hmade⟩ := hcalls
  obtain ⟨hall, -, hret⟩ := hok fun c hc => by simpa using List.all_eq_true.mp hnone c hc
  refine ⟨run, hrun 4 (by decide), hmade, hret (by decide), ?_, ?_⟩
  · rw [hfile, hall]
    rfl
  · rw [hsources, hall]
    rfl

end Spr.Filesys
