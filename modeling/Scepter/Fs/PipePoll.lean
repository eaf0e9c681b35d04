import Scepter.Fs.Pipe

/-! Readiness of a pipe (pipe_poll in fs/pipe.c) beside what reads and writes in the
same state do. fs_poll hands pipe_poll the open flags of the end; fs_read and fs_write
tell by the same flags which of the two an end takes part in. -/
namespace Scepter.PipeIo
open Run

def O_RDONLY : Nat := 1
def O_WRONLY : Nat := 2
def O_RDWR : Nat := 3
def O_ACCMODE : Nat := 3

def POLLIN : Nat := 0x01
def POLLOUT : Nat := 0x04
def POLLERR : Nat := 0x08
def POLLHUP : Nat := 0x10

def pipePoll (p : Pipe) (flags : Nat) : Nat :=
  if flags &&& O_WRONLY ≠ 0 then
    if p.readers = 0 then POLLERR
    else if p.count < PIPE_SIZE then POLLOUT
    else 0
  else if 0 < p.count then POLLIN
  else if p.writers = 0 then POLLIN ||| POLLHUP
  else 0

-- The guards of fs_read and fs_write.
def takesReads (flags : Nat) : Bool := flags &&& O_RDWR ≠ O_WRONLY
def takesWrites (flags : Nat) : Bool := flags &&& O_RDWR ≠ O_RDONLY

def reportsReadable (p : Pipe) (flags : Nat) : Bool := pipePoll p flags &&& POLLIN ≠ 0

def reportsWritable (p : Pipe) (flags : Nat) : Bool :=
  pipePoll p flags &&& (POLLOUT ||| POLLERR) ≠ 0

inductive Outcome where
  | sleeps
  | returns (ret : Int)
  deriving DecidableEq

def pipeRead : Nat → Pipe → (count total : Nat) → Option Outcome
  | 0, _, _, _ => none
  | fuel + 1, p, count, total =>
    match pipeReadPass p count total with
    | .again p bytes => pipeRead fuel p count (total + bytes.length)
    | .sleep => some .sleeps
    | .done ret => some (.returns ret)

def ReturnsAtOnce (p : Pipe) (count : Nat) : Prop :=
  ∃ fuel ret, pipeRead fuel p count 0 = some (.returns ret)

/- What readiness promises on one end, for a read of `count` bytes and a write of
`data`. An end that takes no reads promises nothing about them. -/
structure PollAgrees (p : Pipe) (flags count : Nat) (data : List UInt8) : Prop where
  readable : takesReads flags → (reportsReadable p flags ↔ (pipeReadNonblock p count).1 ≠ -EAGAIN)
  writable : takesWrites flags → (reportsWritable p flags ↔ (pipeWriteNonblock p data).1 ≠ -EAGAIN)
  blocking : takesReads flags → reportsReadable p flags → ReturnsAtOnce p count

/-! ## What the poll reports -/

theorem endKinds {flags : Nat} (kind : flags &&& O_ACCMODE ≠ 0) :
    (takesReads flags = true ∧ takesWrites flags = false ∧ flags &&& O_WRONLY = 0) ∨
    (takesReads flags = false ∧ takesWrites flags = true ∧ flags &&& O_WRONLY ≠ 0) ∨
    (takesReads flags = true ∧ takesWrites flags = true ∧ flags &&& O_WRONLY ≠ 0) := by
  have low : flags &&& O_WRONLY = flags &&& O_ACCMODE &&& O_WRONLY := by
    rw [Nat.and_assoc]
    rfl
  have modes : flags &&& O_ACCMODE = 1 ∨ flags &&& O_ACCMODE = 2 ∨ flags &&& O_ACCMODE = 3 := by
    have small : flags &&& O_ACCMODE ≤ O_ACCMODE := Nat.and_le_right
    simp only [O_ACCMODE] at kind small ⊢
    omega
  have reads : takesReads flags = decide (flags &&& O_ACCMODE ≠ O_WRONLY) := rfl
  have writes : takesWrites flags = decide (flags &&& O_ACCMODE ≠ O_RDONLY) := rfl
  rw [low, reads, writes]
  rcases modes with mode | mode | mode <;> rw [mode] <;> decide

theorem readEndReadable {flags : Nat} (p : Pipe) (readEnd : flags &&& O_WRONLY = 0) :
    reportsReadable p flags = true ↔ 0 < p.count ∨ p.writers = 0 := by
  simp only [reportsReadable, pipePoll, readEnd, ne_eq, not_true_eq_false, if_false]
  by_cases data : 0 < p.count
  · simp [data, POLLIN]
  · by_cases gone : p.writers = 0 <;> simp [data, gone, POLLIN, POLLHUP]

theorem writeEndReadable {flags : Nat} (p : Pipe) (writeEnd : flags &&& O_WRONLY ≠ 0) :
    reportsReadable p flags = false := by
  simp only [reportsReadable, pipePoll, if_pos writeEnd]
  split
  · rfl
  · split <;> rfl

theorem writeEndWritable {flags : Nat} (p : Pipe) (writeEnd : flags &&& O_WRONLY ≠ 0) :
    reportsWritable p flags = true ↔ p.readers = 0 ∨ p.count < PIPE_SIZE := by
  simp only [reportsWritable, pipePoll, if_pos writeEnd]
  by_cases gone : p.readers = 0
  · simp [gone, POLLOUT, POLLERR]
  · by_cases space : p.count < PIPE_SIZE <;> simp [gone, space, POLLOUT, POLLERR]

/-! ## What the calls do -/

theorem countNotAgain {n : Nat} (small : n ≤ PIPE_SIZE) : cInt n ≠ -EAGAIN := by
  rw [cIntSmall (by simp only [PIPE_SIZE] at small; omega)]
  simp only [EAGAIN]
  omega

theorem readNotAgain {p : Pipe} (bound : p.count ≤ PIPE_SIZE) (count : Nat) :
    (pipeReadNonblock p count).1 ≠ -EAGAIN ↔ 0 < p.count ∨ p.writers = 0 := by
  unfold pipeReadNonblock
  by_cases data : 0 < p.count
  · have taken := countNotAgain (Nat.le_trans (Nat.min_le_left p.count count) bound)
    simpa [data] using taken
  · by_cases gone : p.writers = 0 <;> simp [data, gone, EAGAIN]

theorem writeNotAgain {p : Pipe} (bound : p.count ≤ PIPE_SIZE) (data : List UInt8) :
    (pipeWriteNonblock p data).1 ≠ -EAGAIN ↔ p.readers = 0 ∨ p.count < PIPE_SIZE := by
  unfold pipeWriteNonblock
  by_cases gone : p.readers = 0
  · simp [gone, EPIPE, EAGAIN]
  · by_cases full : PIPE_SIZE - p.count = 0
    · simp only [gone, full, if_false, if_true, ne_eq, not_true_eq_false, false_or, false_iff]
      omega
    · have put := countNotAgain (n := min data.length (PIPE_SIZE - p.count)) (by omega)
      simp only [gone, full, if_false, false_or]
      exact ⟨fun _ => by omega, fun _ => put⟩

theorem pipeReadOutcome (p : Pipe) {count : Nat} (positive : 0 < count) (fuel : Nat) :
    pipeRead (fuel + 2) p count 0 =
      if count ≤ p.count then some (.returns (cInt count))
      else if p.writers = 0 then some (.returns (cInt p.count))
      else some .sleeps := by
  by_cases data : 0 < p.count
  · have first : pipeReadPass p count 0 =
        .again (p.take (min p.count count)).1 (p.take (min p.count count)).2 := by
      simp [pipeReadPass, positive, data]
    simp only [pipeRead, first, takeLength, Nat.zero_add]
    by_cases enough : count ≤ p.count
    · simp [pipeReadPass, enough]
    · have short : min p.count count = p.count := by omega
      by_cases gone : p.writers = 0 <;>
        simp [pipeReadPass, short, enough, gone, Pipe.take, show p.count < count by omega]
  · have empty : p.count = 0 := by omega
    by_cases gone : p.writers = 0 <;>
      simp [pipeRead, pipeReadPass, positive, empty, gone, show ¬ count = 0 by omega]

theorem pipeReadMore {fuel : Nat} {p : Pipe} {count total : Nat} {outcome : Outcome}
    (ended : pipeRead fuel p count total = some outcome) (more : Nat) :
    pipeRead (fuel + more) p count total = some outcome := by
  induction fuel generalizing p total with
  | zero => simp [pipeRead] at ended
  | succ fuel ih =>
    rw [Nat.succ_add]
    unfold pipeRead at ended ⊢
    cases moved : pipeReadPass p count total with
    | again p bytes =>
      simp only [moved] at ended ⊢
      exact ih ended
    | sleep => simpa only [moved] using ended
    | done ret => simpa only [moved] using ended

theorem returnsAtOnceIff (p : Pipe) {count : Nat} (positive : 0 < count) :
    ReturnsAtOnce p count ↔ count ≤ p.count ∨ p.writers = 0 := by
  constructor
  · rintro ⟨fuel, ret, ended⟩
    have same := pipeReadMore ended 2
    rw [pipeReadOutcome p positive] at same
    split at same
    · left; assumption
    · split at same
      · right; assumption
      · cases same
  · intro enough
    have ended := pipeReadOutcome p positive 0
    by_cases whole : count ≤ p.count
    · exact ⟨2, cInt count, by simpa [whole] using ended⟩
    · exact ⟨2, cInt p.count, by simpa [whole, enough.resolve_left whole] using ended⟩

/-! ## Agreement -/

/- Some bytes, but fewer than the read asks for, and a writer left: the poll says
readable, and pipe_read takes the bytes and goes to sleep for the rest. -/
def partlyFilled (p : Pipe) (count : Nat) : Prop :=
  0 < p.count ∧ p.count < count ∧ p.writers ≠ 0

/- An end opened both ways is never reported readable, whatever a read would get. -/
def readableHidden (p : Pipe) : Prop := 0 < p.count ∨ p.writers = 0

/-- What the poll of an end promises is kept in exactly these states. -/
theorem pollAgreesIff {p : Pipe} {flags count : Nat} (data : List UInt8)
    (ok : RingOk p) (kind : flags &&& O_ACCMODE ≠ 0) (positive : 0 < count) :
    PollAgrees p flags count data ↔
      (takesReads flags ∧ ¬ takesWrites flags → ¬ partlyFilled p count) ∧
        (takesReads flags ∧ takesWrites flags → ¬ readableHidden p) := by
  have reads := readNotAgain ok.bound count
  have writes := writeNotAgain ok.bound data
  rcases endKinds kind with ⟨r, w, bit⟩ | ⟨r, w, bit⟩ | ⟨r, w, bit⟩
  · -- read end: only the blocking read can fall short
    have polled := readEndReadable p bit
    have agrees : PollAgrees p flags count data ↔
        (0 < p.count ∨ p.writers = 0 → ReturnsAtOnce p count) := by
      constructor
      · intro agrees ready
        exact agrees.blocking r (polled.mpr ready)
      · intro returned
        exact ⟨fun _ => polled.trans reads.symm, fun takes => by simp [w] at takes,
          fun _ ready => returned (polled.mp ready)⟩
    rw [agrees, returnsAtOnceIff p positive]
    simp only [r, w, partlyFilled]
    grind
  · -- write end: both sides look at the same two numbers
    have polled := writeEndWritable p bit
    have agrees : PollAgrees p flags count data :=
      ⟨fun takes => by simp [r] at takes, fun _ => polled.trans writes.symm,
        fun takes => by simp [r] at takes⟩
    simp [agrees, r]
  · have never := writeEndReadable p bit
    have polled := writeEndWritable p bit
    have agrees : PollAgrees p flags count data ↔ ¬ (0 < p.count ∨ p.writers = 0) := by
      constructor
      · intro agrees ready
        have shown := (agrees.readable r).mpr (reads.mpr ready)
        rw [never] at shown
        cases shown
      · intro notReady
        refine ⟨fun _ => ?_, fun _ => polled.trans writes.symm, fun _ shown => ?_⟩
        · rw [never, reads]
          simp [notReady]
        · rw [never] at shown
          cases shown
    rw [agrees]
    simp [r, w, readableHidden]

def oneByte : Pipe := {pipeCreate (fun _ => 0) with head := 1, count := 1}

theorem oneByteRing : RingOk oneByte := ⟨by decide, rfl⟩

theorem oneBytePoll :
    PollAgrees oneByte O_RDONLY 1 [0] ∧ ¬ PollAgrees oneByte O_RDWR 1 [0] := by
  constructor
  · rw [pollAgreesIff [0] oneByteRing (by decide) (by decide)]
    simp [partlyFilled, oneByte, takesWrites, O_RDONLY, O_RDWR]
  · rw [pollAgreesIff [0] oneByteRing (by decide) (by decide)]
    simp [readableHidden, oneByte, takesReads, takesWrites, O_RDONLY, O_WRONLY, O_RDWR]

/-- A byte is there, so the poll says readable; a read of two bytes then sleeps, though
pipe_read is said to block while the pipe is empty. -/
theorem readablePipeSleeps :
    ¬ ∀ (p : Pipe) (flags count : Nat) (data : List UInt8), RingOk p →
      flags &&& O_ACCMODE ≠ 0 → 0 < count → PollAgrees p flags count data := by
  intro claimed
  have agrees := claimed oneByte O_RDONLY 2 [0] oneByteRing (by decide) (by decide)
  have returned := agrees.blocking (by decide) (by decide)
  rw [returnsAtOnceIff oneByte (by decide)] at returned
  exact absurd returned (by decide)

end Scepter.PipeIo
