import Scepter.Fs.Descriptors
import Scepter.Fs.Fifo

/-! What pipe, dup and dup2 leave behind where they fail (fs/vfs.c, kernel/syscall.c): the
task's descriptor table with its next_fd, the open files with their counts and the pipes
with the counts of their ends. `next` and `nextPipe` number what has been allocated so
far; an open file that was freed has the count 0. -/
namespace Scepter.Descriptors.FailedCalls
open OpenFiles (FdEntry)
open Fifo (AccMode Object)
open PipeIo (pipeCreate)

structure File where
  refcount : Int
  mode : AccMode
  pipe : Option Nat

structure State where
  files : Nat → File
  next : Nat
  objects : Nat → Object
  nextPipe : Nat
  task : Task

def setFile (s : State) (id : Nat) (file : File) : State :=
  {s with files := Function.update s.files id file}

def takeRef (s : State) (id : Nat) : State :=
  setFile s id {s.files id with refcount := (s.files id).refcount + 1}

/-! ## Pipes -/

def allocPipe (s : State) : State :=
  {s with
    objects := Function.update s.objects s.nextPipe ⟨pipeCreate (fun _ => 0), 0⟩
    nextPipe := s.nextPipe + 1}

def setPipe (s : State) (p : Nat) (pipe : PipeIo.Pipe) : State :=
  let frees := (s.objects p).frees
  let object : Object := ⟨pipe, if pipe.unreferenced then frees + 1 else frees⟩
  {s with objects := Function.update s.objects p object}

def pipeReadRelease (s : State) (p : Nat) : State := setPipe s p (s.objects p).pipe.readRelease

def pipeWriteRelease (s : State) (p : Nat) : State := setPipe s p (s.objects p).pipe.writeRelease

/-! ## Open files and descriptors -/

def allocOpenFile (s : State) (mode : AccMode) (pipe : Nat) : State :=
  {setFile s s.next ⟨1, mode, some pipe⟩ with next := s.next + 1}

-- kfree of an open file that no entry has been made for; its pipe keeps the end
def kfreeFile (s : State) (id : Nat) : State := setFile s id {s.files id with refcount := 0}

def releasePipe (s : State) (file : File) : State :=
  match file.pipe with
  | none => s
  | some p => match file.mode with
    | .readWrite => pipeReadRelease (pipeWriteRelease s p) p
    | .write => pipeWriteRelease s p
    | .read => pipeReadRelease s p

def openFilePut (s : State) (id : Nat) : State :=
  let file := {s.files id with refcount := (s.files id).refcount - 1}
  let s := setFile s id file
  if file.refcount = 0 then releasePipe s file else s

def findFdEntry (s : State) (fd : Int) : Option FdEntry := s.task.files.find? fun e => e.fd = fd

def freeFdEntry (s : State) (fd : Int) : State :=
  {s with task := {s.task with files := s.task.files.eraseP fun e => e.fd = fd}}

def addEntry (s : State) (e : FdEntry) (nextFd : Int) : State :=
  {s with task := {s.task with files := s.task.files ++ [e], nextFd := nextFd}}

def fsClose (s : State) (fd : Int) : State :=
  match findFdEntry s fd with
  | none => s
  | some e => freeFdEntry (openFilePut s e.file) fd

/-! ## The calls -/

def fsPipe (s : State) (room : PipeRoom) : State × Int :=
  if atLimit s.task 2 then (s, -1)
  else if !room.pipe then (s, -1)
  else
    let pipe := s.nextPipe
    let s := allocPipe s
    if !room.rfile then (pipeReadRelease s pipe, -1)
    else
      let rfile := s.next
      let s := allocOpenFile s .read pipe
      if !room.rfde then (pipeReadRelease (kfreeFile s rfile) pipe, -1)
      else
        let rfd := s.task.nextFd
        let s := addEntry s ⟨rfd, rfile, false⟩ (cInt (rfd + 1))
        if !room.wfile then (pipeWriteRelease (fsClose s rfd) pipe, -1)
        else
          let wfile := s.next
          let s := allocOpenFile s .write pipe
          if !room.wfde then (pipeWriteRelease (fsClose (kfreeFile s wfile) rfd) pipe, -1)
          else
            let wfd := s.task.nextFd
            (addEntry s ⟨wfd, wfile, false⟩ (cInt (wfd + 1)), 0)

def sysPipe (s : State) (present writable : Bool) (room : PipeRoom) : State × Int :=
  if !present then (s, -EFAULT)
  else
    let made := fsPipe s room
    if made.2 < 0 then (made.1, -ENFILE)
    else if !writable then (made.1, -EFAULT)
    else (made.1, 0)

/-- The search of fs_dup_min, which does not end where every int is in use. -/
def freeFrom (fds : List Int) : Nat → Int → Option Int
  | 0, _ => none
  | fuel + 1, newfd => if newfd ∈ fds then freeFrom fds fuel (cInt (newfd + 1)) else some newfd

def share (s : State) (old : FdEntry) (newfd : Int) (cloexec : Bool) : State :=
  addEntry (takeRef s old.file) ⟨newfd, old.file, cloexec⟩ (bumped s.task newfd)

def fsDupMin (s : State) (oldfd minfd : Int) (cloexec room : Bool) : Option (State × Int) :=
  match findFdEntry s oldfd with
  | none => some (s, -1)
  | some old =>
    match freeFrom (s.task.files.map FdEntry.fd) (2 ^ 32) minfd with
    | none => none
    | some newfd =>
      if !room then some (s, -1)
      else some (share s old newfd cloexec, newfd)

def setCloexec (s : State) (fd : Int) (cloexec : Bool) : State :=
  {s with task := {s.task with files := s.task.files.map fun e =>
    if e.fd = fd then {e with cloexec := cloexec} else e}}

def fsDup2Fd (s : State) (oldfd newfd : Int) (cloexec room : Bool) : State × Int :=
  if newfd < 0 then (s, -1)
  else if oldfd = newfd then
    match findFdEntry s oldfd with
    | none => (s, -1)
    | some _ => (setCloexec s oldfd cloexec, newfd)
  else match findFdEntry s oldfd with
    | none => (s, -1)
    | some old =>
      let s := fsClose s newfd
      if !room then (s, -1)
      else (share s old newfd cloexec, newfd)

-- What sys_dup and sys_dup2 make of a negative result.
def orBadf (r : Int) : Int := if r < 0 then -EBADF else r

inductive Call where
  | pipe (present writable : Bool) (room : PipeRoom)
  | dup (oldfd : Int) (room : Bool)
  | dup2 (oldfd newfd : Int) (cloexec room : Bool)

def perform (s : State) : Call → Option (State × Int)
  | .pipe present writable room => some (sysPipe s present writable room)
  | .dup oldfd room => (fsDupMin s oldfd 0 false room).map fun made => (made.1, orBadf made.2)
  | .dup2 oldfd newfd cloexec room =>
    let made := fsDup2Fd s oldfd newfd cloexec room
    some (made.1, orBadf made.2)

/-! ## What a failing call leaves -/

def count (s : State) (id : Nat) : Int := if id < s.next then (s.files id).refcount else 0

def Live (s : State) (p : Nat) : Prop := p < s.nextPipe ∧ (s.objects p).frees = 0

structure Unchanged (s s' : State) : Prop where
  task : s'.task = s.task
  counts : ∀ id, count s' id = count s id
  live : ∀ p, Live s' p ↔ Live s p
  ends : ∀ p, Live s p → (s'.objects p).pipe.readers = (s.objects p).pipe.readers ∧
    (s'.objects p).pipe.writers = (s.objects p).pipe.writers

def LeavesAsWas (s : State) (c : Call) : Prop :=
  ∀ s' r, perform s c = some (s', r) → r < 0 → Unchanged s s'

def IsInt (n : Int) : Prop := -2 ^ 31 ≤ n ∧ n ≤ INT_MAX

/-- pipe: it stops at the array, the limit or the pipe's own allocation, or nothing fails.
dup: an int from 0 on is free (or no int at all is). dup2: nothing was closed when the
allocation failed. -/
def Undone (s : State) : Call → Prop
  | .pipe present writable room => present = false ∨ atLimit s.task 2 = true ∨ room.pipe = false ∨
    (writable = true ∧ room.rfile = true ∧ room.rfde = true ∧ room.wfile = true ∧ room.wfde = true)
  | .dup oldfd room => room = false ∨ findFdEntry s oldfd = none ∨
    (∃ n, 0 ≤ n ∧ n ≤ INT_MAX ∧ n ∉ s.task.files.map FdEntry.fd) ∨
    (∀ n, IsInt n → n ∈ s.task.files.map FdEntry.fd)
  | .dup2 oldfd newfd _ room => room = true ∨ newfd < 0 ∨ oldfd = newfd ∨
    findFdEntry s oldfd = none ∨ findFdEntry s newfd = none

variable {s s' : State} {fd : Int}

theorem unchangedRefl (s : State) : Unchanged s s :=
  ⟨rfl, fun _ => rfl, fun _ => Iff.rfl, fun _ _ => ⟨rfl, rfl⟩⟩

theorem cIntInt (n : Int) : IsInt (cInt n) := by
  have low := @Int.le_bmod n (2 ^ 32) (by decide)
  have high := @Int.bmod_lt n (2 ^ 32) (by decide)
  unfold IsInt cInt INT_MAX
  omega

theorem cIntEmod (n : Int) : cInt n % 2 ^ 32 = n % 2 ^ 32 := by
  unfold cInt
  exact Int.bmod_emod

theorem cIntSame {n m : Int} (same : n % 2 ^ 32 = m % 2 ^ 32) : cInt n = cInt m := by
  have modulus : ((2 ^ 32 : Nat) : Int) = 2 ^ 32 := by decide
  unfold cInt
  rw [Int.bmod_def, Int.bmod_def, modulus, same]

theorem counterMoves (n : Int) : cInt (n + 1) ≠ n := by
  intro same
  have both := cIntEmod (n + 1)
  rw [same] at both
  omega

theorem movedCounter (moved : s'.task.nextFd = cInt (s.task.nextFd + 1)) : ¬ Unchanged s s' := by
  intro same
  rw [same.task] at moved
  exact counterMoves _ moved.symm

theorem longerTable (longer : s'.task.files.length ≠ s.task.files.length) : ¬ Unchanged s s' :=
  fun same => longer (by rw [same.task])

theorem leakedPipe (next : s'.nextPipe = s.nextPipe + 1)
    (frees : (s'.objects s.nextPipe).frees = 0) : ¬ Unchanged s s' := by
  intro same
  have old := (same.live s.nextPipe).mp ⟨by omega, frees⟩
  exact Nat.lt_irrefl _ old.1

/-! ### The steps on the counter, the table and the pipe -/

@[simp] theorem readReleaseTask (p : Nat) : (pipeReadRelease s p).task = s.task := rfl

@[simp] theorem writeReleaseTask (p : Nat) : (pipeWriteRelease s p).task = s.task := rfl

@[simp] theorem openFilePutTask (id : Nat) : (openFilePut s id).task = s.task := by
  unfold openFilePut
  dsimp only
  split
  · unfold releasePipe
    dsimp only
    split
    · rfl
    · split <;> rfl
  · rfl

theorem fsCloseNextFd : (fsClose s fd).task.nextFd = s.task.nextFd := by
  unfold fsClose
  split
  · rfl
  · show (openFilePut s _).task.nextFd = _
    rw [openFilePutTask]

theorem fsCloseFiles :
    (fsClose s fd).task.files = s.task.files.eraseP fun e => e.fd = fd := by
  unfold fsClose
  split <;> rename_i found
  · rw [List.eraseP_of_forall_not]
    intro e member
    exact List.find?_eq_none.mp found e member
  · show (openFilePut s _).task.files.eraseP _ = _
    rw [openFilePutTask]

theorem readReleaseFresh : ((pipeReadRelease (allocPipe s) s.nextPipe).objects s.nextPipe).frees = 0 := by
  unfold pipeReadRelease setPipe allocPipe
  simp only [Function.update_self]
  rfl

theorem fsPipeRefused {room : PipeRoom} (refused : atLimit s.task 2 = true ∨ room.pipe = false) :
    fsPipe s room = (s, -1) := by
  unfold fsPipe
  rcases refused with limit | pipe
  · rw [if_pos limit]
  · rw [pipe]
    split <;> rfl

def endsMade (room : PipeRoom) : Prop :=
  room.rfile = true ∧ room.rfde = true ∧ room.wfile = true ∧ room.wfde = true

theorem fsPipeMade {room : PipeRoom} (limit : atLimit s.task 2 = false) (pipe : room.pipe = true)
    (made : endsMade room) : (fsPipe s room).2 = 0 ∧
      (fsPipe s room).1.task.files.length = s.task.files.length + 2 := by
  obtain ⟨rfile, rfde, wfile, wfde⟩ := made
  unfold fsPipe
  simp only [limit, pipe, rfile, rfde, wfile, wfde, Bool.not_true, Bool.false_eq_true, if_false]
  refine ⟨trivial, ?_⟩
  show ((s.task.files ++ [_]) ++ [_]).length = _
  rw [List.length_append, List.length_append, List.length_singleton, List.length_singleton]

theorem fsPipeFailed {room : PipeRoom} (limit : atLimit s.task 2 = false)
    (pipe : room.pipe = true) (short : ¬ endsMade room) :
    (fsPipe s room).2 = -1 ∧ ¬ Unchanged s (fsPipe s room).1 := by
  unfold fsPipe
  simp only [limit, pipe, Bool.not_true, Bool.false_eq_true, if_false]
  cases rfile : room.rfile with
  | false => exact ⟨rfl, leakedPipe rfl readReleaseFresh⟩
  | true =>
    cases rfde : room.rfde with
    | false => exact ⟨rfl, leakedPipe rfl readReleaseFresh⟩
    | true =>
      cases wfile : room.wfile with
      | false =>
        refine ⟨rfl, movedCounter ?_⟩
        show (pipeWriteRelease (fsClose _ _) _).task.nextFd = _
        rw [writeReleaseTask, fsCloseNextFd]
        rfl
      | true =>
        cases wfde : room.wfde with
        | false =>
          refine ⟨rfl, movedCounter ?_⟩
          show (pipeWriteRelease (fsClose _ _) _).task.nextFd = _
          rw [writeReleaseTask, fsCloseNextFd]
          rfl
        | true => exact absurd ⟨rfile, rfde, wfile, wfde⟩ short

theorem pipeIff (present writable : Bool) (room : PipeRoom) :
    LeavesAsWas s (.pipe present writable room) ↔ Undone s (.pipe present writable room) := by
  have only : LeavesAsWas s (.pipe present writable room) ↔
      ((sysPipe s present writable room).2 < 0 →
        Unchanged s (sysPipe s present writable room).1) := by
    constructor
    · intro leaves failed
      exact leaves _ _ rfl failed
    · intro leaves s' r ran failed
      have same := Option.some.inj ran
      rw [same] at leaves
      exact leaves failed
  rw [only]
  unfold sysPipe Undone
  cases present with
  | false => simp [unchangedRefl]
  | true =>
    simp only [Bool.not_true, Bool.false_eq_true, if_false, reduceCtorEq, false_or]
    by_cases refused : atLimit s.task 2 = true ∨ room.pipe = false
    · rw [fsPipeRefused refused, ← or_assoc]
      exact ⟨fun _ => .inl refused, fun _ _ => unchangedRefl s⟩
    · have limit : atLimit s.task 2 = false := by simpa using fun hit => refused (.inl hit)
      have pipe : room.pipe = true := by simpa using fun none => refused (.inr none)
      simp only [limit, pipe, reduceCtorEq, Bool.false_eq_true, false_or]
      by_cases made : endsMade room
      · obtain ⟨ok, longer⟩ := fsPipeMade limit pipe made
        have changed : ¬ Unchanged s (fsPipe s room).1 := longerTable (by omega)
        rw [ok, if_neg (by decide)]
        cases writable with
        | false => simpa [EFAULT] using changed
        | true => exact ⟨fun _ => ⟨rfl, made⟩, fun _ failed => absurd failed (Int.lt_irrefl 0)⟩
      · obtain ⟨failed, changed⟩ := fsPipeFailed limit pipe made
        rw [failed, if_pos (by decide)]
        exact ⟨fun leaves => absurd (leaves (show (-ENFILE : Int) < 0 by decide)) changed,
          fun all => absurd all.2 made⟩

/-! ### dup and dup2 -/

theorem freeFromFresh {fds : List Int} {fuel : Nat} {n r : Int} (int : IsInt n)
    (found : freeFrom fds fuel n = some r) : r ∉ fds ∧ IsInt r := by
  induction fuel generalizing n with
  | zero => cases found
  | succ fuel ih =>
    unfold freeFrom at found
    split at found <;> rename_i used
    · exact ih (cIntInt _) found
    · cases found
      exact ⟨used, int⟩

theorem freeFromNone {fds : List Int} {fuel : Nat} {n : Int}
    (none : freeFrom fds fuel (cInt n) = none) : ∀ k < fuel, cInt (n + k) ∈ fds := by
  induction fuel generalizing n with
  | zero => exact fun k below => absurd below (Nat.not_lt_zero k)
  | succ fuel ih =>
    unfold freeFrom at none
    split at none <;> rename_i used
    · have wraps : cInt (cInt n + 1) = cInt (n + 1) := cIntSame (by
        have same := cIntEmod n
        omega)
      rw [wraps] at none
      intro k below
      cases k with
      | zero => simpa using used
      | succ k =>
        have later := ih none k (Nat.lt_of_succ_lt_succ below)
        rwa [show n + ((k + 1 : Nat) : Int) = n + 1 + k by omega]
    · cases none

theorem freeFromLow {fds : List Int} (fuel : Nat) {n m : Int} (low : 0 ≤ n) (ahead : n ≤ m)
    (high : m ≤ INT_MAX) (free : m ∉ fds) (enough : m < n + fuel) :
    ∃ r, freeFrom fds fuel n = some r ∧ 0 ≤ r := by
  induction fuel generalizing n with
  | zero => omega
  | succ fuel ih =>
    unfold freeFrom
    split <;> rename_i used
    · have other : n ≠ m := fun same => free (same ▸ used)
      rw [cIntSmall (by omega) (by omega)]
      exact ih (by omega) (by omega) (by omega)
    · exact ⟨n, rfl, low⟩

theorem intReached {n : Int} (int : IsInt n) : ∃ k < 2 ^ 32, cInt (0 + (k : Nat)) = n := by
  refine ⟨(n % 2 ^ 32).toNat, by omega, ?_⟩
  have same : cInt (0 + ((n % 2 ^ 32).toNat : Int)) = cInt n := cIntSame (by omega)
  have self : cInt n = n := by
    have both := cIntEmod n
    have range := cIntInt n
    unfold IsInt INT_MAX at int range
    omega
  rw [same, self]

theorem orBadfNegative (r : Int) : orBadf r < 0 ↔ r < 0 := by
  unfold orBadf EBADF
  split <;> omega

theorem shareLonger (old : FdEntry) (newfd : Int) (cloexec : Bool) :
    ¬ Unchanged s (share s old newfd cloexec) := by
  refine longerTable ?_
  show (s.task.files ++ [_]).length ≠ _
  rw [List.length_append, List.length_singleton]
  omega

theorem dupIff (oldfd : Int) (room : Bool) :
    LeavesAsWas s (.dup oldfd room) ↔ Undone s (.dup oldfd room) := by
  show _ ↔ room = false ∨ findFdEntry s oldfd = none ∨ _ ∨ _
  cases found : findFdEntry s oldfd with
  | none =>
    have fails : perform s (.dup oldfd room) = some (s, orBadf (-1)) := by
      show (fsDupMin s oldfd 0 false room).map _ = _
      unfold fsDupMin
      rw [found]
      rfl
    refine ⟨fun _ => .inr (.inl rfl), fun _ s' r ran _ => ?_⟩
    rw [fails] at ran
    cases ran
    exact unchangedRefl s
  | some old =>
    cases searched : freeFrom (s.task.files.map FdEntry.fd) (2 ^ 32) 0 with
    | none =>
      have all : ∀ n, IsInt n → n ∈ s.task.files.map FdEntry.fd := by
        intro n int
        obtain ⟨k, below, same⟩ := intReached int
        exact same ▸ freeFromNone (n := 0) searched k below
      have hangs : perform s (.dup oldfd room) = none := by
        show (fsDupMin s oldfd 0 false room).map _ = _
        unfold fsDupMin
        rw [found]
        dsimp only
        rw [searched]
        rfl
      refine ⟨fun _ => .inr (.inr (.inr all)), fun _ s' r ran => ?_⟩
      rw [hangs] at ran
      cases ran
    | some newfd =>
      obtain ⟨fresh, int⟩ := freeFromFresh (r := newfd) ⟨by decide, by decide⟩ searched
      have made : perform s (.dup oldfd room) =
          some (if room then (share s old newfd false, orBadf newfd) else (s, orBadf (-1))) := by
        show (fsDupMin s oldfd 0 false room).map _ = _
        unfold fsDupMin
        rw [found]
        dsimp only
        rw [searched]
        cases room <;> rfl
      cases room with
      | false =>
        refine ⟨fun _ => .inl rfl, fun _ s' r ran _ => ?_⟩
        rw [made] at ran
        cases ran
        exact unchangedRefl s
      | true =>
        simp only [reduceCtorEq, false_or]
        constructor
        · intro leaves
          have low : ¬ newfd < 0 := fun negative =>
            shareLonger old newfd false (leaves _ _ made ((orBadfNegative newfd).mpr negative))
          exact .inl ⟨newfd, by omega, int.2, fresh⟩
        · rintro (⟨n, low, high, free⟩ | all) s' r ran failed
          · obtain ⟨r', found', low'⟩ := freeFromLow (2 ^ 32) (Int.le_refl 0) low high free
              (by unfold INT_MAX at high; omega)
            cases searched.symm.trans found'
            rw [made] at ran
            cases ran
            have negative := (orBadfNegative newfd).mp failed
            omega
          · exact absurd (all newfd int) fresh

theorem dup2Iff (oldfd newfd : Int) (cloexec room : Bool) :
    LeavesAsWas s (.dup2 oldfd newfd cloexec room) ↔ Undone s (.dup2 oldfd newfd cloexec room) := by
  have only : LeavesAsWas s (.dup2 oldfd newfd cloexec room) ↔
      ((fsDup2Fd s oldfd newfd cloexec room).2 < 0 →
        Unchanged s (fsDup2Fd s oldfd newfd cloexec room).1) := by
    constructor
    · intro leaves failed
      exact leaves _ _ rfl ((orBadfNegative _).mpr failed)
    · intro leaves s' r ran failed
      cases ran
      exact leaves ((orBadfNegative _).mp failed)
  rw [only]
  show (_ ↔ room = true ∨ newfd < 0 ∨ oldfd = newfd ∨ findFdEntry s oldfd = none ∨
    findFdEntry s newfd = none)
  unfold fsDup2Fd
  by_cases negative : newfd < 0
  · rw [if_pos negative]
    exact ⟨fun _ => .inr (.inl negative), fun _ _ => unchangedRefl s⟩
  · rw [if_neg negative]
    by_cases same : oldfd = newfd
    · rw [if_pos same]
      refine ⟨fun _ => .inr (.inr (.inl same)), fun _ failed => ?_⟩
      cases found : findFdEntry s oldfd with
      | none => exact unchangedRefl s
      | some e =>
        rw [found] at failed
        exact absurd failed negative
    · rw [if_neg same]
      cases found : findFdEntry s oldfd with
      | none => exact ⟨fun _ => .inr (.inr (.inr (.inl rfl))), fun _ _ => unchangedRefl s⟩
      | some old =>
        cases room with
        | true => exact ⟨fun _ => .inl rfl, fun _ failed => absurd failed negative⟩
        | false =>
          simp only [Bool.not_false, if_true, reduceCtorEq, negative, same, false_or]
          cases target : findFdEntry s newfd with
          | none =>
            have stays : fsClose s newfd = s := by
              unfold fsClose
              rw [target]
            rw [stays]
            exact ⟨fun _ => rfl, fun _ _ => unchangedRefl s⟩
          | some e =>
            refine ⟨fun leaves => absurd (leaves (by decide)) (longerTable ?_), fun none => ?_⟩
            · rw [fsCloseFiles]
              have member : e ∈ s.task.files := List.mem_of_find?_eq_some target
              have hit : decide (e.fd = newfd) = true := by
                have number := List.find?_some target
                exact number
              have shorter := List.length_eraseP_of_mem (p := fun e => decide (e.fd = newfd)) member hit
              have some := List.length_pos_of_mem member
              omega
            · cases none

/-- A failing pipe, dup or dup2 leaves the table, the counter, the counts and the pipes as they
were exactly where its undo has nothing to undo. -/
theorem failedCallIff (s : State) (c : Call) : LeavesAsWas s c ↔ Undone s c := by
  cases c with
  | pipe present writable room => exact pipeIff present writable room
  | dup oldfd room => exact dupIff oldfd room
  | dup2 oldfd newfd cloexec room => exact dup2Iff oldfd newfd cloexec room

def threeOpen : State :=
  ⟨fun _ => ⟨1, .readWrite, none⟩, 3, fun _ => ⟨pipeCreate (fun _ => 0), 1⟩, 0,
    ⟨[⟨0, 0, false⟩, ⟨1, 1, false⟩, ⟨2, 2, false⟩], 3, none, false⟩⟩

/-- pipe into an array that the task can read only: two descriptors stay open. -/
theorem readOnlyArray : ¬ ∀ s c, LeavesAsWas s c := by
  intro claimed
  have leaves := claimed threeOpen (.pipe true false ⟨true, true, true, true, true⟩)
  have same := leaves _ _ rfl (by decide)
  exact absurd (congrArg (fun task : Task => task.files.length) same.task) (by decide)

end Scepter.Descriptors.FailedCalls
