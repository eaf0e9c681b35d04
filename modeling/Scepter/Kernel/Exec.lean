import Scepter.Fs.Descriptors
import Scepter.Kernel.Elf

/-! do_exec (kernel/process.c) with all its error returns, the copies of argv and
envp and the initial stack. The contents of the pages that a load has mapped are not
followed. cr3 is the page directory that the processor has. -/
namespace Scepter.Exec
open Mm (Arch PAGE_SIZE)
open Regions (Vma MmStruct)
open OpenFiles (FdEntry)
open Elf (Bytes Resources)

def EXEC_MAX_ARGS : Nat := 32
def EXEC_MAX_STR : Nat := 128
def EXEC_MAX_DATA : Nat := 1024
def NSIG : Nat := 32

structure User where
  valid : Nat → Nat → Bool
  bytes : Buf

def copyString (user : User) : Nat → Nat → Option Bytes
  | _, 0 => some []
  | addr, limit + 1 =>
    if !user.valid addr 1 then none
    else if user.bytes addr = 0 then some []
    else (copyString user (addr + 1) limit).map (user.bytes addr :: ·)

def copyStrings (arch : Arch) (user : User) : Nat → Nat → Nat → Option (List Bytes)
  | _, _, 0 => some []
  | ptr, dataLen, room + 1 =>
    let word := arch.wordBits / 8
    if !user.valid ptr word then none
    else
      let uptr := user.bytes.load ptr word
      if uptr = 0 then some []
      else match copyString user uptr (EXEC_MAX_STR - 1) with
        | none => none
        | some str =>
          let len := str.length + 1
          if dataLen + len > EXEC_MAX_DATA then none
          else (copyStrings arch user (ptr + word) (dataLen + len) room).map (str :: ·)

def copyExecStrings (arch : Arch) (user : User) (ptrs : Nat) : Option (List Bytes) :=
  if ptrs = 0 then some [] else copyStrings arch user ptrs 0 (EXEC_MAX_ARGS - 1)

def dataLen (strings : List Bytes) : Nat := (strings.map fun str => str.length + 1).sum

def setupInitialStack (arch : Arch) (argv envp : List Bytes) : Bool :=
  let strBytes := dataLen argv + dataLen envp
  let ptrBytes := arch.wordBits / 8 * (argv.length + envp.length + 3)
  strBytes + ptrBytes + 16 ≤ 8192

def basename (path : Bytes) : Bytes := (path.reverse.takeWhile fun c => c ≠ 0x2F).reverse

def taskName (path : Bytes) : Bytes := (basename path).take 31

structure Signals where
  sigHandlers : List Nat
  sigHmask : List Nat
  sigHflags : List Nat
  pending : Nat
  blocked : Nat
  sigActive : Bool
  stopSig : Nat
  stopReported : Bool
  continued : Bool
  deriving DecidableEq

def noSignals : Signals :=
  let zeros := List.replicate NSIG 0
  ⟨zeros, zeros, zeros, 0, 0, false, 0, false, false⟩

abbrev Page := Nat → Byte

structure Task where
  name : Bytes
  mm : MmStruct
  pages : Nat → Option Page
  signals : Signals
  files : List FdEntry
  nextFd : Int

inductive Cr3 where
  | kernel | task
  deriving DecidableEq

structure State where
  task : Task
  cr3 : Cr3
  frame : List Nat

/-- The caller's memory, the files, what kalloc and the pages have, and what the
loader has mapped when it ends. -/
structure Env where
  user : User
  disk : Bytes → Option Bytes
  openRoom : Bool
  res : Resources
  mapped : Nat → Option Page

def newFile (files : List FdEntry) : Nat := (files.map FdEntry.file).foldr max 0 + 1

def fsOpen (task : Task) : Task :=
  {task with
    files := task.files ++ [⟨task.nextFd, newFile task.files, false⟩]
    nextFd := Descriptors.cInt (task.nextFd + 1)}

def fsClose (task : Task) (fd : Int) : Task :=
  {task with files := task.files.eraseP fun e => e.fd = fd}

def closeOnExec (task : Task) : Task :=
  {task with files := task.files.filter fun e => !e.cloexec}

def tearDown (s : State) : State :=
  {s with
    task := {s.task with
      mm := {s.task.mm with vmaList := []}
      pages := fun _ => none
      signals := noSignals}
    cr3 := .kernel}

def replace (arch : Arch) (env : Env) (file : Bytes) (argv envp : List Bytes) (fd : Int)
    (s : State) : Except Int Unit × State :=
  let s := tearDown s
  match Elf.loadBinary arch env.res file with
  | (none, vmas) =>
    let task := {s.task with mm := {s.task.mm with vmaList := vmas}, pages := env.mapped}
    (.error ENOEXEC, {s with task := fsClose task fd})
  | (some image, vmas) =>
    let task := fsClose {s.task with mm := s.task.mm.withImage image vmas, pages := env.mapped} fd
    if !env.res.supply.stackPages then (.error ENOMEM, {s with task := task})
    else
      let task := {task with mm :=
        {task.mm with vmaList := Regions.addStack arch env.res.supply task.mm.vmaList}}
      if !setupInitialStack arch argv envp then (.error E2BIG, {s with task := task})
      else (.ok (), {s with task := closeOnExec task, cr3 := .task})

def openAndReplace (arch : Arch) (env : Env) (path : Bytes) (argv envp : List Bytes) (s : State) :
    Except Int Unit × State :=
  match env.disk path with
  | none => (.error ENOENT, s)
  | some file =>
    if !env.openRoom then (.error ENOENT, s)
    else
      let fd := s.task.nextFd
      let s := {s with task := fsOpen s.task}
      if file.length = 0 ∨ file.length ≥ 2 ^ 31 then
        (.error ENOEXEC, {s with task := fsClose s.task fd})
      else if !Elf.execFormatCheck arch file then
        (.error ENOEXEC, {s with task := fsClose s.task fd})
      else replace arch env file argv envp fd s

def doExec (arch : Arch) (env : Env) (userPath userArgv userEnvp : Nat) (s : State) :
    Except Int Unit × State :=
  match copyString env.user userPath 255 with
  | none => (.error EFAULT, s)
  | some path =>
    let s := {s with task := {s.task with name := taskName path}}
    match copyExecStrings arch env.user userArgv with
    | none => (.error EFAULT, s)
    | some argv => match copyExecStrings arch env.user userEnvp with
      | none => (.error EFAULT, s)
      | some envp =>
        if argv.length = 0 then
          if path.length + 1 > EXEC_MAX_DATA then (.error E2BIG, s)
          else openAndReplace arch env path [path] envp s
        else openAndReplace arch env path argv envp s

/-! ## What an error should leave -/

def start (task : Task) (frame : List Nat) : State := ⟨task, .task, frame⟩

structure Kept (task : Task) (frame : List Nat) (s : State) : Prop where
  name : s.task.name = task.name
  mm : s.task.mm = task.mm
  pages : s.task.pages = task.pages
  signals : s.task.signals = task.signals
  files : s.task.files = task.files
  cr3 : s.cr3 = .task
  frame : s.frame = frame

/-! ## When it does -/

def opened (arch : Arch) (env : Env) (path : Bytes) (userArgv userEnvp : Nat) : Option Bytes :=
  (copyExecStrings arch env.user userArgv).bind fun _ =>
    (copyExecStrings arch env.user userEnvp).bind fun _ =>
      (env.disk path).filter fun _ => env.openRoom

def Refused (arch : Arch) (file : Bytes) : Prop :=
  file.length = 0 ∨ file.length ≥ 2 ^ 31 ∨ Elf.execFormatCheck arch file = false
instance (arch file) : Decidable (Refused arch file) := by unfold Refused; infer_instance

def Loads (arch : Arch) (env : Env) (file : Bytes) : Prop :=
  (Elf.loadBinary arch env.res file).1.isSome = true ∧ env.res.supply.stackPages = true
instance (arch env file) : Decidable (Loads arch env file) := by unfold Loads; infer_instance

/-- An error before the old image is freed leaves the name that it finds, and one
after that does not come. -/
def Clean (arch : Arch) (env : Env) (userPath userArgv userEnvp : Nat) (task : Task) : Prop :=
  ∀ path ∈ copyString env.user userPath 255,
    match opened arch env path userArgv userEnvp with
    | none => taskName path = task.name
    | some file =>
      if Refused arch file then
        taskName path = task.name ∧ ∀ e ∈ task.files, e.fd ≠ task.nextFd
      else Loads arch env file
instance (arch env userPath userArgv userEnvp task) :
    Decidable (Clean arch env userPath userArgv userEnvp task) := by
  unfold Clean
  refine @Option.decidableForallMem _ _ (fun path => ?_) _
  split <;> infer_instance

variable {arch : Arch} {env : Env} {path file : Bytes} {argv envp : List Bytes} {s : State}

/-! ## The strings fit -/

theorem copyStringShort {user : User} {addr limit : Nat} {str : Bytes}
    (copied : copyString user addr limit = some str) : str.length ≤ limit := by
  induction limit generalizing addr str with
  | zero =>
    cases copied
    exact Nat.le_refl 0
  | succ limit ih =>
    unfold copyString at copied
    split at copied
    · cases copied
    · split at copied
      · cases copied
        exact Nat.zero_le _
      · obtain ⟨rest, later, rfl⟩ := Option.map_eq_some_iff.mp copied
        exact Nat.succ_le_succ (ih later)

theorem copyStringsShort {user : User} {ptr used room : Nat} {strings : List Bytes}
    (copied : copyStrings arch user ptr used room = some strings) (low : used ≤ EXEC_MAX_DATA) :
    strings.length ≤ room ∧ used + dataLen strings ≤ EXEC_MAX_DATA := by
  induction room generalizing ptr used strings with
  | zero =>
    cases copied
    exact ⟨Nat.le_refl 0, low⟩
  | succ room ih =>
    unfold copyStrings at copied
    dsimp only at copied
    split at copied
    · cases copied
    · split at copied
      · cases copied
        exact ⟨Nat.zero_le _, low⟩
      · split at copied
        · cases copied
        · split at copied <;> rename_i beyond
          · cases copied
          · obtain ⟨rest, later, rfl⟩ := Option.map_eq_some_iff.mp copied
            obtain ⟨count, data⟩ := ih later (Nat.not_lt.mp beyond)
            refine ⟨Nat.succ_le_succ count, ?_⟩
            unfold dataLen at data ⊢
            rw [List.map_cons, List.sum_cons]
            omega

theorem execStringsShort {user : User} {ptrs : Nat} {strings : List Bytes}
    (copied : copyExecStrings arch user ptrs = some strings) :
    strings.length < EXEC_MAX_ARGS ∧ dataLen strings ≤ EXEC_MAX_DATA := by
  unfold copyExecStrings at copied
  split at copied
  · cases copied
    decide
  · obtain ⟨count, data⟩ := copyStringsShort copied (Nat.zero_le _)
    unfold EXEC_MAX_ARGS at *
    omega

theorem stackFits (built : arch.Built)
    (args : argv.length < EXEC_MAX_ARGS ∧ dataLen argv ≤ EXEC_MAX_DATA)
    (vars : envp.length < EXEC_MAX_ARGS ∧ dataLen envp ≤ EXEC_MAX_DATA) :
    setupInitialStack arch argv envp = true := by
  have word : arch.wordBits / 8 ≤ 8 := by
    rcases built with rfl | rfl <;> decide
  have slots : arch.wordBits / 8 * (argv.length + envp.length + 3) ≤ 8 * 65 := by
    unfold EXEC_MAX_ARGS at *
    exact Nat.mul_le_mul word (by omega)
  unfold setupInitialStack EXEC_MAX_DATA at *
  rw [decide_eq_true_eq]
  omega

/-! ## The outcomes -/

theorem replaceCases (fits : setupInitialStack arch argv envp = true) (fd : Int) (s : State) :
    (Loads arch env file → (replace arch env file argv envp fd s).1 = .ok ()) ∧
    (¬ Loads arch env file → (∃ err, (replace arch env file argv envp fd s).1 = .error err) ∧
      (replace arch env file argv envp fd s).2.cr3 = .kernel) := by
  unfold replace Loads
  dsimp only
  split <;> rename_i loaded
  · rw [loaded]
    exact ⟨fun loads => absurd loads.1 Bool.false_ne_true, fun _ => ⟨⟨_, rfl⟩, rfl⟩⟩
  · rw [loaded]
    split <;> rename_i stack
    · refine ⟨fun loads => ?_, fun _ => ⟨⟨_, rfl⟩, rfl⟩⟩
      rw [loads.2] at stack
      cases stack
    · rw [fits]
      refine ⟨fun _ => rfl, fun fails => absurd ⟨rfl, ?_⟩ fails⟩
      simpa using stack

theorem newFileFresh {files : List FdEntry} {e : FdEntry} (entry : e ∈ files) :
    e.file < newFile files := by
  unfold newFile
  refine Nat.lt_succ_of_le ?_
  induction files with
  | nil => cases entry
  | cons first rest ih =>
    rw [List.map_cons, List.foldr_cons]
    rcases List.mem_cons.mp entry with rfl | later
    · exact Nat.le_max_left _ _
    · exact Nat.le_trans (ih later) (Nat.le_max_right _ _)

theorem openCloseFiles (task : Task) :
    (fsClose (fsOpen task) task.nextFd).files = task.files ↔
      ∀ e ∈ task.files, e.fd ≠ task.nextFd := by
  unfold fsClose fsOpen
  dsimp only
  constructor
  · intro same e entry number
    have hit : ∃ e ∈ task.files, decide (e.fd = task.nextFd) = true :=
      ⟨e, entry, decide_eq_true number⟩
    obtain ⟨found, inside, holds⟩ := hit
    rw [List.eraseP_append_left (p := fun e => decide (e.fd = task.nextFd)) holds _ inside] at same
    have last := List.mem_append_right (task.files.eraseP fun e => decide (e.fd = task.nextFd))
      (List.mem_singleton_self (⟨task.nextFd, newFile task.files, false⟩ : FdEntry))
    rw [same] at last
    exact absurd (newFileFresh last) (Nat.lt_irrefl _)
  · intro free
    rw [List.eraseP_append_right _ fun e entry => by simpa using free e entry]
    simp

theorem openedSome {userArgv userEnvp : Nat}
    (args : copyExecStrings arch env.user userArgv = some argv)
    (vars : copyExecStrings arch env.user userEnvp = some envp) :
    opened arch env path userArgv userEnvp = (env.disk path).filter fun _ => env.openRoom := by
  unfold opened
  rw [args, vars]
  rfl

theorem openCases (fits : setupInitialStack arch argv envp = true) (s : State) :
    match (env.disk path).filter fun _ => env.openRoom with
    | none => openAndReplace arch env path argv envp s = (.error ENOENT, s)
    | some file =>
      (Refused arch file → openAndReplace arch env path argv envp s =
        (.error ENOEXEC, {s with task := fsClose (fsOpen s.task) s.task.nextFd})) ∧
      (¬ Refused arch file →
        (Loads arch env file → (openAndReplace arch env path argv envp s).1 = .ok ()) ∧
        (¬ Loads arch env file →
          (∃ err, (openAndReplace arch env path argv envp s).1 = .error err) ∧
          (openAndReplace arch env path argv envp s).2.cr3 = .kernel)) := by
  unfold openAndReplace
  cases env.disk path with
  | none => rfl
  | some file =>
    cases env.openRoom with
    | false => rfl
    | true =>
      have room : ¬ (!true) = true := Bool.false_ne_true
      dsimp only [Option.filter_some, if_true]
      rw [if_neg room]
      unfold Refused
      constructor
      · intro refused
        split <;> rename_i size
        · rfl
        · rcases refused with empty | large | format
          · exact absurd (Or.inl empty) size
          · exact absurd (Or.inr large) size
          · rw [format]
            rfl
      · intro taken
        simp only [not_or, Bool.not_eq_false] at taken
        rw [if_neg (not_or.mpr ⟨taken.1, taken.2.1⟩), taken.2.2]
        exact replaceCases fits s.task.nextFd {s with task := fsOpen s.task}

theorem execCases (built : arch.Built) (env : Env) {userPath : Nat} (userArgv userEnvp : Nat)
    (s : State) (found : copyString env.user userPath 255 = some path) :
    let named := {s with task := {s.task with name := taskName path}}
    let result := doExec arch env userPath userArgv userEnvp s
    match opened arch env path userArgv userEnvp with
    | none => ∃ err, result = (.error err, named)
    | some file =>
      (Refused arch file → result = (.error ENOEXEC,
        {named with task := fsClose (fsOpen named.task) named.task.nextFd})) ∧
      (¬ Refused arch file → (Loads arch env file → result.1 = .ok ()) ∧
        (¬ Loads arch env file → (∃ err, result.1 = .error err) ∧ result.2.cr3 = .kernel)) := by
  intro named result
  unfold result doExec
  rw [found]
  dsimp only
  cases args : copyExecStrings arch env.user userArgv with
  | none =>
    have missing : opened arch env path userArgv userEnvp = none := by
      unfold opened
      rw [args]
      rfl
    rw [missing]
    exact ⟨_, rfl⟩
  | some argv => cases vars : copyExecStrings arch env.user userEnvp with
    | none =>
      have missing : opened arch env path userArgv userEnvp = none := by
        unfold opened
        rw [args, vars]
        rfl
      rw [missing]
      exact ⟨_, rfl⟩
    | some envp =>
      have short := copyStringShort found
      have argsShort := execStringsShort args
      have varsShort := execStringsShort vars
      have pathShort : ([path] : List Bytes).length < EXEC_MAX_ARGS ∧
          dataLen [path] ≤ EXEC_MAX_DATA := by
        unfold dataLen EXEC_MAX_ARGS EXEC_MAX_DATA
        rw [List.map_singleton, List.sum_singleton, List.length_singleton]
        omega
      have small : ¬ path.length + 1 > EXEC_MAX_DATA := by
        unfold EXEC_MAX_DATA
        omega
      obtain ⟨args', fits, same⟩ : ∃ args', setupInitialStack arch args' envp = true ∧
          (if argv.length = 0 then
            if path.length + 1 > EXEC_MAX_DATA then (.error E2BIG, named)
            else openAndReplace arch env path [path] envp named
          else openAndReplace arch env path argv envp named) =
            openAndReplace arch env path args' envp named := by
        by_cases default : argv.length = 0
        · rw [if_pos default, if_neg small]
          exact ⟨[path], stackFits built pathShort varsShort, rfl⟩
        · rw [if_neg default]
          exact ⟨argv, stackFits built argsShort varsShort, rfl⟩
      have outcome := @openCases arch env path args' envp fits named
      rw [openedSome args vars]
      dsimp only
      rw [same]
      cases held : (env.disk path).filter fun _ => env.openRoom with
      | none =>
        rw [held] at outcome
        exact ⟨ENOENT, outcome⟩
      | some file =>
        rw [held] at outcome
        exact outcome

/-- do_exec leaves its caller as it was whenever it returns an error if and only if
no error comes after the old image is freed, the name is the task's already when one
comes before, and then the number that the file is opened under is free. -/
theorem execKeepsIff (built : arch.Built) (env : Env) (userPath userArgv userEnvp : Nat)
    (task : Task) (frame : List Nat) :
    (∀ err s', doExec arch env userPath userArgv userEnvp (start task frame) = (.error err, s') →
      Kept task frame s') ↔ Clean arch env userPath userArgv userEnvp task := by
  cases found : copyString env.user userPath 255 with
  | none =>
    have faulted : doExec arch env userPath userArgv userEnvp (start task frame) =
        (.error EFAULT, start task frame) := by
      unfold doExec
      rw [found]
    unfold Clean
    rw [faulted, found]
    constructor
    · rintro _ path ⟨⟩
    · rintro _ err s' ⟨⟩
      exact ⟨rfl, rfl, rfl, rfl, rfl, rfl, rfl⟩
  | some path =>
    have outcome := execCases built env userArgv userEnvp (start task frame) found
    have only : Clean arch env userPath userArgv userEnvp task ↔
        match opened arch env path userArgv userEnvp with
        | none => taskName path = task.name
        | some file =>
          if Refused arch file then
            taskName path = task.name ∧ ∀ e ∈ task.files, e.fd ≠ task.nextFd
          else Loads arch env file := by
      unfold Clean
      rw [found]
      exact ⟨fun all => all path rfl, fun one path' same => by
        cases same
        exact one⟩
    rw [only]
    dsimp only at outcome
    generalize doExec arch env userPath userArgv userEnvp (start task frame) = result at outcome
    cases held : opened arch env path userArgv userEnvp with
    | none =>
      rw [held] at outcome
      obtain ⟨err, rfl⟩ := outcome
      constructor
      · intro keeps
        exact (keeps err _ rfl).name
      · intro name err' s' same
        cases same
        exact ⟨name, rfl, rfl, rfl, rfl, rfl, rfl⟩
    | some file =>
      rw [held] at outcome
      dsimp only at outcome ⊢
      by_cases refused : Refused arch file
      · rw [if_pos refused]
        have fails := outcome.1 refused
        subst fails
        constructor
        · intro keeps
          have kept := keeps ENOEXEC _ rfl
          exact ⟨kept.name, (openCloseFiles {task with name := taskName path}).mp kept.files⟩
        · rintro ⟨name, free⟩ err' s' same
          cases same
          exact ⟨name, rfl, rfl, rfl,
            (openCloseFiles {task with name := taskName path}).mpr free, rfl, rfl⟩
      · rw [if_neg refused]
        obtain ⟨goes, lost⟩ := outcome.2 refused
        constructor
        · intro keeps
          by_contra fails
          obtain ⟨⟨err, failed⟩, directory⟩ := lost fails
          have kept := keeps err result.2 (by rw [← failed])
          rw [kept.cr3] at directory
          cases directory
        · intro loads err s' same
          have entered := goes loads
          rw [same] at entered
          cases entered

def userA : User := ⟨fun _ _ => true, fun addr => if addr = 0x100 then 0x61 else 0⟩

def badSegment : Bytes :=
  [0x7f, 0x45, 0x4c, 0x46, 1, 1, 1, 0, 0, 0, 0, 0, 0, 0, 0, 0,
    2, 0, 3, 0, 1, 0, 0, 0, 0, 0x80, 4, 8, 52, 0, 0, 0, 0, 0, 0, 0, 0, 0, 0, 0,
    52, 0, 32, 0, 1, 0, 0, 0, 0, 0, 0, 0,
    1, 0, 0, 0, 0, 0, 0, 0, 0, 0x80, 4, 8, 0, 0x80, 4, 8,
    84, 0, 0, 0, 16, 0, 0, 0, 5, 0, 0, 0, 0, 0x10, 0, 0]

def only (file : Bytes) : Env :=
  ⟨userA, fun path => if path = [0x61] then some file else none, true,
    ⟨true, ⟨true, 256, true, true⟩⟩, fun _ => none⟩

def caller (name : Bytes) : Task where
  name := name
  mm := {Regions.mmInit with vmaList := [Regions.stackVma Mm.i386]}
  pages := fun a => if a = 0xBFFFF000 then some fun _ => 0 else none
  signals := {noSignals with pending := 2}
  files := [⟨0, 0, false⟩, ⟨1, 0, false⟩, ⟨2, 0, false⟩]
  nextFd := 3

def execA (file : Bytes) (name : Bytes) : Except Int Unit × State :=
  doExec Mm.i386 (only file) 0x100 0 0 (start (caller name) [])

/-- The magic alone is refused, and a task named "a" does not notice. -/
theorem refusedKept : ∃ s', execA Elf.ELFMAG [0x61] = (.error ENOEXEC, s') ∧
    Kept (caller [0x61]) [] s' := by
  have keeps := (execKeepsIff (Or.inl rfl) (only Elf.ELFMAG) 0x100 0 0 (caller [0x61]) []).mpr
    (by decide)
  exact ⟨_, rfl, keeps ENOEXEC _ rfl⟩

/-- The same for a task named "b", and a file that passes the checks but does not
load. -/
theorem execLosesCaller :
    (∃ s', execA Elf.ELFMAG [0x62] = (.error ENOEXEC, s') ∧ s'.task.name = [0x61] ∧
      ¬ Kept (caller [0x62]) [] s') ∧
    ∃ s', execA badSegment [0x61] = (.error ENOEXEC, s') ∧ s'.task.mm.vmaList = [] ∧
      s'.task.signals = noSignals ∧ ¬ Kept (caller [0x61]) [] s' := by
  constructor
  · refine ⟨_, rfl, rfl, fun kept => ?_⟩
    exact absurd kept.name (by decide)
  · refine ⟨_, rfl, rfl, rfl, fun kept => ?_⟩
    exact absurd kept.cr3 (by decide)

end Scepter.Exec
