import Mathlib.Data.Nat.Bitwise
import Scepter.Kernel.Errno

/-! Permission checks of open(2) and of the calls that use the descriptor
(kernel/syscall.c, fs/vfs.c). The access mode is two bits of the flags: bit 0
for reading, bit 1 for writing. What a filesystem driver answers is left open. -/
namespace Scepter.Access

def O_RDONLY : Nat := 0x0001
def O_WRONLY : Nat := 0x0002
def O_RDWR : Nat := 0x0003
def O_CREAT : Nat := 0x0100
def O_TRUNC : Nat := 0x0800
def O_CLOEXEC : Nat := 0x2000

def R_OK : Nat := 4
def W_OK : Nat := 2

structure Stat where
  mode : Nat
  uid : Nat
  gid : Nat

structure Caller where
  euid : Nat
  egid : Nat
  umask : Nat

structure Files where
  stat : String → Option Stat
  made : String → Nat → Stat

def fsAccessPerm (files : Files) (caller : Caller) (path : String) (mask : Nat) : Int :=
  match files.stat path with
  | none => -ENOENT
  | some st =>
    if caller.euid = 0 then 0
    else if mask = 0 then 0
    -- devfs nodes and legacy files have no permission bits
    else if st.mode &&& 0o777 = 0 then 0
    else
      let shift := if caller.euid = st.uid then 6 else if caller.egid = st.gid then 3 else 0
      if (st.mode &&& 0o777) &&& (mask <<< shift) ≠ 0 then 0 else -EACCES

structure OpenFile where
  flags : Nat
  file : Stat

/-- What fs_open gets back: the driver's answer to its open operation, that of
fifo_open_end (0 for a file that is no FIFO), and whether the open file and its
entry can be allocated. -/
structure Answers where
  opens : String → Nat → Nat → Int
  fifo : Stat → Nat → Int
  allocFile : Bool
  allocEntry : Bool

def fsOpen (files : Files) (driver : Answers) (path : String) (flags mode : Nat) :
    Except Int OpenFile :=
  if driver.opens path flags mode ≠ 0 then .error (-1)
  else if driver.allocFile = false then .error (-1)
  else
    let file := ⟨flags.ldiff O_CLOEXEC, (files.stat path).getD (files.made path mode)⟩
    let r := driver.fifo file.file file.flags
    if r < 0 then .error r
    else if driver.allocEntry = false then .error (-1)
    else .ok file

def sysOpen (files : Files) (driver : Answers) (caller : Caller) (userPath : Option String) (flags mode : Nat) : Except Int OpenFile :=
  match userPath with
  | none => .error (-EFAULT)
  | some path =>
    let need := if flags &&& (O_WRONLY ||| O_RDWR) ≠ 0 then W_OK else R_OK
    let r := fsAccessPerm files caller path need
    if r < 0 ∧ r ≠ -ENOENT then .error r
    else
      let mode := mode.ldiff caller.umask
      match fsOpen files driver path flags mode with
      | .error fd => if fd < -1 ∧ fd ≥ -4095 then .error fd else .error (-ENOENT)
      | .ok file => .ok file

def fsRead (f : OpenFile) (driver : Int) : Int :=
  if f.flags &&& O_RDWR = O_WRONLY then -1 else driver

def fsWrite (f : OpenFile) (driver : Int) : Int :=
  if f.flags &&& O_RDWR = O_RDONLY then -1 else driver

def fsTruncate (f : OpenFile) (driver : Int) : Int :=
  if f.flags &&& O_RDWR = O_RDONLY then -1 else driver

/-! ## What the mode grants -/

def Grants (caller : Caller) (st : Stat) (bit : Nat) : Prop :=
  caller.euid = 0 ∨
  st.mode &&& (bit <<<
    (if caller.euid = st.uid then 6 else if caller.egid = st.gid then 3 else 0)) ≠ 0
instance (caller st bit) : Decidable (Grants caller st bit) := by unfold Grants; infer_instance

def Enforced (files : Files) (caller : Caller) (path : String) (flags mode : Nat) : Prop :=
  ∀ driver f, sysOpen files driver caller (some path) flags mode = .ok f →
    (∀ answer, 0 ≤ fsRead f answer → Grants caller f.file R_OK) ∧
    (∀ answer, 0 ≤ fsWrite f answer → Grants caller f.file W_OK) ∧
    (∀ answer, 0 ≤ fsTruncate f answer → Grants caller f.file W_OK) ∧
    (flags &&& O_TRUNC ≠ 0 → Grants caller f.file W_OK) ∧
    (flags &&& O_RDWR = O_RDWR → Grants caller f.file R_OK ∧ Grants caller f.file W_OK)

/-! ## The check -/

theorem accMode (flags : Nat) : flags &&& O_RDWR = flags % 4 :=
  Nat.and_two_pow_sub_one_eq_mod flags 2

theorem keptMode (flags : Nat) : flags.ldiff O_CLOEXEC % 4 = flags % 4 := by
  rw [← accMode, ← accMode]
  apply Nat.eq_of_testBit_eq
  intro i
  simp only [Nat.testBit_and, Nat.testBit_ldiff]
  by_cases low : i < 2
  · have clear : O_CLOEXEC.testBit i = false := by
      have bits : i = 0 ∨ i = 1 := by omega
      rcases bits with rfl | rfl <;> rfl
    simp [clear]
  · have high : O_RDWR.testBit i = false := by
      apply Nat.testBit_lt_two_pow
      calc O_RDWR < 2 ^ 2 := by decide
        _ ≤ 2 ^ i := Nat.pow_le_pow_right (by decide) (by omega)
    simp [high]

theorem classBit (mode bit shift : Nat) (inside : 0o777 &&& (bit <<< shift) = bit <<< shift) :
    (mode &&& 0o777) &&& (bit <<< shift) = mode &&& (bit <<< shift) := by
  rw [Nat.and_assoc, inside]

theorem classMasked (caller : Caller) (st : Stat) {bit} (one : bit = R_OK ∨ bit = W_OK) :
    let shift := if caller.euid = st.uid then 6 else if caller.egid = st.gid then 3 else 0
    (st.mode &&& 0o777) &&& (bit <<< shift) = st.mode &&& (bit <<< shift) := by
  dsimp only
  apply classBit
  split
  · rcases one with rfl | rfl <;> rfl
  · split <;> rcases one with rfl | rfl <;> rfl

theorem accessPermSome {files caller path st bit} (found : files.stat path = some st)
    (user : caller.euid ≠ 0) (one : bit = R_OK ∨ bit = W_OK) :
    fsAccessPerm files caller path bit =
      if st.mode &&& 0o777 = 0 ∨ Grants caller st bit then 0 else -EACCES := by
  have nonzero : bit ≠ 0 := by rcases one with rfl | rfl <;> decide
  unfold fsAccessPerm Grants
  simp only [found, if_neg nonzero, user, false_or]
  rw [classMasked caller st one]
  by_cases bare : st.mode &&& 0o777 = 0
  · simp [bare]
  · simp only [bare, if_false, false_or]

def Passes (files : Files) (caller : Caller) (path : String) (flags : Nat) : Prop :=
  let need := if flags &&& (O_WRONLY ||| O_RDWR) ≠ 0 then W_OK else R_OK
  ¬ (fsAccessPerm files caller path need < 0 ∧ fsAccessPerm files caller path need ≠ -ENOENT)

def target (files : Files) (caller : Caller) (path : String) (mode : Nat) : Stat :=
  (files.stat path).getD (files.made path (mode.ldiff caller.umask))

theorem fsOpenOk {files driver path flags mode f}
    (opened : fsOpen files driver path flags mode = .ok f) :
    f = ⟨flags.ldiff O_CLOEXEC, (files.stat path).getD (files.made path mode)⟩ := by
  unfold fsOpen at opened
  dsimp only at opened
  repeat' split at opened
  all_goals cases opened
  rfl

theorem sysOpenOk {files driver caller path flags mode f}
    (opened : sysOpen files driver caller (some path) flags mode = .ok f) :
    Passes files caller path flags ∧
      f = ⟨flags.ldiff O_CLOEXEC, target files caller path mode⟩ := by
  unfold sysOpen at opened
  dsimp only at opened
  by_cases passes : Passes files caller path flags
  · rw [if_neg passes] at opened
    split at opened <;> rename_i answer
    · split at opened <;> cases opened
    · cases opened
      exact ⟨passes, fsOpenOk answer⟩
  · rw [if_pos (not_not.mp passes)] at opened
    cases opened

theorem sysOpenPasses {files caller path flags} (passes : Passes files caller path flags)
    (driver : Answers) (mode : Nat) :
    sysOpen files driver caller (some path) flags mode =
      match fsOpen files driver path flags (mode.ldiff caller.umask) with
      | .error fd => if fd < -1 ∧ fd ≥ -4095 then .error fd else .error (-ENOENT)
      | .ok file => .ok file := by
  unfold sysOpen
  dsimp only
  rw [if_neg passes]

def ready : Answers := ⟨fun _ _ _ => 0, fun _ _ => 0, true, true⟩

theorem sysOpenReady {files caller path flags} (passes : Passes files caller path flags)
    (mode : Nat) : sysOpen files ready caller (some path) flags mode =
      .ok ⟨flags.ldiff O_CLOEXEC, target files caller path mode⟩ := sysOpenPasses passes ready mode

/-! ## Existing and new files -/

theorem passesIff {files caller path st} (found : files.stat path = some st)
    (user : caller.euid ≠ 0) (flags : Nat) : Passes files caller path flags ↔
      st.mode &&& 0o777 = 0 ∨
      Grants caller st (if flags % 4 = 0 then R_OK else W_OK) := by
  have mode : flags &&& (O_WRONLY ||| O_RDWR) = flags % 4 := accMode flags
  have refusal : ∀ granted : Prop, [Decidable granted] →
      (¬ ((if granted then 0 else -EACCES) < 0 ∧ (if granted then 0 else -EACCES) ≠ -ENOENT) ↔
        granted) := by
    intro granted _
    by_cases yes : granted
    · simp [yes]
    · simp [yes, EACCES, ENOENT]
  unfold Passes
  dsimp only
  rw [mode]
  by_cases none : flags % 4 = 0
  · rw [if_pos none, if_neg (not_not.mpr none), accessPermSome found user (Or.inl rfl)]
    exact refusal _
  · rw [if_neg none, if_pos none, accessPermSome found user (Or.inr rfl)]
    exact refusal _

/-! ## What the check is for -/

def Exempt (files : Files) (caller : Caller) (path : String) : Prop :=
  caller.euid = 0 ∨ ∀ st ∈ files.stat path, st.mode &&& 0o777 = 0
instance (files caller path) : Decidable (Exempt files caller path) := by
  unfold Exempt; infer_instance

theorem exemptPasses {files caller path} (exempt : Exempt files caller path) (flags : Nat) :
    Passes files caller path flags := by
  unfold Exempt at exempt
  cases found : files.stat path with
  | none =>
    unfold Passes fsAccessPerm
    simp [found]
  | some st =>
    by_cases root : caller.euid = 0
    · unfold Passes fsAccessPerm
      simp [found, root]
    · exact (passesIff found root flags).mpr (Or.inl (exempt.resolve_left root st found))

theorem classAsked {files caller path flags} (passes : Passes files caller path flags)
    (asked : ¬ Exempt files caller path) (mode : Nat) :
    Grants caller (target files caller path mode) (if flags % 4 = 0 then R_OK else W_OK) := by
  unfold Exempt at asked
  obtain ⟨user, bits⟩ := not_or.mp asked
  push Not at bits
  obtain ⟨st, found, bits⟩ := bits
  have granted := ((passesIff found user flags).mp passes).resolve_left bits
  unfold target
  rw [found]
  exact granted

def devAndBox : Files where
  stat path := if path = "/dev/zero" then some ⟨0, 0, 0⟩ else some ⟨0o100200, 1000, 1000⟩
  made _ mode := ⟨mode, 0, 0⟩

def ReadUnchecked (path : String) : Prop :=
  ∃ f, sysOpen devAndBox ready ⟨1000, 1000, 0⟩ (some path) O_RDONLY 0 = .ok f ∧
    fsRead f 12 = 12 ∧ ¬ Grants ⟨1000, 1000, 0⟩ f.file R_OK ∧
    ¬ Enforced devAndBox ⟨1000, 1000, 0⟩ path O_RDONLY 0

theorem passesUnchecked {path : String} (passes : Passes devAndBox ⟨1000, 1000, 0⟩ path O_RDONLY)
    (refused : ¬ Grants ⟨1000, 1000, 0⟩ (target devAndBox ⟨1000, 1000, 0⟩ path 0) R_OK) :
    ReadUnchecked path := by
  have opened := sysOpenReady passes 0
  have read : fsRead ⟨O_RDONLY.ldiff O_CLOEXEC, target devAndBox ⟨1000, 1000, 0⟩ path 0⟩ 12 =
      12 := by
    simp only [fsRead, accMode, keptMode]
    decide
  exact ⟨_, opened, read, refused, fun enforced =>
    refused ((enforced _ _ opened).1 12 (by rw [read]; decide))⟩

end Scepter.Access
