import Scepter.Lib.StringArray
import Scepter.Kernel.Exec
import Mathlib.Algebra.Group.Nat.Defs

/-! The block of argc, argv, envp and their strings that exec leaves on the new stack
(kernel/process.c), read as the start-up code reads it: argc at the stack pointer, argv one
word behind, envp `argc + 2` words behind. The stack's pages have their user addresses here. -/
namespace Scepter.InitialStack
open Mm (Arch PAGE_SIZE i386 x86_64)
open Regions (USER_STACK_TOP)
open Elf (Bytes)
open Exec (User EXEC_MAX_ARGS EXEC_MAX_STR EXEC_MAX_DATA copyString copyStrings copyExecStrings
  dataLen)
open StringArray (CStr Holds packed pointers storeWords)

def setupInitialStack (arch : Arch) (pages : Buf) (argv envp : List Bytes) : Option (Buf × Nat) :=
  let word := arch.wordBits / 8
  let strBytes := dataLen argv + dataLen envp
  let ptrBytes := word * (argv.length + envp.length + 3)
  if strBytes + ptrBytes + 16 > 8192 then none
  else
    let strVa := USER_STACK_TOP - strBytes
    let esp0 := (strVa - ptrBytes) / 16 * 16
    let pages := pages.write strVa (packed argv)
    let pages := pages.write (strVa + dataLen argv) (packed envp)
    let q := argv.length :: (pointers strVa argv ++
      0 :: (pointers (strVa + dataLen argv) envp ++ [0]))
    some (storeWords pages word esp0 q, esp0)

def execTables (arch : Arch) (user : User) (userPath userArgv userEnvp : Nat) :
    Option (Bytes × List Bytes × List Bytes) :=
  match copyString user userPath 255 with
  | none => none
  | some path => match copyExecStrings arch user userArgv with
    | none => none
    | some argv => match copyExecStrings arch user userEnvp with
      | none => none
      | some envp =>
        if argv.length = 0 then
          if path.length + 1 > EXEC_MAX_DATA then none else some (path, [path], envp)
        else some (path, argv, envp)

/-! ## What should hold -/

def Given (arch : Arch) (user : User) (ptrs : Nat) (strings : List Bytes) : Prop :=
  if ptrs = 0 then strings = [] else Holds user.bytes (arch.wordBits / 8) ptrs strings

/-- The start-up code finds the lists, at an aligned stack pointer, and nothing outside the
block in the two pages has changed. -/
structure Started (arch : Arch) (pages mem : Buf) (esp : Nat) (argv envp : List Bytes) : Prop where
  argc : mem.load esp (arch.wordBits / 8) = argv.length
  argvHeld : Holds mem (arch.wordBits / 8) (esp + arch.wordBits / 8) argv
  envpHeld : Holds mem (arch.wordBits / 8) (esp + arch.wordBits / 8 * (argv.length + 2)) envp
  aligned : 16 ∣ esp
  inside : USER_STACK_TOP - 2 * PAGE_SIZE ≤ esp
  kept : ∀ a, a < esp ∨ USER_STACK_TOP ≤ a → mem a = pages a

def cut (strings : List Bytes) : List Bytes :=
  (strings.take (EXEC_MAX_ARGS - 1)).map fun s => s.take (EXEC_MAX_STR - 1)

variable {arch : Arch} {user : User} {pages : Buf} {argv envp : List Bytes}

theorem doExecTables {env : Exec.Env} {userPath userArgv userEnvp : Nat} {path : Bytes}
    (tables : execTables arch env.user userPath userArgv userEnvp = some (path, argv, envp))
    (s : Exec.State) : Exec.doExec arch env userPath userArgv userEnvp s =
      Exec.openAndReplace arch env path argv envp
        {s with task := {s.task with name := Exec.taskName path}} := by
  unfold execTables at tables
  unfold Exec.doExec
  cases named : copyString env.user userPath 255 with
  | none =>
    rw [named] at tables
    cases tables
  | some bytes =>
    simp only [named] at tables
    cases args : copyExecStrings arch env.user userArgv with
    | none =>
      simp only [args, reduceCtorEq] at tables
    | some args' =>
      cases vars : copyExecStrings arch env.user userEnvp with
      | none =>
        simp only [args, vars, reduceCtorEq] at tables
      | some vars' =>
        simp only [args, vars] at tables ⊢
        split at tables <;> rename_i none_
        · split at tables <;> rename_i long
          · cases tables
          · cases tables
            rw [if_pos none_, if_neg long]
        · cases tables
          rw [if_neg none_]

/-! ## The copies -/

theorem copyStringCut {addr limit : Nat} {str whole : Bytes}
    (copied : copyString user addr limit = some str) (held : CStr user.bytes addr whole) :
    str = whole.take limit := by
  induction limit generalizing addr str whole with
  | zero =>
    cases copied
    exact List.take_zero.symm
  | succ limit ih =>
    unfold copyString at copied
    split at copied
    · cases copied
    · split at copied <;> rename_i nul
      · cases copied
        cases whole with
        | nil => rfl
        | cons c rest => exact absurd (held.1.symm.trans nul) held.2.1
      · obtain ⟨rest, later, rfl⟩ := Option.map_eq_some_iff.mp copied
        cases whole with
        | nil => exact absurd held nul
        | cons c more => rw [ih later held.2.2, held.1, List.take_succ_cons]

theorem copyStringsCut {ptr used room : Nat} {copies strings : List Bytes}
    (copied : copyStrings arch user ptr used room = some copies)
    (held : Holds user.bytes (arch.wordBits / 8) ptr strings) :
    copies = (strings.take room).map fun s => s.take (EXEC_MAX_STR - 1) := by
  induction room generalizing ptr used copies strings with
  | zero =>
    cases copied
    rfl
  | succ room ih =>
    unfold copyStrings at copied
    dsimp only at copied
    split at copied
    · cases copied
    · split at copied <;> rename_i last
      · cases copied
        cases strings with
        | nil => rfl
        | cons s rest => exact absurd last held.1
      · split at copied <;> rename_i str
        · cases copied
        · split at copied
          · cases copied
          · obtain ⟨rest, later, rfl⟩ := Option.map_eq_some_iff.mp copied
            cases strings with
            | nil => exact absurd held last
            | cons s more =>
              rw [ih later held.2.2, copyStringCut str held.2.1, List.take_succ_cons,
                List.map_cons]

theorem copiedCut {ptrs : Nat} {copies strings : List Bytes}
    (copied : copyExecStrings arch user ptrs = some copies)
    (given : Given arch user ptrs strings) : copies = cut strings := by
  unfold copyExecStrings at copied
  unfold Given at given
  split at copied <;> rename_i null
  · rw [if_pos null] at given
    cases copied
    rw [given]
    rfl
  · rw [if_neg null] at given
    exact copyStringsCut copied given

theorem copyStringFree {addr limit : Nat} {str : Bytes}
    (copied : copyString user addr limit = some str) : 0 ∉ str := by
  induction limit generalizing addr str with
  | zero =>
    cases copied
    exact List.not_mem_nil
  | succ limit ih =>
    unfold copyString at copied
    split at copied
    · cases copied
    · split at copied <;> rename_i nul
      · cases copied
        exact List.not_mem_nil
      · obtain ⟨rest, later, rfl⟩ := Option.map_eq_some_iff.mp copied
        exact fun member => (List.mem_cons.mp member).elim (fun same => nul same.symm) (ih later)

theorem copyStringsFree {ptr used room : Nat} {copies : List Bytes}
    (copied : copyStrings arch user ptr used room = some copies) : ∀ s ∈ copies, 0 ∉ s := by
  induction room generalizing ptr used copies with
  | zero =>
    cases copied
    exact nofun
  | succ room ih =>
    unfold copyStrings at copied
    dsimp only at copied
    split at copied
    · cases copied
    · split at copied
      · cases copied
        exact nofun
      · split at copied <;> rename_i str
        · cases copied
        · split at copied
          · cases copied
          · obtain ⟨rest, later, rfl⟩ := Option.map_eq_some_iff.mp copied
            exact List.forall_mem_cons.mpr ⟨copyStringFree str, ih later⟩

theorem copiedFree {ptrs : Nat} {copies : List Bytes}
    (copied : copyExecStrings arch user ptrs = some copies) : ∀ s ∈ copies, 0 ∉ s := by
  unfold copyExecStrings at copied
  split at copied
  · cases copied
    exact nofun
  · exact copyStringsFree copied

/-! ## The block -/

structure Table (strings : List Bytes) : Prop where
  free : ∀ s ∈ strings, 0 ∉ s
  few : strings.length < EXEC_MAX_ARGS
  short : dataLen strings ≤ EXEC_MAX_DATA

theorem writeHere (m : Buf) (a : Nat) {bytes : Bytes} {j : Nat} {b : Byte}
    (is : bytes[j]? = some b) : m.write a bytes (a + j) = b := by
  have within := (List.getElem?_eq_some_iff.mp is).1
  unfold Buf.write
  rw [if_pos (by omega), Nat.add_sub_cancel_left, List.getD_eq_getElem?_getD, is]
  rfl

def startWords (strVa : Nat) (argv envp : List Bytes) : List Nat :=
  argv.length :: (pointers strVa argv ++ 0 :: (pointers (strVa + dataLen argv) envp ++ [0]))

theorem startWordsLength (strVa : Nat) (argv envp : List Bytes) :
    (startWords strVa argv envp).length = argv.length + envp.length + 3 := by
  rw [startWords, List.length_cons, List.length_append, List.length_cons, List.length_append,
    StringArray.pointersLength, StringArray.pointersLength, List.length_singleton]
  omega

theorem startWordsSmall {strVa : Nat} (few : argv.length < EXEC_MAX_ARGS)
    (top : strVa + dataLen argv + dataLen envp < 2 ^ 32) :
    ∀ v ∈ startWords strVa argv envp, v < 2 ^ 32 := by
  have argvLength : (packed argv).length = dataLen argv := StringArray.packedLength argv
  have envpLength : (packed envp).length = dataLen envp := StringArray.packedLength envp
  unfold EXEC_MAX_ARGS at few
  intro v member
  simp only [startWords, List.mem_cons, List.mem_append, List.not_mem_nil, or_false] at member
  rcases member with rfl | member | rfl | member | rfl
  · omega
  · have := StringArray.pointersBelow member
    omega
  · decide
  · have := StringArray.pointersBelow member
    omega
  · decide

theorem startWordsArgv {strVa i p : Nat} (is : (pointers strVa argv ++ [0])[i]? = some p) :
    (startWords strVa argv envp)[i + 1]? = some p := by
  rw [startWords, List.getElem?_cons_succ, List.append_cons,
    List.getElem?_append_left (List.getElem?_eq_some_iff.mp is).1, is]

theorem startWordsEnvp {strVa i p : Nat}
    (is : (pointers (strVa + dataLen argv) envp ++ [0])[i]? = some p) :
    (startWords strVa argv envp)[argv.length + 2 + i]? = some p := by
  have front : (argv.length :: (pointers strVa argv ++ [0])).length = argv.length + 2 := by
    rw [List.length_cons, List.length_append, StringArray.pointersLength]
    rfl
  rw [startWords, List.append_cons, ← List.cons_append, List.getElem?_append_right (by omega),
    front, Nat.add_sub_cancel_left, is]

theorem tablesStarted (built : arch.Built) (pages : Buf) (args : Table argv) (vars : Table envp) :
    ∃ mem esp, setupInitialStack arch pages argv envp = some (mem, esp) ∧
      Started arch pages mem esp argv envp := by
  have fits := Exec.stackFits built ⟨args.few, args.short⟩ ⟨vars.few, vars.short⟩
  unfold Exec.setupInitialStack at fits
  rw [decide_eq_true_eq] at fits
  unfold setupInitialStack
  dsimp only
  rw [if_neg (Nat.not_lt.mpr fits)]
  refine ⟨_, _, rfl, ?_⟩
  have argvLength : (packed argv).length = dataLen argv := StringArray.packedLength argv
  have envpLength : (packed envp).length = dataLen envp := StringArray.packedLength envp
  have top : USER_STACK_TOP = 0xC0000000 := rfl
  have few := args.few
  have widths : 2 ^ 32 ≤ 256 ^ (arch.wordBits / 8) := by
    rcases built with rfl | rfl <;> decide
  have wide : 0 < arch.wordBits / 8 := by
    rcases built with rfl | rfl <;> decide
  generalize width : arch.wordBits / 8 = word at *
  generalize at' : word * (argv.length + envp.length + 3) = ptrBytes at fits ⊢
  generalize va : USER_STACK_TOP - (dataLen argv + dataLen envp) = strVa
  generalize sp : (strVa - ptrBytes) / 16 * 16 = esp
  -- the block's words end below the strings
  have below : esp + ptrBytes ≤ strVa := by omega
  have inside : USER_STACK_TOP - 2 * PAGE_SIZE ≤ esp := by
    unfold PAGE_SIZE
    omega
  have words : ∀ v ∈ startWords strVa argv envp, v < 256 ^ word := fun v member =>
    Nat.lt_of_lt_of_le (startWordsSmall few (by omega) v member) widths
  have count := startWordsLength strVa argv envp
  rw [← startWords]
  generalize mem' : (pages.write strVa (packed argv)).write (strVa + dataLen argv) (packed envp) =
    packedPages
  have slot : ∀ i v, (startWords strVa argv envp)[i]? = some v →
      (storeWords packedPages word esp (startWords strVa argv envp)).load (esp + word * i) word =
        v := fun i v is => StringArray.loadStoreWords packedPages words is
  have stay : ∀ b, b < esp ∨ strVa ≤ b →
      storeWords packedPages word esp (startWords strVa argv envp) b = packedPages b :=
    fun b apart => StringArray.storeWordsApart packedPages (by rw [count, at']; omega)
  refine ⟨?_, ?_, ?_, Dvd.intro_left _ sp, inside, fun a apart => ?_⟩
  · rw [width]
    exact slot 0 _ rfl
  · rw [width]
    refine StringArray.holdsOfLayout (fun i p is => ?_) (fun j b is => ?_) args.free
      (show strVa ≠ 0 by omega)
    · have next := slot (i + 1) p (startWordsArgv is)
      rwa [Nat.mul_succ, Nat.add_comm (word * i), ← Nat.add_assoc] at next
    · have within := (List.getElem?_eq_some_iff.mp is).1
      rw [stay _ (Or.inr (Nat.le_add_right _ _)), ← mem', Buf.writeByte _ (Or.inl (by omega))]
      exact writeHere pages strVa is
  · rw [width]
    refine StringArray.holdsOfLayout (fun i p is => ?_) (fun j b is => ?_) vars.free
      (show strVa + dataLen argv ≠ 0 by omega)
    · have next := slot (argv.length + 2 + i) p (startWordsEnvp is)
      rwa [Nat.mul_add, ← Nat.add_assoc] at next
    · rw [stay _ (Or.inr (by omega)), ← mem']
      exact writeHere _ _ is
  · rw [stay a (by omega), ← mem', Buf.writeByte _ (by omega), Buf.writeByte _ (by omega)]

theorem tablesOf {userPath userArgv userEnvp : Nat} {path : Bytes} {args envs : List Bytes}
    (tables : execTables arch user userPath userArgv userEnvp = some (path, argv, envp))
    (givenArgs : Given arch user userArgv args) (givenEnvs : Given arch user userEnvp envs) :
    argv = (if args = [] then [path] else cut args) ∧ envp = cut envs ∧ Table argv ∧ Table envp ∧
      dataLen (cut args) ≤ EXEC_MAX_DATA := by
  unfold execTables at tables
  split at tables <;> rename_i named
  · cases tables
  · split at tables <;> rename_i copiedArgs
    · cases tables
    · rename_i argv'
      split at tables <;> rename_i copiedEnvs
      · cases tables
      · rename_i envp'
        have sameArgs := copiedCut copiedArgs givenArgs
        have sameEnvs := copiedCut copiedEnvs givenEnvs
        have shortArgs := Exec.execStringsShort copiedArgs
        have shortEnvs := Exec.execStringsShort copiedEnvs
        have table := Table.mk (copiedFree copiedEnvs) shortEnvs.1 shortEnvs.2
        split at tables <;> rename_i none_
        · split at tables <;> rename_i long
          · cases tables
          · cases tables
            have empty : args = [] := by
              cases args with
              | nil => rfl
              | cons s rest =>
                rw [sameArgs] at none_
                cases none_
            refine ⟨(if_pos empty).symm, sameEnvs, ⟨fun s member => ?_, ?_, ?_⟩, table,
              sameArgs ▸ shortArgs.2⟩
            · rw [List.mem_singleton.mp member]
              exact copyStringFree named
            · exact show 1 < EXEC_MAX_ARGS by decide
            · exact Nat.not_lt.mp long
        · cases tables
          have some' : args ≠ [] := fun empty => by
            rw [sameArgs, empty] at none_
            exact none_ rfl
          exact ⟨sameArgs.trans (if_neg some').symm, sameEnvs,
            ⟨copiedFree copiedArgs, shortArgs.1, shortArgs.2⟩, table, sameArgs ▸ shortArgs.2⟩

/-- A program starts with the lists that its exec was given, each string cut to 127
characters and each list to 31 strings. Tables of more than 1024 bytes are refused. -/
theorem execStarted {arch : Arch} (built : arch.Built) (pages : Buf) {user : User}
    {userPath userArgv userEnvp : Nat} {path : Bytes} {argv envp args envs : List Bytes}
    (tables : execTables arch user userPath userArgv userEnvp = some (path, argv, envp))
    (givenArgs : Given arch user userArgv args) (givenEnvs : Given arch user userEnvp envs) :
    (∃ mem esp, setupInitialStack arch pages argv envp = some (mem, esp) ∧
      Started arch pages mem esp (if args = [] then [path] else cut args) (cut envs)) ∧
    dataLen (cut args) ≤ EXEC_MAX_DATA ∧ dataLen (cut envs) ≤ EXEC_MAX_DATA := by
  obtain ⟨sameArgs, sameEnvs, tableArgs, tableEnvs, short⟩ := tablesOf tables givenArgs givenEnvs
  rw [← sameArgs, ← sameEnvs]
  exact ⟨tablesStarted built pages tableArgs tableEnvs, short, tableEnvs.short⟩

def callerWith (n : Nat) : User :=
  ⟨fun _ _ => true, fun a =>
    if a = 257 then 2 else if 512 ≤ a ∧ a < 512 + n ∨ a = 2048 then 0x61 else 0⟩

theorem givenCaller {n : Nat} (held : Holds (callerWith n).bytes 4 256 [List.replicate n 0x61]) :
    Given i386 (callerWith n) 256 [List.replicate n 0x61] := by
  unfold Given
  rwa [if_neg (by decide)]

theorem shortStarted : ∃ mem esp,
    setupInitialStack i386 (fun _ => 0) [[0x61]] [] = some (mem, esp) ∧
      Started i386 (fun _ => 0) mem esp [[0x61]] [] := by
  have tables : execTables i386 (callerWith 1) 2048 256 0 = some ([0x61], [[0x61]], []) := by
    decide +kernel
  have empty : Given i386 (callerWith 1) 0 [] := by
    unfold Given
    rw [if_pos rfl]
  exact (execStarted (Or.inl rfl) (fun _ => 0) tables
    (givenCaller (by decide +kernel)) empty).1

/-- An argument of 128 characters arrives without its last one. -/
theorem longShortened :
    Given i386 (callerWith 128) 256 [List.replicate 128 0x61] ∧
    execTables i386 (callerWith 128) 2048 256 0 =
      some ([0x61], [List.replicate 127 0x61], []) ∧
    ∀ mem esp, setupInitialStack i386 (fun _ => 0) [List.replicate 127 0x61] [] = some (mem, esp) →
      ¬ Started i386 (fun _ => 0) mem esp [List.replicate 128 0x61] [] := by
  refine ⟨givenCaller (by decide +kernel), by decide +kernel, fun mem esp built started => ?_⟩
  have table : Table [List.replicate 127 0x61] := ⟨by decide, by decide, by decide +kernel⟩
  obtain ⟨mem', esp', same, cutHeld⟩ :=
    tablesStarted (Or.inl rfl : i386.Built) (fun _ => 0) table
      (show Table [] from ⟨nofun, by decide, by decide⟩)
  cases built.symm.trans same
  exact absurd (StringArray.holdsUnique started.argvHeld cutHeld.argvHeld) (by decide)

end Scepter.InitialStack
