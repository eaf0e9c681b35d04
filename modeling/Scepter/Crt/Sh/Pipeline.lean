import Scepter.Kernel.WaitStatus
import Mathlib.Logic.Function.Basic
import Mathlib.Data.Nat.Find

/-! How the shell starts a pipeline (run_pipeline in crt/coreutil/sh.c). Descriptors are
numbered as fs/vfs.c does it, by a counter that goes past every number in use. A stage's own
redirections, and what it then executes, come after its pipe ends are wired, and are left out. -/
namespace Scepter.Sh
open Wait (WIFSIGNALED WTERMSIG WIFEXITED WEXITSTATUS)

def MAX_JOBS : Nat := 16

def STDIN_FILENO : Nat := 0
def STDOUT_FILENO : Nat := 1

inductive Opened where
  | own (id : Nat)
  | reads (i : Nat)
  | writes (i : Nat)
  deriving DecidableEq

structure Table where
  fds : Nat → Option Opened
  nextFd : Nat
  fresh : ∀ fd, nextFd ≤ fd → fds fd = none

def Table.put (t : Table) (fd : Nat) (file : Opened) : Table where
  fds := Function.update t.fds fd (some file)
  nextFd := if t.nextFd ≤ fd then fd + 1 else t.nextFd
  fresh k beyond := by
    split at beyond <;> rw [Function.update_of_ne (by omega), t.fresh k (by omega)]

def Table.close (t : Table) (fd : Nat) : Table where
  fds := Function.update t.fds fd none
  nextFd := t.nextFd
  fresh k beyond := by
    by_cases same : k = fd
    · rw [same, Function.update_self]
    · rw [Function.update_of_ne same, t.fresh k beyond]

def Table.closeOpen (t : Table) : Option Nat → Table
  | none => t
  | some fd => t.close fd

def Table.pipe (t : Table) (i : Nat) : Table :=
  (t.put t.nextFd (.reads i)).put (t.nextFd + 1) (.writes i)

def Table.dup2 (t : Table) (room : Bool) (oldfd newfd : Nat) : Table :=
  if oldfd = newfd then t
  else match t.fds oldfd with
    | none => t
    | some file => if room then (t.close newfd).put newfd file else t.close newfd

/-- How the calls go: of stage `i` pipe and fork, the dup2 onto a descriptor in its child, and
the status word of its end. -/
structure Calls where
  pipe : Nat → Bool
  fork : Nat → Option Nat
  dup2 : Nat → Nat → Bool
  status : Nat → Nat
  positive : ∀ i pid, fork i = some pid → 0 < pid
  distinct : ∀ i j pid, fork i = some pid → fork j = some pid → i = j

structure Shell where
  table : Table
  -- pids, 0 in a free entry
  jobs : List Nat

def addJob : List Nat → Nat → List Nat
  | [], _ => []
  | job :: rest, p => if job = 0 then p :: rest else job :: addJob rest p

structure Child where
  pid : Nat
  table : Table

structure Loop where
  table : Table
  prevRead : Option Nat
  pids : List Child

def wireIn (calls : Calls) (i : Nat) (prevRead : Option Nat) (t : Table) : Table :=
  match prevRead with
  | none => t
  | some fd => (t.dup2 (calls.dup2 i STDIN_FILENO) fd STDIN_FILENO).close fd

def wireOut (calls : Calls) (i : Nat) (fds : Option (Nat × Nat)) (t : Table) : Table :=
  match fds with
  | none => t
  | some (r, w) => ((t.dup2 (calls.dup2 i STDOUT_FILENO) w STDOUT_FILENO).close r).close w

def stage (calls : Calls) (n i : Nat) (l : Loop) : Except Loop Loop :=
  if i < n - 1 ∧ calls.pipe i = false then
    .error {l with table := l.table.closeOpen l.prevRead}
  else
    let fds := if i < n - 1 then some (l.table.nextFd, l.table.nextFd + 1) else none
    let table := if i < n - 1 then l.table.pipe i else l.table
    match calls.fork i with
    | none => .error {l with table := table}
    | some pid =>
      let child := wireOut calls i fds (wireIn calls i l.prevRead table)
      .ok ⟨(table.closeOpen l.prevRead).closeOpen (fds.map Prod.snd), fds.map Prod.fst,
        l.pids ++ [⟨pid, child⟩]⟩

def stages (calls : Calls) (n : Nat) : Nat → Nat → Loop → Except Loop Loop
  | 0, _, l => .ok l
  | k + 1, i, l => (stage calls n i l).bind (stages calls n k (i + 1))

structure Result where
  ret : Int
  shell : Shell
  started : List Child
  -- the pids that waitpid is called for
  waited : List Nat

def lastPid (pids : List Child) : Nat := (pids.getLast?.map Child.pid).getD 0

def runPipeline (calls : Calls) (shell : Shell) (n : Nat) (background : Bool) : Result :=
  match stages calls n n 0 ⟨shell.table, none, []⟩ with
  | .error l => ⟨-1, ⟨l.table, shell.jobs⟩, l.pids, []⟩
  | .ok l =>
    if background then
      ⟨0, ⟨l.table, addJob shell.jobs (lastPid l.pids)⟩, l.pids, []⟩
    else
      let status := calls.status (n - 1)
      let ret := if WIFSIGNALED status ∧ WTERMSIG status ≠ 0 then 128 + WTERMSIG status
        else if WIFEXITED status then WEXITSTATUS status else 1
      ⟨ret, ⟨l.table, shell.jobs⟩, l.pids, l.pids.map Child.pid⟩

/-! ## What it should leave -/

def wired (shell : Table) (n i : Nat) (fd : Nat) : Option Opened :=
  if fd = STDIN_FILENO ∧ 0 < i then some (.reads (i - 1))
  else if fd = STDOUT_FILENO ∧ i < n - 1 then some (.writes i)
  else shell.fds fd

def Succeeds (calls : Calls) (n : Nat) : Prop :=
  (∀ i < n - 1, calls.pipe i = true) ∧ ∀ i < n, calls.fork i ≠ none

structure Clean (calls : Calls) (shell : Shell) (n : Nat) (r : Result) : Prop where
  table : r.shell.table.fds = shell.table.fds
  minded : ∀ c ∈ r.started, c.pid ∈ r.waited ∨ c.pid ∈ r.shell.jobs
  connected : Succeeds calls n →
    r.started.map (fun c => c.table.fds) = (List.range n).map (wired shell.table n)

/-- The first pipe fails, or the fork of a lone stage; or nothing fails, and a background
pipeline is one stage that a job entry is free for. -/
def Carried (calls : Calls) (shell : Shell) (n : Nat) (background : Bool) : Prop :=
  (2 ≤ n ∧ calls.pipe 0 = false) ∨ (n = 1 ∧ calls.fork 0 = none) ∨
  (Succeeds calls n ∧ (2 ≤ n → 2 ≤ shell.table.nextFd) ∧
    (∀ i < n, (0 < i → calls.dup2 i STDIN_FILENO = true) ∧
      (i < n - 1 → calls.dup2 i STDOUT_FILENO = true)) ∧
    (background = true → n = 1 ∧ 0 ∈ shell.jobs))

/-! ## The loop -/

section loop

variable {calls : Calls} {shell : Table} {n i : Nat}

def held (shell : Table) : Nat → Table × Option Nat
  | 0 => (shell, none)
  | i + 1 =>
    ((((held shell i).1.pipe i).closeOpen (held shell i).2).close ((held shell i).1.nextFd + 1),
      some (held shell i).1.nextFd)

def childTable (calls : Calls) (shell : Table) (n i : Nat) : Table :=
  let fds := if i < n - 1 then some ((held shell i).1.nextFd, (held shell i).1.nextFd + 1) else none
  let table := if i < n - 1 then (held shell i).1.pipe i else (held shell i).1
  wireOut calls i fds (wireIn calls i (held shell i).2 table)

def childOf (calls : Calls) (shell : Table) (n i : Nat) : Child :=
  ⟨(calls.fork i).getD 0, childTable calls shell n i⟩

def loopAt (calls : Calls) (shell : Table) (n i : Nat) : Loop :=
  ⟨(held shell i).1, (held shell i).2, (List.range i).map (childOf calls shell n)⟩

theorem childrenMore {pid : Nat} (forked : calls.fork i = some pid) :
    (List.range i).map (childOf calls shell n) ++ [⟨pid, childTable calls shell n i⟩] =
      (List.range (i + 1)).map (childOf calls shell n) := by
  rw [List.range_succ, List.map_append, List.map_singleton]
  unfold childOf
  rw [forked, Option.getD_some]

theorem stagesSucc (k : Nat) (l : Loop) :
    stages calls n (k + 1) i l = (stage calls n i l).bind (stages calls n k (i + 1)) := rfl

theorem stageMiddle {pid : Nat} (middle : i < n - 1) (piped : calls.pipe i = true)
    (forked : calls.fork i = some pid) :
    stage calls n i (loopAt calls shell n i) = .ok (loopAt calls shell n (i + 1)) := by
  have more := @childrenMore _ shell n _ _ forked
  unfold childTable at more
  rw [if_pos middle, if_pos middle] at more
  unfold stage
  rw [if_neg fun fails => by simp [piped] at fails, if_pos middle, if_pos middle, forked]
  unfold loopAt
  rw [← more]
  rfl

theorem stageLast {pid : Nat} (last : ¬ i < n - 1) (forked : calls.fork i = some pid) :
    stage calls n i (loopAt calls shell n i) = .ok ⟨(held shell i).1.closeOpen (held shell i).2,
      none, (List.range (i + 1)).map (childOf calls shell n)⟩ := by
  have more := @childrenMore _ shell n _ _ forked
  unfold childTable at more
  rw [if_neg last, if_neg last] at more
  unfold stage
  rw [if_neg fun fails => last fails.1, if_neg last, if_neg last, forked, ← more]
  rfl

def Before (calls : Calls) (i : Nat) : Prop :=
  ∀ j < i, calls.pipe j = true ∧ calls.fork j ≠ none

theorem stagesBefore (inside : i < n) (well : Before calls i) :
    stages calls n n 0 ⟨shell, none, []⟩ = stages calls n (n - i) i (loopAt calls shell n i) := by
  induction i with
  | zero => rfl
  | succ i ih =>
    obtain ⟨piped, going⟩ := well i (Nat.lt_succ_self i)
    obtain ⟨pid, forked⟩ := Option.ne_none_iff_exists'.mp going
    rw [ih (by omega) fun j less => well j (Nat.lt_succ_of_lt less)]
    obtain ⟨k, rest⟩ : ∃ k, n - i = k + 1 := ⟨n - i - 1, by omega⟩
    have less : n - (i + 1) = k := by omega
    rw [rest, less, stagesSucc, stageMiddle (by omega) piped forked]
    rfl

/-! ## The tables -/

@[simp] theorem putFds (t : Table) (fd : Nat) (file : Opened) :
    (t.put fd file).fds = Function.update t.fds fd (some file) := rfl

@[simp] theorem closeFds (t : Table) (fd : Nat) :
    (t.close fd).fds = Function.update t.fds fd none := rfl

@[simp] theorem closeNext (t : Table) (fd : Nat) : (t.close fd).nextFd = t.nextFd := rfl

@[simp] theorem closeOpenNext (t : Table) (fd : Option Nat) :
    (t.closeOpen fd).nextFd = t.nextFd := by
  cases fd <;> rfl

theorem putNext (t : Table) {file : Opened} : (t.put t.nextFd file).nextFd = t.nextFd + 1 :=
  if_pos (Nat.le_refl _)

theorem pipeNext (t : Table) : (t.pipe i).nextFd = t.nextFd + 2 := by
  have one : (t.put t.nextFd (.reads i)).nextFd = t.nextFd + 1 := putNext t
  unfold Table.pipe
  rw [← one, putNext]
  omega

theorem pipeFds (t : Table) : (t.pipe i).fds =
    Function.update (Function.update t.fds t.nextFd (some (.reads i))) (t.nextFd + 1)
      (some (.writes i)) := rfl

theorem heldSpec (shell : Table) (i : Nat) : (held shell i).1.nextFd = shell.nextFd + 2 * i ∧
    ((i = 0 ∧ (held shell i).2 = none ∧ (held shell i).1.fds = shell.fds) ∨
      (0 < i ∧ (held shell i).2 = some (shell.nextFd + 2 * (i - 1)) ∧
        (held shell i).1.fds = Function.update shell.fds (shell.nextFd + 2 * (i - 1))
          (some (.reads (i - 1))))) := by
  induction i with
  | zero => exact ⟨rfl, .inl ⟨rfl, rfl, rfl⟩⟩
  | succ i ih =>
    obtain ⟨next, ends⟩ := ih
    unfold held
    refine ⟨?_, .inr ⟨Nat.succ_pos i, ?_, ?_⟩⟩
    · rw [closeNext, closeOpenNext, pipeNext, next]
      omega
    · rw [next]
      rfl
    · rw [closeFds, next, Nat.add_sub_cancel]
      have beyond := shell.fresh (shell.nextFd + 2 * i + 1) (by omega)
      funext fd
      rcases ends with ⟨rfl, prev, fds⟩ | ⟨some', prev, fds⟩
      · rw [prev]
        unfold Table.closeOpen
        rw [pipeFds, fds, next]
        simp only [Function.update_apply]
        grind
      · rw [prev]
        unfold Table.closeOpen
        rw [closeFds, pipeFds, fds, next]
        have closed := shell.fresh (shell.nextFd + 2 * (i - 1)) (by omega)
        simp only [Function.update_apply]
        grind

theorem heldClosed (shell : Table) (i : Nat) :
    ((held shell i).1.closeOpen (held shell i).2).fds = shell.fds := by
  rcases (heldSpec shell i).2 with ⟨_, prev, fds⟩ | ⟨_, prev, fds⟩
  · rw [prev]
    exact fds
  · rw [prev]
    unfold Table.closeOpen
    rw [closeFds, fds, Function.update_idem]
    exact Function.update_eq_self_iff.mpr (shell.fresh _ (by omega)).symm

theorem dup2Fds {t : Table} {room : Bool} {oldfd newfd : Nat} {file : Opened}
    (apart : oldfd ≠ newfd) (opened : t.fds oldfd = some file) :
    (t.dup2 room oldfd newfd).fds =
      Function.update t.fds newfd (if room then some file else none) := by
  unfold Table.dup2
  rw [if_neg apart, opened]
  cases room with
  | true =>
    dsimp only
    rw [if_pos rfl, if_pos rfl, putFds, closeFds, Function.update_idem]
  | false => rfl

def wiredAs (calls : Calls) (shell : Table) (n i : Nat) (fd : Nat) : Option Opened :=
  if fd = STDIN_FILENO ∧ 0 < i then
    if calls.dup2 i STDIN_FILENO then some (.reads (i - 1)) else none
  else if fd = STDOUT_FILENO ∧ i < n - 1 then
    if calls.dup2 i STDOUT_FILENO then some (.writes i) else none
  else shell.fds fd

theorem wireInFds {t : Table} (ends : (i = 0 ∧ (held shell i).2 = none) ∨
      (0 < i ∧ (held shell i).2 = some (shell.nextFd + 2 * (i - 1)) ∧
        t.fds (shell.nextFd + 2 * (i - 1)) = some (.reads (i - 1))))
    (above : 0 < i → 2 ≤ shell.nextFd) (fd : Nat) :
    (wireIn calls i (held shell i).2 t).fds fd =
      if fd = STDIN_FILENO ∧ 0 < i then
        if calls.dup2 i STDIN_FILENO then some (.reads (i - 1)) else none
      else if 0 < i ∧ fd = shell.nextFd + 2 * (i - 1) then none
      else t.fds fd := by
  unfold wireIn
  rcases ends with ⟨first, prev⟩ | ⟨later, prev, opened⟩
  · rw [prev, if_neg (by omega), if_neg (by omega)]
  · have low := above later
    rw [prev]
    dsimp only
    rw [closeFds, dup2Fds (by unfold STDIN_FILENO; omega) opened]
    simp only [Function.update_apply]
    unfold STDIN_FILENO
    grind

theorem wireOutFds {t : Table} {fd' : Nat} (opened : t.fds (fd' + 1) = some (.writes i))
    (above : 2 ≤ fd') (fd : Nat) : (wireOut calls i (some (fd', fd' + 1)) t).fds fd =
      if fd = STDOUT_FILENO then
        if calls.dup2 i STDOUT_FILENO then some (.writes i) else none
      else if fd = fd' ∨ fd = fd' + 1 then none
      else t.fds fd := by
  unfold wireOut
  dsimp only
  rw [closeFds, closeFds, dup2Fds (by unfold STDOUT_FILENO; omega) opened]
  simp only [Function.update_apply]
  unfold STDOUT_FILENO
  grind

theorem childFds (inside : i < n) (above : 2 ≤ n → 2 ≤ shell.nextFd) :
    (childTable calls shell n i).fds = wiredAs calls shell n i := by
  obtain ⟨next, ends⟩ := heldSpec shell i
  have high : ∀ fd, shell.nextFd ≤ fd → shell.fds fd = none := shell.fresh
  funext fd
  unfold childTable wiredAs
  by_cases middle : i < n - 1
  · have low := above (by omega)
    have input := @wireInFds calls _ _ ((held shell i).1.pipe i) (by
      rcases ends with ⟨first, prev, _⟩ | ⟨later, prev, fds⟩
      · exact .inl ⟨first, prev⟩
      · refine .inr ⟨later, prev, ?_⟩
        rw [pipeFds, fds, next, Function.update_of_ne (by omega), Function.update_of_ne (by omega),
          Function.update_self]) fun _ => low
    rw [if_pos middle, if_pos middle, next]
    rw [wireOutFds _ (by omega), input, pipeFds, next]
    · unfold STDIN_FILENO STDOUT_FILENO
      simp only [Function.update_apply]
      rcases ends with ⟨first, prev, fds⟩ | ⟨later, prev, fds⟩
      · rw [fds]
        grind
      · rw [fds]
        simp only [Function.update_apply]
        grind
    · rw [input, pipeFds, next]
      unfold STDIN_FILENO
      rw [if_neg (by omega), if_neg (by omega), Function.update_self]
  · have input := @wireInFds calls _ _ (held shell i).1 (by
      rcases ends with ⟨first, prev, _⟩ | ⟨later, prev, fds⟩
      · exact .inl ⟨first, prev⟩
      · refine .inr ⟨later, prev, ?_⟩
        rw [fds, Function.update_self]) fun later => above (by omega)
    rw [if_neg middle, if_neg middle]
    unfold wireOut
    dsimp only
    rw [input]
    unfold STDIN_FILENO STDOUT_FILENO
    rcases ends with ⟨first, prev, fds⟩ | ⟨later, prev, fds⟩
    · rw [fds]
      grind
    · rw [fds]
      simp only [Function.update_apply]
      grind

theorem lowChild (pair : 2 ≤ n) (low : shell.nextFd < 2) :
    (childTable calls shell n 0).fds STDOUT_FILENO = none := by
  unfold childTable
  rw [if_pos (by omega)]
  unfold wireOut held STDOUT_FILENO
  dsimp only
  rw [closeFds, closeFds]
  simp only [Function.update_apply]
  grind

/-! ## How the loop ends -/

theorem stagesAll (some' : 0 < n) (well : Succeeds calls n) :
    stages calls n n 0 ⟨shell, none, []⟩ =
      .ok ⟨(held shell (n - 1)).1.closeOpen (held shell (n - 1)).2, none,
        (List.range n).map (childOf calls shell n)⟩ := by
  obtain ⟨pid, forked⟩ := Option.ne_none_iff_exists'.mp (well.2 (n - 1) (by omega))
  have one : n - (n - 1) = 1 := by omega
  have all : n - 1 + 1 = n := by omega
  rw [stagesBefore (i := n - 1) (by omega) fun j less => ⟨well.1 j less, well.2 j (by omega)⟩, one,
    stagesSucc, stageLast (Nat.lt_irrefl _) forked, all]
  rfl

theorem failsFirst (fails : ¬ Succeeds calls n) : ∃ i < n, Before calls i ∧
    ((i < n - 1 ∧ calls.pipe i = false) ∨
      ((i < n - 1 → calls.pipe i = true) ∧ calls.fork i = none)) := by
  have some' : ∃ i, i < n ∧ ((i < n - 1 ∧ calls.pipe i = false) ∨ calls.fork i = none) := by
    by_contra none
    push Not at none
    exact fails ⟨fun i less => by simpa using (none i (by omega)).1 less,
      fun i less => (none i less).2⟩
  obtain ⟨inside, first⟩ := Nat.find_spec some'
  refine ⟨Nat.find some', inside, fun j less => ?_, ?_⟩
  · have well := Nat.find_min some' less
    push Not at well
    obtain ⟨piped, forked⟩ := well (by omega)
    exact ⟨by simpa using piped (by omega), forked⟩
  · by_cases piped : Nat.find some' < n - 1 ∧ calls.pipe (Nat.find some') = false
    · exact .inl piped
    · refine .inr ⟨fun less => by simpa using not_and.mp piped less, first.resolve_left piped⟩

theorem stagesPipe (inside : i < n - 1) (well : Before calls i) (fails : calls.pipe i = false) :
    stages calls n n 0 ⟨shell, none, []⟩ =
      .error ⟨(held shell i).1.closeOpen (held shell i).2, (held shell i).2,
        (List.range i).map (childOf calls shell n)⟩ := by
  obtain ⟨k, rest⟩ : ∃ k, n - i = k + 1 := ⟨n - i - 1, by omega⟩
  rw [stagesBefore (by omega) well, rest, stagesSucc]
  unfold stage
  rw [if_pos ⟨inside, fails⟩]
  rfl

theorem stagesFork (inside : i < n) (well : Before calls i)
    (piped : i < n - 1 → calls.pipe i = true) (fails : calls.fork i = none) :
    stages calls n n 0 ⟨shell, none, []⟩ =
      .error ⟨if i < n - 1 then (held shell i).1.pipe i else (held shell i).1, (held shell i).2,
        (List.range i).map (childOf calls shell n)⟩ := by
  obtain ⟨k, rest⟩ : ∃ k, n - i = k + 1 := ⟨n - i - 1, by omega⟩
  rw [stagesBefore (by omega) well, rest, stagesSucc]
  unfold stage
  rw [if_neg fun both => by simp [piped both.1] at both, fails]
  rfl

end loop

theorem addJobMem {jobs : List Nat} {p q : Nat} (some' : 0 < q) :
    q ∈ addJob jobs p ↔ q ∈ jobs ∨ (0 ∈ jobs ∧ q = p) := by
  induction jobs with
  | nil => simp [addJob]
  | cons job rest ih =>
    unfold addJob
    split
    · rename_i free
      subst free
      simp only [List.mem_cons, true_or, true_and]
      constructor
      · rintro (same | member)
        · exact .inr same
        · exact .inl (.inr member)
      · rintro ((none | member) | same)
        · omega
        · exact .inr member
        · exact .inl same
    · rename_i taken
      simp only [List.mem_cons, ih]
      constructor
      · rintro (same | member | ⟨free, same⟩)
        · exact .inl (.inl same)
        · exact .inl (.inr member)
        · exact .inr ⟨.inr free, same⟩
      · rintro ((same | member) | ⟨free | free, same⟩)
        · exact .inl same
        · exact .inr (.inl member)
        · exact absurd free.symm taken
        · exact .inr (.inr ⟨free, same⟩)

section outcome

variable {calls : Calls} {shell : Shell} {n : Nat} {background : Bool}

theorem childMember {table : Table} {k : Nat} {c : Child}
    (member : c ∈ (List.range k).map (childOf calls table n)) :
    ∃ i < k, childOf calls table n i = c := by
  obtain ⟨i, inside, same⟩ := List.mem_map.mp member
  exact ⟨i, List.mem_range.mp inside, same⟩

theorem childMinded {table : Table} {i k pid : Nat} (inside : i < k)
    (forked : calls.fork i = some pid) :
    ⟨pid, childTable calls table n i⟩ ∈ (List.range k).map (childOf calls table n) := by
  refine List.mem_map.mpr ⟨i, List.mem_range.mpr inside, ?_⟩
  unfold childOf
  rw [forked, Option.getD_some]

theorem failedClean {l : Loop} {i : Nat}
    (ends : stages calls n n 0 ⟨shell.table, none, []⟩ = .error l)
    (pids : l.pids = (List.range i).map (childOf calls shell.table n)) (well : Before calls i)
    (new : ∀ i pid, calls.fork i = some pid → pid ∉ shell.jobs) (fails : ¬ Succeeds calls n) :
    Clean calls shell n (runPipeline calls shell n background) ↔
      l.table.fds = shell.table.fds ∧ i = 0 := by
  unfold runPipeline
  rw [ends]
  constructor
  · rintro ⟨table, minded, _⟩
    refine ⟨table, ?_⟩
    by_contra later
    obtain ⟨pid, forked⟩ := Option.ne_none_iff_exists'.mp (well 0 (by omega)).2
    have member := @childMinded _ n shell.table _ _ _ (Nat.pos_of_ne_zero later) forked
    rw [← pids] at member
    rcases minded _ member with waited | noted
    · exact List.not_mem_nil waited
    · exact new 0 pid forked noted
  · rintro ⟨table, rfl⟩
    refine ⟨table, fun c member => ?_, fun succeeds => absurd succeeds fails⟩
    dsimp only at member
    rw [pids] at member
    exact absurd member List.not_mem_nil

theorem wiredIff {table : Table} {i : Nat} : wiredAs calls table n i = wired table n i ↔
    (0 < i → calls.dup2 i STDIN_FILENO = true) ∧
      (i < n - 1 → calls.dup2 i STDOUT_FILENO = true) := by
  constructor
  · intro same
    have input := congrFun same STDIN_FILENO
    have output := congrFun same STDOUT_FILENO
    unfold wiredAs wired STDIN_FILENO STDOUT_FILENO at input output
    unfold STDIN_FILENO STDOUT_FILENO
    grind
  · rintro ⟨input, output⟩
    funext fd
    unfold wiredAs wired
    grind

theorem connectedIff {table : Table} (some' : 0 < n) :
    (∀ i < n, (childTable calls table n i).fds = wired table n i) ↔
      (2 ≤ n → 2 ≤ table.nextFd) ∧ ∀ i < n, (0 < i → calls.dup2 i STDIN_FILENO = true) ∧
        (i < n - 1 → calls.dup2 i STDOUT_FILENO = true) := by
  constructor
  · intro each
    have above : 2 ≤ n → 2 ≤ table.nextFd := fun pair => by
      by_contra low
      have first := congrFun (each 0 some') STDOUT_FILENO
      rw [lowChild pair (by omega)] at first
      unfold wired STDIN_FILENO STDOUT_FILENO at first
      rw [if_neg (by omega), if_pos ⟨rfl, by omega⟩] at first
      cases first
    exact ⟨above, fun i inside => wiredIff.mp ((childFds inside above).symm.trans (each i inside))⟩
  · rintro ⟨above, room⟩ i inside
    rw [childFds inside above]
    exact wiredIff.mpr (room i inside)

theorem notedIff (some' : 0 < n) (well : Succeeds calls n)
    (new : ∀ i pid, calls.fork i = some pid → pid ∉ shell.jobs) :
    (∀ c ∈ (List.range n).map (childOf calls shell.table n), c.pid ∈ addJob shell.jobs
      (lastPid ((List.range n).map (childOf calls shell.table n)))) ↔ n = 1 ∧ 0 ∈ shell.jobs := by
  obtain ⟨pid, forked⟩ := Option.ne_none_iff_exists'.mp (well.2 (n - 1) (by omega))
  have last : lastPid ((List.range n).map (childOf calls shell.table n)) = pid := by
    obtain ⟨k, rfl⟩ : ∃ k, n = k + 1 := ⟨n - 1, by omega⟩
    unfold lastPid
    rw [List.range_succ, List.map_append, List.map_singleton, List.getLast?_concat]
    unfold childOf
    rw [Option.map_some, Option.getD_some]
    rw [Nat.add_sub_cancel] at forked
    rw [forked, Option.getD_some]
  rw [last]
  constructor
  · intro each
    obtain ⟨first, start⟩ := Option.ne_none_iff_exists'.mp (well.2 0 some')
    have noted := each _ (childMinded some' start)
    rcases (addJobMem (calls.positive 0 first start)).mp noted with old | ⟨free, same⟩
    · exact absurd old (new 0 first start)
    · subst same
      have lone := calls.distinct 0 (n - 1) first start forked
      exact ⟨by omega, free⟩
  · rintro ⟨rfl, free⟩ c member
    obtain ⟨i, inside, rfl⟩ := childMember member
    have first : i = 1 - 1 := by omega
    unfold childOf
    dsimp only
    rw [first, forked, Option.getD_some]
    exact (addJobMem (calls.positive _ _ forked)).mpr (.inr ⟨free, rfl⟩)

theorem succeedsClean (some' : 0 < n) (well : Succeeds calls n)
    (new : ∀ i pid, calls.fork i = some pid → pid ∉ shell.jobs) :
    Clean calls shell n (runPipeline calls shell n background) ↔
      (∀ i < n, (childTable calls shell.table n i).fds = wired shell.table n i) ∧
        (background = true → n = 1 ∧ 0 ∈ shell.jobs) := by
  have connected : ((List.range n).map (childOf calls shell.table n)).map
      (fun c => c.table.fds) = (List.range n).map (wired shell.table n) ↔
      ∀ i < n, (childTable calls shell.table n i).fds = wired shell.table n i := by
    rw [List.map_map, List.map_inj_left]
    exact forall_congr' fun i => by rw [List.mem_range]; rfl
  rw [← connected]
  unfold runPipeline
  rw [stagesAll some' well]
  cases background with
  | true =>
    rw [← notedIff some' well new]
    constructor
    · rintro ⟨_, minded, joined⟩
      exact ⟨joined well, fun _ c member => (minded c member).resolve_left List.not_mem_nil⟩
    · rintro ⟨joined, noted⟩
      exact ⟨heldClosed _ _, fun c member => .inr (noted rfl c member), fun _ => joined⟩
  | false =>
    constructor
    · rintro ⟨_, _, joined⟩
      exact ⟨joined well, fun no => absurd no (by decide)⟩
    · rintro ⟨joined, _⟩
      exact ⟨heldClosed _ _, fun c member => .inl (List.mem_map_of_mem member), fun _ => joined⟩

theorem pipelineRight (some' : 0 < n)
    (new : ∀ i pid, calls.fork i = some pid → pid ∉ shell.jobs) :
    Clean calls shell n (runPipeline calls shell n background) ↔
      Carried calls shell n background := by
  by_cases well : Succeeds calls n
  · rw [succeedsClean some' well new, connectedIff some']
    unfold Carried
    constructor
    · rintro ⟨⟨above, room⟩, noted⟩
      exact .inr (.inr ⟨well, above, room, noted⟩)
    · rintro (⟨pair, pipeFails⟩ | ⟨_, forkFails⟩ | ⟨_, above, room, noted⟩)
      · rw [well.1 0 (by omega)] at pipeFails
        exact absurd pipeFails (by decide)
      · exact absurd forkFails (well.2 0 some')
      · exact ⟨⟨above, room⟩, noted⟩
  · obtain ⟨i, inside, before, pipeFails | ⟨piped, forkFails⟩⟩ := failsFirst well
    · rw [failedClean (stagesPipe pipeFails.1 before pipeFails.2) rfl before new well]
      unfold Carried
      constructor
      · rintro ⟨_, rfl⟩
        exact .inl ⟨by omega, pipeFails.2⟩
      · rintro (⟨_, first⟩ | ⟨one, _⟩ | ⟨succeeds, _⟩)
        · refine ⟨heldClosed shell.table i, ?_⟩
          by_contra later
          rw [(before 0 (by omega)).1] at first
          exact absurd first (by decide)
        · omega
        · exact absurd succeeds well
    · rw [failedClean (stagesFork inside before piped forkFails) rfl before new well]
      unfold Carried
      constructor
      · rintro ⟨table, rfl⟩
        by_cases pair : 0 < n - 1
        · rw [if_pos pair, pipeFds] at table
          have leaked := congrFun table shell.table.nextFd
          rw [Function.update_of_ne (by show _ ≠ shell.table.nextFd + 1; omega)] at leaked
          have opened := Function.update_self (f := shell.table.fds) shell.table.nextFd
            (some (Opened.reads 0))
          rw [show (held shell.table 0).1 = shell.table from rfl, opened,
            shell.table.fresh _ (Nat.le_refl _)] at leaked
          cases leaked
        · exact .inr (.inl ⟨by omega, forkFails⟩)
      · rintro (⟨pair, first⟩ | ⟨rfl, _⟩ | ⟨succeeds, _⟩)
        · rcases Nat.eq_zero_or_pos i with rfl | later
          · rw [piped (by omega)] at first
            exact absurd first (by decide)
          · rw [(before 0 later).1] at first
            exact absurd first (by decide)
        · obtain rfl : i = 0 := by omega
          exact ⟨rfl, rfl⟩
        · exact absurd succeeds well

end outcome

def terminal : Table where
  fds fd := if fd < 3 then some (.own fd) else none
  nextFd := 3
  fresh fd beyond := if_neg (by omega)

def goingWell : Calls where
  pipe _ := true
  fork i := some (100 + i)
  dup2 _ _ := true
  status _ := 0
  positive i pid forked := by cases forked; omega
  distinct i j pid one other := by
    have same := Option.some.inj (one.trans other.symm)
    omega

def noFork : Calls where
  pipe _ := true
  fork i := if i = 0 then some 100 else none
  dup2 _ _ := true
  status _ := 0
  positive i pid forked := by split at forked <;> cases forked; omega
  distinct i j pid one other := by
    split at one <;> cases one
    split at other <;> cases other
    omega

theorem threeStagesRight : Clean goingWell ⟨terminal, List.replicate MAX_JOBS 0⟩ 3
    (runPipeline goingWell ⟨terminal, List.replicate MAX_JOBS 0⟩ 3 false) :=
  (pipelineRight (by decide) fun i pid forked => by
    cases forked
    intro member
    have zero := List.eq_of_mem_replicate member
    omega).mpr
      (.inr (.inr ⟨⟨fun _ _ => rfl, fun _ _ => nofun⟩, fun _ => by decide,
        fun _ _ => ⟨fun _ => rfl, fun _ => rfl⟩, nofun⟩))

/-- The fork of a second stage fails: the shell keeps the read end of the first pipe, and
nobody waits for the first stage. -/
theorem forkFailureLeaks : ¬ Clean noFork ⟨terminal, List.replicate MAX_JOBS 0⟩ 2
    (runPipeline noFork ⟨terminal, List.replicate MAX_JOBS 0⟩ 2 false) := by
  intro clean
  have kept : (runPipeline noFork ⟨terminal, List.replicate MAX_JOBS 0⟩ 2 false).shell.table.fds 3 =
      some (.reads 0) := by decide
  rw [clean.table] at kept
  exact absurd kept (by decide)

end Scepter.Sh
