import Mathlib.Data.List.Basic

/-! Tasks, the global task list, wait queues and the scheduler core
(kernel/sched.c). A `TaskId` stands for the address of a task_struct; address
spaces and saved registers take no part in a scheduling decision and are left
out, so `schedule` ends where `switch_to` starts. -/
namespace Scepter.Sched

abbrev TaskId := Nat

def kernelTask : TaskId := 0

inductive TaskState where
  | running | ready | blocked | zombie | stopped
  deriving DecidableEq, Repr

structure Task where
  pid : Nat
  ppid : Nat
  priority : Int
  state : TaskState
  pending : BitVec 32
  blocked : BitVec 32
  sigHandlers : Nat → BitVec 32   -- user handler, SIG_DFL or SIG_IGN
  stopSig : Nat
  stopReported : Bool
  continued : Bool

inductive WaitQueue where
  | wait (task : TaskId)        -- task->wait: wait4, sigsuspend
  | pipeRead (pipe : Nat)
  | pipeWrite (pipe : Nat)
  | pipeOpen (pipe : Nat)       -- FIFO open side
  | lock
  | select
  | timer
  | charRead (device : Nat)
  | netRx (iface : Nat)
  | ahciPort (port : Nat)
  deriving DecidableEq, Repr

structure Kernel where
  task : TaskId → Task
  taskList : List TaskId
  current : TaskId
  queue : WaitQueue → List TaskId

def Kernel.setTask (k : Kernel) (t : TaskId) (task : Task) : Kernel :=
  {k with task := Function.update k.task t task}

def Kernel.setState (k : Kernel) (t : TaskId) (state : TaskState) : Kernel :=
  k.setTask t {k.task t with state := state}

@[simp] theorem setTaskTask (k : Kernel) (t u task) :
    (k.setTask t task).task u = if u = t then task else k.task u := by
  simp [Kernel.setTask, Function.update_apply]
@[simp] theorem setTaskList (k : Kernel) (t task) : (k.setTask t task).taskList = k.taskList := rfl
@[simp] theorem setTaskCurrent (k : Kernel) (t task) : (k.setTask t task).current = k.current := rfl
@[simp] theorem setTaskQueue (k : Kernel) (t task) : (k.setTask t task).queue = k.queue := rfl
@[simp] theorem setStateList (k : Kernel) (t state) : (k.setState t state).taskList = k.taskList := rfl
@[simp] theorem setStateCurrent (k : Kernel) (t state) : (k.setState t state).current = k.current := rfl
@[simp] theorem setStateQueue (k : Kernel) (t state) : (k.setState t state).queue = k.queue := rfl
@[simp] theorem setStateState (k : Kernel) (t u state) :
    ((k.setState t state).task u).state = if u = t then state else (k.task u).state := by
  by_cases h : u = t <;> simp [Kernel.setState, h]
@[simp] theorem setStatePriority (k : Kernel) (t u state) :
    ((k.setState t state).task u).priority = (k.task u).priority := by
  by_cases h : u = t <;> simp [Kernel.setState, h]
@[simp] theorem setStatePid (k : Kernel) (t u state) :
    ((k.setState t state).task u).pid = (k.task u).pid := by
  by_cases h : u = t <;> simp [Kernel.setState, h]

def findTaskByPid (k : Kernel) (pid : Nat) : Option TaskId :=
  k.taskList.find? fun t => (k.task t).pid = pid

/-! ## Wait queues -/

def wakeTask (k : Kernel) (t : TaskId) : Kernel :=
  if (k.task t).state = .blocked then k.setState t .ready else k

def wakeUp (k : Kernel) (wq : WaitQueue) : Kernel :=
  let woken := (k.queue wq).foldl wakeTask k
  {woken with queue := Function.update woken.queue wq []}

/-! ## Scheduler core -/

def bestOther (k : Kernel) : List TaskId → Int → Int
  | [], best => best
  | t :: rest, best =>
    if (k.task t).state ≠ .ready ∨ t = k.current then bestOther k rest best
    else if (k.task t).priority < best then bestOther k rest (k.task t).priority
    else bestOther k rest best

def nextAfterCurrent (k : Kernel) (best : Int) : Bool → List TaskId → Option TaskId
  | _, [] => none
  | foundCurrent, t :: rest =>
    if (k.task t).state ≠ .ready ∨ (k.task t).priority ≠ best then
      nextAfterCurrent k best foundCurrent rest
    else if foundCurrent then some t
    else nextAfterCurrent k best (t = k.current) rest

def firstOther (k : Kernel) (best : Int) : Option TaskId :=
  k.taskList.find? fun t =>
    (k.task t).state = .ready ∧ (k.task t).priority = best ∧ t ≠ k.current

def pickNextTask (k : Kernel) : TaskId × Kernel :=
  let best := bestOther k k.taskList 1000
  let cur := k.task k.current
  if cur.state = .running ∧ (best = 1000 ∨ cur.priority < best) then (k.current, k)
  else match (nextAfterCurrent k best false k.taskList).or (firstOther k best) with
    | some next => (next, k)
    | none =>
      if cur.state = .ready then (k.current, k)
      else (kernelTask, k.setState kernelTask .running)

def schedule (k : Kernel) : Kernel :=
  let prev := k.current
  let (next, k) := pickNextTask k
  if next = prev then k
  else
    let k :=
      if (k.task prev).state = .running then
        if (k.task prev).pid = 0 ∧ (k.task next).pid ≠ 0 then k.setState prev .blocked
        else k.setState prev .ready
      else k
    {k.setState next .running with current := next}

def sleepOn (k : Kernel) (wq : WaitQueue) : Kernel :=
  let k := {k with queue := Function.update k.queue wq (k.queue wq ++ [k.current])}
  schedule (k.setState k.current .blocked)

/-- The rest of sleep_on, when the sleeper runs again: unlink a node that
wake_up has not already removed. -/
def sleepOnReturn (k : Kernel) (wq : WaitQueue) (t : TaskId) : Kernel :=
  {k with queue := Function.update k.queue wq ((k.queue wq).filter (· ≠ t))}

/-! ## What the two search loops find -/

theorem bestOtherLe (k : Kernel) (ts : List TaskId) (best : Int) :
    bestOther k ts best ≤ best := by
  induction ts generalizing best with
  | nil => exact Int.le_refl best
  | cons t rest ih =>
    simp only [bestOther]
    split
    · exact ih best
    · split
      · exact Int.le_trans (ih _) (by omega)
      · exact ih best

theorem bestOtherLower (k : Kernel) (ts : List TaskId) (best : Int) {u}
    (member : u ∈ ts) (ready : (k.task u).state = .ready) (other : u ≠ k.current) :
    bestOther k ts best ≤ (k.task u).priority := by
  induction ts generalizing best with
  | nil => simp at member
  | cons t rest ih =>
    simp only [bestOther]
    rcases List.mem_cons.mp member with rfl | inRest
    · rw [if_neg (by simp [ready, other])]
      split
      · exact bestOtherLe k rest _
      · exact Int.le_trans (bestOtherLe k rest best) (by omega)
    · split
      · exact ih best inRest
      · split
        · exact ih _ inRest
        · exact ih best inRest

theorem bestOtherAttained (k : Kernel) (ts : List TaskId) (best : Int)
    (below : bestOther k ts best ≠ best) :
    ∃ u ∈ ts, (k.task u).state = .ready ∧ u ≠ k.current ∧
      (k.task u).priority = bestOther k ts best := by
  induction ts generalizing best with
  | nil => exact absurd rfl below
  | cons t rest ih =>
    simp only [bestOther] at below ⊢
    split at below <;> rename_i skipped
    · simp only [if_pos skipped]
      obtain ⟨u, mem, facts⟩ := ih best below
      exact ⟨u, List.mem_cons_of_mem _ mem, facts⟩
    · simp only [if_neg skipped]
      have tReady : (k.task t).state = .ready ∧ t ≠ k.current := by simpa using skipped
      split at below <;> rename_i lower
      · simp only [if_pos lower]
        by_cases same : bestOther k rest (k.task t).priority = (k.task t).priority
        · exact ⟨t, List.mem_cons_self, tReady.1, tReady.2, same.symm⟩
        · obtain ⟨u, mem, facts⟩ := ih _ same
          exact ⟨u, List.mem_cons_of_mem _ mem, facts⟩
      · simp only [if_neg lower]
        obtain ⟨u, mem, facts⟩ := ih best below
        exact ⟨u, List.mem_cons_of_mem _ mem, facts⟩

theorem nextAfterCurrentNone (k : Kernel) (best : Int) (ts : List TaskId)
    (notReady : (k.task k.current).state ≠ .ready) :
    nextAfterCurrent k best false ts = none := by
  induction ts with
  | nil => rfl
  | cons t rest ih =>
    simp only [nextAfterCurrent]
    split
    · exact ih
    · rename_i kept
      have other : t ≠ k.current := by
        rintro rfl
        exact kept (Or.inl notReady)
      simpa [other] using ih

end Scepter.Sched
