import Scepter.Kernel.Sched

/-! Sending a signal (kernel/signal.c). send_signal wakes one queue only, the
target's own `task->wait`; the other queues of `WaitQueue` are out of its reach. -/
namespace Scepter.Sched

def NSIG : Nat := 32
def SIGCONT : Nat := 18

def SIG_DFL : BitVec 32 := 0
def SIG_IGN : BitVec 32 := 1

def sigDefaultTerminates (sig : Nat) : Bool :=
  sig ∈ [1, 2, 3, 4, 5, 6, 7, 8, 9, 10, 11, 12, 13, 14, 15, 24, 25, 26, 27, 29, 30, 31]

def setPending (k : Kernel) (t : TaskId) (signum : Nat) : Kernel :=
  let task := k.task t
  k.setTask t {task with pending := task.pending ||| (1#32 <<< signum)}

def leaveStop (k : Kernel) (t : TaskId) (continued : Bool) : Kernel :=
  let task := k.task t
  k.setTask t {task with
    state := .ready, stopSig := 0, stopReported := false
    continued := continued || task.continued}

def sendSignal (k : Kernel) (pid signum : Nat) : Int × Kernel :=
  if signum < 1 ∨ NSIG ≤ signum then (-1, k)
  else match findTaskByPid k pid with
    | none => (-1, k)
    | some t =>
      let k := setPending k t signum
      if signum = SIGCONT then
        if (k.task t).state = .stopped then
          let k := leaveStop k t true
          match findTaskByPid k (k.task t).ppid with
          | some parent => if parent ≠ t then (0, wakeUp k (.wait parent)) else (0, k)
          | none => (0, k)
        else if (k.task t).state = .blocked then (0, wakeUp k (.wait t))
        else (0, k)
      else
        let k :=
          if (k.task t).state = .stopped ∧ sigDefaultTerminates signum then leaveStop k t false
          else k
        if (k.task t).state = .blocked then (0, wakeUp k (.wait t)) else (0, k)

/-! ## wake_up -/

theorem wakeTaskState (k : Kernel) (t u : TaskId) :
    ((wakeTask k t).task u).state =
      if u = t ∧ (k.task u).state = .blocked then .ready else (k.task u).state := by
  unfold wakeTask
  split <;> rename_i blocked
  · by_cases same : u = t
    · subst same; simp [blocked]
    · simp [same]
  · by_cases same : u = t
    · subst same; simp [blocked]
    · simp [same]

theorem wakeTasksState (k : Kernel) (ts : List TaskId) (u : TaskId) :
    ((ts.foldl wakeTask k).task u).state =
      if u ∈ ts ∧ (k.task u).state = .blocked then .ready else (k.task u).state := by
  induction ts generalizing k with
  | nil => simp
  | cons t rest ih =>
    rw [List.foldl_cons, ih]
    by_cases blocked : (k.task u).state = .blocked
    · by_cases same : u = t
      · simp [wakeTaskState, same, same ▸ blocked]
      · simp [wakeTaskState, same, blocked]
    · have kept : ((wakeTask k t).task u).state = (k.task u).state := by
        rw [wakeTaskState, if_neg fun both => blocked both.2]
      simp [kept, blocked]

theorem wakeUpState (k : Kernel) (wq : WaitQueue) (u : TaskId) :
    ((wakeUp k wq).task u).state =
      if u ∈ k.queue wq ∧ (k.task u).state = .blocked then .ready else (k.task u).state :=
  wakeTasksState k (k.queue wq) u

@[simp] theorem setPendingState (k : Kernel) (t signum u) :
    ((setPending k t signum).task u).state = (k.task u).state := by
  by_cases same : u = t <;> simp [setPending, same]

@[simp] theorem setPendingQueue (k : Kernel) (t signum) :
    (setPending k t signum).queue = k.queue := rfl

/-! ## What rescheduling leaves of a task -/

def Rescheduled (before after : Task) : Prop :=
  ∃ state, after = {before with state := state} ∧
    (state = .stopped → before.state = .stopped)

theorem rescheduledRefl (task : Task) : Rescheduled task task := ⟨task.state, rfl, id⟩

theorem rescheduledTrans {a b c : Task} (first : Rescheduled a b) (second : Rescheduled b c) :
    Rescheduled a c := by
  obtain ⟨s, rfl, keptS⟩ := first
  obtain ⟨t, rfl, keptT⟩ := second
  exact ⟨t, rfl, fun stopped => keptS (keptT stopped)⟩

theorem setStateRescheduled (k : Kernel) (t u : TaskId) {state : TaskState}
    (other : state ≠ .stopped) : Rescheduled (k.task u) ((k.setState t state).task u) := by
  by_cases same : u = t
  · subst same
    exact ⟨state, by simp [Kernel.setState], fun stopped => absurd stopped other⟩
  · rw [Kernel.setState, setTaskTask, if_neg same]
    exact rescheduledRefl _

theorem wakeTaskRescheduled (k : Kernel) (t u : TaskId) :
    Rescheduled (k.task u) ((wakeTask k t).task u) := by
  unfold wakeTask
  split
  · exact setStateRescheduled k t u (by decide)
  · exact rescheduledRefl _

theorem wakeUpRescheduled (k : Kernel) (wq : WaitQueue) (u : TaskId) :
    Rescheduled (k.task u) ((wakeUp k wq).task u) := by
  suffices every : ∀ (ts : List TaskId) (k : Kernel), Rescheduled (k.task u) ((ts.foldl wakeTask k).task u) from
    every (k.queue wq) k
  intro ts
  induction ts with
  | nil => exact fun k => rescheduledRefl _
  | cons t rest ih =>
    exact fun k => rescheduledTrans (wakeTaskRescheduled k t u) (ih (wakeTask k t))

theorem pickNextTaskRescheduled (k : Kernel) (u : TaskId) :
    Rescheduled (k.task u) ((pickNextTask k).2.task u) := by
  simp only [pickNextTask]
  split
  · exact rescheduledRefl _
  split
  · exact rescheduledRefl _
  split
  · exact rescheduledRefl _
  · exact setStateRescheduled k kernelTask u (by decide)

theorem scheduleRescheduled (k : Kernel) (u : TaskId) :
    Rescheduled (k.task u) ((schedule k).task u) := by
  have picked := pickNextTaskRescheduled k u
  simp only [schedule]
  split
  · exact picked
  refine rescheduledTrans picked (rescheduledTrans ?_ (setStateRescheduled _ _ u (by decide)))
  split
  · split <;> exact setStateRescheduled _ _ u (by decide)
  · exact rescheduledRefl _

theorem sleepOnRescheduled (k : Kernel) (wq : WaitQueue) (u : TaskId) :
    Rescheduled (k.task u) ((sleepOn k wq).task u) :=
  rescheduledTrans (setStateRescheduled _ k.current u (by decide)) (scheduleRescheduled _ u)

/-! ## Reaching a blocked task -/

theorem sendSignalBlocked {k : Kernel} {t pid signum} (found : findTaskByPid k pid = some t)
    (valid : 1 ≤ signum ∧ signum < NSIG) (blocked : (k.task t).state = .blocked) :
    sendSignal k pid signum = (0, wakeUp (setPending k t signum) (.wait t)) := by
  have inRange : ¬ (signum < 1 ∨ NSIG ≤ signum) := by omega
  simp only [sendSignal, if_neg inRange, found, setPendingState, blocked]
  by_cases cont : signum = SIGCONT <;> simp [cont, blocked]

/-- A target sleeping on `wq` is READY after send_signal exactly when `wq` is its
own `task->wait`; pipe ends, FIFO opens, locks, timers and devices are not reached. -/
theorem sendSignalReadyIffOwnQueue {k : Kernel} {t pid signum wq}
    (found : findTaskByPid k pid = some t) (valid : 1 ≤ signum ∧ signum < NSIG)
    (blocked : (k.task t).state = .blocked) (linked : ∀ q, t ∈ k.queue q ↔ q = wq) :
    ((sendSignal k pid signum).2.task t).state = .ready ↔ wq = .wait t := by
  rw [sendSignalBlocked found valid blocked]
  simp only [wakeUpState, setPendingState, setPendingQueue, linked, blocked, and_true]
  by_cases own : wq = .wait t
  · simp [own]
  · simp [own, Ne.symm own]

def Deliverable (task : Task) (signum : Nat) : Prop :=
  task.blocked.getLsbD signum = false ∧
  (task.sigHandlers signum ≠ SIG_DFL ∧ task.sigHandlers signum ≠ SIG_IGN ∨
    task.sigHandlers signum = SIG_DFL ∧ sigDefaultTerminates signum)
instance (task signum) : Decidable (Deliverable task signum) := by
  unfold Deliverable; infer_instance

def sleeper (wq : WaitQueue) : Kernel where
  task t := {
    pid := t, ppid := 0, priority := 0
    state := if t = 1 then .blocked else .running
    pending := 0, blocked := 0, sigHandlers := fun _ => SIG_DFL
    stopSig := 0, stopReported := false, continued := false }
  taskList := [0, 1]
  current := 0
  queue q := if q = wq then [1] else []

theorem sleeperOnOwnQueue :
    ((sendSignal (sleeper (.wait 1)) 1 15).2.task 1).state = .ready ↔
      WaitQueue.wait 1 = .wait 1 :=
  sendSignalReadyIffOwnQueue (by decide) (by decide) (by decide)
    (fun q => by by_cases h : q = .wait 1 <;> simp [sleeper, h])

/-- SIGTERM to a task blocked in pipe_read: the signal is pending, the task stays BLOCKED. -/
theorem pipeReaderStaysBlocked :
    Deliverable ((sleeper (.pipeRead 0)).task 1) 15 ∧
    ((sleeper (.pipeRead 0)).task 1).state = .blocked ∧
    1 ∈ (sleeper (.pipeRead 0)).queue (.pipeRead 0) ∧
    (sendSignal (sleeper (.pipeRead 0)) 1 15).1 = 0 ∧
    ((sendSignal (sleeper (.pipeRead 0)) 1 15).2.task 1).state = .blocked := by
  decide

end Scepter.Sched
