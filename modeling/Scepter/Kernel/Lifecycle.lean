import Scepter.Kernel.Signal
import Scepter.Lib.Run

/-! The life of tasks (sched.c, process.c, signal.c): creation, context switch,
sleep, wake-up, stop, continue, exit and reaping. A task that is switched to
goes on behind its own call of schedule(); for a sleeper that is the rest of
sleep_on. Interrupts are off there, so the rest belongs to the same step.
Every path into sleep_on is `block`; wait4 and sigsuspend name `task->wait` of
the caller and no task sleeps on another one's. -/
namespace Scepter.Sched

structure State where
  kernel : Kernel
  -- the sleep_on a task is inside of
  asleep : TaskId → Option WaitQueue
  children : TaskId → List TaskId

def resume (s : State) : State :=
  match s.asleep s.kernel.current with
  | none => s
  | some wq => {s with
      kernel := sleepOnReturn s.kernel wq s.kernel.current
      asleep := Function.update s.asleep s.kernel.current none}

def switch (s : State) : State := resume {s with kernel := schedule s.kernel}

def block (s : State) (wq : WaitQueue) : State :=
  resume {s with
    kernel := sleepOn s.kernel wq
    asleep := Function.update s.asleep s.kernel.current (some wq)}

def addTask (s : State) (t : TaskId) (task : Task) : State :=
  let k := s.kernel.setTask t {task with state := .ready}
  {s with
    kernel := {k with
      taskList := k.taskList ++ [t]
      queue := Function.update k.queue (.wait t) []}
    asleep := Function.update s.asleep t none
    children := Function.update s.children t []}

def addChild (s : State) (parent child : TaskId) : State :=
  {s with children := Function.update s.children parent (s.children parent ++ [child])}

def removeTask (s : State) (t : TaskId) : State :=
  if t = kernelTask then s
  else {s with kernel := {s.kernel with taskList := s.kernel.taskList.erase t}}

def leaveChild (task : TaskId) (s : State) (child : TaskId) : State :=
  let t := s.kernel.task child
  if t.state = .zombie then removeTask s child
  else match findTaskByPid s.kernel 1 with
    | some init =>
      if init ≠ task then
        addChild {s with kernel := s.kernel.setTask child {t with
          ppid := (s.kernel.task init).pid}} init child
      else {s with kernel := s.kernel.setTask child {t with ppid := 1}}
    | none => {s with kernel := s.kernel.setTask child {t with ppid := 1}}

def wakeParent (k : Kernel) (task : TaskId) (sigchld : Bool) : Kernel :=
  match findTaskByPid k (k.task task).ppid with
  | some parent =>
    if parent ≠ task then
      wakeUp (if sigchld then (sendSignal k (k.task parent).pid 17).2 else k) (.wait parent)
    else k
  | none => k

/-- do_exit from the reparenting on; what it does before may sleep, in steps of its own. -/
def exitTask (s : State) : State :=
  let task := s.kernel.current
  let left := (s.children task).foldl (leaveChild task) s
  let s := {left with children := Function.update left.children task []}
  switch {s with kernel := wakeParent (s.kernel.setState task .zombie) task true}

def stopTask (s : State) (sig : Nat) : State :=
  let task := s.kernel.current
  let k := s.kernel.setTask task {s.kernel.task task with
    state := .stopped, stopSig := sig, stopReported := false, continued := false}
  switch {s with kernel := wakeParent k task false}

def reap (s : State) (child : TaskId) : State :=
  let parent := s.kernel.current
  let rest := (s.children parent).erase child
  removeTask {s with children := Function.update s.children parent rest} child

def ownQueue (current : TaskId) : WaitQueue → Bool
  | .wait t => t = current
  | _ => true

inductive Action where
  | create (t : TaskId) (task : Task) (forked : Bool)
  | schedule
  | block (wq : WaitQueue)
  | wakeUp (wq : WaitQueue)
  | signal (pid signum : Nat)
  | stop (sig : Nat)
  | exit
  | reap (child : TaskId)

def step (s : State) : Action → Option State
  | .create t task forked =>
    if t ∈ s.kernel.taskList then none
    else some (if forked then addChild (addTask s t task) s.kernel.current t
      else addTask s t task)
  | .schedule => some (switch s)
  | .block wq => if ownQueue s.kernel.current wq then some (block s wq) else none
  | .wakeUp wq => some {s with kernel := wakeUp s.kernel wq}
  | .signal pid signum => some {s with kernel := (sendSignal s.kernel pid signum).2}
  -- do_signal and do_exit are never entered on behalf of the idle task
  | .stop sig => if s.kernel.current = kernelTask then none else some (stopTask s sig)
  | .exit => if s.kernel.current = kernelTask then none else some (exitTask s)
  | .reap child =>
    if child ∈ s.children s.kernel.current ∧ (s.kernel.task child).state = .zombie then
      some (reap s child)
    else none

structure Start (s : State) : Prop where
  list : s.kernel.taskList = [kernelTask]
  current : s.kernel.current = kernelTask
  running : (s.kernel.task kernelTask).state = .running
  queues : ∀ q, s.kernel.queue q = []
  awake : s.asleep kernelTask = none

structure Core (asleep : TaskId → Option WaitQueue) (k : Kernel) : Prop where
  listed : k.current ∈ k.taskList
  idle : kernelTask ∈ k.taskList
  others : ∀ t ∈ k.taskList, t ≠ k.current → (k.task t).state ≠ .running
  linked : ∀ q, ∀ t ∈ k.queue q,
    t ∈ k.taskList ∧ (k.task t).state = .blocked ∧ asleep t = some q
  sleeping : ∀ t ∈ k.taskList, ∀ q, (k.task t).state = .blocked → asleep t = some q →
    t ∈ k.queue q
  once : ∀ q, (k.queue q).Nodup
  own : ∀ t, ∀ u ∈ k.queue (.wait t), u = t

structure Settled (s : State) : Prop where
  core : Core s.asleep s.kernel
  running : (s.kernel.task s.kernel.current).state = .running
  awake : s.asleep s.kernel.current = none

/-! ## Context switches -/

structure Switched (k k' : Kernel) : Prop where
  list : k'.taskList = k.taskList
  queue : k'.queue = k.queue
  listed : k'.current ∈ k.taskList
  running : (k'.task k'.current).state = .running
  rest : ∀ t, t ≠ k'.current →
    (k'.task t).state = (k.task t).state ∧ (t = k.current → (k.task t).state ≠ .running) ∨
    t = k.current ∧ (k.task t).state = .running ∧
      ((k'.task t).state = .ready ∨ (k'.task t).state = .blocked)

theorem switchedTo {k next} (listed : next ∈ k.taskList) (other : next ≠ k.current)
    {k'} (leave : k' = k ∧ (k.task k.current).state ≠ .running ∨
      (k.task k.current).state = .running ∧
      (k' = k.setState k.current .ready ∨ k' = k.setState k.current .blocked)) :
    Switched k {k'.setState next .running with current := next} := by
  rcases leave with ⟨rfl, still⟩ | ⟨running, rfl | rfl⟩
  · exact ⟨rfl, rfl, listed, by simp,
      fun t away => Or.inl ⟨by simp [away], fun same => same ▸ still⟩⟩
  all_goals
    refine ⟨rfl, rfl, listed, by simp, fun t away => ?_⟩
    by_cases same : t = k.current
    · right
      subst same
      simp [running, away]
    · left
      simp [same, away]

theorem firstOtherSome {k best next} (found : firstOther k best = some next) :
    next ∈ k.taskList ∧ next ≠ k.current := by
  have facts := List.find?_some found
  simp only [decide_eq_true_eq] at facts
  exact ⟨List.mem_of_find?_eq_some found, facts.2.2⟩

theorem pickCases {k : Kernel} (notReady : (k.task k.current).state ≠ .ready) :
    pickNextTask k = (k.current, k) ∧ (k.task k.current).state = .running ∨
    (∃ next ∈ k.taskList, next ≠ k.current ∧ pickNextTask k = (next, k)) ∨
    pickNextTask k = (kernelTask, k.setState kernelTask .running) := by
  unfold pickNextTask
  dsimp only
  rw [nextAfterCurrentNone k _ _ notReady, Option.none_or]
  split <;> rename_i keep
  · exact Or.inl ⟨rfl, keep.1⟩
  · right
    cases found : firstOther k (bestOther k k.taskList 1000) with
    | some next =>
      obtain ⟨member, other⟩ := firstOtherSome found
      exact Or.inl ⟨next, member, other, rfl⟩
    | none => exact Or.inr (by simp only)

theorem leaveCases (k : Kernel) (prev next : TaskId) :
    let left :=
      if (k.task prev).state = .running then
        if (k.task prev).pid = 0 ∧ (k.task next).pid ≠ 0 then k.setState prev .blocked
        else k.setState prev .ready
      else k
    left = k ∧ (k.task prev).state ≠ .running ∨ (k.task prev).state = .running ∧
      (left = k.setState prev .ready ∨ left = k.setState prev .blocked) := by
  dsimp only
  split <;> rename_i running
  · right
    split
    · exact ⟨running, Or.inr rfl⟩
    · exact ⟨running, Or.inl rfl⟩
  · exact Or.inl ⟨rfl, running⟩

theorem switchedFallback {k k'} (switched : Switched (k.setState kernelTask .running) k')
    (idle : k'.current = kernelTask) : Switched k k' := by
  obtain ⟨list, queue, listed, running, rest⟩ := switched
  refine ⟨list, queue, listed, running, fun t away => ?_⟩
  have facts := rest t away
  rw [idle] at away
  simpa [away] using facts

theorem scheduleSwitched {k : Kernel} (idle : kernelTask ∈ k.taskList)
    (listed : k.current ∈ k.taskList) (notReady : (k.task k.current).state ≠ .ready) :
    Switched k (schedule k) := by
  rcases pickCases notReady with ⟨picked, running⟩ | ⟨next, member, other, picked⟩ | picked
  · have same : schedule k = k := by simp [schedule, picked]
    rw [same]
    exact ⟨rfl, rfl, listed, running, fun t away => Or.inl ⟨rfl, fun same => absurd same away⟩⟩
  · unfold schedule
    simp only [picked, if_neg other]
    exact switchedTo member other (leaveCases k k.current next)
  · unfold schedule
    simp only [picked]
    split <;> rename_i same
    · refine ⟨rfl, rfl, listed, by simp [← same], fun t away => ?_⟩
      have apart : t ≠ kernelTask := by simpa [← same] using away
      exact Or.inl ⟨by simp [apart], fun isCurrent => absurd (isCurrent.trans same.symm) apart⟩
    · refine switchedFallback ?_ rfl
      exact switchedTo (k := k.setState kernelTask .running) idle same
        (leaveCases (k.setState kernelTask .running) k.current kernelTask)

theorem switchedCore {asleep k k'} (core : Core asleep k) (switched : Switched k k')
    (awake : (k.task k.current).state = .running → asleep k.current = none) :
    (∀ t ∈ k'.taskList, t ≠ k'.current → (k'.task t).state ≠ .running) ∧
    (∀ q, ∀ t ∈ k'.queue q, t ≠ k'.current → (k'.task t).state = .blocked) ∧
    ∀ t ∈ k'.taskList, ∀ q, (k'.task t).state = .blocked → asleep t = some q →
      t ∈ k'.queue q := by
  rw [switched.list, switched.queue]
  refine ⟨fun t member away => ?_, fun q t onQueue away => ?_, fun t member q blocked sleeps => ?_⟩
  · rcases switched.rest t away with ⟨same, still⟩ | ⟨_, _, left | left⟩
    · rw [same]
      by_cases isCurrent : t = k.current
      · exact still isCurrent
      · exact core.others t member isCurrent
    · simp [left]
    · simp [left]
  · obtain ⟨_, blocked, _⟩ := core.linked q t onQueue
    rcases switched.rest t away with ⟨same, _⟩ | ⟨_, running, _⟩
    · rw [same, blocked]
    · rw [blocked] at running
      cases running
  · have away : t ≠ k'.current := by
      intro same
      rw [same, switched.running] at blocked
      cases blocked
    rcases switched.rest t away with ⟨same, _⟩ | ⟨rfl, running, _⟩
    · exact core.sleeping t member q (same ▸ blocked) sleeps
    · rw [awake running] at sleeps
      cases sleeps

@[simp] theorem returnQueue (k : Kernel) (wq t q) :
    (sleepOnReturn k wq t).queue q =
      if q = wq then (k.queue wq).filter (· ≠ t) else k.queue q := by
  by_cases same : q = wq <;> simp [sleepOnReturn, same]

theorem returnMem {k : Kernel} {wq t} (only : ∀ q, t ∈ k.queue q → q = wq) (q u) :
    u ∈ (sleepOnReturn k wq t).queue q ↔ u ∈ k.queue q ∧ u ≠ t := by
  rw [returnQueue]
  split <;> rename_i same
  · subst same
    simp
  · refine ⟨fun member => ⟨member, ?_⟩, And.left⟩
    rintro rfl
    exact same (only q member)

theorem returnNodup {k : Kernel} (wq t q) (once : (k.queue q).Nodup) :
    ((sleepOnReturn k wq t).queue q).Nodup := by
  rw [returnQueue]
  split <;> rename_i same
  · exact same ▸ once.filter _
  · exact once

theorem switchSettled {s : State} (core : Core s.asleep s.kernel)
    (notReady : (s.kernel.task s.kernel.current).state ≠ .ready)
    (awake : (s.kernel.task s.kernel.current).state = .running →
      s.asleep s.kernel.current = none) : Settled (switch s) := by
  have switched := scheduleSwitched core.idle core.listed notReady
  obtain ⟨others, linked, sleeping⟩ := switchedCore core switched awake
  unfold switch resume
  split <;> rename_i wakes
  · have onQueue : ∀ q, ∀ t ∈ (schedule s.kernel).queue q, t ≠ (schedule s.kernel).current := by
      intro q t member same
      rw [switched.queue] at member
      rw [same] at member
      exact absurd (wakes.symm.trans (core.linked q _ member).2.2) (by simp)
    refine ⟨⟨?_, ?_, others, fun q t member => ⟨?_, linked q t member (onQueue q t member), ?_⟩,
      sleeping, ?_, ?_⟩, switched.running, wakes⟩
    · exact switched.list ▸ switched.listed
    · exact switched.list ▸ core.idle
    · exact switched.list ▸ (core.linked q t (switched.queue ▸ member)).1
    · exact (core.linked q t (switched.queue ▸ member)).2.2
    · exact fun q => switched.queue ▸ core.once q
    · exact fun t u member => core.own t u (switched.queue ▸ member)
  · rename_i wq
    have only : ∀ q, (schedule s.kernel).current ∈ (schedule s.kernel).queue q → q = wq := by
      intro q onQueue
      have sleeps := (core.linked q _ (switched.queue ▸ onQueue)).2.2
      exact Option.some.inj (sleeps.symm.trans wakes)
    have member := returnMem only
    refine ⟨⟨?_, ?_, others, fun q t onQueue => ?_, fun t listed q blocked sleeps => ?_, ?_, ?_⟩,
      switched.running, Function.update_self _ _ _⟩
    · exact switched.list ▸ switched.listed
    · exact switched.list ▸ core.idle
    · obtain ⟨onQueue, away⟩ := (member q t).mp onQueue
      obtain ⟨listed, _, sleeps⟩ := core.linked q t (switched.queue ▸ onQueue)
      refine ⟨switched.list ▸ listed, linked q t onQueue away, ?_⟩
      rw [← sleeps]
      exact Function.update_of_ne away _ _
    · have away : t ≠ (schedule s.kernel).current := by
        rintro rfl
        simp at sleeps
      refine (member q t).mpr ⟨sleeping t listed q blocked ?_, away⟩
      rw [← sleeps]
      exact (Function.update_of_ne away _ _).symm
    · exact fun q => returnNodup wq _ q (switched.queue ▸ core.once q)
    · intro t u onQueue
      exact core.own t u (switched.queue ▸ ((member _ u).mp onQueue).1)

/-! ## Wake-ups -/

/- A wake-up or a signal moves BLOCKED and STOPPED tasks to READY and unlinks
those that are no longer BLOCKED. -/
structure Woken (k k' : Kernel) : Prop where
  list : k'.taskList = k.taskList
  current : k'.current = k.current
  state : ∀ t, (k'.task t).state = (k.task t).state ∨ (k'.task t).state = .ready ∧
    ((k.task t).state = .blocked ∨ (k.task t).state = .stopped)
  linked : ∀ q t, t ∈ k'.queue q ↔ t ∈ k.queue q ∧ (k'.task t).state = .blocked
  order : ∀ q, (k'.queue q).Sublist (k.queue q)

theorem wokenState {k k'} (woken : Woken k k') {t state} (was : (k.task t).state = state)
    (neither : state ≠ .blocked ∧ state ≠ .stopped) : (k'.task t).state = state := by
  rcases woken.state t with same | ⟨_, blocked | stopped⟩
  · exact same.trans was
  · exact absurd (was.symm.trans blocked) neither.1
  · exact absurd (was.symm.trans stopped) neither.2

theorem wokenBefore {k k'} (woken : Woken k k') {t state} (now : (k'.task t).state = state)
    (asleep : state ≠ .ready) : (k.task t).state = state := by
  rcases woken.state t with same | ⟨ready, _⟩
  · exact same.symm.trans now
  · exact absurd (now.symm.trans ready) asleep

theorem wokenRefl {asleep k} (core : Core asleep k) : Woken k k :=
  ⟨rfl, rfl, fun _ => Or.inl rfl,
    fun q t => ⟨fun onQueue => ⟨onQueue, (core.linked q t onQueue).2.1⟩, And.left⟩,
    fun _ => List.Sublist.refl _⟩

theorem wokenTrans {k k' k''} (first : Woken k k') (second : Woken k' k'') : Woken k k'' := by
  refine ⟨second.list.trans first.list, second.current.trans first.current, fun t => ?_,
    fun q t => ?_, fun q => (second.order q).trans (first.order q)⟩
  · rcases second.state t with same | ⟨ready, before⟩
    · rw [same]
      exact first.state t
    · rcases first.state t with same | ⟨already, before⟩
      · exact Or.inr ⟨ready, same ▸ before⟩
      · exact Or.inr ⟨ready, before⟩
  · rw [second.linked, first.linked, and_assoc]
    refine and_congr_right fun _ => ⟨And.right, fun blocked => ⟨?_, blocked⟩⟩
    exact wokenBefore second blocked (by decide)

theorem wokenCore {asleep k k'} (core : Core asleep k) (woken : Woken k k') : Core asleep k' := by
  refine ⟨?_, ?_, fun t listed away running => ?_, fun q t onQueue => ?_,
    fun t listed q blocked sleeps => ?_, fun q => (core.once q).sublist (woken.order q), ?_⟩
  · rw [woken.list, woken.current]
    exact core.listed
  · exact woken.list ▸ core.idle
  · exact core.others t (woken.list ▸ listed) (woken.current ▸ away)
      (wokenBefore woken running (by decide))
  · obtain ⟨before, blocked⟩ := (woken.linked q t).mp onQueue
    obtain ⟨listed, _, sleeps⟩ := core.linked q t before
    exact ⟨woken.list ▸ listed, blocked, sleeps⟩
  · have before := wokenBefore woken blocked (by decide)
    exact (woken.linked q t).mpr
      ⟨core.sleeping t (woken.list ▸ listed) q before sleeps, blocked⟩
  · exact fun t u onQueue => core.own t u ((woken.linked _ u).mp onQueue).1

@[simp] theorem wakeTaskFrame (k : Kernel) (t : TaskId) : (wakeTask k t).taskList = k.taskList ∧
    (wakeTask k t).current = k.current ∧ (wakeTask k t).queue = k.queue := by
  unfold wakeTask
  split <;> simp

theorem wakeTasksFrame (ts : List TaskId) (k : Kernel) :
    (ts.foldl wakeTask k).taskList = k.taskList ∧
    (ts.foldl wakeTask k).current = k.current ∧ (ts.foldl wakeTask k).queue = k.queue := by
  induction ts generalizing k with
  | nil => exact ⟨rfl, rfl, rfl⟩
  | cons t rest ih =>
    obtain ⟨list, current, queue⟩ := wakeTaskFrame k t
    have rest := ih (wakeTask k t)
    rw [list, current, queue] at rest
    exact rest

theorem wakeUpQueue (k : Kernel) (wq : WaitQueue) :
    (wakeUp k wq).queue = Function.update k.queue wq [] := by
  unfold wakeUp
  simp only [(wakeTasksFrame (k.queue wq) k).2.2]

theorem wakeUpWoken {asleep k} (core : Core asleep k) (wq : WaitQueue) :
    Woken k (wakeUp k wq) := by
  refine ⟨(wakeTasksFrame (k.queue wq) k).1, (wakeTasksFrame (k.queue wq) k).2.1, fun t => ?_,
    fun q t => ?_, fun q => ?_⟩
  · rw [wakeUpState]
    split <;> rename_i both
    · exact Or.inr ⟨rfl, Or.inl both.2⟩
    · exact Or.inl rfl
  · rw [wakeUpQueue, wakeUpState, Function.update_apply]
    by_cases same : q = wq
    · subst same
      simp only [if_true, List.not_mem_nil, false_iff, not_and]
      intro onQueue
      rw [if_pos ⟨onQueue, (core.linked q t onQueue).2.1⟩]
      decide
    · simp only [if_neg same]
      refine ⟨fun onQueue => ⟨onQueue, ?_⟩, And.left⟩
      obtain ⟨_, blocked, sleeps⟩ := core.linked q t onQueue
      have elsewhere : t ∉ k.queue wq := fun there =>
        same (Option.some.inj (sleeps.symm.trans (core.linked wq t there).2.2))
      simp [elsewhere, blocked]
  · rw [wakeUpQueue, Function.update_apply]
    split
    · exact List.nil_sublist _
    · exact List.Sublist.refl _

theorem setTaskWoken {asleep k} (core : Core asleep k) {t task}
    (changed : task.state = (k.task t).state ∨
      task.state = .ready ∧ (k.task t).state = .stopped) : Woken k (k.setTask t task) := by
  refine ⟨rfl, rfl, fun u => ?_, fun q u => ⟨fun onQueue => ⟨onQueue, ?_⟩, And.left⟩,
    fun q => List.Sublist.refl _⟩
  · rw [setTaskTask]
    split <;> rename_i same
    · subst same
      rcases changed with kept | ⟨ready, stopped⟩
      · exact Or.inl kept
      · exact Or.inr ⟨ready, Or.inr stopped⟩
    · exact Or.inl rfl
  · have blocked := (core.linked q u onQueue).2.1
    rw [setTaskTask]
    split <;> rename_i same
    · subst same
      rcases changed with kept | ⟨_, stopped⟩
      · exact kept.trans blocked
      · cases blocked.symm.trans stopped
    · exact blocked

theorem wakeIfWoken {asleep k k'} (core : Core asleep k) (woken : Woken k k') (wq : WaitQueue) :
    Woken k (wakeUp k' wq) :=
  wokenTrans woken (wakeUpWoken (wokenCore core woken) wq)

theorem wakeBlockedWoken {asleep k k'} (core : Core asleep k) (woken : Woken k k') (t : TaskId) :
    Woken k (if (k'.task t).state = .blocked then ((0 : Int), wakeUp k' (.wait t))
      else (0, k')).2 := by
  split
  · exact wakeIfWoken core woken _
  · exact woken

theorem leaveStopWoken {asleep k} (core : Core asleep k) {t} (continued : Bool)
    (stopped : (k.task t).state = .stopped) : Woken k (leaveStop k t continued) :=
  setTaskWoken core (Or.inr ⟨rfl, stopped⟩)

theorem sendSignalWoken {asleep k} (core : Core asleep k) (pid signum : Nat) :
    Woken k (sendSignal k pid signum).2 := by
  unfold sendSignal
  split
  · exact wokenRefl core
  cases found : findTaskByPid k pid with
  | none => exact wokenRefl core
  | some t =>
    have pending : Woken k (setPending k t signum) := setTaskWoken core (Or.inl rfl)
    have core' := wokenCore core pending
    dsimp only
    generalize setPending k t signum = k' at pending core'
    split
    · split <;> rename_i stopped
      · have left := wokenTrans pending (leaveStopWoken core' true stopped)
        cases findTaskByPid (leaveStop k' t true) ((leaveStop k' t true).task t).ppid with
        | none => exact left
        | some parent =>
          dsimp only
          split
          · exact wakeIfWoken core left _
          · exact left
      · exact wakeBlockedWoken core pending t
    · have left : Woken k (if (k'.task t).state = .stopped ∧ sigDefaultTerminates signum then
          leaveStop k' t false else k') := by
        split <;> rename_i both
        · exact wokenTrans pending (leaveStopWoken core' false both.1)
        · exact pending
      exact wakeBlockedWoken core left t

theorem wakeParentWoken {asleep k} (core : Core asleep k) (task : TaskId) (sigchld : Bool) :
    Woken k (wakeParent k task sigchld) := by
  unfold wakeParent
  cases findTaskByPid k (k.task task).ppid with
  | none => exact wokenRefl core
  | some parent =>
    dsimp only
    split
    · cases sigchld with
      | true => exact wakeIfWoken core (sendSignalWoken core _ 17) _
      | false => exact wakeUpWoken core _
    · exact wokenRefl core

/-! ## One step -/

theorem settledWoken {s : State} (settled : Settled s) {k} (woken : Woken s.kernel k) :
    Settled {s with kernel := k} := by
  refine ⟨wokenCore settled.core woken, ?_, ?_⟩
  · rw [woken.current]
    exact wokenState woken settled.running (by decide)
  · exact (congrArg s.asleep woken.current).trans settled.awake

theorem settledCurrent {s : State} (settled : Settled s) (q) :
    s.kernel.current ∉ s.kernel.queue q := by
  intro onQueue
  cases settled.awake.symm.trans (settled.core.linked q _ onQueue).2.2

def enqueue (k : Kernel) (wq : WaitQueue) : Kernel :=
  let linked := k.queue wq ++ [k.current]
  let k := {k with queue := Function.update k.queue wq linked}
  k.setState k.current .blocked

theorem enqueueMem (k : Kernel) (wq q t) :
    t ∈ (enqueue k wq).queue q ↔ t ∈ k.queue q ∨ q = wq ∧ t = k.current := by
  by_cases same : q = wq <;> simp [enqueue, same]

@[simp] theorem enqueueState (k : Kernel) (wq t) :
    ((enqueue k wq).task t).state = if t = k.current then .blocked else (k.task t).state := by
  simp [enqueue]

theorem enqueueNodup {k : Kernel} {q} (wq) (once : (k.queue q).Nodup) (away : k.current ∉ k.queue q) :
    ((enqueue k wq).queue q).Nodup := by
  by_cases same : q = wq
  · subst same
    have whole : (k.queue q ++ [k.current]).Nodup := by
      rw [List.nodup_append]
      refine ⟨once, by simp, ?_⟩
      rintro t onQueue u last rfl
      rw [List.mem_singleton] at last
      exact away (last ▸ onQueue)
    simpa [enqueue] using whole
  · simpa [enqueue, same] using once

theorem enqueueCore {s : State} (settled : Settled s) {wq}
    (own : ownQueue s.kernel.current wq) :
    Core (Function.update s.asleep s.kernel.current (some wq)) (enqueue s.kernel wq) := by
  obtain ⟨core, running, awake⟩ := settled
  have away := settledCurrent ⟨core, running, awake⟩
  refine ⟨core.listed, core.idle, fun t listed other => ?_, fun q t onQueue => ?_,
    fun t listed q blocked sleeps => ?_, fun q => enqueueNodup wq (core.once q) (away q),
    fun t u onQueue => ?_⟩
  · replace other : t ≠ s.kernel.current := other
    rw [enqueueState, if_neg other]
    exact core.others t listed other
  · rcases (enqueueMem s.kernel wq q t).mp onQueue with before | ⟨rfl, rfl⟩
    · have other : t ≠ s.kernel.current := by
        rintro rfl
        exact away q before
      rw [enqueueState, if_neg other, Function.update_of_ne other]
      exact core.linked q t before
    · exact ⟨core.listed, by simp, Function.update_self _ _ _⟩
  · rw [enqueueMem]
    by_cases same : t = s.kernel.current
    · subst same
      rw [Function.update_self] at sleeps
      exact Or.inr ⟨(Option.some.inj sleeps).symm, rfl⟩
    · rw [enqueueState, if_neg same] at blocked
      rw [Function.update_of_ne same] at sleeps
      exact Or.inl (core.sleeping t listed q blocked sleeps)
  · rcases (enqueueMem s.kernel wq _ u).mp onQueue with before | ⟨rfl, rfl⟩
    · exact core.own t u before
    · simpa [ownQueue, eq_comm] using own

theorem blockSettled {s : State} (settled : Settled s) {wq}
    (own : ownQueue s.kernel.current wq) : Settled (block s wq) := by
  have core := enqueueCore settled own
  have state : ((enqueue s.kernel wq).task s.kernel.current).state = .blocked := by simp
  exact switchSettled
    (s := ⟨enqueue s.kernel wq, Function.update s.asleep s.kernel.current (some wq), s.children⟩)
    core (by simp [enqueue]) (by simp [enqueue])

theorem leaveCore {s : State} (settled : Settled s) (task : Task)
    (state : task.state ≠ .blocked) :
    Core s.asleep (s.kernel.setTask s.kernel.current task) := by
  refine ⟨settled.core.listed, settled.core.idle, fun t listed away => ?_,
    fun q t onQueue => ?_, fun t listed q blocked sleeps => ?_, settled.core.once,
    settled.core.own⟩
  · replace away : t ≠ s.kernel.current := away
    rw [setTaskTask, if_neg away]
    exact settled.core.others t listed away
  · have away : t ≠ s.kernel.current := by
      rintro rfl
      exact settledCurrent settled q onQueue
    rw [setTaskTask, if_neg away]
    exact settled.core.linked q t onQueue
  · rw [setTaskTask] at blocked
    split at blocked
    · exact absurd blocked state
    · exact settled.core.sleeping t listed q blocked sleeps

theorem settledSetTask {s : State} (settled : Settled s) {t task}
    (kept : task.state = (s.kernel.task t).state) :
    Settled {s with kernel := s.kernel.setTask t task} :=
  settledWoken settled (setTaskWoken settled.core (Or.inl kept))

theorem settledChildren {s : State} (settled : Settled s) (children : TaskId → List TaskId) :
    Settled {s with children := children} :=
  ⟨settled.core, settled.running, settled.awake⟩

theorem addChildSettled {s : State} (settled : Settled s) (parent child : TaskId) :
    Settled (addChild s parent child) :=
  ⟨settled.core, settled.running, settled.awake⟩

theorem removeSettled {s : State} (settled : Settled s) {t}
    (zombie : (s.kernel.task t).state = .zombie) : Settled (removeTask s t) := by
  unfold removeTask
  split <;> rename_i idle
  · exact settled
  obtain ⟨core, running, awake⟩ := settled
  have remains : ∀ u ∈ s.kernel.taskList, (s.kernel.task u).state ≠ .zombie →
      u ∈ s.kernel.taskList.erase t := by
    intro u listed alive
    refine (List.mem_erase_of_ne ?_).mpr listed
    rintro rfl
    exact alive zombie
  refine ⟨⟨?_, (List.mem_erase_of_ne (Ne.symm idle)).mpr core.idle, fun u listed => ?_,
    fun q u onQueue => ?_, fun u listed => ?_, core.once, core.own⟩, running, awake⟩
  · exact remains _ core.listed (by rw [running]; decide)
  · exact core.others u (List.mem_of_mem_erase listed)
  · obtain ⟨listed, blocked, sleeps⟩ := core.linked q u onQueue
    exact ⟨remains u listed (by rw [blocked]; decide), blocked, sleeps⟩
  · exact core.sleeping u (List.mem_of_mem_erase listed)

theorem leaveChildSettled {s : State} (settled : Settled s) (task child : TaskId) :
    Settled (leaveChild task s child) := by
  unfold leaveChild
  dsimp only
  split <;> rename_i zombie
  · exact removeSettled settled zombie
  · cases findTaskByPid s.kernel 1 with
    | none => exact settledSetTask settled rfl
    | some init =>
      dsimp only
      split
      · refine addChildSettled (s := ⟨s.kernel.setTask child _, s.asleep, s.children⟩) ?_ init child
        exact settledSetTask settled rfl
      · exact settledSetTask settled rfl

theorem leaveChildrenSettled (task : TaskId) (children : List TaskId) {s : State}
    (settled : Settled s) : Settled (children.foldl (leaveChild task) s) := by
  induction children generalizing s with
  | nil => exact settled
  | cons child rest ih => exact ih (leaveChildSettled settled task child)

theorem leaveChildCurrent (task : TaskId) (s : State) (child : TaskId) :
    (leaveChild task s child).kernel.current = s.kernel.current := by
  unfold leaveChild
  dsimp only
  split
  · unfold removeTask
    split <;> rfl
  · cases findTaskByPid s.kernel 1 with
    | none => rfl
    | some init =>
      dsimp only
      split <;> rfl

theorem leaveChildrenCurrent (task : TaskId) (children : List TaskId) (s : State) :
    (children.foldl (leaveChild task) s).kernel.current = s.kernel.current := by
  induction children generalizing s with
  | nil => rfl
  | cons child rest ih => exact (ih _).trans (leaveChildCurrent task s child)

theorem leaveSettled {s : State} (settled : Settled s) (task : Task) {k} (gone : task.state ≠ .blocked)
    (woken : Woken (s.kernel.setTask s.kernel.current task) k)
    (still : (k.task s.kernel.current).state ≠ .ready ∧
      (k.task s.kernel.current).state ≠ .running) : Settled (switch {s with kernel := k}) := by
  have core := wokenCore (leaveCore settled task gone) woken
  have current : k.current = s.kernel.current := woken.current
  refine switchSettled (s := ⟨k, s.asleep, s.children⟩) core ?_ ?_
  · exact current ▸ still.1
  · exact fun running => absurd running (current ▸ still.2)

theorem exitSettled {s : State} (settled : Settled s) : Settled (exitTask s) := by
  have left := leaveChildrenSettled s.kernel.current (s.children s.kernel.current) settled
  have same := leaveChildrenCurrent s.kernel.current (s.children s.kernel.current) s
  unfold exitTask
  dsimp only
  generalize (s.children s.kernel.current).foldl (leaveChild s.kernel.current) s = s' at left same
  rw [← same]
  let task : Task := {s'.kernel.task s'.kernel.current with state := .zombie}
  have woken := wakeParentWoken (leaveCore left task (by simp [task]))
    s'.kernel.current true
  have still : ((wakeParent (s'.kernel.setTask s'.kernel.current task) s'.kernel.current true).task
      s'.kernel.current).state = .zombie := wokenState woken (by simp [task]) (by decide)
  have orphaned := settledChildren left (Function.update s'.children s'.kernel.current [])
  refine leaveSettled orphaned task (by simp [task]) woken ⟨?_, ?_⟩
  · exact fun ready => absurd (still.symm.trans ready) (by decide)
  · exact fun running => absurd (still.symm.trans running) (by decide)

theorem stopSettled {s : State} (settled : Settled s) (sig : Nat) : Settled (stopTask s sig) := by
  let task : Task := {s.kernel.task s.kernel.current with
    state := .stopped, stopSig := sig, stopReported := false, continued := false}
  have woken := wakeParentWoken (leaveCore settled task (by simp [task]))
    s.kernel.current false
  refine leaveSettled settled task (by simp [task]) woken ?_
  have still : ((wakeParent (s.kernel.setTask s.kernel.current task) s.kernel.current false).task
      s.kernel.current).state = .stopped := by
    unfold wakeParent
    split
    · split
      · simp [wakeUpState, task]
      · simp [task]
    · simp [task]
  rw [still]
  decide

theorem createSettled {s : State} (settled : Settled s) {t} (fresh : t ∉ s.kernel.taskList)
    (task : Task) : Settled (addTask s t task) := by
  obtain ⟨core, running, awake⟩ := settled
  have old : ∀ u ∈ s.kernel.taskList, u ≠ t := fun u listed same => fresh (same ▸ listed)
  have queue : ∀ q u, u ∈ (addTask s t task).kernel.queue q ↔ u ∈ s.kernel.queue q := by
    intro q u
    by_cases same : q = .wait t
    · subst same
      have empty : u ∉ s.kernel.queue (.wait t) := fun onQueue =>
        fresh (core.own t u onQueue ▸ (core.linked _ u onQueue).1)
      simp [addTask, empty]
    · simp [addTask, same]
  have state : ∀ u, ((addTask s t task).kernel.task u).state =
      if u = t then .ready else (s.kernel.task u).state := by
    intro u
    by_cases same : u = t <;> simp [addTask, same]
  have asleep : ∀ u, (addTask s t task).asleep u = if u = t then none else s.asleep u :=
    fun u => Function.update_apply _ _ _ _
  have list : ∀ u, u ∈ (addTask s t task).kernel.taskList ↔ u ∈ s.kernel.taskList ∨ u = t := by
    simp [addTask]
  have current : (addTask s t task).kernel.current = s.kernel.current := rfl
  refine ⟨⟨?_, ?_, fun u listed other => ?_, fun q u onQueue => ?_,
    fun u listed q blocked sleeps => ?_, fun q => ?_, fun v u onQueue => ?_⟩, ?_, ?_⟩
  · exact (list _).mpr (Or.inl core.listed)
  · exact (list _).mpr (Or.inl core.idle)
  · rw [state]
    split <;> rename_i same
    · decide
    · exact core.others u (((list u).mp listed).resolve_right same) other
  · obtain ⟨listed, blocked, sleeps⟩ := core.linked q u ((queue q u).mp onQueue)
    rw [state, if_neg (old u listed), asleep, if_neg (old u listed)]
    exact ⟨(list u).mpr (Or.inl listed), blocked, sleeps⟩
  · rw [asleep] at sleeps
    split at sleeps <;> rename_i same
    · cases sleeps
    · rw [state, if_neg same] at blocked
      exact (queue q u).mpr
        (core.sleeping u (((list u).mp listed).resolve_right same) q blocked sleeps)
  · by_cases same : q = .wait t
    · simp [addTask, same]
    · simpa [addTask, same] using core.once q
  · exact core.own v u ((queue _ u).mp onQueue)
  · rw [current, state, if_neg (old _ core.listed)]
    exact running
  · rw [current, asleep, if_neg (old _ core.listed)]
    exact awake

theorem stepSettled {s a s'} (settled : Settled s) (ran : step s a = some s') : Settled s' := by
  cases a with
  | create t task forked =>
    unfold step at ran
    dsimp only at ran
    split at ran <;> rename_i fresh
    · cases ran
    · cases ran
      have created := createSettled settled fresh task
      cases forked with
      | true => exact addChildSettled created _ _
      | false => exact created
  | schedule =>
    cases ran
    exact switchSettled settled.core (by rw [settled.running]; decide) fun _ => settled.awake
  | block wq =>
    unfold step at ran
    dsimp only at ran
    split at ran <;> rename_i own
    · cases ran
      exact blockSettled settled own
    · cases ran
  | wakeUp wq =>
    cases ran
    exact settledWoken settled (wakeUpWoken settled.core wq)
  | signal pid signum =>
    cases ran
    exact settledWoken settled (sendSignalWoken settled.core pid signum)
  | stop sig =>
    unfold step at ran
    dsimp only at ran
    split at ran
    · cases ran
    · cases ran
      exact stopSettled settled sig
  | exit =>
    unfold step at ran
    dsimp only at ran
    split at ran
    · cases ran
    · cases ran
      exact exitSettled settled
  | reap child =>
    unfold step at ran
    dsimp only at ran
    split at ran <;> rename_i found
    · cases ran
      exact removeSettled (settledChildren settled _) found.2
    · cases ran

/-! ## Every reachable state -/

theorem startSettled {s : State} (start : Start s) : Settled s := by
  obtain ⟨list, current, running, queues, awake⟩ := start
  refine ⟨⟨?_, ?_, fun t listed other => ?_, fun q t onQueue => ?_, fun t listed q blocked _ => ?_,
    fun q => ?_, fun t u onQueue => ?_⟩, current ▸ running, current ▸ awake⟩
  · simp [list, current]
  · simp [list]
  · rw [list, List.mem_singleton] at listed
    exact absurd (listed.trans current.symm) other
  · simp [queues] at onQueue
  · rw [list, List.mem_singleton] at listed
    rw [listed, running] at blocked
    cases blocked
  · simp [queues]
  · simp [queues] at onQueue

theorem reachableSettled {s acts s'} (start : Start s) (ran : Run.run step s acts = some s') :
    Settled s' :=
  Run.invariant (fun _ _ _ settled => stepSettled settled) (startSettled start) ran

theorem runningIff {s : State} (settled : Settled s) {t} (listed : t ∈ s.kernel.taskList) :
    (s.kernel.task t).state = .running ↔ t = s.kernel.current := by
  constructor
  · intro running
    by_contra other
    exact settled.core.others t listed other running
  · rintro rfl
    exact settled.running

theorem linkedOnce {s : State} (settled : Settled s) {q q' t} (onQueue : t ∈ s.kernel.queue q)
    (also : t ∈ s.kernel.queue q') : q' = q := by
  have sleeps := (settled.core.linked q t onQueue).2.2
  exact Option.some.inj ((settled.core.linked q' t also).2.2.symm.trans sleeps)

theorem wokenUp {s : State} (settled : Settled s) {q t} (onQueue : t ∈ s.kernel.queue q) :
    ((wakeUp s.kernel q).task t).state = .ready := by
  rw [wakeUpState, if_pos ⟨onQueue, (settled.core.linked q t onQueue).2.1⟩]

theorem sleeperWoken {s : State} (settled : Settled s) {q t} (listed : t ∈ s.kernel.taskList)
    (sleeps : s.asleep t = some q) : ((wakeUp s.kernel q).task t).state ≠ .blocked := by
  by_cases onQueue : t ∈ s.kernel.queue q
  · rw [wokenUp settled onQueue]
    decide
  · rw [wakeUpState, if_neg fun both => onQueue both.1]
    exact fun blocked => onQueue (settled.core.sleeping t listed q blocked sleeps)

/-- After any run: one RUNNING task, the current one; whoever is linked is BLOCKED
and linked once; wake_up empties its queue and leaves no sleeper of it BLOCKED. -/
theorem schedulerConsistent {s acts s'} (start : Start s) (ran : Run.run step s acts = some s') :
    let k := s'.kernel
    (k.current ∈ k.taskList ∧
      ∀ t ∈ k.taskList, (k.task t).state = .running ↔ t = k.current) ∧
    (∀ q, (k.queue q).Nodup ∧ ∀ t ∈ k.queue q,
      (k.task t).state = .blocked ∧ ∀ q', t ∈ k.queue q' → q' = q) ∧
    (∀ q, (wakeUp k q).queue q = [] ∧ ∀ t ∈ k.queue q, ((wakeUp k q).task t).state = .ready) ∧
    ∀ t ∈ k.taskList, ∀ q, s'.asleep t = some q → ((wakeUp k q).task t).state ≠ .blocked := by
  have settled := reachableSettled start ran
  dsimp only
  refine ⟨⟨settled.core.listed, fun t listed => runningIff settled listed⟩, fun q => ?_,
    fun q => ⟨?_, fun t onQueue => wokenUp settled onQueue⟩,
    fun t listed q sleeps => sleeperWoken settled listed sleeps⟩
  · refine ⟨settled.core.once q, fun t onQueue => ⟨(settled.core.linked q t onQueue).2.1, ?_⟩⟩
    exact fun q' also => linkedOnce settled onQueue also
  · rw [wakeUpQueue, Function.update_self]

def booted : State where
  kernel := {sleeper .timer with
    task := fun t => {(sleeper .timer).task t with pid := t, state := .running}
    taskList := [0], current := 0, queue := fun _ => [] }
  asleep _ := none
  children _ := []

def forkWaitExit : List Action := [
  .create 1 {(sleeper .timer).task 1 with pid := 1} false, .schedule,
  .create 2 {(sleeper .timer).task 2 with pid := 2, ppid := 1} true, .block (.wait 1),
  .block (.pipeWrite 0), .wakeUp (.pipeWrite 0), .schedule, .exit, .reap 2]

theorem forkWaitExitConsistent :
    ∃ s', Run.run step booted forkWaitExit = some s' ∧ s'.kernel.taskList = [0, 1] ∧
      ∀ t ∈ s'.kernel.taskList, (s'.kernel.task t).state = .running ↔ t = s'.kernel.current := by
  have start : Start booted := by constructor <;> simp [booted, kernelTask]
  obtain ⟨s', ran, list⟩ : ∃ s', Run.run step booted forkWaitExit = some s' ∧
      s'.kernel.taskList = [0, 1] := ⟨_, rfl, rfl⟩
  exact ⟨s', ran, list, (schedulerConsistent start ran).1.2⟩

end Scepter.Sched
