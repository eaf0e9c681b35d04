import Scepter.Kernel.WaitStatus
import Scepter.Lib.Run
import Mathlib.Data.List.Nodup

/-! Parents and children (kernel/process.c): fork, the reparenting of do_exit and the
reaping of wait4. A task is named by how many task_structs were made before it, which
is also where its PID comes from, so memory that is used again has a new name. A task
that is not a zombie and not stopped may be the current one at any time; fork, one scan
of wait4 and do_exit from the reparenting on are not interrupted. -/
namespace Scepter.Family
open Sched (TaskId kernelTask)
open Wait (Task StatusPtr)

def initTask : TaskId := 1

structure State where
  task : TaskId → Task
  ppid : TaskId → Nat
  children : TaskId → List TaskId
  taskList : List TaskId
  nextPid : Nat
  -- what init left behind, and who freed which zombie: for the statements only
  orphans : List TaskId
  reaped : List (TaskId × TaskId)

def findTaskByPid (s : State) (pid : Nat) : Option TaskId :=
  s.taskList.find? fun t => (s.task t).pid = pid

def unlink (s : State) (parent child : TaskId) : State :=
  {s with children := Function.update s.children parent ((s.children parent).erase child)}

def link (s : State) (parent child : TaskId) : State :=
  {s with children := Function.update s.children parent (s.children parent ++ [child])}

/-! ## fork -/

def allocTask (s : State) (parent : TaskId) : State :=
  let pid := s.nextPid % 2 ^ 32
  {s with
    task := Function.update s.task s.nextPid
      ⟨pid, (s.task parent).pgid, .ready, 0, 0, false, false, .running⟩
    ppid := Function.update s.ppid s.nextPid (s.task parent).pid
    children := Function.update s.children s.nextPid []
    nextPid := s.nextPid + 1}

def addTask (s : State) (t : TaskId) : State := {s with taskList := s.taskList ++ [t]}

/-- Where sys_fork ends: no task_struct, no kernel stack, a file descriptor, a region or
a page that could not be copied, or a new task. -/
inductive Fork where
  | noStruct | noStack | failed | done

def sysFork (s : State) (parent : TaskId) : Fork → State
  | .noStruct => s
  | .noStack => {s with nextPid := s.nextPid + 1}
  -- fork_cleanup_failed; the child was on no task list yet
  | .failed => unlink (link (allocTask s parent) parent s.nextPid) parent s.nextPid
  | .done => addTask (link (allocTask s parent) parent s.nextPid) s.nextPid

/-! ## exit and wait4 -/

def reapTask (s : State) (child reaper : TaskId) : State :=
  {s with taskList := s.taskList.erase child, reaped := (child, reaper) :: s.reaped}

def setPpid (s : State) (t : TaskId) (pid : Nat) : State :=
  {s with ppid := Function.update s.ppid t pid}

def orphan (s : State) (child : TaskId) : State :=
  {setPpid s child 1 with orphans := child :: s.orphans}

def leaveChild (task : TaskId) (s : State) (child : TaskId) : State :=
  if (s.task child).state = .zombie then reapTask (unlink s task child) child task
  else match findTaskByPid s 1 with
    | some init =>
      if init ≠ task then
        link (setPpid (unlink s task child) child (s.task init).pid) init child
      else orphan (unlink s task child) child
    | none => orphan (unlink s task child) child

def doExit (s : State) (t : TaskId) (status : Int) : State :=
  let left := (s.children t).foldl (leaveChild t) s
  {left with task := Function.update left.task t {left.task t with
    state := .zombie, exitCode := Wait.exitStatus status}}

def State.view (s : State) : Wait.State :=
  ⟨s.task, s.children, fun t => t ∈ s.taskList, findTaskByPid s 1⟩

/-- One scan of wait4; a child that is reported but not reaped only has its flag cleared. -/
def wait4 (s : State) (parent : TaskId) (pid : Int) (options : Nat) (ptr : StatusPtr) : State :=
  let result := Wait.wait4 s.view parent pid options ptr
  match Wait.scan s.view parent pid options (s.children parent) false with
  | .zombie child => if ptr = .bad then s else reapTask (unlink s parent child) child parent
  | _ => {s with task := result.state.task}

/-! ## Runs -/

inductive Action where
  | fork (parent : TaskId) (outcome : Fork)
  | exit (t : TaskId) (status : Int)
  | wait4 (parent : TaskId) (pid : Int) (options : Nat) (ptr : StatusPtr)
  | stop (t : TaskId) (sig : Nat)
  | signal (t : TaskId) (signum : Nat)

def State.runs (s : State) (t : TaskId) : Bool :=
  t ∈ s.taskList ∧ t ≠ kernelTask ∧ (s.task t).state ≠ .zombie ∧ (s.task t).state ≠ .stopped

def step (s : State) : Action → Option State
  | .fork parent outcome => if s.runs parent then some (sysFork s parent outcome) else none
  | .exit t status => if s.runs t then some (doExit s t status) else none
  | .wait4 parent pid options ptr =>
    if s.runs parent then some (wait4 s parent pid options ptr) else none
  | .stop t sig =>
    if s.runs t then some {s with task := (Wait.stopTask s.view t sig).task} else none
  | .signal t signum => some {s with task := (Wait.sendSignal s.view t signum).task}

def start : State where
  task t := ⟨t, t, .ready, 0, 0, false, false, .running⟩
  ppid _ := 0
  children _ := []
  taskList := [kernelTask, initTask]
  nextPid := 2
  orphans := []
  reaped := []

/-! ## The family -/

structure Kin (s : State) : Prop where
  heads : ∃ rest, s.taskList = kernelTask :: initTask :: rest
  once : s.taskList.Nodup
  made : ∀ t ∈ s.taskList, t < s.nextPid ∧ (s.task t).pid = t % 2 ^ 32
  child : ∀ p, ∀ t ∈ s.children p, p ∈ s.taskList ∧ t ∈ s.taskList ∧ t ≠ initTask ∧
    t ≠ kernelTask ∧ t ∉ s.orphans ∧ (s.task p).pid = s.ppid t
  siblings : ∀ p, (s.children p).Nodup
  single : ∀ p q, ∀ t ∈ s.children p, t ∈ s.children q → p = q
  placed : ∀ t ∈ s.taskList, t ≠ kernelTask → t ≠ initTask →
    t ∈ s.orphans ∨ ∃ p, t ∈ s.children p
  dead : ∀ t ∈ s.taskList, (s.task t).state = .zombie → t ≠ initTask → s.children t = []
  left : ∀ t ∈ s.orphans, t < s.nextPid ∧ s.ppid t = 1
  gone : ∀ pair ∈ s.reaped, pair.1 ∉ s.taskList ∧ pair.1 < s.nextPid
  reapedOnce : (s.reaped.map Prod.fst).Nodup

theorem startKin : Kin start := by
  refine ⟨⟨[], rfl⟩, by decide, by decide, nofun, fun _ => List.nodup_nil, nofun, ?_,
    fun _ _ _ _ => rfl, nofun, nofun, List.nodup_nil⟩
  intro t listed notIdle notInit
  rcases List.mem_cons.mp listed with rfl | rest
  · exact absurd rfl notIdle
  · exact absurd (List.mem_singleton.mp rest) notInit

theorem Kin.init {s : State} (kin : Kin s) : initTask ∈ s.taskList := by
  obtain ⟨rest, heads⟩ := kin.heads
  rw [heads]
  exact List.mem_cons_of_mem _ List.mem_cons_self

theorem Kin.initPid {s : State} (kin : Kin s) : (s.task initTask).pid = 1 :=
  (kin.made initTask kin.init).2

theorem Kin.findInit {s : State} (kin : Kin s) : findTaskByPid s 1 = some initTask := by
  obtain ⟨rest, heads⟩ := kin.heads
  have idle : (s.task kernelTask).pid = 0 :=
    (kin.made kernelTask (heads ▸ List.mem_cons_self)).2
  unfold findTaskByPid
  rw [heads, List.find?_cons_of_neg (by simp [idle]), List.find?_cons_of_pos (by simp [kin.initPid])]

theorem Kin.initAfter {s : State} (kin : Kin s) : initTask < s.nextPid :=
  (kin.made initTask kin.init).1

theorem Kin.notFresh {s : State} (kin : Kin s) {p t : TaskId} (on : t ∈ s.children p) :
    t ≠ s.nextPid ∧ p ≠ s.nextPid := by
  obtain ⟨parent, child, -⟩ := kin.child p t on
  exact ⟨Nat.ne_of_lt (kin.made t child).1, Nat.ne_of_lt (kin.made p parent).1⟩

theorem Kin.freshChildless {s : State} (kin : Kin s) : s.children s.nextPid = [] := by
  refine List.eq_nil_iff_forall_not_mem.mpr fun t on => ?_
  exact (kin.notFresh on).2 rfl

/-! ## Single edits -/

theorem unlinkMem {s : State} (kin : Kin s) {p c : TaskId} (on : c ∈ s.children p)
    (q t : TaskId) : t ∈ (unlink s p c).children q ↔ t ∈ s.children q ∧ t ≠ c := by
  unfold unlink
  dsimp only
  by_cases same : q = p
  · rw [same, Function.update_self, List.Nodup.mem_erase_iff (kin.siblings p)]
    exact and_comm
  · rw [Function.update_of_ne same]
    refine ⟨fun member => ⟨member, ?_⟩, And.left⟩
    rintro rfl
    exact same (kin.single q p t member on)

theorem unlinkSiblings {s : State} (kin : Kin s) (p c q : TaskId) :
    ((unlink s p c).children q).Nodup := by
  unfold unlink
  dsimp only
  by_cases same : q = p
  · rw [same, Function.update_self]
    exact (kin.siblings p).erase c
  · rw [Function.update_of_ne same]
    exact kin.siblings q

theorem linkMem (s : State) (p c q t : TaskId) :
    t ∈ (link s p c).children q ↔ t ∈ s.children q ∨ q = p ∧ t = c := by
  unfold link
  dsimp only
  by_cases same : q = p
  · rw [same, Function.update_self, List.mem_append, List.mem_singleton]
    simp only [true_and]
  · rw [Function.update_of_ne same]
    simp only [same, false_and, or_false]

theorem linkSiblings {s : State} {p c : TaskId} (siblings : ∀ q, (s.children q).Nodup)
    (new : c ∉ s.children p) (q : TaskId) : ((link s p c).children q).Nodup := by
  unfold link
  dsimp only
  by_cases same : q = p
  · rw [same, Function.update_self]
    refine List.nodup_append.mpr ⟨siblings p, List.nodup_singleton c, ?_⟩
    intro a member b single
    rw [List.mem_singleton.mp single]
    rintro rfl
    exact new member
  · rw [Function.update_of_ne same]
    exact siblings q

theorem taskKin {s : State} (kin : Kin s) (task : TaskId → Task)
    (pids : ∀ t, (task t).pid = (s.task t).pid)
    (dead : ∀ t, (task t).state = .zombie → (s.task t).state = .zombie) :
    Kin {s with task := task} where
  heads := kin.heads
  once := kin.once
  made t listed := ⟨(kin.made t listed).1, (pids t).trans (kin.made t listed).2⟩
  child p t on := by
    obtain ⟨parent, child, notInit, notIdle, kept, named⟩ := kin.child p t on
    exact ⟨parent, child, notInit, notIdle, kept, (pids p).trans named⟩
  siblings := kin.siblings
  single := kin.single
  placed := kin.placed
  dead t listed zombie := kin.dead t listed (dead t zombie)
  left := kin.left
  gone := kin.gone
  reapedOnce := kin.reapedOnce

theorem reapKin {s : State} (kin : Kin s) {p c : TaskId} (on : c ∈ s.children p)
    (zombie : (s.task c).state = .zombie) : Kin (reapTask (unlink s p c) c p) := by
  obtain ⟨-, listed, notInit, notIdle, kept, -⟩ := kin.child p c on
  have childless := kin.dead c listed zombie notInit
  have stays : ∀ t, t ∈ s.taskList.erase c ↔ t ∈ s.taskList ∧ t ≠ c := fun t => by
    rw [List.Nodup.mem_erase_iff kin.once]
    exact and_comm
  have member := unlinkMem kin on
  refine ⟨?_, kin.once.erase c, fun t inList => kin.made t ((stays t).mp inList).1, ?_,
    unlinkSiblings kin p c, ?_, ?_, ?_, kin.left, ?_, ?_⟩
  · obtain ⟨rest, heads⟩ := kin.heads
    refine ⟨rest.erase c, ?_⟩
    change s.taskList.erase c = _
    rw [heads, List.erase_cons_tail (by simpa using notIdle.symm),
      List.erase_cons_tail (by simpa using notInit.symm)]
  · intro q t inChildren
    obtain ⟨before, other⟩ := (member q t).mp inChildren
    obtain ⟨parent, child, rest⟩ := kin.child q t before
    refine ⟨(stays q).mpr ⟨parent, ?_⟩, (stays t).mpr ⟨child, other⟩, rest⟩
    rintro rfl
    rw [childless] at before
    cases before
  · intro q r t first second
    exact kin.single q r t ((member q t).mp first).1 ((member r t).mp second).1
  · intro t inList notIdle notInit
    obtain ⟨before, other⟩ := (stays t).mp inList
    rcases kin.placed t before notIdle notInit with orphaned | ⟨q, before⟩
    · exact .inl orphaned
    · exact .inr ⟨q, (member q t).mpr ⟨before, other⟩⟩
  · intro t inList dead notInit
    have before := kin.dead t ((stays t).mp inList).1 dead notInit
    refine List.eq_nil_iff_forall_not_mem.mpr fun u on => ?_
    have still := ((member t u).mp on).1
    rw [before] at still
    cases still
  · intro pair inReaped
    rcases List.mem_cons.mp inReaped with rfl | before
    · exact ⟨fun inList => ((stays c).mp inList).2 rfl, (kin.made c listed).1⟩
    · exact ⟨fun inList => (kin.gone pair before).1 ((stays _).mp inList).1,
        (kin.gone pair before).2⟩
  · refine List.nodup_cons.mpr ⟨fun again => ?_, kin.reapedOnce⟩
    obtain ⟨pair, before, same⟩ := List.mem_map.mp again
    exact (kin.gone pair before).1 (same ▸ listed)

theorem adoptKin {s : State} (kin : Kin s) {p c : TaskId} (on : c ∈ s.children p)
    {pid : Nat} (named : pid = 1) :
    Kin (link (setPpid (unlink s p c) c pid) initTask c) := by
  subst named
  obtain ⟨-, listed, notInit, notIdle, kept, -⟩ := kin.child p c on
  have member : ∀ q t, t ∈ (link (setPpid (unlink s p c) c 1) initTask c).children q ↔
      t ∈ s.children q ∧ t ≠ c ∨ q = initTask ∧ t = c := fun q t =>
    (linkMem _ initTask c q t).trans (or_congr_left (unlinkMem kin on q t))
  have others : ∀ t, t ≠ c →
      (link (setPpid (unlink s p c) c 1) initTask c).ppid t = s.ppid t :=
    fun t other => Function.update_of_ne other _ _
  refine ⟨kin.heads, kin.once, kin.made, ?_, ?_, ?_, ?_, ?_, ?_, kin.gone, kin.reapedOnce⟩
  · intro q t inChildren
    rcases (member q t).mp inChildren with ⟨before, other⟩ | ⟨rfl, rfl⟩
    · rw [others t other]
      exact kin.child q t before
    · exact ⟨kin.init, listed, notInit, notIdle, kept,
        kin.initPid.trans (Function.update_self t 1 s.ppid).symm⟩
  · refine linkSiblings (s := setPpid (unlink s p c) c 1) (unlinkSiblings kin p c) ?_
    exact fun inChildren => ((unlinkMem kin on initTask c).mp inChildren).2 rfl
  · intro q r t first second
    rcases (member q t).mp first with ⟨before, other⟩ | ⟨rfl, rfl⟩
    · rcases (member r t).mp second with ⟨before', -⟩ | ⟨-, rfl⟩
      · exact kin.single q r t before before'
      · exact absurd rfl other
    · rcases (member r t).mp second with ⟨-, other⟩ | ⟨rfl, -⟩
      · exact absurd rfl other
      · rfl
  · intro t inList notIdle notInit
    by_cases same : t = c
    · exact .inr ⟨initTask, (member initTask t).mpr (.inr ⟨rfl, same⟩)⟩
    · rcases kin.placed t inList notIdle notInit with orphaned | ⟨q, before⟩
      · exact .inl orphaned
      · exact .inr ⟨q, (member q t).mpr (.inl ⟨before, same⟩)⟩
  · intro t inList dead notInit
    have before := kin.dead t inList dead notInit
    refine List.eq_nil_iff_forall_not_mem.mpr fun u on => ?_
    rcases (member t u).mp on with ⟨still, -⟩ | ⟨isInit, -⟩
    · rw [before] at still
      cases still
    · exact notInit isInit
  · intro t orphaned
    have other : t ≠ c := fun same => kept (same ▸ orphaned)
    rw [others t other]
    exact kin.left t orphaned

theorem orphanKin {s : State} (kin : Kin s) {p c : TaskId} (on : c ∈ s.children p) :
    Kin (orphan (unlink s p c) c) := by
  obtain ⟨-, listed, notInit, notIdle, kept, -⟩ := kin.child p c on
  have member : ∀ q t, t ∈ (orphan (unlink s p c) c).children q ↔ t ∈ s.children q ∧ t ≠ c :=
    unlinkMem kin on
  have others : ∀ t, t ≠ c → (orphan (unlink s p c) c).ppid t = s.ppid t :=
    fun t other => Function.update_of_ne other _ _
  refine ⟨kin.heads, kin.once, kin.made, ?_, unlinkSiblings kin p c, ?_, ?_, ?_, ?_, kin.gone,
    kin.reapedOnce⟩
  · intro q t inChildren
    obtain ⟨before, other⟩ := (member q t).mp inChildren
    obtain ⟨parent, child, notInit, notIdle, kept, named⟩ := kin.child q t before
    rw [others t other]
    exact ⟨parent, child, notInit, notIdle, List.not_mem_cons_of_ne_of_not_mem other kept, named⟩
  · intro q r t first second
    exact kin.single q r t ((member q t).mp first).1 ((member r t).mp second).1
  · intro t inList notIdle notInit
    by_cases same : t = c
    · exact .inl (same ▸ List.mem_cons_self)
    · rcases kin.placed t inList notIdle notInit with orphaned | ⟨q, before⟩
      · exact .inl (List.mem_cons_of_mem c orphaned)
      · exact .inr ⟨q, (member q t).mpr ⟨before, same⟩⟩
  · intro t inList dead notInit
    have before := kin.dead t inList dead notInit
    refine List.eq_nil_iff_forall_not_mem.mpr fun u on => ?_
    have still := ((member t u).mp on).1
    rw [before] at still
    cases still
  · intro t orphaned
    by_cases same : t = c
    · subst same
      exact ⟨(kin.made t listed).1, Function.update_self t 1 s.ppid⟩
    · rw [others t same]
      exact kin.left t ((List.mem_cons.mp orphaned).resolve_left same)

/-! ## fork -/

theorem allocKin {s : State} (kin : Kin s) (parent : TaskId) : Kin (allocTask s parent) := by
  have apart : ∀ t ∈ s.taskList, t ≠ s.nextPid := fun t listed => Nat.ne_of_lt (kin.made t listed).1
  have tasks : ∀ t ∈ s.taskList, (allocTask s parent).task t = s.task t :=
    fun t listed => Function.update_of_ne (apart t listed) _ _
  have lists : ∀ t, (allocTask s parent).children t = s.children t := by
    intro t
    unfold allocTask
    dsimp only
    by_cases same : t = s.nextPid
    · rw [same, Function.update_self, kin.freshChildless]
    · rw [Function.update_of_ne same]
  have parents : ∀ t, t ≠ s.nextPid → (allocTask s parent).ppid t = s.ppid t :=
    fun t other => Function.update_of_ne other _ _
  refine ⟨kin.heads, kin.once, fun t listed => ?_, fun p t on => ?_, fun p => lists p ▸ kin.siblings p,
    fun p q t first second => ?_, fun t listed notIdle notInit => ?_,
    fun t listed dead notInit => ?_, fun t orphaned => ?_, fun pair inReaped => ?_, kin.reapedOnce⟩
  · rw [tasks t listed]
    exact ⟨Nat.lt_succ_of_lt (kin.made t listed).1, (kin.made t listed).2⟩
  · rw [lists p] at on
    have facts := kin.child p t on
    rw [tasks p facts.1, parents t (kin.notFresh on).1]
    exact facts
  · exact kin.single p q t (lists p ▸ first) (lists q ▸ second)
  · rcases kin.placed t listed notIdle notInit with orphaned | ⟨p, on⟩
    · exact .inl orphaned
    · exact .inr ⟨p, (lists p).symm ▸ on⟩
  · rw [tasks t listed] at dead
    exact (lists t).trans (kin.dead t listed dead notInit)
  · rw [parents t (Nat.ne_of_lt (kin.left t orphaned).1)]
    exact ⟨Nat.lt_succ_of_lt (kin.left t orphaned).1, (kin.left t orphaned).2⟩
  · exact ⟨(kin.gone pair inReaped).1, Nat.lt_succ_of_lt (kin.gone pair inReaped).2⟩

theorem forkKin {s : State} (kin : Kin s) {parent : TaskId} (runs : s.runs parent = true) :
    Kin (addTask (link (allocTask s parent) parent s.nextPid) s.nextPid) := by
  unfold State.runs at runs
  obtain ⟨listed, -, alive, -⟩ := of_decide_eq_true runs
  have new := allocKin kin parent
  have fresh : s.nextPid ∉ s.taskList := fun inList => Nat.lt_irrefl _ (kin.made _ inList).1
  have unlisted : ∀ p, s.nextPid ∉ (allocTask s parent).children p :=
    fun p on => fresh (new.child p _ on).2.1
  have member := linkMem (allocTask s parent) parent s.nextPid
  have named : (allocTask s parent).task s.nextPid =
      ⟨s.nextPid % 2 ^ 32, (s.task parent).pgid, .ready, 0, 0, false, false, .running⟩ :=
    Function.update_self _ _ _
  have tasks : ∀ t ∈ s.taskList, (allocTask s parent).task t = s.task t :=
    fun t inList => Function.update_of_ne (Nat.ne_of_lt (kin.made t inList).1) _ _
  refine ⟨?_, ?_, fun t inList => ?_, fun p t on => ?_, linkSiblings new.siblings (unlisted parent),
    fun p q t first second => ?_, fun t inList notIdle notInit => ?_,
    fun t inList dead notInit => ?_, new.left, fun pair inReaped => ?_, new.reapedOnce⟩
  · obtain ⟨rest, heads⟩ := kin.heads
    exact ⟨rest ++ [s.nextPid], congrArg (· ++ [s.nextPid]) heads⟩
  · refine List.nodup_append.mpr ⟨kin.once, List.nodup_singleton _, ?_⟩
    rintro a member b single rfl
    exact fresh (List.mem_singleton.mp single ▸ member)
  · rcases List.mem_append.mp inList with before | single
    · exact new.made t before
    · rw [List.mem_singleton.mp single]
      exact ⟨Nat.lt_succ_self _, congrArg Task.pid named⟩
  · rcases (member p t).mp on with before | ⟨rfl, rfl⟩
    · obtain ⟨inList, child, rest⟩ := new.child p t before
      exact ⟨List.mem_append_left _ inList, List.mem_append_left _ child, rest⟩
    · refine ⟨List.mem_append_left _ listed, List.mem_append_right _ (List.mem_singleton_self _),
        Nat.ne_of_gt kin.initAfter, ?_, fun orphaned => ?_, ?_⟩
      · exact Nat.ne_of_gt (Nat.zero_lt_of_lt kin.initAfter)
      · exact Nat.lt_irrefl _ (kin.left _ orphaned).1
      · exact (congrArg Task.pid (tasks p listed)).trans (Function.update_self _ _ s.ppid).symm
  · rcases (member p t).mp first with before | ⟨rfl, rfl⟩
    · rcases (member q t).mp second with before' | ⟨-, rfl⟩
      · exact new.single p q t before before'
      · exact absurd before (unlisted p)
    · rcases (member q _).mp second with before' | ⟨rfl, -⟩
      · exact absurd before' (unlisted q)
      · rfl
  · rcases List.mem_append.mp inList with before | single
    · rcases new.placed t before notIdle notInit with orphaned | ⟨p, on⟩
      · exact .inl orphaned
      · exact .inr ⟨p, (member p t).mpr (.inl on)⟩
    · exact .inr ⟨parent, (member parent t).mpr (.inr ⟨rfl, List.mem_singleton.mp single⟩)⟩
  · rcases List.mem_append.mp inList with before | single
    · have childless := new.dead t before dead notInit
      refine List.eq_nil_iff_forall_not_mem.mpr fun u on => ?_
      rcases (member t u).mp on with still | ⟨rfl, -⟩
      · rw [childless] at still
        cases still
      · exact alive ((congrArg Task.state (tasks t listed)).symm.trans dead)
    · rw [List.mem_singleton.mp single] at dead
      cases (congrArg Task.state named).symm.trans dead
  · obtain ⟨unlisted, before⟩ := new.gone pair inReaped
    refine ⟨fun inList => ?_, before⟩
    rcases List.mem_append.mp inList with still | single
    · exact unlisted still
    · exact Nat.ne_of_lt (kin.gone pair inReaped).2 (List.mem_singleton.mp single)

theorem failedKin {s : State} (kin : Kin s) (parent : TaskId) :
    unlink (link (allocTask s parent) parent s.nextPid) parent s.nextPid = allocTask s parent := by
  have new := allocKin kin parent
  have unlisted : s.nextPid ∉ (allocTask s parent).children parent :=
    fun on => Nat.lt_irrefl _ (kin.made _ (new.child parent _ on).2.1).1
  unfold unlink link
  dsimp only
  rw [Function.update_self, Function.update_idem, List.erase_append_right _ unlisted,
    List.erase_cons_head, List.append_nil, Function.update_eq_self]

theorem skipKin {s : State} (kin : Kin s) : Kin {s with nextPid := s.nextPid + 1} where
  heads := kin.heads
  once := kin.once
  made t listed := ⟨Nat.lt_succ_of_lt (kin.made t listed).1, (kin.made t listed).2⟩
  child := kin.child
  siblings := kin.siblings
  single := kin.single
  placed := kin.placed
  dead := kin.dead
  left t orphaned := ⟨Nat.lt_succ_of_lt (kin.left t orphaned).1, (kin.left t orphaned).2⟩
  gone pair inReaped := ⟨(kin.gone pair inReaped).1, Nat.lt_succ_of_lt (kin.gone pair inReaped).2⟩
  reapedOnce := kin.reapedOnce

theorem sysForkKin {s : State} (kin : Kin s) {parent : TaskId} (runs : s.runs parent = true)
    (outcome : Fork) : Kin (sysFork s parent outcome) := by
  cases outcome with
  | noStruct => exact kin
  | noStack => exact skipKin kin
  | failed =>
    unfold sysFork
    rw [failedKin kin parent]
    exact allocKin kin parent
  | done => exact forkKin kin runs

/-! ## exit -/

theorem leaveCases {s : State} (kin : Kin s) (t c : TaskId) :
    (s.task c).state = .zombie ∧ leaveChild t s c = reapTask (unlink s t c) c t ∨
    (s.task c).state ≠ .zombie ∧ initTask ≠ t ∧
      leaveChild t s c = link (setPpid (unlink s t c) c (s.task initTask).pid) initTask c ∨
    (s.task c).state ≠ .zombie ∧ initTask = t ∧ leaveChild t s c = orphan (unlink s t c) c := by
  unfold leaveChild
  rw [kin.findInit]
  dsimp only
  split <;> rename_i zombie
  · exact .inl ⟨zombie, rfl⟩
  split <;> rename_i other
  · exact .inr (.inl ⟨zombie, other, rfl⟩)
  · exact .inr (.inr ⟨zombie, not_not.mp other, rfl⟩)

theorem leaveKin {s : State} (kin : Kin s) {t c : TaskId} (on : c ∈ s.children t) :
    Kin (leaveChild t s c) := by
  rcases leaveCases kin t c with ⟨zombie, same⟩ | ⟨-, -, same⟩ | ⟨-, -, same⟩
  · exact same ▸ reapKin kin on zombie
  · exact same ▸ adoptKin kin on kin.initPid
  · exact same ▸ orphanKin kin on

structure Leaves (t c : TaskId) (s s' : State) : Prop where
  task : s'.task = s.task
  nextPid : s'.nextPid = s.nextPid
  list : s'.children t = (s.children t).erase c
  init : initTask ≠ t → ∀ u ∈ s.children initTask, u ∈ s'.children initTask
  reaped : ∀ pair, pair ∈ s'.reaped ↔
    pair ∈ s.reaped ∨ pair = (c, t) ∧ (s.task c).state = .zombie
  orphans : ∀ u, u ∈ s'.orphans ↔
    u ∈ s.orphans ∨ u = c ∧ initTask = t ∧ (s.task c).state ≠ .zombie
  adopted : initTask ≠ t → (s.task c).state ≠ .zombie → c ∈ s'.children initTask
  kept : ∀ u ∈ s.taskList, u ∈ s'.taskList ∨ u = c ∧ (s.task c).state = .zombie

theorem leaves {s : State} (kin : Kin s) (t c : TaskId) : Leaves t c s (leaveChild t s c) := by
  have own : (unlink s t c).children t = (s.children t).erase c := Function.update_self _ _ _
  have others : initTask ≠ t → (unlink s t c).children initTask = s.children initTask :=
    fun other => Function.update_of_ne other _ _
  rcases leaveCases kin t c with ⟨zombie, same⟩ | ⟨alive, other, same⟩ | ⟨alive, isInit, same⟩
  all_goals rw [same]
  · refine ⟨rfl, rfl, own, fun other u on => ?_, fun pair => ?_, fun u => ?_,
      fun _ alive => absurd zombie alive, fun u listed => ?_⟩
    · exact (others other).symm ▸ on
    · exact List.mem_cons.trans
        ⟨fun | .inl new => .inr ⟨new, zombie⟩ | .inr before => .inl before,
          fun | .inl before => .inr before | .inr new => .inl new.1⟩
    · exact ⟨.inl, fun | .inl before => before | .inr new => absurd zombie new.2.2⟩
    · by_cases same : u = c
      · exact .inr ⟨same, zombie⟩
      · exact .inl ((List.mem_erase_of_ne same).mpr listed)
  · have member := linkMem (setPpid (unlink s t c) c (s.task initTask).pid) initTask c
    refine ⟨rfl, rfl, ?_, fun _ u on => (member initTask u).mpr (.inl ?_), fun pair => ?_,
      fun u => ?_, fun _ _ => (member initTask c).mpr (.inr ⟨rfl, rfl⟩), fun _ => .inl⟩
    · exact (Function.update_of_ne other.symm _ _).trans own
    · exact (others other).symm ▸ on
    · exact ⟨.inl, fun | .inl before => before | .inr new => absurd new.2 alive⟩
    · exact ⟨.inl, fun | .inl before => before | .inr new => absurd new.2.1 other⟩
  · refine ⟨rfl, rfl, own, fun other => absurd isInit other, fun pair => ?_, fun u => ?_,
      fun other => absurd isInit other, fun _ => .inl⟩
    · exact ⟨.inl, fun | .inl before => before | .inr new => absurd new.2 alive⟩
    · exact List.mem_cons.trans
        ⟨fun | .inl new => .inr ⟨new, isInit, alive⟩ | .inr before => .inl before,
          fun | .inl before => .inr before | .inr new => .inl new.1⟩

structure Left (t : TaskId) (s s' : State) : Prop where
  kin : Kin s'
  task : s'.task = s.task
  list : s'.children t = []
  init : initTask ≠ t → ∀ u ∈ s.children initTask, u ∈ s'.children initTask
  reaped : ∀ pair, pair ∈ s'.reaped ↔ pair ∈ s.reaped ∨
    ∃ c ∈ s.children t, pair = (c, t) ∧ (s.task c).state = .zombie
  orphans : ∀ u, u ∈ s'.orphans ↔ u ∈ s.orphans ∨
    ∃ c ∈ s.children t, u = c ∧ initTask = t ∧ (s.task c).state ≠ .zombie
  adopted : initTask ≠ t → ∀ c ∈ s.children t, (s.task c).state ≠ .zombie →
    c ∈ s'.children initTask
  kept : ∀ u ∈ s.taskList, u ∈ s'.taskList ∨ u ∈ s.children t ∧ (s.task u).state = .zombie

theorem leftAll {s : State} (kin : Kin s) {t : TaskId} {children : List TaskId}
    (all : s.children t = children) : Left t s (children.foldl (leaveChild t) s) := by
  induction children generalizing s with
  | nil =>
    refine ⟨kin, rfl, all, fun _ _ => id, fun _ => ?_, fun _ => ?_, fun _ c on => ?_,
      fun _ => .inl⟩
    · exact ⟨.inl, fun | .inl before => before | .inr ⟨c, on, _⟩ => nomatch all ▸ on⟩
    · exact ⟨.inl, fun | .inl before => before | .inr ⟨c, on, _⟩ => nomatch all ▸ on⟩
    · exact nomatch all ▸ on
  | cons c rest ih =>
    have one := leaves kin t c
    have rests : (leaveChild t s c).children t = rest := by
      rw [one.list, all, List.erase_cons_head]
    have more := ih (leaveKin kin (t := t) (c := c) (all ▸ List.mem_cons_self)) rests
    rw [List.foldl_cons]
    have split : ∀ P : TaskId → Prop, (∃ d ∈ s.children t, P d) ↔
        P c ∨ ∃ d ∈ (leaveChild t s c).children t, P d := by
      intro P
      rw [all, rests]
      exact List.exists_mem_cons_iff P c rest
    refine ⟨more.kin, more.task.trans one.task, more.list, fun other u on => ?_, fun pair => ?_,
      fun u => ?_, fun other d on alive => ?_, fun u listed => ?_⟩
    · exact more.init other u (one.init other u on)
    · rw [more.reaped, one.reaped, split, or_assoc, one.task]
    · rw [more.orphans, one.orphans, split, or_assoc, one.task]
    · rw [all] at on
      rcases List.mem_cons.mp on with rfl | later
      · exact more.init other d (one.adopted other alive)
      · exact more.adopted other d (rests ▸ later) (one.task ▸ alive)
    · rcases one.kept u listed with still | ⟨rfl, zombie⟩
      · rcases more.kept u still with stays | ⟨on, zombie⟩
        · exact .inl stays
        · exact .inr ⟨all ▸ List.mem_cons_of_mem c (rests ▸ on), one.task ▸ zombie⟩
      · exact .inr ⟨all ▸ List.mem_cons_self, zombie⟩

theorem exitKin {s : State} (kin : Kin s) (t : TaskId) (status : Int) :
    Kin (doExit s t status) := by
  have left := leftAll kin (t := t) rfl
  have after := left.kin
  have pids : ∀ u, ((doExit s t status).task u).pid = (s.task u).pid := by
    intro u
    unfold doExit
    dsimp only
    rw [left.task]
    by_cases same : u = t
    · rw [same, Function.update_self]
    · rw [Function.update_of_ne same]
  refine ⟨after.heads, after.once, fun u listed => ?_, fun p u on => ?_, after.siblings,
    after.single, after.placed, fun u listed dead notInit => ?_, after.left, after.gone,
    after.reapedOnce⟩
  · have facts := after.made u listed
    rw [left.task] at facts
    exact ⟨facts.1, (pids u).trans facts.2⟩
  · have facts := after.child p u on
    rw [left.task] at facts
    rw [pids p]
    exact facts
  · by_cases same : u = t
    · exact same ▸ left.list
    · refine after.dead u listed ?_ notInit
      rw [← dead]
      exact congrArg Task.state (Function.update_of_ne same _ _).symm

/-! ## wait4 and signals -/

theorem scanZombie (s : Wait.State) (parent : TaskId) (pid : Int) (options : Nat)
    {child : TaskId} (children : List TaskId) (live : Bool)
    (found : Wait.scan s parent pid options children live = .zombie child) :
    child ∈ children ∧ (s.task child).state = .zombie := by
  induction children generalizing live with
  | nil =>
    unfold Wait.scan at found
    split at found <;> cases found
  | cons c rest ih =>
    have later : ∀ live, Wait.scan s parent pid options rest live = .zombie child →
        child ∈ c :: rest ∧ (s.task child).state = .zombie :=
      fun live found => ⟨List.mem_cons_of_mem c (ih live found).1, (ih live found).2⟩
    unfold Wait.scan at found
    dsimp only at found
    split at found
    · exact later _ found
    split at found
    · exact later _ found
    split at found <;> rename_i zombie
    · cases found
      exact ⟨List.mem_cons_self, zombie⟩
    split at found
    · split at found
      · cases found
      · exact later _ found
    split at found
    · cases found
    · exact later _ found

theorem waitCases (s : State) (parent : TaskId) (pid : Int) (options : Nat) (ptr : StatusPtr) :
    (∃ child ∈ s.children parent, (s.task child).state = .zombie ∧
      wait4 s parent pid options ptr = reapTask (unlink s parent child) child parent) ∨
    ∃ task : TaskId → Task, wait4 s parent pid options ptr = {s with task := task} ∧
      ∀ t, (task t).pid = (s.task t).pid ∧ (task t).state = (s.task t).state := by
  have flagged : ∀ (child : TaskId) (new : Task), new.pid = (s.task child).pid →
      new.state = (s.task child).state → ∀ t,
        (Function.update s.task child new t).pid = (s.task t).pid ∧
        (Function.update s.task child new t).state = (s.task t).state := by
    intro child new pid state t
    by_cases same : t = child
    · rw [same, Function.update_self]
      exact ⟨pid, state⟩
    · rw [Function.update_of_ne same]
      exact ⟨rfl, rfl⟩
  have given : ∀ child status (new : Task), new.pid = (s.task child).pid →
      new.state = (s.task child).state → ∀ t,
        ((Wait.giveStatus s.view ptr child status (s.view.setTask child new)).state.task t).pid =
          (s.task t).pid ∧
        ((Wait.giveStatus s.view ptr child status (s.view.setTask child new)).state.task t).state =
          (s.task t).state := by
    intro child status new pid state t
    unfold Wait.giveStatus
    split
    · exact ⟨rfl, rfl⟩
    · exact flagged child new pid state t
  unfold wait4
  cases found : Wait.scan s.view parent pid options (s.children parent) false with
  | zombie child =>
    dsimp only
    split
    · exact .inr ⟨s.task, rfl, fun t => ⟨rfl, rfl⟩⟩
    · obtain ⟨on, zombie⟩ := scanZombie s.view parent pid options _ _ found
      exact .inl ⟨child, on, zombie, rfl⟩
  | stopped child =>
    refine .inr ⟨_, rfl, ?_⟩
    unfold Wait.wait4
    rw [show s.view.children parent = s.children parent from rfl, found]
    exact given child _ _ rfl rfl
  | continued child =>
    refine .inr ⟨_, rfl, ?_⟩
    unfold Wait.wait4
    rw [show s.view.children parent = s.children parent from rfl, found]
    exact given child _ _ rfl rfl
  | live =>
    refine .inr ⟨_, rfl, ?_⟩
    unfold Wait.wait4
    rw [show s.view.children parent = s.children parent from rfl, found]
    exact fun t => ⟨rfl, rfl⟩
  | none =>
    refine .inr ⟨_, rfl, ?_⟩
    unfold Wait.wait4
    rw [show s.view.children parent = s.children parent from rfl, found]
    exact fun t => ⟨rfl, rfl⟩

theorem waitKin {s : State} (kin : Kin s) (parent : TaskId) (pid : Int) (options : Nat)
    (ptr : StatusPtr) : Kin (wait4 s parent pid options ptr) := by
  rcases waitCases s parent pid options ptr with ⟨child, on, zombie, same⟩ | ⟨task, same, kept⟩
  · exact same ▸ reapKin kin on zombie
  · rw [same]
    exact taskKin kin task (fun t => (kept t).1) fun t dead => (kept t).2.symm.trans dead

theorem setKin {s : State} (kin : Kin s) (t : TaskId) {new : Task}
    (pid : new.pid = (s.task t).pid) (alive : new.state ≠ .zombie) :
    Kin {s with task := (s.view.setTask t new).task} := by
  have own : (s.view.setTask t new).task t = new := by
    unfold Wait.State.setTask
    exact Function.update_self ..
  have others : ∀ u, u ≠ t → (s.view.setTask t new).task u = s.task u := by
    intro u other
    unfold Wait.State.setTask
    exact Function.update_of_ne other ..
  refine taskKin kin _ (fun u => ?_) fun u dead => ?_
  · by_cases same : u = t
    · rw [same, own, pid]
    · rw [others u same]
  · by_cases same : u = t
    · rw [same, own] at dead
      exact absurd dead alive
    · rwa [others u same] at dead

theorem signalKin {s : State} (kin : Kin s) (t : TaskId) (signum : Nat) :
    Kin {s with task := (Wait.sendSignal s.view t signum).task} := by
  unfold Wait.sendSignal
  split
  · exact kin
  split
  · exact setKin kin t rfl nofun
  split
  · exact setKin kin t rfl nofun
  · exact kin

theorem stepKin (s : State) (a : Action) (s' : State) (kin : Kin s)
    (taken : step s a = some s') : Kin s' := by
  cases a with
  | fork parent outcome =>
    dsimp only [step] at taken
    split at taken <;> rename_i runs
    · cases taken
      exact sysForkKin kin runs outcome
    · cases taken
  | exit t status =>
    dsimp only [step] at taken
    split at taken
    · cases taken
      exact exitKin kin t status
    · cases taken
  | wait4 parent pid options ptr =>
    dsimp only [step] at taken
    split at taken
    · cases taken
      exact waitKin kin parent pid options ptr
    · cases taken
  | stop t sig =>
    dsimp only [step] at taken
    split at taken
    · cases taken
      exact setKin kin t rfl nofun
    · cases taken
  | signal t signum =>
    cases taken
    exact signalKin kin t signum

/-! ## Every run -/

def OnOneList (s : State) (t : TaskId) : Prop :=
  ∃ p ∈ s.taskList, (s.task p).pid = s.ppid t ∧ (s.children p).count t = 1 ∧
    ∀ q, q ≠ p → t ∉ s.children q

def OnNoList (s : State) (t : TaskId) : Prop := t ∉ s.taskList ∧ ∀ p, t ∉ s.children p

structure Handled (s : State) (a : Action) (s' : State) : Prop where
  reaped : ∀ c p, (c, p) ∈ s'.reaped → (c, p) ∈ s.reaped ∨
    (s.task c).state = .zombie ∧ c ∈ s.children p ∧
      ((∃ status, a = .exit p status) ∨ ∃ pid options ptr, a = .wait4 p pid options ptr)
  kept : ∀ t ∈ s.taskList, t ∈ s'.taskList ∨ ∃ p, (t, p) ∈ s'.reaped
  exits : ∀ t status, a = .exit t status → ∀ c ∈ s.children t,
    ((s.task c).state = .zombie → (c, t) ∈ s'.reaped) ∧
    ((s.task c).state ≠ .zombie → t ≠ initTask → c ∈ s'.children initTask)
  orphans : ∀ c ∈ s'.orphans, c ∈ s.orphans ∨
    c ∈ s.children initTask ∧ ∃ status, a = .exit initTask status

structure Household (s : State) : Prop where
  placed : ∀ t ∈ s.taskList, t ≠ kernelTask → t ≠ initTask → t ∉ s.orphans → OnOneList s t
  orphans : ∀ t ∈ s.orphans, s.ppid t = 1 ∧ ∀ p, t ∉ s.children p
  -- the PIDs have not wrapped around
  parent : s.nextPid ≤ 2 ^ 32 → ∀ p, ∀ t ∈ s.children p, findTaskByPid s (s.ppid t) = some p
  reapedOnce : (s.reaped.map Prod.fst).Nodup
  reaped : ∀ pair ∈ s.reaped, OnNoList s pair.1
  steps : ∀ a s', step s a = some s' → Handled s a s'

theorem Kin.onOneList {s : State} (kin : Kin s) {p t : TaskId} (on : t ∈ s.children p) :
    OnOneList s t := by
  obtain ⟨listed, -, -, -, -, named⟩ := kin.child p t on
  refine ⟨p, listed, named, List.count_eq_one_of_mem (kin.siblings p) on, fun q other inQ => ?_⟩
  exact other (kin.single q p t inQ on)

theorem Kin.findParent {s : State} (kin : Kin s) (few : s.nextPid ≤ 2 ^ 32) {p t : TaskId}
    (on : t ∈ s.children p) : findTaskByPid s (s.ppid t) = some p := by
  obtain ⟨listed, -, -, -, -, named⟩ := kin.child p t on
  have numbered : ∀ u ∈ s.taskList, (s.task u).pid = u := fun u inList => by
    obtain ⟨before, pid⟩ := kin.made u inList
    rw [pid, Nat.mod_eq_of_lt (Nat.lt_of_lt_of_le before few)]
  cases found : findTaskByPid s (s.ppid t) with
  | none =>
    have none := List.find?_eq_none.mp found p listed
    simp [named] at none
  | some u =>
    have pid := List.find?_some (p := fun u => decide ((s.task u).pid = s.ppid t)) found
    have inList := List.mem_of_find?_eq_some found
    rw [decide_eq_true_eq, numbered u inList, ← named, numbered p listed] at pid
    rw [pid]

theorem Handled.still {s s' : State} (a : Action) (reaped : s'.reaped = s.reaped)
    (orphans : s'.orphans = s.orphans) (kept : ∀ t ∈ s.taskList, t ∈ s'.taskList)
    (noExit : ∀ t status, a ≠ .exit t status) : Handled s a s' where
  reaped _ _ inReaped := .inl (reaped ▸ inReaped)
  kept t listed := .inl (kept t listed)
  exits t status same := absurd same (noExit t status)
  orphans _ orphaned := .inl (orphans ▸ orphaned)

theorem exitHandled {s : State} (kin : Kin s) (t : TaskId) (status : Int) :
    Handled s (.exit t status) (doExit s t status) := by
  have left := leftAll kin (t := t) rfl
  refine ⟨fun c p inReaped => ?_, fun u listed => ?_, fun u code same c on => ?_,
    fun c orphaned => ?_⟩
  · rcases (left.reaped (c, p)).mp inReaped with before | ⟨d, on, same, zombie⟩
    · exact .inl before
    · cases same
      exact .inr ⟨zombie, on, .inl ⟨status, rfl⟩⟩
  · rcases left.kept u listed with stays | ⟨on, zombie⟩
    · exact .inl stays
    · exact .inr ⟨t, (left.reaped (u, t)).mpr (.inr ⟨u, on, rfl, zombie⟩)⟩
  · cases same
    refine ⟨fun zombie => (left.reaped (c, t)).mpr (.inr ⟨c, on, rfl, zombie⟩), ?_⟩
    exact fun alive other => left.adopted other.symm c on alive
  · rcases (left.orphans c).mp orphaned with before | ⟨d, on, rfl, rfl, -⟩
    · exact .inl before
    · exact .inr ⟨on, status, rfl⟩

theorem waitHandled (s : State) (parent : TaskId) (pid : Int) (options : Nat) (ptr : StatusPtr) :
    Handled s (.wait4 parent pid options ptr) (wait4 s parent pid options ptr) := by
  rcases waitCases s parent pid options ptr with ⟨child, on, zombie, same⟩ | ⟨task, same, -⟩
  · rw [same]
    refine ⟨fun c p inReaped => ?_, fun t listed => ?_, nofun, fun c => .inl⟩
    · rcases List.mem_cons.mp inReaped with new | before
      · cases new
        exact .inr ⟨zombie, on, .inr ⟨pid, options, ptr, rfl⟩⟩
      · exact .inl before
    · by_cases isChild : t = child
      · exact .inr ⟨parent, isChild ▸ List.mem_cons_self⟩
      · exact .inl ((List.mem_erase_of_ne isChild).mpr listed)
  · rw [same]
    exact .still _ rfl rfl (fun _ => id) nofun

theorem stepHandled {s : State} (kin : Kin s) (a : Action) (s' : State)
    (taken : step s a = some s') : Handled s a s' := by
  cases a with
  | fork parent outcome =>
    dsimp only [step] at taken
    split at taken
    · cases taken
      cases outcome with
      | noStruct => exact .still _ rfl rfl (fun _ => id) nofun
      | noStack => exact .still _ rfl rfl (fun _ => id) nofun
      | failed => exact .still _ rfl rfl (fun _ => id) nofun
      | done => exact .still _ rfl rfl (fun _ => List.mem_append_left _) nofun
    · cases taken
  | exit t status =>
    dsimp only [step] at taken
    split at taken
    · cases taken
      exact exitHandled kin t status
    · cases taken
  | wait4 parent pid options ptr =>
    dsimp only [step] at taken
    split at taken
    · cases taken
      exact waitHandled s parent pid options ptr
    · cases taken
  | stop t sig =>
    dsimp only [step] at taken
    split at taken
    · cases taken
      exact .still _ rfl rfl (fun _ => id) nofun
    · cases taken
  | signal t signum =>
    cases taken
    exact .still _ rfl rfl (fun _ => id) nofun

theorem kinHousehold {s : State} (kin : Kin s) : Household s := by
  refine ⟨fun t listed notIdle notInit kept => ?_, fun t orphaned => ?_,
    fun few p t on => kin.findParent few on, kin.reapedOnce, fun pair inReaped => ?_,
    stepHandled kin⟩
  · obtain orphaned | ⟨p, on⟩ := kin.placed t listed notIdle notInit
    · exact absurd orphaned kept
    · exact kin.onOneList on
  · refine ⟨(kin.left t orphaned).2, fun p on => ?_⟩
    obtain ⟨-, -, -, -, kept, -⟩ := kin.child p t on
    exact kept orphaned
  · have unlisted := (kin.gone pair inReaped).1
    exact ⟨unlisted, fun p on => unlisted (kin.child p _ on).2.1⟩

/-- Only the children that init has when it exits are on no list. -/
theorem familyKept {acts : List Action} {s : State} (ran : Run.run step start acts = some s) :
    Household s :=
  kinHousehold (Run.invariant stepKin startKin ran)

/-- A fork, the exit of the child, the wait for it. -/
theorem childReaped : ∃ s, Run.run step start
    [.fork 1 .done, .fork 2 .failed, .exit 2 3, .wait4 1 (-1) 0 .good] = some s ∧
    s.reaped = [(2, 1)] ∧ Household s := by
  obtain ⟨s, ran, reaped⟩ : ∃ s, Run.run step start
      [.fork 1 .done, .fork 2 .failed, .exit 2 3, .wait4 1 (-1) 0 .good] = some s ∧
      s.reaped = [(2, 1)] := ⟨_, rfl, rfl⟩
  exact ⟨s, ran, reaped, familyKept ran⟩

/-- init exits before its child does. -/
theorem initExits : ∃ s, Run.run step start [.fork 1 .done, .exit 1 0] = some s ∧
    2 ∈ s.taskList ∧ (s.task 2).state ≠ .zombie ∧ ¬ OnOneList s 2 := by
  refine ⟨_, rfl, by decide, by decide, ?_⟩
  rintro ⟨p, listed, -, once, -⟩
  change p ∈ [0, 1, 2] at listed
  have three : p = 0 ∨ p = 1 ∨ p = 2 := by simpa using listed
  rcases three with rfl | rfl | rfl <;> cases once

end Scepter.Family
