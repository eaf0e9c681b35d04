import Scepter.Kernel.Sched

/-! When the idle task wins against a READY one (pick_next_task, kernel/sched.c). Its
nice value is compared like any other: it keeps the CPU from tasks with a higher one,
and READY it is searched for like them. -/
namespace Scepter.Sched

def Sought (k : Kernel) (nice : Int) (t : TaskId) : Prop :=
  (k.task t).state = .ready ∧ (k.task t).priority = nice ∧ t ≠ k.current
instance (k nice t) : Decidable (Sought k nice t) := by unfold Sought; infer_instance

def behindCurrent (k : Kernel) (nice : Int) : List TaskId :=
  if (k.task k.current).state = .ready ∧ (k.task k.current).priority = nice then
    (k.taskList.dropWhile (· ≠ k.current)).drop 1
  else []

def searchOrder (k : Kernel) (nice : Int) : List TaskId := behindCurrent k nice ++ k.taskList

structure IdleKept (k : Kernel) : Prop where
  current : k.current = kernelTask
  running : (k.task kernelTask).state = .running
  better : ∀ t ∈ k.taskList, (k.task t).state = .ready →
    (k.task kernelTask).priority < (k.task t).priority

structure IdleFirst (k : Kernel) : Prop where
  ready : (k.task kernelTask).state = .ready
  other : kernelTask ≠ k.current
  best : ∀ t ∈ k.taskList, (k.task t).state = .ready → t ≠ k.current →
    (k.task kernelTask).priority ≤ (k.task t).priority
  notKept : (k.task k.current).state = .running →
    (k.task kernelTask).priority ≤ (k.task k.current).priority
  first : ∃ before after, searchOrder k (k.task kernelTask).priority =
    before ++ kernelTask :: after ∧ ∀ t ∈ before, ¬Sought k (k.task kernelTask).priority t

/-! ## The loops -/

theorem nextAfterFound (k : Kernel) (best : Int) (ts : List TaskId) (away : k.current ∉ ts) :
    nextAfterCurrent k best true ts = ts.find? fun t => Sought k best t := by
  induction ts with
  | nil => rfl
  | cons t rest ih =>
    obtain ⟨differs, later⟩ := not_or.mp (List.mem_cons.not.mp away)
    unfold nextAfterCurrent
    split <;> rename_i holds
    · rw [ih later, List.find?_cons_of_neg]
      rw [decide_eq_true_iff]
      intro sought
      exact holds.elim (absurd sought.1) (absurd sought.2.1)
    · obtain ⟨ready, nice⟩ := not_or.mp holds
      rw [if_pos rfl, List.find?_cons_of_pos]
      exact decide_eq_true ⟨not_not.mp ready, not_not.mp nice, Ne.symm differs⟩

theorem nextAfterNew (k : Kernel) (best : Int) (ts : List TaskId) (nodup : ts.Nodup) :
    nextAfterCurrent k best false ts =
      (if (k.task k.current).state = .ready ∧ (k.task k.current).priority = best then
        (ts.dropWhile (· ≠ k.current)).drop 1 else []).find? fun t => Sought k best t := by
  induction ts with
  | nil =>
    rw [List.dropWhile_nil, List.drop_nil, ite_self]
    rfl
  | cons t rest ih =>
    obtain ⟨once, restOnce⟩ := List.nodup_cons.mp nodup
    unfold nextAfterCurrent
    by_cases same : t = k.current
    · subst same
      rw [List.dropWhile_cons_of_neg (by simp), List.drop_succ_cons, List.drop_zero]
      by_cases met : (k.task k.current).state = .ready ∧ (k.task k.current).priority = best
      · rw [if_neg (by rintro (no | no); exacts [no met.1, no met.2]), if_pos met,
          if_neg Bool.false_ne_true, decide_eq_true rfl]
        exact nextAfterFound k best rest once
      · rw [if_neg met, List.find?_nil, if_pos (by
          by_contra none'
          obtain ⟨ready, nice⟩ := not_or.mp none'
          exact met ⟨not_not.mp ready, not_not.mp nice⟩), ih restOnce, if_neg met, List.find?_nil]
    · rw [List.dropWhile_cons_of_pos (by simpa using same), decide_eq_false same, ← ih restOnce,
        if_neg Bool.false_ne_true, ite_self]

theorem searchFinds (k : Kernel) (best : Int) (nodup : k.taskList.Nodup) :
    (nextAfterCurrent k best false k.taskList).or (firstOther k best) =
      (searchOrder k best).find? fun t => Sought k best t := by
  unfold searchOrder
  rw [List.find?_append, nextAfterNew k best k.taskList nodup]
  rfl

theorem searchListed {k : Kernel} {best : Int} {t : TaskId} (found : t ∈ searchOrder k best) :
    t ∈ k.taskList := by
  rcases List.mem_append.mp found with behind | listed
  · unfold behindCurrent at behind
    split at behind
    · exact (List.dropWhile_suffix _).subset ((List.drop_suffix _ _).subset behind)
    · cases behind
  · exact listed

theorem scheduleCurrent (k : Kernel) : (schedule k).current = (pickNextTask k).1 := by
  unfold schedule
  dsimp only
  split <;> rename_i same
  · have kept : (pickNextTask k).2.current = k.current := by
      unfold pickNextTask
      dsimp only
      split
      · rfl
      split
      · rfl
      split
      · rfl
      · rfl
    rw [kept, same]
  · rfl

/-! ## The choice -/

section
variable {k : Kernel} (nice : ∀ t ∈ k.taskList, (k.task t).priority ≤ 19)
  (nodup : k.taskList.Nodup)
  (someone : ∃ t ∈ k.taskList, t ≠ kernelTask ∧ (k.task t).state = .ready)
include nice nodup someone

theorem pickAlone (alone : bestOther k k.taskList 1000 = 1000) :
    (pickNextTask k).1 = k.current ∧ k.current ≠ kernelTask ∧
      ∀ t ∈ k.taskList, (k.task t).state = .ready → t = k.current := by
  have only : ∀ t ∈ k.taskList, (k.task t).state = .ready → t = k.current := by
    intro t listed ready
    by_contra other
    have lower := bestOtherLower k k.taskList 1000 listed ready other
    have most := nice t listed
    omega
  obtain ⟨u, listed, user, ready⟩ := someone
  have current := only u listed ready
  subst current
  refine ⟨?_, user, only⟩
  have none' : (nextAfterCurrent k 1000 false k.taskList).or (firstOther k 1000) = none := by
    rw [searchFinds k 1000 nodup, List.find?_eq_none]
    intro t member sought
    obtain ⟨isReady, -, other⟩ := of_decide_eq_true sought
    exact other (only t (searchListed member) isReady)
  unfold pickNextTask
  dsimp only
  rw [alone, if_neg (by rw [ready]; rintro ⟨no, -⟩; cases no), none']
  dsimp only
  rw [if_pos ready]

theorem pickIdleIff : (pickNextTask k).1 = kernelTask ↔ IdleKept k ∨ IdleFirst k := by
  by_cases alone : bestOther k k.taskList 1000 = 1000
  · obtain ⟨picked, user, only⟩ := pickAlone nice nodup someone alone
    rw [picked]
    refine ⟨fun idle => absurd idle user, ?_⟩
    rintro (kept | first)
    · exact kept.current
    · obtain ⟨before, after, order, -⟩ := first.first
      have listed := searchListed (order ▸ List.mem_append_right before List.mem_cons_self)
      exact absurd (only kernelTask listed first.ready) first.other
  obtain ⟨u, listed, ready, other, attained⟩ := bestOtherAttained k k.taskList 1000 alone
  have lower : ∀ t ∈ k.taskList, (k.task t).state = .ready → t ≠ k.current →
      bestOther k k.taskList 1000 ≤ (k.task t).priority := fun t member isReady away =>
    bestOtherLower k k.taskList 1000 member isReady away
  generalize bestIs : bestOther k k.taskList 1000 = best at alone attained lower
  by_cases keep : (k.task k.current).state = .running ∧ (k.task k.current).priority < best
  · have picked : (pickNextTask k).1 = k.current := by
      unfold pickNextTask
      dsimp only
      rw [bestIs, if_pos ⟨keep.1, .inr keep.2⟩]
    rw [picked]
    refine ⟨fun idle => .inl ⟨idle, idle ▸ keep.1, fun t member isReady => ?_⟩, ?_⟩
    · have away : t ≠ k.current := by
        rintro rfl
        exact absurd (isReady.symm.trans keep.1) (by decide)
      have least := lower t member isReady away
      have less := keep.2
      rw [idle] at less
      omega
    · rintro (kept | first)
      · exact kept.current
      · have least := first.best u listed ready other
        have most := first.notKept keep.1
        have less := keep.2
        obtain ⟨before, after, order, -⟩ := first.first
        have here := searchListed (order ▸ List.mem_append_right before List.mem_cons_self)
        have bound := lower kernelTask here first.ready first.other
        omega
  · have chosen : (pickNextTask k).1 = kernelTask ↔
        ((searchOrder k best).find? fun t => Sought k best t) = some kernelTask := by
      have found : ((searchOrder k best).find? fun t => Sought k best t).isSome := by
        rw [List.find?_isSome]
        exact ⟨u, List.mem_append_right _ listed, decide_eq_true ⟨ready, attained, other⟩⟩
      obtain ⟨next, same⟩ := Option.isSome_iff_exists.mp found
      unfold pickNextTask
      dsimp only
      rw [bestIs, if_neg (by
        rintro ⟨running, none' | less⟩
        · exact alone none'
        · exact keep ⟨running, less⟩), searchFinds k best nodup, same]
      exact ⟨fun idle => congrArg some idle, fun idle => Option.some.inj idle⟩
    rw [chosen]
    constructor
    · intro found
      have sought : decide (Sought k best kernelTask) = true :=
        List.find?_some (p := fun t => decide (Sought k best t)) found
      obtain ⟨isReady, isBest, away⟩ := of_decide_eq_true sought
      obtain ⟨-, before, after, order, others⟩ := List.find?_eq_some_iff_append.mp found
      refine .inr ⟨isReady, away, fun t member ready' other' => isBest ▸ lower t member ready' other',
        fun running => ?_, before, after, isBest.symm ▸ order, fun t member => ?_⟩
      · rw [isBest]
        exact Int.not_lt.mp fun less => keep ⟨running, less⟩
      · rw [isBest]
        simpa using others t member
    · rintro (kept | first)
      · have better := kept.better u listed ready
        refine absurd ⟨kept.current ▸ kept.running, ?_⟩ keep
        rw [kept.current]
        omega
      · obtain ⟨before, after, order, others⟩ := first.first
        have here := searchListed (order ▸ List.mem_append_right before List.mem_cons_self)
        have least := first.best u listed ready other
        have bound := lower kernelTask here first.ready first.other
        have same : (k.task kernelTask).priority = best := by omega
        rw [same] at order others
        refine List.find?_eq_some_iff_append.mpr
          ⟨decide_eq_true ⟨first.ready, same, first.other⟩, before, after, order, fun t member => ?_⟩
        simpa using others t member

/-- The idle task gives way to a READY one unless its own nice value wins. -/
theorem idleYieldsIff : ((pickNextTask k).1 ≠ kernelTask ∧ (schedule k).current ≠ kernelTask) ↔
    ¬IdleKept k ∧ ¬IdleFirst k := by
  rw [scheduleCurrent, and_self, ne_eq, pickIdleIff nice nodup someone, not_or]

end

def idleAnd (nice : Int) : Kernel where
  task t := {
    pid := t, ppid := 0, priority := if t = 1 then nice else 0
    state := if t = 1 then .ready else .running
    pending := 0, blocked := 0, sigHandlers := fun _ => 0
    stopSig := 0, stopReported := false, continued := false }
  taskList := [0, 1]
  current := 0
  queue _ := []

theorem equalYields : ((pickNextTask (idleAnd 0)).1 ≠ kernelTask ∧
      (schedule (idleAnd 0)).current ≠ kernelTask) ↔
    ¬IdleKept (idleAnd 0) ∧ ¬IdleFirst (idleAnd 0) :=
  idleYieldsIff (by decide) (by decide) ⟨1, by decide, by decide, by decide⟩

/-- A task of nice value 1 is READY, and the idle task keeps the CPU. -/
theorem niceStarves : 1 ∈ (idleAnd 1).taskList ∧ 1 ≠ kernelTask ∧
    ((idleAnd 1).task 1).state = .ready ∧ (pickNextTask (idleAnd 1)).1 = kernelTask ∧
    (schedule (idleAnd 1)).current = kernelTask := by
  decide

end Scepter.Sched
