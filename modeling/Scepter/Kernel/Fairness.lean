import Mathlib.Data.Finset.Card
import Mathlib.Data.Finset.Dedup
import Mathlib.Data.Finset.Insert
import Mathlib.Data.List.Find
import Mathlib.Logic.Function.Iterate
import Mathlib.Order.Interval.Finset.Nat
import Scepter.Kernel.Sched

/-! Which task consecutive schedule() calls select when nothing else happens.
The current task is RUNNING, so the first round-robin loop never meets it and the
wrap-around loop decides alone: the choice is always the first best task of the
list that is not the current one. -/
namespace Scepter.Sched

/-- What holds between two scheduling events: exactly the current task is
RUNNING, the idle task sleeps unless it is current, nice values are in range. -/
structure WellFormed (k : Kernel) : Prop where
  currentListed : k.current ∈ k.taskList
  running : ∀ t ∈ k.taskList, (k.task t).state = .running ↔ t = k.current
  idle : k.current ≠ kernelTask → (k.task kernelTask).state = .blocked
  idlePid : ∀ t ∈ k.taskList, (k.task t).pid = 0 ↔ t = kernelTask
  nice : ∀ t ∈ k.taskList, (k.task t).priority ≤ 19

def Runnable (k : Kernel) (t : TaskId) : Prop :=
  t ∈ k.taskList ∧ ((k.task t).state = .ready ∨ (k.task t).state = .running)
instance (k t) : Decidable (Runnable k t) := by unfold Runnable; infer_instance

def Best (k : Kernel) (t : TaskId) : Prop :=
  Runnable k t ∧ ∀ u, Runnable k u → (k.task t).priority ≤ (k.task u).priority

def StaysBest (k : Kernel) (t : TaskId) : Prop := ∀ i, Best (schedule^[i] k) t

def Fair (k : Kernel) (s : Finset TaskId) : Prop :=
  ∀ i, ∀ t ∈ s, ∃ j < s.card, (schedule^[i + j + 1] k).current = t

/-! ## One call -/

theorem runningState {k} (wf : WellFormed k) : (k.task k.current).state = .running :=
  (wf.running k.current wf.currentListed).mpr rfl

theorem readyNotCurrent {k t} (wf : WellFormed k) (ready : (k.task t).state = .ready) :
    t ≠ k.current := by
  rintro rfl
  exact absurd (ready.symm.trans (runningState wf)) (by decide)

theorem readyNotIdle {k t} (wf : WellFormed k) (ready : (k.task t).state = .ready) :
    t ≠ kernelTask := by
  rintro rfl
  have blocked := wf.idle (readyNotCurrent wf ready).symm
  exact absurd (ready.symm.trans blocked) (by decide)

theorem runnableReady {k t} (wf : WellFormed k) (runnable : Runnable k t)
    (other : t ≠ k.current) : (k.task t).state = .ready := by
  rcases runnable.2 with ready | running
  · exact ready
  · exact absurd ((wf.running t runnable.1).mp running) other

/-- The READY tasks the wrap-around loop compares against `best`. -/
def Candidate (k : Kernel) (best : Int) (t : TaskId) : Prop :=
  (k.task t).state = .ready ∧ (k.task t).priority = best ∧ t ≠ k.current
instance (k best t) : Decidable (Candidate k best t) := by unfold Candidate; infer_instance

theorem firstOtherFind (k : Kernel) (best : Int) :
    firstOther k best = k.taskList.find? fun t => Candidate k best t := rfl

theorem scheduleCases {k} (wf : WellFormed k) :
    (schedule k = k ∧ ∀ u ∈ k.taskList, (k.task u).state = .ready →
      (k.task k.current).priority < (k.task u).priority) ∨
    ∃ best next, k.taskList.find? (fun t => Candidate k best t) = some next ∧
      best ≤ (k.task k.current).priority ∧
      (∀ u ∈ k.taskList, (k.task u).state = .ready → best ≤ (k.task u).priority) ∧
      schedule k =
        {(k.setState k.current (if k.current = kernelTask then .blocked else .ready)).setState
          next .running with current := next} := by
  have cur := runningState wf
  have lower : ∀ u ∈ k.taskList, (k.task u).state = .ready →
      bestOther k k.taskList 1000 ≤ (k.task u).priority := fun u member ready =>
    bestOtherLower k k.taskList 1000 member ready (readyNotCurrent wf ready)
  by_cases keep : bestOther k k.taskList 1000 = 1000 ∨
      (k.task k.current).priority < bestOther k k.taskList 1000
  · refine Or.inl ⟨by simp [schedule, pickNextTask, cur, keep], fun u member ready => ?_⟩
    have below := lower u member ready
    have nice := wf.nice u member
    rcases keep with none | better <;> omega
  · right
    push Not at keep
    obtain ⟨u, member, ready, other, attained⟩ := bestOtherAttained k k.taskList 1000 keep.1
    have found : (firstOther k (bestOther k k.taskList 1000)).isSome := by
      rw [firstOtherFind, List.find?_isSome]
      exact ⟨u, member, by simp [Candidate, ready, attained, other]⟩
    obtain ⟨next, hnext⟩ := Option.isSome_iff_exists.mp found
    have loop : nextAfterCurrent k (bestOther k k.taskList 1000) false k.taskList = none :=
      nextAfterCurrentNone k _ _ (by rw [cur]; decide)
    have picked : pickNextTask k = (next, k) := by
      simp [pickNextTask, cur, keep.1, not_lt.mpr keep.2, loop, hnext]
    have candidate : Candidate k (bestOther k k.taskList 1000) next := by
      simpa [Candidate] using List.find?_some hnext
    have listed : next ∈ k.taskList := List.mem_of_find?_eq_some hnext
    have user : (k.task next).pid ≠ 0 := fun zero =>
      readyNotIdle wf candidate.1 ((wf.idlePid next listed).mp zero)
    refine ⟨_, next, hnext, keep.2, lower, ?_⟩
    have leaves : ((k.task k.current).pid = 0 ∧ (k.task next).pid ≠ 0) ↔ k.current = kernelTask := by
      rw [and_iff_left user]
      exact wf.idlePid k.current wf.currentListed
    unfold schedule
    simp only [picked, if_neg candidate.2.2, if_pos cur, leaves]
    by_cases isIdle : k.current = kernelTask
    · rw [if_pos isIdle, if_pos isIdle]
    · rw [if_neg isIdle, if_neg isIdle]

theorem candidateListed {k best next}
    (found : k.taskList.find? (fun t => Candidate k best t) = some next) :
    next ∈ k.taskList ∧ Candidate k best next :=
  ⟨List.mem_of_find?_eq_some found, by simpa using List.find?_some found⟩

theorem scheduleList {k} (wf : WellFormed k) : (schedule k).taskList = k.taskList := by
  rcases scheduleCases wf with ⟨same, _⟩ | ⟨best, next, _, _, _, switched⟩
  · rw [same]
  · simp [switched]

theorem schedulePriority {k} (wf : WellFormed k) (t : TaskId) :
    ((schedule k).task t).priority = (k.task t).priority := by
  rcases scheduleCases wf with ⟨same, _⟩ | ⟨best, next, _, _, _, switched⟩
  · rw [same]
  · simp [switched]

theorem scheduleWellFormed {k} (wf : WellFormed k) : WellFormed (schedule k) := by
  rcases scheduleCases wf with ⟨same, _⟩ | ⟨best, next, found, _, _, switched⟩
  · rw [same]; exact wf
  · obtain ⟨listed, ready, _, other⟩ := candidateListed found
    have notIdle := readyNotIdle wf ready
    rw [switched]
    constructor
    · exact listed
    · intro t member
      by_cases isNext : t = next
      · simp [isNext]
      · by_cases isPrev : t = k.current
        · have parked : (if k.current = kernelTask then TaskState.blocked else .ready) ≠ .running := by
            split <;> decide
          simp [isPrev, Ne.symm other, parked]
        · simp [isNext, isPrev, wf.running t member]
    · intro _
      by_cases wasIdle : k.current = kernelTask
      · simp [Ne.symm notIdle, wasIdle]
      · simp [Ne.symm notIdle, Ne.symm wasIdle, wf.idle wasIdle]
    · intro t member
      simpa using wf.idlePid t member
    · intro t member
      simpa using wf.nice t member

theorem scheduleRunnable {k t} (wf : WellFormed k) (user : t ≠ kernelTask) :
    Runnable (schedule k) t ↔ Runnable k t := by
  rcases scheduleCases wf with ⟨same, _⟩ | ⟨best, next, found, _, _, switched⟩
  · rw [same]
  · obtain ⟨listed, ready, _, _⟩ := candidateListed found
    rw [switched]
    by_cases isNext : t = next
    · simp [Runnable, isNext, listed, ready]
    · by_cases isPrev : t = k.current
      · subst isPrev
        simp [Runnable, isNext, user, runningState wf, wf.currentListed]
      · simp [Runnable, isNext, isPrev]

theorem scheduleIdleRunnable {k} (wf : WellFormed k) (runnable : Runnable (schedule k) kernelTask) :
    Runnable k kernelTask := by
  rcases scheduleCases wf with ⟨same, _⟩ | ⟨best, next, found, _, _, switched⟩
  · rwa [same] at runnable
  · obtain ⟨_, ready, _, _⟩ := candidateListed found
    have after := scheduleWellFormed wf
    have current : (schedule k).current = next := by rw [switched]
    have blocked := after.idle (by rw [current]; exact readyNotIdle wf ready)
    rcases runnable.2 with h | h <;> exact absurd (blocked.symm.trans h) (by decide)

/-! ## Runs of schedule() -/

theorem iterateWellFormed {k} (wf : WellFormed k) (i : Nat) : WellFormed (schedule^[i] k) := by
  induction i with
  | zero => exact wf
  | succ i ih => rw [Function.iterate_succ_apply']; exact scheduleWellFormed ih

theorem iterateList {k} (wf : WellFormed k) (i : Nat) :
    (schedule^[i] k).taskList = k.taskList := by
  induction i with
  | zero => rfl
  | succ i ih => rw [Function.iterate_succ_apply', scheduleList (iterateWellFormed wf i), ih]

theorem iteratePriority {k} (wf : WellFormed k) (i : Nat) (t : TaskId) :
    ((schedule^[i] k).task t).priority = (k.task t).priority := by
  induction i with
  | zero => rfl
  | succ i ih => rw [Function.iterate_succ_apply', schedulePriority (iterateWellFormed wf i), ih]

theorem iterateRunnable {k t} (wf : WellFormed k) (user : t ≠ kernelTask) (i : Nat) :
    Runnable (schedule^[i] k) t ↔ Runnable k t := by
  induction i with
  | zero => exact Iff.rfl
  | succ i ih =>
    rw [Function.iterate_succ_apply', scheduleRunnable (iterateWellFormed wf i) user, ih]

theorem iterateRunnableBefore {k t} (wf : WellFormed k) (i : Nat)
    (runnable : Runnable (schedule^[i] k) t) : Runnable k t := by
  by_cases user : t = kernelTask
  · subst user
    induction i with
    | zero => exact runnable
    | succ i ih =>
      rw [Function.iterate_succ_apply'] at runnable
      exact ih (scheduleIdleRunnable (iterateWellFormed wf i) runnable)
  · exact (iterateRunnable wf user i).mp runnable

theorem bestStays {k t} (wf : WellFormed k) (user : t ≠ kernelTask) (best : Best k t) :
    StaysBest k t := fun i =>
  ⟨(iterateRunnable wf user i).mpr best.1, fun u runnable => by
    rw [iteratePriority wf, iteratePriority wf]
    exact best.2 u (iterateRunnableBefore wf i runnable)⟩

/-! ## Who is selected -/

section Class
variable {k : Kernel} {s : Finset TaskId}

def classList (k : Kernel) (s : Finset TaskId) : List TaskId := k.taskList.filter (· ∈ s)

theorem memClassList (stays : ∀ t, t ∈ s ↔ StaysBest k t) {t} : t ∈ classList k s ↔ t ∈ s := by
  simp only [classList, List.mem_filter, decide_eq_true_eq, and_iff_right_iff_imp]
  intro member
  exact (((stays t).mp member) 0).1.1

theorem classListLength (nodup : k.taskList.Nodup) (stays : ∀ t, t ∈ s ↔ StaysBest k t) :
    (classList k s).length = s.card := by
  have distinct : (classList k s).Nodup := nodup.filter _
  rw [← List.toFinset_card_of_nodup distinct]
  congr 1
  ext t
  rw [List.mem_toFinset, memClassList stays]

theorem candidateIffClass (wf : WellFormed k) (stays : ∀ t, t ∈ s ↔ StaysBest k t) (i : Nat)
    {t u} (member : t ∈ s) (listed : u ∈ k.taskList) :
    Candidate (schedule^[i] k) ((schedule^[i] k).task t).priority u ↔
      u ∈ s ∧ u ≠ (schedule^[i] k).current := by
  have wfI := iterateWellFormed wf i
  have bestT := (stays t).mp member
  constructor
  · rintro ⟨ready, level, other⟩
    have user := readyNotIdle wfI ready
    have runnable : Runnable (schedule^[i] k) u := ⟨by rwa [iterateList wf], Or.inl ready⟩
    refine ⟨(stays u).mpr (bestStays wf user ⟨(iterateRunnable wf user i).mp runnable, ?_⟩), other⟩
    intro v hv
    rw [iteratePriority wf, iteratePriority wf] at level
    rw [level]
    exact (bestT 0).2 v hv
  · rintro ⟨inClass, other⟩
    have bestU := (stays u).mp inClass i
    exact ⟨runnableReady wfI bestU.1 other,
      Int.le_antisymm (bestU.2 t (bestT i).1) ((bestT i).2 u bestU.1), other⟩

theorem selectedNext (wf : WellFormed k) (stays : ∀ t, t ∈ s ↔ StaysBest k t)
    (nonempty : s.Nonempty) (i : Nat) :
    (schedule^[i + 1] k).current =
      ((classList k s).find? (· ≠ (schedule^[i] k).current)).getD (schedule^[i] k).current := by
  have wfI := iterateWellFormed wf i
  rw [Function.iterate_succ_apply']
  rcases scheduleCases wfI with ⟨same, better⟩ | ⟨best, next, found, le, lower, switched⟩
  · rw [same]
    have none : (classList k s).find? (· ≠ (schedule^[i] k).current) = none := by
      rw [List.find?_eq_none]
      intro t member other
      have bestT := (stays t).mp ((memClassList stays).mp member) i
      have other : t ≠ (schedule^[i] k).current := by simpa using other
      have lt := better t bestT.1.1 (runnableReady wfI bestT.1 other)
      have ge := bestT.2 _ ⟨wfI.currentListed, Or.inr (runningState wfI)⟩
      omega
    rw [none, Option.getD_none]
  · obtain ⟨listed, ready, level, other⟩ := candidateListed found
    -- `next` itself is of the class, so its nice value is the class's
    have member : next ∈ s := by
      obtain ⟨t, inClass⟩ := nonempty
      have bestT := (stays t).mp inClass i
      have le₁ : ((schedule^[i] k).task t).priority ≤ best :=
        level ▸ bestT.2 next ⟨listed, Or.inl ready⟩
      have le₂ : best ≤ ((schedule^[i] k).task t).priority := by
        by_cases isCur : t = (schedule^[i] k).current
        · rw [isCur]; exact le
        · exact lower t bestT.1.1 (runnableReady wfI bestT.1 isCur)
      have same : best = ((schedule^[i] k).task t).priority := Int.le_antisymm le₂ le₁
      rw [iterateList wf] at listed
      exact ((candidateIffClass wf stays i inClass listed).mp
        ⟨ready, level.trans same, other⟩).1
    have filtered : (classList k s).find? (· ≠ (schedule^[i] k).current) = some next := by
      rw [classList, List.find?_filter, ← found, iterateList wf]
      apply List.find?_congr
      intro u inList
      have iff := candidateIffClass wf stays i member inList
      rw [level] at iff
      simp [iff]
    rw [filtered, switched, Option.getD_some]

theorem selectedFirstTwo (wf : WellFormed k) (stays : ∀ t, t ∈ s ↔ StaysBest k t)
    {a b rest} (order : classList k s = a :: b :: rest) (distinct : a ≠ b) (i : Nat) :
    (schedule^[i + 1] k).current = if (schedule^[i] k).current = a then b else a := by
  have nonempty : s.Nonempty := ⟨a, (memClassList stays).mp (by simp [order])⟩
  rw [selectedNext wf stays nonempty, order]
  by_cases isA : (schedule^[i] k).current = a
  · simp [isA, Ne.symm distinct]
  · simp [isA, Ne.symm isA]

theorem fairOfOne (wf : WellFormed k) (stays : ∀ t, t ∈ s ↔ StaysBest k t)
    {a} (order : classList k s = [a]) (size : s.card = 1) : Fair k s := by
  intro i t member
  have isA : t = a := by simpa [order] using (memClassList stays).mpr member
  refine ⟨0, by omega, ?_⟩
  rw [Nat.add_zero, selectedNext wf stays ⟨t, member⟩, order, isA]
  by_cases cur : (schedule^[i] k).current = a
  · simp [cur]
  · simp [Ne.symm cur]

theorem fairOfTwo (wf : WellFormed k) (stays : ∀ t, t ∈ s ↔ StaysBest k t)
    {a b} (order : classList k s = [a, b]) (distinct : a ≠ b) (size : s.card = 2) : Fair k s := by
  intro i t member
  have first := selectedFirstTwo wf stays order distinct i
  have second := selectedFirstTwo wf stays order distinct (i + 1)
  have isAB : t = a ∨ t = b := by simpa [order] using (memClassList stays).mpr member
  -- the first of the two calls selects `a` or `b`, the second one the other
  by_cases hit : (schedule^[i + 1] k).current = t
  · exact ⟨0, by omega, hit⟩
  · refine ⟨1, by omega, ?_⟩
    rw [second]
    rcases isAB with rfl | rfl
    · rw [if_neg hit]
    · have isA : (schedule^[i + 1] k).current = a := by
        rw [first] at hit ⊢
        split at hit
        · exact absurd rfl hit
        · rename_i notA; rw [if_neg notA]
      rw [if_pos isA]

theorem unfairOfThree (wf : WellFormed k) (stays : ∀ t, t ∈ s ↔ StaysBest k t)
    {a b c rest} (order : classList k s = a :: b :: c :: rest) (nodup : (classList k s).Nodup) :
    ¬ Fair k s := by
  intro fair
  rw [order] at nodup
  simp only [List.nodup_cons, List.mem_cons, not_or] at nodup
  obtain ⟨⟨ab, ac, _⟩, ⟨bc, _⟩, _⟩ := nodup
  have member : c ∈ s := (memClassList stays).mp (by simp [order])
  obtain ⟨j, _, selected⟩ := fair 0 c member
  rw [selectedFirstTwo wf stays order ab (0 + j)] at selected
  split at selected
  · exact bc selected
  · exact ac selected

/-- Round robin is fair to the best tasks exactly when there are at most two of them. -/
theorem scheduleFairIffAtMostTwo (wf : WellFormed k) (nodup : k.taskList.Nodup)
    (stays : ∀ t, t ∈ s ↔ StaysBest k t) (nonempty : 1 ≤ s.card) :
    Fair k s ↔ s.card ≤ 2 := by
  have size := classListLength nodup stays
  have distinct : (classList k s).Nodup := nodup.filter _
  match order : classList k s with
  | [] => simp only [order, List.length_nil] at size; omega
  | [a] =>
    have one : s.card = 1 := by simpa [order] using size.symm
    exact ⟨fun _ => by omega, fun _ => fairOfOne wf stays order one⟩
  | [a, b] =>
    have two : s.card = 2 := by simpa [order] using size.symm
    have ab : a ≠ b := by simpa [order] using distinct
    exact ⟨fun _ => by omega, fun _ => fairOfTwo wf stays order ab two⟩
  | a :: b :: c :: rest =>
    have three : 3 ≤ s.card := by rw [← size, order]; simp
    exact ⟨fun fair => absurd fair (unfairOfThree wf stays order distinct), fun _ => by omega⟩

end Class

/-! ## Runs with two and with three equal tasks -/

def equalTasks (n : Nat) : Kernel where
  task t := {
    pid := t, ppid := 0, priority := 0
    state := if t = 0 then .blocked else if t = 1 then .running else .ready
    pending := 0, blocked := 0, sigHandlers := fun _ => 0
    stopSig := 0, stopReported := false, continued := false }
  taskList := List.range (n + 1)
  current := 1
  queue _ := []

theorem equalTasksWellFormed {n : Nat} (one : 1 ≤ n) : WellFormed (equalTasks n) where
  currentListed := List.mem_range.mpr (Nat.lt_succ_of_le one)
  running t _ := by
    by_cases zero : t = 0
    · simp [equalTasks, zero]
    · by_cases isOne : t = 1 <;> simp [equalTasks, zero, isOne]
  idle _ := by simp [equalTasks, kernelTask]
  idlePid t _ := by simp [equalTasks, kernelTask]
  nice t _ := by simp [equalTasks]

theorem equalTasksStays {n : Nat} (one : 1 ≤ n) (t : TaskId) :
    t ∈ Finset.Icc 1 n ↔ StaysBest (equalTasks n) t := by
  have listed : t ∈ (equalTasks n).taskList ↔ t ≤ n := List.mem_range.trans Nat.lt_succ_iff
  have runnable : Runnable (equalTasks n) t ↔ 1 ≤ t ∧ t ≤ n := by
    rw [Runnable, listed, and_comm]
    by_cases zero : t = 0
    · simp [equalTasks, zero]
    · have pos : 1 ≤ t := Nat.one_le_iff_ne_zero.mpr zero
      by_cases isOne : t = 1 <;> simp [equalTasks, zero, isOne, pos]
  rw [Finset.mem_Icc]
  constructor
  · intro bounds
    exact bestStays (equalTasksWellFormed one) (Nat.one_le_iff_ne_zero.mp bounds.1)
      ⟨runnable.mpr bounds, fun u _ => by simp [equalTasks]⟩
  · intro stays
    exact runnable.mp (stays 0).1

theorem twoTasksFair : Fair (equalTasks 2) (Finset.Icc 1 2) ↔ (Finset.Icc 1 2).card ≤ 2 :=
  scheduleFairIffAtMostTwo (equalTasksWellFormed (by decide)) (by decide)
    (equalTasksStays (by decide)) (by decide)

theorem threeTasksStarve :
    WellFormed (equalTasks 3) ∧ (equalTasks 3).taskList.Nodup ∧
    (∀ t, t ∈ Finset.Icc 1 3 ↔ StaysBest (equalTasks 3) t) ∧
    ¬ Fair (equalTasks 3) (Finset.Icc 1 3) :=
  ⟨equalTasksWellFormed (by decide), by decide, equalTasksStays (by decide),
    unfairOfThree (equalTasksWellFormed (by decide)) (equalTasksStays (by decide))
      (show classList (equalTasks 3) (Finset.Icc 1 3) = [1, 2, 3] by decide) (by decide)⟩

end Scepter.Sched
