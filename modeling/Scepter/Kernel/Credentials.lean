import Mathlib.Logic.Function.Basic
import Scepter.Kernel.Errno
import Scepter.Lib.Run

/-! User ids of processes (kernel/process.c, syscall_new.c). fork copies the three ids,
exec leaves them, and a call changes those of its caller only. -/
namespace Scepter.Credentials

abbrev Uid := BitVec 32

structure Cred where
  uid : Uid
  euid : Uid
  suid : Uid
  deriving DecidableEq

def KEEP : Uid := 0xFFFFFFFF

def Cred.has (t : Cred) (id : Uid) : Bool := id = t.uid ∨ id = t.euid ∨ id = t.suid

def sysSetuid (task : Cred) (uid : Uid) : Int × Cred :=
  if task.euid ≠ 0 ∧ uid ≠ task.uid ∧ uid ≠ task.euid then (-EPERM, task)
  else (0, {task with uid := uid, euid := uid})

def sysSetreuid (t : Cred) (ruid euid : Uid) : Int × Cred :=
  if t.euid ≠ 0 ∧ (ruid ≠ KEEP ∧ !t.has ruid ∨ euid ≠ KEEP ∧ !t.has euid) then (-EPERM, t)
  else
    let t :=
      if ruid ≠ KEEP then {t with uid := ruid, euid := if euid = KEEP then ruid else t.euid} else t
    let t := if euid ≠ KEEP then {t with euid := euid} else t
    (0, {t with suid := t.euid})

def sysSetresuid (t : Cred) (ruid euid suid : Uid) : Int × Cred :=
  if t.euid ≠ 0 ∧ (ruid ≠ KEEP ∧ !t.has ruid ∨ euid ≠ KEEP ∧ !t.has euid ∨
      suid ≠ KEEP ∧ !t.has suid) then (-EPERM, t)
  else (0, ⟨if ruid ≠ KEEP then ruid else t.uid, if euid ≠ KEEP then euid else t.euid,
    if suid ≠ KEEP then suid else t.suid⟩)

/-! ## Processes -/

structure Procs where
  cred : Nat → Option Cred
  -- a process and those forked by one of these since, for the statements only
  line : Nat → Bool

inductive Call where
  | setuid (uid : Uid)
  | setreuid (ruid euid : Uid)
  | setresuid (ruid euid suid : Uid)
  | fork (child : Nat)
  | exec

structure Action where
  process : Nat
  call : Call

def Procs.setCred (s : Procs) (p : Nat) (c : Cred) : Procs :=
  {s with cred := Function.update s.cred p (some c)}

def Procs.fork (s : Procs) (p child : Nat) (c : Cred) : Procs :=
  {cred := Function.update s.cred child (some c), line := Function.update s.line child (s.line p)}

def step (s : Procs) (a : Action) : Option Procs :=
  (s.cred a.process).bind fun c => match a.call with
    | .setuid uid => some (s.setCred a.process (sysSetuid c uid).2)
    | .setreuid ruid euid => some (s.setCred a.process (sysSetreuid c ruid euid).2)
    | .setresuid ruid euid suid => some (s.setCred a.process (sysSetresuid c ruid euid suid).2)
    | .fork child => if s.cred child = none then some (s.fork a.process child c) else none
    | .exec => some s

/-! ## No way back -/

def Cred.Plain (c : Cred) : Prop := c.uid ≠ 0 ∧ c.euid ≠ 0 ∧ c.suid ≠ 0
instance (c : Cred) : Decidable c.Plain := by unfold Cred.Plain; infer_instance

theorem Cred.Plain.has {c : Cred} (plain : c.Plain) {id : Uid} (has : c.has id = true) :
    id ≠ 0 := by
  rcases of_decide_eq_true has with rfl | rfl | rfl
  · exact plain.1
  · exact plain.2.1
  · exact plain.2.2

theorem Cred.Plain.taken {c : Cred} (plain : c.Plain) {id : Uid}
    (allowed : ¬(id ≠ KEEP ∧ !c.has id)) (given : id ≠ KEEP) : id ≠ 0 := by
  refine plain.has ?_
  cases has : c.has id with
  | true => rfl
  | false => exact absurd ⟨given, by rw [has]; rfl⟩ allowed

theorem setuidPlain {c : Cred} (plain : c.Plain) (uid : Uid) : (sysSetuid c uid).2.Plain := by
  unfold sysSetuid
  split <;> rename_i refused
  · exact plain
  have given : uid ≠ 0 := by
    rintro rfl
    exact refused ⟨plain.2.1, plain.1.symm, plain.2.1.symm⟩
  exact ⟨given, given, plain.2.2⟩

theorem setreuidPlain {c : Cred} (plain : c.Plain) (ruid euid : Uid) :
    (sysSetreuid c ruid euid).2.Plain := by
  unfold sysSetreuid
  split <;> rename_i refused
  · exact plain
  have allowed := not_or.mp fun bad => refused ⟨plain.2.1, bad⟩
  have real := plain.taken allowed.1
  have effective := plain.taken allowed.2
  by_cases noReal : ruid = KEEP
  · by_cases noEffective : euid = KEEP
    · simp only [noReal, noEffective, ne_eq, not_true_eq_false, if_false]
      exact ⟨plain.1, plain.2.1, plain.2.1⟩
    · simp only [noReal, noEffective, ne_eq, not_true_eq_false, not_false_eq_true, if_false, if_true]
      exact ⟨plain.1, effective noEffective, effective noEffective⟩
  · by_cases noEffective : euid = KEEP
    · simp only [noReal, noEffective, ne_eq, not_true_eq_false, not_false_eq_true, if_false, if_true]
      exact ⟨real noReal, real noReal, real noReal⟩
    · simp only [noReal, noEffective, ne_eq, not_false_eq_true, if_true]
      exact ⟨real noReal, effective noEffective, effective noEffective⟩

theorem setresuidPlain {c : Cred} (plain : c.Plain) (ruid euid suid : Uid) :
    (sysSetresuid c ruid euid suid).2.Plain := by
  unfold sysSetresuid
  split <;> rename_i refused
  · exact plain
  obtain ⟨real, others⟩ := not_or.mp fun bad => refused ⟨plain.2.1, bad⟩
  obtain ⟨effective, saved⟩ := not_or.mp others
  refine ⟨?_, ?_, ?_⟩
  · dsimp only
    split <;> rename_i given
    · exact plain.taken real given
    · exact plain.1
  · dsimp only
    split <;> rename_i given
    · exact plain.taken effective given
    · exact plain.2.1
  · dsimp only
    split <;> rename_i given
    · exact plain.taken saved given
    · exact plain.2.2

def Dropped (s : Procs) : Prop := ∀ q, s.line q = true → ∀ c, s.cred q = some c → c.Plain

theorem setCredDropped {s : Procs} (dropped : Dropped s) {p : Nat} {c d : Cred}
    (alive : s.cred p = some c) (plain : c.Plain → d.Plain) : Dropped (s.setCred p d) := by
  intro q inLine e has
  unfold Procs.setCred at has
  dsimp only at has
  by_cases same : q = p
  · subst same
    rw [Function.update_self] at has
    cases has
    exact plain (dropped q inLine c alive)
  · rw [Function.update_of_ne same] at has
    exact dropped q inLine e has

theorem forkDropped {s : Procs} (dropped : Dropped s) {p : Nat} {c : Cred}
    (alive : s.cred p = some c) (child : Nat) : Dropped (s.fork p child c) := by
  intro q inLine e has
  unfold Procs.fork at inLine has
  dsimp only at inLine has
  by_cases same : q = child
  · subst same
    rw [Function.update_self] at inLine has
    cases has
    exact dropped p inLine c alive
  · rw [Function.update_of_ne same] at inLine has
    exact dropped q inLine e has

theorem stepDropped (s : Procs) (a : Action) (t : Procs) (dropped : Dropped s)
    (taken : step s a = some t) : Dropped t := by
  obtain ⟨c, alive, after⟩ := Option.bind_eq_some_iff.mp taken
  split at after
  · cases after
    exact setCredDropped dropped alive fun plain => setuidPlain plain _
  · cases after
    exact setCredDropped dropped alive fun plain => setreuidPlain plain _ _
  · cases after
    exact setCredDropped dropped alive fun plain => setresuidPlain plain _ _ _
  · split at after
    · cases after
      exact forkDropped dropped alive _
    · cases after
  · cases after
    exact dropped

/-! ## Dropping root -/

def Procs.watch (s : Procs) (p : Nat) : Procs := {s with line := fun q => q = p}

theorem rootSetuid {c : Cred} (root : c.euid = 0) (uid : Uid) :
    sysSetuid c uid = (0, ⟨uid, uid, c.suid⟩) :=
  if_neg fun refused => refused.1 root

section
variable {s t : Procs} {p : Nat} {c : Cred} {uid : Uid} (alive : s.cred p = some c)
  (root : c.euid = 0) (called : step s ⟨p, .setuid uid⟩ = some t)
include alive root called

theorem afterSetuid : (t.watch p).cred p = some ⟨uid, uid, c.suid⟩ := by
  unfold step at called
  dsimp only at called
  rw [alive, Option.bind_some, rootSetuid root] at called
  cases called
  exact Function.update_self p _ s.cred

theorem regained (saved : c.suid = 0) : ∃ acts final d,
    Run.run step (t.watch p) acts = some final ∧ final.line p = true ∧ final.cred p = some d ∧
      d.uid = 0 ∧ d.euid = 0 := by
  have own : (t.watch p).cred p = some ⟨uid, uid, 0⟩ := saved ▸ afterSetuid alive root called
  have granted : (sysSetresuid ⟨uid, uid, 0⟩ 0 0 KEEP).2 = ⟨0, 0, 0⟩ := by
    have has : Cred.has ⟨uid, uid, 0⟩ 0 = true := decide_eq_true (.inr (.inr rfl))
    unfold sysSetresuid
    rw [has, if_neg (by simp)]
    rfl
  have taken : step (t.watch p) ⟨p, .setresuid 0 0 KEEP⟩ =
      some ((t.watch p).setCred p ⟨0, 0, 0⟩) := by
    unfold step
    dsimp only
    rw [own, Option.bind_some, granted]
  refine ⟨[⟨p, .setresuid 0 0 KEEP⟩], (t.watch p).setCred p ⟨0, 0, 0⟩, ⟨0, 0, 0⟩, ?_,
    decide_eq_true rfl, Function.update_self p _ (t.watch p).cred, rfl, rfl⟩
  rw [Run.run, taken]
  rfl

/-- After setuid by root to another user no process of the line has an id of root again
exactly when the saved id was not root's, and else the two cleared ids can come back. -/
theorem rootDroppedIff (user : uid ≠ 0) :
    ((∀ acts final, Run.run step (t.watch p) acts = some final → Dropped final) ↔ c.suid ≠ 0) ∧
    ((∃ acts final d, Run.run step (t.watch p) acts = some final ∧ final.line p = true ∧
      final.cred p = some d ∧ d.uid = 0 ∧ d.euid = 0) ↔ c.suid = 0) := by
  have kept : c.suid ≠ 0 → ∀ acts final,
      Run.run step (t.watch p) acts = some final → Dropped final := by
    intro saved acts final ran
    refine Run.invariant stepDropped ?_ ran
    intro q inLine d has
    obtain rfl : q = p := of_decide_eq_true inLine
    rw [afterSetuid alive root called] at has
    cases has
    exact ⟨user, user, saved⟩
  have back := regained alive root called
  refine ⟨⟨fun holds saved => ?_, kept⟩, ⟨?_, back⟩⟩
  · obtain ⟨acts, final, d, ran, inLine, has, real, -⟩ := back saved
    exact (holds acts final ran p inLine d has).1 real
  · rintro ⟨acts, final, d, ran, inLine, has, real, -⟩
    by_contra saved
    exact (kept saved acts final ran p inLine d has).1 real

end

def oneProcess (c : Cred) : Procs where
  cred p := if p = 1 then some c else none
  line _ := false

theorem savedUserDrops : ∃ t, step (oneProcess ⟨0, 0, 7⟩) ⟨1, .setuid 5⟩ = some t ∧
    ((∀ acts final, Run.run step (t.watch 1) acts = some final → Dropped final) ↔
      (7 : Uid) ≠ 0) ∧
    ((∃ acts final d, Run.run step (t.watch 1) acts = some final ∧ final.line 1 = true ∧
      final.cred 1 = some d ∧ d.uid = 0 ∧ d.euid = 0) ↔ (7 : Uid) = 0) :=
  ⟨_, rfl, rootDroppedIff (s := oneProcess ⟨0, 0, 7⟩) (c := ⟨0, 0, 7⟩) rfl rfl rfl (by decide)⟩

/-- Root as spawned, with setuid(1000), and root again through the saved id, also in a
child. -/
theorem rootComesBack : ∃ final d, Run.run step (oneProcess ⟨0, 0, 0⟩)
      [⟨1, .setuid 1000⟩, ⟨1, .fork 2⟩, ⟨2, .exec⟩, ⟨2, .setreuid KEEP 0⟩] = some final ∧
    final.cred 1 = some ⟨1000, 1000, 0⟩ ∧ final.cred 2 = some d ∧ d.euid = 0 :=
  ⟨_, _, rfl, rfl, rfl, rfl⟩

end Scepter.Credentials
