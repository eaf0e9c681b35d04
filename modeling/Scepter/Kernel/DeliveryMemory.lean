import Scepter.Kernel.InitialStack
import Scepter.Kernel.Sigreturn

/-! What do_signal (kernel/signal.c) writes to user memory: the sigreturn trampoline at its
fixed address and the frame of a handler, while the machine takes the steps of
Kernel/Deliver. -/
namespace Scepter.Deliver
open Scepter.Sched Scepter.Run

def SYS_SIGRETURN : Nat := 119

def tramp : List Byte :=
  [0xB8, BitVec.ofNat 8 (SYS_SIGRETURN % 256), BitVec.ofNat 8 (SYS_SIGRETURN / 2 ^ 8 % 256),
    BitVec.ofNat 8 (SYS_SIGRETURN / 2 ^ 16 % 256), BitVec.ofNat 8 (SYS_SIGRETURN / 2 ^ 24 % 256),
    0xCD, 0x80]

def frame (mem : Buf) (newEsp : BitVec 32) (sig : Nat) : Buf :=
  (mem.store newEsp.toNat SIGNAL_TRAMPOLINE_VA.toNat 4).store (newEsp.toNat + 4) sig 4

variable (write : BitVec 32 → Nat → Bool) (self : TaskId)

def visitMem (mem : Buf) (m : Machine) (sig : Nat) : Buf :=
  let task := m.kernel.task self
  if task.pending &&& (1#32 <<< sig) = 0 then mem
  else if task.blocked &&& (1#32 <<< sig) ≠ 0 then mem
  else
    let handler := task.sigHandlers sig
    if handler = SIG_IGN then mem
    else if handler = SIG_DFL then mem
    else if m.ctx.sigActive then mem
    else if ¬ write SIGNAL_TRAMPOLINE_VA 7 then mem
    else
      let mem := mem.write SIGNAL_TRAMPOLINE_VA.toNat tramp
      if ¬ write (m.regs.userEsp - 8) 8 then mem else frame mem (m.regs.userEsp - 8) sig

def scanMem : List Nat → Machine → Buf → Buf
  | [], _, mem => mem
  | sig :: rest, m, mem => match visit write self m sig with
    | .pass m' => scanMem rest m' (visitMem write self mem m sig)
    | _ => visitMem write self mem m sig

def doSignalMem (m : Machine) (mem : Buf) : Buf :=
  if (m.kernel.task self).pid = 0 ∨ (m.kernel.task self).pending = 0 then mem
  else scanMem write self (List.range' 1 (NSIG - 1)) m mem

/-- A step with the memory beside it. User code, and the calls it makes, leave what they
like. -/
def stepMem (s : System × Buf) : Act × Buf → Option (System × Buf)
  | (.trap regs, own) => (step self s.1 (.trap regs)).map fun s' => (s', own)
  | (.leave write ret, _) => (step self s.1 (.leave write ret)).map fun s' =>
    (s', doSignalMem write self (returned s.1.machine ret) s.2)
  | (.sigreturn write, _) => (step self s.1 (.sigreturn write)).map fun s' =>
    (s', doSignalMem write self (returned (sysSigreturn self s.1.machine).2
      (BitVec.ofInt 32 (sysSigreturn self s.1.machine).1)) s.2)
  | (.resume write, _) => (step self s.1 (.resume write)).map fun s' => match s.1.mode with
    | .parked rest => (s', scanMem write self rest s.1.machine s.2)
    | _ => (s', s.2)
  | (act, _) => (step self s.1 act).map fun s' => (s', s.2)

/-! ## What should hold -/

def espOf (s : System) : Act → BitVec 32
  | .sigreturn _ => (sysSigreturn self s.machine).2.regs.userEsp
  | _ => s.machine.regs.userEsp

def OnTrampoline (x : Nat) : Prop :=
  SIGNAL_TRAMPOLINE_VA.toNat ≤ x ∧ x < SIGNAL_TRAMPOLINE_VA.toNat + 7

def InFrame (esp : BitVec 32) (x : Nat) : Prop := (esp - 8).toNat ≤ x ∧ x < (esp - 8).toNat + 8

def Spared (x : Nat) (s : System × Buf) (a : Act × Buf) : Prop := match a.1 with
  | .trap _ => a.2 x = s.2 x
  | act => ¬ InFrame (espOf self s.1 act) x

variable {write self} {m : Machine} {mem : Buf} {x : Nat}

/-! ## One delivery -/

theorem frameApart {esp : BitVec 32} (sig : Nat) (apart : ¬ InFrame esp x) :
    frame mem (esp - 8) sig x = mem x := by
  unfold InFrame at apart
  unfold frame
  rw [Buf.storeByte _ _ (by omega), Buf.storeByte _ _ (by omega)]

theorem visitMemKeeps (sig : Nat) (off : ¬ OnTrampoline x) (apart : ¬ InFrame m.regs.userEsp x) :
    visitMem write self mem m sig x = mem x := by
  have kept : mem.write SIGNAL_TRAMPOLINE_VA.toNat tramp x = mem x := by
    refine Buf.writeByte mem ?_
    unfold OnTrampoline at off
    change x < _ ∨ SIGNAL_TRAMPOLINE_VA.toNat + 7 ≤ x
    omega
  unfold visitMem
  dsimp only
  repeat' split
  all_goals first
    | rfl
    | exact kept
    | exact (frameApart sig apart).trans kept

theorem passRegs {m' : Machine} {sig : Nat} (passed : visit write self m sig = .pass m') :
    m'.regs = m.regs := by
  have cases' := visitCases write self m sig
  dsimp only at cases'
  rw [passed] at cases'
  obtain ⟨-, same⟩ | ⟨-, -, -, -, same⟩ | ⟨-, -, same⟩ | ⟨-, -, same⟩ | ⟨-, -, -, same⟩ |
    ⟨-, -, -, -, after, dropped, same⟩ | ⟨-, -, -, -, same⟩ := cases'
  · cases same
    rfl
  · cases same
    rfl
  · cases same
  · cases same
  · cases same
    rfl
  · cases same
    obtain rfl | rfl := dropped
    · exact resetHandRegs self _ sig
    · exact resetHandRegs self _ sig
  · cases same

theorem scanMemKeeps (sigs : List Nat) (off : ¬ OnTrampoline x)
    (apart : ¬ InFrame m.regs.userEsp x) : scanMem write self sigs m mem x = mem x := by
  induction sigs generalizing m mem with
  | nil => rfl
  | cons sig rest ih =>
    have here := @visitMemKeeps write self m mem x sig off apart
    unfold scanMem
    cases turn : visit write self m sig with
    | pass m' => exact (ih (passRegs turn ▸ apart)).trans here
    | exit | stop | enter => exact here

theorem doSignalMemKeeps (off : ¬ OnTrampoline x) (apart : ¬ InFrame m.regs.userEsp x) :
    doSignalMem write self m mem x = mem x := by
  unfold doSignalMem
  split
  · rfl
  · exact scanMemKeeps _ off apart

/-! ## Any number of them -/

theorem stepMemKeeps {s s' : System × Buf} {a : Act × Buf} (off : ¬ OnTrampoline x)
    (spared : Spared self x s a) (ran : stepMem self s a = some s') : s'.2 x = s.2 x := by
  obtain ⟨act, own⟩ := a
  cases act with
  | trap regs =>
    obtain ⟨_, -, rfl⟩ := Option.map_eq_some_iff.mp ran
    exact spared
  | leave write ret =>
    obtain ⟨_, -, rfl⟩ := Option.map_eq_some_iff.mp ran
    exact doSignalMemKeeps off spared
  | sigreturn write =>
    obtain ⟨_, -, rfl⟩ := Option.map_eq_some_iff.mp ran
    exact doSignalMemKeeps off spared
  | resume write =>
    obtain ⟨_, -, rfl⟩ := Option.map_eq_some_iff.mp ran
    split
    · exact scanMemKeeps _ off spared
    · rfl
  | send pid signum =>
    cases ran
    rfl
  | sigaction | sigprocmask | sleep | others =>
    obtain ⟨_, -, rfl⟩ := Option.map_eq_some_iff.mp ran
    rfl

theorem stringsOverlapIff (strBytes : Nat) :
    (∃ x, Regions.USER_STACK_TOP - strBytes ≤ x ∧ x < Regions.USER_STACK_TOP ∧ OnTrampoline x) ↔
      25 < strBytes := by
  have top : Regions.USER_STACK_TOP = SIGNAL_TRAMPOLINE_VA.toNat + 32 := rfl
  unfold OnTrampoline
  rw [top]
  constructor
  · rintro ⟨x, low, -, -, below⟩
    omega
  · intro long
    exact ⟨SIGNAL_TRAMPOLINE_VA.toNat + 6, by omega⟩

end Scepter.Deliver
