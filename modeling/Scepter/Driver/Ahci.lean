import Scepter.Lib.Bytes
import Scepter.Lib.Run

/-! Transfers through one AHCI port (driver/block/ahci.c) with completion interrupts.
There are one command slot, one bounce buffer and one done/error pair. A task runs in
the driver with interrupts off until it sleeps in ahci_command; any signal may wake it.
The device takes the command table over at some time after PxCI is set, moves sector
after sector, and clears PxCI, with a task file error or without. Sectors and LBAs have
the numbers of the disk. -/
namespace Scepter.Ahci

abbrev TaskId := Nat

def AHCI_MAX_SECTORS : Nat := 256
def AHCI_SECTOR_SIZE : Nat := 512

/-! ## Command FIS -/

inductive AtaCommand where
  | readDma | readDmaExt | writeDma | writeDmaExt
  deriving DecidableEq

structure Fis where
  command : AtaCommand
  device : Nat
  lba0 : Nat
  lba1 : Nat
  lba2 : Nat
  lba3 : Nat
  lba4 : Nat
  lba5 : Nat
  countl : Nat
  counth : Nat
  deriving DecidableEq

def fillFis (lba48 write : Bool) (lba chunk : Nat) : Option Fis :=
  if lba48 then some {
    command := if write then .writeDmaExt else .readDmaExt
    device := 0x40
    lba0 := lba % 256
    lba1 := lba / 2 ^ 8 % 256
    lba2 := lba / 2 ^ 16 % 256
    lba3 := lba / 2 ^ 24 % 256
    lba4 := lba / 2 ^ 32 % 256
    lba5 := lba / 2 ^ 40 % 256
    countl := chunk % 256
    counth := chunk / 2 ^ 8 % 256 }
  else if lba ≥ 2 ^ 28 then none
  else some {
    command := if write then .writeDma else .readDma
    device := 0x40 ||| (lba / 2 ^ 24 % 16)
    lba0 := lba % 256
    lba1 := lba / 2 ^ 8 % 256
    lba2 := lba / 2 ^ 16 % 256
    lba3 := 0
    lba4 := 0
    lba5 := 0
    countl := chunk % 256
    counth := 0 }

/-! What the device makes of it. -/

def Fis.writes (fis : Fis) : Bool := fis.command = .writeDma ∨ fis.command = .writeDmaExt

def Fis.lba (fis : Fis) : Nat :=
  let low := fis.lba0 + 2 ^ 8 * fis.lba1 + 2 ^ 16 * fis.lba2
  match fis.command with
  | .readDma | .writeDma => low + 2 ^ 24 * (fis.device % 16)
  | .readDmaExt | .writeDmaExt =>
    low + 2 ^ 24 * fis.lba3 + 2 ^ 32 * fis.lba4 + 2 ^ 40 * fis.lba5

def Fis.count (fis : Fis) : Nat :=
  match fis.command with
  | .readDma | .writeDma => if fis.countl = 0 then 256 else fis.countl
  | .readDmaExt | .writeDmaExt =>
    let count := fis.countl + 2 ^ 8 * fis.counth
    if count = 0 then 2 ^ 16 else count

theorem deviceLow : ∀ high < 16, (0x40 ||| high) % 16 = high := by decide

theorem fisDecodes {lba48 write : Bool} {lba chunk : Nat} {fis : Fis} (small : lba < 2 ^ 32)
    (some' : 0 < chunk) (chunks : chunk ≤ AHCI_MAX_SECTORS)
    (filled : fillFis lba48 write lba chunk = some fis) :
    fis.writes = write ∧ fis.lba = lba ∧ fis.count = chunk := by
  unfold AHCI_MAX_SECTORS at chunks
  unfold fillFis at filled
  cases lba48 with
  | true =>
    cases filled
    cases write
    all_goals
      refine ⟨rfl, ?_, ?_⟩
      · simp only [Fis.lba, Bool.false_eq_true, if_false, if_true]
        omega
      · simp only [Fis.count, Bool.false_eq_true, if_false, if_true]
        split <;> omega
  | false =>
    rw [if_neg (by decide)] at filled
    split at filled <;> rename_i below
    · cases filled
    · cases filled
      have high := deviceLow (lba / 2 ^ 24 % 16) (Nat.mod_lt _ (by decide))
      cases write
      all_goals
        refine ⟨rfl, ?_, ?_⟩
        · simp only [Fis.lba, Bool.false_eq_true, if_false, if_true, high]
          omega
        · simp only [Fis.count, Bool.false_eq_true, if_false, if_true]
          split <;> omega

/-! ## The port -/

structure Call where
  write : Bool
  first : Nat
  count : Nat
  lba : Nat
  done : Nat
  chunk : Nat
  buf : Buf
  -- the caller's buffer and the disk when the call was made
  given : Buf
  start : Nat → Buf

structure Return where
  call : Call
  disk : Nat → Buf
  ok : Bool

structure State where
  lba48 : Bool
  disk : Nat → Buf
  -- the command header and table, PxCI and PxIS.TFES
  table : Fis
  ci : Bool
  tfes : Bool
  -- the command the device works on, and the sectors it has moved
  working : Option Fis
  moved : Nat
  bounce : Buf
  done : Bool
  error : Bool
  -- active_slot is 0, not -1
  active : Bool
  call : TaskId → Option Call
  -- the task in the driver that does not sleep
  running : Option TaskId
  returned : List Return

def giveBack (s : State) (t : TaskId) (c : Call) (ok : Bool) : State :=
  {s with
    call := Function.update s.call t none
    running := none
    returned := ⟨c, s.disk, ok⟩ :: s.returned}

def issue (s : State) (t : TaskId) (c : Call) : State :=
  let chunk := min (c.count - c.done) AHCI_MAX_SECTORS
  let bounce :=
    if c.write then Buf.overlay (chunk * AHCI_SECTOR_SIZE)
      (fun o => c.buf (c.done * AHCI_SECTOR_SIZE + o)) s.bounce
    else s.bounce
  let s := {s with bounce := bounce}
  match fillFis s.lba48 c.write c.lba chunk with
  | none => giveBack s t c false
  | some fis => {s with
      table := fis
      done := false
      error := false
      active := true
      tfes := false
      ci := true
      call := Function.update s.call t (some {c with chunk := chunk})
      running := some t}

def complete (s : State) (t : TaskId) (c : Call) : State :=
  if s.error then giveBack s t c false
  else
    let from' := c.done * AHCI_SECTOR_SIZE
    let buf := if c.write then c.buf
      else fun o => if from' ≤ o ∧ o < from' + c.chunk * AHCI_SECTOR_SIZE then s.bounce (o - from')
        else c.buf o
    let c := {c with buf := buf, done := c.done + c.chunk, lba := (c.lba + c.chunk) % 2 ^ 32}
    if c.done < c.count then issue s t c else giveBack s t c true

def check (s : State) (t : TaskId) (c : Call) : State :=
  if s.done then complete s t c
  else if !s.ci then complete {s with done := true} t c
  else {s with running := none}

def ahciIsr (s : State) : State :=
  let s := if s.active ∧ !s.ci then {s with error := s.error || s.tfes, done := true} else s
  {s with tfes := false}

def moveSector (s : State) (fis : Fis) : State :=
  let sector := fis.lba + s.moved
  let place := s.moved * AHCI_SECTOR_SIZE
  if fis.writes then {s with
    disk := Function.update s.disk sector fun o => s.bounce (place + o)
    moved := s.moved + 1}
  else {s with
    bounce := fun o => if place ≤ o ∧ o < place + AHCI_SECTOR_SIZE then s.disk sector (o - place)
      else s.bounce o
    moved := s.moved + 1}

inductive Action where
  -- ahci_read_sectors or ahci_write_sectors
  | request (t : TaskId) (write : Bool) (lba count : Nat) (buf : Buf)
  | check (t : TaskId)
  | resume (t : TaskId)
  | isr
  -- the device
  | fetch
  | move
  | finish
  | fail

def step (s : State) : Action → Option State
  | .request t write lba count buf =>
    if s.running = none ∧ (s.call t).isNone ∧ 0 < count ∧ count < 256 ∧ lba < 2 ^ 32 then
      some (issue s t ⟨write, lba, count, lba, 0, 0, buf, buf, s.disk⟩)
    else none
  | .check t => match s.call t with
    | some c => if s.running = some t then some (check s t c) else none
    | none => none
  | .resume t =>
    if s.running = none ∧ (s.call t).isSome then some {s with running := some t} else none
  | .isr => if s.running = none then some (ahciIsr s) else none
  | .fetch =>
    if s.ci ∧ s.working = none then some {s with working := some s.table, moved := 0} else none
  | .move => match s.working with
    | some fis => if s.moved < fis.count then some (moveSector s fis) else none
    | none => none
  | .finish => match s.working with
    | some fis =>
      if s.moved = fis.count then some {s with ci := false, working := none} else none
    | none => none
  | .fail => if s.ci then some {s with ci := false, tfes := true, working := none} else none

def idle (lba48 : Bool) (disk : Nat → Buf) : State where
  lba48 := lba48
  disk := disk
  table := ⟨.readDma, 0, 0, 0, 0, 0, 0, 0, 0, 0⟩
  ci := false
  tfes := false
  working := none
  moved := 0
  bounce := Buf.zero
  done := false
  error := false
  active := false
  call _ := none
  running := none
  returned := []

/-! ## One request at a time -/

/-- The buffer holds what the sectors hold; data of a write is the caller's, and no other
sector has changed since the call was made. -/
def Right (r : Return) : Prop :=
  (∀ k < r.call.count, ∀ o < AHCI_SECTOR_SIZE,
    r.call.buf (k * AHCI_SECTOR_SIZE + o) = r.disk (r.call.first + k) o) ∧
  (r.call.write = true → r.call.buf = r.call.given) ∧
  ∀ sector, r.disk sector ≠ r.call.start sector →
    r.call.write = true ∧ r.call.first ≤ sector ∧ sector < r.call.first + r.call.count

def Alone (s : State) : Action → Prop
  | .request .. => ∀ u, s.call u = none
  | .check _ => s.done = false → s.ci = false → s.tfes = false
  | _ => True

def Moved (s : State) (c : Call) (n : Nat) : Prop :=
  ∀ k < n, ∀ o < AHCI_SECTOR_SIZE,
    s.bounce (k * AHCI_SECTOR_SIZE + o) = s.disk (c.first + k) o

structure InFlight (s : State) (c : Call) : Prop where
  whole : c.done = 0 ∧ c.chunk = c.count ∧ 0 < c.count
  table : s.table.writes = c.write ∧ s.table.lba = c.first ∧ s.table.count = c.count
  given : c.buf = c.given
  active : s.active = true
  loaded : c.write = true → ∀ o < c.count * AHCI_SECTOR_SIZE, s.bounce o = c.buf o
  others : ∀ sector, s.disk sector ≠ c.start sector →
    c.write = true ∧ c.first ≤ sector ∧ sector < c.first + c.count
  going : s.ci = true → s.tfes = false ∧ s.done = false ∧ s.error = false ∧
    (s.working = none ∨ s.working = some s.table ∧ s.moved ≤ c.count ∧ Moved s c s.moved)
  ended : s.ci = false → s.working = none ∧
    (s.tfes = false ∧ s.error = false ∧ Moved s c c.count ∨ s.tfes = true ∧ s.done = false ∨
      s.error = true ∧ s.done = true)

structure Sound (s : State) : Prop where
  returned : ∀ r ∈ s.returned, r.ok = true → Right r
  single : ∀ t u, s.call t ≠ none → s.call u ≠ none → t = u
  still : (∀ t, s.call t = none) → s.ci = false ∧ s.working = none
  flight : ∀ t c, s.call t = some c → InFlight s c

theorem idleSound (lba48 : Bool) (disk : Nat → Buf) : Sound (idle lba48 disk) :=
  ⟨nofun, fun _ _ some' => absurd rfl some', fun _ => ⟨rfl, rfl⟩, nofun⟩

theorem Sound.alone {s : State} (sound : Sound s) {t : TaskId} {c : Call}
    (mine : s.call t = some c) (u : TaskId) (other : u ≠ t) : s.call u = none := by
  by_contra another
  exact other (sound.single u t another (by rw [mine]; nofun))

theorem backSound {s : State} (sound : Sound s) {t : TaskId} {c : Call}
    (alone : ∀ u, u ≠ t → s.call u = none) (ended : s.ci = false ∧ s.working = none) {ok : Bool}
    (right : ok = true → Right ⟨c, s.disk, ok⟩) : Sound (giveBack s t c ok) := by
  have none : ∀ u, (giveBack s t c ok).call u = none := by
    intro u
    unfold giveBack
    dsimp only
    by_cases same : u = t
    · rw [same, Function.update_self]
    · rw [Function.update_of_ne same]
      exact alone u same
  refine ⟨fun r member => ?_, fun u v some' => absurd (none u) some', fun _ => ended,
    fun u c is => ?_⟩
  · rcases List.mem_cons.mp member with rfl | before
    · exact right
    · exact sound.returned r before
  · rw [none u] at is
    cases is

theorem flightSound {s s' : State} (sound : Sound s) (call : s'.call = s.call)
    (returned : s'.returned = s.returned)
    (still : s.ci = false → s.working = none → s'.ci = false ∧ s'.working = none)
    (flight : ∀ c, InFlight s c → InFlight s' c) : Sound s' := by
  refine ⟨returned ▸ sound.returned, call ▸ sound.single, fun none => ?_, fun t c is => ?_⟩
  · obtain ⟨ci, working⟩ := sound.still fun t => by rw [← call]; exact none t
    exact still ci working
  · exact flight c (sound.flight t c (call ▸ is))

theorem issueSound {s : State} (sound : Sound s) (alone : ∀ u, s.call u = none) (t : TaskId)
    {write : Bool} {lba count : Nat} {buf : Buf} (some' : 0 < count) (byte : count < 256)
    (small : lba < 2 ^ 32) :
    Sound (issue s t ⟨write, lba, count, lba, 0, 0, buf, buf, s.disk⟩) := by
  obtain ⟨ci, working⟩ := sound.still alone
  have chunk : min (count - 0) AHCI_MAX_SECTORS = count := by
    unfold AHCI_MAX_SECTORS
    omega
  unfold issue
  dsimp only
  rw [chunk]
  split <;> rename_i filled
  · have bounced : Sound {s with
        bounce := if write then Buf.overlay (count * AHCI_SECTOR_SIZE)
          (fun o => buf (0 * AHCI_SECTOR_SIZE + o)) s.bounce else s.bounce} :=
      ⟨sound.returned, sound.single, sound.still, fun u c is => by
        cases (alone u).symm.trans is⟩
    exact backSound bounced (fun u _ => alone u) ⟨ci, working⟩ nofun
  · rename_i fis
    have chunks : count ≤ AHCI_MAX_SECTORS := by
      unfold AHCI_MAX_SECTORS
      omega
    have decodes := fisDecodes small some' chunks filled
    have only : ∀ u c, Function.update s.call t
        (some ⟨write, lba, count, lba, 0, count, buf, buf, s.disk⟩) u = some c →
        u = t ∧ c = ⟨write, lba, count, lba, 0, count, buf, buf, s.disk⟩ := by
      intro u c is
      by_cases same : u = t
      · rw [same, Function.update_self] at is
        exact ⟨same, (Option.some.inj is).symm⟩
      · rw [Function.update_of_ne same, alone u] at is
        cases is
    refine ⟨sound.returned, fun u v first second => ?_, fun none => ?_, fun u c is => ?_⟩
    · obtain ⟨c, isFirst⟩ := Option.ne_none_iff_exists'.mp first
      obtain ⟨c', isSecond⟩ := Option.ne_none_iff_exists'.mp second
      exact (only u c isFirst).1.trans (only v c' isSecond).1.symm
    · have mine := none t
      dsimp only at mine
      rw [Function.update_self] at mine
      cases mine
    · obtain ⟨-, rfl⟩ := only u c is
      refine ⟨⟨rfl, rfl, some'⟩, decodes, rfl, rfl, fun isWrite o inside => ?_,
        fun sector differs => absurd rfl differs,
        fun _ => ⟨rfl, rfl, rfl, .inl working⟩, nofun⟩
      have isWrite : write = true := isWrite
      dsimp only
      rw [if_pos isWrite, Nat.zero_mul]
      exact (if_pos inside).trans (congrArg buf (Nat.zero_add o))

theorem completeSound {s : State} (sound : Sound s) {t : TaskId} {c : Call}
    (mine : s.call t = some c) (ci : s.ci = false) (seen : s.tfes = true → s.error = true) :
    Sound (complete s t c) := by
  have flight := sound.flight t c mine
  obtain ⟨first, chunk, -⟩ := flight.whole
  obtain ⟨working, ends⟩ := flight.ended ci
  have alone := sound.alone mine
  unfold complete
  split <;> rename_i error
  · exact backSound sound alone ⟨ci, working⟩ nofun
  have moved : Moved s c c.count := by
    rcases ends with ⟨-, -, moved⟩ | ⟨failed, -⟩ | ⟨failed, -⟩
    · exact moved
    · exact absurd (seen failed) error
    · exact absurd failed error
  dsimp only
  rw [if_neg (by omega)]
  refine backSound sound alone ⟨ci, working⟩ fun _ => ⟨fun k inside o within => ?_, fun isWrite => ?_,
    flight.others⟩
  · have inside : k < c.count := inside
    have at' := moved k inside o within
    have place : k * AHCI_SECTOR_SIZE + o < c.count * AHCI_SECTOR_SIZE := by
      unfold AHCI_SECTOR_SIZE at within ⊢
      omega
    dsimp only
    rw [← at', first, chunk, Nat.zero_mul, Nat.zero_add]
    by_cases isWrite : c.write = true
    · rw [if_pos isWrite]
      exact (flight.loaded isWrite _ place).symm
    · rw [if_neg isWrite, if_pos ⟨Nat.zero_le _, place⟩, Nat.sub_zero]
  · have isWrite : c.write = true := isWrite
    dsimp only
    rw [if_pos isWrite]
    exact flight.given

theorem checkSound {s : State} (sound : Sound s) {t : TaskId} {c : Call}
    (mine : s.call t = some c) (alone : s.done = false → s.ci = false → s.tfes = false) :
    Sound (check s t c) := by
  have flight := sound.flight t c mine
  unfold check
  split <;> rename_i done
  · cases ci : s.ci with
    | true => exact absurd done (by rw [(flight.going ci).2.1]; decide)
    | false =>
      refine completeSound sound mine ci fun failed => ?_
      rcases (flight.ended ci).2 with ⟨fine, -⟩ | ⟨-, unseen⟩ | ⟨error, -⟩
      · rw [fine] at failed
        cases failed
      · rw [unseen] at done
        cases done
      · exact error
  have notDone : s.done = false := by simpa using done
  split <;> rename_i cleared
  · have ci : s.ci = false := by simpa using cleared
    have fine := alone notDone ci
    have after : Sound {s with done := true} := by
      refine flightSound sound rfl rfl (fun ci working => ⟨ci, working⟩) fun c flight => ?_
      refine ⟨flight.whole, flight.table, flight.given, flight.active, flight.loaded, flight.others, fun going => ?_,
        fun ended => ?_⟩
      · rw [show s.ci = true from going] at ci
        cases ci
      · obtain ⟨working, good | ⟨failed, -⟩ | ⟨-, seen⟩⟩ := flight.ended ended
        · exact ⟨working, .inl good⟩
        · rw [fine] at failed
          cases failed
        · rw [notDone] at seen
          cases seen
    exact completeSound after mine ci fun failed => by rw [show s.tfes = true from failed] at fine; cases fine
  · exact flightSound sound rfl rfl (fun ci working => ⟨ci, working⟩) fun c flight =>
      ⟨flight.whole, flight.table, flight.given, flight.active, flight.loaded, flight.others, flight.going,
        flight.ended⟩

theorem isrSound {s : State} (sound : Sound s) : Sound (ahciIsr s) := by
  by_cases sees : s.active = true ∧ (!s.ci) = true
  · have same : ahciIsr s = {s with error := s.error || s.tfes, done := true, tfes := false} := by
      unfold ahciIsr
      rw [if_pos sees]
    have ci : s.ci = false := by simpa using sees.2
    rw [same]
    refine flightSound sound rfl rfl (fun ci working => ⟨ci, working⟩) fun c flight => ?_
    refine ⟨flight.whole, flight.table, flight.given, flight.active, flight.loaded, flight.others, fun going => ?_,
      fun ended => ?_⟩
    · cases going.symm.trans ci
    · obtain ⟨working, ⟨fine, good, moved⟩ | ⟨failed, -⟩ | ⟨error, -⟩⟩ := flight.ended ci
      · exact ⟨working, .inl ⟨rfl, by dsimp only; rw [good, fine]; rfl, moved⟩⟩
      · exact ⟨working, .inr (.inr ⟨by dsimp only; rw [failed, Bool.or_true], rfl⟩)⟩
      · exact ⟨working, .inr (.inr ⟨by dsimp only; rw [error, Bool.true_or], rfl⟩)⟩
  · have same : ahciIsr s = {s with tfes := false} := by
      unfold ahciIsr
      rw [if_neg sees]
    rw [same]
    refine flightSound sound rfl rfl (fun ci working => ⟨ci, working⟩) fun c flight => ?_
    refine ⟨flight.whole, flight.table, flight.given, flight.active, flight.loaded, flight.others,
      fun going => ⟨rfl, (flight.going going).2⟩, fun ended => ?_⟩
    have ci : s.ci = false := ended
    exact absurd ⟨flight.active, by rw [ci]; rfl⟩ sees

theorem fetchSound {s : State} (sound : Sound s) (ci : s.ci = true) :
    Sound {s with working := some s.table, moved := 0} := by
  refine flightSound sound rfl rfl (fun ended _ => ?_) fun c flight => ?_
  · cases ci.symm.trans ended
  refine ⟨flight.whole, flight.table, flight.given, flight.active, flight.loaded, flight.others,
    fun going => ?_, fun ended => ?_⟩
  · obtain ⟨tfes, done, error, -⟩ := flight.going ci
    exact ⟨tfes, done, error, .inr ⟨rfl, Nat.zero_le _, nofun⟩⟩
  · cases ci.symm.trans ended

theorem Sound.busy {s : State} (sound : Sound s) {fis : Fis} (working : s.working = some fis) :
    s.ci = true ∧ ∀ t c, s.call t = some c →
      fis = s.table ∧ s.moved ≤ c.count ∧ Moved s c s.moved := by
  have each : ∀ t c, s.call t = some c → s.ci = true ∧
      (fis = s.table ∧ s.moved ≤ c.count ∧ Moved s c s.moved) := by
    intro t c mine
    have flight := sound.flight t c mine
    cases ci : s.ci with
    | false => cases working.symm.trans (flight.ended ci).1
    | true =>
      rcases (flight.going ci).2.2.2 with nothing | ⟨table, rest⟩
      · cases working.symm.trans nothing
      · exact ⟨rfl, Option.some.inj (working.symm.trans table), rest⟩
  refine ⟨?_, fun t c mine => (each t c mine).2⟩
  by_contra ended
  have none : ∀ t, s.call t = none := by
    intro t
    cases mine : s.call t with
    | none => rfl
    | some c => exact absurd (each t c mine).1 ended
  cases working.symm.trans (sound.still none).2

theorem moveSound {s : State} (sound : Sound s) {fis : Fis} (working : s.working = some fis)
    (more : s.moved < fis.count) : Sound (moveSector s fis) := by
  obtain ⟨ci, sees⟩ := sound.busy working
  refine ⟨?_, ?_, fun noCall => ?_, fun t c is => ?_⟩
  · unfold moveSector
    split <;> exact sound.returned
  · unfold moveSector
    split <;> exact sound.single
  · have before : ∀ t, s.call t = none := by
      intro t
      have now := noCall t
      unfold moveSector at now
      split at now <;> exact now
    cases working.symm.trans (sound.still before).2
  · have mine : s.call t = some c := by
      unfold moveSector at is
      split at is <;> exact is
    have flight := sound.flight t c mine
    obtain ⟨rfl, -, moved⟩ := sees t c mine
    obtain ⟨writes, lba, count⟩ := flight.table
    obtain ⟨tfes, done, error, -⟩ := flight.going ci
    rw [count] at more
    unfold moveSector
    split <;> rename_i isWrite
    · refine ⟨flight.whole, flight.table, flight.given, flight.active, flight.loaded,
        fun sector differs => ?_, fun _ => ⟨tfes, done, error, .inr ⟨working, more, ?_⟩⟩,
        fun ended => ?_⟩
      · by_cases same : sector = s.table.lba + s.moved
        · rw [same, lba]
          exact ⟨writes ▸ isWrite, Nat.le_add_right _ _, Nat.add_lt_add_left more _⟩
        · refine flight.others sector ?_
          dsimp only at differs
          rwa [Function.update_of_ne same] at differs
      · intro k below o within
        dsimp only
        rw [lba]
        by_cases same : k = s.moved
        · rw [same, Function.update_self]
        · rw [Function.update_of_ne (by omega)]
          exact moved k (by dsimp only at below; omega) o within
      · cases ci.symm.trans ended
    · refine ⟨flight.whole, flight.table, flight.given, flight.active, fun reallyWrite => ?_,
        flight.others, fun _ => ⟨tfes, done, error, .inr ⟨working, more, ?_⟩⟩, fun ended => ?_⟩
      · exact absurd (writes.trans reallyWrite) isWrite
      · intro k below o within
        have below : k < s.moved + 1 := below
        dsimp only
        rw [lba]
        unfold AHCI_SECTOR_SIZE at within ⊢
        by_cases same : k = s.moved
        · rw [same, if_pos (by omega), Nat.add_sub_cancel_left]
        · rw [if_neg (by omega)]
          exact moved k (by omega) o within
      · cases ci.symm.trans ended

theorem finishSound {s : State} (sound : Sound s) {fis : Fis} (working : s.working = some fis)
    (all : s.moved = fis.count) : Sound {s with ci := false, working := none} := by
  obtain ⟨ci, sees⟩ := sound.busy working
  refine ⟨sound.returned, sound.single, fun _ => ⟨rfl, rfl⟩, fun t c mine => ?_⟩
  have flight := sound.flight t c mine
  obtain ⟨rfl, -, moved⟩ := sees t c mine
  obtain ⟨tfes, done, error, -⟩ := flight.going ci
  refine ⟨flight.whole, flight.table, flight.given, flight.active, flight.loaded, flight.others,
    nofun, fun _ => ⟨rfl, .inl ⟨tfes, error, ?_⟩⟩⟩
  rw [all, flight.table.2.2] at moved
  exact moved

theorem failSound {s : State} (sound : Sound s) (ci : s.ci = true) :
    Sound {s with ci := false, tfes := true, working := none} := by
  refine ⟨sound.returned, sound.single, fun _ => ⟨rfl, rfl⟩, fun t c mine => ?_⟩
  have flight := sound.flight t c mine
  exact ⟨flight.whole, flight.table, flight.given, flight.active, flight.loaded, flight.others,
    nofun, fun _ => ⟨rfl, .inr (.inl ⟨rfl, (flight.going ci).2.1⟩)⟩⟩

theorem stepSound (s : State) (a : Action) (s' : State) (sound : Sound s) (alone : Alone s a)
    (taken : step s a = some s') : Sound s' := by
  cases a with
  | request t write lba count buf =>
    dsimp only [step] at taken
    split at taken <;> rename_i fits
    · cases taken
      exact issueSound sound alone t fits.2.2.1 fits.2.2.2.1 fits.2.2.2.2
    · cases taken
  | check t =>
    dsimp only [step] at taken
    split at taken <;> rename_i mine
    · split at taken
      · cases taken
        exact checkSound sound mine alone
      · cases taken
    · cases taken
  | resume t =>
    dsimp only [step] at taken
    split at taken
    · cases taken
      exact flightSound sound rfl rfl (fun ci working => ⟨ci, working⟩) fun c flight =>
        ⟨flight.whole, flight.table, flight.given, flight.active, flight.loaded, flight.others,
          flight.going, flight.ended⟩
    · cases taken
  | isr =>
    dsimp only [step] at taken
    split at taken
    · cases taken
      exact isrSound sound
    · cases taken
  | fetch =>
    dsimp only [step] at taken
    split at taken <;> rename_i fits
    · cases taken
      exact fetchSound sound fits.1
    · cases taken
  | move =>
    dsimp only [step] at taken
    split at taken <;> rename_i working
    · split at taken <;> rename_i more
      · cases taken
        exact moveSound sound working more
      · cases taken
    · cases taken
  | finish =>
    dsimp only [step] at taken
    split at taken <;> rename_i working
    · split at taken <;> rename_i all
      · cases taken
        exact finishSound sound working all
      · cases taken
    · cases taken
  | fail =>
    dsimp only [step] at taken
    split at taken <;> rename_i ci
    · cases taken
      exact failSound sound ci
    · cases taken

/-- Over all runs with one request at a time. -/
theorem transfersRight (lba48 : Bool) (disk : Nat → Buf) {acts : List Action} {s : State}
    (alone : Run.Meets step Alone (idle lba48 disk) acts)
    (ran : Run.run step (idle lba48 disk) acts = some s) : ∀ r ∈ s.returned, r.ok = true → Right r :=
  (Run.invariantMeets stepSound (idleSound lba48 disk) alone ran).returned

def striped : Nat → Buf := fun sector _ => BitVec.ofNat 8 (sector + 1)

def inTurn : List Action :=
  [.request 1 true 5 1 (fun _ => 7), .fetch, .check 1, .move, .finish, .isr, .resume 1, .check 1,
   .request 2 false 5 1 Buf.zero, .fetch, .check 2, .move, .finish, .isr, .resume 2, .check 2]

theorem inTurnRight : ∃ s, Run.run step (idle true striped) inTurn = some s ∧
    s.returned.map Return.ok = [true, true] ∧ ∀ r ∈ s.returned, r.ok = true → Right r := by
  obtain ⟨s, ran, ok⟩ : ∃ s, Run.run step (idle true striped) inTurn = some s ∧
      s.returned.map Return.ok = [true, true] := ⟨_, rfl, rfl⟩
  have alone : Run.Meets step Alone (idle true striped) inTurn := by
    refine ⟨fun _ => rfl, fun _ e1 => ⟨trivial, fun _ e2 => ⟨?_, fun _ e3 => ⟨trivial,
      fun _ e4 => ⟨trivial, fun _ e5 => ⟨trivial, fun _ e6 => ⟨trivial, fun _ e7 => ⟨?_,
      fun _ e8 => ⟨?_, fun _ e9 => ⟨trivial, fun _ e10 => ⟨?_, fun _ e11 => ⟨trivial,
      fun _ e12 => ⟨trivial, fun _ e13 => ⟨trivial, fun _ e14 => ⟨trivial, fun _ e15 => ⟨?_,
      fun _ _ => trivial⟩⟩⟩⟩⟩⟩⟩⟩⟩⟩⟩⟩⟩⟩⟩⟩
    all_goals cases e1; cases e2
    · exact fun _ => nofun
    all_goals cases e3; cases e4; cases e5; cases e6; cases e7
    · exact nofun
    all_goals cases e8
    · rintro (_ | _ | u) <;> rfl
    all_goals cases e9; cases e10
    · exact fun _ => nofun
    all_goals cases e11; cases e12; cases e13; cases e14; cases e15
    exact nofun
  exact ⟨s, ran, ok, transfersRight true striped alone ran⟩

def overlapping : List Action :=
  [.request 1 false 5 1 Buf.zero, .fetch, .check 1, .request 2 false 6 1 Buf.zero, .check 2,
   .move, .finish, .isr, .resume 1, .check 1, .resume 2, .check 2]

theorem overlapWrong : ∃ s, Run.run step (idle true striped) overlapping = some s ∧
    ∃ r ∈ s.returned, r.ok = true ∧ ¬ Right r ∧ r.disk = r.call.start := by
  refine ⟨_, rfl, _, List.mem_cons_self, rfl, fun right => ?_, rfl⟩
  have first := right.1 0 (by decide) 0 (by decide)
  revert first
  decide

end Scepter.Ahci
