import Scepter.Driver.Partition
import Scepter.Lib.Run
import Mathlib.Logic.Function.Basic

/-! The sector cache under tasks that interleave. A call of bread or bwrite is one
operation for each of its sectors, and an operation runs without interruption but
for the driver call, in which other tasks run. A failing driver call leaves the
disk as it was. `version` counts the writes that have reached a sector and `last`
is the data of the last one that has returned; the code has neither. -/
namespace Scepter.Coherence
open Mbr (Dev Table findPartition outOfBounds CACHE_MAX_ENTRIES)

abbrev Place := Nat × Nat

def absSector (wordBits : Nat) (table : Table) : Dev → Nat → Option Place
  | .raw disk, sector => some (disk, sector)
  | .part disk scnd, sector => match findPartition table disk scnd with
    | none => none
    | some part =>
      if outOfBounds wordBits part sector 1 then none
      else some (disk, (part.lbaStart + sector) % 2 ^ 32)

inductive Op (α : Type) where
  | read
  | write (v : α)

/-- An operation in its driver call. `moved` is the data the driver has moved, and
the version of the sector behind that. -/
structure Flight (α : Type) where
  dev : Dev
  sector : Nat
  place : Place
  op : Op α
  moved : Option (α × Nat)

structure State (α : Type) where
  cache : List ((Dev × Nat) × α)
  disk : Place → α
  version : Place → Nat
  last : Place → α
  tasks : Nat → Option (Flight α)
  -- what the last step handed back to a reader
  answer : Option (Place × α)

inductive Action (α : Type) where
  | bread (t : Nat) (dev : Dev) (sector : Nat) (room : Bool)
  | bwrite (t : Nat) (dev : Dev) (sector : Nat) (v : α)
  | transfer (t : Nat)
  | failed (t : Nat)
  | finish (t : Nat) (rawRoom room : Bool)

variable {α : Type}

def boot (disk : Place → α) : State α := ⟨[], disk, fun _ => 0, disk, fun _ => none, none⟩

def rawKey (place : Place) : Dev × Nat := (.raw place.1, place.2)

def cacheInsert (room : Bool) (key : Dev × Nat) (v : α) (cache : List ((Dev × Nat) × α)) :
    List ((Dev × Nat) × α) :=
  Lru.insert CACHE_MAX_ENTRIES room cache key v

/-- Behind the driver call the raw disk's bread or bwrite inserts its block, and
then the partition's. -/
def insertBoth (rawRoom room : Bool) (dev : Dev) (sector : Nat) (place : Place) (v : α)
    (cache : List ((Dev × Nat) × α)) : List ((Dev × Nat) × α) :=
  match dev with
  | .raw _ => cacheInsert rawRoom (rawKey place) v cache
  | .part _ _ => cacheInsert room (dev, sector) v (cacheInsert rawRoom (rawKey place) v cache)

def depart (t : Nat) (flight : Flight α) (s : State α) : State α :=
  {s with tasks := Function.update s.tasks t (some flight), answer := none}

def land (t : Nat) (s : State α) : State α :=
  {s with tasks := Function.update s.tasks t none, answer := none}

def bread (wordBits : Nat) (table : Table) (t : Nat) (dev : Dev) (sector : Nat) (room : Bool)
    (s : State α) : State α :=
  match Lru.lookup s.cache (dev, sector) with
  | some (v, cache) =>
    {s with cache := cache, answer := (absSector wordBits table dev sector).map (·, v)}
  | none => match absSector wordBits table dev sector, dev with
    | none, _ => {s with answer := none}
    | some place, .raw _ => depart t ⟨dev, sector, place, .read, none⟩ s
    | some place, .part _ _ => match Lru.lookup s.cache (rawKey place) with
      | some (v, cache) =>
        {s with cache := cacheInsert room (dev, sector) v cache, answer := some (place, v)}
      | none => depart t ⟨dev, sector, place, .read, none⟩ s

def bwrite (wordBits : Nat) (table : Table) (t : Nat) (dev : Dev) (sector : Nat) (v : α)
    (s : State α) : State α :=
  match absSector wordBits table dev sector with
  | none => {s with answer := none}
  | some place => depart t ⟨dev, sector, place, .write v, none⟩ s

def transfer (t : Nat) (flight : Flight α) (s : State α) : State α :=
  match flight.op with
  | .read =>
    depart t {flight with moved := some (s.disk flight.place, s.version flight.place)} s
  | .write v =>
    let version := s.version flight.place + 1
    let s := depart t {flight with moved := some (v, version)} s
    {s with
      disk := Function.update s.disk flight.place v
      version := Function.update s.version flight.place version}

def finish (t : Nat) (flight : Flight α) (v : α) (rawRoom room : Bool) (s : State α) : State α :=
  let s := land t s
  let cache := insertBoth rawRoom room flight.dev flight.sector flight.place v s.cache
  match flight.op with
  | .read => {s with cache := cache, answer := some (flight.place, v)}
  | .write v => {s with cache := cache, last := Function.update s.last flight.place v}

def step (wordBits : Nat) (table : Table) (s : State α) : Action α → Option (State α)
  | .bread t dev sector room => match s.tasks t with
    | none => some (bread wordBits table t dev sector room s)
    | some _ => none
  | .bwrite t dev sector v => match s.tasks t with
    | none => some (bwrite wordBits table t dev sector v s)
    | some _ => none
  | .transfer t => match s.tasks t with
    | some flight => match flight.moved with
      | none => some (transfer t flight s)
      | some _ => none
    | none => none
  | .failed t => match s.tasks t with
    | some flight => match flight.moved with
      | none => some (land t s)
      | some _ => none
    | none => none
  | .finish t rawRoom room => match s.tasks t with
    | some flight => match flight.moved with
      | some (v, _) => some (finish t flight v rawRoom room s)
      | none => none
    | none => none

def Current (s : State α) (place : Place) (v : α) : Prop :=
  v = s.last place ∨ ∃ t f, s.tasks t = some f ∧ f.place = place ∧ f.op = .write v ∧ f.moved ≠ none

/-- An operation that ends finds the version it left, and a write finds its sector
cached for no other partition device. -/
def Undisturbed (wordBits : Nat) (table : Table) (s : State α) : Action α → Prop
  | .finish t _ _ => ∀ f v n, s.tasks t = some f → f.moved = some (v, n) →
    n = s.version f.place ∧ ∀ w, f.op = .write w → ∀ e ∈ s.cache,
      absSector wordBits table e.1.1 e.1.2 = some f.place →
        e.1 = rawKey f.place ∨ e.1 = (f.dev, f.sector)
  | _ => True

structure Flying (wordBits : Nat) (table : Table) (s : State α) (f : Flight α) : Prop where
  place : absSector wordBits table f.dev f.sector = some f.place
  moved : ∀ v n, f.moved = some (v, n) →
    n ≤ s.version f.place ∧ (n = s.version f.place → v = s.disk f.place)
  written : ∀ w v n, f.op = .write w → f.moved = some (v, n) → v = w

structure Coherent (wordBits : Nat) (table : Table) (s : State α) : Prop where
  unique : Lru.Unique s.cache
  cached : ∀ e ∈ s.cache, ∃ place, absSector wordBits table e.1.1 e.1.2 = some place ∧
    Current s place e.2
  disk : ∀ place, Current s place (s.disk place)
  flying : ∀ t f, s.tasks t = some f → Flying wordBits table s f
  answered : ∀ place v, s.answer = some (place, v) → Current s place v

variable {wordBits : Nat} {table : Table} {s s' : State α} {t : Nat} {f : Flight α}
  {dev : Dev} {sector : Nat} {place : Place} {v : α}

theorem bootCoherent (disk : Place → α) : Coherent wordBits table (boot disk) where
  unique := Lru.uniqueNil
  cached := fun _ absurd' => nomatch absurd'
  disk := fun _ => Or.inl rfl
  flying := fun _ _ absurd' => nomatch absurd'
  answered := fun _ _ absurd' => nomatch absurd'

theorem rawKeyPlace (wordBits : Nat) (table : Table) (place : Place) :
    absSector wordBits table (rawKey place).1 (rawKey place).2 = some place := rfl

theorem rawPlace {disk : Nat} (at' : absSector wordBits table (.raw disk) sector = some place) :
    rawKey place = (.raw disk, sector) := by
  unfold absSector at at'
  cases at'
  rfl

theorem currentKept (last : s'.last = s.last)
    (flights : ∀ t f w, s.tasks t = some f → f.op = .write w → f.moved ≠ none →
      s'.tasks t = some f)
    (current : Current s place v) : Current s' place v := by
  rcases current with returned | ⟨t, f, flight, at', op, moved⟩
  · exact Or.inl (by rw [last]; exact returned)
  · exact Or.inr ⟨t, f, flights t f v flight op moved, at', op, moved⟩

theorem updateKept {next : Option (Flight α)}
    (unmoved : ∀ f w, s.tasks t = some f → f.op = .write w → f.moved = none) (t' : Nat)
    (f' : Flight α) (w : α) (flight : s.tasks t' = some f') (op : f'.op = .write w)
    (moved : f'.moved ≠ none) : Function.update s.tasks t next t' = some f' := by
  by_cases same : t' = t
  · cases same
    exact absurd (unmoved f' w flight op) moved
  · rw [Function.update_of_ne same]
    exact flight

def Cached (wordBits : Nat) (table : Table) (s : State α)
    (cache : List ((Dev × Nat) × α)) : Prop :=
  Lru.Unique cache ∧ ∀ e ∈ cache, ∃ place,
    absSector wordBits table e.1.1 e.1.2 = some place ∧ Current s place e.2

theorem insertCached {cache : List ((Dev × Nat) × α)} {room : Bool} {key : Dev × Nat}
    (at' : absSector wordBits table key.1 key.2 = some place) (current : Current s place v)
    (cached : Cached wordBits table s cache) :
    Cached wordBits table s (cacheInsert room key v cache) := by
  refine ⟨Lru.insertUnique cached.1 _ _ _ _, fun e member => ?_⟩
  rcases Lru.insertMem cached.1 member with rfl | ⟨old, _⟩
  · exact ⟨place, at', current⟩
  · exact cached.2 e old

theorem lookupCached {cache cache' : List ((Dev × Nat) × α)} {key : Dev × Nat}
    (cached : Cached wordBits table s cache) (hit : Lru.lookup cache key = some (v, cache')) :
    Cached wordBits table s cache' ∧
      ∃ place, absSector wordBits table key.1 key.2 = some place ∧ Current s place v := by
  obtain ⟨member, unique, same⟩ := Lru.lookupSome cached.1 hit
  exact ⟨⟨unique, fun e inside => cached.2 e ((same e).mp inside)⟩, cached.2 _ member⟩

theorem Coherent.entries (coherent : Coherent wordBits table s) :
    Cached wordBits table s s.cache := ⟨coherent.unique, coherent.cached⟩

theorem recached {cache : List ((Dev × Nat) × α)} {answer : Option (Place × α)}
    (coherent : Coherent wordBits table s) (cached : Cached wordBits table s cache)
    (answered : ∀ place v, answer = some (place, v) → Current s place v) :
    Coherent wordBits table {s with cache := cache, answer := answer} where
  unique := cached.1
  cached := cached.2
  disk := coherent.disk
  flying := fun t f flight =>
    have flying := coherent.flying t f flight
    ⟨flying.place, flying.moved, flying.written⟩
  answered := answered

theorem cachedKept (kept : ∀ place v, Current s place v → Current s' place v)
    {cache : List ((Dev × Nat) × α)} (cached : Cached wordBits table s cache) :
    Cached wordBits table s' cache := by
  refine ⟨cached.1, fun e member => ?_⟩
  obtain ⟨place, at', current⟩ := cached.2 e member
  exact ⟨place, at', kept place e.2 current⟩

theorem rescheduled {next : Option (Flight α)} (coherent : Coherent wordBits table s)
    (unmoved : ∀ f w, s.tasks t = some f → f.op = .write w → f.moved = none)
    (flying : ∀ f, next = some f → Flying wordBits table s f) :
    Coherent wordBits table {s with tasks := Function.update s.tasks t next, answer := none} := by
  have kept : ∀ place v, Current s place v → Current
      {s with tasks := Function.update s.tasks t next, answer := none} place v :=
    fun _ _ => currentKept rfl (updateKept unmoved)
  have cached := cachedKept kept coherent.entries
  refine ⟨cached.1, cached.2, fun place => kept place _ (coherent.disk place), ?_,
    fun _ _ absurd' => nomatch absurd'⟩
  intro t' f' flight
  dsimp only at flight
  by_cases same : t' = t
  · rw [same, Function.update_self] at flight
    have old := flying f' flight
    exact ⟨old.place, old.moved, old.written⟩
  · rw [Function.update_of_ne same] at flight
    have old := coherent.flying t' f' flight
    exact ⟨old.place, old.moved, old.written⟩

theorem departCoherent (free : s.tasks t = none) (op : Op α)
    (at' : absSector wordBits table dev sector = some place)
    (coherent : Coherent wordBits table s) :
    Coherent wordBits table (depart t ⟨dev, sector, place, op, none⟩ s) := by
  refine rescheduled coherent (fun f _ flight => nomatch free.symm.trans flight) fun f new => ?_
  cases new
  refine ⟨at', fun _ _ absurd' => ?_, fun _ _ _ _ absurd' => ?_⟩ <;> cases absurd'

theorem breadCoherent {room : Bool} (free : s.tasks t = none)
    (coherent : Coherent wordBits table s) :
    Coherent wordBits table (bread wordBits table t dev sector room s) := by
  unfold bread
  split <;> rename_i hit
  · obtain ⟨cached, place, at', current⟩ := lookupCached coherent.entries hit
    refine recached coherent cached fun place' v' answered => ?_
    rw [at'] at answered
    cases answered
    exact current
  · split <;> rename_i at'
    · exact recached coherent coherent.entries fun _ _ absurd' => nomatch absurd'
    · exact departCoherent free .read at' coherent
    · split <;> rename_i hit
      · obtain ⟨cached, place', at'', current⟩ := lookupCached coherent.entries hit
        cases (rawKeyPlace wordBits table _).symm.trans at''
        refine recached coherent (insertCached at' current cached) fun place' v' answered => ?_
        cases answered
        exact current
      · exact departCoherent free .read at' coherent

theorem bwriteCoherent (free : s.tasks t = none) (coherent : Coherent wordBits table s) :
    Coherent wordBits table (bwrite wordBits table t dev sector v s) := by
  unfold bwrite
  split <;> rename_i at'
  · exact recached coherent coherent.entries fun _ _ absurd' => nomatch absurd'
  · exact departCoherent free (.write v) at' coherent

theorem landCoherent (flight : s.tasks t = some f) (unmoved : f.moved = none)
    (coherent : Coherent wordBits table s) : Coherent wordBits table (land t s) := by
  refine rescheduled coherent (fun f' _ flight' _ => ?_) fun _ absurd' => nomatch absurd'
  cases flight.symm.trans flight'
  exact unmoved

theorem transferCoherent (flight : s.tasks t = some f) (unmoved : f.moved = none)
    (coherent : Coherent wordBits table s) : Coherent wordBits table (transfer t f s) := by
  have old := coherent.flying t f flight
  have before : ∀ f' w, s.tasks t = some f' → f'.op = .write w → f'.moved = none := by
    intro f' w flight' _
    cases flight.symm.trans flight'
    exact unmoved
  unfold transfer
  split <;> rename_i op
  · refine rescheduled coherent before fun f' new => ?_
    cases new
    refine ⟨old.place, fun v n moved => ?_, fun w v n op' => ?_⟩
    · cases moved
      exact ⟨Nat.le_refl _, fun _ => rfl⟩
    · dsimp only at op'
      rw [op] at op'
      cases op'
  · rename_i w
    let s' : State α := {depart t {f with moved := some (w, s.version f.place + 1)} s with
      disk := Function.update s.disk f.place w
      version := Function.update s.version f.place (s.version f.place + 1)}
    have kept : ∀ place v, Current s place v → Current s' place v := fun _ _ =>
      currentKept rfl (updateKept before)
    have written : Current s' f.place w := Or.inr
      ⟨t, _, Function.update_self .., rfl, op, fun absurd' => nomatch absurd'⟩
    have cached := cachedKept kept coherent.entries
    refine ⟨cached.1, cached.2, fun place => ?_, fun t' f' flight' => ?_,
      fun _ _ absurd' => nomatch absurd'⟩
    · by_cases same : place = f.place
      · rw [same]
        show Current s' f.place (Function.update s.disk f.place w f.place)
        rw [Function.update_self]
        exact written
      · show Current s' place (Function.update s.disk f.place w place)
        rw [Function.update_of_ne same]
        exact kept place _ (coherent.disk place)
    · dsimp only [depart] at flight'
      by_cases same : t' = t
      · rw [same, Function.update_self] at flight'
        cases flight'
        refine ⟨old.place, fun v n moved => ?_, fun w' v n op' moved => ?_⟩
        · cases moved
          dsimp only
          rw [Function.update_self, Function.update_self]
          exact ⟨Nat.le_refl _, fun _ => rfl⟩
        · cases moved
          cases op.symm.trans op'
          rfl
      · rw [Function.update_of_ne same] at flight'
        have other := coherent.flying t' f' flight'
        refine ⟨other.place, fun v n moved => ?_, other.written⟩
        obtain ⟨bound, onDisk⟩ := other.moved v n moved
        dsimp only
        by_cases here : f'.place = f.place
        · rw [here, Function.update_self]
          rw [here] at bound
          exact ⟨by omega, fun absurd' => by omega⟩
        · rw [Function.update_of_ne here, Function.update_of_ne here]
          exact ⟨bound, onDisk⟩

theorem insertBothMem {cache : List ((Dev × Nat) × α)} (rawRoom room : Bool) (v : α)
    (unique : Lru.Unique cache) (at' : absSector wordBits table dev sector = some place) :
    Lru.Unique (insertBoth rawRoom room dev sector place v cache) ∧
      ∀ e ∈ insertBoth rawRoom room dev sector place v cache,
        absSector wordBits table e.1.1 e.1.2 = some place ∧ e.2 = v ∨
        e ∈ cache ∧ e.1 ≠ rawKey place ∧ e.1 ≠ (dev, sector) := by
  have unique' : Lru.Unique (cacheInsert rawRoom (rawKey place) v cache) :=
    Lru.insertUnique unique _ _ _ _
  unfold insertBoth
  split
  · refine ⟨unique', fun e member => ?_⟩
    rcases Lru.insertMem unique member with rfl | ⟨old, away⟩
    · exact Or.inl ⟨rfl, rfl⟩
    · exact Or.inr ⟨old, away, rawPlace at' ▸ away⟩
  · refine ⟨Lru.insertUnique unique' _ _ _ _, fun e member => ?_⟩
    rcases Lru.insertMem unique' member with rfl | ⟨inner, away⟩
    · exact Or.inl ⟨at', rfl⟩
    · rcases Lru.insertMem unique inner with rfl | ⟨old, away'⟩
      · exact Or.inl ⟨rfl, rfl⟩
      · exact Or.inr ⟨old, away', away⟩

theorem landedFlying {t' : Nat} {f' : Flight α} (coherent : Coherent wordBits table s)
    (flight : (land t s).tasks t' = some f') : Flying wordBits table s f' := by
  unfold land at flight
  dsimp only at flight
  by_cases same : t' = t
  · rw [same, Function.update_self] at flight
    cases flight
  · rw [Function.update_of_ne same] at flight
    exact coherent.flying t' f' flight

theorem finishCoherent {n : Nat} {rawRoom room : Bool} (flight : s.tasks t = some f)
    (moved : f.moved = some (v, n))
    (calm : Undisturbed wordBits table s (.finish t rawRoom room))
    (coherent : Coherent wordBits table s) :
    Coherent wordBits table (finish t f v rawRoom room s) := by
  obtain ⟨version, alone⟩ := calm f v n flight moved
  have old := coherent.flying t f flight
  have onDisk : v = s.disk f.place := (old.moved v n moved).2 version
  obtain ⟨unique, members⟩ :=
    insertBothMem rawRoom room v coherent.unique old.place
  unfold finish
  split <;> rename_i op
  · -- a read: nothing but this flight ends
    let s' : State α := {land t s with
      cache := insertBoth rawRoom room f.dev f.sector f.place v s.cache
      answer := some (f.place, v)}
    have kept : ∀ place v, Current s place v → Current s' place v := fun _ _ =>
      currentKept rfl (updateKept fun f' w flight' op' => by
        cases flight.symm.trans flight'
        cases op.symm.trans op')
    have current : Current s' f.place v := kept _ _ (onDisk ▸ coherent.disk f.place)
    refine ⟨unique, fun e member => ?_, fun place => kept _ _ (coherent.disk place),
      fun t' f' flight' => ?_, fun place' v' answered => ?_⟩
    · rcases members e member with ⟨at', rfl⟩ | ⟨cached, _⟩
      · exact ⟨f.place, at', current⟩
      · obtain ⟨place, at', was⟩ := coherent.cached e cached
        exact ⟨place, at', kept _ _ was⟩
    · have other := landedFlying coherent flight'
      exact ⟨other.place, other.moved, other.written⟩
    · cases answered
      exact current
  · -- a write: its data is the last of its sector
    rename_i w
    cases old.written w v n op moved
    let s' : State α := {land t s with
      cache := insertBoth rawRoom room f.dev f.sector f.place v s.cache
      last := Function.update s.last f.place v}
    have current : Current s' f.place v := Or.inl (by
      show v = Function.update s.last f.place v f.place
      rw [Function.update_self])
    have kept : ∀ place v, place ≠ f.place → Current s place v → Current s' place v := by
      intro place v' other was
      rcases was with returned | ⟨t', f', flight', at', op', moved'⟩
      · refine Or.inl ?_
        show v' = Function.update s.last f.place v place
        rw [Function.update_of_ne other]
        exact returned
      · have apart : t' ≠ t := by
          intro same
          cases same
          cases flight.symm.trans flight'
          exact other at'.symm
        exact Or.inr ⟨t', f', (Function.update_of_ne apart ..).trans flight', at', op', moved'⟩
    refine ⟨unique, fun e member => ?_, fun place => ?_, fun t' f' flight' => ?_,
      fun _ _ absurd' => nomatch absurd'⟩
    · rcases members e member with ⟨at', rfl⟩ | ⟨cached, notRaw, notOwn⟩
      · exact ⟨f.place, at', current⟩
      · obtain ⟨place, at', was⟩ := coherent.cached e cached
        by_cases here : place = f.place
        · cases here
          rcases alone v op e cached at' with raw | own
          · exact absurd raw notRaw
          · exact absurd own notOwn
        · exact ⟨place, at', kept _ _ here was⟩
    · by_cases here : place = f.place
      · cases here
        exact onDisk ▸ current
      · exact kept _ _ here (coherent.disk place)
    · have other := landedFlying coherent flight'
      exact ⟨other.place, other.moved, other.written⟩

theorem stepCoherent (s : State α) (a : Action α) (s' : State α)
    (coherent : Coherent wordBits table s) (calm : Undisturbed wordBits table s a)
    (stepped : step wordBits table s a = some s') : Coherent wordBits table s' := by
  unfold step at stepped
  cases a with
  | bread t dev sector room =>
    dsimp only at stepped
    split at stepped <;> cases stepped
    exact breadCoherent (by assumption) coherent
  | bwrite t dev sector v =>
    dsimp only at stepped
    split at stepped <;> cases stepped
    exact bwriteCoherent (by assumption) coherent
  | transfer t =>
    dsimp only at stepped
    split at stepped
    · split at stepped <;> cases stepped
      exact transferCoherent (by assumption) (by assumption) coherent
    · cases stepped
  | failed t =>
    dsimp only at stepped
    split at stepped
    · split at stepped <;> cases stepped
      exact landCoherent (by assumption) (by assumption) coherent
    · cases stepped
  | finish t rawRoom room =>
    dsimp only at stepped
    split at stepped
    · split at stepped <;> cases stepped
      exact finishCoherent (by assumption) (by assumption) calm coherent
    · cases stepped

/-- In a run whose operations all end undisturbed, whatever a read hands back is
current: with no write of the sector on its way, the data of the last one. -/
theorem readsCurrent (wordBits : Nat) (table : Table) (disk : Place → α) (acts : List (Action α))
    (s : State α)
    (calm : Run.Meets (step wordBits table) (Undisturbed wordBits table) (boot disk) acts)
    (ran : Run.run (step wordBits table) (boot disk) acts = some s) :
    ∀ place v, s.answer = some (place, v) → Current s place v :=
  (Run.invariantMeets stepCoherent (bootCoherent disk) calm ran).answered

def onePartition : Table :=
  fun _ i => if i = 0 then ⟨true, 0x83, false, 2, 4⟩ else Mbr.noPartition

def calmActs : List (Action Nat) :=
  [.bwrite 0 (.part 0 1) 1 9, .transfer 0, .finish 0 true true, .bread 1 (.raw 0) 3 true]

theorem calmReads : ∃ s, Run.run (step 32 onePartition) (boot fun _ => 0) calmActs = some s ∧
    s.answer = some ((0, 3), 9) ∧ Current s (0, 3) 9 := by
  have calm : Run.Meets (step 32 onePartition) (Undisturbed 32 onePartition) (boot fun _ => 0)
      calmActs := by
    refine ⟨trivial, fun s one => ⟨trivial, fun s two => ⟨?_, fun s three => ⟨trivial,
      fun _ _ => trivial⟩⟩⟩⟩
    cases one
    cases two
    intro f v n flight moved
    cases flight
    cases moved
    exact ⟨rfl, fun w op e absurd' => nomatch absurd'⟩
  obtain ⟨s, ran, answer⟩ : ∃ s, Run.run (step 32 onePartition) (boot fun _ => 0) calmActs = some s ∧
      s.answer = some ((0, 3), 9) := ⟨_, rfl, rfl⟩
  exact ⟨s, ran, answer, readsCurrent 32 onePartition _ calmActs s calm ran _ _ answer⟩

def aliasActs : List (Action Nat) :=
  [.bread 0 (.part 0 1) 1 true, .transfer 0, .finish 0 true true,
    .bwrite 0 (.raw 0) 3 9, .transfer 0, .finish 0 true true, .bread 0 (.part 0 1) 1 true]

def raceActs : List (Action Nat) :=
  [.bread 0 (.raw 0) 3 true, .transfer 0, .bwrite 1 (.raw 0) 3 9, .transfer 1,
    .finish 1 true true, .finish 0 true true, .bread 1 (.raw 0) 3 true]

def Stale (acts : List (Action Nat)) : Prop :=
  ∃ s, Run.run (step 32 onePartition) (boot fun _ => 0) acts = some s ∧
    s.answer = some ((0, 3), 0) ∧ s.last (0, 3) = 9 ∧ ¬ Current s (0, 3) 0

theorem staleIdle {s : State Nat} {sector v : Nat} (idle : ∀ t, s.tasks t = none)
    (differs : s.last (0, sector) ≠ v) : ¬ Current s (0, sector) v := by
  rintro (returned | ⟨t, f, flight, _⟩)
  · exact differs returned.symm
  · rw [idle t] at flight
    cases flight

theorem staleReads : Stale aliasActs ∧ Stale raceActs :=
  ⟨⟨_, rfl, rfl, rfl, staleIdle (fun t => by rcases t with _ | t <;> rfl) (by decide)⟩,
    ⟨_, rfl, rfl, rfl, staleIdle (fun t => by rcases t with _ | _ | t <;> rfl) (by decide)⟩⟩

end Scepter.Coherence
