import Scepter.Driver.Coherence
import Scepter.Lib.Lru
import Mathlib.Data.List.Pairwise
import Mathlib.Data.List.Perm.Subperm

/-! The sector cache by itself (driver/block/cache.c with the write half of block.c), dirty
blocks included: eviction, flush and invalidation write a dirty block back with bwrite,
which inserts into the cache again, for a block of a partition also the sector of the
disk behind it. `fuel` bounds how deep evictions nest. `stamp` is when a key was last
used, `log` what the disks have taken; the code has neither. -/
namespace Scepter.BlockCache
open Mbr (Dev Table CACHE_MAX_ENTRIES)
open Coherence (Place absSector rawKey)

abbrev Key := Dev × Nat

structure Block (α : Type) where
  data : α
  dirty : Bool

structure State (α : Type) where
  list : List (Key × Block α)
  num : Nat
  disk : Place → α
  log : List (Place × α)
  stamp : Key → Nat
  clock : Nat
  -- how the coming disk writes and allocations end
  goes : Nat → Bool
  room : Nat → Bool

variable {α : Type}

def boot (disk : Place → α) (goes room : Nat → Bool) : State α :=
  ⟨[], 0, disk, [], fun _ => 0, 0, goes, room⟩

def front (key : Key) (block : Block α) (s : State α) : State α :=
  {s with
    list := (key, block) :: Lru.remove key s.list
    stamp := Function.update s.stamp key s.clock
    clock := s.clock + 1}

def diskWrite (place : Place) (v : α) (s : State α) : Bool × State α :=
  let next := {s with goes := fun i => s.goes (i + 1)}
  if s.goes 0 then
    (true, {next with disk := Function.update s.disk place v, log := (place, v) :: s.log})
  else (false, next)

section block
variable (at' : Dev → Nat → Option Place) (insert : Key → α → State α → Option (State α × Int))

def bwriteRaw (place : Place) (v : α) (s : State α) : Option (Bool × State α) :=
  let wrote := diskWrite place v s
  if !wrote.1 then some (false, wrote.2)
  else (insert (rawKey place) v wrote.2).map fun inserted => (true, inserted.1)

def bwrite (key : Key) (v : α) (s : State α) : Option (Bool × State α) :=
  match key.1, at' key.1 key.2 with
  | _, none => some (false, s)
  | .raw _, some place => bwriteRaw insert place v s
  | .part .., some place => (bwriteRaw insert place v s).bind fun wrote =>
    if !wrote.1 then some (false, wrote.2)
    else (insert key v wrote.2).map fun inserted => (true, inserted.1)

def clean (key : Key) (s : State α) : State α :=
  {s with list := s.list.map fun e => if e.1 = key then (e.1, {e.2 with dirty := false}) else e}

def writeback (e : Key × Block α) (s : State α) : Option (Bool × State α) :=
  if !e.2.dirty then some (true, s)
  else (bwrite at' insert e.1 e.2.data s).map fun wrote =>
    if wrote.1 then (true, clean e.1 wrote.2) else (false, wrote.2)

def drop (key : Key) (s : State α) : State α :=
  {s with list := Lru.remove key s.list, num := s.num - 1}

def evictLru (s : State α) : Option (State α × Int) :=
  match s.list.getLast? with
  | none => some (s, -1)
  | some victim => (writeback at' insert victim s).map fun wrote => (drop victim.1 wrote.2, 0)

end block

def cacheInsert (at' : Dev → Nat → Option Place) : Nat → Key → α → State α → Option (State α × Int)
  | 0, _, _, _ => none
  | fuel + 1, key, v, s =>
    match Lru.find key s.list with
    | some e => some (front key {e.2 with data := v} s, 0)
    | none =>
      let evicted := if s.num ≥ CACHE_MAX_ENTRIES then evictLru at' (cacheInsert at' fuel) s
        else some (s, 0)
      evicted.map fun made =>
        let s := {made.1 with room := fun i => made.1.room (i + 1)}
        if made.2 < 0 then (made.1, -1)
        else if !made.1.room 0 then (s, -1)
        else ({front key ⟨v, false⟩ s with num := s.num + 1}, 0)

def cacheLookup (key : Key) (s : State α) : State α :=
  match Lru.find key s.list with
  | some e => front key e.2 s
  | none => s

def cacheMarkDirty (key : Key) (s : State α) : State α :=
  match Lru.find key s.list with
  | some e => front key {e.2 with dirty := true} s
  | none => s

def flushLoop (at' : Dev → Nat → Option Place)
    (insert : Key → α → State α → Option (State α × Int)) :
    Nat → Nat → State α → Option (State α)
  | 0, _, _ => none
  | steps + 1, i, s =>
    match s.list[i]? with
    | none => some s
    | some e => (writeback at' insert e s).bind fun wrote =>
      flushLoop at' insert steps ((wrote.2.list.findIdx fun e' => e'.1 = e.1) + 1) wrote.2

def cacheInvalidate (at' : Dev → Nat → Option Place)
    (insert : Key → α → State α → Option (State α × Int)) (key : Key) (s : State α) :
    Option (State α) :=
  match Lru.find key s.list with
  | none => some s
  | some e => (writeback at' insert e s).map fun wrote => drop key wrote.2

inductive Action (α : Type) where
  | lookup (key : Key)
  | insert (key : Key) (v : α)
  | markDirty (key : Key)
  | evict
  | flush (steps : Nat)
  | invalidate (key : Key)

def step (at' : Dev → Nat → Option Place) (fuel : Nat) (s : State α) : Action α → Option (State α)
  | .lookup key => some (cacheLookup key s)
  | .insert key v => (cacheInsert at' fuel key v s).map Prod.fst
  | .markDirty key => some (cacheMarkDirty key s)
  | .evict => (evictLru at' (cacheInsert at' fuel) s).map Prod.fst
  | .flush steps => flushLoop at' (cacheInsert at' fuel) steps 0 s
  | .invalidate key => cacheInvalidate at' (cacheInsert at' fuel) key s

/-! ## What is kept -/

structure Sound (s : State α) : Prop where
  unique : Lru.Unique s.list
  count : s.num = s.list.length
  most : s.list.length ≤ CACHE_MAX_ENTRIES
  recent : s.list.Pairwise fun a b => s.stamp b.1 < s.stamp a.1
  past : ∀ e ∈ s.list, s.stamp e.1 < s.clock

def Logged (at' : Dev → Nat → Option Place) (s : State α) (key : Key) (v : α) : Prop :=
  ∃ place, at' key.1 key.2 = some place ∧ (place, v) ∈ s.log

/-- What a call does with the entries: a dirty block stays dirty or is written, and what goes
without being asked for is the block used least recently. -/
structure Keeps (at' : Dev → Nat → Option Place) (s : State α) (a : Action α) (s' : State α) :
    Prop where
  dirty : ∀ e ∈ s.list, e.2.dirty = true →
    (∃ e' ∈ s'.list, e'.1 = e.1 ∧ e'.2.dirty = true) ∨ Logged at' s' e.1 e.2.data
  least : ∀ e ∈ s.list, (∀ e' ∈ s'.list, e'.1 ≠ e.1) →
    a = .invalidate e.1 ∨ ∀ other ∈ s.list, s.stamp e.1 ≤ s.stamp other.1

/-- The write-back of the block needs no new entry: it is of a disk, or of a partition whose
sector of the disk is cached and clean. -/
def Calm (at' : Dev → Nat → Option Place) (s : State α) (e : Key × Block α) : Prop :=
  e.2.dirty = true → ∀ place, at' e.1.1 e.1.2 = some place → e.1 ≠ rawKey place →
    ∃ r ∈ s.list, r.1 = rawKey place ∧ r.2.dirty = false

def Takes (at' : Dev → Nat → Option Place) (s : State α) (e : Key × Block α) : Prop :=
  e.2.dirty = true → at' e.1.1 e.1.2 ≠ none ∧ s.goes 0 = true

def Unharmed (at' : Dev → Nat → Option Place) (s : State α) : Action α → Prop
  | .lookup _ | .markDirty _ => True
  | .insert key _ => Lru.find key s.list = none → CACHE_MAX_ENTRIES ≤ s.num →
    ∀ e ∈ s.list.getLast?, Calm at' s e ∧ Takes at' s e
  | .evict => ∀ e ∈ s.list.getLast?, Calm at' s e ∧ Takes at' s e
  | .flush _ => ∀ e ∈ s.list, Calm at' s e
  | .invalidate key => ∀ e ∈ Lru.find key s.list, Calm at' s e ∧ Takes at' s e

section moves
variable {at' : Dev → Nat → Option Place} {s s' s'' : State α} {key : Key} {e : Key × Block α}
  {block : Block α} {v : α} {fuel : Nat}

theorem findMem (unique : Lru.Unique s.list) (member : e ∈ s.list) :
    Lru.find e.1 s.list = some e := by
  cases found : Lru.find e.1 s.list with
  | none => exact absurd (List.find?_eq_none.mp found e member) (by simp)
  | some e' =>
    obtain ⟨member', same⟩ := Lru.findSome found
    rw [List.inj_on_of_nodup_map unique member' member same]

theorem removeLength (member : ∃ e ∈ s.list, e.1 = key) :
    (Lru.remove key s.list).length + 1 = s.list.length := by
  obtain ⟨e, member, rfl⟩ := member
  have shorter := List.length_eraseP_of_mem (p := fun e' => decide (e'.1 = e.1)) member (by simp)
  have filled := List.length_pos_of_mem member
  unfold Lru.remove
  omega

theorem dropSound (sound : Sound s) (member : ∃ e ∈ s.list, e.1 = key) : Sound (drop key s) := by
  have length := removeLength member
  have fewer : (Lru.remove key s.list).Sublist s.list := List.eraseP_sublist
  refine ⟨Lru.removeUnique sound.unique key, ?_, ?_, sound.recent.sublist fewer,
    fun e inside => sound.past e (fewer.subset inside)⟩
  · change s.num - 1 = (Lru.remove key s.list).length
    have count := sound.count
    omega
  · have most := sound.most
    change (Lru.remove key s.list).length ≤ _
    omega

theorem frontOrder (sound : Sound s) (key : Key) (block : Block α) :
    (front key block s).list.Pairwise (fun a b =>
      (front key block s).stamp b.1 < (front key block s).stamp a.1) ∧
    ∀ e ∈ (front key block s).list, (front key block s).stamp e.1 < (front key block s).clock := by
  have kept : ∀ e ∈ Lru.remove key s.list, Function.update s.stamp key s.clock e.1 = s.stamp e.1 :=
    fun e inside => Function.update_of_ne ((Lru.removeMem sound.unique).mp inside).2 ..
  have own : Function.update s.stamp key s.clock key = s.clock := Function.update_self ..
  have older : ∀ e ∈ Lru.remove key s.list, s.stamp e.1 < s.clock := fun e inside =>
    sound.past e ((Lru.removeMem sound.unique).mp inside).1
  have fewer : (Lru.remove key s.list).Sublist s.list := List.eraseP_sublist
  constructor
  · refine List.pairwise_cons.mpr ⟨fun e inside => ?_, ?_⟩
    · change Function.update s.stamp key s.clock e.1 < Function.update s.stamp key s.clock key
      rw [kept e inside, own]
      exact older e inside
    · refine (sound.recent.sublist fewer).imp_of_mem fun {a b} first second less => ?_
      change Function.update s.stamp key s.clock b.1 < Function.update s.stamp key s.clock a.1
      rw [kept a first, kept b second]
      exact less
  · intro e inside
    change Function.update s.stamp key s.clock e.1 < s.clock + 1
    rcases List.mem_cons.mp inside with rfl | behind
    · rw [own]
      exact Nat.lt_succ_self _
    · rw [kept e behind]
      exact Nat.lt_succ_of_lt (older e behind)

theorem frontSound (sound : Sound s) (member : ∃ e ∈ s.list, e.1 = key) (block : Block α) :
    Sound (front key block s) := by
  have length := removeLength member
  obtain ⟨recent, past⟩ := frontOrder sound key block
  refine ⟨Lru.frontUnique sound.unique key block, ?_, ?_, recent, past⟩
  · change s.num = (Lru.remove key s.list).length + 1
    rw [length]
    exact sound.count
  · change (Lru.remove key s.list).length + 1 ≤ _
    rw [length]
    exact sound.most

theorem pushSound (sound : Sound s) (absent : Lru.find key s.list = none)
    (space : s.list.length < CACHE_MAX_ENTRIES) (block : Block α) :
    Sound {front key block s with num := s.num + 1} := by
  obtain ⟨recent, past⟩ := frontOrder sound key block
  have same : Lru.remove key s.list = s.list :=
    List.eraseP_of_forall_not fun e member => List.find?_eq_none.mp absent e member
  refine ⟨Lru.frontUnique sound.unique key block, ?_, ?_, recent, past⟩
  · change s.num + 1 = (Lru.remove key s.list).length + 1
    rw [same, sound.count]
  · change (Lru.remove key s.list).length + 1 ≤ _
    rw [same]
    exact space

theorem cleanSound (sound : Sound s) (key : Key) : Sound (clean key s) := by
  have keys : (clean key s).list.map Prod.fst = s.list.map Prod.fst := by
    change (s.list.map _).map Prod.fst = _
    rw [List.map_map]
    refine List.map_congr_left fun e _ => ?_
    dsimp only [Function.comp]
    split <;> rfl
  have length : (clean key s).list.length = s.list.length := List.length_map ..
  have same (e : Key × Block α) :
      (if e.1 = key then (e.1, {e.2 with dirty := false}) else e).1 = e.1 := by
    split <;> rfl
  refine ⟨?_, sound.count.trans length.symm, Nat.le_trans (Nat.le_of_eq length) sound.most,
    ?_, fun e inside => ?_⟩
  · unfold Lru.Unique
    rw [keys]
    exact sound.unique
  · refine List.pairwise_map.mpr (sound.recent.imp fun {a b} less => ?_)
    rw [same a, same b]
    exact less
  · obtain ⟨e', member, rfl⟩ := List.mem_map.mp inside
    rw [same e']
    exact sound.past e' member

structure Moved (at' : Dev → Nat → Option Place) (s s' : State α) : Prop where
  sound : Sound s'
  keys : ∀ k, (∃ e ∈ s'.list, e.1 = k) ↔ ∃ e ∈ s.list, e.1 = k
  log : s.log ⊆ s'.log
  dirty : ∀ e ∈ s.list, e.2.dirty = true →
    (∃ e' ∈ s'.list, e'.1 = e.1 ∧ e'.2.dirty = true ∧ e'.2.data = e.2.data) ∨
      Logged at' s' e.1 e.2.data
  fresh : ∀ e' ∈ s'.list, e'.2.dirty = true → ∃ e ∈ s.list, e.1 = e'.1 ∧ e.2.dirty = true

theorem Logged.kept (logged : Logged at' s key v) (log : s.log ⊆ s'.log) : Logged at' s' key v := by
  obtain ⟨place, here, member⟩ := logged
  exact ⟨place, here, log member⟩

theorem movedRefl (sound : Sound s) : Moved at' s s :=
  ⟨sound, fun _ => Iff.rfl, List.Subset.refl _,
    fun e member dirty => .inl ⟨e, member, rfl, dirty, rfl⟩,
    fun e member dirty => ⟨e, member, rfl, dirty⟩⟩

theorem Moved.trans (one : Moved at' s s') (two : Moved at' s' s'') : Moved at' s s'' := by
  refine ⟨two.sound, fun k => (two.keys k).trans (one.keys k), List.Subset.trans one.log two.log,
    fun e member dirty => ?_, fun e'' member dirty => ?_⟩
  · rcases one.dirty e member dirty with ⟨e', member', key', dirty', data'⟩ | logged
    · rw [← key', ← data']
      exact two.dirty e' member' dirty'
    · exact .inr (logged.kept two.log)
  · obtain ⟨e', member', key', dirty'⟩ := two.fresh e'' member dirty
    obtain ⟨e, inside, key, was⟩ := one.fresh e' member' dirty'
    exact ⟨e, inside, key.trans key', was⟩

theorem frontMoved (at' : Dev → Nat → Option Place) (sound : Sound s) (member : e ∈ s.list)
    (block : Block α) (flag : block.dirty = e.2.dirty)
    (data : e.2.dirty = true → block.data = e.2.data) :
    Moved at' s (front e.1 block s) := by
  have other {e' : Key × Block α} (inside : e' ∈ s.list) (differ : e'.1 ≠ e.1) :
      e' ∈ (front e.1 block s).list :=
    List.mem_cons_of_mem _ ((Lru.removeMem sound.unique).mpr ⟨inside, differ⟩)
  refine ⟨frontSound sound ⟨e, member, rfl⟩ block, fun k => ⟨?_, ?_⟩, List.Subset.refl _,
    fun e' inside dirty => .inl ?_, fun e' inside dirty => ?_⟩
  · rintro ⟨e', inside, rfl⟩
    rcases List.mem_cons.mp inside with rfl | behind
    · exact ⟨e, member, rfl⟩
    · exact ⟨e', ((Lru.removeMem sound.unique).mp behind).1, rfl⟩
  · rintro ⟨e', inside, rfl⟩
    by_cases same : e'.1 = e.1
    · exact ⟨(e.1, block), List.mem_cons_self, same.symm⟩
    · exact ⟨e', other inside same, rfl⟩
  · by_cases same : e'.1 = e.1
    · have equal := List.inj_on_of_nodup_map sound.unique inside member same
      rw [equal] at dirty ⊢
      exact ⟨(e.1, block), List.mem_cons_self, rfl, flag.trans dirty, data dirty⟩
    · exact ⟨e', other inside same, rfl, dirty, rfl⟩
  · rcases List.mem_cons.mp inside with rfl | behind
    · exact ⟨e, member, rfl, flag.symm.trans dirty⟩
    · exact ⟨e', ((Lru.removeMem sound.unique).mp behind).1, rfl, dirty⟩

theorem diskWriteMoved (sound : Sound s) (place : Place) (v : α) :
    Moved at' s (diskWrite place v s).2 ∧ (diskWrite place v s).2.list = s.list ∧
      ((diskWrite place v s).1 = true → (place, v) ∈ (diskWrite place v s).2.log) ∧
      (diskWrite place v s).1 = s.goes 0 := by
  unfold diskWrite
  dsimp only
  split <;> rename_i goes
  · refine ⟨⟨⟨sound.unique, sound.count, sound.most, sound.recent, sound.past⟩, fun _ => Iff.rfl,
      List.subset_cons_self _ _, fun e member dirty => .inl ⟨e, member, rfl, dirty, rfl⟩,
      fun e member dirty => ⟨e, member, rfl, dirty⟩⟩, rfl, fun _ => List.mem_cons_self, goes.symm⟩
  · refine ⟨⟨⟨sound.unique, sound.count, sound.most, sound.recent, sound.past⟩, fun _ => Iff.rfl,
      List.Subset.refl _, fun e member dirty => .inl ⟨e, member, rfl, dirty, rfl⟩,
      fun e member dirty => ⟨e, member, rfl, dirty⟩⟩, rfl, nofun,
      (Bool.eq_false_iff.mpr goes).symm⟩

theorem cleanMoved (at' : Dev → Nat → Option Place) (sound : Sound s) (member : e ∈ s.list)
    (logged : Logged at' s e.1 e.2.data) :
    Moved at' s (clean e.1 s) := by
  refine ⟨cleanSound sound e.1, fun k => ⟨?_, ?_⟩, List.Subset.refl _, fun e' inside dirty => ?_,
    fun e' inside dirty => ?_⟩
  · rintro ⟨e', inside, rfl⟩
    obtain ⟨e'', member', rfl⟩ := List.mem_map.mp inside
    refine ⟨e'', member', ?_⟩
    split <;> rfl
  · rintro ⟨e', inside, rfl⟩
    refine ⟨_, List.mem_map_of_mem inside, ?_⟩
    split <;> rfl
  · by_cases same : e'.1 = e.1
    · rw [List.inj_on_of_nodup_map sound.unique inside member same]
      exact .inr logged
    · refine .inl ⟨e', List.mem_map.mpr ⟨e', inside, if_neg same⟩, rfl, dirty, rfl⟩
  · obtain ⟨e'', member', rfl⟩ := List.mem_map.mp inside
    split at dirty <;> rename_i same
    · cases dirty
    · rw [if_neg same]
      exact ⟨e'', member', rfl, dirty⟩

end moves

section calls
variable {at' : Dev → Nat → Option Place} {s s' : State α} {key : Key} {e : Key × Block α}
  {v : α} {fuel : Nat}

theorem insertCached (at' : Dev → Nat → Option Place) (member : e ∈ s.list)
    (unique : Lru.Unique s.list) (fuel : Nat) (v : α) :
    cacheInsert at' (fuel + 1) e.1 v s = some (front e.1 {e.2 with data := v} s, 0) := by
  rw [cacheInsert, findMem unique member]

theorem bwriteRawCached (at' : Dev → Nat → Option Place) (sound : Sound s) {place : Place}
    (member : e ∈ s.list) (key : e.1 = rawKey place) (v : α) (fuel : Nat)
    (data : e.2.dirty = true → v = e.2.data) :
    ∃ s', bwriteRaw (cacheInsert at' (fuel + 1)) place v s = some (s.goes 0, s') ∧ Moved at' s s' ∧
      (s.goes 0 = true → (place, v) ∈ s'.log ∧ ∃ e' ∈ s'.list, e'.1 = e.1 ∧ e'.2.data = v) ∧
      (s.goes 0 = false → s'.list = s.list) ∧ ∀ x ∈ s.list, x.1 ≠ e.1 → x ∈ s'.list := by
  obtain ⟨moved, list, logs, goes⟩ := @diskWriteMoved _ at' _ sound place v
  unfold bwriteRaw
  dsimp only
  rw [goes] at logs ⊢
  cases taken : s.goes 0 with
  | false => exact ⟨_, rfl, moved, nofun, fun _ => list, fun x inside _ => list.symm ▸ inside⟩
  | true =>
    have inside : e ∈ (diskWrite place v s).2.list := list.symm ▸ member
    have refreshed := frontMoved at' moved.sound inside {e.2 with data := v} rfl data
    refine ⟨front e.1 {e.2 with data := v} (diskWrite place v s).2, ?_, moved.trans refreshed,
      fun _ => ⟨logs taken, _, List.mem_cons_self, rfl, rfl⟩, nofun, fun x other differ => ?_⟩
    · rw [← key, insertCached at' inside moved.sound.unique]
      rfl
    · exact List.mem_cons_of_mem _
        ((Lru.removeMem moved.sound.unique).mpr ⟨list.symm ▸ other, differ⟩)

theorem bwriteSpec (rawAt : ∀ disk sector, at' (.raw disk) sector = some (disk, sector))
    (sound : Sound s) (member : e ∈ s.list) (dirty : e.2.dirty = true) (calm : Calm at' s e)
    (fuel : Nat) :
    ∃ ok s', bwrite at' (cacheInsert at' (fuel + 1)) e.1 e.2.data s = some (ok, s') ∧
      Moved at' s s' ∧
      (ok = true → Logged at' s' e.1 e.2.data ∧ ∃ e' ∈ s'.list, e'.1 = e.1 ∧ e'.2.data = e.2.data) ∧
      (ok = false → s'.list = s.list) ∧ (Takes at' s e → ok = true) := by
  obtain ⟨⟨dev, sector⟩, block⟩ := e
  cases placed : at' dev sector with
  | none =>
    refine ⟨false, s, ?_, movedRefl sound, nofun, fun _ => rfl, fun takes =>
      absurd placed (takes dirty).1⟩
    unfold bwrite
    dsimp only
    rw [placed]
  | some place =>
    by_cases raw : (dev, sector) = rawKey place
    · -- the disk's own sector
      obtain ⟨s', done, moved, logs, list, _⟩ :=
        bwriteRawCached at' sound member raw block.data fuel fun _ => rfl
      refine ⟨s.goes 0, s', ?_, moved, fun ok => ⟨⟨place, placed, (logs ok).1⟩, (logs ok).2⟩, list,
        fun takes => (takes dirty).2⟩
      unfold bwrite
      dsimp only
      rw [placed]
      cases raw
      exact done
    · -- the disk's entry is refreshed first, then the partition's own
      obtain ⟨r, inside, key, clean'⟩ := calm dirty place placed raw
      obtain ⟨s₁, done, moved, logs, list, others⟩ := bwriteRawCached at' sound inside key
        block.data fuel fun dirty' => Bool.noConfusion (clean'.symm.trans dirty')
      have still : ((dev, sector), block) ∈ s₁.list :=
        others _ member fun same => raw (same.trans key)
      have written : bwrite at' (cacheInsert at' (fuel + 1)) (dev, sector) block.data s =
          if s.goes 0 then some (true, front (dev, sector) block s₁) else some (false, s₁) := by
        cases dev with
        | raw disk =>
          have here := (rawAt disk sector).symm.trans placed
          cases here
          exact absurd rfl raw
        | part disk scnd =>
          unfold bwrite
          dsimp only
          rw [placed]
          dsimp only
          rw [done, Option.bind_some]
          cases s.goes 0 with
          | false => rfl
          | true =>
            have put := insertCached at' still moved.sound.unique fuel block.data
            dsimp only at put
            rw [Bool.not_true, if_neg Bool.false_ne_true, put]
            rfl
      have again := frontMoved at' moved.sound still block rfl fun _ => rfl
      cases goes : s.goes 0 with
      | false =>
        rw [goes, if_neg Bool.false_ne_true] at written
        exact ⟨false, s₁, written, moved, nofun, fun _ => list goes, fun takes =>
          goes.symm.trans (takes dirty).2⟩
      | true =>
        rw [goes, if_pos rfl] at written
        exact ⟨true, _, written, moved.trans again, fun _ => ⟨⟨place, placed, (logs goes).1⟩,
          _, List.mem_cons_self, rfl, rfl⟩, nofun, fun _ => rfl⟩

/-- The outcome of a write-back that needs no new entry: entries are moved only, and the block
is on its disk or was refused. -/
structure WroteBack (at' : Dev → Nat → Option Place) (s : State α) (e : Key × Block α) (ok : Bool)
    (s' : State α) : Prop where
  moved : Moved at' s s'
  done : ok = true → e.2.dirty = true → Logged at' s' e.1 e.2.data ∧
    ∀ e' ∈ s'.list, e'.1 = e.1 → e'.2.dirty = false
  still : e.2.dirty = false ∨ ok = false → s'.list = s.list
  takes : Takes at' s e → ok = true

theorem writebackSpec (rawAt : ∀ disk sector, at' (.raw disk) sector = some (disk, sector))
    (sound : Sound s) (member : e ∈ s.list) (calm : Calm at' s e) (fuel : Nat) :
    ∃ ok s', writeback at' (cacheInsert at' (fuel + 1)) e s = some (ok, s') ∧
      WroteBack at' s e ok s' := by
  unfold writeback
  cases dirty : e.2.dirty with
  | false =>
    refine ⟨true, s, rfl, movedRefl sound, fun _ absurd' => ?_, fun _ => rfl, fun _ => rfl⟩
    cases dirty.symm.trans absurd'
  | true =>
    obtain ⟨ok, s', done, moved, logs, list, takes⟩ := bwriteSpec rawAt sound member dirty calm fuel
    rw [done]
    cases ok with
    | false =>
      exact ⟨false, s', rfl, moved, nofun, fun _ => list rfl, takes⟩
    | true =>
      obtain ⟨logged, e', inside, key, data⟩ := logs rfl
      have cleaned := cleanMoved at' moved.sound inside (key.symm ▸ data.symm ▸ logged)
      rw [key] at cleaned
      refine ⟨true, clean e.1 s', rfl, moved.trans cleaned, fun _ _ => ⟨logged, ?_⟩, ?_,
        fun _ => rfl⟩
      · intro e'' member'' same
        obtain ⟨old, _, rfl⟩ := List.mem_map.mp member''
        by_cases hit : old.1 = e.1
        · rw [if_pos hit]
        · rw [if_neg hit] at same
          exact absurd same hit
      · rintro (absurd' | absurd')
        · cases dirty.symm.trans absurd'
        · cases absurd'

theorem lastLeast (sound : Sound s) (last : s.list.getLast? = some e) :
    e ∈ s.list ∧ ∀ other ∈ s.list, s.stamp e.1 ≤ s.stamp other.1 := by
  obtain ⟨before, split⟩ := List.getLast?_eq_some_iff.mp last
  have recent := sound.recent
  rw [split] at recent ⊢
  refine ⟨List.mem_append_right _ List.mem_cons_self, fun other inside => ?_⟩
  rcases List.mem_append.mp inside with ahead | own
  · exact Nat.le_of_lt ((List.pairwise_append.mp recent).2.2 other ahead e List.mem_cons_self)
  · exact Nat.le_of_eq (by rw [List.mem_singleton.mp own])

theorem WroteBack.dropped {ok : Bool} (wrote : WroteBack at' s e ok s') (member : e ∈ s.list)
    (unique : Lru.Unique s.list) (takes : Takes at' s e) :
    Sound (drop e.1 s') ∧ (drop e.1 s').num + 1 = s'.num ∧
      (∀ x ∈ s.list, x.2.dirty = true →
        (∃ x' ∈ (drop e.1 s').list, x'.1 = x.1 ∧ x'.2.dirty = true) ∨
          Logged at' (drop e.1 s') x.1 x.2.data) ∧
      ∀ k, (∃ x ∈ (drop e.1 s').list, x.1 = k) ↔ k ≠ e.1 ∧ ∃ x ∈ s.list, x.1 = k := by
  have there := (wrote.moved.keys e.1).mpr ⟨e, member, rfl⟩
  have sound' := wrote.moved.sound
  refine ⟨dropSound sound' there, ?_, fun x inside dirty => ?_, fun k => ?_⟩
  · have filled : 0 < s'.list.length := List.length_pos_of_mem there.choose_spec.1
    have count := sound'.count
    change s'.num - 1 + 1 = s'.num
    omega
  · by_cases own : x = e
    · subst own
      exact .inr (wrote.done (wrote.takes takes) dirty).1
    · rcases wrote.moved.dirty x inside dirty with ⟨x', inside', key', dirty', _⟩ | logged
      · refine .inl ⟨x', (Lru.removeMem sound'.unique).mpr ⟨inside', fun same => own ?_⟩, key',
          dirty'⟩
        exact List.inj_on_of_nodup_map unique inside member (key'.symm.trans same)
      · exact .inr logged
  · rw [← wrote.moved.keys k]
    constructor
    · rintro ⟨x, inside, rfl⟩
      obtain ⟨old, differ⟩ := (Lru.removeMem sound'.unique).mp inside
      exact ⟨differ, x, old, rfl⟩
    · rintro ⟨differ, x, old, rfl⟩
      exact ⟨x, (Lru.removeMem sound'.unique).mpr ⟨old, differ⟩, rfl⟩

theorem evictSpec (rawAt : ∀ disk sector, at' (.raw disk) sector = some (disk, sector))
    (sound : Sound s) (unharmed : Unharmed at' s .evict) (fuel : Nat) :
    ∃ s' n, evictLru at' (cacheInsert at' (fuel + 1)) s = some (s', n) ∧ Sound s' ∧
      Keeps at' s .evict s' ∧ (∀ x ∈ s'.list, ∃ x' ∈ s.list, x'.1 = x.1) ∧
      (n < 0 → s'.list = s.list) ∧ (0 ≤ n → s'.list.length + 1 ≤ CACHE_MAX_ENTRIES) := by
  unfold evictLru
  cases last : s.list.getLast? with
  | none =>
    exact ⟨s, -1, rfl, sound, ⟨fun x inside dirty => .inl ⟨x, inside, rfl, dirty⟩,
      fun x inside gone => absurd rfl (gone x inside)⟩, fun x inside => ⟨x, inside, rfl⟩,
      fun _ => rfl, fun absurd' => absurd absurd' (by decide)⟩
  | some victim =>
    obtain ⟨member, least⟩ := lastLeast sound last
    obtain ⟨calm, takes⟩ := unharmed victim last
    obtain ⟨ok, s₁, done, wrote⟩ := writebackSpec rawAt sound member calm fuel
    obtain ⟨sound', fewer, dirty, keys⟩ := wrote.dropped member sound.unique takes
    refine ⟨drop victim.1 s₁, 0, by dsimp only; rw [done]; rfl, sound',
      ⟨dirty, fun x inside gone => .inr ?_⟩, fun x inside => ((keys x.1).mp ⟨x, inside, rfl⟩).2,
      fun absurd' => absurd absurd' (by decide), fun _ => ?_⟩
    · by_cases own : x.1 = victim.1
      · rw [own]
        exact least
      · obtain ⟨x', inside', same⟩ := (keys x.1).mpr ⟨own, x, inside, rfl⟩
        exact absurd same (gone x' inside')
    · rw [← sound'.count, fewer, wrote.moved.sound.count]
      exact wrote.moved.sound.most

theorem Moved.keeps (moved : Moved at' s s') (a : Action α) : Keeps at' s a s' := by
  refine ⟨fun x inside dirty => ?_, fun x inside gone => ?_⟩
  · rcases moved.dirty x inside dirty with ⟨x', inside', key', dirty', _⟩ | logged
    · exact .inl ⟨x', inside', key', dirty'⟩
    · exact .inr logged
  · obtain ⟨x', inside', same⟩ := (moved.keys x.1).mpr ⟨x, inside, rfl⟩
    exact absurd same (gone x' inside')

theorem frontKeeps (at' : Dev → Nat → Option Place) (sound : Sound s) (member : e ∈ s.list)
    (block : Block α) (flag : e.2.dirty = true → block.dirty = true) (a : Action α) :
    Sound (front e.1 block s) ∧ Keeps at' s a (front e.1 block s) := by
  have stays (x : Key × Block α) (inside : x ∈ s.list) : ∃ x' ∈ (front e.1 block s).list,
      x'.1 = x.1 ∧ (x.2.dirty = true → x'.2.dirty = true) := by
    by_cases own : x.1 = e.1
    · rw [List.inj_on_of_nodup_map sound.unique inside member own]
      exact ⟨_, List.mem_cons_self, rfl, flag⟩
    · exact ⟨x, List.mem_cons_of_mem _ ((Lru.removeMem sound.unique).mpr ⟨inside, own⟩), rfl, id⟩
  refine ⟨frontSound sound ⟨e, member, rfl⟩ block, fun x inside dirty => .inl ?_,
    fun x inside gone => ?_⟩
  · obtain ⟨x', inside', same, keeps⟩ := stays x inside
    exact ⟨x', inside', same, keeps dirty⟩
  · obtain ⟨x', inside', same, _⟩ := stays x inside
    exact absurd same (gone x' inside')

theorem insertSpec (rawAt : ∀ disk sector, at' (.raw disk) sector = some (disk, sector))
    (sound : Sound s) (unharmed : Unharmed at' s (.insert key v)) (fuel : Nat) :
    ∃ s' n, cacheInsert at' (fuel + 2) key v s = some (s', n) ∧ Sound s' ∧
      Keeps at' s (.insert key v) s' := by
  rw [cacheInsert]
  cases found : Lru.find key s.list with
  | some e =>
    obtain ⟨member, rfl⟩ := Lru.findSome found
    obtain ⟨sound', keeps⟩ :=
      frontKeeps at' sound member {e.2 with data := v} id (.insert e.1 v)
    exact ⟨_, 0, rfl, sound', keeps⟩
  | none =>
    -- what stands behind the eviction, when there is one
    have made : ∃ s₁ n, (if s.num ≥ CACHE_MAX_ENTRIES then
          evictLru at' (cacheInsert at' (fuel + 1)) s else some (s, 0)) = some (s₁, n) ∧
        Sound s₁ ∧ Keeps at' s (.insert key v) s₁ ∧
        (∀ x ∈ s₁.list, ∃ x' ∈ s.list, x'.1 = x.1) ∧
        (0 ≤ n → s₁.list.length + 1 ≤ CACHE_MAX_ENTRIES) := by
      by_cases full : s.num ≥ CACHE_MAX_ENTRIES
      · obtain ⟨s₁, n, done, sound₁, keeps, keys, _, space⟩ :=
          evictSpec rawAt sound (unharmed found full) fuel
        refine ⟨s₁, n, by rw [if_pos full]; exact done, sound₁,
          ⟨keeps.dirty, fun x inside gone => ?_⟩,
          keys, space⟩
        exact .inr ((keeps.least x inside gone).resolve_left nofun)
      · refine ⟨s, 0, if_neg full, sound, (movedRefl sound).keeps _,
          fun x inside => ⟨x, inside, rfl⟩, fun _ => ?_⟩
        have count := sound.count
        omega
    obtain ⟨s₁, n, done, sound₁, keeps, keys, space⟩ := made
    have absent : Lru.find key s₁.list = none := by
      refine List.find?_eq_none.mpr fun x inside => ?_
      obtain ⟨x', old, same⟩ := keys x inside
      rw [← same]
      exact List.find?_eq_none.mp found x' old
    have sound₂ : Sound {s₁ with room := fun i => s₁.room (i + 1)} :=
      ⟨sound₁.unique, sound₁.count, sound₁.most, sound₁.recent, sound₁.past⟩
    dsimp only
    rw [done, Option.map_some]
    by_cases failed : n < 0
    · exact ⟨s₁, -1, by rw [if_pos failed], sound₁, keeps⟩
    · rw [if_neg failed]
      cases room : s₁.room 0 with
      | false => exact ⟨_, -1, rfl, sound₂, keeps.dirty, keeps.least⟩
      | true =>
        refine ⟨_, 0, rfl, pushSound sound₂ absent (space (Int.not_lt.mp failed)) _, ?_⟩
        have same : Lru.remove key s₁.list = s₁.list :=
          List.eraseP_of_forall_not fun x inside => List.find?_eq_none.mp absent x inside
        have stays (x : Key × Block α) (inside : x ∈ s₁.list) :
            x ∈ (key, Block.mk v false) :: Lru.remove key s₁.list :=
          List.mem_cons_of_mem _ (same.symm ▸ inside)
        refine ⟨fun x inside dirty => ?_, fun x inside gone =>
          keeps.least x inside fun x' inside' => gone x' (stays x' inside')⟩
        rcases keeps.dirty x inside dirty with ⟨x', inside', rest⟩ | logged
        · exact .inl ⟨x', stays x' inside', rest⟩
        · exact .inr logged

theorem invalidateSpec (rawAt : ∀ disk sector, at' (.raw disk) sector = some (disk, sector))
    (sound : Sound s) (unharmed : Unharmed at' s (.invalidate key)) (fuel : Nat) :
    ∃ s', cacheInvalidate at' (cacheInsert at' (fuel + 1)) key s = some s' ∧ Sound s' ∧
      Keeps at' s (.invalidate key) s' := by
  unfold cacheInvalidate
  cases found : Lru.find key s.list with
  | none => exact ⟨s, rfl, sound, (movedRefl sound).keeps _⟩
  | some e =>
    obtain ⟨member, rfl⟩ := Lru.findSome found
    obtain ⟨calm, takes⟩ := unharmed e found
    obtain ⟨ok, s₁, done, wrote⟩ := writebackSpec rawAt sound member calm fuel
    obtain ⟨sound', _, dirty, keys⟩ := wrote.dropped member sound.unique takes
    refine ⟨drop e.1 s₁, by dsimp only; rw [done]; rfl, sound', dirty, fun x inside gone => .inl ?_⟩
    by_contra differ
    obtain ⟨x', inside', same⟩ :=
      (keys x.1).mpr ⟨fun same => differ (by rw [same]), x, inside, rfl⟩
    exact gone x' inside' same

theorem Moved.calm (moved : Moved at' s s') (unique : Lru.Unique s.list)
    (calm : ∀ e ∈ s.list, Calm at' s e) : ∀ e ∈ s'.list, Calm at' s' e := by
  intro e' inside dirty place placed raw
  obtain ⟨e, member, same, dirty'⟩ := moved.fresh e' inside dirty
  rw [← same] at placed raw
  obtain ⟨r, old, key, clean'⟩ := calm e member dirty' place placed raw
  obtain ⟨r', inside', key'⟩ := (moved.keys _).mpr ⟨r, old, key⟩
  refine ⟨r', inside', key', Bool.eq_false_iff.mpr fun dirty'' => ?_⟩
  obtain ⟨r₀, old₀, key₀, dirty₀⟩ := moved.fresh r' inside' dirty''
  have equal := List.inj_on_of_nodup_map unique old₀ old (key₀.trans (key'.trans key.symm))
  rw [equal, clean'] at dirty₀
  cases dirty₀

theorem flushMoved (rawAt : ∀ disk sector, at' (.raw disk) sector = some (disk, sector))
    (fuel steps : Nat) : ∀ (i : Nat) (s t : State α), Sound s → (∀ e ∈ s.list, Calm at' s e) →
      flushLoop at' (cacheInsert at' (fuel + 1)) steps i s = some t → Moved at' s t := by
  induction steps with
  | zero => exact fun _ _ _ _ _ => nofun
  | succ steps ih =>
    intro i s t sound calm ran
    rw [flushLoop] at ran
    cases here : s.list[i]? with
    | none =>
      rw [here] at ran
      cases ran
      exact movedRefl sound
    | some e =>
      have member := List.mem_of_getElem? here
      obtain ⟨ok, s₁, done, wrote⟩ := writebackSpec rawAt sound member (calm e member) fuel
      rw [here] at ran
      dsimp only at ran
      rw [done] at ran
      exact wrote.moved.trans
        (ih _ s₁ t wrote.moved.sound (wrote.moved.calm sound.unique calm) ran)

def dirtyKeys (s : State α) : List Key := (s.list.filter fun e => e.2.dirty).map Prod.fst

theorem dirtyKeysMem : key ∈ dirtyKeys s ↔ ∃ e ∈ s.list, e.1 = key ∧ e.2.dirty = true := by
  unfold dirtyKeys
  simp only [List.mem_map, List.mem_filter]
  exact ⟨fun ⟨e, ⟨inside, dirty⟩, same⟩ => ⟨e, inside, same, dirty⟩,
    fun ⟨e, inside, same, dirty⟩ => ⟨e, ⟨inside, dirty⟩, same⟩⟩

theorem fewerDirty (wrote : WroteBack at' s e true s') (member : e ∈ s.list)
    (dirty : e.2.dirty = true) : (dirtyKeys s').length < (dirtyKeys s).length := by
  have unique : (dirtyKeys s').Nodup :=
    wrote.moved.sound.unique.sublist (List.filter_sublist.map Prod.fst)
  have gone : e.1 ∉ dirtyKeys s' := fun inside => by
    obtain ⟨e', inside', same, dirty'⟩ := dirtyKeysMem.mp inside
    cases ((wrote.done rfl dirty).2 e' inside' same).symm.trans dirty'
  have fewer : e.1 :: dirtyKeys s' ⊆ dirtyKeys s := by
    refine List.cons_subset.mpr ⟨dirtyKeysMem.mpr ⟨e, member, rfl, dirty⟩, fun k inside => ?_⟩
    obtain ⟨e', inside', rfl, dirty'⟩ := dirtyKeysMem.mp inside
    exact dirtyKeysMem.mpr (wrote.moved.fresh e' inside' dirty')
  exact (List.subperm_of_subset (List.nodup_cons.mpr ⟨gone, unique⟩) fewer).length_le

theorem standsAt (unique : Lru.Unique s.list) {i : Nat} (here : s.list[i]? = some e) :
    i ≤ s.list.findIdx fun e' => e'.1 = e.1 := by
  obtain ⟨inside, rfl⟩ := List.getElem?_eq_some_iff.mp here
  refine List.le_findIdx_of_not inside fun j before => decide_eq_false fun same => ?_
  have short : j < (s.list.map Prod.fst).length := by
    rw [List.length_map]
    exact Nat.lt_trans before inside
  have long : i < (s.list.map Prod.fst).length := by
    rw [List.length_map]
    exact inside
  refine List.pairwise_iff_getElem.mp unique j i short long before ?_
  rw [List.getElem_map, List.getElem_map]
  exact same

theorem flushEnds (rawAt : ∀ disk sector, at' (.raw disk) sector = some (disk, sector))
    (fuel dirty : Nat) : ∀ (behind i : Nat) (s : State α), Sound s →
      (∀ e ∈ s.list, Calm at' s e) → (dirtyKeys s).length ≤ dirty → s.list.length - i ≤ behind →
      ∃ steps t, flushLoop at' (cacheInsert at' (fuel + 1)) steps i s = some t := by
  induction dirty using Nat.strongRecOn with
  | ind dirty fewer =>
    intro behind
    induction behind with
    | zero =>
      intro i s _ _ _ short
      refine ⟨1, s, ?_⟩
      rw [flushLoop, List.getElem?_eq_none (by omega)]
    | succ behind ih =>
      intro i s sound calm most short
      cases here : s.list[i]? with
      | none => exact ⟨1, s, by rw [flushLoop, here]⟩
      | some e =>
        have member := List.mem_of_getElem? here
        obtain ⟨ok, s₁, done, wrote⟩ := writebackSpec rawAt sound member (calm e member) fuel
        have calm₁ := wrote.moved.calm sound.unique calm
        have later : ∃ steps t, flushLoop at' (cacheInsert at' (fuel + 1)) steps
            ((s₁.list.findIdx fun e' => e'.1 = e.1) + 1) s₁ = some t := by
          by_cases taken : e.2.dirty = true ∧ ok = true
          · obtain ⟨was, rfl⟩ := taken
            have drops := fewerDirty wrote member was
            exact fewer _ (Nat.lt_of_lt_of_le drops most) _ _ s₁ wrote.moved.sound calm₁
              (Nat.le_refl _) (Nat.le_refl _)
          · have same : s₁.list = s.list := wrote.still (by
              by_cases was : e.2.dirty = true
              · exact .inr (Bool.eq_false_iff.mpr fun done' => taken ⟨was, done'⟩)
              · exact .inl (Bool.eq_false_iff.mpr was))
            have stands := standsAt sound.unique here
            have keys : dirtyKeys s₁ = dirtyKeys s := by unfold dirtyKeys; rw [same]
            refine ih _ s₁ wrote.moved.sound calm₁ (keys.symm ▸ most) ?_
            rw [same]
            omega
        obtain ⟨steps, t, ran⟩ := later
        refine ⟨steps + 1, t, ?_⟩
        rw [flushLoop, here]
        dsimp only
        rw [done]
        exact ran

end calls

section runs
variable {at' : Dev → Nat → Option Place} {s t : State α} {a : Action α}

theorem stepKeeps (rawAt : ∀ disk sector, at' (.raw disk) sector = some (disk, sector)) {fuel : Nat}
    (sound : Sound s) (unharmed : Unharmed at' s a) (taken : step at' (fuel + 2) s a = some t) :
    Sound t ∧ Keeps at' s a t := by
  have still : Sound s ∧ Keeps at' s a s := ⟨sound, (movedRefl sound).keeps a⟩
  cases a with
  | lookup key =>
    cases taken
    unfold cacheLookup
    cases found : Lru.find key s.list with
    | none => exact still
    | some e =>
      obtain ⟨member, rfl⟩ := Lru.findSome found
      exact frontKeeps at' sound member e.2 id _
  | insert key v =>
    obtain ⟨s', n, done, sound', keeps⟩ := insertSpec rawAt sound unharmed fuel
    have taken : (cacheInsert at' (fuel + 2) key v s).map Prod.fst = some t := taken
    rw [done] at taken
    cases taken
    exact ⟨sound', keeps⟩
  | markDirty key =>
    cases taken
    unfold cacheMarkDirty
    cases found : Lru.find key s.list with
    | none => exact still
    | some e =>
      obtain ⟨member, rfl⟩ := Lru.findSome found
      exact frontKeeps at' sound member {e.2 with dirty := true} (fun _ => rfl) _
  | evict =>
    obtain ⟨s', n, done, sound', keeps, _⟩ := evictSpec rawAt sound unharmed (fuel + 1)
    have taken : (evictLru at' (cacheInsert at' (fuel + 2)) s).map Prod.fst = some t := taken
    rw [done] at taken
    cases taken
    exact ⟨sound', keeps⟩
  | flush steps =>
    have moved := flushMoved rawAt (fuel + 1) steps 0 s t sound unharmed taken
    exact ⟨moved.sound, moved.keeps _⟩
  | invalidate key =>
    obtain ⟨s', done, sound', keeps⟩ := invalidateSpec rawAt sound unharmed (fuel + 1)
    cases done.symm.trans taken
    exact ⟨sound', keeps⟩

theorem stepReturns (rawAt : ∀ disk sector, at' (.raw disk) sector = some (disk, sector))
    (fuel : Nat) (sound : Sound s) (unharmed : Unharmed at' s a) :
    (∃ t, step at' (fuel + 2) s a = some t) ∨
      ∃ n steps t, a = .flush n ∧ step at' (fuel + 2) s (.flush steps) = some t := by
  cases a with
  | lookup key => exact .inl ⟨_, rfl⟩
  | insert key v =>
    obtain ⟨s', n, done, _⟩ := insertSpec rawAt sound unharmed fuel
    exact .inl ⟨s', congrArg (Option.map Prod.fst) done⟩
  | markDirty key => exact .inl ⟨_, rfl⟩
  | evict =>
    obtain ⟨s', n, done, _⟩ := evictSpec rawAt sound unharmed (fuel + 1)
    exact .inl ⟨s', congrArg (Option.map Prod.fst) done⟩
  | flush n =>
    obtain ⟨steps, t, ran⟩ := flushEnds rawAt (fuel + 1) _ _ 0 s sound unharmed (Nat.le_refl _)
      (Nat.le_refl _)
    exact .inr ⟨n, steps, t, rfl, ran⟩
  | invalidate key =>
    obtain ⟨s', done, _⟩ := invalidateSpec rawAt sound unharmed (fuel + 1)
    exact .inl ⟨s', done⟩

theorem bootSound (disk : Place → α) (goes room : Nat → Bool) : Sound (boot disk goes room) :=
  ⟨List.nodup_nil, rfl, Nat.zero_le _, List.Pairwise.nil, nofun⟩

end runs

/-- Where no write-back of a block that goes fails and none needs a new entry, the cache stays
sound, every call returns, and none loses what has been dirtied. -/
theorem cacheKept (wordBits : Nat) (table : Table) (fuel : Nat) (disk : Place → α)
    (goes room : Nat → Bool) (acts : List (Action α)) (s : State α)
    (ran : Run.run (step (absSector wordBits table) (fuel + 2)) (boot disk goes room) acts = some s)
    (meets : Run.Meets (step (absSector wordBits table) (fuel + 2))
      (Unharmed (absSector wordBits table)) (boot disk goes room) acts) :
    Sound s ∧ ∀ a, Unharmed (absSector wordBits table) s a →
      (∀ t, step (absSector wordBits table) (fuel + 2) s a = some t →
        Keeps (absSector wordBits table) s a t) ∧
      ((∃ t, step (absSector wordBits table) (fuel + 2) s a = some t) ∨
        ∃ n steps t, a = .flush n ∧
          step (absSector wordBits table) (fuel + 2) s (.flush steps) = some t) := by
  have rawAt : ∀ disk sector, absSector wordBits table (.raw disk) sector = some (disk, sector) :=
    fun _ _ => rfl
  have sound : Sound s := Run.invariantMeets
    (fun s a t sound unharmed taken => (stepKeeps rawAt sound unharmed taken).1)
    (bootSound disk goes room) meets ran
  exact ⟨sound, fun a unharmed => ⟨fun t taken => (stepKeeps rawAt sound unharmed taken).2,
    stepReturns rawAt fuel sound unharmed⟩⟩

def unparted : Table := Mbr.mbrTable fun _ => none

/-- A block is dirtied and written to its disk as it is invalidated. -/
theorem cacheKeptOneBlock : ∃ s t : State Nat,
    Run.run (step (absSector 32 unparted) 2) (boot (fun _ => 0) (fun _ => true) fun _ => true)
      [.insert (.raw 3, 7) 5, .markDirty (.raw 3, 7)] = some s ∧ Sound s ∧
    step (absSector 32 unparted) 2 s (.invalidate (.raw 3, 7)) = some t ∧ t.list = [] ∧
    t.log = [((3, 7), 5)] ∧ Keeps (absSector 32 unparted) s (.invalidate (.raw 3, 7)) t := by
  have kept := cacheKept 32 unparted 0 (fun _ => (0 : Nat)) (fun _ => true) (fun _ => true)
    [.insert (.raw 3, 7) 5, .markDirty (.raw 3, 7)] _ rfl
    ⟨fun _ full => absurd full (by decide), fun _ _ => ⟨trivial, fun _ _ => trivial⟩⟩
  refine ⟨_, _, rfl, kept.1, rfl, rfl, rfl, (kept.2 (.invalidate (.raw 3, 7)) ?_).1 _ rfl⟩
  intro e found
  cases found
  exact ⟨fun _ _ placed other => absurd (by cases placed; rfl) other, fun _ => ⟨nofun, rfl⟩⟩

/-- The disk refuses the block: it is dropped with a warning. -/
theorem evictedUnwritten : ∃ s t : State Nat,
    Run.run (step (absSector 32 unparted) 2) (boot (fun _ => 0) (fun _ => false) fun _ => true)
      [.insert (.raw 3, 7) 5, .markDirty (.raw 3, 7)] = some s ∧
    step (absSector 32 unparted) 2 s .evict = some t ∧
    ¬Keeps (absSector 32 unparted) s .evict t := by
  refine ⟨_, _, rfl, rfl, fun keeps => ?_⟩
  rcases keeps.dirty ((.raw 3, 7), ⟨5, true⟩) List.mem_cons_self rfl with
    ⟨_, inside, _⟩ | ⟨_, _, logged⟩
  · cases inside
  · cases logged

end Scepter.BlockCache
