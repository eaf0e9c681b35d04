import Scepter.Lib.Bytes
import Scepter.Lib.Lru

/-! MBR partitions (part_mbr.c) over the block layer (block.c, cache.c). The raw
disk and its partitions are block devices of their own, and the sector cache is
keyed by device and sector. A sector of a disk is touched when the raw disk is
asked for it, whether the cache or the driver answers. Nothing marks a cached
block dirty, so an eviction writes nothing. -/
namespace Scepter.Mbr

def MBR_SIGNATURE : Nat := 0xAA55
def MBR_PARTITION_COUNT : Nat := 4
def PART_TYPE_EMPTY : Nat := 0
def CACHE_MAX_ENTRIES : Nat := 64

structure Partition where
  valid : Bool
  type : Nat
  bootable : Bool
  lbaStart : Nat
  lbaCount : Nat

def noPartition : Partition := ⟨false, 0, false, 0, 0⟩

def mbrParseEntry (mbr : Buf) (i : Nat) : Partition :=
  let entry := 446 + 16 * i
  let type := (mbr (entry + 4)).toNat
  let lbaCount := mbr.getU32 (entry + 12)
  if type ≠ PART_TYPE_EMPTY ∧ lbaCount > 0 then
    ⟨true, type, mbr entry = 0x80, mbr.getU32 (entry + 8), lbaCount⟩
  else noPartition

def mbrParseDisk (sector0 : Option Buf) (i : Nat) : Partition :=
  match sector0 with
  | none => noPartition
  | some mbr =>
    if mbr.getU16 510 ≠ MBR_SIGNATURE then noPartition
    else if i < MBR_PARTITION_COUNT then mbrParseEntry mbr i
    else noPartition

def mbrTable (sector0 : Nat → Option Buf) (disk i : Nat) : Partition :=
  mbrParseDisk (sector0 disk) i

inductive Dev where
  | raw (disk : Nat)
  | part (disk scnd : Nat)
  deriving DecidableEq

abbrev Table := Nat → Nat → Partition

structure Layer (α : Type) where
  cache : List ((Dev × Nat) × α)
  sector : Nat → Nat → α
  touched : List (Nat × Nat)
  goes : Nat → Bool
  room : Nat → Bool

variable {α : Type}

def touch (disk lba count : Nat) (s : Layer α) : Layer α :=
  {s with touched := (List.range' lba count).map (fun l => (disk, l)) ++ s.touched}

def driverCalled (s : Layer α) : Layer α := {s with goes := fun i => s.goes (i + 1)}

def driverRead (disk lba : Nat) (s : Layer α) : Option α × Layer α :=
  (if s.goes 0 then some (s.sector disk lba) else none, driverCalled s)

def driverWrite (disk lba : Nat) (v : α) (s : Layer α) : Option Unit × Layer α :=
  if s.goes 0 then
    let sector := fun d l => if d = disk ∧ l = lba then v else s.sector d l
    (some (), {driverCalled s with sector := sector})
  else (none, driverCalled s)

def cacheInsert (dev : Dev) (offset : Nat) (v : α) (s : Layer α) : Layer α :=
  {s with
    cache := Lru.insert CACHE_MAX_ENTRIES (s.room 0) s.cache (dev, offset) v
    room := fun i => s.room (i + 1)}

def sectorLoop {β : Type} (body : Nat → Nat → Layer α → Option β × Layer α) (offset : Nat) :
    Nat → Nat → Layer α → List β × Layer α
  | 0, _, s => ([], s)
  | left + 1, i, s =>
    match body i ((offset + i) % 2 ^ 32) s with
    | (none, s) => ([], s)
    | (some b, s) =>
      let (rest, s) := sectorLoop body offset left (i + 1) s
      (b :: rest, s)

def breadSector (dev : Dev) (read : Nat → Layer α → Option α × Layer α) (_i sector : Nat)
    (s : Layer α) : Option α × Layer α :=
  match Lru.lookup s.cache (dev, sector) with
  | some (v, cache) => (some v, {s with cache := cache})
  | none => match read sector s with
    | (none, s) => (none, s)
    | (some v, s) => (some v, cacheInsert dev sector v s)

def bwriteSector (dev : Dev) (write : Nat → α → Layer α → Option Unit × Layer α) (data : Nat → α)
    (i sector : Nat) (s : Layer α) : Option Unit × Layer α :=
  match write sector (data i) s with
  | (none, s) => (none, s)
  | (some (), s) => (some (), cacheInsert dev sector (data i) s)

def breadRaw (disk offset count : Nat) : Layer α → List α × Layer α :=
  let body := fun i sector s =>
    breadSector (.raw disk) (driverRead disk) i sector (touch disk sector 1 s)
  sectorLoop body offset count 0

def bwriteRaw (disk : Nat) (data : Nat → α) (offset count : Nat) : Layer α → List Unit × Layer α :=
  let body := fun i sector s =>
    bwriteSector (.raw disk) (driverWrite disk) data i sector (touch disk sector 1 s)
  sectorLoop body offset count 0

/-- offset >= lba_count || offset + count > lba_count, the sum in size_t. -/
def outOfBounds (wordBits : Nat) (part : Partition) (offset count : Nat) : Bool :=
  offset ≥ part.lbaCount ∨ (offset + count) % 2 ^ wordBits > part.lbaCount

def findPartition (table : Table) (disk scnd : Nat) : Option Partition :=
  if scnd < 1 ∨ scnd > MBR_PARTITION_COUNT then none
  else if !(table disk (scnd - 1)).valid then none
  else some (table disk (scnd - 1))

def partBlockRead (wordBits : Nat) (table : Table) (disk scnd offset count : Nat) (s : Layer α) :
    List α × Layer α :=
  match findPartition table disk scnd with
  | none => ([], s)
  | some part =>
    if outOfBounds wordBits part offset count then ([], s)
    else breadRaw disk ((part.lbaStart + offset) % 2 ^ 32) count s

def partBlockWrite (wordBits : Nat) (table : Table) (disk scnd : Nat) (data : Nat → α)
    (offset count : Nat) (s : Layer α) : List Unit × Layer α :=
  match findPartition table disk scnd with
  | none => ([], s)
  | some part =>
    if outOfBounds wordBits part offset count then ([], s)
    else bwriteRaw disk data ((part.lbaStart + offset) % 2 ^ 32) count s

def partRead (wordBits : Nat) (table : Table) (disk scnd sector : Nat) (s : Layer α) :
    Option α × Layer α :=
  (partBlockRead wordBits table disk scnd sector 1 s).map List.head? id

def partWrite (wordBits : Nat) (table : Table) (disk scnd sector : Nat) (v : α) (s : Layer α) :
    Option Unit × Layer α :=
  (partBlockWrite wordBits table disk scnd (fun _ => v) sector 1 s).map List.head? id

def breadPart (wordBits : Nat) (table : Table) (disk scnd offset count : Nat) :
    Layer α → List α × Layer α :=
  sectorLoop (breadSector (.part disk scnd) (partRead wordBits table disk scnd)) offset count 0

def bwritePart (wordBits : Nat) (table : Table) (disk scnd : Nat) (data : Nat → α)
    (offset count : Nat) : Layer α → List Unit × Layer α :=
  let body := bwriteSector (.part disk scnd) (partWrite wordBits table disk scnd) data
  sectorLoop body offset count 0

/-- The checks of mbr_read_partition and mbr_write_partition: the sum is a
uint32_t. The LBA the disk's function is called with, or `none`. -/
def mbrPartitionLba (table : Table) (disk partitionNum sectorOffset count : Nat) : Option Nat :=
  match findPartition table disk partitionNum with
  | none => none
  | some part =>
    if sectorOffset ≥ part.lbaCount then none
    else if (sectorOffset + count) % 2 ^ 32 > part.lbaCount then none
    else some ((part.lbaStart + sectorOffset) % 2 ^ 32)

def mbrReadPartition (table : Table) (disk partitionNum sectorOffset count : Nat) (s : Layer α) :
    Option (Nat → α) × Layer α :=
  match mbrPartitionLba table disk partitionNum sectorOffset count with
  | none => (none, s)
  | some lba =>
    let data := fun i => s.sector disk (lba + i)
    (if s.goes 0 then some data else none, driverCalled (touch disk lba (max count 1) s))

def mbrWritePartition (table : Table) (disk partitionNum : Nat) (data : Nat → α)
    (sectorOffset count : Nat) (s : Layer α) : Option Unit × Layer α :=
  match mbrPartitionLba table disk partitionNum sectorOffset count with
  | none => (none, s)
  | some lba =>
    let s' := driverCalled (touch disk lba (max count 1) s)
    if s.goes 0 then
      let sector := fun d l =>
        if d = disk ∧ lba ≤ l ∧ l < lba + max count 1 then data (l - lba) else s.sector d l
      (some (), {s' with sector := sector})
    else (none, s')

/-- A request on partition `scnd` of a disk; the counts of the last two are uint8_t. -/
inductive Request (α : Type) where
  | bread (offset : Fin (2 ^ 32)) (count : Nat)
  | bwrite (offset : Fin (2 ^ 32)) (count : Nat) (data : Nat → α)
  | mbrRead (offset : Fin (2 ^ 32)) (count : Fin (2 ^ 8))
  | mbrWrite (offset : Fin (2 ^ 32)) (count : Fin (2 ^ 8)) (data : Nat → α)

def serve (wordBits : Nat) (table : Table) (disk scnd : Nat) (s : Layer α) :
    Request α → Layer α
  | .bread offset count => (breadPart wordBits table disk scnd offset count s).2
  | .bwrite offset count data => (bwritePart wordBits table disk scnd data offset count s).2
  | .mbrRead offset count => (mbrReadPartition table disk scnd offset count s).2
  | .mbrWrite offset count data => (mbrWritePartition table disk scnd data offset count s).2

def TouchedOnly (T : Nat × Nat → Prop) (s s' : Layer α) : Prop :=
  ∃ new, s'.touched = new ++ s.touched ∧ ∀ t ∈ new, T t

def Own (table : Table) (disk scnd : Nat) (t : Nat × Nat) : Prop :=
  ∃ part, findPartition table disk scnd = some part ∧ t.1 = disk ∧
    part.lbaStart ≤ t.2 ∧ t.2 < part.lbaStart + part.lbaCount

def NoWrap (part : Partition) : Request α → Prop
  | .bread offset count | .bwrite offset count _ =>
    offset.val < part.lbaCount → 0 < count →
      part.lbaStart + min (offset.val + count) part.lbaCount ≤ 2 ^ 32
  | .mbrRead offset count | .mbrWrite offset count _ =>
    offset.val < part.lbaCount → (offset.val + count.val) % 2 ^ 32 ≤ part.lbaCount →
      offset.val + count.val ≤ part.lbaCount ∧ part.lbaStart + offset.val < 2 ^ 32

inductive Reached (wordBits : Nat) (table : Table) : Layer α → Prop where
  | boot (s : Layer α) (empty : s.cache = []) : Reached wordBits table s
  | request (s : Layer α) (disk scnd : Nat) (r : Request α) (before : Reached wordBits table s) :
      Reached wordBits table (serve wordBits table disk scnd s r)
  | rawRead (s : Layer α) (disk offset count : Nat) (before : Reached wordBits table s) :
      Reached wordBits table (breadRaw disk offset count s).2
  | rawWrite (s : Layer α) (disk offset count : Nat) (data : Nat → α)
      (before : Reached wordBits table s) :
      Reached wordBits table (bwriteRaw disk data offset count s).2

variable {T : Nat × Nat → Prop} {s s' s'' : Layer α}

theorem touchedNothing (same : s'.touched = s.touched) : TouchedOnly T s s' :=
  ⟨[], by simp [same], by simp⟩

theorem TouchedOnly.trans (one : TouchedOnly T s s') (two : TouchedOnly T s' s'') :
    TouchedOnly T s s'' := by
  obtain ⟨new, log, inside⟩ := one
  obtain ⟨new', log', inside'⟩ := two
  refine ⟨new' ++ new, by rw [log', log, List.append_assoc], fun t member => ?_⟩
  rcases List.mem_append.mp member with h | h
  · exact inside' t h
  · exact inside t h

theorem TouchedOnly.weaken {T' : Nat × Nat → Prop} (h : TouchedOnly T s s')
    (wider : ∀ t, T t → T' t) : TouchedOnly T' s s' := by
  obtain ⟨new, log, inside⟩ := h
  exact ⟨new, log, fun t member => wider t (inside t member)⟩

theorem TouchedOnly.kept (h : TouchedOnly T s s') {t} (old : t ∈ s.touched) : t ∈ s'.touched := by
  obtain ⟨new, log, _⟩ := h
  rw [log]
  exact List.mem_append_right _ old

theorem touchOnly {disk lba count : Nat}
    (inside : ∀ l, lba ≤ l → l < lba + count → T (disk, l)) :
    TouchedOnly T s (touch disk lba count s) := by
  refine ⟨_, rfl, fun t member => ?_⟩
  obtain ⟨l, range, rfl⟩ := List.mem_map.mp member
  rw [List.mem_range'_1] at range
  exact inside l range.1 range.2

theorem touchMem {disk lba count l : Nat} (first : lba ≤ l) (last : l < lba + count) :
    (disk, l) ∈ (touch disk lba count s).touched :=
  List.mem_append_left _ (List.mem_map.mpr ⟨l, List.mem_range'_1.mpr ⟨first, last⟩, rfl⟩)

theorem driverWriteTouched (disk lba : Nat) (v : α) (s : Layer α) :
    (driverWrite disk lba v s).2.touched = s.touched := by
  unfold driverWrite
  split <;> rfl

theorem breadSectorTouched {dev : Dev} {read : Nat → Layer α → Option α × Layer α} {sector : Nat}
    (i : Nat) (callee : TouchedOnly T s (read sector s).2) :
    TouchedOnly T s (breadSector dev read i sector s).2 := by
  unfold breadSector
  split
  · exact touchedNothing rfl
  · split <;> rename_i result
    · rw [result] at callee
      exact callee
    · rw [result] at callee
      exact callee.trans (touchedNothing rfl)

theorem bwriteSectorTouched {dev : Dev} {write : Nat → α → Layer α → Option Unit × Layer α}
    {data : Nat → α} {i sector : Nat} (callee : TouchedOnly T s (write sector (data i) s).2) :
    TouchedOnly T s (bwriteSector dev write data i sector s).2 := by
  unfold bwriteSector
  split <;> rename_i result
  · rw [result] at callee
    exact callee
  · rw [result] at callee
    exact callee.trans (touchedNothing rfl)

section loop
variable {β : Type} {body : Nat → Nat → Layer α → Option β × Layer α} {offset : Nat}

theorem sectorLoopTouched {P : Nat → Layer α → Prop} (left i : Nat)
    (each : ∀ j s, P j s → i ≤ j → j < i + left →
      TouchedOnly T s (body j ((offset + j) % 2 ^ 32) s).2 ∧
      ∀ b s', body j ((offset + j) % 2 ^ 32) s = (some b, s') → P (j + 1) s')
    {s : Layer α} (start : P i s) : TouchedOnly T s (sectorLoop body offset left i s).2 := by
  induction left generalizing i s with
  | zero => exact touchedNothing rfl
  | succ left ih =>
    obtain ⟨first, next⟩ := each i s start (Nat.le_refl i) (by omega)
    unfold sectorLoop
    split <;> rename_i result
    · rw [result] at first
      exact first
    · rw [result] at first
      have later := ih (i + 1) (fun j s holds low high => each j s holds (by omega) (by omega))
        (next _ _ result)
      exact first.trans later

theorem sectorLoopKeeps {P : Layer α → Prop} (left i : Nat)
    (each : ∀ j sector s, P s → P (body j sector s).2) {s : Layer α} (start : P s) :
    P (sectorLoop body offset left i s).2 := by
  induction left generalizing i s with
  | zero => exact start
  | succ left ih =>
    have first := each i ((offset + i) % 2 ^ 32) s start
    unfold sectorLoop
    split <;> rename_i result
    · rw [result] at first
      exact first
    · rw [result] at first
      exact ih (i + 1) first

theorem sectorLoopReaches {P : Layer α → Prop} {t : Nat × Nat} (left i k : Nat)
    (grows : ∀ j s, TouchedOnly (fun _ => True) s (body j ((offset + j) % 2 ^ 32) s).2)
    (passes : ∀ j s, P s → i ≤ j → j < k →
      ∃ b s', body j ((offset + j) % 2 ^ 32) s = (some b, s') ∧ P s')
    (touches : ∀ s, P s → t ∈ (body k ((offset + k) % 2 ^ 32) s).2.touched)
    (low : i ≤ k) (high : k < i + left) {s : Layer α} (start : P s) :
    t ∈ (sectorLoop body offset left i s).2.touched := by
  induction left generalizing i s with
  | zero => omega
  | succ left ih =>
    unfold sectorLoop
    by_cases here : i = k
    · cases here
      have now := touches s start
      split <;> rename_i result
      · rw [result] at now
        exact now
      · rw [result] at now
        exact (sectorLoopTouched (P := fun _ _ => True) left _
          (fun j s _ _ _ => ⟨grows j s, fun _ _ _ => trivial⟩) trivial).kept now
    · obtain ⟨b, s', passed, holds⟩ := passes i s start (Nat.le_refl i) (by omega)
      rw [passed]
      exact ih (i + 1) (fun j s hs l h => passes j s hs (by omega) h) (by omega) (by omega) holds

end loop

theorem breadRawStep (disk i sector : Nat) (s : Layer α) :
    TouchedOnly (fun t => t = (disk, sector)) s
      (breadSector (.raw disk) (driverRead disk) i sector (touch disk sector 1 s)).2 := by
  refine TouchedOnly.trans (touchOnly fun l low high => ?_)
    (breadSectorTouched i (touchedNothing rfl))
  rw [show l = sector by omega]

theorem bwriteRawStep (disk : Nat) (data : Nat → α) (i sector : Nat) (s : Layer α) :
    TouchedOnly (fun t => t = (disk, sector)) s
      (bwriteSector (.raw disk) (driverWrite disk) data i sector (touch disk sector 1 s)).2 := by
  refine TouchedOnly.trans (touchOnly fun l low high => ?_)
    (bwriteSectorTouched (touchedNothing (driverWriteTouched disk _ _ _)))
  rw [show l = sector by omega]

theorem breadRawTouched (disk sector : Nat) (s : Layer α) :
    TouchedOnly (fun t => t = (disk, sector % 2 ^ 32)) s (breadRaw disk sector 1 s).2 := by
  refine sectorLoopTouched (P := fun _ _ => True) 1 0 (fun j s _ _ high => ?_) trivial
  obtain rfl : j = 0 := by omega
  exact ⟨breadRawStep disk 0 _ s, fun _ _ _ => trivial⟩

theorem bwriteRawTouched (disk sector : Nat) (data : Nat → α) (s : Layer α) :
    TouchedOnly (fun t => t = (disk, sector % 2 ^ 32)) s (bwriteRaw disk data sector 1 s).2 := by
  refine sectorLoopTouched (P := fun _ _ => True) 1 0 (fun j s _ _ high => ?_) trivial
  obtain rfl : j = 0 := by omega
  exact ⟨bwriteRawStep disk data 0 _ s, fun _ _ _ => trivial⟩

section partition
variable {table : Table} {disk scnd sector offset count wordBits : Nat} {part : Partition}

def At (table : Table) (disk scnd sector : Nat) (t : Nat × Nat) : Prop :=
  ∃ part, findPartition table disk scnd = some part ∧ sector < part.lbaCount ∧
    t = (disk, (part.lbaStart + sector) % 2 ^ 32)

theorem inBounds (ok : ¬ outOfBounds wordBits part offset count = true) :
    offset < part.lbaCount := by
  unfold outOfBounds at ok
  grind

theorem partReadCases (wordBits disk scnd sector : Nat) (s : Layer α) :
    partRead wordBits table disk scnd sector s = (none, s) ∨
    ∃ part, findPartition table disk scnd = some part ∧ sector < part.lbaCount ∧
      partRead wordBits table disk scnd sector s =
        (breadRaw disk ((part.lbaStart + sector) % 2 ^ 32) 1 s).map List.head? id := by
  unfold partRead partBlockRead
  split <;> rename_i found
  · exact Or.inl rfl
  · split <;> rename_i ok
    · exact Or.inl rfl
    · exact Or.inr ⟨_, found, inBounds ok, rfl⟩

theorem partWriteCases (wordBits disk scnd sector : Nat) (v : α) (s : Layer α) :
    partWrite wordBits table disk scnd sector v s = (none, s) ∨
    ∃ part, findPartition table disk scnd = some part ∧ sector < part.lbaCount ∧
      partWrite wordBits table disk scnd sector v s =
        (bwriteRaw disk (fun _ => v) ((part.lbaStart + sector) % 2 ^ 32) 1 s).map
          List.head? id := by
  unfold partWrite partBlockWrite
  split <;> rename_i found
  · exact Or.inl rfl
  · split <;> rename_i ok
    · exact Or.inl rfl
    · exact Or.inr ⟨_, found, inBounds ok, rfl⟩

theorem partReadTouched (s : Layer α) :
    TouchedOnly (At table disk scnd sector) s (partRead wordBits table disk scnd sector s).2 := by
  obtain refused | ⟨part, found, inside, passed⟩ := partReadCases wordBits disk scnd sector s
  · rw [refused]
    exact touchedNothing rfl
  · rw [passed]
    refine (breadRawTouched disk _ s).weaken fun t at' => ?_
    rw [Nat.mod_mod] at at'
    exact ⟨part, found, inside, at'⟩

theorem partWriteTouched (v : α) (s : Layer α) :
    TouchedOnly (At table disk scnd sector) s
      (partWrite wordBits table disk scnd sector v s).2 := by
  obtain refused | ⟨part, found, inside, passed⟩ := partWriteCases wordBits disk scnd sector v s
  · rw [refused]
    exact touchedNothing rfl
  · rw [passed]
    refine (bwriteRawTouched disk _ _ s).weaken fun t at' => ?_
    rw [Nat.mod_mod] at at'
    exact ⟨part, found, inside, at'⟩

theorem atOwn {t : Nat × Nat} (at' : At table disk scnd sector t)
    (fits : ∀ part, findPartition table disk scnd = some part → sector < part.lbaCount →
      part.lbaStart + sector < 2 ^ 32) : Own table disk scnd t := by
  obtain ⟨part, found, inside, rfl⟩ := at'
  have small := fits part found inside
  refine ⟨part, found, rfl, ?_, ?_⟩
  · rw [Nat.mod_eq_of_lt small]
    exact Nat.le_add_right _ _
  · rw [Nat.mod_eq_of_lt small]
    exact Nat.add_lt_add_left inside _

def KeyInside (table : Table) (dev : Dev) (sector : Nat) : Prop :=
  ∀ disk scnd, dev = .part disk scnd →
    ∃ part, findPartition table disk scnd = some part ∧ sector < part.lbaCount

def CacheInside (table : Table) (s : Layer α) : Prop :=
  Lru.Unique s.cache ∧ ∀ e ∈ s.cache, KeyInside table e.1.1 e.1.2

theorem rawKeyInside : KeyInside table (.raw disk) sector :=
  fun _ _ absurd' => nomatch absurd'

theorem partKeyInside (found : findPartition table disk scnd = some part)
    (inside : sector < part.lbaCount) : KeyInside table (.part disk scnd) sector := by
  intro disk' scnd' same
  cases same
  exact ⟨part, found, inside⟩

theorem insertInside {dev : Dev} (v : α) (inside : CacheInside table s)
    (key : KeyInside table dev sector) : CacheInside table (cacheInsert dev sector v s) := by
  refine ⟨Lru.insertUnique inside.1 _ _ _ _, fun e member => ?_⟩
  rcases Lru.insertMem inside.1 member with rfl | ⟨old, _⟩
  · exact key
  · exact inside.2 e old

theorem breadSectorInside {dev : Dev} {read : Nat → Layer α → Option α × Layer α}
    (i : Nat) (inside : CacheInside table s) (callee : CacheInside table (read sector s).2)
    (key : ∀ v, (read sector s).1 = some v → KeyInside table dev sector) :
    CacheInside table (breadSector dev read i sector s).2 ∧
      ∀ v, (breadSector dev read i sector s).1 = some v → KeyInside table dev sector := by
  unfold breadSector
  split <;> rename_i hit
  · obtain ⟨member, unique, same⟩ := Lru.lookupSome inside.1 hit
    exact ⟨⟨unique, fun e cached => inside.2 e ((same e).mp cached)⟩,
      fun _ _ => inside.2 _ member⟩
  · split <;> rename_i result
    · rw [result] at callee
      exact ⟨callee, fun v some' => nomatch some'⟩
    · rw [result] at callee key
      exact ⟨insertInside _ callee (key _ rfl), fun _ _ => key _ rfl⟩

theorem bwriteSectorInside {dev : Dev} {write : Nat → α → Layer α → Option Unit × Layer α}
    {data : Nat → α} (i : Nat) (callee : CacheInside table (write sector (data i) s).2)
    (key : (write sector (data i) s).1 = some () → KeyInside table dev sector) :
    CacheInside table (bwriteSector dev write data i sector s).2 ∧
      ∀ v, (bwriteSector dev write data i sector s).1 = some v → KeyInside table dev sector := by
  unfold bwriteSector
  split <;> rename_i result
  · rw [result] at callee
    exact ⟨callee, fun v some' => nomatch some'⟩
  · rw [result] at callee key
    exact ⟨insertInside _ callee (key rfl), fun _ _ => key rfl⟩

theorem driverWriteInside (lba : Nat) (v : α) (inside : CacheInside table s) :
    CacheInside table (driverWrite disk lba v s).2 := by
  unfold driverWrite
  split <;> exact inside

theorem breadRawInside (disk offset count : Nat) (inside : CacheInside table s) :
    CacheInside table (breadRaw disk offset count s).2 := by
  unfold breadRaw
  exact sectorLoopKeeps (P := CacheInside table) count 0 (fun j _ _ before =>
    (breadSectorInside j (s := touch disk _ 1 _) before before
      fun _ _ => rawKeyInside).1) inside

theorem bwriteRawInside (disk offset count : Nat) (data : Nat → α) (inside : CacheInside table s) :
    CacheInside table (bwriteRaw disk data offset count s).2 := by
  unfold bwriteRaw
  exact sectorLoopKeeps (P := CacheInside table) count 0 (fun j _ _ before =>
    (bwriteSectorInside j (driverWriteInside _ _ (s := touch disk _ 1 _) before)
      fun _ => rawKeyInside).1) inside

theorem partReadInside (wordBits disk scnd sector : Nat) (inside : CacheInside table s) :
    CacheInside table (partRead wordBits table disk scnd sector s).2 ∧
      ∀ v, (partRead wordBits table disk scnd sector s).1 = some v →
        KeyInside table (.part disk scnd) sector := by
  obtain refused | ⟨part, found, below, passed⟩ := partReadCases wordBits disk scnd sector s
  · rw [refused]
    exact ⟨inside, fun v some' => nomatch some'⟩
  · rw [passed]
    exact ⟨breadRawInside disk _ 1 inside, fun _ _ => partKeyInside found below⟩

theorem partWriteInside (wordBits disk scnd sector : Nat) (v : α) (inside : CacheInside table s) :
    CacheInside table (partWrite wordBits table disk scnd sector v s).2 ∧
      ((partWrite wordBits table disk scnd sector v s).1 = some () →
        KeyInside table (.part disk scnd) sector) := by
  obtain refused | ⟨part, found, below, passed⟩ := partWriteCases wordBits disk scnd sector v s
  · rw [refused]
    exact ⟨inside, fun some' => nomatch some'⟩
  · rw [passed]
    exact ⟨bwriteRawInside disk _ 1 _ inside, fun _ => partKeyInside found below⟩

def Within (table : Table) (disk scnd offset : Nat) (j : Nat) (s : Layer α) : Prop :=
  CacheInside table s ∧
    (0 < j → ∃ part, findPartition table disk scnd = some part ∧ offset + j ≤ part.lbaCount)

theorem withinStep {j : Nat} {done : Prop} (word : offset < 2 ^ 32)
    (small : ∀ part, findPartition table disk scnd = some part → part.lbaCount < 2 ^ 32)
    (within : Within table disk scnd offset j s) (inside : CacheInside table s')
    (key : done → KeyInside table (.part disk scnd) ((offset + j) % 2 ^ 32)) :
    (offset + j) % 2 ^ 32 = offset + j ∧ (done → Within table disk scnd offset (j + 1) s') := by
  have unwrapped : offset + j < 2 ^ 32 := by
    by_cases first : 0 < j
    · obtain ⟨part, found, fits⟩ := within.2 first
      have bound := small part found
      omega
    · omega
  have same := Nat.mod_eq_of_lt unwrapped
  refine ⟨same, fun ended => ⟨inside, fun _ => ?_⟩⟩
  obtain ⟨part, found, fits⟩ := key ended disk scnd rfl
  exact ⟨part, found, by omega⟩

section partLoop
variable {β : Type} {body : Nat → Nat → Layer α → Option β × Layer α}

theorem partLoopTouched (word : offset < 2 ^ 32)
    (small : ∀ part, findPartition table disk scnd = some part → part.lbaCount < 2 ^ 32)
    (touches : ∀ j sector s, TouchedOnly (At table disk scnd sector) s (body j sector s).2)
    (keeps : ∀ j sector s, CacheInside table s → CacheInside table (body j sector s).2 ∧
      ∀ b, (body j sector s).1 = some b → KeyInside table (.part disk scnd) sector)
    (inside : CacheInside table s) :
    TouchedOnly (fun t => ∃ j < count, At table disk scnd (offset + j) t) s
      (sectorLoop body offset count 0 s).2 := by
  refine sectorLoopTouched (P := Within table disk scnd offset) count 0
    (fun j s within _ high => ?_) ⟨inside, fun absurd' => absurd absurd' (Nat.lt_irrefl 0)⟩
  obtain ⟨inside', key⟩ := keeps j ((offset + j) % 2 ^ 32) s within.1
  obtain ⟨same, next⟩ := withinStep word small within inside' fun done : ∃ b, _ = some b =>
    key done.choose done.choose_spec
  refine ⟨(touches j _ s).weaken fun t at' => ?_, ?_⟩
  · exact ⟨j, by omega, same ▸ at'⟩
  · intro b s' result
    rw [result] at next
    exact next ⟨b, rfl⟩

end partLoop

theorem breadPartTouched (word : offset < 2 ^ 32)
    (small : ∀ part, findPartition table disk scnd = some part → part.lbaCount < 2 ^ 32)
    (inside : CacheInside table s) :
    TouchedOnly (fun t => ∃ j < count, At table disk scnd (offset + j) t) s
      (breadPart wordBits table disk scnd offset count s).2 := by
  refine partLoopTouched word small
    (fun j sector s => breadSectorTouched j (partReadTouched s)) (fun j sector s within => ?_) inside
  obtain ⟨callee, key⟩ := partReadInside wordBits disk scnd sector within
  exact breadSectorInside j within callee key

theorem bwritePartTouched (data : Nat → α) (word : offset < 2 ^ 32)
    (small : ∀ part, findPartition table disk scnd = some part → part.lbaCount < 2 ^ 32)
    (inside : CacheInside table s) :
    TouchedOnly (fun t => ∃ j < count, At table disk scnd (offset + j) t) s
      (bwritePart wordBits table disk scnd data offset count s).2 := by
  refine partLoopTouched word small
    (fun j sector s => bwriteSectorTouched (partWriteTouched (data j) s))
    (fun j sector s within => ?_) inside
  obtain ⟨callee, key⟩ := partWriteInside wordBits disk scnd sector (data j) within
  exact bwriteSectorInside j callee key

theorem mbrReadCache :
    (mbrReadPartition table disk scnd offset count s).2.cache = s.cache := by
  unfold mbrReadPartition
  split <;> rfl

theorem mbrWriteCache (data : Nat → α) :
    (mbrWritePartition table disk scnd data offset count s).2.cache = s.cache := by
  unfold mbrWritePartition
  split
  · rfl
  · dsimp only
    split <;> rfl

theorem keptInside (same : s'.cache = s.cache) (inside : CacheInside table s) :
    CacheInside table s' := by
  unfold CacheInside
  rw [same]
  exact inside

theorem reachedInside (reached : Reached wordBits table s) :
    CacheInside table s := by
  induction reached with
  | boot s empty =>
    unfold CacheInside
    rw [empty]
    exact ⟨Lru.uniqueNil, fun e absurd' => nomatch absurd'⟩
  | request s disk scnd r before ih =>
    cases r with
    | bread offset count =>
      exact sectorLoopKeeps (P := CacheInside table) count 0 (fun j sector s inside =>
        have ⟨callee, key⟩ := partReadInside wordBits disk scnd sector inside
        (breadSectorInside j inside callee key).1) ih
    | bwrite offset count data =>
      exact sectorLoopKeeps (P := CacheInside table) count 0 (fun j sector s inside =>
        have ⟨callee, key⟩ := partWriteInside wordBits disk scnd sector (data j) inside
        (bwriteSectorInside j callee key).1) ih
    | mbrRead offset count =>
      exact keptInside mbrReadCache ih
    | mbrWrite offset count data =>
      exact keptInside (mbrWriteCache data) ih
  | rawRead s disk offset count before ih => exact breadRawInside disk offset count ih
  | rawWrite s disk offset count data before ih => exact bwriteRawInside disk offset count data ih

def Clear (s : Layer α) : Prop :=
  s.cache = [] ∧ (∀ i, s.goes i = true) ∧ ∀ i, s.room i = false

def Passes {β : Type} (call : Option β × Layer α) : Prop :=
  ∃ b s', call = (some b, s') ∧ Clear s'

theorem touchClear {lba : Nat} (clear : Clear s) : Clear (touch disk lba count s) := clear

theorem insertClear (dev : Dev) (v : α) (clear : Clear s) :
    Clear (cacheInsert dev sector v s) := by
  obtain ⟨empty, goes, full⟩ := clear
  refine ⟨?_, goes, fun i => full (i + 1)⟩
  unfold cacheInsert
  rw [empty, full 0]
  rfl

theorem driverReadPasses (disk lba : Nat) (clear : Clear s) : Passes (driverRead disk lba s) := by
  obtain ⟨empty, goes, full⟩ := clear
  refine ⟨s.sector disk lba, driverCalled s, ?_, empty, fun i => goes (i + 1), full⟩
  unfold driverRead
  rw [if_pos (goes 0)]

theorem driverWritePasses (disk lba : Nat) (v : α) (clear : Clear s) :
    Passes (driverWrite disk lba v s) := by
  obtain ⟨empty, goes, full⟩ := clear
  unfold driverWrite
  rw [if_pos (goes 0)]
  exact ⟨(), _, rfl, empty, fun i => goes (i + 1), full⟩

theorem breadSectorMiss {dev : Dev} {read : Nat → Layer α → Option α × Layer α} {v : α} (i : Nat)
    (empty : s.cache = []) (read' : read sector s = (some v, s')) :
    breadSector dev read i sector s = (some v, cacheInsert dev sector v s') := by
  unfold breadSector
  rw [empty, read']
  rfl

theorem bwriteSectorPassed {dev : Dev} {write : Nat → α → Layer α → Option Unit × Layer α}
    {data : Nat → α} (i : Nat) (write' : write sector (data i) s = (some (), s')) :
    bwriteSector dev write data i sector s = (some (), cacheInsert dev sector (data i) s') := by
  unfold bwriteSector
  rw [write']

theorem loopOnce {β : Type} {body : Nat → Nat → Layer α → Option β × Layer α} {b : β}
    (passed : body 0 ((offset + 0) % 2 ^ 32) s = (some b, s')) :
    sectorLoop body offset 1 0 s = ([b], s') := by
  unfold sectorLoop
  rw [passed]
  rfl

theorem breadRawPasses (disk sector : Nat) (clear : Clear s) :
    ∃ v s', breadRaw disk sector 1 s = ([v], s') ∧ Clear s' := by
  have touched : Clear (touch disk ((sector + 0) % 2 ^ 32) 1 s) := touchClear clear
  obtain ⟨v, s', passed, clear'⟩ := driverReadPasses disk ((sector + 0) % 2 ^ 32) touched
  exact ⟨v, _, loopOnce (breadSectorMiss 0 touched.1 passed), insertClear _ v clear'⟩

theorem bwriteRawPasses (disk sector : Nat) (data : Nat → α) (clear : Clear s) :
    ∃ v s', bwriteRaw disk data sector 1 s = ([v], s') ∧ Clear s' := by
  have touched : Clear (touch disk ((sector + 0) % 2 ^ 32) 1 s) := touchClear clear
  obtain ⟨_, s', passed, clear'⟩ :=
    driverWritePasses disk ((sector + 0) % 2 ^ 32) (data 0) touched
  exact ⟨(), _, loopOnce (bwriteSectorPassed 0 passed), insertClear _ (data 0) clear'⟩

theorem breadRawTouches (disk sector : Nat) (s : Layer α) :
    (disk, sector % 2 ^ 32) ∈ (breadRaw disk sector 1 s).2.touched := by
  unfold breadRaw
  refine sectorLoopReaches (P := fun _ => True) 1 0 0
    (fun j s => (breadRawStep disk j _ s).weaken fun _ _ => trivial)
    (fun j s _ _ high => absurd high (Nat.not_lt_zero j)) (fun s _ => ?_)
    (Nat.le_refl 0) Nat.zero_lt_one trivial
  exact (breadSectorTouched (T := fun _ => True) 0 (touchedNothing rfl)).kept
    (touchMem (Nat.le_refl _) (by omega))

theorem bwriteRawTouches (disk sector : Nat) (data : Nat → α) (s : Layer α) :
    (disk, sector % 2 ^ 32) ∈ (bwriteRaw disk data sector 1 s).2.touched := by
  unfold bwriteRaw
  refine sectorLoopReaches (P := fun _ => True) 1 0 0
    (fun j s => (bwriteRawStep disk data j _ s).weaken fun _ _ => trivial)
    (fun j s _ _ high => absurd high (Nat.not_lt_zero j)) (fun s _ => ?_)
    (Nat.le_refl 0) Nat.zero_lt_one trivial
  exact (bwriteSectorTouched (T := fun _ => True)
    (touchedNothing (driverWriteTouched disk _ _ _))).kept (touchMem (Nat.le_refl _) (by omega))

theorem notOutOfBounds (inside : sector < part.lbaCount) :
    ¬ outOfBounds wordBits part sector 1 = true := by
  have small : (sector + 1) % 2 ^ wordBits ≤ sector + 1 := Nat.mod_le _ _
  unfold outOfBounds
  simp only [ge_iff_le, gt_iff_lt, decide_eq_true_eq]
  omega

theorem partReadPasses (found : findPartition table disk scnd = some part)
    (inside : sector < part.lbaCount) (clear : Clear s) :
    Passes (partRead wordBits table disk scnd sector s) ∧
      (disk, (part.lbaStart + sector) % 2 ^ 32) ∈
        (partRead wordBits table disk scnd sector s).2.touched := by
  obtain ⟨v, s', passed, clear'⟩ := breadRawPasses disk ((part.lbaStart + sector) % 2 ^ 32) clear
  have touched := breadRawTouches disk ((part.lbaStart + sector) % 2 ^ 32) s
  unfold partRead partBlockRead
  rw [found]
  dsimp only
  rw [if_neg (notOutOfBounds inside), passed]
  rw [passed, Nat.mod_mod] at touched
  exact ⟨⟨v, s', rfl, clear'⟩, touched⟩

theorem partWritePasses (v : α) (found : findPartition table disk scnd = some part)
    (inside : sector < part.lbaCount) (clear : Clear s) :
    Passes (partWrite wordBits table disk scnd sector v s) ∧
      (disk, (part.lbaStart + sector) % 2 ^ 32) ∈
        (partWrite wordBits table disk scnd sector v s).2.touched := by
  obtain ⟨u, s', passed, clear'⟩ :=
    bwriteRawPasses disk ((part.lbaStart + sector) % 2 ^ 32) (fun _ => v) clear
  have touched := bwriteRawTouches disk ((part.lbaStart + sector) % 2 ^ 32) (fun _ => v) s
  unfold partWrite partBlockWrite
  rw [found]
  dsimp only
  rw [if_neg (notOutOfBounds inside), passed]
  rw [passed, Nat.mod_mod] at touched
  exact ⟨⟨u, s', rfl, clear'⟩, touched⟩

theorem partLoopReaches {β : Type} {body : Nat → Nat → Layer α → Option β × Layer α} {k : Nat}
    (small : part.lbaCount < 2 ^ 32) (wanted : k < count) (inside : offset + k < part.lbaCount)
    (grows : ∀ j sector s, TouchedOnly (At table disk scnd sector) s (body j sector s).2)
    (passes : ∀ j sector s, sector < part.lbaCount → Clear s → Passes (body j sector s) ∧
      (disk, (part.lbaStart + sector) % 2 ^ 32) ∈ (body j sector s).2.touched)
    (clear : Clear s) :
    (disk, (part.lbaStart + (offset + k)) % 2 ^ 32) ∈
      (sectorLoop body offset count 0 s).2.touched := by
  refine sectorLoopReaches (P := Clear) count 0 k
    (fun j s => (grows j _ s).weaken fun _ _ => trivial) (fun j s clear low high => ?_)
    (fun s clear => ?_) (Nat.zero_le k) (by omega) clear
  · rw [Nat.mod_eq_of_lt (show offset + j < 2 ^ 32 by omega)]
    exact (passes j _ s (by omega) clear).1
  · rw [Nat.mod_eq_of_lt (show offset + k < 2 ^ 32 by omega)]
    exact (passes k _ s inside clear).2

theorem breadPartReaches {k : Nat} (found : findPartition table disk scnd = some part)
    (small : part.lbaCount < 2 ^ 32) (wanted : k < count) (inside : offset + k < part.lbaCount)
    (clear : Clear s) :
    (disk, (part.lbaStart + (offset + k)) % 2 ^ 32) ∈
      (breadPart wordBits table disk scnd offset count s).2.touched := by
  refine partLoopReaches small wanted inside
    (fun j sector s => breadSectorTouched j (partReadTouched s))
    (fun j sector s below clear => ?_) clear
  obtain ⟨⟨v, s', passed, clear'⟩, touched⟩ := partReadPasses found below clear
  rw [breadSectorMiss j clear.1 passed]
  rw [passed] at touched
  exact ⟨⟨v, _, rfl, insertClear _ v clear'⟩, touched⟩

theorem bwritePartReaches {k : Nat} (data : Nat → α)
    (found : findPartition table disk scnd = some part) (small : part.lbaCount < 2 ^ 32)
    (wanted : k < count) (inside : offset + k < part.lbaCount) (clear : Clear s) :
    (disk, (part.lbaStart + (offset + k)) % 2 ^ 32) ∈
      (bwritePart wordBits table disk scnd data offset count s).2.touched := by
  refine partLoopReaches small wanted inside
    (fun j sector s => bwriteSectorTouched (partWriteTouched (data j) s))
    (fun j sector s below clear => ?_) clear
  obtain ⟨⟨_, s', passed, clear'⟩, touched⟩ := partWritePasses (data j) found below clear
  rw [bwriteSectorPassed j passed]
  rw [passed] at touched
  exact ⟨⟨(), _, rfl, insertClear _ (data j) clear'⟩, touched⟩

theorem mbrLbaSome {lba : Nat} (given : mbrPartitionLba table disk scnd offset count = some lba) :
    ∃ part, findPartition table disk scnd = some part ∧ offset < part.lbaCount ∧
      (offset + count) % 2 ^ 32 ≤ part.lbaCount ∧ lba = (part.lbaStart + offset) % 2 ^ 32 := by
  unfold mbrPartitionLba at given
  split at given
  · cases given
  · split at given
    · cases given
    · split at given
      · cases given
      · cases given
        exact ⟨_, by assumption, by omega, by omega, rfl⟩

theorem mbrLbaGiven (found : findPartition table disk scnd = some part)
    (inside : offset < part.lbaCount) (accepted : (offset + count) % 2 ^ 32 ≤ part.lbaCount) :
    mbrPartitionLba table disk scnd offset count =
      some ((part.lbaStart + offset) % 2 ^ 32) := by
  unfold mbrPartitionLba
  rw [found]
  dsimp only
  rw [if_neg (by omega), if_neg (by omega)]

theorem findPartitionSmall {sector0 : Nat → Option Buf}
    (found : findPartition (mbrTable sector0) disk scnd = some part) :
    part.lbaStart < 2 ^ 32 ∧ part.lbaCount < 2 ^ 32 := by
  unfold findPartition at found
  split at found
  · cases found
  · split at found
    · cases found
    · cases found
      unfold mbrTable mbrParseDisk mbrParseEntry noPartition
      split
      · simp
      · split
        · simp
        · split
          · dsimp only
            split
            · exact ⟨Buf.getU32Lt _ _, Buf.getU32Lt _ _⟩
            · simp
          · simp

theorem spanOwnIff (start : part.lbaStart < 2 ^ 32) (size : part.lbaCount < 2 ^ 32)
    (inside : offset < part.lbaCount) :
    (∀ l, (part.lbaStart + offset) % 2 ^ 32 ≤ l →
        l < (part.lbaStart + offset) % 2 ^ 32 + max count 1 →
        part.lbaStart ≤ l ∧ l < part.lbaStart + part.lbaCount) ↔
      offset + count ≤ part.lbaCount ∧ part.lbaStart + offset < 2 ^ 32 := by
  constructor
  · intro span
    have first := span _ (Nat.le_refl _) (by omega)
    have unwrapped : part.lbaStart + offset < 2 ^ 32 := by omega
    rw [Nat.mod_eq_of_lt unwrapped] at span
    have last := span (part.lbaStart + offset + (max count 1 - 1)) (by omega) (by omega)
    exact ⟨by omega, unwrapped⟩
  · intro fits l low high
    rw [Nat.mod_eq_of_lt fits.2] at low high
    omega

theorem mbrOwnIff {sector0 : Nat → Option Buf} {serve : Layer α → Layer α} [Inhabited α]
    (rejected : mbrPartitionLba (mbrTable sector0) disk scnd offset count = none →
      ∀ s, (serve s).touched = s.touched)
    (handed : ∀ lba, mbrPartitionLba (mbrTable sector0) disk scnd offset count = some lba →
      ∀ s, (serve s).touched = (touch disk lba (max count 1) s).touched) :
    (∀ s, Reached wordBits (mbrTable sector0) s →
        TouchedOnly (Own (mbrTable sector0) disk scnd) s (serve s)) ↔
      ∀ part, findPartition (mbrTable sector0) disk scnd = some part →
        offset < part.lbaCount → (offset + count) % 2 ^ 32 ≤ part.lbaCount →
          offset + count ≤ part.lbaCount ∧ part.lbaStart + offset < 2 ^ 32 := by
  constructor
  · intro own part found inside accepted
    obtain ⟨start, size⟩ := findPartitionSmall found
    refine (spanOwnIff start size inside).mp fun l low high => ?_
    let blank : Layer α := ⟨[], fun _ _ => default, [], fun _ => true, fun _ => true⟩
    obtain ⟨new, log, only⟩ := own blank (.boot blank rfl)
    rw [handed _ (mbrLbaGiven found inside accepted) blank] at log
    have member : (disk, l) ∈ new ++ blank.touched := log ▸ touchMem low high
    obtain ⟨part', found', _, low', high'⟩ := only _ (by simpa [blank] using member)
    cases found.symm.trans found'
    exact ⟨low', high'⟩
  · intro fits s _
    cases given : mbrPartitionLba (mbrTable sector0) disk scnd offset count with
    | none => exact touchedNothing (rejected given s)
    | some lba =>
      obtain ⟨part, found, inside, accepted, rfl⟩ := mbrLbaSome given
      obtain ⟨start, size⟩ := findPartitionSmall found
      have span := (spanOwnIff start size inside).mpr (fits part found inside accepted)
      have touched : TouchedOnly (Own (mbrTable sector0) disk scnd) s
          (touch disk ((part.lbaStart + offset) % 2 ^ 32) (max count 1) s) :=
        touchOnly fun l low high => ⟨part, found, rfl, span l low high⟩
      obtain ⟨new, log, only⟩ := touched
      exact ⟨new, (handed _ given s).trans log, only⟩

theorem blockOwnIff {sector0 : Nat → Option Buf} {serve : Layer α → Layer α} [Inhabited α]
    (sought : ∀ s, Reached wordBits (mbrTable sector0) s →
      TouchedOnly (fun t => ∃ j < count, At (mbrTable sector0) disk scnd (offset + j) t) s (serve s))
    (reaches : ∀ part k s, findPartition (mbrTable sector0) disk scnd = some part →
      k < count → offset + k < part.lbaCount → Clear s →
      (disk, (part.lbaStart + (offset + k)) % 2 ^ 32) ∈ (serve s).touched) :
    (∀ s, Reached wordBits (mbrTable sector0) s →
        TouchedOnly (Own (mbrTable sector0) disk scnd) s (serve s)) ↔
      ∀ part, findPartition (mbrTable sector0) disk scnd = some part →
        offset < part.lbaCount → 0 < count →
          part.lbaStart + min (offset + count) part.lbaCount ≤ 2 ^ 32 := by
  constructor
  · intro own part found inside some'
    obtain ⟨start, size⟩ := findPartitionSmall found
    by_contra wraps
    -- the last sector of the request that lies in the partition
    let k := min count (part.lbaCount - offset) - 1
    let blank : Layer α := ⟨[], fun _ _ => default, [], fun _ => true, fun _ => false⟩
    obtain ⟨new, log, only⟩ := own blank (.boot blank rfl)
    have member := reaches part k blank found (by omega) (by omega)
      ⟨rfl, fun _ => rfl, fun _ => rfl⟩
    rw [log] at member
    obtain ⟨part', found', _, low, high⟩ := only _ (by simpa [blank] using member)
    cases found.symm.trans found'
    dsimp only at low
    omega
  · intro fits s reached
    refine (sought s reached).weaken fun t at' => ?_
    obtain ⟨j, wanted, at'⟩ := at'
    refine atOwn at' fun part found inside => ?_
    obtain ⟨start, size⟩ := findPartitionSmall found
    have fit := fits part found (by omega) (by omega)
    omega

/-- Whatever the boot sectors hold: a request on a partition touches its sectors
only, in every layer that is reached, just when its sums do not wrap. -/
theorem partitionIsolatedIff [Inhabited α] (wordBits : Nat) (sector0 : Nat → Option Buf)
    (disk scnd : Nat) (r : Request α) :
    (∀ s, Reached wordBits (mbrTable sector0) s →
        TouchedOnly (Own (mbrTable sector0) disk scnd) s
          (serve wordBits (mbrTable sector0) disk scnd s r)) ↔
      ∀ part, findPartition (mbrTable sector0) disk scnd = some part → NoWrap part r := by
  have small : ∀ part, findPartition (mbrTable sector0) disk scnd = some part →
      part.lbaCount < 2 ^ 32 := fun part found => (findPartitionSmall found).2
  cases r with
  | bread offset count =>
    exact blockOwnIff
      (fun s reached => breadPartTouched offset.isLt small (reachedInside reached))
      (fun part k s found wanted inside clear =>
        breadPartReaches found (small part found) wanted inside clear)
  | bwrite offset count data =>
    exact blockOwnIff
      (fun s reached => bwritePartTouched data offset.isLt small (reachedInside reached))
      (fun part k s found wanted inside clear =>
        bwritePartReaches data found (small part found) wanted inside clear)
  | mbrRead offset count =>
    refine mbrOwnIff (fun rejected s => ?_) fun lba given s => ?_
    · unfold serve mbrReadPartition
      dsimp only
      rw [rejected]
    · unfold serve mbrReadPartition
      dsimp only
      rw [given]
      rfl
  | mbrWrite offset count data =>
    refine mbrOwnIff (fun rejected s => ?_) fun lba given s => ?_
    · unfold serve mbrWritePartition
      dsimp only
      rw [rejected]
    · unfold serve mbrWritePartition
      dsimp only
      rw [given]
      dsimp only
      split <;> rfl

def lastSectorMbr : Buf :=
  Function.update
    (((Buf.zero.setU16 510 MBR_SIGNATURE).setU32 454 0xFFFFFFFF).setU32 458 2) 450 0x83

/-- Writing its second sector overwrites the boot sector. -/
theorem bootSectorWritten :
    let table := mbrTable fun _ => some lastSectorMbr
    let s : Layer Nat := ⟨[], fun _ _ => 0, [], fun _ => true, fun _ => true⟩
    let s' := serve 32 table 0 1 s (.bwrite 1 1 fun _ => 7)
    findPartition table 0 1 = some ⟨true, 0x83, false, 0xFFFFFFFF, 2⟩ ∧
      s'.touched = [(0, 0)] ∧ s'.sector 0 0 = 7 ∧
      ¬ TouchedOnly (Own table 0 1) s s' := by
  intro table s s'
  have found : findPartition table 0 1 = some ⟨true, 0x83, false, 0xFFFFFFFF, 2⟩ := rfl
  have touched : s'.touched = [(0, 0)] := by decide +kernel
  refine ⟨found, touched, by decide +kernel, fun only => ?_⟩
  obtain ⟨new, log, inside⟩ := only
  rw [touched, List.append_nil] at log
  obtain ⟨part, found', _, low, _⟩ := inside (0, 0) (by rw [← log]; exact List.mem_singleton_self _)
  cases found.symm.trans found'
  exact absurd low (by decide)

end partition

end Scepter.Mbr
