import Scepter.Driver.Coherence
import Scepter.Lib.CInt

/-! What the results of bread and bwrite (block.c) say about the sectors that were moved, and
what ext2_read_block and minix3_read_inode make of them. Both filesystems take every result
that is not negative for a whole block. -/
namespace Scepter.Transfers
open Mbr (Dev Table Layer Partition sectorLoop breadSector bwriteSector driverRead driverWrite
  touch breadRaw bwriteRaw breadPart bwritePart partRead partWrite findPartition outOfBounds)
open Coherence (Place absSector rawKey)

def CACHE_BLOCK_SIZE : Nat := 512
def MINIX3_INODE_SIZE : Nat := 64

/-- The return value where `moved` of `count` sectors have been moved. The drivers report every
failure as -1. -/
def returned (moved count : Nat) : Int :=
  if moved = count then CInt.int (count * CACHE_BLOCK_SIZE)
  else if 0 < moved then CInt.int (moved * CACHE_BLOCK_SIZE) else -1

section calls
variable {α : Type} (wordBits : Nat) (table : Table) (registered : Dev → Bool)

def readSectors : Dev → Nat → Nat → Layer α → List α × Layer α
  | .raw disk => breadRaw disk
  | .part disk scnd => breadPart wordBits table disk scnd

def writeSectors (data : Nat → α) : Dev → Nat → Nat → Layer α → List Unit × Layer α
  | .raw disk => bwriteRaw disk data
  | .part disk scnd => bwritePart wordBits table disk scnd data

def bread (dev : Dev) (offset count : Nat) (s : Layer α) : Int × List α × Layer α :=
  if !registered dev then (-1, [], s)
  else
    let read := readSectors wordBits table dev offset count s
    (returned read.1.length count, read)

def bwrite (data : Nat → α) (dev : Dev) (offset count : Nat) (s : Layer α) :
    Int × List Unit × Layer α :=
  if !registered dev then (-1, [], s)
  else
    let wrote := writeSectors wordBits table data dev offset count s
    (returned wrote.1.length count, wrote)

structure Ext2Fs where
  dev : Dev
  blocksCount : Nat
  blockSize : Nat

def ext2ReadBlock (fs : Ext2Fs) (block : Nat) (s : Layer α) : Int × List α × Layer α :=
  if block ≥ fs.blocksCount then (-1, [], s)
  else
    let sectors := fs.blockSize / 512
    bread wordBits table registered fs.dev (block * sectors % 2 ^ 32) sectors s

structure Minix3Fs where
  dev : Dev
  ninodes : Nat
  inodeTableBlock : Nat
  blockSize : Nat

def Minix3Fs.inodeSector (fs : Minix3Fs) (ino : Nat) : Nat :=
  let inodeBlock := (fs.inodeTableBlock + (ino - 1) * MINIX3_INODE_SIZE % 2 ^ 32 / fs.blockSize)
    % 2 ^ 32
  inodeBlock * (fs.blockSize / 512) % 2 ^ 32

/-- The inode is taken from a buffer that holds `stack` where no sector has been read to. -/
def minix3ReadInode (fs : Minix3Fs) (ino : Nat) (stack : Buf) (s : Layer Buf) :
    Int × List Buf × Option Buf :=
  if ino = 0 ∨ ino > fs.ninodes then (-1, [], none)
  else
    let read := bread wordBits table registered fs.dev (fs.inodeSector ino) (fs.blockSize / 512) s
    if read.1 < 0 then (-1, read.2.1, none)
    else
      let buf : Buf := fun o => match read.2.1[o / 512]? with
        | some sector => sector (o % 512)
        | none => stack o
      let offsetInBlock := (ino - 1) * MINIX3_INODE_SIZE % 2 ^ 32 % fs.blockSize
      (0, read.2.1, some fun o => buf (offsetInBlock + o))

/-! ## When a sector is refused -/

def RefusesRead (dev : Dev) (sector : Nat) (s : Layer α) : Prop :=
  Lru.find (dev, sector) s.cache = none ∧
    ∀ place, absSector wordBits table dev sector = some place →
      Lru.find (rawKey place) s.cache = none ∧ s.goes 0 = false

def RefusesWrite (dev : Dev) (sector : Nat) (s : Layer α) : Prop :=
  ∀ place, absSector wordBits table dev sector = some place → s.goes 0 = false

def readStep (dev : Dev) (i sector : Nat) (s : Layer α) : Option α × Layer α :=
  match dev with
  | .raw disk => breadSector (.raw disk) (driverRead disk) i sector (touch disk sector 1 s)
  | .part disk scnd => breadSector dev (partRead wordBits table disk scnd) i sector s

def writeStep (data : Nat → α) (dev : Dev) (i sector : Nat) (s : Layer α) :
    Option Unit × Layer α :=
  match dev with
  | .raw disk => bwriteSector (.raw disk) (driverWrite disk) data i sector (touch disk sector 1 s)
  | .part disk scnd => bwriteSector dev (partWrite wordBits table disk scnd) data i sector s

end calls

section loop
variable {α β : Type} {body : Nat → Nat → Layer α → Option β × Layer α}
  {refuses : Nat → Layer α → Prop}

def StopsAt (refuses : Nat → Layer α → Prop) (next : Nat → Nat → Layer α → Layer α)
    (offset : Nat) : Nat → Nat → Layer α → Prop
  | 0, i, s => refuses ((offset + i) % 2 ^ 32) s
  | k + 1, i, s => ¬refuses ((offset + i) % 2 ^ 32) s ∧
    StopsAt refuses next offset k (i + 1) (next i ((offset + i) % 2 ^ 32) s)

theorem loopLength (agrees : ∀ i sector s, (body i sector s).1 = none ↔ refuses sector s)
    (offset left : Nat) : ∀ (i : Nat) (s : Layer α),
      (sectorLoop body offset left i s).1.length ≤ left ∧
      ∀ k < left, (sectorLoop body offset left i s).1.length = k ↔
        StopsAt refuses (fun i sector s => (body i sector s).2) offset k i s := by
  induction left with
  | zero => exact fun i s => ⟨Nat.le_refl 0, nofun⟩
  | succ left ih =>
    intro i s
    have here := agrees i ((offset + i) % 2 ^ 32) s
    rw [sectorLoop]
    cases did : body i ((offset + i) % 2 ^ 32) s with
    | mk taken s' =>
      rw [did] at here
      cases taken with
      | none =>
        have refused := here.mp rfl
        refine ⟨Nat.zero_le _, fun k _ => ?_⟩
        cases k with
        | zero => exact iff_of_true rfl refused
        | succ k => exact iff_of_false nofun fun stops => stops.1 refused
      | some b =>
        have served : ¬refuses ((offset + i) % 2 ^ 32) s := fun refused => nomatch here.mpr refused
        obtain ⟨most, rest⟩ := ih (i + 1) s'
        refine ⟨Nat.succ_le_succ most, fun k inside => ?_⟩
        cases k with
        | zero => exact iff_of_false nofun served
        | succ k =>
          have next := rest k (Nat.lt_of_succ_lt_succ inside)
          have behind : (body i ((offset + i) % 2 ^ 32) s).2 = s' := by rw [did]
          dsimp only [StopsAt]
          rw [behind, ← next]
          exact ⟨fun length => ⟨served, Nat.succ.inj length⟩,
            fun stops => congrArg Nat.succ stops.2⟩

theorem failed : ¬(0 : Int) ≤ -1 := by decide

theorem returnedWhole {moved count : Nat} (most : moved ≤ count) :
    (0 ≤ returned moved count → moved = count) ↔
      (0 < moved → moved < count → 2 ^ 22 ≤ moved % 2 ^ 23) := by
  have sign : 0 ≤ CInt.int (moved * CACHE_BLOCK_SIZE) ↔ moved % 2 ^ 23 < 2 ^ 22 := by
    unfold CInt.int CACHE_BLOCK_SIZE
    omega
  unfold returned
  by_cases whole : moved = count
  · exact iff_of_true (fun _ => whole) fun _ fewer => absurd whole (Nat.ne_of_lt fewer)
  · rw [if_neg whole]
    by_cases none : 0 < moved
    · rw [if_pos none, sign]
      have fewer : moved < count := Nat.lt_of_le_of_ne most whole
      exact ⟨fun full _ _ => Nat.not_lt.mp fun short => whole (full short),
        fun wraps short => absurd (wraps none fewer) (Nat.not_le.mpr short)⟩
    · rw [if_neg none]
      exact iff_of_true (fun success => absurd success failed) fun some' => absurd some' none

theorem wholeIff (agrees : ∀ i sector s, (body i sector s).1 = none ↔ refuses sector s)
    (offset count : Nat) (s : Layer α) :
    (0 ≤ returned (sectorLoop body offset count 0 s).1.length count →
        (sectorLoop body offset count 0 s).1.length = count) ↔
      ∀ k, 0 < k → k < count →
        StopsAt refuses (fun i sector s => (body i sector s).2) offset k 0 s →
          2 ^ 22 ≤ k % 2 ^ 23 := by
  obtain ⟨most, stops⟩ := loopLength agrees offset count 0 s
  rw [returnedWhole most]
  constructor
  · intro wraps k first inside here
    have length := (stops k inside).mpr here
    rw [length] at wraps
    exact wraps first inside
  · intro wraps first inside
    exact wraps _ first inside ((stops _ inside).mp rfl)

end loop

section sectors
variable {α : Type} {wordBits : Nat} {table : Table}

theorem breadSectorNone {dev : Dev} {read : Nat → Layer α → Option α × Layer α} {i sector : Nat}
    {s : Layer α} :
    (breadSector dev read i sector s).1 = none ↔
      Lru.find (dev, sector) s.cache = none ∧ (read sector s).1 = none := by
  unfold breadSector Lru.lookup
  cases Lru.find (dev, sector) s.cache with
  | some e => exact iff_of_false nofun fun both => nomatch both.1
  | none =>
    dsimp only [Option.map_none]
    cases read sector s with
    | mk taken s' => cases taken with
      | none => exact iff_of_true rfl ⟨rfl, rfl⟩
      | some v => exact iff_of_false nofun fun both => nomatch both.2

theorem bwriteSectorNone {dev : Dev} {write : Nat → α → Layer α → Option Unit × Layer α}
    {data : Nat → α} {i sector : Nat} {s : Layer α} :
    (bwriteSector dev write data i sector s).1 = none ↔ (write sector (data i) s).1 = none := by
  unfold bwriteSector
  cases write sector (data i) s with
  | mk taken s' => cases taken with
    | none => exact Iff.rfl
    | some _ => exact iff_of_false nofun nofun

theorem rawReadNone (disk i sector : Nat) (s : Layer α) :
    (breadSector (.raw disk) (driverRead disk) i sector (touch disk sector 1 s)).1 = none ↔
      Lru.find (.raw disk, sector) s.cache = none ∧ s.goes 0 = false := by
  rw [breadSectorNone]
  refine and_congr Iff.rfl ?_
  unfold driverRead
  change (if s.goes 0 = true then some _ else none) = none ↔ _
  cases s.goes 0 with
  | true => exact iff_of_false nofun nofun
  | false => exact iff_of_true rfl rfl

theorem rawWriteNone (disk : Nat) (data : Nat → α) (i sector : Nat) (s : Layer α) :
    (bwriteSector (.raw disk) (driverWrite disk) data i sector (touch disk sector 1 s)).1 = none ↔
      s.goes 0 = false := by
  rw [bwriteSectorNone]
  unfold driverWrite
  cases goes : (touch disk sector 1 s).goes 0 with
  | true => exact iff_of_false nofun fun refused => nomatch goes.symm.trans refused
  | false => exact iff_of_true rfl goes

theorem oneSector {β : Type} (body : Nat → Nat → Layer α → Option β × Layer α) (lba : Nat)
    (s : Layer α) : (sectorLoop body lba 1 0 s).1.head? = (body 0 (lba % 2 ^ 32) s).1 := by
  rw [sectorLoop, Nat.add_zero]
  cases body 0 (lba % 2 ^ 32) s with
  | mk taken s' => cases taken <;> rfl

theorem absPart (disk scnd sector : Nat) :
    absSector wordBits table (.part disk scnd) sector =
      (findPartition table disk scnd).bind fun part =>
        if outOfBounds wordBits part sector 1 then none
        else some (disk, (part.lbaStart + sector) % 2 ^ 32) := by
  unfold absSector
  dsimp only
  cases findPartition table disk scnd <;> rfl

theorem oneSectorNone {β : Type} (body : Nat → Nat → Layer α → Option β × Layer α)
    (refused : Place → Prop) (disk lba : Nat) (s : Layer α)
    (agrees : ∀ sector, (body 0 sector s).1 = none ↔ refused (disk, sector)) :
    (sectorLoop body (lba % 2 ^ 32) 1 0 s).1.head? = none ↔
      ∀ place, some (disk, lba % 2 ^ 32) = some place → refused place := by
  rw [oneSector, Nat.mod_mod, agrees]
  exact ⟨fun here place same => Option.some.inj same ▸ here, fun all => all _ rfl⟩

theorem partReadNone (disk scnd sector : Nat) (s : Layer α) :
    (partRead wordBits table disk scnd sector s).1 = none ↔
      ∀ place, absSector wordBits table (.part disk scnd) sector = some place →
        Lru.find (rawKey place) s.cache = none ∧ s.goes 0 = false := by
  unfold partRead Mbr.partBlockRead
  rw [absPart]
  cases findPartition table disk scnd with
  | none => exact iff_of_true rfl fun _ here => nomatch here
  | some part =>
    dsimp only [Option.bind_some]
    by_cases outside : outOfBounds wordBits part sector 1 = true
    · rw [if_pos outside, if_pos outside]
      exact iff_of_true rfl fun _ here => nomatch here
    · rw [if_neg outside, if_neg outside]
      exact oneSectorNone
        (fun i sector s =>
          breadSector (.raw disk) (driverRead disk) i sector (touch disk sector 1 s))
        (fun place => Lru.find (rawKey place) s.cache = none ∧ s.goes 0 = false)
        disk (part.lbaStart + sector) s fun sector => rawReadNone disk 0 sector s

theorem partWriteNone (disk scnd sector : Nat) (v : α) (s : Layer α) :
    (partWrite wordBits table disk scnd sector v s).1 = none ↔
      ∀ place, absSector wordBits table (.part disk scnd) sector = some place →
        s.goes 0 = false := by
  unfold partWrite Mbr.partBlockWrite
  rw [absPart]
  cases findPartition table disk scnd with
  | none => exact iff_of_true rfl fun _ here => nomatch here
  | some part =>
    dsimp only [Option.bind_some]
    by_cases outside : outOfBounds wordBits part sector 1 = true
    · rw [if_pos outside, if_pos outside]
      exact iff_of_true rfl fun _ here => nomatch here
    · rw [if_neg outside, if_neg outside]
      exact oneSectorNone
        (fun i sector s =>
          bwriteSector (.raw disk) (driverWrite disk) (fun _ => v) i sector (touch disk sector 1 s))
        (fun _ => s.goes 0 = false)
        disk (part.lbaStart + sector) s fun sector => rawWriteNone disk (fun _ => v) 0 sector s

theorem readStepNone (dev : Dev) (i sector : Nat) (s : Layer α) :
    (readStep wordBits table dev i sector s).1 = none ↔
      RefusesRead wordBits table dev sector s := by
  cases dev with
  | raw disk =>
    refine (rawReadNone disk i sector s).trans ⟨fun refused => ⟨refused.1, fun place here => ?_⟩,
      fun refused => refused.2 _ rfl⟩
    cases here
    exact refused
  | part disk scnd =>
    exact (@breadSectorNone _ _ _ i _ s).trans
      (and_congr Iff.rfl (partReadNone disk scnd sector s))

theorem writeStepNone (data : Nat → α) (dev : Dev) (i sector : Nat) (s : Layer α) :
    (writeStep wordBits table data dev i sector s).1 = none ↔
      RefusesWrite wordBits table dev sector s := by
  cases dev with
  | raw disk =>
    exact (rawWriteNone disk data i sector s).trans
      ⟨fun refused _ _ => refused, fun refused => refused _ rfl⟩
  | part disk scnd => exact bwriteSectorNone.trans (partWriteNone disk scnd sector _ s)

end sectors

section requests
variable {α : Type} (wordBits : Nat) (table : Table)

/-- No sector of the request but the first is the first to be refused; a count of bytes that
is negative as an int does not pass for success. -/
def ReadsWhole (dev : Dev) (offset count : Nat) (s : Layer α) : Prop :=
  ∀ k, 0 < k → k < count →
    StopsAt (RefusesRead wordBits table dev)
      (fun i sector s => (readStep wordBits table dev i sector s).2) offset k 0 s →
    2 ^ 22 ≤ k % 2 ^ 23

def WritesWhole (data : Nat → α) (dev : Dev) (offset count : Nat) (s : Layer α) : Prop :=
  ∀ k, 0 < k → k < count →
    StopsAt (RefusesWrite wordBits table dev)
      (fun i sector s => (writeStep wordBits table data dev i sector s).2) offset k 0 s →
    2 ^ 22 ≤ k % 2 ^ 23

variable {wordBits table}

theorem readSectorsLoop (dev : Dev) (offset count : Nat) (s : Layer α) :
    readSectors wordBits table dev offset count s =
      sectorLoop (readStep wordBits table dev) offset count 0 s := by
  cases dev <;> rfl

theorem writeSectorsLoop (data : Nat → α) (dev : Dev) (offset count : Nat) (s : Layer α) :
    writeSectors wordBits table data dev offset count s =
      sectorLoop (writeStep wordBits table data dev) offset count 0 s := by
  cases dev <;> rfl

theorem breadWhole (registered : Dev → Bool) (dev : Dev) (offset count : Nat) (s : Layer α) :
    (0 ≤ (bread wordBits table registered dev offset count s).1 →
        (bread wordBits table registered dev offset count s).2.1.length = count) ↔
      (registered dev = true → ReadsWhole wordBits table dev offset count s) := by
  unfold bread
  cases registered dev with
  | false => exact iff_of_true (fun success => absurd success failed) nofun
  | true =>
    rw [if_neg (by decide)]
    dsimp only
    rw [readSectorsLoop, wholeIff (readStepNone dev)]
    exact ⟨fun whole _ => whole, fun whole => whole rfl⟩

theorem bwriteWhole (registered : Dev → Bool) (data : Nat → α) (dev : Dev) (offset count : Nat)
    (s : Layer α) :
    (0 ≤ (bwrite wordBits table registered data dev offset count s).1 →
        (bwrite wordBits table registered data dev offset count s).2.1.length = count) ↔
      (registered dev = true → WritesWhole wordBits table data dev offset count s) := by
  unfold bwrite
  cases registered dev with
  | false => exact iff_of_true (fun success => absurd success failed) nofun
  | true =>
    rw [if_neg (by decide)]
    dsimp only
    rw [writeSectorsLoop, wholeIff (writeStepNone data dev)]
    exact ⟨fun whole _ => whole, fun whole => whole rfl⟩

theorem ext2Whole (registered : Dev → Bool) (fs : Ext2Fs) (block : Nat) (s : Layer α) :
    (0 ≤ (ext2ReadBlock wordBits table registered fs block s).1 →
        (ext2ReadBlock wordBits table registered fs block s).2.1.length = fs.blockSize / 512) ↔
      (block < fs.blocksCount → registered fs.dev = true →
        ReadsWhole wordBits table fs.dev (block * (fs.blockSize / 512) % 2 ^ 32)
          (fs.blockSize / 512) s) := by
  unfold ext2ReadBlock
  by_cases outside : block ≥ fs.blocksCount
  · rw [if_pos outside]
    exact iff_of_true (fun success => absurd success failed)
      fun inside => absurd outside (Nat.not_le.mpr inside)
  · rw [if_neg outside]
    dsimp only
    rw [breadWhole]
    exact ⟨fun whole _ => whole, fun whole => whole (Nat.not_le.mp outside)⟩

theorem minix3Whole (registered : Dev → Bool) (fs : Minix3Fs) (ino : Nat) (stack : Buf)
    (s : Layer Buf) :
    (0 ≤ (minix3ReadInode wordBits table registered fs ino stack s).1 →
        (minix3ReadInode wordBits table registered fs ino stack s).2.1.length =
          fs.blockSize / 512) ↔
      (0 < ino → ino ≤ fs.ninodes → registered fs.dev = true →
        ReadsWhole wordBits table fs.dev (fs.inodeSector ino) (fs.blockSize / 512) s) := by
  unfold minix3ReadInode
  by_cases invalid : ino = 0 ∨ ino > fs.ninodes
  · rw [if_pos invalid]
    exact iff_of_true (fun success => absurd success failed) fun first last => by omega
  · rw [if_neg invalid]
    dsimp only
    have valid : 0 < ino ∧ ino ≤ fs.ninodes := by omega
    have whole := @breadWhole _ wordBits table registered fs.dev (fs.inodeSector ino)
      (fs.blockSize / 512) s
    refine Iff.trans ?_ (whole.trans ⟨fun reads _ _ => reads, fun reads => reads valid.1 valid.2⟩)
    by_cases negative :
        (bread wordBits table registered fs.dev (fs.inodeSector ino) (fs.blockSize / 512) s).1 < 0
    · rw [if_pos negative]
      exact iff_of_true (fun success => absurd success failed)
        fun success => absurd negative (Int.not_lt.mpr success)
    · rw [if_neg negative]
      exact ⟨fun reads _ => reads (Int.le_refl 0), fun reads _ => reads (Int.not_lt.mp negative)⟩

end requests

def threeSectors : Table := fun disk i =>
  if disk = 0 ∧ i = 0 then ⟨true, 0x83, false, 2048, 3⟩ else Mbr.noPartition

end Scepter.Transfers
