import Scepter.Driver.Block
import Scepter.Lib.Prog
import Scepter.Lib.Run

/-! The zone bitmap of a mounted minix3 filesystem (minix3_alloc_zone and
minix3_free_zone of inode.c). Bit `i` of the bitmap stands for the zone
`i + data_zone_start`. The bitmap's sizes are 16-bit fields of the superblock, so
that no bit or zone number wraps. -/
namespace Scepter.Minix3.Zones

open Prog

structure Geometry where
  blockSize : Nat
  sZmapBlocks : Nat
  sZones : Nat
  dataZoneStart : Nat

structure FsInfo where
  zoneBitmap : Buf
  zmapDirty : Bool
  dev : Block.Device

variable (geo : Geometry)

def Geometry.bits : Nat := 8 * (geo.sZmapBlocks * geo.blockSize)

def clearIn (byte : Byte) : Option Nat :=
  (List.range 8).find? fun bit => byte &&& (1#8 <<< bit) = 0#8

def firstClear (bitmap : Buf) (bytes : Nat) : Option Nat :=
  (List.range bytes).findSome? fun byteIdx =>
    if bitmap byteIdx = 0xFF then none
    else (clearIn (bitmap byteIdx)).map fun bit => byteIdx * 8 + bit

def minix3AllocZone : Prog FsInfo Nat := do
  let fs ← get
  match firstClear fs.zoneBitmap (geo.sZmapBlocks * geo.blockSize) with
  | some zone =>
    if geo.sZones ≤ zone then fail
    else do
      modify fun fs => {fs with zoneBitmap := fs.zoneBitmap.setBit zone, zmapDirty := true}
      pure (zone + geo.dataZoneStart)
  | none => fail

def minix3FreeZone (zone : Nat) : Prog FsInfo Unit :=
  if zone < geo.dataZoneStart ∨ geo.sZones ≤ zone then fail
  else modify fun fs =>
    {fs with zoneBitmap := fs.zoneBitmap.clearBit (zone - geo.dataZoneStart), zmapDirty := true}

variable {geo}

section bits
variable {bitmap : Buf} {bytes : Nat}

theorem clearBitOf (byte : Byte) {bit : Nat} (small : bit < 8) :
    decide (byte &&& (1#8 <<< bit) = 0#8) = !byte.getLsbD bit := by
  have same := Bits.maskClear byte small
  cases set : byte.getLsbD bit with
  | true =>
    rw [set] at same
    simp [same]
  | false =>
    rw [set] at same
    simp [same.mpr]

theorem clearInSome {byte : Byte} {bit : Nat} (found : clearIn byte = some bit) :
    bit < 8 ∧ byte.getLsbD bit = false ∧ ∀ lower < bit, byte.getLsbD lower = true := by
  unfold clearIn at found
  rw [List.find?_range_eq_some] at found
  obtain ⟨clear, small, lower⟩ := found
  rw [List.mem_range] at small
  rw [clearBitOf byte small] at clear
  refine ⟨small, by simpa using clear, fun low below => ?_⟩
  have set := lower low below
  rw [clearBitOf byte (by omega)] at set
  simpa using set

theorem clearInNone {byte : Byte} (none_ : clearIn byte = none) {bit : Nat} (small : bit < 8) :
    byte.getLsbD bit = true := by
  unfold clearIn at none_
  have set := List.find?_eq_none.mp none_ bit (List.mem_range.mpr small)
  rw [clearBitOf byte small] at set
  simpa using set

theorem fullByte {bit : Nat} (small : bit < 8) : (0xFF : Byte).getLsbD bit = true := by
  rw [show (0xFF : Byte) = BitVec.allOnes 8 from rfl, BitVec.getLsbD_allOnes]
  exact decide_eq_true small

def Lowest (bitmap : Buf) (limit : Nat) (i : Nat) : Prop :=
  i < limit ∧ bitmap.getBit i = false ∧ ∀ lower < i, bitmap.getBit lower = true

theorem firstClearLowest : (∀ i, firstClear bitmap bytes = some i → Lowest bitmap (8 * bytes) i) ∧
    (firstClear bitmap bytes = none → ∀ i < 8 * bytes, bitmap.getBit i = true) := by
  unfold firstClear
  induction bytes with
  | zero => exact ⟨fun _ absurd' => (nomatch absurd'), fun _ i small => absurd small (by omega)⟩
  | succ bytes ih =>
    obtain ⟨found, full⟩ := ih
    rw [List.range_succ, List.findSome?_append]
    cases early : (List.range bytes).findSome? fun byteIdx =>
        if bitmap byteIdx = 0xFF then none
        else (clearIn (bitmap byteIdx)).map fun bit => byteIdx * 8 + bit with
    | some i =>
      refine ⟨fun j same => ?_, fun none_ => nomatch none_⟩
      cases same
      obtain ⟨small, clear, lower⟩ := found i early
      exact ⟨by omega, clear, lower⟩
    | none =>
      have before := full early
      have bitOf (i : Nat) (low : 8 * bytes ≤ i) (high : i < 8 * (bytes + 1)) :
          bitmap.getBit i = (bitmap bytes).getLsbD (i - 8 * bytes) := by
        unfold Buf.getBit
        rw [show i / 8 = bytes by omega, show i % 8 = i - 8 * bytes by omega]
      rw [Option.none_or, List.findSome?_singleton]
      by_cases all : bitmap bytes = 0xFF
      · rw [if_pos all]
        refine ⟨fun j absurd' => (nomatch absurd'), fun _ i small => ?_⟩
        by_cases low : i < 8 * bytes
        · exact before i low
        · rw [bitOf i (by omega) small, all, fullByte (by omega)]
      · rw [if_neg all]
        cases last : clearIn (bitmap bytes) with
        | none =>
          refine ⟨fun j absurd' => (nomatch absurd'), fun _ i small => ?_⟩
          by_cases low : i < 8 * bytes
          · exact before i low
          · rw [bitOf i (by omega) small, clearInNone last (by omega)]
        | some bit =>
          refine ⟨fun j same => ?_, fun absurd' => nomatch absurd'⟩
          obtain rfl : bytes * 8 + bit = j := Option.some.inj same
          obtain ⟨small, clear, lower⟩ := clearInSome last
          refine ⟨by omega, ?_, fun i below => ?_⟩
          · rw [bitOf _ (by omega) (by omega), show bytes * 8 + bit - 8 * bytes = bit by omega, clear]
          · by_cases low : i < 8 * bytes
            · exact before i low
            · rw [bitOf i (by omega) (by omega), lower _ (by omega)]

theorem lowestOnly {limit i j : Nat} (one : Lowest bitmap limit i) (two : Lowest bitmap limit j) :
    i = j := by
  obtain ⟨_, clear, lower⟩ := one
  obtain ⟨_, clear', lower'⟩ := two
  rcases Nat.lt_trichotomy i j with less | same | more
  · rw [lower' i less] at clear
    cases clear
  · exact same
  · rw [lower j more] at clear'
    cases clear'

end bits

section allocating
variable {fs fs' : FsInfo} {z : Nat}

def Overruns (geo : Geometry) (bitmap : Buf) : Prop :=
  ∃ i, Lowest bitmap geo.bits i ∧ i < geo.sZones ∧ geo.sZones ≤ i + geo.dataZoneStart

def Free (geo : Geometry) (bitmap : Buf) (z : Nat) : Prop :=
  geo.dataZoneStart ≤ z ∧ z < geo.sZones ∧ z - geo.dataZoneStart < geo.bits ∧
    bitmap.getBit (z - geo.dataZoneStart) = false

theorem allocZoneCases (fs : FsInfo) :
    (∃ i, Lowest fs.zoneBitmap geo.bits i ∧ i < geo.sZones ∧
      minix3AllocZone geo fs = (some (i + geo.dataZoneStart),
        {fs with zoneBitmap := fs.zoneBitmap.setBit i, zmapDirty := true})) ∨
    minix3AllocZone geo fs = (none, fs) ∧
      ∀ i, i < geo.bits → i < geo.sZones → fs.zoneBitmap.getBit i = true := by
  unfold minix3AllocZone
  rw [getBind]
  cases found : firstClear fs.zoneBitmap (geo.sZmapBlocks * geo.blockSize) with
  | none => exact Or.inr ⟨rfl, fun i small _ => firstClearLowest.2 found i small⟩
  | some i =>
    have lowest := firstClearLowest.1 i found
    dsimp only
    by_cases beyond : geo.sZones ≤ i
    · rw [if_pos beyond]
      exact Or.inr ⟨rfl, fun j _ inside => lowest.2.2 j (by omega)⟩
    · rw [if_neg beyond]
      exact Or.inl ⟨i, lowest, Nat.lt_of_not_le beyond, rfl⟩

theorem clearSet {bitmap : Buf} {i : Nat} (clear : bitmap.getBit i = false) :
    (bitmap.setBit i).clearBit i = bitmap := by
  funext o
  refine BitVec.eq_of_getLsbD_eq fun bit small => ?_
  have same := Buf.getBitClear (bitmap.setBit i) i (8 * o + bit)
  rw [Buf.getBitSet] at same
  unfold Buf.getBit at same clear
  rw [show (8 * o + bit) / 8 = o by omega, show (8 * o + bit) % 8 = bit by omega] at same
  rw [same]
  split <;> rename_i here
  · rw [← here, show (8 * o + bit) / 8 = o by omega, show (8 * o + bit) % 8 = bit by omega] at clear
    exact clear.symm
  · rfl

theorem freeZoneInside (inside : geo.dataZoneStart ≤ z ∧ z < geo.sZones) (fs : FsInfo) :
    minix3FreeZone geo z fs = (some (), {fs with
      zoneBitmap := fs.zoneBitmap.clearBit (z - geo.dataZoneStart), zmapDirty := true}) := by
  unfold minix3FreeZone
  rw [if_neg (by omega)]
  rfl

end allocating

/-! ## Runs of allocations and frees -/

inductive Call where
  | alloc
  | free (zone : Nat)
  deriving DecidableEq

structure Ledger where
  fs : FsInfo
  out : List Nat

def step (geo : Geometry) (s : Ledger) : Call → Option Ledger
  | .alloc => match minix3AllocZone geo s.fs with
    | (some z, fs) => some ⟨fs, z :: s.out⟩
    | (none, fs) => some ⟨fs, s.out⟩
  | .free zone => match minix3FreeZone geo zone s.fs with
    | (some (), fs) => some ⟨fs, s.out.filter (· ≠ zone)⟩
    | (none, fs) => some ⟨fs, s.out⟩

def Marked (geo : Geometry) (s : Ledger) : Prop :=
  ∀ z ∈ s.out, geo.dataZoneStart ≤ z ∧ s.fs.zoneBitmap.getBit (z - geo.dataZoneStart) = true

/-- The next allocation hands out a zone of the disk that was free, is used
afterwards and was not handed out before, whose freeing brings the bitmap back; it
fails only without such a zone. -/
structure Right (geo : Geometry) (s : Ledger) : Prop where
  gives : ∀ z fs, minix3AllocZone geo s.fs = (some z, fs) →
    Free geo s.fs.zoneBitmap z ∧ z ∉ s.out ∧
      (∀ i, fs.zoneBitmap.getBit i =
        if i = z - geo.dataZoneStart then true else s.fs.zoneBitmap.getBit i) ∧
      ∃ fs', minix3FreeZone geo z fs = (some (), fs') ∧ fs'.zoneBitmap = s.fs.zoneBitmap
  fails : ∀ fs, minix3AllocZone geo s.fs = (none, fs) →
    fs = s.fs ∧ ∀ z, ¬ Free geo s.fs.zoneBitmap z

section running
variable {s t : Ledger} {c : Call}

theorem stepMarked (s : Ledger) (c : Call) (t : Ledger) (marked : Marked geo s)
    (stepped : step geo s c = some t) : Marked geo t := by
  unfold step at stepped
  cases c with
  | alloc =>
    rcases allocZoneCases s.fs with ⟨i, lowest, inside, ran⟩ | ⟨ran, _⟩
    · rw [ran] at stepped
      cases stepped
      intro z member
      rcases List.mem_cons.mp member with rfl | old
      · refine ⟨Nat.le_add_left _ _, ?_⟩
        rw [Buf.getBitSet, Nat.add_sub_cancel, if_pos rfl]
      · obtain ⟨low, set⟩ := marked z old
        refine ⟨low, ?_⟩
        rw [Buf.getBitSet, set]
        split <;> rfl
    · rw [ran] at stepped
      cases stepped
      exact marked
  | free zone =>
    dsimp only at stepped
    by_cases inside : geo.dataZoneStart ≤ zone ∧ zone < geo.sZones
    · rw [freeZoneInside inside] at stepped
      cases stepped
      intro z member
      obtain ⟨old, other⟩ := List.mem_filter.mp member
      obtain ⟨low, set⟩ := marked z old
      have differ : z ≠ zone := by simpa using other
      refine ⟨low, ?_⟩
      rw [Buf.getBitClear, if_neg (by omega), set]
    · rw [minix3FreeZone, if_pos (by omega)] at stepped
      cases stepped
      exact marked

theorem rightIff (marked : Marked geo s) : Right geo s ↔ ¬ Overruns geo s.fs.zoneBitmap := by
  constructor
  · rintro right ⟨i, lowest, inside, beyond⟩
    rcases allocZoneCases s.fs with ⟨j, lowest', _, ran⟩ | ⟨_, full⟩
    · obtain rfl := lowestOnly lowest lowest'
      have bound := (right.gives _ _ ran).1.2.1
      omega
    · have set := full i lowest.1 inside
      rw [lowest.2.1] at set
      cases set
  · intro fits
    constructor
    · intro z fs ran
      rcases allocZoneCases s.fs with ⟨i, lowest, inside, ran'⟩ | ⟨ran', _⟩
      · cases ran.symm.trans ran'
        have short : i + geo.dataZoneStart < geo.sZones :=
          Nat.lt_of_not_le fun beyond => fits ⟨i, lowest, inside, beyond⟩
        have bit : i + geo.dataZoneStart - geo.dataZoneStart = i := Nat.add_sub_cancel _ _
        refine ⟨⟨Nat.le_add_left _ _, short, ?_, ?_⟩, fun member => ?_, fun j => ?_, ?_⟩
        · rw [bit]
          exact lowest.1
        · rw [bit]
          exact lowest.2.1
        · have set := (marked _ member).2
          rw [bit, lowest.2.1] at set
          cases set
        · rw [Buf.getBitSet, bit]
        · refine ⟨_, freeZoneInside ⟨Nat.le_add_left _ _, short⟩ _, ?_⟩
          dsimp only
          rw [bit, clearSet lowest.2.1]
      · cases ran.symm.trans ran'
    · intro fs ran
      rcases allocZoneCases s.fs with ⟨i, _, _, ran'⟩ | ⟨ran', full⟩
      · cases ran.symm.trans ran'
      · cases ran.symm.trans ran'
        refine ⟨rfl, fun z free => ?_⟩
        obtain ⟨low, high, small, clear⟩ := free
        rw [full _ small (by omega)] at clear
        cases clear

/-- In every state that allocations and frees lead to, the next allocation is right
just when the lowest clear bit does not stand for a zone behind the end of the disk. -/
theorem zonesRightIff (geo : Geometry) (fs : FsInfo) (calls : List Call) (s : Ledger)
    (ran : Run.run (step geo) ⟨fs, []⟩ calls = some s) :
    Right geo s ↔ ¬ Overruns geo s.fs.zoneBitmap :=
  rightIff (Run.invariant stepMarked (fun _ member => absurd member List.not_mem_nil) ran)

def small : Geometry := ⟨1024, 1, 40, 10⟩

def nearlyFull : FsInfo := ⟨fun o => if o < 3 then 0xFF else if o = 3 then 0x3F else 0, false, ⟨fun _ _ => 0, [], []⟩⟩

theorem nearlyFullLowest : Lowest nearlyFull.zoneBitmap small.bits 30 := by
  refine ⟨by decide, by decide, fun lower below => ?_⟩
  have all : ∀ i : Fin 30, nearlyFull.zoneBitmap.getBit i = true := by decide
  exact all ⟨lower, below⟩

theorem firstZoneRight : Right small ⟨⟨Buf.zero, false, nearlyFull.dev⟩, []⟩ := by
  refine (zonesRightIff small ⟨Buf.zero, false, nearlyFull.dev⟩ [] _ rfl).mpr ?_
  rintro ⟨i, lowest, _, beyond⟩
  have first : Lowest Buf.zero small.bits 0 := ⟨by decide, rfl, fun _ below => absurd below (by omega)⟩
  rw [lowestOnly lowest first] at beyond
  exact absurd beyond (by decide)

/-- The allocation hands out zone 40 of a disk with the zones 0 to 39. -/
theorem zoneBeyondEnd : ∃ fs, minix3AllocZone small nearlyFull = (some 40, fs) ∧
    ¬ 40 < small.sZones ∧ (minix3FreeZone small 40 fs).1 = none := by
  rcases @allocZoneCases small nearlyFull with ⟨i, lowest, _, ran⟩ | ⟨_, full⟩
  · obtain rfl := lowestOnly nearlyFullLowest lowest
    exact ⟨_, ran, by decide, rfl⟩
  · have set := full 30 (by decide) (by decide)
    rw [nearlyFullLowest.2.1] at set
    cases set

end running

end Scepter.Minix3.Zones
