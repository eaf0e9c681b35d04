import Scepter.Driver.Partition
import Scepter.Kernel.Errno
import Scepter.Lib.Run
import Mathlib.Algebra.Group.Int.Defs

/-! An open block device node of devfs (fs/devfs.c over driver/block/block.c), and what it
should be: a byte file over the device's sectors. The caller's memory starts at its buffer.
How each driver call of an operation goes comes with the action; one that fails leaves the
disk as it was. Entries that the sector cache has of other devices are left out. -/
namespace Scepter.DevBlock
open Mbr (CACHE_MAX_ENTRIES)

def CACHE_BLOCK_SIZE : Nat := 512

inductive Whence where
  | set | cur | end_
  deriving DecidableEq

structure State where
  disk : Nat → Buf
  cache : List (Nat × Buf)
  -- the offset of the open file
  offset : Nat

/-- Of call `i` of the driver: whether it succeeds, and whether its block finds room in the
cache. -/
structure Driver where
  moves : Nat → Bool
  room : Nat → Bool

structure Out where
  ret : Int
  -- the caller's memory, and where it was read
  mem : Buf
  reads : List Nat

def putSector (out : Buf) (i : Nat) (tmp : Buf) : Buf := fun o =>
  if i * CACHE_BLOCK_SIZE ≤ o ∧ o < i * CACHE_BLOCK_SIZE + CACHE_BLOCK_SIZE
  then tmp (o - i * CACHE_BLOCK_SIZE) else out o

def transferred (moved count : Nat) : Int :=
  if moved < count then
    if 0 < moved then cInt (moved * CACHE_BLOCK_SIZE) else -1
  else cInt (count * CACHE_BLOCK_SIZE)

def breadLoop (driver : Driver) (disk : Nat → Buf) (offset : Nat) :
    Nat → Nat → Buf → List (Nat × Buf) → Nat × Buf × List (Nat × Buf)
  | 0, i, out, cache => (i, out, cache)
  | n + 1, i, out, cache =>
    let sector := (offset + i) % 2 ^ 32
    match Lru.lookup cache sector with
    | some (tmp, cache) => breadLoop driver disk offset n (i + 1) (putSector out i tmp) cache
    | none =>
      if driver.moves i then
        breadLoop driver disk offset n (i + 1) (putSector out i (disk sector))
          (Lru.insert CACHE_MAX_ENTRIES (driver.room i) cache sector (disk sector))
      else (i, out, cache)

def bread (driver : Driver) (s : State) (mem : Buf) (offset count : Nat) : Out × State :=
  let (moved, mem, cache) := breadLoop driver s.disk offset count 0 mem s.cache
  (⟨transferred moved count, mem, []⟩, {s with cache := cache})

def srcSector (mem : Buf) (i : Nat) : Buf := fun b => mem (i * CACHE_BLOCK_SIZE + b)

def srcReads (i : Nat) : List Nat := List.range' (i * CACHE_BLOCK_SIZE) CACHE_BLOCK_SIZE

def bwriteLoop (driver : Driver) (mem : Buf) (offset : Nat) :
    Nat → Nat → State → Nat × List Nat × State
  | 0, i, s => (i, [], s)
  | n + 1, i, s =>
    let sector := (offset + i) % 2 ^ 32
    if driver.moves i then
      let (moved, reads, t) := bwriteLoop driver mem offset n (i + 1)
        {s with disk := Function.update s.disk sector (srcSector mem i),
                cache := Lru.insert CACHE_MAX_ENTRIES (driver.room i) s.cache sector (srcSector mem i)}
      (moved, srcReads i ++ reads, t)
    else (i, srcReads i, s)

def bwrite (driver : Driver) (s : State) (mem : Buf) (offset count : Nat) : Out × State :=
  let (moved, reads, t) := bwriteLoop driver mem offset count 0 s
  (⟨transferred moved count, mem, reads⟩, t)

/-- The offset is a uint32_t. -/
def advanced (s : State) (ret : Int) : State :=
  if 0 < ret then {s with offset := (s.offset + ret.toNat) % 2 ^ 32} else s

def sectorCount (count : Nat) : Nat := (count + 511) % 2 ^ 32 / 512

def devfsRead (driver : Driver) (s : State) (mem : Buf) (count : Nat) : Out × State :=
  if count = 0 then (⟨0, mem, []⟩, s)
  else
    let (out, t) := bread driver s mem (s.offset / 512) (sectorCount count)
    (out, advanced t out.ret)

def devfsWrite (driver : Driver) (s : State) (mem : Buf) (count : Nat) : Out × State :=
  if count = 0 then (⟨0, mem, []⟩, s)
  else
    let (out, t) := bwrite driver s mem (s.offset / 512) (sectorCount count)
    (out, advanced t out.ret)

def seekTo (s : State) (offset : BitVec 32) : Whence → Option Int
  | .set => if offset.toInt < 0 then none else some offset.toInt
  | .cur =>
    let pos := (cInt s.offset + offset.toInt).bmod (2 ^ 32)
    if pos < 0 then none else some pos
  | .end_ => none

def devfsSeek (s : State) (offset : BitVec 32) (whence : Whence) : Int × State :=
  match seekTo s offset whence with
  | none => (-1, s)
  | some pos => (pos, {s with offset := pos.toNat})

inductive Action where
  | read (driver : Driver) (mem : Buf) (count : Nat)
  | write (driver : Driver) (mem : Buf) (count : Nat)
  | seek (offset : BitVec 32) (whence : Whence)

def step (s : State) : Action → Out × State
  | .read driver mem count => devfsRead driver s mem count
  | .write driver mem count => devfsWrite driver s mem count
  | .seek offset whence => (⟨(devfsSeek s offset whence).1, Buf.zero, []⟩,
      (devfsSeek s offset whence).2)

/-! ## The byte file -/

@[ext]
structure File where
  byte : Nat → Byte
  offset : Nat

def File.moved (f : File) (n : Nat) : File := {f with offset := f.offset + n}

def File.written (f : File) (n : Nat) (mem : Buf) : File where
  byte k := if f.offset ≤ k ∧ k < f.offset + n then mem (k - f.offset) else f.byte k
  offset := f.offset + n

inductive Performs (f : File) : Action → Out → File → Prop where
  | readFails {driver : Driver} {mem : Buf} {count : Nat} {out : Out} (ret : out.ret < 0) (mem' : out.mem = mem)
      (reads : out.reads = []) (may : ∃ i, driver.moves i = false) :
      Performs f (.read driver mem count) out f
  | read {driver : Driver} {mem : Buf} {count n : Nat} {out : Out} (ret : out.ret = n) (least : n ≤ count)
      (mem' : out.mem = Buf.overlay n (fun i => f.byte (f.offset + i)) mem) (reads : out.reads = [])
      (all : n < count → ∃ i, driver.moves i = false) :
      Performs f (.read driver mem count) out (f.moved n)
  | writeFails {driver : Driver} {mem : Buf} {count : Nat} {out : Out} (ret : out.ret < 0) (mem' : out.mem = mem)
      (reads : ∀ a ∈ out.reads, a < count) (may : ∃ i, driver.moves i = false) :
      Performs f (.write driver mem count) out f
  | write {driver : Driver} {mem : Buf} {count n : Nat} {out : Out} (ret : out.ret = n) (least : n ≤ count)
      (mem' : out.mem = mem) (reads : ∀ a ∈ out.reads, a < count)
      (all : n < count → ∃ i, driver.moves i = false) :
      Performs f (.write driver mem count) out (f.written n mem)
  | seekSet {d : BitVec 32} {n : Nat} {mem : Buf} (there : d.toInt = n) :
      Performs f (.seek d .set) ⟨n, mem, []⟩ {f with offset := n}
  | seekCur {d : BitVec 32} {n : Nat} {mem : Buf} (there : (f.offset : Int) + d.toInt = n) :
      Performs f (.seek d .cur) ⟨n, mem, []⟩ {f with offset := n}
  | seekFails {d : BitVec 32} {whence : Whence} {mem : Buf} (bad : whence = .end_ ∨
      (whence = .set ∧ d.toInt < 0) ∨ (whence = .cur ∧ (f.offset : Int) + d.toInt < 0)) : Performs f (.seek d whence) ⟨-1, mem, []⟩ f

inductive Behaves : File → List (Action × Out) → File → Prop where
  | nil {f : File} : Behaves f [] f
  | cons {f g h : File} {a : Action} {out : Out} {rest : List (Action × Out)}
      (first : Performs f a out g) (later : Behaves g rest h) : Behaves f ((a, out) :: rest) h

def session : State → List Action → List (Action × Out) × State
  | s, [] => ([], s)
  | s, a :: rest =>
    let (out, t) := step s a
    let (log, u) := session t rest
    ((a, out) :: log, u)

def fileOf (s : State) : File := ⟨fun k => s.disk (k / 512) (k % 512), s.offset⟩

/-- Whole sectors from a sector's start on, below 4 GiB; seeks by a distance below 2 GiB. -/
def Aligned (s : State) : Action → Prop
  | .read _ _ count | .write _ _ count => count = 0 ∨
      (count % 512 = 0 ∧ s.offset % 512 = 0 ∧ count < 2 ^ 31 ∧ s.offset + count < 2 ^ 32)
  | .seek d .cur => s.offset < 2 ^ 31 ∧ (s.offset : Int) + d.toInt < 2 ^ 31
  | .seek _ _ => True

def Coherent (disk : Nat → Buf) (cache : List (Nat × Buf)) : Prop :=
  Lru.Unique cache ∧ ∀ e ∈ cache, ∀ o < 512, e.2 o = disk e.1 o

/-! ## The loops -/

section loops

variable {driver : Driver} {disk : Nat → Buf} {offset : Nat}

theorem insertCoherent {cache : List (Nat × Buf)} (coherent : Coherent disk cache) (room : Bool)
    (sector : Nat) (data : Buf) : Coherent (Function.update disk sector data)
      (Lru.insert CACHE_MAX_ENTRIES room cache sector data) := by
  refine ⟨Lru.insertUnique coherent.1 _ _ _ _, fun e member o small => ?_⟩
  rcases Lru.insertMem coherent.1 member with rfl | ⟨old, apart⟩
  · rw [Function.update_self]
  · rw [Function.update_of_ne apart]
    exact coherent.2 e old o small

structure Copied (driver : Driver) (disk : Nat → Buf) (offset n i : Nat) (out : Buf)
    (r : Nat × Buf × List (Nat × Buf)) : Prop where
  least : i ≤ r.1
  most : r.1 ≤ i + n
  short : r.1 < i + n → ∃ k, driver.moves k = false
  bytes : ∀ o, r.2.1 o =
    if i * 512 ≤ o ∧ o < r.1 * 512 then disk (offset + o / 512) (o % 512) else out o
  coherent : Coherent disk r.2.2

theorem Copied.more {n i : Nat} {out tmp : Buf} {r : Nat × Buf × List (Nat × Buf)}
    (later : Copied driver disk offset n (i + 1) (putSector out i tmp) r)
    (same : ∀ o < 512, tmp o = disk (offset + i) o) :
    Copied driver disk offset (n + 1) i out r := by
  obtain ⟨moved, out', cache⟩ := r
  obtain ⟨least, most, short, bytes, coherent⟩ := later
  dsimp only at least most short bytes coherent
  rw [Nat.add_mul, Nat.one_mul] at bytes
  refine ⟨Nat.le_of_succ_le least, by dsimp only; omega,
    fun less => short (by dsimp only at less; omega), fun o => ?_, coherent⟩
  dsimp only
  rw [bytes]
  unfold putSector CACHE_BLOCK_SIZE
  by_cases here : i * 512 ≤ o ∧ o < i * 512 + 512
  · rw [if_neg fun inside => by omega, if_pos here, if_pos ⟨here.1, by omega⟩, same _ (by omega)]
    congr 1
    · congr 1
      omega
    · omega
  · by_cases there : i * 512 + 512 ≤ o ∧ o < moved * 512
    · rw [if_pos there, if_pos ⟨by omega, there.2⟩]
    · rw [if_neg there, if_neg here, if_neg fun inside => by omega]

theorem breadLoopCopied {n i : Nat} (out : Buf) {cache : List (Nat × Buf)}
    (fits : offset + i + n ≤ 2 ^ 32) (coherent : Coherent disk cache) :
    Copied driver disk offset n i out (breadLoop driver disk offset n i out cache) := by
  induction n generalizing i out cache with
  | zero =>
    unfold breadLoop
    refine ⟨Nat.le_refl i, Nat.le_refl i, fun less => absurd less (Nat.lt_irrefl i), fun o => ?_,
      coherent⟩
    exact (if_neg (by omega)).symm
  | succ n ih =>
    have sector : (offset + i) % 2 ^ 32 = offset + i := Nat.mod_eq_of_lt (by omega)
    unfold breadLoop
    rw [sector]
    dsimp only
    cases hit : Lru.lookup cache (offset + i) with
    | some found =>
      obtain ⟨tmp, cache'⟩ := found
      obtain ⟨member, unique, same⟩ := Lru.lookupSome coherent.1 hit
      have coherent' : Coherent disk cache' :=
        ⟨unique, fun e inside => coherent.2 e ((same e).mp inside)⟩
      have later := ih (i := i + 1) (putSector out i tmp) (by omega) coherent'
      exact later.more (coherent.2 _ member)
    | none =>
      dsimp only
      by_cases moves : driver.moves i
      · rw [if_pos moves]
        have inserted := insertCoherent coherent (driver.room i) (offset + i) (disk (offset + i))
        rw [Function.update_eq_self] at inserted
        have later := ih (i := i + 1) (putSector out i (disk (offset + i))) (by omega) inserted
        exact later.more fun _ _ => rfl
      · rw [if_neg moves]
        refine ⟨Nat.le_refl i, Nat.le_add_right _ _, fun _ => ⟨i, by simpa using moves⟩,
          fun o => ?_, coherent⟩
        exact (if_neg (by omega)).symm

structure Stored (driver : Driver) (mem : Buf) (offset n i : Nat) (s : State)
    (r : Nat × List Nat × State) : Prop where
  least : i ≤ r.1
  most : r.1 ≤ i + n
  short : r.1 < i + n → ∃ k, driver.moves k = false
  reads : ∀ a ∈ r.2.1, a < (i + n) * 512
  disk : ∀ sector, r.2.2.disk sector =
    if offset + i ≤ sector ∧ sector < offset + r.1 then srcSector mem (sector - offset)
    else s.disk sector
  offset : r.2.2.offset = s.offset
  coherent : Coherent r.2.2.disk r.2.2.cache

theorem Stored.more {mem : Buf} {n i : Nat} {s : State} {cache : List (Nat × Buf)}
    {r : Nat × List Nat × State}
    (later : Stored driver mem offset n (i + 1)
      ⟨Function.update s.disk (offset + i) (srcSector mem i), cache, s.offset⟩ r)
    (here : ∀ a ∈ srcReads i, a < (i + (n + 1)) * 512) :
    Stored driver mem offset (n + 1) i s (r.1, srcReads i ++ r.2.1, r.2.2) := by
  obtain ⟨moved, reads, t⟩ := r
  obtain ⟨least, most, short, inside, disk, kept, coherent⟩ := later
  dsimp only at least most short inside disk kept coherent
  rw [Nat.add_right_comm, Nat.add_assoc] at inside
  refine ⟨Nat.le_of_succ_le least, by dsimp only; omega,
    fun less => short (by dsimp only at less; omega), ?_, fun sector => ?_, kept, coherent⟩
  · intro a member
    rcases List.mem_append.mp member with first | rest
    · exact here a first
    · exact inside a rest
  · dsimp only
    rw [disk]
    by_cases same : sector = offset + i
    · subst same
      rw [if_neg (by omega), Function.update_self, if_pos (by omega), Nat.add_sub_cancel_left]
    · rw [Function.update_of_ne same]
      by_cases there : offset + (i + 1) ≤ sector ∧ sector < offset + moved
      · rw [if_pos there, if_pos (by omega)]
      · rw [if_neg there, if_neg (by omega)]

theorem bwriteLoopStored {mem : Buf} {n i : Nat} {s : State} (fits : offset + i + n ≤ 2 ^ 32)
    (coherent : Coherent s.disk s.cache) :
    Stored driver mem offset n i s (bwriteLoop driver mem offset n i s) := by
  induction n generalizing i s with
  | zero =>
    unfold bwriteLoop
    refine ⟨Nat.le_refl i, Nat.le_refl i, fun less => absurd less (Nat.lt_irrefl i),
      fun _ member => (List.not_mem_nil member).elim, fun sector => ?_, rfl, coherent⟩
    exact (if_neg (by omega)).symm
  | succ n ih =>
    have sector : (offset + i) % 2 ^ 32 = offset + i := Nat.mod_eq_of_lt (by omega)
    have here : ∀ a ∈ srcReads i, a < (i + (n + 1)) * 512 := fun a member => by
      have := List.mem_range'_1.mp member
      unfold CACHE_BLOCK_SIZE at this
      omega
    unfold bwriteLoop
    rw [sector]
    dsimp only
    by_cases moves : driver.moves i
    · rw [if_pos moves]
      have inserted := insertCoherent coherent (driver.room i) (offset + i) (srcSector mem i)
      have later := ih (s := ⟨Function.update s.disk (offset + i) (srcSector mem i),
        Lru.insert CACHE_MAX_ENTRIES (driver.room i) s.cache (offset + i) (srcSector mem i),
        s.offset⟩) (i := i + 1) (by omega) inserted
      exact later.more here
    · rw [if_neg moves]
      refine ⟨Nat.le_refl i, Nat.le_add_right _ _, fun _ => ⟨i, by simpa using moves⟩, here,
        fun sector => ?_, rfl, coherent⟩
      exact (if_neg (by omega)).symm

end loops

/-! ## The calls -/

theorem transferredCases {moved count : Nat} (some' : 0 < count) (most : moved ≤ count)
    (small : count * 512 < 2 ^ 31) :
    moved = 0 ∧ transferred moved count = -1 ∨
      0 < moved ∧ transferred moved count = ((moved * 512 : Nat) : Int) := by
  unfold transferred CACHE_BLOCK_SIZE
  by_cases cut : moved < count
  · rw [if_pos cut]
    by_cases none : moved = 0
    · exact .inl ⟨none, by rw [if_neg (by omega)]⟩
    · have smaller := Nat.lt_of_le_of_lt (Nat.mul_le_mul_right 512 most) small
      exact .inr ⟨by omega, by rw [if_pos (by omega), cIntSmall smaller]⟩
  · have all : moved = count := by omega
    subst all
    exact .inr ⟨some', by rw [if_neg cut, cIntSmall small]⟩

theorem fileOfAdvanced (s : State) (moved : Nat) (some' : 0 < moved)
    (fits : s.offset + moved < 2 ^ 32) :
    fileOf (advanced s (moved : Int)) = (fileOf s).moved moved := by
  have ahead : (0 : Int) < moved := by omega
  unfold advanced fileOf File.moved
  rw [if_pos ahead, Int.toNat_natCast, Nat.mod_eq_of_lt fits]

theorem advancedFails (s : State) : advanced s (-1) = s := rfl

structure Kept (s : State) (a : Action) : Prop where
  performs : Performs (fileOf s) a (step s a).1 (fileOf (step s a).2)
  coherent : Coherent (step s a).2.disk (step s a).2.cache

theorem sectorCountWhole {k : Nat} (small : 512 * k < 2 ^ 31) : sectorCount (512 * k) = k := by
  unfold sectorCount
  omega

theorem readWhole {s : State} {driver : Driver} {mem : Buf} {q k : Nat}
    (coherent : Coherent s.disk s.cache) (start : s.offset = 512 * q) (some' : 0 < k)
    (small : 512 * k < 2 ^ 31) (fits : 512 * q + 512 * k < 2 ^ 32) :
    Kept s (.read driver mem (512 * k)) := by
  have copied : Copied driver s.disk q k 0 mem (breadLoop driver s.disk q k 0 mem s.cache) :=
    breadLoopCopied mem (by omega) coherent
  have taken : step s (.read driver mem (512 * k)) =
      ((bread driver s mem q k).1,
        advanced (bread driver s mem q k).2 (bread driver s mem q k).1.ret) := by
    show devfsRead driver s mem (512 * k) = _
    unfold devfsRead
    rw [if_neg (by omega), start, sectorCountWhole small, Nat.mul_div_cancel_left q (by omega)]
  unfold bread at taken
  generalize breadLoop driver s.disk q k 0 mem s.cache = r at copied taken
  obtain ⟨moved, out, cache⟩ := r
  obtain ⟨_, most, short, bytes, coherent'⟩ := copied
  dsimp only at most short bytes coherent' taken
  rw [Nat.zero_add] at most short
  constructor
  · rw [taken]
    rcases transferredCases some' most (by omega) with ⟨none, ret⟩ | ⟨ahead, ret⟩
    · subst none
      rw [ret]
      have fails : (-1 : Int) < 0 := by decide
      refine .readFails fails (funext fun o => ?_) rfl (short some')
      dsimp only
      rw [bytes, if_neg (by omega)]
    · rw [ret, fileOfAdvanced _ _ (by omega) (by dsimp only; omega)]
      refine .read rfl (by omega) (funext fun o => ?_) rfl fun less => short (by omega)
      dsimp only
      rw [bytes]
      unfold Buf.overlay fileOf
      dsimp only
      rw [start, Nat.mul_add_div (by omega), Nat.mul_add_mod]
      by_cases inside : o < moved * 512
      · rw [if_pos inside, if_pos ⟨Nat.zero_le _, inside⟩]
      · rw [if_neg inside, if_neg fun both => inside both.2]
  · rw [taken]
    unfold advanced
    split <;> exact coherent'

theorem fileOfWritten {s t : State} {mem : Buf} {q moved : Nat} (start : s.offset = 512 * q)
    (disk : ∀ sector, t.disk sector =
      if q ≤ sector ∧ sector < q + moved then srcSector mem (sector - q) else s.disk sector) :
    (fileOf t).byte = ((fileOf s).written (moved * 512) mem).byte := by
  funext k
  unfold fileOf File.written
  dsimp only
  rw [disk, start]
  by_cases inside : q ≤ k / 512 ∧ k / 512 < q + moved
  · rw [if_pos inside, if_pos ⟨by omega, by omega⟩]
    unfold srcSector CACHE_BLOCK_SIZE
    congr 1
    omega
  · rw [if_neg inside, if_neg fun both => inside ⟨by omega, by omega⟩]

theorem writeWhole {s : State} {driver : Driver} {mem : Buf} {q k : Nat}
    (coherent : Coherent s.disk s.cache) (start : s.offset = 512 * q) (some' : 0 < k)
    (small : 512 * k < 2 ^ 31) (fits : 512 * q + 512 * k < 2 ^ 32) :
    Kept s (.write driver mem (512 * k)) := by
  have stored : Stored driver mem q k 0 s (bwriteLoop driver mem q k 0 s) :=
    bwriteLoopStored (by omega) coherent
  have taken : step s (.write driver mem (512 * k)) =
      ((bwrite driver s mem q k).1,
        advanced (bwrite driver s mem q k).2 (bwrite driver s mem q k).1.ret) := by
    show devfsWrite driver s mem (512 * k) = _
    unfold devfsWrite
    rw [if_neg (by omega), start, sectorCountWhole small, Nat.mul_div_cancel_left q (by omega)]
  unfold bwrite at taken
  generalize bwriteLoop driver mem q k 0 s = r at stored taken
  obtain ⟨moved, reads, t⟩ := r
  obtain ⟨_, most, short, inside, disk, kept, coherent'⟩ := stored
  dsimp only at most short inside disk kept coherent' taken
  rw [Nat.zero_add] at most short inside
  have within : ∀ a ∈ reads, a < 512 * k := fun a member => Nat.mul_comm k 512 ▸ inside a member
  constructor
  · rw [taken]
    have bytes := fileOfWritten start disk
    rcases transferredCases some' most (by omega) with ⟨none, ret⟩ | ⟨ahead, ret⟩
    · subst none
      have same : fileOf t = fileOf s := by
        refine File.ext (funext fun o => ?_) kept
        rw [bytes]
        exact if_neg (by omega)
      rw [ret, advancedFails, same]
      have fails : (-1 : Int) < 0 := by decide
      exact .writeFails fails rfl within (short some')
    · have moves : fileOf (advanced t ((moved * 512 : Nat) : Int)) =
          (fileOf s).written (moved * 512) mem := by
        rw [fileOfAdvanced _ _ (by omega) (by omega)]
        exact File.ext bytes (congrArg (· + moved * 512) kept)
      rw [ret, moves]
      exact .write rfl (by omega) rfl within fun less => short (by omega)
  · rw [taken]
    unfold advanced
    split <;> exact coherent'

theorem readKept {s : State} {driver : Driver} {mem : Buf} {count : Nat}
    (coherent : Coherent s.disk s.cache) (aligned : Aligned s (.read driver mem count)) :
    Kept s (.read driver mem count) := by
  by_cases none : count = 0
  · subst none
    refine ⟨.read (n := 0) rfl (Nat.le_refl 0) ?_ rfl fun less => absurd less (Nat.lt_irrefl 0),
      coherent⟩
    funext o
    exact (if_neg (Nat.not_lt_zero o)).symm
  · obtain ⟨whole, start, small, fits⟩ := aligned.resolve_left none
    obtain ⟨q, place⟩ := Nat.dvd_of_mod_eq_zero start
    obtain ⟨k, rfl⟩ := Nat.dvd_of_mod_eq_zero whole
    exact readWhole coherent place (by omega) small (place ▸ fits)

theorem writeKept {s : State} {driver : Driver} {mem : Buf} {count : Nat}
    (coherent : Coherent s.disk s.cache) (aligned : Aligned s (.write driver mem count)) :
    Kept s (.write driver mem count) := by
  by_cases none : count = 0
  · subst none
    refine ⟨?_, coherent⟩
    have same : (fileOf s).written 0 mem = fileOf s := by
      unfold File.written
      congr 1
      funext k
      exact if_neg (by omega)
    have writes : Performs (fileOf s) (.write driver mem 0) ⟨0, mem, []⟩
        ((fileOf s).written 0 mem) := .write rfl (Nat.le_refl 0) rfl
      (fun _ member => (List.not_mem_nil member).elim) fun less => absurd less (Nat.lt_irrefl 0)
    rw [same] at writes
    exact writes
  · obtain ⟨whole, start, small, fits⟩ := aligned.resolve_left none
    obtain ⟨q, place⟩ := Nat.dvd_of_mod_eq_zero start
    obtain ⟨k, rfl⟩ := Nat.dvd_of_mod_eq_zero whole
    exact writeWhole coherent place (by omega) small (place ▸ fits)

theorem seekKept {s : State} {d : BitVec 32} {whence : Whence}
    (coherent : Coherent s.disk s.cache) (aligned : Aligned s (.seek d whence)) :
    Kept s (.seek d whence) := by
  constructor
  · show Performs _ _ ⟨(devfsSeek s d whence).1, Buf.zero, []⟩ (fileOf (devfsSeek s d whence).2)
    unfold devfsSeek seekTo
    cases whence with
    | set =>
      dsimp only
      by_cases back : d.toInt < 0
      · rw [if_pos back]
        exact .seekFails (.inr (.inl ⟨rfl, back⟩))
      · rw [if_neg back]
        obtain ⟨n, there⟩ := Int.eq_ofNat_of_zero_le (Int.not_lt.mp back)
        dsimp only
        rw [there]
        exact .seekSet there
    | cur =>
      dsimp only
      obtain ⟨low, high⟩ := aligned
      have bound := BitVec.le_toInt d
      rw [cIntSmall low, Int.bmod_eq_of_le (by omega) (by omega)]
      by_cases back : (s.offset : Int) + d.toInt < 0
      · rw [if_pos back]
        exact .seekFails (.inr (.inr ⟨rfl, back⟩))
      · rw [if_neg back]
        obtain ⟨n, there⟩ := Int.eq_ofNat_of_zero_le (Int.not_lt.mp back)
        dsimp only
        rw [there]
        exact .seekCur there
    | end_ => exact .seekFails (.inl rfl)
  · show Coherent (devfsSeek s d whence).2.disk (devfsSeek s d whence).2.cache
    unfold devfsSeek
    split <;> exact coherent

theorem stepKept {s : State} {a : Action} (coherent : Coherent s.disk s.cache)
    (aligned : Aligned s a) : Kept s a := by
  cases a with
  | read driver mem count => exact readKept coherent aligned
  | write driver mem count => exact writeKept coherent aligned
  | seek d whence => exact seekKept coherent aligned

theorem devBlockBehaves {s : State} {calls : List Action} (coherent : Coherent s.disk s.cache)
    (aligned : Run.Meets (fun s a => some (step s a).2) Aligned s calls) :
    Behaves (fileOf s) (session s calls).1 (fileOf (session s calls).2) := by
  induction calls generalizing s with
  | nil => exact .nil
  | cons a rest ih =>
    have kept := stepKept coherent aligned.1
    exact .cons kept.performs (ih kept.coherent (aligned.2 _ rfl))

def blank : State := ⟨fun _ => Buf.zero, [], 0⟩

def steady : Driver := ⟨fun _ => true, fun _ => true⟩

def rewind : List Action :=
  [.write steady (fun o => BitVec.ofNat 8 o) 1024, .seek (-512) .cur, .read steady Buf.zero 512]

theorem rewindBehaves :
    Behaves (fileOf blank) (session blank rewind).1 (fileOf (session blank rewind).2) :=
  devBlockBehaves ⟨Lru.uniqueNil, fun _ member => (List.not_mem_nil member).elim⟩
    ⟨.inr (by decide), fun t wrote => by
      cases wrote
      exact ⟨⟨by decide, by decide⟩, fun t went => by
        cases went
        exact ⟨.inr (by decide), fun _ _ => trivial⟩⟩⟩

/-- A read of one byte gives 512, and puts them over the caller's memory. -/
theorem readsBeyondCount : ¬ ∃ f, Behaves (fileOf blank)
    (session blank [.read steady (fun _ => 1) 1]).1 f := by
  rintro ⟨f, behaves⟩
  have got : (step blank (.read steady (fun _ => 1) 1)).1.ret = 512 := by decide
  cases behaves with
  | cons first later =>
    cases first with
    | readFails fails =>
      have negative : (512 : Int) < 0 := lt_of_eq_of_lt got.symm fails
      omega
    | read ret least =>
      have transferred := got.symm.trans ret
      omega

end Scepter.DevBlock
