import Scepter.Lib.Bytes
import Scepter.Lib.Run
import Scepter.Mm.Vma

/-! The pages of a process (arch/i386/paging.c, arch/x86_64/paging.c) over the page
allocator: page faults, munmap, exec and exit with the frames they take and give
back. A frame is the index of a page in the allocator's bitmap, of which the set bits
are `used`. The page tables of a process are the list of their present entries, and
the pages that the tables themselves take; a table has a level and an index, and
those of i386 have one level. -/
namespace Scepter.UserSpace
open Mm (Arch PAGE_SIZE)
open Regions (Vma MmStruct pageDown covers grows overflows checkAccess)

/-! ## The page allocator -/

structure Frames where
  total : Nat
  used : List Nat

def Frames.find (fr : Frames) (count : Nat) : Option Nat :=
  (List.range fr.total).find? fun i =>
    decide (i + count ≤ fr.total) && (List.range' i count).all fun k => decide (k ∉ fr.used)

def Frames.alloc (fr : Frames) (count : Nat) : Option (Nat × Frames) :=
  (fr.find count).map fun i => (i, {fr with used := List.range' i count ++ fr.used})

def Frames.free (fr : Frames) (frame : Nat) : Frames := {fr with used := fr.used.erase frame}

/-! ## Page tables -/

structure Pte where
  page : Nat
  frame : Nat
  flags : Nat
  deriving DecidableEq

structure Table where
  level : Nat
  index : Nat
  frame : Nat
  deriving DecidableEq

structure Mmu where
  ptes : List Pte
  tables : List Table
  deriving DecidableEq

def tablesTo (arch : Arch) (vaddr : Nat) : List (Nat × Nat) :=
  if arch.wordBits = 32 then [(0, vaddr >>> 22)]
  else [(2, vaddr >>> 39), (1, vaddr >>> 30), (0, vaddr >>> 21)]

def userEnd (arch : Arch) : Nat :=
  if arch.wordBits = 32 then Regions.USER_STACK_TOP else 0x400000000000

def isRoot (table : Table) : Bool := table.level == 3

def ensureTables : List (Nat × Nat) → Mmu → Frames → Bool × Mmu × Frames
  | [], mmu, fr => (true, mmu, fr)
  | (level, index) :: rest, mmu, fr =>
    if mmu.tables.any fun t => t.level = level ∧ t.index = index then ensureTables rest mmu fr
    else match fr.alloc 1 with
      | none => (false, mmu, fr)
      | some (frame, fr) =>
        ensureTables rest {mmu with tables := ⟨level, index, frame⟩ :: mmu.tables} fr

def archMmMapUser (arch : Arch) (mmu : Mmu) (fr : Frames) (vaddr frame flags : Nat) :
    Bool × Mmu × Frames :=
  if vaddr ≥ userEnd arch then (false, mmu, fr)
  else match ensureTables (tablesTo arch vaddr) mmu fr with
    | (false, mmu, fr) => (false, mmu, fr)
    | (true, mmu, fr) =>
      let page := pageDown vaddr
      (true, {mmu with ptes := ⟨page, frame, flags⟩ :: mmu.ptes.filter fun p => p.page ≠ page}, fr)

def archMmUserPresent (mmu : Mmu) (vaddr : Nat) : Bool :=
  mmu.ptes.any fun p => p.page = pageDown vaddr

def inRange (start stop : Nat) (p : Pte) : Bool := pageDown start ≤ p.page && p.page < stop

def freeAll (fr : Frames) (frames : List Nat) : Frames := frames.foldl Frames.free fr

def archMmFreeUserPages (mmu : Mmu) (fr : Frames) (start stop : Nat) : Mmu × Frames :=
  ({mmu with ptes := mmu.ptes.filter fun p => !inRange start stop p},
    freeAll fr ((mmu.ptes.filter (inRange start stop)).map Pte.frame))

def archMmFreeUserTables (mmu : Mmu) (fr : Frames) : Mmu × Frames :=
  (⟨[], mmu.tables.filter isRoot⟩,
    freeAll fr ((mmu.tables.filter fun t => !isRoot t).map Table.frame))

def archMmFreePgd (mmu : Mmu) (fr : Frames) : Mmu × Frames :=
  ({mmu with tables := mmu.tables.filter fun t => !isRoot t},
    freeAll fr ((mmu.tables.filter isRoot).map Table.frame))

def archMmUnmapUserRange (mmu : Mmu) (start stop : Nat) : Mmu :=
  {mmu with ptes := mmu.ptes.filter fun p => !inRange start stop p}

/-! ## Calls -/

structure Space where
  mm : MmStruct
  mmu : Mmu
  frames : Frames

def tearDown (s : Space) : Space :=
  let (mmu, fr) := s.mm.vmaList.foldl
    (fun (mmu, fr) v => archMmFreeUserPages mmu fr v.vmStart v.vmEnd) (s.mmu, s.frames)
  let (mmu, fr) := archMmFreeUserTables mmu fr
  ⟨{s.mm with vmaList := []}, mmu, fr⟩

def doExit (s : Space) : Space :=
  let s := tearDown s
  let (mmu, fr) := archMmFreePgd s.mmu s.frames
  ⟨s.mm, mmu, fr⟩

def allocatePage (arch : Arch) (mmu : Mmu) (fr : Frames) (vaddr flags : Nat) :
    Bool × Mmu × Frames :=
  match fr.alloc 1 with
  | none => (false, mmu, fr)
  | some (frame, fr) => match archMmMapUser arch mmu fr vaddr frame flags with
    | (false, mmu, fr) => (false, mmu, fr.free frame)
    | (true, mmu, fr) => (true, mmu, fr)

def vmaFlagsToPte (v : Vma) : Nat := if v.vmFlags.write then 7 else 5

def pageFaultHandler (arch : Arch) (s : Space) (addr : Nat) (write : Bool) : Bool × Space :=
  match Regions.vmaFind s.mm.vmaList addr with
  | none => (false, s)
  | some v =>
    if grows v addr && overflows v addr then (false, s)
    else
      let grow (v : Vma) : Vma := if grows v addr then {v with vmStart := pageDown addr} else v
      let vmas := Keyed.update (covers addr) grow s.mm.vmaList
      let s := {s with mm := {s.mm with vmaList := vmas}}
      if !checkAccess v write || archMmUserPresent s.mmu addr then (false, s)
      else
        let (ok, mmu, fr) := allocatePage arch s.mmu s.frames (pageDown addr) (vmaFlagsToPte v)
        (ok, {s with mmu := mmu, frames := fr})

def sysMunmap (s : Space) (addr length : Nat) : Space :=
  let start := pageDown addr
  let stop := pageDown ((addr + length + 0xFFF) % 2 ^ 32)
  let gone := (Regions.munmapFrom start stop s.mm.vmaList).2.length < s.mm.vmaList.length
  {s with
    mm := {s.mm with vmaList := (Regions.munmapFrom start stop s.mm.vmaList).2}
    mmu := if gone then archMmUnmapUserRange s.mmu start stop else s.mmu}

/-! ## exec -/

def pagesBetween (lo hi : Nat) : List Nat :=
  List.range' lo ((hi - lo + (PAGE_SIZE - 1)) / PAGE_SIZE) PAGE_SIZE

/-- The pages that the loaders map, each with its flags: those of the regions of an
ELF image, or those of a flat file. -/
def imagePages (arch : Arch) (file : Regions.File) : List (Nat × Nat) :=
  match file.phdrs with
  | none => (List.range ((file.size + (PAGE_SIZE - 1)) / PAGE_SIZE)).map fun i =>
    (Regions.USER_TEXT_START + i * PAGE_SIZE, 7)
  | some phdrs => match Regions.loadSegs file.size phdrs with
    | none => []
    | some segs =>
      let segs := Regions.sortSegs segs
      let regions := (segs.foldl (Regions.mergeRegion arch) []).reverse
      let writable (a : Nat) : Bool := segs.any fun seg =>
        seg.vaddr < a + PAGE_SIZE && seg.stop arch > a && seg.flags.testBit 1
      (regions.flatMap fun r => pagesBetween r.1 r.2).map fun a => (a, if writable a then 7 else 5)

def loadPages (arch : Arch) : List (Nat × Nat) → Nat → Mmu → Frames → Bool × Mmu × Frames
  | [], _, mmu, fr => (true, mmu, fr)
  | _ :: _, 0, mmu, fr => (false, mmu, fr)
  | (a, flags) :: rest, readable + 1, mmu, fr =>
    match allocatePage arch mmu fr a flags with
    | (false, mmu, fr) => (false, mmu, fr)
    | (true, mmu, fr) => loadPages arch rest readable mmu fr

structure Supply where
  readable : Nat
  vmas : Nat
  stackVma : Bool

def mapStack (arch : Arch) (mmu : Mmu) (fr : Frames) (frame : Nat) : Mmu × Frames :=
  let base := Regions.USER_STACK_TOP - 2 * PAGE_SIZE
  let (_, mmu, fr) := archMmMapUser arch mmu fr base frame 7
  let (_, mmu, fr) := archMmMapUser arch mmu fr (base + PAGE_SIZE) (frame + 1) 7
  (mmu, fr)

def replaceImage (arch : Arch) (supply : Supply) (file : Regions.File) (s : Space) : Space :=
  let s := tearDown s
  let (mapped, mmu, fr) := loadPages arch (imagePages arch file) supply.readable s.mmu s.frames
  match Regions.loadBinary arch ⟨mapped, supply.vmas, true, supply.stackVma⟩ file [] with
  | (none, vmas) => ⟨{s.mm with vmaList := vmas}, mmu, fr⟩
  | (some image, vmas) => match fr.alloc 2 with
    | none => ⟨s.mm.withImage image vmas, mmu, fr⟩
    | some (frame, fr) =>
      let (mmu, fr) := mapStack arch mmu fr frame
      let vmas := if supply.stackVma then Regions.vmaInsert vmas (Regions.stackVma arch) else vmas
      ⟨s.mm.withImage image vmas, mmu, fr⟩

/-! ## Runs -/

inductive Action where
  | mmap (addr length prot flags offset : Nat) (made : Bool)
  | munmap (addr length : Nat)
  | brk (addr limit : Nat) (made : Bool)
  | fault (addr : Nat) (write : Bool)
  -- `none` is a file that is refused before the old image goes
  | exec (supply : Supply) (file : Option Regions.File)
  | exit

structure State where
  space : Space
  exited : Bool

def die (s : Space) : State := ⟨doExit s, true⟩

def perform (arch : Arch) (s : Space) : Action → State
  | .mmap addr length prot flags offset made =>
    let (_, vmas) :=
      Regions.sysMmap arch s.mm.vmaList addr length prot flags (-1) offset false none made
    ⟨{s with mm := {s.mm with vmaList := vmas}}, false⟩
  | .munmap addr length => ⟨sysMunmap s addr length, false⟩
  | .brk addr limit made => ⟨{s with mm := (Regions.sysBrk arch s.mm addr limit made).2}, false⟩
  | .fault addr write => match pageFaultHandler arch s addr write with
    | (true, s) => ⟨s, false⟩
    | (false, s) => die s
  | .exec supply file => match file with
    | none => ⟨s, false⟩
    | some file => ⟨replaceImage arch supply file s, false⟩
  | .exit => die s

def step (arch : Arch) (s : State) (a : Action) : Option State :=
  if s.exited then none else some (perform arch s.space a)

def newSpace (arch : Arch) (total : Nat) (others : List Nat) : Option Space :=
  let mm := Regions.mmInit
  if arch.wordBits = 32 then some ⟨mm, ⟨[], []⟩, ⟨total, others⟩⟩
  else (Frames.alloc ⟨total, others⟩ 1).map fun (frame, fr) => ⟨mm, ⟨[], [⟨3, 0, frame⟩]⟩, fr⟩

end Scepter.UserSpace
