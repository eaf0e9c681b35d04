import Scepter.Kernel.Errno
import Scepter.Lib.Keyed
import Scepter.Lib.Run
import Scepter.Mm.Buddy
import Mathlib.Logic.Function.Basic

/-! The regions of a process (mm/vma.c) and all that changes them: mmap, munmap,
mprotect and brk (kernel/syscall.c), page faults (mm/pagefault.c), fork, exec and
exit (kernel/process.c), the loader (kernel/elf.c) and spawn_init (kernel/spawn.c).
System call arguments are uint32_t on both architectures. stack_start, stack_end,
mmap_base and mmap_end are as mm_init sets them. -/
namespace Scepter.Regions
open Mm (Arch PAGE_SIZE)

def USER_TEXT_START : Nat := 0x08000000
def USER_HEAP_START : Nat := 0x08100000
def MMAP_BASE : Nat := 0x40000000
def MMAP_END : Nat := 0xBF000000
def STACK_START : Nat := 0xBFF00000
def USER_STACK_TOP : Nat := 0xC0000000
def STACK_LIMIT : Nat := 0x800000
def RLIM_INFINITY : Nat := 0xFFFFFFFF
def PT_LOAD : Nat := 1

inductive VmaType where
  | code | heap | stack | mmap
  deriving DecidableEq, Repr

structure Flags where
  read : Bool
  write : Bool
  exec : Bool
  shared : Bool
  growsdown : Bool
  io : Bool
  deriving DecidableEq, Repr

structure Vma where
  vmStart : Nat
  vmEnd : Nat
  vmFlags : Flags
  vmType : VmaType
  vmFd : Int
  vmFileOff : Nat
  vmShared : Bool
  vmPhysBase : Nat
  deriving DecidableEq, Repr

structure MmStruct where
  vmaList : List Vma
  codeStart : Nat
  codeEnd : Nat
  brkStart : Nat
  brkEnd : Nat

def pageDown (addr : Nat) : Nat := addr / PAGE_SIZE * PAGE_SIZE
def pageUp (bits addr : Nat) : Nat := pageDown ((addr + (PAGE_SIZE - 1)) % 2 ^ bits)

def vmaCreate (arch : Arch) (start stop : Nat) (flags : Flags) (type : VmaType) : Vma :=
  ⟨pageDown start, pageUp arch.wordBits stop, flags, type, -1, 0, false, 0⟩

def covers (addr : Nat) (v : Vma) : Bool :=
  if v.vmFlags.growsdown then
    let limit := if v.vmStart > STACK_LIMIT then (v.vmStart - STACK_LIMIT) % 2 ^ 32 else 0
    addr ≥ limit && addr < v.vmEnd
  else addr ≥ v.vmStart && addr < v.vmEnd

def vmaFind (vmas : List Vma) (addr : Nat) : Option Vma := vmas.find? (covers addr)

def vmaInsert (vmas : List Vma) (v : Vma) : List Vma := Keyed.insert Vma.vmStart v vmas

def vmaOverlaps (vmas : List Vma) (start stop : Nat) : Bool :=
  vmas.any fun v => start < v.vmEnd && stop > v.vmStart

def vmaExpand (v : Vma) (newEnd : Nat) : Option Vma :=
  let newEnd := pageUp 32 newEnd
  if v.vmFlags.growsdown then
    if newEnd > v.vmStart then none else some {v with vmStart := newEnd}
  else
    if newEnd < v.vmEnd then none else some {v with vmEnd := newEnd}

def searchStart (hint : Nat) : Nat :=
  if hint ≠ 0 ∧ (hint < MMAP_BASE ∨ hint ≥ MMAP_END) then MMAP_BASE
  else if hint ≠ 0 then pageUp 32 hint
  else MMAP_BASE

def searchFrom (vmas : List Vma) (length : Nat) : Nat → Nat → Nat
  | 0, _ => 0
  | fuel + 1, candidate =>
    let stop := (candidate + length) % 2 ^ 32
    if stop ≤ MMAP_END then
      if vmaOverlaps vmas candidate stop then
        searchFrom vmas length fuel ((candidate + PAGE_SIZE) % 2 ^ 32)
      else candidate
    else 0

def vmaFindFreeRegion (vmas : List Vma) (length hint : Nat) : Nat :=
  searchFrom vmas (pageUp 32 length) (2 ^ 20) (searchStart hint)

/-! ## System calls -/

def sysMmap (arch : Arch) (vmas : List Vma) (addr length prot flags : Nat) (fd : Int)
    (offset : Nat) (fdValid : Bool) (dev : Option Nat) (made : Bool) : Int × List Vma :=
  let isAnon := flags.testBit 5
  if length = 0 then (-EINVAL, vmas)
  else if !isAnon && (fd < 0 || !fdValid) then (-EBADF, vmas)
  else
    let mapAddr := vmaFindFreeRegion vmas length addr
    if mapAddr = 0 ∨ !made then (-ENOMEM, vmas)
    else
      let shared := flags.testBit 0
      let vmFlags : Flags := ⟨prot.testBit 0, prot.testBit 1, prot.testBit 2, shared, false, false⟩
      let v := vmaCreate arch mapAddr ((mapAddr + length) % 2 ^ arch.wordBits) vmFlags .mmap
      let v := {v with
        vmFd := if isAnon then -1 else fd
        vmFileOff := offset
        vmShared := shared}
      let v := match isAnon, dev with
        | false, some phys => {v with vmFlags := {v.vmFlags with io := true}, vmPhysBase := phys}
        | _, _ => v
      (cInt mapAddr, vmaInsert vmas v)

def sysMprotect (vmas : List Vma) (addr length prot : Nat) : Int × List Vma :=
  let start := pageDown addr
  let stop := pageDown ((addr + length + 0xFFF) % 2 ^ 32)
  if stop ≤ start then (-EINVAL, vmas)
  else match vmaFind vmas start with
    | none => (-ENOMEM, vmas)
    | some v =>
      if start < v.vmStart ∨ stop > v.vmEnd then (-ENOMEM, vmas)
      else
        let protect (v : Vma) : Vma :=
          let old := v.vmFlags
          {v with vmFlags :=
            ⟨prot.testBit 0, prot.testBit 1, prot.testBit 2, old.shared, old.growsdown, false⟩}
        (0, Keyed.update (covers start) protect vmas)

def munmapFrom (start stop : Nat) : List Vma → Int × List Vma
  | [] => (0, [])
  | v :: rest =>
    if start < v.vmEnd ∧ stop > v.vmStart then
      if start = v.vmStart ∧ stop = v.vmEnd then munmapFrom start stop rest
      else (-EINVAL, v :: rest)
    else
      let (ret, rest) := munmapFrom start stop rest
      (ret, v :: rest)

def sysMunmap (vmas : List Vma) (addr length : Nat) : Int × List Vma :=
  munmapFrom (pageDown addr) (pageDown ((addr + length + 0xFFF) % 2 ^ 32)) vmas

def brkAllowed (mm : MmStruct) (addr limit : Nat) : Bool :=
  addr ≥ mm.brkStart && addr < MMAP_BASE &&
    (limit == RLIM_INFINITY || (addr + 2 ^ 32 - USER_TEXT_START) % 2 ^ 32 ≤ limit)

def isHeap (v : Vma) : Bool := v.vmType == .heap

def sysBrk (arch : Arch) (mm : MmStruct) (addr limit : Nat) (made : Bool) : Int × MmStruct :=
  if addr = 0 then (cInt mm.brkEnd, mm)
  else if !brkAllowed mm addr limit then (-ENOMEM, mm)
  else match mm.vmaList.find? isHeap with
    | none =>
      if made then
        let readWrite : Flags := ⟨true, true, false, false, false, false⟩
        let heap := vmaCreate arch mm.brkStart addr readWrite .heap
        (cInt addr, {mm with vmaList := vmaInsert mm.vmaList heap, brkEnd := addr})
      else (-ENOMEM, mm)
    | some heap => match vmaExpand heap addr with
      | none => (-ENOMEM, mm)
      | some heap =>
        let vmas := Keyed.update isHeap (fun _ => heap) mm.vmaList
        (cInt addr, {mm with vmaList := vmas, brkEnd := addr})

/-! ## Page faults -/

def checkAccess (v : Vma) (write : Bool) : Bool :=
  if write then v.vmFlags.write else v.vmFlags.read

def grows (v : Vma) (addr : Nat) : Bool := v.vmFlags.growsdown && addr < v.vmStart

def overflows (v : Vma) (addr : Nat) : Bool := v.vmEnd - pageDown addr > STACK_LIMIT

/-- A fault of user code, which `none` kills. `paged` tells whether the page can be
had. -/
def pageFaultHandler (vmas : List Vma) (addr : Nat) (write present paged : Bool) :
    Option (List Vma) :=
  match vmaFind vmas addr with
  | none => none
  | some v =>
    if grows v addr && overflows v addr then none
    else
      let grow (v : Vma) : Vma := if grows v addr then {v with vmStart := pageDown addr} else v
      if !checkAccess (grow v) write || present || !paged then none
      else some (Keyed.update (covers addr) grow vmas)

/-! ## The loader -/

structure Phdr where
  pType : Nat
  pVaddr : Nat
  pFilesz : Nat
  pMemsz : Nat
  pOffset : Nat
  pFlags : Nat

structure Seg where
  vaddr : Nat
  filesz : Nat
  memsz : Nat
  offset : Nat
  flags : Nat

structure File where
  size : Nat
  phdrs : Option (List Phdr)
  sized : 0 < size ∧ size < 2 ^ 31

/-- What memory and the disk have for an exec: the pages of the image, so many VMAs
for it, the pages of the stack and its VMA. -/
structure Supply where
  mapped : Bool
  vmas : Nat
  stackPages : Bool
  stackVma : Bool

structure ExecImage where
  codeStart : Nat
  codeEnd : Nat
  brkStart : Nat

/-- The loop over the program headers; both loaders add in uint64_t. -/
def loadSegs (fileSize : Nat) : List Phdr → Option (List Seg)
  | [] => some []
  | ph :: rest =>
    if ph.pType ≠ PT_LOAD ∨ ph.pMemsz = 0 then loadSegs fileSize rest
    else if ph.pFilesz > ph.pMemsz ∨ (ph.pVaddr + ph.pMemsz) % 2 ^ 64 > STACK_START ∨
        (ph.pOffset + ph.pFilesz) % 2 ^ 64 > fileSize then none
    else (loadSegs fileSize rest).map
      (⟨ph.pVaddr, ph.pFilesz, ph.pMemsz, ph.pOffset, ph.pFlags⟩ :: ·)

def sortSegs (segs : List Seg) : List Seg := Keyed.insertAll Seg.vaddr [] segs

def Seg.stop (arch : Arch) (seg : Seg) : Nat := (seg.vaddr + seg.memsz) % 2 ^ arch.wordBits

def mergeRegion (arch : Arch) (regions : List (Nat × Nat)) (seg : Seg) : List (Nat × Nat) :=
  let lo := pageDown seg.vaddr
  let hi := pageUp arch.wordBits (seg.stop arch)
  match regions with
  | [] => [(lo, hi)]
  | (first, last) :: rest =>
    if lo ≤ last then (first, if hi > last then hi else last) :: rest
    else (lo, hi) :: (first, last) :: rest

def heapAbove (stop : Nat) : Nat := if stop < USER_HEAP_START then USER_HEAP_START else stop

def segVma (arch : Arch) (seg : Seg) : Vma :=
  let flags : Flags := ⟨true, seg.flags.testBit 1, seg.flags.testBit 0, false, false, false⟩
  vmaCreate arch seg.vaddr (seg.stop arch) flags .code

def elfLoadCommon (arch : Arch) (supply : Supply) (segs : List Seg) (vmas : List Vma) :
    Option ExecImage × List Vma :=
  let segs := sortSegs segs
  let regions := segs.foldl (mergeRegion arch) []
  let maxEnd := regions.foldl (fun most region => max most region.2) 0
  if !supply.mapped || maxEnd == 0 then (none, vmas)
  else
    let made := (segs.take supply.vmas).map (segVma arch)
    let vmas := Keyed.insertAll Vma.vmStart vmas made
    if supply.vmas < segs.length then (none, vmas)
    else
      let minVaddr := regions.foldl (fun least region => min least region.1)
        (2 ^ arch.wordBits - 1)
      (some ⟨minVaddr, maxEnd, heapAbove maxEnd⟩, vmas)

def loadFlat (arch : Arch) (supply : Supply) (fileSize : Nat) (vmas : List Vma) :
    Option ExecImage × List Vma :=
  let codeEnd := USER_TEXT_START + fileSize
  if !supply.mapped || supply.vmas == 0 then (none, vmas)
  else
    let flags : Flags := ⟨true, false, true, false, false, false⟩
    let stop := pageUp arch.wordBits codeEnd
    let code := vmaCreate arch USER_TEXT_START stop flags .code
    (some ⟨USER_TEXT_START, codeEnd, heapAbove stop⟩, vmaInsert vmas code)

def loadBinary (arch : Arch) (supply : Supply) (file : File) (vmas : List Vma) :
    Option ExecImage × List Vma :=
  match file.phdrs with
  | none => loadFlat arch supply file.size vmas
  | some phdrs => match loadSegs file.size phdrs with
    | none => (none, vmas)
    | some segs => elfLoadCommon arch supply segs vmas

def stackVma (arch : Arch) : Vma :=
  vmaCreate arch STACK_START USER_STACK_TOP ⟨true, true, false, false, true, false⟩ .stack

def addStack (arch : Arch) (supply : Supply) (vmas : List Vma) : List Vma :=
  if supply.stackVma then vmaInsert vmas (stackVma arch) else vmas

def MmStruct.withImage (mm : MmStruct) (image : ExecImage) (vmas : List Vma) : MmStruct :=
  {mm with
    vmaList := vmas
    codeStart := image.codeStart
    codeEnd := image.codeEnd
    brkStart := image.brkStart
    brkEnd := image.brkStart}

def doExec (arch : Arch) (mm : MmStruct) (supply : Supply) : Option File → MmStruct
  | none => mm
  | some file => match loadBinary arch supply file [] with
    | (none, vmas) => {mm with vmaList := vmas}
    | (some image, vmas) =>
      mm.withImage image (if supply.stackPages then addStack arch supply vmas else vmas)

def mmInit : MmStruct := ⟨[], USER_TEXT_START, USER_TEXT_START, USER_HEAP_START, USER_HEAP_START⟩

def spawnInit (arch : Arch) (supply : Supply) (file : File) : Option MmStruct :=
  match loadBinary arch supply file [] with
  | (none, _) => none
  | (some image, vmas) =>
    if supply.stackPages then some (mmInit.withImage image (addStack arch supply vmas)) else none

def copyVma (arch : Arch) (v : Vma) : Vma :=
  {vmaCreate arch v.vmStart v.vmEnd v.vmFlags v.vmType with
    vmFd := v.vmFd
    vmFileOff := v.vmFileOff
    vmShared := v.vmShared}

def forkMm (arch : Arch) (mm : MmStruct) : MmStruct :=
  {mm with vmaList := Keyed.insertAll Vma.vmStart [] (mm.vmaList.map (copyVma arch))}

/-! ## Runs -/

inductive Call where
  | mmap (addr length prot flags : Nat) (fd : Int) (offset : Nat) (fdValid : Bool)
      (dev : Option Nat) (made : Bool)
  | munmap (addr length : Nat)
  | mprotect (addr length prot : Nat)
  | brk (addr limit : Nat) (made : Bool)
  | fault (addr : Nat) (write present paged : Bool)
  | exec (supply : Supply) (file : Option File)

/-- Addresses and lengths are uint32_t. -/
def Call.Words : Call → Prop
  | .mmap addr length .. => addr < 2 ^ 32 ∧ length < 2 ^ 32
  | .munmap addr length => addr < 2 ^ 32 ∧ length < 2 ^ 32
  | .mprotect addr length _ => addr < 2 ^ 32 ∧ length < 2 ^ 32
  | .brk addr _ _ => addr < 2 ^ 32
  | .fault addr .. => addr < 2 ^ 32
  | .exec .. => True
instance (c) : Decidable (Call.Words c) := by
  cases c <;> unfold Call.Words <;> infer_instance

inductive Action where
  | spawn (pid : Nat) (supply : Supply) (file : File)
  | fork (parent child : Nat) (copied : Bool)
  | call (pid : Nat) (c : Call)
  | exit (pid : Nat)

abbrev Tasks := Nat → Option MmStruct

def perform (arch : Arch) (mm : MmStruct) : Call → Option MmStruct
  | .mmap addr length prot flags fd offset fdValid dev made =>
    some {mm with vmaList :=
      (sysMmap arch mm.vmaList addr length prot flags fd offset fdValid dev made).2}
  | .munmap addr length => some {mm with vmaList := (sysMunmap mm.vmaList addr length).2}
  | .mprotect addr length prot =>
    some {mm with vmaList := (sysMprotect mm.vmaList addr length prot).2}
  | .brk addr limit made => some (sysBrk arch mm addr limit made).2
  | .fault addr write present paged =>
    (pageFaultHandler mm.vmaList addr write present paged).map fun vmas =>
      {mm with vmaList := vmas}
  | .exec supply file => some (doExec arch mm supply file)

def step (arch : Arch) (tasks : Tasks) : Action → Option Tasks
  | .spawn pid supply file => match tasks pid with
    | none => some (Function.update tasks pid (spawnInit arch supply file))
    | some _ => none
  | .fork parent child copied => match tasks parent, tasks child with
    | some mm, none =>
      some (Function.update tasks child (if copied then some (forkMm arch mm) else none))
    | _, _ => none
  | .call pid c => match tasks pid with
    | some mm => if c.Words then some (Function.update tasks pid (perform arch mm c)) else none
    | none => none
  | .exit pid => match tasks pid with
    | some _ => some (Function.update tasks pid none)
    | none => none

def SharePage (a b : Vma) : Prop :=
  a.vmType = .code ∧ b.vmType = .code ∧
    (a.vmEnd ≤ b.vmStart + PAGE_SIZE ∨ b.vmEnd ≤ a.vmStart + PAGE_SIZE)
instance (a b) : Decidable (SharePage a b) := by unfold SharePage; infer_instance

def Clear (a b : Vma) : Prop :=
  a.vmEnd ≤ b.vmStart ∨ b.vmEnd ≤ a.vmStart ∨ SharePage a b
instance (a b) : Decidable (Clear a b) := by unfold Clear; infer_instance

def InUserRange (v : Vma) : Prop := v.vmStart < v.vmEnd ∧ v.vmEnd ≤ USER_STACK_TOP
instance (v) : Decidable (InUserRange v) := by unfold InUserRange; infer_instance

structure Sound (vmas : List Vma) : Prop where
  sorted : Keyed.Sorted Vma.vmStart vmas
  clear : vmas.Pairwise Clear
  range : ∀ v ∈ vmas, InUserRange v

/-! ## When nothing goes wrong -/

def madeSegs (supply : Supply) (file : File) : List Seg :=
  match file.phdrs.bind (loadSegs file.size) with
  | some segs => if supply.mapped then (sortSegs segs).take supply.vmas else []
  | none => []

def Apart (a b : Seg) : Prop :=
  pageUp 64 (a.vaddr + a.memsz) ≤ pageDown b.vaddr + PAGE_SIZE ∨
  pageUp 64 (b.vaddr + b.memsz) ≤ pageDown a.vaddr + PAGE_SIZE
instance (a b) : Decidable (Apart a b) := by unfold Apart; infer_instance

def WellLaidOut (supply : Supply) (file : File) : Prop :=
  (∀ seg ∈ madeSegs supply file, seg.vaddr + seg.memsz < 2 ^ 64) ∧
  (madeSegs supply file).Pairwise Apart
instance (supply file) : Decidable (WellLaidOut supply file) := by
  unfold WellLaidOut
  infer_instance

def NoCode (vmas : List Vma) (start stop : Nat) : Prop :=
  ∀ v ∈ vmas, v.vmType = .code → v.vmEnd ≤ start ∨ stop ≤ v.vmStart
instance (vmas start stop) : Decidable (NoCode vmas start stop) := by
  unfold NoCode
  infer_instance

/-- The length of a mapping, rounded up and added to where the search starts, does
not wrap. A brk that has no heap yet asks for more than none. The pages that brk or
the stack grow by belong to no code. The segments of an image have at most a page in
common and end where they should. -/
def Fits (mm : MmStruct) : Call → Prop
  | .mmap addr length _ flags fd _ fdValid _ made =>
    (flags.testBit 5 ∨ 0 ≤ fd ∧ fdValid) → made →
      searchStart addr + (length + (PAGE_SIZE - 1)) / PAGE_SIZE * PAGE_SIZE < 2 ^ 32
  | .brk addr limit made =>
    addr ≠ 0 → brkAllowed mm addr limit → (∃ v ∈ mm.vmaList, isHeap v) ∨ made →
      ((∃ v ∈ mm.vmaList, isHeap v) ∨ addr ≠ mm.brkStart) ∧
      NoCode mm.vmaList mm.brkStart (pageUp 32 addr)
  | .fault addr write present paged =>
    ∀ v ∈ vmaFind mm.vmaList addr, grows v addr → !overflows v addr →
      checkAccess v write → !present → paged →
        NoCode mm.vmaList (pageDown addr) v.vmStart
  | .exec supply (some file) => WellLaidOut supply file
  | _ => True
instance (mm c) : Decidable (Fits mm c) := by
  unfold Fits
  split <;> infer_instance

def Allowed (tasks : Tasks) : Action → Prop
  | .spawn _ supply file => WellLaidOut supply file
  | .call pid c => ∀ mm ∈ tasks pid, Fits mm c
  | _ => True
instance (tasks act) : Decidable (Allowed tasks act) := by
  unfold Allowed
  split <;> infer_instance

end Scepter.Regions
