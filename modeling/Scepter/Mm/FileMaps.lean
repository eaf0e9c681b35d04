import Scepter.Fs.Descriptors
import Scepter.Mm.Vma

/-! Mappings of files: mmap and munmap (kernel/syscall.c), page faults
(mm/pagefault.c), the write-back of shared pages (mm/vma.c) and the descriptor
tables they go through (fs/vfs.c). A VMA keeps the number that mmap was given;
`made` is what that number stood for then, which the code does not keep. Of a
driver's read or write that breaks off the bytes before the failure are there. -/
namespace Scepter.FileMaps
open Mm (Arch PAGE_SIZE)
open Regions (Vma covers grows overflows checkAccess pageDown vmaFindFreeRegion vmaCreate)
open Descriptors (Task findFdEntry runningTask)

inductive Opened where
  | regular (inode : Nat) (readable writable : Bool)
  | special (phys : Option Nat)
  deriving DecidableEq

structure File where
  size : Nat
  bytes : Nat → UInt8

def File.byteAt (file : File) (k : Nat) : UInt8 := if k < file.size then file.bytes k else 0

abbrev Page := Nat → UInt8

def zeroPage : Page := fun _ => 0

structure Made where
  inode : Nat
  base : Nat
  offset : Nat
  deriving DecidableEq

structure Mapping where
  vma : Vma
  made : Option Made

structure MmStruct where
  maps : List Mapping
  pages : Nat → Option Page

structure State where
  fds : Descriptors.State
  opened : Nat → Opened
  files : Nat → File
  mm : Nat → MmStruct

def setMm (s : State) (t : Nat) (mm : MmStruct) : State := {s with mm := Function.update s.mm t mm}

def named (s : State) (task : Task) (fd : Int) : Option Opened :=
  (findFdEntry task fd).map fun e => s.opened e.file

/-- `got` bytes of a regular file come before the driver's read ends, and `bytes`
is what a special file gives. -/
structure Answer where
  got : Nat
  bytes : Page

def fsPread (s : State) (task : Task) (fd : Int) (offset : Nat) (answer : Answer) : Page :=
  match named s task fd with
  | some (.regular inode true _) =>
    if offset ≥ 2 ^ 31 then zeroPage
    else fun k => if k < answer.got then (s.files inode).byteAt (offset + k) else 0
  | some (.special _) => answer.bytes
  | _ => zeroPage

def File.write (file : File) (offset : Nat) (page : Page) (put : Nat) : File where
  size := if put < PAGE_SIZE then file.size else max file.size (offset + put)
  bytes k := if offset ≤ k ∧ k < offset + put then page (k - offset) else file.bytes k

def fsPwrite (s : State) (task : Task) (fd : Int) (offset : Nat) (page : Page) (put : Nat) :
    State :=
  match named s task fd with
  | some (.regular inode _ true) =>
    if offset ≥ 2 ^ 31 then s
    else
      let file := (s.files inode).write offset page (min put PAGE_SIZE)
      {s with files := Function.update s.files inode file}
  | _ => s

def fileOff (v : Vma) (a : Nat) : Nat := (v.vmFileOff + (a - v.vmStart)) % 2 ^ 32

/-! ## Page faults -/

def present (mm : MmStruct) (a : Nat) : Bool := (mm.pages a).isSome

def grow (addr : Nat) (v : Vma) : Vma :=
  if grows v addr then {v with vmStart := pageDown addr} else v

def handled (mm : MmStruct) (addr : Nat) (write room : Bool) : Option Mapping :=
  match mm.maps.find? fun m => covers addr m.vma with
  | none => none
  | some m =>
    if grows m.vma addr && overflows m.vma addr then none
    else if !checkAccess (grow addr m.vma) write || present mm (pageDown addr) || !room then none
    else some m

def allocatePage (s : State) (task : Task) (v : Vma) (vaddr : Nat) (answer : Answer) : Page :=
  if v.vmFlags.io then answer.bytes
  else if v.vmFd ≥ 0 && v.vmType == .mmap then fsPread s task v.vmFd (fileOff v vaddr) answer
  else zeroPage

/-! ## Write-back -/

def pagesOf (v : Vma) : List Nat :=
  List.range' v.vmStart ((v.vmEnd - v.vmStart + (PAGE_SIZE - 1)) / PAGE_SIZE) PAGE_SIZE

def writePage (t : Nat) (task : Task) (puts : Nat → Nat) (v : Vma) (s : State) (a : Nat) :
    State :=
  match (s.mm t).pages a with
  | none => s
  | some page => fsPwrite s task v.vmFd (fileOff v a) page (puts a)

def writeBack (t : Nat) (task : Task) (puts : Nat → Nat) (v : Vma) (s : State) : State :=
  (pagesOf v).foldl (writePage t task puts v) s

def flushed (v : Vma) : Bool := v.vmFd ≥ 0 && v.vmShared && !v.vmFlags.io

def mmWritebackShared (t : Nat) (task : Task) (puts : Nat → Nat) (s : State) : State :=
  (s.mm t).maps.foldl
    (fun s m => if m.vma.vmType == .mmap && flushed m.vma then writeBack t task puts m.vma s else s) s

def unmapUserRange (s : State) (t start stop : Nat) : State :=
  let mm := s.mm t
  setMm s t {mm with pages := fun a => if start ≤ a ∧ a < stop then none else mm.pages a}

def munmapFrom (t : Nat) (task : Task) (puts : Nat → Nat) (start stop : Nat) :
    List Mapping → State → List Mapping × State
  | [], s => ([], s)
  | m :: rest, s =>
    let v := m.vma
    if start < v.vmEnd ∧ stop > v.vmStart then
      if start = v.vmStart ∧ stop = v.vmEnd then
        let s := if flushed v then writeBack t task puts v s else s
        munmapFrom t task puts start stop rest (unmapUserRange s t v.vmStart v.vmEnd)
      else (m :: rest, s)
    else
      let (kept, s) := munmapFrom t task puts start stop rest s
      (m :: kept, s)

def sysMunmap (s : State) (t : Nat) (task : Task) (puts : Nat → Nat) (addr length : Nat) : State :=
  let start := pageDown addr
  let stop := pageDown ((addr + length + 0xFFF) % 2 ^ 32)
  let (kept, s) := munmapFrom t task puts start stop (s.mm t).maps s
  setMm s t {s.mm t with maps := kept}

def noMm : MmStruct := ⟨[], fun _ => none⟩

def doExit (s : State) (t : Nat) (task : Task) (puts : Nat → Nat) : State :=
  let s := mmWritebackShared t task puts s
  setMm {s with fds := Descriptors.doExit s.fds t task} t noMm

/-! ## mmap, fork and exec -/

def sysMmap (arch : Arch) (s : State) (t : Nat) (task : Task)
    (addr length prot flags : Nat) (fd : Int) (offset : Nat) (created : Bool) : State :=
  let isAnon := flags.testBit 5
  if length = 0 then s
  else if !isAnon && (fd < 0 || (findFdEntry task fd).isNone) then s
  else
    let mm := s.mm t
    let mapAddr := vmaFindFreeRegion (mm.maps.map Mapping.vma) length addr
    if mapAddr = 0 ∨ !created then s
    else
      let shared := flags.testBit 0
      let vmFlags : Regions.Flags :=
        ⟨prot.testBit 0, prot.testBit 1, prot.testBit 2, shared, false, false⟩
      let v := vmaCreate arch mapAddr ((mapAddr + length) % 2 ^ arch.wordBits) vmFlags .mmap
      let v := {v with
        vmFd := if isAnon then -1 else fd
        vmFileOff := offset
        vmShared := shared}
      let m : Mapping := match isAnon, named s task fd with
        | false, some (.special (some phys)) =>
          ⟨{v with vmFlags := {vmFlags with io := true}, vmPhysBase := phys}, none⟩
        | false, some (.regular inode _ _) => ⟨v, some ⟨inode, mapAddr, offset⟩⟩
        | _, _ => ⟨v, none⟩
      setMm s t {mm with maps := Keyed.insert (fun m => m.vma.vmStart) m mm.maps}

def copyMapping (arch : Arch) (m : Mapping) : Mapping := ⟨Regions.copyVma arch m.vma, m.made⟩

def forkMm (arch : Arch) (mm : MmStruct) : MmStruct :=
  {mm with maps := Keyed.insertAll (fun m => m.vma.vmStart) [] (mm.maps.map (copyMapping arch))}

def imageMm (image : List Vma) : MmStruct :=
  ⟨image.map fun v => ⟨{v with vmFd := -1}, none⟩, fun _ => none⟩

/-! ## Runs -/

inductive Action where
  -- what a new open file is of is `what`
  | call (a : Descriptors.Action) (what : Opened)
  | fork (t : Nat) (failsAfter : Option Nat)
  | exec (t : Nat) (image : List Vma)
  | exit (t : Nat) (puts : Nat → Nat)
  | mmap (t addr length prot flags : Nat) (fd : Int) (offset : Nat) (created : Bool)
  | munmap (t addr length : Nat) (puts : Nat → Nat)
  | fault (t addr : Nat) (write room : Bool) (answer : Answer) (puts : Nat → Nat)
  | store (t addr : Nat) (byte : UInt8)
  -- what write, truncate and the rest make of a file
  | change (inode : Nat) (file : File)

def isPlain : Descriptors.Action → Bool
  | .fork .. => false
  | .exec .. => false
  | .exit .. => false
  | _ => true

def openedBy (s : State) (what : Opened) : Descriptors.Action → Nat → Opened
  | .openFile _ true _ _ => Function.update s.opened s.fds.next what
  | _ => s.opened

def step (arch : Arch) (s : State) : Action → Option State
  | .call a what =>
    if isPlain a then
      (Descriptors.step s.fds a).map fun fds => {s with fds := fds, opened := openedBy s what a}
    else none
  | .fork t failsAfter => (runningTask s.fds t).map fun task =>
    let s' := {s with fds := Descriptors.sysFork s.fds task failsAfter}
    match failsAfter with
    | none => setMm s' s.fds.tasks.length (forkMm arch (s.mm t))
    | some _ => s'
  | .exec t image => (runningTask s.fds t).map fun task =>
    setMm {s with fds := Descriptors.fsCloseOnExec s.fds t task} t (imageMm image)
  | .exit t puts => (runningTask s.fds t).map fun task => doExit s t task puts
  | .mmap t addr length prot flags fd offset created => (runningTask s.fds t).map fun task =>
    sysMmap arch s t task addr length prot flags fd offset created
  | .munmap t addr length puts => (runningTask s.fds t).map fun task =>
    sysMunmap s t task puts addr length
  | .fault t addr write room answer puts => (runningTask s.fds t).map fun task =>
    let mm := s.mm t
    match handled mm addr write room with
    | none => doExit s t task puts
    | some m =>
      let page := allocatePage s task (grow addr m.vma) (pageDown addr) answer
      let grown (m : Mapping) : Mapping := {m with vma := grow addr m.vma}
      setMm s t {mm with
        maps := Keyed.update (fun m => covers addr m.vma) grown mm.maps
        pages := Function.update mm.pages (pageDown addr) (some page)}
  | .store t addr byte =>
    let mm := s.mm t
    match mm.maps.find? fun m => covers addr m.vma, mm.pages (pageDown addr) with
    | some m, some page =>
      if m.vma.vmFlags.write then
        let page := Function.update page (addr % PAGE_SIZE) byte
        some (setMm s t {mm with pages := Function.update mm.pages (pageDown addr) (some page)})
      else none
    | _, _ => none
  | .change inode file => some {s with files := Function.update s.files inode file}

def boot (nofile : Option Int) (files : Nat → File) : State :=
  ⟨Descriptors.boot nofile, fun _ => .special none, files, fun _ => noMm⟩

end Scepter.FileMaps
