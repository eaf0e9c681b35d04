import Scepter.Lib.Memory
import Scepter.Mm.Vma

/-! The executable loader (kernel/elf.c): the checks that do_exec makes before it
frees the old image, and the load, which makes more of them. ELF32 and ELF64 differ
in the layout of their headers only; the fields are at the offsets of the packed
structures of kernel/elf.h. fs_pread takes its offset as an int32_t. -/
namespace Scepter.Elf
open Mm (Arch PAGE_SIZE)
open Regions (Vma Phdr Supply ExecImage)

abbrev Bytes := List Byte

def pread (file : Bytes) (off n : Nat) : Option Bytes :=
  if off ≥ 2 ^ 31 then none else some ((file.drop off).take n)

def preadAll (file : Bytes) (off n : Nat) : Option Buf :=
  (pread file off n).bind fun bytes =>
    if bytes.length = n then some fun k => bytes.getD k 0 else none

def EI_NIDENT : Nat := 16
def EI_CLASS : Nat := 4
def EI_DATA : Nat := 5
def EI_VERSION : Nat := 6
def ELFMAG : Bytes := [0x7f, 0x45, 0x4c, 0x46]
def ELFDATA2LSB : Nat := 1
def EV_CURRENT : Nat := 1
def ET_EXEC : Nat := 2
def ELF_MAX_PHDRS : Nat := 256

structure ElfClass where
  ident : Nat
  word : Nat
  ehdr : Nat
  phdr : Nat
  ePhoff : Nat
  eEhsize : Nat
  ePhentsize : Nat
  ePhnum : Nat
  pFlags : Nat
  pOffset : Nat
  pVaddr : Nat
  pFilesz : Nat
  pMemsz : Nat

def ELFCLASS32 : ElfClass := ⟨1, 4, 52, 32, 28, 40, 42, 44, 24, 4, 8, 16, 20⟩
def ELFCLASS64 : ElfClass := ⟨2, 8, 64, 56, 32, 52, 54, 56, 4, 8, 16, 32, 40⟩

def nativeClass (arch : Arch) : ElfClass := if arch.wordBits = 32 then ELFCLASS32 else ELFCLASS64

structure Ehdr where
  eType : Nat
  ePhoff : Nat
  eEhsize : Nat
  ePhentsize : Nat
  ePhnum : Nat

def readEhdr (cls : ElfClass) (file : Bytes) : Option Ehdr :=
  (preadAll file 0 cls.ehdr).map fun b =>
    ⟨b.load 16 2, b.load cls.ePhoff cls.word, b.load cls.eEhsize 2, b.load cls.ePhentsize 2,
      b.load cls.ePhnum 2⟩

/-- The sum is a uint64_t for both classes. -/
def ehdrOk (cls : ElfClass) (h : Ehdr) (fileSize : Nat) : Bool :=
  h.eType == ET_EXEC && h.eEhsize ≥ cls.ehdr && h.ePhentsize ≥ cls.phdr && h.ePhnum != 0 &&
    h.ePhnum ≤ ELF_MAX_PHDRS && (h.ePhoff + h.ePhnum * h.ePhentsize) % 2 ^ 64 ≤ fileSize

def elfCheckHeader (arch : Arch) (file : Bytes) : Bool :=
  let cls := nativeClass arch
  match preadAll file 0 EI_NIDENT with
  | none => false
  | some ident =>
    (ident EI_DATA).toNat == ELFDATA2LSB && (ident EI_VERSION).toNat == EV_CURRENT &&
      (ident EI_CLASS).toNat == cls.ident &&
      match readEhdr cls file with
      | none => false
      | some h => ehdrOk cls h file.length

def isElf (file : Bytes) : Bool := file.take 4 == ELFMAG

def execFormatCheck (arch : Arch) (file : Bytes) : Bool :=
  if isElf file then elfCheckHeader arch file else true

def readPhdr (cls : ElfClass) (file : Bytes) (h : Ehdr) (i : Nat) : Option Phdr :=
  (preadAll file ((h.ePhoff + i * h.ePhentsize) % 2 ^ 32) cls.phdr).map fun b => {
    pType := b.load 0 4
    pVaddr := b.load cls.pVaddr cls.word
    pFilesz := b.load cls.pFilesz cls.word
    pMemsz := b.load cls.pMemsz cls.word
    pOffset := b.load cls.pOffset cls.word
    pFlags := b.load cls.pFlags 4 }

def readPhdrs (cls : ElfClass) (file : Bytes) : Option (List Phdr) :=
  (readEhdr cls file).bind fun h => (List.range h.ePhnum).mapM (readPhdr cls file h)

/-- What memory and the disk have for a load. `reread` tells whether the headers can
be read again. -/
structure Resources where
  reread : Bool
  supply : Supply

def loadBinary (arch : Arch) (res : Resources) (file : Bytes) :
    Option ExecImage × List Vma :=
  if sized : 0 < file.length ∧ file.length < 2 ^ 31 then
    if !res.reread then (none, [])
    else if isElf file then
      match readPhdrs (nativeClass arch) file with
      | none => (none, [])
      | some phdrs => Regions.loadBinary arch res.supply ⟨file.length, some phdrs, sized⟩ []
    else Regions.loadBinary arch res.supply ⟨file.length, none, sized⟩ []
  else (none, [])

end Scepter.Elf
