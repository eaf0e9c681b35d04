import Scepter.Mm.UserSpace

/-! The address space of a child (sys_fork, arch_mm_copy_user): a page of RAM for each
present page of the parent, with its bytes and its flags. `ram` gives the bytes of
every frame, of RAM or of a device; those of page tables are left out. What the two
processes do afterwards are stores, faults on private memory and unmapping. -/
namespace Scepter.CopyUser
open Mm (Arch PAGE_SIZE i386 x86_64)
open Regions (Vma MmStruct pageDown pageUp copyVma)
open UserSpace

abbrev Page := Nat → UInt8

structure Memory where
  frames : Frames
  ram : Nat → Page

def Held (fr : Frames) (frame : Nat) : Prop := fr.total ≤ frame ∨ frame ∈ fr.used
instance (fr frame) : Decidable (Held fr frame) := by unfold Held; infer_instance

def tableIndex (arch : Arch) (page : Nat) : Nat :=
  if arch.wordBits = 32 then page >>> 22 else page >>> 21

structure Process (arch : Arch) (fr : Frames) where
  mm : MmStruct
  mmu : Mmu
  distinct : (mmu.ptes.map Pte.page).Nodup
  tabled : ∀ p ∈ mmu.ptes, ∃ t ∈ mmu.tables, t.level = 0 ∧ t.index = tableIndex arch p.page
  held : ∀ p ∈ mmu.ptes, Held fr p.frame

/-! ## fork -/

def setEntry (mmu : Mmu) (p : Pte) : Mmu :=
  {mmu with ptes := p :: mmu.ptes.filter fun q => q.page ≠ p.page}

def copyPages (arch : Arch) : List Pte → Mmu → Memory → Option (Mmu × Memory)
  | [], child, m => some (child, m)
  | p :: rest, child, m => match ensureTables (tablesTo arch p.page) child m.frames with
    | (false, _, _) => none
    | (true, child, fr) => match fr.alloc 1 with
      | none => none
      | some (frame, fr) =>
        copyPages arch rest (setEntry child ⟨p.page, frame, p.flags⟩)
          ⟨fr, Function.update m.ram frame (m.ram p.frame)⟩

def copyTable (arch : Arch) (t : Table) (child : Mmu) (fr : Frames) : Bool × Mmu × Frames :=
  if arch.wordBits = 32 then (true, child, fr)
  else ensureTables (tablesTo arch (t.index <<< 21)) child fr

def copyTables (arch : Arch) (ptes : List Pte) :
    List Table → Mmu → Memory → Option (Mmu × Memory)
  | [], child, m => some (child, m)
  | t :: rest, child, m => match copyTable arch t child m.frames with
    | (false, _, _) => none
    | (true, child, fr) =>
      let pages := ptes.filter fun p => tableIndex arch p.page = t.index
      (copyPages arch pages child {m with frames := fr}).bind fun (child, m) =>
        copyTables arch ptes rest child m

def archMmCopyUser (arch : Arch) (parent child : Mmu) (m : Memory) : Option (Mmu × Memory) :=
  let tables := Keyed.insertAll Table.index [] (parent.tables.filter fun t => t.level = 0)
  copyTables arch (Keyed.insertAll Pte.page [] parent.ptes) tables child m

structure Child where
  mm : MmStruct
  mmu : Mmu

def sysFork (arch : Arch) (made : Bool) (m : Memory) (parent : Process arch m.frames) :
    Option (Child × Memory) :=
  if !made then none
  else (newSpace arch m.frames.total m.frames.used).bind fun space =>
    (archMmCopyUser arch parent.mmu space.mmu {m with frames := space.frames}).map
      fun (mmu, m) => (⟨Regions.forkMm arch parent.mm, mmu⟩, m)

/-! ## Afterwards -/

inductive Side where
  | parent | child
  deriving DecidableEq

def Side.other : Side → Side
  | .parent => .child
  | .child => .parent

structure Pair where
  mmu : Side → Mmu
  memory : Memory

def afterFork (parent : Mmu) (forked : Child × Memory) : Pair :=
  ⟨fun | .parent => parent | .child => forked.1.mmu, forked.2⟩

def entry (mmu : Mmu) (a : Nat) : Option Pte := mmu.ptes.find? fun p => p.page = pageDown a

def Pair.reads (s : Pair) (side : Side) (a : Nat) : Option UInt8 :=
  (entry (s.mmu side) a).map fun p => s.memory.ram p.frame (a % PAGE_SIZE)

inductive Action where
  | store (a : Nat) (byte : UInt8)
  | fault (a flags : Nat)
  | unmap (start stop : Nat)

def Pair.store (s : Pair) (side : Side) (a : Nat) (byte : UInt8) : Pair :=
  match entry (s.mmu side) a with
  | none => s
  | some p =>
    if p.flags.testBit 1 then
      let page := Function.update (s.memory.ram p.frame) (a % PAGE_SIZE) byte
      {s with memory := {s.memory with ram := Function.update s.memory.ram p.frame page}}
    else s

def Pair.fault (arch : Arch) (s : Pair) (side : Side) (a flags : Nat) : Pair :=
  if archMmUserPresent (s.mmu side) a then s
  else
    let ram := match s.memory.frames.alloc 1 with
      | none => s.memory.ram
      | some (frame, _) => Function.update s.memory.ram frame fun _ => 0
    let (_, mmu, fr) := allocatePage arch (s.mmu side) s.memory.frames (pageDown a) flags
    ⟨Function.update s.mmu side mmu, ⟨fr, ram⟩⟩

def act (arch : Arch) (s : Pair) : Side × Action → Pair
  | (side, .store a byte) => s.store side a byte
  | (side, .fault a flags) => s.fault arch side a flags
  | (side, .unmap start stop) =>
    {s with mmu := Function.update s.mmu side (archMmUnmapUserRange (s.mmu side) start stop)}

/-! ## What should hold -/

def device (vmas : List Vma) (p : Pte) : Prop :=
  ∃ v ∈ vmas, v.vmFlags.io = true ∧ inRange v.vmStart v.vmEnd p = true
instance (vmas p) : Decidable (device vmas p) := by unfold device; infer_instance

structure ForkRight (arch : Arch) (m : Memory) (parent : Process arch m.frames)
    (forked : Child × Memory) : Prop where
  vmas : forked.1.mm.vmaList = parent.mm.vmaList
  present : ∀ a, archMmUserPresent forked.1.mmu a = archMmUserPresent parent.mmu a
  flags : ∀ p ∈ parent.mmu.ptes, ∀ c ∈ forked.1.mmu.ptes, c.page = p.page → c.flags = p.flags
  contents : ∀ p ∈ parent.mmu.ptes, forked.2.ram p.frame = m.ram p.frame ∧
    ∀ c ∈ forked.1.mmu.ptes, c.page = p.page → forked.2.ram c.frame = m.ram p.frame
  apart : ∀ p ∈ parent.mmu.ptes, ¬ device parent.mm.vmaList p →
    ∀ c ∈ forked.1.mmu.ptes, ¬ device parent.mm.vmaList c → c.frame ≠ p.frame
  shared : ∀ p ∈ parent.mmu.ptes, device parent.mm.vmaList p →
    ∀ c ∈ forked.1.mmu.ptes, c.page = p.page → c.frame = p.frame
  unseen : ∀ acts side a byte b,
    let s := List.foldl (act arch) (afterFork parent.mmu forked) acts
    (s.store side a byte).reads side.other b = s.reads side.other b

/-! ## When nothing goes wrong -/

def Plain (arch : Arch) (v : Vma) : Prop :=
  pageDown v.vmStart = v.vmStart ∧ pageUp arch.wordBits v.vmEnd = v.vmEnd ∧ v.vmPhysBase = 0
instance (arch v) : Decidable (Plain arch v) := by unfold Plain; infer_instance

structure Copies {arch : Arch} {fr : Frames} (parent : Process arch fr) : Prop where
  sorted : Keyed.Sorted Vma.vmStart parent.mm.vmaList
  plain : ∀ v ∈ parent.mm.vmaList, Plain arch v
  memory : ∀ p ∈ parent.mmu.ptes, ¬ device parent.mm.vmaList p

end Scepter.CopyUser
