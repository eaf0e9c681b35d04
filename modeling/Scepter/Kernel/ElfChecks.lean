import Scepter.Kernel.Elf

/-! What elf32_load and elf64_load (kernel/elf.c) check before they map a page. They add
in uint64_t, where the sums of 32-bit fields cannot wrap and those of 64-bit fields can.
A segment without memory is skipped before the checks. -/
namespace Scepter.ElfChecks
open Mm (Arch PAGE_SIZE x86_64)
open Regions (Phdr Seg loadSegs PT_LOAD STACK_START)
open Elf

/-- elf32_load or elf64_load, until it calls elf_load_common with its segments. do_exec
passes no larger size on. -/
def elfLoad (arch : Arch) (file : Bytes) : Option (List Seg) :=
  let cls := nativeClass arch
  if file.length < 2 ^ 31 then
    (readEhdr cls file).bind fun h =>
      if ehdrOk cls h file.length then (readPhdrs cls file).bind (loadSegs file.length) else none
  else none

/-! ## What should hold -/

/-- The table of program headers and the segments are inside the file, and the segments'
memory is in user space. No sum wraps here. -/
structure Inside (cls : ElfClass) (file : Bytes) : Prop where
  table : ∃ h, readEhdr cls file = some h ∧ h.ePhoff + h.ePhnum * h.ePhentsize ≤ file.length
  segments : ∀ phdrs, readPhdrs cls file = some phdrs → ∀ ph ∈ phdrs, ph.pType = PT_LOAD →
    ph.pFilesz ≤ ph.pMemsz ∧ ph.pOffset + ph.pFilesz ≤ file.length ∧
      ph.pVaddr + ph.pMemsz ≤ STACK_START

/-- A header whose sums are those of uint64_t, or one that is skipped and in range. -/
def Honest (fileSize : Nat) (ph : Phdr) : Prop :=
  if ph.pMemsz = 0 then ph.pFilesz = 0 ∧ ph.pOffset ≤ fileSize ∧ ph.pVaddr ≤ STACK_START
  else ph.pVaddr + ph.pMemsz < 2 ^ 64 ∧ ph.pOffset + ph.pFilesz < 2 ^ 64

def Plain (cls : ElfClass) (file : Bytes) : Prop :=
  ∀ phdrs, readPhdrs cls file = some phdrs → ∀ ph ∈ phdrs, ph.pType = PT_LOAD →
    Honest file.length ph

/-! ## The headers -/

theorem loadSegsChecks {fileSize phdrs segs} (loaded : loadSegs fileSize phdrs = some segs) :
    ∀ ph ∈ phdrs, ph.pType = PT_LOAD → ph.pMemsz ≠ 0 →
      ph.pFilesz ≤ ph.pMemsz ∧ (ph.pVaddr + ph.pMemsz) % 2 ^ 64 ≤ STACK_START ∧
        (ph.pOffset + ph.pFilesz) % 2 ^ 64 ≤ fileSize := by
  induction phdrs generalizing segs with
  | nil => exact nofun
  | cons first rest ih =>
    unfold loadSegs at loaded
    intro ph member load memory
    split at loaded <;> rename_i skipped
    · rcases List.mem_cons.mp member with rfl | member
      · exact absurd skipped (not_or.mpr ⟨not_not_intro load, memory⟩)
      · exact ih loaded ph member load memory
    · split at loaded <;> rename_i bad
      · cases loaded
      · obtain ⟨others, found, -⟩ := Option.map_eq_some_iff.mp loaded
        rcases List.mem_cons.mp member with rfl | member
        · omega
        · exact ih found ph member load memory

theorem insideIffHonest {fileSize : Nat} {ph : Phdr} (sized : fileSize < 2 ^ 31)
    (checked : ph.pMemsz ≠ 0 → ph.pFilesz ≤ ph.pMemsz ∧
      (ph.pVaddr + ph.pMemsz) % 2 ^ 64 ≤ STACK_START ∧
        (ph.pOffset + ph.pFilesz) % 2 ^ 64 ≤ fileSize) :
    (ph.pFilesz ≤ ph.pMemsz ∧ ph.pOffset + ph.pFilesz ≤ fileSize ∧
      ph.pVaddr + ph.pMemsz ≤ STACK_START) ↔ Honest fileSize ph := by
  have top : STACK_START < 2 ^ 64 := by decide
  unfold Honest
  by_cases empty : ph.pMemsz = 0
  · rw [if_pos empty]
    omega
  · obtain ⟨less, memory, data⟩ := checked empty
    rw [if_neg empty]
    constructor
    · omega
    · rintro ⟨low, within⟩
      rw [Nat.mod_eq_of_lt low] at memory
      rw [Nat.mod_eq_of_lt within] at data
      exact ⟨less, data, memory⟩

theorem loadLess (m : Buf) (a k : Nat) : m.load a k < 256 ^ k := by
  induction k generalizing a with
  | zero => exact Nat.one_pos
  | succ k ih =>
    have rest := ih (a + 1)
    have byte := (m a).isLt
    unfold Buf.load
    rw [Nat.pow_succ]
    omega

theorem ehdrWords {arch : Arch} {file : Bytes} {h : Ehdr}
    (read : readEhdr (nativeClass arch) file = some h) :
    h.ePhoff < 2 ^ 64 ∧ h.ePhentsize < 2 ^ 16 := by
  obtain ⟨b, -, rfl⟩ := Option.map_eq_some_iff.mp read
  refine ⟨?_, loadLess b _ 2⟩
  dsimp only
  unfold nativeClass
  split
  · exact Nat.lt_trans (loadLess b _ 4) (by decide)
  · exact loadLess b _ 8

theorem tableInside {arch : Arch} {file : Bytes} {h : Ehdr} {phdrs : List Phdr}
    (read : readEhdr (nativeClass arch) file = some h)
    (ok : ehdrOk (nativeClass arch) h file.length = true)
    (headers : readPhdrs (nativeClass arch) file = some phdrs) :
    h.ePhoff + h.ePhnum * h.ePhentsize ≤ file.length := by
  obtain ⟨word, entry⟩ := ehdrWords read
  unfold ehdrOk at ok
  simp only [Bool.and_eq_true, bne_iff_ne, decide_eq_true_eq] at ok
  obtain ⟨⟨⟨-, some'⟩, few⟩, within⟩ := ok
  have most : h.ePhnum * h.ePhentsize ≤ 256 * 2 ^ 16 :=
    Nat.mul_le_mul few (Nat.le_of_lt entry)
  by_cases wraps : h.ePhoff + h.ePhnum * h.ePhentsize < 2 ^ 64
  · rwa [Nat.mod_eq_of_lt wraps] at within
  · -- the first header has no offset that an int32_t holds
    exfalso
    unfold readPhdrs at headers
    rw [read, Option.bind_some] at headers
    obtain ⟨n, count⟩ := Nat.exists_eq_succ_of_ne_zero some'
    rw [count, List.range_succ_eq_map, List.mapM_cons] at headers
    obtain ⟨first, found, -⟩ := Option.bind_eq_some_iff.mp headers
    obtain ⟨b, got, -⟩ := Option.map_eq_some_iff.mp found
    obtain ⟨bytes, from', -⟩ := Option.bind_eq_some_iff.mp got
    unfold pread at from'
    rw [Nat.zero_mul, Nat.add_zero, if_pos (by omega)] at from'
    cases from'

/-! ## The claim's sums -/

/-- The loader's check keeps a file's table and segments inside exactly when none of its
segments has a sum that wraps, and those without memory are in range. -/
theorem insideIffPlain (arch : Arch) (file : Bytes) {segs : List Seg}
    (accepted : elfLoad arch file = some segs) :
    Inside (nativeClass arch) file ↔ Plain (nativeClass arch) file := by
  unfold elfLoad at accepted
  dsimp only at accepted
  split at accepted <;> rename_i sized
  · obtain ⟨h, read, rest⟩ := Option.bind_eq_some_iff.mp accepted
    split at rest <;> rename_i ok
    · obtain ⟨phdrs, headers, loaded⟩ := Option.bind_eq_some_iff.mp rest
      have checked := loadSegsChecks loaded
      constructor
      · intro inside all same ph member load
        cases headers.symm.trans same
        exact (insideIffHonest sized (checked ph member load)).mp
          (inside.segments phdrs headers ph member load)
      · intro plain
        refine ⟨⟨h, read, tableInside read ok headers⟩, fun all same ph member load => ?_⟩
        cases headers.symm.trans same
        exact (insideIffHonest sized (checked ph member load)).mpr
          (plain phdrs headers ph member load)
    · cases rest
  · cases accepted

def littleEndian (v : Nat) : Nat → Bytes
  | 0 => []
  | k + 1 => BitVec.ofNat 8 v :: littleEndian (v / 256) k

def fileOf (vaddr memsz : Nat) : Bytes :=
  ELFMAG ++ [2, 1, 1] ++ List.replicate 9 0 ++ littleEndian ET_EXEC 2 ++ List.replicate 14 0 ++
    littleEndian 64 8 ++ List.replicate 12 0 ++ littleEndian 64 2 ++ littleEndian 56 2 ++
    littleEndian 1 2 ++ List.replicate 6 0 ++
    littleEndian PT_LOAD 4 ++ littleEndian 6 4 ++ littleEndian 0 8 ++ littleEndian vaddr 8 ++
    littleEndian 0 8 ++ littleEndian 0 8 ++ littleEndian memsz 8 ++ littleEndian PAGE_SIZE 8

theorem lowInside : Inside (nativeClass x86_64) (fileOf 0x08048000 0x2000) := by
  obtain ⟨segs, accepted⟩ := Option.isSome_iff_exists.mp
    (show (elfLoad x86_64 (fileOf 0x08048000 0x2000)).isSome = true by decide +kernel)
  refine (insideIffPlain x86_64 (fileOf 0x08048000 0x2000) accepted).mpr ?_
  intro phdrs read ph member _
  have one : readPhdrs (nativeClass x86_64) (fileOf 0x08048000 0x2000) =
    some [⟨PT_LOAD, 0x08048000, 0, 0x2000, 0, 6⟩] := rfl
  cases one.symm.trans read
  cases List.mem_singleton.mp member
  exact ⟨by decide, by decide⟩

/-- The last page below 2^64 is a segment's first one, and the sum is 4096. -/
theorem wrapAccepted : (elfLoad x86_64 (fileOf (2 ^ 64 - 0x1000) 0x2000)).isSome = true ∧
    ¬ Inside (nativeClass x86_64) (fileOf (2 ^ 64 - 0x1000) 0x2000) := by
  refine ⟨by decide +kernel, fun inside => ?_⟩
  have one : readPhdrs (nativeClass x86_64) (fileOf (2 ^ 64 - 0x1000) 0x2000) =
    some [⟨PT_LOAD, 2 ^ 64 - 0x1000, 0, 0x2000, 0, 6⟩] := rfl
  exact absurd (inside.segments _ one _ (List.mem_singleton_self _) rfl).2.2 (by decide)

end Scepter.ElfChecks
