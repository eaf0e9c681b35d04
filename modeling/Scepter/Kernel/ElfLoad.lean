import Scepter.Kernel.ElfChecks
import Mathlib.Data.List.Nodup
import Mathlib.Algebra.Group.Nat.Defs

/-! elf_load_common (kernel/elf.c): the segments are sorted, their page ranges are merged
into regions, and each page of a region is allocated, filled and mapped. -/
namespace Scepter.ElfLoad
open Mm (Arch PAGE_SIZE x86_64)
open Regions (Seg sortSegs mergeRegion pageDown pageUp STACK_START)
open Elf (Bytes pread nativeClass)
open ElfChecks (elfLoad)

/-- What the kernel has for the load: kalloc, page_alloc, fs_pread's answer at an offset
to a request, arch_mm_map_user and vma_create. fs_pread gives as many bytes as the file
has, or fewer. -/
structure Env where
  kalloc : Bool
  pageAlloc : Nat → Bool
  most : Nat → Nat → Nat
  mapUser : Nat → Bool
  vmaCreate : Nat → Bool

structure Page where
  addr : Nat
  bytes : Buf
  writable : Bool

def ENOMEM : Int := 12
def EIO : Int := 5
def ENOEXEC : Int := 8

/-- The loop around fs_pread, until `cnt` bytes are there. Each read adds a byte or fails,
so that `cnt` turns are enough. -/
def readAll (env : Env) (file : Bytes) (foff cnt : Nat) : Nat → Bytes → Option Bytes
  | 0, got => some got
  | turns + 1, got =>
    if got.length < cnt then
      let pos := (foff + got.length) % 2 ^ 32
      match pread file pos (cnt - got.length) with
      | none => none
      | some bytes =>
        let bytes := bytes.take (env.most pos (cnt - got.length))
        if bytes = [] then none else readAll env file foff cnt turns (got ++ bytes)
    else some got

def copySeg (arch : Arch) (env : Env) (file : Bytes) (cur : Nat) (s : Seg) (buf : Buf) :
    Option Buf :=
  let sEnd := (s.vaddr + s.filesz) % 2 ^ arch.wordBits
  let next := (cur + PAGE_SIZE) % 2 ^ arch.wordBits
  if sEnd ≤ cur ∨ s.vaddr ≥ next then some buf
  else
    let lo := if s.vaddr > cur then s.vaddr else cur
    let hi := if sEnd < next then sEnd else next
    if hi ≤ lo then some buf
    else
      let foff := (s.offset + (lo - s.vaddr)) % 2 ^ arch.wordBits
      (readAll env file foff (hi - lo) (hi - lo) []).map fun bytes => buf.write (lo - cur) bytes

def copySegs (arch : Arch) (env : Env) (file : Bytes) (cur : Nat) : List Seg → Buf → Option Buf
  | [], buf => some buf
  | s :: rest, buf => (copySeg arch env file cur s buf).bind (copySegs arch env file cur rest)

def pageFlags (arch : Arch) (cur : Nat) (segs : List Seg) : Nat :=
  segs.foldl (fun flags s =>
    if s.vaddr < (cur + PAGE_SIZE) % 2 ^ arch.wordBits ∧ s.stop arch > cur then flags ||| s.flags
    else flags) 0

def mapPages (arch : Arch) (env : Env) (file : Bytes) (segs : List Seg) :
    List Nat → List Page → Int × List Page
  | [], mapped => (0, mapped)
  | cur :: rest, mapped =>
    if !env.pageAlloc cur then (-ENOMEM, mapped)
    else match copySegs arch env file cur segs (fun _ => 0) with
      | none => (- EIO, mapped)
      | some bytes =>
        if !env.mapUser cur then (-ENOMEM, mapped)
        else mapPages arch env file segs rest
          (mapped ++ [⟨cur, bytes, (pageFlags arch cur segs).testBit 1⟩])

def pagesOf (region : Nat × Nat) : List Nat :=
  (List.range ((region.2 - region.1) / PAGE_SIZE)).map fun k => region.1 + k * PAGE_SIZE

def elfLoadCommon (arch : Arch) (env : Env) (file : Bytes) (segs : List Seg) : Int × List Page :=
  let segs := sortSegs segs
  if !env.kalloc then (-ENOMEM, [])
  else
    let regions := (segs.foldl (mergeRegion arch) []).reverse
    match mapPages arch env file segs (regions.flatMap pagesOf) [] with
    | (0, mapped) =>
      if regions.foldl (fun most region => max most region.2) 0 = 0 then (-ENOEXEC, mapped)
      else if (List.range segs.length).all env.vmaCreate then (0, mapped)
      else (-ENOMEM, mapped)
    | failed => failed

/-! ## What should hold -/

def Seg.Holds (s : Seg) (x : Nat) : Prop := s.vaddr ≤ x ∧ x < s.vaddr + s.memsz
instance (s : Seg) (x) : Decidable (Seg.Holds s x) := by unfold Seg.Holds; infer_instance

def Seg.Reaches (s : Seg) (a : Nat) : Prop := s.vaddr < a + PAGE_SIZE ∧ a < s.vaddr + s.memsz

/-- Each page of the union is mapped once, and no other. A byte of one segment only is the
file's or zero. The pages that can be written are those of a segment with PF_W. -/
structure Right (file : Bytes) (segs : List Seg) (pages : List Page) : Prop where
  once : (pages.map Page.addr).Nodup
  union : ∀ a, a ∈ pages.map Page.addr ↔ PAGE_SIZE ∣ a ∧ ∃ s ∈ segs, Seg.Reaches s a
  bytes : ∀ p ∈ pages, ∀ k < PAGE_SIZE, ∀ s,
    segs.filter (fun s => Seg.Holds s (p.addr + k)) = [s] →
      if p.addr + k - s.vaddr < s.filesz then
        file[s.offset + (p.addr + k - s.vaddr)]? = some (p.bytes k)
      else p.bytes k = 0
  writable : ∀ p ∈ pages, p.writable = true ↔
    ∃ s ∈ segs, s.flags.testBit 1 = true ∧ Seg.Reaches s p.addr

def Below (segs : List Seg) : Prop := ∀ s ∈ segs, s.vaddr + s.memsz < 2 ^ 64

/-! ## fs_pread -/

section
variable {env : Env} {file : Bytes}

theorem readAllSpec (sized : file.length < 2 ^ 31) {foff cnt turns : Nat} {got bytes : Bytes}
    (run : readAll env file foff cnt turns got = some bytes)
    (enough : cnt ≤ got.length + turns) (short : got.length ≤ cnt)
    (same : ∀ j < got.length, got[j]? = file[(foff + j) % 2 ^ 32]?) :
    bytes.length = cnt ∧ ∀ j < cnt, bytes[j]? = file[(foff + j) % 2 ^ 32]? := by
  induction turns generalizing got with
  | zero =>
    have whole : got.length = cnt := by omega
    cases run
    exact ⟨whole, whole ▸ same⟩
  | succ turns ih =>
    unfold readAll at run
    split at run <;> rename_i more
    · dsimp only at run
      split at run <;> rename_i read
      · cases run
      · rename_i chunk
        split at run <;> rename_i some'
        · cases run
        · generalize env.most _ _ = most at run some'
          unfold pread at read
          split at read <;> rename_i reach
          · cases read
          · cases read
            have pos := List.length_pos_of_ne_nil some'
            have least : (((file.drop ((foff + got.length) % 2 ^ 32)).take
                (cnt - got.length)).take most).length ≤ cnt - got.length :=
              Nat.le_trans (List.length_take_le' _ _) (List.length_take_le _ _)
            refine ih run (by rw [List.length_append]; omega) (by rw [List.length_append]; omega) ?_
            intro j within
            by_cases old : j < got.length
            · rw [List.getElem?_append_left old]
              exact same j old
            · rw [List.length_append, List.length_take, List.length_take, List.length_drop] at within
              rw [List.getElem?_append_right (Nat.not_lt.mp old), List.getElem?_take,
                if_pos (by omega), List.getElem?_take, if_pos (by omega), List.getElem?_drop]
              congr 1
              omega
    · have whole : got.length = cnt := by omega
      cases run
      exact ⟨whole, whole ▸ same⟩

/-! ## A page -/

variable {arch : Arch} {cur : Nat}

theorem wordBelow (built : arch.Built) {x : Nat} (low : x ≤ STACK_START + PAGE_SIZE) :
    x % 2 ^ arch.wordBits = x := by
  have top : STACK_START + PAGE_SIZE < 2 ^ 32 := by decide
  rcases Mm.builtWidth built with width | width <;> rw [width] <;> exact Nat.mod_eq_of_lt (by omega)

theorem wordShort (built : arch.Built) (x y : Nat) :
    (x % 2 ^ arch.wordBits + y) % 2 ^ 32 = (x + y) % 2 ^ 32 := by
  rcases Mm.builtWidth built with width | width <;> rw [width] <;> omega

def Low (s : Seg) : Prop := s.vaddr + s.memsz ≤ STACK_START ∧ s.filesz ≤ s.memsz ∧ 0 < s.memsz

theorem copySegSpec (built : arch.Built) (sized : file.length < 2 ^ 31) {s : Seg} (low : Low s)
    (room : cur + PAGE_SIZE ≤ STACK_START + PAGE_SIZE) {buf buf' : Buf}
    (run : copySeg arch env file cur s buf = some buf') {k : Nat} (within : k < PAGE_SIZE) :
    if s.vaddr ≤ cur + k ∧ cur + k < s.vaddr + s.filesz then
      file[(s.offset + (cur + k - s.vaddr)) % 2 ^ 32]? = some (buf' k)
    else buf' k = buf k := by
  obtain ⟨memory, data, -⟩ := low
  unfold copySeg at run
  rw [wordBelow built room, wordBelow built (show s.vaddr + s.filesz ≤ _ by omega)] at run
  dsimp only at run
  split at run <;> rename_i outside
  · cases run
    rw [if_neg (by omega)]
  · have start : (if s.vaddr > cur then s.vaddr else cur) = max s.vaddr cur := by
      split <;> omega
    have stop : (if s.vaddr + s.filesz < cur + PAGE_SIZE then s.vaddr + s.filesz
        else cur + PAGE_SIZE) = min (s.vaddr + s.filesz) (cur + PAGE_SIZE) := by
      split <;> omega
    rw [start, stop] at run
    split at run <;> rename_i empty
    · cases run
      rw [if_neg (by omega)]
    · obtain ⟨bytes, read, rfl⟩ := Option.map_eq_some_iff.mp run
      obtain ⟨whole, same⟩ := readAllSpec sized read (Nat.le_add_left _ _) (Nat.zero_le _) nofun
      unfold Buf.write
      rw [whole]
      split <;> rename_i holds
      · have j : cur + k - max s.vaddr cur <
            min (s.vaddr + s.filesz) (cur + PAGE_SIZE) - max s.vaddr cur := by omega
        have byte := same _ j
        rw [wordShort built] at byte
        have place : s.offset + (max s.vaddr cur - s.vaddr) + (cur + k - max s.vaddr cur) =
            s.offset + (cur + k - s.vaddr) := by omega
        rw [place] at byte
        have index : k - (max s.vaddr cur - cur) = cur + k - max s.vaddr cur := by omega
        rw [if_pos (by omega), index, ← byte, List.getD_eq_getElem?_getD,
          List.getElem?_eq_getElem (whole ▸ j)]
        rfl
      · exact if_neg (by omega)

theorem copySegsOther (built : arch.Built) (sized : file.length < 2 ^ 31) {segs : List Seg}
    (low : ∀ s ∈ segs, Low s) (room : cur + PAGE_SIZE ≤ STACK_START + PAGE_SIZE) {buf buf' : Buf}
    (run : copySegs arch env file cur segs buf = some buf') {k : Nat} (within : k < PAGE_SIZE)
    (other : ∀ s ∈ segs, ¬ (s.vaddr ≤ cur + k ∧ cur + k < s.vaddr + s.filesz)) :
    buf' k = buf k := by
  induction segs generalizing buf with
  | nil =>
    cases run
    rfl
  | cons s rest ih =>
    obtain ⟨mid, first, others⟩ := Option.bind_eq_some_iff.mp run
    have here := copySegSpec built sized (low s List.mem_cons_self) room first within
    rw [if_neg (other s List.mem_cons_self)] at here
    rw [ih (fun s member => low s (List.mem_cons_of_mem _ member)) others
      (fun s member => other s (List.mem_cons_of_mem _ member)), here]

theorem copySegsOne (built : arch.Built) (sized : file.length < 2 ^ 31) {segs : List Seg} {s : Seg}
    (low : ∀ s ∈ segs, Low s) (room : cur + PAGE_SIZE ≤ STACK_START + PAGE_SIZE) {buf buf' : Buf}
    (run : copySegs arch env file cur segs buf = some buf') {k : Nat} (within : k < PAGE_SIZE)
    (one : segs.filter (fun s => Seg.Holds s (cur + k)) = [s]) :
    if cur + k - s.vaddr < s.filesz then
      file[(s.offset + (cur + k - s.vaddr)) % 2 ^ 32]? = some (buf' k)
    else buf' k = buf k := by
  induction segs generalizing buf with
  | nil => cases one
  | cons first rest ih =>
    obtain ⟨mid, run, others⟩ := Option.bind_eq_some_iff.mp run
    have lows : ∀ s ∈ rest, Low s := fun s member => low s (List.mem_cons_of_mem _ member)
    have here := copySegSpec built sized (low first List.mem_cons_self) room run within
    have data := (low first List.mem_cons_self).2.1
    by_cases holds : Seg.Holds first (cur + k)
    · rw [List.filter_cons, if_pos (decide_eq_true holds)] at one
      injection one with same none_
      cases same
      have stay := copySegsOther built sized lows room others within fun t member reaches => by
        have away := List.filter_eq_nil_iff.mp none_ t member
        have less := (lows t member).2.1
        exact away (decide_eq_true ⟨reaches.1, by omega⟩)
      obtain ⟨start, -⟩ := holds
      rw [stay]
      split <;> rename_i inside
      · rwa [if_pos ⟨start, by omega⟩] at here
      · rwa [if_neg (by omega)] at here
    · rw [List.filter_cons, if_neg (fun yes => holds (of_decide_eq_true yes))] at one
      have away : ¬ (first.vaddr ≤ cur + k ∧ cur + k < first.vaddr + first.filesz) :=
        fun reaches => holds ⟨reaches.1, by omega⟩
      rw [if_neg away] at here
      rw [← here]
      exact ih lows others one

theorem pageFlagsBit (built : arch.Built) {segs : List Seg} (low : ∀ s ∈ segs, Low s)
    (room : cur + PAGE_SIZE ≤ STACK_START + PAGE_SIZE) :
    (pageFlags arch cur segs).testBit 1 = true ↔
      ∃ s ∈ segs, s.flags.testBit 1 = true ∧ Seg.Reaches s cur := by
  suffices wide : ∀ flags : Nat, (segs.foldl (fun flags s =>
      if s.vaddr < (cur + PAGE_SIZE) % 2 ^ arch.wordBits ∧ s.stop arch > cur then flags ||| s.flags
      else flags) flags).testBit 1 = true ↔
      flags.testBit 1 = true ∨ ∃ s ∈ segs, s.flags.testBit 1 = true ∧ Seg.Reaches s cur by
    refine (wide 0).trans ⟨fun known => known.elim (fun bit => ?_) id, .inr⟩
    rw [Nat.zero_testBit] at bit
    cases bit
  rw [wordBelow built room]
  induction segs with
  | nil => exact fun flags => ⟨.inl, fun known => known.elim id nofun⟩
  | cons s rest ih =>
    intro flags
    have stop : s.stop arch = s.vaddr + s.memsz :=
      wordBelow built (Nat.le_trans (low s List.mem_cons_self).1 (Nat.le_add_right _ _))
    rw [List.foldl_cons, stop, ih fun t member => low t (List.mem_cons_of_mem _ member),
      List.exists_mem_cons_iff, ← or_assoc]
    refine or_congr_left ?_
    split <;> rename_i reaches
    · rw [Nat.testBit_or, Bool.or_eq_true]
      exact or_congr_right ⟨fun bit => ⟨bit, reaches⟩, fun both => both.1⟩
    · exact ⟨.inl, fun known => known.elim id fun both => absurd both.2 reaches⟩

theorem mapPagesSpec {segs : List Seg} {curs : List Nat} {mapped pages : List Page}
    (run : mapPages arch env file segs curs mapped = (0, pages)) :
    ∃ new, pages = mapped ++ new ∧ new.map Page.addr = curs ∧ ∀ p ∈ new,
      copySegs arch env file p.addr segs (fun _ => 0) = some p.bytes ∧
        p.writable = (pageFlags arch p.addr segs).testBit 1 := by
  induction curs generalizing mapped with
  | nil =>
    cases run
    exact ⟨[], (List.append_nil _).symm, rfl, nofun⟩
  | cons cur rest ih =>
    unfold mapPages at run
    split at run
    · cases (Prod.mk.inj run).1
    · split at run <;> rename_i bytes
      · cases (Prod.mk.inj run).1
      · split at run
        · cases (Prod.mk.inj run).1
        · obtain ⟨new, whole, addrs, each⟩ := ih run
          refine ⟨_ :: new, by rw [whole, List.append_assoc]; rfl, ?_, ?_⟩
          · rw [List.map_cons, addrs]
          · intro p member
            rcases List.mem_cons.mp member with rfl | member
            · exact ⟨bytes, rfl⟩
            · exact each p member

end

/-! ## The regions -/

section
variable {arch : Arch} {regions : List (Nat × Nat)} {segs : List Seg}

theorem memPagesOf {region : Nat × Nat} (aligned : PAGE_SIZE ∣ region.1 ∧ PAGE_SIZE ∣ region.2)
    (a : Nat) : a ∈ pagesOf region ↔ PAGE_SIZE ∣ a ∧ region.1 ≤ a ∧ a < region.2 := by
  obtain ⟨⟨lo, first⟩, hi, last⟩ := aligned
  unfold pagesOf PAGE_SIZE at *
  rw [List.mem_map]
  constructor
  · rintro ⟨k, within, rfl⟩
    have less := List.mem_range.mp within
    omega
  · rintro ⟨⟨n, rfl⟩, above, below⟩
    exact ⟨n - lo, List.mem_range.mpr (by omega), by omega⟩

theorem pagesOfNodup (region : Nat × Nat) : (pagesOf region).Nodup := by
  refine List.Nodup.map (fun i j same => ?_) List.nodup_range
  unfold PAGE_SIZE at same
  omega

structure Merged (done : List Seg) (regions : List (Nat × Nat)) : Prop where
  aligned : ∀ r ∈ regions, PAGE_SIZE ∣ r.1 ∧ PAGE_SIZE ∣ r.2
  apart : regions.Pairwise fun a b => b.2 ≤ a.1
  covers : ∀ a, PAGE_SIZE ∣ a →
    ((∃ r ∈ regions, r.1 ≤ a ∧ a < r.2) ↔ ∃ s ∈ done, Seg.Reaches s a)

theorem regionReaches (built : arch.Built) {s : Seg} (low : Low s) {a : Nat}
    (aligned : PAGE_SIZE ∣ a) :
    pageDown s.vaddr ≤ a ∧ a < pageUp arch.wordBits (s.stop arch) ↔ Seg.Reaches s a := by
  have memory := low.1
  have room : s.vaddr + s.memsz + (PAGE_SIZE - 1) ≤ STACK_START + PAGE_SIZE := by
    unfold PAGE_SIZE
    omega
  unfold Seg.stop
  rw [wordBelow built (Nat.le_trans memory (Nat.le_add_right _ _))]
  unfold pageUp
  rw [wordBelow built room]
  unfold pageDown Seg.Reaches PAGE_SIZE at *
  omega

theorem mergeRegionMerged (built : arch.Built) {done : List Seg} (merged : Merged done regions)
    {s : Seg} (low : Low s) (behind : ∀ r ∈ regions, r.1 ≤ s.vaddr) :
    Merged (done ++ [s]) (mergeRegion arch regions s) := by
  have span := fun a aligned => regionReaches built low (a := a) aligned
  have start : PAGE_SIZE ∣ pageDown s.vaddr := Nat.dvd_mul_left _ _
  have stop : PAGE_SIZE ∣ pageUp arch.wordBits (s.stop arch) := Nat.dvd_mul_left _ _
  have below : ∀ r ∈ regions, r.1 ≤ pageDown s.vaddr := fun r member => by
    have first := (merged.aligned r member).1
    have less := behind r member
    unfold pageDown PAGE_SIZE at *
    omega
  unfold mergeRegion
  dsimp only
  generalize pageUp arch.wordBits (s.stop arch) = hi at *
  generalize pageDown s.vaddr = lo at *
  have reach : ∀ a, PAGE_SIZE ∣ a → ((∃ t ∈ done ++ [s], Seg.Reaches t a) ↔
      (∃ r ∈ regions, r.1 ≤ a ∧ a < r.2) ∨ lo ≤ a ∧ a < hi) := by
    intro a aligned
    rw [merged.covers a aligned, span a aligned]
    simp only [List.mem_append, List.mem_singleton, or_and_right, exists_or, exists_eq_left]
  cases regions with
  | nil =>
    refine ⟨fun r member => ?_, List.pairwise_singleton _ _, fun a aligned => ?_⟩
    · rw [List.mem_singleton.mp member]
      exact ⟨start, stop⟩
    · rw [reach a aligned]
      simp only [List.mem_singleton, exists_eq_left, List.not_mem_nil, false_and, exists_false,
        false_or]
  | cons newest rest =>
    obtain ⟨first, last⟩ := newest
    have newestAligned := merged.aligned (first, last) List.mem_cons_self
    have newestBelow := below (first, last) List.mem_cons_self
    obtain ⟨before, apart⟩ := List.pairwise_cons.mp merged.apart
    dsimp only at newestAligned newestBelow before ⊢
    split <;> rename_i touches
    · refine ⟨fun r member => ?_, List.pairwise_cons.mpr ⟨before, apart⟩, fun a aligned => ?_⟩
      · rcases List.mem_cons.mp member with rfl | member
        · refine ⟨newestAligned.1, ?_⟩
          dsimp only
          split
          · exact stop
          · exact newestAligned.2
        · exact merged.aligned r (List.mem_cons_of_mem _ member)
      · have union : first ≤ a ∧ a < (if hi > last then hi else last) ↔
            (first ≤ a ∧ a < last) ∨ lo ≤ a ∧ a < hi := by
          split <;> omega
        rw [reach a aligned, List.exists_mem_cons_iff, List.exists_mem_cons_iff, union,
          or_right_comm]
    · refine ⟨fun r member => ?_, List.pairwise_cons.mpr ⟨fun r member => ?_, merged.apart⟩,
        fun a aligned => ?_⟩
      · rcases List.mem_cons.mp member with rfl | member
        · exact ⟨start, stop⟩
        · exact merged.aligned r member
      · rcases List.mem_cons.mp member with rfl | member
        · exact Nat.le_of_lt (Nat.not_le.mp touches)
        · exact Nat.le_trans (before r member) newestBelow
      · rw [reach a aligned, List.exists_mem_cons_iff, or_comm]

theorem mergeRegionFirst (arch : Arch) (s : Seg) {x : Nat} (here : s.vaddr ≤ x)
    (behind : ∀ r ∈ regions, r.1 ≤ x) : ∀ r ∈ mergeRegion arch regions s, r.1 ≤ x := by
  have low : pageDown s.vaddr ≤ x := Nat.le_trans (Nat.div_mul_le_self _ _) here
  unfold mergeRegion
  dsimp only
  intro r member
  split at member
  · rw [List.mem_singleton.mp member]
    exact low
  · rename_i first last rest
    split at member
    · rcases List.mem_cons.mp member with rfl | member
      · exact behind (first, last) List.mem_cons_self
      · exact behind r (List.mem_cons_of_mem _ member)
    · rcases List.mem_cons.mp member with rfl | member
      · exact low
      · exact behind r member

theorem regionsMerged (built : arch.Built) {done : List Seg} (merged : Merged done regions)
    (low : ∀ s ∈ segs, Low s) (sorted : Keyed.Sorted Seg.vaddr segs)
    (behind : ∀ s ∈ segs, ∀ r ∈ regions, r.1 ≤ s.vaddr) :
    Merged (done ++ segs) (segs.foldl (mergeRegion arch) regions) := by
  induction segs generalizing done regions with
  | nil => rwa [List.append_nil]
  | cons s rest ih =>
    obtain ⟨least, sorted⟩ := List.pairwise_cons.mp sorted
    have step := mergeRegionMerged built merged (low s List.mem_cons_self)
      (behind s List.mem_cons_self)
    have all := ih step (fun t member => low t (List.mem_cons_of_mem _ member)) sorted
      fun t member => mergeRegionFirst arch s (least t member)
        (behind t (List.mem_cons_of_mem _ member))
    rwa [List.append_assoc] at all

theorem memRegionPages {done : List Seg} (merged : Merged done regions) (a : Nat) :
    a ∈ regions.reverse.flatMap pagesOf ↔ PAGE_SIZE ∣ a ∧ ∃ s ∈ done, Seg.Reaches s a := by
  rw [List.mem_flatMap]
  constructor
  · rintro ⟨r, member, inside⟩
    rw [List.mem_reverse] at member
    obtain ⟨aligned, span⟩ := (memPagesOf (merged.aligned r member) a).mp inside
    exact ⟨aligned, (merged.covers a aligned).mp ⟨r, member, span⟩⟩
  · rintro ⟨aligned, reached⟩
    obtain ⟨r, member, span⟩ := (merged.covers a aligned).mpr reached
    exact ⟨r, List.mem_reverse.mpr member,
      (memPagesOf (merged.aligned r member) a).mpr ⟨aligned, span⟩⟩

theorem regionPagesNodup {done : List Seg} (merged : Merged done regions) :
    (regions.reverse.flatMap pagesOf).Nodup := by
  refine List.nodup_flatMap.mpr ⟨fun r _ => pagesOfNodup r, List.pairwise_reverse.mpr ?_⟩
  refine merged.apart.imp_of_mem fun {a b} memberA memberB apart x inB inA => ?_
  have above := ((memPagesOf (merged.aligned a memberA) x).mp inA).2.1
  have under := ((memPagesOf (merged.aligned b memberB) x).mp inB).2.2
  omega

theorem regionsWord (built : arch.Built) (word : ∀ r ∈ regions, r.2 < 2 ^ 64) :
    ∀ r ∈ segs.foldl (mergeRegion arch) regions, r.2 < 2 ^ 64 := by
  induction segs generalizing regions with
  | nil => exact word
  | cons s rest ih =>
    have new : pageUp arch.wordBits (s.stop arch) < 2 ^ 64 := by
      refine Nat.lt_of_le_of_lt (Nat.div_mul_le_self _ _) ?_
      rcases Mm.builtWidth built with width | width <;> rw [width]
      · exact Nat.lt_trans (Nat.mod_lt _ (by decide)) (by decide)
      · exact Nat.mod_lt _ (by decide)
    refine ih fun r member => ?_
    unfold mergeRegion at member
    dsimp only at member
    split at member
    · rw [List.mem_singleton.mp member]
      exact new
    · rename_i first last rest
      split at member
      · rcases List.mem_cons.mp member with rfl | member
        · dsimp only
          split
          · exact new
          · exact word (first, last) List.mem_cons_self
        · exact word r (List.mem_cons_of_mem _ member)
      · rcases List.mem_cons.mp member with rfl | member
        · exact new
        · exact word r member

theorem pageWord {a : Nat} (word : ∀ r ∈ regions, r.2 < 2 ^ 64)
    (member : a ∈ regions.reverse.flatMap pagesOf) : a + PAGE_SIZE < 2 ^ 64 := by
  obtain ⟨r, inside, page⟩ := List.mem_flatMap.mp member
  have last := word r (List.mem_reverse.mp inside)
  obtain ⟨k, within, rfl⟩ := List.mem_map.mp page
  have less := List.mem_range.mp within
  unfold PAGE_SIZE at *
  omega

end

/-! ## The accepted segments -/

theorem memMapM {α β : Type} {f : α → Option β} {list : List α} {all : List β}
    (run : list.mapM f = some all) : ∀ b ∈ all, ∃ a ∈ list, f a = some b := by
  induction list generalizing all with
  | nil =>
    cases run
    exact nofun
  | cons a rest ih =>
    rw [List.mapM_cons] at run
    obtain ⟨b, first, run⟩ := Option.bind_eq_some_iff.mp run
    obtain ⟨others, tail, whole⟩ := Option.bind_eq_some_iff.mp run
    cases whole
    intro c member
    rcases List.mem_cons.mp member with rfl | member
    · exact ⟨a, List.mem_cons_self, first⟩
    · obtain ⟨d, inside, same⟩ := ih tail c member
      exact ⟨d, List.mem_cons_of_mem _ inside, same⟩

theorem loadSegsFrom {fileSize phdrs segs} (loaded : Regions.loadSegs fileSize phdrs = some segs) :
    ∀ s ∈ segs, (∃ ph ∈ phdrs, s.offset = ph.pOffset) ∧ 0 < s.memsz ∧ s.filesz ≤ s.memsz ∧
      (s.vaddr + s.memsz) % 2 ^ 64 ≤ STACK_START ∧ (s.offset + s.filesz) % 2 ^ 64 ≤ fileSize := by
  induction phdrs generalizing segs with
  | nil =>
    cases loaded
    exact nofun
  | cons ph rest ih =>
    unfold Regions.loadSegs at loaded
    split at loaded <;> rename_i skipped
    · intro s member
      obtain ⟨⟨ph, inside, same⟩, checks⟩ := ih loaded s member
      exact ⟨⟨ph, List.mem_cons_of_mem _ inside, same⟩, checks⟩
    · split at loaded <;> rename_i bad
      · cases loaded
      · obtain ⟨others, found, whole⟩ := Option.map_eq_some_iff.mp loaded
        cases whole
        intro s member
        rcases List.mem_cons.mp member with rfl | member
        · refine ⟨⟨ph, List.mem_cons_self, rfl⟩, ?_⟩
          dsimp only
          omega
        · obtain ⟨⟨ph, inside, same⟩, checks⟩ := ih found s member
          exact ⟨⟨ph, List.mem_cons_of_mem _ inside, same⟩, checks⟩

theorem acceptedSegs {arch : Arch} {file : Bytes} {segs : List Seg}
    (accepted : elfLoad arch file = some segs) :
    file.length < 2 ^ 31 ∧ ∀ s ∈ segs, s.offset < 2 ^ 64 ∧ 0 < s.memsz ∧ s.filesz ≤ s.memsz ∧
      (s.vaddr + s.memsz) % 2 ^ 64 ≤ STACK_START ∧
        (s.offset + s.filesz) % 2 ^ 64 ≤ file.length := by
  unfold elfLoad at accepted
  dsimp only at accepted
  split at accepted <;> rename_i sized
  · obtain ⟨h, read, rest⟩ := Option.bind_eq_some_iff.mp accepted
    split at rest
    · obtain ⟨phdrs, headers, loaded⟩ := Option.bind_eq_some_iff.mp rest
      refine ⟨sized, fun s member => ?_⟩
      obtain ⟨⟨ph, inside, same⟩, checks⟩ := loadSegsFrom loaded s member
      unfold Elf.readPhdrs at headers
      rw [read, Option.bind_some] at headers
      obtain ⟨i, -, header⟩ := memMapM headers ph inside
      obtain ⟨b, -, rfl⟩ := Option.map_eq_some_iff.mp header
      refine ⟨?_, checks⟩
      rw [same]
      dsimp only
      unfold nativeClass
      split
      · exact Nat.lt_trans (ElfChecks.loadLess b _ 4) (by decide)
      · exact ElfChecks.loadLess b _ 8
    · cases rest
  · cases accepted

/-! ## The load -/

section
variable {arch : Arch} {env : Env} {file : Bytes} {segs : List Seg}

def regionsOf (arch : Arch) (segs : List Seg) : List (Nat × Nat) :=
  (sortSegs segs).foldl (mergeRegion arch) []

theorem loadedPages (loaded : (elfLoadCommon arch env file segs).1 = 0) :
    mapPages arch env file (sortSegs segs) ((regionsOf arch segs).reverse.flatMap pagesOf) [] =
      (0, (elfLoadCommon arch env file segs).2) := by
  unfold regionsOf
  unfold elfLoadCommon at loaded ⊢
  dsimp only at loaded ⊢
  split at loaded
  · cases loaded
  · rename_i ready
    rw [if_neg ready]
    generalize mapPages _ _ _ _ _ _ = result at loaded ⊢
    obtain ⟨ret, mapped⟩ := result
    split at loaded <;> rename_i ran
    · cases ran
      split
      · rfl
      · split <;> rfl
    · rw [show ret = 0 from loaded]

theorem sortPerm (segs : List Seg) : (sortSegs segs).Perm segs := by
  have perm : (sortSegs segs).Perm (segs ++ []) := Keyed.insertAllPerm [] segs
  rwa [List.append_nil] at perm

theorem copySegsReach (built : arch.Built) (sized : file.length < 2 ^ 31) {cur : Nat}
    (low : ∀ s ∈ segs, Low s) (room : cur + PAGE_SIZE ≤ STACK_START + PAGE_SIZE) {buf buf' : Buf}
    (run : copySegs arch env file cur segs buf = some buf') {k : Nat} (within : k < PAGE_SIZE)
    {s : Seg} (member : s ∈ segs) (holds : s.vaddr ≤ cur + k ∧ cur + k < s.vaddr + s.filesz) :
    (s.offset + (cur + k - s.vaddr)) % 2 ^ 32 < file.length := by
  induction segs generalizing buf with
  | nil => cases member
  | cons first rest ih =>
    obtain ⟨mid, run, others⟩ := Option.bind_eq_some_iff.mp run
    rcases List.mem_cons.mp member with rfl | member
    · have here := copySegSpec built sized (low s List.mem_cons_self) room run within
      rw [if_pos holds] at here
      exact (List.getElem?_eq_some_iff.mp here).1
    · exact ih (fun t inside => low t (List.mem_cons_of_mem _ inside)) others member

theorem lowSegs (accepted : elfLoad arch file = some segs) (below : Below segs) :
    ∀ s ∈ segs, Low s := by
  intro s member
  obtain ⟨-, some', less, memory, -⟩ := (acceptedSegs accepted).2 s member
  rw [Nat.mod_eq_of_lt (below s member)] at memory
  exact ⟨memory, less, some'⟩

theorem loadedSpec (loaded : (elfLoadCommon arch env file segs).1 = 0) :
    (elfLoadCommon arch env file segs).2.map Page.addr =
      (regionsOf arch segs).reverse.flatMap pagesOf ∧
    ∀ p ∈ (elfLoadCommon arch env file segs).2,
      copySegs arch env file p.addr (sortSegs segs) (fun _ => 0) = some p.bytes ∧
        p.writable = (pageFlags arch p.addr (sortSegs segs)).testBit 1 := by
  obtain ⟨new, whole, addrs, each⟩ := mapPagesSpec (loadedPages loaded)
  rw [List.nil_append] at whole
  rw [whole]
  exact ⟨addrs, each⟩

theorem lowMerged (built : arch.Built) (low : ∀ s ∈ segs, Low s) :
    Merged (sortSegs segs) (regionsOf arch segs) := by
  have none_ : Merged [] [] := ⟨nofun, List.Pairwise.nil, fun a _ => iff_of_false nofun nofun⟩
  have sorted : Keyed.Sorted Seg.vaddr (sortSegs segs) :=
    Keyed.insertAllSorted List.Pairwise.nil
  have all := regionsMerged built none_
    (fun s member => low s ((sortPerm segs).mem_iff.mp member)) sorted fun s _ => nofun
  rwa [List.nil_append] at all

theorem lowRight (built : arch.Built) (accepted : elfLoad arch file = some segs)
    (loaded : (elfLoadCommon arch env file segs).1 = 0) (below : Below segs) :
    Right file segs (elfLoadCommon arch env file segs).2 := by
  have low := lowSegs accepted below
  obtain ⟨sized, checks⟩ := acceptedSegs accepted
  obtain ⟨addrs, each⟩ := loadedSpec loaded
  have merged := lowMerged built low
  have perm := sortPerm segs
  have lowSorted : ∀ s ∈ sortSegs segs, Low s := fun s member => low s (perm.mem_iff.mp member)
  have union : ∀ a, a ∈ (elfLoadCommon arch env file segs).2.map Page.addr ↔
      PAGE_SIZE ∣ a ∧ ∃ s ∈ segs, Seg.Reaches s a := by
    intro a
    rw [addrs, memRegionPages merged]
    simp only [perm.mem_iff]
  have room : ∀ p ∈ (elfLoadCommon arch env file segs).2,
      p.addr + PAGE_SIZE ≤ STACK_START + PAGE_SIZE := by
    intro p member
    obtain ⟨-, s, inside, -, reach⟩ := (union p.addr).mp (List.mem_map_of_mem member)
    have memory := (low s inside).1
    omega
  -- a segment whose file range wraps would have a byte at an offset of 32 ones
  have whole : ∀ s ∈ segs, s.offset + s.filesz < 2 ^ 64 := by
    intro s member
    by_contra wraps
    obtain ⟨word, -, less, -, -⟩ := checks s member
    have memory := (low s member).1
    generalize at' : s.vaddr + (2 ^ 64 - 1 - s.offset) = x
    have page : pageDown x ∈ (elfLoadCommon arch env file segs).2.map Page.addr := by
      refine (union _).mpr ⟨Nat.dvd_mul_left _ _, s, member, ?_⟩
      unfold Seg.Reaches pageDown PAGE_SIZE
      omega
    obtain ⟨p, inside, addr⟩ := List.mem_map.mp page
    have within : x - pageDown x < PAGE_SIZE := by
      unfold pageDown PAGE_SIZE
      omega
    have down : pageDown x + (x - pageDown x) = x :=
      Nat.add_sub_cancel' (Nat.div_mul_le_self _ _)
    have reach := copySegsReach built sized lowSorted (room p inside) (each p inside).1 within
      (perm.mem_iff.mpr member) (by rw [addr, down]; omega)
    rw [addr, down] at reach
    omega
  refine ⟨?_, union, fun p member k within s one => ?_, fun p member => ?_⟩
  · rw [addrs]
    exact regionPagesNodup merged
  · have only : (sortSegs segs).filter (fun s => Seg.Holds s (p.addr + k)) = [s] :=
      List.perm_singleton.mp (one ▸ perm.filter _)
    have inside : s ∈ segs := List.mem_of_mem_filter (one ▸ List.mem_singleton_self s)
    have byte := copySegsOne built sized lowSorted (room p member) (each p member).1 within only
    obtain ⟨-, -, -, -, data⟩ := checks s inside
    rw [Nat.mod_eq_of_lt (whole s inside)] at data
    split <;> rename_i backed
    · rw [if_pos backed, Nat.mod_eq_of_lt (by omega)] at byte
      exact byte
    · rwa [if_neg backed] at byte
  · rw [(each p member).2, pageFlagsBit built lowSorted (room p member)]
    simp only [perm.mem_iff]

/-- A load that succeeds is right exactly when no segment reaches over the last
address. -/
theorem loadRightIff {arch : Arch} (built : arch.Built) (env : Env) (file : Bytes)
    {segs : List Seg} (accepted : elfLoad arch file = some segs)
    (loaded : (elfLoadCommon arch env file segs).1 = 0) :
    Right file segs (elfLoadCommon arch env file segs).2 ↔ Below segs := by
  refine ⟨fun right s member => ?_, lowRight built accepted loaded⟩
  by_contra wraps
  have some' := ((acceptedSegs accepted).2 s member).2.1
  -- the last page of the segment's memory is behind every region
  have mapped := (right.union (pageDown (s.vaddr + s.memsz - 1))).mpr
    ⟨Nat.dvd_mul_left _ _, s, member, by unfold Seg.Reaches pageDown PAGE_SIZE; omega⟩
  rw [(loadedSpec loaded).1] at mapped
  have last := pageWord (regionsWord built (List.forall_mem_nil _)) mapped
  unfold pageDown PAGE_SIZE at last
  omega

end

deriving instance DecidableEq for Seg

def plenty : Env := ⟨true, fun _ => true, fun _ n => n, fun _ => true, fun _ => true⟩

theorem lowLoaded : Right (ElfChecks.fileOf 0x08048000 0x2000) [⟨0x08048000, 0, 0x2000, 0, 6⟩]
    (elfLoadCommon x86_64 plenty (ElfChecks.fileOf 0x08048000 0x2000)
      [⟨0x08048000, 0, 0x2000, 0, 6⟩]).2 :=
  (loadRightIff (Or.inr rfl) plenty (ElfChecks.fileOf 0x08048000 0x2000) (by decide +kernel)
    (by decide +kernel)).mpr (by unfold Below; decide)

def lastPage : Seg := ⟨2 ^ 64 - 0x1000, 0, 0x2000, 0, 6⟩

/-- The load succeeds and maps no page of the segment. -/
theorem wrapUnmapped :
    elfLoad x86_64 (ElfChecks.fileOf (2 ^ 64 - 0x1000) 0x2000) = some [lastPage] ∧
    (elfLoadCommon x86_64 plenty (ElfChecks.fileOf (2 ^ 64 - 0x1000) 0x2000) [lastPage]).1 = 0 ∧
    ¬ Right (ElfChecks.fileOf (2 ^ 64 - 0x1000) 0x2000) [lastPage]
      (elfLoadCommon x86_64 plenty (ElfChecks.fileOf (2 ^ 64 - 0x1000) 0x2000) [lastPage]).2 := by
  refine ⟨by decide +kernel, by decide +kernel, fun right => ?_⟩
  have mapped := (right.union (2 ^ 64 - 0x1000)).mpr
    ⟨by decide, lastPage, List.mem_singleton_self _, by unfold Seg.Reaches lastPage; decide⟩
  have none_ : (elfLoadCommon x86_64 plenty (ElfChecks.fileOf (2 ^ 64 - 0x1000) 0x2000)
    [lastPage]).2.map Page.addr = [] := by decide +kernel
  rw [none_] at mapped
  cases mapped

end Scepter.ElfLoad
