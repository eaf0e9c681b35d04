import Mathlib.Data.List.Nodup
import Scepter.Lib.Bitmap
import Scepter.Lib.Run

/-! The page allocator (mm/buddy.c) as mm_init starts it (mm/mminit.c). Sizes and
addresses are of machine-word width, page counts are uint32_t on both
architectures. A NULL pointer is the address 0. -/
namespace Scepter.Mm

structure Arch where
  wordBits : Nat          -- size_t, uintptr_t
  kernelVma : Nat
  directMapLimit : Nat

def i386 : Arch := ⟨32, 0xC0000000, 0x38000000⟩
def x86_64 : Arch := ⟨64, 0xFFFFFFFF80000000, 0x1000000000⟩

def Arch.Word (arch : Arch) (n : Nat) : Prop := n < 2 ^ arch.wordBits
instance (arch n) : Decidable (Arch.Word arch n) := by unfold Arch.Word; infer_instance

def NULL : Nat := 0
def PAGE_SIZE : Nat := 4096
def PAGE_SHIFT : Nat := 12
def MAX_PAGES : Nat := 262144
def MEM_PHY : Nat := 1
def MEM_MAP : Nat := 2

structure PageAllocator where
  basePhys : Nat
  totalPages : Nat
  freePages : Nat
  bitmap : Bitmap

def physToVirt (arch : Arch) (phys : Nat) : Nat := (phys + arch.kernelVma) % 2 ^ arch.wordBits

def physOf (arch : Arch) (addr : Nat) : Nat :=
  if addr ≥ arch.kernelVma then addr - arch.kernelVma else addr

def findFreeFrom (bitmap : Bitmap) (count : Nat) : Nat → Nat → Nat → Nat → Option Nat
  | 0, _, _, _ => none
  | left + 1, i, consecutive, startIdx =>
    if bitmap.test i then findFreeFrom bitmap count left (i + 1) 0 startIdx
    else
      let startIdx := if consecutive = 0 then i else startIdx
      if consecutive + 1 = count then some startIdx
      else findFreeFrom bitmap count left (i + 1) (consecutive + 1) startIdx

def findFreePages (a : PageAllocator) (count : Nat) : Option Nat :=
  findFreeFrom a.bitmap count a.totalPages 0 0 0

def buddyInit (basePhys totalKb : Nat) : PageAllocator :=
  let totalBytes := totalKb * 1024 % 2 ^ 32
  let totalPages := totalBytes >>> PAGE_SHIFT
  let totalPages := if totalPages > MAX_PAGES then MAX_PAGES else totalPages
  ⟨basePhys, totalPages, totalPages, fun _ => 0⟩

/-- (size + PAGE_SIZE - 1) >> PAGE_SHIFT, computed in size_t and kept in a uint32_t. -/
def pagesNeeded (arch : Arch) (size : Nat) : Nat :=
  ((size + PAGE_SIZE - 1) % 2 ^ arch.wordBits) >>> PAGE_SHIFT % 2 ^ 32

def pageAllocFlags (arch : Arch) (a : PageAllocator) (size flags : Nat) : Nat × PageAllocator :=
  if size = 0 then (NULL, a)
  else
    let needed := pagesNeeded arch size
    if needed > a.freePages then (NULL, a)
    else match findFreePages a needed with
      | none => (NULL, a)
      | some startIdx =>
        let phys := (a.basePhys + startIdx <<< PAGE_SHIFT) % 2 ^ arch.wordBits
        (if flags &&& MEM_PHY ≠ 0 then phys else physToVirt arch phys,
          {a with
            bitmap := a.bitmap.setRange startIdx needed
            freePages := a.freePages - needed})

def pageFree (arch : Arch) (a : PageAllocator) (addr : Nat) : PageAllocator :=
  if addr = NULL then a
  else
    let phys := physOf arch addr
    if phys < a.basePhys then a
    else
      -- uint32_t offset = phys - base_phys
      let offset := (phys - a.basePhys) % 2 ^ 32
      let pageIdx := offset >>> PAGE_SHIFT
      if pageIdx ≥ a.totalPages then a
      else if !a.bitmap.test pageIdx then a
      else {a with bitmap := a.bitmap.clear pageIdx, freePages := a.freePages + 1}

/-! ## mm_init -/

def directMapSize (arch : Arch) (memTotalKb : Nat) : Nat :=
  let totalPhys := memTotalKb * 1024 % 2 ^ 32
  let size := totalPhys / 4
  let size := if size < 32 * 1024 * 1024 then 32 * 1024 * 1024 else size
  let size := if size > arch.directMapLimit then arch.directMapLimit else size
  if size > totalPhys then totalPhys else size

/-- (kernel_end_phys + 0xFFF) & ~0xFFFU: the mask has 32 bits. -/
def firstFreePhys (kernelEndPhys : Nat) : Nat := (kernelEndPhys + 0xFFF) % 2 ^ 32 / 4096 * 4096

def mmInit (arch : Arch) (memTotalKb kernelEndPhys : Nat) : Option PageAllocator :=
  let first := firstFreePhys kernelEndPhys
  if first < 0x100000 then none
  else
    let size := directMapSize arch memTotalKb
    let buddyMemKb := (size + 2 ^ arch.wordBits - first) % 2 ^ arch.wordBits / 1024 % 2 ^ 32
    some (buddyInit first buddyMemKb)

/-! ## Runs -/

structure State where
  alloc : PageAllocator
  handed : List Nat

inductive Action where
  | alloc (size flags : Nat)
  | free (addr : Nat)

/-- What ceil(size / PAGE_SIZE) is without wrap-around. -/
def pagesOf (size : Nat) : Nat := (size + PAGE_SIZE - 1) / PAGE_SIZE

def pageOf (arch : Arch) (a : PageAllocator) (addr : Nat) : Option Nat :=
  let phys := physOf arch addr
  if addr = NULL ∨ phys < a.basePhys then none
  else some ((phys - a.basePhys) / PAGE_SIZE)

def step (arch : Arch) (s : State) : Action → Option State
  | .alloc size flags =>
    if arch.Word size then
      let (addr, a) := pageAllocFlags arch s.alloc size flags
      match pageOf arch s.alloc addr with
      | none => some ⟨a, s.handed⟩
      | some first => some ⟨a, s.handed ++ List.range' first (pagesOf size)⟩
    else none
  | .free addr =>
    if arch.Word addr then
      let handed := match pageOf arch s.alloc addr with
        | none => s.handed
        | some page => s.handed.erase page
      some ⟨pageFree arch s.alloc addr, handed⟩
    else none

def FreeRun (a : PageAllocator) (n : Nat) : Prop :=
  0 < n ∧ ∃ first, first + n ≤ a.totalPages ∧
    ∀ p, first ≤ p → p < first + n → a.bitmap.test p = false

instance (a n) : Decidable (FreeRun a n) :=
  let free (first : Nat) := (List.range n).all fun i => !a.bitmap.test (first + i)
  decidable_of_iff (0 < n ∧ (List.range (a.totalPages + 1)).any fun first =>
    first + n ≤ a.totalPages && free first) <| by
    refine and_congr_right fun pos => ?_
    simp only [List.any_eq_true, List.mem_range, Bool.and_eq_true, decide_eq_true_eq, free,
      List.all_eq_true, Bool.not_eq_true']
    refine exists_congr fun first => ⟨fun run => ⟨run.2.1, fun p low high => ?_⟩, fun run =>
      ⟨by omega, run.1, fun i below => run.2 (first + i) (by omega) (by omega)⟩⟩
    have clear := run.2.2 (p - first) (by omega)
    rwa [Nat.add_sub_cancel' low] at clear

def pageAddr (arch : Arch) (a : PageAllocator) (flags page : Nat) : Nat :=
  let phys := a.basePhys + page * PAGE_SIZE
  if flags &&& MEM_PHY ≠ 0 then phys else phys + arch.kernelVma

def AllocSound (arch : Arch) (s : State) (size flags : Nat) : Prop :=
  pageAllocFlags arch s.alloc size flags = (NULL, s.alloc) ∨
  ∃ first, first + pagesOf size ≤ s.alloc.totalPages ∧ 0 < pagesOf size ∧
    (∀ p, first ≤ p → p < first + pagesOf size →
      s.alloc.bitmap.test p = false ∧ p ∉ s.handed) ∧
    pageAllocFlags arch s.alloc size flags = (pageAddr arch s.alloc flags first,
      {s.alloc with
        bitmap := s.alloc.bitmap.setRange first (pagesOf size)
        freePages := s.alloc.freePages - pagesOf size})

def FreeSound (arch : Arch) (s : State) (addr : Nat) : Prop :=
  match pageOf arch s.alloc addr with
  | none => pageFree arch s.alloc addr = s.alloc
  | some page => pageFree arch s.alloc addr =
    if page < s.alloc.totalPages ∧ s.alloc.bitmap.test page = true then {s.alloc with
      bitmap := s.alloc.bitmap.clear page
      freePages := s.alloc.freePages + 1}
    else s.alloc

def Sound (arch : Arch) (s : State) : Action → Prop
  | .alloc size flags => AllocSound arch s size flags
  | .free addr => FreeSound arch s addr

/-- The page count is not cut to 32 bits, or the cut count cannot be had anyway;
the offset of a freed address is not cut, or the cut offset is rejected anyway. -/
def Uncut (arch : Arch) (s : State) : Action → Prop
  | .alloc size _ => pagesOf size < 2 ^ 32 ∨ ¬ FreeRun s.alloc (pagesOf size % 2 ^ 32)
  | .free addr =>
    physOf arch addr - s.alloc.basePhys < 2 ^ 32 ∨
    ¬ (((physOf arch addr - s.alloc.basePhys) % 2 ^ 32) / PAGE_SIZE < s.alloc.totalPages ∧
      s.alloc.bitmap.test (((physOf arch addr - s.alloc.basePhys) % 2 ^ 32) / PAGE_SIZE) = true)

instance (arch s act) : Decidable (Uncut arch s act) := by
  cases act <;> unfold Uncut <;> infer_instance

structure Accounted (s : State) : Prop where
  counter : s.alloc.freePages = s.alloc.bitmap.freeCount s.alloc.totalPages
  used : ∀ p ∈ s.handed, p < s.alloc.totalPages ∧ s.alloc.bitmap.test p = true
  once : s.handed.Nodup

structure Window (arch : Arch) (a : PageAllocator) : Prop where
  above : 0x100000 ≤ a.basePhys
  aligned : a.basePhys % PAGE_SIZE = 0
  mapped : a.basePhys + a.totalPages * PAGE_SIZE + arch.kernelVma ≤ 2 ^ arch.wordBits
  apart : a.basePhys + a.totalPages * PAGE_SIZE ≤ arch.kernelVma
  few : a.totalPages ≤ MAX_PAGES

/-! ## find_free_pages -/

structure Scanned (bitmap : Bitmap) (i consecutive startIdx : Nat) : Prop where
  fits : consecutive ≤ i
  starts : 0 < consecutive → startIdx + consecutive = i
  free : ∀ p, i - consecutive ≤ p → p < i → bitmap.test p = false
  edge : consecutive < i → bitmap.test (i - consecutive - 1) = true

theorem scannedFree {bitmap i consecutive startIdx} (free : bitmap.test i = false)
    (scanned : Scanned bitmap i consecutive startIdx) :
    Scanned bitmap (i + 1) (consecutive + 1) (if consecutive = 0 then i else startIdx) := by
  obtain ⟨fits, starts, frees, edge⟩ := scanned
  refine ⟨by omega, fun _ => ?_, fun p low high => ?_, fun below => ?_⟩
  · split <;> rename_i first
    · omega
    · have := starts (by omega)
      omega
  · by_cases last : p = i
    · exact last ▸ free
    · exact frees p (by omega) (by omega)
  · rw [show i + 1 - (consecutive + 1) - 1 = i - consecutive - 1 by omega]
    exact edge (by omega)

theorem scannedTaken {bitmap i startIdx} (taken : bitmap.test i = true) :
    Scanned bitmap (i + 1) 0 startIdx := by
  refine ⟨Nat.zero_le _, fun pos => absurd pos (Nat.lt_irrefl 0), fun p low high => ?_,
    fun _ => taken⟩
  omega

theorem findFreeFromSome {bitmap count left i consecutive startIdx first}
    (scanned : Scanned bitmap i consecutive startIdx)
    (found : findFreeFrom bitmap count left i consecutive startIdx = some first) :
    0 < count ∧ first + count ≤ i + left ∧
      ∀ p, first ≤ p → p < first + count → bitmap.test p = false := by
  induction left generalizing i consecutive startIdx with
  | zero => cases found
  | succ left ih =>
    unfold findFreeFrom at found
    split at found <;> rename_i taken
    · have rest := ih (scannedTaken taken) found
      exact ⟨rest.1, by omega, rest.2.2⟩
    · have next := scannedFree (by simpa using taken) scanned
      dsimp only at found
      split at found <;> rename_i enough
      · cases found
        have ends := next.starts (by omega)
        refine ⟨by omega, by omega, fun p low high => next.free p ?_ ?_⟩ <;> omega
      · have rest := ih next found
        exact ⟨rest.1, by omega, rest.2.2⟩

theorem findFreeFromNone {bitmap count left i consecutive startIdx}
    (scanned : Scanned bitmap i consecutive startIdx) (few : consecutive < count)
    (missed : findFreeFrom bitmap count left i consecutive startIdx = none)
    {first} (inside : first + count ≤ i + left)
    (behind : i < first + count) :
    ∃ p, first ≤ p ∧ p < first + count ∧ bitmap.test p = true := by
  induction left generalizing i consecutive startIdx with
  | zero => omega
  | succ left ih =>
    unfold findFreeFrom at missed
    split at missed <;> rename_i taken
    · by_cases met : first ≤ i
      · exact ⟨i, met, behind, taken⟩
      · exact ih (scannedTaken taken) (by omega) missed (by omega) (by omega)
    · have next := scannedFree (by simpa using taken) scanned
      dsimp only at missed
      split at missed <;> rename_i enough
      · cases missed
      · by_cases last : first + count = i + 1
        · have edge := next.edge (by omega)
          exact ⟨_, by omega, by omega, edge⟩
        · exact ih next (by omega) missed (by omega) (by omega)

theorem findFreeSome {a : PageAllocator} {count first} (found : findFreePages a count = some first) :
    0 < count ∧ first + count ≤ a.totalPages ∧
      ∀ p, first ≤ p → p < first + count → a.bitmap.test p = false := by
  have start : Scanned a.bitmap 0 0 0 := by constructor <;> omega
  have facts := findFreeFromSome start found
  exact ⟨facts.1, by omega, facts.2.2⟩

theorem findFreeNone {a : PageAllocator} {count} (missed : findFreePages a count = none) :
    ¬ FreeRun a count := by
  have start : Scanned a.bitmap 0 0 0 := by constructor <;> omega
  rintro ⟨pos, first, inside, free⟩
  obtain ⟨p, low, high, taken⟩ :=
    findFreeFromNone start pos missed (by omega : first + count ≤ 0 + a.totalPages) (by omega)
  cases taken.symm.trans (free p low high)

/-! ## Addresses -/

def Arch.Built (arch : Arch) : Prop := arch = i386 ∨ arch = x86_64

theorem pageAddrWord {arch a} (window : Window arch a) {page} (inside : page < a.totalPages)
    (flags : Nat) :
    (if flags &&& MEM_PHY ≠ 0 then (a.basePhys + page <<< PAGE_SHIFT) % 2 ^ arch.wordBits
      else physToVirt arch ((a.basePhys + page <<< PAGE_SHIFT) % 2 ^ arch.wordBits)) =
      pageAddr arch a flags page := by
  have mapped := window.mapped
  have shifted : page <<< PAGE_SHIFT = page * PAGE_SIZE := Nat.shiftLeft_eq page 12
  have below : a.basePhys + page * PAGE_SIZE < a.basePhys + a.totalPages * PAGE_SIZE := by
    unfold PAGE_SIZE
    omega
  have small : (a.basePhys + page * PAGE_SIZE) % 2 ^ arch.wordBits =
      a.basePhys + page * PAGE_SIZE := Nat.mod_eq_of_lt (by omega)
  unfold pageAddr physToVirt
  rw [shifted, small]
  split
  · rfl
  · exact Nat.mod_eq_of_lt (by omega)

theorem pageOfAddr {arch a} (window : Window arch a) {page} (inside : page < a.totalPages)
    (flags : Nat) : pageOf arch a (pageAddr arch a flags page) = some page := by
  obtain ⟨above, _, _, apart, _⟩ := window
  have below : page * PAGE_SIZE < a.totalPages * PAGE_SIZE := by
    unfold PAGE_SIZE
    omega
  have phys : physOf arch (pageAddr arch a flags page) = a.basePhys + page * PAGE_SIZE := by
    unfold physOf pageAddr
    dsimp only
    split <;> split <;> omega
  have real : pageAddr arch a flags page ≠ NULL := by
    unfold pageAddr NULL
    dsimp only
    split <;> omega
  unfold pageOf
  dsimp only
  rw [phys, if_neg (by rintro (null | low); exacts [real null, by omega])]
  congr 1
  unfold PAGE_SIZE
  omega

theorem pageOfNull (arch a) : pageOf arch a NULL = none := by simp [pageOf]

theorem builtWidth {arch : Arch} (built : arch.Built) :
    2 ^ arch.wordBits = 2 ^ 32 ∨ 2 ^ arch.wordBits = 2 ^ 64 := by
  rcases built with rfl | rfl
  · exact Or.inl rfl
  · exact Or.inr rfl

theorem runFits {a : PageAllocator} {n} (run : FreeRun a n) : 0 < n ∧ n ≤ a.totalPages := by
  obtain ⟨pos, first, inside, _⟩ := run
  exact ⟨pos, by omega⟩

theorem neededCut {arch : Arch} (built : arch.Built) {a} (few : a.totalPages ≤ MAX_PAGES) {size}
    (word : arch.Word size) :
    pagesNeeded arch size = pagesOf size % 2 ^ 32 ∨
    ¬ FreeRun a (pagesNeeded arch size) ∧ ¬ FreeRun a (pagesOf size % 2 ^ 32) := by
  unfold Arch.Word at word
  have sum : pagesNeeded arch size =
      (size + 4096 - 1) % 2 ^ arch.wordBits / 4096 % 2 ^ 32 := by
    unfold pagesNeeded PAGE_SHIFT
    rw [Nat.shiftRight_eq_div_pow]
    rfl
  have exact' : pagesOf size = (size + 4096 - 1) / 4096 := rfl
  unfold MAX_PAGES at few
  rw [sum, exact']
  by_cases wraps : size + 4096 - 1 < 2 ^ arch.wordBits
  · rw [Nat.mod_eq_of_lt wraps]
    exact Or.inl rfl
  · right
    constructor
    · intro run
      have bounds := runFits run
      rcases builtWidth built with width | width <;> rw [width] at word wraps bounds <;> omega
    · intro run
      have bounds := runFits run
      rcases builtWidth built with width | width <;> rw [width] at word wraps <;> omega

/-! ## One call -/

theorem runCount {a : PageAllocator} {n} (run : FreeRun a n) :
    n ≤ a.bitmap.freeCount a.totalPages := by
  obtain ⟨_, first, inside, free⟩ := run
  have count := Bitmap.freeCountSetRange inside free
  omega

theorem pageAllocCases {arch a} (window : Window arch a)
    (counter : a.freePages = a.bitmap.freeCount a.totalPages) (size flags : Nat) :
    pageAllocFlags arch a size flags = (NULL, a) ∧ ¬ FreeRun a (pagesNeeded arch size) ∨
    ∃ first, 0 < pagesNeeded arch size ∧ first + pagesNeeded arch size ≤ a.totalPages ∧
      (∀ p, first ≤ p → p < first + pagesNeeded arch size → a.bitmap.test p = false) ∧
      pageAllocFlags arch a size flags = (pageAddr arch a flags first, {a with
        bitmap := a.bitmap.setRange first (pagesNeeded arch size)
        freePages := a.freePages - pagesNeeded arch size}) := by
  unfold pageAllocFlags
  dsimp only
  split <;> rename_i nonzero
  · left
    refine ⟨rfl, fun run => ?_⟩
    have zero : pagesNeeded arch size = 0 := by
      subst nonzero
      have small : (0 + PAGE_SIZE - 1) % 2 ^ arch.wordBits ≤ 4095 := Nat.mod_le _ _
      unfold pagesNeeded PAGE_SHIFT
      rw [Nat.shiftRight_eq_div_pow]
      omega
    have bounds := runFits run
    omega
  · split <;> rename_i enough
    · left
      refine ⟨rfl, fun run => ?_⟩
      have bound := runCount run
      omega
    · cases found : findFreePages a (pagesNeeded arch size) with
      | none => exact Or.inl ⟨rfl, findFreeNone found⟩
      | some first =>
        right
        obtain ⟨pos, inside, free⟩ := findFreeSome found
        refine ⟨first, pos, inside, free, ?_⟩
        dsimp only
        rw [pageAddrWord window (by omega)]

theorem allocSoundIff {arch : Arch} (built : arch.Built) {s : State} (window : Window arch s.alloc)
    (accounted : Accounted s) {size} (word : arch.Word size) (flags : Nat) :
    AllocSound arch s size flags ↔ Uncut arch s (.alloc size flags) := by
  have cut := neededCut built window.few word
  have cases' := pageAllocCases window accounted.counter size flags
  unfold AllocSound Uncut
  dsimp only
  constructor
  · intro sound
    by_contra long
    push Not at long
    obtain ⟨long, run⟩ := long
    rcases cut with same | ⟨_, none⟩
    · rcases cases' with ⟨_, none⟩ | ⟨first, pos, inside, _, result⟩
      · exact none (same ▸ run)
      · rcases sound with failed | ⟨start, fits, _⟩
        · have null : NULL = pageAddr arch s.alloc flags first :=
            congrArg Prod.fst (failed.symm.trans result)
          have page : pageOf arch s.alloc (pageAddr arch s.alloc flags first) = some first :=
            pageOfAddr window (by omega) flags
          rw [← null, pageOfNull] at page
          cases page
        · have few := window.few
          unfold MAX_PAGES at few
          omega
    · exact none run
  · intro uncut
    rcases cases' with ⟨failed, _⟩ | ⟨first, pos, inside, free, result⟩
    · exact Or.inl failed
    · have run : FreeRun s.alloc (pagesNeeded arch size) := ⟨pos, first, inside, free⟩
      have same : pagesNeeded arch size = pagesOf size := by
        rcases cut with same | ⟨none, _⟩
        · rcases uncut with short | none
          · rw [same, Nat.mod_eq_of_lt short]
          · exact absurd (same ▸ run) none
        · exact absurd run none
      rw [same] at pos inside free result
      refine Or.inr ⟨first, inside, pos, fun p low high => ⟨free p low high, fun handed => ?_⟩,
        result⟩
      cases (free p low high).symm.trans (accounted.used p handed).2

def giveBack (a : PageAllocator) (page : Nat) : PageAllocator :=
  if page < a.totalPages ∧ a.bitmap.test page = true then {a with
    bitmap := a.bitmap.clear page
    freePages := a.freePages + 1}
  else a

theorem pageFreeLow {arch a addr} (low : addr = NULL ∨ physOf arch addr < a.basePhys) :
    pageFree arch a addr = a := by
  unfold pageFree
  rcases low with null | below
  · rw [if_pos null]
  · split
    · rfl
    · exact if_pos below

theorem pageFreeOffset {arch a addr} (high : ¬ (addr = NULL ∨ physOf arch addr < a.basePhys)) :
    pageFree arch a addr =
      giveBack a ((physOf arch addr - a.basePhys) % 2 ^ 32 / PAGE_SIZE) := by
  obtain ⟨real, above⟩ := not_or.mp high
  have shifted : ((physOf arch addr - a.basePhys) % 2 ^ 32) >>> PAGE_SHIFT =
      (physOf arch addr - a.basePhys) % 2 ^ 32 / PAGE_SIZE := Nat.shiftRight_eq_div_pow _ 12
  unfold pageFree giveBack
  dsimp only
  rw [if_neg real, if_neg above, shifted]
  generalize (physOf arch addr - a.basePhys) % 2 ^ 32 / PAGE_SIZE = page
  by_cases inside : page < a.totalPages
  · rw [if_neg (Nat.not_le.mpr inside)]
    cases used : a.bitmap.test page with
    | true => simp [inside]
    | false => simp
  · rw [if_pos (Nat.not_lt.mp inside), if_neg fun both => inside both.1]

theorem giveBackSame {a : PageAllocator} {page} :
    giveBack a page = a ↔ ¬ (page < a.totalPages ∧ a.bitmap.test page = true) := by
  unfold giveBack
  split <;> rename_i used
  · refine ⟨fun same => ?_, fun not => absurd used not⟩
    have count := congrArg PageAllocator.freePages same
    exact absurd count (Nat.succ_ne_self _)
  · exact ⟨fun _ => used, fun _ => rfl⟩

theorem freeSoundIff {arch : Arch} {s : State} (window : Window arch s.alloc) (addr : Nat) :
    FreeSound arch s addr ↔ Uncut arch s (.free addr) := by
  have few := window.few
  unfold MAX_PAGES at few
  unfold FreeSound Uncut pageOf
  dsimp only
  by_cases low : addr = NULL ∨ physOf arch addr < s.alloc.basePhys
  · rw [if_pos low]
    have null : physOf arch NULL - s.alloc.basePhys < 2 ^ 32 := by
      have zero : physOf arch NULL = 0 := by
        unfold physOf NULL
        split <;> omega
      omega
    refine ⟨fun _ => Or.inl ?_, fun _ => pageFreeLow low⟩
    rcases low with rfl | below
    · exact null
    · omega
  · rw [if_neg low, pageFreeOffset low]
    change giveBack _ _ = giveBack _ _ ↔ _
    by_cases short : physOf arch addr - s.alloc.basePhys < 2 ^ 32
    · rw [Nat.mod_eq_of_lt short]
      exact ⟨fun _ => Or.inl short, fun _ => rfl⟩
    · have outside : giveBack s.alloc ((physOf arch addr - s.alloc.basePhys) / PAGE_SIZE) =
          s.alloc := by
        rw [giveBackSame]
        unfold PAGE_SIZE
        omega
      rw [outside, giveBackSame, or_iff_right short]

/-! ## Runs -/

structure Good (arch : Arch) (s : State) : Prop where
  window : Window arch s.alloc
  accounted : Accounted s

theorem allocGood {arch : Arch} {s : State} (good : Good arch s) {size flags s'}
    (sound : AllocSound arch s size flags) (ran : step arch s (.alloc size flags) = some s') :
    Good arch s' := by
  obtain ⟨window, counter, used, once⟩ := good
  unfold step at ran
  dsimp only at ran
  split at ran
  swap
  · cases ran
  rcases sound with failed | ⟨first, inside, pos, free, result⟩
  · rw [failed] at ran
    dsimp only at ran
    rw [pageOfNull] at ran
    cases ran
    exact ⟨window, counter, used, once⟩
  · rw [result] at ran
    dsimp only at ran
    rw [pageOfAddr window (by omega)] at ran
    cases ran
    have count := Bitmap.freeCountSetRange inside fun p low high => (free p low high).1
    refine ⟨⟨window.above, window.aligned, window.mapped, window.apart, window.few⟩,
      ?_, fun p member => ?_, ?_⟩
    · change s.alloc.freePages - pagesOf size = _
      rw [counter, ← count]
      exact Nat.add_sub_cancel _ _
    · change p < s.alloc.totalPages ∧ (s.alloc.bitmap.setRange _ _).test p = true
      rw [Bitmap.testSetRange]
      rcases List.mem_append.mp member with old | new
      · simp [used p old]
      · obtain ⟨low, high⟩ := List.mem_range'_1.mp new
        simp [low, high]
        omega
    · refine List.nodup_append.mpr ⟨once, List.nodup_range', fun p old q new same => ?_⟩
      obtain ⟨low, high⟩ := List.mem_range'_1.mp new
      exact (free q low high).2 (same ▸ old)

theorem freeGood {arch : Arch} {s : State} (good : Good arch s) {addr s'}
    (sound : FreeSound arch s addr) (ran : step arch s (.free addr) = some s') :
    Good arch s' := by
  obtain ⟨window, counter, used, once⟩ := good
  unfold step at ran
  dsimp only at ran
  split at ran
  swap
  · cases ran
  unfold FreeSound at sound
  split at sound <;> rename_i page found
  · rw [sound] at ran
    cases ran
    simp only [found]
    exact ⟨window, counter, used, once⟩
  · rw [sound] at ran
    cases ran
    simp only [found]
    split <;> rename_i inUse
    · have rest : ∀ p, p ∈ s.handed.erase page ↔ p ≠ page ∧ p ∈ s.handed := fun p =>
        once.mem_erase_iff
      refine ⟨⟨window.above, window.aligned, window.mapped, window.apart, window.few⟩,
        ?_, fun p member => ?_, once.erase page⟩
      · change s.alloc.freePages + 1 = _
        rw [counter]
        exact (Bitmap.freeCountClear inUse.1 inUse.2).symm
      · obtain ⟨other, member⟩ := (rest p).mp member
        change p < s.alloc.totalPages ∧ (s.alloc.bitmap.clear page).test p = true
        rw [Bitmap.testClear, if_neg other]
        exact used p member
    · have absent : page ∉ s.handed := fun member => inUse (used page member)
      rw [List.erase_of_not_mem absent]
      exact ⟨window, counter, used, once⟩

theorem soundIff {arch : Arch} (built : arch.Built) {s : State} (good : Good arch s) {act s'}
    (ran : step arch s act = some s') : Sound arch s act ↔ Uncut arch s act := by
  cases act with
  | alloc size flags =>
    have word : arch.Word size := by
      by_contra wide
      simp [step, wide] at ran
    exact allocSoundIff built good.window good.accounted word flags
  | free addr => exact freeSoundIff good.window addr

theorem stepGood {arch : Arch} (built : arch.Built) {s act s'} (good : Good arch s)
    (uncut : Uncut arch s act) (ran : step arch s act = some s') : Good arch s' := by
  have sound := (soundIff built good ran).mpr uncut
  cases act with
  | alloc size flags => exact allocGood good sound ran
  | free addr => exact freeGood good sound ran

theorem directMapBound {arch : Arch} (built : arch.Built) (memTotalKb : Nat) :
    directMapSize arch memTotalKb ≤ 2 ^ 30 ∧
    directMapSize arch memTotalKb + arch.kernelVma ≤ 2 ^ arch.wordBits ∧
    directMapSize arch memTotalKb ≤ arch.kernelVma := by
  have total : memTotalKb * 1024 % 2 ^ 32 < 2 ^ 32 := Nat.mod_lt _ (by decide)
  unfold directMapSize
  dsimp only
  generalize memTotalKb * 1024 % 2 ^ 32 = totalPhys at total
  rcases built with rfl | rfl
  · unfold i386
    dsimp only
    split <;> split <;> split <;> omega
  · unfold x86_64
    dsimp only
    split <;> split <;> split <;> omega

theorem buddyInitPages (basePhys totalKb : Nat) :
    (buddyInit basePhys totalKb).totalPages * PAGE_SIZE ≤ totalKb * 1024 ∧
    (buddyInit basePhys totalKb).totalPages ≤ MAX_PAGES := by
  have wraps := Nat.mod_le (totalKb * 1024) (2 ^ 32)
  unfold buddyInit MAX_PAGES PAGE_SHIFT PAGE_SIZE
  dsimp only
  rw [Nat.shiftRight_eq_div_pow]
  split <;> omega

theorem buddyInitCounter (basePhys totalKb : Nat) :
    let a := buddyInit basePhys totalKb
    a.freePages = a.bitmap.freeCount a.totalPages := by
  have all : ∀ limit, Bitmap.freeBits (fun _ => 0) limit = Finset.range limit := by
    intro limit
    ext i
    rw [Bitmap.freeBitsMem, Finset.mem_range]
    simp [Bitmap.test]
  unfold buddyInit Bitmap.freeCount
  dsimp only
  rw [all, Finset.card_range]

theorem mmInitGood {arch : Arch} (built : arch.Built) {memTotalKb kernelEndPhys a}
    (mapped : firstFreePhys kernelEndPhys ≤ directMapSize arch memTotalKb)
    (init : mmInit arch memTotalKb kernelEndPhys = some a) : Good arch ⟨a, []⟩ := by
  obtain ⟨small, fits, apart⟩ := directMapBound built memTotalKb
  have aligned : firstFreePhys kernelEndPhys % PAGE_SIZE = 0 := Nat.mul_mod_left _ _
  unfold mmInit at init
  dsimp only at init
  split at init <;> rename_i low
  · cases init
  · cases init
    generalize firstFreePhys kernelEndPhys = first at mapped aligned low
    generalize directMapSize arch memTotalKb = size at mapped small fits apart
    have width := builtWidth built
    have kb : (size + 2 ^ arch.wordBits - first) % 2 ^ arch.wordBits / 1024 % 2 ^ 32 =
        (size - first) / 1024 := by
      rcases width with width | width <;> rw [width] <;> omega
    rw [kb]
    obtain ⟨pages, few⟩ := buddyInitPages first ((size - first) / 1024)
    have inside : first + (buddyInit first ((size - first) / 1024)).totalPages * PAGE_SIZE ≤
        size := by omega
    refine ⟨⟨?_, aligned, ?_, ?_, few⟩, buddyInitCounter _ _, nofun, List.nodup_nil⟩
    · exact Nat.not_lt.mp low
    · exact Nat.le_trans (Nat.add_le_add_right inside _) fits
    · exact Nat.le_trans inside apart

/-- As long as no page count and no offset is cut to 32 bits, every call does what
it should and the books stay right; a call does so exactly when nothing is cut. -/
theorem pageAllocatorSound {arch : Arch} (built : arch.Built) {memTotalKb kernelEndPhys a}
    (mapped : firstFreePhys kernelEndPhys ≤ directMapSize arch memTotalKb)
    (init : mmInit arch memTotalKb kernelEndPhys = some a) {acts s}
    (uncut : Run.Meets (step arch) (Uncut arch) ⟨a, []⟩ acts)
    (ran : Run.run (step arch) ⟨a, []⟩ acts = some s) :
    Accounted s ∧ ∀ act s', step arch s act = some s' → (Sound arch s act ↔ Uncut arch s act) := by
  have good : Good arch s := Run.invariantMeets
    (fun _ _ _ good uncut ran => stepGood built good uncut ran) (mmInitGood built mapped init)
    uncut ran
  exact ⟨good.accounted, fun act s' next => soundIff built good next⟩

def smallMachine : PageAllocator := buddyInit 0x300000 29696

def allocFree : List Action :=
  [.alloc 5000 MEM_MAP, .alloc 1 MEM_PHY, .free 0xFFFFFFFF80301000]

theorem allocFreeSound :
    ∃ s, Run.run (step x86_64) ⟨smallMachine, []⟩ allocFree = some s ∧ s.handed = [0, 2] ∧
      Accounted s := by
  obtain ⟨s, ran, handed⟩ : ∃ s, Run.run (step x86_64) ⟨smallMachine, []⟩ allocFree = some s ∧
      s.handed = [0, 2] := ⟨_, rfl, by decide +kernel⟩
  have uncut : Run.Meets (step x86_64) (Uncut x86_64) ⟨smallMachine, []⟩ allocFree := by
    refine ⟨Or.inl (by decide), fun _ _ => ⟨Or.inl (by decide), fun t _ => ⟨Or.inl ?_,
      fun _ _ => trivial⟩⟩⟩
    exact Nat.lt_of_le_of_lt (Nat.sub_le _ _) (by decide)
  have init : mmInit x86_64 65536 0x300000 = some smallMachine := rfl
  exact ⟨s, ran, handed, (pageAllocatorSound (Or.inr rfl) (by decide) init uncut ran).1⟩

theorem hugeAllocCut :
    mmInit x86_64 65536 0x300000 = some smallMachine ∧
    ¬ Sound x86_64 ⟨smallMachine, []⟩ (.alloc (2 ^ 44 + 1) MEM_MAP) := by
  have init : mmInit x86_64 65536 0x300000 = some smallMachine := rfl
  have good := mmInitGood (Or.inr rfl) (by decide) init
  have next : ∃ s', step x86_64 ⟨smallMachine, []⟩ (.alloc (2 ^ 44 + 1) MEM_MAP) = some s' :=
    ⟨_, rfl⟩
  obtain ⟨s', next⟩ := next
  rw [soundIff (Or.inr rfl) good next]
  refine ⟨init, fun uncut => ?_⟩
  rcases uncut with short | none
  · exact absurd short (by decide)
  · refine none ⟨by decide, 0, by decide, fun p _ _ => ?_⟩
    simp [smallMachine, buddyInit, Bitmap.test]

end Scepter.Mm
