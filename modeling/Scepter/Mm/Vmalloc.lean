import Scepter.Lib.Bitmap
import Scepter.Lib.Keyed
import Scepter.Lib.Run
import Scepter.Mm.Buddy

/-! ioremap and iounmap (mm/vmalloc.c): the bitmap of the area's pages, their count, the
table of regions and the page mappings, against the list of mappings that callers hold. -/
namespace Scepter.Vmalloc
open Mm (Arch PAGE_SIZE i386 x86_64)

def VMALLOC_START (arch : Arch) : Nat :=
  if arch.wordBits = 32 then 0xF8000000 else 0xFFFFFFFFC0000000

def VMALLOC_END (arch : Arch) : Nat :=
  if arch.wordBits = 32 then 0xFFBFFFFF else 0xFFFFFFFFFFFFFFFF

def VMALLOC_PAGES (arch : Arch) : Nat := (VMALLOC_END arch - VMALLOC_START arch + 1) / PAGE_SIZE
def MAX_VMALLOC_REGIONS : Nat := 64

structure Region where
  virtAddr : Nat
  physAddr : Nat
  numPages : Nat
  inUse : Bool

structure State where
  bitmap : Bitmap
  usedPageCount : Nat
  regions : List Region
  maps : Nat → Option Nat

def findFrom (b : Bitmap) (numPages : Nat) : Nat → Nat → Nat → Nat → Option Nat
  | 0, _, _, _ => none
  | left + 1, page, consecutive, startPage =>
    if !b.test page then
      let startPage := if consecutive = 0 then page else startPage
      if consecutive + 1 = numPages then some startPage
      else findFrom b numPages left (page + 1) (consecutive + 1) startPage
    else findFrom b numPages left (page + 1) 0 startPage

def vmallocFindFree (arch : Arch) (b : Bitmap) (numPages : Nat) : Nat :=
  match findFrom b numPages (VMALLOC_PAGES arch) 0 0 0 with
  | some startPage => VMALLOC_START arch + startPage * PAGE_SIZE
  | none => 0

def vmallocMarkUsed (arch : Arch) (s : State) (virtAddr numPages : Nat) : State :=
  {s with
    bitmap := s.bitmap.setRange ((virtAddr - VMALLOC_START arch) / PAGE_SIZE) numPages
    usedPageCount := (s.usedPageCount + numPages) % 2 ^ 32}

def vmallocMarkFree (arch : Arch) (s : State) (virtAddr numPages : Nat) : State :=
  {s with
    bitmap := s.bitmap.clearRange ((virtAddr - VMALLOC_START arch) / PAGE_SIZE) numPages
    usedPageCount := (s.usedPageCount + 2 ^ 32 - numPages) % 2 ^ 32}

def vmallocAddRegion (regions : List Region) (r : Region) : List Region :=
  Keyed.update (fun r => !r.inUse) (fun _ => r) regions

/-- The comparison of vmalloc_find_region, with an address cut to uint32_t. -/
def found (virtAddr : Nat) (r : Region) : Bool :=
  r.inUse && r.virtAddr == virtAddr / PAGE_SIZE * PAGE_SIZE % 2 ^ 32

def mapPages (arch : Arch) (maps : Nat → Option Nat) (virtBase physBase n : Nat) :
    Nat → Option Nat :=
  (List.range n).foldl (fun maps i => Function.update maps (virtBase + i * PAGE_SIZE)
    (some ((physBase + i * PAGE_SIZE) % 2 ^ arch.wordBits))) maps

def unmapPages (maps : Nat → Option Nat) (virtBase n : Nat) : Nat → Option Nat :=
  (List.range n).foldl (fun maps i => Function.update maps (virtBase + i * PAGE_SIZE) none) maps

def ioremap (arch : Arch) (s : State) (physAddr size : Nat) (mapOk : Nat → Bool) : Nat × State :=
  if size = 0 then (0, s)
  else
    let physBase := physAddr / PAGE_SIZE * PAGE_SIZE
    let offset := physAddr % PAGE_SIZE
    let numPages := (size + offset + (PAGE_SIZE - 1)) % 2 ^ arch.wordBits / PAGE_SIZE % 2 ^ 32
    let virtBase := vmallocFindFree arch s.bitmap numPages
    if virtBase = 0 then (0, s)
    else match (List.range numPages).find? fun i => !mapOk i with
      | some i =>
        (0, {s with maps := unmapPages (mapPages arch s.maps virtBase physBase i) virtBase i})
      | none =>
        let s := {s with maps := mapPages arch s.maps virtBase physBase numPages}
        let s := vmallocMarkUsed arch s virtBase numPages
        let region : Region := ⟨virtBase, physBase, numPages, true⟩
        (virtBase + offset, {s with regions := vmallocAddRegion s.regions region})

def iounmap (arch : Arch) (s : State) (virtAddr : Nat) : State :=
  if virtAddr = 0 then s
  else
    let virtBase := virtAddr / PAGE_SIZE * PAGE_SIZE
    match s.regions.find? (found virtBase) with
    | none => s
    | some region =>
      let s := {s with maps := unmapPages s.maps virtBase region.numPages}
      let s := vmallocMarkFree arch s virtBase region.numPages
      {s with regions := Keyed.update (found virtBase) (fun r => {r with inUse := false}) s.regions}

def vmallocInit : State :=
  ⟨fun _ => 0, 0, List.replicate MAX_VMALLOC_REGIONS ⟨0, 0, 0, false⟩, fun _ => none⟩

/-! ## What callers hold -/

structure Mapping where
  page : Nat
  pages : Nat
  phys : Nat

def pageAddr (arch : Arch) (page : Nat) : Nat := VMALLOC_START arch + page * PAGE_SIZE

def wanted (physAddr size : Nat) : Nat :=
  (size + physAddr % PAGE_SIZE + (PAGE_SIZE - 1)) / PAGE_SIZE

inductive Call where
  | ioremap (physAddr size : Nat) (mapOk : Nat → Bool)
  | iounmap (virtAddr : Nat)

def step (arch : Arch) (s : State × List Mapping) : Call → Option (State × List Mapping)
  | .ioremap physAddr size mapOk =>
    if arch.Word physAddr ∧ arch.Word size then
      let (ret, s') := ioremap arch s.1 physAddr size mapOk
      some (s', if ret = 0 then s.2 else
        ⟨(ret - VMALLOC_START arch) / PAGE_SIZE, wanted physAddr size,
          physAddr / PAGE_SIZE * PAGE_SIZE⟩ :: s.2)
    else none
  | .iounmap virtAddr =>
    if arch.Word virtAddr then some (iounmap arch s.1 virtAddr,
      s.2.filter fun m => pageAddr arch m.page ≠ virtAddr / PAGE_SIZE * PAGE_SIZE)
    else none

def Apart (a b : Mapping) : Prop := a.page + a.pages ≤ b.page ∨ b.page + b.pages ≤ a.page

def Mapping.region (arch : Arch) (m : Mapping) : Region :=
  ⟨pageAddr arch m.page, m.phys, m.pages, true⟩

structure Shows (arch : Arch) (s : State) (live : List Mapping) : Prop where
  apart : live.Pairwise Apart
  inside : ∀ m ∈ live, 0 < m.pages ∧ m.page + m.pages ≤ VMALLOC_PAGES arch
  bitmap : ∀ p, s.bitmap.test p = true ↔ ∃ m ∈ live, m.page ≤ p ∧ p < m.page + m.pages
  count : s.usedPageCount + s.bitmap.freeCount (VMALLOC_PAGES arch) = VMALLOC_PAGES arch
  room : s.regions.length = MAX_VMALLOC_REGIONS
  table : (s.regions.filter Region.inUse).Perm (live.map (Mapping.region arch))
  mapped : ∀ m ∈ live, ∀ p, m.page ≤ p → p < m.page + m.pages →
    s.maps (pageAddr arch p) = some ((m.phys + (p - m.page) * PAGE_SIZE) % 2 ^ arch.wordBits)
  unmapped : ∀ p, s.bitmap.test p = false → s.maps (pageAddr arch p) = none

/-- A size does not wrap, and what succeeds finds a free slot. Only 32-bit addresses are
unmapped. -/
def Calm (arch : Arch) (s : State × List Mapping) : Call → Prop
  | .ioremap physAddr size mapOk =>
    size + physAddr % PAGE_SIZE + (PAGE_SIZE - 1) < 2 ^ arch.wordBits ∧
      wanted physAddr size < 2 ^ 32 ∧
      (s.2.length < MAX_VMALLOC_REGIONS ∨
        vmallocFindFree arch s.1.bitmap (wanted physAddr size) = 0 ∨
        ∃ i < wanted physAddr size, mapOk i = false)
  | .iounmap virtAddr =>
    arch.wordBits = 32 ∨ ∀ m ∈ s.2, pageAddr arch m.page ≠ virtAddr / PAGE_SIZE * PAGE_SIZE

variable {arch : Arch} {s : State} {live : List Mapping}

/-! ## The parts -/

theorem findFromFree {b : Bitmap} {numPages left page consecutive startPage r : Nat}
    (search : findFrom b numPages left page consecutive startPage = some r)
    (here : consecutive = 0 ∨ startPage + consecutive = page)
    (free : ∀ j, startPage ≤ j → j < startPage + consecutive → b.test j = false) :
    0 < numPages ∧ r + numPages ≤ page + left ∧
      ∀ j, r ≤ j → j < r + numPages → b.test j = false := by
  induction left generalizing page consecutive startPage with
  | zero => cases search
  | succ left ih =>
    unfold findFrom at search
    rw [Nat.add_succ, ← Nat.succ_add]
    split at search <;> rename_i clear
    · rw [Bool.not_eq_true'] at clear
      have more : ∀ j, (if consecutive = 0 then page else startPage) ≤ j →
          j < (if consecutive = 0 then page else startPage) + (consecutive + 1) →
            b.test j = false := by
        intro j low high
        by_cases last : j = page
        · rw [last]
          exact clear
        · by_cases first : consecutive = 0
          · rw [if_pos first] at low high
            omega
          · rw [if_neg first] at low high
            exact free j low (by omega)
      have reach : (if consecutive = 0 then page else startPage) + (consecutive + 1) = page + 1 := by
        split <;> omega
      dsimp only at search
      split at search <;> rename_i enough
      · cases search
        rw [← enough]
        exact ⟨Nat.succ_pos _, by omega, more⟩
      · exact ih search (.inr reach) more
    · exact ih search (.inl rfl) (by omega)

theorem mapPagesAt (maps : Nat → Option Nat) (r phys n p : Nat) :
    mapPages arch maps (pageAddr arch r) phys n (pageAddr arch p) =
      if r ≤ p ∧ p < r + n then some ((phys + (p - r) * PAGE_SIZE) % 2 ^ arch.wordBits)
      else maps (pageAddr arch p) := by
  unfold mapPages
  induction n with
  | zero => rw [if_neg (by omega)]; rfl
  | succ n ih =>
    rw [List.range_succ, List.foldl_concat]
    by_cases last : p = r + n
    · have same : pageAddr arch p = pageAddr arch r + n * PAGE_SIZE := by
        rw [last]
        unfold pageAddr
        rw [Nat.add_mul, Nat.add_assoc]
      rw [same, Function.update_self, if_pos (by omega), last, Nat.add_sub_cancel_left]
    · have other : pageAddr arch p ≠ pageAddr arch r + n * PAGE_SIZE := by
        unfold pageAddr PAGE_SIZE
        omega
      rw [Function.update_of_ne other, ih]
      exact if_congr (by omega) rfl rfl

theorem unmapPagesAt (maps : Nat → Option Nat) (r n p : Nat) :
    unmapPages maps (pageAddr arch r) n (pageAddr arch p) =
      if r ≤ p ∧ p < r + n then none else maps (pageAddr arch p) := by
  unfold unmapPages
  induction n with
  | zero => rw [if_neg (by omega)]; rfl
  | succ n ih =>
    rw [List.range_succ, List.foldl_concat]
    by_cases last : p = r + n
    · have same : pageAddr arch p = pageAddr arch r + n * PAGE_SIZE := by
        rw [last]
        unfold pageAddr
        rw [Nat.add_mul, Nat.add_assoc]
      rw [same, Function.update_self, if_pos (by omega)]
    · have other : pageAddr arch p ≠ pageAddr arch r + n * PAGE_SIZE := by
        unfold pageAddr PAGE_SIZE
        omega
      rw [Function.update_of_ne other, ih]
      exact if_congr (by omega) rfl rfl

theorem pageOf (arch : Arch) (page : Nat) :
    (pageAddr arch page - VMALLOC_START arch) / PAGE_SIZE = page := by
  unfold pageAddr
  rw [Nat.add_sub_cancel_left, Nat.mul_div_cancel _ (by decide)]

theorem pageAddrInj {p q : Nat} (same : pageAddr arch p = pageAddr arch q) : p = q := by
  rw [← pageOf arch p, same, pageOf]

theorem apartSymm {a b : Mapping} (apart : Apart a b) : Apart b a := apart.symm

/-! ## ioremap -/

theorem nothingShown (shows : Shows arch s live) {maps : Nat → Option Nat}
    (same : ∀ p, maps (pageAddr arch p) = s.maps (pageAddr arch p)) :
    Shows arch {s with maps := maps} live :=
  {shows with
    mapped := fun m member p low high => (same p).trans (shows.mapped m member p low high)
    unmapped := fun p clear => (same p).trans (shows.unmapped p clear)}

theorem failedShows (shows : Shows arch s live) {r n k : Nat} (short : k ≤ n) (phys : Nat)
    (free : ∀ j, r ≤ j → j < r + n → s.bitmap.test j = false) :
    Shows arch
      {s with
        maps := unmapPages (mapPages arch s.maps (pageAddr arch r) phys k) (pageAddr arch r) k}
      live := by
  refine nothingShown shows fun p => ?_
  rw [unmapPagesAt, mapPagesAt]
  split <;> rename_i inside
  · exact (shows.unmapped p (free p inside.1 (by omega))).symm
  · rfl

theorem addedTable (shows : Shows arch s live) (slot : live.length < MAX_VMALLOC_REGIONS)
    (m : Mapping) :
    ((vmallocAddRegion s.regions (m.region arch)).filter Region.inUse).Perm
      ((m :: live).map (Mapping.region arch)) ∧
    (vmallocAddRegion s.regions (m.region arch)).length = MAX_VMALLOC_REGIONS := by
  have idle : ∃ r, s.regions.find? (fun r => !r.inUse) = some r := by
    by_contra none_
    have busy := List.find?_eq_none.mp (Option.eq_none_iff_forall_ne_some.mpr
      fun r is => none_ ⟨r, is⟩)
    have all : s.regions.filter Region.inUse = s.regions :=
      List.filter_eq_self.mpr fun r member => by simpa using busy r member
    have count := shows.table.length_eq
    rw [all, List.length_map, shows.room] at count
    omega
  obtain ⟨r, first⟩ := idle
  have clear := List.find?_some first
  obtain ⟨before, after, whole, updated⟩ := Keyed.updateSplit (f := fun _ => m.region arch) first
  have table := shows.table
  have room := shows.room
  unfold vmallocAddRegion
  rw [updated]
  rw [whole, List.filter_append, List.filter_cons_of_neg (by simpa using clear)] at table
  rw [whole, List.length_append, List.length_cons] at room
  refine ⟨?_, by rw [List.length_append, List.length_cons, room]⟩
  rw [List.filter_append, List.filter_cons_of_pos rfl, List.map_cons]
  exact List.perm_middle.trans (table.cons _)

theorem addedShows (built : arch.Built) (shows : Shows arch s live)
    (slot : live.length < MAX_VMALLOC_REGIONS) {m : Mapping} (some' : 0 < m.pages)
    (fits : m.page + m.pages ≤ VMALLOC_PAGES arch)
    (free : ∀ j, m.page ≤ j → j < m.page + m.pages → s.bitmap.test j = false) :
    let s' := vmallocMarkUsed arch
      {s with maps := mapPages arch s.maps (pageAddr arch m.page) m.phys m.pages}
      (pageAddr arch m.page) m.pages
    Shows arch {s' with regions := vmallocAddRegion s.regions (m.region arch)} (m :: live) := by
  have few : VMALLOC_PAGES arch < 2 ^ 32 := by
    rcases built with rfl | rfl <;> decide
  have apart : ∀ other ∈ live, ∀ p, m.page ≤ p → p < m.page + m.pages →
      ¬ (other.page ≤ p ∧ p < other.page + other.pages) := fun other member p low high inside =>
    Bool.false_ne_true ((free p low high).symm.trans
      ((shows.bitmap p).mpr ⟨other, member, inside⟩))
  obtain ⟨table, room⟩ := addedTable shows slot m
  have count := shows.count
  have taken := Bitmap.freeCountSetRange fits free
  unfold vmallocMarkUsed
  rw [pageOf]
  refine ⟨List.pairwise_cons.mpr ⟨fun other member => ?_, shows.apart⟩, ?_, fun p => ?_, ?_, room,
    table, fun other member p low high => ?_, fun p clear => ?_⟩
  · have pos := (shows.inside other member).1
    by_contra touch
    unfold Apart at touch
    exact apart other member (max m.page other.page) (by omega) (by omega) (by omega)
  · exact List.forall_mem_cons.mpr ⟨⟨some', fits⟩, shows.inside⟩
  · rw [Bitmap.testSetRange, Bool.or_eq_true, decide_eq_true_eq, shows.bitmap p,
      List.exists_mem_cons_iff]
  · dsimp only
    rw [Nat.mod_eq_of_lt (by omega)]
    omega
  · dsimp only
    rw [mapPagesAt]
    rcases List.mem_cons.mp member with rfl | member
    · rw [if_pos ⟨low, high⟩]
    · rw [if_neg fun inside => apart other member p inside.1 inside.2 ⟨low, high⟩]
      exact shows.mapped other member p low high
  · dsimp only at clear ⊢
    rw [Bitmap.testSetRange, Bool.or_eq_false_iff, decide_eq_false_iff_not] at clear
    rw [mapPagesAt, if_neg clear.1]
    exact shows.unmapped p clear.2

theorem ioremapShows (built : arch.Built) (shows : Shows arch s live) {physAddr size : Nat}
    {mapOk : Nat → Bool} (calm : Calm arch (s, live) (.ioremap physAddr size mapOk)) {s' live'}
    (ran : step arch (s, live) (.ioremap physAddr size mapOk) = some (s', live')) :
    Shows arch s' live' := by
  obtain ⟨whole, narrow, slot⟩ := calm
  unfold step ioremap at ran
  dsimp only at ran
  split at ran
  swap
  · cases ran
  have pages : (size + physAddr % PAGE_SIZE + (PAGE_SIZE - 1)) % 2 ^ arch.wordBits / PAGE_SIZE %
      2 ^ 32 = wanted physAddr size := by
    rw [Nat.mod_eq_of_lt whole]
    exact Nat.mod_eq_of_lt narrow
  rw [pages] at ran
  dsimp only at slot
  generalize physAddr / PAGE_SIZE * PAGE_SIZE = phys at ran
  have low : 0 < VMALLOC_START arch := by
    rcases built with rfl | rfl <;> decide
  by_cases empty : size = 0
  · rw [if_pos empty] at ran
    cases ran
    exact shows
  rw [if_neg empty] at ran
  unfold vmallocFindFree at ran slot
  cases search : findFrom s.bitmap (wanted physAddr size) (VMALLOC_PAGES arch) 0 0 0 with
  | none =>
    rw [search] at ran
    cases ran
    exact shows
  | some r =>
    rw [search] at ran slot
    dsimp only at ran slot
    obtain ⟨some', fits, free⟩ := findFromFree search (.inl rfl) (by omega)
    rw [Nat.zero_add] at fits
    have real : VMALLOC_START arch + r * PAGE_SIZE ≠ 0 := by omega
    rw [if_neg real] at ran
    cases failed : (List.range (wanted physAddr size)).find? fun i => !mapOk i with
    | some k =>
      rw [failed] at ran
      cases ran
      have short := List.mem_range.mp (List.mem_of_find?_eq_some failed)
      exact failedShows shows (Nat.le_of_lt short) phys free
    | none =>
      rw [failed] at ran
      dsimp only at ran
      rw [if_neg (by omega)] at ran
      cases ran
      have works : ¬ ∃ i < wanted physAddr size, mapOk i = false := by
        rintro ⟨i, less, bad⟩
        have ok := List.find?_eq_none.mp failed i (List.mem_range.mpr less)
        rw [bad] at ok
        exact ok rfl
      have place : (VMALLOC_START arch + r * PAGE_SIZE + physAddr % PAGE_SIZE -
          VMALLOC_START arch) / PAGE_SIZE = r := by
        unfold PAGE_SIZE
        omega
      rw [place]
      have slot : live.length < MAX_VMALLOC_REGIONS :=
        slot.elim id fun other => other.elim (fun none_ => absurd none_ real)
          fun bad => absurd bad works
      exact addedShows built shows slot (m := ⟨r, wanted physAddr size, phys⟩) some' fits free

/-! ## iounmap -/

theorem removedTable {virtBase : Nat} {r : Region}
    (room : s.regions.length = MAX_VMALLOC_REGIONS)
    (first : s.regions.find? (found virtBase) = some r) :
    ((Keyed.update (found virtBase) (fun r => {r with inUse := false}) s.regions).length =
      MAX_VMALLOC_REGIONS) ∧
    (s.regions.filter Region.inUse).Perm (r ::
      (Keyed.update (found virtBase) (fun r => {r with inUse := false}) s.regions).filter
        Region.inUse) := by
  have hit := List.find?_some first
  unfold found at hit
  rw [Bool.and_eq_true] at hit
  obtain ⟨before, after, whole, updated⟩ :=
    Keyed.updateSplit (f := fun r => {r with inUse := false}) first
  rw [updated]
  rw [whole, List.length_append, List.length_cons] at room
  refine ⟨by rw [List.length_append, List.length_cons, room], ?_⟩
  rw [whole, List.filter_append, List.filter_append, List.filter_cons_of_pos hit.1,
    List.filter_cons_of_neg (by simp)]
  exact List.perm_middle

theorem removedShows (built : arch.Built) (shows : Shows arch s live) {m : Mapping}
    {rest : List Mapping} (perm : live.Perm (m :: rest)) {regions : List Region}
    (room : regions.length = MAX_VMALLOC_REGIONS)
    (table : (regions.filter Region.inUse).Perm (rest.map (Mapping.region arch))) :
    let s' := vmallocMarkFree arch {s with maps := unmapPages s.maps (pageAddr arch m.page) m.pages}
      (pageAddr arch m.page) m.pages
    Shows arch {s' with regions := regions} rest := by
  have few : VMALLOC_PAGES arch < 2 ^ 32 := by
    rcases built with rfl | rfl <;> decide
  obtain ⟨apart, others⟩ := List.pairwise_cons.mp (perm.pairwise shows.apart apartSymm)
  have old : ∀ other ∈ rest, other ∈ live := fun other member =>
    perm.mem_iff.mpr (List.mem_cons_of_mem m member)
  have own := shows.inside m (perm.mem_iff.mpr List.mem_cons_self)
  have set : ∀ p, m.page ≤ p → p < m.page + m.pages → s.bitmap.test p = true := fun p low high =>
    (shows.bitmap p).mpr ⟨m, perm.mem_iff.mpr List.mem_cons_self, low, high⟩
  have count := shows.count
  have given := Bitmap.freeCountClearRange own.2 set
  have most : (s.bitmap.clearRange m.page m.pages).freeCount (VMALLOC_PAGES arch) ≤
      VMALLOC_PAGES arch :=
    (Finset.card_filter_le _ _).trans_eq (Finset.card_range _)
  unfold vmallocMarkFree
  rw [pageOf]
  refine ⟨others, fun other member => shows.inside other (old other member), fun p => ?_, ?_, room,
    table, fun other member p low high => ?_, fun p clear => ?_⟩
  · rw [Bitmap.testClearRange, Bool.and_eq_true, Bool.not_eq_true', decide_eq_false_iff_not,
      shows.bitmap p]
    simp only [perm.mem_iff, List.exists_mem_cons_iff]
    constructor
    · rintro ⟨off, inside | held⟩
      · exact absurd inside off
      · exact held
    · rintro ⟨other, member, inside⟩
      have clear := apart other member
      unfold Apart at clear
      exact ⟨by omega, .inr ⟨other, member, inside⟩⟩
  · dsimp only
    omega
  · have clear := apart other member
    unfold Apart at clear
    dsimp only
    rw [unmapPagesAt, if_neg (by omega)]
    exact shows.mapped other (old other member) p low high
  · dsimp only at clear ⊢
    rw [unmapPagesAt]
    split <;> rename_i inside
    · rfl
    · rw [Bitmap.testClearRange, decide_eq_false inside] at clear
      exact shows.unmapped p clear

theorem foundIff (built : arch.Built) {virtBase : Nat} {m : Mapping}
    (fits : 0 < m.pages ∧ m.page + m.pages ≤ VMALLOC_PAGES arch)
    (word : arch.Word virtBase) (base : virtBase / PAGE_SIZE * PAGE_SIZE = virtBase) :
    found virtBase (m.region arch) = true ↔
      arch.wordBits = 32 ∧ pageAddr arch m.page = virtBase := by
  unfold found Mapping.region
  rw [Bool.true_and, beq_iff_eq, base]
  unfold Arch.Word at word
  rcases built with rfl | rfl
  · rw [Nat.mod_eq_of_lt (show virtBase < 2 ^ 32 from word)]
    exact (and_iff_right rfl).symm
  · have high : VMALLOC_START x86_64 = 0xFFFFFFFFC0000000 := rfl
    refine iff_of_false (fun same => ?_) fun both => nomatch both.1
    dsimp only at same
    unfold pageAddr at same
    omega

theorem filterPerm (arch : Arch) (apart : live.Pairwise Apart) (pos : ∀ m ∈ live, 0 < m.pages) {m : Mapping}
    (member : m ∈ live) :
    live.Perm (m :: live.filter fun o => pageAddr arch o.page ≠ pageAddr arch m.page) := by
  obtain ⟨before, after, rfl⟩ := List.append_of_mem member
  obtain ⟨-, tail, cross⟩ := List.pairwise_append.mp apart
  have own := pos m member
  have kept : ∀ o ∈ before ++ after, pageAddr arch o.page ≠ pageAddr arch m.page := by
    intro o inside same
    have page := pageAddrInj same
    rcases List.mem_append.mp inside with inside | inside
    · have apart := cross o inside m List.mem_cons_self
      have other := pos o (List.mem_append_left _ inside)
      unfold Apart at apart
      omega
    · have apart := (List.pairwise_cons.mp tail).1 o inside
      have other := pos o (List.mem_append_right _ (List.mem_cons_of_mem m inside))
      unfold Apart at apart
      omega
  rw [List.filter_append, List.filter_cons_of_neg (by simp), ← List.filter_append,
    List.filter_eq_self.mpr fun o inside => decide_eq_true (kept o inside)]
  exact List.perm_middle

theorem iounmapShows (built : arch.Built) (shows : Shows arch s live) {virtAddr : Nat}
    (calm : Calm arch (s, live) (.iounmap virtAddr)) {s' live'}
    (ran : step arch (s, live) (.iounmap virtAddr) = some (s', live')) : Shows arch s' live' := by
  unfold step at ran
  dsimp only at ran
  split at ran
  swap
  · cases ran
  rename_i word
  cases ran
  have base : virtAddr / PAGE_SIZE * PAGE_SIZE / PAGE_SIZE * PAGE_SIZE =
      virtAddr / PAGE_SIZE * PAGE_SIZE := by
    rw [Nat.mul_div_cancel _ (by decide)]
  have wordBase : arch.Word (virtAddr / PAGE_SIZE * PAGE_SIZE) :=
    Nat.lt_of_le_of_lt (Nat.div_mul_le_self _ _) word
  unfold iounmap
  dsimp only
  cases first : s.regions.find? (found (virtAddr / PAGE_SIZE * PAGE_SIZE)) with
  | none =>
    -- a mapping held would have been found
    have none_ : ∀ m ∈ live, pageAddr arch m.page ≠ virtAddr / PAGE_SIZE * PAGE_SIZE := by
      intro m member same
      rcases calm with narrow | absent
      · have listed := shows.table.mem_iff.mpr (List.mem_map_of_mem member)
        exact List.find?_eq_none.mp first _ (List.mem_filter.mp listed).1
          ((foundIff built (shows.inside m member) wordBase base).mpr ⟨narrow, same⟩)
      · exact absent m member same
    rw [List.filter_eq_self.mpr fun m member => decide_eq_true (none_ m member)]
    split
    · exact shows
    · exact shows
  | some r =>
    have hit := List.find?_some first
    have used : r.inUse = true := by
      unfold found at hit
      rw [Bool.and_eq_true] at hit
      exact hit.1
    have listed : r ∈ s.regions.filter Region.inUse :=
      List.mem_filter.mpr ⟨List.mem_of_find?_eq_some first, used⟩
    obtain ⟨m, member, rfl⟩ := List.mem_map.mp (shows.table.mem_iff.mp listed)
    obtain ⟨-, same⟩ := (foundIff built (shows.inside m member) wordBase base).mp hit
    have low : 0 < VMALLOC_START arch := by
      rcases built with rfl | rfl <;> decide
    have some' : virtAddr ≠ 0 := by
      rintro rfl
      rw [Nat.zero_div, Nat.zero_mul] at same
      unfold pageAddr at same
      omega
    obtain ⟨room, perm⟩ := removedTable shows.room first
    rw [if_neg some', ← same]
    rw [← same] at room perm
    have others := filterPerm arch shows.apart (fun o inside => (shows.inside o inside).1) member
    exact removedShows built shows others room
      ((perm.symm.trans (shows.table.trans (others.map _))).cons_inv)

/-! ## Runs -/

theorem initShows (arch : Arch) : Shows arch vmallocInit [] where
  apart := List.Pairwise.nil
  inside := nofun
  bitmap p := iff_of_false (by rw [Bitmap.testBit]; simp [vmallocInit]) nofun
  count := by
    have all : vmallocInit.bitmap.freeBits (VMALLOC_PAGES arch) = Finset.range (VMALLOC_PAGES arch) :=
      Finset.filter_true_of_mem fun i _ => by rw [Bitmap.testBit]; simp [vmallocInit]
    unfold Bitmap.freeCount
    rw [all, Finset.card_range]
    exact Nat.zero_add _
  room := rfl
  table := List.Perm.refl _
  mapped := nofun
  unmapped _ _ := rfl

/-- In every run whose calls are calm, the bitmap, the count, the table and the page
mappings are those of the mappings held. -/
theorem vmallocShows {arch : Arch} (built : arch.Built) {calls : List Call}
    {s : State × List Mapping} (calm : Run.Meets (step arch) (Calm arch) (vmallocInit, []) calls)
    (ran : Run.run (step arch) (vmallocInit, []) calls = some s) : Shows arch s.1 s.2 :=
  Run.invariantMeets (P := fun s => Shows arch s.1 s.2)
    (fun _ call _ shows calm ran => match call with
      | .ioremap _ _ _ => ioremapShows built shows calm ran
      | .iounmap _ => iounmapShows built shows calm ran) (initShows arch) calm ran

def twoCalls (addr : Nat) : List Call := [.ioremap 0xFEC00004 4096 fun _ => true, .iounmap addr]

theorem mappedAndBack : ∃ s,
    Run.run (step i386) (vmallocInit, []) (twoCalls 0xF8000004) = some s ∧
    Shows i386 s.1 s.2 ∧ s.2 = [] := by
  have calm : Run.Meets (step i386) (Calm i386) (vmallocInit, []) (twoCalls 0xF8000004) :=
    ⟨⟨by decide, by decide, .inl (by decide)⟩, fun _ _ => ⟨.inl rfl, fun _ _ => trivial⟩⟩
  have whole : ((Run.run (step i386) (vmallocInit, []) (twoCalls 0xF8000004)).map
    fun s => s.2.length) = some 0 := by decide +kernel
  obtain ⟨s, ran, none_⟩ := Option.map_eq_some_iff.mp whole
  exact ⟨s, ran, vmallocShows (Or.inl rfl) calm ran, List.length_eq_zero_iff.mp none_⟩

/-- With 64-bit addresses nothing is given back. -/
theorem unmapIgnored : ¬ ∀ s,
    Run.run (step x86_64) (vmallocInit, []) (twoCalls 0xFFFFFFFFC0000004) = some s →
      Shows x86_64 s.1 s.2 := by
  intro all
  have after : ((Run.run (step x86_64) (vmallocInit, []) (twoCalls 0xFFFFFFFFC0000004)).map
    fun s => (s.1.bitmap.test 0, s.2.length)) = some (true, 0) := by decide +kernel
  obtain ⟨s, ran, both⟩ := Option.map_eq_some_iff.mp after
  obtain ⟨set, none_⟩ := Prod.mk.inj both
  obtain ⟨m, member, -⟩ := ((all s ran).bitmap 0).mp set
  rw [List.length_eq_zero_iff.mp none_] at member
  cases member

end Scepter.Vmalloc
