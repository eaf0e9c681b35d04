import Scepter.Mm.Regions
import Scepter.Mm.UserSpace

/-! What munmap (kernel/syscall.c) does to the addresses of a process. The walk removes
the regions that are exactly the range and refuses to cut one, so a success takes the
range and nothing else; an error can come too late, and the end of a range that runs up
to 2^32 is 0. -/
namespace Scepter.UserSpace
open Mm (PAGE_SIZE)
open Regions (Vma pageDown munmapFrom)

/-! ## What munmap should do -/

def Within (a : Nat) (v : Vma) : Prop := v.vmStart ≤ a ∧ a < v.vmEnd

def Mapped (vmas : List Vma) (a : Nat) : Prop := ∃ v ∈ vmas, Within a v

structure PartOf (w v : Vma) : Prop where
  start : v.vmStart ≤ w.vmStart
  stop : w.vmEnd ≤ v.vmEnd
  flags : w.vmFlags = v.vmFlags
  type : w.vmType = v.vmType
  fd : w.vmFd = v.vmFd
  shared : w.vmShared = v.vmShared
  offset : w.vmFileOff + v.vmStart = v.vmFileOff + w.vmStart
  phys : w.vmPhysBase + v.vmStart = v.vmPhysBase + w.vmStart

def rangeStop (addr length : Nat) : Nat := pageDown (addr + length + 0xFFF)

def InSpan (addr length a : Nat) : Prop := pageDown addr ≤ a ∧ a < rangeStop addr length

def munmapCall (s : Space) (addr length : Nat) : Int × Space :=
  ((Regions.sysMunmap s.mm.vmaList addr length).1, sysMunmap s addr length)

/- After a success the range is gone, and with it the present pages of its regions;
whatever lies outside is where it was. An error has changed nothing. -/
structure UnmapsRange (addr length : Nat) (before : Space) (ret : Int) (after : Space) : Prop where
  addresses : ret = 0 → ∀ a,
    Mapped after.mm.vmaList a ↔ Mapped before.mm.vmaList a ∧ ¬ InSpan addr length a
  parts : ret = 0 → ∀ w ∈ after.mm.vmaList, ∃ v ∈ before.mm.vmaList, PartOf w v
  others : ret = 0 → ∀ v ∈ before.mm.vmaList,
    (∀ a, Within a v → ¬ InSpan addr length a) → v.vmStart < v.vmEnd → v ∈ after.mm.vmaList
  gone : ret = 0 → ∀ p ∈ after.mmu.ptes, p ∈ before.mmu.ptes ∧
    (InSpan addr length p.page → ¬ Mapped before.mm.vmaList p.page)
  stay : ret = 0 → ∀ p ∈ before.mmu.ptes, ¬ InSpan addr length p.page → p ∈ after.mmu.ptes
  refused : ret ≠ 0 → after = before

/-! ## The walk -/

section Walk

variable (start stop : Nat)

def overlapsRange (v : Vma) : Bool := start < v.vmEnd ∧ stop > v.vmStart
def matchesRange (v : Vma) : Bool := start = v.vmStart ∧ stop = v.vmEnd

theorem munmapWhole {vmas : List Vma}
    (whole : ∀ v ∈ vmas, overlapsRange start stop v → matchesRange start stop v) :
    munmapFrom start stop vmas = (0, vmas.filter fun v => !overlapsRange start stop v) := by
  induction vmas with
  | nil => rfl
  | cons v rest ih =>
    have tail := ih fun w member => whole w (List.mem_cons_of_mem v member)
    have here := whole v List.mem_cons_self
    unfold munmapFrom
    by_cases over' : start < v.vmEnd ∧ stop > v.vmStart
    · have same : start = v.vmStart ∧ stop = v.vmEnd := by
        simpa [overlapsRange, matchesRange, over'] using here
      rw [if_pos over', if_pos same, tail, List.filter_cons_of_neg (by simp [overlapsRange, over'])]
    · rw [if_neg over', tail, List.filter_cons_of_pos (by simp [overlapsRange, over'])]

theorem munmapCuts {vmas : List Vma} {v : Vma} (member : v ∈ vmas)
    (over' : overlapsRange start stop v) (part : ¬ matchesRange start stop v) :
    (munmapFrom start stop vmas).1 = -EINVAL := by
  induction vmas with
  | nil => cases member
  | cons w rest ih =>
    have later : v ∈ rest → (munmapFrom start stop rest).1 = -EINVAL := ih
    unfold munmapFrom
    by_cases overW : start < w.vmEnd ∧ stop > w.vmStart
    · rw [if_pos overW]
      by_cases sameW : start = w.vmStart ∧ stop = w.vmEnd
      · rw [if_pos sameW]
        rcases List.mem_cons.mp member with rfl | behind
        · exact absurd (by simpa [matchesRange] using sameW) part
        · exact later behind
      · rw [if_neg sameW]
    · rw [if_neg overW]
      rcases List.mem_cons.mp member with rfl | behind
      · exact absurd (by simpa [overlapsRange] using over') overW
      · exact later behind

theorem munmapFirstCut {vmas : List Vma} {v : Vma}
    (first : vmas.find? (overlapsRange start stop) = some v) (part : ¬ matchesRange start stop v) :
    munmapFrom start stop vmas = (-EINVAL, vmas) := by
  induction vmas with
  | nil => cases first
  | cons w rest ih =>
    unfold munmapFrom
    by_cases overW : start < w.vmEnd ∧ stop > w.vmStart
    · rw [List.find?_cons_of_pos (by simp [overlapsRange, overW])] at first
      cases first
      rw [if_pos overW, if_neg (by simpa [matchesRange] using part)]
    · rw [List.find?_cons_of_neg (by simp [overlapsRange, overW])] at first
      rw [if_neg overW, ih first]

theorem munmapFirstGone {vmas : List Vma} {v : Vma}
    (first : vmas.find? (overlapsRange start stop) = some v) (same : matchesRange start stop v) :
    (munmapFrom start stop vmas).2.length < vmas.length := by
  induction vmas with
  | nil => cases first
  | cons w rest ih =>
    have less := (Regions.munmapFromSublist start stop rest).length_le
    unfold munmapFrom
    by_cases overW : start < w.vmEnd ∧ stop > w.vmStart
    · rw [List.find?_cons_of_pos (by simp [overlapsRange, overW])] at first
      cases first
      rw [if_pos overW, if_pos (by simpa [matchesRange] using same), List.length_cons]
      omega
    · rw [List.find?_cons_of_neg (by simp [overlapsRange, overW])] at first
      have shorter := ih first
      rw [if_neg overW]
      simp only [List.length_cons]
      omega

end Walk

/-! ## The call -/

theorem rangeStopSmall {addr length : Nat} (small : rangeStop addr length ≠ 2 ^ 32)
    (space : addr + length ≤ 2 ^ 32) :
    pageDown ((addr + length + 0xFFF) % 2 ^ 32) = rangeStop addr length := by
  rcases Nat.lt_or_ge (addr + length + 0xFFF) (2 ^ 32) with bound | high
  · rw [rangeStop, Nat.mod_eq_of_lt bound]
  · unfold rangeStop pageDown PAGE_SIZE at small
    omega

theorem rangeStopTop {addr length : Nat} (top : rangeStop addr length = 2 ^ 32) :
    pageDown ((addr + length + 0xFFF) % 2 ^ 32) = 0 := by
  have low : (addr + length + 0xFFF) % 2 ^ 32 < PAGE_SIZE := by
    unfold rangeStop pageDown PAGE_SIZE at top
    unfold PAGE_SIZE
    omega
  rw [pageDown, Nat.div_eq_of_lt low, Nat.zero_mul]

theorem spanInRange {addr length : Nat} (p : Pte) :
    inRange (pageDown addr) (rangeStop addr length) p = true ↔ InSpan addr length p.page := by
  unfold inRange InSpan
  rw [Regions.pageDownAligned (Regions.pageDownDvd addr)]
  simp

theorem spanOverlaps {addr length a : Nat} {v : Vma} (inside : InSpan addr length a)
    (within : Within a v) : overlapsRange (pageDown addr) (rangeStop addr length) v := by
  obtain ⟨low, high⟩ := inside
  obtain ⟨start, stop⟩ := within
  simp only [overlapsRange, decide_eq_true_eq]
  omega

theorem partOfSelf (v : Vma) : PartOf v v :=
  ⟨Nat.le_refl _, Nat.le_refl _, rfl, rfl, rfl, rfl, rfl, rfl⟩

theorem munmapWholeRight {s : Space} {addr length : Nat}
    (whole : ∀ v ∈ s.mm.vmaList, overlapsRange (pageDown addr) (rangeStop addr length) v →
      matchesRange (pageDown addr) (rangeStop addr length) v)
    (same : pageDown ((addr + length + 0xFFF) % 2 ^ 32) = rangeStop addr length) :
    UnmapsRange addr length s (munmapCall s addr length).1 (munmapCall s addr length).2 := by
  have walk := munmapWhole _ _ whole
  -- a region that the range overlaps has no address outside it, any other none inside
  have inside : ∀ v ∈ s.mm.vmaList, overlapsRange (pageDown addr) (rangeStop addr length) v →
      ∀ a, Within a v ↔ InSpan addr length a := by
    intro v member over' a
    have match' := whole v member over'
    simp only [matchesRange, decide_eq_true_eq] at match'
    unfold Within InSpan
    rw [← match'.1, ← match'.2]
  have list : (munmapCall s addr length).2.mm.vmaList = s.mm.vmaList.filter
      fun v => !overlapsRange (pageDown addr) (rangeStop addr length) v := by
    simp only [munmapCall, sysMunmap, same, walk]
  have kept : ∀ v, v ∈ (munmapCall s addr length).2.mm.vmaList ↔
      v ∈ s.mm.vmaList ∧ ¬ overlapsRange (pageDown addr) (rangeStop addr length) v := by
    intro v
    rw [list]
    simp
  have ret : (munmapCall s addr length).1 = 0 := by
    simp only [munmapCall, Regions.sysMunmap, same, walk]
  have ptes : ∀ p, p ∈ (munmapCall s addr length).2.mmu.ptes ↔ p ∈ s.mmu.ptes ∧
      ((munmapCall s addr length).2.mm.vmaList.length < s.mm.vmaList.length →
        ¬ InSpan addr length p.page) := by
    intro p
    rw [list, ← spanInRange]
    simp only [munmapCall, sysMunmap, same, walk]
    split <;> rename_i gone
    · simp [archMmUnmapUserRange, gone]
    · simp [gone]
  refine ⟨fun _ a => ?_, fun _ w member => ⟨w, ((kept w).mp member).1, partOfSelf w⟩,
    fun _ v member outside filled => ?_, fun _ p member => ?_, fun _ p member outside => ?_,
    fun failed => absurd ret failed⟩
  · constructor
    · rintro ⟨v, member, within⟩
      obtain ⟨old, apart⟩ := (kept v).mp member
      exact ⟨⟨v, old, within⟩, fun span => apart (spanOverlaps span within)⟩
    · rintro ⟨⟨v, old, within⟩, outside⟩
      exact ⟨v, (kept v).mpr ⟨old, fun over' => outside ((inside v old over' a).mp within)⟩, within⟩
  · refine (kept v).mpr ⟨member, fun over' => ?_⟩
    have first : Within v.vmStart v := ⟨Nat.le_refl _, filled⟩
    exact outside _ first ((inside v member over' _).mp first)
  · obtain ⟨old, gone⟩ := (ptes p).mp member
    refine ⟨old, fun span mapped => ?_⟩
    obtain ⟨v, memberV, within⟩ := mapped
    have fewer : v ∉ (munmapCall s addr length).2.mm.vmaList := fun still =>
      ((kept v).mp still).2 (spanOverlaps span within)
    refine gone (Nat.lt_of_le_of_ne ?_ fun long => ?_) span
    · rw [list]
      exact List.length_filter_le _ _
    · rw [list] at long fewer
      rw [List.filter_eq_self.mpr (List.length_filter_eq_length_iff.mp long)] at fewer
      exact fewer memberV
  · exact (ptes p).mpr ⟨member, fun _ => outside⟩

theorem munmapTopNothing (s : Space) {addr length : Nat} (top : rangeStop addr length = 2 ^ 32) :
    munmapCall s addr length = (0, s) := by
  have walk : munmapFrom (pageDown addr) 0 s.mm.vmaList = (0, s.mm.vmaList) := by
    rw [munmapWhole _ _ fun v _ over' => by simp [overlapsRange] at over']
    congr 1
    exact List.filter_eq_self.mpr fun v _ => by simp [overlapsRange]
  simp only [munmapCall, Regions.sysMunmap, sysMunmap, rangeStopTop top, walk, Nat.lt_irrefl,
    if_false]

theorem munmapTopRightIff (s : Space) {addr length : Nat} (top : rangeStop addr length = 2 ^ 32) :
    UnmapsRange addr length s (munmapCall s addr length).1 (munmapCall s addr length).2 ↔
      ∀ a, InSpan addr length a → ¬ Mapped s.mm.vmaList a := by
  rw [munmapTopNothing s top]
  constructor
  · intro right a span mapped
    exact ((right.addresses rfl a).mp mapped).2 span
  · intro free
    exact ⟨fun _ a => ⟨fun mapped => ⟨mapped, fun span => free a span mapped⟩, And.left⟩,
      fun _ w member => ⟨w, member, partOfSelf w⟩, fun _ v member _ _ => member,
      fun _ p member => ⟨member, free p.page⟩, fun _ p member _ => member, fun _ => rfl⟩

/-- The range is unmapped as it should be as long as its end is no 2^32 over mapped
addresses, and no region has gone when the walk meets one it would have to cut. -/
theorem munmapRightIff (s : Space) {addr length : Nat} (space : addr + length ≤ 2 ^ 32) :
    UnmapsRange addr length s (munmapCall s addr length).1 (munmapCall s addr length).2 ↔
      (rangeStop addr length = 2 ^ 32 → ∀ a, InSpan addr length a → ¬ Mapped s.mm.vmaList a) ∧
      ∀ v, s.mm.vmaList.find? (overlapsRange (pageDown addr) (rangeStop addr length)) = some v →
        matchesRange (pageDown addr) (rangeStop addr length) v → ∀ w ∈ s.mm.vmaList,
          overlapsRange (pageDown addr) (rangeStop addr length) w →
            matchesRange (pageDown addr) (rangeStop addr length) w := by
  by_cases top : rangeStop addr length = 2 ^ 32
  · rw [munmapTopRightIff s top]
    simp only [top, true_implies]
    refine ⟨fun free => ⟨free, fun v first match' => ?_⟩, And.left⟩
    -- a region that is the range has its first address in it
    have member := List.mem_of_find?_eq_some first
    have over' := List.find?_some first
    simp only [overlapsRange, matchesRange, decide_eq_true_eq] at over' match'
    have inside : InSpan addr length v.vmStart := ⟨by omega, by omega⟩
    exact absurd ⟨v, member, Nat.le_refl _, by omega⟩ (free _ inside)
  have same := rangeStopSmall top space
  simp only [top, false_implies, true_and]
  by_cases whole : ∀ v ∈ s.mm.vmaList, overlapsRange (pageDown addr) (rangeStop addr length) v →
      matchesRange (pageDown addr) (rangeStop addr length) v
  · exact iff_of_true (munmapWholeRight whole same) fun _ _ _ => whole
  simp only [not_forall] at whole
  obtain ⟨w, member, over', part⟩ := whole
  have failed : (munmapCall s addr length).1 ≠ 0 := by
    have cut := munmapCuts _ _ member over' part
    simp only [munmapCall, Regions.sysMunmap, same, cut]
    decide
  obtain ⟨v, first⟩ : ∃ v, s.mm.vmaList.find?
      (overlapsRange (pageDown addr) (rangeStop addr length)) = some v := by
    rw [← Option.isSome_iff_exists, List.find?_isSome]
    exact ⟨w, member, over'⟩
  constructor
  · intro right u firstU matchU
    have shorter := munmapFirstGone _ _ firstU matchU
    have unchanged := congrArg (fun t => t.mm.vmaList.length) (right.refused failed)
    simp only [munmapCall, sysMunmap, same] at unchanged
    omega
  · intro careful
    have partV : ¬ matchesRange (pageDown addr) (rangeStop addr length) v :=
      fun match' => part (careful v first match' w member over')
    have walk := munmapFirstCut _ _ first partV
    have unchanged : (munmapCall s addr length).2 = s := by
      simp only [munmapCall, sysMunmap, same, walk, Nat.lt_irrefl, if_false]
    exact ⟨fun zero => absurd zero failed, fun zero => absurd zero failed,
      fun zero => absurd zero failed, fun zero => absurd zero failed,
      fun zero => absurd zero failed, fun _ => unchanged⟩

def mappedTwo : Space :=
  ⟨{Regions.mmInit with vmaList :=
      [⟨0x40000000, 0x40002000, ⟨true, true, false, false, false, false⟩, .mmap, -1, 0, false, 0⟩]},
    ⟨[⟨0x40000000, 3, 7⟩], []⟩, ⟨16, [3]⟩⟩

theorem mappedTwoUnmap :
    UnmapsRange 0x40000000 0x1800 mappedTwo (munmapCall mappedTwo 0x40000000 0x1800).1
      (munmapCall mappedTwo 0x40000000 0x1800).2 := by
  refine (munmapRightIff mappedTwo (by decide)).mpr ⟨fun top => absurd top (by decide),
    fun v first match' w member over' => ?_⟩
  cases List.mem_singleton.mp member
  decide

/-- munmap of everything from the region to the end of the address space says 0 and
removes nothing. -/
theorem unmapToTop :
    ¬ ∀ (s : Space) (addr length : Nat), PAGE_SIZE ∣ addr → PAGE_SIZE ∣ length →
      addr + length ≤ 2 ^ 32 →
      UnmapsRange addr length s (munmapCall s addr length).1 (munmapCall s addr length).2 := by
  intro claimed
  have right := claimed mappedTwo 0x40000000 0xC0000000 (by decide) (by decide) (by decide)
  rw [munmapTopRightIff mappedTwo (by decide)] at right
  exact right 0x40000000 ⟨by decide, by decide⟩ ⟨_, List.mem_cons_self, by decide, by decide⟩

end Scepter.UserSpace
