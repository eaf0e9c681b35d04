import Scepter.Mm.Regions

/-! When vma_find_free_region (mm/vma.c) finds room. It goes up page by page from the
hint and never comes back to what lies below, and a length that wraps around behind the
hint ends in front of it. -/
namespace Scepter.Regions
open Mm (PAGE_SIZE)

def FreeAt (vmas : List Vma) (length a : Nat) : Prop :=
  ∀ v ∈ vmas, ∀ x, a ≤ x → x < a + length → ¬ (v.vmStart ≤ x ∧ x < v.vmEnd)

def RoomFrom (vmas : List Vma) (length low : Nat) : Prop :=
  ∃ a, low ≤ a ∧ a + length ≤ MMAP_END ∧ FreeAt vmas length a

structure FindsRoom (vmas : List Vma) (length c : Nat) : Prop where
  inside : c ≠ 0 → MMAP_BASE ≤ c ∧ c + length ≤ MMAP_END ∧ FreeAt vmas length c
  none : c = 0 → ¬ RoomFrom vmas length MMAP_BASE

/- A page behind the hint whose range wraps to an end in the area, and the regions that
the code's test finds to overlap it. -/
def WrapBlocked (vmas : List Vma) (length low : Nat) : Prop :=
  ∀ a, PAGE_SIZE ∣ a → low ≤ a → a + length ≤ 2 ^ 32 + MMAP_END →
    vmaOverlaps vmas a (a + length - 2 ^ 32) = true

variable {vmas : List Vma} {length : Nat}

/-! ## Places -/

theorem overlapsFree {brkStart : Nat} (good : Good brkStart vmas) (some' : 0 < length) (a : Nat) :
    vmaOverlaps vmas a (a + length) = false ↔ FreeAt vmas length a := by
  unfold vmaOverlaps FreeAt
  rw [List.any_eq_false]
  constructor
  · intro apart v member x low high inside
    have test := apart v member
    simp only [Bool.and_eq_true, decide_eq_true_eq] at test
    omega
  · intro free v member
    have filled := (good.shaped v member).filled
    simp only [Bool.and_eq_true, decide_eq_true_eq]
    rintro ⟨before, behind⟩
    -- the later of the two starts is in both
    rcases Nat.le_total a v.vmStart with order | order
    · exact free v member v.vmStart order (by omega) ⟨Nat.le_refl _, filled⟩
    · exact free v member a (Nat.le_refl _) (by omega) ⟨order, before⟩

theorem roomOnPage {brkStart low : Nat} (good : Good brkStart vmas) (aligned : PAGE_SIZE ∣ low)
    (room : RoomFrom vmas length low) :
    ∃ a, PAGE_SIZE ∣ a ∧ low ≤ a ∧ a + length ≤ MMAP_END ∧ FreeAt vmas length a := by
  obtain ⟨a, above, below, free⟩ := room
  refine ⟨pageDown a, pageDownDvd a, ?_, Nat.le_trans (Nat.add_le_add_right (pageDownLe a) _) below,
    ?_⟩
  · unfold pageDown PAGE_SIZE at *
    omega
  · intro v member x low' high inside
    obtain ⟨start, stop⟩ := (good.shaped v member).aligned
    have filled := (good.shaped v member).filled
    -- the region has an address in common with the place itself
    by_cases early : x < a
    · refine free v member a (Nat.le_refl _) (by omega) ⟨by omega, ?_⟩
      unfold pageDown PAGE_SIZE at *
      omega
    · exact free v member x (by omega) (by have := pageDownLe a; omega) inside

theorem hintPage {hint : Nat} (word : hint < 2 ^ 32) : searchStart hint ≤ MMAP_END := by
  unfold searchStart
  split
  · decide
  · split <;> rename_i outside hinted
    · have inside : hint < MMAP_END := by
        by_contra high
        exact outside ⟨hinted, .inr (by omega)⟩
      refine pageUpLe ?_ (by decide) (Nat.le_of_lt inside)
      simp only [MMAP_END, PAGE_SIZE] at *
      omega
    · decide

/-! ## The search -/

theorem searchFromNone {fuel c : Nat} (aligned : PAGE_SIZE ∣ c) (real : c ≠ 0)
    (small : c + length < 2 ^ 32) (enough : MMAP_END < c + fuel * PAGE_SIZE)
    (none : searchFrom vmas length fuel c = 0) {a : Nat} (page : PAGE_SIZE ∣ a) (above : c ≤ a)
    (fits : a + length ≤ MMAP_END) : vmaOverlaps vmas a (a + length) = true := by
  induction fuel generalizing c with
  | zero => omega
  | succ fuel ih =>
    unfold searchFrom at none
    dsimp only at none
    rw [Nat.mod_eq_of_lt small] at none
    rw [if_pos (by omega)] at none
    split at none <;> rename_i taken
    · have next : c + PAGE_SIZE + length < 2 ^ 32 := by
        simp only [MMAP_END, PAGE_SIZE] at *
        omega
      rw [Nat.mod_eq_of_lt (by omega)] at none
      rcases Nat.eq_or_lt_of_le above with rfl | later
      · exact taken
      · refine ih (Nat.dvd_add aligned (Nat.dvd_refl _)) (by omega) next ?_ none ?_
        · rw [Nat.succ_mul] at enough
          omega
        · unfold PAGE_SIZE at *
          omega
    · exact absurd none real

/- With a wrap, the search stops at the first page whose wrapped range no region
overlaps, unless its end has left the area before. No region reaches the top of user
space, so it gets no further than that. -/
theorem searchFromWraps {fuel c : Nat} (aligned : PAGE_SIZE ∣ c) (wraps : 2 ^ 32 ≤ c + length)
    (word : length < 2 ^ 32) (low : c ≤ USER_STACK_TOP)
    (tops : ∀ v ∈ vmas, v.vmEnd ≤ USER_STACK_TOP) (enough : USER_STACK_TOP < c + fuel * PAGE_SIZE) :
    searchFrom vmas length fuel c = 0 ∧ WrapBlocked vmas length c ∨
      ∃ a, searchFrom vmas length fuel c = a ∧ PAGE_SIZE ∣ a ∧ c ≤ a ∧
        a + length ≤ 2 ^ 32 + MMAP_END ∧ vmaOverlaps vmas a (a + length - 2 ^ 32) = false := by
  induction fuel generalizing c with
  | zero => omega
  | succ fuel ih =>
    have stop : (c + length) % 2 ^ 32 = c + length - 2 ^ 32 := by
      simp only [USER_STACK_TOP] at low
      omega
    unfold searchFrom
    dsimp only
    rw [stop]
    split <;> rename_i inside
    · split <;> rename_i taken
      · -- a region that overlaps ends behind the candidate
        obtain ⟨v, member, test⟩ := List.any_eq_true.mp taken
        simp only [Bool.and_eq_true, decide_eq_true_eq] at test
        have top := tops v member
        have next : c + PAGE_SIZE ≤ USER_STACK_TOP := by
          have page : PAGE_SIZE ∣ USER_STACK_TOP := by decide
          unfold PAGE_SIZE at *
          omega
        have small : (c + PAGE_SIZE) % 2 ^ 32 = c + PAGE_SIZE := by
          refine Nat.mod_eq_of_lt ?_
          simp only [USER_STACK_TOP] at next
          omega
        rw [small]
        rcases ih (Nat.dvd_add aligned (Nat.dvd_refl _)) (by omega) next
          (by rw [Nat.succ_mul] at enough; omega) with ⟨none, blocked⟩ | ⟨a, found, page, above, rest⟩
        · refine .inl ⟨none, fun a page above fits => ?_⟩
          rcases Nat.eq_or_lt_of_le above with rfl | later
          · exact taken
          · refine blocked a page ?_ fits
            unfold PAGE_SIZE at *
            omega
        · exact .inr ⟨a, found, page, by omega, rest⟩
      · exact .inr ⟨c, rfl, aligned, Nat.le_refl _, by omega, by simpa using taken⟩
    · exact .inl ⟨rfl, fun a _ above fits => by omega⟩

/-! ## Finding room -/

theorem lengthRounded (rounded : PAGE_SIZE ∣ length) (small : length < 2 ^ 32) :
    pageUp 32 length = length := by
  refine pageUpAligned ?_ rounded
  unfold PAGE_SIZE at *
  omega

section Search

variable {brkStart hint : Nat} (good : Good brkStart vmas) (word : hint < 2 ^ 32)
  (rounded : PAGE_SIZE ∣ length) (some' : 0 < length) (small : length < 2 ^ 32)
include good word rounded some' small

theorem findsAboveIff (fits : searchStart hint + length < 2 ^ 32) :
    FindsRoom vmas length (vmaFindFreeRegion vmas length hint) ↔
      (RoomFrom vmas length MMAP_BASE → RoomFrom vmas length (searchStart hint)) := by
  obtain ⟨page, area⟩ := searchStartArea word
  have same : pageUp 32 length = length := lengthRounded rounded small
  have inside : ∀ c, vmaFindFreeRegion vmas length hint = c → c ≠ 0 →
      searchStart hint ≤ c ∧ c + length ≤ MMAP_END ∧ FreeAt vmas length c := by
    intro c found real
    unfold vmaFindFreeRegion at found
    rw [same] at found
    obtain ⟨-, low, high, free⟩ := searchFromFree page fits found real
    exact ⟨low, high, (overlapsFree good some' c).mp free⟩
  constructor
  · intro finds room
    by_cases none : vmaFindFreeRegion vmas length hint = 0
    · exact absurd room (finds.none none)
    · exact ⟨_, inside _ rfl none⟩
  · intro above
    refine ⟨fun real => ?_, fun none room => ?_⟩
    · obtain ⟨low, high, free⟩ := inside _ rfl real
      exact ⟨Nat.le_trans area low, high, free⟩
    · obtain ⟨a, pageA, low, high, free⟩ := roomOnPage good page (above room)
      unfold vmaFindFreeRegion at none
      rw [same] at none
      have real : searchStart hint ≠ 0 := by
        simp only [MMAP_BASE] at area
        omega
      have taken := searchFromNone page real fits (by simp only [MMAP_END, PAGE_SIZE]; omega) none
        pageA low high
      rw [(overlapsFree good some' a).mpr free] at taken
      cases taken

theorem findsWrappedIff (wraps : 2 ^ 32 ≤ searchStart hint + length) :
    FindsRoom vmas length (vmaFindFreeRegion vmas length hint) ↔
      WrapBlocked vmas length (searchStart hint) := by
  obtain ⟨page, area⟩ := searchStartArea word
  have same : pageUp 32 length = length := lengthRounded rounded small
  have order := layout
  have hinted := hintPage word
  have low : searchStart hint ≤ USER_STACK_TOP := by omega
  have tops : ∀ v ∈ vmas, v.vmEnd ≤ USER_STACK_TOP := fun v member =>
    shapedTop (good.shaped v member)
  have search := @searchFromWraps vmas length (2 ^ 20) _ page wraps small low tops
    (by simp only [USER_STACK_TOP, PAGE_SIZE]; omega)
  unfold vmaFindFreeRegion
  rw [same]
  constructor
  · intro finds
    rcases search with ⟨-, blocked⟩ | ⟨a, found, -, above, -, -⟩
    · exact blocked
    · have real : a ≠ 0 := by
        simp only [MMAP_BASE] at area
        omega
      have fits := (finds.inside (found ▸ real)).2.1
      rw [found] at fits
      simp only [MMAP_END] at fits
      omega
  · intro blocked
    have none : searchFrom vmas length (2 ^ 20) (searchStart hint) = 0 := by
      rcases search with ⟨none, -⟩ | ⟨a, -, pageA, above, fits, free⟩
      · exact none
      · rw [blocked a pageA above fits] at free
        cases free
    refine ⟨fun real => absurd none real, fun _ room => ?_⟩
    obtain ⟨a, base, fits, -⟩ := room
    -- no region reaches the top of user space, so the length is more than the area
    have long : ¬ USER_STACK_TOP + length ≤ 2 ^ 32 + MMAP_END := by
      intro short
      obtain ⟨v, member, test⟩ := List.any_eq_true.mp (blocked _ (by decide) low short)
      simp only [Bool.and_eq_true, decide_eq_true_eq] at test
      have top := tops v member
      omega
    simp only [USER_STACK_TOP, MMAP_BASE, MMAP_END] at long base fits
    omega

end Search

theorem noRegionsGood : Good USER_HEAP_START [] :=
  ⟨by decide, .nil, .nil, fun _ member => absurd member List.not_mem_nil⟩

end Scepter.Regions
