import Scepter.Mm.Regions
import Scepter.Mm.UserSpace

/-! The frames in use are those of the present pages of the process, those of its
page tables and those of others, in every run that unmaps no page it has touched and
tears down only what its regions cover. -/
namespace Scepter.UserSpace
open Mm (Arch PAGE_SIZE i386 x86_64)
open Regions (Vma MmStruct pageDown covers)

/-! ## What should hold -/

def Accounted (others : List Nat) (s : Space) : Prop :=
  s.frames.used.Perm (s.mmu.ptes.map Pte.frame ++ s.mmu.tables.map Table.frame ++ others)

structure FramesRight (others : List Nat) (s : State) : Prop where
  count : s.space.frames.used.length =
    s.space.mmu.ptes.length + s.space.mmu.tables.length + others.length
  given : s.exited = true → s.space.frames.used.Perm others

/-! ## When nothing goes wrong -/

def Covered (s : Space) : Prop :=
  ∀ p ∈ s.mmu.ptes, ∃ v ∈ s.mm.vmaList, inRange v.vmStart v.vmEnd p = true
instance (s) : Decidable (Covered s) := by unfold Covered; infer_instance

def StackMaps (arch : Arch) (supply : Supply) (file : Regions.File) (s : Space) : Prop :=
  let s := tearDown s
  let (_, mmu, fr) := loadPages arch (imagePages arch file) supply.readable s.mmu s.frames
  match fr.alloc 2 with
  | none => True
  | some (frame, fr) =>
    let base := Regions.USER_STACK_TOP - 2 * PAGE_SIZE
    let (first, mmu, fr) := archMmMapUser arch mmu fr base frame 7
    first = true ∧ (archMmMapUser arch mmu fr (base + PAGE_SIZE) (frame + 1) 7).1 = true
instance (arch supply file s) : Decidable (StackMaps arch supply file s) := by
  unfold StackMaps
  dsimp only
  split <;> infer_instance

def unmaps (vmas : List Vma) (start stop : Nat) : Prop :=
  (Regions.munmapFrom start stop vmas).2.length < vmas.length
instance (vmas start stop) : Decidable (unmaps vmas start stop) := by
  unfold unmaps
  infer_instance

def Clean (arch : Arch) (s : State) : Action → Prop
  | .munmap addr length =>
    let start := pageDown addr
    let stop := pageDown ((addr + length + 0xFFF) % 2 ^ 32)
    unmaps s.space.mm.vmaList start stop → ∀ p ∈ s.space.mmu.ptes, inRange start stop p = false
  | .fault addr write => (pageFaultHandler arch s.space addr write).1 = false → Covered s.space
  | .exec supply (some file) => Covered s.space ∧ StackMaps arch supply file s.space
  | .exit => Covered s.space
  | _ => True
instance (arch s a) : Decidable (Clean arch s a) := by
  unfold Clean
  split <;> infer_instance

/-! ## The balance of the allocator -/

def Balanced (rest : List Nat) (mmu : Mmu) (fr : Frames) : Prop :=
  ∀ f, fr.used.count f = (mmu.ptes.map Pte.frame).count f + (mmu.tables.map Table.frame).count f +
    rest.count f

theorem balancedAccounted {others : List Nat} {s : Space} :
    Accounted others s ↔ Balanced others s.mmu s.frames := by
  unfold Accounted Balanced
  rw [List.perm_iff_count]
  simp only [List.count_append]

variable {arch : Arch} {rest : List Nat} {mmu : Mmu} {fr : Frames}

theorem allocUsed {count frame : Nat} {fr' : Frames} (got : fr.alloc count = some (frame, fr')) :
    fr'.used = List.range' frame count ++ fr.used := by
  obtain ⟨i, _, same⟩ := Option.map_eq_some_iff.mp got
  cases same
  rfl

theorem allocBalanced {count frame : Nat} {fr' : Frames} (balanced : Balanced rest mmu fr)
    (got : fr.alloc count = some (frame, fr')) :
    Balanced (List.range' frame count ++ rest) mmu fr' := by
  intro f
  rw [allocUsed got, List.count_append, List.count_append, balanced f]
  omega

theorem freeBalanced {frame : Nat} (balanced : Balanced (frame :: rest) mmu fr) :
    Balanced rest mmu (fr.free frame) := by
  intro f
  have before := balanced f
  unfold Frames.free
  rw [List.count_cons] at before
  rw [List.count_erase, before]
  omega

theorem freeAllBalanced {frames : List Nat} (balanced : Balanced (frames ++ rest) mmu fr) :
    Balanced rest mmu (freeAll fr frames) := by
  unfold freeAll
  induction frames generalizing fr with
  | nil => exact balanced
  | cons frame frames ih => exact ih (freeBalanced balanced)

theorem countFilter {α : Type} (frame : α → Nat) (p : α → Bool) (l : List α) (f : Nat) :
    ((l.filter p).map frame).count f + ((l.filter fun a => !p a).map frame).count f =
      (l.map frame).count f := by
  induction l with
  | nil => rfl
  | cons a l ih =>
    cases holds : p a <;>
      simp only [holds, List.filter_cons, Bool.not_true, Bool.not_false, if_true,
        Bool.false_eq_true, if_false, List.map_cons, List.count_cons] <;> omega

theorem freeUserPagesBalanced (balanced : Balanced rest mmu fr) (start stop : Nat) :
    Balanced rest (archMmFreeUserPages mmu fr start stop).1
      (archMmFreeUserPages mmu fr start stop).2 := by
  refine freeAllBalanced fun f => ?_
  have split := countFilter Pte.frame (inRange start stop) mmu.ptes f
  have before := balanced f
  rw [List.count_append]
  dsimp only [archMmFreeUserPages]
  omega

theorem freeUserTablesBalanced (balanced : Balanced rest mmu fr) (empty : mmu.ptes = []) :
    Balanced rest (archMmFreeUserTables mmu fr).1 (archMmFreeUserTables mmu fr).2 := by
  refine freeAllBalanced fun f => ?_
  have split := countFilter Table.frame isRoot mmu.tables f
  have before := balanced f
  rw [empty] at before
  rw [List.count_append]
  dsimp only [archMmFreeUserTables]
  omega

theorem freePgdBalanced (balanced : Balanced rest mmu fr) :
    Balanced rest (archMmFreePgd mmu fr).1 (archMmFreePgd mmu fr).2 := by
  refine freeAllBalanced fun f => ?_
  have split := countFilter Table.frame isRoot mmu.tables f
  have before := balanced f
  rw [List.count_append]
  dsimp only [archMmFreePgd]
  omega

theorem ensureTablesBalanced {ids : List (Nat × Nat)} (balanced : Balanced rest mmu fr) :
    Balanced rest (ensureTables ids mmu fr).2.1 (ensureTables ids mmu fr).2.2 ∧
      (ensureTables ids mmu fr).2.1.ptes = mmu.ptes := by
  induction ids generalizing mmu fr with
  | nil => exact ⟨balanced, rfl⟩
  | cons id ids ih =>
    obtain ⟨level, index⟩ := id
    unfold ensureTables
    split
    · exact ih balanced
    · split <;> rename_i got
      · exact ⟨balanced, rfl⟩
      · rename_i frame fr'
        have taken := allocBalanced balanced got
        refine @ih {mmu with tables := ⟨level, index, frame⟩ :: mmu.tables} fr' fun f => ?_
        have after := taken f
        rw [List.count_append, List.range'_one, List.count_singleton] at after
        rw [List.map_cons, List.count_cons, after]
        dsimp only
        omega

theorem mapUserFails {vaddr frame flags : Nat} (balanced : Balanced rest mmu fr)
    (fails : (archMmMapUser arch mmu fr vaddr frame flags).1 = false) :
    Balanced rest (archMmMapUser arch mmu fr vaddr frame flags).2.1
        (archMmMapUser arch mmu fr vaddr frame flags).2.2 ∧
      (archMmMapUser arch mmu fr vaddr frame flags).2.1.ptes = mmu.ptes := by
  have ensured := @ensureTablesBalanced rest mmu fr (tablesTo arch vaddr) balanced
  unfold archMmMapUser at fails ⊢
  split
  · exact ⟨balanced, rfl⟩
  · rename_i inside
    rw [if_neg inside] at fails
    split <;> rename_i made
    · rw [made] at ensured
      exact ensured
    · rw [made] at fails
      cases fails

theorem mapUserMaps {vaddr frame flags : Nat} (balanced : Balanced (frame :: rest) mmu fr)
    (absent : ∀ p ∈ mmu.ptes, p.page ≠ pageDown vaddr)
    (maps : (archMmMapUser arch mmu fr vaddr frame flags).1 = true) :
    Balanced rest (archMmMapUser arch mmu fr vaddr frame flags).2.1
        (archMmMapUser arch mmu fr vaddr frame flags).2.2 ∧
      (archMmMapUser arch mmu fr vaddr frame flags).2.1.ptes =
        ⟨pageDown vaddr, frame, flags⟩ :: mmu.ptes := by
  have ensured := @ensureTablesBalanced (frame :: rest) mmu fr (tablesTo arch vaddr) balanced
  unfold archMmMapUser at maps ⊢
  split
  · rename_i outside
    rw [if_pos outside] at maps
    cases maps
  · rename_i inside
    rw [if_neg inside] at maps
    split <;> rename_i made
    · rw [made] at maps
      cases maps
    · rename_i mmu' fr'
      rw [made] at ensured
      obtain ⟨after, same⟩ := ensured
      dsimp only at after same ⊢
      have all : mmu'.ptes.filter (fun p => p.page ≠ pageDown vaddr) = mmu.ptes := by
        rw [same]
        exact List.filter_eq_self.mpr fun p member => decide_eq_true (absent p member)
      rw [all]
      refine ⟨fun f => ?_, rfl⟩
      have sum := after f
      rw [same, List.count_cons] at sum
      rw [sum, List.map_cons, List.count_cons]
      dsimp only
      omega

theorem allocatePageBalanced {vaddr flags : Nat} (balanced : Balanced rest mmu fr)
    (absent : ∀ p ∈ mmu.ptes, p.page ≠ pageDown vaddr) :
    let after := allocatePage arch mmu fr vaddr flags
    Balanced rest after.2.1 after.2.2 ∧ (∀ p ∈ after.2.1.ptes, p ∈ mmu.ptes ∨
      after.1 = true ∧ p.page = pageDown vaddr) := by
  intro after
  unfold after allocatePage
  split <;> rename_i got
  · exact ⟨balanced, fun p member => Or.inl member⟩
  · rename_i frame fr'
    have taken : Balanced (frame :: rest) mmu fr' := allocBalanced balanced got
    cases mapped : (archMmMapUser arch mmu fr' vaddr frame flags).1 with
    | false =>
      obtain ⟨still, same⟩ := mapUserFails taken mapped
      split <;> rename_i result
      · rw [result] at still same
        exact ⟨freeBalanced still, fun p member => Or.inl (same ▸ member)⟩
      · rw [result] at mapped
        cases mapped
    | true =>
      obtain ⟨still, new⟩ := mapUserMaps taken absent mapped
      split <;> rename_i result
      · rw [result] at mapped
        cases mapped
      · rw [result] at still new
        refine ⟨still, fun p member => ?_⟩
        dsimp only at new member
        rw [new] at member
        rcases List.mem_cons.mp member with rfl | old
        · exact Or.inr ⟨rfl, rfl⟩
        · exact Or.inl old

/-! ## Teardown -/

theorem freeRegions (vmas : List Vma) (balanced : Balanced rest mmu fr) :
    let after := vmas.foldl
      (fun (mmu, fr) v => archMmFreeUserPages mmu fr v.vmStart v.vmEnd) (mmu, fr)
    Balanced rest after.1 after.2 ∧ ∀ p ∈ after.1.ptes,
      p ∈ mmu.ptes ∧ ∀ v ∈ vmas, inRange v.vmStart v.vmEnd p = false := by
  induction vmas generalizing mmu fr with
  | nil => exact ⟨balanced, fun p member => ⟨member, fun v absurd' => nomatch absurd'⟩⟩
  | cons v vmas ih =>
    obtain ⟨still, fewer⟩ := ih (freeUserPagesBalanced balanced v.vmStart v.vmEnd)
    refine ⟨still, fun p member => ?_⟩
    obtain ⟨left, out⟩ := fewer p member
    obtain ⟨inside, outside⟩ := List.mem_filter.mp left
    refine ⟨inside, fun w other => ?_⟩
    rcases List.mem_cons.mp other with rfl | later
    · simpa using outside
    · exact out w later

theorem tearDownBalanced {s : Space} (balanced : Balanced rest s.mmu s.frames)
    (covered : Covered s) :
    Balanced rest (tearDown s).mmu (tearDown s).frames ∧ (tearDown s).mmu.ptes = [] := by
  obtain ⟨still, left⟩ := freeRegions s.mm.vmaList balanced
  unfold tearDown
  refine ⟨freeUserTablesBalanced still ?_, rfl⟩
  refine List.eq_nil_iff_forall_not_mem.mpr fun p member => ?_
  obtain ⟨inside, out⟩ := left p member
  obtain ⟨v, region, within⟩ := covered p inside
  exact absurd within (by rw [out v region]; exact Bool.false_ne_true)

theorem doExitBalanced {s : Space} (balanced : Balanced rest s.mmu s.frames)
    (covered : Covered s) : Balanced rest (doExit s).mmu (doExit s).frames ∧
      (doExit s).mmu.ptes = [] ∧ (doExit s).mmu.tables = [] := by
  obtain ⟨still, none⟩ := tearDownBalanced balanced covered
  refine ⟨freePgdBalanced still, none, ?_⟩
  unfold doExit tearDown archMmFreePgd archMmFreeUserTables
  dsimp only
  rw [List.filter_filter]
  refine List.filter_eq_nil_iff.mpr fun t _ both => ?_
  simp at both

end Scepter.UserSpace
