import Scepter.Mm.FrameCount

/-! Runs of a process over the page allocator: each call keeps the balance unless it
unmaps a page it has touched, ends with pages outside its regions or loses the pages
of a new stack. -/
namespace Scepter.UserSpace
open Mm (Arch PAGE_SIZE i386 x86_64)
open Regions (Vma MmStruct pageDown covers grows)

variable {arch : Arch} {rest others : List Nat} {mmu : Mmu} {fr : Frames}

/-! ## munmap and faults -/

theorem munmapBalanced {s : Space} (balanced : Balanced rest s.mmu s.frames) {addr length : Nat}
    (untouched : Clean arch ⟨s, false⟩ (.munmap addr length)) :
    Balanced rest (sysMunmap s addr length).mmu (sysMunmap s addr length).frames := by
  unfold sysMunmap
  dsimp only
  split <;> rename_i gone
  · have all : archMmUnmapUserRange s.mmu (pageDown addr)
        (pageDown ((addr + length + 0xFFF) % 2 ^ 32)) = s.mmu := by
      unfold archMmUnmapUserRange
      rw [List.filter_eq_self.mpr fun p member => by rw [untouched gone p member]; rfl]
    rw [all]
    exact balanced
  · exact balanced

theorem notPresent {addr : Nat} (absent : archMmUserPresent mmu addr = false) :
    ∀ p ∈ mmu.ptes, p.page ≠ pageDown addr := by
  intro p member same
  exact Bool.false_ne_true (absent.symm.trans
    (List.any_eq_true.mpr ⟨p, member, decide_eq_true same⟩))

theorem pageDownTwice (addr : Nat) : pageDown (pageDown addr) = pageDown addr :=
  Regions.pageDownAligned (Regions.pageDownDvd addr)

theorem growCovers {vmas : List Vma} {addr : Nat} {p : Pte}
    (old : ∃ v ∈ vmas, inRange v.vmStart v.vmEnd p = true) :
    ∃ v ∈ Keyed.update (covers addr)
        (fun v => if grows v addr then {v with vmStart := pageDown addr} else v) vmas,
      inRange v.vmStart v.vmEnd p = true := by
  obtain ⟨v, member, within⟩ := old
  induction vmas with
  | nil => cases member
  | cons w vmas ih =>
    unfold Keyed.update
    rcases List.mem_cons.mp member with rfl | later
    · split
      · refine ⟨_, List.mem_cons_self, ?_⟩
        split <;> rename_i below
        · unfold inRange at within ⊢
          unfold grows at below
          rw [Bool.and_eq_true, decide_eq_true_eq] at within below
          rw [Bool.and_eq_true, decide_eq_true_eq]
          have lower : pageDown (pageDown addr) ≤ pageDown v.vmStart := by
            rw [pageDownTwice]
            exact Nat.mul_le_mul_right _ (Nat.div_le_div_right (Nat.le_of_lt below.2))
          exact ⟨Nat.le_trans lower within.1, within.2⟩
        · exact within
      · exact ⟨v, List.mem_cons_self, within⟩
    · split
      · exact ⟨v, List.mem_cons_of_mem _ later, within⟩
      · obtain ⟨u, inside, holds⟩ := ih later
        exact ⟨u, List.mem_cons_of_mem _ inside, holds⟩

theorem faultBalanced {s : Space} (balanced : Balanced rest s.mmu s.frames) (addr : Nat)
    (write : Bool) :
    let after := pageFaultHandler arch s addr write
    Balanced rest after.2.mmu after.2.frames ∧
      (after.1 = false → Covered s → Covered after.2) := by
  intro after
  unfold after pageFaultHandler
  split
  · exact ⟨balanced, fun _ covered => covered⟩
  · split
    · exact ⟨balanced, fun _ covered => covered⟩
    · dsimp only
      split <;> rename_i refused
      · exact ⟨balanced, fun _ covered p member => growCovers (covered p member)⟩
      · rw [Bool.or_eq_true, not_or, Bool.not_eq_true, Bool.not_eq_true] at refused
        have absent := notPresent refused.2
        rw [← pageDownTwice] at absent
        rename_i v _ _
        obtain ⟨still, ptes⟩ := @allocatePageBalanced arch rest s.mmu s.frames (pageDown addr)
          (vmaFlagsToPte v) balanced absent
        refine ⟨still, fun failed covered p member => growCovers (covered p ?_)⟩
        rcases ptes p member with old | ⟨made, _⟩
        · exact old
        · cases failed.symm.trans made

/-! ## The pages of an image -/

structure Loadable (pages : List (Nat × Nat)) : Prop where
  distinct : (pages.map Prod.fst).Nodup
  aligned : ∀ a ∈ pages, pageDown a.1 = a.1
  below : ∀ a ∈ pages, a.1 < Regions.STACK_START

structure Ordered (regions : List (Nat × Nat)) : Prop where
  apart : regions.Pairwise fun later earlier => earlier.2 < later.1
  aligned : ∀ r ∈ regions, PAGE_SIZE ∣ r.1
  below : ∀ r ∈ regions, r.2 ≤ Regions.STACK_START

theorem memPagesBetween {lo hi a : Nat} (member : a ∈ pagesBetween lo hi) :
    ∃ k, a = lo + PAGE_SIZE * k ∧ a < hi := by
  obtain ⟨k, below, same⟩ := List.mem_range'.mp member
  refine ⟨k, same, ?_⟩
  unfold PAGE_SIZE at below same
  omega

theorem pagesBetweenNodup (lo hi : Nat) : (pagesBetween lo hi).Nodup :=
  List.nodup_range' PAGE_SIZE (by decide)

theorem mergeRegionOrdered {regions : List (Nat × Nat)} (ordered : Ordered regions)
    (built : arch.Built) {seg : Regions.Seg} (later : ∀ r ∈ regions, r.1 ≤ pageDown seg.vaddr)
    (low : seg.stop arch ≤ Regions.STACK_START) :
    Ordered (Regions.mergeRegion arch regions seg) ∧
      ∀ r ∈ Regions.mergeRegion arch regions seg, r.1 ≤ pageDown seg.vaddr := by
  have order := Regions.layout
  have hi : Regions.pageUp arch.wordBits (seg.stop arch) ≤ Regions.STACK_START :=
    Regions.pageUpLe (Regions.wordRoom built (by omega)) (by decide) low
  have start : PAGE_SIZE ∣ pageDown seg.vaddr := Regions.pageDownDvd _
  unfold Regions.mergeRegion
  dsimp only
  split
  · refine ⟨⟨List.pairwise_singleton _ _, fun r member => ?_, fun r member => ?_⟩,
      fun r member => ?_⟩ <;> rw [List.mem_singleton.mp member]
    · exact start
    · exact hi
  · rename_i first last rest'
    obtain ⟨apart, aligned, below⟩ := ordered
    obtain ⟨head, tail⟩ := List.pairwise_cons.mp apart
    have bottom := aligned (first, last) List.mem_cons_self
    have top := below (first, last) List.mem_cons_self
    have before := later (first, last) List.mem_cons_self
    split <;> rename_i touches
    · refine ⟨⟨List.pairwise_cons.mpr ⟨head, tail⟩, fun r member => ?_, fun r member => ?_⟩,
        fun r member => ?_⟩
      · rcases List.mem_cons.mp member with rfl | old
        · exact bottom
        · exact aligned r (List.mem_cons_of_mem _ old)
      · rcases List.mem_cons.mp member with rfl | old
        · dsimp only
          split
          · exact hi
          · exact top
        · exact below r (List.mem_cons_of_mem _ old)
      · rcases List.mem_cons.mp member with rfl | old
        · exact before
        · exact later r (List.mem_cons_of_mem _ old)
    · refine ⟨⟨List.pairwise_cons.mpr ⟨fun r old => ?_, apart⟩, ?_, ?_⟩, ?_⟩
      · rcases List.mem_cons.mp old with rfl | older
        · dsimp only
          omega
        · have under := head r older
          dsimp only at under before ⊢
          omega
      · exact List.forall_mem_cons.mpr ⟨start, aligned⟩
      · exact List.forall_mem_cons.mpr ⟨hi, below⟩
      · exact List.forall_mem_cons.mpr ⟨Nat.le_refl _, later⟩

theorem regionsOrdered (built : arch.Built) {segs : List Regions.Seg}
    {regions : List (Nat × Nat)} (ordered : Ordered regions)
    (sorted : Keyed.Sorted Regions.Seg.vaddr segs)
    (later : ∀ r ∈ regions, ∀ seg ∈ segs, r.1 ≤ pageDown seg.vaddr)
    (low : ∀ seg ∈ segs, seg.stop arch ≤ Regions.STACK_START) :
    Ordered (segs.foldl (Regions.mergeRegion arch) regions) := by
  induction segs generalizing regions with
  | nil => exact ordered
  | cons seg segs ih =>
    obtain ⟨first, sorted⟩ := List.pairwise_cons.mp sorted
    obtain ⟨still, upTo⟩ := mergeRegionOrdered ordered built
      (fun r member => later r member seg List.mem_cons_self) (low seg List.mem_cons_self)
    refine ih still sorted (fun r member next inside => ?_)
      (fun next inside => low next (List.mem_cons_of_mem _ inside))
    exact Nat.le_trans (upTo r member)
      (Nat.mul_le_mul_right _ (Nat.div_le_div_right (first next inside)))

theorem regionsLoadable {regions : List (Nat × Nat)} (ordered : Ordered regions)
    (flags : Nat → Nat) : Loadable
      ((regions.reverse.flatMap fun r => pagesBetween r.1 r.2).map fun a => (a, flags a)) := by
  obtain ⟨apart, aligned, below⟩ := ordered
  have page : ∀ a ∈ (regions.reverse.flatMap fun r => pagesBetween r.1 r.2).map
      fun a => (a, flags a), ∃ r ∈ regions, a.1 ∈ pagesBetween r.1 r.2 := by
    intro a member
    obtain ⟨b, inside, rfl⟩ := List.mem_map.mp member
    obtain ⟨r, region, between⟩ := List.mem_flatMap.mp inside
    exact ⟨r, List.mem_reverse.mp region, between⟩
  refine ⟨?_, fun a member => ?_, fun a member => ?_⟩
  · rw [List.map_map]
    change (List.map id _).Nodup
    rw [List.map_id]
    refine List.nodup_flatMap.mpr ⟨fun r _ => pagesBetweenNodup r.1 r.2, ?_⟩
    refine (List.pairwise_reverse.mpr apart).imp fun {earlier later} before a one other => ?_
    obtain ⟨_, _, high⟩ := memPagesBetween one
    obtain ⟨k, same, _⟩ := memPagesBetween other
    omega
  · obtain ⟨r, region, between⟩ := page a member
    obtain ⟨k, same, _⟩ := memPagesBetween between
    refine Regions.pageDownAligned ?_
    rw [same]
    exact Nat.dvd_add (aligned r region) (Nat.dvd_mul_right _ _)
  · obtain ⟨r, region, between⟩ := page a member
    obtain ⟨_, _, high⟩ := memPagesBetween between
    exact Nat.lt_of_lt_of_le high (below r region)

theorem flatLoadable (file : Regions.File) : Loadable
    ((List.range ((file.size + (PAGE_SIZE - 1)) / PAGE_SIZE)).map fun i =>
      (Regions.USER_TEXT_START + i * PAGE_SIZE, 7)) := by
  have sized := file.sized
  refine ⟨?_, fun a member => ?_, fun a member => ?_⟩
  · rw [List.map_map]
    refine List.nodup_range.map fun i j same => ?_
    change Regions.USER_TEXT_START + i * PAGE_SIZE = Regions.USER_TEXT_START + j * PAGE_SIZE at same
    unfold PAGE_SIZE at same
    omega
  · obtain ⟨i, _, rfl⟩ := List.mem_map.mp member
    exact Regions.pageDownAligned (Nat.dvd_add (by decide) (Nat.dvd_mul_left _ _))
  · obtain ⟨i, inside, rfl⟩ := List.mem_map.mp member
    have few := List.mem_range.mp inside
    unfold Regions.USER_TEXT_START Regions.STACK_START PAGE_SIZE at *
    dsimp only
    omega

theorem imageLoadable (built : arch.Built) (file : Regions.File) :
    Loadable (imagePages arch file) := by
  unfold imagePages
  split
  · exact flatLoadable file
  · split <;> rename_i found
    · exact ⟨List.nodup_nil, List.forall_mem_nil _, List.forall_mem_nil _⟩
    · rename_i segs
      refine regionsLoadable (regionsOrdered built ⟨List.Pairwise.nil, List.forall_mem_nil _,
        List.forall_mem_nil _⟩ (Keyed.insertAllSorted List.Pairwise.nil) (List.forall_mem_nil _)
        fun seg member => ?_) _
      have inside := (Keyed.insertAllPerm [] _).mem_iff.mp member
      rw [List.append_nil] at inside
      have low := (Regions.loadSegsBound found seg inside).2
      refine Nat.le_trans ?_ low
      unfold Regions.Seg.stop
      rcases Mm.builtWidth built with width | width
      · rw [width, ← Nat.mod_mod_of_dvd _ (by decide : 2 ^ 32 ∣ 2 ^ 64)]
        exact Nat.mod_le _ _
      · rw [width]

/-! ## exec -/

theorem loadPagesBalanced (pages : List (Nat × Nat)) (balanced : Balanced rest mmu fr)
    (readable : Nat) (distinct : (pages.map Prod.fst).Nodup)
    (aligned : ∀ a ∈ pages, pageDown a.1 = a.1)
    (absent : ∀ a ∈ pages, ∀ p ∈ mmu.ptes, p.page ≠ a.1) :
    let after := loadPages arch pages readable mmu fr
    Balanced rest after.2.1 after.2.2 ∧
      ∀ p ∈ after.2.1.ptes, p ∈ mmu.ptes ∨ ∃ a ∈ pages, p.page = a.1 := by
  induction pages generalizing mmu fr readable with
  | nil => exact ⟨balanced, fun p member => Or.inl member⟩
  | cons page pages ih =>
    cases readable with
    | zero => exact ⟨balanced, fun p member => Or.inl member⟩
    | succ readable =>
      obtain ⟨a, flags⟩ := page
      rw [List.map_cons, List.nodup_cons] at distinct
      have own : pageDown a = a := aligned (a, flags) List.mem_cons_self
      have free : ∀ p ∈ mmu.ptes, p.page ≠ pageDown a := by
        rw [own]
        exact absent (a, flags) List.mem_cons_self
      obtain ⟨still, ptes⟩ := @allocatePageBalanced arch rest mmu fr a flags balanced free
      unfold loadPages
      dsimp only
      split <;> rename_i made
      · rw [made] at still ptes
        refine ⟨still, fun p member => Or.inl ?_⟩
        rcases ptes p member with old | ⟨mapped, _⟩
        · exact old
        · cases mapped
      · rw [made] at still ptes
        obtain ⟨whole, members⟩ := ih still readable distinct.2
          (fun b inside => aligned b (List.mem_cons_of_mem _ inside)) fun b inside p member => by
            rcases ptes p member with old | ⟨_, same⟩
            · exact absent b (List.mem_cons_of_mem _ inside) p old
            · rw [same, own]
              rintro rfl
              exact distinct.1 (List.mem_map.mpr ⟨b, inside, rfl⟩)
        refine ⟨whole, fun p member => ?_⟩
        rcases members p member with mine | ⟨b, inside, same⟩
        · rcases ptes p mine with old | ⟨_, same⟩
          · exact Or.inl old
          · exact Or.inr ⟨(a, flags), List.mem_cons_self, same.trans own⟩
        · exact Or.inr ⟨b, List.mem_cons_of_mem _ inside, same⟩

theorem mapStackBalanced {frame : Nat} (balanced : Balanced (frame :: (frame + 1) :: rest) mmu fr)
    (low : ∀ p ∈ mmu.ptes, p.page < Regions.STACK_START)
    (first : (archMmMapUser arch mmu fr (Regions.USER_STACK_TOP - 2 * PAGE_SIZE) frame 7).1 = true)
    (second : (archMmMapUser arch
      (archMmMapUser arch mmu fr (Regions.USER_STACK_TOP - 2 * PAGE_SIZE) frame 7).2.1
      (archMmMapUser arch mmu fr (Regions.USER_STACK_TOP - 2 * PAGE_SIZE) frame 7).2.2
      (Regions.USER_STACK_TOP - 2 * PAGE_SIZE + PAGE_SIZE) (frame + 1) 7).1 = true) :
    Balanced rest (mapStack arch mmu fr frame).1 (mapStack arch mmu fr frame).2 := by
  have base : pageDown (Regions.USER_STACK_TOP - 2 * PAGE_SIZE) > Regions.STACK_START := by decide
  have above : pageDown (Regions.USER_STACK_TOP - 2 * PAGE_SIZE + PAGE_SIZE) >
      pageDown (Regions.USER_STACK_TOP - 2 * PAGE_SIZE) := by decide
  have empty : ∀ p ∈ mmu.ptes, p.page ≠ pageDown (Regions.USER_STACK_TOP - 2 * PAGE_SIZE) :=
    fun p member => Nat.ne_of_lt (Nat.lt_trans (low p member) base)
  obtain ⟨half, new⟩ := mapUserMaps balanced empty first
  have next : ∀ p ∈ (archMmMapUser arch mmu fr (Regions.USER_STACK_TOP - 2 * PAGE_SIZE)
      frame 7).2.1.ptes,
      p.page ≠ pageDown (Regions.USER_STACK_TOP - 2 * PAGE_SIZE + PAGE_SIZE) := by
    intro p member
    rw [new] at member
    rcases List.mem_cons.mp member with rfl | old
    · exact Nat.ne_of_lt above
    · exact Nat.ne_of_lt (Nat.lt_trans (Nat.lt_trans (low p old) base) above)
  exact (mapUserMaps half next second).1

theorem execBalanced (built : arch.Built) {s : Space} (balanced : Balanced rest s.mmu s.frames)
    {supply : Supply} {file : Regions.File} (covered : Covered s)
    (maps : StackMaps arch supply file s) :
    Balanced rest (replaceImage arch supply file s).mmu (replaceImage arch supply file s).frames := by
  obtain ⟨distinct, aligned, below⟩ := imageLoadable built file
  obtain ⟨torn, none'⟩ := tearDownBalanced balanced covered
  have gone : ∀ a ∈ imagePages arch file, ∀ p ∈ (tearDown s).mmu.ptes, p.page ≠ a.1 := by
    rw [none']
    exact fun _ _ => List.forall_mem_nil _
  obtain ⟨loaded, ptes⟩ := loadPagesBalanced _ torn supply.readable distinct aligned gone
  have low : ∀ p ∈ (loadPages arch (imagePages arch file) supply.readable (tearDown s).mmu
      (tearDown s).frames).2.1.ptes, p.page < Regions.STACK_START := by
    intro p member
    rcases ptes p member with old | ⟨a, inside, same⟩
    · rw [none'] at old
      cases old
    · rw [same]
      exact below a inside
  unfold StackMaps at maps
  unfold replaceImage
  dsimp only at maps ⊢
  split
  · exact loaded
  · split <;> rename_i got
    · exact loaded
    · rw [got] at maps
      exact mapStackBalanced (allocBalanced loaded got) low maps.1 maps.2

/-! ## Runs -/

structure Settled (others : List Nat) (s : State) : Prop where
  balanced : Balanced others s.space.mmu s.space.frames
  given : s.exited = true → s.space.mmu.ptes = [] ∧ s.space.mmu.tables = []

theorem performSettled (built : arch.Built) {s : Space} (balanced : Balanced rest s.mmu s.frames)
    {act : Action} (clean : Clean arch ⟨s, false⟩ act) :
    Settled rest (perform arch s act) := by
  cases act with
  | mmap addr length prot flags offset made => exact ⟨balanced, nofun⟩
  | munmap addr length => exact ⟨munmapBalanced balanced clean, nofun⟩
  | brk addr limit made => exact ⟨balanced, nofun⟩
  | fault addr write =>
    obtain ⟨still, covers⟩ := @faultBalanced arch rest s balanced addr write
    unfold Clean at clean
    unfold perform
    dsimp only at clean ⊢
    split <;> rename_i handled
    · rw [handled] at still
      exact ⟨still, nofun⟩
    · have covered := covers (by rw [handled]) (clean (by rw [handled]))
      rw [handled] at still covered
      obtain ⟨exited, given⟩ := doExitBalanced still covered
      exact ⟨exited, fun _ => given⟩
  | exec supply file =>
    cases file with
    | none => exact ⟨balanced, nofun⟩
    | some file => exact ⟨execBalanced built balanced clean.1 clean.2, nofun⟩
  | exit =>
    obtain ⟨exited, given⟩ := doExitBalanced balanced clean
    exact ⟨exited, fun _ => given⟩

theorem stepSettled (built : arch.Built) (s : State) (act : Action) (t : State)
    (settled : Settled others s) (clean : Clean arch s act) (stepped : step arch s act = some t) :
    Settled others t := by
  obtain ⟨space, exited⟩ := s
  cases exited with
  | true => cases stepped
  | false =>
    cases stepped
    exact performSettled built settled.balanced clean

theorem settledRight {s : State} (settled : Settled others s) : FramesRight others s := by
  obtain ⟨balanced, given⟩ := settled
  have perm := balancedAccounted.mpr balanced
  refine ⟨?_, fun exited => ?_⟩
  · rw [perm.length_eq, List.length_append, List.length_append, List.length_map, List.length_map]
  · obtain ⟨noPages, noTables⟩ := given exited
    unfold Accounted at perm
    rw [noPages, noTables] at perm
    exact perm

theorem newSpaceBalanced {total : Nat} {s : Space} (made : newSpace arch total others = some s) :
    Balanced others s.mmu s.frames := by
  have none' : Balanced others ⟨[], []⟩ ⟨total, others⟩ := fun f => (Nat.zero_add _).symm
  unfold newSpace at made
  dsimp only at made
  split at made
  · cases made
    exact none'
  · obtain ⟨⟨frame, fr⟩, got, same⟩ := Option.map_eq_some_iff.mp made
    cases same
    intro f
    have taken := allocBalanced none' got f
    rw [List.count_append, List.range'_one] at taken
    rw [taken]
    exact (Nat.add_assoc _ _ _).symm

def kernelFrames : List Nat := [0, 1, 2, 3]

def twoPages : Regions.File := ⟨0x1800, none, by decide⟩

def touchPage : List Action := [.mmap 0 0x2000 3 0x22 0 true, .fault 0x40001234 true]

def calmActs : List Action := touchPage ++
  [.brk 0x08101000 Regions.RLIM_INFINITY true, .fault 0x08100010 true,
    .exec ⟨8, 8, true⟩ (some twoPages), .fault 0xBFFFD000 true, .mmap 0 0x1000 3 0x22 0 true,
    .munmap 0x40000000 0x1000]

def unmapPage : List Action := touchPage ++ [.munmap 0x40000000 0x2000]

def failedLoad : List Action := [.exec ⟨1, 8, true⟩ (some twoPages), .exit]

def Leaks (arch : Arch) (acts : List Action) : Prop :=
  ∃ start s, newSpace arch 64 kernelFrames = some start ∧
    Run.run (step arch) ⟨start, false⟩ acts = some s ∧ ¬ FramesRight kernelFrames s

end Scepter.UserSpace
