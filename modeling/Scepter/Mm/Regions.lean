import Scepter.Mm.Vma

/-! The regions of a process stay in order, disjoint and in user space in every run
whose calls fit. -/
namespace Scepter.Regions
open Mm (Arch PAGE_SIZE i386 x86_64)

/-! ## Regions -/

def Placed (brkStart : Nat) (v : Vma) : Prop := match v.vmType with
  | .code => v.vmEnd ≤ STACK_START
  | .heap => v.vmStart = brkStart ∧ v.vmEnd ≤ MMAP_BASE
  | .mmap => MMAP_BASE ≤ v.vmStart ∧ v.vmEnd ≤ MMAP_END
  | .stack => USER_STACK_TOP - STACK_LIMIT ≤ v.vmStart ∧ v.vmEnd = USER_STACK_TOP

structure Shaped (brkStart : Nat) (v : Vma) : Prop where
  aligned : PAGE_SIZE ∣ v.vmStart ∧ PAGE_SIZE ∣ v.vmEnd
  filled : v.vmStart < v.vmEnd
  placed : Placed brkStart v
  downward : v.vmFlags.growsdown = true ↔ v.vmType = .stack

structure Good (brkStart : Nat) (vmas : List Vma) : Prop where
  aligned : PAGE_SIZE ∣ brkStart
  sorted : Keyed.Sorted Vma.vmStart vmas
  clear : vmas.Pairwise Clear
  shaped : ∀ v ∈ vmas, Shaped brkStart v

theorem pageDownLe (addr : Nat) : pageDown addr ≤ addr := Nat.div_mul_le_self addr PAGE_SIZE

theorem pageDownDvd (addr : Nat) : PAGE_SIZE ∣ pageDown addr := Nat.dvd_mul_left _ _

theorem pageDownAligned {addr : Nat} (aligned : PAGE_SIZE ∣ addr) : pageDown addr = addr :=
  Nat.div_mul_cancel aligned

theorem pageUpDvd (bits addr : Nat) : PAGE_SIZE ∣ pageUp bits addr := pageDownDvd _

theorem pageUpSmall {bits addr : Nat} (fits : addr + (PAGE_SIZE - 1) < 2 ^ bits) :
    pageUp bits addr = (addr + (PAGE_SIZE - 1)) / PAGE_SIZE * PAGE_SIZE := by
  unfold pageUp pageDown
  rw [Nat.mod_eq_of_lt fits]

theorem pageUpBounds {bits addr : Nat} (fits : addr + (PAGE_SIZE - 1) < 2 ^ bits) :
    addr ≤ pageUp bits addr ∧ pageUp bits addr < addr + PAGE_SIZE := by
  rw [pageUpSmall fits]
  unfold PAGE_SIZE
  omega

theorem pageUpAligned {bits addr : Nat} (fits : addr + (PAGE_SIZE - 1) < 2 ^ bits)
    (aligned : PAGE_SIZE ∣ addr) : pageUp bits addr = addr := by
  rw [pageUpSmall fits]
  unfold PAGE_SIZE at *
  omega

theorem pageUpLe {bits addr limit : Nat} (fits : addr + (PAGE_SIZE - 1) < 2 ^ bits)
    (aligned : PAGE_SIZE ∣ limit) (below : addr ≤ limit) : pageUp bits addr ≤ limit := by
  rw [pageUpSmall fits]
  unfold PAGE_SIZE at *
  omega

theorem layout :
    USER_HEAP_START < MMAP_BASE ∧ MMAP_BASE < MMAP_END ∧
    MMAP_END ≤ USER_STACK_TOP - STACK_LIMIT ∧ USER_STACK_TOP - STACK_LIMIT ≤ STACK_START ∧
    STACK_START < USER_STACK_TOP ∧ USER_STACK_TOP < 2 ^ 32 - PAGE_SIZE := by decide

theorem wordRoom {arch : Arch} (built : arch.Built) {addr : Nat} (low : addr ≤ USER_STACK_TOP) :
    addr + (PAGE_SIZE - 1) < 2 ^ arch.wordBits := by
  have top := layout.2.2.2.2.2
  rcases Mm.builtWidth built with width | width <;> rw [width] <;> unfold PAGE_SIZE at * <;> omega

theorem clearSymm {a b : Vma} (clear : Clear a b) : Clear b a := by
  rcases clear with before | behind | ⟨codeA, codeB, share⟩
  · exact Or.inr (Or.inl before)
  · exact Or.inl behind
  · exact Or.inr (Or.inr ⟨codeB, codeA, share.symm⟩)

theorem shapedTop {brkStart v} (shaped : Shaped brkStart v) : v.vmEnd ≤ USER_STACK_TOP := by
  have order := layout
  have placed := shaped.placed
  unfold Placed at placed
  split at placed <;> omega

theorem vmaCreateShaped (arch : Arch) {brkStart start stop flags type}
    (filled : pageDown start < pageUp arch.wordBits stop)
    (placed : Placed brkStart (vmaCreate arch start stop flags type))
    (downward : flags.growsdown = true ↔ type = .stack) :
    Shaped brkStart (vmaCreate arch start stop flags type) :=
  ⟨⟨pageDownDvd start, pageUpDvd arch.wordBits stop⟩, filled, placed, downward⟩

theorem goodSound {brkStart vmas} (good : Good brkStart vmas) : Sound vmas :=
  ⟨good.sorted, good.clear, fun v member =>
    ⟨(good.shaped v member).filled, shapedTop (good.shaped v member)⟩⟩

theorem insertGood {brkStart vmas} (good : Good brkStart vmas) {v} (shaped : Shaped brkStart v)
    (clear : ∀ w ∈ vmas, Clear v w) : Good brkStart (vmaInsert vmas v) := by
  refine ⟨good.aligned, Keyed.insertSorted good.sorted, ?_, fun w member => ?_⟩
  · exact (Keyed.insertPerm v vmas).symm.pairwise
      (List.pairwise_cons.mpr ⟨clear, good.clear⟩) clearSymm
  · rcases Keyed.insertMem.mp member with rfl | member
    · exact shaped
    · exact good.shaped w member

theorem sublistGood {brkStart vmas rest} (good : Good brkStart vmas) (less : rest.Sublist vmas) :
    Good brkStart rest :=
  ⟨good.aligned, good.sorted.sublist less, good.clear.sublist less,
    fun v member => good.shaped v (less.subset member)⟩

theorem replaceGood {brkStart before after v v'} (good : Good brkStart (before ++ v :: after))
    (shaped : Shaped brkStart v') (above : ∀ w ∈ before, w.vmStart ≤ v'.vmStart)
    (lower : v'.vmStart ≤ v.vmStart) (kept : ∀ w ∈ before ++ after, Clear v w → Clear v' w) :
    Good brkStart (before ++ v' :: after) := by
  refine ⟨good.aligned, Keyed.replaceSorted good.sorted above lower,
    Keyed.replacePairwise clearSymm good.clear kept, fun w member => ?_⟩
  rcases List.mem_append.mp member with old | new
  · exact good.shaped w (List.mem_append_left _ old)
  · rcases List.mem_cons.mp new with rfl | old
    · exact shaped
    · exact good.shaped w (List.mem_append_right _ (List.mem_cons_of_mem v old))

/-! ## mmap -/

theorem searchFromFree {vmas length fuel candidate c} (aligned : PAGE_SIZE ∣ candidate)
    (room : candidate + length < 2 ^ 32) (found : searchFrom vmas length fuel candidate = c)
    (real : c ≠ 0) :
    PAGE_SIZE ∣ c ∧ candidate ≤ c ∧ c + length ≤ MMAP_END ∧
      vmaOverlaps vmas c (c + length) = false := by
  induction fuel generalizing candidate with
  | zero => exact absurd found.symm real
  | succ fuel ih =>
    unfold searchFrom at found
    dsimp only at found
    rw [Nat.mod_eq_of_lt room] at found
    split at found <;> rename_i inside
    · split at found <;> rename_i taken
      · have order := layout
        have short : candidate + PAGE_SIZE + length < 2 ^ 32 := by omega
        rw [Nat.mod_eq_of_lt (by omega)] at found
        obtain ⟨dvd, low, rest⟩ := ih (Nat.dvd_add aligned (Nat.dvd_refl _)) short found
        exact ⟨dvd, by omega, rest⟩
      · cases found
        exact ⟨aligned, Nat.le_refl _, inside, by simpa using taken⟩
    · exact absurd found.symm real

theorem searchStartArea {hint : Nat} (word : hint < 2 ^ 32) :
    PAGE_SIZE ∣ searchStart hint ∧ MMAP_BASE ≤ searchStart hint := by
  have base : PAGE_SIZE ∣ MMAP_BASE ∧ MMAP_BASE ≤ MMAP_BASE := by decide
  unfold searchStart
  split <;> rename_i outside
  · exact base
  · split <;> rename_i hinted
    · have order := layout
      have inside : MMAP_BASE ≤ hint ∧ hint < MMAP_END := by
        constructor <;> by_contra wrong <;> exact outside ⟨hinted, by omega⟩
      have room : hint + (PAGE_SIZE - 1) < 2 ^ 32 := by
        unfold PAGE_SIZE at *
        omega
      exact ⟨pageUpDvd 32 hint, Nat.le_trans inside.1 (pageUpBounds room).1⟩
    · exact base

theorem overlapsClear {vmas start stop} (free : vmaOverlaps vmas start stop = false)
    {v} (from' : v.vmStart = start) (upTo : v.vmEnd = stop) : ∀ w ∈ vmas, Clear v w := by
  intro w member
  have apart := List.any_eq_false.mp free w member
  simp only [Bool.and_eq_true, decide_eq_true_eq, not_and, not_lt] at apart
  unfold Clear
  by_cases before : start < w.vmEnd
  · have := apart before
    omega
  · omega

theorem freeRegionFits {vmas length hint} (word : hint < 2 ^ 32)
    (short : searchStart hint + pageUp 32 length < 2 ^ 32)
    (real : vmaFindFreeRegion vmas length hint ≠ 0) :
    let c := vmaFindFreeRegion vmas length hint
    PAGE_SIZE ∣ c ∧ MMAP_BASE ≤ c ∧ c + pageUp 32 length ≤ MMAP_END ∧
      vmaOverlaps vmas c (c + pageUp 32 length) = false := by
  obtain ⟨dvd, area⟩ := searchStartArea word
  obtain ⟨aligned, low, high, free⟩ := searchFromFree dvd short rfl real
  exact ⟨aligned, Nat.le_trans area low, high, free⟩

theorem mmapCases (arch vmas addr length prot flags fd offset fdValid dev made) :
    let after := (sysMmap arch vmas addr length prot flags fd offset fdValid dev made).2
    let c := vmaFindFreeRegion vmas length addr
    after = vmas ∨ ∃ v, after = vmaInsert vmas v ∧ v.vmStart = pageDown c ∧
      v.vmEnd = pageUp arch.wordBits ((c + length) % 2 ^ arch.wordBits) ∧ v.vmType = .mmap ∧
      v.vmFlags.growsdown = false ∧ length ≠ 0 ∧ c ≠ 0 ∧ made = true ∧
      (flags.testBit 5 ∨ 0 ≤ fd ∧ fdValid) := by
  intro after c
  unfold after sysMmap
  dsimp only
  split <;> rename_i some'
  · exact Or.inl rfl
  · split <;> rename_i named
    · exact Or.inl rfl
    · split <;> rename_i found
      · exact Or.inl rfl
      · right
        simp only [not_or, Bool.not_eq_true', Bool.not_eq_false] at found
        have valid : flags.testBit 5 ∨ 0 ≤ fd ∧ fdValid := by
          simp only [Bool.and_eq_true, Bool.not_eq_true', Bool.or_eq_true, decide_eq_true_eq,
            not_and, not_or, not_lt, Bool.not_eq_false] at named
          cases anon : flags.testBit 5 with
          | true => exact Or.inl rfl
          | false => exact Or.inr (named anon)
        refine ⟨_, rfl, ?_, ?_, ?_, ?_, some', found.1, found.2, valid⟩ <;> split <;> rfl

theorem mmapGood {arch : Arch} (built : arch.Built) {brkStart vmas} (good : Good brkStart vmas)
    {addr length prot flags fd offset dev} {fdValid made : Bool} (word : addr < 2 ^ 32)
    (fits : (flags.testBit 5 ∨ 0 ≤ fd ∧ fdValid) → made →
      searchStart addr + (length + (PAGE_SIZE - 1)) / PAGE_SIZE * PAGE_SIZE < 2 ^ 32) :
    Good brkStart (sysMmap arch vmas addr length prot flags fd offset fdValid dev made).2 := by
  have order := layout
  obtain same | ⟨v, inserted, start, stop, type, flat, pos, real, room, valid⟩ :=
    mmapCases arch vmas addr length prot flags fd offset fdValid dev made
  · rw [same]
    exact good
  · have short := fits valid room
    have whole : length + (PAGE_SIZE - 1) < 2 ^ 32 := by
      unfold PAGE_SIZE at *
      omega
    rw [← pageUpSmall whole] at short
    obtain ⟨aligned, low, high, free⟩ := freeRegionFits word short real
    have covers := pageUpBounds whole
    generalize vmaFindFreeRegion vmas length addr = c at *
    have space : c + length + (PAGE_SIZE - 1) < 2 ^ arch.wordBits := wordRoom built (by omega)
    have rounded : pageUp arch.wordBits (c + length) = c + pageUp 32 length := by
      rw [pageUpSmall space, pageUpSmall whole]
      unfold PAGE_SIZE at *
      omega
    rw [pageDownAligned aligned] at start
    rw [Nat.mod_eq_of_lt (by omega), rounded] at stop
    rw [inserted]
    refine insertGood good ⟨⟨start ▸ aligned, ?_⟩, by omega, ?_, by simp [flat, type]⟩
      (overlapsClear free start stop)
    · rw [stop]
      exact Nat.dvd_add aligned (pageUpDvd 32 length)
    · unfold Placed
      rw [type]
      exact ⟨by omega, by omega⟩

/-! ## munmap and mprotect -/

theorem munmapFromSublist (start stop vmas) : (munmapFrom start stop vmas).2.Sublist vmas := by
  induction vmas with
  | nil => exact List.Sublist.refl []
  | cons v rest ih =>
    unfold munmapFrom
    split
    · split
      · exact ih.trans (List.sublist_cons_self v rest)
      · exact List.Sublist.refl _
    · exact ih.cons_cons v

theorem clearSame {v v' w : Vma} (start : v'.vmStart = v.vmStart) (stop : v'.vmEnd = v.vmEnd)
    (type : v'.vmType = v.vmType) (clear : Clear v w) : Clear v' w := by
  unfold Clear SharePage at *
  rwa [start, stop, type]

theorem shapedSame {brkStart} {v v' : Vma} (start : v'.vmStart = v.vmStart)
    (stop : v'.vmEnd = v.vmEnd) (type : v'.vmType = v.vmType)
    (downward : v'.vmFlags.growsdown = v.vmFlags.growsdown) (shaped : Shaped brkStart v) :
    Shaped brkStart v' := by
  obtain ⟨aligned, filled, placed, down⟩ := shaped
  unfold Placed at placed
  refine ⟨by rwa [start, stop], by rwa [start, stop], ?_, by rw [downward, type, down]⟩
  unfold Placed
  rwa [start, stop, type]

theorem mprotectGood {brkStart vmas} (good : Good brkStart vmas) (addr length prot : Nat) :
    Good brkStart (sysMprotect vmas addr length prot).2 := by
  unfold sysMprotect
  dsimp only
  split
  · exact good
  · split <;> rename_i found
    · exact good
    · split
      · exact good
      · rename_i v _
        obtain ⟨before, after, whole, updated⟩ := Keyed.updateSplit found
        rw [updated]
        rw [whole] at good
        have member : v ∈ before ++ v :: after :=
          List.mem_append_right _ List.mem_cons_self
        refine replaceGood good (shapedSame (v := v) rfl rfl rfl rfl (good.shaped v member))
          (fun w old => ?_) (Nat.le_refl _) fun w _ clear => clearSame (v := v) rfl rfl rfl clear
        exact (List.pairwise_append.mp good.sorted).2.2 w old v List.mem_cons_self

/-! ## brk -/

theorem heapClear {brkStart} {v w : Vma} (start : v.vmStart = brkStart)
    (low : v.vmEnd ≤ MMAP_BASE) (shaped : Shaped brkStart w) (other : w.vmType ≠ .heap)
    (code : w.vmType = .code → w.vmEnd ≤ v.vmStart ∨ v.vmEnd ≤ w.vmStart) : Clear v w := by
  have order := layout
  have placed := shaped.placed
  unfold Placed at placed
  unfold Clear
  split at placed <;> rename_i type
  · have := code type
    omega
  · exact absurd type other
  · omega
  · omega

theorem heapOnce {brkStart v w} (heap : v.vmType = .heap) (shapedV : Shaped brkStart v)
    (shapedW : Shaped brkStart w) (clear : Clear v w) : w.vmType ≠ .heap := by
  intro heapW
  have placedV := shapedV.placed
  have placedW := shapedW.placed
  have filledV := shapedV.filled
  have filledW := shapedW.filled
  unfold Placed at placedV placedW
  rw [heap] at placedV
  rw [heapW] at placedW
  rcases clear with before | behind | ⟨code, _⟩
  · dsimp only at placedV placedW
    omega
  · dsimp only at placedV placedW
    omega
  · cases heap.symm.trans code

theorem isHeapIff {v : Vma} : isHeap v = true ↔ v.vmType = .heap := beq_iff_eq

theorem memReplaced {v w : Vma} {before after} (old : w ∈ before ++ after) :
    w ∈ before ++ v :: after := by
  rcases List.mem_append.mp old with left | right
  · exact List.mem_append_left _ left
  · exact List.mem_append_right _ (List.mem_cons_of_mem v right)

theorem heapInsertGood {brkStart vmas} (good : Good brkStart vmas) {v} (heap : v.vmType = .heap)
    (shaped : Shaped brkStart v) (absent : ¬ ∃ w ∈ vmas, isHeap w = true)
    (noCode : NoCode vmas v.vmStart v.vmEnd) : Good brkStart (vmaInsert vmas v) := by
  have placed := shaped.placed
  unfold Placed at placed
  rw [heap] at placed
  refine insertGood good shaped fun w member => ?_
  exact heapClear placed.1 placed.2 (good.shaped w member)
    (fun other => absent ⟨w, member, isHeapIff.mpr other⟩) (noCode w member)

theorem heapGrowGood {brkStart vmas} (good : Good brkStart vmas) {v stop}
    (found : vmas.find? isHeap = some v) (aligned : PAGE_SIZE ∣ stop) (longer : v.vmEnd ≤ stop)
    (below : stop ≤ MMAP_BASE) (noCode : NoCode vmas brkStart stop) :
    Good brkStart (Keyed.update isHeap (fun _ => {v with vmEnd := stop}) vmas) := by
  have heap := isHeapIff.mp (List.find?_some found)
  have shaped := good.shaped v (List.mem_of_find?_eq_some found)
  have placed := shaped.placed
  unfold Placed at placed
  rw [heap] at placed
  dsimp only at placed
  obtain ⟨before, after, whole, updated⟩ :=
    Keyed.updateSplit (f := fun _ => {v with vmEnd := stop}) found
  rw [updated]
  rw [whole] at good noCode
  have filled : v.vmStart < stop := Nat.lt_of_lt_of_le shaped.filled longer
  have grown : Shaped brkStart {v with vmEnd := stop} := by
    refine ⟨⟨shaped.aligned.1, aligned⟩, filled, ?_, shaped.downward⟩
    unfold Placed
    dsimp only
    rw [heap]
    exact ⟨placed.1, below⟩
  refine replaceGood good grown (fun w old => ?_) (Nat.le_refl _) fun w old clear => ?_
  · exact (List.pairwise_append.mp good.sorted).2.2 w old v List.mem_cons_self
  · have member : w ∈ before ++ v :: after := memReplaced old
    have shapedW := good.shaped w member
    exact heapClear (v := {v with vmEnd := stop}) placed.1 below shapedW
      (heapOnce heap shaped shapedW clear) (placed.1 ▸ noCode w member)

theorem brkGood {arch : Arch} (built : arch.Built) {mm : MmStruct}
    (good : Good mm.brkStart mm.vmaList) {addr limit : Nat} {made : Bool}
    (fits : Fits mm (.brk addr limit made)) :
    (sysBrk arch mm addr limit made).2.brkStart = mm.brkStart ∧
    Good mm.brkStart (sysBrk arch mm addr limit made).2.vmaList := by
  have order := layout
  unfold sysBrk
  dsimp only
  split <;> rename_i real
  · exact ⟨rfl, good⟩
  · split <;> rename_i allowed
    · exact ⟨rfl, good⟩
    · rw [Bool.not_eq_true', Bool.not_eq_false] at allowed
      have inside : mm.brkStart ≤ addr ∧ addr < MMAP_BASE := by
        unfold brkAllowed at allowed
        simp only [Bool.and_eq_true, decide_eq_true_eq] at allowed
        exact allowed.1
      have narrow : addr + (PAGE_SIZE - 1) < 2 ^ 32 := by
        unfold PAGE_SIZE at *
        omega
      have below : pageUp 32 addr ≤ MMAP_BASE := pageUpLe narrow (by decide) (by omega)
      split <;> rename_i found
      · have absent : ¬ ∃ v ∈ mm.vmaList, isHeap v = true := by
          rintro ⟨v, member, heap⟩
          exact List.find?_eq_none.mp found v member heap
        split <;> rename_i room
        · obtain ⟨more, noCode⟩ := fits real allowed (Or.inr room)
          have wide : addr + (PAGE_SIZE - 1) < 2 ^ arch.wordBits := wordRoom built (by omega)
          have same : pageUp arch.wordBits addr = pageUp 32 addr := by
            rw [pageUpSmall wide, pageUpSmall narrow]
          have bounds := pageUpBounds narrow
          have start : pageDown mm.brkStart = mm.brkStart := pageDownAligned good.aligned
          have longer : addr ≠ mm.brkStart := more.resolve_left absent
          refine ⟨rfl, heapInsertGood good rfl
            (vmaCreateShaped arch (by omega) ⟨start, ?_⟩ ⟨nofun, nofun⟩) absent ?_⟩
          · change pageUp arch.wordBits addr ≤ MMAP_BASE
            omega
          · change NoCode mm.vmaList (pageDown mm.brkStart) (pageUp arch.wordBits addr)
            rwa [start, same]
        · exact ⟨rfl, good⟩
      · rename_i v
        split <;> rename_i expanded
        · exact ⟨rfl, good⟩
        · rename_i v'
          have member := List.mem_of_find?_eq_some found
          have heap := isHeapIff.mp (List.find?_some found)
          obtain ⟨_, noCode⟩ := fits real allowed (Or.inl ⟨v, member, List.find?_some found⟩)
          have flat : v.vmFlags.growsdown = false := by
            rw [Bool.eq_false_iff]
            intro down
            cases heap.symm.trans ((good.shaped v member).downward.mp down)
          unfold vmaExpand at expanded
          dsimp only at expanded
          rw [flat, if_neg Bool.false_ne_true] at expanded
          split at expanded <;> rename_i grown
          · cases expanded
          · cases expanded
            exact ⟨rfl, heapGrowGood good found (pageUpDvd 32 addr) (Nat.not_lt.mp grown) below
              noCode⟩

/-! ## Page faults -/

theorem stackGrowGood {brkStart vmas} (good : Good brkStart vmas) {v addr}
    (found : vmaFind vmas addr = some v) (down : grows v addr = true)
    (fits : overflows v addr = false) (noCode : NoCode vmas (pageDown addr) v.vmStart) {f}
    (grow : f v = {v with vmStart := pageDown addr}) :
    Good brkStart (Keyed.update (covers addr) f vmas) := by
  have order := layout
  have shaped := good.shaped v (List.mem_of_find?_eq_some found)
  unfold grows at down
  simp only [Bool.and_eq_true, decide_eq_true_eq] at down
  have stack := shaped.downward.mp down.1
  have placed := shaped.placed
  unfold Placed at placed
  rw [stack] at placed
  dsimp only at placed
  have lower := pageDownLe addr
  have floor : USER_STACK_TOP - STACK_LIMIT ≤ pageDown addr := by
    unfold overflows at fits
    simp only [decide_eq_false_iff_not] at fits
    omega
  obtain ⟨before, after, whole, updated⟩ := Keyed.updateSplit (f := f) found
  rw [updated, grow]
  rw [whole] at good noCode
  have filled := shaped.filled
  have grown : Shaped brkStart {v with vmStart := pageDown addr} := by
    refine ⟨⟨pageDownDvd addr, shaped.aligned.2⟩, by dsimp only; omega, ?_, shaped.downward⟩
    unfold Placed
    dsimp only
    rw [stack]
    exact ⟨floor, placed.2⟩
  -- no other region reaches into the new pages
  have apart : ∀ w ∈ before ++ after, Clear v w →
      w.vmEnd ≤ pageDown addr ∨ v.vmEnd ≤ w.vmStart := by
    intro w old clear
    have member : w ∈ before ++ v :: after := memReplaced old
    have shapedW := good.shaped w member
    have filledW := shapedW.filled
    have placedW := shapedW.placed
    have separate : v.vmEnd ≤ w.vmStart ∨ w.vmEnd ≤ v.vmStart := by
      rcases clear with before | behind | ⟨code, _⟩
      · exact Or.inl before
      · exact Or.inr behind
      · cases stack.symm.trans code
    unfold Placed at placedW
    split at placedW <;> rename_i type
    · have := noCode w member type
      omega
    · omega
    · omega
    · omega
  refine replaceGood good grown (fun w old => ?_) (by dsimp only; omega) fun w old clear => ?_
  · have member : w ∈ before ++ v :: after := List.mem_append_left _ old
    have filledW := (good.shaped w member).filled
    have first : w.vmStart ≤ v.vmStart :=
      (List.pairwise_append.mp good.sorted).2.2 w old v List.mem_cons_self
    have clear : Clear v w := clearSymm
      ((List.pairwise_append.mp good.clear).2.2 w old v List.mem_cons_self)
    have := apart w (List.mem_append_left _ old) clear
    dsimp only
    omega
  · unfold Clear
    dsimp only
    have := apart w old clear
    omega

theorem updateSame {p : Vma → Bool} {f vmas v} (found : vmas.find? p = some v) (same : f v = v) :
    Keyed.update p f vmas = vmas := by
  obtain ⟨before, after, whole, updated⟩ := Keyed.updateSplit (f := f) found
  rw [updated, same, whole]

theorem faultGood {mm : MmStruct} (good : Good mm.brkStart mm.vmaList) {addr write present paged}
    (fits : Fits mm (.fault addr write present paged)) {vmas}
    (handled : pageFaultHandler mm.vmaList addr write present paged = some vmas) :
    Good mm.brkStart vmas := by
  unfold pageFaultHandler at handled
  split at handled <;> rename_i found
  · cases handled
  · rename_i v
    split at handled <;> rename_i deep
    · cases handled
    · dsimp only at handled
      split at handled <;> rename_i down
      · split at handled <;> rename_i killed
        · cases handled
        · cases handled
          rw [down] at deep
          simp only [Bool.true_and, Bool.not_eq_true] at deep
          simp only [Bool.or_eq_true, Bool.not_eq_true', not_or, Bool.not_eq_false,
            Bool.not_eq_true] at killed
          obtain ⟨⟨access, absent⟩, page⟩ := killed
          have noCode := fits v found down (by simp [deep]) access (by simp [absent]) page
          exact stackGrowGood good found down deep noCode (if_pos down)
      · split at handled
        · cases handled
        · cases handled
          rw [updateSame found]
          · exact good
          · exact if_neg down

/-! ## exec, fork and exit -/

theorem loadSegsBound {fileSize phdrs segs} (loaded : loadSegs fileSize phdrs = some segs) :
    ∀ seg ∈ segs, 0 < seg.memsz ∧ (seg.vaddr + seg.memsz) % 2 ^ 64 ≤ STACK_START := by
  induction phdrs generalizing segs with
  | nil =>
    cases loaded
    exact nofun
  | cons ph rest ih =>
    unfold loadSegs at loaded
    split at loaded <;> rename_i skipped
    · exact ih loaded
    · split at loaded <;> rename_i bad
      · cases loaded
      · obtain ⟨others, found, whole⟩ := Option.map_eq_some_iff.mp loaded
        cases whole
        intro seg member
        rcases List.mem_cons.mp member with rfl | member
        · dsimp only
          omega
        · exact ih found seg member

theorem madeSegsBound (supply : Supply) (file : File) : ∀ seg ∈ madeSegs supply file,
    0 < seg.memsz ∧ (seg.vaddr + seg.memsz) % 2 ^ 64 ≤ STACK_START := by
  intro seg member
  unfold madeSegs at member
  split at member <;> rename_i loaded
  · split at member
    · obtain ⟨phdrs, _, loaded⟩ := Option.bind_eq_some_iff.mp loaded
      have taken := List.mem_of_mem_take member
      have sorted := (Keyed.insertAllPerm [] _).mem_iff.mp taken
      rw [List.append_nil] at sorted
      exact loadSegsBound loaded seg sorted
    · cases member
  · cases member

def CodeOnly (vmas : List Vma) : Prop := ∀ v ∈ vmas, v.vmType = .code

theorem segVmaSpan {arch : Arch} (built : arch.Built) {seg : Seg}
    (whole : seg.vaddr + seg.memsz ≤ STACK_START) :
    (segVma arch seg).vmStart = pageDown seg.vaddr ∧
    (segVma arch seg).vmEnd = pageUp 64 (seg.vaddr + seg.memsz) := by
  have order := layout
  have room : seg.vaddr + seg.memsz + (PAGE_SIZE - 1) < 2 ^ arch.wordBits :=
    wordRoom built (by omega)
  have wide : seg.vaddr + seg.memsz + (PAGE_SIZE - 1) < 2 ^ 64 := by
    unfold PAGE_SIZE at *
    omega
  refine ⟨rfl, ?_⟩
  change pageUp arch.wordBits ((seg.vaddr + seg.memsz) % 2 ^ arch.wordBits) = _
  rw [Nat.mod_eq_of_lt (by omega), pageUpSmall room, pageUpSmall wide]

theorem segVmaShaped {arch : Arch} (built : arch.Built) (brkStart : Nat) {seg : Seg}
    (pos : 0 < seg.memsz) (whole : seg.vaddr + seg.memsz ≤ STACK_START) :
    Shaped brkStart (segVma arch seg) := by
  have order := layout
  have wide : seg.vaddr + seg.memsz + (PAGE_SIZE - 1) < 2 ^ 64 := by
    unfold PAGE_SIZE at *
    omega
  obtain ⟨start, stop⟩ := segVmaSpan built whole
  have low := pageDownLe seg.vaddr
  have high := (pageUpBounds wide).1
  refine vmaCreateShaped arch ?_ ?_ ⟨nofun, nofun⟩
  · change (segVma arch seg).vmStart < (segVma arch seg).vmEnd
    omega
  change (segVma arch seg).vmEnd ≤ STACK_START
  rw [stop]
  exact pageUpLe wide (by decide) whole

theorem segsGood {arch : Arch} (built : arch.Built) {brkStart} (aligned : PAGE_SIZE ∣ brkStart)
    {segs : List Seg} (pos : ∀ seg ∈ segs, 0 < seg.memsz)
    (whole : ∀ seg ∈ segs, seg.vaddr + seg.memsz ≤ STACK_START) (apart : segs.Pairwise Apart) :
    let vmas := Keyed.insertAll Vma.vmStart [] (segs.map (segVma arch))
    Good brkStart vmas ∧ CodeOnly vmas := by
  intro vmas
  have perm : vmas.Perm (segs.map (segVma arch)) := by
    simpa only [List.append_nil] using Keyed.insertAllPerm [] (segs.map (segVma arch))
  have clear : (segs.map (segVma arch)).Pairwise Clear := by
    refine List.pairwise_map.mpr (apart.imp_of_mem fun {a b} memberA memberB apart => ?_)
    obtain ⟨startA, stopA⟩ := segVmaSpan built (whole a memberA)
    obtain ⟨startB, stopB⟩ := segVmaSpan built (whole b memberB)
    refine Or.inr (Or.inr ⟨rfl, rfl, ?_⟩)
    rw [startA, stopA, startB, stopB]
    exact apart
  refine ⟨⟨aligned, Keyed.insertAllSorted List.Pairwise.nil, perm.symm.pairwise clear clearSymm,
    fun v member => ?_⟩, fun v member => ?_⟩
  · obtain ⟨seg, old, rfl⟩ := List.mem_map.mp (perm.mem_iff.mp member)
    exact segVmaShaped built brkStart (pos seg old) (whole seg old)
  · obtain ⟨seg, _, rfl⟩ := List.mem_map.mp (perm.mem_iff.mp member)
    rfl

theorem mergeRegionDvd {arch regions} (aligned : ∀ r ∈ regions, PAGE_SIZE ∣ r.2) (seg : Seg) :
    ∀ r ∈ mergeRegion arch regions seg, PAGE_SIZE ∣ r.2 := by
  have hi := pageUpDvd arch.wordBits (seg.stop arch)
  unfold mergeRegion
  dsimp only
  split
  · intro r member
    rw [List.mem_singleton.mp member]
    exact hi
  · rename_i first last rest
    have others : ∀ r ∈ rest, PAGE_SIZE ∣ r.2 := fun r old =>
      aligned r (List.mem_cons_of_mem _ old)
    have ends := aligned (first, last) List.mem_cons_self
    split
    · intro r member
      rcases List.mem_cons.mp member with rfl | old
      · dsimp only
        split
        · exact hi
        · exact ends
      · exact others r old
    · intro r member
      rcases List.mem_cons.mp member with rfl | old
      · exact hi
      · exact aligned r old

theorem regionsDvd (arch : Arch) {regions} (aligned : ∀ r ∈ regions, PAGE_SIZE ∣ r.2)
    (segs : List Seg) : ∀ r ∈ segs.foldl (mergeRegion arch) regions, PAGE_SIZE ∣ r.2 := by
  induction segs generalizing regions with
  | nil => exact aligned
  | cons seg rest ih => exact ih (mergeRegionDvd aligned seg)

theorem maxEndDvd {regions : List (Nat × Nat)} (aligned : ∀ r ∈ regions, PAGE_SIZE ∣ r.2) {most}
    (start : PAGE_SIZE ∣ most) :
    PAGE_SIZE ∣ regions.foldl (fun most region => max most region.2) most := by
  induction regions generalizing most with
  | nil => exact start
  | cons r rest ih =>
    refine ih (fun r old => aligned r (List.mem_cons_of_mem _ old)) ?_
    have ends := aligned r List.mem_cons_self
    change PAGE_SIZE ∣ max most r.2
    rcases max_choice most r.2 with left | right
    · rwa [left]
    · rwa [right]

theorem heapAboveDvd {stop} (aligned : PAGE_SIZE ∣ stop) : PAGE_SIZE ∣ heapAbove stop := by
  unfold heapAbove
  split
  · decide
  · exact aligned

theorem flatEnd {arch : Arch} (built : arch.Built) (file : File) :
    let stop := pageUp arch.wordBits (USER_TEXT_START + file.size)
    USER_TEXT_START < stop ∧ stop ≤ STACK_START ∧ pageUp arch.wordBits stop = stop := by
  have order := layout
  have sized := file.sized
  have small : USER_TEXT_START + file.size + (PAGE_SIZE - 1) ≤ STACK_START := by
    unfold USER_TEXT_START STACK_START PAGE_SIZE
    omega
  have low : USER_TEXT_START + file.size ≤ USER_STACK_TOP := by omega
  have room := wordRoom built low
  have bounds := pageUpBounds room
  have top : pageUp arch.wordBits (USER_TEXT_START + file.size) ≤ STACK_START :=
    pageUpLe room (by decide) (by omega)
  exact ⟨by omega, top, pageUpAligned (wordRoom built (by omega)) (pageUpDvd _ _)⟩

theorem emptyGood {brkStart} (aligned : PAGE_SIZE ∣ brkStart) : Good brkStart [] :=
  ⟨aligned, List.Pairwise.nil, List.Pairwise.nil, List.forall_mem_nil _⟩

theorem loadFlatGood {arch : Arch} (built : arch.Built) {brkStart}
    (aligned : PAGE_SIZE ∣ brkStart) (supply : Supply) (file : File) :
    let loaded := loadFlat arch supply file.size []
    CodeOnly loaded.2 ∧ Good (loaded.1.elim brkStart ExecImage.brkStart) loaded.2 := by
  unfold loadFlat
  dsimp only
  split
  · exact ⟨List.forall_mem_nil _, emptyGood aligned⟩
  · obtain ⟨filled, top, again⟩ := flatEnd built file
    have heapStart := heapAboveDvd (pageUpDvd arch.wordBits (USER_TEXT_START + file.size))
    have low := pageDownLe USER_TEXT_START
    refine ⟨fun v member => ?_, insertGood (emptyGood heapStart)
      (vmaCreateShaped arch (by omega) ?_ ⟨nofun, nofun⟩) (List.forall_mem_nil _)⟩
    · rw [List.mem_singleton.mp member]
      rfl
    · change pageUp _ (pageUp _ _) ≤ STACK_START
      omega

theorem elfLoadGood {arch : Arch} {brkStart}
    (aligned : PAGE_SIZE ∣ brkStart) {supply : Supply} {segs : List Seg}
    (good : supply.mapped = true → ∀ brkStart, PAGE_SIZE ∣ brkStart →
      let made := ((sortSegs segs).take supply.vmas).map (segVma arch)
      Good brkStart (Keyed.insertAll Vma.vmStart [] made) ∧
      CodeOnly (Keyed.insertAll Vma.vmStart [] made)) :
    let loaded := elfLoadCommon arch supply segs []
    CodeOnly loaded.2 ∧ Good (loaded.1.elim brkStart ExecImage.brkStart) loaded.2 := by
  unfold elfLoadCommon
  dsimp only
  split <;> rename_i stopped
  · exact ⟨List.forall_mem_nil _, emptyGood aligned⟩
  · rw [Bool.or_eq_true, Bool.not_eq_true', not_or, Bool.not_eq_false] at stopped
    split
    · exact (good stopped.1 _ aligned).symm
    · have none' : ∀ r ∈ ([] : List (Nat × Nat)), PAGE_SIZE ∣ r.2 := nofun
      have maxEnd := maxEndDvd (regionsDvd arch none' (sortSegs segs)) (Nat.dvd_zero _)
      exact (good stopped.1 _ (heapAboveDvd maxEnd)).symm

theorem loadBinaryGood {arch : Arch} (built : arch.Built) {brkStart}
    (aligned : PAGE_SIZE ∣ brkStart) {supply file} (fits : WellLaidOut supply file) :
    let loaded := loadBinary arch supply file []
    CodeOnly loaded.2 ∧ Good (loaded.1.elim brkStart ExecImage.brkStart) loaded.2 := by
  have bound := madeSegsBound supply file
  obtain ⟨whole, apart⟩ := fits
  have high : ∀ seg ∈ madeSegs supply file, seg.vaddr + seg.memsz ≤ STACK_START := by
    intro seg member
    have := (bound seg member).2
    rwa [Nat.mod_eq_of_lt (whole seg member)] at this
  have pos : ∀ seg ∈ madeSegs supply file, 0 < seg.memsz := fun seg member =>
    (bound seg member).1
  unfold madeSegs at high pos apart
  unfold loadBinary
  dsimp only
  split <;> rename_i format
  · exact loadFlatGood built aligned supply file
  · split <;> rename_i segs found
    · exact ⟨List.forall_mem_nil _, emptyGood aligned⟩
    · simp only [format, Option.bind_some, found] at high pos apart
      refine elfLoadGood aligned fun mapped brkStart aligned => ?_
      rw [if_pos mapped] at high pos apart
      exact segsGood built aligned pos high apart

theorem addStackGood {arch : Arch} (built : arch.Built) {brkStart vmas}
    (good : Good brkStart vmas) (code : CodeOnly vmas) (supply : Supply) :
    Good brkStart (addStack arch supply vmas) := by
  have order := layout
  unfold addStack
  split
  swap
  · exact good
  have start : (stackVma arch).vmStart = STACK_START := rfl
  have stop : (stackVma arch).vmEnd = USER_STACK_TOP :=
    pageUpAligned (wordRoom built (Nat.le_refl _)) (by decide)
  have filled : (stackVma arch).vmStart < (stackVma arch).vmEnd := by omega
  refine insertGood good (vmaCreateShaped arch filled ?_ ⟨fun _ => rfl, fun _ => rfl⟩)
    fun w member => ?_
  · change USER_STACK_TOP - STACK_LIMIT ≤ (stackVma arch).vmStart ∧
      (stackVma arch).vmEnd = USER_STACK_TOP
    exact ⟨by omega, stop⟩
  · have placed := (good.shaped w member).placed
    unfold Placed at placed
    rw [code w member] at placed
    dsimp only at placed
    unfold Clear
    omega

theorem execGood {arch : Arch} (built : arch.Built) {mm : MmStruct}
    (good : Good mm.brkStart mm.vmaList) {supply file} (fits : Fits mm (.exec supply file)) :
    let after := doExec arch mm supply file
    Good after.brkStart after.vmaList := by
  unfold doExec
  dsimp only
  split
  · exact good
  · rename_i file
    obtain ⟨code, loaded⟩ := loadBinaryGood built good.aligned fits
    split <;> rename_i result
    · rw [result] at loaded
      exact loaded
    · rw [result] at loaded code
      change Good _ (if supply.stackPages then _ else _)
      split
      · exact addStackGood built loaded code supply
      · exact loaded

theorem spawnGood {arch : Arch} (built : arch.Built) {supply file}
    (fits : WellLaidOut supply file) {mm} (spawned : spawnInit arch supply file = some mm) :
    Good mm.brkStart mm.vmaList := by
  have start : PAGE_SIZE ∣ mmInit.brkStart := by decide
  obtain ⟨code, loaded⟩ := loadBinaryGood built start fits
  unfold spawnInit at spawned
  split at spawned <;> rename_i result
  · cases spawned
  · rw [result] at loaded code
    split at spawned
    · cases spawned
      exact addStackGood built loaded code supply
    · cases spawned

theorem copyVmaSpan {arch : Arch} (built : arch.Built) {brkStart v} (shaped : Shaped brkStart v) :
    (copyVma arch v).vmStart = v.vmStart ∧ (copyVma arch v).vmEnd = v.vmEnd :=
  ⟨pageDownAligned shaped.aligned.1,
    pageUpAligned (wordRoom built (shapedTop shaped)) shaped.aligned.2⟩

theorem forkSame {arch : Arch} (built : arch.Built) {mm : MmStruct}
    (good : Good mm.brkStart mm.vmaList) :
    (forkMm arch mm).vmaList = mm.vmaList.map (copyVma arch) := by
  rw [← List.nil_append (mm.vmaList.map _)]
  refine Keyed.insertAllOfSorted (List.pairwise_map.mpr ?_)
  refine good.sorted.imp_of_mem fun {a b} memberA memberB less => ?_
  rw [(copyVmaSpan built (good.shaped a memberA)).1, (copyVmaSpan built (good.shaped b memberB)).1]
  exact less

theorem forkGood {arch : Arch} (built : arch.Built) {mm : MmStruct}
    (good : Good mm.brkStart mm.vmaList) :
    Good (forkMm arch mm).brkStart (forkMm arch mm).vmaList := by
  have sorted : Keyed.Sorted Vma.vmStart (forkMm arch mm).vmaList :=
    Keyed.insertAllSorted List.Pairwise.nil
  rw [forkSame built good] at sorted ⊢
  refine ⟨good.aligned, sorted, List.pairwise_map.mpr ?_, fun v member => ?_⟩
  · refine good.clear.imp_of_mem fun {a b} memberA memberB clear => ?_
    obtain ⟨startA, stopA⟩ := copyVmaSpan built (good.shaped a memberA)
    obtain ⟨startB, stopB⟩ := copyVmaSpan built (good.shaped b memberB)
    exact clearSymm (clearSame startB stopB rfl (clearSymm (clearSame startA stopA rfl clear)))
  · obtain ⟨old, origin, rfl⟩ := List.mem_map.mp member
    obtain ⟨start, stop⟩ := copyVmaSpan built (good.shaped old origin)
    exact shapedSame start stop rfl rfl (good.shaped old origin)

/-! ## Runs -/

theorem performGood {arch : Arch} (built : arch.Built) {mm : MmStruct}
    (good : Good mm.brkStart mm.vmaList) {c : Call} (words : c.Words) (fits : Fits mm c) {mm'}
    (done : perform arch mm c = some mm') : Good mm'.brkStart mm'.vmaList := by
  cases c with
  | mmap addr length prot flags fd offset fdValid dev made =>
    cases done
    exact mmapGood built good words.1 fits
  | munmap addr length =>
    cases done
    exact sublistGood good (munmapFromSublist _ _ _)
  | mprotect addr length prot =>
    cases done
    exact mprotectGood good addr length prot
  | brk addr limit made =>
    cases done
    obtain ⟨same, good⟩ := brkGood built good fits
    rwa [same]
  | fault addr write present paged =>
    obtain ⟨vmas, handled, rfl⟩ := Option.map_eq_some_iff.mp done
    exact faultGood good fits handled
  | exec supply file =>
    cases done
    exact execGood built good fits

def AllGood (tasks : Tasks) : Prop := ∀ pid mm, tasks pid = some mm → Good mm.brkStart mm.vmaList

theorem updateGood {tasks : Tasks} (good : AllGood tasks) (pid : Nat) {mm : Option MmStruct}
    (new : ∀ m, mm = some m → Good m.brkStart m.vmaList) :
    AllGood (Function.update tasks pid mm) := by
  intro other m has
  by_cases same : other = pid
  · rw [same, Function.update_self] at has
    exact new m has
  · rw [Function.update_of_ne same] at has
    exact good other m has

theorem stepGood {arch : Arch} (built : arch.Built) {tasks act tasks'} (good : AllGood tasks)
    (allowed : Allowed tasks act) (ran : step arch tasks act = some tasks') :
    AllGood tasks' := by
  cases act with
  | spawn pid supply file =>
    unfold step at ran
    dsimp only at ran
    split at ran <;> cases ran
    exact updateGood good pid fun m spawned => spawnGood built allowed spawned
  | fork parent child copied =>
    unfold step at ran
    dsimp only at ran
    split at ran <;> rename_i has _
    · cases ran
      refine updateGood good child fun m copy => ?_
      split at copy
      · cases copy
        exact forkGood built (good parent _ has)
      · cases copy
    · cases ran
  | call pid c =>
    unfold step at ran
    dsimp only at ran
    split at ran <;> rename_i has
    · split at ran <;> rename_i words
      · cases ran
        exact updateGood good pid fun m done =>
          performGood built (good pid _ has) words (allowed _ has) done
      · cases ran
    · cases ran
  | exit pid =>
    unfold step at ran
    dsimp only at ran
    split at ran <;> cases ran
    exact updateGood good pid nofun

def noTasks : Tasks := fun _ => none

/-- In every run whose calls fit, the regions of every process are in order, disjoint
but for the boundary pages of code, not empty and in user space. -/
theorem vmasSound {arch : Arch} (built : arch.Built) {acts tasks}
    (allowed : Run.Meets (step arch) Allowed noTasks acts)
    (ran : Run.run (step arch) noTasks acts = some tasks) :
    ∀ pid mm, tasks pid = some mm → Sound mm.vmaList := by
  have good : AllGood tasks := Run.invariantMeets
    (fun _ _ _ good allowed ran => stepGood built good allowed ran)
    (fun _ mm has => absurd has.symm (Option.some_ne_none mm)) allowed ran
  exact fun pid mm has => goodSound (good pid mm has)

def everything : Supply := ⟨true, 256, true, true⟩

def flatFile : File := ⟨0x3000, none, by decide⟩

def textFile : File :=
  ⟨0x4000, some [⟨PT_LOAD, 0x08048000, 0x2234, 0x2234, 0x1000, 5⟩,
    ⟨PT_LOAD, 0x0804A234, 0x200, 0x1000, 0x3234, 6⟩], by decide⟩

def highFile : File :=
  ⟨0x3000, some [⟨PT_LOAD, 0x08048000, 0x2000, 0x2000, 0x1000, 5⟩,
    ⟨PT_LOAD, 0xBFD00000, 0, 0x2000, 0, 6⟩], by decide⟩

def calmActions : List Action :=
  [.spawn 1 everything textFile,
    .call 1 (.brk 0x08200000 RLIM_INFINITY true),
    .call 1 (.mmap 0 0x3000 3 0x22 (-1) 0 false none true),
    .call 1 (.mmap 0x40000000 0x1000 3 0x22 (-1) 0 false none true),
    .call 1 (.fault 0xBFEFF000 true false true),
    .fork 1 2 true,
    .call 2 (.munmap 0x40000000 0x3000),
    .call 1 (.exec everything (some flatFile)),
    .call 1 (.mprotect 0x08000000 0x1000 1)]

theorem calmVmas : ∃ tasks, Run.run (step x86_64) noTasks calmActions = some tasks ∧
    ((tasks 2).map fun mm => mm.vmaList.map Vma.vmStart) =
      some [0x08048000, 0x0804A000, 0x08100000, 0x40003000, 0xBFEFF000] ∧
    ∀ pid mm, tasks pid = some mm → Sound mm.vmaList := by
  obtain ⟨tasks, ran, starts⟩ : ∃ tasks, Run.run (step x86_64) noTasks calmActions = some tasks ∧
      ((tasks 2).map fun mm => mm.vmaList.map Vma.vmStart) =
        some [0x08048000, 0x0804A000, 0x08100000, 0x40003000, 0xBFEFF000] :=
    ⟨_, rfl, by decide +kernel⟩
  exact ⟨tasks, ran, starts, vmasSound (Or.inr rfl) (by decide +kernel) ran⟩

def regionsAfter (arch : Arch) (acts : List Action) : List Vma :=
  ((Run.run (step arch) noTasks acts).bind fun tasks => tasks 1).elim [] MmStruct.vmaList

/-- The stack grows over code, a mapping ends behind user space and before its start,
and a heap is empty. -/
theorem vmasBroken :
    ¬ Sound (regionsAfter i386 [.spawn 1 everything highFile,
      .call 1 (.fault 0xBFCFF000 true false true)]) ∧
    ¬ Sound (regionsAfter x86_64 [.spawn 1 everything flatFile,
      .call 1 (.mmap 0 0xFFFFF000 3 0x22 (-1) 0 false none true)]) ∧
    ¬ Sound (regionsAfter i386 [.spawn 1 everything flatFile,
      .call 1 (.mmap 0 0xFFFFF000 3 0x22 (-1) 0 false none true)]) ∧
    ¬ Sound (regionsAfter i386 [.spawn 1 everything flatFile,
      .call 1 (.brk 0x08100000 RLIM_INFINITY true)]) := by
  refine ⟨fun sound => absurd sound.clear ?_, fun sound => absurd sound.range ?_,
    fun sound => absurd sound.range ?_, fun sound => absurd sound.range ?_⟩ <;> decide +kernel

end Scepter.Regions
