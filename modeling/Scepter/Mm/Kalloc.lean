import Scepter.Mm.Heap

/-! Every call of kalloc and kfree and every store keeps the heap in order, from the
state slab_init leaves on. -/
namespace Scepter.Kalloc
open Mm (Arch PageAllocator NULL PAGE_SIZE MEM_MAP pageFree pagesOf Window)
open Slab

section
variable {arch : Arch} {start : PageAllocator} {h : Heap} {chains : Nat → List Nat}
  {live : List Block}

/-! ## kalloc of an object -/

theorem moveFull (lists : Lists h chains) (slabs : Slabs arch start h chains) {size slab}
    (listed : size ∈ SIZES) (here : slab ∈ h.partials size) (m : Buf) :
    let h' := {h with
      mem := m
      partials := Function.update h.partials size ((h.partials size).erase slab)
      full := Function.update h.full size (slab :: h.full size)}
    (∀ size' slab', IsSlab h' size' slab' ↔ IsSlab h size' slab') ∧
    Lists h' (Function.update chains slab []) := by
  intro h'
  have parts : ∀ size', h'.partials size' =
      if size' = size then (h.partials size).erase slab else h.partials size' :=
    fun size' => Function.update_apply _ _ _ size'
  have fulls : ∀ size', h'.full size' =
      if size' = size then slab :: h.full size else h.full size' :=
    fun size' => Function.update_apply _ _ _ size'
  have once := lists.once size listed
  have isSlab : IsSlab h size slab := ⟨listed, Or.inl here⟩
  have oncePartial := (List.nodup_append.mp once).1
  have erased : ∀ x, x ∈ (h.partials size).erase slab ↔ x ≠ slab ∧ x ∈ h.partials size :=
    fun x => oncePartial.mem_erase_iff
  refine ⟨fun size' slab' => and_congr_right fun _ => ?_, lists.sizes, fun size' listed' => ?_,
    fun size' listed' x member => ?_, fun size' listed' x member => ?_⟩
  · rw [parts, fulls]
    split <;> rename_i this
    · rw [this, erased, List.mem_cons]
      by_cases it : slab' = slab
      · simp [it, here]
      · simp [it]
    · exact Iff.rfl
  · rw [parts, fulls]
    split <;> rename_i this
    · have moved : ((h.partials size).erase slab ++ slab :: h.full size).Perm
          (h.partials size ++ h.full size) :=
        List.perm_middle.trans ((List.perm_cons_erase here).symm.append_right _)
      exact moved.nodup_iff.mpr once
    · exact lists.once size' listed'
  · rw [parts] at member
    have old : x ≠ slab ∧ x ∈ h.partials size' := by
      split at member <;> rename_i this
      · rw [this]
        exact (erased x).mp member
      · exact ⟨fun it => this (slabSize slabs ⟨listed', Or.inl (it ▸ member)⟩ isSlab), member⟩
    rw [Function.update_of_ne old.1]
    exact lists.hasFree size' listed' x old.2
  · rw [fulls] at member
    by_cases it : x = slab
    · rw [it, Function.update_self]
    · rw [Function.update_of_ne it]
      split at member <;> rename_i this
      · exact lists.full size listed x ((List.mem_cons.mp member).resolve_left it)
      · exact lists.full size' listed' x member

theorem listsChain (lists : Lists h chains) {size slab} (listed : size ∈ SIZES)
    (here : slab ∈ h.partials size) (m : Buf) {chain} (left : chain ≠ []) :
    Lists {h with mem := m} (Function.update chains slab chain) := by
  refine ⟨lists.sizes, lists.once, fun size' listed' x member => ?_,
    fun size' listed' x member => ?_⟩
  · by_cases it : x = slab
    · rwa [it, Function.update_self]
    · rw [Function.update_of_ne it]
      exact lists.hasFree size' listed' x member
  · have it : x ≠ slab := fun it =>
      lists.hasFree size listed slab here (it ▸ lists.full size' listed' x member)
    rw [Function.update_of_ne it]
    exact lists.full size' listed' x member

theorem intactTake {mem mem' stored : Buf} {o n : Nat} (intact : Intact mem stored live)
    (kept : ∀ e ∈ live, ∀ b, e.1 ≤ b → b < e.1 + e.2 → mem' b = mem b)
    (apart : ∀ e ∈ live, Apart (o, n) e) :
    Intact mem' (found o n mem' stored) ((o, n) :: live) := by
  intro e member b low high
  unfold found
  rcases List.mem_cons.mp member with rfl | old
  · rw [if_pos ⟨low, high⟩]
  · have off := apart e old
    have less := roomLe n
    have less' := roomLe e.2
    unfold Apart at off
    dsimp only at off
    rw [if_neg (by omega), kept e old b low high]
    exact intact e old b low high

theorem spareTake (slabs : Slabs arch start h chains) (spare : Spare arch h chains)
    {size slab o rest} (isSlab : IsSlab h size slab) (chain : chains slab = o :: rest) {h' : Heap}
    (sub : ∀ size' ∈ SIZES, ∀ x ∈ h'.partials size', x ∈ h.partials size') :
    Spare arch h' (Function.update chains slab rest) := by
  have few := chainLength (slabs.ok _ _ isSlab)
  rw [chain, List.length_cons] at few
  intro size' listed x memberX y memberY fullX fullY
  have differ : ∀ z ∈ h'.partials size', (Function.update chains slab rest z).length =
      numObjs arch size' → z ≠ slab := by
    rintro z member empty rfl
    have sizes := slabSize slabs ⟨listed, Or.inl (sub size' listed z member)⟩ isSlab
    rw [Function.update_self, sizes] at empty
    omega
  rw [Function.update_of_ne (differ x memberX fullX)] at fullX
  rw [Function.update_of_ne (differ y memberY fullY)] at fullY
  exact spare size' listed x (sub size' listed x memberX) y (sub size' listed y memberY) fullX fullY

theorem takeGood (built : arch.Built) {s : State} (good : Good arch start chains s)
    {n slab o rest} (small : n ≤ 2048) (isSlab : IsSlab s.heap (roundUpPow2 n) slab)
    (chain : chains slab = o :: rest) {h' : Heap}
    (ok : SlabOk arch h'.mem slab (roundUpPow2 n) rest)
    (byte : ∀ b, b < slab ∨ slab + slabHeader arch ≤ b → h'.mem b = s.heap.mem b)
    (alloc : h'.alloc = s.heap.alloc)
    (same : ∀ size slab, IsSlab h' size slab ↔ IsSlab s.heap size slab)
    (lists : Lists h' (Function.update chains slab rest)) :
    Good arch start (Function.update chains slab rest)
      ⟨h', (o, n) :: s.live, found o n h'.mem s.stored⟩ := by
  obtain ⟨pages, _, slabs, blocks, intact⟩ := good
  have header := headerRoom arch (roundUpPow2 n) built
  have blocks' : Blocks arch start h' _ _ := blocksTake built slabs blocks same small isSlab chain
  have kept : ∀ e ∈ s.live, ∀ b, e.1 ≤ b → b < e.1 + e.2 → h'.mem b = s.heap.mem b := by
    intro e old b low high
    have off := (blockOffSlab built slabs blocks old isSlab).1
    have less := roomLe e.2
    exact byte b (by omega)
  exact ⟨pagesSame pages alloc (ownsSmall same small), lists,
    slabsUpdate built slabs same isSlab ok fun b off => byte b (by omega), blocks',
    intactTake intact kept (List.pairwise_cons.mp blocks'.apart).1⟩

theorem allocFromGood (built : arch.Built) {s : State} (good : Good arch start chains s)
    (spare : Spare arch s.heap chains) {n slab} (small : n ≤ 2048)
    (here : slab ∈ s.heap.partials (roundUpPow2 n)) :
    let taken := allocFrom arch s.heap (roundUpPow2 n) slab
    taken.1 ≠ NULL ∧ ∃ chains', Good arch start chains'
      ⟨taken.2, (taken.1, n) :: s.live, found taken.1 n taken.2.mem s.stored⟩ ∧
      Spare arch taken.2 chains' := by
  have listed := (roundUpSize small).1
  have isSlab : IsSlab s.heap (roundUpPow2 n) slab := ⟨listed, Or.inl here⟩
  have page := good.slabs.page _ _ isSlab
  have ok := good.slabs.ok _ _ isSlab
  cases chain : chains slab with
  | nil => exact absurd chain (good.lists.hasFree _ listed slab here)
  | cons o rest =>
    rw [chain] at ok
    obtain ⟨first, okRest⟩ := takeObjOk built listed (pageAddrRoom good.pages page) ok
    have byte := fun b => takeObjByte built s.heap.mem slab (b := b)
    have bounds := slotBounds built (ok.inside o List.mem_cons_self)
    have real := pageAddrPos good.pages page
    have nonzero : o ≠ NULL := by
      unfold NULL at *
      omega
    unfold allocFrom
    generalize takeObj arch s.heap.mem slab = taken at first okRest byte
    obtain ⟨obj, m⟩ := taken
    dsimp only at first okRest byte ⊢
    subst first
    rw [okRest.count]
    split <;> rename_i last
    · have nil : rest = [] := List.length_eq_zero_iff.mp last
      obtain ⟨same, lists'⟩ := moveFull good.lists good.slabs listed here m
      rw [← nil] at lists'
      refine ⟨nonzero, _, takeGood built good small isSlab chain okRest byte rfl same lists',
        spareTake good.slabs spare isSlab chain fun size _ x member => ?_⟩
      dsimp only at member
      rw [Function.update_apply] at member
      split at member <;> rename_i this
      · exact this ▸ List.mem_of_mem_erase member
      · exact member
    · have left : rest ≠ [] := fun nil => last (congrArg List.length nil)
      exact ⟨nonzero, _, takeGood built good small isSlab chain okRest byte rfl
        (fun _ _ => Iff.rfl) (listsChain good.lists listed here m left),
        spareTake good.slabs spare isSlab chain fun _ _ _ member => member⟩

theorem numObjsPos (built : arch.Built) {size} (listed : size ∈ SIZES) : 0 < numObjs arch size := by
  have sizes := sizeBounds listed
  have header : slabHeader arch ≤ 40 := by
    rcases builtPtr built with word | word <;> unfold slabHeader <;> omega
  refine Nat.div_pos ?_ (by omega)
  unfold PAGE_SIZE
  omega

theorem createGood (built : arch.Built) {s : State} (good : Good arch start chains s)
    (spare : Spare arch s.heap chains) {size} (listed : size ∈ SIZES)
    (none' : s.heap.partials size = []) {slab heap'}
    (created : createSlab arch s.heap size = some (slab, heap')) :
    let h' := {heap' with partials := Function.update heap'.partials size [slab]}
    ∃ chains', Good arch start chains' {s with heap := h'} ∧ Spare arch h' chains' := by
  obtain ⟨pages, lists, slabs, blocks, intact⟩ := good
  have word : arch.Word PAGE_SIZE := by
    rcases built with rfl | rfl <;> decide
  have one : pagesOf PAGE_SIZE = 1 := rfl
  unfold createSlab at created
  rcases pageTake built pages word (Or.inl (by decide)) with failed | ⟨first, inside, _, free, result⟩
  · rw [failed] at created
    cases created
  rw [result, one] at created
  rw [one] at inside free
  dsimp only at created
  split at created
  · cases created
  cases created
  generalize at' : pageAt arch start first = slab
  intro h'
  have page : PageAddr arch start slab := ⟨first, inside, at'.symm⟩
  have off := freePageOff built pages slabs blocks inside (free first (Nat.le_refl _) (by omega))
  rw [at'] at off
  have parts : ∀ size', h'.partials size' = if size' = size then [slab] else s.heap.partials size' :=
    fun size' => Function.update_apply _ _ _ size'
  have isSlabIff : ∀ size' x, IsSlab h' size' x ↔ IsSlab s.heap size' x ∨ size' = size ∧ x = slab := by
    intro size' x
    unfold IsSlab
    rw [parts]
    change _ ∧ (_ ∨ x ∈ s.heap.full size') ↔ _
    split <;> rename_i this
    · rw [this, none', List.mem_singleton]
      simp only [List.not_mem_nil, false_or, true_and]
      constructor
      · rintro ⟨_, new | old⟩
        · exact Or.inr new
        · exact Or.inl ⟨listed, old⟩
      · rintro (⟨_, old⟩ | new)
        · exact ⟨listed, Or.inr old⟩
        · exact ⟨listed, Or.inl new⟩
    · simp [this]
  have fresh : ∀ {size' x}, IsSlab s.heap size' x → x ≠ slab := fun isSlab it =>
    off.1 _ (it ▸ isSlab)
  have byte : ∀ b, b < slab ∨ slab + PAGE_SIZE ≤ b → h'.mem b = s.heap.mem b := fun b apart =>
    formatSlabByte built listed _ apart
  refine ⟨Function.update chains slab (slots arch slab size), ⟨?_, ?_, ?_, ?_, ?_⟩, ?_⟩
  · refine pagesTaken pages inside free rfl fun p => ?_
    have new : pageAt arch start p = slab ↔ first ≤ p ∧ p < first + 1 := by
      refine ⟨fun it => ?_, fun within => ?_⟩
      · have := pageAtInj (it.trans at'.symm)
        omega
      · rw [← at', show p = first by omega]
    rw [← new]
    unfold Owns
    simp only [isSlabIff]
    constructor
    · rintro (⟨size', old | ⟨_, it⟩⟩ | large)
      · exact Or.inl (Or.inl ⟨size', old⟩)
      · exact Or.inr it
      · exact Or.inl (Or.inr large)
    · rintro ((⟨size', old⟩ | large) | it)
      · exact Or.inl ⟨size', Or.inl old⟩
      · exact Or.inr large
      · exact Or.inl ⟨size, Or.inr ⟨rfl, it⟩⟩
  · refine ⟨lists.sizes, fun size' listed' => ?_, fun size' listed' x member => ?_,
      fun size' listed' x member => ?_⟩
    · rw [parts]
      split <;> rename_i this
      · have once := lists.once size' listed'
        refine List.nodup_cons.mpr ⟨fun old => ?_, (List.nodup_append.mp once).2.1⟩
        exact off.1 size' ⟨listed', Or.inr old⟩
      · exact lists.once size' listed'
    · rw [parts] at member
      split at member
      · rw [List.mem_singleton.mp member, Function.update_self]
        intro nil
        have length := slotsLength arch slab size
        rw [nil] at length
        exact absurd length.symm (Nat.ne_of_gt (numObjsPos built listed))
      · rw [Function.update_of_ne (fresh ⟨listed', Or.inl member⟩)]
        exact lists.hasFree size' listed' x member
    · rw [Function.update_of_ne (fresh ⟨listed', Or.inr member⟩)]
      exact lists.full size' listed' x member
  · refine ⟨fun size' x isSlab => ?_, fun size' x isSlab => ?_⟩
    · rcases (isSlabIff _ _).mp isSlab with old | ⟨_, it⟩
      · exact slabs.page size' x old
      · exact it ▸ page
    · rcases (isSlabIff _ _).mp isSlab with old | ⟨this, it⟩
      · rw [Function.update_of_ne (fresh old)]
        have ok := slabs.ok size' x old
        have apart := pageAddrApart (slabs.page _ _ old) page (fresh old)
        have header := headerRoom arch size' built
        have sizes := sizeBounds old.1
        have width := builtPtr built
        refine slabOkCongr built (fun b low high => byte b (by omega))
          (fun o free b low high => byte b ?_) ok
        have bounds := slotBounds built (ok.inside o free)
        omega
      · rw [this, it, Function.update_self]
        exact formatSlabOk built listed (pageAddrRoom pages page) s.heap.mem
  · refine ⟨fun e old small => ?_, blocks.large, fun size' x isSlab o slotted taken => ?_,
      blocks.apart, fun e old large size' x isSlab => ?_⟩
    · obtain ⟨x, isSlab, slotted, taken⟩ := blocks.small e old small
      refine ⟨x, (isSlabIff _ _).mpr (Or.inl isSlab), slotted, ?_⟩
      rwa [Function.update_of_ne (fresh isSlab)]
    · rcases (isSlabIff _ _).mp isSlab with old | ⟨this, it⟩
      · rw [Function.update_of_ne (fresh old)] at taken
        exact blocks.held size' x old o slotted taken
      · rw [this, it] at slotted
        rw [it, Function.update_self] at taken
        exact absurd slotted taken
    · rcases (isSlabIff _ _).mp isSlab with this | ⟨_, it⟩
      · exact blocks.offSlabs e old large size' x this
      · exact it ▸ off.2 e old
  · intro e old b low high
    have apart := off.2 e old
    have less := roomLe e.2
    change h'.mem b = _
    rw [byte b (by omega)]
    exact intact e old b low high
  · intro size' listed' x memberX y memberY fullX fullY
    rw [parts] at memberX memberY
    split at memberX <;> rename_i this
    · rw [if_pos this] at memberY
      exact (List.mem_singleton.mp memberX).trans (List.mem_singleton.mp memberY).symm
    · rw [if_neg this] at memberY
      rw [Function.update_of_ne (fresh ⟨listed', Or.inl memberX⟩)] at fullX
      rw [Function.update_of_ne (fresh ⟨listed', Or.inl memberY⟩)] at fullY
      exact spare size' listed' x memberX y memberY fullX fullY

/-! ## kalloc -/

theorem roomPos (size : Nat) : 0 < room size := by
  rcases Nat.lt_or_ge 2048 size with large | small
  · have := roomLe size
    omega
  · have := (roomSmall small).2
    omega

theorem runOff {first k a r : Nat} (some' : 0 < k) (filled : 0 < r)
    (off : ∀ p, first ≤ p → p < first + k →
      pageAt arch start p + PAGE_SIZE ≤ a ∨ a + r ≤ pageAt arch start p) :
    pageAt arch start first + k * PAGE_SIZE ≤ a ∨ a + r ≤ pageAt arch start first := by
  induction k with
  | zero => omega
  | succ k ih =>
    have last := off (first + k) (by omega) (by omega)
    cases k with
    | zero => simpa using last
    | succ k =>
      rcases ih (by omega) fun p low high => off p low (by omega) with behind | before
      · have next : pageAt arch start (first + (k + 1)) =
            pageAt arch start first + (k + 1) * PAGE_SIZE := by
          unfold pageAt
          rw [Nat.add_mul]
          omega
        rw [next] at last
        rw [Nat.succ_mul (k + 1)]
        omega
      · exact Or.inr before

theorem largeGood (built : arch.Built) {s : State} (good : Good arch start chains s)
    (spare : Spare arch s.heap chains) {n first} (large : 2048 < n)
    (inside : first + pagesOf n ≤ start.totalPages) (pos : 0 < pagesOf n)
    (free : ∀ p, first ≤ p → p < first + pagesOf n → s.heap.alloc.bitmap.test p = false) :
    let alloc := {s.heap.alloc with
      bitmap := s.heap.alloc.bitmap.setRange first (pagesOf n)
      freePages := s.heap.alloc.freePages - pagesOf n}
    let addr := pageAt arch start first
    addr ≠ NULL ∧ Good arch start chains ⟨{s.heap with alloc := alloc}, (addr, n) :: s.live,
      found addr n s.heap.mem s.stored⟩ ∧ Spare arch {s.heap with alloc := alloc} chains := by
  obtain ⟨pages, lists, slabs, blocks, intact⟩ := good
  intro alloc addr
  have whole : room n = pagesOf n * PAGE_SIZE := if_neg (Nat.not_le.mpr large)
  have page : PageAddr arch start addr := ⟨first, by omega, rfl⟩
  have off : ∀ p, first ≤ p → p < first + pagesOf n → _ := fun p low high =>
    freePageOff built pages slabs blocks (by omega) (free p low high)
  have apart : ∀ e ∈ s.live, Apart (addr, n) e := by
    intro e old
    unfold Apart
    rw [whole]
    exact runOff pos (roomPos e.2) fun p low high => (off p low high).2 e old
  refine ⟨pageAddrPos pages page, ⟨?_, ⟨lists.sizes, lists.once, lists.hasFree, lists.full⟩,
    ⟨slabs.page, slabs.ok⟩, ?_, ?_⟩, spare⟩
  · refine pagesTaken pages inside free rfl fun p => ?_
    have within : addr ≤ pageAt arch start p ∧ pageAt arch start p < addr + room n ↔
        first ≤ p ∧ p < first + pagesOf n := by
      rw [whole]
      unfold addr pageAt PAGE_SIZE
      omega
    rw [← within]
    unfold Owns
    simp only [List.mem_cons, exists_eq_or_imp]
    change ((∃ size, IsSlab s.heap size _) ∨ 2048 < n ∧ _ ∨ _) ↔ _
    simp only [large, true_and]
    rw [or_left_comm, or_comm]
  · refine ⟨fun e old small => ?_, fun e old big => ?_, fun size slab isSlab o slotted taken => ?_,
      List.pairwise_cons.mpr ⟨apart, blocks.apart⟩, fun e old big size slab isSlab => ?_⟩
    · rcases List.mem_cons.mp old with rfl | old
      · exact absurd small (Nat.not_le.mpr large)
      · exact blocks.small e old small
    · rcases List.mem_cons.mp old with rfl | old
      · exact ⟨first, rfl, inside⟩
      · exact blocks.large e old big
    · obtain ⟨e, old, at'⟩ := blocks.held size slab isSlab o slotted taken
      exact ⟨e, List.mem_cons_of_mem _ old, at'⟩
    · rcases List.mem_cons.mp old with rfl | old
      · have clear : addr + pagesOf n * PAGE_SIZE ≤ slab ∨ slab + PAGE_SIZE ≤ addr :=
          runOff pos (by decide) fun p low high =>
            pageAddrApart ⟨p, by omega, rfl⟩ (slabs.page _ _ isSlab) fun it =>
              (off p low high).1 size (it ▸ isSlab)
        dsimp only
        rw [whole]
        exact clear.symm
      · exact blocks.offSlabs e old big size slab isSlab
  · exact intactTake intact (fun _ _ _ _ _ => rfl) apart

theorem kallocGood (built : arch.Built) {s s' : State} (good : Good arch start chains s)
    (spare : Spare arch s.heap chains) {n} (calm : Calm arch s (.kalloc n))
    (ran : step arch s (.kalloc n) = some s') :
    ∃ chains', Good arch start chains' s' ∧ Spare arch s'.heap chains' := by
  unfold step at ran
  dsimp only at ran
  split at ran
  swap
  · cases ran
  rename_i word
  have unchanged : kalloc arch s.heap n = (NULL, s.heap) →
      ∃ chains', Good arch start chains' s' ∧ Spare arch s'.heap chains' := by
    intro failed
    rw [failed] at ran
    cases ran
    exact ⟨chains, good, spare⟩
  by_cases zero : n = 0
  · exact unchanged (if_pos zero)
  by_cases large : n > 2048
  · have result : kalloc arch s.heap n = ((Mm.pageAllocFlags arch s.heap.alloc n MEM_MAP).1,
        {s.heap with alloc := (Mm.pageAllocFlags arch s.heap.alloc n MEM_MAP).2}) := by
      unfold kalloc
      rw [if_neg zero, if_pos large]
    rcases pageTake built good.pages word calm with failed | ⟨first, inside, pos, free, taken⟩
    · rw [failed] at result
      exact unchanged result
    · rw [taken] at result
      obtain ⟨real, good', spare'⟩ := largeGood built good spare large inside pos free
      rw [result] at ran
      dsimp only at ran
      rw [if_neg real] at ran
      cases ran
      exact ⟨chains, good', spare'⟩
  · have small := Nat.not_lt.mp large
    have listed := (roundUpSize small).1
    have cache : getCache s.heap (roundUpPow2 n) = some s.heap := by
      unfold getCache
      rw [good.lists.sizes, if_pos listed]
    cases parts : s.heap.partials (roundUpPow2 n) with
    | cons slab rest =>
      have result : kalloc arch s.heap n = allocFrom arch s.heap (roundUpPow2 n) slab := by
        unfold kalloc
        rw [if_neg zero, if_neg large]
        simp only [cache, parts]
      obtain ⟨real, done⟩ := allocFromGood built good spare small (parts ▸ List.mem_cons_self)
      rw [result] at ran
      rw [if_neg real] at ran
      cases ran
      exact done
    | nil =>
      cases created : createSlab arch s.heap (roundUpPow2 n) with
      | none =>
        refine unchanged ?_
        unfold kalloc
        rw [if_neg zero, if_neg large]
        simp only [cache, parts, created]
      | some made =>
        obtain ⟨slab, h'⟩ := made
        have result : kalloc arch s.heap n = allocFrom arch {h' with
            partials := Function.update h'.partials (roundUpPow2 n) [slab]}
            (roundUpPow2 n) slab := by
          unfold kalloc
          rw [if_neg zero, if_neg large]
          simp only [cache, parts, created]
        obtain ⟨chains', good', spare'⟩ := createGood built good spare listed parts created
        have here : slab ∈ Function.update h'.partials (roundUpPow2 n) [slab] (roundUpPow2 n) := by
          rw [Function.update_self]
          exact List.mem_singleton_self slab
        obtain ⟨real, done⟩ := allocFromGood built good' spare' small here
        rw [result] at ran
        dsimp only at ran real
        rw [if_neg real] at ran
        cases ran
        exact done

/-! ## kfree -/

theorem goodPerm {s : State} (good : Good arch start chains s) {live' : List Block}
    (perm : s.live.Perm live') : Good arch start chains {s with live := live'} := by
  obtain ⟨pages, lists, slabs, blocks, intact⟩ := good
  have mem : ∀ e, e ∈ live' ↔ e ∈ s.live := fun e => perm.symm.mem_iff
  refine ⟨pagesSame pages rfl fun x => ?_, lists, slabs,
    ⟨fun e member => blocks.small e ((mem e).mp member),
      fun e member => blocks.large e ((mem e).mp member), fun size slab isSlab o slotted taken => ?_,
      perm.pairwise blocks.apart apartSymm,
      fun e member => blocks.offSlabs e ((mem e).mp member)⟩,
    fun e member => intact e ((mem e).mp member)⟩
  · unfold Owns
    simp only [mem]
  · obtain ⟨e, member, at'⟩ := blocks.held size slab isSlab o slotted taken
    exact ⟨e, (mem e).mpr member, at'⟩

def SpareBut (arch : Arch) (h : Heap) (chains : Nat → List Nat) (slab : Nat) : Prop :=
  ∀ size ∈ SIZES, ∀ x ∈ h.partials size, ∀ y ∈ h.partials size, x ≠ slab → y ≠ slab →
    (chains x).length = numObjs arch size → (chains y).length = numObjs arch size → x = y

theorem linkedSlab (lists : Lists h chains) {size slab} (isSlab : IsSlab h size slab) :
    linked h slab = true := by
  refine List.any_eq_true.mpr ⟨size, lists.sizes ▸ isSlab.1, decide_eq_true ?_⟩
  exact List.mem_append.mpr isSlab.2

theorem allSlots {m size slab chain} (ok : SlabOk arch m slab size chain)
    (empty : chain.length = numObjs arch size) : ∀ o ∈ slots arch slab size, o ∈ chain := by
  have same : chain.Perm (slots arch slab size) :=
    (ok.once.subperm ok.inside).perm_of_length_le (by rw [slotsLength, empty])
  exact fun o slotted => same.mem_iff.mpr slotted

theorem dropGood {s : State} (good : Good arch start chains s) {size slab}
    (isSlab : IsSlab s.heap size slab) (empty : (chains slab).length = numObjs arch size)
    (spare : SpareBut arch s.heap chains slab) :
    let h' := {unlink s.heap slab with alloc := pageFree arch s.heap.alloc slab}
    Good arch start chains {s with heap := h'} ∧ Spare arch h' chains := by
  obtain ⟨pages, lists, slabs, blocks, intact⟩ := good
  intro h'
  have erasedP : ∀ size' ∈ SIZES, ∀ x, x ∈ h'.partials size' ↔ x ≠ slab ∧ x ∈ s.heap.partials size' :=
    fun size' listed x => (List.nodup_append.mp (lists.once size' listed)).1.mem_erase_iff
  have erasedF : ∀ size' ∈ SIZES, ∀ x, x ∈ h'.full size' ↔ x ≠ slab ∧ x ∈ s.heap.full size' :=
    fun size' listed x => (List.nodup_append.mp (lists.once size' listed)).2.1.mem_erase_iff
  have same : ∀ size' x, IsSlab h' size' x ↔ IsSlab s.heap size' x ∧ x ≠ slab := by
    intro size' x
    unfold IsSlab
    rw [and_assoc]
    refine and_congr_right fun listed => ?_
    rw [erasedP size' listed, erasedF size' listed, ← and_or_left, and_comm]
  have every := allSlots (slabs.ok size slab isSlab) empty
  obtain ⟨p, inside, at'⟩ := slabs.page size slab isSlab
  refine ⟨⟨?_, ⟨lists.sizes, fun size' listed => ?_, fun size' listed x member => ?_,
    fun size' listed x member => ?_⟩,
    ⟨fun size' x old => slabs.page size' x ((same _ _).mp old).1,
      fun size' x old => slabs.ok size' x ((same _ _).mp old).1⟩,
    ⟨fun e old small => ?_, blocks.large, fun size' x isSlab' => ?_, blocks.apart,
      fun e old large size' x isSlab' => ?_⟩, intact⟩, fun size' listed x memberX y memberY => ?_⟩
  · have owned : Owns s.heap s.live (pageAt arch start p) := Or.inl ⟨size, at' ▸ isSlab⟩
    refine pagesGiven pages inside owned (by rw [← at']) fun q => ?_
    have other : pageAt arch start q ≠ slab ↔ q ≠ p := by
      rw [at']
      exact not_congr ⟨pageAtInj, congrArg _⟩
    rw [← other]
    unfold Owns
    simp only [same]
    constructor
    · rintro (⟨size', old, differ⟩ | ⟨e, old, large, low, high⟩)
      · exact ⟨Or.inl ⟨size', old⟩, differ⟩
      · refine ⟨Or.inr ⟨e, old, large, low, high⟩, fun it => ?_⟩
        have off := blocks.offSlabs e old large size slab isSlab
        unfold PAGE_SIZE at off
        omega
    · rintro ⟨⟨size', old⟩ | large, differ⟩
      · exact Or.inl ⟨size', old, differ⟩
      · exact Or.inr large
  · have less : (h'.partials size' ++ h'.full size').Sublist
        (s.heap.partials size' ++ s.heap.full size') :=
      List.erase_sublist.append List.erase_sublist
    exact (lists.once size' listed).sublist less
  · exact lists.hasFree size' listed x ((erasedP size' listed x).mp member).2
  · exact lists.full size' listed x ((erasedF size' listed x).mp member).2
  · obtain ⟨x, isSlab', slotted, taken⟩ := blocks.small e old small
    refine ⟨x, (same _ _).mpr ⟨isSlab', fun it => ?_⟩, slotted, taken⟩
    subst it
    rw [slabSize slabs isSlab' isSlab] at slotted
    exact taken (every e.1 slotted)
  · exact blocks.held size' x ((same _ _).mp isSlab').1
  · exact blocks.offSlabs e old large size' x ((same _ _).mp isSlab').1
  · obtain ⟨differX, oldX⟩ := (erasedP size' listed x).mp memberX
    obtain ⟨differY, oldY⟩ := (erasedP size' listed y).mp memberY
    exact spare size' listed x oldX y oldY differX differY

theorem releaseGood {s : State} (good : Good arch start chains s) {size slab}
    (listed : size ∈ SIZES) (here : slab ∈ s.heap.partials size)
    (spare : SpareBut arch s.heap chains slab) :
    ∃ h', release arch s.heap size slab = some h' ∧ Good arch start chains {s with heap := h'} ∧
      Spare arch h' chains := by
  have isSlab : IsSlab s.heap size slab := ⟨listed, Or.inl here⟩
  have ok := good.slabs.ok size slab isSlab
  have alone : ∀ {size'}, size' ∈ SIZES → slab ∈ s.heap.partials size' → size' = size :=
    fun listed' member => slabSize good.slabs ⟨listed', Or.inl member⟩ isSlab
  unfold release
  rw [ok.count, ok.num]
  split <;> rename_i empty
  · split <;> rename_i only
    · refine ⟨s.heap, rfl, good, fun size' listed' x memberX y memberY => ?_⟩
      by_cases this : size' = size
      · subst this
        rw [only] at memberX memberY
        rw [List.mem_singleton.mp memberX, List.mem_singleton.mp memberY]
        exact fun _ _ => rfl
      · exact spare size' listed' x memberX y memberY
          (fun it => this (alone listed' (it ▸ memberX)))
          (fun it => this (alone listed' (it ▸ memberY)))
    · rw [if_pos (linkedSlab good.lists isSlab)]
      exact ⟨_, rfl, dropGood good isSlab empty spare⟩
  · refine ⟨s.heap, rfl, good, fun size' listed' x memberX y memberY fullX fullY => ?_⟩
    have differ : ∀ z ∈ s.heap.partials size', (chains z).length = numObjs arch size' →
        z ≠ slab := by
      rintro z member whole rfl
      rw [alone listed' member] at whole
      exact empty whole
    exact spare size' listed' x memberX y memberY (differ x memberX fullX) (differ y memberY fullY)
      fullX fullY

theorem movePartialLists (lists : Lists h chains) {size slab} (listed : size ∈ SIZES)
    (here : slab ∈ h.full size) (alone : ∀ size', IsSlab h size' slab → size' = size)
    {chain : List Nat} (left : chain ≠ []) :
    let h' := movePartial h size slab
    (∀ size' x, IsSlab h' size' x ↔ IsSlab h size' x) ∧
      (∀ size' ∈ SIZES, ∀ x ∈ h'.partials size', x ≠ slab → x ∈ h.partials size') ∧
      slab ∈ h'.partials size ∧ Lists h' (Function.update chains slab chain) := by
  intro h'
  have parts : ∀ size', h'.partials size' = if size' = size then slab :: (h.partials size).erase slab
      else (h.partials size').erase slab := fun size' => Function.update_apply _ _ _ size'
  have fulls : ∀ size', h'.full size' = (h.full size').erase slab := fun _ => rfl
  have absent : ∀ size' ∈ SIZES, slab ∉ h.partials size' := fun size' listed' member =>
    lists.hasFree size' listed' slab member (lists.full size listed slab here)
  have erasedP : ∀ size' ∈ SIZES, (h.partials size').erase slab = h.partials size' :=
    fun size' listed' => List.erase_of_not_mem (absent size' listed')
  have erasedF : ∀ size' ∈ SIZES, ∀ x, x ∈ h'.full size' ↔ x ≠ slab ∧ x ∈ h.full size' := by
    intro size' listed' x
    rw [fulls]
    exact (List.nodup_append.mp (lists.once size' listed')).2.1.mem_erase_iff
  have inParts : ∀ size' ∈ SIZES, ∀ x, x ∈ h'.partials size' ↔
      size' = size ∧ x = slab ∨ x ∈ h.partials size' := by
    intro size' listed' x
    rw [parts]
    split <;> rename_i this
    · rw [this, erasedP size listed, List.mem_cons]
      simp
    · rw [erasedP size' listed']
      simp [this]
  refine ⟨fun size' x => and_congr_right fun listed' => ?_, fun size' listed' x member differ => ?_,
    (inParts size listed slab).mpr (Or.inl ⟨rfl, rfl⟩),
    ⟨lists.sizes, fun size' listed' => ?_, fun size' listed' x member => ?_,
      fun size' listed' x member => ?_⟩⟩
  · rw [inParts size' listed', erasedF size' listed']
    by_cases it : x = slab
    · subst it
      simp only [and_true, ne_eq, not_true, false_and, or_false]
      constructor
      · rintro (rfl | member)
        · exact Or.inr here
        · exact Or.inl member
      · rintro (member | member)
        · exact Or.inr member
        · exact Or.inl (alone size' ⟨listed', Or.inr member⟩)
    · simp [it]
  · exact ((inParts size' listed' x).mp member).resolve_left fun both => differ both.2
  · rw [parts, fulls]
    have once := lists.once size' listed'
    split <;> rename_i this
    · subst this
      rw [erasedP size' listed]
      have whole : (slab :: h.partials size' ++ (h.full size').erase slab).Perm
          (h.partials size' ++ h.full size') :=
        List.perm_middle.symm.trans ((List.perm_cons_erase here).symm.append_left _)
      exact whole.nodup_iff.mpr once
    · rw [erasedP size' listed']
      exact once.sublist (List.Sublist.append_left List.erase_sublist _)
  · by_cases it : x = slab
    · rwa [it, Function.update_self]
    · rw [Function.update_of_ne it]
      exact lists.hasFree size' listed' x
        (((inParts size' listed' x).mp member).resolve_left fun both => it both.2)
  · obtain ⟨differ, old⟩ := (erasedF size' listed' x).mp member
    rw [Function.update_of_ne differ]
    exact lists.full size' listed' x old

theorem putGood (built : arch.Built) {s : State} {o n rest} (split : s.live = (o, n) :: rest)
    (good : Good arch start chains s) (spare : Spare arch s.heap chains) (small : n ≤ 2048) {slab}
    (isSlab : IsSlab s.heap (roundUpPow2 n) slab) (slotted : o ∈ slots arch slab (roundUpPow2 n))
    (h' : Heap) (ok : SlabOk arch h'.mem slab (roundUpPow2 n) (o :: chains slab))
    (byte : ∀ b, b < slab ∨ slab + slabHeader arch ≤ b → b < o ∨ o + ptr arch ≤ b →
      h'.mem b = s.heap.mem b)
    (alloc : h'.alloc = s.heap.alloc)
    (same : ∀ size slab, IsSlab h' size slab ↔ IsSlab s.heap size slab)
    (lists : Lists h' (Function.update chains slab (o :: chains slab)))
    (others : ∀ size ∈ SIZES, ∀ x ∈ h'.partials size, x ≠ slab → x ∈ s.heap.partials size) :
    Good arch start (Function.update chains slab (o :: chains slab))
      {s with heap := h', live := rest} ∧
    SpareBut arch h' (Function.update chains slab (o :: chains slab)) slab := by
  obtain ⟨pages, _, slabs, blocks, intact⟩ := good
  rw [split] at pages blocks intact
  have header := headerRoom arch (roundUpPow2 n) built
  have bounds := slotBounds built slotted
  have width := builtPtr built
  have sizes := roomSmall small
  have intact' : Intact h'.mem s.stored rest := by
    intro e old b low high
    have member : e ∈ (o, n) :: rest := List.mem_cons_of_mem _ old
    have off := (blockOffSlab built slabs blocks member isSlab).1
    have apart := (List.pairwise_cons.mp blocks.apart).1 e old
    have less := roomLe e.2
    unfold Apart at apart
    dsimp only at apart
    rw [byte b (by omega) (by omega)]
    exact intact e member b low high
  refine ⟨⟨pagesSame pages alloc fun x =>
      (ownsSmall (e := (o, n)) (fun size x => (same size x).symm) small x).symm, lists,
    slabsUpdate built slabs same isSlab ok fun b off => byte b (by omega) (by omega),
    blocksPut built slabs blocks same small isSlab slotted, intact'⟩,
    fun size listed x memberX y memberY differX differY => ?_⟩
  rw [Function.update_of_ne differX, Function.update_of_ne differY]
  exact spare size listed x (others size listed x memberX differX) y
    (others size listed y memberY differY)

theorem kfreeSmall (built : arch.Built) {s : State} {o n rest} (split : s.live = (o, n) :: rest)
    (good : Good arch start chains s) (spare : Spare arch s.heap chains) (small : n ≤ 2048) :
    ∃ h' chains', kfree arch s.heap o = some h' ∧
      Good arch start chains' {s with heap := h', live := rest} ∧ Spare arch h' chains' := by
  obtain ⟨slab, isSlab, slotted, taken, low, high⟩ :=
    smallInside built good.blocks (split ▸ List.mem_cons_self : (o, n) ∈ s.live) small
  dsimp only at isSlab slotted taken low high
  have lists := good.lists
  have listed := isSlab.1
  have page := good.slabs.page _ _ isSlab
  have ok := good.slabs.ok _ _ isSlab
  have sizes := roomSmall small
  have real := pageAddrPos good.pages page
  have aligned : start.basePhys % PAGE_SIZE = 0 := good.pages.base.1 ▸ good.pages.window.aligned
  have at' : addrToSlab o = slab := addrToSlabPage built aligned page (by omega) (by omega)
  have isPage : isSlabPage s.heap.mem o = true := by
    unfold isSlabPage
    rw [at', ok.magic]
    rfl
  have nonzero : o ≠ NULL := by
    unfold NULL at *
    omega
  have okPut := putObjOk built listed (pageAddrRoom good.pages page) ok slotted taken
  have byte := fun b => putObjByte built s.heap.mem slab (o := o) (b := b)
  unfold kfree
  rw [if_neg nonzero, isPage]
  simp only [Bool.not_true, Bool.false_eq_true, if_false]
  rw [at', ok.size]
  generalize putObj arch s.heap.mem slab o = m at okPut byte
  have cache : getCache {s.heap with mem := m} (roundUpPow2 n) = some {s.heap with mem := m} := by
    unfold getCache
    dsimp only
    rw [lists.sizes, if_pos listed]
  rw [cache]
  dsimp only
  rw [ok.count]
  split <;> rename_i wasFull
  · have nil : chains slab = [] := List.length_eq_zero_iff.mp wasFull
    have here : slab ∈ s.heap.full (roundUpPow2 n) :=
      isSlab.2.resolve_left fun member => lists.hasFree _ listed slab member nil
    have lists' : Lists {s.heap with mem := m} chains :=
      ⟨lists.sizes, lists.once, lists.hasFree, lists.full⟩
    have isSlab' : IsSlab {s.heap with mem := m} (roundUpPow2 n) slab := isSlab
    rw [if_pos (linkedSlab lists' isSlab')]
    obtain ⟨same, others, inside, moved⟩ := movePartialLists lists' listed here
      (fun size' other => slabSize good.slabs other isSlab) (List.cons_ne_nil o (chains slab))
    obtain ⟨good', but⟩ := putGood built split good spare small isSlab slotted
      (movePartial {s.heap with mem := m} (roundUpPow2 n) slab) okPut byte rfl same moved others
    obtain ⟨h', released⟩ := releaseGood good' listed inside but
    exact ⟨h', _, released⟩
  · have here : slab ∈ s.heap.partials (roundUpPow2 n) :=
      isSlab.2.resolve_right fun member => wasFull (by rw [lists.full _ listed slab member]; rfl)
    obtain ⟨good', but⟩ := putGood built split good spare small isSlab slotted
      {s.heap with mem := m} okPut byte rfl (fun _ _ => Iff.rfl)
      (listsChain lists listed here m (List.cons_ne_nil _ _)) (fun _ _ _ member _ => member)
    obtain ⟨h', released⟩ := releaseGood good' listed here but
    exact ⟨h', _, released⟩

theorem kfreeLarge (built : arch.Built) {s : State} {o n rest} (split : s.live = (o, n) :: rest)
    (good : Good arch start chains s) (spare : Spare arch s.heap chains) (large : 2048 < n)
    (short : n ≤ PAGE_SIZE) (plain : s.heap.mem.load o 4 ≠ SLAB_MAGIC) :
    ∃ h', kfree arch s.heap o = some h' ∧
      Good arch start chains {s with heap := h', live := rest} ∧ Spare arch h' chains := by
  obtain ⟨pages, lists, slabs, blocks, intact⟩ := good
  rw [split] at pages blocks intact
  have one : pagesOf n = 1 := by
    unfold pagesOf PAGE_SIZE at *
    omega
  have whole : room n = PAGE_SIZE := by
    unfold room
    rw [if_neg (Nat.not_le.mpr large), one, Nat.one_mul]
  obtain ⟨p, at', inside⟩ := blocks.large _ List.mem_cons_self large
  dsimp only at at' inside
  rw [one] at inside
  have page : PageAddr arch start o := ⟨p, inside, at'⟩
  have nonzero := pageAddrPos pages page
  have aligned : start.basePhys % PAGE_SIZE = 0 := pages.base.1 ▸ pages.window.aligned
  have here : addrToSlab o = o :=
    addrToSlabPage built aligned page (Nat.le_refl _) (by unfold PAGE_SIZE; omega)
  have notSlab : isSlabPage s.heap.mem o = false := by
    unfold isSlabPage
    rw [here]
    exact beq_eq_false_iff_ne.mpr plain
  have result : kfree arch s.heap o = some {s.heap with alloc := pageFree arch s.heap.alloc o} := by
    unfold kfree
    rw [if_neg nonzero, notSlab]
    rfl
  obtain ⟨first, apart⟩ := List.pairwise_cons.mp blocks.apart
  refine ⟨_, result, ⟨?_, ⟨lists.sizes, lists.once, lists.hasFree, lists.full⟩,
    ⟨slabs.page, slabs.ok⟩, ⟨fun e old => blocks.small e (List.mem_cons_of_mem _ old),
      fun e old => blocks.large e (List.mem_cons_of_mem _ old),
      fun size slab isSlab x slotted taken => ?_, apart,
      fun e old => blocks.offSlabs e (List.mem_cons_of_mem _ old)⟩,
    fun e old => intact e (List.mem_cons_of_mem _ old)⟩, spare⟩
  · have start' : o ≤ pageAt arch start p ∧ pageAt arch start p < o + room n := by
      rw [whole, ← at']
      unfold PAGE_SIZE
      omega
    have owned : Owns s.heap ((o, n) :: rest) (pageAt arch start p) :=
      Or.inr ⟨(o, n), List.mem_cons_self, large, start'⟩
    refine pagesGiven pages inside owned (by rw [← at']) fun q => ?_
    unfold Owns
    simp only [List.mem_cons, exists_eq_or_imp]
    change (∃ size, IsSlab s.heap size _) ∨ _ ↔ _
    constructor
    · rintro (⟨size, isSlab⟩ | ⟨e, old, big, low, high⟩)
      · have off := blocks.offSlabs _ List.mem_cons_self large size _ isSlab
        rw [whole] at off
        refine ⟨Or.inl ⟨size, isSlab⟩, fun it => ?_⟩
        rw [it, ← at'] at off
        unfold PAGE_SIZE at off
        omega
      · have off := first e old
        unfold Apart at off
        dsimp only at off
        refine ⟨Or.inr (Or.inr ⟨e, old, big, low, high⟩), fun it => ?_⟩
        rw [it] at low high
        omega
    · rintro ⟨isSlab | ⟨_, low, high⟩ | old, differ⟩
      · exact Or.inl isSlab
      · rw [whole, at'] at high
        rw [at'] at low
        refine absurd ?_ differ
        unfold pageAt PAGE_SIZE at low high
        omega
      · exact Or.inr old
  · obtain ⟨e, old, same⟩ := blocks.held size slab isSlab x slotted taken
    rcases List.mem_cons.mp old with rfl | old
    · have off := blocks.offSlabs _ List.mem_cons_self large size slab isSlab
      have bounds := slotBounds built slotted
      have sizes := sizeBounds isSlab.1
      dsimp only at same off
      rw [whole] at off
      omega
    · exact ⟨e, old, same⟩

theorem kfreeGood (built : arch.Built) {s : State} (good : Good arch start chains s)
    (spare : Spare arch s.heap chains) {addr e} (calm : Calm arch s (.kfree addr))
    (has : s.live.find? (fun e => e.1 == addr) = some e) :
    ∃ h' chains', kfree arch s.heap addr = some h' ∧
      Good arch start chains' {s with heap := h', live := s.live.erase e} ∧
      Spare arch h' chains' := by
  have member := List.mem_of_find?_eq_some has
  have at' : e.1 = addr := by simpa using List.find?_some has
  obtain ⟨o, n⟩ := e
  dsimp only at at'
  subst at'
  have good' := goodPerm good (List.perm_cons_erase member)
  rcases Nat.lt_or_ge 2048 n with large | small
  · obtain ⟨short, plain⟩ := calm _ member rfl large
    obtain ⟨h', freed, done, spare'⟩ := kfreeLarge (s := {s with live := (o, n) :: s.live.erase (o, n)})
      built rfl good' spare large short plain
    exact ⟨h', chains, freed, done, spare'⟩
  · exact kfreeSmall (s := {s with live := (o, n) :: s.live.erase (o, n)}) built rfl good' spare small

/-! ## Stores -/

theorem storeGood (built : arch.Built) {s : State} (good : Good arch start chains s) {addr bytes e}
    (member : e ∈ s.live) (low : e.1 ≤ addr) (high : addr + bytes.length ≤ e.1 + e.2) :
    Good arch start chains {s with
      heap := {s.heap with mem := s.heap.mem.write addr bytes}
      stored := s.stored.write addr bytes} := by
  obtain ⟨pages, lists, slabs, blocks, intact⟩ := good
  have less := roomLe e.2
  refine ⟨pagesSame pages rfl fun _ => Iff.rfl, ⟨lists.sizes, lists.once, lists.hasFree, lists.full⟩,
    ⟨slabs.page, fun size slab isSlab => ?_⟩,
    ⟨blocks.small, blocks.large, blocks.held, blocks.apart, blocks.offSlabs⟩,
    fun e' old b below above => ?_⟩
  · obtain ⟨header, nodes⟩ := blockOffSlab built slabs blocks member isSlab
    have sizes := sizeBounds isSlab.1
    have width := builtPtr built
    refine slabOkCongr built (fun b below above => Buf.writeByte _ (by omega))
      (fun o free b below above => Buf.writeByte _ ?_) (slabs.ok size slab isSlab)
    have := nodes o free
    omega
  · change s.heap.mem.write addr bytes b = s.stored.write addr bytes b
    unfold Buf.write
    split
    · rfl
    · exact intact e' old b below above

/-! ## Runs -/

def Kept (arch : Arch) (start : PageAllocator) (s : State) : Prop :=
  ∃ chains, Good arch start chains s ∧ Spare arch s.heap chains

theorem stepKept (built : arch.Built) {s act s'} (kept : Kept arch start s)
    (calm : Calm arch s act) (ran : step arch s act = some s') : Kept arch start s' := by
  obtain ⟨chains, good, spare⟩ := kept
  cases act with
  | kalloc n => exact kallocGood built good spare calm ran
  | kfree addr =>
    unfold step at ran
    dsimp only at ran
    split at ran
    · cases ran
    · rename_i e has
      obtain ⟨h', chains', freed, done⟩ := kfreeGood built good spare calm has
      rw [freed] at ran
      cases ran
      exact ⟨chains', done⟩
  | store addr bytes =>
    unfold step at ran
    dsimp only at ran
    split at ran <;> rename_i inside
    · cases ran
      obtain ⟨e, member, within⟩ := List.any_eq_true.mp inside
      simp only [Bool.and_eq_true, decide_eq_true_eq] at within
      exact ⟨chains, storeGood built good member within.1 within.2, spare⟩
    · cases ran

theorem addSlabFresh {alloc : PageAllocator} {mem : Buf} {sizes : List Nat} {size : Nat}
    (whole : roundUpPow2 size = size) (small : size ≤ 2048) (new : size ∉ sizes)
    (few : sizes.length < MAX_SLAB_CACHES) :
    addSlab ⟨alloc, mem, sizes, fun _ => [], fun _ => []⟩ size =
      ⟨alloc, mem, sizes ++ [size], fun _ => [], fun _ => []⟩ := by
  unfold addSlab getCache
  dsimp only
  rw [whole, if_neg (Nat.not_lt.mpr small), if_neg new, if_neg (Nat.not_le.mpr few)]
  have none' : Function.update (fun _ : Nat => ([] : List Nat)) size [] = fun _ => [] :=
    Function.update_eq_self size _
  rw [none', Option.getD_some]

theorem slabInitEmpty (alloc : PageAllocator) (mem : Buf) :
    slabInit alloc mem = ⟨alloc, mem, SIZES, fun _ => [], fun _ => []⟩ := by
  unfold slabInit
  simp only [List.foldl_cons, List.foldl_nil]
  rw [addSlabFresh rfl (by decide) (by decide) (by decide),
    addSlabFresh rfl (by decide) (by decide) (by decide),
    addSlabFresh rfl (by decide) (by decide) (by decide),
    addSlabFresh rfl (by decide) (by decide) (by decide),
    addSlabFresh rfl (by decide) (by decide) (by decide),
    addSlabFresh rfl (by decide) (by decide) (by decide),
    addSlabFresh rfl (by decide) (by decide) (by decide),
    addSlabFresh rfl (by decide) (by decide) (by decide),
    addSlabFresh rfl (by decide) (by decide) (by decide)]
  rfl

def boot (alloc : PageAllocator) (mem : Buf) : State := ⟨slabInit alloc mem, [], mem⟩

theorem bootKept {taken : Mm.State} (good : Mm.Good arch taken) (mem : Buf) :
    Kept arch taken.alloc (boot taken.alloc mem) := by
  have empty : boot taken.alloc mem =
      ⟨⟨taken.alloc, mem, SIZES, fun _ => [], fun _ => []⟩, [], mem⟩ := by
    unfold boot
    rw [slabInitEmpty]
  rw [empty]
  generalize fresh : (⟨taken.alloc, mem, SIZES, fun _ => [], fun _ => []⟩ : Heap) = h
  have noSlab : ∀ size slab, ¬ IsSlab h size slab := by
    rw [← fresh]
    rintro size slab ⟨_, old | old⟩ <;> cases old
  have noOwner : ∀ x, ¬ Owns h [] x := by
    rintro x (⟨size, isSlab⟩ | ⟨e, old, _⟩)
    · exact noSlab size x isSlab
    · cases old
  have alloc : h.alloc = taken.alloc := by rw [← fresh]
  refine ⟨fun _ => [], ⟨⟨?_, ?_, ?_, fun p _ => ?_, fun p _ owned => absurd owned (noOwner _)⟩, ?_,
    ⟨fun size slab isSlab => absurd isSlab (noSlab size slab),
      fun size slab isSlab => absurd isSlab (noSlab size slab)⟩,
    ⟨nofun, nofun, fun size slab isSlab => absurd isSlab (noSlab size slab), List.Pairwise.nil,
      nofun⟩, nofun⟩, fun size listed x member => absurd ⟨listed, Or.inl member⟩ (noSlab size x)⟩
  · exact alloc ▸ good.window
  · exact alloc ▸ good.accounted.counter
  · exact alloc ▸ ⟨rfl, rfl⟩
  · rw [or_iff_left (noOwner _)]
    exact alloc ▸ Iff.rfl
  · rw [← fresh]
    exact ⟨rfl, fun _ _ => List.nodup_nil, nofun, nofun⟩

theorem idleSlabs (built : arch.Built) {s : State} (good : Good arch start chains s)
    (spare : Spare arch s.heap chains) (none' : s.live = []) {size} (listed : size ∈ SIZES) :
    (s.heap.partials size ++ s.heap.full size).length ≤ 1 := by
  have sizes := sizeBounds listed
  have empty : ∀ slab, IsSlab s.heap size slab →
      (chains slab).length = numObjs arch size := by
    intro slab isSlab
    have ok := good.slabs.ok size slab isSlab
    have every : ∀ o ∈ slots arch slab size, o ∈ chains slab := by
      intro o slotted
      by_contra taken
      obtain ⟨e, old, _⟩ := good.blocks.held size slab isSlab o slotted taken
      rw [none'] at old
      cases old
    have least := ((slotsNodup (by omega)).subperm every).length_le
    rw [slotsLength] at least
    exact Nat.le_antisymm (chainLength ok) least
  have noFull : s.heap.full size = [] := by
    refine List.eq_nil_iff_forall_not_mem.mpr fun slab member => ?_
    have whole := empty slab ⟨listed, Or.inr member⟩
    rw [good.lists.full size listed slab member] at whole
    exact absurd whole (Nat.ne_of_lt (numObjsPos built listed))
  have once := good.lists.once size listed
  have equal : ∀ x ∈ s.heap.partials size, ∀ y ∈ s.heap.partials size, x = y :=
    fun x memberX y memberY => spare size listed x memberX y memberY
      (empty x ⟨listed, Or.inl memberX⟩) (empty y ⟨listed, Or.inl memberY⟩)
  rw [noFull, List.append_nil] at once ⊢
  cases parts : s.heap.partials size with
  | nil => exact Nat.zero_le 1
  | cons x rest =>
    cases rest with
    | nil => exact Nat.le_refl 1
    | cons y rest =>
      rw [parts] at once equal
      have same := equal x List.mem_cons_self y (List.mem_cons_of_mem x List.mem_cons_self)
      exact absurd (same ▸ List.mem_cons_self) (List.nodup_cons.mp once).1

theorem slabPagesNodup {s : State} (good : Good arch start chains s) :
    (slabPages s.heap).Nodup := by
  refine List.nodup_flatMap.mpr ⟨fun size listed => good.lists.once size listed, ?_⟩
  have differ : SIZES.Pairwise (· ≠ ·) := by decide
  refine differ.imp_of_mem fun {a b} listedA listedB differ x memberA memberB => ?_
  exact differ (slabSize good.slabs ⟨listedA, List.mem_append.mp memberA⟩
    ⟨listedB, List.mem_append.mp memberB⟩)

theorem slabPagesMem {x : Nat} : x ∈ slabPages h ↔ ∃ size, IsSlab h size x := by
  unfold slabPages IsSlab
  simp only [List.mem_flatMap, List.mem_append]

theorem idleFree {s : State} (good : Good arch start chains s) (none' : s.live = [])
    (counted : start.freePages = start.bitmap.freeCount start.totalPages) :
    s.heap.alloc.freePages + (slabPages s.heap).length = start.freePages := by
  obtain ⟨window, counter, base, used, fresh⟩ := good.pages
  have ownsIff : ∀ x, Owns s.heap s.live x ↔ x ∈ slabPages s.heap := by
    intro x
    rw [slabPagesMem]
    unfold Owns
    rw [none']
    simp
  let here := (Finset.range start.totalPages).filter fun p => pageAt arch start p ∈ slabPages s.heap
  have count : here.card = (slabPages s.heap).length := by
    have image : here.image (pageAt arch start) = (slabPages s.heap).toFinset := by
      ext x
      simp only [here, Finset.mem_image, Finset.mem_filter, Finset.mem_range, List.mem_toFinset]
      constructor
      · rintro ⟨p, ⟨_, member⟩, rfl⟩
        exact member
      · intro member
        obtain ⟨size, isSlab⟩ := slabPagesMem.mp member
        obtain ⟨p, inside, rfl⟩ := good.slabs.page size x isSlab
        exact ⟨p, ⟨inside, member⟩, rfl⟩
    rw [← List.toFinset_card_of_nodup (slabPagesNodup good), ← image]
    exact (Finset.card_image_of_injective here fun _ _ same => pageAtInj same).symm
  have parts : start.bitmap.freeBits start.totalPages =
      s.heap.alloc.bitmap.freeBits start.totalPages ∪ here := by
    ext p
    simp only [here, Finset.mem_union, Bitmap.freeBitsMem, Finset.mem_filter, Finset.mem_range]
    constructor
    · rintro ⟨inside, free⟩
      by_cases owned : pageAt arch start p ∈ slabPages s.heap
      · exact Or.inr ⟨inside, owned⟩
      · refine Or.inl ⟨inside, ?_⟩
        rw [Bool.eq_false_iff]
        intro taken
        rcases (used p inside).mp taken with old | new
        · cases old.symm.trans free
        · exact owned ((ownsIff _).mp new)
    · rintro (⟨inside, free⟩ | ⟨inside, owned⟩)
      · refine ⟨inside, ?_⟩
        rw [Bool.eq_false_iff]
        intro taken
        cases free.symm.trans ((used p inside).mpr (Or.inl taken))
      · exact ⟨inside, fresh p inside ((ownsIff _).mpr owned)⟩
  have apart : Disjoint (s.heap.alloc.bitmap.freeBits start.totalPages) here := by
    rw [Finset.disjoint_left]
    intro p free owned
    obtain ⟨inside, free⟩ := Bitmap.freeBitsMem.mp free
    have taken := (used p inside).mpr (Or.inr ((ownsIff _).mpr (Finset.mem_filter.mp owned).2))
    cases free.symm.trans taken
  rw [counter, counted, base.2]
  unfold Bitmap.freeCount
  rw [parts, Finset.card_union_of_disjoint apart, count]

theorem slotFreeIff (built : arch.Built) {s : State} (good : Good arch start chains s) {size slab o}
    (isSlab : IsSlab s.heap size slab) (slotted : o ∈ slots arch slab size) :
    o ∈ chains slab ↔ ∀ e ∈ s.live, e.1 ≠ o := by
  constructor
  · intro free e old at'
    have off := (blockOffSlab built good.slabs good.blocks old isSlab).2 o free
    have pos := roomPos e.2
    have sizes := sizeBounds isSlab.1
    omega
  · intro unused
    by_contra taken
    obtain ⟨e, old, at'⟩ := good.blocks.held size slab isSlab o slotted taken
    exact unused e old at'

theorem keptSound (built : arch.Built) {s : State} (kept : Kept arch start s)
    (counted : start.freePages = start.bitmap.freeCount start.totalPages) : Sound arch start s := by
  obtain ⟨chains, good, spare⟩ := kept
  refine ⟨good.blocks.apart.imp fun {a b} apart => ?_, good.intact, good.pages.used,
    fun size slab isSlab => ⟨chains slab, good.slabs.ok size slab isSlab, fun o slotted =>
      slotFreeIff built good isSlab slotted⟩,
    fun none' => ⟨idleFree good none' counted, fun size listed =>
      idleSlabs built good spare none' listed⟩⟩
  have lessA := roomLe a.2
  have lessB := roomLe b.2
  unfold Apart at apart
  omega

end

theorem kfreeReturns {arch : Arch} (built : arch.Built) {start : PageAllocator} {s : State} {addr : Nat}
    (kept : Kept arch start s) (live : ∃ e ∈ s.live, e.1 = addr) (calm : Calm arch s (.kfree addr)) :
    (step arch s (.kfree addr)).isSome := by
  obtain ⟨chains, good, spare⟩ := kept
  obtain ⟨e, has⟩ : ∃ e, s.live.find? (fun e => e.1 == addr) = some e := by
    obtain ⟨e, member, at'⟩ := live
    refine Option.isSome_iff_exists.mp (List.find?_isSome.mpr ⟨e, member, ?_⟩)
    exact beq_iff_eq.mpr at'
  obtain ⟨h', chains', freed, _⟩ := kfreeGood built good spare calm has
  unfold step
  dsimp only
  rw [has]
  dsimp only
  rw [freed]
  rfl

section Boot

variable {arch : Arch} (built : arch.Built) {memTotalKb kernelEndPhys : Nat} {a : PageAllocator}
  (mapped : Mm.firstFreePhys kernelEndPhys ≤ Mm.directMapSize arch memTotalKb)
  (init : Mm.mmInit arch memTotalKb kernelEndPhys = some a) {others : List Mm.Action} {taken : Mm.State}
  (uncut : Run.Meets (Mm.step arch) (Mm.Uncut arch) ⟨a, []⟩ others)
  (reached : Run.run (Mm.step arch) ⟨a, []⟩ others = some taken)
include built mapped init uncut reached

theorem takenGood : Mm.Good arch taken :=
  Run.invariantMeets (fun _ _ _ good uncut ran => Mm.stepGood built good uncut ran)
    (Mm.mmInitGood built mapped init) uncut reached

theorem runKept {mem : Buf} {acts s}
    (calm : Run.Meets (step arch) (Calm arch) (boot taken.alloc mem) acts)
    (ran : Run.run (step arch) (boot taken.alloc mem) acts = some s) : Kept arch taken.alloc s :=
  Run.invariantMeets (fun _ _ _ kept calm ran => stepKept built kept calm ran)
    (bootKept (takenGood built mapped init uncut reached) mem) calm ran

end Boot

/-- From the memory mm_init leaves, with any pages taken by others and any bytes in
it: as long as no large block of several pages is freed, nor one that begins with the
magic, and no page count is cut, the heap stays sound, and kfree of a live block that
meets this comes to its end. -/
theorem heapSound {arch : Arch} (built : arch.Built) {memTotalKb kernelEndPhys a}
    (mapped : Mm.firstFreePhys kernelEndPhys ≤ Mm.directMapSize arch memTotalKb)
    (init : Mm.mmInit arch memTotalKb kernelEndPhys = some a) {others taken}
    (uncut : Run.Meets (Mm.step arch) (Mm.Uncut arch) ⟨a, []⟩ others)
    (reached : Run.run (Mm.step arch) ⟨a, []⟩ others = some taken) {mem : Buf} {acts s}
    (calm : Run.Meets (step arch) (Calm arch) (boot taken.alloc mem) acts)
    (ran : Run.run (step arch) (boot taken.alloc mem) acts = some s) :
    Sound arch taken.alloc s ∧
    ∀ addr, (∃ e ∈ s.live, e.1 = addr) → Calm arch s (.kfree addr) →
      (step arch s (.kfree addr)).isSome := by
  have good := takenGood built mapped init uncut reached
  have kept := runKept built mapped init uncut reached calm ran
  exact ⟨keptSound built kept good.accounted.counter, fun addr live calm =>
    kfreeReturns built kept live calm⟩

open Mm (smallMachine x86_64)

def calmActions : List Action :=
  [.kalloc 2000, .kalloc 4000, .store 0xFFFFFFFF80301000 [1, 2, 3, 4],
    .kfree 0xFFFFFFFF80300028, .kfree 0xFFFFFFFF80301000]

theorem calmHeap : ∃ s, Run.run (step x86_64) (boot smallMachine Buf.zero) calmActions = some s ∧
    s.live = [] ∧ s.heap.alloc.freePages = 7423 ∧ Sound x86_64 smallMachine s := by
  obtain ⟨s, ran, facts⟩ := Option.map_eq_some_iff.mp
    (show (Run.run (step x86_64) (boot smallMachine Buf.zero) calmActions).map
      (fun s => (s.live, s.heap.alloc.freePages)) = some ([], 7423) by decide +kernel)
  obtain ⟨live, free⟩ := Prod.mk.inj facts
  have init : Mm.mmInit x86_64 65536 0x300000 = some smallMachine := rfl
  have calm : Run.Meets (step x86_64) (Calm x86_64) (boot smallMachine Buf.zero) calmActions := by
    decide +kernel
  have uncut : Run.Meets (Mm.step x86_64) (Mm.Uncut x86_64) ⟨smallMachine, []⟩ [] := trivial
  exact ⟨s, ran, live, free, (heapSound (Or.inr rfl) (by decide) init uncut rfl calm ran).1⟩

def twoPages : List Action := [.kalloc 5000, .kfree 0xFFFFFFFF80300000]

def looksLikeSlab : List Action :=
  [.kalloc 4000, .store 0xFFFFFFFF80300000 ([0x42, 0x41, 0x4C, 0x53] ++ List.replicate 24 0 ++ [1]),
    .kfree 0xFFFFFFFF80300000]

theorem pagesLeaked {arch : Arch} {start : PageAllocator} {s : State}
    (leaked : s.live = [] ∧ slabPages s.heap = [] ∧ s.heap.alloc.freePages ≠ start.freePages) :
    ¬ Sound arch start s := by
  intro sound
  have balance := (sound.idle leaked.1).1
  rw [leaked.2.1] at balance
  exact leaked.2.2 balance

theorem heapLeaks :
    (∃ s, Run.run (step x86_64) (boot smallMachine Buf.zero) twoPages = some s ∧
      ¬ Sound x86_64 smallMachine s) ∧
    ∃ s, Run.run (step x86_64) (boot smallMachine Buf.zero) looksLikeSlab = some s ∧
      ¬ Sound x86_64 smallMachine s := by
  have leaks : ∀ acts, (Run.run (step x86_64) (boot smallMachine Buf.zero) acts).map
      (fun s => (s.live, slabPages s.heap, decide (s.heap.alloc.freePages = 7424))) =
        some ([], [], false) →
      ∃ s, Run.run (step x86_64) (boot smallMachine Buf.zero) acts = some s ∧
        ¬ Sound x86_64 smallMachine s := by
    intro acts result
    obtain ⟨s, ran, facts⟩ := Option.map_eq_some_iff.mp result
    obtain ⟨live, rest⟩ := Prod.mk.inj facts
    obtain ⟨slabs, free⟩ := Prod.mk.inj rest
    exact ⟨s, ran, pagesLeaked ⟨live, slabs, of_decide_eq_false free⟩⟩
  exact ⟨leaks twoPages (by decide +kernel), leaks looksLikeSlab (by decide +kernel)⟩

end Scepter.Kalloc
