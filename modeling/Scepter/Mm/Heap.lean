import Scepter.Mm.Slab

/-! The heap under kalloc, kfree and stores to memory that is allocated, and what is
true of it between the calls. `live` are the allocations not freed yet and `stored` is
what their owners found or put there; the code has neither. -/
namespace Scepter.Kalloc
open Mm (Arch PageAllocator NULL PAGE_SIZE MEM_MAP pageFree pagesOf Window)
open Slab

abbrev Block := Nat × Nat

structure State where
  heap : Heap
  live : List Block
  stored : Buf

inductive Action where
  | kalloc (size : Nat)
  | kfree (addr : Nat)
  | store (addr : Nat) (bytes : List Byte)

def found (addr size : Nat) (now stored : Buf) : Buf :=
  fun b => if addr ≤ b ∧ b < addr + size then now b else stored b

def step (arch : Arch) (s : State) : Action → Option State
  | .kalloc size =>
    if arch.Word size then
      let (addr, heap) := kalloc arch s.heap size
      if addr = NULL then some {s with heap := heap}
      else some ⟨heap, (addr, size) :: s.live, found addr size heap.mem s.stored⟩
    else none
  | .kfree addr => match s.live.find? fun e => e.1 == addr with
    | none => none
    | some e => (kfree arch s.heap addr).map fun heap =>
      {s with heap := heap, live := s.live.erase e}
  | .store addr bytes =>
    if s.live.any fun e => e.1 ≤ addr && addr + bytes.length ≤ e.1 + e.2 then some {s with
      heap := {s.heap with mem := s.heap.mem.write addr bytes}
      stored := s.stored.write addr bytes}
    else none

/-- A large block has one page, whose first word is not the magic of a slab, when it
is freed. Page counts are not cut to 32 bits. -/
def Calm (arch : Arch) (s : State) : Action → Prop
  | .kalloc size => Mm.Uncut arch ⟨s.heap.alloc, []⟩ (.alloc size MEM_MAP)
  | .kfree addr => ∀ e ∈ s.live, e.1 = addr → 2048 < e.2 →
    e.2 ≤ PAGE_SIZE ∧ s.heap.mem.load addr 4 ≠ SLAB_MAGIC
  | .store _ _ => True
instance (arch s act) : Decidable (Calm arch s act) := by
  cases act <;> unfold Calm <;> infer_instance

def IsSlab (h : Heap) (size slab : Nat) : Prop :=
  size ∈ SIZES ∧ (slab ∈ h.partials size ∨ slab ∈ h.full size)

def room (size : Nat) : Nat :=
  if size ≤ 2048 then roundUpPow2 size else pagesOf size * PAGE_SIZE

def Owns (h : Heap) (live : List Block) (page : Nat) : Prop :=
  (∃ size, IsSlab h size page) ∨
  ∃ e ∈ live, 2048 < e.2 ∧ e.1 ≤ page ∧ page < e.1 + room e.2

def pageAt (arch : Arch) (start : PageAllocator) (p : Nat) : Nat :=
  start.basePhys + p * PAGE_SIZE + arch.kernelVma

def slabPages (h : Heap) : List Nat := SIZES.flatMap fun size => h.partials size ++ h.full size

/-- The blocks are disjoint and hold what was stored. The pages in use are those that
were at the start, the slabs and the pages of large blocks; the objects in use are the
small blocks. With nothing allocated there are as many free pages as at the start but
for one empty slab, at most, of each size. -/
structure Sound (arch : Arch) (start : PageAllocator) (s : State) : Prop where
  disjoint : s.live.Pairwise fun a b => a.1 + a.2 ≤ b.1 ∨ b.1 + b.2 ≤ a.1
  intact : ∀ e ∈ s.live, ∀ b, e.1 ≤ b → b < e.1 + e.2 → s.heap.mem b = s.stored b
  pages : ∀ p < start.totalPages, s.heap.alloc.bitmap.test p = true ↔
    start.bitmap.test p = true ∨ Owns s.heap s.live (pageAt arch start p)
  objects : ∀ size slab, IsSlab s.heap size slab →
    ∃ chain, SlabOk arch s.heap.mem slab size chain ∧
      ∀ o ∈ slots arch slab size, o ∈ chain ↔ ∀ e ∈ s.live, e.1 ≠ o
  idle : s.live = [] →
    s.heap.alloc.freePages + (slabPages s.heap).length = start.freePages ∧
    ∀ size ∈ SIZES, (s.heap.partials size ++ s.heap.full size).length ≤ 1

/-! ## The invariant -/

structure Pages (arch : Arch) (start : PageAllocator) (h : Heap) (live : List Block) : Prop where
  window : Window arch h.alloc
  counter : h.alloc.freePages = h.alloc.bitmap.freeCount h.alloc.totalPages
  base : h.alloc.basePhys = start.basePhys ∧ h.alloc.totalPages = start.totalPages
  used : ∀ p < start.totalPages, h.alloc.bitmap.test p = true ↔
    start.bitmap.test p = true ∨ Owns h live (pageAt arch start p)
  fresh : ∀ p < start.totalPages, Owns h live (pageAt arch start p) →
    start.bitmap.test p = false

structure Lists (h : Heap) (chains : Nat → List Nat) : Prop where
  sizes : h.sizes = SIZES
  once : ∀ size ∈ SIZES, (h.partials size ++ h.full size).Nodup
  hasFree : ∀ size ∈ SIZES, ∀ slab ∈ h.partials size, chains slab ≠ []
  full : ∀ size ∈ SIZES, ∀ slab ∈ h.full size, chains slab = []

def PageAddr (arch : Arch) (start : PageAllocator) (page : Nat) : Prop :=
  ∃ p < start.totalPages, page = pageAt arch start p

structure Slabs (arch : Arch) (start : PageAllocator) (h : Heap) (chains : Nat → List Nat) :
    Prop where
  page : ∀ size slab, IsSlab h size slab → PageAddr arch start slab
  ok : ∀ size slab, IsSlab h size slab → SlabOk arch h.mem slab size (chains slab)

def Apart (a b : Block) : Prop := a.1 + room a.2 ≤ b.1 ∨ b.1 + room b.2 ≤ a.1

structure Blocks (arch : Arch) (start : PageAllocator) (h : Heap) (chains : Nat → List Nat)
    (live : List Block) : Prop where
  small : ∀ e ∈ live, e.2 ≤ 2048 → ∃ slab, IsSlab h (roundUpPow2 e.2) slab ∧
    e.1 ∈ slots arch slab (roundUpPow2 e.2) ∧ e.1 ∉ chains slab
  large : ∀ e ∈ live, 2048 < e.2 →
    ∃ first, e.1 = pageAt arch start first ∧ first + pagesOf e.2 ≤ start.totalPages
  held : ∀ size slab, IsSlab h size slab → ∀ o ∈ slots arch slab size, o ∉ chains slab →
    ∃ e ∈ live, e.1 = o
  apart : live.Pairwise Apart
  offSlabs : ∀ e ∈ live, 2048 < e.2 → ∀ size slab, IsSlab h size slab →
    slab + PAGE_SIZE ≤ e.1 ∨ e.1 + room e.2 ≤ slab

def Intact (mem stored : Buf) (live : List Block) : Prop :=
  ∀ e ∈ live, ∀ b, e.1 ≤ b → b < e.1 + e.2 → mem b = stored b

structure Good (arch : Arch) (start : PageAllocator) (chains : Nat → List Nat) (s : State) :
    Prop where
  pages : Pages arch start s.heap s.live
  lists : Lists s.heap chains
  slabs : Slabs arch start s.heap chains
  blocks : Blocks arch start s.heap chains s.live
  intact : Intact s.heap.mem s.stored s.live

def Spare (arch : Arch) (h : Heap) (chains : Nat → List Nat) : Prop :=
  ∀ size ∈ SIZES, ∀ x ∈ h.partials size, ∀ y ∈ h.partials size,
    (chains x).length = numObjs arch size → (chains y).length = numObjs arch size → x = y

/-! ## Where blocks and slabs lie -/

theorem roomLe (size : Nat) : size ≤ room size := by
  unfold room
  split <;> rename_i small
  · exact (roundUpSize small).2
  · unfold pagesOf PAGE_SIZE
    omega

theorem kernelAligned {arch : Arch} (built : arch.Built) : arch.kernelVma % PAGE_SIZE = 0 := by
  rcases built with rfl | rfl <;> rfl

section
variable {arch : Arch} {start : PageAllocator} {h : Heap} {chains : Nat → List Nat}
  {live : List Block}

theorem pageAtApart {p q : Nat} (less : p < q) :
    pageAt arch start p + PAGE_SIZE ≤ pageAt arch start q := by
  unfold pageAt PAGE_SIZE
  omega

theorem pageAddrApart {x y : Nat} (pageX : PageAddr arch start x) (pageY : PageAddr arch start y)
    (differ : x ≠ y) : x + PAGE_SIZE ≤ y ∨ y + PAGE_SIZE ≤ x := by
  obtain ⟨p, _, rfl⟩ := pageX
  obtain ⟨q, _, rfl⟩ := pageY
  rcases Nat.lt_trichotomy p q with less | same | more
  · exact Or.inl (pageAtApart less)
  · exact absurd (congrArg (pageAt arch start) same) differ
  · exact Or.inr (pageAtApart more)

theorem pageAtInj {p q : Nat} (same : pageAt arch start p = pageAt arch start q) : p = q := by
  unfold pageAt PAGE_SIZE at same
  omega

theorem addrToSlabPage (built : arch.Built) (aligned : start.basePhys % PAGE_SIZE = 0)
    {slab addr} (page : PageAddr arch start slab) (low : slab ≤ addr)
    (high : addr < slab + PAGE_SIZE) : addrToSlab addr = slab := by
  obtain ⟨p, _, rfl⟩ := page
  have kernel := kernelAligned built
  unfold addrToSlab
  unfold pageAt PAGE_SIZE at *
  omega

theorem slabSize (slabs : Slabs arch start h chains) {size size' slab}
    (isSlab : IsSlab h size slab) (isSlab' : IsSlab h size' slab) : size = size' :=
  (slabs.ok size slab isSlab).size.symm.trans (slabs.ok size' slab isSlab').size

theorem slabOfSlot (built : arch.Built) (slabs : Slabs arch start h chains) {size size' slab slab' o}
    (isSlab : IsSlab h size slab) (isSlab' : IsSlab h size' slab')
    (member : o ∈ slots arch slab size) (member' : o ∈ slots arch slab' size') : slab = slab' := by
  by_contra differ
  have apart := pageAddrApart (slabs.page _ _ isSlab) (slabs.page _ _ isSlab') differ
  have bounds := slotBounds built member
  have bounds' := slotBounds built member'
  have sizes := sizeBounds isSlab.1
  have sizes' := sizeBounds isSlab'.1
  omega

theorem smallInside (built : arch.Built) (blocks : Blocks arch start h chains live) {e}
    (member : e ∈ live) (small : e.2 ≤ 2048) :
    ∃ slab, IsSlab h (roundUpPow2 e.2) slab ∧ e.1 ∈ slots arch slab (roundUpPow2 e.2) ∧
      e.1 ∉ chains slab ∧ slab + slabHeader arch ≤ e.1 ∧ e.1 + room e.2 ≤ slab + PAGE_SIZE := by
  obtain ⟨slab, isSlab, slotted, taken⟩ := blocks.small e member small
  have bounds := slotBounds built slotted
  refine ⟨slab, isSlab, slotted, taken, bounds.1, ?_⟩
  unfold room
  rw [if_pos small]
  exact bounds.2

theorem blockOffSlab (built : arch.Built) (slabs : Slabs arch start h chains)
    (blocks : Blocks arch start h chains live) {e} (member : e ∈ live) {size slab}
    (isSlab : IsSlab h size slab) :
    (slab + slabHeader arch ≤ e.1 ∨ e.1 + room e.2 ≤ slab) ∧
    ∀ o ∈ chains slab, e.1 + room e.2 ≤ o ∨ o + size ≤ e.1 := by
  have ok := slabs.ok size slab isSlab
  have header := headerRoom arch size built
  have inside : ∀ o ∈ chains slab, slab ≤ o ∧ o + size ≤ slab + PAGE_SIZE := by
    intro o free
    have bounds := slotBounds built (ok.inside o free)
    exact ⟨by omega, bounds.2⟩
  rcases Nat.lt_or_ge 2048 e.2 with large | small
  · have off := blocks.offSlabs e member large size slab isSlab
    refine ⟨by omega, fun o free => ?_⟩
    have := inside o free
    omega
  · obtain ⟨slab', isSlab', slotted, taken, low, high⟩ := smallInside built blocks member small
    by_cases same : slab' = slab
    · subst same
      have sizes := slabSize slabs isSlab isSlab'
      refine ⟨Or.inl low, fun o free => ?_⟩
      have whole : room e.2 = size := by
        unfold room
        rw [if_pos small, sizes]
      rw [whole]
      exact slotsApart (sizes ▸ slotted) (ok.inside o free) fun same => taken (same ▸ free)
    · have apart := pageAddrApart (slabs.page _ _ isSlab') (slabs.page _ _ isSlab) same
      refine ⟨by omega, fun o free => ?_⟩
      have := inside o free
      omega

theorem freePageOff (built : arch.Built) (pages : Pages arch start h live)
    (slabs : Slabs arch start h chains) (blocks : Blocks arch start h chains live) {p}
    (inside : p < start.totalPages) (free : h.alloc.bitmap.test p = false) :
    (∀ size, ¬ IsSlab h size (pageAt arch start p)) ∧
    ∀ e ∈ live, pageAt arch start p + PAGE_SIZE ≤ e.1 ∨ e.1 + room e.2 ≤ pageAt arch start p := by
  have unowned : ¬ Owns h live (pageAt arch start p) := by
    intro owns
    cases free.symm.trans ((pages.used p inside).mpr (Or.inr owns))
  have noSlab : ∀ size, ¬ IsSlab h size (pageAt arch start p) := fun size isSlab =>
    unowned (Or.inl ⟨size, isSlab⟩)
  refine ⟨noSlab, fun e member => ?_⟩
  rcases Nat.lt_or_ge 2048 e.2 with large | small
  · obtain ⟨first, at', _⟩ := blocks.large e member large
    by_cases below : e.1 ≤ pageAt arch start p
    · right
      by_contra inside
      exact unowned (Or.inr ⟨e, member, large, below, by omega⟩)
    · left
      rw [at'] at below ⊢
      refine pageAtApart ?_
      by_contra more
      unfold pageAt PAGE_SIZE at below
      omega
  · obtain ⟨slab, isSlab, _, _, low, high⟩ := smallInside built blocks member small
    have differ : slab ≠ pageAt arch start p := fun same => noSlab _ (same ▸ isSlab)
    have apart := pageAddrApart (slabs.page _ _ isSlab) ⟨p, inside, rfl⟩ differ
    omega

/-! ## What a change keeps -/

theorem pagesSame {h' : Heap} {live' : List Block} (pages : Pages arch start h live)
    (alloc : h'.alloc = h.alloc) (owns : ∀ x, Owns h' live' x ↔ Owns h live x) :
    Pages arch start h' live' := by
  obtain ⟨window, counter, base, used, fresh⟩ := pages
  refine ⟨?_, ?_, ?_, fun p inside => ?_, fun p inside owned => ?_⟩
  · rwa [alloc]
  · rwa [alloc]
  · rwa [alloc]
  · rw [alloc, owns]
    exact used p inside
  · exact fresh p inside ((owns _).mp owned)

theorem slabsUpdate (built : arch.Built) {h' : Heap} (slabs : Slabs arch start h chains)
    (same : ∀ size slab, IsSlab h' size slab ↔ IsSlab h size slab) {size slab chain}
    (isSlab : IsSlab h size slab) (ok : SlabOk arch h'.mem slab size chain)
    (outside : ∀ b, b < slab ∨ slab + PAGE_SIZE ≤ b → h'.mem b = h.mem b) :
    Slabs arch start h' (Function.update chains slab chain) := by
  refine ⟨fun size' slab' isSlab' => slabs.page size' slab' ((same _ _).mp isSlab'),
    fun size' slab' isSlab' => ?_⟩
  rw [same] at isSlab'
  by_cases this : slab' = slab
  · subst this
    rw [Function.update_self, slabSize slabs isSlab' isSlab]
    exact ok
  · rw [Function.update_of_ne this]
    have old := slabs.ok size' slab' isSlab'
    have apart := pageAddrApart (slabs.page _ _ isSlab') (slabs.page _ _ isSlab) this
    have header := headerRoom arch size' built
    have listed := sizeBounds isSlab'.1
    have word := builtPtr built
    refine slabOkCongr built (fun b low high => outside b (by omega))
      (fun o free b low high => outside b ?_) old
    have bounds := slotBounds built (old.inside o free)
    omega

theorem ownsSmall {h' : Heap} (same : ∀ size slab, IsSlab h' size slab ↔ IsSlab h size slab)
    {e : Block} (small : e.2 ≤ 2048) (x : Nat) : Owns h' (e :: live) x ↔ Owns h live x := by
  unfold Owns
  refine or_congr (exists_congr fun size => same size x) ⟨?_, ?_⟩
  · rintro ⟨other, member, large, rest⟩
    rcases List.mem_cons.mp member with rfl | old
    · omega
    · exact ⟨other, old, large, rest⟩
  · rintro ⟨other, old, rest⟩
    exact ⟨other, List.mem_cons_of_mem e old, rest⟩

theorem apartSymm {a b : Block} (apart : Apart a b) : Apart b a := Or.symm apart

theorem roomSmall {size : Nat} (small : size ≤ 2048) :
    room size = roundUpPow2 size ∧ 8 ≤ room size := by
  unfold room
  rw [if_pos small]
  exact ⟨rfl, (sizeBounds (roundUpSize small).1).1⟩

theorem blocksTake (built : arch.Built) {h' : Heap} (slabs : Slabs arch start h chains)
    (blocks : Blocks arch start h chains live)
    (same : ∀ size slab, IsSlab h' size slab ↔ IsSlab h size slab) {n slab o rest}
    (small : n ≤ 2048) (isSlab : IsSlab h (roundUpPow2 n) slab) (chain : chains slab = o :: rest) :
    Blocks arch start h' (Function.update chains slab rest) ((o, n) :: live) := by
  have ok := slabs.ok _ _ isSlab
  have once := ok.once
  rw [chain] at once
  have fresh := (List.nodup_cons.mp once).1
  have member : o ∈ chains slab := chain ▸ List.mem_cons_self
  refine ⟨fun e old se => ?_, fun e old large => ?_, fun size slab' isSlab' o' slotted taken => ?_,
    List.pairwise_cons.mpr ⟨fun e old => ?_, blocks.apart⟩,
    fun e old large size slab' isSlab' => ?_⟩
  · rcases List.mem_cons.mp old with rfl | old
    · refine ⟨slab, (same _ _).mpr isSlab, ok.inside o member, ?_⟩
      rw [Function.update_self]
      exact fresh
    · obtain ⟨slab', isSlab', slotted, taken⟩ := blocks.small e old se
      refine ⟨slab', (same _ _).mpr isSlab', slotted, ?_⟩
      by_cases this : slab' = slab
      · subst this
        rw [Function.update_self]
        intro free
        exact taken (chain ▸ List.mem_cons_of_mem o free)
      · rwa [Function.update_of_ne this]
  · rcases List.mem_cons.mp old with rfl | old
    · exact absurd small (Nat.not_le.mpr large)
    · exact blocks.large e old large
  · rw [same] at isSlab'
    by_cases this : slab' = slab
    · subst this
      rw [Function.update_self] at taken
      by_cases new : o' = o
      · exact ⟨(o, n), List.mem_cons_self, new.symm⟩
      · obtain ⟨e, old, at'⟩ := blocks.held size slab' isSlab' o' slotted (by
          rw [chain, List.mem_cons]
          exact not_or.mpr ⟨new, taken⟩)
        exact ⟨e, List.mem_cons_of_mem _ old, at'⟩
    · rw [Function.update_of_ne this] at taken
      obtain ⟨e, old, at'⟩ := blocks.held size slab' isSlab' o' slotted taken
      exact ⟨e, List.mem_cons_of_mem _ old, at'⟩
  · have off := (blockOffSlab built slabs blocks old isSlab).2 o member
    unfold Apart
    rw [(roomSmall small).1]
    exact off.symm
  · rw [same] at isSlab'
    rcases List.mem_cons.mp old with rfl | old
    · exact absurd small (Nat.not_le.mpr large)
    · exact blocks.offSlabs e old large size slab' isSlab'

theorem blocksPut (built : arch.Built) {h' : Heap} {o n} (slabs : Slabs arch start h chains)
    (blocks : Blocks arch start h chains ((o, n) :: live))
    (same : ∀ size slab, IsSlab h' size slab ↔ IsSlab h size slab) (small : n ≤ 2048)
    {slab} (isSlab : IsSlab h (roundUpPow2 n) slab) (member : o ∈ slots arch slab (roundUpPow2 n)) :
    Blocks arch start h' (Function.update chains slab (o :: chains slab)) live := by
  obtain ⟨first, apart⟩ := List.pairwise_cons.mp blocks.apart
  have pos := (roomSmall small).2
  have others : ∀ e ∈ live, e.2 ≤ 2048 → e.1 ≠ o := by
    intro e old se at'
    have pos' := (roomSmall se).2
    have := first e old
    unfold Apart at this
    dsimp only at this
    omega
  refine ⟨fun e old se => ?_, fun e old large => blocks.large e (List.mem_cons_of_mem _ old) large,
    fun size slab' isSlab' o' slotted taken => ?_, apart, fun e old large size slab' isSlab' => ?_⟩
  · obtain ⟨slab', isSlab', slotted, taken⟩ := blocks.small e (List.mem_cons_of_mem _ old) se
    refine ⟨slab', (same _ _).mpr isSlab', slotted, ?_⟩
    by_cases this : slab' = slab
    · subst this
      rw [Function.update_self, List.mem_cons]
      exact not_or.mpr ⟨others e old se, taken⟩
    · rwa [Function.update_of_ne this]
  · rw [same] at isSlab'
    have out : o' ∉ chains slab' ∧ (slab' = slab → o' ≠ o) := by
      by_cases this : slab' = slab
      · subst this
        rw [Function.update_self, List.mem_cons] at taken
        obtain ⟨new, taken⟩ := not_or.mp taken
        exact ⟨taken, fun _ => new⟩
      · rw [Function.update_of_ne this] at taken
        exact ⟨taken, fun same => absurd same this⟩
    obtain ⟨e, old, at'⟩ := blocks.held size slab' isSlab' o' slotted out.1
    rcases List.mem_cons.mp old with rfl | old
    · have this := slabOfSlot built slabs isSlab' isSlab slotted (at' ▸ member)
      exact absurd at'.symm (out.2 this)
    · exact ⟨e, old, at'⟩
  · exact blocks.offSlabs e (List.mem_cons_of_mem _ old) large size slab' ((same _ _).mp isSlab')

theorem pageAddrRoom (pages : Pages arch start h live) {slab} (page : PageAddr arch start slab) :
    slab + PAGE_SIZE ≤ 2 ^ arch.wordBits := by
  obtain ⟨p, inside, rfl⟩ := page
  have mapped := pages.window.mapped
  rw [pages.base.1, pages.base.2] at mapped
  unfold pageAt PAGE_SIZE at *
  omega

theorem pageAddrPos (pages : Pages arch start h live) {slab} (page : PageAddr arch start slab) :
    slab ≠ NULL := by
  obtain ⟨p, inside, rfl⟩ := page
  have above := pages.window.above
  rw [pages.base.1] at above
  unfold pageAt NULL PAGE_SIZE
  omega

/-! ## Pages taken and given back -/

theorem pageTake (built : arch.Built) (pages : Pages arch start h live) {size : Nat}
    (word : arch.Word size) (uncut : Mm.Uncut arch ⟨h.alloc, []⟩ (.alloc size MEM_MAP)) :
    Mm.pageAllocFlags arch h.alloc size MEM_MAP = (NULL, h.alloc) ∨
    ∃ first, first + pagesOf size ≤ start.totalPages ∧ 0 < pagesOf size ∧
      (∀ p, first ≤ p → p < first + pagesOf size → h.alloc.bitmap.test p = false) ∧
      Mm.pageAllocFlags arch h.alloc size MEM_MAP = (pageAt arch start first, {h.alloc with
        bitmap := h.alloc.bitmap.setRange first (pagesOf size)
        freePages := h.alloc.freePages - pagesOf size}) := by
  have accounted : Mm.Accounted ⟨h.alloc, []⟩ := ⟨pages.counter, nofun, List.nodup_nil⟩
  rcases (Mm.allocSoundIff built pages.window accounted word MEM_MAP).mpr uncut with
    failed | ⟨first, inside, pos, free, result⟩
  · exact Or.inl failed
  · right
    have at' : Mm.pageAddr arch h.alloc MEM_MAP first = pageAt arch start first := by
      unfold pageAt
      rw [← pages.base.1]
      rfl
    rw [← pages.base.2]
    refine ⟨first, inside, pos, fun p low high => (free p low high).1, ?_⟩
    rw [← at']
    exact result

theorem pagesTaken (pages : Pages arch start h live) {first k}
    (inside : first + k ≤ start.totalPages)
    (free : ∀ p, first ≤ p → p < first + k → h.alloc.bitmap.test p = false) {h' : Heap} {live'}
    (alloc : h'.alloc = {h.alloc with
      bitmap := h.alloc.bitmap.setRange first k
      freePages := h.alloc.freePages - k})
    (owns : ∀ p, Owns h' live' (pageAt arch start p) ↔
      Owns h live (pageAt arch start p) ∨ first ≤ p ∧ p < first + k) :
    Pages arch start h' live' := by
  obtain ⟨window, counter, base, used, fresh⟩ := pages
  rw [← base.2] at inside
  have count := Bitmap.freeCountSetRange inside free
  refine ⟨?_, ?_, ?_, fun p below => ?_, fun p below owned => ?_⟩
  · rw [alloc]
    exact ⟨window.above, window.aligned, window.mapped, window.apart, window.few⟩
  · rw [alloc]
    change h.alloc.freePages - k = _
    rw [counter, ← count]
    exact Nat.add_sub_cancel _ _
  · rw [alloc]
    exact base
  · rw [alloc, owns]
    change (h.alloc.bitmap.setRange first k).test p = true ↔ _
    rw [Bitmap.testSetRange, Bool.or_eq_true, decide_eq_true_eq, used p below]
    tauto
  · rcases (owns p).mp owned with old | ⟨low, high⟩
    · exact fresh p below old
    · rw [Bool.eq_false_iff]
      intro taken
      cases (free p low high).symm.trans ((used p below).mpr (Or.inl taken))

theorem pageGive (pages : Pages arch start h live) {p} (inside : p < start.totalPages)
    (taken : h.alloc.bitmap.test p = true) :
    pageFree arch h.alloc (pageAt arch start p) = {h.alloc with
      bitmap := h.alloc.bitmap.clear p
      freePages := h.alloc.freePages + 1} := by
  obtain ⟨window, counter, base, used, fresh⟩ := pages
  rw [← base.2] at inside
  have at' : Mm.pageAddr arch h.alloc MEM_MAP p = pageAt arch start p := by
    unfold pageAt
    rw [← base.1]
    rfl
  have page : Mm.pageOf arch h.alloc (pageAt arch start p) = some p := by
    rw [← at']
    exact Mm.pageOfAddr window inside MEM_MAP
  have offset : (Mm.physOf arch (pageAt arch start p) - h.alloc.basePhys) / PAGE_SIZE = p := by
    unfold Mm.pageOf at page
    dsimp only at page
    split at page
    · cases page
    · exact Option.some.inj page
  have few := window.few
  have sound : Mm.FreeSound arch ⟨h.alloc, []⟩ (pageAt arch start p) := by
    refine (Mm.freeSoundIff window _).mpr (Or.inl ?_)
    unfold Mm.MAX_PAGES at few
    unfold PAGE_SIZE at offset
    dsimp only
    omega
  unfold Mm.FreeSound at sound
  dsimp only at sound
  rw [page] at sound
  dsimp only at sound
  rw [if_pos ⟨inside, taken⟩] at sound
  exact sound

theorem pagesGiven (pages : Pages arch start h live) {p} (inside : p < start.totalPages)
    (owned : Owns h live (pageAt arch start p)) {h' : Heap} {live'}
    (alloc : h'.alloc = pageFree arch h.alloc (pageAt arch start p))
    (owns : ∀ q, Owns h' live' (pageAt arch start q) ↔
      Owns h live (pageAt arch start q) ∧ q ≠ p) :
    Pages arch start h' live' := by
  have taken := (pages.used p inside).mpr (Or.inr owned)
  have unused := pages.fresh p inside owned
  rw [pageGive pages inside taken] at alloc
  obtain ⟨window, counter, base, used, fresh⟩ := pages
  refine ⟨?_, ?_, ?_, fun q below => ?_, fun q below owned' => ?_⟩
  · rw [alloc]
    exact ⟨window.above, window.aligned, window.mapped, window.apart, window.few⟩
  · rw [alloc]
    change h.alloc.freePages + 1 = _
    rw [counter]
    exact (Bitmap.freeCountClear (base.2 ▸ inside) taken).symm
  · rw [alloc]
    exact base
  · rw [alloc, owns]
    change (h.alloc.bitmap.clear p).test q = true ↔ _
    rw [Bitmap.testClear]
    split <;> rename_i this
    · rw [this, unused]
      simp
    · rw [used q below]
      simp [this]
  · exact fresh q below ((owns q).mp owned').1

end

end Scepter.Kalloc
