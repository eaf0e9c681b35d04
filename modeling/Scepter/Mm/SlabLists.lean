import Scepter.Mm.Kalloc

/-! What holds of the slabs between the calls of kalloc and kfree (mm/slab.c): header,
free list, lists of the cache and live objects tell the same story, and a page goes back
only when none of its objects is live. -/
namespace Scepter.Kalloc
open Mm (Arch PageAllocator NULL PAGE_SIZE pagesOf)
open Slab

def SlabCall (s : State) : Action → Prop
  | .kalloc size => size ≤ 2048
  | .kfree addr => ∀ e ∈ s.live, e.1 = addr → e.2 ≤ 2048
  | .store .. => True

def freeCount (arch : Arch) (m : Buf) (slab : Nat) : Nat := m.load (slab + freeCountAt arch) 2

/- `objects`: the objects of a slab are on its free list, which has as many nodes as the
header counts, or live, and no object is both. -/
structure SlabsRight (arch : Arch) (s : State) : Prop where
  objects : ∀ size slab, IsSlab s.heap size slab → ∃ chain,
    SlabOk arch s.heap.mem slab size chain ∧ freeCount arch s.heap.mem slab = chain.length ∧
    ∀ o ∈ slots arch slab size, o ∈ chain ↔ ¬ ∃ e ∈ s.live, e.1 = o
  slotsInside : ∀ size slab, IsSlab s.heap size slab → ∀ o ∈ slots arch slab size,
    slab + slabHeader arch ≤ o ∧ o + size ≤ slab + PAGE_SIZE
  slotted : ∀ e ∈ s.live, e.2 ≤ 2048 → ∃ size slab, IsSlab s.heap size slab ∧
    e.1 ∈ slots arch slab size ∧ e.2 ≤ size
  onPartial : ∀ size slab, slab ∈ s.heap.partials size ∧ size ∈ SIZES ↔
    IsSlab s.heap size slab ∧ 0 < freeCount arch s.heap.mem slab
  onFull : ∀ size slab, slab ∈ s.heap.full size ∧ size ∈ SIZES ↔
    IsSlab s.heap size slab ∧ freeCount arch s.heap.mem slab = 0
  once : ∀ size ∈ SIZES, (s.heap.partials size ++ s.heap.full size).Nodup
  apart : s.live.Pairwise Apart

-- The page allocator has the page back.
def PageFree (arch : Arch) (start : PageAllocator) (h : Heap) (page : Nat) : Prop :=
  ∃ p < start.totalPages, page = pageAt arch start p ∧ h.alloc.bitmap.test p = false

def ReleasesEmpty (arch : Arch) (start : PageAllocator) (s t : State) : Prop :=
  ∀ size slab, IsSlab s.heap size slab →
    PageFree arch start t.heap slab ∨ (∀ size', ¬ IsSlab t.heap size' slab) →
    ∀ e ∈ t.live, e.2 ≤ 2048 → e.1 + e.2 ≤ slab ∨ slab + PAGE_SIZE ≤ e.1

section

variable {arch : Arch} {start : PageAllocator} {chains : Nat → List Nat}

theorem slabCallCalm {s : State} {act : Action} (call : SlabCall s act) : Calm arch s act := by
  cases act with
  | kalloc size =>
    left
    unfold SlabCall at call
    unfold pagesOf PAGE_SIZE
    omega
  | kfree addr =>
    intro e member same large
    have small := call e member same
    omega
  | store addr bytes => trivial

theorem keptSlabs (built : arch.Built) {s : State} (kept : Kept arch start s) :
    SlabsRight arch s := by
  obtain ⟨chains, good, -⟩ := kept
  have count : ∀ size slab, IsSlab s.heap size slab →
      freeCount arch s.heap.mem slab = (chains slab).length := fun size slab isSlab =>
    (good.slabs.ok size slab isSlab).count
  have partials : ∀ size slab, size ∈ SIZES → slab ∈ s.heap.partials size →
      0 < freeCount arch s.heap.mem slab := by
    intro size slab listed member
    rw [count size slab ⟨listed, .inl member⟩]
    exact List.length_pos_iff.mpr (good.lists.hasFree size listed slab member)
  have full : ∀ size slab, size ∈ SIZES → slab ∈ s.heap.full size →
      freeCount arch s.heap.mem slab = 0 := by
    intro size slab listed member
    rw [count size slab ⟨listed, .inr member⟩, good.lists.full size listed slab member]
    rfl
  refine ⟨fun size slab isSlab => ⟨chains slab, good.slabs.ok size slab isSlab,
      count size slab isSlab, fun o slotted => ?_⟩,
    fun size slab isSlab o slotted => slotBounds built slotted, fun e member small => ?_,
    fun size slab => ?_, fun size slab => ?_, good.lists.once,
    good.blocks.apart⟩
  · rw [slotFreeIff built good isSlab slotted]
    exact ⟨fun unused ⟨e, old, at'⟩ => unused e old at', fun unused e old at' =>
      unused ⟨e, old, at'⟩⟩
  · obtain ⟨slab, isSlab, slotted, -⟩ := good.blocks.small e member small
    exact ⟨_, slab, isSlab, slotted, (roundUpSize small).2⟩
  · constructor
    · rintro ⟨member, listed⟩
      exact ⟨⟨listed, .inl member⟩, partials size slab listed member⟩
    · rintro ⟨⟨listed, member | member⟩, some'⟩
      · exact ⟨member, listed⟩
      · rw [full size slab listed member] at some'
        exact absurd some' (Nat.lt_irrefl 0)
  · constructor
    · rintro ⟨member, listed⟩
      exact ⟨⟨listed, .inr member⟩, full size slab listed member⟩
    · rintro ⟨⟨listed, member | member⟩, none⟩
      · have some' := partials size slab listed member
        omega
      · exact ⟨member, listed⟩

theorem keptReleases (built : arch.Built) {s t : State} (before : Kept arch start s)
    (after : Kept arch start t) : ReleasesEmpty arch start s t := by
  obtain ⟨chainsS, goodS, -⟩ := before
  obtain ⟨chainsT, goodT, -⟩ := after
  intro size slab isSlab released e member small
  have gone : ∀ size', ¬ IsSlab t.heap size' slab := by
    rcases released with ⟨p, inside, rfl, free⟩ | gone
    · intro size' isSlab'
      have used := (goodT.pages.used p inside).mpr (.inr (.inl ⟨size', isSlab'⟩))
      exact absurd (used.symm.trans free) (by decide)
    · exact gone
  obtain ⟨slab', isSlab', slotted, -⟩ := goodT.blocks.small e member small
  have differ : slab' ≠ slab := fun same => gone _ (same ▸ isSlab')
  have apart := pageAddrApart (goodT.slabs.page _ _ isSlab') (goodS.slabs.page _ _ isSlab) differ
  have bounds := slotBounds built slotted
  have fits := (roundUpSize small).2
  omega

end

/-- In every run of slab calls the slabs are right, a free of a live object returns, and
no call gives back a page with a live object. Calls for large blocks may come between
them as long as they are calm. -/
theorem slabsStayRight {arch : Arch} (built : arch.Built) {memTotalKb kernelEndPhys a}
    (mapped : Mm.firstFreePhys kernelEndPhys ≤ Mm.directMapSize arch memTotalKb)
    (init : Mm.mmInit arch memTotalKb kernelEndPhys = some a) {others taken}
    (uncut : Run.Meets (Mm.step arch) (Mm.Uncut arch) ⟨a, []⟩ others)
    (reached : Run.run (Mm.step arch) ⟨a, []⟩ others = some taken) {mem : Buf} {acts s}
    (calls : Run.Meets (step arch) (fun s act => SlabCall s act ∨ Calm arch s act)
      (boot taken.alloc mem) acts)
    (ran : Run.run (step arch) (boot taken.alloc mem) acts = some s) :
    SlabsRight arch s ∧
    (∀ addr, (∃ e ∈ s.live, e.1 = addr) → SlabCall s (.kfree addr) →
      (step arch s (.kfree addr)).isSome) ∧
    ∀ act t, SlabCall s act ∨ Calm arch s act → step arch s act = some t →
      ReleasesEmpty arch taken.alloc s t := by
  have toCalm : ∀ s act, SlabCall s act ∨ Calm arch s act → Calm arch s act := fun s act call =>
    call.elim slabCallCalm id
  have good := takenGood built mapped init uncut reached
  have kept : Kept arch taken.alloc s := Run.invariantMeets
    (fun s act t kept call ran => stepKept built kept (toCalm s act call) ran) (bootKept good mem)
    calls ran
  refine ⟨keptSlabs built kept, fun addr live call =>
    kfreeReturns built kept live (slabCallCalm call), fun act t call taken' => ?_⟩
  exact keptReleases built kept (stepKept built kept (toCalm s act call) taken')

theorem kallocReturns {arch : Arch} (s : State) {size : Nat} (word : arch.Word size) :
    (step arch s (.kalloc size)).isSome := by
  unfold step
  dsimp only
  rw [if_pos word]
  split <;> rfl

open Mm (smallMachine x86_64)

theorem twoObjectsRight :
    ∃ s, Run.run (step x86_64) (boot smallMachine Buf.zero) [.kalloc 2000, .kalloc 24] = some s ∧
      SlabsRight x86_64 s := by
  obtain ⟨s, first⟩ := Option.isSome_iff_exists.mp
    (@kallocReturns x86_64 (boot smallMachine Buf.zero) 2000 (by decide))
  obtain ⟨t, second⟩ := Option.isSome_iff_exists.mp (@kallocReturns x86_64 s 24 (by decide))
  have ran : Run.run (step x86_64) (boot smallMachine Buf.zero) [.kalloc 2000, .kalloc 24] =
      some t := by
    simp only [Run.run, first, second, Option.bind_some]
  have calls : Run.Meets (step x86_64) (fun s act => SlabCall s act ∨ Calm x86_64 s act)
      (boot smallMachine Buf.zero) [.kalloc 2000, .kalloc 24] := by
    have small : ∀ n, n ≤ 2048 → ∀ s, SlabCall s (.kalloc n) := fun n few s => few
    exact ⟨.inl (small _ (by decide) _), fun _ _ => ⟨.inl (small _ (by decide) _), fun _ _ => trivial⟩⟩
  have init : Mm.mmInit x86_64 65536 0x300000 = some smallMachine := rfl
  have uncut : Run.Meets (Mm.step x86_64) (Mm.Uncut x86_64) ⟨smallMachine, []⟩ [] := trivial
  exact ⟨t, ran, (slabsStayRight (.inr rfl) (by decide) init uncut rfl calls ran).1⟩

end Scepter.Kalloc
