import Mathlib.Algebra.Group.Nat.Defs
import Scepter.Mm.UnmapRange

/-! mprotect (kernel/syscall.c) on the two records of a page's protection: the flags of
the region and the writable bit of the page-table entry. The entries of the range change
page by page, the flags for the region as a whole. -/
namespace Scepter.UserSpace
open Mm (PAGE_SIZE)
open Regions (Vma Flags pageDown vmaFind covers)

/-! ## The call -/

-- pt[pti] |= 0x2, or &= ~0x2.
def Pte.setWritable (p : Pte) (writable : Bool) : Pte :=
  {p with flags := if writable then p.flags ||| 2 else p.flags ^^^ (p.flags &&& 2)}

def archMmSetUserWritable (mmu : Mmu) (vaddr : Nat) (writable : Bool) : Mmu :=
  {mmu with ptes := mmu.ptes.map fun p => if p.page = pageDown vaddr then p.setWritable writable else p}

def protectPages (writable : Bool) : (count a : Nat) → Mmu → Mmu
  | 0, _, mmu => mmu
  | count + 1, a, mmu =>
    let mmu := if archMmUserPresent mmu a then archMmSetUserWritable mmu a writable else mmu
    protectPages writable count (a + PAGE_SIZE) mmu

def sysMprotect (s : Space) (addr length prot : Nat) : Int × Space :=
  let start := pageDown addr
  let stop := pageDown ((addr + length + 0xFFF) % 2 ^ 32)
  match Regions.sysMprotect s.mm.vmaList addr length prot with
  | (ret, vmas) =>
    if ret = 0 then
      (0, {s with
        mm := {s.mm with vmaList := vmas}
        mmu := protectPages (prot.testBit 1) ((stop - start) / PAGE_SIZE) start s.mmu})
    else (ret, s)

/-! ## What mprotect should do -/

def regionAt (vmas : List Vma) (a : Nat) : Option Vma :=
  vmas.find? fun v => v.vmStart ≤ a ∧ a < v.vmEnd

def flagsAt (vmas : List Vma) (a : Nat) : Option Flags := (regionAt vmas a).map Vma.vmFlags

-- The protection of `prot`, and every other flag as it was.
def withProt (prot : Nat) (flags : Flags) : Flags :=
  {flags with read := prot.testBit 0, write := prot.testBit 1, exec := prot.testBit 2}

structure PteChange (addr length prot : Nat) (p q : Pte) : Prop where
  page : q.page = p.page
  frame : q.frame = p.frame
  inside : InSpan addr length p.page → q.flags.testBit 1 = prot.testBit 1 ∧
    ∀ k, k ≠ 1 → q.flags.testBit k = p.flags.testBit k
  outside : ¬ InSpan addr length p.page → q = p

/-- The flags at each address and each present entry change as they should, and where
`prot` grants nothing, no entry of the range is left to user code (bit 2). -/
structure Protects (addr length prot : Nat) (before after : Space) : Prop where
  inside : ∀ a, InSpan addr length a →
    flagsAt after.mm.vmaList a = (flagsAt before.mm.vmaList a).map (withProt prot)
  outside : ∀ a, ¬ InSpan addr length a →
    flagsAt after.mm.vmaList a = flagsAt before.mm.vmaList a
  entries : List.Forall₂ (PteChange addr length prot) before.mmu.ptes after.mmu.ptes
  none : prot % 8 = 0 → ∀ q ∈ after.mmu.ptes, InSpan addr length q.page → q.flags.testBit 2 = false

/-! ## Entries -/

theorem setWritableBits (p : Pte) (writable : Bool) (k : Nat) :
    (p.setWritable writable).flags.testBit k =
      if k = 1 then writable else p.flags.testBit k := by
  unfold Pte.setWritable
  by_cases here : k = 1
  · have one : Nat.testBit 2 1 = true := by decide
    subst here
    cases writable <;> simp [Nat.testBit_or, Nat.testBit_xor, Nat.testBit_and, one]
  · have other : Nat.testBit 2 k = false := @Nat.testBit_two_pow_of_ne 1 k (Ne.symm here)
    cases writable <;> simp [Nat.testBit_or, Nat.testBit_xor, Nat.testBit_and, other, here]

theorem protectPageEntries (writable : Bool) {a : Nat} (mmu : Mmu) (aligned : PAGE_SIZE ∣ a) :
    (if archMmUserPresent mmu a then archMmSetUserWritable mmu a writable else mmu).ptes =
      mmu.ptes.map fun p => if p.page = a then p.setWritable writable else p := by
  have same := Regions.pageDownAligned aligned
  split <;> rename_i present
  · simp only [archMmSetUserWritable, same]
  · symm
    refine (List.map_congr_left fun p member => if_neg fun here => present ?_).trans (List.map_id _)
    simp only [archMmUserPresent, same, List.any_eq_true, decide_eq_true_eq]
    exact ⟨p, member, here⟩

@[simp] theorem setWritablePage (p : Pte) (writable : Bool) :
    (p.setWritable writable).page = p.page := rfl

theorem protectPagesEntries (writable : Bool) (count : Nat) {a : Nat} (mmu : Mmu)
    (aligned : PAGE_SIZE ∣ a) :
    (protectPages writable count a mmu).ptes = mmu.ptes.map fun p =>
      if PAGE_SIZE ∣ p.page ∧ a ≤ p.page ∧ p.page < a + count * PAGE_SIZE then p.setWritable writable
      else p := by
  induction count generalizing a mmu with
  | zero =>
    refine ((List.map_congr_left fun p _ => if_neg ?_).trans (List.map_id _)).symm
    omega
  | succ count ih =>
    unfold protectPages
    dsimp only
    rw [ih _ (Nat.dvd_add aligned (Nat.dvd_refl _)), protectPageEntries writable mmu aligned,
      List.map_map]
    refine List.map_congr_left fun p _ => ?_
    dsimp only [Function.comp]
    unfold PAGE_SIZE at *
    by_cases here : p.page = a
    · simp only [if_pos here, setWritablePage]
      rw [if_neg (by omega), if_pos (by omega)]
    · simp only [if_neg here]
      have same : 4096 ∣ p.page ∧ a + 4096 ≤ p.page ∧ p.page < a + 4096 + count * 4096 ↔
          4096 ∣ p.page ∧ a ≤ p.page ∧ p.page < a + (count + 1) * 4096 := by omega
      simp only [same]

theorem entryChange {addr length prot : Nat} (p : Pte) (aligned : PAGE_SIZE ∣ p.page) :
    PteChange addr length prot p
      (if PAGE_SIZE ∣ p.page ∧ pageDown addr ≤ p.page ∧ p.page < rangeStop addr length then
        p.setWritable (prot.testBit 1) else p) := by
  by_cases inside : pageDown addr ≤ p.page ∧ p.page < rangeStop addr length
  · rw [if_pos ⟨aligned, inside⟩]
    refine ⟨rfl, rfl, fun _ => ⟨?_, fun k other => ?_⟩, fun outside => absurd inside outside⟩
    · rw [setWritableBits, if_pos rfl]
    · rw [setWritableBits, if_neg other]
  · rw [if_neg fun whole => inside whole.2]
    exact ⟨rfl, rfl, fun span => absurd span inside, fun _ => rfl⟩

/-! ## Flags -/

-- The flags of the region afterwards: VM_IO is not among those that are kept.
def protectVma (prot : Nat) (v : Vma) : Vma :=
  {v with vmFlags := {withProt prot v.vmFlags with io := false}}

theorem mprotectDone {vmas : List Vma} {addr length prot : Nat}
    (done : (Regions.sysMprotect vmas addr length prot).1 = 0) :
    let start := pageDown addr
    let stop := pageDown ((addr + length + 0xFFF) % 2 ^ 32)
    start < stop ∧ ∃ v front rest, vmas = front ++ v :: rest ∧ vmaFind vmas start = some v ∧
      (∀ w ∈ front, ¬ covers start w) ∧ v.vmStart ≤ start ∧ stop ≤ v.vmEnd ∧
      Regions.sysMprotect vmas addr length prot = (0, front ++ protectVma prot v :: rest) := by
  intro start stop
  have badRange : -EINVAL ≠ 0 := by decide
  have noRegion : -ENOMEM ≠ 0 := by decide
  unfold Regions.sysMprotect at done ⊢
  dsimp only at done ⊢
  split at done <;> rename_i order
  · exact absurd done badRange
  split at done <;> rename_i found
  · exact absurd done noRegion
  rename_i v
  split at done <;> rename_i outside
  · exact absurd done noRegion
  obtain ⟨holds, front, rest, whole, skipped⟩ := List.find?_eq_some_iff_append.mp found
  have skipped' : ∀ w ∈ front, ¬ covers start w := fun w member => by simpa using skipped w member
  refine ⟨by omega, v, front, rest, whole, found, skipped', by omega, by omega, ?_⟩
  have updated : Keyed.update (covers start) (protectVma prot) vmas =
      front ++ protectVma prot v :: rest := by
    rw [whole, Keyed.updateFirst skipped' holds]
  rw [if_neg order, if_neg outside]
  exact congrArg (Prod.mk 0) updated

theorem regionAtSplit (front rest : List Vma) (v : Vma) (a : Nat) :
    regionAt (front ++ v :: rest) a =
      (regionAt front a).or (if v.vmStart ≤ a ∧ a < v.vmEnd then some v else regionAt rest a) := by
  unfold regionAt
  rw [List.find?_append]
  congr 1
  by_cases inside : v.vmStart ≤ a ∧ a < v.vmEnd
  · rw [List.find?_cons_of_pos (by simpa using inside), if_pos inside]
  · rw [List.find?_cons_of_neg (by simpa using inside), if_neg inside]

theorem regionAtFront {front rest : List Vma} {v : Vma} {start a : Nat}
    (sorted : Keyed.Sorted Vma.vmStart (front ++ v :: rest)) (skipped : ∀ w ∈ front, ¬ covers start w)
    (first : v.vmStart ≤ start) (behind : start ≤ a) : regionAt front a = none := by
  refine List.find?_eq_none.mpr fun w member inside => ?_
  simp only [decide_eq_true_eq] at inside
  have order := (List.pairwise_append.mp sorted).2.2 w member v List.mem_cons_self
  refine skipped w member ?_
  unfold covers
  split
  · have limit : (if w.vmStart > Regions.STACK_LIMIT then
        (w.vmStart - Regions.STACK_LIMIT) % 2 ^ 32 else 0) ≤ w.vmStart := by
      split
      · exact Nat.le_trans (Nat.mod_le _ _) (Nat.sub_le _ _)
      · exact Nat.zero_le _
    simp only [Bool.and_eq_true, decide_eq_true_eq]
    omega
  · simp only [Bool.and_eq_true, decide_eq_true_eq]
    omega

section Region

variable {front rest : List Vma} {v : Vma} {addr length prot : Nat}

theorem flagsAtSplit (front rest : List Vma) (v : Vma) (a : Nat) :
    flagsAt (front ++ v :: rest) a =
      (flagsAt front a).or
        (if v.vmStart ≤ a ∧ a < v.vmEnd then some v.vmFlags else flagsAt rest a) := by
  unfold flagsAt
  rw [regionAtSplit]
  cases regionAt front a with
  | some w => rfl
  | none => by_cases inside : v.vmStart ≤ a ∧ a < v.vmEnd <;> simp [inside]

theorem flagsInSpan (sorted : Keyed.Sorted Vma.vmStart (front ++ v :: rest))
    (skipped : ∀ w ∈ front, ¬ covers (pageDown addr) w) (first : v.vmStart ≤ pageDown addr)
    (last : rangeStop addr length ≤ v.vmEnd) {a : Nat} (span : InSpan addr length a) (w : Vma)
    (start : w.vmStart = v.vmStart) (stop : w.vmEnd = v.vmEnd) :
    flagsAt (front ++ w :: rest) a = some w.vmFlags := by
  have free := regionAtFront sorted skipped first span.1
  obtain ⟨low, high⟩ := span
  rw [flagsAtSplit, if_pos ⟨by omega, by omega⟩]
  simp [flagsAt, free]

theorem flagsChangeIff (sorted : Keyed.Sorted Vma.vmStart (front ++ v :: rest))
    (skipped : ∀ w ∈ front, ¬ covers (pageDown addr) w) (found : covers (pageDown addr) v)
    (first : v.vmStart ≤ pageDown addr) (last : rangeStop addr length ≤ v.vmEnd)
    (some' : pageDown addr < rangeStop addr length) :
    ((∀ a, InSpan addr length a → flagsAt (front ++ protectVma prot v :: rest) a =
        (flagsAt (front ++ v :: rest) a).map (withProt prot)) ∧
      ∀ a, ¬ InSpan addr length a → flagsAt (front ++ protectVma prot v :: rest) a =
        flagsAt (front ++ v :: rest) a) ↔
    v.vmFlags.io = false ∧ (withProt prot v.vmFlags = v.vmFlags ∨
      ∀ a, regionAt (front ++ v :: rest) a = some v → InSpan addr length a) := by
  have before : ∀ a, InSpan addr length a → flagsAt (front ++ v :: rest) a = some v.vmFlags :=
    fun a span => flagsInSpan sorted skipped first last span v rfl rfl
  have after : ∀ a, InSpan addr length a → flagsAt (front ++ protectVma prot v :: rest) a =
      some (protectVma prot v).vmFlags :=
    fun a span => flagsInSpan sorted skipped first last span _ rfl rfl
  have noDevice : v.vmFlags.io = false → (protectVma prot v).vmFlags = withProt prot v.vmFlags := by
    intro flat
    simp only [protectVma, withProt, ← flat]
  constructor
  · rintro ⟨inside, outside⟩
    have here : InSpan addr length (pageDown addr) := ⟨Nat.le_refl _, some'⟩
    have flat : v.vmFlags.io = false := by
      have same := inside _ here
      rw [before _ here, after _ here] at same
      exact (congrArg Flags.io (Option.some.inj same)).symm
    refine ⟨flat, or_iff_not_imp_left.mpr fun changed a own => ?_⟩
    by_contra away
    refine changed ?_
    have same := outside a away
    rw [flagsAtSplit, flagsAtSplit] at same
    rw [regionAtSplit] at own
    cases inFront : regionAt front a with
    | some w =>
      rw [inFront] at own
      cases own
      exact absurd found (skipped v (List.mem_of_find?_eq_some inFront))
    | none =>
      rw [inFront, Option.none_or] at own
      have within : v.vmStart ≤ a ∧ a < v.vmEnd := by
        split at own <;> rename_i inside
        · exact inside
        · exact absurd (by simpa using List.find?_some own) inside
      have free : flagsAt front a = none := by rw [flagsAt, inFront, Option.map_none]
      rw [free, Option.none_or, Option.none_or] at same
      rw [if_pos within] at same
      have whole : v.vmStart ≤ a ∧ a < v.vmEnd → (protectVma prot v).vmFlags = v.vmFlags := by
        intro _
        rw [if_pos (show (protectVma prot v).vmStart ≤ a ∧ a < (protectVma prot v).vmEnd from within)]
          at same
        exact Option.some.inj same
      rw [← noDevice flat]
      exact whole within
  · rintro ⟨flat, own⟩
    refine ⟨fun a span => ?_, fun a away => ?_⟩
    · rw [before a span, after a span, noDevice flat]
      rfl
    · rw [flagsAtSplit, flagsAtSplit]
      cases inFront : flagsAt front a with
      | some w => rfl
      | none =>
        rw [Option.none_or, Option.none_or]
        by_cases within : v.vmStart ≤ a ∧ a < v.vmEnd
        · have same : withProt prot v.vmFlags = v.vmFlags := by
            refine own.resolve_right fun only => away (only a ?_)
            rw [regionAtSplit, if_pos within, Option.map_eq_none_iff.mp inFront, Option.none_or]
          have kept : (protectVma prot v).vmFlags = v.vmFlags := (noDevice flat).trans same
          rw [kept]
          rfl
        · rw [if_neg within]
          exact if_neg within

end Region

end Scepter.UserSpace
