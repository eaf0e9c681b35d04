import Scepter.Lib.Bytes

/-! Access to user memory on i386 (arch/i386/uaccess.c). The page-table walk of
check_user_range steps through the range in strides of one page from an address
that need not be aligned. Sizes and addresses are 32 bits wide. -/
namespace Scepter.Uaccess

def KERNEL_VMA : Nat := 0xC0000000
def PAGE : Nat := 0x1000

structure Task where
  pageTables : Nat → Option (Nat → BitVec 32)

def pageOk (task : Task) (needWrite : Bool) (a : Nat) : Bool :=
  let pdi := a >>> 22
  if pdi ≥ 768 then false
  else match task.pageTables pdi with
    | none => false
    | some pt =>
      let pte := pt ((a >>> 12) % 1024)
      if pte &&& 1#32 = 0#32 then false
      else if needWrite ∧ pte &&& 2#32 = 0#32 then false
      else true

/-- for (a = addr; a < end; a += 0x1000). The end is at most KERNEL_VMA, so the
sum does not wrap. -/
def walk (task : Task) (needWrite : Bool) (a stop : Nat) : Bool :=
  if _h : a < stop then
    if pageOk task needWrite a then walk task needWrite (a + PAGE) stop else false
  else true
termination_by stop - a
decreasing_by unfold PAGE; omega

def checkUserRange (current : Option Task) (addr len : BitVec 32) (needWrite : Bool) : Bool :=
  let stop := addr + len
  if stop < addr then false
  else if addr.toNat ≥ KERNEL_VMA then false
  else if stop.toNat > KERNEL_VMA then false
  else if len = 0 then true
  else match current with
    | none => false
    | some task => walk task needWrite addr.toNat stop.toNat

abbrev Memory := Nat → Byte

def memcpy (mem : Memory) (dst src n : BitVec 32) : Memory := fun a =>
  if dst.toNat ≤ a ∧ a < dst.toNat + n.toNat then mem (src.toNat + (a - dst.toNat)) else mem a

def validUserPointer (current : Option Task) (ptr len : BitVec 32) : Bool :=
  checkUserRange current ptr len false

def copyFromUser (current : Option Task) (mem : Memory) (kernelDst userSrc n : BitVec 32) :
    Int × Memory :=
  if !validUserPointer current userSrc n then (-1, mem)
  else (0, memcpy mem kernelDst userSrc n)

def copyToUser (current : Option Task) (mem : Memory) (userDst kernelSrc n : BitVec 32) :
    Int × Memory :=
  if !checkUserRange current userDst n true then (-1, mem)
  else (0, memcpy mem userDst kernelSrc n)

/-! ## What the callers rely on -/

def Mapped (current : Option Task) (needWrite : Bool) (p : Nat) : Prop :=
  ∃ task, current = some task ∧ p < KERNEL_VMA / 4096 ∧
    ∃ pt, task.pageTables (p / 1024) = some pt ∧ (pt (p % 1024)).getLsbD 0 = true ∧
      (needWrite = true → (pt (p % 1024)).getLsbD 1 = true)

def Accessible (current : Option Task) (needWrite : Bool) (addr len : Nat) : Prop :=
  addr + len ≤ KERNEL_VMA ∧ ∀ a, addr ≤ a → a < addr + len → Mapped current needWrite (a / 4096)

def Guarded (current : Option Task) (needWrite : Bool) (mem : Memory) (addr len : BitVec 32)
    (result : Int × Memory) : Prop :=
  (result.1 = 0 → Accessible current needWrite addr.toNat len.toNat) ∧
  (result.1 ≠ 0 → result.2 = mem)

def Straddles (addr len : Nat) : Prop :=
  (len + 4095) / 4096 < (addr % 4096 + len + 4095) / 4096

def LastInOrder (current : Option Task) (needWrite : Bool) (addr len : Nat) : Prop :=
  Straddles addr len → addr + len ≤ KERNEL_VMA → 0 < len →
  (∀ a, addr ≤ a → a < addr + len → a / 4096 < (addr + len - 1) / 4096 →
    Mapped current needWrite (a / 4096)) →
  Mapped current needWrite ((addr + len - 1) / 4096)

/-! ## The walk -/

theorem pageOkIff (task : Task) (needWrite : Bool) (a : Nat) :
    pageOk task needWrite a = true ↔ Mapped (some task) needWrite (a / 4096) := by
  have table : a >>> 22 = a / 4096 / 1024 := by
    rw [Nat.shiftRight_eq_div_pow, Nat.div_div_eq_div_mul]
  have entry : (a >>> 12) % 1024 = a / 4096 % 1024 := by
    rw [Nat.shiftRight_eq_div_pow]
  unfold pageOk Mapped
  dsimp only
  rw [table, entry]
  by_cases low : a / 4096 / 1024 ≥ 768
  · have high : ¬ a / 4096 < KERNEL_VMA / 4096 := by
      unfold KERNEL_VMA
      omega
    simp [low, high]
  · have user : a / 4096 < KERNEL_VMA / 4096 := by
      unfold KERNEL_VMA
      omega
    rw [if_neg low]
    cases found : task.pageTables (a / 4096 / 1024) with
    | none => simp [found]
    | some pt =>
      have present := Bits.maskClear (pt (a / 4096 % 1024)) (i := 0) (by decide)
      have writable := Bits.maskClear (pt (a / 4096 % 1024)) (i := 1) (by decide)
      simp only [show 1#32 <<< 0 = 1#32 from rfl, show 1#32 <<< 1 = 2#32 from rfl] at present writable
      simp only [present, writable, found, Option.some.injEq, exists_eq_left', user, true_and]
      generalize (pt (a / 4096 % 1024)).getLsbD 0 = isPresent
      generalize (pt (a / 4096 % 1024)).getLsbD 1 = isWritable
      cases isPresent <;> cases isWritable <;> cases needWrite <;> simp

theorem walkIff (task : Task) (needWrite : Bool) (a stop : Nat) :
    walk task needWrite a stop = true ↔
      ∀ k, a + k * PAGE < stop → Mapped (some task) needWrite ((a + k * PAGE) / 4096) := by
  fun_induction walk task needWrite a stop with
  | case1 a below ok ih =>
    rw [ih]
    constructor
    · intro rest k inside
      cases k with
      | zero => simpa using (pageOkIff task needWrite a).mp ok
      | succ k =>
        rw [show a + (k + 1) * PAGE = a + PAGE + k * PAGE by rw [Nat.succ_mul]; omega] at inside ⊢
        exact rest k inside
    · intro all k inside
      have next := all (k + 1)
      rw [show a + (k + 1) * PAGE = a + PAGE + k * PAGE by rw [Nat.succ_mul]; omega] at next
      exact next inside
  | case2 a below bad =>
    refine ⟨fun absurd' => (nomatch absurd'), fun all => ?_⟩
    have first := all 0
    rw [Nat.zero_mul, Nat.add_zero] at first
    exact absurd ((pageOkIff task needWrite a).mpr (first below)) bad
  | case3 a above =>
    refine ⟨fun _ k inside => ?_, fun _ => rfl⟩
    omega

/-! ## The range check -/

theorem checkIff (current : Option Task) (addr len : BitVec 32) (needWrite : Bool) :
    checkUserRange current addr len needWrite = true ↔
      addr.toNat < KERNEL_VMA ∧ addr.toNat + len.toNat ≤ KERNEL_VMA ∧
      ∀ k, k * PAGE < len.toNat → Mapped current needWrite ((addr.toNat + k * PAGE) / 4096) := by
  have narrow := addr.isLt
  have short := len.isLt
  have sum : (addr + len).toNat = (addr.toNat + len.toNat) % 2 ^ 32 := BitVec.toNat_add addr len
  unfold checkUserRange
  dsimp only
  by_cases wraps : addr.toNat + len.toNat < 2 ^ 32
  · rw [Nat.mod_eq_of_lt wraps] at sum
    have forward : ¬ addr + len < addr := by
      rw [BitVec.lt_def, sum]
      omega
    rw [if_neg forward, sum]
    split <;> rename_i low
    · exact ⟨fun absurd' => (nomatch absurd'), fun all => absurd all.1 (Nat.not_lt.mpr low)⟩
    split <;> rename_i high
    · exact ⟨fun absurd' => (nomatch absurd'), fun all => absurd all.2.1 (Nat.not_le.mpr high)⟩
    have bounds : addr.toNat < KERNEL_VMA ∧ addr.toNat + len.toNat ≤ KERNEL_VMA := by omega
    split <;> rename_i empty
    · subst empty
      exact ⟨fun _ => ⟨bounds.1, bounds.2, fun k inside => absurd inside (Nat.not_lt_zero _)⟩,
        fun _ => rfl⟩
    have some' : 0 < len.toNat := by
      by_contra zero
      exact empty (BitVec.eq_of_toNat_eq (by simpa using zero))
    cases current with
    | none =>
      refine ⟨fun absurd' => (nomatch absurd'), fun all => ?_⟩
      obtain ⟨_, absent, _⟩ := all.2.2 0 (by omega)
      cases absent
    | some task =>
      rw [walkIff]
      simp only [bounds.1, bounds.2, true_and, Nat.add_lt_add_iff_left]
  · have below : addr + len < addr := by
      rw [BitVec.lt_def, sum]
      omega
    rw [if_pos below]
    refine ⟨fun absurd' => (nomatch absurd'), fun ⟨_, fits, _⟩ => ?_⟩
    unfold KERNEL_VMA at fits
    omega

/-! ## What the stride misses -/

section
variable {current : Option Task} {needWrite : Bool}

theorem visited {addr len a : Nat} (low : addr ≤ a) (high : a < addr + len)
    (seen : a / 4096 < (addr + len - 1) / 4096 ∨ ¬ Straddles addr len) :
    ∃ k, k * PAGE < len ∧ (addr + k * PAGE) / 4096 = a / 4096 := by
  refine ⟨a / 4096 - addr / 4096, ?_, ?_⟩
  · unfold Straddles at seen
    unfold PAGE
    omega
  · unfold PAGE
    omega

theorem accessibleIff (addr len : BitVec 32) :
    (checkUserRange current addr len needWrite = true →
      Accessible current needWrite addr.toNat len.toNat) ↔
    LastInOrder current needWrite addr.toNat len.toNat := by
  rw [checkIff]
  constructor
  · intro sound straddles fits nonempty before
    unfold Straddles at straddles
    have accessible := sound ⟨by omega, fits, fun k inside => ?_⟩
    · exact accessible.2 _ (by omega) (by omega)
    · unfold PAGE at inside ⊢
      exact before _ (by omega) (by omega) (by omega)
  · intro last ⟨low, fits, probed⟩
    refine ⟨fits, fun a above below => ?_⟩
    by_cases seen : a / 4096 < (addr.toNat + len.toNat - 1) / 4096 ∨
        ¬ Straddles addr.toNat len.toNat
    · obtain ⟨k, inside, same⟩ := visited above below seen
      exact same ▸ probed k inside
    · obtain ⟨here, straddles⟩ := not_or.mp seen
      have page : a / 4096 = (addr.toNat + len.toNat - 1) / 4096 := by omega
      rw [page]
      refine last (not_not.mp straddles) fits (by omega) fun b above below before => ?_
      obtain ⟨k, inside, same⟩ := visited above below (Or.inl before)
      exact same ▸ probed k inside

end

theorem copyGuarded (current : Option Task) (needWrite : Bool) (mem mem' : Memory)
    (addr len : BitVec 32) :
    Guarded current needWrite mem addr len
      (if !checkUserRange current addr len needWrite then ((-1 : Int), mem) else (0, mem')) ↔
    LastInOrder current needWrite addr.toNat len.toNat := by
  rw [← accessibleIff]
  unfold Guarded
  cases checkUserRange current addr len needWrite with
  | true => simp
  | false => simp

/-- Both copies are guarded exactly where the page the stride may miss is in order. -/
theorem copiesGuardedIff (current : Option Task) (mem : Memory) (addr other len : BitVec 32) :
    (Guarded current true mem addr len (copyToUser current mem addr other len) ↔
      LastInOrder current true addr.toNat len.toNat) ∧
    (Guarded current false mem addr len (copyFromUser current mem other addr len) ↔
      LastInOrder current false addr.toNat len.toNat) :=
  ⟨copyGuarded current true mem _ addr len, copyGuarded current false mem _ addr len⟩

def onePage : Task where
  pageTables pdi := if pdi = 0 then some fun i => if i = 1 then 3 else 0 else none

/-- Two bytes at 0x1FFF: the second lies on an unmapped page, the copy succeeds. -/
theorem straddlingCopyUnguarded :
    (copyToUser (some onePage) (fun _ => 0) 0x1FFF 0xC0000000 2).1 = 0 ∧
    ¬ Guarded (some onePage) true (fun _ => 0) 0x1FFF 2
      (copyToUser (some onePage) (fun _ => 0) 0x1FFF 0xC0000000 2) := by
  have unmapped : ∀ needWrite, ¬ Mapped (some onePage) needWrite 2 := by
    rintro needWrite ⟨task, same, _, pt, found, present, _⟩
    cases same
    cases found
    simp at present
  have succeeds : (copyToUser (some onePage) (fun _ => 0) 0x1FFF 0xC0000000 2).1 = 0 := by
    have checked : checkUserRange (some onePage) 0x1FFF 2 true = true := by
      rw [checkIff]
      refine ⟨by decide, by decide, fun k inside => ?_⟩
      have first : k = 0 := by
        change k * 4096 < 2 at inside
        omega
      subst first
      exact ⟨onePage, rfl, by decide, _, rfl, by decide, fun _ => by decide⟩
    unfold copyToUser
    rw [checked]
    rfl
  refine ⟨succeeds, fun guarded => ?_⟩
  exact unmapped true ((guarded.1 succeeds).2 0x2000 (by decide) (by decide))

end Scepter.Uaccess
