import Scepter.Lib.Bytes

/-! The ACPI tables that acpi_init maps and their readers (acpi.c, tables.c), for a
32-bit machine. A table is the bytes behind its mapping; of what a reader does, the
reads of mapped memory are kept. -/
namespace Scepter.Acpi

def PAGE_SIZE : Nat := 4096

def HEADER_SIZE : Nat := 36
def MADT_SIZE : Nat := 44

def LOCAL_APIC : Nat := 0
def IO_APIC : Nat := 1
def INTERRUPT_OVERRIDE : Nat := 2

def u32 (x : Nat) : Nat := x % 2 ^ 32

/-- The bytes behind the pointer that ioremap returns: whole pages, their number
computed in 32 bits. -/
def ioremapBytes (physAddr size : Nat) : Nat :=
  let offset := physAddr % PAGE_SIZE
  u32 (size + offset + PAGE_SIZE - 1) / PAGE_SIZE * PAGE_SIZE - offset

structure Read where
  region : Nat
  off : Nat
  size : Nat
  deriving DecidableEq

def Read.Inside (r : Read) : Prop := r.off + r.size ≤ r.region
instance (r : Read) : Decidable r.Inside := by unfold Read.Inside; infer_instance

structure Machine where
  mem : Nat → Buf
  maps : Nat → Bool

structure Table where
  phys : Nat
  bytes : Buf

def Table.length (t : Table) : Nat := t.bytes.getU32 4

def Table.region (t : Table) : Nat := ioremapBytes t.phys t.length

def validChecksum (t : Table) : Bool :=
  (List.range t.length).foldl (fun sum i => sum + t.bytes i) 0#8 = 0#8

def entryCount (t : Table) : Nat := u32 (t.length + (2 ^ 32 - HEADER_SIZE)) / 4

def readEntry (t : Table) (i : Nat) : Read × Nat :=
  (⟨t.region, HEADER_SIZE + 4 * i, 4⟩, t.bytes.getU32 (HEADER_SIZE + 4 * i))

def readHeader (physAddr off size : Nat) : Read := ⟨ioremapBytes physAddr HEADER_SIZE, off, size⟩

def signatureIs (m : Machine) (physAddr : Nat) (signature : Buf) : Bool :=
  (List.range 4).all fun i => m.mem physAddr i = signature i

def findFrom (m : Machine) (rsdt : Table) (signature : Buf) : Nat → Nat → List Read × Nat
  | 0, _ => ([], 0)
  | left + 1, i =>
    let (read, physAddr) := readEntry rsdt i
    if m.maps physAddr then
      if signatureIs m physAddr signature then ([read, readHeader physAddr 0 4], physAddr)
      else
        let (reads, found) := findFrom m rsdt signature left (i + 1)
        (read :: readHeader physAddr 0 4 :: reads, found)
    else
      let (reads, found) := findFrom m rsdt signature left (i + 1)
      (read :: reads, found)

def acpiFindTable (m : Machine) (rsdt : Table) (signature : Buf) : List Read × Nat :=
  let result := findFrom m rsdt signature (entryCount rsdt) 0
  (⟨rsdt.region, 4, 4⟩ :: result.1, result.2)

def acpiListTables (m : Machine) (rsdt : Table) : List Read :=
  ⟨rsdt.region, 4, 4⟩ :: (List.range (entryCount rsdt)).flatMap fun i =>
    let (read, physAddr) := readEntry rsdt i
    if m.maps physAddr then [read, readHeader physAddr 0 4, readHeader physAddr 4 4] else [read]

def entryReads (madt : Table) (p : Nat) : List Read :=
  let at_ := fun off size : Nat => (⟨madt.region, p + off, size⟩ : Read)
  let type := (madt.bytes p).toNat
  at_ 0 1 ::
    (if type = LOCAL_APIC then
      at_ 4 4 :: (if madt.bytes.getU32 (p + 4) % 2 = 1 then [at_ 2 1, at_ 3 1] else [])
    else if type = IO_APIC then [at_ 2 1, at_ 4 4, at_ 8 4]
    else if type = INTERRUPT_OVERRIDE then [at_ 3 1, at_ 4 4, at_ 8 2]
    else []) ++ [at_ 1 1]

def madtLoop (madt : Table) : Nat → Nat → Option (List Read)
  | 0, p => if p < madt.length then none else some []
  | fuel + 1, p =>
    if p < madt.length then
      (madtLoop madt fuel (p + (madt.bytes (p + 1)).toNat)).map (entryReads madt p ++ ·)
    else some []

def acpiParseMadt (madt : Table) (fuel : Nat) : Option (List Read) :=
  (madtLoop madt fuel MADT_SIZE).map fun reads =>
    ⟨madt.region, 36, 4⟩ :: ⟨madt.region, 40, 4⟩ :: ⟨madt.region, 4, 4⟩ :: reads

/-! ## What should hold -/

def AllInside (reads : List Read) : Prop := ∀ r ∈ reads, r.Inside

structure RsdtSafe (m : Machine) (rsdt : Table) : Prop where
  find : ∀ signature, AllInside (acpiFindTable m rsdt signature).1
  list : AllInside (acpiListTables m rsdt)

def MadtSafe (madt : Table) : Prop :=
  ∃ fuel reads, acpiParseMadt madt fuel = some reads ∧ AllInside reads

def fixedSize (type : Nat) : Nat :=
  if type = LOCAL_APIC then 8
  else if type = IO_APIC then 12
  else if type = INTERRUPT_OVERRIDE then 10
  else 2

inductive Chain (madt : Table) : Nat → Prop where
  | done {p : Nat} (behind : madt.length ≤ p) : Chain madt p
  | entry {p : Nat} (before : p < madt.length)
      (fits : p + fixedSize (madt.bytes p).toNat ≤ madt.region)
      (some_ : (madt.bytes (p + 1)).toNat ≠ 0)
      (next : Chain madt (p + (madt.bytes (p + 1)).toNat)) : Chain madt p

section rsdt
variable {m : Machine} {t : Table}

theorem headerInside (physAddr : Nat) {off size : Nat} (small : off + size ≤ HEADER_SIZE) :
    (readHeader physAddr off size).Inside := by
  unfold readHeader Read.Inside ioremapBytes u32
  have bound : physAddr % PAGE_SIZE < PAGE_SIZE := Nat.mod_lt _ (by decide)
  simp only [PAGE_SIZE, HEADER_SIZE] at bound small ⊢
  rw [Nat.mod_eq_of_lt (by omega)]
  omega

theorem regionBound (physAddr : Nat) (size : Nat) : ioremapBytes physAddr size ≤
    u32 (size + physAddr % PAGE_SIZE + PAGE_SIZE - 1) := by
  unfold ioremapBytes
  dsimp only
  have bound := Nat.div_mul_le_self (u32 (size + physAddr % PAGE_SIZE + PAGE_SIZE - 1)) PAGE_SIZE
  omega

theorem regionCovers {physAddr size : Nat}
    (fits : size + physAddr % PAGE_SIZE + PAGE_SIZE - 1 < 2 ^ 32) :
    size ≤ ioremapBytes physAddr size := by
  unfold ioremapBytes u32
  dsimp only
  rw [Nat.mod_eq_of_lt fits]
  simp only [PAGE_SIZE]
  omega

theorem countShort {n : Nat} (short : n < HEADER_SIZE) :
    2 ^ 29 < u32 (n + (2 ^ 32 - HEADER_SIZE)) / 4 := by
  unfold u32
  unfold HEADER_SIZE at short ⊢
  omega

theorem countLong {n : Nat} (long : HEADER_SIZE ≤ n) (small : n < 2 ^ 32) :
    u32 (n + (2 ^ 32 - HEADER_SIZE)) / 4 = (n - HEADER_SIZE) / 4 := by
  unfold u32
  unfold HEADER_SIZE at long ⊢
  omega

theorem pagesBound {n offset : Nat} (short : n < HEADER_SIZE) (inPage : offset < PAGE_SIZE) :
    u32 (n + offset + PAGE_SIZE - 1) ≤ 8226 := by
  unfold u32
  unfold HEADER_SIZE at short
  unfold PAGE_SIZE at inPage ⊢
  omega

theorem pagesWrap {n offset : Nat} (small : n < 2 ^ 32) (inPage : offset < PAGE_SIZE)
    (wraps : 2 ^ 32 ≤ n + offset + PAGE_SIZE - 1) :
    u32 (n + offset + PAGE_SIZE - 1) ≤ 8190 ∧ 2 ^ 31 < n := by
  unfold u32
  unfold PAGE_SIZE at inPage wraps ⊢
  omega

theorem findInside (safe : ∀ i < entryCount t, (readEntry t i).1.Inside) (signature : Buf)
    (left i : Nat) (within : i + left ≤ entryCount t) : AllInside (findFrom m t signature left i).1 := by
  induction left generalizing i with
  | zero => exact fun r absurd' => nomatch absurd'
  | succ left ih =>
    have here := safe i (by omega)
    have rest := ih (i + 1) (by omega)
    have header := headerInside (readEntry t i).2 (show 0 + 4 ≤ HEADER_SIZE by decide)
    unfold findFrom
    dsimp only
    split
    · split
      · intro r member
        simp only [List.mem_cons, List.not_mem_nil, or_false] at member
        rcases member with rfl | rfl
        · exact here
        · exact header
      · intro r member
        rcases List.mem_cons.mp member with rfl | member
        · exact here
        · rcases List.mem_cons.mp member with rfl | member
          · exact header
          · exact rest r member
    · intro r member
      rcases List.mem_cons.mp member with rfl | member
      · exact here
      · exact rest r member

theorem countOf (t : Table) : entryCount t = u32 (t.length + (2 ^ 32 - HEADER_SIZE)) / 4 := by
  unfold entryCount
  rfl

theorem lengthSmall (t : Table) : t.length < 2 ^ 32 := by
  unfold Table.length
  exact Buf.getU32Lt _ _

theorem tooShort {count region pages : Nat} (many : 2 ^ 29 < count) (few : pages ≤ 8226)
    (region' : region ≤ pages) (entries : 0 < count → 36 + 4 * count ≤ region) : False := by
  have inside := entries (by omega)
  omega

theorem tooLong {count region pages n : Nat} (count' : count = (n - 36) / 4) (few : pages ≤ 8190)
    (long : 2 ^ 31 < n) (region' : region ≤ pages)
    (entries : 0 < count → 36 + 4 * count ≤ region) : False := by
  have inside := entries (by omega)
  omega

theorem entryCovered {n region i : Nat} (covers : n ≤ region) (below : i < (n - 36) / 4) :
    36 + 4 * i + 4 ≤ region := by
  omega

theorem entryInsideIff (i : Nat) : (readEntry t i).1.Inside ↔ 36 + 4 * i + 4 ≤ t.region := by
  unfold readEntry Read.Inside HEADER_SIZE
  exact Iff.rfl

theorem listCovers (list : AllInside (acpiListTables m t)) (some_ : 0 < entryCount t) :
    36 + 4 * entryCount t ≤ t.region := by
  have last : (readEntry t (entryCount t - 1)).1 ∈ acpiListTables m t := by
    refine List.mem_cons_of_mem _ (List.mem_flatMap.mpr
      ⟨entryCount t - 1, List.mem_range.mpr (by omega), ?_⟩)
    dsimp only
    split <;> exact List.mem_cons_self
  have inside := (entryInsideIff _).mp (list _ last)
  omega

theorem listInside (header : (⟨t.region, 4, 4⟩ : Read).Inside)
    (safe : ∀ i < entryCount t, (readEntry t i).1.Inside) : AllInside (acpiListTables m t) := by
  intro r member
  rcases List.mem_cons.mp member with rfl | inside
  · exact header
  · obtain ⟨i, below, member⟩ := List.mem_flatMap.mp inside
    have here := safe i (List.mem_range.mp below)
    dsimp only at member
    split at member <;> simp only [List.mem_cons, List.not_mem_nil, or_false] at member
    · rcases member with rfl | rfl | rfl
      · exact here
      · exact headerInside _ (by decide)
      · exact headerInside _ (by decide)
    · exact member ▸ here

theorem rsdtSafeIff (m : Machine) (t : Table) : RsdtSafe m t ↔
    HEADER_SIZE ≤ t.length ∧ t.length + t.phys % PAGE_SIZE + PAGE_SIZE - 1 < 2 ^ 32 := by
  have small := lengthSmall t
  have offset : t.phys % PAGE_SIZE < PAGE_SIZE := Nat.mod_lt _ (by decide)
  constructor
  · rintro ⟨_, list⟩
    have region := regionBound t.phys t.length
    have entries := listCovers list
    by_contra bad
    rw [countOf] at entries
    by_cases short : t.length < HEADER_SIZE
    · exact tooShort (countShort short) (pagesBound short offset) region entries
    · have long := Nat.le_of_not_lt short
      have wraps : 2 ^ 32 ≤ t.length + t.phys % PAGE_SIZE + PAGE_SIZE - 1 :=
        Nat.le_of_not_lt fun fits => bad ⟨long, fits⟩
      obtain ⟨few, many⟩ := pagesWrap small offset wraps
      exact tooLong (countLong long small) few many region entries
  · rintro ⟨long, fits⟩
    have covers : t.length ≤ t.region := regionCovers fits
    have safe : ∀ i < entryCount t, (readEntry t i).1.Inside := by
      intro i below
      rw [countOf, countLong long small] at below
      exact (entryInsideIff i).mpr (entryCovered covers below)
    have header : (⟨t.region, 4, 4⟩ : Read).Inside :=
      Nat.le_trans (Nat.le_trans (show 4 + 4 ≤ HEADER_SIZE by decide) long) covers
    refine ⟨fun signature r member => ?_, listInside header safe⟩
    rcases List.mem_cons.mp member with rfl | inside
    · exact header
    · exact findInside safe signature _ 0 (Nat.le_of_eq (Nat.zero_add _)) r inside

end rsdt

section madt
variable {t : Table} {p : Nat}

theorem entryInside : AllInside (entryReads t p) ↔
    p + fixedSize (t.bytes p).toNat ≤ t.region := by
  unfold entryReads fixedSize AllInside Read.Inside
  dsimp only
  by_cases lapic : (t.bytes p).toNat = LOCAL_APIC
  · rw [if_pos lapic, if_pos lapic]
    split <;> simp only [List.cons_append, List.nil_append, List.mem_cons, List.not_mem_nil,
      or_false, forall_eq_or_imp, forall_eq] <;> omega
  · rw [if_neg lapic, if_neg lapic]
    by_cases ioapic : (t.bytes p).toNat = IO_APIC
    · rw [if_pos ioapic, if_pos ioapic]
      simp only [List.cons_append, List.nil_append, List.mem_cons, List.not_mem_nil, or_false,
        forall_eq_or_imp, forall_eq]
      omega
    · rw [if_neg ioapic, if_neg ioapic]
      split <;> simp only [List.cons_append, List.nil_append, List.mem_cons, List.not_mem_nil,
        or_false, forall_eq_or_imp, forall_eq] <;> omega

theorem zeroLengthStays (before : p < t.length) (none_ : (t.bytes (p + 1)).toNat = 0) (fuel : Nat) :
    madtLoop t fuel p = none := by
  induction fuel with
  | zero => exact if_pos before
  | succ fuel ih => rw [madtLoop, if_pos before, none_, Nat.add_zero, ih, Option.map_none]

theorem loopChain {fuel : Nat} {reads : List Read} (ran : madtLoop t fuel p = some reads)
    (inside : AllInside reads) : Chain t p := by
  induction fuel generalizing p reads with
  | zero =>
    unfold madtLoop at ran
    split at ran
    · cases ran
    · exact .done (by omega)
  | succ fuel ih =>
    by_cases before : p < t.length
    · have some_ : (t.bytes (p + 1)).toNat ≠ 0 := fun none_ => by
        rw [zeroLengthStays before none_] at ran
        cases ran
      rw [madtLoop, if_pos before] at ran
      obtain ⟨rest, next, rfl⟩ := Option.map_eq_some_iff.mp ran
      refine .entry before (entryInside.mp fun r member => ?_) some_ (ih next fun r member => ?_)
      · exact inside r (List.mem_append_left _ member)
      · exact inside r (List.mem_append_right _ member)
    · exact .done (by omega)

theorem chainLoop (chain : Chain t p) :
    ∃ fuel reads, madtLoop t fuel p = some reads ∧ AllInside reads := by
  induction chain with
  | done behind => exact ⟨0, [], if_neg (by omega), fun r absurd' => nomatch absurd'⟩
  | entry before fits some_ next ih =>
    obtain ⟨fuel, reads, ran, inside⟩ := ih
    refine ⟨fuel + 1, _, by rw [madtLoop, if_pos before, ran, Option.map_some], fun r member => ?_⟩
    rcases List.mem_append.mp member with here | later
    · exact entryInside.mpr fits r here
    · exact inside r later

theorem madtSafeIff (t : Table) : MadtSafe t ↔ MADT_SIZE ≤ t.region ∧ Chain t MADT_SIZE := by
  have fields (reads : List Read) : AllInside (⟨t.region, 36, 4⟩ :: ⟨t.region, 40, 4⟩ ::
      ⟨t.region, 4, 4⟩ :: reads) ↔ MADT_SIZE ≤ t.region ∧ AllInside reads := by
    unfold AllInside
    simp only [List.mem_cons, forall_eq_or_imp, Read.Inside, MADT_SIZE]
    constructor
    · rintro ⟨_, far, _, rest⟩
      exact ⟨far, rest⟩
    · rintro ⟨far, rest⟩
      exact ⟨by omega, far, by omega, rest⟩
  constructor
  · rintro ⟨fuel, reads, ran, inside⟩
    obtain ⟨rest, loop, rfl⟩ := Option.map_eq_some_iff.mp ran
    obtain ⟨far, inside⟩ := (fields rest).mp inside
    exact ⟨far, loopChain loop inside⟩
  · rintro ⟨far, chain⟩
    obtain ⟨fuel, reads, loop, inside⟩ := chainLoop chain
    refine ⟨fuel, _, ?_, (fields reads).mpr ⟨far, inside⟩⟩
    rw [acpiParseMadt, loop, Option.map_some]

/-- For every content of the tables: the readers end and stay in the mappings just
when the RSDT's length covers its header (and its pages do not wrap), and the MADT's
mapping covers its fixed part and its entries as far as they are read, each with a
length. -/
theorem acpiSafeIff (m : Machine) (rsdt madt : Table) : (RsdtSafe m rsdt ∧ MadtSafe madt) ↔
    (HEADER_SIZE ≤ rsdt.length ∧ rsdt.length + rsdt.phys % PAGE_SIZE + PAGE_SIZE - 1 < 2 ^ 32) ∧
      MADT_SIZE ≤ madt.region ∧ Chain madt MADT_SIZE :=
  and_congr (rsdtSafeIff m rsdt) (madtSafeIff madt)

def zeroLengthMadt : Table := ⟨0, fun o => if o = 4 then 46 else if o = 44 then 210 else 0⟩

theorem zeroLengthHangs : validChecksum zeroLengthMadt = true ∧ ¬ MadtSafe zeroLengthMadt := by
  refine ⟨by decide +kernel, ?_⟩
  rintro ⟨fuel, reads, ran, _⟩
  obtain ⟨rest, loop, _⟩ := Option.map_eq_some_iff.mp ran
  rw [zeroLengthStays (by decide) (by decide)] at loop
  cases loop

end madt

end Scepter.Acpi
