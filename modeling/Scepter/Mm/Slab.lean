import Scepter.Lib.Memory
import Scepter.Mm.Buddy

/-! The slab allocator (mm/slab.c) over the page allocator. Memory is bytes at
virtual addresses, and the header of a slab and its list of free objects lie in the
page itself. The lists of slabs are the lists of lib/list.h, whose nodes, in the
header too, are read by nothing else. A cache is found by the size of its objects
and so is named by it. -/
namespace Scepter.Slab
open Mm (Arch PageAllocator NULL PAGE_SIZE MEM_MAP pageAllocFlags pageFree)

def MAX_SLAB_CACHES : Nat := 16
def SLAB_MAGIC : Nat := 0x534C4142

def ptr (arch : Arch) : Nat := arch.wordBits / 8

/-! Offsets in slab_t: the magic and the list node take three words. -/
def objSizeAt (arch : Arch) : Nat := 3 * ptr arch
def numObjsAt (arch : Arch) : Nat := 3 * ptr arch + 2
def freeCountAt (arch : Arch) : Nat := 3 * ptr arch + 4
def freeListAt (arch : Arch) : Nat := 3 * ptr arch + 8
def slabHeader (arch : Arch) : Nat := 4 * ptr arch + 8

structure Heap where
  alloc : PageAllocator
  mem : Buf
  sizes : List Nat
  partials : Nat → List Nat
  full : Nat → List Nat

def roundUpFrom (size : Nat) : Nat → Nat → Nat
  | 0, pow2 => pow2
  | fuel + 1, pow2 =>
    if pow2 < size ∧ pow2 < 2048 then roundUpFrom size fuel (pow2 * 2) else pow2

def roundUpPow2 (size : Nat) : Nat := if size ≤ 8 then 8 else roundUpFrom size 8 8

def addrToSlab (addr : Nat) : Nat := addr / PAGE_SIZE * PAGE_SIZE

def isSlabPage (m : Buf) (addr : Nat) : Bool := m.load (addrToSlab addr) 4 == SLAB_MAGIC

def numObjs (arch : Arch) (objSize : Nat) : Nat := (PAGE_SIZE - slabHeader arch) / objSize

def slot (arch : Arch) (slab objSize i : Nat) : Nat := slab + slabHeader arch + i * objSize

def linkObjs (arch : Arch) (slab objSize : Nat) : Nat → Buf → Buf
  | 0, m => m
  | i + 1, m =>
    let obj := slot arch slab objSize i
    let m := m.store obj (m.load (slab + freeListAt arch) (ptr arch)) (ptr arch)
    linkObjs arch slab objSize i (m.store (slab + freeListAt arch) obj (ptr arch))

def formatSlab (arch : Arch) (m : Buf) (slab objSize : Nat) : Buf :=
  let num := numObjs arch objSize
  let m := m.store slab SLAB_MAGIC 4
  let m := m.store (slab + objSizeAt arch) objSize 2
  let m := m.store (slab + numObjsAt arch) num 2
  let m := m.store (slab + freeCountAt arch) num 2
  let m := m.store (slab + freeListAt arch) NULL (ptr arch)
  linkObjs arch slab objSize num m

def createSlab (arch : Arch) (h : Heap) (objSize : Nat) : Option (Nat × Heap) :=
  let (page, alloc) := pageAllocFlags arch h.alloc PAGE_SIZE MEM_MAP
  if page = NULL then none
  else some (page, {h with alloc := alloc, mem := formatSlab arch h.mem page objSize})

def getCache (h : Heap) (objSize : Nat) : Option Heap :=
  if objSize ∈ h.sizes then some h
  else if h.sizes.length ≥ MAX_SLAB_CACHES then none
  else some {h with
    sizes := h.sizes ++ [objSize]
    partials := Function.update h.partials objSize []
    full := Function.update h.full objSize []}

def addSlab (h : Heap) (objSize : Nat) : Heap :=
  let size := roundUpPow2 objSize
  if size > 2048 then h else (getCache h size).getD h

def slabInit (alloc : PageAllocator) (mem : Buf) : Heap :=
  [8, 16, 32, 64, 128, 256, 512, 1024, 2048].foldl addSlab ⟨alloc, mem, [], fun _ => [], fun _ => []⟩

/-! ## kalloc -/

def takeObj (arch : Arch) (m : Buf) (slab : Nat) : Nat × Buf :=
  let obj := m.load (slab + freeListAt arch) (ptr arch)
  let m := m.store (slab + freeListAt arch) (m.load obj (ptr arch)) (ptr arch)
  let count := m.load (slab + freeCountAt arch) 2
  (obj, m.store (slab + freeCountAt arch) ((count + 2 ^ 16 - 1) % 2 ^ 16) 2)

def allocFrom (arch : Arch) (h : Heap) (objSize slab : Nat) : Nat × Heap :=
  let (obj, m) := takeObj arch h.mem slab
  if m.load (slab + freeCountAt arch) 2 = 0 then
    (obj, {h with
      mem := m
      partials := Function.update h.partials objSize ((h.partials objSize).erase slab)
      full := Function.update h.full objSize (slab :: h.full objSize)})
  else (obj, {h with mem := m})

def kalloc (arch : Arch) (h : Heap) (size : Nat) : Nat × Heap :=
  if size = 0 then (NULL, h)
  else if size > 2048 then
    let (addr, alloc) := pageAllocFlags arch h.alloc size MEM_MAP
    (addr, {h with alloc := alloc})
  else
    let objSize := roundUpPow2 size
    match getCache h objSize with
    | none => (NULL, h)
    | some h => match h.partials objSize with
      | slab :: _ => allocFrom arch h objSize slab
      | [] => match createSlab arch h objSize with
        | none => (NULL, h)
        | some (slab, h) =>
          allocFrom arch {h with partials := Function.update h.partials objSize [slab]} objSize slab

/-! ## kfree -/

def putObj (arch : Arch) (m : Buf) (slab obj : Nat) : Buf :=
  let m := m.store obj (m.load (slab + freeListAt arch) (ptr arch)) (ptr arch)
  let m := m.store (slab + freeListAt arch) obj (ptr arch)
  m.store (slab + freeCountAt arch) ((m.load (slab + freeCountAt arch) 2 + 1) % 2 ^ 16) 2

def linked (h : Heap) (slab : Nat) : Bool :=
  h.sizes.any fun size => slab ∈ h.partials size ++ h.full size

def unlink (h : Heap) (slab : Nat) : Heap :=
  {h with
    partials := fun size => (h.partials size).erase slab
    full := fun size => (h.full size).erase slab}

def movePartial (h : Heap) (objSize slab : Nat) : Heap :=
  let h := unlink h slab
  {h with partials := Function.update h.partials objSize (slab :: h.partials objSize)}

def release (arch : Arch) (h : Heap) (objSize slab : Nat) : Option Heap :=
  if h.mem.load (slab + freeCountAt arch) 2 = h.mem.load (slab + numObjsAt arch) 2 then
    if h.partials objSize = [slab] then some h
    else if linked h slab then
      let h := unlink h slab
      some {h with alloc := pageFree arch h.alloc slab}
    else none
  else some h

def kfree (arch : Arch) (h : Heap) (addr : Nat) : Option Heap :=
  if addr = NULL then some h
  else if !isSlabPage h.mem addr then some {h with alloc := pageFree arch h.alloc addr}
  else
    let slab := addrToSlab addr
    let objSize := h.mem.load (slab + objSizeAt arch) 2
    let wasFull := h.mem.load (slab + freeCountAt arch) 2 = 0
    let h := {h with mem := putObj arch h.mem slab addr}
    match getCache h objSize with
    | none => some h
    | some h =>
      if wasFull then
        if linked h slab then release arch (movePartial h objSize slab) objSize slab else none
      else release arch h objSize slab

/-! ## One slab -/

def slots (arch : Arch) (slab objSize : Nat) : List Nat :=
  (List.range (numObjs arch objSize)).map (slot arch slab objSize)

structure SlabOk (arch : Arch) (m : Buf) (slab objSize : Nat) (chain : List Nat) : Prop where
  magic : m.load slab 4 = SLAB_MAGIC
  size : m.load (slab + objSizeAt arch) 2 = objSize
  num : m.load (slab + numObjsAt arch) 2 = numObjs arch objSize
  count : m.load (slab + freeCountAt arch) 2 = chain.length
  links : Buf.Chain (ptr arch) m (m.load (slab + freeListAt arch) (ptr arch)) chain
  once : chain.Nodup
  inside : ∀ o ∈ chain, o ∈ slots arch slab objSize

def SIZES : List Nat := [8, 16, 32, 64, 128, 256, 512, 1024, 2048]

theorem builtPtr {arch : Arch} (built : arch.Built) : ptr arch = 4 ∨ ptr arch = 8 := by
  rcases built with rfl | rfl
  · exact Or.inl rfl
  · exact Or.inr rfl

theorem addrFits {arch : Arch} (built : arch.Built) {addr : Nat} (word : addr < 2 ^ arch.wordBits) :
    addr < 256 ^ ptr arch := by
  rcases built with rfl | rfl
  · exact word
  · exact word

theorem sizeBounds {objSize : Nat} (listed : objSize ∈ SIZES) : 8 ≤ objSize ∧ objSize ≤ 2048 := by
  unfold SIZES at listed
  simp only [List.mem_cons, List.not_mem_nil, or_false] at listed
  omega

theorem sizeDoubled {v : Nat} (listed : v ∈ SIZES) (more : v < 2048) : v * 2 ∈ SIZES := by
  unfold SIZES at listed ⊢
  simp only [List.mem_cons, List.not_mem_nil, or_false] at listed ⊢
  omega

theorem roundUpFromSize {size v fuel : Nat} (small : size ≤ 2048) (listed : v ∈ SIZES)
    (enough : 2048 ≤ v * 2 ^ fuel) :
    roundUpFrom size fuel v ∈ SIZES ∧ size ≤ roundUpFrom size fuel v := by
  induction fuel generalizing v with
  | zero =>
    rw [Nat.pow_zero, Nat.mul_one] at enough
    exact ⟨listed, Nat.le_trans small enough⟩
  | succ fuel ih =>
    unfold roundUpFrom
    split <;> rename_i more
    · rw [Nat.pow_succ, Nat.mul_comm (2 ^ fuel), ← Nat.mul_assoc] at enough
      exact ih (sizeDoubled listed more.2) enough
    · have bounds := (sizeBounds listed).2
      exact ⟨listed, by omega⟩

theorem roundUpSize {size : Nat} (small : size ≤ 2048) :
    roundUpPow2 size ∈ SIZES ∧ size ≤ roundUpPow2 size := by
  unfold roundUpPow2
  split
  · exact ⟨by decide, by omega⟩
  · exact roundUpFromSize small (by decide) (by decide)

section
variable {arch : Arch} {slab objSize : Nat}

theorem headerRoom (arch : Arch) (objSize : Nat) (built : arch.Built) :
    slabHeader arch + numObjs arch objSize * objSize ≤ PAGE_SIZE := by
  have most : numObjs arch objSize * objSize ≤ PAGE_SIZE - slabHeader arch :=
    Nat.div_mul_le_self _ _
  have header : slabHeader arch ≤ PAGE_SIZE := by
    rcases builtPtr built with word | word <;> unfold slabHeader PAGE_SIZE <;> omega
  omega

theorem slotBounds (built : arch.Built) {o} (member : o ∈ slots arch slab objSize) :
    slab + slabHeader arch ≤ o ∧ o + objSize ≤ slab + PAGE_SIZE := by
  obtain ⟨i, index, rfl⟩ := List.mem_map.mp member
  have last : (i + 1) * objSize ≤ numObjs arch objSize * objSize :=
    Nat.mul_le_mul_right objSize (List.mem_range.mp index)
  have room := headerRoom arch objSize built
  rw [Nat.succ_mul] at last
  unfold slot
  omega

theorem slotsApart {o o'} (member : o ∈ slots arch slab objSize)
    (member' : o' ∈ slots arch slab objSize) (differ : o ≠ o') :
    o + objSize ≤ o' ∨ o' + objSize ≤ o := by
  obtain ⟨i, _, rfl⟩ := List.mem_map.mp member
  obtain ⟨j, _, rfl⟩ := List.mem_map.mp member'
  have step : ∀ {i j : Nat}, i < j →
      slot arch slab objSize i + objSize ≤ slot arch slab objSize j := by
    intro i j less
    have next := Nat.mul_le_mul_right objSize (Nat.succ_le_of_lt less)
    rw [Nat.succ_mul] at next
    unfold slot
    omega
  rcases Nat.lt_trichotomy i j with less | same | more
  · exact Or.inl (step less)
  · exact absurd (congrArg (slot arch slab objSize) same) differ
  · exact Or.inr (step more)

theorem slotsLength (arch : Arch) (slab objSize : Nat) :
    (slots arch slab objSize).length = numObjs arch objSize := by
  unfold slots
  rw [List.length_map, List.length_range]

theorem chainLength {m chain} (ok : SlabOk arch m slab objSize chain) :
    chain.length ≤ numObjs arch objSize := by
  rw [← slotsLength arch slab objSize]
  exact (ok.once.subperm ok.inside).length_le

theorem numObjsFits (arch : Arch) (objSize : Nat) : numObjs arch objSize ≤ PAGE_SIZE :=
  Nat.le_trans (Nat.div_le_self _ _) (Nat.sub_le _ _)

theorem slabOkCongr (built : arch.Built) {m m' : Buf} {chain}
    (header : ∀ b, slab ≤ b → b < slab + slabHeader arch → m' b = m b)
    (nodes : ∀ o ∈ chain, ∀ b, o ≤ b → b < o + ptr arch → m' b = m b)
    (ok : SlabOk arch m slab objSize chain) : SlabOk arch m' slab objSize chain := by
  have word := builtPtr built
  have field : ∀ {o k}, o + k ≤ slabHeader arch → m'.load (slab + o) k = m.load (slab + o) k :=
    fun room => Buf.loadCongr fun b low high => header b (by omega) (by omega)
  obtain ⟨magic, size, num, count, links, once, inside⟩ := ok
  unfold slabHeader at field
  refine ⟨?_, ?_, ?_, ?_, ?_, once, inside⟩
  · rw [← magic]
    exact field (o := 0) (by omega)
  · rw [← size]
    exact field (by unfold objSizeAt; omega)
  · rw [← num]
    exact field (by unfold numObjsAt; omega)
  · rw [← count]
    exact field (by unfold freeCountAt; omega)
  · rw [field (by unfold freeListAt; omega)]
    exact Buf.chainCongr nodes links

theorem takeObjByte (built : arch.Built) (m : Buf) (slab : Nat) {b}
    (apart : b < slab ∨ slab + slabHeader arch ≤ b) : (takeObj arch m slab).2 b = m b := by
  have word := builtPtr built
  unfold slabHeader at apart
  unfold takeObj freeListAt freeCountAt
  dsimp only
  rw [Buf.storeByte _ _ (by omega), Buf.storeByte _ _ (by omega)]

theorem takeObjOk (built : arch.Built) (listed : objSize ∈ SIZES) {m o rest}
    (word : slab + PAGE_SIZE ≤ 2 ^ arch.wordBits) (ok : SlabOk arch m slab objSize (o :: rest)) :
    (takeObj arch m slab).1 = o ∧ SlabOk arch (takeObj arch m slab).2 slab objSize rest := by
  have width := builtPtr built
  have sizes := sizeBounds listed
  have few := chainLength ok
  have most := numObjsFits arch objSize
  obtain ⟨magic, size, num, count, links, once, inside⟩ := ok
  obtain ⟨head, tail⟩ := links
  obtain ⟨fresh, once⟩ := List.nodup_cons.mp once
  have bounds := slotBounds built (inside o List.mem_cons_self)
  rw [List.length_cons] at few count
  unfold PAGE_SIZE at most
  unfold slabHeader at bounds
  have fits : m.load o (ptr arch) < 256 ^ ptr arch := by
    cases rest with
    | nil =>
      rw [show m.load o (ptr arch) = 0 from tail]
      exact Nat.pow_pos (by decide)
    | cons next others =>
      have bounds := slotBounds built (inside next (List.mem_cons_of_mem o List.mem_cons_self))
      rw [tail.1]
      refine addrFits built (Nat.lt_of_lt_of_le ?_ word)
      omega
  unfold takeObj
  dsimp only
  rw [head]
  refine ⟨rfl, ?_⟩
  unfold freeListAt freeCountAt
  rw [Buf.loadStoreApart m _ (by omega)]
  unfold freeCountAt at count
  rw [count]
  have less : (rest.length + 1 + 2 ^ 16 - 1) % 2 ^ 16 = rest.length := by omega
  rw [less]
  refine ⟨?_, ?_, ?_, ?_, ?_, once, fun other member => inside other (List.mem_cons_of_mem o member)⟩
  · rw [Buf.loadStoreApart _ _ (by omega), Buf.loadStoreApart _ _ (by omega)]
    exact magic
  · unfold objSizeAt at size ⊢
    rw [Buf.loadStoreApart _ _ (by omega), Buf.loadStoreApart _ _ (by omega)]
    exact size
  · unfold numObjsAt at num ⊢
    rw [Buf.loadStoreApart _ _ (by omega), Buf.loadStoreApart _ _ (by omega)]
    exact num
  · unfold freeCountAt
    exact Buf.loadStore _ (by omega)
  · unfold freeListAt
    rw [Buf.loadStoreApart _ _ (by omega), Buf.loadStore _ fits]
    refine Buf.chainCongr (fun other member b low high => ?_) tail
    have bounds := slotBounds built (inside other (List.mem_cons_of_mem o member))
    unfold slabHeader at bounds
    rw [Buf.storeByte _ _ (by omega), Buf.storeByte _ _ (by omega)]

theorem putObjByte (built : arch.Built) (m : Buf) (slab : Nat) {o b}
    (apart : b < slab ∨ slab + slabHeader arch ≤ b) (other : b < o ∨ o + ptr arch ≤ b) :
    putObj arch m slab o b = m b := by
  have word := builtPtr built
  unfold slabHeader at apart
  unfold putObj freeListAt freeCountAt
  rw [Buf.storeByte _ _ (by omega), Buf.storeByte _ _ (by omega), Buf.storeByte _ _ other]

theorem putObjOk (built : arch.Built) (listed : objSize ∈ SIZES) {m o chain}
    (word : slab + PAGE_SIZE ≤ 2 ^ arch.wordBits) (ok : SlabOk arch m slab objSize chain)
    (member : o ∈ slots arch slab objSize) (taken : o ∉ chain) :
    SlabOk arch (putObj arch m slab o) slab objSize (o :: chain) := by
  have width := builtPtr built
  have sizes := sizeBounds listed
  have bounds := slotBounds built member
  have most := numObjsFits arch objSize
  have once' : (o :: chain).Nodup := List.nodup_cons.mpr ⟨taken, ok.once⟩
  have inside' : ∀ other ∈ o :: chain, other ∈ slots arch slab objSize := by
    intro other old
    rcases List.mem_cons.mp old with rfl | old
    · exact member
    · exact ok.inside other old
  have few : chain.length + 1 ≤ numObjs arch objSize := by
    rw [← slotsLength arch slab objSize, ← List.length_cons (a := o)]
    exact (once'.subperm inside').length_le
  obtain ⟨magic, size, num, count, links, once, inside⟩ := ok
  unfold PAGE_SIZE at most
  unfold slabHeader at bounds
  have nodeFits : ∀ other ∈ slots arch slab objSize, other < 256 ^ ptr arch := by
    intro other old
    have bounds := slotBounds built old
    exact addrFits built (Nat.lt_of_lt_of_le (by omega) word)
  have headFits : m.load (slab + freeListAt arch) (ptr arch) < 256 ^ ptr arch := by
    cases chain with
    | nil =>
      rw [show m.load (slab + freeListAt arch) (ptr arch) = 0 from links]
      exact Nat.pow_pos (by decide)
    | cons next others =>
      rw [links.1]
      exact nodeFits next (inside next List.mem_cons_self)
  have pushed : Buf.Chain (ptr arch)
      (m.store o (m.load (slab + freeListAt arch) (ptr arch)) (ptr arch)) o (o :: chain) := by
    refine Buf.chainPush links headFits fun other old => ?_
    have apart := slotsApart (inside other old) member (fun same => taken (same ▸ old))
    omega
  unfold putObj
  dsimp only
  refine ⟨?_, ?_, ?_, ?_, ?_, once', inside'⟩
  · unfold freeListAt freeCountAt
    rw [Buf.loadStoreApart _ _ (by omega), Buf.loadStoreApart _ _ (by omega),
      Buf.loadStoreApart _ _ (by omega)]
    exact magic
  · unfold freeListAt freeCountAt objSizeAt at *
    rw [Buf.loadStoreApart _ _ (by omega), Buf.loadStoreApart _ _ (by omega),
      Buf.loadStoreApart _ _ (by omega)]
    exact size
  · unfold freeListAt freeCountAt numObjsAt at *
    rw [Buf.loadStoreApart _ _ (by omega), Buf.loadStoreApart _ _ (by omega),
      Buf.loadStoreApart _ _ (by omega)]
    exact num
  · unfold freeListAt freeCountAt at *
    rw [Buf.loadStore]
    · rw [Buf.loadStoreApart _ _ (by omega), Buf.loadStoreApart _ _ (by omega), count,
        List.length_cons]
      omega
    · exact Nat.mod_lt _ (by decide)
  · have front : ∀ (m : Buf) (count : Nat), ((m.store (slab + freeListAt arch) o (ptr arch)).store
        (slab + freeCountAt arch) count 2).load (slab + freeListAt arch) (ptr arch) = o := by
      intro m count
      unfold freeListAt freeCountAt
      rw [Buf.loadStoreApart _ _ (by omega), Buf.loadStore _ (nodeFits o member)]
    rw [front]
    unfold freeListAt freeCountAt at *
    refine Buf.chainCongr (fun other old b low high => ?_) pushed
    have bounds := slotBounds built (inside' other old)
    unfold slabHeader at bounds
    rw [Buf.storeByte _ _ (by omega), Buf.storeByte _ _ (by omega)]

theorem slotMem {i} (inside : i < numObjs arch objSize) :
    slot arch slab objSize i ∈ slots arch slab objSize :=
  List.mem_map_of_mem (List.mem_range.mpr inside)

theorem linkObjsByte (built : arch.Built) (listed : objSize ∈ SIZES) {i}
    (inside : i ≤ numObjs arch objSize) (m : Buf) {b}
    (apart : b < slab + freeListAt arch ∨ slab + PAGE_SIZE ≤ b) :
    linkObjs arch slab objSize i m b = m b := by
  have word := builtPtr built
  have sizes := sizeBounds listed
  induction i generalizing m with
  | zero => rfl
  | succ i ih =>
    have member : slot arch slab objSize i ∈ slots arch slab objSize := slotMem inside
    have bounds := slotBounds built member
    unfold linkObjs
    dsimp only
    rw [ih (Nat.le_of_succ_le inside)]
    unfold slabHeader at bounds
    unfold freeListAt PAGE_SIZE at *
    rw [Buf.storeByte _ _ (by omega), Buf.storeByte _ _ (by omega)]

theorem linkObjsChain (built : arch.Built) (listed : objSize ∈ SIZES)
    (word : slab + PAGE_SIZE ≤ 2 ^ arch.wordBits) {i} (inside : i ≤ numObjs arch objSize) (m : Buf)
    (chain : List Nat) (links : Buf.Chain (ptr arch) m (m.load (slab + freeListAt arch) (ptr arch)) chain)
    (later : ∀ o ∈ chain, o ∈ slots arch slab objSize ∧ slot arch slab objSize i ≤ o) :
    Buf.Chain (ptr arch) (linkObjs arch slab objSize i m)
      ((linkObjs arch slab objSize i m).load (slab + freeListAt arch) (ptr arch))
      ((List.range i).map (slot arch slab objSize) ++ chain) := by
  have width := builtPtr built
  have sizes := sizeBounds listed
  have nodeFits : ∀ o ∈ slots arch slab objSize, o < 256 ^ ptr arch := by
    intro o old
    have bounds := slotBounds built old
    exact addrFits built (Nat.lt_of_lt_of_le (by omega) word)
  induction i generalizing m chain with
  | zero => exact links
  | succ i ih =>
    have member : slot arch slab objSize i ∈ slots arch slab objSize := slotMem inside
    have bounds := slotBounds built member
    have fits := nodeFits _ member
    have next : slot arch slab objSize i + objSize = slot arch slab objSize (i + 1) := by
      unfold slot
      rw [Nat.succ_mul]
      omega
    have headFits : m.load (slab + freeListAt arch) (ptr arch) < 256 ^ ptr arch := by
      cases chain with
      | nil =>
        rw [show m.load (slab + freeListAt arch) (ptr arch) = 0 from links]
        exact Nat.pow_pos (by decide)
      | cons first others =>
        rw [links.1]
        exact nodeFits first (later first List.mem_cons_self).1
    have pushed := Buf.chainPush (a := slot arch slab objSize i) links headFits
      fun o old => Or.inr (by have := (later o old).2; omega)
    have kept : ∀ (m : Buf) o, o ∈ slots arch slab objSize → ∀ b, o ≤ b → b < o + ptr arch →
        m.store (slab + freeListAt arch) (slot arch slab objSize i) (ptr arch) b = m b := by
      intro m o old b low high
      have bounds := slotBounds built old
      unfold slabHeader at bounds
      unfold freeListAt
      exact Buf.storeByte _ _ (by omega)
    have relinked := Buf.chainCongr (fun o old => kept
      (m.store (slot arch slab objSize i) (m.load (slab + freeListAt arch) (ptr arch)) (ptr arch))
      o (by
        rcases List.mem_cons.mp old with rfl | old
        · exact member
        · exact (later o old).1)) pushed
    unfold linkObjs
    dsimp only
    rw [List.range_succ, List.map_append, List.append_assoc]
    refine ih (Nat.le_of_succ_le inside) _ (slot arch slab objSize i :: chain)
      (by rw [Buf.loadStore _ fits]; exact relinked) fun o old => ?_
    · rcases List.mem_cons.mp old with rfl | old
      · exact ⟨member, Nat.le_refl _⟩
      · obtain ⟨slotted, above⟩ := later o old
        exact ⟨slotted, by omega⟩

theorem formatSlabByte (built : arch.Built) (listed : objSize ∈ SIZES) (m : Buf) {b}
    (apart : b < slab ∨ slab + PAGE_SIZE ≤ b) : formatSlab arch m slab objSize b = m b := by
  have word := builtPtr built
  unfold formatSlab
  rw [linkObjsByte built listed (Nat.le_refl _) _ (by omega)]
  unfold objSizeAt numObjsAt freeCountAt freeListAt PAGE_SIZE at *
  rw [Buf.storeByte _ _ (by omega), Buf.storeByte _ _ (by omega), Buf.storeByte _ _ (by omega),
    Buf.storeByte _ _ (by omega), Buf.storeByte _ _ (by omega)]

theorem slotsNodup (pos : 0 < objSize) : (slots arch slab objSize).Nodup := by
  refine List.Nodup.map_on (fun i _ j _ same => ?_) List.nodup_range
  unfold slot at same
  exact Nat.eq_of_mul_eq_mul_right pos (Nat.add_left_cancel same)

theorem formatSlabOk (built : arch.Built) (listed : objSize ∈ SIZES)
    (word : slab + PAGE_SIZE ≤ 2 ^ arch.wordBits) (m : Buf) :
    SlabOk arch (formatSlab arch m slab objSize) slab objSize (slots arch slab objSize) := by
  have width := builtPtr built
  have sizes := sizeBounds listed
  have few := numObjsFits arch objSize
  have field : ∀ (m : Buf) {o k}, o + k ≤ freeListAt arch →
      (linkObjs arch slab objSize (numObjs arch objSize) m).load (slab + o) k =
        m.load (slab + o) k := fun m {o k} room =>
    Buf.loadCongr fun b low high =>
      linkObjsByte built listed (Nat.le_refl _) m (Or.inl (by omega))
  have once : (slots arch slab objSize).Nodup := slotsNodup (by omega)
  unfold PAGE_SIZE at few
  unfold formatSlab
  refine ⟨?_, ?_, ?_, ?_, ?_, once, fun o member => member⟩
  · refine (field _ (o := 0) (by unfold freeListAt; omega)).trans ?_
    unfold objSizeAt numObjsAt freeCountAt freeListAt
    rw [Nat.add_zero, Buf.loadStoreApart _ _ (by omega), Buf.loadStoreApart _ _ (by omega),
      Buf.loadStoreApart _ _ (by omega), Buf.loadStoreApart _ _ (by omega)]
    exact Buf.loadStore _ (by decide)
  · rw [field _ (by unfold freeListAt objSizeAt; omega)]
    unfold objSizeAt numObjsAt freeCountAt freeListAt
    rw [Buf.loadStoreApart _ _ (by omega), Buf.loadStoreApart _ _ (by omega),
      Buf.loadStoreApart _ _ (by omega)]
    exact Buf.loadStore _ (by omega)
  · rw [field _ (by unfold freeListAt numObjsAt; omega)]
    unfold numObjsAt freeCountAt freeListAt
    rw [Buf.loadStoreApart _ _ (by omega), Buf.loadStoreApart _ _ (by omega)]
    exact Buf.loadStore _ (by omega)
  · rw [field _ (by unfold freeListAt freeCountAt; omega), slotsLength]
    unfold freeCountAt freeListAt
    rw [Buf.loadStoreApart _ _ (by omega)]
    exact Buf.loadStore _ (by omega)
  · rw [← List.append_nil (slots arch slab objSize)]
    exact linkObjsChain built listed word (Nat.le_refl _) _ []
      (Buf.loadStore _ (Nat.pow_pos (by decide))) nofun

end

end Scepter.Slab
