import Scepter.Lib.Blocks
import Scepter.Lib.Memory

/-! The allocator of the C library (crt/libc/stdlib/malloc.c) over sys_brk
(kernel/syscall.c). Memory is bytes at user addresses, and the header of a block lies
in front of its data. A call that loops for ever has no result. -/
namespace Scepter.Malloc

structure Abi where
  ptr : Nat
  known : ptr = 4 ∨ ptr = 8

def i386 : Abi := ⟨4, Or.inl rfl⟩

def BLOCK_MAGIC : Nat := 0x4D414C43
def EINVAL : Nat := 22
def ENOMEM : Nat := 12

variable (abi : Abi)

def Abi.word : Nat := 256 ^ abi.ptr
def BLOCK_SIZE : Nat := 4 * abi.ptr
def sizeAt : Nat := abi.ptr
def nextAt : Nat := 2 * abi.ptr
def isFreeAt : Nat := 3 * abi.ptr

def align8 (x : Nat) : Nat := (x + 7) % abi.word / 8 * 8

def MMAP_BASE : Nat := 0x40000000

structure Break where
  brkStart : Nat
  brkEnd : Nat

/-- The result when it is not negative. `enough` stands for RLIMIT_AS and the heap VMA. -/
def sysBrk (k : Break) (enough : Bool) (addr : Nat) : Option Nat × Break :=
  let addr := addr % 2 ^ 32
  if addr = 0 then (some k.brkEnd, k)
  else if addr < k.brkStart ∨ MMAP_BASE ≤ addr ∨ enough = false then (none, k)
  else (some addr, {k with brkEnd := addr})

structure Heap where
  mem : Buf
  freeList : Nat
  heapStart : Nat
  heapEnd : Nat
  kernel : Break

def started (h : Heap) : Heap :=
  if h.heapStart = 0 then {h with heapStart := h.kernel.brkEnd, heapEnd := h.kernel.brkEnd} else h

def sbrk (h : Heap) (enough : Bool) (increment : Nat) : Option Nat × Heap :=
  let h := started h
  let target := (h.heapEnd + increment) % abi.word
  match sysBrk h.kernel enough target with
  | (none, _) => (none, h)
  | (some _, k) => (some h.heapEnd, {h with heapEnd := target, kernel := k})

def findFree (m : Buf) (size : Nat) : Nat → Nat → Nat → Option (Nat × Nat)
  | 0, _, _ => none
  | fuel + 1, b, prev =>
    if b = 0 then some (0, prev)
    else if m.load (b + isFreeAt abi) 4 ≠ 0 ∧ m.load (b + sizeAt abi) abi.ptr ≥ size then
      some (b, prev)
    else findFree m size fuel (m.load (b + nextAt abi) abi.ptr) b

def requestSpace (h : Heap) (enough : Bool) (last size : Nat) : Nat × Heap :=
  match sbrk abi h enough ((BLOCK_SIZE abi + size) % abi.word) with
  | (none, h) => (0, h)
  | (some b, h) =>
    let m := h.mem.store b BLOCK_MAGIC abi.ptr
    let m := m.store (b + sizeAt abi) size abi.ptr
    let m := m.store (b + nextAt abi) 0 abi.ptr
    let m := m.store (b + isFreeAt abi) 0 4
    (b, {h with mem := if last = 0 then m else m.store (last + nextAt abi) b abi.ptr})

def split (m : Buf) (b size : Nat) : Buf :=
  let rest := b + BLOCK_SIZE abi + size
  let m := m.store (rest + sizeAt abi)
    (m.load (b + sizeAt abi) abi.ptr - size - BLOCK_SIZE abi) abi.ptr
  let m := m.store (rest + nextAt abi) (m.load (b + nextAt abi) abi.ptr) abi.ptr
  let m := m.store (rest + isFreeAt abi) 1 4
  let m := m.store (b + nextAt abi) rest abi.ptr
  m.store (b + sizeAt abi) size abi.ptr

def splitIfBig (m : Buf) (b size : Nat) : Buf :=
  if m.load (b + sizeAt abi) abi.ptr ≥ (size + BLOCK_SIZE abi + 16) % abi.word
  then split abi m b size else m

def turns (h : Heap) : Nat := h.heapEnd + 1

def malloc (h : Heap) (enough : Bool) (size : Nat) : Option (Nat × Heap) :=
  let size := align8 abi (if size = 0 then 1 else size)
  if h.freeList = 0 then
    let (b, h) := requestSpace abi h enough 0 size
    if b = 0 then some (0, h) else some (b + BLOCK_SIZE abi, {h with freeList := b})
  else do
    let (b, prev) ← findFree abi h.mem size (turns h) h.freeList 0
    if b = 0 then
      let (b, h) := requestSpace abi h enough prev size
      if b = 0 then some (0, h) else some (b + BLOCK_SIZE abi, h)
    else
      let m := splitIfBig abi h.mem b size
      some (b + BLOCK_SIZE abi, {h with mem := m.store (b + isFreeAt abi) 0 4})

def posixMemalign (h : Heap) (enough : Bool) (memptr alignment size : Nat) :
    Option (Nat × Nat × Heap) :=
  if memptr = 0 then some (EINVAL, 0, h)
  else if alignment < abi.ptr ∨ alignment &&& (alignment - 1) ≠ 0 then some (EINVAL, 0, h)
  else do
    let size := if size = 0 then 1 else size
    let (raw, h) ← malloc abi h enough ((size + alignment + abi.ptr) % abi.word)
    if raw = 0 then some (ENOMEM, 0, h)
    else
      -- alignment is a power of two
      let addr := (raw + abi.ptr + alignment - 1) / alignment * alignment
      some (0, addr, {h with mem := h.mem.store (addr - abi.ptr) raw abi.ptr})

/-! ## free -/

def absorb (m : Buf) (b c : Nat) : Buf :=
  let m := m.store (b + sizeAt abi) ((m.load (b + sizeAt abi) abi.ptr +
    (BLOCK_SIZE abi + m.load (c + sizeAt abi) abi.ptr)) % abi.word) abi.ptr
  m.store (b + nextAt abi) (m.load (c + nextAt abi) abi.ptr) abi.ptr

/-- The block whose next is `b`, or NULL. -/
def findPrev (m : Buf) (b : Nat) : Nat → Nat → Option Nat
  | 0, _ => none
  | fuel + 1, prev =>
    if prev = 0 then some 0
    else
      let next := m.load (prev + nextAt abi) abi.ptr
      if next = b then some prev else findPrev m b fuel next

def rawOf (h : Heap) (p : Nat) : Nat :=
  let raw := h.mem.load (p - abi.ptr) abi.ptr
  if raw ≠ 0 ∧ h.heapStart ≠ 0 ∧ h.heapEnd ≠ 0 ∧ h.heapStart ≤ raw ∧ raw < h.heapEnd ∧
      h.mem.load raw abi.ptr = BLOCK_MAGIC
  then raw + BLOCK_SIZE abi else p

def joinNext (m : Buf) (b : Nat) : Buf :=
  let next := m.load (b + nextAt abi) abi.ptr
  if next ≠ 0 ∧ m.load (next + isFreeAt abi) 4 ≠ 0 then absorb abi m b next else m

def joinPrev (h : Heap) (b : Nat) : Option Heap :=
  if b = h.freeList then some h
  else do
    let prev ← findPrev abi h.mem b (turns h) h.freeList
    if prev ≠ 0 ∧ h.mem.load (prev + isFreeAt abi) 4 ≠ 0 then
      some {h with mem := absorb abi h.mem prev b}
    else some h

def free (h : Heap) (p : Nat) : Option Heap :=
  if p = 0 then some h
  else
    let b := rawOf abi h p - BLOCK_SIZE abi
    joinPrev abi {h with mem := joinNext abi (h.mem.store (b + isFreeAt abi) 1 4) b} b

/-! ## calloc and realloc -/

def zeroFrom (m : Buf) (p : Nat) : Nat → Buf
  | 0 => m
  | k + 1 => zeroFrom (Function.update m p 0) (p + 1) k

def copyFrom (m : Buf) (dst src : Nat) : Nat → Buf
  | 0 => m
  | k + 1 => copyFrom (Function.update m dst (m src)) (dst + 1) (src + 1) k

def calloc (h : Heap) (enough : Bool) (nmemb size : Nat) : Option (Nat × Heap) :=
  let total := nmemb * size % abi.word
  if nmemb ≠ 0 ∧ total / nmemb ≠ size then some (0, h)
  else do
    let (p, h) ← malloc abi h enough (if total = 0 then 1 else total)
    if p = 0 then some (0, h) else some (p, {h with mem := zeroFrom h.mem p total})

def realloc (h : Heap) (enough : Bool) (p size : Nat) : Option (Nat × Heap) :=
  if p = 0 then malloc abi h enough size
  else if size = 0 then (free abi h p).map fun h => (0, h)
  else
    let b := p - BLOCK_SIZE abi
    let size := align8 abi size
    let have' := h.mem.load (b + sizeAt abi) abi.ptr
    let next := h.mem.load (b + nextAt abi) abi.ptr
    if size > have' ∧ next ≠ 0 ∧ h.mem.load (next + isFreeAt abi) 4 ≠ 0 ∧
        (have' + BLOCK_SIZE abi + h.mem.load (next + sizeAt abi) abi.ptr) % abi.word ≥ size then
      some (p, {h with mem := splitIfBig abi (absorb abi h.mem b next) b size})
    else if have' ≥ size then some (p, h)
    else do
      let (q, h) ← malloc abi h enough size
      if q = 0 then some (0, h)
      else
        let copy := min (h.mem.load (b + sizeAt abi) abi.ptr) size
        let h ← free abi {h with mem := copyFrom h.mem q p copy} p
        some (q, h)

/-! ## Runs -/

/-- A block handed out and not freed yet: the pointer and the size of the request, and
the header, which the code does not keep. -/
structure Live where
  ptr : Nat
  size : Nat
  block : Nat
  deriving DecidableEq, Repr

structure State where
  heap : Heap
  live : List Live

inductive Action where
  | malloc (size : Nat) (enough : Bool)
  | calloc (nmemb size : Nat) (enough : Bool)
  | realloc (ptr size : Nat) (enough : Bool)
  | posixMemalign (alignment size : Nat) (enough : Bool)
  | free (ptr : Nat)
  | store (addr : Nat) (bytes : List Byte)

def handedOut (live : List Live) (p size : Nat) : List Live :=
  if p = 0 then live else ⟨p, size, p - BLOCK_SIZE abi⟩ :: live

def step (s : State) : Action → Option State
  | .malloc size enough =>
    if size < abi.word then
      (malloc abi s.heap enough size).map fun (p, h) => ⟨h, handedOut abi s.live p size⟩
    else none
  | .calloc nmemb size enough =>
    if nmemb < abi.word ∧ size < abi.word then
      (calloc abi s.heap enough nmemb size).map fun (p, h) =>
        ⟨h, handedOut abi s.live p (nmemb * size)⟩
    else none
  | .realloc p size enough =>
    if size < abi.word then
      if p = 0 then
        (realloc abi s.heap enough 0 size).map fun (q, h) => ⟨h, handedOut abi s.live q size⟩
      else match s.live.find? fun e => e.ptr == p with
        | none => none
        | some e => (realloc abi s.heap enough p size).map fun (q, h) =>
          if size = 0 then ⟨h, s.live.erase e⟩
          else if q = 0 then ⟨h, s.live⟩
          else ⟨h, handedOut abi (s.live.erase e) q size⟩
    else none
  | .posixMemalign alignment size enough =>
    if alignment < abi.word ∧ size < abi.word then
      -- the caller's `void *` is at 1
      (posixMemalign abi s.heap enough 1 alignment size).map fun (err, addr, h) =>
        if err = 0 then
          ⟨h, ⟨addr, size, h.mem.load (addr - abi.ptr) abi.ptr - BLOCK_SIZE abi⟩ :: s.live⟩
        else ⟨h, s.live⟩
    else none
  | .free p =>
    if p = 0 then (free abi s.heap 0).map fun h => ⟨h, s.live⟩
    else match s.live.find? fun e => e.ptr == p with
      | none => none
      | some e => (free abi s.heap p).map fun h => ⟨h, s.live.erase e⟩
  | .store addr bytes =>
    if s.live.any fun e => e.ptr ≤ addr && addr + bytes.length ≤ e.ptr + e.size then
      some {s with heap.mem := s.heap.mem.write addr bytes}
    else none

end Scepter.Malloc
