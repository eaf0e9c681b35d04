import Scepter.Crt.Chain
import Scepter.Lib.Run

/-! The libc heap over any sequence of calls and stores to live memory. `Calm` is what
the unchecked arithmetic and free need: no rounding or header wraps around, and what
posix_memalign gave is neither freed nor resized. -/
namespace Scepter.Malloc
open Blocks Run

variable {abi : Abi}

def Held (abi : Abi) (blocks : List Block) (e : Live) : Prop :=
  ∃ b ∈ blocks, b.addr = e.block ∧ b.free = false ∧ b.addr + BLOCK_SIZE abi ≤ e.ptr ∧
    e.ptr + e.size ≤ b.stop (BLOCK_SIZE abi) ∧ e.ptr % 8 = 0

structure Good (abi : Abi) (h : Heap) (blocks : List Block) (live : List Live) : Prop where
  shape : Shape abi h.mem h.heapStart h.heapEnd blocks
  head : h.freeList = headAddr 0 blocks
  settled : Settled blocks
  broken : h.kernel.brkEnd ≤ 0xC0000000
  unstarted : h.heapStart = 0 → blocks = [] ∧ h.kernel.brkEnd % 8 = 0 ∧ 0 < h.kernel.brkEnd
  held : ∀ e ∈ live, Held abi blocks e
  distinct : live.Pairwise fun a b => a.block ≠ b.block

def target (abi : Abi) (h : Heap) (size : Nat) : Nat :=
  ((started h).heapEnd + (BLOCK_SIZE abi + size) % abi.word) % abi.word

/-- A block of `size` bytes does not reach past 2^32, or sys_brk refuses what comes of it. -/
def Grows (abi : Abi) (h : Heap) (enough : Bool) (size : Nat) : Prop :=
  (started h).heapEnd + BLOCK_SIZE abi + size < 2 ^ 32 ∨
  (sysBrk h.kernel enough (target abi h size)).1 = none
instance (abi h enough size) : Decidable (Grows abi h enough size) := by
  unfold Grows; infer_instance

def Fits (abi : Abi) (h : Heap) (enough : Bool) (size : Nat) : Prop :=
  size + 7 < abi.word ∧ Grows abi h enough (align8 abi size)
instance (abi h enough size) : Decidable (Fits abi h enough size) := by
  unfold Fits; infer_instance

/-! ## What is kept of the data -/

def DataKept (abi : Abi) (blocks : List Block) (m m' : Buf) : Prop :=
  ∀ b ∈ blocks, b.free = false →
    ∀ x, b.addr + BLOCK_SIZE abi ≤ x → x < b.stop (BLOCK_SIZE abi) → m' x = m x

theorem freeBlockKept {m m' : Buf} {start stop : Nat} {blocks : List Block} {c : Block}
    (contig : Contig (BLOCK_SIZE abi) start blocks stop) (member : c ∈ blocks) (free : c.free = true)
    (outside : ∀ x, x < c.addr ∨ c.stop (BLOCK_SIZE abi) ≤ x → m' x = m x) :
    DataKept abi blocks m m' := by
  intro b inB busy x low high
  have other : b ≠ c := fun same => absurd (busy.symm.trans (same ▸ free)) (by decide)
  have apart := contigOther contig member inB other
  exact outside x (by omega)

theorem headerApart {start stop x : Nat} {blocks : List Block} {b c : Block}
    (contig : Contig (BLOCK_SIZE abi) start blocks stop) (inB : b ∈ blocks) (inC : c ∈ blocks)
    (low : b.addr + BLOCK_SIZE abi ≤ x) (high : x < b.stop (BLOCK_SIZE abi)) :
    x < c.addr ∨ c.addr + BLOCK_SIZE abi ≤ x := by
  by_cases same : b = c
  · exact Or.inr (same ▸ low)
  · have apart := contigOther contig inC inB same
    simp only [Block.stop] at apart high
    omega

def LiveKept (abi : Abi) (live : List Live) (m m' : Buf) : Prop :=
  ∀ e ∈ live, ∀ x, e.block + BLOCK_SIZE abi ≤ x → x < e.ptr + e.size → m' x = m x

theorem dataLive {h : Heap} {m' : Buf} {blocks : List Block} {live : List Live}
    (good : Good abi h blocks live) (kept : DataKept abi blocks h.mem m') :
    LiveKept abi live h.mem m' := by
  intro e inLive x low high
  obtain ⟨b, inB, addr, busy, -, stop, -⟩ := good.held e inLive
  exact kept b inB busy x (by omega) (by omega)

theorem givenLive {h : Heap} {m' : Buf} {blocks : List Block} {live : List Live} {d : Block}
    (good : Good abi h blocks live) (inD : d ∈ blocks) (fresh : ∀ e ∈ live, e.block ≠ d.addr)
    (same : ∀ x, x < d.addr + BLOCK_SIZE abi ∨ d.stop (BLOCK_SIZE abi) ≤ x → m' x = h.mem x) :
    LiveKept abi live h.mem m' := by
  intro e inLive x low high
  obtain ⟨b, inB, addr, -, -, stop, -⟩ := good.held e inLive
  have other : b ≠ d := fun equal => fresh e inLive (by rw [← addr, equal])
  have apart := contigOther good.shape.contig inD inB other
  exact same x (by omega)

theorem liveTrans {live : List Live} {m m1 m2 : Buf} (first : LiveKept abi live m m1)
    (second : LiveKept abi live m1 m2) : LiveKept abi live m m2 :=
  fun e inLive x low high => (second e inLive x low high).trans (first e inLive x low high)

/-! ## malloc -/

theorem heldMore {blocks blocks' : List Block} {e : Live} (held : Held abi blocks e)
    (kept : ∀ b ∈ blocks, b.free = false → b.addr = e.block → b ∈ blocks') :
    Held abi blocks' e := by
  obtain ⟨b, member, addr, busy, rest⟩ := held
  exact ⟨b, kept b member busy addr, addr, busy, rest⟩

theorem startedGood {h : Heap} {blocks : List Block} {live : List Live}
    (good : Good abi h blocks live) :
    Good abi (started h) blocks live ∧ 0 < (started h).heapStart := by
  unfold started
  split
  · rename_i none
    obtain ⟨rfl, aligned, pos⟩ := good.unstarted none
    refine ⟨{ good with shape := ?_, unstarted := ?_ }, pos⟩
    · exact ⟨trivial, rfl, fun h => absurd rfl h, good.broken, aligned, List.forall_mem_nil _⟩
    · exact fun zero => absurd zero (Nat.ne_of_gt pos)
  · exact ⟨good, by omega⟩

theorem sbrkEq (h : Heap) (enough : Bool) (size : Nat) :
    sbrk abi h enough ((BLOCK_SIZE abi + size) % abi.word) =
      match sysBrk h.kernel enough (target abi h size) with
      | (none, _) => (none, started h)
      | (some _, k) => (some (started h).heapEnd,
        {started h with heapEnd := target abi h size, kernel := k}) := by
  have kernel : (started h).kernel = h.kernel := by
    unfold started
    split <;> rfl
  rw [← kernel]
  exact rfl

theorem requestRefused {h : Heap} {enough : Bool} {last size : Nat}
    (refused : (sysBrk h.kernel enough (target abi h size)).1 = none) :
    requestSpace abi h enough last size = (0, started h) := by
  have result : sysBrk h.kernel enough (target abi h size) =
      (none, (sysBrk h.kernel enough (target abi h size)).2) := Prod.ext refused rfl
  rw [requestSpace, sbrkEq, result]

theorem requestGranted {h : Heap} {enough : Bool} {size : Nat} (last : Nat)
    (fits : (started h).heapEnd + BLOCK_SIZE abi + size < 2 ^ 32)
    (granted : (sysBrk h.kernel enough (target abi h size)).1 ≠ none) :
    (started h).heapEnd + BLOCK_SIZE abi + size < MMAP_BASE ∧ requestSpace abi h enough last size = ((started h).heapEnd, {started h with
      mem := appended abi h.mem last (started h).heapEnd size
      heapEnd := (started h).heapEnd + BLOCK_SIZE abi + size
      kernel := {h.kernel with brkEnd := (started h).heapEnd + BLOCK_SIZE abi + size}}) := by
  have word := wordLarge abi
  have hdr := blockSizePos abi
  have exact' : target abi h size = (started h).heapEnd + BLOCK_SIZE abi + size := by
    rw [target, Nat.mod_eq_of_lt (a := BLOCK_SIZE abi + size) (by omega),
      Nat.mod_eq_of_lt (by omega)]
    omega
  have nonzero : target abi h size ≠ 0 := by omega
  have result : target abi h size < MMAP_BASE ∧ sysBrk h.kernel enough (target abi h size) =
      (some (target abi h size), {h.kernel with brkEnd := target abi h size}) := by
    simp only [sysBrk, Nat.mod_eq_of_lt (exact' ▸ fits), if_neg nonzero] at granted ⊢
    split at granted
    · exact absurd rfl granted
    · rename_i allowed
      rw [if_neg allowed]
      exact ⟨by omega, rfl⟩
  have mem : (started h).mem = h.mem := by
    unfold started
    split <;> rfl
  refine ⟨exact' ▸ result.1, ?_⟩
  rw [requestSpace, sbrkEq, result.2, exact']
  simp only [appended, mem]

theorem appendedKept {m : Buf} {start stop size : Nat} {blocks : List Block}
    (contig : Contig (BLOCK_SIZE abi) start blocks stop) :
    DataKept abi blocks m (appended abi m (lastAddr 0 blocks) stop size) := by
  intro c inC busy x low high
  have below := (contigWithin contig inC).2
  refine appendedByte _ (by omega) ?_
  rcases List.eq_nil_or_concat blocks with rfl | ⟨pre, last, rfl⟩
  · cases inC
  rw [List.concat_eq_append] at inC contig ⊢
  rw [lastAddrSnoc]
  exact headerApart contig inC (by simp) low high

theorem requestSpec {h : Heap} {blocks : List Block} {live : List Live} {enough : Bool}
    {size : Nat} (good : Good abi h blocks live) (aligned : size % 8 = 0)
    (grows : Grows abi h enough size) :
    (∃ h', requestSpace abi h enough (lastAddr 0 blocks) size = (0, h') ∧
      h'.freeList = h.freeList ∧ Good abi h' blocks live ∧ DataKept abi blocks h.mem h'.mem) ∨
    ∃ b h', requestSpace abi h enough (lastAddr 0 blocks) size = (b, h') ∧ 0 < b ∧
      h'.freeList = h.freeList ∧
      Good abi {h' with freeList := headAddr b blocks} (blocks ++ [⟨b, size, false⟩]) live ∧
      (∀ c ∈ blocks, c.addr ≠ b) ∧ DataKept abi blocks h.mem h'.mem := by
  obtain ⟨ready, pos⟩ := startedGood good
  have free : (started h).freeList = h.freeList := by
    unfold started
    split <;> rfl
  have mem : (started h).mem = h.mem := by
    unfold started
    split <;> rfl
  by_cases refused : (sysBrk h.kernel enough (target abi h size)).1 = none
  · exact Or.inl ⟨started h, requestRefused refused, free, ready, fun _ _ _ _ _ _ => by rw [mem]⟩
  have fits := grows.resolve_right refused
  obtain ⟨low, request⟩ := requestGranted (lastAddr 0 blocks) fits refused
  have below : (started h).heapEnd + BLOCK_SIZE abi + size ≤ 0xC0000000 := by
    unfold MMAP_BASE at low
    omega
  have shape := appendShape ready.shape pos aligned below
  rw [mem] at shape
  have hdr := blockSizePos abi
  have order := contigLe ready.shape.contig
  refine Or.inr ⟨(started h).heapEnd, _, request, by omega, free, ?_, ?_,
    appendedKept ready.shape.contig⟩
  · exact {
      shape := shape
      head := by rw [headAddrAppend]; rfl
      settled := settledSnoc rfl good.settled
      broken := below
      unstarted := fun zero => absurd zero (Nat.ne_of_gt pos)
      held := fun e member => heldMore (good.held e member) fun b inBlocks _ _ =>
        List.mem_append_left _ inBlocks
      distinct := good.distinct }
  · intro c member same
    have := (contigWithin ready.shape.contig member).2
    simp only [Block.stop] at this
    omega

def Given (abi : Abi) (blocks : List Block) (live : List Live) (p size : Nat) : Prop :=
  ∃ b ∈ blocks, b.addr + BLOCK_SIZE abi = p ∧ b.free = false ∧ size ≤ b.size ∧
    ∀ e ∈ live, e.block ≠ b.addr

theorem freshBlock {blocks : List Block} {live : List Live} {x : Nat}
    (held : ∀ e ∈ live, Held abi blocks e) (absent : ∀ c ∈ blocks, c.free = false → c.addr ≠ x) :
    ∀ e ∈ live, e.block ≠ x := by
  intro e member same
  obtain ⟨b, inBlocks, addr, busy, -⟩ := held e member
  exact absent b inBlocks busy (addr.trans same)

theorem align8Spec {size : Nat} (small : size + 7 < abi.word) :
    size ≤ align8 abi size ∧ align8 abi size % 8 = 0 := by
  unfold align8
  rw [Nat.mod_eq_of_lt small]
  omega

theorem alignAgain {size : Nat} (small : size + 7 < abi.word) :
    align8 abi size + 7 < abi.word ∧ align8 abi (align8 abi size) = align8 abi size := by
  have wordAligned : abi.word % 8 = 0 := by
    unfold Abi.word
    rcases abi.known with h | h <;> rw [h] <;> decide
  have once : align8 abi size = (size + 7) / 8 * 8 := by
    unfold align8
    rw [Nat.mod_eq_of_lt small]
  have room : align8 abi size + 7 < abi.word := by omega
  refine ⟨room, ?_⟩
  rw [align8, Nat.mod_eq_of_lt room]
  omega

theorem cutSpec {m : Buf} {start stop : Nat} {pre post : List Block} {b : Block} {size : Nat}
    (shape : Shape abi m start stop (pre ++ b :: post)) (aligned : size % 8 = 0)
    (suits : size ≤ b.size) :
    ∃ kept rest, Shape abi (splitIfBig abi m b.addr size) start stop
        (pre ++ {b with size := kept} :: rest ++ post) ∧ size ≤ kept ∧
      (Settled pre → Settled post → StartsBusy post → ∀ c : Block, c.free = false →
        Settled (pre ++ c :: rest ++ post)) := by
  have sizeB := (linkedAround.mp shape.linked).2.1.1
  have inside := blockBelow shape (show b ∈ pre ++ b :: post by simp)
  have word := wordLarge abi
  have fits := shape.fits
  unfold splitIfBig
  rw [sizeB]
  by_cases big : b.size ≥ (size + BLOCK_SIZE abi + 16) % abi.word
  · rw [if_pos big]
    have small : size + BLOCK_SIZE abi + 16 < abi.word := by omega
    rw [Nat.mod_eq_of_lt small] at big
    have cut := splitShape shape aligned (by omega)
    refine ⟨size, [⟨b.addr + BLOCK_SIZE abi + size, b.size - size - BLOCK_SIZE abi, true⟩],
      by simpa using cut, Nat.le_refl size, fun before after starts c busy => ?_⟩
    have split := settledSplit (c := ⟨b.addr + BLOCK_SIZE abi + size,
      b.size - size - BLOCK_SIZE abi, true⟩) busy before after starts
    simpa using split
  · rw [if_neg big]
    refine ⟨b.size, [], by simpa using shape, suits, fun before after _ c busy => ?_⟩
    simpa using settledBusy busy before after

theorem lengthTurns {h : Heap} {blocks : List Block}
    (shape : Shape abi h.mem h.heapStart h.heapEnd blocks) : blocks.length < turns h := by
  have filled := contigLength shape.contig
  have hdr := Nat.le_mul_of_pos_left blocks.length (blockSizePos abi)
  unfold turns
  omega

theorem headPos {h : Heap} {blocks : List Block} {live : List Live}
    (good : Good abi h blocks live) : h.freeList = 0 ↔ blocks = [] := by
  rw [good.head]
  cases blocks with
  | nil => simp [headAddr]
  | cons b rest =>
    have := (blockBelow good.shape (show b ∈ b :: rest by simp)).1
    simp only [headAddrCons]
    constructor
    · intro zero
      omega
    · intro none
      cases none

theorem busyElsewhere {pre post middle : List Block} {b c : Block}
    (member : c ∈ pre ++ b :: post) (other : c ≠ b) : c ∈ pre ++ middle ++ post := by
  rcases List.mem_append.mp member with inPre | inPost
  · exact List.mem_append_left _ (List.mem_append_left _ inPre)
  · rcases List.mem_cons.mp inPost with same | later
    · exact absurd same other
    · exact List.mem_append_right _ later

theorem foundGood {h : Heap} {pre post : List Block} {b : Block} {live : List Live} {size : Nat}
    (good : Good abi h (pre ++ b :: post) live) (aligned : size % 8 = 0) (suits : Suits size b) :
    ∃ blocks,
      Good abi
        {h with mem := (splitIfBig abi h.mem b.addr size).store (b.addr + isFreeAt abi) 0 4}
        blocks live ∧
      Given abi blocks live (b.addr + BLOCK_SIZE abi) size ∧
      DataKept abi (pre ++ b :: post) h.mem
        ((splitIfBig abi h.mem b.addr size).store (b.addr + isFreeAt abi) 0 4) := by
  obtain ⟨free, large⟩ := suits
  obtain ⟨before, after, joint⟩ := settledAround.mp good.settled
  obtain ⟨kept, rest, cut, enough, settled⟩ := cutSpec good.shape aligned large
  rw [List.append_assoc, List.cons_append] at cut
  have shape := markShape false cut
  generalize takenIs : ({b with size := kept, free := false} : Block) = taken at shape
  rw [← List.cons_append, ← List.append_assoc] at shape
  have addr : taken.addr = b.addr := by rw [← takenIs]
  have busy : taken.free = false := by rw [← takenIs]
  have takenSize : taken.size = kept := by rw [← takenIs]
  have inside : b ∈ pre ++ b :: post := by simp
  have absent : ∀ c ∈ pre ++ b :: post, c.free = false → c.addr ≠ b.addr := by
    intro c member busyC same
    have equal := contigUnique (blockSizePos abi) good.shape.contig member inside same
    exact absurd (busyC.symm.trans (equal ▸ free)) (by decide)
  refine ⟨pre ++ taken :: rest ++ post, ?_,
    ⟨taken, by simp, by rw [addr], busy, by omega, ?_⟩, ?_⟩
  · exact {
      shape := shape
      head := by
        rw [good.head]
        cases pre with
        | nil => exact addr.symm
        | cons c more => rfl
      settled := settled before after (joint free).2 taken busy
      broken := good.broken
      unstarted := fun zero => absurd (good.unstarted zero).1 (by simp)
      held := fun e member => heldMore (good.held e member) fun c inBlocks busyC _ =>
        busyElsewhere inBlocks fun same => absent c inBlocks busyC (by rw [same])
      distinct := good.distinct }
  · rw [addr]
    exact freshBlock good.held absent
  · have sized := (linkedAround.mp good.shape.linked).2.1.1
    have bounds := blockBelow good.shape inside
    have fits := good.shape.fits
    refine freeBlockKept good.shape.contig inside free fun x outside => ?_
    simp only [Block.stop] at outside
    exact (markByte _ (by omega)).trans (cutByte sized large (by omega) (by omega))

theorem mallocSpec {h : Heap} {blocks : List Block} {live : List Live} {enough : Bool}
    {size : Nat} (good : Good abi h blocks live)
    (fits : Fits abi h enough (if size = 0 then 1 else size)) :
    ∃ p h' blocks', malloc abi h enough size = some (p, h') ∧ Good abi h' blocks' live ∧
      (p ≠ 0 → Given abi blocks' live p (if size = 0 then 1 else size)) ∧
      DataKept abi blocks h.mem h'.mem := by
  simp only [malloc]
  generalize (if size = 0 then 1 else size) = asked at fits ⊢
  obtain ⟨room, grows⟩ := fits
  obtain ⟨large, aligned⟩ := align8Spec room
  generalize align8 abi asked = need at grows large aligned ⊢
  by_cases empty : h.freeList = 0
  · rw [if_pos empty]
    have none : blocks = [] := (headPos good).mp empty
    subst none
    rcases requestSpec good aligned grows with
      ⟨h', out, -, kept, same⟩ | ⟨b, h', out, pos, -, grown, absent, same⟩
    · rw [show requestSpace abi h enough 0 need = (0, h') from out]
      exact ⟨0, h', [], rfl, kept, fun nonzero => absurd rfl nonzero, same⟩
    · rw [show requestSpace abi h enough 0 need = (b, h') from out]
      simp only [if_neg (Nat.ne_of_gt pos)]
      exact ⟨_, _, _, rfl, grown, fun _ => ⟨⟨b, need, false⟩, by simp, rfl, rfl, large,
        freshBlock good.held fun c member _ => absent c member⟩, same⟩
  rw [if_neg empty, good.head]
  have nonempty : blocks ≠ [] := fun none => empty ((headPos good).mpr none)
  rcases findFreeFinds need 0 good.shape.linked
      (fun b member => (blockBelow good.shape member).1) (lengthTurns good.shape) with
    ⟨pre, b, post, rfl, suits, out⟩ | out
  · have pos := (blockBelow good.shape (show b ∈ pre ++ b :: post by simp)).1
    obtain ⟨blocks', taken, ⟨block, member, addr, busy, sized, fresh⟩, same⟩ :=
      foundGood good aligned suits
    refine ⟨b.addr + BLOCK_SIZE abi, _, blocks', ?_, taken, fun _ =>
      ⟨block, member, addr, busy, Nat.le_trans large sized, fresh⟩, same⟩
    rw [out]
    simp only [Option.bind_eq_bind, Option.bind_some, if_neg (Nat.ne_of_gt pos), good.head]
  · rcases requestSpec good aligned grows with
      ⟨h', request, -, kept, same⟩ | ⟨b, h', request, pos, free, grown, absent, same⟩
    · refine ⟨0, h', blocks, ?_, kept, fun nonzero => absurd rfl nonzero, same⟩
      rw [out]
      simp only [Option.bind_eq_bind, Option.bind_some, if_true, request]
    · have sameHead : headAddr b blocks = h'.freeList := by
        rw [free, good.head]
        cases blocks with
        | nil => exact absurd rfl nonempty
        | cons c rest => rfl
      rw [sameHead] at grown
      refine ⟨b + BLOCK_SIZE abi, h', _, ?_, grown, fun _ => ⟨⟨b, need, false⟩, by simp, rfl, rfl,
        large, freshBlock good.held fun c member _ => absent c member⟩, same⟩
      rw [out]
      simp only [Option.bind_eq_bind, Option.bind_some, if_true, request, if_neg (Nat.ne_of_gt pos)]

/-! ## free -/

theorem rawOfBusy {h : Heap} {b : Block} {next : Nat} (header : Header abi h.mem b next)
    (busy : b.free = false) (fits : h.heapEnd ≤ 0xC0000000) :
    rawOf abi h (b.addr + BLOCK_SIZE abi) = b.addr + BLOCK_SIZE abi := by
  have flag : h.mem.load (b.addr + isFreeAt abi) 4 = 0 := by
    rw [header.2.2, busy]
    rfl
  have place : b.addr + BLOCK_SIZE abi - abi.ptr = b.addr + isFreeAt abi := by
    simp only [BLOCK_SIZE, isFreeAt]
    omega
  have out : h.mem.load (b.addr + isFreeAt abi) abi.ptr = 0 ∨
      h.heapEnd ≤ h.mem.load (b.addr + isFreeAt abi) abi.ptr := by
    rcases abi.known with four | eight
    · rw [four]
      exact Or.inl flag
    · rw [eight]
      simp only [Buf.load, Nat.add_assoc] at flag ⊢
      omega
  simp only [rawOf, place]
  refine if_neg fun found => ?_
  rcases out with zero | beyond
  · exact found.1 zero
  · omega

theorem joinNextByte (m : Buf) {b x : Nat} (apart : x < b ∨ b + BLOCK_SIZE abi ≤ x) :
    joinNext abi m b x = m x := by
  unfold joinNext
  split
  · exact absorbByte m apart
  · rfl

theorem freeNext {m : Buf} {start stop : Nat} {pre post : List Block} {b : Block}
    (shape : Shape abi m start stop (pre ++ b :: post)) (freed : b.free = true)
    (settled : Settled post) :
    ∃ b' post', Shape abi (joinNext abi m b.addr) start stop (pre ++ b' :: post') ∧
      b'.addr = b.addr ∧ b'.free = true ∧ Settled post' ∧ StartsBusy post' ∧
      ∀ c ∈ post, c.free = false → c ∈ post' := by
  obtain ⟨-, header, later⟩ := linkedAround.mp shape.linked
  simp only [joinNext, header.2.1]
  cases post with
  | nil =>
    rw [if_neg fun both => both.1 rfl]
    exact ⟨b, [], shape, rfl, freed, settled, startsNone, fun _ h _ => h⟩
  | cons c rest =>
    have pos := (blockBelow shape (show c ∈ pre ++ b :: c :: rest by simp)).1
    obtain ⟨after, starts⟩ := settledAfter settled
    simp only [headAddrCons, freeFlag later.1]
    by_cases joined : c.free = true
    · rw [if_pos ⟨Nat.ne_of_gt pos, joined⟩]
      refine ⟨_, rest, absorbShape shape, rfl, freed, after, starts joined, ?_⟩
      intro d member busy
      rcases List.mem_cons.mp member with rfl | inRest
      · exact absurd (busy.symm.trans joined) (by decide)
      · exact inRest
    · rw [if_neg fun both => joined both.2]
      refine ⟨b, c :: rest, shape, rfl, freed, settled, ?_, fun _ h _ => h⟩
      intro d first
      rw [List.head?_cons, Option.mem_def, Option.some.injEq] at first
      rw [← first]
      simpa using joined

theorem freePrev {h : Heap} {pre post : List Block} {b : Block}
    (shape : Shape abi h.mem h.heapStart h.heapEnd (pre ++ b :: post))
    (head : h.freeList = headAddr 0 (pre ++ b :: post))
    (before : Settled pre) (after : Settled post) (starts : StartsBusy post) :
    ∃ m' blocks, joinPrev abi h b.addr = some {h with mem := m'} ∧
      Shape abi m' h.heapStart h.heapEnd blocks ∧ Settled blocks ∧
      h.freeList = headAddr 0 blocks ∧ (∀ c ∈ pre ++ post, c.free = false → c ∈ blocks) ∧
      ∀ x, (∀ c ∈ pre, x < c.addr ∨ c.addr + BLOCK_SIZE abi ≤ x) → m' x = h.mem x := by
  rw [joinPrev, head]
  rcases List.eq_nil_or_concat pre with rfl | ⟨front, a, rfl⟩
  · rw [List.nil_append, headAddrCons, if_pos rfl]
    have headIs : h.freeList = b.addr := head
    refine ⟨h.mem, b :: post, by rw [← headIs], shape, ?_, rfl,
      fun c member _ => List.mem_cons_of_mem b member, fun _ _ => rfl⟩
    exact settledFree List.isChain_nil after endsNone starts
  rw [List.concat_eq_append, List.append_assoc, List.singleton_append] at shape head ⊢
  rw [List.concat_eq_append] at before
  obtain ⟨frontSettled, -, ends⟩ := settledAround.mp before
  have aHeader := (linkedAround.mp shape.linked).2.1
  have aPos := (blockBelow shape (show a ∈ front ++ a :: b :: post by simp)).1
  have notHead : b.addr ≠ headAddr 0 (front ++ a :: b :: post) := by
    obtain ⟨first, next, -⟩ := contigAround.mp shape.contig
    have hdr := blockSizePos abi
    simp only [Block.stop] at next
    cases front with
    | nil =>
      simp only [List.nil_append, headAddrCons]
      omega
    | cons c rest =>
      have low := (contigWithin first (show c ∈ c :: rest by simp)).2
      simp only [List.cons_append, headAddrCons]
      simp only [Block.stop] at low
      omega
  have enough : front.length < turns h := by
    have all := lengthTurns shape
    simp only [turns, List.length_append] at all ⊢
    omega
  rw [if_neg notHead, findPrevFinds shape enough]
  simp only [Option.bind_eq_bind, Option.bind_some, freeFlag aHeader]
  by_cases joined : a.free = true
  · rw [if_pos ⟨Nat.ne_of_gt aPos, joined⟩]
    refine ⟨_, _, rfl, absorbShape shape, ?_, ?_, ?_,
      fun x outside => absorbByte _ (outside a (by simp))⟩
    · exact settledFree frontSettled after (ends joined).1 starts
    · cases front <;> rfl
    · intro c member busy
      simp only [List.mem_append, List.mem_singleton] at member
      rcases member with (inFront | rfl) | inPost
      · exact List.mem_append_left _ inFront
      · exact absurd (busy.symm.trans joined) (by decide)
      · simp [inPost]
  · rw [if_neg fun both => joined both.2]
    refine ⟨h.mem, _, by rw [← head], shape, ?_, rfl, ?_, fun _ _ => rfl⟩
    · have endsBusy : EndsBusy (front ++ [a]) := by
        intro c last
        rw [List.getLast?_append, List.getLast?_singleton, Option.some_or, Option.mem_def,
          Option.some.injEq] at last
        rw [← last]
        simpa using joined
      have both := settledFree (b := b) before after endsBusy starts
      simpa using both
    · intro c member _
      simp only [List.mem_append, List.mem_cons] at member ⊢
      tauto

theorem erasedBlock {live : List Live} {e f : Live}
    (distinct : live.Pairwise fun a b => a.block ≠ b.block) (inE : e ∈ live)
    (inF : f ∈ live.erase e) : f ∈ live ∧ f.block ≠ e.block := by
  refine ⟨List.mem_of_mem_erase inF, ?_⟩
  have moved := (List.perm_cons_erase inE).pairwise_iff (R := fun a b : Live => a.block ≠ b.block)
    (fun {_ _} apart => Ne.symm apart)
  exact (List.rel_of_pairwise_cons (moved.mp distinct) inF).symm

theorem freeSpec {h : Heap} {blocks : List Block} {live : List Live} {e : Live}
    (good : Good abi h blocks live) (member : e ∈ live)
    (own : e.ptr = e.block + BLOCK_SIZE abi) :
    ∃ h' blocks', free abi h e.ptr = some h' ∧ Good abi h' blocks' (live.erase e) ∧
      DataKept abi blocks h.mem h'.mem := by
  obtain ⟨b, inBlocks, addr, busy, -⟩ := good.held e member
  obtain ⟨pre, post, rfl⟩ := List.append_of_mem inBlocks
  have pos := (blockBelow good.shape inBlocks).1
  have header := (linkedAround.mp good.shape.linked).2.1
  have ptr : e.ptr = b.addr + BLOCK_SIZE abi := by omega
  obtain ⟨before, after, -⟩ := settledAround.mp good.settled
  have marked := markShape true good.shape
  obtain ⟨b', post', joined, addr', free', settled', starts', kept'⟩ := freeNext marked rfl after
  have sameHead : h.freeList = headAddr 0 (pre ++ b' :: post') := by
    rw [good.head]
    cases pre with
    | nil => exact addr'.symm
    | cons c rest => rfl
  obtain ⟨m', blocks', out, shape, settled, head, kept, same⟩ :=
    freePrev (h := {h with mem := joinNext abi (h.mem.store (b.addr + isFreeAt abi) 1 4) b.addr})
      joined sameHead before settled' starts'
  refine ⟨{h with mem := m'}, blocks', ?_, ?_, ?_⟩
  · have nonzero : e.ptr ≠ 0 := by omega
    simp only [free, if_neg nonzero]
    rw [ptr, rawOfBusy header busy good.shape.fits, Nat.add_sub_cancel]
    rw [addr'] at out
    exact out
  · exact {
      shape := shape
      head := head
      settled := settled
      broken := good.broken
      unstarted := fun zero => absurd (good.unstarted zero).1 (by simp)
      held := fun f inF => by
        obtain ⟨inLive, apart⟩ := erasedBlock good.distinct member inF
        refine heldMore (good.held f inLive) fun c inC busyC addrC => kept c ?_ busyC
        have other : c ≠ b := fun same => apart (addrC.symm.trans (same ▸ addr))
        rcases List.mem_append.mp inC with inPre | inPost
        · exact List.mem_append_left _ inPre
        · rcases List.mem_cons.mp inPost with same | later
          · exact absurd same other
          · exact List.mem_append_right _ (kept' c later busyC)
      distinct := good.distinct.sublist List.erase_sublist }
  · intro c inC busyC x low high
    have away := fun d (inD : d ∈ pre ++ b :: post) =>
      headerApart good.shape.contig inC inD low high
    exact (same x fun d inD => away d (List.mem_append_left _ inD)).trans
      ((joinNextByte _ (away b inBlocks)).trans (markByte _ (away b inBlocks)))

/-! ## calloc, posix_memalign and realloc -/

theorem zeroFromByte (m : Buf) {p k x : Nat} (apart : x < p ∨ p + k ≤ x) :
    zeroFrom m p k x = m x := by
  induction k generalizing m p with
  | zero => rfl
  | succ k ih =>
    unfold zeroFrom
    rw [ih _ (by omega), Function.update_of_ne (by omega)]

theorem copyFromByte (m : Buf) {dst src k x : Nat} (apart : x < dst ∨ dst + k ≤ x) :
    copyFrom m dst src k x = m x := by
  induction k generalizing m dst src with
  | zero => rfl
  | succ k ih =>
    unfold copyFrom
    rw [ih _ (by omega), Function.update_of_ne (by omega)]

theorem copyFromCopies (m : Buf) {dst src k i : Nat} (small : i < k)
    (apart : src + k ≤ dst ∨ dst + k ≤ src) : copyFrom m dst src k (dst + i) = m (src + i) := by
  induction k generalizing m dst src i with
  | zero => omega
  | succ k ih =>
    unfold copyFrom
    cases i with
    | zero => rw [copyFromByte _ (by omega), Nat.add_zero, Function.update_self]; rfl
    | succ i =>
      have later : copyFrom (Function.update m dst (m src)) (dst + 1) (src + 1) k (dst + 1 + i) =
          Function.update m dst (m src) (src + 1 + i) := ih _ (by omega) (by omega)
      rw [Function.update_of_ne (by omega)] at later
      rw [show dst + (i + 1) = dst + 1 + i by omega, later]
      congr 1
      omega

theorem dataGood {h : Heap} {m' : Buf} {blocks : List Block} {live : List Live} {b : Block}
    (good : Good abi h blocks live) (member : b ∈ blocks)
    (same : ∀ x, x < b.addr + BLOCK_SIZE abi ∨ b.stop (BLOCK_SIZE abi) ≤ x → m' x = h.mem x) :
    Good abi {h with mem := m'} blocks live :=
  {good with shape := shapeData good.shape member same}

theorem wrapCaught {nmemb size : Nat} (wraps : abi.word ≤ nmemb * size) :
    nmemb ≠ 0 ∧ nmemb * size % abi.word / nmemb ≠ size := by
  have word := wordLarge abi
  have wrapped : nmemb * size % abi.word < nmemb * size :=
    Nat.lt_of_lt_of_le (Nat.mod_lt _ (by omega)) wraps
  constructor
  · rintro rfl
    simp at wrapped
  · exact Nat.ne_of_lt (Nat.div_lt_of_lt_mul wrapped)

theorem askedOnce (n : Nat) : (if (if n = 0 then 1 else n) = 0 then 1 else if n = 0 then 1 else n) =
    if n = 0 then 1 else n := by
  split <;> simp_all

theorem callocSmall {h : Heap} {enough : Bool} {nmemb size : Nat}
    (small : nmemb * size < abi.word) :
    calloc abi h enough nmemb size = (do
      let (p, h) ← malloc abi h enough (if nmemb * size = 0 then 1 else nmemb * size)
      if p = 0 then some (0, h) else some (p, {h with mem := zeroFrom h.mem p (nmemb * size)})) := by
  have exact' : ¬ (nmemb ≠ 0 ∧ nmemb * size / nmemb ≠ size) := by
    rintro ⟨some', differs⟩
    exact differs (Nat.mul_div_cancel_left size (Nat.pos_of_ne_zero some'))
  simp only [calloc, Nat.mod_eq_of_lt small, if_neg exact']

theorem callocSpec {h : Heap} {blocks : List Block} {live : List Live} {enough : Bool}
    {nmemb size : Nat} (good : Good abi h blocks live)
    (fits : nmemb * size < abi.word →
      Fits abi h enough (if nmemb * size = 0 then 1 else nmemb * size)) :
    ∃ p h' blocks', calloc abi h enough nmemb size = some (p, h') ∧ Good abi h' blocks' live ∧
      (p ≠ 0 → Given abi blocks' live p (nmemb * size)) ∧ LiveKept abi live h.mem h'.mem := by
  by_cases small : nmemb * size < abi.word
  · obtain ⟨p, h', blocks', out, kept, given, same⟩ :=
      mallocSpec good ((askedOnce (nmemb * size)).symm ▸ fits small)
    have first := dataLive good same
    simp only [callocSmall small, out, Option.bind_eq_bind, Option.bind_some]
    by_cases none : p = 0
    · rw [if_pos none]
      exact ⟨0, h', blocks', rfl, kept, fun nonzero => absurd rfl nonzero, first⟩
    · rw [if_neg none]
      obtain ⟨b, member, addr, busy, large, fresh⟩ := given none
      rw [askedOnce] at large
      have enoughRoom : nmemb * size ≤ b.size := by
        refine Nat.le_trans ?_ large
        split <;> omega
      have outside : ∀ x, x < b.addr + BLOCK_SIZE abi ∨ b.stop (BLOCK_SIZE abi) ≤ x →
          zeroFrom h'.mem p (nmemb * size) x = h'.mem x := by
        intro x away
        simp only [Block.stop] at away
        exact zeroFromByte _ (by omega)
      exact ⟨p, _, blocks', rfl, dataGood kept member outside, fun _ =>
        ⟨b, member, addr, busy, enoughRoom, fresh⟩,
        liveTrans first (givenLive kept member fresh outside)⟩
  · simp only [calloc, if_pos (wrapCaught (Nat.le_of_not_lt small))]
    exact ⟨0, h, blocks, rfl, good, fun nonzero => absurd rfl nonzero,
      fun _ _ _ _ _ => rfl⟩

theorem heldGiven {blocks : List Block} {live : List Live} {p size n : Nat}
    (shapeAligned : ∀ b ∈ blocks, b.addr % 8 = 0) (given : Given abi blocks live p n)
    (le : size ≤ n) : Held abi blocks ⟨p, size, p - BLOCK_SIZE abi⟩ ∧
      ∀ e ∈ live, p - BLOCK_SIZE abi ≠ e.block := by
  obtain ⟨b, member, addr, busy, large, fresh⟩ := given
  have header : p - BLOCK_SIZE abi = b.addr := by omega
  have aligned := shapeAligned b member
  have hdr := blockSizeAligned abi
  refine ⟨⟨b, member, header.symm, busy, Nat.le_of_eq addr, ?_, ?_⟩, ?_⟩
  · simp only [Block.stop]
    omega
  · simp only
    omega
  · rw [header]
    exact fun e inLive => (fresh e inLive).symm

theorem givenGood {h : Heap} {blocks : List Block} {live : List Live} {p size n : Nat}
    (good : Good abi h blocks live) (given : Given abi blocks live p n) (le : size ≤ n) :
    Good abi h blocks (⟨p, size, p - BLOCK_SIZE abi⟩ :: live) := by
  obtain ⟨held, apart⟩ :=
    heldGiven (fun b member => (blockBelow good.shape member).2.2) given le
  exact {good with
    held := fun e member => by
      rcases List.mem_cons.mp member with rfl | old
      · exact held
      · exact good.held e old
    distinct := List.pairwise_cons.mpr ⟨apart, good.distinct⟩}

theorem powerAligned {alignment : Nat} (large : 8 ≤ alignment)
    (power : alignment &&& (alignment - 1) = 0) : alignment % 8 = 0 := by
  obtain ⟨k, rfl⟩ := (Nat.and_sub_one_eq_zero_iff_isPowerOfTwo (by omega)).mp power
  obtain ⟨j, rfl⟩ : ∃ j, k = 3 + j := by
    refine ⟨k - 3, ?_⟩
    by_contra short
    have : k < 3 := by omega
    have := Nat.pow_lt_pow_right (show 1 < 2 by decide) this
    omega
  rw [Nat.pow_add]
  exact Nat.mul_mod_right 8 _

theorem roundedUp (x : Nat) {alignment : Nat} (pos : 0 < alignment) :
    x ≤ (x + alignment - 1) / alignment * alignment ∧
    (x + alignment - 1) / alignment * alignment < x + alignment := by
  have := Nat.div_add_mod' (x + alignment - 1) alignment
  have := Nat.mod_lt (x + alignment - 1) pos
  omega

/-- posix_memalign has given `addr`: the word before it leads to a block of its own, and it
is not the start of that block's data. -/
def MadeOf (abi : Abi) (h : Heap) (blocks : List Block) (live : List Live) (addr size : Nat) :
    Prop :=
  Good abi h blocks
    (⟨addr, size, h.mem.load (addr - abi.ptr) abi.ptr - BLOCK_SIZE abi⟩ :: live) ∧
  addr ≠ h.mem.load (addr - abi.ptr) abi.ptr - BLOCK_SIZE abi + BLOCK_SIZE abi

theorem memalignSpec {h : Heap} {blocks : List Block} {live : List Live} {enough : Bool}
    {alignment size : Nat} (memptr : Nat) (good : Good abi h blocks live)
    (calm : alignment &&& (alignment - 1) = 0 → abi.ptr ≤ alignment →
      8 ≤ alignment ∧ (if size = 0 then 1 else size) + alignment + abi.ptr < abi.word ∧
      Fits abi h enough ((if size = 0 then 1 else size) + alignment + abi.ptr)) :
    ∃ err addr h' blocks', posixMemalign abi h enough memptr alignment size =
        some (err, addr, h') ∧ Good abi h' blocks' live ∧ LiveKept abi live h.mem h'.mem ∧
      (err = 0 → MadeOf abi h' blocks' live addr size) := by
  have failed : ∀ n, n ≠ 0 → ∃ err addr h' blocks', some (n, 0, h) = some (err, addr, h') ∧
      Good abi h' blocks' live ∧ LiveKept abi live h.mem h'.mem ∧
      (err = 0 → MadeOf abi h' blocks' live addr size) :=
    fun n nonzero => ⟨n, 0, h, blocks, rfl, good, fun _ _ _ _ _ => rfl,
      fun zero => absurd zero nonzero⟩
  simp only [posixMemalign]
  by_cases null : memptr = 0
  · rw [if_pos null]
    exact failed EINVAL (by decide)
  rw [if_neg null]
  by_cases bad : alignment < abi.ptr ∨ alignment &&& (alignment - 1) ≠ 0
  · rw [if_pos bad]
    exact failed EINVAL (by decide)
  rw [if_neg bad]
  have power : alignment &&& (alignment - 1) = 0 := by
    by_contra other
    exact bad (Or.inr other)
  obtain ⟨large, room, fits⟩ := calm power (by omega)
  have aligned := powerAligned large power
  have sizeLe : size ≤ if size = 0 then 1 else size := by
    split <;> omega
  generalize (if size = 0 then 1 else size) = asked at room fits sizeLe ⊢
  rw [Nat.mod_eq_of_lt room]
  have positive : asked + alignment + abi.ptr ≠ 0 := by omega
  have request : Fits abi h enough (if asked + alignment + abi.ptr = 0 then 1
      else asked + alignment + abi.ptr) := by rwa [if_neg positive]
  obtain ⟨raw, h', blocks', out, kept, given, same⟩ := mallocSpec good request
  have first := dataLive good same
  rw [if_neg positive] at given
  simp only [out, Option.bind_eq_bind, Option.bind_some]
  by_cases none : raw = 0
  · rw [if_pos none]
    exact ⟨ENOMEM, 0, h', blocks', rfl, kept, first, fun zero => absurd zero (by decide)⟩
  rw [if_neg none]
  obtain ⟨b, member, addr, busy, enoughRoom, fresh⟩ := given none
  generalize placed : (raw + abi.ptr + alignment - 1) / alignment * alignment = at'
  have below := placed ▸ roundedUp (raw + abi.ptr) (show 0 < alignment by omega)
  have atAligned : at' % 8 = 0 := by
    rw [← placed, Nat.mul_mod, aligned, Nat.mul_zero, Nat.zero_mod]
  have bounds := blockBelow kept.shape member
  have fitsEnd := kept.shape.fits
  have slot : (h'.mem.store (at' - abi.ptr) raw abi.ptr).load (at' - abi.ptr) abi.ptr = raw :=
    Buf.loadStore _ (fitsWord (by omega))
  have outside : ∀ x, x < b.addr + BLOCK_SIZE abi ∨ b.stop (BLOCK_SIZE abi) ≤ x →
      h'.mem.store (at' - abi.ptr) raw abi.ptr x = h'.mem x := by
    intro x away
    simp only [Block.stop] at away
    exact Buf.storeByte _ _ (by omega)
  have stored : Good abi {h' with mem := h'.mem.store (at' - abi.ptr) raw abi.ptr} blocks' live :=
    dataGood kept member outside
  have known := abi.known
  refine ⟨0, at', _, blocks', rfl, stored, liveTrans first (givenLive kept member fresh outside),
    fun _ => ⟨?_, by simp only [slot]; omega⟩⟩
  have header : raw - BLOCK_SIZE abi = b.addr := by omega
  exact {stored with
    held := fun e inLive => by
      rcases List.mem_cons.mp inLive with rfl | old
      · refine ⟨b, member, ?_, busy, ?_, ?_, atAligned⟩
        · simp only [slot, header]
        · simp only
          omega
        · simp only [Block.stop]
          omega
      · exact stored.held e old
    distinct := by
      refine List.pairwise_cons.mpr ⟨fun e inLive => ?_, stored.distinct⟩
      simp only [slot, header]
      exact (fresh e inLive).symm}

theorem erasedGood {h : Heap} {blocks : List Block} {live : List Live} {e : Live}
    (good : Good abi h blocks live) : Good abi h blocks (live.erase e) :=
  {good with
    held := fun f member => good.held f (List.mem_of_mem_erase member)
    distinct := good.distinct.sublist List.erase_sublist}

theorem grownGood {h : Heap} {pre post : List Block} {b c : Block} {live : List Live} {e : Live}
    {size : Nat} (good : Good abi h (pre ++ b :: c :: post) live) (member : e ∈ live)
    (addr : b.addr = e.block) (busy : b.free = false) (free : c.free = true)
    (aligned : size % 8 = 0) (suits : size ≤ b.size + (BLOCK_SIZE abi + c.size)) :
    ∃ blocks,
      Good abi {h with mem := splitIfBig abi (absorb abi h.mem b.addr c.addr) b.addr size} blocks
        (live.erase e) ∧
      Given abi blocks (live.erase e) (b.addr + BLOCK_SIZE abi) size := by
  obtain ⟨before, tail, -⟩ := settledAround.mp good.settled
  obtain ⟨after, starts⟩ := settledAfter tail
  obtain ⟨kept, rest, shape, enough, settled⟩ :=
    cutSpec (absorbShape good.shape) aligned suits
  have others := fun f (inF : f ∈ live.erase e) => erasedBlock good.distinct member inF
  refine ⟨_, ⟨shape, ?_, settled before after (starts free) _ busy, good.broken,
    fun zero => absurd (good.unstarted zero).1 (by simp), fun f inF => ?_,
    good.distinct.sublist List.erase_sublist⟩,
    ⟨{b with size := kept}, by simp, rfl, busy, enough, fun f inF => ?_⟩⟩
  · rw [good.head]
    cases pre <;> rfl
  · obtain ⟨inLive, apart⟩ := others f inF
    refine heldMore (good.held f inLive) fun d inD busyD addrD => ?_
    have notB : d ≠ b := fun same => apart (addrD.symm.trans (same ▸ addr))
    have notC : d ≠ c := fun same => absurd (busyD.symm.trans (same ▸ free)) (by decide)
    simp only [List.mem_append, List.mem_cons] at inD ⊢
    tauto
  · exact fun same => (others f inF).2 (same.trans addr)

theorem grownKept {h : Heap} {pre post : List Block} {b c : Block} {live : List Live} {size : Nat}
    (good : Good abi h (pre ++ b :: c :: post) live) (free : c.free = true)
    (more : b.size ≤ size) (suits : size ≤ b.size + (BLOCK_SIZE abi + c.size)) :
    DataKept abi (pre ++ b :: c :: post) h.mem
      (splitIfBig abi (absorb abi h.mem b.addr c.addr) b.addr size) := by
  have shape := absorbShape good.shape
  have sized := (linkedAround.mp shape.linked).2.1.1
  have bounds := blockBelow shape (show {b with size := b.size + (BLOCK_SIZE abi + c.size)} ∈
    pre ++ {b with size := b.size + (BLOCK_SIZE abi + c.size)} :: post by simp)
  have fits := good.shape.fits
  simp only at sized bounds
  have same : ∀ x, x < b.addr ∨ b.addr + BLOCK_SIZE abi + (b.size + (BLOCK_SIZE abi + c.size)) ≤ x ∨
      b.addr + BLOCK_SIZE abi ≤ x ∧ x < b.addr + BLOCK_SIZE abi + size →
      splitIfBig abi (absorb abi h.mem b.addr c.addr) b.addr size x = h.mem x :=
    fun x apart => (cutByte sized suits (by omega) apart).trans (absorbByte _ (by omega))
  have next := (contigAround.mp good.shape.contig).2.1
  simp only [Block.stop] at next
  intro d inD busy x low high
  simp only [Block.stop] at high
  by_cases atB : d = b
  · subst atB
    exact same x (Or.inr (Or.inr ⟨low, by omega⟩))
  have atC : d ≠ c := fun equal => absurd (busy.symm.trans (equal ▸ free)) (by decide)
  have beside : d ∈ pre ++ post := by
    simp only [List.mem_append, List.mem_cons] at inD ⊢
    tauto
  have apart := contigApart shape.contig beside
  simp only [Block.stop] at apart
  exact same x (by omega)

def Moves (abi : Abi) (h : Heap) (p size : Nat) : Prop :=
  let b := p - BLOCK_SIZE abi
  let have' := h.mem.load (b + sizeAt abi) abi.ptr
  let next := h.mem.load (b + nextAt abi) abi.ptr
  have' < size ∧ ¬ (next ≠ 0 ∧ h.mem.load (next + isFreeAt abi) 4 ≠ 0 ∧
    (have' + BLOCK_SIZE abi + h.mem.load (next + sizeAt abi) abi.ptr) % abi.word ≥ size)
instance (abi h p size) : Decidable (Moves abi h p size) := by unfold Moves; infer_instance

theorem ownBytes {h : Heap} {m' : Buf} {blocks : List Block} {live old : List Live} {e : Live}
    (good : Good abi h blocks live) (member : e ∈ live) (inOld : e ∈ old)
    (kept : LiveKept abi old h.mem m') : ∀ i < e.size, m' (e.ptr + i) = h.mem (e.ptr + i) := by
  obtain ⟨b, -, addr, -, low, -⟩ := good.held e member
  exact fun i small => kept e inOld _ (by omega) (by omega)

theorem roundedRoom {size : Nat} (small : size < abi.word) (some' : align8 abi size ≠ 0) :
    size + 7 < abi.word := by
  by_contra wraps
  have word := wordLarge abi
  refine some' ?_
  rw [align8, show size + 7 = size + 7 - abi.word + abi.word by omega, Nat.add_mod_right,
    Nat.mod_eq_of_lt (by omega)]
  omega

structure Moved (abi : Abi) (h h' : Heap) (live : List Live) (e : Live) (size q : Nat) : Prop where
  held : q ≠ 0 → ∀ i < min e.size size, h'.mem (q + i) = h.mem (e.ptr + i)
  others : LiveKept abi (live.erase e) h.mem h'.mem
  failed : q = 0 → LiveKept abi live h.mem h'.mem

theorem movedKept {h h' : Heap} {blocks : List Block} {live : List Live} {e : Live} {size q : Nat}
    (good : Good abi h blocks live) (member : e ∈ live) (kept : LiveKept abi live h.mem h'.mem)
    (result : q = e.ptr ∨ q = 0) : Moved abi h h' live e size q where
  held some' i less := by
    rw [result.resolve_right some']
    exact ownBytes good member member kept i (by omega)
  others f inF := kept f (List.mem_of_mem_erase inF)
  failed _ := kept

theorem moveSpec {h : Heap} {blocks : List Block} {live : List Live} {enough : Bool} {e : Live}
    {size : Nat} (good : Good abi h blocks live) (member : e ∈ live)
    (own : e.ptr = e.block + BLOCK_SIZE abi) (fits : Fits abi h enough size)
    (positive : align8 abi size ≠ 0) :
    ∃ q h' blocks', (do
      let (q, h) ← malloc abi h enough (align8 abi size)
      if q = 0 then some (0, h)
      else
        let copy := min (h.mem.load (e.block + sizeAt abi) abi.ptr) (align8 abi size)
        let h ← free abi {h with mem := copyFrom h.mem q e.ptr copy} e.ptr
        some (q, h)) = some (q, h') ∧
      (q = 0 → Good abi h' blocks' live) ∧
      (q ≠ 0 → Good abi h' blocks' (live.erase e) ∧ Given abi blocks' (live.erase e) q size) ∧
      Moved abi h h' live e size q := by
  obtain ⟨room, grows⟩ := fits
  obtain ⟨nRoom, again⟩ := alignAgain room
  have large := (align8Spec room).1
  generalize align8 abi size = n at nRoom again large positive grows ⊢
  have nFits : Fits abi h enough (if n = 0 then 1 else n) := by
    rw [if_neg positive]
    exact ⟨nRoom, again.symm ▸ grows⟩
  obtain ⟨q, h1, blocks1, out, kept, given, same⟩ := mallocSpec good nFits
  have first := dataLive good same
  rw [if_neg positive] at given
  simp only [out, Option.bind_eq_bind, Option.bind_some]
  by_cases none : q = 0
  · rw [if_pos none]
    exact ⟨0, h1, blocks1, rfl, fun _ => kept, fun some' => absurd rfl some',
      movedKept good member first (Or.inr rfl)⟩
  rw [if_neg none]
  obtain ⟨d, inD, addrD, busyD, sizeD, freshD⟩ := given none
  obtain ⟨b, inB, addr, -, -, stop, -⟩ := kept.held e member
  have apart := contigOther kept.shape.contig inD inB
    fun equal => freshD e member (by rw [← addr, equal])
  have sized : h1.mem.load (e.block + sizeAt abi) abi.ptr = b.size := by
    obtain ⟨pre, post, rfl⟩ := List.append_of_mem inB
    rw [← addr]
    exact (linkedAround.mp kept.shape.linked).2.1.1
  rw [sized]
  simp only [Block.stop] at stop apart
  have bytes : ∀ i < min e.size size, copyFrom h1.mem q e.ptr (min b.size n) (q + i) =
      h1.mem (e.ptr + i) := fun i less => copyFromCopies _ (by omega) (by omega)
  have outside : ∀ x, x < d.addr + BLOCK_SIZE abi ∨ d.stop (BLOCK_SIZE abi) ≤ x →
      copyFrom h1.mem q e.ptr (min b.size n) x = h1.mem x := by
    intro x away
    simp only [Block.stop] at away
    exact copyFromByte _ (by omega)
  generalize copyFrom h1.mem q e.ptr (min b.size n) = m at bytes outside ⊢
  have second := givenLive kept inD freshD outside
  generalize newIs : (⟨q, size, q - BLOCK_SIZE abi⟩ : Live) = new
  have owned : Good abi {h1 with mem := m} blocks1 (new :: live) :=
    newIs ▸ givenGood (dataGood kept inD outside) ⟨d, inD, addrD, busyD, sizeD, freshD⟩ large
  have other : new ≠ e := by
    rintro rfl
    refine freshD _ member ?_
    rw [← newIs]
    simp only
    omega
  obtain ⟨h2, blocks2, freed, after, kept2⟩ :=
    freeSpec owned (List.mem_cons_of_mem _ member) own
  have third := dataLive owned kept2
  have all : LiveKept abi live h.mem h2.mem := liveTrans (liveTrans first second)
    fun f inF => third f (List.mem_cons_of_mem _ inF)
  rw [freed]
  rw [List.erase_cons_tail (by simpa using other)] at after
  refine ⟨q, h2, blocks2, rfl, fun zero => absurd zero none, fun _ => ⟨{after with
    held := fun f inF => after.held f (List.mem_cons_of_mem _ inF)
    distinct := (List.pairwise_cons.mp after.distinct).2}, ?_⟩,
    ⟨fun _ i less => ?_, fun f inF => all f (List.mem_of_mem_erase inF),
      fun zero => absurd zero none⟩⟩
  · obtain ⟨g, inG, addrG, busyG, lowG, highG, -⟩ := after.held _ List.mem_cons_self
    have apartG := (List.pairwise_cons.mp after.distinct).1
    subst newIs
    simp only [Block.stop] at addrG lowG highG
    refine ⟨g, inG, by omega, busyG, by omega, fun f inF => ?_⟩
    rw [addrG]
    exact (apartG f inF).symm
  · have moved : h2.mem (q + i) = m (q + i) := by
      subst newIs
      exact third _ List.mem_cons_self (q + i) (by simp only; omega) (by simp only; omega)
    rw [moved, bytes i less]
    exact ownBytes good member member first i (by omega)

theorem reallocSpec {h : Heap} {blocks : List Block} {live : List Live} {enough : Bool} {e : Live}
    {size : Nat} (good : Good abi h blocks live) (member : e ∈ live)
    (own : e.ptr = e.block + BLOCK_SIZE abi) (small : size < abi.word) (some' : size ≠ 0)
    (grows : Moves abi h e.ptr (align8 abi size) → Grows abi h enough (align8 abi size)) :
    ∃ q h' blocks', realloc abi h enough e.ptr size = some (q, h') ∧
      (q = 0 → Good abi h' blocks' live) ∧
      (q ≠ 0 → size + 7 < abi.word →
        Good abi h' blocks' (live.erase e) ∧ Given abi blocks' (live.erase e) q size) ∧
      Moved abi h h' live e size q := by
  obtain ⟨b, inBlocks, addr, busy, -⟩ := good.held e member
  have pos := (blockBelow good.shape inBlocks).1
  have ptr : e.ptr = b.addr + BLOCK_SIZE abi := by omega
  have nonzero : e.ptr ≠ 0 := by omega
  obtain ⟨pre, post, rfl⟩ := List.append_of_mem inBlocks
  have header := (linkedAround.mp good.shape.linked).2.1
  simp only [Moves] at grows
  simp only [realloc, if_neg nonzero, if_neg some']
  rw [ptr, Nat.add_sub_cancel, header.1, header.2.1] at grows ⊢
  by_cases grow : align8 abi size > b.size ∧ headAddr 0 post ≠ 0 ∧
      h.mem.load (headAddr 0 post + isFreeAt abi) 4 ≠ 0 ∧
      (b.size + BLOCK_SIZE abi + h.mem.load (headAddr 0 post + sizeAt abi) abi.ptr) % abi.word ≥
        align8 abi size
  · rw [if_pos grow]
    cases post with
    | nil => exact absurd rfl grow.2.1
    | cons c rest =>
      have cHeader := (linkedAround.mp good.shape.linked).2.2.1
      simp only [headAddrCons, cHeader.1] at grow ⊢
      have free := (freeFlag cHeader).mp grow.2.2.1
      have suits : align8 abi size ≤ b.size + (BLOCK_SIZE abi + c.size) := by
        have := Nat.mod_le (b.size + BLOCK_SIZE abi + c.size) abi.word
        omega
      obtain ⟨large, aligned⟩ := align8Spec (roundedRoom small (by omega))
      obtain ⟨blocks', grown, d, inD, addrD, busyD, sizeD, fresh⟩ :=
        grownGood good member addr busy free aligned suits
      exact ⟨b.addr + BLOCK_SIZE abi, _, blocks', rfl, fun none => absurd none (by omega),
        fun _ _ => ⟨grown, d, inD, addrD, busyD, Nat.le_trans large sizeD, fresh⟩,
        movedKept good member (dataLive good (grownKept good free (Nat.le_of_lt grow.1) suits))
          (Or.inl ptr.symm)⟩
  rw [if_neg grow]
  by_cases shrink : b.size ≥ align8 abi size
  · rw [if_pos shrink]
    refine ⟨b.addr + BLOCK_SIZE abi, h, _, rfl, fun none => absurd none (by omega),
      fun _ room => ⟨erasedGood good, b, inBlocks, rfl, busy,
        Nat.le_trans (align8Spec room).1 shrink, fun f inF same => ?_⟩,
      movedKept good member (fun _ _ _ _ _ => rfl) (Or.inl ptr.symm)⟩
    exact (erasedBlock good.distinct member inF).2 (same.trans addr)
  rw [if_neg shrink]
  have positive : align8 abi size ≠ 0 := by omega
  have fits : Fits abi h enough size :=
    ⟨roundedRoom small positive, grows ⟨by omega, fun rest => grow ⟨by omega, rest⟩⟩⟩
  obtain ⟨q, h', blocks', out, failed, given, moved⟩ := moveSpec good member own fits positive
  rw [← addr, ptr] at out
  exact ⟨q, h', blocks', out, failed, fun some' _ => given some', moved⟩

/-! ## Whole runs -/

def Own (abi : Abi) (s : State) (p : Nat) : Prop :=
  ∀ e ∈ s.live, e.ptr = p → e.ptr = e.block + BLOCK_SIZE abi
instance (abi s p) : Decidable (Own abi s p) := by unfold Own; infer_instance

def Calm (abi : Abi) (s : State) : Action → Prop
  | .malloc size enough => Fits abi s.heap enough (if size = 0 then 1 else size)
  | .calloc nmemb size enough => nmemb * size < abi.word →
      Fits abi s.heap enough (if nmemb * size = 0 then 1 else nmemb * size)
  | .realloc p size enough => (p = 0 → Fits abi s.heap enough (if size = 0 then 1 else size)) ∧
      (p ≠ 0 → Own abi s p ∧ (size ≠ 0 → Fits abi s.heap enough size))
  | .posixMemalign alignment size enough =>
      alignment &&& (alignment - 1) = 0 → abi.ptr ≤ alignment →
      8 ≤ alignment ∧ (if size = 0 then 1 else size) + alignment + abi.ptr < abi.word ∧
      Fits abi s.heap enough ((if size = 0 then 1 else size) + alignment + abi.ptr)
  | .free p => Own abi s p
  | .store _ _ => True
instance (abi s a) : Decidable (Calm abi s a) := by
  cases a <;> unfold Calm <;> infer_instance

def Allowed (abi : Abi) (s : State) : Action → Prop
  | .malloc size _ => size < abi.word
  | .calloc nmemb size _ => nmemb < abi.word ∧ size < abi.word
  | .realloc p size _ => size < abi.word ∧ (p = 0 ∨ ∃ e ∈ s.live, e.ptr = p)
  | .posixMemalign alignment size _ => alignment < abi.word ∧ size < abi.word
  | .free p => p = 0 ∨ ∃ e ∈ s.live, e.ptr = p
  | .store addr bytes => ∃ e ∈ s.live, e.ptr ≤ addr ∧ addr + bytes.length ≤ e.ptr + e.size

def Apart (a b : Live) : Prop := a.ptr + a.size ≤ b.ptr ∨ b.ptr + b.size ≤ a.ptr

/-- The heap is a chain of blocks that fill it in address order, no two free ones next to
each other; what is live lies in busy blocks, aligned, with the size asked for, and apart. -/
def Sound (abi : Abi) (s : State) : Prop :=
  ∃ blocks, Linked abi s.heap.mem 0 blocks ∧ s.heap.freeList = headAddr 0 blocks ∧
    Contig (BLOCK_SIZE abi) s.heap.heapStart blocks s.heap.heapEnd ∧ Settled blocks ∧
    (∀ e ∈ s.live, e.ptr % 8 = 0 ∧ ∃ b ∈ blocks, b.free = false ∧
      b.addr + BLOCK_SIZE abi ≤ e.ptr ∧ e.ptr + e.size ≤ b.stop (BLOCK_SIZE abi)) ∧
    s.live.Pairwise Apart

theorem heldApart {h : Heap} {blocks : List Block} {live : List Live} {e f : Live}
    (good : Good abi h blocks live) (inE : e ∈ live) (inF : f ∈ live) (differ : f.block ≠ e.block) :
    e.ptr + e.size ≤ f.block ∨ f.ptr + f.size ≤ e.block := by
  obtain ⟨b, inB, addrB, -, -, highB, -⟩ := good.held e inE
  obtain ⟨c, inC, addrC, -, -, highC, -⟩ := good.held f inF
  have other : c ≠ b := fun same => differ (by rw [← addrB, ← addrC, same])
  have apart := contigOther good.shape.contig inB inC other
  simp only [Block.stop] at apart highB highC
  omega

theorem goodSound {s : State} {blocks : List Block} (good : Good abi s.heap blocks s.live) :
    Sound abi s := by
  refine ⟨blocks, good.shape.linked, good.head, good.shape.contig, good.settled, ?_, ?_⟩
  · intro e member
    obtain ⟨b, inBlocks, -, busy, low, high, aligned⟩ := good.held e member
    exact ⟨aligned, b, inBlocks, busy, low, high⟩
  · refine good.distinct.imp_of_mem fun {e f} inE inF differ => ?_
    have apart := heldApart good inE inF differ.symm
    obtain ⟨b, -, addrB, -, lowB, -⟩ := good.held e inE
    obtain ⟨c, -, addrC, -, lowC, -⟩ := good.held f inF
    unfold Apart
    omega

theorem handedGood {h : Heap} {blocks : List Block} {live : List Live} {p size n : Nat}
    (good : Good abi h blocks live) (given : p ≠ 0 → Given abi blocks live p n) (le : size ≤ n) :
    Good abi h blocks (handedOut abi live p size) := by
  unfold handedOut
  split
  · exact good
  · rename_i some'
    exact givenGood good (given some') le

theorem liveFound {live : List Live} {p : Nat} (known : ∃ e ∈ live, e.ptr = p) :
    ∃ e ∈ live, e.ptr = p ∧ live.find? (fun e => e.ptr == p) = some e := by
  obtain ⟨f, inLive, ptr⟩ := known
  have found : (live.find? fun e => e.ptr == p).isSome := by
    rw [List.find?_isSome]
    exact ⟨f, inLive, by simpa using ptr⟩
  obtain ⟨e, same⟩ := Option.isSome_iff_exists.mp found
  exact ⟨e, List.mem_of_find?_eq_some same, by simpa using List.find?_some same, same⟩

theorem stepGood {s : State} {blocks : List Block} {a : Action}
    (good : Good abi s.heap blocks s.live) (calm : Calm abi s a) (allowed : Allowed abi s a) :
    ∃ s' blocks', step abi s a = some s' ∧ Good abi s'.heap blocks' s'.live := by
  cases a with
  | malloc size enough =>
    obtain ⟨p, h', blocks', out, kept, given, -⟩ := mallocSpec good calm
    simp only [step, if_pos (show size < abi.word from allowed), out, Option.map_some]
    exact ⟨_, blocks', rfl, handedGood kept given (by split <;> omega)⟩
  | calloc nmemb size enough =>
    obtain ⟨p, h', blocks', out, kept, given, -⟩ := callocSpec good calm
    simp only [step, if_pos (show nmemb < abi.word ∧ size < abi.word from allowed), out,
      Option.map_some]
    exact ⟨_, blocks', rfl, handedGood kept given (Nat.le_refl _)⟩
  | realloc p size enough =>
    obtain ⟨small, known⟩ := allowed
    simp only [step, if_pos small]
    by_cases null : p = 0
    · obtain ⟨q, h', blocks', out, kept, given, -⟩ := mallocSpec good (calm.1 null)
      simp only [if_pos null, realloc, if_true, out, Option.map_some]
      exact ⟨_, blocks', rfl, handedGood kept given (by split <;> omega)⟩
    obtain ⟨own, fits⟩ := calm.2 null
    obtain ⟨e, member, rfl, found⟩ := liveFound (known.resolve_left null)
    rw [if_neg null, found]
    by_cases zero : size = 0
    · obtain ⟨h', blocks', out, kept, -⟩ := freeSpec good member (own e member rfl)
      simp only [realloc, if_neg null, if_pos zero, out, Option.map_some]
      exact ⟨_, blocks', rfl, kept⟩
    · obtain ⟨q, h', blocks', out, failed, given, -⟩ :=
        reallocSpec good member (own e member rfl) small zero fun _ => (fits zero).2
      simp only [out, Option.map_some, if_neg zero]
      by_cases none : q = 0
      · rw [if_pos none]
        exact ⟨_, blocks', rfl, failed none⟩
      · rw [if_neg none]
        obtain ⟨kept, fresh⟩ := given none (fits zero).1
        exact ⟨_, _, rfl, handedGood kept (fun _ => fresh) (Nat.le_refl _)⟩
  | posixMemalign alignment size enough =>
    obtain ⟨err, addr, h', blocks', out, kept, -, given⟩ := memalignSpec 1 good calm
    simp only [step, if_pos (show alignment < abi.word ∧ size < abi.word from allowed), out,
      Option.map_some]
    by_cases fine : err = 0
    · rw [if_pos fine]
      exact ⟨_, blocks', rfl, (given fine).1⟩
    · rw [if_neg fine]
      exact ⟨_, blocks', rfl, kept⟩
  | free p =>
    simp only [step]
    by_cases null : p = 0
    · simp only [if_pos null, free, if_true, Option.map_some]
      exact ⟨_, blocks, rfl, good⟩
    obtain ⟨e, member, rfl, found⟩ := liveFound (allowed.resolve_left null)
    obtain ⟨h', blocks', out, kept, -⟩ := freeSpec good member (calm e member rfl)
    simp only [if_neg null, found, out, Option.map_some]
    exact ⟨_, blocks', rfl, kept⟩
  | store addr bytes =>
    obtain ⟨e, member, low, high⟩ := allowed
    have inside : (s.live.any fun e => e.ptr ≤ addr && addr + bytes.length ≤ e.ptr + e.size) =
        true := List.any_eq_true.mpr ⟨e, member, by simp [low, high]⟩
    simp only [step, inside, if_true]
    obtain ⟨b, inBlocks, -, -, lowB, highB, -⟩ := good.held e member
    refine ⟨_, blocks, rfl, dataGood good inBlocks fun x outside => Buf.writeByte _ ?_⟩
    simp only [Block.stop] at outside highB
    omega

theorem stepAllowed {s s' : State} {a : Action} (stepped : step abi s a = some s') :
    Allowed abi s a := by
  cases a with
  | malloc size enough =>
    simp only [step] at stepped
    split at stepped <;> try contradiction
    assumption
  | calloc nmemb size enough =>
    simp only [step] at stepped
    split at stepped <;> try contradiction
    assumption
  | realloc p size enough =>
    simp only [step] at stepped
    split at stepped <;> try contradiction
    rename_i small
    refine ⟨small, ?_⟩
    by_cases null : p = 0
    · exact Or.inl null
    · rw [if_neg null] at stepped
      split at stepped <;> try contradiction
      rename_i e found
      exact Or.inr ⟨e, List.mem_of_find?_eq_some found, by simpa using List.find?_some found⟩
  | posixMemalign alignment size enough =>
    simp only [step] at stepped
    split at stepped <;> try contradiction
    assumption
  | free p =>
    simp only [step] at stepped
    by_cases null : p = 0
    · exact Or.inl null
    · rw [if_neg null] at stepped
      split at stepped <;> try contradiction
      rename_i e found
      exact Or.inr ⟨e, List.mem_of_find?_eq_some found, by simpa using List.find?_some found⟩
  | store addr bytes =>
    simp only [step] at stepped
    split at stepped <;> try contradiction
    rename_i inside
    obtain ⟨e, member, bounds⟩ := List.any_eq_true.mp inside
    simp only [Bool.and_eq_true, decide_eq_true_eq] at bounds
    exact ⟨e, member, bounds⟩

structure Fresh (s : State) : Prop where
  heap : s.heap.freeList = 0 ∧ s.heap.heapStart = 0 ∧ s.heap.heapEnd = 0
  aligned : s.heap.kernel.brkEnd % 8 = 0
  inUser : 0 < s.heap.kernel.brkEnd ∧ s.heap.kernel.brkEnd ≤ 0xC0000000
  live : s.live = []

theorem freshGood {s : State} (fresh : Fresh s) : Good abi s.heap [] s.live := by
  obtain ⟨⟨free, start, stop⟩, aligned, ⟨pos, user⟩, live⟩ := fresh
  rw [live]
  refine ⟨⟨trivial, ?_, fun h => absurd rfl h, ?_, ?_, List.forall_mem_nil _⟩, free,
    List.isChain_nil, user, fun _ => ⟨rfl, aligned, pos⟩, List.forall_mem_nil _,
    List.Pairwise.nil⟩
  · exact start.trans stop.symm
  · rw [stop]
    decide
  · rw [start]

theorem runGood {start s : State} {acts : List Action} (fresh : Fresh start)
    (calm : Meets (step abi) (Calm abi) start acts) (ran : run (step abi) start acts = some s) :
    ∃ blocks, Good abi s.heap blocks s.live := by
  refine invariantMeets (P := fun t => ∃ blocks, Good abi t.heap blocks t.live) ?_
    ⟨[], freshGood fresh⟩ calm ran
  rintro t a t' ⟨blocks, good⟩ calmA stepped
  obtain ⟨t'', blocks', out, kept⟩ := stepGood good calmA (stepAllowed stepped)
  cases Option.some.inj (stepped.symm.trans out)
  exact ⟨blocks', kept⟩

theorem libcHeapSound {start s : State} {acts : List Action} (fresh : Fresh start)
    (calm : Meets (step abi) (Calm abi) start acts) (ran : run (step abi) start acts = some s) :
    Sound abi s ∧ ∀ a, Calm abi s a → Allowed abi s a → (step abi s a).isSome = true := by
  obtain ⟨blocks, good⟩ := runGood fresh calm ran
  refine ⟨goodSound good, fun a calmA allowed => ?_⟩
  obtain ⟨s', -, out, -⟩ := stepGood good calmA allowed
  rw [out]
  rfl

def program : State where
  heap := ⟨fun _ => 0, 0, 0, 0, ⟨0x08100000, 0x08100000⟩⟩
  live := []

def calls : List Action := [.malloc 10 true, .free 0x08100010]

def afterCalls : State := ((run (step i386) program calls).getD program)

theorem callsSound : Sound i386 afterCalls ∧
    ∀ a, Calm i386 afterCalls a → Allowed i386 afterCalls a →
      (step i386 afterCalls a).isSome = true :=
  @libcHeapSound i386 program afterCalls calls
    ⟨by decide, by decide, by decide, rfl⟩ (by decide +kernel) rfl

def afterHuge : State := (step i386 program (.malloc 0xFFFFFFFF true)).getD program

/-- malloc(SIZE_MAX) gives a block without data. -/
theorem hugeRequestGranted :
    afterHuge.live = [⟨0x08100010, 0xFFFFFFFF, 0x08100000⟩] ∧
    afterHuge.heap.heapEnd = 0x08100010 ∧ ¬ Sound i386 afterHuge := by
  have live : afterHuge.live = [⟨0x08100010, 0xFFFFFFFF, 0x08100000⟩] := by decide
  have stop : afterHuge.heap.heapEnd = 0x08100010 := by decide
  refine ⟨live, stop, ?_⟩
  rintro ⟨blocks, -, -, contig, -, held, -⟩
  obtain ⟨-, b, member, -, -, high⟩ := held ⟨0x08100010, 0xFFFFFFFF, 0x08100000⟩ (by simp [live])
  have below := (contigWithin contig member).2
  rw [stop] at below
  have := Nat.le_trans high below
  exact absurd this (by decide)

end Scepter.Malloc
