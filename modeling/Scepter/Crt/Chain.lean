import Scepter.Crt.Malloc

/-! The chain of blocks in memory: what each header says, and what the stores of the
allocator make of it. -/
namespace Scepter.Malloc
open Blocks

variable {abi : Abi}

def Header (abi : Abi) (m : Buf) (b : Block) (next : Nat) : Prop :=
  m.load (b.addr + sizeAt abi) abi.ptr = b.size ∧
  m.load (b.addr + nextAt abi) abi.ptr = next ∧
  m.load (b.addr + isFreeAt abi) 4 = b.free.toNat

def Linked (abi : Abi) (m : Buf) (final : Nat) : List Block → Prop
  | [] => True
  | b :: rest => Header abi m b (headAddr final rest) ∧ Linked abi m final rest

structure Shape (abi : Abi) (m : Buf) (start stop : Nat) (blocks : List Block) : Prop where
  linked : Linked abi m 0 blocks
  contig : Contig (BLOCK_SIZE abi) start blocks stop
  pos : blocks ≠ [] → 0 < start
  fits : stop ≤ 0xC0000000        -- where user space ends
  aligned : start % 8 = 0
  sizes : ∀ b ∈ blocks, b.size % 8 = 0

theorem wordLarge (abi : Abi) : 2 ^ 32 ≤ abi.word := by
  unfold Abi.word
  rcases abi.known with h | h <;> rw [h] <;> decide

theorem fitsWord {x : Nat} (small : x < 2 ^ 32) : x < 256 ^ abi.ptr :=
  Nat.lt_of_lt_of_le small (wordLarge abi)

theorem blockSizePos (abi : Abi) : 0 < BLOCK_SIZE abi := by
  unfold BLOCK_SIZE
  rcases abi.known with h | h <;> omega

theorem blockSizeAligned (abi : Abi) : BLOCK_SIZE abi % 8 = 0 := by
  unfold BLOCK_SIZE
  rcases abi.known with h | h <;> omega

theorem linkedAppend {m : Buf} {final : Nat} {xs ys : List Block} :
    Linked abi m final (xs ++ ys) ↔
      Linked abi m (headAddr final ys) xs ∧ Linked abi m final ys := by
  induction xs with
  | nil => simp [Linked]
  | cons b rest ih => simp only [List.cons_append, Linked, headAddrAppend, ih, and_assoc]

theorem linkedAround {m : Buf} {final : Nat} {pre post : List Block} {b : Block} :
    Linked abi m final (pre ++ b :: post) ↔ Linked abi m b.addr pre ∧
      Header abi m b (headAddr final post) ∧ Linked abi m final post :=
  linkedAppend

theorem headerFrame {m m' : Buf} {b : Block} {next : Nat}
    (same : ∀ x, b.addr ≤ x → x < b.addr + BLOCK_SIZE abi → m' x = m x)
    (header : Header abi m b next) : Header abi m' b next := by
  have four : 4 ≤ abi.ptr := by rcases abi.known with h | h <;> omega
  obtain ⟨size, link, free⟩ := header
  unfold BLOCK_SIZE at same
  refine ⟨?_, ?_, ?_⟩
  · rw [Buf.loadCongr fun x low high => same x (by omega) (by unfold sizeAt at high; omega)]
    exact size
  · rw [Buf.loadCongr fun x low high => same x (by omega) (by unfold nextAt at high; omega)]
    exact link
  · rw [Buf.loadCongr fun x low high => same x (by omega) (by unfold isFreeAt at high; omega)]
    exact free

theorem linkedFrame {m m' : Buf} {final : Nat} {blocks : List Block}
    (same : ∀ b ∈ blocks, ∀ x, b.addr ≤ x → x < b.addr + BLOCK_SIZE abi → m' x = m x)
    (linked : Linked abi m final blocks) : Linked abi m' final blocks := by
  induction blocks with
  | nil => trivial
  | cons b rest ih =>
    exact ⟨headerFrame (same b List.mem_cons_self) linked.1,
      ih (fun c member => same c (List.mem_cons_of_mem b member)) linked.2⟩

theorem linkedOthers {m m' : Buf} {start stop : Nat} {pre post : List Block} {b : Block}
    (shape : Shape abi m start stop (pre ++ b :: post))
    (same : ∀ x, x < b.addr ∨ b.stop (BLOCK_SIZE abi) ≤ x → m' x = m x) :
    Linked abi m' b.addr pre ∧ Linked abi m' 0 post := by
  obtain ⟨before, -, after⟩ := linkedAround.mp shape.linked
  have apart := fun c (member : c ∈ pre ++ post) => contigApart shape.contig member
  have outside : ∀ c ∈ pre ++ post, ∀ x, c.addr ≤ x → x < c.addr + BLOCK_SIZE abi →
      m' x = m x := by
    intro c member x low high
    have := apart c member
    refine same x ?_
    simp only [Block.stop] at this ⊢
    omega
  exact ⟨linkedFrame (fun c member => outside c (List.mem_append_left _ member)) before,
    linkedFrame (fun c member => outside c (List.mem_append_right _ member)) after⟩

theorem blockBelow {m : Buf} {start stop : Nat} {blocks : List Block}
    (shape : Shape abi m start stop blocks) {b : Block} (member : b ∈ blocks) :
    0 < b.addr ∧ b.addr + BLOCK_SIZE abi + b.size ≤ stop ∧ b.addr % 8 = 0 := by
  have within := contigWithin shape.contig member
  have pos := shape.pos (List.ne_nil_of_mem member)
  refine ⟨by omega, within.2, ?_⟩
  obtain ⟨pre, post, rfl⟩ := List.append_of_mem member
  have before := (contigAround.mp shape.contig).1
  have small : ∀ c ∈ pre, c.size % 8 = 0 := fun c inPre =>
    shape.sizes c (List.mem_append_left _ inPre)
  have aligned := shape.aligned
  clear within pos member shape
  induction pre generalizing start with
  | nil =>
    rw [← before]
    exact aligned
  | cons c rest ih =>
    obtain ⟨rfl, later⟩ := before
    refine ih later (fun d inRest => small d (List.mem_cons_of_mem c inRest)) ?_
    have size := small c List.mem_cons_self
    have hdr := blockSizeAligned abi
    simp only [Block.stop]
    omega

/-! ## The stores -/

theorem markByte (m : Buf) {b v x : Nat} (apart : x < b ∨ b + BLOCK_SIZE abi ≤ x) :
    m.store (b + isFreeAt abi) v 4 x = m x := by
  have four : 4 ≤ abi.ptr := by rcases abi.known with h | h <;> omega
  refine Buf.storeByte m v ?_
  simp only [BLOCK_SIZE, isFreeAt] at apart ⊢
  omega

theorem absorbByte (m : Buf) {b c x : Nat} (apart : x < b ∨ b + BLOCK_SIZE abi ≤ x) :
    absorb abi m b c x = m x := by
  simp only [BLOCK_SIZE] at apart
  unfold absorb
  rw [Buf.storeByte _ _ (by simp only [nextAt]; omega),
    Buf.storeByte _ _ (by simp only [sizeAt]; omega)]

theorem splitByte (m : Buf) {b size x : Nat} (apart : x < b ∨ b + BLOCK_SIZE abi ≤ x)
    (rest : x < b + BLOCK_SIZE abi + size ∨ b + BLOCK_SIZE abi + size + BLOCK_SIZE abi ≤ x) :
    split abi m b size x = m x := by
  have four : 4 ≤ abi.ptr := by rcases abi.known with h | h <;> omega
  unfold split
  generalize b + BLOCK_SIZE abi + size = r at rest ⊢
  simp only [BLOCK_SIZE] at apart rest
  rw [Buf.storeByte _ _ (by simp only [sizeAt]; omega),
    Buf.storeByte _ _ (by simp only [nextAt]; omega),
    Buf.storeByte _ _ (by simp only [isFreeAt]; omega),
    Buf.storeByte _ _ (by simp only [nextAt]; omega),
    Buf.storeByte _ _ (by simp only [sizeAt]; omega)]

theorem cutByte {m : Buf} {b size room x : Nat} (known : m.load (b + sizeAt abi) abi.ptr = room)
    (suits : size ≤ room) (small : room ≤ 0xC0000000)
    (apart : x < b ∨ b + BLOCK_SIZE abi + room ≤ x ∨
      b + BLOCK_SIZE abi ≤ x ∧ x < b + BLOCK_SIZE abi + size) :
    splitIfBig abi m b size x = m x := by
  unfold splitIfBig
  split
  · rename_i big
    have word := wordLarge abi
    have hdr : BLOCK_SIZE abi ≤ 32 := by
      unfold BLOCK_SIZE
      rcases abi.known with h | h <;> omega
    rw [known, Nat.mod_eq_of_lt (by omega)] at big
    exact splitByte m (by omega) (by omega)
  · rfl

theorem shapeData {m m' : Buf} {start stop : Nat} {blocks : List Block}
    (shape : Shape abi m start stop blocks) {b : Block} (member : b ∈ blocks)
    (same : ∀ x, x < b.addr + BLOCK_SIZE abi ∨ b.stop (BLOCK_SIZE abi) ≤ x → m' x = m x) :
    Shape abi m' start stop blocks := by
  obtain ⟨pre, post, rfl⟩ := List.append_of_mem member
  obtain ⟨before, after⟩ := linkedOthers shape fun x outside => same x (by omega)
  have header := (linkedAround.mp shape.linked).2.1
  have kept := headerFrame (fun x _ high => same x (Or.inl high)) header
  exact {shape with linked := linkedAround.mpr ⟨before, kept, after⟩}

theorem markShape {m : Buf} {start stop : Nat} {pre post : List Block} {b : Block} (free : Bool)
    (shape : Shape abi m start stop (pre ++ b :: post)) :
    Shape abi (m.store (b.addr + isFreeAt abi) free.toNat 4) start stop
      (pre ++ {b with free := free} :: post) := by
  have same : ∀ x, x < b.addr ∨ b.stop (BLOCK_SIZE abi) ≤ x →
      m.store (b.addr + isFreeAt abi) free.toNat 4 x = m x := by
    intro x outside
    simp only [Block.stop] at outside
    exact markByte m (by omega)
  obtain ⟨before, after⟩ := linkedOthers shape same
  obtain ⟨size, link, -⟩ := (linkedAround.mp shape.linked).2.1
  have small : free.toNat < 256 ^ 4 := by cases free <;> decide
  have header : Header abi (m.store (b.addr + isFreeAt abi) free.toNat 4) {b with free := free}
      (headAddr 0 post) := by
    refine ⟨?_, ?_, Buf.loadStore m small⟩
    · rw [Buf.loadStoreApart m _ (by simp only [sizeAt, isFreeAt]; omega)]
      exact size
    · rw [Buf.loadStoreApart m _ (by simp only [nextAt, isFreeAt]; omega)]
      exact link
  exact {
    linked := linkedAround.mpr ⟨before, header, after⟩
    contig := contigMark free shape.contig
    pos := fun _ => shape.pos (by simp)
    fits := shape.fits
    aligned := shape.aligned
    sizes := fun c member => by
      rcases List.mem_append.mp member with inPre | inPost
      · exact shape.sizes c (List.mem_append_left _ inPre)
      · rcases List.mem_cons.mp inPost with rfl | later
        · exact shape.sizes b (by simp)
        · exact shape.sizes c (by simp [later]) }

theorem absorbShape {m : Buf} {start stop : Nat} {pre post : List Block} {b c : Block}
    (shape : Shape abi m start stop (pre ++ b :: c :: post)) :
    Shape abi (absorb abi m b.addr c.addr) start stop
      (pre ++ {b with size := b.size + (BLOCK_SIZE abi + c.size)} :: post) := by
  have inside := blockBelow shape (show c ∈ pre ++ b :: c :: post by simp)
  obtain ⟨contigPre, cAddr, contigPost⟩ := contigAround.mp shape.contig
  obtain ⟨-, ⟨size, link, free⟩, ⟨sizeC, linkC, -⟩, -⟩ := linkedAround.mp shape.linked
  have fits := shape.fits
  simp only [Block.stop] at cAddr
  have four : 4 ≤ abi.ptr := by rcases abi.known with h | h <;> omega
  have total : (b.size + (BLOCK_SIZE abi + c.size)) % abi.word =
      b.size + (BLOCK_SIZE abi + c.size) :=
    Nat.mod_eq_of_lt (Nat.lt_of_lt_of_le (by omega) (wordLarge abi))
  have postSmall : headAddr 0 post < 256 ^ abi.ptr := by
    refine fitsWord ?_
    cases post with
    | nil => simp [headAddr]
    | cons d rest =>
      have := blockBelow shape (show d ∈ pre ++ b :: c :: d :: rest by simp)
      simp only [headAddr]
      omega
  have same : ∀ x, x < b.addr ∨ b.addr + BLOCK_SIZE abi ≤ x →
      absorb abi m b.addr c.addr x = m x := fun x outside => absorbByte m outside
  generalize made : absorb abi m b.addr c.addr = m' at same ⊢
  simp only [absorb, size, sizeC, total] at made
  have nextKept : (m.store (b.addr + sizeAt abi) (b.size + (BLOCK_SIZE abi + c.size)) abi.ptr).load
      (c.addr + nextAt abi) abi.ptr = headAddr 0 post := by
    rw [Buf.loadStoreApart m _ (by simp only [nextAt, sizeAt, BLOCK_SIZE] at cAddr ⊢; omega)]
    exact linkC
  rw [nextKept] at made
  obtain ⟨before, rest⟩ := linkedOthers shape fun x outside => same x (by
    simp only [Block.stop] at outside
    omega)
  have sumSmall : b.size + (BLOCK_SIZE abi + c.size) < 256 ^ abi.ptr := fitsWord (by omega)
  have header : Header abi m' {b with size := b.size + (BLOCK_SIZE abi + c.size)}
      (headAddr 0 post) := by
    rw [← made]
    refine ⟨?_, Buf.loadStore _ postSmall, ?_⟩
    · rw [Buf.loadStoreApart _ _ (by simp only [nextAt, sizeAt]; omega)]
      exact Buf.loadStore _ sumSmall
    · rw [Buf.loadStoreApart _ _ (by simp only [nextAt, isFreeAt]; omega),
        Buf.loadStoreApart _ _ (by simp only [sizeAt, isFreeAt]; omega)]
      exact free
  exact {
    linked := linkedAround.mpr ⟨before, header, rest.2⟩
    contig := contigAbsorb shape.contig
    pos := fun _ => shape.pos (by simp)
    fits := fits
    aligned := shape.aligned
    sizes := fun d member => by
      rcases List.mem_append.mp member with inPre | inPost
      · exact shape.sizes d (List.mem_append_left _ inPre)
      · rcases List.mem_cons.mp inPost with rfl | later
        · have sizeB := shape.sizes b (by simp)
          have sizeC := shape.sizes c (by simp)
          have hdr := blockSizeAligned abi
          simp only
          omega
        · exact shape.sizes d (by simp [later]) }

theorem storeHeader {m : Buf} {b : Block} {next : Nat} {abi : Abi} (size : b.size < 2 ^ 32)
    (link : next < 2 ^ 32) :
    Header abi (((m.store (b.addr + sizeAt abi) b.size abi.ptr).store (b.addr + nextAt abi) next
      abi.ptr).store (b.addr + isFreeAt abi) b.free.toNat 4) b next := by
  have small : b.free.toNat < 256 ^ 4 := by cases b.free <;> decide
  refine ⟨?_, ?_, Buf.loadStore _ small⟩
  · rw [Buf.loadStoreApart _ _ (by simp only [sizeAt, isFreeAt]; omega),
      Buf.loadStoreApart _ _ (by simp only [sizeAt, nextAt]; omega)]
    exact Buf.loadStore _ (fitsWord size)
  · rw [Buf.loadStoreApart _ _ (by simp only [nextAt, isFreeAt]; omega)]
    exact Buf.loadStore _ (fitsWord link)

theorem splitShape {m : Buf} {start stop : Nat} {pre post : List Block} {b : Block} {size : Nat}
    (shape : Shape abi m start stop (pre ++ b :: post)) (aligned : size % 8 = 0)
    (room : size + BLOCK_SIZE abi ≤ b.size) :
    Shape abi (split abi m b.addr size) start stop
      (pre ++ {b with size := size} ::
        ⟨b.addr + BLOCK_SIZE abi + size, b.size - size - BLOCK_SIZE abi, true⟩ :: post) := by
  have inside := blockBelow shape (show b ∈ pre ++ b :: post by simp)
  have fits := shape.fits
  have four : 4 ≤ abi.ptr := by rcases abi.known with h | h <;> omega
  obtain ⟨sizeB, linkB, freeB⟩ := (linkedAround.mp shape.linked).2.1
  have postSmall : headAddr 0 post < 2 ^ 32 := by
    cases post with
    | nil => simp [headAddr]
    | cons d rest =>
      have := blockBelow shape (show d ∈ pre ++ b :: d :: rest by simp)
      simp only [headAddr]
      omega
  generalize restIs : (⟨b.addr + BLOCK_SIZE abi + size, b.size - size - BLOCK_SIZE abi, true⟩ :
    Block) = rest
  have restAddr : rest.addr = b.addr + BLOCK_SIZE abi + size := by rw [← restIs]
  have restSize : rest.size = b.size - size - BLOCK_SIZE abi := by rw [← restIs]
  have restFree : rest.free.toNat = 1 := by rw [← restIs]; rfl
  generalize made : split abi m b.addr size = m'
  simp only [split, sizeB, ← restAddr] at made
  rw [Buf.loadStoreApart m _ (by simp only [nextAt, sizeAt, BLOCK_SIZE] at restAddr ⊢; omega), linkB,
    ← restSize, ← restFree] at made
  generalize headed : ((m.store (rest.addr + sizeAt abi) rest.size abi.ptr).store
    (rest.addr + nextAt abi) (headAddr 0 post) abi.ptr).store
      (rest.addr + isFreeAt abi) rest.free.toNat 4 = m1 at made
  have restHeader : Header abi m1 rest (headAddr 0 post) :=
    headed ▸ storeHeader (by omega) postSmall
  have keptByRest : ∀ x, x < rest.addr ∨ rest.addr + BLOCK_SIZE abi ≤ x → m1 x = m x := by
    intro x outside
    simp only [BLOCK_SIZE] at outside
    rw [← headed, Buf.storeByte _ _ (by simp only [isFreeAt]; omega),
      Buf.storeByte _ _ (by simp only [nextAt]; omega),
      Buf.storeByte _ _ (by simp only [sizeAt]; omega)]
  have keptByB : ∀ x, x < b.addr ∨ b.addr + BLOCK_SIZE abi ≤ x → m' x = m1 x := by
    intro x outside
    simp only [BLOCK_SIZE] at outside
    rw [← made, Buf.storeByte _ _ (by simp only [sizeAt]; omega),
      Buf.storeByte _ _ (by simp only [nextAt]; omega)]
  have same : ∀ x, x < b.addr ∨ b.stop (BLOCK_SIZE abi) ≤ x → m' x = m x := by
    intro x outside
    simp only [Block.stop] at outside
    rw [keptByB x (by omega), keptByRest x (by omega)]
  obtain ⟨before, after⟩ := linkedOthers shape same
  have restHeader' : Header abi m' rest (headAddr 0 post) :=
    headerFrame (fun x low _ => keptByB x (by omega)) restHeader
  have header : Header abi m' {b with size := size} rest.addr := by
    rw [← made]
    refine ⟨Buf.loadStore _ (fitsWord (by omega)), ?_, ?_⟩
    · rw [Buf.loadStoreApart _ _ (by simp only [sizeAt, nextAt]; omega)]
      exact Buf.loadStore _ (fitsWord (by omega))
    · rw [Buf.loadStoreApart _ _ (by simp only [sizeAt, isFreeAt]; omega),
        Buf.loadStoreApart _ _ (by simp only [nextAt, isFreeAt]; omega)]
      have freeKept := (headerFrame (fun x _ high => keptByRest x (by omega))
        (linkedAround.mp shape.linked).2.1).2.2
      exact freeKept
  exact {
    linked := linkedAround.mpr ⟨before, header, restHeader', after⟩
    contig := restIs ▸ contigSplit room shape.contig
    pos := fun _ => shape.pos (by simp)
    fits := fits
    aligned := shape.aligned
    sizes := fun c member => by
      rcases List.mem_append.mp member with inPre | inPost
      · exact shape.sizes c (List.mem_append_left _ inPre)
      rcases List.mem_cons.mp inPost with rfl | later
      · exact aligned
      rcases List.mem_cons.mp later with rfl | later
      · have sizeWas := shape.sizes b (by simp)
        have hdr := blockSizeAligned abi
        omega
      · exact shape.sizes c (by simp [later]) }

def appended (abi : Abi) (m : Buf) (last b size : Nat) : Buf :=
  let m := m.store b BLOCK_MAGIC abi.ptr
  let m := m.store (b + sizeAt abi) size abi.ptr
  let m := m.store (b + nextAt abi) 0 abi.ptr
  let m := m.store (b + isFreeAt abi) 0 4
  if last = 0 then m else m.store (last + nextAt abi) b abi.ptr

theorem appendedByte (m : Buf) {last b size x : Nat} (below : x < b)
    (link : x < last ∨ last + BLOCK_SIZE abi ≤ x) : appended abi m last b size x = m x := by
  have inner : ∀ v w, (((m.store b v abi.ptr).store (b + sizeAt abi) w abi.ptr).store
      (b + nextAt abi) 0 abi.ptr).store (b + isFreeAt abi) 0 4 x = m x := by
    intro v w
    rw [Buf.storeByte _ _ (by omega), Buf.storeByte _ _ (by omega),
      Buf.storeByte _ _ (by omega), Buf.storeByte _ _ (by omega)]
  simp only [BLOCK_SIZE] at link
  simp only [appended]
  split
  · exact inner _ _
  · rw [Buf.storeByte _ _ (by simp only [nextAt]; omega)]
    exact inner _ _

theorem appendShape {m : Buf} {start stop : Nat} {blocks : List Block} {size : Nat}
    (shape : Shape abi m start stop blocks) (pos : 0 < start) (aligned : size % 8 = 0)
    (fits : stop + BLOCK_SIZE abi + size ≤ 0xC0000000) :
    Shape abi (appended abi m (lastAddr 0 blocks) stop size) start (stop + BLOCK_SIZE abi + size)
      (blocks ++ [⟨stop, size, false⟩]) := by
  have four : 4 ≤ abi.ptr := by rcases abi.known with h | h <;> omega
  generalize made : appended abi m (lastAddr 0 blocks) stop size = m'
  simp only [appended] at made
  generalize headed : (((m.store stop BLOCK_MAGIC abi.ptr).store (stop + sizeAt abi) size
    abi.ptr).store (stop + nextAt abi) 0 abi.ptr).store (stop + isFreeAt abi) 0 4 = m1 at made
  have header : Header abi m1 ⟨stop, size, false⟩ 0 :=
    headed ▸ storeHeader (b := ⟨stop, size, false⟩) (by simp only; omega) (by decide)
  have kept : ∀ x < stop, m1 x = m x := by
    intro x below
    rw [← headed, Buf.storeByte _ _ (by simp only [isFreeAt]; omega),
      Buf.storeByte _ _ (by simp only [nextAt]; omega),
      Buf.storeByte _ _ (by simp only [sizeAt]; omega), Buf.storeByte _ _ (by omega)]
  have linked : Linked abi m' 0 (blocks ++ [⟨stop, size, false⟩]) := by
    rcases List.eq_nil_or_concat blocks with rfl | ⟨pre, last, rfl⟩
    · rw [← made, if_pos (by rfl)]
      exact ⟨header, trivial⟩
    rw [List.concat_eq_append] at shape made ⊢
    have inside := blockBelow shape (show last ∈ pre ++ [last] by simp)
    rw [lastAddrSnoc, if_neg (by omega)] at made
    have inLast : last.addr + BLOCK_SIZE abi ≤ stop := by omega
    have keptElse : ∀ x, x < last.addr ∨ last.addr + BLOCK_SIZE abi ≤ x → m' x = m1 x := by
      intro x outside
      simp only [BLOCK_SIZE] at outside
      rw [← made, Buf.storeByte _ _ (by simp only [nextAt]; omega)]
    obtain ⟨before, ⟨sizeL, -, freeL⟩, -⟩ := linkedAround.mp shape.linked
    have apart := (contigAround.mp shape.contig).1
    have beforeKept : Linked abi m' last.addr pre := by
      refine linkedFrame (fun c member x low high => ?_) before
      have := (contigWithin apart member).2
      simp only [Block.stop] at this
      rw [keptElse x (by omega), kept x (by omega)]
    have lastHeader : Header abi m' last stop := by
      have sizeKept : m1.load (last.addr + sizeAt abi) abi.ptr = last.size := by
        rw [Buf.loadCongr fun x low high => kept x (by
          simp only [sizeAt, BLOCK_SIZE] at high inLast
          omega)]
        exact sizeL
      have freeKept : m1.load (last.addr + isFreeAt abi) 4 = last.free.toNat := by
        rw [Buf.loadCongr fun x low high => kept x (by
          simp only [isFreeAt, BLOCK_SIZE] at high inLast
          omega)]
        exact freeL
      rw [← made]
      refine ⟨?_, Buf.loadStore _ (fitsWord (by omega)), ?_⟩
      · rw [Buf.loadStoreApart _ _ (by simp only [sizeAt, nextAt]; omega)]
        exact sizeKept
      · rw [Buf.loadStoreApart _ _ (by simp only [isFreeAt, nextAt]; omega)]
        exact freeKept
    have newHeader : Header abi m' ⟨stop, size, false⟩ 0 :=
      headerFrame (fun x low _ => keptElse x (by simp only at low; omega)) header
    rw [List.append_assoc]
    exact linkedAround.mpr ⟨beforeKept, lastHeader, newHeader, trivial⟩
  exact {
    linked := linked
    contig := contigSnoc size false shape.contig
    pos := fun _ => pos
    fits := fits
    aligned := shape.aligned
    sizes := fun c member => by
      rcases List.mem_append.mp member with old | new
      · exact shape.sizes c old
      · rw [List.mem_singleton.mp new]
        exact aligned }

/-! ## The walks -/

def Suits (size : Nat) (b : Block) : Prop := b.free = true ∧ size ≤ b.size

theorem freeFlag {m : Buf} {b : Block} {next : Nat} (header : Header abi m b next) :
    m.load (b.addr + isFreeAt abi) 4 ≠ 0 ↔ b.free = true := by
  rw [header.2.2]
  cases b.free <;> simp

theorem findFreeFinds {m : Buf} {blocks : List Block} (size prev : Nat) {fuel : Nat}
    (linked : Linked abi m 0 blocks) (pos : ∀ b ∈ blocks, 0 < b.addr)
    (enough : blocks.length < fuel) :
    (∃ pre b post, blocks = pre ++ b :: post ∧ Suits size b ∧
      findFree abi m size fuel (headAddr 0 blocks) prev = some (b.addr, lastAddr prev pre)) ∨
    findFree abi m size fuel (headAddr 0 blocks) prev = some (0, lastAddr prev blocks) := by
  induction blocks generalizing fuel prev with
  | nil =>
    obtain ⟨fuel, rfl⟩ := Nat.exists_eq_add_one_of_ne_zero (Nat.ne_of_gt enough)
    exact Or.inr rfl
  | cons b rest ih =>
    obtain ⟨fuel, rfl⟩ := Nat.exists_eq_add_one_of_ne_zero (Nat.ne_of_gt (Nat.lt_of_le_of_lt
      (Nat.zero_le _) enough))
    obtain ⟨header, later⟩ := linked
    have nonzero : b.addr ≠ 0 := Nat.ne_of_gt (pos b List.mem_cons_self)
    simp only [headAddrCons, findFree, if_neg nonzero, freeFlag header, header.1, header.2.1]
    by_cases suits : b.free = true ∧ size ≤ b.size
    · rw [if_pos suits]
      exact Or.inl ⟨[], b, rest, rfl, suits, rfl⟩
    · rw [if_neg suits]
      have shorter : rest.length < fuel := by
        rw [List.length_cons] at enough
        omega
      rcases ih b.addr later (fun c member => pos c (List.mem_cons_of_mem b member)) shorter with
        ⟨pre, c, post, rfl, found, out⟩ | out
      · exact Or.inl ⟨b :: pre, c, post, rfl, found, out⟩
      · exact Or.inr out

theorem findPrevFinds {m : Buf} {start stop : Nat} {pre post : List Block} {a b : Block}
    {fuel : Nat} (shape : Shape abi m start stop (pre ++ a :: b :: post))
    (enough : pre.length < fuel) :
    findPrev abi m b.addr fuel (headAddr 0 (pre ++ a :: b :: post)) = some a.addr := by
  have linked := shape.linked
  have pos : ∀ c ∈ pre ++ a :: b :: post, c.addr ≠ 0 :=
    fun c member => Nat.ne_of_gt (blockBelow shape member).1
  have contig := shape.contig
  clear shape
  induction pre generalizing fuel start with
  | nil =>
    obtain ⟨fuel, rfl⟩ := Nat.exists_eq_add_one_of_ne_zero (Nat.ne_of_gt enough)
    have nonzero := pos a (by simp)
    have next : m.load (a.addr + nextAt abi) abi.ptr = b.addr := linked.1.2.1
    simp only [List.nil_append, headAddrCons, findPrev, if_neg nonzero, next, if_true]
  | cons c rest ih =>
    obtain ⟨fuel, rfl⟩ := Nat.exists_eq_add_one_of_ne_zero (Nat.ne_of_gt (Nat.lt_of_le_of_lt
      (Nat.zero_le _) enough))
    have shorter : rest.length < fuel := by
      rw [List.length_cons] at enough
      omega
    rw [List.cons_append] at linked contig
    obtain ⟨header, later⟩ := linked
    obtain ⟨rfl, contigRest⟩ := contig
    have nonzero := pos c (by simp)
    have nextIs := header.2.1
    have differs : headAddr 0 (rest ++ a :: b :: post) ≠ b.addr := by
      have hdr := blockSizePos abi
      have aBefore : a.addr < b.addr := by
        obtain ⟨mid, -, h⟩ := contigAppend.mp contigRest
        obtain ⟨rfl, next, -⟩ := h
        simp only [Block.stop] at next
        omega
      cases rest with
      | nil => exact Nat.ne_of_lt aBefore
      | cons d more =>
        have grouped : Contig (BLOCK_SIZE abi) (c.stop (BLOCK_SIZE abi))
            ((d :: more ++ [a]) ++ b :: post) stop := by simpa using contigRest
        have apart := contigApart grouped (show d ∈ (d :: more ++ [a]) ++ post by simp)
        obtain ⟨dAddr, tail⟩ := contigRest
        have ordered := contigWithin tail (show b ∈ more ++ a :: b :: post by simp)
        simp only [List.cons_append, headAddr]
        simp only [Block.stop] at apart ordered
        omega
    have step := ih shorter later
      (fun d member => pos d (by simp only [List.cons_append, List.mem_cons]; exact Or.inr member))
      contigRest
    simp only [List.cons_append, headAddrCons, findPrev, if_neg nonzero, nextIs, if_neg differs]
    exact step

end Scepter.Malloc
