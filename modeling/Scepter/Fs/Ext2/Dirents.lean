import Scepter.Fs.Ext2.Dir
import Scepter.Lib.Slots

/-! The entries of one directory block (ext2_dir.c) as a row of slots. An entry lies in
its slot with its header and its name; what the slot has behind them is of no account. -/
namespace Scepter.Ext2

open Block Prog

def hasFiletype (geo : Geometry) : Bool := geo.sRest.getU32 96 &&& 0x2 != 0

def hasDirIndex (geo : Geometry) : Bool := geo.sRest.getU32 92 &&& 0x20 != 0

def ftUnknown : Byte := 0
def ftDir : Byte := 2

def ext2RecLen (nlen : Nat) : Nat := u16 ((nlen + 8 + 3) / 4 * 4)

def ext2WriteDirent (geo : Geometry) (buf : Buf) (off ino : Nat) (name : List Byte)
    (ftype : Byte) (rl : Nat) : Buf :=
  let buf := (buf.setU32 off ino).setU16 (off + 4) rl
  let buf :=
    if hasFiletype geo then
      Function.update (Function.update buf (off + 6) (BitVec.ofNat 8 name.length)) (off + 7) ftype
    else buf.setU16 (off + 6) (name.length % 2 ^ 8)
  fun o => if off + 8 ≤ o ∧ o < off + 8 + name.length then name.getD (o - (off + 8)) 0 else buf o

def indexRoot (geo : Geometry) (buf : Buf) : Bool :=
  recLen buf 0 == 12 && nameLen buf 0 == 1 && direntName buf 0 1 == [dot] &&
    nameLen buf 12 == 2 && direntName buf 12 2 == [dot, dot] &&
    recLen buf 12 == geo.blockSize - 12 && (List.range' 24 8).any fun i => buf i != 0

def plainRoot (geo : Geometry) (dirIno dotdotIno : Nat) : Buf :=
  let r1 := ext2RecLen 1
  let r2 := ext2RecLen 2
  let buf := ext2WriteDirent geo Buf.zero 0 dirIno [dot] ftDir r1
  let buf := ext2WriteDirent geo buf r1 dotdotIno [dot, dot] ftDir r2
  if r1 + r2 < geo.blockSize then
    ext2WriteDirent geo buf (r1 + r2) 0 [] ftUnknown (u16 (geo.blockSize - r1 - r2))
  else buf

def freeEntry (need : Nat) (buf : Buf) (off : Nat) : Bool :=
  direntIno buf off == 0 && need ≤ recLen buf off

/- The new entry in the free slot at `off`, which is split when 8 bytes are left. -/
def insertEntry (geo : Geometry) (buf : Buf) (off ino : Nat) (name : List Byte) (ftype : Byte) :
    Buf :=
  let need := ext2RecLen name.length
  let rl := recLen buf off
  if need + 8 ≤ rl then
    let buf := ext2WriteDirent geo buf (off + need) 0 [] ftUnknown (u16 (rl - need))
    ext2WriteDirent geo buf off ino name ftype need
  else ext2WriteDirent geo buf off ino name ftype rl

/-! ## Slots -/

abbrev DirSlot := Slot (List Byte × Nat)

def slotAt (buf : Buf) (off : Nat) : DirSlot where
  len := recLen buf off
  held :=
    if direntIno buf off = 0 then none
    else some (direntName buf off (nameLen buf off), direntIno buf off)

structure Sized (s : DirSlot) : Prop where
  header : 8 ≤ s.len
  aligned : 4 ∣ s.len
  name : ∀ e ∈ s.held, 8 + e.1.length ≤ s.len

def Packed (buf : Buf) : Nat → List DirSlot → Prop
  | _, [] => True
  | off, s :: rest => slotAt buf off = s ∧ Sized s ∧ Packed buf (off + s.len) rest

def slotsFrom (geo : Geometry) (buf : Buf) : Nat → Nat → List DirSlot
  | 0, _ => []
  | fuel + 1, off =>
    if geo.blockSize < off + 8 then []
    else slotAt buf off :: slotsFrom geo buf fuel (off + recLen buf off)

def rowOf (geo : Geometry) (buf : Buf) : List DirSlot := slotsFrom geo buf geo.blockSize 0

structure BlockFormed (geo : Geometry) (buf : Buf) : Prop where
  packed : Packed buf 0 (rowOf geo buf)
  fills : Slot.total (rowOf geo buf) = geo.blockSize

variable {geo : Geometry} {buf other : Buf} {off : Nat} {row : List DirSlot}

theorem slotCongr {s : DirSlot} (slot : slotAt buf off = s) (sized : Sized s)
    (same : ∀ o, off ≤ o → o < off + s.len → other o = buf o) : slotAt other off = s := by
  have header := sized.header
  have ino : direntIno other off = direntIno buf off :=
    Buf.getU32Congr fun o low high => same o low (by omega)
  have len : recLen other off = recLen buf off :=
    Buf.getU16Congr fun o low high => same o (by omega) (by omega)
  have nlen : nameLen other off = nameLen buf off := by
    unfold nameLen
    rw [same _ (by omega) (by omega)]
  rw [← slot]
  unfold slotAt
  rw [ino, len, nlen]
  by_cases free : direntIno buf off = 0
  · rw [if_pos free, if_pos free]
  · have name : direntName other off (nameLen buf off) = direntName buf off (nameLen buf off) := by
      have held : (direntName buf off (nameLen buf off), direntIno buf off) ∈ s.held := by
        rw [← slot, slotAt, if_neg free]
        rfl
      have fits := sized.name _ held
      dsimp only [direntName] at fits
      rw [List.length_map, List.length_range] at fits
      unfold direntName
      refine List.map_congr_left fun k member => same _ (by omega) ?_
      have small := List.mem_range.mp member
      omega
    rw [if_neg free, if_neg free, name]

theorem Packed.congr (packed : Packed buf off row)
    (same : ∀ o, off ≤ o → o < off + Slot.total row → other o = buf o) :
    Packed other off row := by
  induction row generalizing off with
  | nil => trivial
  | cons s rest ih =>
    obtain ⟨slot, sized, packed⟩ := packed
    rw [Slot.totalCons] at same
    refine ⟨slotCongr slot sized fun o low high => same o low (by omega), sized, ?_⟩
    exact ih packed fun o low high => same o (by omega) (by omega)

theorem packedAppend {pre post : List DirSlot} :
    Packed buf off (pre ++ post) ↔ Packed buf off pre ∧ Packed buf (off + Slot.total pre) post := by
  induction pre generalizing off with
  | nil => exact (and_iff_right trivial).symm
  | cons s rest ih =>
    show _ ∧ _ ∧ Packed buf (off + s.len) (rest ++ post) ↔
      (_ ∧ _ ∧ Packed buf (off + s.len) rest) ∧ _
    rw [ih, Slot.totalCons, Nat.add_assoc]
    simp only [and_assoc]

theorem Packed.length (packed : Packed buf off row) : 8 * row.length ≤ Slot.total row := by
  induction row generalizing off with
  | nil => exact Nat.le_refl 0
  | cons s rest ih =>
    have rest := ih packed.2.2
    have header := packed.2.1.header
    rw [List.length_cons, Slot.totalCons]
    omega

theorem slotsFromPacked {fuel : Nat} (packed : Packed buf off row)
    (fills : off + Slot.total row = geo.blockSize) (enough : row.length < fuel) :
    slotsFrom geo buf fuel off = row := by
  induction row generalizing off fuel with
  | nil =>
    cases fuel with
    | zero => rfl
    | succ fuel =>
      rw [Slot.totalNil] at fills
      unfold slotsFrom
      rw [if_pos (by omega)]
  | cons s rest ih =>
    obtain ⟨slot, sized, packed⟩ := packed
    have header := sized.header
    rw [Slot.totalCons] at fills
    cases fuel with
    | zero => cases enough
    | succ fuel =>
      unfold slotsFrom
      rw [if_neg (by omega), slot, show recLen buf off = s.len from congrArg Slot.len slot,
        ih packed (by omega) (Nat.lt_of_succ_lt_succ enough)]

theorem rowOfPacked (large : 8 ≤ geo.blockSize) (packed : Packed buf 0 row)
    (fills : Slot.total row = geo.blockSize) : rowOf geo buf = row := by
  refine slotsFromPacked packed ((Nat.zero_add _).trans fills) ?_
  have short := packed.length
  omega

theorem blockFormed (large : 8 ≤ geo.blockSize) (packed : Packed buf 0 row)
    (fills : Slot.total row = geo.blockSize) : BlockFormed geo buf where
  packed := by rwa [rowOfPacked large packed fills]
  fills := by rwa [rowOfPacked large packed fills]

/-! ## Scanning -/

theorem scanSeek {hit : Nat → Bool} {p : DirSlot → Bool}
    (agree : ∀ off, hit off = p (slotAt buf off)) {fuel : Nat} {prev : Option Nat}
    (packed : Packed buf off row) (fills : off + Slot.total row = geo.blockSize)
    (enough : row.length < fuel) :
    scanDirents geo buf hit fuel off prev = some (Slot.seek p off prev row) := by
  induction row generalizing off fuel prev with
  | nil =>
    cases fuel with
    | zero => rfl
    | succ fuel =>
      rw [Slot.totalNil] at fills
      unfold scanDirents
      rw [if_pos (by omega)]
      rfl
  | cons s rest ih =>
    obtain ⟨slot, sized, packed⟩ := packed
    have header := sized.header
    have len : recLen buf off = s.len := congrArg Slot.len slot
    rw [Slot.totalCons] at fills
    cases fuel with
    | zero => cases enough
    | succ fuel =>
      unfold scanDirents Slot.seek
      rw [if_neg (by omega), len, if_neg (by omega), agree, slot]
      split
      · rfl
      · exact ih packed (by omega) (Nat.lt_of_succ_lt_succ enough)

theorem scanFormed {hit : Nat → Bool} {p : DirSlot → Bool} (large : 8 ≤ geo.blockSize)
    (formed : BlockFormed geo buf) (agree : ∀ off, hit off = p (slotAt buf off)) :
    scanDirents geo buf hit geo.blockSize 0 none = some (Slot.seek p 0 none (rowOf geo buf)) := by
  have short := formed.packed.length
  have fills := formed.fills
  exact scanSeek agree formed.packed (by omega) (by omega)

def holds (name : List Byte) (s : DirSlot) : Bool :=
  match s.held with
  | none => false
  | some e => e.1 == name

def roomy (need : Nat) (s : DirSlot) : Bool := s.held.isNone && need ≤ s.len

theorem direntNameLength (buf : Buf) (off len : Nat) : (direntName buf off len).length = len := by
  rw [direntName, List.length_map, List.length_range]

theorem namedHolds (name : List Byte) (off : Nat) :
    named buf name off = holds name (slotAt buf off) := by
  unfold named holds slotAt
  by_cases free : direntIno buf off = 0
  · simp [free]
  · rw [if_neg free]
    rw [Bool.eq_iff_iff]
    simp only [bne_iff_ne, ne_eq, free, not_false_eq_true, Bool.and_eq_true, beq_iff_eq,
      true_and]
    constructor
    · rintro ⟨same, name⟩
      rwa [same]
    · intro same
      have length := congrArg List.length same
      rw [direntNameLength] at length
      exact ⟨length, length ▸ same⟩

theorem freeRoomy (need off : Nat) : freeEntry need buf off = roomy need (slotAt buf off) := by
  unfold freeEntry roomy slotAt
  by_cases free : direntIno buf off = 0
  · simp [free]
  · simp [free]

/-! ## Writing entries -/

theorem writeDirentApart {ino rl : Nat} {name : List Byte} {ftype : Byte} {o : Nat}
    (apart : o < off ∨ off + 8 + name.length ≤ o) :
    ext2WriteDirent geo buf off ino name ftype rl o = buf o := by
  unfold ext2WriteDirent
  rw [if_neg (by omega)]
  have lower : ((buf.setU32 off ino).setU16 (off + 4) rl) o = buf o := by
    unfold Buf.setU16 Buf.setU32
    rw [if_neg (by omega), if_neg (by omega)]
  split
  · rw [Function.update_of_ne (by omega), Function.update_of_ne (by omega), lower]
  · rw [← lower, Buf.setU16, if_neg (by omega)]

theorem writeDirentFields (geo : Geometry) (buf : Buf) (off : Nat) {ino rl : Nat}
    (name : List Byte) (ftype : Byte) (inoSmall : ino < 2 ^ 32) (short : name.length < 256)
    (len : rl < 2 ^ 16) :
    direntIno (ext2WriteDirent geo buf off ino name ftype rl) off = ino ∧
      recLen (ext2WriteDirent geo buf off ino name ftype rl) off = rl ∧
      nameLen (ext2WriteDirent geo buf off ino name ftype rl) off = name.length ∧
      direntName (ext2WriteDirent geo buf off ino name ftype rl) off name.length = name := by
  have lower {o : Nat} (low : o < off + 6) :
      ext2WriteDirent geo buf off ino name ftype rl o =
        ((buf.setU32 off ino).setU16 (off + 4) rl) o := by
    unfold ext2WriteDirent
    rw [if_neg (by omega)]
    split
    · rw [Function.update_of_ne (by omega), Function.update_of_ne (by omega)]
    · rw [Buf.setU16, if_neg (by omega)]
  refine ⟨?_, ?_, ?_, ?_⟩
  · have same : direntIno (ext2WriteDirent geo buf off ino name ftype rl) off =
        (buf.setU32 off ino).getU32 off := by
      refine Buf.getU32Congr fun o low high => ?_
      rw [lower (by omega), Buf.setU16, if_neg (by omega)]
    rw [same, Buf.getU32Set buf inoSmall]
  · rw [recLen, Buf.getU16Congr fun o low high => lower (by omega), Buf.getU16Set _ len]
  · unfold nameLen ext2WriteDirent
    rw [if_neg (by omega)]
    split
    · rw [Function.update_of_ne (by omega), Function.update_self, BitVec.toNat_ofNat,
        Nat.mod_eq_of_lt short]
    · rw [Buf.setU16, if_pos (by omega), Nat.sub_self, Buf.leByte, BitVec.toNat_ofNat]
      omega
  · unfold direntName
    refine List.ext_getElem (by rw [List.length_map, List.length_range]) fun k low high => ?_
    rw [List.getElem_map, List.getElem_range]
    unfold ext2WriteDirent
    rw [if_pos (by omega), Nat.add_sub_cancel_left, List.getD_eq_getElem?_getD,
      List.getElem?_eq_getElem high, Option.getD_some]

theorem writeDirentSlot (geo : Geometry) (buf : Buf) (off : Nat) {ino rl : Nat}
    (name : List Byte) (ftype : Byte) (inoSmall : ino < 2 ^ 32) (short : name.length < 256)
    (len : rl < 2 ^ 16) :
    slotAt (ext2WriteDirent geo buf off ino name ftype rl) off =
      ⟨rl, if ino = 0 then none else some (name, ino)⟩ := by
  obtain ⟨ino', rl', nlen, name'⟩ := writeDirentFields geo buf off name ftype inoSmall short len
  unfold slotAt
  rw [ino', rl', nlen, name']

theorem Packed.replace {pre mid post : List DirSlot} (old : List DirSlot)
    (packed : Packed buf 0 (pre ++ old ++ post))
    (apart : ∀ o, o < Slot.total pre ∨ Slot.total pre + Slot.total old ≤ o → other o = buf o)
    (same : Slot.total mid = Slot.total old) (new : Packed other (Slot.total pre) mid) :
    Packed other 0 (pre ++ mid ++ post) := by
  rw [packedAppend, packedAppend] at packed ⊢
  obtain ⟨⟨before, -⟩, after⟩ := packed
  rw [Slot.totalAppend, Nat.zero_add] at after ⊢
  rw [Nat.zero_add, same]
  refine ⟨⟨before.congr fun o _ high => apart o (.inl (by omega)), new⟩, ?_⟩
  exact after.congr fun o low _ => apart o (.inr low)

theorem recLenNeed {nlen : Nat} (short : nlen < 256) :
    8 + nlen ≤ ext2RecLen nlen ∧ ext2RecLen nlen < 8 + nlen + 4 ∧ 4 ∣ ext2RecLen nlen := by
  unfold ext2RecLen u16
  omega

theorem freeSized {n : Nat} (header : 8 ≤ n) (aligned : 4 ∣ n) : Sized ⟨n, none⟩ :=
  ⟨header, aligned, fun _ held => nomatch held⟩

theorem insertPacked {ino at_ : Nat} {name : List Byte} {ftype : Byte} {prev : Option Nat}
    (sizes : 8 ≤ geo.blockSize ∧ geo.blockSize < 2 ^ 16) (formed : BlockFormed geo buf)
    (nonzero : ino ≠ 0) (inoSmall : ino < 2 ^ 32) (short : name.length < 256)
    (found : Slot.seek (roomy (ext2RecLen name.length)) 0 none (rowOf geo buf) =
      some (at_, prev)) :
    BlockFormed geo (insertEntry geo buf at_ ino name ftype) ∧
      ∃ before after, Slot.contents (rowOf geo buf) = before ++ after ∧
        Slot.contents (rowOf geo (insertEntry geo buf at_ ino name ftype)) =
          before ++ (name, ino) :: after := by
  obtain ⟨pre, s, post, split, -, hit, rfl, -⟩ := Slot.seekSome found
  obtain ⟨fits, tight, aligned⟩ := recLenNeed short
  have packed := formed.packed
  have fills := formed.fills
  rw [split] at packed fills
  rw [Nat.zero_add]
  have within : Slot.total pre + s.len ≤ geo.blockSize := by
    rw [Slot.totalAppend, Slot.totalCons] at fills
    omega
  unfold roomy at hit
  rw [Bool.and_eq_true, decide_eq_true_iff, Option.isNone_iff_eq_none] at hit
  obtain ⟨free, room⟩ := hit
  obtain ⟨slot, sized, -⟩ := (packedAppend.mp packed).2
  rw [Nat.zero_add] at slot
  have len : recLen buf (Slot.total pre) = s.len := congrArg Slot.len slot
  have newSlot (b : Buf) {n : Nat} (small : n < 2 ^ 16) :
      slotAt (ext2WriteDirent geo b (Slot.total pre) ino name ftype n) (Slot.total pre) =
        ⟨n, some (name, ino)⟩ := by
    rw [writeDirentSlot geo b _ name ftype inoSmall short small, if_neg nonzero]
  have heldSized {n : Nat} (large : ext2RecLen name.length ≤ n) (even : 4 ∣ n) :
      Sized ⟨n, some (name, ino)⟩ := by
    refine ⟨Nat.le_trans (by omega) large, even, fun e held => ?_⟩
    cases held
    exact Nat.le_trans fits large
  have placed : Packed (insertEntry geo buf (Slot.total pre) ino name ftype) 0
      (pre ++ Slot.place 8 (ext2RecLen name.length) (name, ino) s ++ post) := by
    refine Packed.replace [s] (by rwa [List.append_assoc]) ?_ ?_ ?_
    · intro o apart
      rw [Slot.totalCons, Slot.totalNil] at apart
      unfold insertEntry
      rw [len]
      split
      · refine (writeDirentApart (by omega)).trans (writeDirentApart ?_)
        rw [List.length_nil]
        omega
      · exact writeDirentApart (by omega)
    · rw [Slot.totalPlace, Slot.totalCons, Slot.totalNil, Nat.add_zero]
    · unfold insertEntry Slot.place
      rw [len]
      by_cases large : ext2RecLen name.length + 8 ≤ s.len
      · rw [if_pos large, if_pos large]
        have small : u16 (s.len - ext2RecLen name.length) = s.len - ext2RecLen name.length :=
          Nat.mod_eq_of_lt (by omega)
        rw [small]
        have restSized := freeSized (n := s.len - ext2RecLen name.length) (by omega)
          (Nat.dvd_sub sized.aligned aligned)
        refine ⟨newSlot _ (by omega), heldSized (Nat.le_refl _) aligned, ?_, restSized, trivial⟩
        refine slotCongr (writeDirentSlot geo buf (Slot.total pre + ext2RecLen name.length) []
          ftUnknown (by decide) (by decide) (show s.len - ext2RecLen name.length < 2 ^ 16 by omega))
          restSized fun o low _ => writeDirentApart (.inr ?_)
        have low : Slot.total pre + ext2RecLen name.length ≤ o := low
        omega
      · rw [if_neg large, if_neg large]
        exact ⟨newSlot _ (by omega), heldSized room sized.aligned, trivial⟩
  have total : Slot.total (pre ++ Slot.place 8 (ext2RecLen name.length) (name, ino) s ++ post) =
      geo.blockSize := by
    rw [← fills]
    simp only [Slot.totalAppend, Slot.totalPlace, Slot.totalCons]
    omega
  refine ⟨blockFormed sizes.1 placed total, Slot.contents pre, Slot.contents post, ?_, ?_⟩
  · obtain ⟨n, held⟩ := s
    replace free : held = none := free
    rw [split, free, Slot.contentsAppend, Slot.contentsFree]
  · rw [rowOfPacked sizes.1 placed total, List.append_assoc, Slot.contentsAppend,
      Slot.contentsPlace]

/-! ## Deleting entries -/

theorem setLenSlot {v : Nat} (free : direntIno buf off = 0) (small : v < 2 ^ 16) :
    slotAt (buf.setU16 (off + 4) v) off = ⟨v, none⟩ := by
  have ino : direntIno (buf.setU16 (off + 4) v) off = 0 := by
    unfold direntIno
    rw [Buf.getU32SetU16Apart _ _ (.inl (Nat.le_refl _))]
    exact free
  unfold slotAt recLen
  rw [if_pos ino, Buf.getU16Set _ small]

theorem setU16Apart {b : Buf} {at_ v o : Nat} (apart : o < at_ ∨ at_ + 2 ≤ o) :
    b.setU16 at_ v o = b o := by
  unfold Buf.setU16
  rw [if_neg (by omega)]

theorem recLenLt (buf : Buf) (off : Nat) : recLen buf off < 2 ^ 16 := by
  unfold recLen Buf.getU16
  have := (buf (off + 4)).isLt
  have := (buf (off + 4 + 1)).isLt
  omega

def blanked (buf : Buf) (off : Nat) : Buf :=
  ((buf.setU32 off 0).setU16 (off + 4) (recLen buf off)).setU16 (off + 6) 0

theorem blankedSlot (buf : Buf) (off : Nat) : slotAt (blanked buf off) off = ⟨recLen buf off, none⟩ := by
  have ino : direntIno (blanked buf off) off = 0 := by
    unfold direntIno blanked
    rw [Buf.getU32SetU16Apart _ _ (.inl (by omega)), Buf.getU32SetU16Apart _ _ (.inl (by omega)),
      Buf.getU32Set _ (by decide)]
  have len : recLen (blanked buf off) off = recLen buf off := by
    have same : recLen (blanked buf off) off =
        ((buf.setU32 off 0).setU16 (off + 4) (recLen buf off)).getU16 (off + 4) :=
      Buf.getU16Congr fun o _ high => setU16Apart (.inl (by omega))
    rw [same, Buf.getU16Set _ (recLenLt buf off)]
  unfold slotAt
  rw [if_pos ino, len]

theorem blankedApart {o : Nat} (apart : o < off ∨ off + 8 ≤ o) : blanked buf off o = buf o := by
  unfold blanked
  rw [setU16Apart (by omega), setU16Apart (by omega), Buf.setU32, if_neg (by omega)]

theorem slotFree {s : DirSlot} (slot : slotAt buf off = s) :
    direntIno buf off = 0 ↔ s.held = none := by
  rw [← slot]
  unfold slotAt
  by_cases free : direntIno buf off = 0
  · exact iff_of_true free (if_pos free)
  · refine iff_of_false free ?_
    rw [if_neg free]
    exact Option.some_ne_none _

theorem deleteShape {n : Nat} {prev : Option Nat} (len : recLen buf off = n) :
    deleteEntry geo buf off prev =
      if off + n < geo.blockSize then
        if direntIno (blanked buf off) (off + n) = 0 ∧
            off + n + recLen (blanked buf off) (off + n) ≤ geo.blockSize then
          (blanked buf off).setU16 (off + 4) (n + recLen (blanked buf off) (off + n))
        else blanked buf off
      else match prev with
        | some p =>
          if direntIno (blanked buf off) p = 0 then
            (blanked buf off).setU16 (p + 4) (recLen (blanked buf off) p + n)
          else blanked buf off
        | none => blanked buf off := by
  subst len
  rfl

theorem deletePacked {off : Nat} {pre post : List DirSlot} {s : DirSlot} {prev : Option Nat}
    (small : geo.blockSize < 2 ^ 16) (packed : Packed buf 0 (pre ++ s :: post))
    (fills : Slot.total (pre ++ s :: post) = geo.blockSize) (here : off = Slot.total pre)
    (last : (pre = [] ∧ prev = none) ∨
      ∃ pre' q, pre = pre' ++ [q] ∧ prev = some (Slot.total pre')) :
    Packed (deleteEntry geo buf off prev) 0 (Slot.vacate pre s post) := by
  obtain ⟨slot, sized, after⟩ := (packedAppend.mp packed).2
  rw [Nat.zero_add, ← here] at slot after
  have len : recLen buf off = s.len := congrArg Slot.len slot
  have freed : Sized ⟨s.len, none⟩ := freeSized sized.header sized.aligned
  have blank : slotAt (blanked buf off) off = ⟨s.len, none⟩ := len ▸ blankedSlot buf off
  have header := sized.header
  have alone : Packed (blanked buf off) 0 (pre ++ [⟨s.len, none⟩] ++ post) := by
    refine Packed.replace [s] (by rwa [List.append_assoc]) ?_ rfl ?_
    · intro o apart
      rw [Slot.totalCons, Slot.totalNil, ← here] at apart
      exact blankedApart (by omega)
    · rw [← here]
      exact ⟨blank, freed, trivial⟩
  rw [deleteShape len]
  have grown {p n : Nat} {slot : DirSlot} (at_ : slotAt (blanked buf off) p = slot)
      (free : slot.held = none) (low : n < 2 ^ 16) :
      slotAt ((blanked buf off).setU16 (p + 4) n) p = ⟨n, none⟩ :=
    setLenSlot ((slotFree at_).mpr free) low
  cases post with
  | cons t rest =>
    obtain ⟨next, sizedT, -⟩ := (packedAppend.mp alone).2
    rw [Nat.zero_add, Slot.totalAppend, Slot.totalCons, Slot.totalNil, ← here, Nat.add_zero] at next
    have lenT : recLen (blanked buf off) (off + s.len) = t.len := congrArg Slot.len next
    have headerT := sizedT.header
    rw [Slot.totalAppend, Slot.totalCons, Slot.totalCons, ← here] at fills
    rw [if_pos (by omega), lenT]
    obtain ⟨n, held⟩ := t
    cases held with
    | none =>
      rw [if_pos ⟨(slotFree next).mpr rfl, by dsimp only at fills ⊢; omega⟩]
      show Packed _ 0 (pre ++ ⟨s.len + n, none⟩ :: rest)
      rw [List.append_cons]
      rw [List.append_assoc] at alone
      replace alone : Packed (blanked buf off) 0
        (pre ++ ([⟨s.len, none⟩, ⟨n, none⟩] ++ rest)) := alone
      rw [← List.append_assoc] at alone
      refine alone.replace _ ?_ ?_ ?_
      · intro o apart
        simp only [Slot.totalCons, Slot.totalNil, ← here] at apart
        exact setU16Apart (by omega)
      · simp only [Slot.totalCons, Slot.totalNil, Nat.add_zero]
      · rw [← here]
        dsimp only at fills headerT
        exact ⟨grown blank rfl (show s.len + n < 2 ^ 16 by omega), freeSized (by omega)
          (Nat.dvd_add sized.aligned sizedT.aligned), trivial⟩
    | some e =>
      rw [if_neg fun h => absurd ((slotFree next).mp h.1) (Option.some_ne_none e)]
      rw [List.append_assoc] at alone
      exact alone
  | nil =>
    rw [Slot.totalAppend, Slot.totalCons, Slot.totalNil, ← here] at fills
    rw [if_neg (by omega)]
    rw [List.append_nil] at alone
    rcases last with ⟨rfl, rfl⟩ | ⟨pre', q, rfl, rfl⟩
    · exact alone
    rw [List.append_assoc] at alone
    obtain ⟨before, sizedQ, -⟩ := (packedAppend.mp alone).2
    rw [Nat.zero_add] at before
    have lenQ : recLen (blanked buf off) (Slot.total pre') = q.len := congrArg Slot.len before
    rw [Slot.totalAppend, Slot.totalCons, Slot.totalNil] at here
    dsimp only
    rw [Slot.vacateLast, lenQ]
    obtain ⟨n, held⟩ := q
    cases held with
    | none =>
      rw [if_pos ((slotFree before).mpr rfl)]
      dsimp only
      rw [← List.append_nil (pre' ++ [_])]
      replace alone : Packed (blanked buf off) 0 (pre' ++ [⟨n, none⟩, ⟨s.len, none⟩]) := alone
      rw [← List.append_nil (pre' ++ _)] at alone
      refine alone.replace _ ?_ ?_ ?_
      · intro o apart
        simp only [Slot.totalCons, Slot.totalNil] at apart
        exact setU16Apart (by omega)
      · simp only [Slot.totalCons, Slot.totalNil, Nat.add_zero]
      · have headerQ := sizedQ.header
        dsimp only at headerQ here
        exact ⟨grown before rfl (show n + s.len < 2 ^ 16 by omega), freeSized (by omega)
          (Nat.dvd_add sizedQ.aligned sized.aligned), trivial⟩
    | some e =>
      rw [if_neg fun h => absurd ((slotFree before).mp h) (Option.some_ne_none e)]
      rw [← List.append_assoc] at alone
      exact alone

/-! ## The root of an index -/

theorem slotsFromStep {fuel : Nat} (fits : off + 8 ≤ geo.blockSize) :
    slotsFrom geo buf (fuel + 1) off =
      slotAt buf off :: slotsFrom geo buf fuel (off + recLen buf off) := by
  rw [slotsFrom, if_neg (by omega)]

theorem slotsFromEnd {fuel : Nat} (short : geo.blockSize < off + 8) :
    slotsFrom geo buf fuel off = [] := by
  cases fuel with
  | zero => rfl
  | succ fuel => rw [slotsFrom, if_pos short]

def dotSlot (name : List Byte) (ino : Nat) : Option (List Byte × Nat) :=
  if ino = 0 then none else some (name, ino)

theorem slotNamed (name : List Byte) (len : nameLen buf off = name.length)
    (same : direntName buf off name.length = name) :
    slotAt buf off = ⟨recLen buf off, dotSlot name (direntIno buf off)⟩ := by
  unfold slotAt dotSlot
  rw [len, same]

section root

variable (sound : geo.Sound)
include sound

theorem indexRootRow (root : indexRoot geo buf = true) :
    Slot.contents (rowOf geo buf) =
      Slot.contents [⟨12, dotSlot [dot] (direntIno buf 0)⟩,
        ⟨geo.blockSize - 12, dotSlot [dot, dot] (direntIno buf 12)⟩] := by
  have large : 1024 ≤ geo.blockSize := by
    rcases sound.blockSize with size | size | size <;> omega
  simp only [indexRoot, Bool.and_eq_true, beq_iff_eq] at root
  obtain ⟨⟨⟨⟨⟨⟨len, nlen⟩, name⟩, nlen'⟩, name'⟩, len'⟩, -⟩ := root
  have first : slotAt buf 0 = _ := slotNamed [dot] nlen name
  have second : slotAt buf 12 = _ := slotNamed [dot, dot] nlen' name'
  obtain ⟨fuel, enough⟩ : ∃ fuel, geo.blockSize = fuel + 1 + 1 := ⟨geo.blockSize - 2, by omega⟩
  have row : rowOf geo buf = [slotAt buf 0, slotAt buf 12] := by
    rw [show rowOf geo buf = slotsFrom geo buf (fuel + 1 + 1) 0 from
      congrArg (slotsFrom geo buf · 0) enough, slotsFromStep (by omega), len, Nat.zero_add,
      slotsFromStep (by omega), len', slotsFromEnd (by omega)]
  rw [row, first, second, len, len']

theorem plainRootRow {dirIno dotdotIno : Nat} (small : dirIno < 2 ^ 32)
    (small' : dotdotIno < 2 ^ 32) :
    BlockFormed geo (plainRoot geo dirIno dotdotIno) ∧
      rowOf geo (plainRoot geo dirIno dotdotIno) =
        [⟨12, dotSlot [dot] dirIno⟩, ⟨12, dotSlot [dot, dot] dotdotIno⟩,
          ⟨geo.blockSize - 24, none⟩] := by
  obtain ⟨large, even, short⟩ : 1024 ≤ geo.blockSize ∧ 4 ∣ geo.blockSize ∧
      geo.blockSize < 2 ^ 16 := by
    rcases sound.blockSize with size | size | size <;> rw [size] <;> decide
  have dotSized (name : List Byte) (short : name.length ≤ 4) (ino : Nat) :
      Sized ⟨12, dotSlot name ino⟩ := by
    refine ⟨show 8 ≤ 12 by decide, show 4 ∣ 12 by decide, fun e held => ?_⟩
    unfold dotSlot at held
    dsimp only at held ⊢
    split at held
    · cases held
    · cases held
      dsimp only
      omega
  have restSized : Sized ⟨geo.blockSize - 24, none⟩ :=
    freeSized (by omega) (Nat.dvd_sub even (by decide))
  have shape : plainRoot geo dirIno dotdotIno =
      ext2WriteDirent geo (ext2WriteDirent geo (ext2WriteDirent geo Buf.zero 0 dirIno [dot] ftDir 12)
        12 dotdotIno [dot, dot] ftDir 12) 24 0 [] ftUnknown (geo.blockSize - 24) := by
    have rest : u16 (geo.blockSize - 12 - 12) = geo.blockSize - 24 := by
      unfold u16
      omega
    have lens : ext2RecLen 1 = 12 ∧ ext2RecLen 2 = 12 := by decide
    unfold plainRoot
    rw [lens.1, lens.2]
    dsimp only
    rw [if_pos (by omega), rest]
  have packed : Packed (plainRoot geo dirIno dotdotIno) 0
      [⟨12, dotSlot [dot] dirIno⟩, ⟨12, dotSlot [dot, dot] dotdotIno⟩,
        ⟨geo.blockSize - 24, none⟩] := by
    have first := writeDirentSlot geo Buf.zero 0 [dot] ftDir small (by decide)
      (show 12 < 2 ^ 16 by decide)
    rw [shape]
    generalize ext2WriteDirent geo Buf.zero 0 dirIno [dot] ftDir 12 = one at first ⊢
    have second := writeDirentSlot geo one 12 [dot, dot] ftDir small' (by decide)
      (show 12 < 2 ^ 16 by decide)
    have apart {o : Nat} (low : o < 12) :
        ext2WriteDirent geo one 12 dotdotIno [dot, dot] ftDir 12 o = one o :=
      writeDirentApart (.inl low)
    generalize ext2WriteDirent geo one 12 dotdotIno [dot, dot] ftDir 12 = two at second apart ⊢
    refine ⟨?_, dotSized _ (by decide) _, ?_, dotSized _ (by decide) _, ?_, restSized, trivial⟩
    · refine slotCongr first (dotSized _ (by decide) _) fun o _ high => ?_
      have high : o < 0 + 12 := high
      exact (writeDirentApart (.inl (by omega))).trans (apart (by omega))
    · refine slotCongr second (dotSized _ (by decide) _) fun o _ high => ?_
      have high : o < 12 + 12 := high
      exact writeDirentApart (.inl (by omega))
    · exact writeDirentSlot geo two 24 [] ftUnknown (by decide) (by decide) (by omega)
  have total : Slot.total [⟨12, dotSlot [dot] dirIno⟩, ⟨12, dotSlot [dot, dot] dotdotIno⟩,
      ⟨geo.blockSize - 24, none⟩] = geo.blockSize := by
    simp only [Slot.totalCons, Slot.totalNil]
    omega
  exact ⟨blockFormed (by omega) packed total, rowOfPacked (by omega) packed total⟩

end root

end Scepter.Ext2
