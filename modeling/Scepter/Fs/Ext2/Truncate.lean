import Mathlib.Tactic.Ring
import Scepter.Fs.Ext2.BlockTree

/-! Freeing the blocks of a file (ext2_free_range and ext2_truncate_blocks of
ext2_inode.c, ext2_truncate_file of ext2_file.c). The level of the source is
`n + 1` here: `n` counts the levels of index blocks down to the data. -/
namespace Scepter.Ext2

open Block Prog

/- The loop over the entries of an index block. `child` frees a child's range. -/
def freeEntries (child : Nat → Nat → Nat → Prog FsInfo Nat) (perChild start stop : Nat) :
    List Nat → Buf → Bool → Bool → Prog FsInfo (Buf × Bool × Bool)
  | [], buf, writeback, anyLeft => pure (buf, writeback, anyLeft)
  | i :: rest, buf, writeback, anyLeft =>
    let p := buf.getU32 (4 * i)
    let childStart := i * perChild
    let childEnd := childStart + perChild
    if p ≠ 0 ∧ start < childEnd ∧ childStart < stop then do
      let cs := if childStart < start then start - childStart else 0
      let ce := if childEnd < stop then perChild else stop - childStart
      let p' ← child p cs ce
      freeEntries child perChild start stop rest (buf.setU32 (4 * i) p') true
        (anyLeft || p' != 0)
    else freeEntries child perChild start stop rest buf writeback (anyLeft || p != 0)

def ext2FreeRange (geo : Geometry) : Nat → Nat → Nat → Nat → Prog FsInfo Nat
  | 0, blk, start, stop =>
    if blk = 0 ∨ stop ≤ start then pure blk
    else if start = 0 then do
      ext2FreeBlock geo blk
      pure 0
    else pure blk
  | n + 1, blk, start, stop =>
    if blk = 0 ∨ stop ≤ start then pure blk
    else do
      let ptrs := geo.blockSize / 4
      let buf ← ext2ReadBlock geo blk Buf.zero
      let (buf, writeback, anyLeft) ← freeEntries (ext2FreeRange geo n) (ptrs ^ n) start stop
        (List.range ptrs) buf false false
      if writeback then ext2WriteBlock geo blk buf else pure ()
      if anyLeft then pure blk
      else do
        ext2FreeBlock geo blk
        pure 0

/- One of i_block[12..14], `n` levels above the data, whose subtree starts at file block `base`. -/
def truncateSlot (geo : Geometry) (k n base newBlocks oldBlocks : Nat) :
    Prog (FsInfo × Inode) Unit := do
  let s ← get
  if s.2.iBlock k ≠ 0 ∧ base < oldBlocks then
    let slot ← onFst (ext2FreeRange geo n (s.2.iBlock k) (newBlocks - base) (oldBlocks - base))
    modify fun s => (s.1, s.2.setIBlock k slot)
  else pure ()

def truncateDirect (geo : Geometry) (i : Nat) : Prog (FsInfo × Inode) Unit := do
  let s ← get
  let slot ← onFst (ext2FreeRange geo 0 (s.2.iBlock i) 0 1)
  modify fun s => (s.1, s.2.setIBlock i slot)

def ext2TruncateBlocks (geo : Geometry) (newBlocks oldBlocks : Nat) :
    Prog (FsInfo × Inode) Unit :=
  let ptrs := geo.blockSize / 4
  if oldBlocks ≤ newBlocks then pure ()
  else do
    (List.range' newBlocks (min oldBlocks 12 - newBlocks)).forM (truncateDirect geo)
    truncateSlot geo 12 1 12 newBlocks oldBlocks
    truncateSlot geo 13 2 (12 + ptrs) newBlocks oldBlocks
    truncateSlot geo 14 3 (12 + ptrs + ptrs * ptrs) newBlocks oldBlocks

/- ext2_read_block never returns 0 (a transfer returns its byte count), so the
branches of ext2_count_blocks for a result of 0 are never taken: the index
blocks of i_block are read, their entries are not counted. -/
def countSlot (geo : Geometry) (inode : Inode) (k : Nat) : Prog FsInfo Nat :=
  if inode.iBlock k = 0 then pure 0
  else do
    let _ ← attempt (ext2ReadBlock geo (inode.iBlock k) Buf.zero)
    pure 1

def ext2CountBlocks (geo : Geometry) (inode : Inode) : Prog FsInfo Nat := do
  let direct := ((List.range 12).filter fun i => inode.iBlock i != 0).length
  let single ← countSlot geo inode 12
  let double ← countSlot geo inode 13
  let triple ← countSlot geo inode 14
  pure ((direct + single + double + triple) * (geo.blockSize / 512))

def ext2RefreshBlocks (geo : Geometry) : Prog (FsInfo × Inode) Unit := do
  let s ← get
  let count ← onFst (ext2CountBlocks geo s.2)
  modify fun s => (s.1, s.2.setU32 28 count)

def blocksOf (geo : Geometry) (size : Nat) : Nat :=
  u32 (size + (geo.blockSize - 1)) / geo.blockSize

def ext2TruncateFile (geo : Geometry) (newSize now : Nat) : Prog (FsInfo × Inode) Unit := do
  let s ← get
  let oldBlocks := blocksOf geo s.2.iSize
  let newBlocks := blocksOf geo newSize
  if newBlocks < oldBlocks then ext2TruncateBlocks geo newBlocks oldBlocks else pure ()
  modify fun s => (s.1, ((s.2.setU32 4 newSize).setU32 16 now).setU32 12 now)
  ext2RefreshBlocks geo

def Edge (geo : Geometry) (b : Nat) : Prop := geo.sFirstDataBlock ≠ 0 ∧ geo.blocksPerGroup ∣ b

/-- Blocks satisfying `R` may have become free, the other marks are as they were;
the counts stay exact, and besides the filesystem's own tables only blocks
satisfying `A` were written. -/
def Freeing (geo : Geometry) (R A : Nat → Prop) (s t : FsInfo) : Prop :=
  Coherent geo s → Coherent geo t ∧ (Counted geo s → Counted geo t) ∧
    WritesBlocks geo (fun b => geo.System b ∨ A b) s.dev t.dev ∧
    ∀ b, geo.sFirstDataBlock ≤ b → b < geo.sBlocksCount →
      allocated geo t b = allocated geo s b ∨ (R b ∧ allocated geo t b = false)

variable {geo : Geometry} {R A : Nat → Prop}

instance (R A : Nat → Prop) : IsPreorder FsInfo (Freeing geo R A) where
  refl s coherent := ⟨coherent, id, writesNothing _ _, fun _ _ _ => .inl rfl⟩
  trans _ _ _ one two coherent := by
    obtain ⟨coherent', counted, writes, marks⟩ := one coherent
    obtain ⟨coherent'', counted', writes', marks'⟩ := two coherent'
    refine ⟨coherent'', fun h => counted' (counted h), writes.trans writes', ?_⟩
    intro b low inside
    rcases marks' b low inside with same | freed
    · rw [same]
      exact marks b low inside
    · exact .inr freed

theorem Freeing.mono {R' A' : Nat → Prop} {s t : FsInfo} (freeing : Freeing geo R A s t)
    (subR : ∀ b, R b → R' b) (subA : ∀ b, A b → A' b) : Freeing geo R' A' s t := by
  intro coherent
  obtain ⟨coherent', counted, writes, marks⟩ := freeing coherent
  refine ⟨coherent', counted, writes.mono fun _ written => written.imp_right (subA _), ?_⟩
  exact fun b low inside => (marks b low inside).imp_right fun freed => ⟨subR b freed.1, freed.2⟩

theorem Freeing.staysFree {s t : FsInfo} (freeing : Freeing geo R A s t)
    (coherent : Coherent geo s) {b : Nat} (low : geo.sFirstDataBlock ≤ b)
    (inside : b < geo.sBlocksCount) (free : allocated geo s b = false) :
    allocated geo t b = false := by
  rcases (freeing coherent).2.2.2 b low inside with same | freed
  · exact same.trans free
  · exact freed.2

section freeing

variable (sound : geo.Sound)
include sound

theorem Keeping.freeing {s t : FsInfo} (keeps : Keeping geo (fun b => geo.System b ∨ A b) s t) :
    Freeing geo R A s t := by
  intro coherent
  obtain ⟨coherent', same, writes⟩ := keeps coherent
  exact ⟨coherent', same.counted sound, writes, fun b low inside =>
    .inl (same.allocated sound low inside)⟩

theorem freeBlockFreeing {block : Nat}
    (freed : geo.sFirstDataBlock ≤ block → block < geo.sBlocksCount → ¬ Edge geo block → R block)
    (s : FsInfo) : Leaves (Freeing geo R A) (ext2FreeBlock geo block) s := by
  intro coherent
  obtain ⟨coherent', writes, ⟨_, same⟩ | ⟨_, inside, low, notEdge, marks⟩⟩ :=
    freeBlockCases sound coherent (r := _) (t := (ext2FreeBlock geo block s).2) rfl
  · exact ⟨coherent', same.counted sound, writes.mono fun _ => .inl, fun b low inside =>
      .inl (same.allocated sound low inside)⟩
  · refine ⟨coherent', marks.counted sound (placeReal sound low inside).2,
      writes.mono fun _ => .inl, fun b lowB insideB => ?_⟩
    rw [marks.allocated sound low lowB insideB]
    split
    · next here =>
      refine .inr ⟨here ▸ freed low inside fun edge => ?_, rfl⟩
      exact notEdge.elim edge.1 fun apart => apart edge.2
    · exact .inl rfl

end freeing

def firstBlock (geo : Geometry) (slot : Nat) (path : List Nat) : Nat :=
  slotBase geo slot + pathIndex geo path * (geo.blockSize / 4) ^ (depth slot - path.length)

structure Placed (geo : Geometry) (b : Nat) : Prop where
  low : geo.sFirstDataBlock ≤ b
  inside : b < geo.sBlocksCount
  notMetadata : ¬ geo.Metadata b

structure Proper (geo : Geometry) (T : PtrTree) : Prop where
  distinct : T.Distinct (Pos geo)
  placed : ∀ slot up b, T.Under (Pos geo) slot up b → Placed geo b

structure Intact (geo : Geometry) (T : PtrTree) (slot : Nat) (up : List Nat) (s : FsInfo) :
    Prop where
  used : ∀ b, T.Under (Pos geo) slot up b → allocated geo s b = true
  entries : ∀ path i, up <:+ path → Pos geo slot (i :: path) → T.nodeAt slot path ≠ 0 →
    (blockAt geo s.dev (T.nodeAt slot path)).getU32 (4 * i) = T.entry (T.nodeAt slot path) i

def Reached (geo : Geometry) (T : PtrTree) (old slot : Nat) (up : List Nat) (b : Nat) : Prop :=
  ∃ path, up <:+ path ∧ Pos geo slot path ∧ b ≠ 0 ∧ T.nodeAt slot path = b ∧
    firstBlock geo slot path < old ∧ ¬ Edge geo b

def Covered (geo : Geometry) (T : PtrTree) (old slot : Nat) (up : List Nat) : Prop :=
  ∀ path, up <:+ path → Pos geo slot path → T.nodeAt slot path ≠ 0 →
    firstBlock geo slot path < old

structure Frees (geo : Geometry) (T : PtrTree) (old slot : Nat) (up : List Nat) (s : FsInfo)
    (left : Option Nat) (t : FsInfo) : Prop where
  leaves : Freeing geo (Reached geo T old slot up) (T.Under (Pos geo) slot up) s t
  clears : ∀ v, left = some v → Covered geo T old slot up →
    v = 0 ∧ ∀ b, T.Under (Pos geo) slot up b → allocated geo t b = false
  sure : s.dev.Reliable → Covered geo T old slot up →
    (∀ b, T.Under (Pos geo) slot up b → ¬ Edge geo b) → left ≠ none

variable {T : PtrTree}

theorem Reached.under {old slot b : Nat} {up : List Nat} (reached : Reached geo T old slot up b) :
    T.Under (Pos geo) slot up b := by
  obtain ⟨path, below, pos, nonzero, node, _⟩ := reached
  exact ⟨path, below, pos, nonzero, node⟩

theorem Reached.above {old slot b : Nat} {up path : List Nat}
    (reached : Reached geo T old slot path b) (onWay : up <:+ path) :
    Reached geo T old slot up b := by
  obtain ⟨path', below, rest⟩ := reached
  exact ⟨path', onWay.trans below, rest⟩

theorem Covered.below {old slot : Nat} {up path : List Nat} (covered : Covered geo T old slot up)
    (onWay : up <:+ path) : Covered geo T old slot path :=
  fun path' below => covered path' (onWay.trans below)

theorem Intact.below {slot : Nat} {up path : List Nat} {s : FsInfo}
    (intact : Intact geo T slot up s) (onWay : up <:+ path) : Intact geo T slot path s :=
  ⟨fun b under => intact.used b (under.above onWay),
    fun path' i below => intact.entries path' i (onWay.trans below)⟩

theorem firstBlockChild {slot n i : Nat} {up : List Nat} (level : up.length + (n + 1) = depth slot) :
    firstBlock geo slot (i :: up) =
      firstBlock geo slot up + i * (geo.blockSize / 4) ^ n := by
  unfold firstBlock
  rw [← level, show up.length + (n + 1) - up.length = n + 1 by omega,
    show up.length + (n + 1) - (i :: up).length = n by rw [List.length_cons]; omega]
  simp only [pathIndex]
  ring

section ranges

variable (sound : geo.Sound)
include sound

theorem Intact.kept (proper : Proper geo T) {slot : Nat} {up : List Nat} {s t : FsInfo}
    (intact : Intact geo T slot up s) (coherent : Coherent geo s) (freeing : Freeing geo R A s t)
    (apart : ∀ b, T.Under (Pos geo) slot up b → ¬ R b ∧ ¬ A b) : Intact geo T slot up t := by
  obtain ⟨_, _, writes, marks⟩ := freeing coherent
  constructor
  · intro b under
    have placed := proper.placed slot up b under
    rcases marks b placed.low placed.inside with same | ⟨freed, _⟩
    · rw [same]
      exact intact.used b under
    · exact absurd freed (apart b under).1
  · intro path i below pos present
    have under : T.Under (Pos geo) slot up (T.nodeAt slot path) :=
      ⟨path, below, posUp _ _ _ pos, present, rfl⟩
    rw [blockKept sound writes, intact.entries path i below pos present]
    rintro (system | written)
    · exact (proper.placed slot up _ under).notMetadata (.inl system)
    · exact (apart _ under).2 written

omit sound in
theorem freesNothing {old slot : Nat} {up : List Nat} (s : FsInfo)
    (none_ : Covered geo T old slot up → T.nodeAt slot up = 0) :
    Frees geo T old slot up s (some (T.nodeAt slot up)) s where
  leaves := refl_of (Freeing geo _ _) s
  clears v same covered := by
    cases same
    exact ⟨none_ covered, fun b under => absurd under (PtrTree.noneUnder (none_ covered))⟩
  sure _ _ _ := Option.some_ne_none _

omit sound in
theorem freesFailed {old slot : Nat} {up : List Nat} {s t : FsInfo}
    (leaves : Freeing geo (Reached geo T old slot up) (T.Under (Pos geo) slot up) s t)
    (fails : s.dev.Reliable → Covered geo T old slot up →
      (∀ b, T.Under (Pos geo) slot up b → ¬ Edge geo b) → False) :
    Frees geo T old slot up s none t where
  leaves := leaves
  clears v same := by cases same
  sure reliable covered notEdge := (fails reliable covered notEdge).elim

theorem freeBlockFrees (proper : Proper geo T) {old slot : Nat} {up : List Nat} {s t : FsInfo}
    {r : Option Unit} (coherent : Coherent geo s) (pos : Pos geo slot up)
    (present : T.nodeAt slot up ≠ 0) (reached : firstBlock geo slot up < old)
    (ran : ext2FreeBlock geo (T.nodeAt slot up) s = (r, t)) :
    Freeing geo (Reached geo T old slot up) (T.Under (Pos geo) slot up) s t ∧
      (r = some () → allocated geo t (T.nodeAt slot up) = false) ∧
      (s.dev.Reliable → allocated geo s (T.nodeAt slot up) = true →
        ¬ Edge geo (T.nodeAt slot up) → r = some ()) := by
  have placed := proper.placed slot up _ ⟨up, List.suffix_refl _, pos, present, rfl⟩
  refine ⟨leavesOf (freeBlockFreeing sound (fun _ _ notEdge => ?_) s) ran, ?_, ?_⟩
  · exact ⟨up, List.suffix_refl _, pos, present, rfl, reached, notEdge⟩
  · rintro rfl
    obtain ⟨_, _, ⟨⟨⟩, _⟩ | ⟨_, _, low, _, marks⟩⟩ := freeBlockCases sound coherent ran
    rw [marks.allocated sound low placed.low placed.inside, if_pos rfl]
  · intro reliable used notEdge
    have done := freeBlockSure sound coherent reliable placed.inside
      (by unfold Edge at notEdge; tauto) used
    rw [ran] at done
    exact done

theorem freeEntriesFrees (proper : Proper geo T) {old slot n stop : Nat} {up : List Nat}
    (level : up.length + (n + 1) = depth slot)
    (cut : ∀ o < (geo.blockSize / 4) ^ (n + 1), o < stop ↔ firstBlock geo slot up + o < old)
    (child : ∀ {i stop : Nat} {s t : FsInfo} {r : Option Nat}, Pos geo slot (i :: up) →
      (∀ o < (geo.blockSize / 4) ^ n, o < stop ↔ firstBlock geo slot (i :: up) + o < old) →
      Coherent geo s → Intact geo T slot (i :: up) s →
      ext2FreeRange geo n (T.nodeAt slot (i :: up)) 0 stop s = (r, t) →
      Frees geo T old slot (i :: up) s r t)
    (rest : List Nat) (once : rest.Nodup) (posAll : ∀ i ∈ rest, Pos geo slot (i :: up))
    {buf : Buf} {writeback anyLeft : Bool} {s t : FsInfo} {r}
    (coherent : Coherent geo s) (intact : ∀ i ∈ rest, Intact geo T slot (i :: up) s)
    (entries : ∀ i ∈ rest, buf.getU32 (4 * i) = T.nodeAt slot (i :: up))
    (ran : freeEntries (ext2FreeRange geo n) ((geo.blockSize / 4) ^ n) 0 stop rest buf
      writeback anyLeft s = (r, t)) :
    Freeing geo (fun b => ∃ i ∈ rest, Reached geo T old slot (i :: up) b)
      (fun b => ∃ i ∈ rest, T.Under (Pos geo) slot (i :: up) b) s t ∧
    (∀ buf' writeback' left, r = some (buf', writeback', left) → Covered geo T old slot up →
      left = anyLeft ∧
        ∀ i ∈ rest, ∀ b, T.Under (Pos geo) slot (i :: up) b → allocated geo t b = false) ∧
    (s.dev.Reliable → Covered geo T old slot up →
      (∀ b, T.Under (Pos geo) slot up b → ¬ Edge geo b) → r ≠ none) := by
  have ptrs := (ptrsPos sound).1
  induction rest generalizing buf writeback anyLeft s with
  | nil =>
    cases ran
    refine ⟨refl_of (Freeing geo _ _) _, fun _ _ _ same _ => ?_, fun _ _ _ => nofun⟩
    cases same
    exact ⟨rfl, fun _ h => nomatch h⟩
  | cons i rest ih =>
    obtain ⟨apart, once⟩ := List.nodup_cons.mp once
    have pos := posAll i (by simp)
    have small : i < geo.blockSize / 4 := pos.2.2 i (by simp)
    have width : 0 < (geo.blockSize / 4) ^ n := Nat.pow_pos ptrs
    have inside : i * (geo.blockSize / 4) ^ n + (geo.blockSize / 4) ^ n ≤
        (geo.blockSize / 4) ^ (n + 1) := by
      rw [Nat.pow_succ, Nat.mul_comm _ (geo.blockSize / 4), ← Nat.succ_mul]
      exact Nat.mul_le_mul_right _ small
    have base : firstBlock geo slot (i :: up) = _ := firstBlockChild level
    have cutHere (o) := cut (i * (geo.blockSize / 4) ^ n + o)
    unfold freeEntries at ran
    dsimp only at ran
    rw [entries i (by simp)] at ran
    generalize (geo.blockSize / 4) ^ n = perChild at *
    split at ran
    · next visited =>
      obtain ⟨_, _, starts⟩ := visited
      rw [if_neg (Nat.not_lt_zero _)] at ran
      have cutChild : ∀ o < perChild,
          o < (if i * perChild + perChild < stop then perChild else stop - i * perChild) ↔
            firstBlock geo slot (i :: up) + o < old := by
        intro o below
        rw [base, Nat.add_assoc, ← cutHere o (by omega)]
        split <;> omega
      generalize (if _ < stop then perChild else _) = ce at ran cutChild
      rcases freed : ext2FreeRange geo n (T.nodeAt slot (i :: up)) 0 ce s with ⟨_ | p, m⟩
      · rw [bindFails freed] at ran
        cases ran
        have frees := child pos cutChild coherent (intact i (by simp)) freed
        refine ⟨frees.leaves.mono (fun b h => ⟨i, by simp, h⟩) (fun b h => ⟨i, by simp, h⟩),
          nofun, fun reliable covered notEdge => ?_⟩
        exact absurd rfl (frees.sure reliable (covered.below (List.suffix_cons _ _))
          fun b under => notEdge b (under.above (List.suffix_cons _ _)))
      rw [bindOf freed] at ran
      have frees := child pos cutChild coherent (intact i (by simp)) freed
      obtain ⟨coherent', _, writes, _⟩ := frees.leaves coherent
      have differ {j} (member : j ∈ rest) : j ≠ i := fun same => apart (same ▸ member)
      have intact' : ∀ j ∈ rest, Intact geo T slot (j :: up) m := by
        intro j member
        refine (intact j (by simp [member])).kept sound proper coherent frees.leaves ?_
        intro b under
        exact ⟨fun reached => differ member (proper.distinct.siblings under reached.under),
          fun here => differ member (proper.distinct.siblings under here)⟩
      have entries' : ∀ j ∈ rest,
          (buf.setU32 (4 * i) p).getU32 (4 * j) = T.nodeAt slot (j :: up) := by
        intro j member
        have := differ member
        rw [Buf.getU32SetApart _ _ (by omega), entries j (by simp [member])]
      obtain ⟨leaves, clears, sure⟩ := ih once (fun j member => posAll j (by simp [member]))
        coherent' intact' entries' ran
      refine ⟨trans_of (Freeing geo _ _)
        (frees.leaves.mono (fun b h => ⟨i, by simp, h⟩) fun b h => ⟨i, by simp, h⟩)
        (leaves.mono (fun b ⟨j, member, h⟩ => ⟨j, by simp [member], h⟩)
          fun b ⟨j, member, h⟩ => ⟨j, by simp [member], h⟩), ?_, ?_⟩
      · intro buf' writeback' left same covered
        obtain ⟨rfl, clear⟩ := frees.clears p rfl (covered.below (List.suffix_cons _ _))
        obtain ⟨kept, clear'⟩ := clears buf' writeback' left same covered
        refine ⟨by simpa using kept, fun j member b under => ?_⟩
        rcases List.mem_cons.mp member with rfl | member
        · have placed := proper.placed slot _ b under
          exact leaves.staysFree coherent' placed.low placed.inside (clear b under)
        · exact clear' j member b under
      · exact fun reliable => sure (writes.reliable reliable)
    · next skipped =>
      have absent (covered : Covered geo T old slot up) : T.nodeAt slot (i :: up) = 0 := by
        by_contra present'
        have first := covered (i :: up) (List.suffix_cons _ _) pos present'
        rw [base] at first
        have starts := (cutHere 0 (by omega)).mpr (by omega)
        exact skipped ⟨present', by omega, by omega⟩
      obtain ⟨leaves, clears, sure⟩ := ih once (fun j member => posAll j (by simp [member]))
        coherent (fun j member => intact j (by simp [member]))
        (fun j member => entries j (by simp [member])) ran
      refine ⟨leaves.mono (fun b ⟨j, member, h⟩ => ⟨j, by simp [member], h⟩)
        fun b ⟨j, member, h⟩ => ⟨j, by simp [member], h⟩, ?_, sure⟩
      intro buf' writeback' left same covered
      obtain ⟨kept, clear⟩ := clears buf' writeback' left same covered
      refine ⟨by simpa [absent covered] using kept, fun j member b under => ?_⟩
      rcases List.mem_cons.mp member with rfl | member
      · exact absurd under (PtrTree.noneUnder (absent covered))
      · exact clear j member b under

omit sound in
theorem underCases {slot b : Nat} {up : List Nat} (under : T.Under (Pos geo) slot up b) :
    b = T.nodeAt slot up ∨ up.length < depth slot ∧
      ∃ i < geo.blockSize / 4, T.Under (Pos geo) slot (i :: up) b := by
  obtain ⟨path, ⟨down, rfl⟩, pos, nonzero, rfl⟩ := under
  rcases List.eq_nil_or_concat down with rfl | ⟨rest, i, rfl⟩
  · exact .inl rfl
  · have path : rest.concat i ++ up = rest ++ i :: up := by simp
    rw [path] at pos nonzero ⊢
    refine .inr ⟨?_, i, pos.2.2 i (by simp), rest ++ i :: up, ⟨rest, rfl⟩, pos, nonzero, rfl⟩
    have := pos.2.1
    simp only [List.length_append, List.length_cons] at this
    omega

theorem finishFrees (proper : Proper geo T) {old slot : Nat} {up : List Nat} (buf : Buf)
    (writeback anyLeft : Bool) {s t : FsInfo} {r : Option Nat} (coherent : Coherent geo s)
    (pos : Pos geo slot up) (present : T.nodeAt slot up ≠ 0)
    (reached : firstBlock geo slot up < old)
    (ran : ((if writeback then ext2WriteBlock geo (T.nodeAt slot up) buf else pure ()) >>=
      fun _ => if anyLeft then pure (T.nodeAt slot up)
        else ext2FreeBlock geo (T.nodeAt slot up) >>= fun _ => pure 0) s = (r, t)) :
    Freeing geo (Reached geo T old slot up) (T.Under (Pos geo) slot up) s t ∧
      (∀ v, r = some v → anyLeft = false → v = 0 ∧ allocated geo t (T.nodeAt slot up) = false) ∧
      (s.dev.Reliable → anyLeft = false → allocated geo s (T.nodeAt slot up) = true →
        ¬ Edge geo (T.nodeAt slot up) → r ≠ none) := by
  have here : T.Under (Pos geo) slot up (T.nodeAt slot up) :=
    ⟨up, List.suffix_refl _, pos, present, rfl⟩
  have placed := proper.placed slot up _ here
  have first : Leaves (Keeping geo (· = T.nodeAt slot up))
      (if writeback then ext2WriteBlock geo (T.nodeAt slot up) buf else pure ()) s := by
    split
    · refine writeKeeping sound fun kind group real same => placed.notMetadata ?_
      exact .inl (.inl ⟨group, kind, sound.realInside real, real, same.symm⟩)
    · exact leavesPure () s
  have wrote : s.dev.Reliable →
      ((if writeback then ext2WriteBlock geo (T.nodeAt slot up) buf else pure ()) s).1 ≠ none := by
    intro reliable
    split
    · have ready : Ready geo s :=
        ⟨reliable, fun group resident => (coherent.resident group resident).2⟩
      obtain ⟨_, _, done, _⟩ := sureRun (writeSure sound ready placed.inside buf)
      rw [done]
      nofun
    · nofun
  rcases step : (if writeback then ext2WriteBlock geo (T.nodeAt slot up) buf else pure ()) s with
    ⟨o, m⟩
  rw [step] at wrote
  obtain ⟨coherent', same, writes⟩ := leavesOf first step coherent
  have leaves : Freeing geo (Reached geo T old slot up) (T.Under (Pos geo) slot up) s m := by
    refine Keeping.freeing sound ((leavesOf first step).mono fun b written => .inr ?_)
    rw [written]
    exact here
  cases o with
  | none =>
    rw [bindFails step] at ran
    cases ran
    exact ⟨leaves, nofun, fun reliable => absurd rfl (wrote reliable)⟩
  | some _ =>
    rw [bindOf step] at ran
    split at ran
    · next some_ =>
      cases ran
      refine ⟨leaves, fun _ _ none_ => ?_, fun _ none_ => ?_⟩
      · rw [some_] at none_
        cases none_
      · rw [some_] at none_
        cases none_
    · rcases freed : ext2FreeBlock geo (T.nodeAt slot up) m with ⟨o, n⟩
      obtain ⟨leaves', free, sure⟩ :=
        freeBlockFrees sound proper coherent' pos present reached freed
      cases o with
      | none =>
        rw [bindFails freed] at ran
        cases ran
        refine ⟨trans_of (Freeing geo _ _) leaves leaves', nofun,
          fun reliable _ used notEdge => ?_⟩
        have used' := (same.allocated sound placed.low placed.inside).trans used
        have done := sure (writes.reliable reliable) used' notEdge
        cases done
      | some _ =>
        rw [bindOf freed] at ran
        cases ran
        refine ⟨trans_of (Freeing geo _ _) leaves leaves', ?_, fun _ _ _ _ => nofun⟩
        rintro _ ⟨⟩ _
        exact ⟨rfl, free rfl⟩

omit sound in
theorem notBelowItself (distinct : T.Distinct (Pos geo)) {slot i : Nat} {up : List Nat}
    (pos : Pos geo slot up) (present : T.nodeAt slot up ≠ 0) :
    ¬ T.Under (Pos geo) slot (i :: up) (T.nodeAt slot up) := by
  rintro ⟨path, below, pos', _, same⟩
  obtain ⟨-, rfl⟩ := distinct _ _ _ _ pos pos' present same.symm
  have longer := below.length_le
  rw [List.length_cons] at longer
  omega

theorem freeRangeFrees (proper : Proper geo T) {old slot : Nat} (n : Nat) {stop : Nat}
    {up : List Nat} {s t : FsInfo} {r : Option Nat} (pos : Pos geo slot up)
    (level : up.length + n = depth slot)
    (cut : ∀ o < (geo.blockSize / 4) ^ n, o < stop ↔ firstBlock geo slot up + o < old)
    (coherent : Coherent geo s) (intact : Intact geo T slot up s)
    (ran : ext2FreeRange geo n (T.nodeAt slot up) 0 stop s = (r, t)) :
    Frees geo T old slot up s r t := by
  have ptrs := (ptrsPos sound).1
  induction n generalizing stop up s t r with
  | zero =>
    have starts := cut 0 (Nat.pow_pos ptrs)
    unfold ext2FreeRange at ran
    split at ran
    · next skip =>
      cases ran
      refine freesNothing s fun covered => skip.elim id fun empty => ?_
      by_contra present
      have := covered up (List.suffix_refl _) pos present
      omega
    · next go =>
      rw [not_or] at go
      rw [if_pos rfl] at ran
      rcases freed : ext2FreeBlock geo (T.nodeAt slot up) s with ⟨o, m⟩
      have reached : firstBlock geo slot up < old := by omega
      obtain ⟨leaves, free, sure⟩ :=
        freeBlockFrees sound proper coherent pos go.1 reached freed
      have only {b} (under : T.Under (Pos geo) slot up b) : b = T.nodeAt slot up := by
        rcases underCases under with same | ⟨deeper, _⟩
        · exact same
        · omega
      have here : T.Under (Pos geo) slot up (T.nodeAt slot up) :=
        ⟨up, List.suffix_refl _, pos, go.1, rfl⟩
      cases o with
      | none =>
        rw [bindFails freed] at ran
        cases ran
        refine freesFailed leaves fun reliable _ notEdge => ?_
        have done := sure reliable (intact.used _ here) (notEdge _ here)
        cases done
      | some _ =>
        rw [bindOf freed] at ran
        cases ran
        refine ⟨leaves, fun v same _ => ?_, fun _ _ _ => Option.some_ne_none _⟩
        cases same
        refine ⟨rfl, fun b under => ?_⟩
        rw [only under]
        exact free rfl
  | succ n ih =>
    have starts := cut 0 (Nat.pow_pos ptrs)
    unfold ext2FreeRange at ran
    dsimp only at ran
    split at ran
    · next skip =>
      cases ran
      refine freesNothing s fun covered => skip.elim id fun empty => ?_
      by_contra present
      have := covered up (List.suffix_refl _) pos present
      omega
    next go =>
    rw [not_or] at go
    have here : T.Under (Pos geo) slot up (T.nodeAt slot up) :=
      ⟨up, List.suffix_refl _, pos, go.1, rfl⟩
    have placed := proper.placed slot up _ here
    rcases readBlockCases sound (T.nodeAt slot up) Buf.zero coherent.unbroken with
      ⟨d, read, writes, outside⟩ | ⟨d, read, writes, _⟩
    · rw [bindFails read] at ran
      cases ran
      refine freesFailed (Keeping.freeing sound fun h => ?_) fun reliable _ _ => ?_
      · obtain ⟨coherent', same⟩ := writeApart sound h (writes fun _ => False) fun _ _ _ => id
        exact ⟨coherent', same, writes _⟩
      · exact absurd (outside reliable) (Nat.not_le.mpr placed.inside)
    rw [bindOf read] at ran
    have reads : Freeing geo (Reached geo T old slot up) (T.Under (Pos geo) slot up) s
        { s with dev := d } := Keeping.freeing sound fun h => by
      obtain ⟨coherent', same⟩ := writeApart sound h (writes fun _ => False) fun _ _ _ => id
      exact ⟨coherent', same, writes _⟩
    have coherent₁ := (reads coherent).1
    have intact₁ : Intact geo T slot up { s with dev := d } := by
      have blocks (b) : blockAt geo d b = blockAt geo s.dev b := sameBlocks sound (writes _) b
      obtain ⟨_, same⟩ := writeApart sound coherent (writes fun _ => False) fun _ _ _ => id
      refine ⟨fun b under => ?_, fun path i => ?_⟩
      · have placed := proper.placed slot up b under
        rw [same.allocated sound placed.low placed.inside]
        exact intact.used b under
      · rw [blocks]
        exact intact.entries path i
    have posAll : ∀ i ∈ List.range (geo.blockSize / 4), Pos geo slot (i :: up) := by
      intro i member
      refine ⟨pos.1, by rw [List.length_cons]; omega, fun j inPath => ?_⟩
      rcases List.mem_cons.mp inPath with rfl | above
      · exact List.mem_range.mp member
      · exact pos.2.2 j above
    have entries : ∀ i ∈ List.range (geo.blockSize / 4),
        (Buf.overlay geo.blockSize (blockAt geo s.dev (T.nodeAt slot up)) Buf.zero).getU32 (4 * i) =
          T.nodeAt slot (i :: up) := by
      intro i member
      rw [overEntry sound (List.mem_range.mp member), PtrTree.nodeAt, if_neg go.1]
      exact intact.entries up i (List.suffix_refl _) (posAll i member) go.1
    generalize { s with dev := d } = m at ran reads coherent₁ intact₁
    have writesM := (reads coherent).2.2.1
    rcases loop : freeEntries (ext2FreeRange geo n) ((geo.blockSize / 4) ^ n) 0 stop
      (List.range (geo.blockSize / 4))
      (Buf.overlay geo.blockSize (blockAt geo s.dev (T.nodeAt slot up)) Buf.zero) false false m with
      ⟨o, p⟩
    obtain ⟨leaves, clears, sure⟩ := freeEntriesFrees sound proper level cut
      (fun posHere cutHere => ih posHere (by rw [List.length_cons]; omega) cutHere)
      _ List.nodup_range posAll coherent₁
      (fun i _ => intact₁.below (List.suffix_cons _ _)) entries loop
    have upTo : Freeing geo (Reached geo T old slot up) (T.Under (Pos geo) slot up) s p := by
      refine trans_of (Freeing geo _ _) reads (leaves.mono ?_ ?_)
      · rintro b ⟨i, _, reached⟩
        exact reached.above (List.suffix_cons _ _)
      · rintro b ⟨i, _, under⟩
        exact under.above (List.suffix_cons _ _)
    obtain ⟨coherent₂, _, writes₂, _⟩ := upTo coherent
    cases o with
    | none =>
      rw [bindFails loop] at ran
      cases ran
      exact freesFailed upTo fun reliable covered notEdge =>
        sure (writesM.reliable reliable) covered notEdge rfl
    | some result =>
      obtain ⟨buf', writeback, anyLeft⟩ := result
      rw [bindOf loop] at ran
      have reached : firstBlock geo slot up < old := by omega
      obtain ⟨leaves', done, sure'⟩ := finishFrees sound proper buf' writeback anyLeft
        coherent₂ pos go.1 reached (r := r) (t := t) (by cases writeback <;> exact ran)
      refine ⟨trans_of (Freeing geo _ _) upTo leaves', fun v same covered => ?_,
        fun reliable covered notEdge => ?_⟩
      · obtain ⟨none_, clear⟩ := clears buf' writeback anyLeft rfl covered
        obtain ⟨zero, free⟩ := done v same none_
        refine ⟨zero, fun b under => ?_⟩
        rcases underCases under with rfl | ⟨_, i, small, below⟩
        · exact free
        · have placed := proper.placed slot up b under
          exact leaves'.staysFree coherent₂ placed.low placed.inside
            (clear i (List.mem_range.mpr small) b below)
      · obtain ⟨none_, _⟩ := clears buf' writeback anyLeft rfl covered
        refine sure' (writes₂.reliable reliable) none_ ?_ (notEdge _ here)
        rcases (leaves coherent₁).2.2.2 _ placed.low placed.inside with same | ⟨⟨i, _, below⟩, _⟩
        · rw [same]
          exact intact₁.used _ here
        · exact absurd below.under (notBelowItself proper.distinct pos go.1)

end ranges

structure Truncated (geo : Geometry) (T : PtrTree) (old : Nat) (D : Nat → Prop)
    (s : FsInfo × Inode) (ended : Option Unit) (t : FsInfo × Inode) : Prop where
  leaves : Freeing geo (fun b => ∃ slot, D slot ∧ Reached geo T old slot [] b)
    (fun b => ∃ slot, D slot ∧ T.Under (Pos geo) slot [] b) s.1 t.1
  clears : ended = some () → (∀ slot, D slot → Covered geo T old slot []) →
    ∀ slot, D slot → ∀ b, T.Under (Pos geo) slot [] b → allocated geo t.1 b = false
  sure : s.1.dev.Reliable → (∀ slot, D slot → Covered geo T old slot []) →
    (∀ slot, D slot → ∀ b, T.Under (Pos geo) slot [] b → ¬ Edge geo b) → ended = some ()
  others : ∀ slot, ¬ D slot → t.2.iBlock slot = s.2.iBlock slot

structure Remains (geo : Geometry) (T : PtrTree) (D : Nat → Prop) (s : FsInfo × Inode) :
    Prop where
  coherent : Coherent geo s.1
  root : ∀ slot, ¬ D slot → s.2.iBlock slot = T.root slot
  intact : ∀ slot, ¬ D slot → Intact geo T slot [] s.1

section slots

variable {old : Nat} {D D' : Nat → Prop} {s m t : FsInfo × Inode}

theorem Truncated.next (proper : Proper geo T) {ended : Option Unit} (coherent : Coherent geo s.1)
    (one : Truncated geo T old D s (some ()) m) (two : Truncated geo T old D' m ended t) :
    Truncated geo T old (fun slot => D slot ∨ D' slot) s ended t := by
  obtain ⟨coherent', _, writes, _⟩ := one.leaves coherent
  refine ⟨trans_of (Freeing geo _ _) (one.leaves.mono ?_ ?_) (two.leaves.mono ?_ ?_), ?_, ?_, ?_⟩
  · exact fun b ⟨slot, done, h⟩ => ⟨slot, .inl done, h⟩
  · exact fun b ⟨slot, done, h⟩ => ⟨slot, .inl done, h⟩
  · exact fun b ⟨slot, done, h⟩ => ⟨slot, .inr done, h⟩
  · exact fun b ⟨slot, done, h⟩ => ⟨slot, .inr done, h⟩
  · intro success covered slot done b under
    rcases done with done | done
    · have placed := proper.placed slot _ b under
      exact two.leaves.staysFree coherent' placed.low placed.inside
        (one.clears rfl (fun slot h => covered slot (.inl h)) slot done b under)
    · exact two.clears success (fun slot h => covered slot (.inr h)) slot done b under
  · intro reliable covered notEdge
    exact two.sure (writes.reliable reliable) (fun slot h => covered slot (.inr h))
      fun slot h => notEdge slot (.inr h)
  · intro slot outside
    rw [not_or] at outside
    rw [two.others slot outside.2, one.others slot outside.1]

theorem Truncated.stopped (one : Truncated geo T old D s none t) :
    Truncated geo T old (fun slot => D slot ∨ D' slot) s none t where
  leaves := one.leaves.mono (fun b ⟨slot, done, h⟩ => ⟨slot, .inl done, h⟩)
    fun b ⟨slot, done, h⟩ => ⟨slot, .inl done, h⟩
  clears := nofun
  sure reliable covered notEdge := by
    have ended := one.sure reliable (fun slot h => covered slot (.inl h))
      fun slot h => notEdge slot (.inl h)
    cases ended
  others slot outside := one.others slot fun h => outside (.inl h)

theorem Truncated.none_ (s : FsInfo × Inode) (empty : ∀ slot, ¬ D slot) :
    Truncated geo T old D s (some ()) s where
  leaves := refl_of (Freeing geo _ _) s.1
  clears _ _ slot done := absurd done (empty slot)
  sure _ _ _ := rfl
  others _ _ := rfl

variable (sound : geo.Sound)
include sound

theorem Remains.next (proper : Proper geo T) {ended : Option Unit}
    (remains : Remains geo T D s) (freed : Truncated geo T old D' s ended t) :
    Remains geo T (fun slot => D slot ∨ D' slot) t where
  coherent := (freed.leaves remains.coherent).1
  root slot outside := by
    rw [not_or] at outside
    rw [freed.others slot outside.2, remains.root slot outside.1]
  intact slot outside := by
    rw [not_or] at outside
    refine (remains.intact slot outside.1).kept sound proper remains.coherent freed.leaves ?_
    intro b under
    constructor
    · rintro ⟨slot', done, reached⟩
      have same := (proper.distinct.meets under reached.under).1
      exact outside.2 (same ▸ done)
    · rintro ⟨slot', done, here⟩
      have same := (proper.distinct.meets under here).1
      exact outside.2 (same ▸ done)

theorem rangeTruncated (proper : Proper geo T) {slot stop : Nat} (low : slot < 15)
    (cut : ∀ o < (geo.blockSize / 4) ^ depth slot, o < stop ↔ slotBase geo slot + o < old)
    {fs : FsInfo} {inode : Inode} (remains : Remains geo T D (fs, inode)) (todo : ¬ D slot)
    {ended : Option Unit}
    (ran : (onFst (ext2FreeRange geo (depth slot) (inode.iBlock slot) 0 stop) >>= fun v =>
      modify fun s => (s.1, s.2.setIBlock slot v)) (fs, inode) = (ended, t)) :
    Truncated geo T old (· = slot) (fs, inode) ended t := by
  have pos : Pos geo slot [] := ⟨low, Nat.zero_le _, List.forall_mem_nil _⟩
  have root : inode.iBlock slot = T.nodeAt slot [] := remains.root slot todo
  have base : firstBlock geo slot [] = slotBase geo slot := by simp [firstBlock, pathIndex]
  rw [root] at ran
  rcases freed : ext2FreeRange geo (depth slot) (T.nodeAt slot []) 0 stop fs with ⟨o, fs'⟩
  have frees := freeRangeFrees sound proper (depth slot) pos (by simp) (by rw [base]; exact cut)
    remains.coherent (remains.intact slot todo) freed
  have leaves : Freeing geo (fun b => ∃ k, k = slot ∧ Reached geo T old k [] b)
      (fun b => ∃ k, k = slot ∧ T.Under (Pos geo) k [] b) fs fs' :=
    frees.leaves.mono (fun b h => ⟨slot, rfl, h⟩) fun b h => ⟨slot, rfl, h⟩
  cases o with
  | none =>
    rw [bindFails (show onFst _ (fs, inode) = _ by rw [onFstRun, freed])] at ran
    cases ran
    refine ⟨leaves, fun ended => absurd ended.symm (Option.some_ne_none _),
      fun reliable covered notEdge => ?_, fun _ _ => rfl⟩
    exact absurd rfl (frees.sure reliable (covered slot rfl) (notEdge slot rfl))
  | some v =>
    rw [bindOf (show onFst _ (fs, inode) = _ by rw [onFstRun, freed])] at ran
    cases ran
    refine ⟨leaves, ?_, fun _ _ _ => rfl, fun k other => ?_⟩
    · rintro _ covered _ rfl b under
      exact (frees.clears v rfl (covered _ rfl)).2 b under
    · exact Buf.getU32SetApart _ _ (by omega)

theorem directTruncated (proper : Proper geo T) {i : Nat} (low : i < min old 12)
    (remains : Remains geo T D s) (todo : ¬ D i) {ended : Option Unit}
    (ran : truncateDirect geo i s = (ended, t)) :
    Truncated geo T old (· = i) s ended t := by
  obtain ⟨fs, inode⟩ := s
  have level : depth i = 0 := by unfold depth; omega
  have base : slotBase geo i = i := if_pos (by omega)
  refine rangeTruncated sound proper (by omega) (fun o small => ?_) remains todo
    (by rw [level]; exact ran)
  rw [level, Nat.pow_zero] at small
  rw [base]
  omega

theorem slotTruncated (proper : Proper geo T) {k : Nat} (low : k < 15)
    (remains : Remains geo T D s) (todo : ¬ D k) {ended : Option Unit}
    (ran : truncateSlot geo k (depth k) (slotBase geo k) 0 old s = (ended, t)) :
    Truncated geo T old (· = k) s ended t := by
  obtain ⟨fs, inode⟩ := s
  unfold truncateSlot at ran
  rw [getBind] at ran
  split at ran
  · rw [Nat.zero_sub] at ran
    exact rangeTruncated sound proper low (fun o _ => by omega) remains todo ran
  · next skip =>
    cases ran
    have empty (covered : Covered geo T old k []) : T.nodeAt k [] = 0 := by
      by_contra present
      have first := covered [] (List.suffix_refl _)
        ⟨low, Nat.zero_le _, fun _ h => nomatch h⟩ present
      rw [show firstBlock geo k [] = slotBase geo k by simp [firstBlock, pathIndex]] at first
      refine skip ⟨?_, first⟩
      rw [remains.root k todo]
      exact present
    refine ⟨refl_of (Freeing geo _ _) _, ?_, fun _ _ _ => rfl, fun _ _ => rfl⟩
    rintro _ covered _ rfl b under
    exact absurd under (PtrTree.noneUnder (empty (covered _ rfl)))

theorem directsTruncated (proper : Proper geo T) (xs : List Nat) (once : xs.Nodup)
    (low : ∀ i ∈ xs, i < min old 12) (remains : Remains geo T D s) (todo : ∀ i ∈ xs, ¬ D i)
    {ended : Option Unit} (ran : xs.forM (truncateDirect geo) s = (ended, t)) :
    Truncated geo T old (· ∈ xs) s ended t := by
  induction xs generalizing D s with
  | nil =>
    cases ran
    exact .none_ _ fun _ h => nomatch h
  | cons i rest ih =>
    obtain ⟨apart, once⟩ := List.nodup_cons.mp once
    have split : (· ∈ i :: rest) = fun slot => slot = i ∨ slot ∈ rest :=
      funext fun _ => propext List.mem_cons
    rw [split]
    rcases first : truncateDirect geo i s with ⟨_ | _, m⟩
    · replace ran : (none, m) = (ended, t) := (bindFails first _).symm.trans ran
      cases ran
      exact (directTruncated sound proper (low i (by simp)) remains (todo i (by simp)) first).stopped
    · replace ran : rest.forM (truncateDirect geo) m = (ended, t) := (bindOf first _).symm.trans ran
      have one := directTruncated sound proper (low i (by simp)) remains (todo i (by simp)) first
      refine one.next proper remains.coherent (ih once (fun j h => low j (by simp [h]))
        (remains.next sound proper one) (fun j h => ?_) ran)
      rw [not_or]
      exact ⟨todo j (by simp [h]), fun same => apart (same ▸ h)⟩

omit sound in
theorem Truncated.everywhere {ended : Option Unit} (freed : Truncated geo T old D s ended t)
    (rest : ∀ slot, ¬ D slot → Covered geo T old slot [] → ∀ b, ¬ T.Under (Pos geo) slot [] b) :
    Truncated geo T old (fun _ => True) s ended t where
  leaves := freed.leaves.mono (fun b ⟨slot, _, h⟩ => ⟨slot, trivial, h⟩)
    fun b ⟨slot, _, h⟩ => ⟨slot, trivial, h⟩
  clears success covered slot _ b under := by
    by_cases done : D slot
    · exact freed.clears success (fun slot _ => covered slot trivial) slot done b under
    · exact absurd under (rest slot done (covered slot trivial) b)
  sure reliable covered notEdge := freed.sure reliable (fun slot _ => covered slot trivial)
    fun slot _ => notEdge slot trivial
  others _ outside := absurd trivial outside

omit sound in
theorem coveredEmpty {slot : Nat} (covered : Covered geo T old slot [])
    (unreached : old ≤ slotBase geo slot) (b : Nat) : ¬ T.Under (Pos geo) slot [] b := by
  intro under
  have present : T.nodeAt slot [] ≠ 0 := fun none_ => PtrTree.noneUnder none_ under
  obtain ⟨path, _, pos, _⟩ := under
  have first := covered [] (List.suffix_refl _) ⟨pos.1, Nat.zero_le _, fun _ h => nomatch h⟩ present
  rw [show firstBlock geo slot [] = slotBase geo slot by simp [firstBlock, pathIndex]] at first
  omega

theorem truncateBlocksTruncated (proper : Proper geo T) (remains : Remains geo T (fun _ => False) s)
    {ended : Option Unit} (ran : ext2TruncateBlocks geo 0 old s = (ended, t)) :
    Truncated geo T old (fun _ => True) s ended t := by
  unfold ext2TruncateBlocks at ran
  split at ran
  · next empty =>
    cases ran
    refine Truncated.everywhere (.none_ _ fun _ => id) fun slot _ covered => ?_
    exact coveredEmpty covered (by omega)
  generalize xs_ : List.range' 0 (min old 12 - 0) = xs at ran
  have listed (i) : i ∈ xs ↔ i < min old 12 := by
    rw [← xs_, List.mem_range'_1]
    omega
  have once : xs.Nodup := xs_ ▸ List.nodup_range'
  refine Truncated.everywhere (D := fun slot => ((slot ∈ xs ∨ slot = 12) ∨ slot = 13) ∨ slot = 14)
    ?_ fun slot skipped covered b under => ?_
  · rcases direct : xs.forM (truncateDirect geo) s with ⟨_ | _, m⟩
    · rw [bindFails direct] at ran
      cases ran
      exact (directsTruncated sound proper xs once (fun i h => (listed i).mp h) remains
        (fun _ _ => id) direct).stopped.stopped.stopped
    rw [bindOf direct] at ran
    have one := directsTruncated sound proper xs once (fun i h => (listed i).mp h) remains
      (fun _ _ => id) direct
    have remains₁ := remains.next sound proper one
    rcases single : truncateSlot geo 12 1 12 0 old m with ⟨_ | _, n⟩
    · rw [bindFails single] at ran
      cases ran
      exact (one.next proper remains.coherent (slotTruncated sound proper (k := 12) (by decide)
        remains₁ (by simp [listed]) single)).stopped.stopped
    rw [bindOf single] at ran
    have two := one.next proper remains.coherent (slotTruncated sound proper (k := 12) (by decide)
      remains₁ (by simp [listed]) single)
    have remains₂ := remains.next sound proper two
    rcases double : truncateSlot geo 13 2 (12 + geo.blockSize / 4) 0 old n with ⟨_ | _, p⟩
    · rw [bindFails double] at ran
      cases ran
      exact (two.next proper remains.coherent (slotTruncated sound proper (k := 13) (by decide)
        remains₂ (by simp [listed]) double)).stopped
    rw [bindOf double] at ran
    have three := two.next proper remains.coherent (slotTruncated sound proper (k := 13)
      (by decide) remains₂ (by simp [listed]) double)
    have remains₃ := remains.next sound proper three
    exact three.next proper remains.coherent (slotTruncated sound proper (k := 14) (by decide)
      remains₃ (by simp [listed]) ran)
  · simp only [listed, not_or] at skipped
    have low : slot < 15 := by
      obtain ⟨_, _, pos, _⟩ := under
      exact pos.1
    refine coveredEmpty covered ?_ b under
    rw [show slotBase geo slot = slot from if_pos (by omega)]
    omega

omit sound in
theorem refreshCases (geo : Geometry) (fs : FsInfo) (inode : Inode) :
    ∃ fs' count, ext2RefreshBlocks geo (fs, inode) = (some (), fs', inode.setU32 28 count) := by
  have slot (k : Nat) (fs : FsInfo) : ∃ n fs', countSlot geo inode k fs = (some n, fs') := by
    unfold countSlot
    split <;> exact ⟨_, _, rfl⟩
  obtain ⟨single, fs₁, first⟩ := slot 12 fs
  obtain ⟨double, fs₂, second⟩ := slot 13 fs₁
  obtain ⟨triple, fs₃, third⟩ := slot 14 fs₂
  have counts : ∃ n, ext2CountBlocks geo inode fs = (some n, fs₃) := by
    unfold ext2CountBlocks
    rw [bindOf first, bindOf second, bindOf third]
    exact ⟨_, rfl⟩
  obtain ⟨n, counted⟩ := counts
  refine ⟨fs₃, n, ?_⟩
  unfold ext2RefreshBlocks
  rw [getBind, bindOf (show onFst _ (fs, inode) = (some n, fs₃, inode) by rw [onFstRun, counted])]
  rfl

theorem countSlotKeeping (inode : Inode) (k : Nat) (fs : FsInfo) :
    Leaves (Keeping geo fun _ => False) (countSlot geo inode k) fs := by
  unfold countSlot
  split
  · exact leavesPure _ fs
  · exact leavesBind (leavesAttempt (readKeeping sound _)) fun _ m _ => leavesPure _ m

theorem refreshKeeping (fs : FsInfo) (inode : Inode) :
    Keeping geo (fun _ => False) fs (ext2RefreshBlocks geo (fs, inode)).2.1 := by
  have counts : Leaves (Keeping geo fun _ => False) (ext2CountBlocks geo inode) fs := by
    unfold ext2CountBlocks
    refine leavesBind (countSlotKeeping sound inode 12 fs) fun _ m _ => ?_
    refine leavesBind (countSlotKeeping sound inode 13 m) fun _ m _ => ?_
    exact leavesBind (countSlotKeeping sound inode 14 m) fun _ m _ => leavesPure _ m
  unfold ext2RefreshBlocks
  rw [getBind]
  rcases counted : ext2CountBlocks geo inode fs with ⟨_ | n, m⟩
  · rw [bindFails (show onFst _ (fs, inode) = (none, m, inode) by rw [onFstRun, counted])]
    exact leavesOf counts counted
  · rw [bindOf (show onFst _ (fs, inode) = (some n, m, inode) by rw [onFstRun, counted])]
    exact leavesOf counts counted

theorem blocksOfZero : blocksOf geo 0 = 0 := by
  have positive : 0 < geo.blockSize := by
    rcases sound.blockSize with size | size | size <;> rw [size] <;> decide
  unfold blocksOf u32
  exact Nat.div_eq_of_lt (Nat.lt_of_le_of_lt (Nat.mod_le _ _) (by omega))

theorem truncateFileCases (now : Nat) {ended : Option Unit}
    (ran : ext2TruncateFile geo 0 now s = (ended, t)) :
    ∃ m, ext2TruncateBlocks geo 0 (blocksOf geo s.2.iSize) s = (ended, m) ∧
      Keeping geo (fun _ => False) m.1 t.1 := by
  unfold ext2TruncateFile at ran
  rw [getBind, blocksOfZero sound] at ran
  have rest (m : FsInfo × Inode) (inode : Inode) {ended}
      (ran : ext2RefreshBlocks geo (m.1, inode) = (ended, t)) :
      ended = some () ∧ Keeping geo (fun _ => False) m.1 t.1 := by
    obtain ⟨fs', count, refreshed⟩ := refreshCases geo m.1 inode
    have keeps := refreshKeeping sound m.1 inode
    rw [ran] at refreshed keeps
    exact ⟨(Prod.ext_iff.mp refreshed).1, keeps⟩
  split at ran
  · rcases step : ext2TruncateBlocks geo 0 (blocksOf geo s.2.iSize) s with ⟨_ | _, m⟩
    · rw [bindFails step] at ran
      cases ran
      exact ⟨_, rfl, refl_of (Keeping geo _) _⟩
    · rw [bindOf step] at ran
      obtain ⟨rfl, keeps⟩ := rest m _ ran
      exact ⟨m, rfl, keeps⟩
  · obtain ⟨rfl, keeps⟩ := rest s _ ran
    refine ⟨s, ?_, keeps⟩
    unfold ext2TruncateBlocks
    rw [if_pos (by omega)]
    rfl

theorem truncateOne (s : FsInfo × Inode) :
    ext2TruncateBlocks geo 0 1 s = truncateDirect geo 0 s := by
  have size := (ptrsPos sound).1
  have skip (k n base : Nat) (low : 1 ≤ base) (m : FsInfo × Inode) :
      truncateSlot geo k n base 0 1 m = (some (), m) := by
    unfold truncateSlot
    rw [getBind, if_neg (by omega)]
    rfl
  unfold ext2TruncateBlocks
  rw [if_neg (by decide)]
  rcases direct : truncateDirect geo 0 s with ⟨_ | _, m⟩
  · have loop : (List.range' 0 (min 1 12 - 0)).forM (truncateDirect geo) s = (none, m) :=
      bindFails direct _
    rw [bindFails loop]
  · have loop : (List.range' 0 (min 1 12 - 0)).forM (truncateDirect geo) s = (some (), m) :=
      bindOf direct _
    rw [bindOf loop, bindOf (skip 12 1 12 (by decide) m), bindOf (skip 13 2 _ (by omega) m)]
    exact skip 14 3 _ (by omega) m

theorem truncateDirectFreeing (i : Nat) (fs : FsInfo) (inode : Inode) :
    Freeing geo (fun b => b = inode.iBlock i ∧ b ≠ 0 ∧ ¬ Edge geo b) (fun _ => False) fs
      (truncateDirect geo i (fs, inode)).2.1 := by
  have range : Leaves (Freeing geo (fun b => b = inode.iBlock i ∧ b ≠ 0 ∧ ¬ Edge geo b)
      fun _ => False) (ext2FreeRange geo 0 (inode.iBlock i) 0 1) fs := by
    unfold ext2FreeRange
    split
    · exact leavesPure _ fs
    · next present =>
      rw [not_or] at present
      rw [if_pos rfl]
      refine leavesBind (freeBlockFreeing sound (fun _ _ notEdge => ?_) fs) fun _ m _ => ?_
      · exact ⟨rfl, present.1, notEdge⟩
      · exact leavesPure _ m
  unfold truncateDirect
  rw [getBind]
  rcases freed : ext2FreeRange geo 0 (inode.iBlock i) 0 1 fs with ⟨_ | v, m⟩
  · rw [bindFails (show onFst _ (fs, inode) = (none, m, inode) by rw [onFstRun, freed])]
    exact leavesOf range freed
  · rw [bindOf (show onFst _ (fs, inode) = (some v, m, inode) by rw [onFstRun, freed])]
    exact leavesOf range freed

theorem truncateDirectFrees {i : Nat} {fs : FsInfo} {inode : Inode} (coherent : Coherent geo fs)
    (reliable : fs.dev.Reliable) (present : inode.iBlock i ≠ 0)
    (inside : inode.iBlock i < geo.sBlocksCount) (notEdge : ¬ Edge geo (inode.iBlock i))
    (used : allocated geo fs (inode.iBlock i) = true) :
    (truncateDirect geo i (fs, inode)).1 = some () ∧
      allocated geo (truncateDirect geo i (fs, inode)).2.1 (inode.iBlock i) = false := by
  rcases freed : ext2FreeBlock geo (inode.iBlock i) fs with ⟨o, m⟩
  have done := freeBlockSure sound coherent reliable inside (by unfold Edge at notEdge; tauto) used
  rw [freed] at done
  subst done
  obtain ⟨_, _, ⟨⟨⟩, _⟩ | ⟨_, _, low, _, marks⟩⟩ := freeBlockCases sound coherent freed
  have range : ext2FreeRange geo 0 (inode.iBlock i) 0 1 fs = (some 0, m) := by
    unfold ext2FreeRange
    rw [if_neg (by omega), if_pos rfl, bindOf freed]
    rfl
  unfold truncateDirect
  rw [getBind, bindOf (show onFst _ (fs, inode) = (some 0, m, inode) by rw [onFstRun, range])]
  refine ⟨rfl, ?_⟩
  rw [modifyRun, marks.allocated sound low low inside, if_pos rfl]

end slots

end Scepter.Ext2
