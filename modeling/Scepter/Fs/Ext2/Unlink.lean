import Scepter.Fs.Ext2.Dir

/-! Which blocks the removal of an inode's last name releases. -/
namespace Scepter.Ext2

open Block Prog

variable {geo : Geometry}

def inodeAt (geo : Geometry) (fs : FsInfo) (ino : Nat) : Inode :=
  Buf.overlay 128 (fun o => blockAt geo fs.dev (geo.inodeBlock ino) (geo.inodeOffset ino + o)) Buf.zero

def InTree (geo : Geometry) (fs : FsInfo) (inode : Inode) (b : Nat) : Prop :=
  ∃ slot, (treeOf geo (fs, inode)).Under (Pos geo) slot [] b

section reading

variable (sound : geo.Sound)
include sound

theorem descendKeeping (below : List Nat) (block : Nat) (buf : Buf) (s : FsInfo) :
    Leaves (Keeping geo fun _ => False) (descend geo below block buf) s := by
  induction below generalizing block buf s with
  | nil => exact leavesPure _ s
  | cons i rest ih =>
    unfold descend
    split
    · exact leavesPure _ s
    · refine leavesBind ?_ fun next m _ => ih _ _ m
      exact leavesBind (readKeeping sound _) fun _ m _ => leavesPure _ m

theorem bmapKeeping (inode : Inode) (fileBlock : Nat) (s : FsInfo) :
    Leaves (Keeping geo fun _ => False) (ext2Bmap geo inode fileBlock) s := by
  rw [bmapDescend]
  split
  · exact descendKeeping sound _ _ _ s
  · exact leavesFail s

theorem readSame {s t : FsInfo} (coherent : Coherent geo s)
    (keeps : Keeping geo (fun _ => False) s t) :
    (∀ ino, inodeAt geo t ino = inodeAt geo s ino) ∧
      ∀ inode, treeOf geo (t, inode) = treeOf geo (s, inode) := by
  obtain ⟨_, _, writes⟩ := keeps coherent
  have blocks := sameBlocks sound writes
  exact ⟨fun ino => by simp only [inodeAt, blocks], fun inode => by simp only [treeOf, blocks]⟩

theorem bmapInTree {s t : FsInfo} (coherent : Coherent geo s) {inode : Inode}
    {fileBlock b : Nat} (ran : ext2Bmap geo inode fileBlock s = (some b, t)) (present : b ≠ 0) :
    InTree geo s inode b := by
  rw [bmapDescend] at ran
  split at ran
  · next slot path at_ =>
    obtain ⟨pos, _⟩ := positionPos sound at_
    have small : ∀ i ∈ path.reverse, i < geo.blockSize / 4 :=
      fun i member => pos.2.2 i (by simpa using member)
    have found := (descendNode sound inode slot path.reverse [] Buf.zero coherent.unbroken small
      ran).1
    rw [List.reverse_reverse, List.append_nil] at found
    rcases found with ⟨⟨⟩⟩ | found
    cases found
    exact ⟨slot, path, List.nil_suffix, pos, present, rfl⟩
  · cases ran

theorem readInodeSome {ino : Nat} {inode : Inode} {s t : FsInfo} (coherent : Coherent geo s)
    (ran : ext2ReadInode geo ino s = (some inode, t)) : inode = inodeAt geo s ino := by
  unfold ext2ReadInode at ran
  split at ran
  · cases ran
  split at ran
  · cases ran
  split at ran
  · cases ran
  obtain ⟨buf, m, read, ran⟩ := bindSome.mp ran
  rcases readBlockCases sound (geo.inodeBlock ino) Buf.zero coherent.unbroken with
    ⟨d, read', _⟩ | ⟨d, read', _⟩
  · rw [read'] at read
    cases read
  · rw [read'] at read
    cases read
    cases ran
    have twice : Buf.overlay geo.blockSize (blockAt geo s.dev (geo.inodeBlock ino)) Buf.zero =
        blockAt geo s.dev (geo.inodeBlock ino) := by
      funext o
      unfold blockAt Buf.overlay
      split <;> rfl
    rw [twice]
    rfl

theorem scanLeaves {α : Type} {A : Nat → Prop} {dir : Inode} {hit : Buf → Nat → Bool}
    {found : Nat → Buf → Nat → Option Nat → Prog FsInfo α} {none_ : Prog FsInfo α} {s : FsInfo}
    (coherent : Coherent geo s)
    (hits : ∀ dblk buf off prev m, InTree geo s dir dblk →
      Leaves (Keeping geo A) (found dblk buf off prev) m)
    (ends : ∀ m, Leaves (Keeping geo A) none_ m) (bs : List Nat) {buf : Buf} {m : FsInfo}
    (reads : Keeping geo (fun _ => False) s m) :
    Leaves (Keeping geo A) (scanBlocksOf geo dir hit found none_ bs buf) m := by
  have weaker {s t : FsInfo} (keeps : Keeping geo (fun _ => False) s t) : Keeping geo A s t :=
    keeps.mono fun _ => False.elim
  induction bs generalizing buf m with
  | nil => exact ends m
  | cons b rest ih =>
    unfold scanBlocksOf
    refine leavesBind (weaker (bmapKeeping sound dir b m)) fun dblk n mapped => ?_
    have reads' := trans_of (Keeping geo _) reads (leavesOf (bmapKeeping sound dir b m) mapped)
    split
    · exact ih reads'
    · next present =>
      refine leavesBind (weaker (readKeeping sound _)) fun buf' p read => ?_
      have reads'' := trans_of (Keeping geo _) reads' (leavesOf (readKeeping sound _) read)
      have inTree : InTree geo s dir dblk := by
        have here := bmapInTree sound (reads coherent).1 mapped present
        unfold InTree at here
        rw [(readSame sound coherent reads).2] at here
        exact here
      split
      · exact leavesFail p
      · exact hits _ _ _ _ p inTree
      · exact ih reads''

theorem lookupKeeping (dir : Inode) (name : List Byte) {s : FsInfo} (coherent : Coherent geo s) :
    Leaves (Keeping geo fun _ => False) (ext2Lookup geo dir name) s := by
  unfold ext2Lookup
  split
  · exact leavesFail s
  split
  · exact leavesFail s
  exact scanLeaves sound coherent (fun _ _ _ _ m _ => leavesPure _ m) (fun m => leavesFail m) _
    (refl_of (Keeping geo _) s)

theorem dirIsEmptyKeeping (dir : Inode) {s : FsInfo} (coherent : Coherent geo s) :
    Leaves (Keeping geo fun _ => False) (ext2DirIsEmpty geo dir) s :=
  scanLeaves sound coherent (fun _ _ _ _ m _ => leavesFail m) (fun m => leavesPure _ m) _
    (refl_of (Keeping geo _) s)

theorem removeDirentKeeping (dir : Inode) (name : List Byte) (now : Nat) {s : FsInfo}
    (coherent : Coherent geo s) (placed : ∀ b, InTree geo s dir b → ¬ geo.Metadata b) :
    Leaves (Keeping geo (InTree geo s dir)) (ext2RemoveDirent geo dir name now) s := by
  unfold ext2RemoveDirent
  split
  · exact leavesFail s
  split
  · exact leavesFail s
  refine scanLeaves sound coherent (fun dblk buf off prev m inTree => ?_) (fun m => leavesFail m) _
    (refl_of (Keeping geo _) s)
  refine leavesBind ?_ fun _ m _ => leavesPure _ m
  refine (writeKeeping sound fun kind group real same => ?_).mono fun b here => here ▸ inTree
  exact placed dblk inTree (.inl (.inl ⟨group, kind, sound.realInside real, real, same.symm⟩))

theorem walkTokensSome (tokens : List (List Byte)) {dir found : Nat × Inode} {s m t : FsInfo}
    (coherent : Coherent geo s) (reads : Keeping geo (fun _ => False) s m)
    (start : dir.2 = inodeAt geo s dir.1) (ran : walkTokens geo tokens dir m = (some found, t)) :
    Keeping geo (fun _ => False) s t ∧ found.2 = inodeAt geo s found.1 := by
  induction tokens generalizing dir m with
  | nil =>
    cases ran
    exact ⟨reads, start⟩
  | cons token rest ih =>
    unfold walkTokens at ran
    split at ran
    · exact ih reads start ran
    obtain ⟨ino, n, looked, ran⟩ := bindSome.mp ran
    obtain ⟨inode, p, read, ran⟩ := bindSome.mp ran
    have reads' := trans_of (Keeping geo _) reads
      (leavesOf (lookupKeeping sound _ _ (reads coherent).1) looked)
    have value := readInodeSome sound (reads' coherent).1 read
    rw [(readSame sound coherent reads').1] at value
    split at ran
    · cases ran
    · exact ih (trans_of (Keeping geo _) reads' (leavesOf (readInodeKeeping sound) read)) value ran

theorem findEntrySome {path : List Byte} {e : Entry} {s t : FsInfo} (coherent : Coherent geo s)
    (ran : findEntry geo path s = (some e, t)) :
    Keeping geo (fun _ => False) s t ∧ e.parent = inodeAt geo s e.parentIno ∧
      e.inode = inodeAt geo s e.ino := by
  unfold findEntry at ran
  rcases parsed : parseParentAndName path with _ | ⟨parentPath, name⟩
  · rw [parsed] at ran
    cases ran
  rw [parsed] at ran
  dsimp only at ran
  split at ran
  · cases ran
  obtain ⟨dir, m, walked, ran⟩ := bindSome.mp ran
  have resolved : Keeping geo (fun _ => False) s m ∧ dir.2 = inodeAt geo s dir.1 := by
    unfold lookupDirectoryByPath at walked
    obtain ⟨root, n, read, walked⟩ := bindSome.mp walked
    have reads := leavesOf (readInodeKeeping sound) read
    have value := readInodeSome sound coherent read
    split at walked
    · cases walked
      exact ⟨reads, value⟩
    · exact walkTokensSome sound _ coherent reads value walked
  obtain ⟨reads, value⟩ := resolved
  obtain ⟨ino, n, looked, ran⟩ := bindSome.mp ran
  obtain ⟨inode, p, read, ran⟩ := bindSome.mp ran
  have reads' := trans_of (Keeping geo _) reads
    (leavesOf (lookupKeeping sound _ _ (reads coherent).1) looked)
  have inodeValue := readInodeSome sound (reads' coherent).1 read
  rw [(readSame sound coherent reads').1] at inodeValue
  cases ran
  exact ⟨trans_of (Keeping geo _) reads' (leavesOf (readInodeKeeping sound) read), value, inodeValue⟩

end reading

def isReg (mode : Nat) : Bool := mode &&& 0xF000 = 0x8000
def isLnk (mode : Nat) : Bool := mode &&& 0xF000 = 0xA000

def Inode.Inline (inode : Inode) : Prop :=
  isLnk inode.iMode = true ∧ inode.iSize ≤ 60 ∧ inode.iBlocks = 0

def Inode.Holds (inode : Inode) : Prop :=
  isReg inode.iMode = true ∨ ext2IsDir inode.iMode = true ∨
    (isLnk inode.iMode = true ∧ ¬ inode.Inline)

structure InUse (geo : Geometry) (fs : FsInfo) (ino : Nat) : Prop where
  positive : 0 < ino
  inside : ino ≤ geo.sInodesCount
  used : (image geo fs .inode (geo.inodeGroup ino)).getBit (geo.inodeIndex ino) = true

structure Owns (geo : Geometry) (fs : FsInfo) (ino b : Nat) : Prop where
  inUse : InUse geo fs ino
  holds : (inodeAt geo fs ino).Holds
  inTree : InTree geo fs (inodeAt geo fs ino) b

/-- A consistent filesystem: counts are exact, metadata is marked as used, and the
blocks of the inodes are data blocks, no block being used twice. -/
structure Consistent (geo : Geometry) (fs : FsInfo) : Prop where
  coherent : Coherent geo (fs.facing [])
  counted : Counted geo fs
  reservedUsed : ReservedUsed geo fs
  distinct : ∀ ino, InUse geo fs ino → (inodeAt geo fs ino).Holds →
    (treeOf geo (fs, inodeAt geo fs ino)).Distinct (Pos geo)
  data : ∀ ino b, Owns geo fs ino b → DataBlock geo fs b
  apart : ∀ ino ino' b, Owns geo fs ino b → Owns geo fs ino' b → ino = ino'

structure Listed (geo : Geometry) (fs : FsInfo) (e : Entry) : Prop where
  parentUsed : InUse geo fs e.parentIno
  used : InUse geo fs e.ino
  differ : e.parentIno ≠ e.ino

inductive Removal
  | unlink
  | rmdir

namespace Removal

def entry (geo : Geometry) (path : List Byte) (now : Nat) : Removal → Prog FsInfo Entry
  | unlink => unlinkEntry geo path now
  | rmdir => rmdirEntry geo path now

def call (geo : Geometry) (path : List Byte) (now : Nat) : Removal → Prog FsInfo Unit
  | unlink => ext2VfsUnlink geo path now
  | rmdir => ext2VfsRmdir geo path now

def Last (inode : Inode) : Removal → Prop
  | unlink => inode.iLinksCount = 1
  | rmdir => True

end Removal

def Foreign (geo : Geometry) (fs : FsInfo) (ino b : Nat) : Prop :=
  geo.Metadata b ∨ ∃ other, other ≠ ino ∧ Owns geo fs other b

/-- Whatever its transfers do, a call that has removed the name leaves exact counts
and every foreign block as it is; when it succeeds, and whenever no transfer fails,
the blocks of the inode are free. -/
def Releases (geo : Geometry) (op : Removal) (path : List Byte) (now : Nat) (fs : FsInfo)
    (e : Entry) : Prop :=
  ∀ coming, NoneShort coming → ∀ m r t,
    op.entry geo path now (fs.facing coming) = (some e, m) →
    op.call geo path now (fs.facing coming) = (r, t) →
    Counted geo t ∧
    (∀ b, geo.sFirstDataBlock ≤ b → b < geo.sBlocksCount → Foreign geo fs e.ino b →
      allocated geo t b = allocated geo fs b) ∧
    (r = some () ∨ (∀ transfer ∈ coming, transfer = .whole) →
      ∀ b, Owns geo fs e.ino b → allocated geo t b = false)

/-- The text of an inline target names no foreign block that can be freed; the
blocks of any other inode lie below its size and off the groups' edges. -/
structure Releasable (geo : Geometry) (fs : FsInfo) (ino : Nat) (inode : Inode) : Prop where
  text : inode.Inline → 0 < inode.iSize → inode.iBlock 0 ≠ 0 →
    geo.sFirstDataBlock ≤ inode.iBlock 0 → inode.iBlock 0 < geo.sBlocksCount →
    Foreign geo fs ino (inode.iBlock 0) → Edge geo (inode.iBlock 0)
  blocks : inode.Holds → ∀ slot path, Pos geo slot path →
    (treeOf geo (fs, inode)).nodeAt slot path ≠ 0 →
    firstBlock geo slot path < blocksOf geo inode.iSize ∧
      ¬ Edge geo ((treeOf geo (fs, inode)).nodeAt slot path)

section removing

variable (sound : geo.Sound)
include sound

omit sound in
theorem removeDirentDir {dir dir' : Inode} {name : List Byte} {now : Nat} {s t : FsInfo}
    (ran : ext2RemoveDirent geo dir name now s = (some dir', t)) :
    ext2IsDir dir.iMode = true := by
  unfold ext2RemoveDirent at ran
  split at ran
  · cases ran
  · next isDir => simpa using isDir

theorem removeNameKeeping {e : Entry} {now : Nat} {s n m t : FsInfo} {parent parent' : Inode}
    {o : Option Unit} (coherent : Coherent geo s) (reads : Keeping geo (fun _ => False) s n)
    (parentKnown : InUse geo s e.parentIno)
    (placed : ext2IsDir e.parent.iMode = true → ∀ b, InTree geo s e.parent b → ¬ geo.Metadata b)
    (removed : ext2RemoveDirent geo e.parent e.name now n = (some parent, m))
    (wrote : ext2WriteInode geo e.parentIno parent' m = (o, t)) :
    ext2IsDir e.parent.iMode = true ∧
      Keeping geo (fun b => geo.Table b ∨ InTree geo s e.parent b) s t := by
  have isDir := removeDirentDir removed
  have trees : InTree geo n e.parent = InTree geo s e.parent := by
    unfold InTree
    rw [(readSame sound coherent reads).2]
  have removes := leavesOf (removeDirentKeeping sound _ _ _ (reads coherent).1
    (by rw [trees]; exact placed isDir)) removed
  rw [trees] at removes
  refine ⟨isDir, trans_of (Keeping geo _) (reads.mono fun _ => False.elim)
    (trans_of (Keeping geo _) (removes.mono fun b => .inr)
      ((leavesOf (writeInodeKeeping sound _ _ m) wrote).mono fun b here => .inl ?_))⟩
  exact ⟨e.parentIno, parentKnown.positive, parentKnown.inside, here⟩

theorem entrySome (op : Removal) {path : List Byte} {now : Nat} {e : Entry} {s m : FsInfo}
    (coherent : Coherent geo s) (parentKnown : InUse geo s e.parentIno)
    (placed : ext2IsDir e.parent.iMode = true → e.parent = inodeAt geo s e.parentIno →
      ∀ b, InTree geo s e.parent b → ¬ geo.Metadata b)
    (ran : op.entry geo path now s = (some e, m)) :
    e.inode = inodeAt geo s e.ino ∧ e.parent = inodeAt geo s e.parentIno ∧
      ext2IsDir e.parent.iMode = true ∧
      Keeping geo (fun b => geo.Table b ∨ InTree geo s e.parent b) s m := by
  cases op with
  | unlink =>
    replace ran : unlinkEntry geo path now s = (some e, m) := ran
    unfold unlinkEntry at ran
    obtain ⟨entry, n, found, ran⟩ := bindSome.mp ran
    split at ran
    · cases ran
    obtain ⟨parent, p, removed, ran⟩ := bindSome.mp ran
    obtain ⟨_, q, wrote, ran⟩ := bindSome.mp ran
    cases ran
    obtain ⟨reads, parentIs, inodeIs⟩ := findEntrySome sound coherent found
    obtain ⟨isDir, keeps⟩ := removeNameKeeping sound coherent reads parentKnown
      (fun isDir => placed isDir parentIs) removed wrote
    exact ⟨inodeIs, parentIs, isDir, keeps⟩
  | rmdir =>
    replace ran : rmdirEntry geo path now s = (some e, m) := ran
    unfold rmdirEntry at ran
    obtain ⟨entry, n, found, ran⟩ := bindSome.mp ran
    split at ran
    · cases ran
    obtain ⟨_, l, empty, ran⟩ := bindSome.mp ran
    obtain ⟨parent, p, removed, ran⟩ := bindSome.mp ran
    obtain ⟨_, q, wrote, ran⟩ := bindSome.mp ran
    cases ran
    obtain ⟨reads, parentIs, inodeIs⟩ := findEntrySome sound coherent found
    have reads' := trans_of (Keeping geo _) reads
      (leavesOf (dirIsEmptyKeeping sound _ (reads coherent).1) empty)
    obtain ⟨isDir, keeps⟩ := removeNameKeeping sound coherent reads' parentKnown
      (fun isDir => placed isDir parentIs) removed wrote
    exact ⟨inodeIs, parentIs, isDir, keeps⟩

theorem freeInodeFreeing {R : Nat → Prop} (ino now : Nat) (s : FsInfo) :
    Leaves (Freeing geo R geo.Table) (ext2FreeInode geo ino now) s := by
  intro coherent
  obtain ⟨coherent', writes, ⟨_, same⟩ | ⟨positive, inside, marks⟩⟩ :=
    freeInodeCases sound coherent (r := _) (t := (ext2FreeInode geo ino now s).2) rfl
  · exact ⟨coherent', same.counted sound, writes, fun b low inside =>
      .inl (same.allocated sound low inside)⟩
  · refine ⟨coherent', marks.counted sound (inodeValid sound positive inside), writes, ?_⟩
    intro b low inside
    obtain ⟨real, valid⟩ := placeReal sound low inside
    refine .inl ?_
    unfold allocated
    rw [marks.bits .block _ _ real (bitSmall sound .block valid.1), if_neg]
    exact fun h => nomatch h.1

theorem dropCases {ino now : Nat} {inode : Inode} {s t : FsInfo} {r : Option Unit}
    (known : 0 < ino ∧ ino ≤ geo.sInodesCount) (ran : dropInode geo ino inode now s = (r, t)) :
    ∃ ended m, ext2TruncateBlocks geo 0 (blocksOf geo inode.iSize) (s, inode) = (ended, m) ∧
      Freeing geo (fun _ => False) geo.Table m.1 t ∧ (r = some () → ended = some ()) := by
  unfold dropInode at ran
  rcases truncated : ext2TruncateFile geo 0 now (s, inode) with ⟨ended, fs, inode'⟩
  obtain ⟨m, blocks, keeps⟩ := truncateFileCases sound now truncated
  have upTo : Freeing geo (fun _ => False) geo.Table m.1 fs :=
    Keeping.freeing sound (keeps.mono fun _ => False.elim)
  refine ⟨ended, m, blocks, ?_⟩
  cases ended with
  | none =>
    rw [bindFails (withSndRun truncated)] at ran
    cases ran
    exact ⟨upTo, nofun⟩
  | some _ =>
    rw [bindOf (withSndRun truncated)] at ran
    have rest : Leaves (Freeing geo (fun _ => False) geo.Table)
        (ext2WriteInode geo ino inode' >>= fun _ => ext2FreeInode geo ino now) fs := by
      refine leavesBind ?_ fun _ n _ => freeInodeFreeing sound ino now n
      refine Keeping.freeing sound ((writeInodeKeeping sound ino inode' fs).mono fun b here => ?_)
      exact .inr ⟨ino, known.1, known.2, here⟩
    exact ⟨trans_of (Freeing geo _ _) upTo (leavesOf rest ran), fun _ => rfl⟩

theorem callCases (op : Removal) {path : List Byte} {now : Nat} {e : Entry} {s m t : FsInfo}
    {r : Option Unit} (known : 0 < e.ino ∧ e.ino ≤ geo.sInodesCount) (last : op.Last e.inode)
    (removed : op.entry geo path now s = (some e, m)) (ran : op.call geo path now s = (r, t)) :
    ∃ inode : Inode, (∀ k, inode.iBlock k = e.inode.iBlock k) ∧ ∃ ended n,
      ext2TruncateBlocks geo 0 (blocksOf geo e.inode.iSize) (m, inode) = (ended, n) ∧
      Freeing geo (fun _ => False) geo.Table n.1 t ∧ (r = some () → ended = some ()) := by
  have synced (n : FsInfo) : Leaves (Freeing geo (fun _ => False) geo.Table)
      (attempt (ext2SyncBitmaps geo) >>= fun _ => pure ()) n := by
    refine leavesBind (leavesAttempt (Keeping.freeing sound fun coherent => ?_)) fun _ m _ =>
      leavesPure _ m
    obtain ⟨coherent', same, writes⟩ := (syncLeaves sound n coherent).1.1 coherent
    exact ⟨coherent', same, writes.mono fun _ => .inl⟩
  have drops (inode : Inode) (size : inode.iSize = e.inode.iSize)
      (ran : (dropInode geo e.ino inode now >>= fun _ =>
        attempt (ext2SyncBitmaps geo) >>= fun _ => pure ()) m = (r, t)) :
      ∃ ended n, ext2TruncateBlocks geo 0 (blocksOf geo e.inode.iSize) (m, inode) = (ended, n) ∧
        Freeing geo (fun _ => False) geo.Table n.1 t ∧ (r = some () → ended = some ()) := by
    rcases dropped : dropInode geo e.ino inode now m with ⟨_ | _, p⟩
    · rw [bindFails dropped] at ran
      cases ran
      rw [← size]
      exact dropCases sound known dropped
    · rw [bindOf dropped] at ran
      obtain ⟨ended, n, blocks, freeing, done⟩ := dropCases sound known dropped
      rw [← size]
      exact ⟨ended, n, blocks, trans_of (Freeing geo _ _) freeing (leavesOf (synced p) ran),
        fun _ => done rfl⟩
  cases op with
  | unlink =>
    replace ran : ext2VfsUnlink geo path now s = (r, t) := ran
    unfold ext2VfsUnlink at ran
    rw [bindOf (show unlinkEntry geo path now s = (some e, m) from removed)] at ran
    have one : e.inode.iLinksCount = 1 := last
    rw [one] at ran
    have none_ : Inode.iLinksCount (e.inode.setU16 26 (u16 (1 + (2 ^ 16 - 1)))) = 0 := by
      simp [Inode.iLinksCount, Buf.getU16, Buf.setU16, Buf.leByte, u16]
    rw [if_pos none_] at ran
    refine ⟨e.inode.setU16 26 _, fun k => ?_, drops _ ?_ ran⟩
    · exact Buf.getU32SetU16Apart _ _ (by omega)
    · exact Buf.getU32SetU16Apart _ _ (by omega)
  | rmdir =>
    replace ran : ext2VfsRmdir geo path now s = (r, t) := ran
    unfold ext2VfsRmdir at ran
    rw [bindOf (show rmdirEntry geo path now s = (some e, m) from removed)] at ran
    exact ⟨e.inode, fun _ => rfl, drops _ rfl ran⟩

structure NameGone (geo : Geometry) (fs : FsInfo) (coming : List Transfer) (e : Entry)
    (m : FsInfo) : Prop where
  inode : e.inode = inodeAt geo fs e.ino
  coherent : Coherent geo m
  counted : Counted geo m
  marks : ∀ b, geo.sFirstDataBlock ≤ b → b < geo.sBlocksCount →
    allocated geo m b = allocated geo fs b
  reliable : (∀ transfer ∈ coming, transfer = .whole) → m.dev.Reliable
  blocks : ∀ b, ¬ geo.Table b → ¬ Owns geo fs e.parentIno b →
    blockAt geo m.dev b = blockAt geo fs.dev b

theorem nameGone {fs m : FsInfo} {coming : List Transfer} {op : Removal} {path : List Byte}
    {now : Nat} {e : Entry} (consistent : Consistent geo fs) (listed : Listed geo fs e)
    (noneShort : NoneShort coming)
    (removed : op.entry geo path now (fs.facing coming) = (some e, m)) :
    NameGone geo fs coming e m := by
  have coherent : Coherent geo (fs.facing coming) := facingAnew consistent.coherent noneShort
  have counted : Counted geo (fs.facing coming) :=
    ⟨consistent.counted.group, consistent.counted.total⟩
  have owns (isDir : ext2IsDir e.parent.iMode = true)
      (parentIs : e.parent = inodeAt geo (fs.facing coming) e.parentIno) (b)
      (inTree : InTree geo (fs.facing coming) e.parent b) : Owns geo fs e.parentIno b := by
    rw [parentIs] at isDir inTree
    exact ⟨listed.parentUsed, .inr (.inl isDir), inTree⟩
  obtain ⟨inodeIs, parentIs, isDir, keeps⟩ := entrySome sound op coherent
    ⟨listed.parentUsed.positive, listed.parentUsed.inside, listed.parentUsed.used⟩
    (fun isDir parentIs b inTree => (consistent.data _ b (owns isDir parentIs b inTree)).notMetadata)
    removed
  obtain ⟨coherent', same, writes⟩ := keeps coherent
  refine ⟨inodeIs, coherent', same.counted sound counted, fun b low inside => ?_, fun whole => ?_,
    fun b notTable notParent => ?_⟩
  · exact same.allocated sound low inside
  · exact writes.reliable whole
  · have kept : blockAt geo m.dev b = blockAt geo (fs.facing coming).dev b :=
      blockKept sound writes fun written =>
        written.elim notTable fun inTree => notParent (owns isDir parentIs b inTree)
    exact kept

omit sound in
theorem properTree {fs : FsInfo} {ino : Nat} (consistent : Consistent geo fs)
    (inUse : InUse geo fs ino) (holds : (inodeAt geo fs ino).Holds) :
    Proper geo (treeOf geo (fs, inodeAt geo fs ino)) where
  distinct := consistent.distinct ino inUse holds
  placed slot up b under := by
    have data := consistent.data ino b ⟨inUse, holds, slot, under.above List.nil_suffix⟩
    exact ⟨data.low, data.inside, data.notMetadata⟩

omit sound in
theorem NameGone.remains {fs m : FsInfo} {coming : List Transfer} {e : Entry} {inode : Inode}
    (gone : NameGone geo fs coming e m) (consistent : Consistent geo fs)
    (listed : Listed geo fs e) (holds : e.inode.Holds)
    (same : ∀ k, inode.iBlock k = e.inode.iBlock k) :
    Remains geo (treeOf geo (fs, e.inode)) (fun _ => False) (m, inode) := by
  have owns {slot up b} (under : (treeOf geo (fs, e.inode)).Under (Pos geo) slot up b) :
      Owns geo fs e.ino b := by
    rw [gone.inode] at under holds
    exact ⟨listed.used, holds, slot, under.above List.nil_suffix⟩
  refine ⟨gone.coherent, fun slot _ => same slot, fun slot _ => ⟨fun b under => ?_, ?_⟩⟩
  · have data := consistent.data _ b (owns under)
    rw [gone.marks b data.low data.inside]
    exact data.used
  · intro path i _ pos present
    have here := owns ⟨path, List.suffix_refl _, posUp _ _ _ pos, present, rfl⟩
    rw [gone.blocks]
    · rfl
    · exact fun table => (consistent.data _ _ here).notMetadata (.inr table)
    · exact fun parents => listed.differ (consistent.apart _ _ _ parents here)

omit sound in
theorem inlineHoldsNot {inode : Inode} (inline : inode.Inline) : ¬ inode.Holds := by
  have link : inode.iMode &&& 0xF000 = 0xA000 := by simpa [isLnk] using inline.1
  rintro (reg | dir | ⟨_, notInline⟩)
  · simp [isReg, link] at reg
  · simp [ext2IsDir, link] at dir
  · exact notInline inline

omit sound in
theorem foreignUsed {fs : FsInfo} {ino b : Nat} (consistent : Consistent geo fs)
    (low : geo.sFirstDataBlock ≤ b) (inside : b < geo.sBlocksCount)
    (foreign : Foreign geo fs ino b) : allocated geo fs b = true := by
  rcases foreign with metadata | ⟨other, _, owns⟩
  · exact consistent.reservedUsed b low inside (.inr metadata)
  · exact (consistent.data other b owns).used

omit sound in
theorem ownNotForeign {fs : FsInfo} {ino b : Nat} (consistent : Consistent geo fs)
    (owns : Owns geo fs ino b) : ¬ Foreign geo fs ino b := by
  rintro (metadata | ⟨other, differ, owns'⟩)
  · exact (consistent.data ino b owns).notMetadata metadata
  · exact differ (consistent.apart _ _ _ owns' owns)

section entry

variable {fs m₀ : FsInfo} {op : Removal} {path : List Byte} {now : Nat} {e : Entry}
  (consistent : Consistent geo fs) (listed : Listed geo fs e) (last : op.Last e.inode)
include consistent listed last

theorem treeReleased (removed : op.entry geo path now (fs.facing []) = (some e, m₀))
    (holds : e.inode.Holds) (releases : Releases geo op path now fs e) :
    Releasable geo fs e.ino e.inode := by
  refine ⟨fun inline => absurd holds (inlineHoldsNot inline), fun _ slot up pos present => ?_⟩
  have gone := nameGone sound consistent listed noneShortNil removed
  have inTree : (treeOf geo (fs, e.inode)).Under (Pos geo) slot []
      ((treeOf geo (fs, e.inode)).nodeAt slot up) := ⟨up, List.nil_suffix, pos, present, rfl⟩
  have proper := properTree consistent listed.used (gone.inode ▸ holds)
  have owns : Owns geo fs e.ino ((treeOf geo (fs, e.inode)).nodeAt slot up) := by
    rw [gone.inode] at inTree holds ⊢
    exact ⟨listed.used, holds, slot, inTree⟩
  rw [← gone.inode] at proper
  have data := consistent.data _ _ owns
  obtain ⟨_, _, free⟩ := releases [] noneShortNil m₀ _ _ removed rfl
  replace free := free (.inr fun _ h => nomatch h) _ owns
  obtain ⟨inode, same, ended, n, blocks, freeing, _⟩ := callCases sound op
    ⟨listed.used.positive, listed.used.inside⟩ last removed rfl
  have truncated := truncateBlocksTruncated sound proper
    (gone.remains consistent listed holds same) blocks
  by_contra off
  -- a block that is not reached keeps its mark
  rcases (truncated.leaves gone.coherent).2.2.2 _ data.low data.inside with
    kept | ⟨⟨slot', _, path', _, pos', _, node, reached⟩, _⟩
  · rcases (freeing (truncated.leaves gone.coherent).1).2.2.2 _ data.low data.inside with
      kept' | ⟨⟨⟩, _⟩
    rw [kept', kept, gone.marks _ data.low data.inside, data.used] at free
    cases free
  · obtain ⟨rfl, rfl⟩ := proper.distinct _ _ _ _ pos pos' present node.symm
    exact off reached

theorem treeReleases (holds : e.inode.Holds) (releasable : Releasable geo fs e.ino e.inode) :
    Releases geo op path now fs e := by
  intro coming noneShort m r t removed ran
  have gone := nameGone sound consistent listed noneShort removed
  have owns {slot b} (under : (treeOf geo (fs, e.inode)).Under (Pos geo) slot [] b) :
      Owns geo fs e.ino b := by
    rw [gone.inode] at under holds
    exact ⟨listed.used, holds, slot, under⟩
  have proper := properTree consistent listed.used (gone.inode ▸ holds)
  rw [← gone.inode] at proper
  obtain ⟨inode, same, ended, n, blocks, freeing, done⟩ := callCases sound op
    ⟨listed.used.positive, listed.used.inside⟩ last removed ran
  have truncated := truncateBlocksTruncated sound proper
    (gone.remains consistent listed holds same) blocks
  have covered : ∀ slot, True → Covered geo (treeOf geo (fs, e.inode))
      (blocksOf geo e.inode.iSize) slot [] :=
    fun slot _ up _ pos present => (releasable.blocks holds slot up pos present).1
  obtain ⟨coherent', counted, _, marks⟩ := truncated.leaves gone.coherent
  obtain ⟨_, counted', _, marks'⟩ := freeing coherent'
  refine ⟨counted' (counted gone.counted), fun b low inside foreign => ?_, fun end_ b own => ?_⟩
  · rcases marks' b low inside with kept' | ⟨⟨⟩, _⟩
    rcases marks b low inside with kept | ⟨⟨slot, _, reached⟩, _⟩
    · rw [kept', kept, gone.marks b low inside]
    · exact absurd foreign (ownNotForeign consistent (owns reached.under))
  · have data := consistent.data _ _ own
    have finished : ended = some () := by
      rcases end_ with success | whole
      · exact done success
      · refine truncated.sure (gone.reliable whole) covered fun slot _ b under => ?_
        obtain ⟨up, _, pos, present, rfl⟩ := under
        exact (releasable.blocks holds slot up pos present).2
    obtain ⟨slot, under⟩ := own.inTree
    rw [← gone.inode] at under
    have free := truncated.clears finished covered slot trivial b under
    exact freeing.staysFree coherent' data.low data.inside free

omit consistent listed last in
theorem inlineBlocks {size : Nat} (positive : 0 < size) (small : size ≤ 60) :
    blocksOf geo size = 1 := by
  unfold blocksOf u32
  rcases sound.blockSize with h | h | h <;> rw [h] <;> omega

omit consistent in
theorem inlineCases {coming : List Transfer} {m t : FsInfo} {r : Option Unit}
    (removed : op.entry geo path now (fs.facing coming) = (some e, m))
    (ran : op.call geo path now (fs.facing coming) = (r, t)) (inline : e.inode.Inline)
    (positive : 0 < e.inode.iSize) :
    ∃ inode : Inode, inode.iBlock 0 = e.inode.iBlock 0 ∧
      Freeing geo (fun _ => False) geo.Table (truncateDirect geo 0 (m, inode)).2.1 t := by
  obtain ⟨inode, same, ended, n, blocks, freeing, _⟩ := callCases sound op
    ⟨listed.used.positive, listed.used.inside⟩ last removed ran
  rw [inlineBlocks sound positive inline.2.1, truncateOne sound] at blocks
  refine ⟨inode, same 0, ?_⟩
  rw [blocks]
  exact freeing

theorem inlineReleased (removed : op.entry geo path now (fs.facing []) = (some e, m₀))
    (inline : e.inode.Inline) (releases : Releases geo op path now fs e) :
    Releasable geo fs e.ino e.inode := by
  refine ⟨fun _ positive present low inside foreign => ?_,
    fun holds => absurd holds (inlineHoldsNot inline)⟩
  have gone := nameGone sound consistent listed noneShortNil removed
  obtain ⟨_, kept, _⟩ := releases [] noneShortNil m₀ _ _ removed rfl
  replace kept := kept _ low inside foreign
  obtain ⟨inode, same, freeing⟩ := inlineCases sound listed last removed rfl inline
    positive
  have used := foreignUsed consistent low inside foreign
  by_contra notEdge
  rw [← same] at present inside notEdge used kept low
  have direct := truncateDirectFrees sound gone.coherent (gone.reliable fun _ h => nomatch h)
    present inside notEdge ((gone.marks _ low inside).trans used)
  have coherent' := (truncateDirectFreeing sound 0 m₀ inode gone.coherent).1
  rw [freeing.staysFree coherent' low inside direct.2, used] at kept
  cases kept

theorem inlineReleases (inline : e.inode.Inline) (releasable : Releasable geo fs e.ino e.inode) :
    Releases geo op path now fs e := by
  intro coming noneShort m r t removed ran
  have gone := nameGone sound consistent listed noneShort removed
  have ownsNothing (b) : ¬ Owns geo fs e.ino b := fun own =>
    inlineHoldsNot inline (gone.inode ▸ own.holds)
  have total : Freeing geo (fun b => 0 < e.inode.iSize ∧ b = e.inode.iBlock 0 ∧ b ≠ 0 ∧
      ¬ Edge geo b) geo.Table m t := by
    rcases Nat.eq_zero_or_pos e.inode.iSize with empty | positive
    · obtain ⟨inode, _, ended, n, blocks, freeing, _⟩ := callCases sound op
        ⟨listed.used.positive, listed.used.inside⟩ last removed ran
      have none_ : ext2TruncateBlocks geo 0 (blocksOf geo e.inode.iSize) (m, inode) =
          (some (), m, inode) := by
        unfold ext2TruncateBlocks
        rw [empty, blocksOfZero sound, if_pos (Nat.le_refl 0)]
        rfl
      rw [none_] at blocks
      cases blocks
      exact freeing.mono (fun _ => False.elim) fun _ => id
    · obtain ⟨inode, same, freeing⟩ := inlineCases sound listed last removed ran
        inline positive
      refine trans_of (Freeing geo _ _) ((truncateDirectFreeing sound 0 m inode).mono
        (fun b ⟨here, rest⟩ => ⟨positive, here.trans same, rest⟩) fun _ => False.elim) ?_
      exact freeing.mono (fun _ => False.elim) fun _ => id
  obtain ⟨_, counted, _, marks⟩ := total gone.coherent
  refine ⟨counted gone.counted, fun b low inside foreign => ?_,
    fun _ b own => absurd own (ownsNothing b)⟩
  rcases marks b low inside with kept | ⟨⟨positive, rfl, present, notEdge⟩, _⟩
  · rw [kept, gone.marks b low inside]
  · exact absurd (releasable.text inline positive present low inside foreign) notEdge

end entry

end removing

/- `bootBlockGeometry` with every block in use: root directory (inode 2, block 96) with
a symlink to "a" (inode 3, inline) and a file (inode 4) whose block is 97, the code of a. -/
def linkInodes : List Byte :=
  List.replicate 128 0 ++
  [0xED, 0x41, 0, 0, 0, 4] ++ List.replicate 20 0 ++ [2, 0, 2] ++ List.replicate 11 0 ++ [0x60] ++
  List.replicate 87 0 ++
  [0xFF, 0xA1, 0, 0, 1] ++ List.replicate 21 0 ++ [1] ++ List.replicate 13 0 ++ [0x61] ++
  List.replicate 87 0 ++
  [0xA4, 0x81, 0, 0, 10] ++ List.replicate 21 0 ++ [1, 0, 2] ++ List.replicate 11 0 ++ [0x61]

def linkRoot : List Byte :=
  [2, 0, 0, 0, 12, 0, 1, 2, dot, 0, 0, 0, 2, 0, 0, 0, 12, 0, 2, 2, dot, dot, 0, 0,
    3, 0, 0, 0, 12, 0, 1, 7, 0x6C, 0, 0, 0, 4, 0, 0, 0, 0xDC, 3, 1, 1, 0x66]

def linkSector (s o : Nat) : Byte :=
  if s = 6 ∨ s = 7 ∨ s = 10 ∨ s = 11 then 0xFF
  else if s = 8 then (if o = 0 then 0x0E else 0)
  else if s = 14 then linkInodes.getD o 0
  else if s = 192 then linkRoot.getD o 0
  else 0

def linkFs : FsInfo where
  bgFree := fun kind group => match kind with
    | .block => 0
    | .inode => if group = 0 then 5 else 8
  bgUsedDirs := fun group => if group = 0 then 1 else 0
  sFree := fun kind => match kind with
    | .block => 0
    | .inode => 13
  bitmapGroup := none
  bitmap := fun _ => Buf.zero
  bitmapDirty := fun _ => false
  gdtDirty := false
  sbDirty := false
  dev := ⟨linkSector, [], []⟩

theorem linkBlockBit {group i : Nat} (real : group < 2) (small : i < 8 * 1024) :
    (image bootBlockGeometry linkFs .block group).getBit i = true := by
  have within : i / 8 < 1024 := by omega
  have low : i % 8 < 8 := Nat.mod_lt _ (by decide)
  have sectors : (3 + 2 * group) * 2 + i / 8 / 512 = 6 ∨ (3 + 2 * group) * 2 + i / 8 / 512 = 7 ∨
      (3 + 2 * group) * 2 + i / 8 / 512 = 10 ∨ (3 + 2 * group) * 2 + i / 8 / 512 = 11 := by omega
  show (if i / 8 < 1024 then linkSector ((3 + 2 * group) * 2 + i / 8 / 512) (i / 8 % 512)
    else 0).getLsbD (i % 8) = true
  rw [if_pos within, linkSector, if_pos sectors]
  generalize i % 8 = k at low
  interval_cases k <;> rfl

theorem linkUsed {b : Nat} (low : 1 ≤ b) (inside : b < 16384) :
    allocated bootBlockGeometry linkFs b = true := by
  refine linkBlockBit ?_ ?_ <;> simp only [Geometry.place, bootBlockGeometry] <;> omega

theorem linkInUse {ino : Nat} (inUse : InUse bootBlockGeometry linkFs ino) :
    ino = 2 ∨ ino = 3 ∨ ino = 4 := by
  have low := inUse.positive
  have high : ino ≤ 16 := inUse.inside
  have used := inUse.used
  interval_cases ino <;> first | decide | exact absurd used (by decide)

theorem linkTree {ino c : Nat} (one : ∀ k < 15, (inodeAt bootBlockGeometry linkFs ino).iBlock k =
      if k = 0 then c else 0) {slot : Nat} {path : List Nat}
    (pos : Pos bootBlockGeometry slot path)
    (present : (treeOf bootBlockGeometry (linkFs, inodeAt bootBlockGeometry linkFs ino)).nodeAt
      slot path ≠ 0) : slot = 0 ∧ path = [] ∧
    (treeOf bootBlockGeometry (linkFs, inodeAt bootBlockGeometry linkFs ino)).nodeAt slot path =
      c := by
  have slotZero : slot = 0 := by
    by_contra other
    have root : (treeOf bootBlockGeometry (linkFs, inodeAt bootBlockGeometry linkFs ino)).nodeAt
        slot [] = 0 := (one slot pos.1).trans (if_neg other)
    have below := PtrTree.nodeAppend root path
    rw [List.append_nil] at below
    exact present below
  subst slotZero
  have pathNil : path = [] := List.length_eq_zero_iff.mp (Nat.le_zero.mp pos.2.1)
  subst pathNil
  exact ⟨rfl, rfl, one 0 (by decide)⟩

theorem rootTree (k : Nat) (low : k < 15) :
    (inodeAt bootBlockGeometry linkFs 2).iBlock k = if k = 0 then 96 else 0 := by
  interval_cases k <;> decide

theorem fileTree (k : Nat) (low : k < 15) :
    (inodeAt bootBlockGeometry linkFs 4).iBlock k = if k = 0 then 97 else 0 := by
  interval_cases k <;> decide

theorem linkInline : (inodeAt bootBlockGeometry linkFs 3).Inline := by
  unfold Inode.Inline
  decide

theorem linkOwns {ino b : Nat} (owns : Owns bootBlockGeometry linkFs ino b) :
    (ino = 2 ∧ b = 96) ∨ (ino = 4 ∧ b = 97) := by
  obtain ⟨slot, path, _, pos, nonzero, rfl⟩ := owns.inTree
  rcases linkInUse owns.inUse with rfl | rfl | rfl
  · exact .inl ⟨rfl, (linkTree rootTree pos nonzero).2.2⟩
  · exact absurd owns.holds (inlineHoldsNot linkInline)
  · exact .inr ⟨rfl, (linkTree fileTree pos nonzero).2.2⟩

theorem linkConsistent : Consistent bootBlockGeometry linkFs where
  coherent := ⟨noneShortNil, nofun, nofun⟩
  counted :=
    { group := by
        intro kind group inside
        replace inside : group < 2 := inside
        cases kind with
        | block =>
          have none_ : freeBits bootBlockGeometry linkFs .block group = ∅ := by
            refine Finset.eq_empty_of_forall_notMem fun i member => ?_
            have small := (validReal bootBlockSound inside (mem_freeBits.mp member).1).2
            rw [mem_freeBits, linkBlockBit inside small] at member
            exact absurd member.2 (by decide)
          rw [none_]
          rfl
        | inode => interval_cases group <;> decide
      total := by
        intro kind
        cases kind <;> decide }
  reservedUsed b low inside _ := linkUsed low inside
  distinct ino inUse holds := by
    intro slot path slot' path' pos pos' present same
    have present' := present
    rw [same] at present'
    rcases linkInUse inUse with rfl | rfl | rfl
    · obtain ⟨rfl, rfl, _⟩ := linkTree rootTree pos present
      obtain ⟨rfl, rfl, _⟩ := linkTree rootTree pos' present'
      exact ⟨rfl, rfl⟩
    · exact absurd holds (inlineHoldsNot linkInline)
    · obtain ⟨rfl, rfl, _⟩ := linkTree fileTree pos present
      obtain ⟨rfl, rfl, _⟩ := linkTree fileTree pos' present'
      exact ⟨rfl, rfl⟩
  data ino b owns := by
    have notMetadata {b : Nat} (high : 9 ≤ b) : ¬ bootBlockGeometry.Metadata b := by
      rintro (system | ⟨ino, _, known, rfl⟩)
      · have := (bootBlockSystem system).2
        omega
      · simp only [bootBlockGeometry, Geometry.inodeBlock, Geometry.inodeGroup,
          Geometry.inodeIndex, u32] at known high
        omega
    rcases linkOwns owns with ⟨_, rfl⟩ | ⟨_, rfl⟩
    · exact ⟨by decide, by decide, notMetadata (by decide), linkUsed (by decide) (by decide)⟩
    · exact ⟨by decide, by decide, notMetadata (by decide), linkUsed (by decide) (by decide)⟩
  apart ino ino' b owns owns' := by
    rcases linkOwns owns with ⟨rfl, rfl⟩ | ⟨rfl, rfl⟩ <;>
      rcases linkOwns owns' with ⟨rfl, same⟩ | ⟨rfl, same⟩ <;> first | rfl | cases same

theorem linkUses (ino : Nat) (known : ino = 2 ∨ ino = 3 ∨ ino = 4) :
    InUse bootBlockGeometry linkFs ino := by
  rcases known with rfl | rfl | rfl <;> exact ⟨by decide, by decide, by decide⟩

theorem linkNamed (name : Byte) {ino : Nat} (known : ino = 3 ∨ ino = 4)
    (found : (Removal.unlink.entry bootBlockGeometry [name] 0 linkFs).1.map
      (fun e => (e.parentIno, e.ino)) = some (2, ino)) :
    ∃ e m, Removal.unlink.entry bootBlockGeometry [name] 0 (linkFs.facing []) = (some e, m) ∧
      Listed bootBlockGeometry linkFs e ∧ e.ino = ino ∧
      e.inode = inodeAt bootBlockGeometry linkFs ino := by
  rcases ran : Removal.unlink.entry bootBlockGeometry [name] 0 linkFs with ⟨_ | e, m⟩
  · rw [ran] at found
    cases found
  rw [ran] at found
  obtain ⟨parentIs, rfl⟩ := Prod.mk.inj (Option.some.inj found)
  have listed : Listed bootBlockGeometry linkFs e := by
    refine ⟨?_, linkUses _ (by omega), ?_⟩
    · rw [parentIs]
      exact linkUses 2 (.inl rfl)
    · rw [parentIs]
      omega
  exact ⟨e, m, ran, listed, rfl,
    (nameGone bootBlockSound linkConsistent listed noneShortNil ran).inode⟩

end Scepter.Ext2
