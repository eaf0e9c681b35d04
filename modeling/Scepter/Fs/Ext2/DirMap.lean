import Scepter.Fs.Ext2.DirScan

/-! Adding and removing names (ext2_dir.c), on a map from names to inode numbers. That
ext2_deindex_dir clears a feature bit shows in the geometry it returns. -/
namespace Scepter.Ext2

open Block Prog

def Geometry.cleared (geo : Geometry) : Geometry :=
  { geo with sRest := geo.sRest.setU32 92 (geo.sRest.getU32 92 &&& 0xFFFFFFDF) }

def ext2DeindexDir (geo : Geometry) (dirIno : Nat) (dir : Inode) (buf : Buf) :
    Prog FsInfo (Geometry × Buf) :=
  if !hasDirIndex geo then pure (geo, buf)
  else do
    match ← attempt (ext2Bmap geo dir 0) with
    | none => pure (geo, buf)
    | some dblk =>
      if dblk = 0 then pure (geo, buf)
      else
        let buf ← ext2ReadBlock geo dblk buf
        if !indexRoot geo buf then pure (geo, buf)
        else
          let buf := plainRoot geo dirIno (direntIno buf 12)
          ext2WriteBlock geo dblk buf
          modify fun fs => { fs with sbDirty := true }
          pure (geo.cleared, buf)

def growDir (geo : Geometry) (dirIno ino : Nat) (name : List Byte) (ftype : Byte) :
    Prog (FsInfo × Inode) Unit := do
  let s ← get
  let numBlocks := blocksOf geo s.2.iSize
  let dblk ← ext2BmapAlloc geo dirIno numBlocks
  onFst (ext2WriteBlock geo dblk
    (ext2WriteDirent geo Buf.zero 0 ino name ftype (u16 geo.blockSize)))
  modify fun s => (s.1, s.2.setU32 4 (u32 ((numBlocks + 1) * geo.blockSize)))

def insertName (geo : Geometry) (dirIno ino : Nat) (name : List Byte) (ftype : Byte)
    (now : Nat) (buf : Buf) : Prog (FsInfo × Inode) Geometry := do
  let s ← get
  let added ← onFst (scanBlocksOf geo s.2 (freeEntry (ext2RecLen name.length))
    (fun dblk buf off _ => do
      ext2WriteBlock geo dblk (insertEntry geo buf off ino name ftype)
      pure true)
    (pure false) (dirBlocks geo s.2) buf)
  if added then pure () else growDir geo dirIno ino name ftype
  ext2RefreshBlocks geo
  modify fun s => (s.1, (s.2.setU32 16 now).setU32 12 now)
  pure geo

def ext2AddDirent (geo : Geometry) (dirIno ino : Nat) (name : List Byte) (ftype : Byte)
    (now : Nat) : Prog (FsInfo × Inode) Geometry := do
  let s ← get
  if !ext2IsDir s.2.iMode then fail
  else if name.length = 0 ∨ 255 < name.length then fail
  else
    let (geo, buf) ← onFst (ext2DeindexDir geo dirIno s.2 Buf.zero)
    insertName geo dirIno ino name ftype now buf

inductive DirOp
  | add (ino : Nat) (ftype : Byte)
  | remove

namespace DirOp

/- The operation on the directory's inode in memory; the inode is not written back. -/
def run (geo : Geometry) (dirIno : Nat) (name : List Byte) (now : Nat) :
    DirOp → Prog (FsInfo × Inode) Geometry
  | add ino ftype => ext2AddDirent geo dirIno ino name ftype now
  | remove => do
    let s ← get
    let dir ← onFst (ext2RemoveDirent geo s.2 name now)
    modify fun s => (s.1, dir)
    pure geo

def result : DirOp → Option Nat
  | add ino _ => some ino
  | remove => none

end DirOp

structure Indexed (geo : Geometry) (s : FsInfo × Inode) : Prop where
  feature : hasDirIndex geo = true
  mapped : fileNode geo s 0 ≠ 0
  root : indexRoot geo (dirBuf geo s 0) = true

variable {geo : Geometry}

/-! ## One block written -/

structure LeafSet (geo : Geometry) (s t : FsInfo × Inode) (b : Nat) (buf : Buf) : Prop where
  sane : Sane geo t
  inode : t.2 = s.2
  nodes : ∀ b', fileNode geo t b' = fileNode geo s b'
  others : ∀ b', b' ≠ b → fileNode geo s b' ≠ 0 → dirBuf geo t b' = dirBuf geo s b'
  here : ∀ o < geo.blockSize, dirBuf geo t b o = buf o

section leaf

variable (sound : geo.Sound)
include sound

theorem leafApart {s : FsInfo × Inode} {b slot : Nat} {path : List Nat} (sane : Sane geo s)
    (pos : Pos geo slot path) (mapped : fileNode geo s b ≠ 0)
    (apart : position geo b ≠ some (slot, path)) :
    (treeOf geo s).nodeAt slot path ≠ fileNode geo s b := by
  intro same
  unfold fileNode at same mapped
  rcases at_ : position geo b with _ | ⟨slot', path'⟩
  · rw [at_] at mapped
    exact absurd rfl mapped
  · rw [at_] at same mapped
    obtain ⟨pos', -⟩ := positionPos sound at_
    obtain ⟨rfl, rfl⟩ := sane.distinct _ _ _ _ pos' pos mapped same.symm
    exact apart at_

theorem fileNodeApart {s : FsInfo × Inode} {b b' : Nat} (sane : Sane geo s) (differ : b' ≠ b)
    (mapped : fileNode geo s b ≠ 0) (mapped' : fileNode geo s b' ≠ 0) :
    fileNode geo s b' ≠ fileNode geo s b := by
  rcases at_ : position geo b' with _ | ⟨slot, path⟩
  · unfold fileNode at mapped'
    rw [at_] at mapped'
    exact absurd rfl mapped'
  · have node : fileNode geo s b' = (treeOf geo s).nodeAt slot path := by
      unfold fileNode
      rw [at_]
    rw [node]
    exact leafApart sound sane (positionPos sound at_).1 mapped fun same =>
      differ (positionInjective at_ same)

theorem writeLeaf {fs : FsInfo} {dir : Inode} {b : Nat} {d : Device} {buf : Buf}
    (sane : Sane geo (fs, dir)) (mapped : fileNode geo (fs, dir) b ≠ 0)
    (writes : WritesBlocks geo (· = fileNode geo (fs, dir) b) fs.dev d)
    (data : blockAt geo d (fileNode geo (fs, dir) b) = Buf.overlay geo.blockSize buf Buf.zero) :
    LeafSet geo (fs, dir) ({ fs with dev := d }, dir) b buf := by
  have leaf := fileNodeData sound sane mapped
  have index {slot i : Nat} {up : List Nat} (pos : Pos geo slot (i :: up)) :
      (treeOf geo (fs, dir)).nodeAt slot up ≠ fileNode geo (fs, dir) b := by
    refine leafApart sound sane (posUp _ _ _ pos) mapped fun at_ => ?_
    have full := (positionPos sound at_).2
    have short := pos.2.1
    rw [List.length_cons] at short
    omega
  have node {slot : Nat} {path : List Nat} (pos : Pos geo slot path) :
      (treeOf geo ({ fs with dev := d }, dir)).nodeAt slot path =
        (treeOf geo (fs, dir)).nodeAt slot path := by
    refine PtrTree.nodeSame (t := treeOf geo (fs, dir))
      (u := treeOf geo ({ fs with dev := d }, dir)) posUp (fun _ _ => rfl)
      (fun slot i up pos _ => ?_) pos
    show (blockAt geo d _).getU32 (4 * i) = (blockAt geo fs.dev _).getU32 (4 * i)
    rw [blockKept sound writes (index pos)]
  obtain ⟨coherent, same⟩ := writeApart sound sane.coherent writes fun kind group real h =>
    leaf.notMetadata (.inl (.inl ⟨group, kind, sound.realInside real, real, h.symm⟩))
  have nodes (b' : Nat) :
      fileNode geo ({ fs with dev := d }, dir) b' = fileNode geo (fs, dir) b' := by
    unfold fileNode
    rcases at_ : position geo b' with _ | ⟨slot, path⟩
    · rfl
    · exact node (positionPos sound at_).1
  refine ⟨⟨coherent, ?_, ?_, ?_⟩, rfl, nodes, ?_, ?_⟩
  · intro x low inside reserved
    rw [same.allocated sound low inside]
    exact sane.reservedUsed x low inside reserved
  · intro slot path slot' path' pos pos'
    rw [node pos, node pos']
    exact sane.distinct slot path slot' path' pos pos'
  · intro slot path pos
    rw [node pos]
    intro present
    have data := sane.data slot path pos present
    exact ⟨data.low, data.inside, data.notMetadata, by
      rw [same.allocated sound data.low data.inside]; exact data.used⟩
  · intro b' differ mapped'
    unfold dirBuf
    rw [nodes]
    exact blockKept sound writes (fileNodeApart sound sane differ mapped mapped')
  · intro o small
    unfold dirBuf
    rw [nodes, data]
    exact if_pos small

end leaf

theorem listingCongr {s t : FsInfo × Inode} {bs : List Nat}
    (same : ∀ b ∈ bs, dirRow geo t b = dirRow geo s b) : listing geo t bs = listing geo s bs := by
  induction bs with
  | nil => rfl
  | cons b rest ih =>
    show Slot.contents (dirRow geo t b) ++ listing geo t rest = _ ++ listing geo s rest
    rw [same b List.mem_cons_self, ih fun x member => same x (List.mem_cons_of_mem b member)]

theorem rangeSplit {n b : Nat} {pre post : List Nat} (split : List.range n = pre ++ b :: post) :
    (∀ x ∈ pre, x ≠ b) ∧ ∀ x ∈ post, x ≠ b := by
  have once : (pre ++ b :: post).Nodup := split ▸ List.nodup_range
  obtain ⟨-, once', apart⟩ := List.nodup_append.mp once
  refine ⟨fun x member => apart x member b List.mem_cons_self, ?_⟩
  rintro x member rfl
  exact (List.nodup_cons.mp once').1 member

theorem LeafSet.names {s t : FsInfo × Inode} {b : Nat} {buf : Buf} {pre post : List Nat}
    (set : LeafSet geo s t b buf) (split : dirBlocks geo s.2 = pre ++ b :: post) :
    names geo s = listing geo s pre ++ (Slot.contents (dirRow geo s b) ++ listing geo s post) ∧
      names geo t =
        listing geo s pre ++ (Slot.contents (dirRow geo t b) ++ listing geo s post) := by
  obtain ⟨before, after⟩ := rangeSplit split
  have same {x : Nat} (differ : x ≠ b) : dirRow geo t x = dirRow geo s x := by
    unfold dirRow
    rw [set.nodes]
    split
    · rfl
    · rw [set.others x differ ‹_›]
  unfold Ext2.names
  rw [set.inode, split, listingAppend, listingAppend,
    listingCongr fun x member => same (before x member)]
  refine ⟨rfl, ?_⟩
  show _ ++ (Slot.contents (dirRow geo t b) ++ listing geo t post) = _
  rw [listingCongr fun x member => same (after x member)]

theorem LeafSet.formed (large : 8 ≤ geo.blockSize) {s t : FsInfo × Inode} {b : Nat} {buf : Buf}
    (set : LeafSet geo s t b buf) (mapped : fileNode geo s b ≠ 0) (formed : DirFormed geo s)
    (formedB : BlockFormed geo buf) : DirFormed geo t ∧ dirRow geo t b = rowOf geo buf := by
  obtain ⟨here, row⟩ := formedSame large formedB set.here
  refine ⟨⟨set.sane, by rw [set.inode]; exact formed.isDir, ?_⟩, ?_⟩
  · intro x member mapped'
    rw [set.inode] at member
    rw [set.nodes] at mapped'
    by_cases same : x = b
    · rw [same]
      exact here
    · rw [set.others x same mapped']
      exact formed.blocks x member mapped'
  · unfold dirRow
    rw [set.nodes, if_neg mapped, row]

/-! ## The inode -/

structure Touched (geo : Geometry) (s t : FsInfo × Inode) : Prop where
  sane : Sane geo t
  tree : treeOf geo t = treeOf geo s
  blocks : ∀ b, blockAt geo t.1.dev b = blockAt geo s.1.dev b
  size : t.2.iSize = s.2.iSize
  mode : t.2.iMode = s.2.iMode

theorem Touched.trans {s m t : FsInfo × Inode} (one : Touched geo s m) (two : Touched geo m t) :
    Touched geo s t :=
  ⟨two.sane, two.tree.trans one.tree, fun b => (two.blocks b).trans (one.blocks b),
    two.size.trans one.size, two.mode.trans one.mode⟩

theorem Touched.nodes {s t : FsInfo × Inode} (touched : Touched geo s t) (b : Nat) :
    fileNode geo t b = fileNode geo s b ∧ dirBuf geo t b = dirBuf geo s b := by
  have node : fileNode geo t b = fileNode geo s b := by
    unfold fileNode
    rw [touched.tree]
  refine ⟨node, ?_⟩
  unfold dirBuf
  rw [node, touched.blocks]

theorem Touched.names {s t : FsInfo × Inode} (touched : Touched geo s t) :
    names geo t = names geo s := by
  unfold Ext2.names dirBlocks
  rw [touched.size]
  refine listingCongr fun b _ => ?_
  unfold dirRow
  rw [(touched.nodes b).1, (touched.nodes b).2]

theorem Touched.formed {s t : FsInfo × Inode} (touched : Touched geo s t)
    (formed : DirFormed geo s) : DirFormed geo t := by
  refine ⟨touched.sane, by rw [touched.mode]; exact formed.isDir, fun b member mapped => ?_⟩
  unfold dirBlocks at member
  rw [touched.size] at member
  rw [(touched.nodes b).1] at mapped
  rw [(touched.nodes b).2]
  exact formed.blocks b member mapped

theorem touchedRead (sound : geo.Sound) {fs m : FsInfo} {dir : Inode} (sane : Sane geo (fs, dir))
    (reads : Keeping geo (fun _ => False) fs m) : Touched geo (fs, dir) (m, dir) := by
  obtain ⟨sane', tree, blocks, -⟩ := sane.read sound reads
  exact ⟨sane', tree, blocks, rfl, rfl⟩

theorem writeAfterRead (sound : geo.Sound) {fs m t : FsInfo} {dir : Inode} {b : Nat} {buf : Buf}
    (sane : Sane geo (fs, dir)) (reads : Keeping geo (fun _ => False) fs m)
    (mapped : fileNode geo (fs, dir) b ≠ 0)
    (wrote : ext2WriteBlock geo (fileNode geo (fs, dir) b) buf m = (some (), t)) :
    LeafSet geo (fs, dir) (t, dir) b buf := by
  have touched := touchedRead sound sane reads
  have nodes (b' : Nat) := touched.nodes b'
  rw [← (nodes b).1] at mapped wrote
  rcases writeBlockCases sound (fileNode geo (m, dir) b) buf touched.sane.coherent.unbroken with
    ⟨d, wrote', _⟩ | ⟨d, wrote', writes, _, data⟩
  · rw [wrote'] at wrote
    cases wrote
  rw [wrote'] at wrote
  cases wrote
  have set := writeLeaf sound touched.sane mapped writes data
  refine ⟨set.sane, rfl, fun b' => (set.nodes b').trans (nodes b').1, ?_, set.here⟩
  intro b' differ mapped'
  rw [set.others b' differ (by rw [(nodes b').1]; exact mapped'), (nodes b').2]

theorem LeafSet.dirtied {s : FsInfo × Inode} {fs : FsInfo} {dir : Inode} {b : Nat} {buf : Buf}
    (set : LeafSet geo s (fs, dir) b buf) :
    LeafSet geo s ({ fs with sbDirty := true }, dir) b buf := by
  obtain ⟨⟨coherent, reserved, distinct, data⟩, inode, nodes, others, here⟩ := set
  refine ⟨⟨⟨coherent.unbroken, coherent.resident, coherent.clean⟩, reserved, distinct, ?_⟩,
    inode, nodes, others, here⟩
  intro slot path pos present
  have block := data slot path pos present
  exact ⟨block.low, block.inside, block.notMetadata, block.used⟩

theorem fieldSane {fs : FsInfo} {dir : Inode} (sane : Sane geo (fs, dir)) {o : Nat} (v : Nat)
    (low : 2 ≤ o) (high : o + 4 ≤ 40) :
    Sane geo (fs, dir.setU32 o v) ∧ treeOf geo (fs, dir.setU32 o v) = treeOf geo (fs, dir) ∧
      Inode.iMode (dir.setU32 o v) = dir.iMode := by
  have roots : Inode.iBlock (dir.setU32 o v) = dir.iBlock := by
    funext k
    exact Buf.getU32SetApart _ _ (by omega)
  have tree : treeOf geo (fs, dir.setU32 o v) = treeOf geo (fs, dir) := by
    unfold treeOf
    dsimp only
    rw [roots]
  refine ⟨⟨sane.coherent, sane.reservedUsed, ?_, ?_⟩, tree, ?_⟩
  · rw [tree]
    exact sane.distinct
  · rw [tree]
    exact sane.data
  · refine Buf.getU16Congr fun i _ small => ?_
    show Buf.setU32 dir o v i = dir i
    unfold Buf.setU32
    rw [if_neg (by omega)]

theorem touchedField {fs : FsInfo} {dir : Inode} (sane : Sane geo (fs, dir)) {o v : Nat}
    (low : 8 ≤ o) (high : o + 4 ≤ 40) : Touched geo (fs, dir) (fs, dir.setU32 o v) := by
  obtain ⟨sane', tree, mode⟩ := fieldSane sane v (by omega) high
  exact ⟨sane', tree, fun _ => rfl, Buf.getU32SetApart _ _ (by omega), mode⟩

def SameHead (s t : FsInfo × Inode) : Prop := ∀ o < 40, t.2 o = s.2 o

instance : IsPreorder (FsInfo × Inode) SameHead where
  refl _ _ _ := rfl
  trans _ _ _ one two o small := (two o small).trans (one o small)

theorem bmapAllocHead (geo : Geometry) (ino n : Nat) (s : FsInfo × Inode) :
    Leaves SameHead (ext2BmapAlloc geo ino n) s := by
  have first {α : Type} (p : Prog FsInfo α) (s : FsInfo × Inode) : Leaves SameHead (onFst p) s :=
    fun _ _ => rfl
  have root (k : Nat) (s : FsInfo × Inode) : Leaves SameHead (rootBlock geo ino k) s := by
    unfold rootBlock
    refine leavesBind (fun _ _ => rfl) fun s' m got => ?_
    split
    · refine leavesBind (first _ m) fun blk m' _ => ?_
      refine leavesBind (leavesModify fun o small => ?_) fun _ m'' _ => ?_
      · show (m'.2.setU32 (40 + 4 * k) blk) o = m'.2 o
        rw [Buf.setU32, if_neg (by omega)]
      · exact leavesBind (fun _ _ => rfl) fun _ m _ => leavesPure _ m
    · exact leavesPure _ m
  have entries (below : List Nat) (block : Nat) (buf : Buf) (s : FsInfo × Inode) :
      Leaves SameHead (extend geo ino below block buf) s := by
    induction below generalizing block buf s with
    | nil => exact leavesPure _ s
    | cons i rest ih =>
      unfold extend
      refine leavesBind ?_ fun _ m _ => ih _ _ m
      unfold entryBlock
      refine leavesBind (first _ s) fun _ m _ => ?_
      split
      · refine leavesBind (first _ m) fun _ m _ => ?_
        exact leavesBind (first _ m) fun _ m _ => leavesPure _ m
      · exact leavesPure _ m
  rw [bmapAllocExtend]
  split
  · exact leavesBind (root _ s) fun _ m _ => entries _ _ _ m
  · exact leavesFail s

/-! ## Without the index -/

theorem clearedRow (buf : Buf) : rowOf geo.cleared buf = rowOf geo buf := by
  have slots (fuel off : Nat) : slotsFrom geo.cleared buf fuel off = slotsFrom geo buf fuel off := by
    induction fuel generalizing off with
    | zero => rfl
    | succ fuel ih =>
      unfold slotsFrom
      rw [ih]
      rfl
  exact slots geo.blockSize 0

theorem clearedNames (s : FsInfo × Inode) : names geo.cleared s = names geo s := by
  have rows (b : Nat) : dirRow geo.cleared s b = dirRow geo s b := by
    unfold dirRow
    rw [clearedRow]
    rfl
  unfold names listing
  simp only [rows]
  rfl

theorem clearedFormed {s : FsInfo × Inode} (formed : DirFormed geo s) :
    DirFormed geo.cleared s := by
  obtain ⟨⟨coherent, reserved, distinct, data⟩, isDir, blocks⟩ := formed
  refine ⟨⟨⟨coherent.unbroken, coherent.resident, coherent.clean⟩, reserved, distinct, ?_⟩, isDir, ?_⟩
  · intro slot path pos present
    have block := data slot path pos present
    exact ⟨block.low, block.inside, block.notMetadata, block.used⟩
  · intro b member mapped
    have block := blocks b member mapped
    refine ⟨?_, ?_⟩
    · rw [clearedRow]
      exact block.packed
    · rw [clearedRow]
      exact block.fills

theorem clearedSound (sound : geo.Sound) : geo.cleared.Sound := by
  obtain ⟨h1, h2, h3, h4, h5, h6, h7, h8, h9, h10, h11, h12, h13, h14, h15, h16⟩ := sound
  exact ⟨h1, h2, h3, h4, h5, h6, h7, h8, h9, h10, h11, h12, h13, h14, h15, h16⟩

theorem indexRootCongr {a b : Buf} (same : ∀ o < 32, b o = a o) :
    indexRoot geo b = indexRoot geo a := by
  have recLens {off : Nat} (small : off + 6 ≤ 32) : recLen b off = recLen a off :=
    Buf.getU16Congr fun o _ high => same o (by omega)
  have nameLens {off : Nat} (small : off + 7 ≤ 32) : nameLen b off = nameLen a off := by
    unfold nameLen
    rw [same _ (by omega)]
  have direntNames {off len : Nat} (small : off + 8 + len ≤ 32) :
      direntName b off len = direntName a off len :=
    List.map_congr_left fun k member => same _ (by have := List.mem_range.mp member; omega)
  have data : ((List.range' 24 8).any fun i => b i != 0) =
      (List.range' 24 8).any fun i => a i != 0 := by
    rw [Bool.eq_iff_iff, List.any_eq_true, List.any_eq_true]
    refine exists_congr fun i => and_congr_right fun member => ?_
    have small := (List.mem_range'_1.mp member).2
    rw [same i (by omega)]
  unfold indexRoot
  rw [recLens (by omega), nameLens (by omega), direntNames (by omega), nameLens (by omega),
    direntNames (by omega), recLens (by omega), data]

section deindexing

variable (sound : geo.Sound)
include sound

theorem deindexCases {fs t : FsInfo} {dir : Inode} {dirIno : Nat} {buf buf' : Buf}
    {geo' : Geometry} (sane : Sane geo (fs, dir))
    (ran : ext2DeindexDir geo dirIno dir buf fs = (some (geo', buf'), t)) :
    (geo' = geo ∧ ¬ Indexed geo (fs, dir) ∧ Keeping geo (fun _ => False) fs t) ∨
      (geo' = geo.cleared ∧ Indexed geo (fs, dir) ∧ LeafSet geo (fs, dir) (t, dir) 0
        (plainRoot geo dirIno (direntIno (dirBuf geo (fs, dir) 0) 12))) := by
  obtain ⟨large, -⟩ := blockLarge sound
  have refl := refl_of (Keeping geo fun _ => False) fs
  unfold ext2DeindexDir at ran
  cases feature : hasDirIndex geo with
  | false =>
    rw [feature] at ran
    cases ran
    exact .inl ⟨rfl, fun indexed => (nomatch feature.symm.trans indexed.feature), refl⟩
  | true =>
    rw [feature] at ran
    rw [if_neg nofun] at ran
    obtain ⟨mapped, m, took, ran⟩ := bindSome.mp ran
    rcases bmap : ext2Bmap geo dir 0 fs with ⟨r, m'⟩
    rw [attemptRun, bmap] at took
    cases took
    -- block 0 is direct: mapping it reads nothing and cannot fail
    have direct : ext2Bmap geo dir 0 fs = (some (fileNode geo (fs, dir) 0), fs) := rfl
    rw [direct] at bmap
    cases bmap
    dsimp only at ran
    split at ran
    · next hole =>
      cases ran
      exact .inl ⟨rfl, fun indexed => indexed.mapped hole, refl⟩
    · next hole =>
      obtain ⟨read, n, took, ran⟩ := bindSome.mp ran
      rcases readBlockCases sound (fileNode geo (fs, dir) 0) buf sane.coherent.unbroken with
        ⟨d, read', _⟩ | ⟨d, read', writes, _⟩
      · rw [read'] at took
        cases took
      have reads := leavesOf (readKeeping sound (fun _ => False)) read'
      rw [read'] at took
      cases took
      have same : ∀ o < geo.blockSize, Buf.overlay geo.blockSize
          (blockAt geo fs.dev (fileNode geo (fs, dir) 0)) buf o = dirBuf geo (fs, dir) 0 o :=
        fun o small => if_pos small
      generalize Buf.overlay geo.blockSize (blockAt geo fs.dev (fileNode geo (fs, dir) 0)) buf =
        read at same ran
      have root : indexRoot geo read = indexRoot geo (dirBuf geo (fs, dir) 0) :=
        indexRootCongr fun o small => same o (by omega)
      have dotdot : direntIno read 12 = direntIno (dirBuf geo (fs, dir) 0) 12 :=
        Buf.getU32Congr fun o _ high => same o (by omega)
      rw [root, dotdot] at ran
      cases isRoot : indexRoot geo (dirBuf geo (fs, dir) 0) with
      | false =>
        rw [isRoot] at ran
        cases ran
        exact .inl ⟨rfl, fun indexed => (nomatch isRoot.symm.trans indexed.root), reads⟩
      | true =>
        rw [isRoot] at ran
        rw [if_neg nofun] at ran
        obtain ⟨_, p, wrote, ran⟩ := bindSome.mp ran
        cases ran
        refine .inr ⟨rfl, ⟨feature, hole, isRoot⟩, ?_⟩
        exact (writeAfterRead sound sane reads hole wrote).dirtied

end deindexing

/-! ## Adding and removing -/

def HasRoom (geo : Geometry) (s : FsInfo × Inode) (name : List Byte) : Prop :=
  ∃ b ∈ dirBlocks geo s.2, ∃ slot ∈ dirRow geo s b, roomy (ext2RecLen name.length) slot = true

structure Added (geo : Geometry) (s t : FsInfo × Inode) (name : List Byte) (ino : Nat) : Prop where
  formed : DirFormed geo t
  placed : ∃ before after, names geo s = before ++ after ∧
    names geo t = before ++ (name, ino) :: after

theorem Added.touched {s m t : FsInfo × Inode} {name : List Byte} {ino : Nat}
    (added : Added geo s m name ino) (touched : Touched geo m t) : Added geo s t name ino := by
  refine ⟨touched.formed added.formed, ?_⟩
  rw [touched.names]
  exact added.placed

theorem Added.before {s m t : FsInfo × Inode} {name : List Byte} {ino : Nat}
    (added : Added geo m t name ino) (same : names geo m = names geo s) :
    Added geo s t name ino := by
  refine ⟨added.formed, ?_⟩
  rw [← same]
  exact added.placed

section operations

variable (sound : geo.Sound)
include sound

theorem insertAdds {fs m t : FsInfo} {dir : Inode} {name : List Byte} {ino b at_ : Nat}
    {ftype : Byte} {prev : Option Nat} {buf : Buf} (formed : DirFormed geo (fs, dir))
    (nonzero : ino ≠ 0) (inoSmall : ino < 2 ^ 32) (short : name.length < 256)
    (member : b ∈ dirBlocks geo dir) (mapped : fileNode geo (fs, dir) b ≠ 0)
    (same : ∀ o < geo.blockSize, buf o = dirBuf geo (fs, dir) b o)
    (seek : Slot.seek (roomy (ext2RecLen name.length)) 0 none (dirRow geo (fs, dir) b) =
      some (at_, prev))
    (reads : Keeping geo (fun _ => False) fs m)
    (wrote : ext2WriteBlock geo (fileNode geo (fs, dir) b)
      (insertEntry geo buf at_ ino name ftype) m = (some (), t)) :
    Added geo (fs, dir) (t, dir) name ino := by
  obtain ⟨large, small⟩ := blockLarge sound
  obtain ⟨formedB, row⟩ := scannedRow sound (formed.blocks b member mapped) mapped same
  rw [row] at seek
  obtain ⟨formedB', before, after, was, is⟩ :
      BlockFormed geo (insertEntry geo buf at_ ino name ftype) ∧ _ :=
    insertPacked ⟨by omega, small⟩ formedB nonzero inoSmall short seek
  have set := writeAfterRead sound formed.sane reads mapped wrote
  obtain ⟨formed', row'⟩ := set.formed (by omega) mapped formed formedB'
  refine ⟨formed', ?_⟩
  obtain ⟨pre, post, split⟩ := List.append_of_mem member
  obtain ⟨wasAll, isAll⟩ := set.names split
  refine ⟨listing geo (fs, dir) pre ++ before, after ++ listing geo (fs, dir) post, ?_, ?_⟩
  · rw [wasAll, row, was]
    simp only [List.append_assoc]
  · rw [isAll, row', is]
    simp only [List.append_assoc, List.cons_append]

theorem blocksCount (size : Nat) : (blocksOf geo size + 1) * geo.blockSize ≤ 2 ^ 32 := by
  have count := blocksBound geo size
  rcases sound.blockSize with size | size | size <;> rw [size] at count ⊢ <;> omega

theorem blocksGrown {n : Nat} (small : (n + 1) * geo.blockSize < 2 ^ 32) :
    blocksOf geo (u32 ((n + 1) * geo.blockSize)) = n + 1 := by
  unfold blocksOf u32
  rcases sound.blockSize with size | size | size <;> rw [size] at small ⊢ <;> omega

theorem wholeRow (ftype : Byte) {name : List Byte} {ino : Nat} (nonzero : ino ≠ 0)
    (inoSmall : ino < 2 ^ 32) (short : name.length < 256) :
    BlockFormed geo (ext2WriteDirent geo Buf.zero 0 ino name ftype (u16 geo.blockSize)) ∧
      rowOf geo (ext2WriteDirent geo Buf.zero 0 ino name ftype (u16 geo.blockSize)) =
        [⟨geo.blockSize, some (name, ino)⟩] := by
  obtain ⟨large, small⟩ := blockLarge sound
  have whole : u16 geo.blockSize = geo.blockSize := Nat.mod_eq_of_lt small
  have slot := writeDirentSlot geo Buf.zero 0 name ftype inoSmall short small
  rw [if_neg nonzero] at slot
  have even : 4 ∣ geo.blockSize := by
    rcases sound.blockSize with size | size | size <;> rw [size] <;> decide
  have sized : Sized ⟨geo.blockSize, some (name, ino)⟩ := by
    refine ⟨by dsimp only; omega, even, fun e held => ?_⟩
    cases held
    dsimp only
    omega
  rw [whole]
  have packed : Packed (ext2WriteDirent geo Buf.zero 0 ino name ftype geo.blockSize) 0
      [⟨geo.blockSize, some (name, ino)⟩] := ⟨slot, sized, trivial⟩
  exact ⟨blockFormed (by omega) packed rfl, rowOfPacked (by omega) packed rfl⟩

theorem walkedLeaf {s t : FsInfo × Inode} {n x slot : Nat} {path : List Nat} (sane : Sane geo s)
    (walked : Walked geo slot path s t) (at_ : position geo n = some (slot, path)) (differ : x ≠ n) :
    fileNode geo t x = fileNode geo s x ∧
      (fileNode geo s x ≠ 0 → dirBuf geo t x = dirBuf geo s x) := by
  obtain ⟨pos, full⟩ := positionPos sound at_
  have node : fileNode geo t x = fileNode geo s x := by
    unfold fileNode
    rcases atX : position geo x with _ | ⟨slot', path'⟩
    · rfl
    obtain ⟨pos', full'⟩ := positionPos sound atX
    refine walked.others slot' path' pos' ?_
    rintro ⟨rfl, suffix⟩
    have same := suffix.eq_of_length (full'.trans full.symm)
    subst same
    exact differ (positionInjective atX at_)
  refine ⟨node, fun mapped => ?_⟩
  have data := fileNodeData sound sane mapped
  unfold dirBuf
  rw [node]
  refine blockKept sound walked.writes ?_
  rintro (system | fresh | ⟨up, onWay, proper, here⟩)
  · exact data.notMetadata (.inl system)
  · exact absurd data.used (Bool.eq_false_iff.mp fresh.2.2.1)
  · rw [← node] at mapped here
    refine leafApart sound walked.sane (posSuffix pos onWay) mapped ?_ here.symm
    intro atX
    have full' := (positionPos sound atX).2
    exact proper (onWay.eq_of_length (full'.trans full.symm))

theorem growAdds {fs : FsInfo} {dir : Inode} {t : FsInfo × Inode} {dirIno ino : Nat}
    {name : List Byte} {ftype : Byte} (formed : DirFormed geo (fs, dir)) (nonzero : ino ≠ 0)
    (inoSmall : ino < 2 ^ 32) (short : name.length < 256)
    (ran : growDir geo dirIno ino name ftype (fs, dir) = (some (), t)) :
    ((blocksOf geo dir.iSize + 1) * geo.blockSize < 2 ^ 32 → Added geo (fs, dir) t name ino) ∧
      (2 ^ 32 ≤ (blocksOf geo dir.iSize + 1) * geo.blockSize →
        DirFormed geo t ∧ names geo t = []) := by
  unfold growDir at ran
  rw [getBind] at ran
  dsimp only at ran
  generalize count : blocksOf geo dir.iSize = n at ran ⊢
  obtain ⟨dblk, ⟨fs₁, dir₁⟩, alloc, ran⟩ := bindSome.mp ran
  have head := leavesOf (bmapAllocHead geo dirIno n (fs, dir)) alloc
  rw [bmapAllocExtend] at alloc
  rcases at_ : position geo n with _ | ⟨slot, path⟩
  · rw [at_] at alloc
    cases alloc
  rw [at_] at alloc
  obtain ⟨pos, full⟩ := positionPos sound at_
  obtain ⟨first, m, root, alloc⟩ := bindSome.mp alloc
  obtain ⟨made, rfl⟩ := rootPresent sound formed.sane pos.1 root
  obtain ⟨walked, dblkIs⟩ := extendWalked sound path.reverse made.walked (by simpa using pos) alloc
  rw [List.reverse_reverse, List.append_nil] at walked dblkIs
  have node : fileNode geo (fs₁, dir₁) n = dblk := by
    unfold fileNode
    rw [at_, dblkIs]
  have mapped : fileNode geo (fs₁, dir₁) n ≠ 0 := by
    rw [node, dblkIs]
    exact walked.present
  obtain ⟨_, m, wrote, ran⟩ := bindSome.mp ran
  rcases write : ext2WriteBlock geo dblk
    (ext2WriteDirent geo Buf.zero 0 ino name ftype (u16 geo.blockSize)) fs₁ with ⟨r, fs₂⟩
  rw [onFstRun, write] at wrote
  cases wrote
  obtain rfl : t = (fs₂, dir₁.setU32 4 (u32 ((n + 1) * geo.blockSize))) :=
    (congrArg Prod.snd ran).symm
  rw [← node] at write
  have set := writeAfterRead sound walked.sane (refl_of (Keeping geo _) fs₁) mapped write
  obtain ⟨sane, tree, mode⟩ := fieldSane (o := 4) set.sane (u32 ((n + 1) * geo.blockSize))
    (by decide) (by decide)
  have isDir : ext2IsDir (Inode.iMode (dir₁.setU32 4 (u32 ((n + 1) * geo.blockSize)))) = true := by
    have same : dir₁.iMode = dir.iMode := Buf.getU16Congr fun o _ high => head o (by omega)
    rw [mode, same]
    exact formed.isDir
  have size : Inode.iSize (dir₁.setU32 4 (u32 ((n + 1) * geo.blockSize))) =
      u32 ((n + 1) * geo.blockSize) := Buf.getU32Set _ (Nat.mod_lt _ (by decide))
  have nodes (x : Nat) :
      fileNode geo (fs₂, dir₁.setU32 4 (u32 ((n + 1) * geo.blockSize))) x =
        fileNode geo (fs₁, dir₁) x := by
    refine Eq.trans ?_ (set.nodes x)
    unfold fileNode
    rw [tree]
  have bufs (x : Nat) :
      dirBuf geo (fs₂, dir₁.setU32 4 (u32 ((n + 1) * geo.blockSize))) x =
        dirBuf geo (fs₂, dir₁) x := by
    unfold dirBuf
    rw [nodes, set.nodes]
  generalize dir₁.setU32 4 (u32 ((n + 1) * geo.blockSize)) = dir₂ at *
  obtain ⟨large, _⟩ := blockLarge sound
  obtain ⟨whole, wholeIs⟩ := wholeRow sound ftype nonzero inoSmall short
  obtain ⟨here, hereIs⟩ := formedSame (by omega) whole set.here
  constructor
  · intro small
    have blocks : dirBlocks geo dir₂ = List.range n ++ [n] := by
      unfold dirBlocks
      rw [size, blocksGrown sound small, List.range_succ]
    have old {x : Nat} (differ : x ≠ n) :
        fileNode geo (fs₂, dir₂) x = fileNode geo (fs, dir) x ∧
          (fileNode geo (fs, dir) x ≠ 0 → dirBuf geo (fs₂, dir₂) x = dirBuf geo (fs, dir) x) := by
      obtain ⟨same, buf⟩ := walkedLeaf sound formed.sane walked at_ differ
      refine ⟨(nodes x).trans same, fun mapped' => ?_⟩
      rw [bufs, set.others x differ (by rw [same]; exact mapped'), buf mapped']
    have rows {x : Nat} (differ : x ≠ n) : dirRow geo (fs₂, dir₂) x = dirRow geo (fs, dir) x := by
      unfold dirRow
      rw [(old differ).1]
      split
      · rfl
      · rw [(old differ).2 ‹_›]
    refine ⟨⟨sane, isDir, fun x member mapped' => ?_⟩, names geo (fs, dir), [], ?_, ?_⟩
    · rw [blocks] at member
      by_cases same : x = n
      · rw [same, bufs]
        exact here
      · have low : x < n := by
          rcases List.mem_append.mp member with member | member
          · exact List.mem_range.mp member
          · exact absurd (List.mem_singleton.mp member) same
        rw [(old same).1] at mapped'
        rw [(old same).2 mapped']
        exact formed.blocks x (List.mem_range.mpr (count ▸ low)) mapped'
    · rw [List.append_nil]
    · have last : dirRow geo (fs₂, dir₂) n = [⟨geo.blockSize, some (name, ino)⟩] := by
        unfold dirRow
        rw [nodes, if_neg mapped, bufs, hereIs, wholeIs]
      unfold names
      rw [blocks, listingAppend, listingCongr fun x member => rows (by
        have := List.mem_range.mp member
        omega)]
      show _ ++ (Slot.contents (dirRow geo (fs₂, dir₂) n) ++ []) = _
      rw [last, show dirBlocks geo dir = List.range n from congrArg List.range count]
      rfl
  · intro wraps
    have zero : u32 ((n + 1) * geo.blockSize) = 0 := by
      have most := blocksCount sound dir.iSize
      rw [count] at most
      unfold u32
      omega
    have blocks : dirBlocks geo dir₂ = [] := by
      unfold dirBlocks
      rw [size, zero, blocksOfZero sound]
      rfl
    refine ⟨⟨sane, isDir, fun x member => ?_⟩, ?_⟩
    · rw [blocks] at member
      cases member
    · unfold names
      rw [blocks]
      rfl

theorem finishTouched {now : Nat} {m t : FsInfo × Inode} {geo' : Geometry} (sane : Sane geo m)
    (ran : (ext2RefreshBlocks geo >>= fun _ =>
      modify (fun s => (s.1, (s.2.setU32 16 now).setU32 12 now)) >>= fun _ => pure geo) m =
        (some geo', t)) : geo' = geo ∧ Touched geo m t := by
  obtain ⟨fs, dir⟩ := m
  obtain ⟨fs', count, refresh⟩ := refreshCases geo fs dir
  have keeps := refreshKeeping sound fs dir
  rw [refresh] at keeps
  rw [bindOf refresh] at ran
  cases ran
  have read := touchedRead sound sane keeps
  have blocks := touchedField (o := 28) (v := count) read.sane (by decide) (by decide)
  have mtime := touchedField (o := 16) (v := now) blocks.sane (by decide) (by decide)
  have ctime := touchedField (o := 12) (v := now) mtime.sane (by decide) (by decide)
  exact ⟨rfl, read.trans (blocks.trans (mtime.trans ctime))⟩

theorem insertNameAdds {fs : FsInfo} {dir : Inode} {t : FsInfo × Inode} {dirIno ino now : Nat}
    {name : List Byte} {ftype : Byte} {buf : Buf} {geo' : Geometry}
    (formed : DirFormed geo (fs, dir)) (nonzero : ino ≠ 0) (inoSmall : ino < 2 ^ 32)
    (short : name.length < 256)
    (ran : insertName geo dirIno ino name ftype now buf (fs, dir) = (some geo', t)) :
    geo' = geo ∧
      (HasRoom geo (fs, dir) name ∨ (blocksOf geo dir.iSize + 1) * geo.blockSize < 2 ^ 32 →
        Added geo (fs, dir) t name ino) ∧
      (¬ HasRoom geo (fs, dir) name → 2 ^ 32 ≤ (blocksOf geo dir.iSize + 1) * geo.blockSize →
        DirFormed geo t ∧ names geo t = []) := by
  unfold insertName at ran
  rw [getBind] at ran
  obtain ⟨added, m, scan, ran⟩ := bindSome.mp ran
  have scanned := scanOutcome sound (freeEntry (ext2RecLen name.length)) (fun _ => freeRoomy _) (fun dblk buf off _ =>
      ext2WriteBlock geo dblk (insertEntry geo buf off ino name ftype) >>= fun _ => pure true)
    (pure false) formed.sane (dirBlocks geo dir) buf (fun b => dirBlockPlaced sound) formed.blocks
    (refl_of (Keeping geo _) fs)
  dsimp only at scan
  rw [onFstRun] at scan
  generalize scanBlocksOf geo dir (freeEntry (ext2RecLen name.length)) _ _ _ buf fs = result
    at scan scanned
  cases scanned with
  | failed broken => cases scan
  | @hit pre post b at_ prev buf t' split misses mapped same seek reads =>
    have member : b ∈ dirBlocks geo dir := split ▸ by simp
    rcases write : ext2WriteBlock geo (fileNode geo (fs, dir) b)
      (insertEntry geo buf at_ ino name ftype) t' with ⟨_ | _, n⟩
    · rw [bindFails write] at scan
      cases scan
    rw [bindOf write] at scan
    cases scan
    have added := insertAdds sound formed nonzero inoSmall short member mapped same seek reads write
    obtain ⟨rfl, touched⟩ := finishTouched sound added.formed.sane ran
    have room : HasRoom geo' (fs, dir) name := by
      obtain ⟨pre, slot, post, row, -, hit, -⟩ := Slot.seekSome seek
      exact ⟨b, member, slot, row ▸ by simp, hit⟩
    exact ⟨rfl, fun _ => added.touched touched, fun none_ => absurd room none_⟩
  | @missed t' misses reads =>
    cases scan
    obtain ⟨_, n, grown, ran⟩ := bindSome.mp ran
    have read := touchedRead sound formed.sane reads
    obtain ⟨fits, wraps⟩ := growAdds sound (read.formed formed) nonzero inoSmall short grown
    have full : ¬ HasRoom geo (fs, dir) name := by
      rintro ⟨b, member, slot, inRow, hit⟩
      exact nomatch hit.symm.trans (misses b member slot inRow)
    by_cases small : (blocksOf geo dir.iSize + 1) * geo.blockSize < 2 ^ 32
    · have added := (fits small).before read.names
      obtain ⟨rfl, touched⟩ := finishTouched sound added.formed.sane ran
      exact ⟨rfl, fun _ => added.touched touched, fun _ big => absurd small (by omega)⟩
    · obtain ⟨formed', empty⟩ := wraps (by omega)
      obtain ⟨rfl, touched⟩ := finishTouched sound formed'.sane ran
      refine ⟨rfl, fun fits => absurd fits (not_or.mpr ⟨full, small⟩), fun _ _ => ?_⟩
      exact ⟨touched.formed formed', touched.names.trans empty⟩

theorem deletedFormed {buf : Buf} {name : List Byte} {at_ : Nat} {prev : Option Nat}
    (formed : BlockFormed geo buf)
    (seek : Slot.seek (holds name) 0 none (rowOf geo buf) = some (at_, prev)) :
    BlockFormed geo (deleteEntry geo buf at_ prev) ∧ ∃ before after ino,
      Slot.contents (rowOf geo buf) = before ++ (name, ino) :: after ∧
      before.lookup name = none ∧
      Slot.contents (rowOf geo (deleteEntry geo buf at_ prev)) = before ++ after := by
  obtain ⟨large, small⟩ := blockLarge sound
  obtain ⟨pre, slot, post, row, misses, hit, here, last⟩ := Slot.seekSome seek
  have packed := formed.packed
  have fills := formed.fills
  rw [row] at packed fills
  simp only [Nat.zero_add] at here last
  have packed' := deletePacked small packed fills here last
  have fills' : Slot.total (Slot.vacate pre slot post) = geo.blockSize :=
    (Slot.totalVacate pre slot post).trans fills
  have listed : ∃ ino, slot.held = some (name, ino) := by
    unfold holds at hit
    rcases held : slot.held with _ | ⟨name', ino⟩
    · rw [held] at hit
      cases hit
    · rw [held] at hit
      exact ⟨ino, by rw [← beq_iff_eq.mp hit]⟩
  obtain ⟨ino, held⟩ := listed
  obtain ⟨n, _⟩ := slot
  cases held
  refine ⟨blockFormed (by omega) packed' fills', Slot.contents pre, Slot.contents post, ino, ?_,
    missesLookup misses, ?_⟩
  · rw [row, Slot.contentsAppend, Slot.contentsHeld]
  · rw [rowOfPacked (by omega) packed' fills', Slot.contentsVacate]

theorem removeRemoves {fs t : FsInfo} {dir dir' : Inode} {name : List Byte} {now : Nat}
    (formed : DirFormed geo (fs, dir))
    (ran : ext2RemoveDirent geo dir name now fs = (some dir', t)) :
    DirFormed geo (t, dir') ∧ (1 ≤ name.length ∧ name.length ≤ 255) ∧ ∃ before after ino,
      names geo (fs, dir) = before ++ (name, ino) :: after ∧ before.lookup name = none ∧
      names geo (t, dir') = before ++ after := by
  obtain ⟨large, _⟩ := blockLarge sound
  unfold ext2RemoveDirent at ran
  rw [if_neg (by rw [formed.isDir]; nofun)] at ran
  split at ran
  · cases ran
  next fits =>
  have scanned := scanOutcome sound (fun buf => named buf name) (fun buf => namedHolds name)
    (fun dblk buf off prev => ext2WriteBlock geo dblk (deleteEntry geo buf off prev) >>= fun _ =>
      pure ((dir.setU32 16 now).setU32 12 now))
    fail formed.sane (dirBlocks geo dir) Buf.zero (fun b => dirBlockPlaced sound) formed.blocks
    (refl_of (Keeping geo _) fs)
  generalize scanBlocksOf geo dir (fun buf => named buf name) _ _ _ Buf.zero fs = result
    at ran scanned
  cases scanned with
  | failed broken => cases ran
  | missed misses reads => cases ran
  | @hit pre post b at_ prev buf t' split misses mapped same seek reads =>
    have member : b ∈ dirBlocks geo dir := split ▸ by simp
    obtain ⟨_, n, write, ran⟩ := bindSome.mp ran
    cases ran
    obtain ⟨formedB, row⟩ := scannedRow sound (formed.blocks b member mapped) mapped same
    rw [row] at seek
    obtain ⟨formedB', before, after, ino, was, first, is⟩ := deletedFormed sound formedB seek
    have set := writeAfterRead sound formed.sane reads mapped write
    obtain ⟨formed', row'⟩ := set.formed (by omega) mapped formed formedB'
    obtain ⟨wasAll, isAll⟩ := set.names split
    have mtime := touchedField (o := 16) (v := now) formed'.sane (by decide) (by decide)
    have touched := mtime.trans
      (touchedField (o := 12) (v := now) mtime.sane (by decide) (by decide))
    refine ⟨touched.formed formed', by omega, listing geo (fs, dir) pre ++ before,
      after ++ listing geo (fs, dir) post, ino, ?_, ?_, ?_⟩
    · rw [wasAll, row, was]
      simp only [List.append_assoc, List.cons_append]
    · rw [List.lookup_append, listingMisses misses, first, Option.none_or]
    · rw [touched.names, isAll, row', is]
      simp only [List.append_assoc]

def Room (geo : Geometry) (s : FsInfo × Inode) (name : List Byte) : Prop :=
  ∃ b ∈ dirBlocks geo s.2,
    (∃ slot ∈ dirRow geo s b, roomy (ext2RecLen name.length) slot = true) ∨ (b = 0 ∧ Indexed geo s)

theorem deindexed {fs t : FsInfo} {dir : Inode} {dirIno : Nat} {buf buf' : Buf}
    {geo' : Geometry} {name : List Byte} (short : name.length < 256)
    (formed : DirFormed geo (fs, dir))
    (rooted : Indexed geo (fs, dir) → direntIno (dirBuf geo (fs, dir) 0) 0 = dirIno)
    (ran : ext2DeindexDir geo dirIno dir buf fs = (some (geo', buf'), t)) :
    geo'.Sound ∧ geo'.blockSize = geo.blockSize ∧ DirFormed geo' (t, dir) ∧
      names geo' (t, dir) = names geo (fs, dir) ∧
      (HasRoom geo' (t, dir) name ↔ Room geo (fs, dir) name) := by
  obtain ⟨large, _⟩ := blockLarge sound
  rcases deindexCases sound formed.sane ran with ⟨rfl, plain, reads⟩ | ⟨rfl, indexed, set⟩
  · have read := touchedRead sound formed.sane reads
    refine ⟨sound, rfl, read.formed formed, read.names, ?_⟩
    refine exists_congr fun b => and_congr_right fun _ => ?_
    have row : dirRow geo' (t, dir) b = dirRow geo' (fs, dir) b := by
      unfold dirRow
      rw [(read.nodes b).1, (read.nodes b).2]
    rw [row]
    exact (or_iff_left fun indexed => plain indexed.2).symm
  · have ino := rooted indexed
    have inoSmall : dirIno < 2 ^ 32 := ino ▸ Buf.getU32Lt _ _
    obtain ⟨formed₀, row₀⟩ := plainRootRow sound inoSmall
      (Buf.getU32Lt (dirBuf geo (fs, dir) 0) 12)
    obtain ⟨formed', row⟩ := set.formed (by omega) indexed.mapped formed formed₀
    replace row := row.trans row₀
    have same : Slot.contents (dirRow geo (t, dir) 0) = Slot.contents (dirRow geo (fs, dir) 0) := by
      have old : dirRow geo (fs, dir) 0 = rowOf geo (dirBuf geo (fs, dir) 0) :=
        if_neg indexed.mapped
      rw [row, old, indexRootRow sound indexed.root, ino]
      rfl
    have all : names geo (t, dir) = names geo (fs, dir) := by
      by_cases member : 0 ∈ dirBlocks geo dir
      · obtain ⟨pre, post, split⟩ := List.append_of_mem member
        obtain ⟨was, is⟩ := set.names split
        rw [was, is, same]
      · have empty : dirBlocks geo dir = [] := by
          unfold dirBlocks at member ⊢
          rw [List.mem_range, Nat.not_lt, Nat.le_zero] at member
          rw [member]
          rfl
        unfold names
        rw [empty]
        rfl
    refine ⟨clearedSound sound, rfl, clearedFormed formed', (clearedNames _).trans all, ?_⟩
    have roomy₀ : roomy (ext2RecLen name.length) ⟨geo.blockSize - 24, none⟩ = true := by
      have need := recLenNeed short
      unfold roomy
      rw [Option.isNone_none, Bool.true_and, decide_eq_true_iff]
      dsimp only
      omega
    constructor
    · rintro ⟨b, member, -⟩
      have low : b < blocksOf geo dir.iSize := List.mem_range.mp member
      exact ⟨0, List.mem_range.mpr (Nat.lt_of_le_of_lt (Nat.zero_le b) low), .inr ⟨rfl, indexed⟩⟩
    · rintro ⟨b, member, -⟩
      have low := List.mem_range.mp member
      refine ⟨0, List.mem_range.mpr (Nat.lt_of_le_of_lt (Nat.zero_le b) low), _, ?_, roomy₀⟩
      have cleared : dirRow geo.cleared (t, dir) 0 = dirRow geo (t, dir) 0 := by
        unfold dirRow
        rw [clearedRow]
        rfl
      rw [cleared, row]
      simp

end operations

/-! ## The map -/

/-- ext2_lookup gives `name` the result of the operation and every other name what it
gave it before, in a directory that is well formed again. -/
structure Remapped (geo geo' : Geometry) (name : List Byte) (r : Option Nat)
    (s t : FsInfo × Inode) : Prop where
  formed : DirFormed geo' t
  here : LookupIs geo' t name r
  others : ∀ other, other ≠ name → ∀ v, LookupIs geo' t other v ↔ LookupIs geo s other v

namespace DirOp

def New (geo : Geometry) (s : FsInfo × Inode) (name : List Byte) : DirOp → Prop
  | add ino _ => ino ≠ 0 ∧ ino < 2 ^ 32 ∧ LookupIs geo s name none
  | remove => True

def Fits (geo : Geometry) (s : FsInfo × Inode) (name : List Byte) : DirOp → Prop
  | add _ _ => Room geo s name ∨ (blocksOf geo s.2.iSize + 1) * geo.blockSize < 2 ^ 32
  | remove => ((names geo s).map Prod.fst).count name = 1

end DirOp

theorem lookupApart {before after : List (List Byte × Nat)} {name other : List Byte} {ino : Nat}
    (differ : other ≠ name) :
    (before ++ (name, ino) :: after).lookup other = (before ++ after).lookup other := by
  rw [List.lookup_append, List.lookup_append, List.lookup_cons, beq_false_of_ne differ]

theorem countOnce {before after : List (List Byte × Nat)} {name : List Byte} {ino : Nat}
    (first : before.lookup name = none) :
    ((before ++ (name, ino) :: after).map Prod.fst).count name = 1 ↔
      (before ++ after).lookup name = none := by
  have none_ (l : List (List Byte × Nat)) :
      l.lookup name = none ↔ (l.map Prod.fst).count name = 0 := by
    rw [List.lookup_eq_none_iff, List.count_eq_zero]
    constructor
    · rintro absent member
      obtain ⟨e, inList, rfl⟩ := List.mem_map.mp member
      exact absurd (absent e inList) (by simp)
    · intro absent e member
      rw [bne_iff_ne]
      rintro rfl
      exact absent (List.mem_map_of_mem member)
  have zero := (none_ before).mp first
  rw [none_, List.map_append, List.map_append, List.map_cons, List.count_append,
    List.count_append, List.count_cons_self, zero]
  omega

section mapping

variable (sound : geo.Sound)
include sound

theorem remappedIff {geo' : Geometry} (sound' : geo'.Sound) {s t : FsInfo × Inode}
    {name : List Byte} (formed : DirFormed geo s) (formed' : DirFormed geo' t)
    (fits : 1 ≤ name.length ∧ name.length ≤ 255) (r : Option Nat)
    (same : ∀ other, other ≠ name →
      (names geo' t).lookup other = (names geo s).lookup other) :
    Remapped geo geo' name r s t ↔ r = (names geo' t).lookup name := by
  constructor
  · exact fun remapped => (lookupIff sound' formed' fits r).mp remapped.here
  · intro is
    refine ⟨formed', (lookupIff sound' formed' fits r).mpr is, fun other differ v => ?_⟩
    by_cases fits' : 1 ≤ other.length ∧ other.length ≤ 255
    · rw [lookupIff sound' formed' fits', lookupIff sound formed fits', same other differ]
    · rw [lookupRefused fits', lookupRefused fits']

theorem addMaps {fs : FsInfo} {dir : Inode} {t : FsInfo × Inode} {dirIno ino now : Nat}
    {name : List Byte} {ftype : Byte} {geo' : Geometry} (formed : DirFormed geo (fs, dir))
    (rooted : Indexed geo (fs, dir) → direntIno (dirBuf geo (fs, dir) 0) 0 = dirIno)
    (new : (DirOp.add ino ftype).New geo (fs, dir) name)
    (ran : ext2AddDirent geo dirIno ino name ftype now (fs, dir) = (some geo', t)) :
    Remapped geo geo' name (some ino) (fs, dir) t ↔
      (DirOp.add ino ftype).Fits geo (fs, dir) name := by
  obtain ⟨nonzero, inoSmall, absent⟩ := new
  unfold ext2AddDirent at ran
  rw [getBind, if_neg (by rw [formed.isDir]; nofun)] at ran
  split at ran
  · cases ran
  next long =>
  have fits : 1 ≤ name.length ∧ name.length ≤ 255 := by omega
  have short : name.length < 256 := by omega
  obtain ⟨⟨geo₁, buf⟩, m, took, ran⟩ := bindSome.mp ran
  rcases deindex : ext2DeindexDir geo dirIno dir Buf.zero fs with ⟨r, fs₁⟩
  rw [onFstRun, deindex] at took
  cases took
  obtain ⟨sound₁, size, formed₁, same, room⟩ := deindexed sound short formed rooted deindex
  obtain ⟨rfl, adds, wraps⟩ := insertNameAdds sound₁ formed₁ nonzero inoSmall short ran
  have count : blocksOf geo' dir.iSize = blocksOf geo dir.iSize := by
    unfold blocksOf
    rw [size]
  rw [room, count, size] at adds wraps
  show _ ↔ Room geo (fs, dir) name ∨ (blocksOf geo dir.iSize + 1) * geo.blockSize < 2 ^ 32
  have absent' := (lookupIff sound formed fits none).mp absent
  by_cases enough : Room geo (fs, dir) name ∨
      (blocksOf geo dir.iSize + 1) * geo.blockSize < 2 ^ 32
  · refine iff_of_true ?_ enough
    obtain ⟨formed', before, after, was, is⟩ := adds enough
    rw [same] at was
    refine (remappedIff sound sound₁ formed formed' fits _ fun other differ => ?_).mpr ?_
    · rw [is, was, lookupApart differ]
    · have first : before.lookup name = none := by
        rw [was, List.lookup_append] at absent'
        exact (Option.or_eq_none_iff.mp absent'.symm).1
      rw [is, List.lookup_append, first, Option.none_or, List.lookup_cons_self]
  · refine iff_of_false (fun remapped => ?_) enough
    obtain ⟨formed', empty⟩ := wraps (fun room => enough (.inl room)) (by omega)
    have found := (lookupIff sound₁ formed' fits _).mp remapped.here
    rw [empty] at found
    cases found

theorem removeMaps {fs t : FsInfo} {dir dir' : Inode} {name : List Byte} {now : Nat}
    (formed : DirFormed geo (fs, dir))
    (ran : ext2RemoveDirent geo dir name now fs = (some dir', t)) :
    Remapped geo geo name none (fs, dir) (t, dir') ↔ DirOp.remove.Fits geo (fs, dir) name := by
  obtain ⟨formed', fits, before, after, ino, was, first, is⟩ := removeRemoves sound formed ran
  rw [remappedIff sound sound formed formed' fits none fun other differ => by
    rw [is, was, lookupApart differ]]
  show _ ↔ ((names geo (fs, dir)).map Prod.fst).count name = 1
  rw [is, was, countOnce first, eq_comm]

end mapping

def sparseDir (size : Nat) : Inode := (Buf.zero.setU16 0 0x4000).setU32 4 size

theorem sparseHoles (size : Nat) (fs : FsInfo) (slot : Nat) (path : List Nat) :
    (treeOf geo (fs, sparseDir size)).nodeAt slot path = 0 := by
  have root : (treeOf geo (fs, sparseDir size)).nodeAt slot [] = 0 := by
    show Buf.getU32 ((Buf.zero.setU16 0 0x4000).setU32 4 size) (40 + 4 * slot) = 0
    rw [Buf.getU32SetApart _ _ (by omega), Buf.getU32SetU16Apart _ _ (by omega), Buf.getU32Zero]
  have below := PtrTree.nodeAppend root path
  rwa [List.append_nil] at below

theorem sparseNode (size : Nat) (fs : FsInfo) (b : Nat) :
    fileNode geo (fs, sparseDir size) b = 0 := by
  unfold fileNode
  split
  · exact sparseHoles size fs _ _
  · rfl

theorem sparseIsDir (size : Nat) : ext2IsDir (sparseDir size).iMode = true := by
  have mode : (sparseDir size).iMode = 0x4000 := by
    refine (Buf.getU16Congr fun o _ high => ?_).trans (Buf.getU16Set Buf.zero (by decide))
    show Buf.setU32 _ 4 size o = _
    unfold Buf.setU32
    rw [if_neg (by omega)]
  rw [mode]
  decide

theorem sparseFormed (size : Nat) : DirFormed bootBlockGeometry (fullGroupFs, sparseDir size) := by
  refine ⟨⟨fullGroupSane.coherent, fullGroupSane.reservedUsed, ?_, ?_⟩, sparseIsDir size, ?_⟩
  · exact fun slot path _ _ _ _ present => absurd (sparseHoles size _ slot path) present
  · exact fun slot path _ present => absurd (sparseHoles size _ slot path) present
  · exact fun b _ mapped => absurd (sparseNode size _ b) mapped

theorem sparseNames (size : Nat) : names bootBlockGeometry (fullGroupFs, sparseDir size) = [] := by
  refine List.flatMap_eq_nil_iff.mpr fun b _ => ?_
  unfold dirRow
  rw [if_pos (sparseNode size fullGroupFs b)]
  rfl

theorem scanHoles {α : Type} (size : Nat) (hit : Buf → Nat → Bool)
    (found : Nat → Buf → Nat → Option Nat → Prog FsInfo α) (none_ : Prog FsInfo α)
    (bs : List Nat) (placed : ∀ b ∈ bs, position geo b ≠ none) (buf : Buf) (fs : FsInfo) :
    scanBlocksOf geo (sparseDir size) hit found none_ bs buf fs = none_ fs := by
  induction bs with
  | nil => rfl
  | cons b rest ih =>
    have hole : ext2Bmap geo (sparseDir size) b fs = (some 0, fs) := by
      rw [bmapDescend]
      rcases at_ : position geo b with _ | ⟨slot, path⟩
      · exact absurd at_ (placed b List.mem_cons_self)
      · have root : (treeOf geo (fs, sparseDir size)).nodeAt slot [] = 0 := sparseHoles size fs slot []
        replace root : (sparseDir size).iBlock slot = 0 := root
        dsimp only
        rw [root]
        cases path.reverse with
        | nil => rfl
        | cons i below => rfl
    unfold scanBlocksOf
    rw [bindOf hole, if_pos rfl, ih fun x member => placed x (List.mem_cons_of_mem b member)]

theorem sparseAdd {size ino : Nat} {name : List Byte} {t : FsInfo × Inode}
    (fits : 1 ≤ name.length ∧ name.length ≤ 255)
    (grown : growDir bootBlockGeometry 2 ino name 1 (fullGroupFs, sparseDir size) = (some (), t)) :
    ∃ t, (DirOp.add ino 1).run bootBlockGeometry 2 name 0 (fullGroupFs, sparseDir size) =
      (some bootBlockGeometry, t) := by
  obtain ⟨fs, dir⟩ := t
  obtain ⟨fs', count, refresh⟩ := refreshCases bootBlockGeometry fs dir
  have scan := scanHoles size (freeEntry (ext2RecLen name.length))
    (fun dblk buf off _ => ext2WriteBlock bootBlockGeometry dblk
      (insertEntry bootBlockGeometry buf off ino name 1) >>= fun _ => pure true)
    (pure false) (dirBlocks bootBlockGeometry (sparseDir size))
    (fun b => dirBlockPlaced bootBlockSound) Buf.zero fullGroupFs
  show ∃ t, ext2AddDirent bootBlockGeometry 2 ino name 1 0 (fullGroupFs, sparseDir size) = _
  unfold ext2AddDirent
  rw [getBind, if_neg (by rw [sparseIsDir]; nofun), if_neg (by omega)]
  have plain : onFst (ext2DeindexDir bootBlockGeometry 2 (sparseDir size) Buf.zero)
      (fullGroupFs, sparseDir size) =
        (some (bootBlockGeometry, Buf.zero), fullGroupFs, sparseDir size) := rfl
  rw [bindOf plain]
  dsimp only
  unfold insertName
  rw [getBind, bindOf (show onFst _ (fullGroupFs, sparseDir size) =
    (some false, fullGroupFs, sparseDir size) by rw [onFstRun, scan]; rfl)]
  dsimp only
  rw [if_neg nofun, bindOf grown, bindOf refresh]
  exact ⟨_, rfl⟩

theorem sparseNew (size : Nat) {ino : Nat} (nonzero : ino ≠ 0) (small : ino < 2 ^ 32) :
    (DirOp.add ino 1).New bootBlockGeometry (fullGroupFs, sparseDir size) [0x61] := by
  refine ⟨nonzero, small, (lookupIff bootBlockSound (sparseFormed size) (by decide) none).mpr ?_⟩
  rw [sparseNames]
  rfl

theorem sparsePlain (size : Nat) : ¬ Indexed bootBlockGeometry (fullGroupFs, sparseDir size) :=
  fun indexed => indexed.mapped (sparseNode size fullGroupFs 0)

end Scepter.Ext2
