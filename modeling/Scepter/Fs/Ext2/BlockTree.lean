import Scepter.Fs.Ext2.Bmap
import Scepter.Fs.Ext2.Counts

/-! ext2_bmap reads a node of the inode's tree and ext2_bmap_alloc grafts the
missing blocks of one path, from the root down. -/
namespace Scepter.Ext2

open Block Prog

variable {geo : Geometry}

theorem treeOfSame (geo : Geometry) (fs : FsInfo) {d : Device} (inode : Inode)
    (same : ∀ b, blockAt geo d b = blockAt geo fs.dev b) :
    treeOf geo ({ fs with dev := d }, inode) = treeOf geo (fs, inode) := by
  simp only [treeOf, same]

section reading

variable (sound : geo.Sound)
include sound

theorem sameBlocks {d d' : Device} (writes : WritesBlocks geo (fun _ => False) d d') (b : Nat) :
    blockAt geo d' b = blockAt geo d b := blockKept sound writes id

theorem overEntry {i : Nat} (small : i < geo.blockSize / 4) (new old : Buf) :
    (Buf.overlay geo.blockSize new old).getU32 (4 * i) = new.getU32 (4 * i) := by
  refine Buf.getU32Congr fun o _ high => ?_
  rw [Buf.overlay, if_pos]
  have := (ptrsPos sound).2
  omega

theorem readEntryCases {b i : Nat} (small : i < geo.blockSize / 4) (buf : Buf) {fs : FsInfo}
    (whole : fs.dev.Unbroken) :
    (∃ d, readEntry geo b i buf fs = (none, { fs with dev := d }) ∧
      WritesBlocks geo (fun _ => False) fs.dev d ∧
      (fs.dev.Reliable → geo.sBlocksCount ≤ b)) ∨
    ∃ d buf', readEntry geo b i buf fs =
        (some ((blockAt geo fs.dev b).getU32 (4 * i), buf'), { fs with dev := d }) ∧
      WritesBlocks geo (fun _ => False) fs.dev d := by
  unfold readEntry
  rcases readBlockCases sound b buf whole with
    ⟨d, read, writes, outside⟩ | ⟨d, read, writes, _⟩
  · exact .inl ⟨d, bindFails read _, writes _, outside⟩
  · refine .inr ⟨d, Buf.overlay geo.blockSize (blockAt geo fs.dev b) buf, ?_, writes _⟩
    rw [bindOf read, overEntry sound small]
    rfl

theorem descendNode (inode : Inode) (slot : Nat) (below up : List Nat) (buf : Buf)
    {fs : FsInfo} (whole : fs.dev.Unbroken) (small : ∀ i ∈ below, i < geo.blockSize / 4) {r t}
    (ran : descend geo below ((treeOf geo (fs, inode)).nodeAt slot up) buf fs = (r, t)) :
    (r = none ∨ r = some ((treeOf geo (fs, inode)).nodeAt slot (below.reverse ++ up))) ∧
    (fs.dev.Reliable → (∀ mid, mid <:+ below.reverse ++ up →
      (treeOf geo (fs, inode)).nodeAt slot mid ≠ 0 →
        (treeOf geo (fs, inode)).nodeAt slot mid < geo.sBlocksCount) → r ≠ none) := by
  induction below generalizing up buf fs with
  | nil =>
    cases ran
    exact ⟨.inr rfl, fun _ _ => nofun⟩
  | cons i rest ih =>
    unfold descend at ran
    have path : (i :: rest).reverse ++ up = rest.reverse ++ (i :: up) := by simp
    rw [path]
    by_cases absent : (treeOf geo (fs, inode)).nodeAt slot up = 0
    · rw [if_pos absent] at ran
      cases ran
      exact ⟨.inr (by rw [PtrTree.nodeAppend (PtrTree.nodeBelow absent i)]), fun _ _ => nofun⟩
    rw [if_neg absent] at ran
    rcases readEntryCases sound (b := (treeOf geo (fs, inode)).nodeAt slot up)
      (small i (by simp)) buf whole with ⟨d, read, _, outside⟩ | ⟨d, buf', read, writes⟩
    · rw [bindFails read] at ran
      cases ran
      refine ⟨.inl rfl, fun reliable inside => ?_⟩
      have high := outside reliable
      have low := inside up ⟨rest.reverse ++ [i], by simp⟩ absent
      omega
    · rw [bindOf read] at ran
      have tree := treeOfSame geo fs inode (sameBlocks sound writes)
      have next : (blockAt geo fs.dev ((treeOf geo (fs, inode)).nodeAt slot up)).getU32 (4 * i) =
          (treeOf geo ({ fs with dev := d }, inode)).nodeAt slot (i :: up) := by
        rw [tree, PtrTree.nodeAt, if_neg absent]
        rfl
      dsimp only at ran
      rw [next] at ran
      have rest_ := ih (i :: up) buf' (writes.unbroken whole)
        (fun j member => small j (by simp [member])) ran
      rw [tree] at rest_
      exact ⟨rest_.1, fun reliable => rest_.2 (writes.reliable reliable)⟩

end reading

def Fresh (geo : Geometry) (s t : FsInfo) (b : Nat) : Prop :=
  geo.sFirstDataBlock ≤ b ∧ b < geo.sBlocksCount ∧
    allocated geo s b = false ∧ allocated geo t b = true

def Grows (geo : Geometry) (s t : FsInfo) : Prop :=
  ∀ b, geo.sFirstDataBlock ≤ b → b < geo.sBlocksCount → allocated geo s b = true →
    allocated geo t b = true

section allocating

variable (sound : geo.Sound)
include sound

omit sound in
theorem placeInjective {a b : Nat} (lowA : geo.sFirstDataBlock ≤ a)
    (lowB : geo.sFirstDataBlock ≤ b) (same : geo.place a = geo.place b) : a = b := by
  have splitA := Nat.div_add_mod' (a - geo.sFirstDataBlock) geo.blocksPerGroup
  have splitB := Nat.div_add_mod' (b - geo.sFirstDataBlock) geo.blocksPerGroup
  obtain ⟨groups, bits⟩ := Prod.mk.inj same
  rw [groups, bits] at splitA
  omega

theorem SameView.allocated {s t : FsInfo} (same : SameView geo s t) {b : Nat}
    (low : geo.sFirstDataBlock ≤ b) (inside : b < geo.sBlocksCount) :
    Ext2.allocated geo t b = Ext2.allocated geo s b := by
  obtain ⟨real, valid⟩ := placeReal sound low inside
  exact same.bits .block _ _ real (bitSmall sound .block valid.1)

theorem Marks.allocated {s t : FsInfo} {f : Nat} {v : Bool}
    (marks : Marks geo .block (geo.place f).1 (geo.place f).2 v s t)
    (lowF : geo.sFirstDataBlock ≤ f) {b : Nat} (low : geo.sFirstDataBlock ≤ b)
    (inside : b < geo.sBlocksCount) :
    Ext2.allocated geo t b = if b = f then v else Ext2.allocated geo s b := by
  obtain ⟨real, valid⟩ := placeReal sound low inside
  unfold Ext2.allocated
  rw [marks.bits .block _ _ real (bitSmall sound .block valid.1)]
  by_cases same : b = f
  · rw [if_pos same, if_pos ⟨rfl, by rw [same], by rw [same]⟩]
  · rw [if_neg same, if_neg]
    rintro ⟨-, groups, bits⟩
    exact same (placeInjective low lowF (Prod.ext groups bits))

theorem allocZeroedCases {ino f : Nat} {s t : FsInfo} (coherent : Coherent geo s)
    (reserved : ReservedUsed geo s) (ran : ext2AllocZeroedBlock geo ino s = (some f, t)) :
    Coherent geo t ∧ f ≠ 0 ∧ ¬ geo.Metadata f ∧ Fresh geo s t f ∧
      (∀ b, geo.sFirstDataBlock ≤ b → b < geo.sBlocksCount →
        allocated geo t b = if b = f then true else allocated geo s b) ∧
      WritesBlocks geo (fun b => geo.System b ∨ b = f) s.dev t.dev ∧
      blockAt geo t.dev f = Buf.zero := by
  unfold ext2AllocZeroedBlock at ran
  obtain ⟨f', m, took, ran⟩ := bindSome.mp ran
  obtain ⟨coherent', system, ⟨⟨⟩, _⟩ | ⟨_, ⟨⟩, low, inside, marks⟩⟩ :=
    allocBlockCases sound coherent took
  rw [bindOf (attemptRun _ _)] at ran
  have free : allocated geo s f' = false := marks.was
  have notReserved (h : f' = 0 ∨ geo.Metadata f') : False := by
    rw [reserved f' low inside h] at free
    cases free
  rcases writeBlockCases sound f' Buf.zero coherent'.unbroken with
    ⟨d, wrote, _⟩ | ⟨d, wrote, writes, _, data⟩
  · rw [wrote] at ran
    cases ran
  · rw [wrote] at ran
    cases ran
    have apart (kind group) (real : geo.Real group) : geo.bgBitmap kind group ≠ f := fun same =>
      notReserved (.inr (.inl (.inl ⟨group, kind, sound.realInside real, real, same.symm⟩)))
    obtain ⟨coherent'', same⟩ := writeApart sound coherent' writes apart
    have after (b) (lowB : geo.sFirstDataBlock ≤ b) (insideB : b < geo.sBlocksCount) :
        allocated geo { m with dev := d } b = if b = f then true else allocated geo s b := by
      rw [same.allocated sound lowB insideB, marks.allocated sound low lowB insideB]
    refine ⟨coherent'', fun h => notReserved (.inl h), fun h => notReserved (.inr h),
      ⟨low, inside, free, by rw [after f low inside, if_pos rfl]⟩, after, ?_, ?_⟩
    · exact (system.mono fun _ => .inl).trans (writes.mono fun _ => .inr)
    · rw [data]
      funext o
      simp [Buf.overlay, Buf.zero]

theorem Sane.read {fs m : FsInfo} {inode : Inode} (sane : Sane geo (fs, inode))
    (keeps : Keeping geo (fun _ => False) fs m) :
    Sane geo (m, inode) ∧ treeOf geo (m, inode) = treeOf geo (fs, inode) ∧
      (∀ b, blockAt geo m.dev b = blockAt geo fs.dev b) ∧
      ∀ b, geo.sFirstDataBlock ≤ b → b < geo.sBlocksCount →
        allocated geo m b = allocated geo fs b := by
  obtain ⟨coherent, same, writes⟩ := keeps sane.coherent
  have blocks := sameBlocks sound writes
  have tree : treeOf geo (m, inode) = treeOf geo (fs, inode) := by
    simp only [treeOf, blocks]
  have marked (b) (low : geo.sFirstDataBlock ≤ b) (inside : b < geo.sBlocksCount) :=
    same.allocated sound low inside
  refine ⟨⟨coherent, ?_, by rw [tree]; exact sane.distinct, ?_⟩, tree, blocks, marked⟩
  · intro b low inside reserved
    rw [marked b low inside]
    exact sane.reservedUsed b low inside reserved
  · rw [tree]
    intro slot path pos present
    have data := sane.data slot path pos present
    exact ⟨data.low, data.inside, data.notMetadata, by
      rw [marked _ data.low data.inside]; exact data.used⟩

end allocating

/-- The position `(slot, path)` is present in `t`; it keeps its block if it had one
in `s`, every other position is as it was, and what was written is the new block,
the index block above it and the tables of the filesystem. -/
structure Present (geo : Geometry) (slot : Nat) (path : List Nat) (s t : FsInfo × Inode) :
    Prop where
  sane : Sane geo t
  present : (treeOf geo t).nodeAt slot path ≠ 0
  kept : (treeOf geo s).nodeAt slot path ≠ 0 →
    (treeOf geo t).nodeAt slot path = (treeOf geo s).nodeAt slot path
  others : ∀ slot' path', Pos geo slot' path' → ¬ (slot' = slot ∧ path' = path) →
    (treeOf geo t).nodeAt slot' path' = (treeOf geo s).nodeAt slot' path'
  grows : Grows geo s.1 t.1
  writes : WritesBlocks geo (fun b => geo.System b ∨ Fresh geo s.1 t.1 b ∨
    ∃ i up, path = i :: up ∧ b = (treeOf geo s).nodeAt slot up) s.1.dev t.1.dev

section steps

variable (sound : geo.Sound)
include sound

omit sound in
theorem presentOfGraft {s t : FsInfo × Inode} {slot f : Nat} {path : List Nat}
    (sane : Sane geo s) (pos : Pos geo slot path) (coherent : Coherent geo t.1)
    (graft : PtrTree.Graft (Pos geo) (treeOf geo s) (treeOf geo t) slot path f)
    (notMetadata : ¬ geo.Metadata f) (fresh : Fresh geo s.1 t.1 f)
    (marked : ∀ b, geo.sFirstDataBlock ≤ b → b < geo.sBlocksCount →
      allocated geo t.1 b = if b = f then true else allocated geo s.1 b)
    (writes : WritesBlocks geo (fun b => geo.System b ∨ Fresh geo s.1 t.1 b ∨
      ∃ i up, path = i :: up ∧ b = (treeOf geo s).nodeAt slot up) s.1.dev t.1.dev) :
    Present geo slot path s t := by
  have node {slot' path'} (pos' : Pos geo slot' path') := graft.node posUp pos'
  have grows : Grows geo s.1 t.1 := by
    intro b low inside used
    rw [marked b low inside, used]
    split <;> rfl
  refine ⟨⟨coherent, ?_, graft.distinct posUp sane.distinct, ?_⟩, ?_, ?_, ?_, grows, writes⟩
  · intro b low inside reserved
    exact grows b low inside (sane.reservedUsed b low inside reserved)
  · intro slot' path' pos' present
    rw [node pos'] at present ⊢
    by_cases here : slot' = slot ∧ path' = path
    · rw [if_pos here] at present ⊢
      exact ⟨fresh.1, fresh.2.1, notMetadata, fresh.2.2.2⟩
    · rw [if_neg here] at present ⊢
      have data := sane.data slot' path' pos' present
      exact ⟨data.low, data.inside, data.notMetadata, grows _ data.low data.inside data.used⟩
  · rw [node pos, if_pos (And.intro rfl rfl)]
    exact graft.nonzero
  · exact fun had => absurd graft.free had
  · intro slot' path' pos' elsewhere
    rw [node pos', if_neg elsewhere]

omit sound in
theorem iBlockSet (inode : Inode) {k v : Nat} (small : v < 2 ^ 32) (j : Nat) :
    (inode.setIBlock k v).iBlock j = if j = k then v else inode.iBlock j := by
  unfold Inode.iBlock Inode.setIBlock
  split
  · next same =>
    rw [same, Buf.getU32Set _ small]
  · exact Buf.getU32SetApart _ _ (by omega)

omit sound in
theorem freshNode {s : FsInfo × Inode} {t : FsInfo} {f : Nat} (sane : Sane geo s) (nonzero : f ≠ 0)
    (fresh : Fresh geo s.1 t f) (slot : Nat) (path : List Nat) (pos : Pos geo slot path) :
    (treeOf geo s).nodeAt slot path ≠ f := by
  intro same
  have used := (sane.data slot path pos (by rw [same]; exact nonzero)).used
  rw [same, fresh.2.2.1] at used
  cases used

theorem nodeKept {s : FsInfo × Inode} {t : FsInfo} {f : Nat} {d : Device}
    (sane : Sane geo s) (nonzero : f ≠ 0) (fresh : Fresh geo s.1 t f)
    (writes : WritesBlocks geo (fun b => geo.System b ∨ b = f) s.1.dev d) {slot : Nat}
    {path : List Nat} (pos : Pos geo slot path) (present : (treeOf geo s).nodeAt slot path ≠ 0) :
    blockAt geo d ((treeOf geo s).nodeAt slot path) =
      blockAt geo s.1.dev ((treeOf geo s).nodeAt slot path) := by
  refine blockKept sound writes ?_
  rintro (system | same)
  · exact (sane.data slot path pos present).notMetadata (.inl system)
  · exact freshNode sane nonzero fresh slot path pos same

theorem rootPresent {ino slot b : Nat} {s t : FsInfo × Inode} (sane : Sane geo s)
    (low : slot < 15) (ran : rootBlock geo ino slot s = (some b, t)) :
    Present geo slot [] s t ∧ b = (treeOf geo t).nodeAt slot [] := by
  obtain ⟨fs, inode⟩ := s
  have pos : Pos geo slot [] := ⟨low, Nat.zero_le _, fun _ h => nomatch h⟩
  unfold rootBlock at ran
  rw [getBind] at ran
  by_cases missing : inode.iBlock slot = 0
  · rw [if_pos missing] at ran
    obtain ⟨f, m, took, ran⟩ := bindSome.mp ran
    rcases alloc : ext2AllocZeroedBlock geo ino fs with ⟨o, fs'⟩
    rw [onFstRun, alloc] at took
    cases took
    cases ran
    obtain ⟨coherent, nonzero, notMetadata, fresh, marked, writes, empty⟩ :=
      allocZeroedCases sound sane.coherent sane.reservedUsed alloc
    have small : f < 2 ^ 32 := by
      have := sound.blocksSmall
      have := fresh.2.1
      omega
    refine ⟨presentOfGraft sane pos coherent ?_ notMetadata fresh marked ?_, rfl⟩
    · refine ⟨nonzero, missing, freshNode sane nonzero fresh, ?_, ?_, ?_, nofun⟩
      · intro i
        show (blockAt geo fs'.dev f).getU32 (4 * i) = 0
        rw [empty, Buf.getU32Zero]
      · intro slot' _
        show (inode.setIBlock slot f).iBlock slot' = _
        rw [iBlockSet inode small]
        simp only [and_true]
        rfl
      · intro slot' i up pos' present
        rw [if_neg nofun]
        show (blockAt geo fs'.dev _).getU32 (4 * i) = _
        rw [nodeKept sound sane nonzero fresh writes (posUp _ _ _ pos') present]
        rfl
    · refine writes.mono fun sector written => ?_
      rcases written with system | same
      · exact .inl system
      · exact .inr (.inl (same ▸ fresh))
  · rw [if_neg missing] at ran
    cases ran
    refine ⟨⟨sane, missing, fun _ => rfl, fun _ _ _ _ => rfl, fun _ _ _ used => used,
      writesNothing _ _⟩, rfl⟩

theorem Present.afterRead {fs m : FsInfo} {inode : Inode} {t : FsInfo × Inode} {slot : Nat}
    {path : List Nat} (sane : Sane geo (fs, inode)) (keeps : Keeping geo (fun _ => False) fs m)
    (made : Present geo slot path (m, inode) t) : Present geo slot path (fs, inode) t := by
  obtain ⟨_, tree, _, marked⟩ := sane.read sound keeps
  obtain ⟨_, _, read⟩ := keeps sane.coherent
  have sub (b) (fresh : Fresh geo m t.1 b) : Fresh geo fs t.1 b := by
    obtain ⟨low, inside, free, used⟩ := fresh
    exact ⟨low, inside, (marked b low inside).symm.trans free, used⟩
  refine ⟨made.sane, made.present, ?_, ?_, ?_, ?_⟩
  · rw [← tree]
    exact made.kept
  · rw [← tree]
    exact made.others
  · intro b low inside used
    exact made.grows b low inside ((marked b low inside).trans used)
  · refine (read.mono fun _ => False.elim).trans (made.writes.mono fun sector written => ?_)
    rw [tree] at written
    rcases written with system | fresh | above
    · exact .inl system
    · exact .inr (.inl (sub _ fresh))
    · exact .inr (.inr above)

theorem entryGraft {fs fs' : FsInfo} {inode : Inode} {slot i f : Nat} {up : List Nat}
    {buf : Buf} {d : Device} (sane : Sane geo (fs, inode)) (pos : Pos geo slot (i :: up))
    (present : (treeOf geo (fs, inode)).nodeAt slot up ≠ 0)
    (missing : (treeOf geo (fs, inode)).nodeAt slot (i :: up) = 0) (nonzero : f ≠ 0)
    (fresh : Fresh geo fs fs' f)
    (took : WritesBlocks geo (fun b => geo.System b ∨ b = f) fs.dev fs'.dev)
    (empty : blockAt geo fs'.dev f = Buf.zero)
    (wrote : WritesBlocks geo (· = (treeOf geo (fs, inode)).nodeAt slot up) fs'.dev d)
    (data : blockAt geo d ((treeOf geo (fs, inode)).nodeAt slot up) =
      Buf.overlay geo.blockSize ((Buf.overlay geo.blockSize
        (blockAt geo fs.dev ((treeOf geo (fs, inode)).nodeAt slot up)) buf).setU32 (4 * i) f)
        Buf.zero) :
    PtrTree.Graft (Pos geo) (treeOf geo (fs, inode)) (treeOf geo ({ fs' with dev := d }, inode))
      slot (i :: up) f := by
  have small : f < 2 ^ 32 := by
    have := sound.blocksSmall
    have := fresh.2.1
    omega
  have notParent := freshNode sane nonzero fresh slot up (posUp _ _ _ pos)
  refine ⟨nonzero, missing, freshNode sane nonzero fresh, ?_, ?_, ?_, ?_⟩
  · intro j
    show (blockAt geo d f).getU32 (4 * j) = 0
    rw [blockKept sound wrote notParent.symm, empty, Buf.getU32Zero]
  · intro slot' _
    rw [if_neg (fun h => nomatch h.2)]
    rfl
  · intro slot' j up' pos' there
    have posUp' := posUp _ _ _ pos'
    have smallJ : j < geo.blockSize / 4 := pos'.2.2 j (by simp)
    show (blockAt geo d _).getU32 (4 * j) = _
    by_cases parent : (treeOf geo (fs, inode)).nodeAt slot' up' =
        (treeOf geo (fs, inode)).nodeAt slot up
    · obtain ⟨rfl, rfl⟩ := sane.distinct _ _ _ _ posUp' (posUp _ _ _ pos) there parent
      rw [data, overEntry sound smallJ]
      by_cases same : j = i
      · subst same
        rw [if_pos (And.intro rfl rfl), Buf.getU32Set _ small]
      · rw [if_neg (fun h => same (List.cons.inj h.2).1),
          Buf.getU32SetApart _ _ (by omega), overEntry sound smallJ]
        rfl
    · rw [blockKept sound wrote parent, nodeKept sound sane nonzero fresh took posUp' there,
        if_neg]
      · rfl
      · rintro ⟨rfl, same⟩
        obtain ⟨-, rfl⟩ := List.cons.inj same
        exact parent rfl
  · intro j up' same
    obtain ⟨-, rfl⟩ := List.cons.inj same
    exact present

theorem entryPresent {ino slot i b : Nat} {up : List Nat} {buf buf' : Buf} {s t : FsInfo × Inode}
    (sane : Sane geo s) (pos : Pos geo slot (i :: up))
    (present : (treeOf geo s).nodeAt slot up ≠ 0)
    (ran : entryBlock geo ino ((treeOf geo s).nodeAt slot up) i buf s = (some (b, buf'), t)) :
    Present geo slot (i :: up) s t ∧ b = (treeOf geo t).nodeAt slot (i :: up) := by
  obtain ⟨fs, inode⟩ := s
  have small : i < geo.blockSize / 4 := pos.2.2 i (by simp)
  unfold entryBlock at ran
  obtain ⟨buf₁, m, read, ran⟩ := bindSome.mp ran
  rcases readBlockCases sound ((treeOf geo (fs, inode)).nodeAt slot up) buf
    sane.coherent.unbroken with ⟨d, ran', _⟩ | ⟨d, ran', writes, _⟩
  · rw [onFstRun, ran'] at read
    cases read
  rw [onFstRun, ran'] at read
  cases read
  have keeps : Keeping geo (fun _ => False) fs { fs with dev := d } := fun coherent => by
    obtain ⟨coherent', same⟩ := writeApart sound coherent (writes fun _ => False) fun _ _ _ => id
    exact ⟨coherent', same, writes _⟩
  obtain ⟨sane', tree, blocks, _⟩ := sane.read sound keeps
  have entry : (treeOf geo (fs, inode)).nodeAt slot (i :: up) =
      (blockAt geo fs.dev ((treeOf geo (fs, inode)).nodeAt slot up)).getU32 (4 * i) := by
    rw [PtrTree.nodeAt, if_neg present]
    rfl
  rw [overEntry sound small, ← entry] at ran
  split at ran
  · next missing =>
    rw [← tree] at missing present
    rw [← blocks, ← tree] at ran
    generalize { fs with dev := d } = fs₁ at keeps sane' tree blocks missing present ran
    obtain ⟨f, m, took, ran⟩ := bindSome.mp ran
    rcases alloc : ext2AllocZeroedBlock geo ino fs₁ with ⟨o, fs₂⟩
    rw [onFstRun, alloc] at took
    cases took
    obtain ⟨coherent, nonzero, notMetadata, fresh, marked, taken, empty⟩ :=
      allocZeroedCases sound sane'.coherent sane'.reservedUsed alloc
    obtain ⟨_, m, write, ran⟩ := bindSome.mp ran
    have parent := sane'.data slot up (posUp _ _ _ pos) present
    rcases writeBlockCases sound ((treeOf geo (fs₁, inode)).nodeAt slot up)
      ((Buf.overlay geo.blockSize (blockAt geo fs₁.dev ((treeOf geo (fs₁, inode)).nodeAt slot up))
        buf).setU32 (4 * i) f) coherent.unbroken with
      ⟨d', wrote, _⟩ | ⟨d', wrote, writes', _, data⟩
    · rw [onFstRun, wrote] at write
      cases write
    rw [onFstRun, wrote] at write
    cases write
    have graft := entryGraft sound sane' pos present missing nonzero fresh taken empty writes' data
    obtain ⟨coherent', same⟩ := writeApart sound coherent writes' fun kind group real h =>
      parent.notMetadata (.inl (.inl ⟨group, kind, sound.realInside real, real, h.symm⟩))
    have marked' (b) (low : geo.sFirstDataBlock ≤ b) (inside : b < geo.sBlocksCount) :
        allocated geo { fs₂ with dev := d' } b = if b = f then true else allocated geo fs₁ b := by
      rw [same.allocated sound low inside, marked b low inside]
    have fresh' : Fresh geo fs₁ { fs₂ with dev := d' } f :=
      ⟨fresh.1, fresh.2.1, fresh.2.2.1, by rw [marked' f fresh.1 fresh.2.1, if_pos rfl]⟩
    have made := presentOfGraft sane' pos coherent' graft notMetadata fresh' marked'
      ((taken.mono fun sector written => by
        rcases written with system | here
        · exact .inl system
        · exact .inr (.inl (here ▸ fresh'))).trans
        (writes'.mono fun sector here => .inr (.inr ⟨i, up, rfl, here⟩)))
    have small : f < 2 ^ 32 := by
      have := sound.blocksSmall
      have := fresh.2.1
      omega
    cases ran
    refine ⟨made.afterRead sound sane keeps, ?_⟩
    rw [graft.node posUp pos, if_pos (And.intro rfl rfl), Buf.getU32Set _ small]
  · next there =>
    cases ran
    refine ⟨.afterRead sound sane keeps ⟨sane', ?_, fun _ => rfl, fun _ _ _ _ => rfl,
      fun _ _ _ used => used, writesNothing _ _⟩, ?_⟩
    · rw [tree]
      exact there
    · rw [tree]

end steps

/-- Every position on the way from the root to `path` is present; what was mapped
before is still mapped, and nothing else is. -/
structure Walked (geo : Geometry) (slot : Nat) (path : List Nat) (s t : FsInfo × Inode) :
    Prop where
  sane : Sane geo t
  present : (treeOf geo t).nodeAt slot path ≠ 0
  kept : ∀ slot' path', Pos geo slot' path' → (treeOf geo s).nodeAt slot' path' ≠ 0 →
    (treeOf geo t).nodeAt slot' path' = (treeOf geo s).nodeAt slot' path'
  others : ∀ slot' path', Pos geo slot' path' → ¬ (slot' = slot ∧ path' <:+ path) →
    (treeOf geo t).nodeAt slot' path' = (treeOf geo s).nodeAt slot' path'
  grows : Grows geo s.1 t.1
  writes : WritesBlocks geo (fun b => geo.System b ∨ Fresh geo s.1 t.1 b ∨
    ∃ up, up <:+ path ∧ up ≠ path ∧ b = (treeOf geo t).nodeAt slot up) s.1.dev t.1.dev

theorem Present.keptAll {slot : Nat} {path : List Nat} {s t : FsInfo × Inode}
    (made : Present geo slot path s t) {slot' : Nat} {path' : List Nat}
    (pos : Pos geo slot' path') (there : (treeOf geo s).nodeAt slot' path' ≠ 0) :
    (treeOf geo t).nodeAt slot' path' = (treeOf geo s).nodeAt slot' path' := by
  by_cases here : slot' = slot ∧ path' = path
  · obtain ⟨rfl, rfl⟩ := here
    exact made.kept there
  · exact made.others slot' path' pos here

theorem posSuffix {slot : Nat} {path up : List Nat} (pos : Pos geo slot path)
    (onWay : up <:+ path) : Pos geo slot up :=
  ⟨pos.1, Nat.le_trans onWay.length_le pos.2.1, fun i member => pos.2.2 i (onWay.subset member)⟩

theorem Present.walked {slot : Nat} {s t : FsInfo × Inode} (made : Present geo slot [] s t) :
    Walked geo slot [] s t where
  sane := made.sane
  present := made.present
  kept _ _ pos there := made.keptAll pos there
  others slot' path' pos elsewhere :=
    made.others slot' path' pos fun h => elsewhere ⟨h.1, h.2 ▸ List.suffix_refl _⟩
  grows := made.grows
  writes := made.writes.mono fun sector written => by
    rcases written with system | fresh | ⟨_, _, ⟨⟩, _⟩
    · exact .inl system
    · exact .inr (.inl fresh)

theorem Walked.next {slot i : Nat} {up : List Nat} {s m t : FsInfo × Inode}
    (walked : Walked geo slot up s m) (posHere : Pos geo slot (i :: up))
    (made : Present geo slot (i :: up) m t) : Walked geo slot (i :: up) s t where
  sane := made.sane
  present := made.present
  kept slot' path' pos there := by
    have before := walked.kept slot' path' pos there
    rw [made.keptAll pos (by rw [before]; exact there), before]
  others slot' path' pos elsewhere := by
    rw [made.others slot' path' pos fun h => elsewhere ⟨h.1, h.2 ▸ List.suffix_refl _⟩,
      walked.others slot' path' pos fun h => elsewhere ⟨h.1, h.2.trans (List.suffix_cons _ _)⟩]
  grows b low inside used := made.grows b low inside (walked.grows b low inside used)
  writes := by
    -- the blocks on the way to `up` are there in `m` and stay
    have same {mid : List Nat} (onWay : mid <:+ up) :
        (treeOf geo t).nodeAt slot mid = (treeOf geo m).nodeAt slot mid := by
      refine made.keptAll (posSuffix posHere (onWay.trans (List.suffix_cons _ _))) fun absent => ?_
      obtain ⟨down, rfl⟩ := onWay
      exact walked.present (PtrTree.nodeAppend absent down)
    refine (walked.writes.mono fun sector written => ?_).trans
      (made.writes.mono fun sector written => ?_)
    · rcases written with system | ⟨low, inside, free, used⟩ | ⟨mid, onWay, proper, here⟩
      · exact .inl system
      · exact .inr (.inl ⟨low, inside, free, made.grows _ low inside used⟩)
      · refine .inr (.inr ⟨mid, onWay.trans (List.suffix_cons _ _), ?_, here.trans (same onWay).symm⟩)
        rintro rfl
        have longer := onWay.length_le
        rw [List.length_cons] at longer
        omega
    · rcases written with system | ⟨low, inside, free, used⟩ | ⟨j, up', path, here⟩
      · exact .inl system
      · refine .inr (.inl ⟨low, inside, ?_, used⟩)
        rw [Bool.eq_false_iff] at free ⊢
        exact fun before => free (walked.grows _ low inside before)
      · obtain ⟨-, rfl⟩ := List.cons.inj path
        refine .inr (.inr ⟨up, List.suffix_cons _ _, fun h => ?_, here.trans (same ?_).symm⟩)
        · exact absurd (congrArg List.length h) (by simp)
        · exact List.suffix_refl _

section walks

variable (sound : geo.Sound)
include sound

theorem extendWalked {ino slot b : Nat} (below : List Nat) {up : List Nat} {buf : Buf}
    {s m t : FsInfo × Inode} (walked : Walked geo slot up s m)
    (pos : Pos geo slot (below.reverse ++ up))
    (ran : extend geo ino below ((treeOf geo m).nodeAt slot up) buf m = (some b, t)) :
    Walked geo slot (below.reverse ++ up) s t ∧
      b = (treeOf geo t).nodeAt slot (below.reverse ++ up) := by
  induction below generalizing up buf m with
  | nil =>
    cases ran
    exact ⟨walked, rfl⟩
  | cons i rest ih =>
    have path : (i :: rest).reverse ++ up = rest.reverse ++ (i :: up) := by simp
    rw [path] at pos ⊢
    unfold extend at ran
    obtain ⟨⟨next, buf'⟩, n, entry, ran⟩ := bindSome.mp ran
    have posNext : Pos geo slot (i :: up) := by
      refine ⟨pos.1, ?_, fun j member => pos.2.2 j (List.mem_append_right _ member)⟩
      have := pos.2.1
      simp only [List.length_append, List.length_cons] at this ⊢
      omega
    obtain ⟨made, rfl⟩ := entryPresent sound walked.sane posNext walked.present entry
    exact ih (walked.next posNext made) pos ran

end walks

/-- ext2_bmap maps the file block to `v`: whenever it succeeds the result is `v`,
and it does succeed when no transfer fails. -/
def Maps (geo : Geometry) (s : FsInfo × Inode) (fileBlock v : Nat) : Prop :=
  ∀ coming, NoneShort coming →
    ((ext2Bmap geo s.2 fileBlock (s.1.facing coming)).1 = none ∨
      (ext2Bmap geo s.2 fileBlock (s.1.facing coming)).1 = some v) ∧
    ((∀ transfer ∈ coming, transfer = .whole) →
      (ext2Bmap geo s.2 fileBlock (s.1.facing coming)).1 = some v)

def OnPath (geo : Geometry) (s : FsInfo × Inode) (fileBlock b : Nat) : Prop :=
  ∃ slot path up, position geo fileBlock = some (slot, path) ∧ up <:+ path ∧ up ≠ path ∧
    b = (treeOf geo s).nodeAt slot up

section mapping

variable (sound : geo.Sound)
include sound

theorem mapsIff {s : FsInfo × Inode} (sane : Sane geo s) {fileBlock slot : Nat}
    {path : List Nat} (at_ : position geo fileBlock = some (slot, path)) (v : Nat) :
    Maps geo s fileBlock v ↔ v = (treeOf geo s).nodeAt slot path := by
  obtain ⟨fs, inode⟩ := s
  obtain ⟨pos, _⟩ := positionPos sound at_
  have reads (coming) (noneShort : NoneShort coming) := by
    have unbroken : (fs.facing coming).dev.Unbroken := noneShort
    have descended := descendNode sound inode slot path.reverse [] Buf.zero unbroken
      (fun i member => pos.2.2 i (by simpa using member)) (r := _) (t := _) rfl
    rw [List.reverse_reverse, List.append_nil] at descended
    exact descended
  have whole (coming) (noneShort : NoneShort coming)
      (reliable : ∀ transfer ∈ coming, transfer = .whole) :
      (ext2Bmap geo inode fileBlock (fs.facing coming)).1 =
        some ((treeOf geo (fs, inode)).nodeAt slot path) := by
    rw [bmapDescend, at_]
    obtain ⟨result, succeeds⟩ := reads coming noneShort
    refine result.resolve_left (succeeds reliable fun mid onWay there => ?_)
    exact (sane.data slot mid (posSuffix pos onWay) there).inside
  constructor
  · intro maps
    have yields := (maps [] noneShortNil).2 fun _ h => nomatch h
    rw [whole [] noneShortNil fun _ h => (nomatch h)] at yields
    exact (Option.some.inj yields).symm
  · rintro rfl coming noneShort
    refine ⟨?_, whole coming noneShort⟩
    rw [bmapDescend, at_]
    exact (reads coming noneShort).1

omit sound in
theorem mapsTooLarge {s : FsInfo × Inode} {fileBlock : Nat}
    (at_ : position geo fileBlock = none) (v : Nat) : ¬ Maps geo s fileBlock v := by
  intro maps
  have yields := (maps [] noneShortNil).2 fun _ h => nomatch h
  rw [bmapDescend, at_] at yields
  cases yields

end mapping

/- The image of `bootBlockGeometry` with group 0 resident, full and not written
back yet, and group 1 free; the file is empty. -/
def fullGroupFs : FsInfo where
  bgFree := fun _ group => if group = 1 then 8191 else 0
  bgUsedDirs := fun _ => 0
  sFree := fun _ => 8191
  bitmapGroup := some 0
  bitmap := fun _ _ => 0xFF
  bitmapDirty := fun kind => kind = .block
  gdtDirty := true
  sbDirty := true
  dev := ⟨fun s _ => if s = 10 ∨ s = 11 then 0 else 0xFF, [], []⟩

theorem emptyNode (fs : FsInfo) (slot : Nat) (path : List Nat) :
    (treeOf geo (fs, Buf.zero)).nodeAt slot path = 0 := by
  have root : (treeOf geo (fs, Buf.zero)).nodeAt slot [] = 0 := Buf.getU32Zero (40 + 4 * slot)
  have below := PtrTree.nodeAppend root path
  rwa [List.append_nil] at below

theorem bootBlockReserved {b : Nat} (low : bootBlockGeometry.sFirstDataBlock ≤ b)
    (reserved : b = 0 ∨ bootBlockGeometry.Metadata b) : b ≤ 8 := by
  rcases reserved with rfl | system | ⟨ino, _, known, rfl⟩
  · exact absurd low (by decide)
  · have := (bootBlockSystem system).2
    omega
  · simp only [bootBlockGeometry, Geometry.inodeBlock, Geometry.inodeGroup,
      Geometry.inodeIndex, u32] at known ⊢
    omega

theorem fullGroupSane : Sane bootBlockGeometry (fullGroupFs, Buf.zero) where
  coherent := by
    refine ⟨noneShortNil, ?_, ?_⟩
    · intro group resident
      cases resident
      exact ⟨by decide, (bootBlockReal 0).mpr (by decide)⟩
    · intro group kind resident clean o small
      cases resident
      cases kind with
      | block => exact absurd clean (by decide)
      | inode =>
        have sectors : ¬ (4 * 2 + o / 512 = 10 ∨ 4 * 2 + o / 512 = 11) := by
          simp only [bootBlockGeometry] at small
          omega
        show (0xFF : Byte) = if o < 1024 then
          (if 4 * 2 + o / 512 = 10 ∨ 4 * 2 + o / 512 = 11 then 0 else 0xFF) else 0
        rw [if_pos (show o < 1024 from small), if_neg sectors]
  reservedUsed := by
    intro b low inside reserved
    have bound : b ≤ 8 := bootBlockReserved low reserved
    have positive : 1 ≤ b := low
    interval_cases b <;> rfl
  distinct slot path _ _ _ _ present := absurd (emptyNode _ slot path) present
  data slot path _ present := absurd (emptyNode _ slot path) present

end Scepter.Ext2
