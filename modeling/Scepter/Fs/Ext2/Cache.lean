import Scepter.Fs.Ext2.Alloc

/-! The resident bitmaps are a write-back cache of the bitmaps of all groups.
`image` is the array of bitmaps the cache stands for: loads and syncs leave it
as it is, and they write no blocks but the filesystem's own tables. -/
namespace Scepter.Ext2

open Block Prog

def image (geo : Geometry) (fs : FsInfo) (kind : Kind) (group : Nat) : Buf :=
  if fs.bitmapGroup = some group then fs.bitmap kind
  else blockAt geo fs.dev (geo.bgBitmap kind group)

structure Coherent (geo : Geometry) (fs : FsInfo) : Prop where
  unbroken : fs.dev.Unbroken
  resident : ∀ group, fs.bitmapGroup = some group → group < geo.numGroups ∧ geo.Real group
  clean : ∀ group kind, fs.bitmapGroup = some group → fs.bitmapDirty kind = false →
    ∀ o < geo.blockSize, fs.bitmap kind o = blockAt geo fs.dev (geo.bgBitmap kind group) o

structure SameView (geo : Geometry) (s t : FsInfo) : Prop where
  bits : ∀ kind group i, geo.Real group → i < 8 * geo.blockSize →
    (image geo t kind group).getBit i = (image geo s kind group).getBit i
  bgFree : t.bgFree = s.bgFree
  sFree : t.sFree = s.sFree

def Keeping (geo : Geometry) (A : Nat → Prop) (s t : FsInfo) : Prop :=
  Coherent geo s → Coherent geo t ∧ SameView geo s t ∧ WritesBlocks geo A s.dev t.dev

abbrev Keeps (geo : Geometry) : FsInfo → FsInfo → Prop := Keeping geo geo.System

def Flushes (geo : Geometry) (s t : FsInfo) : Prop :=
  Keeps geo s t ∧ t.bitmapGroup = s.bitmapGroup ∧ t.bitmap = s.bitmap ∧
    ∀ kind, s.bitmapDirty kind = false → t.bitmapDirty kind = false

variable {geo : Geometry}

theorem SameView.refl (s : FsInfo) : SameView geo s s := ⟨fun _ _ _ _ _ => rfl, rfl, rfl⟩

theorem SameView.trans {s m t : FsInfo} (one : SameView geo s m) (two : SameView geo m t) :
    SameView geo s t where
  bits kind group i real small := (two.bits kind group i real small).trans (one.bits kind group i real small)
  bgFree := two.bgFree.trans one.bgFree
  sFree := two.sFree.trans one.sFree

instance (A : Nat → Prop) : IsPreorder FsInfo (Keeping geo A) where
  refl s coherent := ⟨coherent, .refl s, writesNothing _ _⟩
  trans _ _ _ one two coherent := by
    obtain ⟨coherent', same, writes⟩ := one coherent
    obtain ⟨coherent'', same', writes'⟩ := two coherent'
    exact ⟨coherent'', same.trans same', writes.trans writes'⟩

def NoneShort (coming : List Transfer) : Prop := ∀ t ∈ coming, t = .whole ∨ t = .refused

def FsInfo.facing (fs : FsInfo) (coming : List Transfer) : FsInfo :=
  { fs with dev := { fs.dev with coming := coming } }

theorem noneShortNil : NoneShort [] := fun _ h => nomatch h

theorem facingAnew {fs : FsInfo} {before coming : List Transfer}
    (coherent : Coherent geo (fs.facing before)) (noneShort : NoneShort coming) :
    Coherent geo (fs.facing coming) :=
  ⟨noneShort, coherent.resident, coherent.clean⟩

theorem Keeping.mono {A B : Nat → Prop} {s t : FsInfo} (keeps : Keeping geo A s t)
    (sub : ∀ b, A b → B b) : Keeping geo B s t := by
  intro coherent
  obtain ⟨coherent', same, writes⟩ := keeps coherent
  exact ⟨coherent', same, writes.mono fun _ => sub _⟩

instance : IsPreorder FsInfo (Flushes geo) where
  refl s := ⟨refl_of (Keeps geo) s, rfl, rfl, fun _ h => h⟩
  trans _ _ _ one two :=
    ⟨trans_of (Keeps geo) one.1 two.1, two.2.1.trans one.2.1, two.2.2.1.trans one.2.2.1,
      fun kind h => two.2.2.2 kind (one.2.2.2 kind h)⟩

section transfers

variable (sound : geo.Sound)
include sound

theorem writeApart {s : FsInfo} {A : Nat → Prop} {d : Device} (coherent : Coherent geo s)
    (writes : WritesBlocks geo A s.dev d)
    (apart : ∀ kind group, geo.Real group → ¬ A (geo.bgBitmap kind group)) :
    Coherent geo { s with dev := d } ∧ SameView geo s { s with dev := d } := by
  have kept (kind group) (real : geo.Real group) :
      blockAt geo d (geo.bgBitmap kind group) = blockAt geo s.dev (geo.bgBitmap kind group) :=
    blockKept sound writes (apart kind group real)
  refine ⟨⟨writes.unbroken coherent.unbroken, coherent.resident, ?_⟩, ⟨?_, rfl, rfl⟩⟩
  · intro group kind resident notDirty o small
    rw [kept kind group (coherent.resident group resident).2]
    exact coherent.clean group kind resident notDirty o small
  · intro kind group i real _
    simp only [image, kept kind group real]

theorem readKeeping (A : Nat → Prop) {b : Nat} {buf : Buf} {s : FsInfo} :
    Leaves (Keeping geo A) (ext2ReadBlock geo b buf) s := by
  unfold Leaves
  rcases readBlockDev geo b buf s with left | left
  · rw [left]
    exact refl_of (Keeping geo A) s
  · rw [left]
    intro coherent
    have writes : WritesBlocks geo (fun _ => False) s.dev s.dev.advance := advanceWrites _ _
    obtain ⟨coherent', same⟩ := writeApart sound coherent writes fun _ _ _ => id
    exact ⟨coherent', same, advanceWrites _ _⟩

theorem writeKeeping {b : Nat} (apart : ∀ kind group, geo.Real group → geo.bgBitmap kind group ≠ b)
    {buf : Buf} {s : FsInfo} : Leaves (Keeping geo (· = b)) (ext2WriteBlock geo b buf) s := by
  intro coherent
  rcases writeBlockCases sound b buf coherent.unbroken with
    ⟨d, wrote, nothing, _⟩ | ⟨d, wrote, writes, _⟩
  · rw [wrote]
    obtain ⟨coherent', same⟩ := writeApart sound coherent nothing fun _ _ _ => id
    exact ⟨coherent', same, nothing.mono fun _ => False.elim⟩
  · rw [wrote]
    obtain ⟨coherent', same⟩ := writeApart sound coherent writes apart
    exact ⟨coherent', same, writes⟩

theorem writeApartFlushes {s : FsInfo} {A : Nat → Prop} {d : Device}
    (writes : Coherent geo s → WritesBlocks geo A s.dev d) (system : ∀ b, A b → geo.System b)
    (apart : ∀ kind group, geo.Real group → ¬ A (geo.bgBitmap kind group)) :
    Flushes geo s { s with dev := d } := by
  refine ⟨fun coherent => ?_, rfl, rfl, fun _ h => h⟩
  obtain ⟨coherent', same⟩ := writeApart sound coherent (writes coherent) apart
  exact ⟨coherent', same, (writes coherent).mono fun s => system _⟩

theorem systemWrite {b : Nat} (system : geo.System b)
    (apart : ∀ kind group, geo.Real group → geo.bgBitmap kind group ≠ b) {s : FsInfo} {buf : Buf} :
    Leaves (Flushes geo) (ext2WriteBlock geo b buf) s := by
  unfold Leaves
  rcases Classical.em s.dev.Unbroken with whole | broken
  · rcases writeBlockCases sound b buf whole with
      ⟨d, wrote, nothing, _⟩ | ⟨d, wrote, writes, _⟩
    · rw [wrote]
      exact writeApartFlushes sound (fun _ => nothing) (fun _ => False.elim) (fun _ _ _ => id)
    · rw [wrote]
      exact writeApartFlushes sound (fun _ => writes) (fun _ same => same ▸ system)
        fun kind group real => apart kind group real
  · obtain ⟨d, left⟩ := writeBlockDev geo b buf s
    rw [left]
    exact ⟨fun coherent => absurd coherent.unbroken broken, rfl, rfl, fun _ h => h⟩

theorem blockRead {b : Nat} {s : FsInfo} {buf : Buf} :
    Leaves (Flushes geo) (ext2ReadBlock geo b buf) s := by
  unfold Leaves
  rcases readBlockDev geo b buf s with left | left
  · rw [left]
    exact refl_of (Flushes geo) s
  · rw [left]
    exact writeApartFlushes sound (A := fun _ => False) (fun _ => advanceWrites _ _)
      (fun _ => False.elim) (fun _ _ _ => id)

theorem flushGdtLeaves (s : FsInfo) : Leaves (Flushes geo) (flushGdt geo) s := by
  unfold flushGdt
  refine leavesBind (refl_of (Flushes geo) s) fun fs m ran => ?_
  split
  · refine leavesBind (leavesForM ?_ m) fun _ m' _ => ?_
    · intro i member s
      unfold writeGdtBlock
      refine leavesBind (refl_of (Flushes geo) s) fun fs s' _ => ?_
      refine leavesBind (blockRead sound) fun buf s'' _ => ?_
      have low : i < geo.gdtBlocks := List.mem_range.mp member
      exact systemWrite sound (.inr (.inl ⟨i, low, rfl⟩))
        fun kind group real => sound.gdtApart kind group real i low
    · exact ⟨fun coherent => ⟨⟨coherent.unbroken, coherent.resident, coherent.clean⟩,
        ⟨fun _ _ _ _ _ => rfl, rfl, rfl⟩, writesNothing _ _⟩, rfl, rfl, fun _ h => h⟩
  · exact leavesPure () m

theorem flushSuperLeaves (s : FsInfo) : Leaves (Flushes geo) (flushSuper geo) s := by
  unfold flushSuper
  refine leavesBind (refl_of (Flushes geo) s) fun fs m ran => ?_
  split
  · refine leavesBind ?_ fun _ m' _ => ?_
    · unfold ext2SyncSuper
      refine leavesBind (refl_of (Flushes geo) m) fun fs s' _ => ?_
      refine writeApartFlushes sound (A := (· = geo.superBlock)) (fun coherent => ?_)
        (fun _ same => .inr (.inr same)) fun kind group real => sound.superApart kind group real
      obtain ⟨positive, size⟩ := sound.sectors
      rcases bwriteCases 2 2 (superBytes geo fs) coherent.unbroken (by decide) with
        ⟨d, wrote, _, nothing⟩ | ⟨d, wrote, writes, _⟩
      · rw [wrote]
        exact nothing.mono fun _ => False.elim
      · rw [wrote]
        refine writes.mono fun s bounds => ?_
        unfold Geometry.superBlock
        have two : s = 2 ∨ s = 3 := by omega
        have sizes : geo.sectorsPerBlock = 2 ∨ geo.sectorsPerBlock = 4 ∨
            geo.sectorsPerBlock = 8 := by
          rcases sound.blockSize with h | h | h <;> omega
        rcases two with rfl | rfl <;> rcases sizes with h | h | h <;> rw [h]
    · exact ⟨fun coherent => ⟨⟨coherent.unbroken, coherent.resident, coherent.clean⟩,
        ⟨fun _ _ _ _ _ => rfl, rfl, rfl⟩, writesNothing _ _⟩, rfl, rfl, fun _ h => h⟩
  · exact leavesPure () m

theorem flushBitmapCases (kind : Kind) {group : Nat} {s : FsInfo} (coherent : Coherent geo s)
    (resident : s.bitmapGroup = some group) :
    Flushes geo s (flushBitmap geo kind group s).2 ∧
      ((flushBitmap geo kind group s).1 = some () →
        (flushBitmap geo kind group s).2.bitmapDirty kind = false) := by
  obtain ⟨_, real⟩ := coherent.resident group resident
  unfold flushBitmap
  rw [getBind]
  by_cases dirty : s.bitmapDirty kind = true
  · rw [if_pos dirty]
    rcases writeBlockCases sound (geo.bgBitmap kind group) (s.bitmap kind)
      coherent.unbroken with ⟨d, wrote, nothing, _⟩ | ⟨d, wrote, writes, inside, data⟩
    · rw [bindFails wrote]
      exact ⟨writeApartFlushes sound (fun _ => nothing) (fun _ => False.elim) (fun _ _ _ => id),
        nofun⟩
    rw [bindOf wrote]
    refine ⟨⟨fun _ => ⟨⟨writes.unbroken coherent.unbroken, coherent.resident, ?_⟩,
      ⟨?_, rfl, rfl⟩, writes.mono fun s same => ?_⟩, rfl, rfl, ?_⟩, fun _ => ?_⟩
    · intro group' kind' resident' notDirty o small
      cases resident.symm.trans resident'
      show s.bitmap kind' o = blockAt geo d (geo.bgBitmap kind' group) o
      by_cases same : kind' = kind
      · subst same
        rw [data, Buf.overlay, if_pos small]
      · rw [blockKept sound writes fun h => same (sound.bitmapsApart _ _ _ _ real real h).1]
        refine coherent.clean group kind' resident ?_ o small
        simpa only [modifyRun, setDirty, Function.update_of_ne same] using notDirty
    · intro kind' group' i real' _
      show (image geo { s with dev := d } kind' group').getBit i = _
      unfold image
      by_cases same : s.bitmapGroup = some group'
      · simp only [if_pos same]
      · simp only [if_neg same]
        rw [blockKept sound writes fun h => ?_]
        obtain ⟨-, rfl⟩ := sound.bitmapsApart _ _ _ _ real' real h
        exact same resident
    · exact .inl ⟨group, kind, (coherent.resident group resident).1, real, same⟩
    · intro kind' clean
      show Function.update s.bitmapDirty kind false kind' = false
      rw [Function.update_apply]
      split
      · rfl
      · exact clean
    · exact Function.update_self ..
  · rw [if_neg dirty]
    exact ⟨refl_of (Flushes geo) s, fun _ => by simpa using dirty⟩

theorem syncLeaves (s : FsInfo) (coherent : Coherent geo s) :
    Flushes geo s (ext2SyncBitmaps geo s).2 ∧
      ((ext2SyncBitmaps geo s).1 = some () → s.bitmapGroup ≠ none →
        ∀ kind, (ext2SyncBitmaps geo s).2.bitmapDirty kind = false) := by
  unfold ext2SyncBitmaps
  rw [getBind]
  cases resident : s.bitmapGroup with
  | none => exact ⟨refl_of (Flushes geo) s, fun _ h => absurd rfl h⟩
  | some group =>
    dsimp only
    obtain ⟨first, blockClean⟩ := flushBitmapCases sound .block coherent resident
    rcases one : flushBitmap geo .block group s with ⟨_ | _, m⟩
    · rw [bindFails one]
      exact ⟨by simpa only [one] using first, nofun⟩
    rw [bindOf one]
    rw [one] at first blockClean
    have coherent' := (first.1 coherent).1
    obtain ⟨second, inodeClean⟩ :=
      flushBitmapCases sound .inode coherent' (first.2.1.trans resident)
    rcases two : flushBitmap geo .inode group m with ⟨_ | _, n⟩
    · rw [bindFails two]
      rw [two] at second
      exact ⟨trans_of (Flushes geo) first second, nofun⟩
    rw [bindOf two]
    rw [two] at second inodeClean
    have third : Flushes geo n ((flushGdt geo >>= fun _ => flushSuper geo) n).2 :=
      leavesBind (flushGdtLeaves sound n) fun _ m' _ => flushSuperLeaves sound m'
    refine ⟨trans_of (Flushes geo) first (trans_of (Flushes geo) second third), ?_⟩
    intro _ _ kind
    refine third.2.2.2 kind ?_
    cases kind with
    | block => exact second.2.2.2 .block (blockClean rfl)
    | inode => exact inodeClean rfl

omit sound in
theorem getBitCongr {a b : Buf} {i : Nat} (same : ∀ o < geo.blockSize, a o = b o)
    (small : i < 8 * geo.blockSize) : a.getBit i = b.getBit i := by
  unfold Buf.getBit
  rw [same (i / 8) (by omega)]

omit sound in
theorem forgetKeeps {s : FsInfo}
    (clean : s.bitmapGroup ≠ none → ∀ kind, s.bitmapDirty kind = false) :
    Keeps geo s { s with bitmapGroup := none } := by
  intro coherent
  refine ⟨⟨coherent.unbroken, nofun, nofun⟩, ⟨?_, rfl, rfl⟩, writesNothing _ _⟩
  intro kind group i real small
  unfold image
  rw [if_neg nofun]
  by_cases resident : s.bitmapGroup = some group
  · rw [if_pos resident]
    refine (getBitCongr (coherent.clean group kind resident ?_) small).symm
    exact clean (by simp [resident]) kind
  · rw [if_neg resident]

omit sound in
theorem installKeeps {s : FsInfo} {group : Nat} (inside : group < geo.numGroups)
    (real : geo.Real group) (empty : s.bitmapGroup = none)
    (agrees : ∀ kind, ∀ o < geo.blockSize,
      s.bitmap kind o = blockAt geo s.dev (geo.bgBitmap kind group) o) :
    Keeps geo s { s with bitmapDirty := fun _ => false, bitmapGroup := some group } := by
  intro coherent
  refine ⟨⟨coherent.unbroken, ?_, ?_⟩, ⟨?_, rfl, rfl⟩, writesNothing _ _⟩
  · intro group' resident
    cases resident
    exact ⟨inside, real⟩
  · intro group' kind resident _
    cases resident
    exact agrees kind
  · intro kind group' i _ small
    simp only [image, empty, reduceCtorEq, if_false, Option.some.injEq]
    split
    · next same =>
      subst same
      exact getBitCongr (agrees kind) small
    · rfl

theorem readBitmapCases (kind : Kind) (group : Nat) {s : FsInfo} (coherent : Coherent geo s)
    (empty : s.bitmapGroup = none) :
    Keeps geo s (readBitmap geo kind group s).2 ∧
      (readBitmap geo kind group s).2.bitmapGroup = none ∧
      ((readBitmap geo kind group s).1 = some () →
        (∀ b, blockAt geo (readBitmap geo kind group s).2.dev b = blockAt geo s.dev b) ∧
        (∀ o < geo.blockSize, (readBitmap geo kind group s).2.bitmap kind o =
          blockAt geo s.dev (geo.bgBitmap kind group) o) ∧
        ∀ other, other ≠ kind → (readBitmap geo kind group s).2.bitmap other = s.bitmap other) := by
  unfold readBitmap
  rw [getBind]
  rcases readBlockCases sound (geo.bgBitmap kind group) (s.bitmap kind)
    coherent.unbroken with ⟨d, read, writes, _⟩ | ⟨d, read, writes, _⟩
  · rw [bindFails read]
    have flushes := writeApartFlushes sound (s := s) (d := d) (A := fun _ => False)
      (fun _ => writes _) (fun _ => False.elim) (fun _ _ _ => id)
    exact ⟨flushes.1, empty, nofun⟩
  rw [bindOf read]
  have same (b : Nat) : blockAt geo d b = blockAt geo s.dev b :=
    blockKept sound (writes fun _ => False) id
  refine ⟨fun _ => ⟨⟨(writes fun _ => True).unbroken coherent.unbroken, ?_, ?_⟩,
    ⟨?_, rfl, rfl⟩, writes _⟩, empty, fun _ => ⟨same, ?_, ?_⟩⟩
  · intro group' resident
    exact absurd (empty.symm.trans resident) nofun
  · intro group' _ resident
    exact absurd (empty.symm.trans resident) nofun
  · intro kind' group' i _ _
    simp only [modifyRun, image, empty, reduceCtorEq, if_false, same]
  · intro o small
    rw [modifyRun]
    simp only [Function.update_self]
    rw [Buf.overlay, if_pos small]
  · intro other differs
    exact Function.update_of_ne differs ..

theorem loadCases (group : Nat) {s : FsInfo} (coherent : Coherent geo s) :
    Keeps geo s (ext2LoadGroupBitmaps geo group s).2 ∧
      ((ext2LoadGroupBitmaps geo group s).1 = some () →
        (ext2LoadGroupBitmaps geo group s).2.bitmapGroup = some group) := by
  unfold ext2LoadGroupBitmaps
  rw [getBind]
  by_cases outside : geo.numGroups ≤ group
  · rw [if_pos outside]
    exact ⟨refl_of (Keeps geo) s, nofun⟩
  rw [if_neg outside]
  by_cases already : s.bitmapGroup = some group
  · rw [if_pos already]
    exact ⟨refl_of (Keeps geo) s, fun _ => already⟩
  rw [if_neg already]
  obtain ⟨flushes, clean⟩ := syncLeaves sound s coherent
  rcases sync : ext2SyncBitmaps geo s with ⟨_ | _, m⟩
  · rw [bindFails sync]
    rw [sync] at flushes
    exact ⟨flushes.1, nofun⟩
  rw [bindOf sync, modifyBind]
  rw [sync] at flushes clean
  have forgot : Keeps geo m { m with bitmapGroup := none } :=
    forgetKeeps fun resident => clean rfl (by rw [← flushes.2.1]; exact resident)
  have upTo := trans_of (Keeps geo) flushes.1 forgot
  by_cases missing : geo.bgBitmap .block group = 0 ∨ geo.bgBitmap .inode group = 0
  · rw [if_pos missing]
    exact ⟨upTo, nofun⟩
  rw [if_neg missing]
  have real : geo.Real group := by
    by_contra notReal
    exact missing (.inl (sound.emptyGroup group (by omega) notReal).1)
  obtain ⟨keeps, empty, loaded⟩ :=
    readBitmapCases sound .block group (upTo coherent).1 rfl
  rcases first : readBitmap geo .block group { m with bitmapGroup := none } with ⟨_ | _, n⟩
  · rw [bindFails first]
    rw [first] at keeps
    exact ⟨trans_of (Keeps geo) upTo keeps, nofun⟩
  rw [bindOf first]
  rw [first] at keeps empty loaded
  have upTo' := trans_of (Keeps geo) upTo keeps
  obtain ⟨keeps', empty', loaded'⟩ :=
    readBitmapCases sound .inode group (upTo' coherent).1 empty
  rcases second : readBitmap geo .inode group n with ⟨_ | _, p⟩
  · rw [bindFails second]
    rw [second] at keeps'
    exact ⟨trans_of (Keeps geo) upTo' keeps', nofun⟩
  rw [bindOf second]
  rw [second] at keeps' empty' loaded'
  have upTo'' := trans_of (Keeps geo) upTo' keeps'
  refine ⟨fun _ => ?_, fun _ => rfl⟩
  obtain ⟨coherent', same, writes⟩ := upTo'' coherent
  obtain ⟨sameBlocks, inodeBits, others⟩ := loaded' rfl
  have agrees (kind : Kind) : ∀ o < geo.blockSize,
      p.bitmap kind o = blockAt geo p.dev (geo.bgBitmap kind group) o := by
    intro o small
    rw [sameBlocks]
    cases kind with
    | inode => exact inodeBits o small
    | block =>
      rw [others .block nofun, (loaded rfl).2.1 o small, (loaded rfl).1]
  obtain ⟨installed, same', nothing⟩ := installKeeps (by omega) real empty' agrees coherent'
  exact ⟨installed, same.trans same', writes.trans nothing⟩

end transfers

def Ready (geo : Geometry) (fs : FsInfo) : Prop :=
  fs.dev.Reliable ∧ ∀ group, fs.bitmapGroup = some group → geo.Real group

section reliable

variable (sound : geo.Sound)
include sound

theorem readSure {s : FsInfo} (ready : Ready geo s) {b : Nat} (inside : b < geo.sBlocksCount)
    (buf : Buf) : Sure (Ready geo) (ext2ReadBlock geo b buf) s := by
  rcases readBlockCases sound b buf ready.1.unbroken with
    ⟨d, _, _, outside⟩ | ⟨d, read, writes, _⟩
  · exact absurd (outside ready.1) (by omega)
  · unfold Sure
    rw [read]
    exact ⟨rfl, (writes fun _ => True).reliable ready.1, ready.2⟩

theorem writeSure {s : FsInfo} (ready : Ready geo s) {b : Nat} (inside : b < geo.sBlocksCount)
    (buf : Buf) : Sure (Ready geo) (ext2WriteBlock geo b buf) s := by
  rcases writeBlockCases sound b buf ready.1.unbroken with
    ⟨d, _, _, outside⟩ | ⟨d, wrote, writes, _⟩
  · exact absurd (outside ready.1) (by omega)
  · unfold Sure
    rw [wrote]
    exact ⟨rfl, writes.reliable ready.1, ready.2⟩

theorem flushBitmapSure {kind : Kind} {group : Nat} (real : geo.Real group) {s : FsInfo}
    (ready : Ready geo s) : Sure (Ready geo) (flushBitmap geo kind group) s := by
  unfold flushBitmap
  refine sureBind ⟨rfl, ready⟩ fun fs m _ ready' => ?_
  split
  · refine sureBind (writeSure sound ready' (sound.bitmapsInside kind group real).2 _) ?_
    exact fun _ m' _ ready'' => sureModify ready''
  · exact surePure () ready'

theorem syncSure {s : FsInfo} (ready : Ready geo s) :
    Sure (Ready geo) (ext2SyncBitmaps geo) s := by
  unfold ext2SyncBitmaps
  unfold Sure
  rw [getBind]
  cases resident : s.bitmapGroup with
  | none => exact ⟨rfl, ready⟩
  | some group =>
    have real := ready.2 group resident
    refine sureBind (flushBitmapSure sound real ready) fun _ m _ ready' => ?_
    refine sureBind (flushBitmapSure sound real ready') fun _ n _ ready'' => ?_
    refine sureBind ?_ fun _ p _ ready''' => ?_
    · unfold flushGdt
      refine sureBind ⟨rfl, ready''⟩ fun fs _ _ ready => ?_
      split
      · refine sureBind (sureForM (fun i member s ready => ?_) ready) fun _ _ _ ready => ?_
        · have low : i < geo.gdtBlocks := List.mem_range.mp member
          have fits := sound.gdtInside
          unfold writeGdtBlock
          refine sureBind ⟨rfl, ready⟩ fun fs _ _ ready => ?_
          refine sureBind (readSure sound ready (by omega) _) fun buf _ _ ready => ?_
          exact writeSure sound ready (by omega) _
        · exact sureModify ready
      · exact surePure () ready
    · unfold flushSuper
      refine sureBind ⟨rfl, ready'''⟩ fun fs q _ ready => ?_
      split
      · refine sureBind (sureBind ⟨rfl, ready⟩ fun fs m _ ready => ?_) fun _ _ _ ready => ?_
        · rcases bwriteCases 2 2 (superBytes geo fs) ready.1.unbroken (by decide) with
            ⟨d, _, refused, _⟩ | ⟨d, wrote, writes, _⟩
          · rw [ready.1.next] at refused
            cases refused
          · simp only [Sure, onDev, wrote]
            exact ⟨rfl, writes.reliable ready.1, ready.2⟩
        · exact sureModify ready
      · exact surePure () ready

theorem readBitmapSure {kind : Kind} {group : Nat} (real : geo.Real group) {s : FsInfo}
    (ready : Ready geo s) : Sure (Ready geo) (readBitmap geo kind group) s := by
  unfold readBitmap
  refine sureBind ⟨rfl, ready⟩ fun fs m _ ready' => ?_
  refine sureBind (readSure sound ready' (sound.bitmapsInside kind group real).2 _) ?_
  exact fun _ m' _ ready'' => sureModify ready''

theorem loadSure {group : Nat} {s : FsInfo} (ready : Ready geo s)
    (inside : group < geo.numGroups) (real : geo.Real group) :
    Sure (Ready geo) (ext2LoadGroupBitmaps geo group) s := by
  unfold ext2LoadGroupBitmaps
  refine sureBind ⟨rfl, ready⟩ fun fs m _ ready' => ?_
  rw [if_neg (show ¬ geo.numGroups ≤ group by omega)]
  split
  · exact surePure () ready'
  refine sureBind (syncSure sound ready') fun _ m _ ready => ?_
  refine sureBind (sureModify ⟨ready.1, nofun⟩) fun _ m _ ready => ?_
  have block := (sound.bitmapsInside .block group real).1
  have inode := (sound.bitmapsInside .inode group real).1
  rw [if_neg (show ¬ (geo.bgBitmap .block group = 0 ∨ geo.bgBitmap .inode group = 0) by omega)]
  refine sureBind (readBitmapSure sound real ready) fun _ m _ ready => ?_
  refine sureBind (readBitmapSure sound real ready) fun _ m _ ready => ?_
  refine sureModify ⟨ready.1, ?_⟩
  rintro _ ⟨⟩
  exact real

end reliable

end Scepter.Ext2
