import Scepter.Fs.Ext2.Marks

/-! The group descriptors and the superblock on the device. They are those in memory
unless they are flagged dirty, and nothing is flagged while no group is resident; so a
sync that succeeds leaves the device as the memory has it. -/
namespace Scepter.Ext2

open Block Prog

def GdtBlock (geo : Geometry) (fs : FsInfo) (i : Nat) : Prop :=
  ∀ x < geo.gdtBytes, x / geo.blockSize = i →
    blockAt geo fs.dev (geo.sFirstDataBlock + 1 + i) (x % geo.blockSize) =
      groupDesc geo fs (x / 32) (x % 32)

def GdtOnDisk (geo : Geometry) (fs : FsInfo) : Prop := ∀ i < geo.gdtBlocks, GdtBlock geo fs i

def SuperOnDisk (geo : Geometry) (fs : FsInfo) : Prop :=
  ∀ o < 1024, fs.dev.sector (2 + o / 512) (o % 512) = superBytes geo fs o

def BitmapsOnDisk (geo : Geometry) (fs : FsInfo) : Prop :=
  ∀ kind group, geo.Real group → ∀ o < geo.blockSize,
    blockAt geo fs.dev (geo.bgBitmap kind group) o = image geo fs kind group o

structure Current (geo : Geometry) (fs : FsInfo) : Prop where
  gdt : fs.gdtDirty = false → GdtOnDisk geo fs
  super : fs.sbDirty = false → SuperOnDisk geo fs
  flushed : fs.bitmapGroup = none → fs.gdtDirty = false ∧ fs.sbDirty = false

def Geometry.SuperFirst (geo : Geometry) : Prop :=
  geo.blockSize = 1024 → geo.sFirstDataBlock = 1

variable {geo : Geometry}

section tables

variable (sound : geo.Sound) (first : geo.SuperFirst)
include sound

include first in
theorem superBelow (i : Nat) : geo.sFirstDataBlock + 1 + i ≠ geo.superBlock := by
  unfold Geometry.superBlock Geometry.sectorsPerBlock
  rcases sound.blockSize with size | size | size
  · rw [size, first size]
    omega
  · rw [size]
    omega
  · rw [size]
    omega

theorem superSector {o : Nat} (small : o < 1024) :
    (2 + o / 512) / geo.sectorsPerBlock = geo.superBlock := by
  have low : o / 512 = 0 ∨ o / 512 = 1 := by omega
  unfold Geometry.superBlock Geometry.sectorsPerBlock
  rcases sound.blockSize with size | size | size <;> rcases low with low | low <;> rw [size, low]

theorem gdtBlockKept {A : Nat → Prop} {s : FsInfo} {d : Device} {i : Nat}
    (writes : WritesBlocks geo A s.dev d) (off : ¬ A (geo.sFirstDataBlock + 1 + i))
    (agrees : GdtBlock geo s i) : GdtBlock geo { s with dev := d } i := by
  intro x small inBlock
  rw [blockKept sound writes off]
  exact agrees x small inBlock

theorem superKept {A : Nat → Prop} {s : FsInfo} {d : Device}
    (writes : WritesBlocks geo A s.dev d) (off : ¬ A geo.superBlock)
    (agrees : SuperOnDisk geo s) : SuperOnDisk geo { s with dev := d } := by
  intro o small
  have kept : d.sector (2 + o / 512) = s.dev.sector (2 + o / 512) := by
    refine writes.keeps ?_
    rw [superSector sound small]
    exact off
  exact (congrFun kept _).trans (agrees o small)

theorem currentApart {A : Nat → Prop} {s : FsInfo} {d : Device} (current : Current geo s)
    (writes : WritesBlocks geo A s.dev d)
    (gdtOff : ∀ i < geo.gdtBlocks, ¬ A (geo.sFirstDataBlock + 1 + i))
    (superOff : ¬ A geo.superBlock) : Current geo { s with dev := d } where
  gdt clean i low := gdtBlockKept sound writes (gdtOff i low) (current.gdt clean i low)
  super clean := superKept sound writes superOff (current.super clean)
  flushed := current.flushed

/-! ## Writing the group descriptors -/

structure Wrote (geo : Geometry) (A : Nat → Prop) (s : FsInfo) (d : Device) : Prop where
  writes : WritesBlocks geo A s.dev d
  kept : ∀ j, GdtBlock geo s j → GdtBlock geo { s with dev := d } j

theorem writeGdtBlockCases (i : Nat) {s : FsInfo}
    (unbroken : s.dev.Unbroken) :
    ∃ d, (writeGdtBlock geo i s).2 = { s with dev := d } ∧
      Wrote geo (· = geo.sFirstDataBlock + 1 + i) s d ∧
      ((writeGdtBlock geo i s).1 = some () → GdtBlock geo { s with dev := d } i) := by
  unfold writeGdtBlock
  rw [getBind]
  have still {d : Device} (writes : ∀ A, WritesBlocks geo A s.dev d) :
      Wrote geo (· = geo.sFirstDataBlock + 1 + i) s d :=
    ⟨writes _, fun j => gdtBlockKept sound (writes fun _ => False) id⟩
  rcases readBlockCases sound (geo.sFirstDataBlock + 1 + i) Buf.zero unbroken with
    ⟨d, read, writes, _⟩ | ⟨d, read, writes, _⟩
  · rw [bindFails read]
    exact ⟨d, rfl, still writes, nofun⟩
  rw [bindOf read]
  generalize Buf.overlay geo.blockSize _ Buf.zero = old
  have unbroken' : ({ s with dev := d } : FsInfo).dev.Unbroken :=
    (writes fun _ => True).unbroken unbroken
  rcases writeBlockCases sound (geo.sFirstDataBlock + 1 + i)
      (Buf.overlay (min (geo.gdtBytes - i * geo.blockSize) geo.blockSize)
        (fun o => groupDesc geo s ((i * geo.blockSize + o) / 32) ((i * geo.blockSize + o) % 32))
        old) unbroken' with
    ⟨d', wrote, nothing, _⟩ | ⟨d', wrote, writes', _, data⟩
  · rw [wrote]
    refine ⟨d', rfl, still fun A => ?_, nofun⟩
    exact (writes A).trans (nothing.mono fun _ => False.elim)
  rw [wrote]
  obtain ⟨positive, size⟩ := sound.sectors
  have agrees : GdtBlock geo { s with dev := d' } i := by
    intro x small inBlock
    have split := Nat.div_add_mod' x geo.blockSize
    have below := Nat.mod_lt x (show 0 < geo.blockSize by omega)
    rw [inBlock] at split
    show blockAt geo d' _ _ = _
    rw [data, Buf.overlay, if_pos below, Buf.overlay, if_pos (by omega), split]
    rfl
  refine ⟨d', rfl, ⟨(writes (· = _)).trans writes', fun j before => ?_⟩, fun _ => agrees⟩
  by_cases here : j = i
  · rw [here]
    exact agrees
  · have after := gdtBlockKept sound (writes fun _ => False) id before
    exact gdtBlockKept sound (s := { s with dev := d }) writes' (fun same => here (by omega)) after

def Geometry.Gdt (geo : Geometry) (b : Nat) : Prop :=
  ∃ i < geo.gdtBlocks, b = geo.sFirstDataBlock + 1 + i

theorem writeGdtCases {l : List Nat} (low : ∀ i ∈ l, i < geo.gdtBlocks) {s : FsInfo}
    (unbroken : s.dev.Unbroken) :
    ∃ d, (l.forM (writeGdtBlock geo) s).2 = { s with dev := d } ∧ Wrote geo geo.Gdt s d ∧
      ((l.forM (writeGdtBlock geo) s).1 = some () →
        ∀ i ∈ l, GdtBlock geo { s with dev := d } i) := by
  induction l generalizing s with
  | nil => exact ⟨s.dev, rfl, ⟨writesNothing _ _, fun _ => id⟩,
      fun _ i member => absurd member List.not_mem_nil⟩
  | cons i rest ih =>
    have lowI := low i List.mem_cons_self
    obtain ⟨d, left, ⟨writes, kept⟩, agrees⟩ := writeGdtBlockCases sound i unbroken
    have writes : WritesBlocks geo geo.Gdt s.dev d := writes.mono fun _ same => ⟨i, lowI, same⟩
    rw [show (i :: rest).forM (writeGdtBlock geo) =
      (writeGdtBlock geo i >>= fun _ => rest.forM (writeGdtBlock geo)) from rfl]
    rcases ran : writeGdtBlock geo i s with ⟨_ | _, m⟩
    · rw [ran] at left
      rw [bindFails ran]
      exact ⟨d, left, ⟨writes, kept⟩, nofun⟩
    · rw [ran] at left agrees
      replace left : m = { s with dev := d } := left
      subst left
      rw [bindOf ran]
      obtain ⟨d', left', ⟨writes', kept'⟩, agrees'⟩ :=
        ih (fun j member => low j (List.mem_cons_of_mem _ member))
          (s := { s with dev := d }) (writes.unbroken unbroken)
      refine ⟨d', left', ⟨writes.trans writes', fun j before => kept' j (kept j before)⟩, ?_⟩
      intro done j member
      rcases List.mem_cons.mp member with rfl | later
      · exact kept' j (agrees rfl)
      · exact agrees' done j later

/-! ## Writing back -/

structure Settles (geo : Geometry) (s t : FsInfo) : Prop where
  coherent : Coherent geo t
  current : Current geo t
  usedDirs : t.bgUsedDirs = s.bgUsedDirs
  group : t.bitmapGroup = s.bitmapGroup
  gdtClean : s.gdtDirty = false → t.gdtDirty = false
  sbClean : s.sbDirty = false → t.sbDirty = false

omit sound in
theorem Settles.trans {s m t : FsInfo} (one : Settles geo s m) (two : Settles geo m t) :
    Settles geo s t where
  coherent := two.coherent
  current := two.current
  usedDirs := two.usedDirs.trans one.usedDirs
  group := two.group.trans one.group
  gdtClean clean := two.gdtClean (one.gdtClean clean)
  sbClean clean := two.sbClean (one.sbClean clean)

theorem flushBitmapSettles (kind : Kind) {group : Nat} {s : FsInfo} (coherent : Coherent geo s)
    (current : Current geo s) (resident : s.bitmapGroup = some group) :
    Settles geo s (flushBitmap geo kind group s).2 := by
  have real := (coherent.resident group resident).2
  have coherent' := ((flushBitmapCases sound kind coherent resident).1.1 coherent).1
  unfold flushBitmap at coherent' ⊢
  rw [getBind] at coherent' ⊢
  by_cases dirty : s.bitmapDirty kind = true
  · rw [if_pos dirty] at coherent' ⊢
    rcases writeBlockCases sound (geo.bgBitmap kind group) (s.bitmap kind) coherent.unbroken with
      ⟨d, wrote, nothing, _⟩ | ⟨d, wrote, writes, _⟩
    · rw [bindFails wrote] at coherent' ⊢
      exact ⟨coherent', currentApart sound current nothing (fun _ _ => id) id, rfl, rfl, id, id⟩
    · rw [bindOf wrote] at coherent' ⊢
      have current' := currentApart sound current writes
        (fun i low same => sound.gdtApart kind group real i low same.symm)
        fun same => sound.superApart kind group real same.symm
      exact ⟨coherent', ⟨current'.gdt, current'.super, current'.flushed⟩, rfl, rfl, id, id⟩
  · rw [if_neg dirty]
    exact ⟨coherent, current, rfl, rfl, id, id⟩

include first in
theorem flushGdtSettles {s : FsInfo} (coherent : Coherent geo s) (current : Current geo s) :
    Settles geo s (flushGdt geo s).2 ∧
      ((flushGdt geo s).1 = some () → (flushGdt geo s).2.gdtDirty = false) := by
  unfold flushGdt
  rw [getBind]
  split
  · obtain ⟨d, left, ⟨writes, kept⟩, agrees⟩ :=
      writeGdtCases sound (l := List.range geo.gdtBlocks) (fun _ => List.mem_range.mp)
        coherent.unbroken
    have coherent' := (writeApart sound coherent writes
      fun kind group real ⟨i, low, same⟩ => sound.gdtApart kind group real i low same).1
    have super : SuperOnDisk geo s → SuperOnDisk geo { s with dev := d } :=
      superKept sound writes fun ⟨i, _, same⟩ => superBelow sound first i same.symm
    rcases ran : (List.range geo.gdtBlocks).forM (writeGdtBlock geo) s with ⟨_ | _, m⟩
    · rw [ran] at left
      replace left : m = { s with dev := d } := left
      rw [bindFails ran, left]
      refine ⟨⟨coherent', ⟨fun clean i low => kept i (current.gdt clean i low), ?_,
        current.flushed⟩, rfl, rfl, id, id⟩, nofun⟩
      exact fun clean => super (current.super clean)
    · rw [ran] at left agrees
      replace left : m = { s with dev := d } := left
      rw [bindOf ran, left]
      refine ⟨⟨⟨coherent'.unbroken, coherent'.resident, coherent'.clean⟩, ⟨?_, ?_, ?_⟩, rfl, rfl,
        fun _ => rfl, id⟩, fun _ => rfl⟩
      · exact fun _ i low => agrees rfl i (List.mem_range.mpr low)
      · exact fun clean => super (current.super clean)
      · exact fun empty => ⟨rfl, (current.flushed empty).2⟩
  · rename_i clean
    refine ⟨⟨coherent, current, rfl, rfl, id, id⟩, fun _ => ?_⟩
    refine Bool.eq_false_iff.mpr fun dirty => clean ?_
    exact Bool.or_eq_true_iff.mpr (.inl dirty)

theorem syncSuperCases (rest : Buf) {s : FsInfo} (unbroken : s.dev.Unbroken) :
    ∃ d, (ext2SyncSuper { geo with sRest := rest } s).2 = { s with dev := d } ∧
      WritesBlocks geo (· = geo.superBlock) s.dev d ∧
      ((ext2SyncSuper { geo with sRest := rest } s).1 = some () →
        SuperOnDisk { geo with sRest := rest } { s with dev := d }) := by
  unfold ext2SyncSuper
  rw [getBind]
  rcases bwriteCases 2 2 (superBytes { geo with sRest := rest } s) unbroken (by decide) with
    ⟨d, wrote, _, nothing⟩ | ⟨d, wrote, writes, data⟩
  · rw [onDev, wrote]
    exact ⟨d, rfl, nothing.mono fun _ => False.elim, fun done => absurd done (by simp)⟩
  · rw [onDev, wrote]
    refine ⟨d, rfl, writes.mono fun sector bounds => ?_, fun _ o small => ?_⟩
    · have two : sector = 2 + 0 / 512 ∨ sector = 2 + 512 / 512 := by omega
      rcases two with rfl | rfl
      · exact superSector sound (by decide)
      · exact superSector sound (by decide)
    · have low : o / 512 < 2 := by omega
      rw [show ({ s with dev := d } : FsInfo).dev = d from rfl, data _ (by omega) (by omega),
        Nat.add_sub_cancel_left, Nat.div_add_mod']
      rfl

include first in
theorem flushSuperSettles {s : FsInfo} (coherent : Coherent geo s) (current : Current geo s) :
    Settles geo s (flushSuper geo s).2 ∧
      ((flushSuper geo s).1 = some () → (flushSuper geo s).2.sbDirty = false) := by
  unfold flushSuper
  rw [getBind]
  split
  · obtain ⟨d, left, writes, data⟩ := syncSuperCases sound geo.sRest coherent.unbroken
    replace left : (ext2SyncSuper geo s).2 = { s with dev := d } := left
    replace data : (ext2SyncSuper geo s).1 = some () → SuperOnDisk geo { s with dev := d } := data
    have coherent' := (writeApart sound coherent writes
      fun kind group real same => sound.superApart kind group real same).1
    have gdt (clean : s.gdtDirty = false) : GdtOnDisk geo { s with dev := d } := fun i low =>
      gdtBlockKept sound writes (superBelow sound first i) (current.gdt clean i low)
    rcases ran : ext2SyncSuper geo s with ⟨_ | _, m⟩
    · rw [ran] at left
      replace left : m = { s with dev := d } := left
      rw [bindFails ran, left]
      rename_i dirty
      exact ⟨⟨coherent', ⟨gdt, fun clean => absurd dirty (Bool.eq_false_iff.mp clean),
        current.flushed⟩, rfl, rfl, id, id⟩, nofun⟩
    · rw [ran] at left data
      replace left : m = { s with dev := d } := left
      rw [bindOf ran, left]
      refine ⟨⟨⟨coherent'.unbroken, coherent'.resident, coherent'.clean⟩, ⟨gdt, ?_, ?_⟩, rfl, rfl,
        id, fun _ => rfl⟩, fun _ => rfl⟩
      · exact fun _ => data rfl
      · exact fun empty => ⟨(current.flushed empty).1, rfl⟩
  · rename_i clean
    exact ⟨⟨coherent, current, rfl, rfl, id, id⟩, fun _ => Bool.eq_false_iff.mpr clean⟩

include first

theorem syncSettles {s : FsInfo} (coherent : Coherent geo s) (current : Current geo s) :
    Settles geo s (ext2SyncBitmaps geo s).2 ∧
      ((ext2SyncBitmaps geo s).1 = some () →
        (ext2SyncBitmaps geo s).2.gdtDirty = false ∧ (ext2SyncBitmaps geo s).2.sbDirty = false) := by
  unfold ext2SyncBitmaps
  rw [getBind]
  cases resident : s.bitmapGroup with
  | none => exact ⟨⟨coherent, current, rfl, rfl, id, id⟩, fun _ => current.flushed resident⟩
  | some group =>
    dsimp only
    have blocks := flushBitmapSettles sound .block coherent current resident
    rcases one : flushBitmap geo .block group s with ⟨_ | _, m⟩
    · rw [bindFails one]
      rw [one] at blocks
      exact ⟨blocks, nofun⟩
    rw [bindOf one]
    rw [one] at blocks
    have inodes := flushBitmapSettles sound .inode blocks.coherent blocks.current
      (blocks.group.trans resident)
    rcases two : flushBitmap geo .inode group m with ⟨_ | _, n⟩
    · rw [bindFails two]
      rw [two] at inodes
      exact ⟨blocks.trans inodes, nofun⟩
    rw [bindOf two]
    rw [two] at inodes
    obtain ⟨table, gdtClean⟩ := flushGdtSettles sound first inodes.coherent inodes.current
    rcases three : flushGdt geo n with ⟨_ | _, p⟩
    · rw [bindFails three]
      rw [three] at table
      exact ⟨(blocks.trans inodes).trans table, nofun⟩
    rw [bindOf three]
    rw [three] at table gdtClean
    obtain ⟨super, sbClean⟩ := flushSuperSettles sound first table.coherent table.current
    refine ⟨((blocks.trans inodes).trans table).trans super, fun done => ⟨?_, sbClean done⟩⟩
    exact super.gdtClean (gdtClean rfl)

theorem syncWrites {s : FsInfo} (coherent : Coherent geo s) (current : Current geo s)
    (done : (ext2SyncBitmaps geo s).1 = some ()) :
    BitmapsOnDisk geo (ext2SyncBitmaps geo s).2 ∧ GdtOnDisk geo (ext2SyncBitmaps geo s).2 ∧
      SuperOnDisk geo (ext2SyncBitmaps geo s).2 := by
  obtain ⟨settles, clean⟩ := syncSettles sound first coherent current
  obtain ⟨gdtClean, sbClean⟩ := clean done
  refine ⟨?_, settles.current.gdt gdtClean, settles.current.super sbClean⟩
  intro kind group real o small
  unfold image
  split
  · rename_i resident
    have dirty := (syncLeaves sound s coherent).2 done
      (by rw [← settles.group, resident]; exact Option.some_ne_none group) kind
    exact (settles.coherent.clean group kind resident dirty o small).symm
  · rfl

omit first in
theorem readBitmapCurrent (kind : Kind) (group : Nat) {s : FsInfo} (coherent : Coherent geo s)
    (current : Current geo s) :
    Current geo (readBitmap geo kind group s).2 ∧
      (readBitmap geo kind group s).2.bgUsedDirs = s.bgUsedDirs := by
  unfold readBitmap
  rw [getBind]
  rcases readBlockCases sound (geo.bgBitmap kind group) (s.bitmap kind) coherent.unbroken with
    ⟨d, read, writes, _⟩ | ⟨d, read, writes, _⟩
  · rw [bindFails read]
    exact ⟨currentApart sound current (writes fun _ => False) (fun _ _ => id) id, rfl⟩
  · rw [bindOf read]
    have current' := currentApart sound current (writes fun _ => False) (fun _ _ => id) id
    exact ⟨⟨current'.gdt, current'.super, current'.flushed⟩, rfl⟩

theorem loadSettles (group : Nat) {s : FsInfo} (coherent : Coherent geo s)
    (current : Current geo s) :
    Current geo (ext2LoadGroupBitmaps geo group s).2 ∧
      (ext2LoadGroupBitmaps geo group s).2.bgUsedDirs = s.bgUsedDirs := by
  unfold ext2LoadGroupBitmaps
  rw [getBind]
  split
  · exact ⟨current, rfl⟩
  split
  · exact ⟨current, rfl⟩
  obtain ⟨settles, clean⟩ := syncSettles sound first coherent current
  obtain ⟨_, bitmapClean⟩ := syncLeaves sound s coherent
  rcases sync : ext2SyncBitmaps geo s with ⟨_ | _, m⟩
  · rw [bindFails sync]
    rw [sync] at settles
    exact ⟨settles.current, settles.usedDirs⟩
  rw [bindOf sync, modifyBind]
  rw [sync] at settles clean bitmapClean
  have forgot : Current geo { m with bitmapGroup := none } :=
    ⟨settles.current.gdt, settles.current.super, fun _ => clean rfl⟩
  have coherent' : Coherent geo { m with bitmapGroup := none } := by
    refine (forgetKeeps (fun resident => ?_) settles.coherent).1
    exact bitmapClean rfl (settles.group ▸ resident)
  split
  · exact ⟨forgot, settles.usedDirs⟩
  obtain ⟨current₁, used₁⟩ := readBitmapCurrent sound .block group coherent' forgot
  obtain ⟨keeps, empty, _⟩ := readBitmapCases sound .block group coherent' rfl
  rcases one : readBitmap geo .block group { m with bitmapGroup := none } with ⟨_ | _, n⟩
  · rw [bindFails one]
    rw [one] at current₁ used₁
    exact ⟨current₁, used₁.trans settles.usedDirs⟩
  rw [bindOf one]
  rw [one] at current₁ used₁ keeps
  obtain ⟨current₂, used₂⟩ := readBitmapCurrent sound .inode group (keeps coherent').1 current₁
  have used := used₂.trans (used₁.trans settles.usedDirs)
  rcases two : readBitmap geo .inode group n with ⟨_ | _, p⟩
  · rw [bindFails two]
    rw [two] at current₂ used
    exact ⟨current₂, used⟩
  rw [bindOf two]
  rw [two] at current₂ used
  exact ⟨⟨current₂.gdt, current₂.super, nofun⟩, used⟩

end tables

end Scepter.Ext2
