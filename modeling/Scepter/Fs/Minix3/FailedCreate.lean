import Scepter.Fs.Minix3.Dirs

/-! Open with O_CREAT and mkdir of minix3 where every step may fail: each transfer of the
disk is refused or not as `goes` says of the step, zones and inodes may run out, and a
directory may be full. A zone on the disk is seen as the entries it holds. The second
result of a call says that a failed step has been passed over; the code has it not. -/
namespace Scepter.Minix3.FailedCreate
open Scepter.Path (Str)
open Names

inductive Step where
  | kalloc
  -- the inode at a depth of the path, and a block of the directory there
  | pathInode (depth : Nat)
  | pathBlock (depth block : Nat)
  | allocInode
  | readNew
  | dotBlock
  | writeNew
  | slotRead (block : Nat)
  | slotWrite
  | growWrite
  | writeParent
  | sync

structure State where
  inodes : Nat → Inode
  used : Nat → Bool
  zmap : Nat → Bool
  zone : Nat → List Dirent

def State.setInode (s : State) (ino : Nat) (inode : Inode) : State :=
  {s with inodes := Function.update s.inodes ino inode}

def State.setUsed (s : State) (ino : Nat) (used : Bool) : State :=
  {s with used := Function.update s.used ino used}

def State.setZone (s : State) (zone : Nat) (entries : List Dirent) : State :=
  {s with zone := Function.update s.zone zone entries}

variable (geo : Geometry) (goes : Step → Bool)

def nextZone (s : State) : Option Nat := (List.range geo.sZones).find? fun z => !s.zmap z

def nextInode (s : State) : Option Nat :=
  (List.range' 1 geo.sNinodes).find? fun ino => !s.used ino

def allocZone (s : State) : Option (Nat × State) :=
  (nextZone geo s).map fun z =>
    (z + geo.dataZoneStart, {s with zmap := Function.update s.zmap z true})

def freeZone (s : State) (zone : Nat) : State :=
  if zone < geo.dataZoneStart ∨ zone ≥ geo.sZones then s
  else {s with zmap := Function.update s.zmap (zone - geo.dataZoneStart) false}

def State.withInode (s : State) (ino : Nat) (mode : Mode) : State :=
  (s.setUsed ino true).setInode ino ⟨mode, 1, []⟩

def allocInode (s : State) (mode : Mode) : Option (Nat × State) :=
  (nextInode geo s).bind fun ino =>
    if goes .allocInode then some (ino, s.withInode ino mode) else none

def freeInode (s : State) (ino : Nat) : State :=
  if ino = 0 ∨ ino > geo.sNinodes then s else s.setUsed ino false

def readInode (step : Step) (s : State) (ino : Nat) : Option Inode :=
  if ino = 0 ∨ ino > geo.sNinodes ∨ !goes step then none else some (s.inodes ino)

/-! ## Entries -/

inductive Look where
  | found (ino : Nat)
  | absent
  | refused

def scan (s : State) (depth : Nat) (name : Str) : Nat → List Nat → Look
  | _, [] => .absent
  | block, zone :: rest =>
    if !goes (.pathBlock depth block) then .refused
    else match (s.zone zone).find? (hasName name) with
      | some e => .found e.inode
      | none => scan s depth name (block + 1) rest

def lookup (s : State) (depth : Nat) (dir : Inode) (name : Str) : Look :=
  if dir.mode ≠ .dir then .absent else scan goes s depth name 0 dir.zones

inductive Slot where
  | refused
  | taken (zone : Nat) (entries : List Dirent)
  | full

def findSlot (s : State) (e : Dirent) : Nat → List Nat → Slot
  | _, [] => .full
  | block, zone :: rest =>
    if !goes (.slotRead block) then .refused
    else match replaceFirst free e (s.zone zone) with
      | some entries => if goes .slotWrite then .taken zone entries else .refused
      | none => findSlot s e (block + 1) rest

def addDirent (s : State) (dir : Inode) (name : Str) (target : Nat) : Option Inode × State :=
  if dir.mode ≠ .dir ∨ name.length ≥ NAME_LEN then (none, s)
  else match findSlot goes s ⟨target, name⟩ 0 dir.zones with
    | .refused => (none, s)
    | .taken zone entries => (some dir, s.setZone zone entries)
    | .full =>
      if dir.zones.length < DIRECT_ZONES then
        match allocZone geo s with
        | none => (none, s)
        | some (zone, s) =>
          if !goes .growWrite then (none, freeZone geo s zone)
          else
            let block := ⟨target, name⟩ :: List.replicate (geo.perBlock - 1) unusedEntry
            (some {dir with zones := dir.zones ++ [zone]}, s.setZone zone block)
      else (none, s)

/-! ## Calls -/

def walk (s : State) : Nat → List Str → Nat → Inode → Option (Nat × Inode)
  | _, [], ino, inode => some (ino, inode)
  | depth, name :: rest, _, inode => match lookup goes s depth inode name with
    | .found next => match readInode geo goes (.pathInode (depth + 1)) s next with
      | none => none
      | some inode => if inode.mode ≠ .dir then none else walk s (depth + 1) rest next inode
    | .absent | .refused => none

def lookupParent (s : State) (parent : List Str) : Option (Nat × Inode) :=
  (readInode geo goes (.pathInode 0) s ROOT_INO).bind (walk geo goes s 0 parent ROOT_INO)

def openCreate (s : State) (parent : Nat) (dir : Inode) (name : Str) : Bool × Bool × State :=
  match allocInode geo goes s .reg with
  | none => (false, false, s)
  | some (ino, s) => match addDirent geo goes s dir name ino with
    | (none, s) => (false, false, freeInode geo s ino)
    | (some dir, s) =>
      let s := if goes .writeParent then s.setInode parent dir else s
      if !goes .readNew then (false, true, s)
      else (true, !goes .writeParent || !goes .sync, s)

def openFile (s : State) (path : FsPath) : Bool × Bool × State :=
  if !goes .kalloc then (false, false, s)
  else match lookupParent geo goes s path.parent with
    | none => (false, false, s)
    | some (parent, dir) =>
      if path.names = [] then (true, false, s)
      else match lookup goes s path.parent.length dir path.name with
        | .found ino =>
          ((readInode geo goes (.pathInode path.names.length) s ino).isSome, false, s)
        | .absent => openCreate geo goes s parent dir path.name
        | .refused =>
          let made := openCreate geo goes s parent dir path.name
          (made.1, true, made.2.2)

def dotEntries (ino parent : Nat) : List Dirent :=
  ⟨ino, DOT⟩ :: ⟨parent, DOTDOT⟩ :: List.replicate (geo.perBlock - 2) unusedEntry

def makeDir (s : State) (parent : Nat) (dir : Inode) (name : Str) : Bool × Bool × State :=
  match allocInode geo goes s .dir with
  | none => (false, false, s)
  | some (ino, s) =>
    if !goes .readNew then (false, false, freeInode geo s ino)
    else match allocZone geo s with
      | none => (false, false, freeInode geo s ino)
      | some (zone, s) =>
        if !goes .dotBlock then (false, false, freeInode geo (freeZone geo s zone) ino)
        else
          let s := s.setZone zone (dotEntries geo ino parent)
          if !goes .writeNew then (false, false, freeInode geo (freeZone geo s zone) ino)
          else match addDirent geo goes (s.setInode ino ⟨.dir, 2, [zone]⟩) dir name ino with
            | (none, s) => (false, false, freeInode geo (freeZone geo s zone) ino)
            | (some dir, s) =>
              if !goes .writeParent then (false, false, s)
              else (true, !goes .sync, s.setInode parent dir.more)

def mkdir (s : State) (path : FsPath) : Bool × Bool × State :=
  let name := path.name.take (NAME_LEN - 1)
  if name = [] ∨ name = DOT ∨ name = DOTDOT then (false, false, s)
  else match lookupParent geo goes s path.parent with
    | none => (false, false, s)
    | some (parent, dir) =>
      if dir.mode ≠ .dir then (false, false, s)
      else match lookup goes s path.parent.length dir name with
        | .found _ => (false, false, s)
        | .absent => makeDir geo goes s parent dir name
        | .refused =>
          let made := makeDir geo goes s parent dir name
          (made.1, true, made.2.2)

/-! ## What should hold -/

structure Restored (s s' : State) : Prop where
  used : s'.used = s.used
  zmap : s'.zmap = s.zmap
  inodes : ∀ ino, s.used ino = true → s'.inodes ino = s.inodes ino
  zones : ∀ z, s.zmap z = true → s'.zone (z + geo.dataZoneStart) = s.zone (z + geo.dataZoneStart)

def Proper (s : State) (result : Bool × Bool × State) : Prop :=
  (result.2.1 = true → result.1 = false) ∧ (result.1 = false → Restored geo s result.2.2)

def Enters (s : State) (dir : Inode) (name : Str) (target : Nat) : Prop :=
  dir.mode = .dir ∧ name.length < NAME_LEN ∧
    ((∃ zone entries, findSlot goes s ⟨target, name⟩ 0 dir.zones = .taken zone entries) ∨
      findSlot goes s ⟨target, name⟩ 0 dir.zones = .full ∧ dir.zones.length < DIRECT_ZONES ∧
        nextZone geo s ≠ none ∧ goes .growWrite = true)

/-- The block that the directory grows by is refused, and its zone has a number that
minix3_free_zone does not take. -/
def GrowthLost (s : State) (dir : Inode) (name : Str) (target : Nat) : Prop :=
  dir.mode = .dir ∧ name.length < NAME_LEN ∧
    findSlot goes s ⟨target, name⟩ 0 dir.zones = .full ∧ dir.zones.length < DIRECT_ZONES ∧
      goes .growWrite = false ∧ ∃ z, nextZone geo s = some z ∧ geo.sZones ≤ z + geo.dataZoneStart

/-- Nothing fails once the entry is there, and no zone is lost before. `passed` says that
the look for the name was refused. -/
def CreateUndone (s : State) (dir : Inode) (name : Str) (passed : Bool) : Prop :=
  ∀ ino, nextInode geo s = some ino → goes .allocInode = true →
    (Enters geo goes (s.withInode ino .reg) dir name ino →
      passed = false ∧ goes .readNew = true ∧ goes .writeParent = true ∧ goes .sync = true) ∧
    ¬GrowthLost geo goes (s.withInode ino .reg) dir name ino

def dotted (s : State) (parent ino z : Nat) : State :=
  ({s.withInode ino .dir with zmap := Function.update s.zmap z true}.setZone
    (z + geo.dataZoneStart) (dotEntries geo ino parent)).setInode ino
      ⟨.dir, 2, [z + geo.dataZoneStart]⟩

def MkdirUndone (s : State) (parent : Nat) (dir : Inode) (name : Str) (passed : Bool) : Prop :=
  ∀ ino z, nextInode geo s = some ino → nextZone geo s = some z → goes .allocInode = true →
    goes .readNew = true →
    let written := goes .dotBlock = true ∧ goes .writeNew = true
    let there := dotted geo s parent ino z
    (written → Enters geo goes there dir name ino →
      passed = false ∧ goes .writeParent = true ∧ goes .sync = true) ∧
    (¬(written ∧ Enters geo goes there dir name ino) → z + geo.dataZoneStart < geo.sZones) ∧
    ¬(written ∧ GrowthLost geo goes there dir name ino)

def Look.missed : Look → Option Bool
  | .found _ => none
  | .absent => some false
  | .refused => some true

def OpenUndone (s : State) (path : FsPath) : Prop :=
  goes .kalloc = true → path.names ≠ [] →
    ∀ parent dir passed, lookupParent geo goes s path.parent = some (parent, dir) →
      (lookup goes s path.parent.length dir path.name).missed = some passed →
      CreateUndone geo goes s dir path.name passed

def DirUndone (s : State) (path : FsPath) : Prop :=
  let name := path.name.take (NAME_LEN - 1)
  name ≠ [] → name ≠ DOT → name ≠ DOTDOT →
    ∀ parent dir passed, lookupParent geo goes s path.parent = some (parent, dir) →
      dir.mode = .dir →
      (lookup goes s path.parent.length dir name).missed = some passed →
      MkdirUndone geo goes s parent dir name passed

section undo
variable {geo : Geometry} {goes : Step → Bool} {s t : State} {ino z : Nat}

theorem nextZoneFree (found : nextZone geo s = some z) : s.zmap z = false ∧ z < geo.sZones :=
  ⟨by simpa using List.find?_some found, List.mem_range.mp (List.mem_of_find?_eq_some found)⟩

theorem nextInodeFree (found : nextInode geo s = some ino) :
    s.used ino = false ∧ 0 < ino ∧ ino ≤ geo.sNinodes := by
  have inside := List.mem_range'_1.mp (List.mem_of_find?_eq_some found)
  exact ⟨by simpa using List.find?_some found, by omega, by omega⟩

theorem restoredRefl : Restored geo s s := ⟨rfl, rfl, fun _ _ => rfl, fun _ _ => rfl⟩

theorem unchangedProper : Proper geo s (false, false, s) := ⟨nofun, fun _ => restoredRefl⟩

theorem freedRestores (found : nextInode geo s = some ino)
    (used : t.used = Function.update s.used ino true)
    (inodes : ∀ i, s.used i = true → t.inodes i = s.inodes i)
    (zones : ∀ z, s.zmap z = true →
      t.zone (z + geo.dataZoneStart) = s.zone (z + geo.dataZoneStart)) :
    Restored geo s (freeInode geo t ino) ↔ t.zmap = s.zmap := by
  obtain ⟨unused, positive, most⟩ := nextInodeFree found
  have freed : freeInode geo t ino = t.setUsed ino false := by
    unfold freeInode
    rw [if_neg (by omega)]
  rw [freed]
  refine ⟨fun restored => restored.zmap, fun zmap => ⟨?_, zmap, inodes, zones⟩⟩
  change Function.update t.used ino false = s.used
  rw [used, Function.update_idem, ← unused, Function.update_eq_self]

theorem freedProper {result : Bool} (found : nextInode geo s = some ino)
    (used : t.used = Function.update s.used ino true)
    (inodes : ∀ i, s.used i = true → t.inodes i = s.inodes i)
    (zones : ∀ z, s.zmap z = true →
      t.zone (z + geo.dataZoneStart) = s.zone (z + geo.dataZoneStart)) :
    Proper geo s (false, result, freeInode geo t ino) ↔ t.zmap = s.zmap := by
  rw [← freedRestores found used inodes zones]
  exact ⟨fun proper => proper.2 rfl, fun restored => ⟨fun _ => rfl, fun _ => restored⟩⟩

theorem freeZoneAt (t : State) (z : Nat) : freeZone geo t (z + geo.dataZoneStart) =
    if geo.sZones ≤ z + geo.dataZoneStart then t
    else {t with zmap := Function.update t.zmap z false} := by
  unfold freeZone
  rw [Nat.add_sub_cancel]
  by_cases outside : geo.sZones ≤ z + geo.dataZoneStart
  · rw [if_pos (.inr outside), if_pos outside]
  · rw [if_neg (by omega), if_neg outside]

theorem zoneBack {zmap : Nat → Bool} (unused : zmap z = false)
    (taken : t.zmap = Function.update zmap z true) :
    (freeZone geo t (z + geo.dataZoneStart)).zmap = zmap ↔
      z + geo.dataZoneStart < geo.sZones := by
  rw [freeZoneAt]
  by_cases outside : geo.sZones ≤ z + geo.dataZoneStart
  · rw [if_pos outside, taken]
    refine iff_of_false (fun same => ?_) (Nat.not_lt.mpr outside)
    have own := congrFun same z
    rw [Function.update_self, unused] at own
    cases own
  · rw [if_neg outside]
    refine iff_of_true ?_ (Nat.not_le.mp outside)
    change Function.update t.zmap z false = zmap
    rw [taken, Function.update_idem, ← unused, Function.update_eq_self]

theorem withInodeKept (mode : Mode) (found : nextInode geo s = some ino) :
    ∀ i, s.used i = true → (s.withInode ino mode).inodes i = s.inodes i := by
  intro i used
  refine Function.update_of_ne (fun same => ?_) ..
  rw [same, (nextInodeFree found).1] at used
  cases used

end undo

section entry
variable {geo : Geometry} {goes : Step → Bool} {s : State} {dir : Inode} {name : Str}
  {target : Nat}

theorem addDirentEnters (enters : Enters geo goes s dir name target) :
    ∃ dir' t, addDirent geo goes s dir name target = (some dir', t) ∧ t.used = s.used := by
  obtain ⟨isDir, short, place⟩ := enters
  unfold addDirent
  rw [if_neg (not_or.mpr ⟨not_not.mpr isDir, Nat.not_le.mpr short⟩)]
  rcases place with ⟨zone, entries, taken⟩ | ⟨full, room, zone, grows⟩
  · rw [taken]
    exact ⟨dir, _, rfl, rfl⟩
  · obtain ⟨z, next⟩ := Option.ne_none_iff_exists'.mp zone
    rw [full]
    dsimp only
    rw [if_pos room]
    unfold allocZone
    rw [next, Option.map_some]
    dsimp only
    rw [grows]
    exact ⟨_, _, rfl, rfl⟩

theorem addDirentFails (refused : ¬Enters geo goes s dir name target) :
    ∃ zmap, addDirent geo goes s dir name target = (none, {s with zmap := zmap}) ∧
      (¬GrowthLost geo goes s dir name target → zmap = s.zmap) ∧
      (GrowthLost geo goes s dir name target →
        ∃ z, s.zmap z = false ∧ zmap = Function.update s.zmap z true) := by
  unfold addDirent
  by_cases bad : dir.mode ≠ .dir ∨ name.length ≥ NAME_LEN
  · rw [if_pos bad]
    refine ⟨s.zmap, rfl, fun _ => rfl, fun lost => ?_⟩
    rcases bad with other | long
    · exact absurd lost.1 other
    · exact absurd lost.2.1 (Nat.not_lt.mpr long)
  · rw [if_neg bad]
    obtain ⟨isDir, short⟩ := not_or.mp bad
    have isDir := not_not.mp isDir
    have short := Nat.not_le.mp short
    cases slot : findSlot goes s ⟨target, name⟩ 0 dir.zones with
    | taken zone entries => exact absurd ⟨isDir, short, .inl ⟨zone, entries, slot⟩⟩ refused
    | refused =>
      refine ⟨s.zmap, rfl, fun _ => rfl, fun lost => ?_⟩
      cases slot.symm.trans lost.2.2.1
    | full =>
      dsimp only
      by_cases room : dir.zones.length < DIRECT_ZONES
      · rw [if_pos room]
        unfold allocZone
        cases next : nextZone geo s with
        | none =>
          refine ⟨s.zmap, rfl, fun _ => rfl, fun lost => ?_⟩
          obtain ⟨z, found, _⟩ := lost.2.2.2.2.2
          cases next.symm.trans found
        | some z =>
          cases grows : goes .growWrite with
          | true =>
            have some' : nextZone geo s ≠ none := Option.ne_none_iff_exists'.mpr ⟨z, next⟩
            exact absurd ⟨isDir, short, .inr ⟨slot, room, some', grows⟩⟩ refused
          | false =>
            have unused := (nextZoneFree next).1
            have back := @zoneBack geo {s with zmap := Function.update s.zmap z true} z s.zmap
              unused rfl
            rw [Option.map_some]
            dsimp only
            by_cases outside : geo.sZones ≤ z + geo.dataZoneStart
            · rw [freeZoneAt, if_pos outside]
              refine ⟨_, rfl, fun kept => absurd ?_ kept, fun _ => ⟨z, unused, rfl⟩⟩
              exact ⟨isDir, short, slot, room, grows, z, next, outside⟩
            · have same := back.mpr (Nat.not_le.mp outside)
              rw [freeZoneAt, if_neg outside] at same ⊢
              refine ⟨_, rfl, fun _ => same, fun lost => ?_⟩
              obtain ⟨z', found, beyond⟩ := lost.2.2.2.2.2
              cases next.symm.trans found
              exact absurd beyond outside
      · rw [if_neg room]
        exact ⟨s.zmap, rfl, fun _ => rfl, fun lost => absurd lost.2.2.2.1 room⟩

theorem enteredNotLost (enters : Enters geo goes s dir name target) :
    ¬GrowthLost geo goes s dir name target := by
  intro lost
  rcases enters.2.2 with ⟨zone, entries, taken⟩ | ⟨_, _, _, grows⟩
  · cases taken.symm.trans lost.2.2.1
  · cases grows.symm.trans lost.2.2.2.2.1

end entry

section calls
variable {geo : Geometry} {goes : Step → Bool} {s : State} {parent : Nat} {dir : Inode}
  {name : Str}

theorem openCreateProper (passed : Bool) :
    Proper geo s ((openCreate geo goes s parent dir name).1,
        passed || (openCreate geo goes s parent dir name).2.1,
        (openCreate geo goes s parent dir name).2.2) ↔
      CreateUndone geo goes s dir name passed := by
  unfold openCreate allocInode CreateUndone
  cases found : nextInode geo s with
  | none => exact iff_of_true ⟨fun _ => rfl, fun _ => restoredRefl⟩ nofun
  | some ino =>
    rw [Option.bind_some]
    cases allocated : goes .allocInode with
    | false =>
      exact iff_of_true ⟨fun _ => rfl, fun _ => restoredRefl⟩ fun _ _ absurd' => nomatch absurd'
    | true =>
      rw [if_pos rfl]
      dsimp only
      have unused := (nextInodeFree found).1
      have own : (s.withInode ino .reg).used = Function.update s.used ino true := rfl
      by_cases enters : Enters geo goes (s.withInode ino .reg) dir name ino
      · obtain ⟨dir', t, added, used⟩ := addDirentEnters enters
        rw [added]
        dsimp only
        have lost := enteredNotLost enters
        cases read : goes .readNew with
        | false =>
          refine iff_of_false (fun proper => ?_) fun undone => ?_
          · have restored := proper.2 rfl
            have taken :
                (if goes .writeParent then t.setInode parent dir' else t).used = t.used := by
              split <;> rfl
            have same := congrFun (restored.used.symm.trans (taken.trans (used.trans own))) ino
            rw [Function.update_self, unused] at same
            cases same
          · cases ((undone ino rfl rfl).1 enters).2.1
        | true =>
          constructor
          · intro proper ino' same _
            cases same
            refine ⟨fun _ => ?_, lost⟩
            have went : (passed || (!goes .writeParent || !goes .sync)) = false :=
              Bool.eq_false_iff.mpr fun flag => nomatch proper.1 flag
            rw [Bool.or_eq_false_iff, Bool.or_eq_false_iff, Bool.not_eq_false', Bool.not_eq_false']
              at went
            exact ⟨went.1, rfl, went.2.1, went.2.2⟩
          · intro undone
            obtain ⟨passed', _, parent', sync⟩ := (undone ino rfl rfl).1 enters
            rw [passed', parent', sync]
            exact ⟨nofun, nofun⟩
      · obtain ⟨zmap, refused, kept, lost⟩ := addDirentFails enters
        rw [refused]
        dsimp only
        rw [freedProper (t := {s.withInode ino .reg with zmap := zmap}) found own
          (withInodeKept .reg found) fun _ _ => rfl]
        constructor
        · intro same ino' again _
          cases again
          refine ⟨fun absurd' => absurd absurd' enters, fun grown => ?_⟩
          obtain ⟨z, free', taken⟩ := lost grown
          have here := congrFun (taken.symm.trans same) z
          rw [Function.update_self] at here
          cases here.trans free'
        · intro undone
          exact kept (undone ino rfl rfl).2

theorem dottedAdded {ino z : Nat} {passed : Bool} (found : nextInode geo s = some ino)
    (next : nextZone geo s = some z) :
    let there := dotted geo s parent ino z
    let zone := z + geo.dataZoneStart
    let made : Bool × Bool × State := match addDirent geo goes there dir name ino with
      | (none, s) => (false, false, freeInode geo (freeZone geo s zone) ino)
      | (some dir, s) =>
        if !goes .writeParent then (false, false, s)
        else (true, !goes .sync, s.setInode parent dir.more)
    Proper geo s (made.1, passed || made.2.1, made.2.2) ↔
      (Enters geo goes there dir name ino →
        passed = false ∧ goes .writeParent = true ∧ goes .sync = true) ∧
      (¬Enters geo goes there dir name ino → zone < geo.sZones) ∧
      ¬GrowthLost geo goes there dir name ino := by
  intro there zone made
  have unused := (nextInodeFree found).1
  have unmarked := (nextZoneFree next).1
  by_cases enters : Enters geo goes there dir name ino
  · obtain ⟨dir', t, added, used⟩ := addDirentEnters enters
    have lost := enteredNotLost enters
    have own : t.used ino = true := by
      rw [used]
      exact Function.update_self ..
    have is : made = if !goes .writeParent then (false, false, t)
        else (true, !goes .sync, t.setInode parent dir'.more) := by
      change (match addDirent geo goes there dir name ino with
        | (none, s) => (false, false, freeInode geo (freeZone geo s zone) ino)
        | (some dir, s) =>
          if !goes .writeParent then (false, false, s)
          else (true, !goes .sync, s.setInode parent dir.more)) = _
      rw [added]
    rw [is]
    cases wrote : goes .writeParent with
    | false =>
      refine iff_of_false (fun proper => ?_) fun undone => ?_
      · have same := congrFun (proper.2 rfl).used ino
        cases (own.symm.trans same).trans unused
      · cases (undone.1 enters).2.1
    | true =>
      constructor
      · intro proper
        refine ⟨fun _ => ?_, fun absurd' => absurd enters absurd', lost⟩
        have went : (passed || !goes .sync) = false :=
          Bool.eq_false_iff.mpr fun flag => nomatch proper.1 flag
        rw [Bool.or_eq_false_iff, Bool.not_eq_false'] at went
        exact ⟨went.1, rfl, went.2⟩
      · intro undone
        obtain ⟨passed', _, sync⟩ := undone.1 enters
        rw [passed', sync]
        exact ⟨nofun, nofun⟩
  · obtain ⟨zmap, refused, kept, lost⟩ := addDirentFails enters
    have is : made = (false, false,
        freeInode geo (freeZone geo {there with zmap := zmap} zone) ino) := by
      change (match addDirent geo goes there dir name ino with
        | (none, s) => (false, false, freeInode geo (freeZone geo s zone) ino)
        | (some dir, s) =>
          if !goes .writeParent then (false, false, s)
          else (true, !goes .sync, s.setInode parent dir.more)) = _
      rw [refused]
    rw [is]
    dsimp only
    have marked : there.zmap = Function.update s.zmap z true := rfl
    rw [freedProper (t := freeZone geo {there with zmap := zmap} zone) found ?_ ?_ ?_]
    · constructor
      · intro same
        refine ⟨fun absurd' => absurd absurd' enters, fun _ => ?_, fun grown => ?_⟩
        · by_contra outside
          have stuck := congrFun same z
          rw [freeZoneAt, if_pos (Nat.not_lt.mp outside), unmarked] at stuck
          have was : there.zmap z = true := by
            rw [marked]
            exact Function.update_self ..
          by_cases grown : GrowthLost geo goes there dir name ino
          · obtain ⟨z', free', taken⟩ := lost grown
            have differ : z ≠ z' := fun same => by
              rw [← same, was] at free'
              cases free'
            change zmap z = false at stuck
            rw [taken, Function.update_of_ne differ, was] at stuck
            cases stuck
          · change zmap z = false at stuck
            rw [kept grown, was] at stuck
            cases stuck
        · obtain ⟨z', free', taken⟩ := lost grown
          have differ : z' ≠ z := fun same => by
            rw [same, marked, Function.update_self] at free'
            cases free'
          have was : s.zmap z' = false := by
            rw [marked, Function.update_of_ne differ] at free'
            exact free'
          have here := congrFun same z'
          rw [was, freeZoneAt] at here
          have still : zmap z' = true := by
            rw [taken]
            exact Function.update_self ..
          split at here
          · cases here.symm.trans still
          · change Function.update zmap z false z' = false at here
            rw [Function.update_of_ne differ, still] at here
            cases here
      · intro undone
        have same := kept undone.2.2
        exact (zoneBack unmarked (same.trans marked)).mpr (undone.2.1 enters)
    · rw [freeZoneAt]
      split <;> rfl
    · rw [freeZoneAt]
      intro i used
      have differ : i ≠ ino := fun same => by
        rw [same, unused] at used
        cases used
      have one : there.inodes i = s.inodes i := by
        change Function.update (Function.update s.inodes ino _) ino _ i = _
        rw [Function.update_of_ne differ, Function.update_of_ne differ]
      split <;> exact one
    · rw [freeZoneAt]
      intro z' used
      have differ : z' + geo.dataZoneStart ≠ z + geo.dataZoneStart := fun same => by
        rw [Nat.add_right_cancel same, unmarked] at used
        cases used
      have one : there.zone (z' + geo.dataZoneStart) = s.zone (z' + geo.dataZoneStart) :=
        Function.update_of_ne differ ..
      split <;> exact one

theorem zoneUndone {t : State} {ino z : Nat} {flag : Bool} (found : nextInode geo s = some ino)
    (next : nextZone geo s = some z) (used : t.used = Function.update s.used ino true)
    (zmap : t.zmap = Function.update s.zmap z true)
    (inodes : ∀ i, s.used i = true → t.inodes i = s.inodes i)
    (zones : ∀ z, s.zmap z = true →
      t.zone (z + geo.dataZoneStart) = s.zone (z + geo.dataZoneStart)) :
    Proper geo s (false, flag, freeInode geo (freeZone geo t (z + geo.dataZoneStart)) ino) ↔
      z + geo.dataZoneStart < geo.sZones := by
  rw [freedProper found ?_ ?_ ?_]
  · exact zoneBack (nextZoneFree next).1 zmap
  · rw [freeZoneAt]
    split <;> exact used
  · rw [freeZoneAt]
    split <;> exact inodes
  · rw [freeZoneAt]
    split <;> exact zones

theorem makeDirProper (passed : Bool) :
    Proper geo s ((makeDir geo goes s parent dir name).1,
        passed || (makeDir geo goes s parent dir name).2.1,
        (makeDir geo goes s parent dir name).2.2) ↔
      MkdirUndone geo goes s parent dir name passed := by
  unfold makeDir allocInode MkdirUndone
  cases found : nextInode geo s with
  | none => exact iff_of_true ⟨fun _ => rfl, fun _ => restoredRefl⟩ nofun
  | some ino =>
    rw [Option.bind_some]
    cases allocated : goes .allocInode with
    | false =>
      exact iff_of_true ⟨fun _ => rfl, fun _ => restoredRefl⟩ fun _ _ _ _ absurd' => nomatch absurd'
    | true =>
      rw [if_pos rfl]
      dsimp only
      cases read : goes .readNew with
      | false =>
        refine iff_of_true ?_ fun _ _ _ _ _ absurd' => nomatch absurd'
        exact (freedProper (t := s.withInode ino .dir) found rfl (withInodeKept .dir found)
          fun _ _ => rfl).mpr rfl
      | true =>
        rw [if_neg (by decide)]
        unfold allocZone
        cases next : nextZone geo (s.withInode ino .dir) with
        | none =>
          have none' : nextZone geo s = none := next
          refine iff_of_true ?_ fun _ _ _ zone => nomatch none'.symm.trans zone
          exact (freedProper (t := s.withInode ino .dir) found rfl (withInodeKept .dir found)
            fun _ _ => rfl).mpr rfl
        | some z =>
          have next : nextZone geo s = some z := next
          have unmarked := (nextZoneFree next).1
          rw [Option.map_some]
          dsimp only
          have kept (entries : List Dirent) (z' : Nat) (used : s.zmap z' = true) :
              Function.update s.zone (z + geo.dataZoneStart) entries (z' + geo.dataZoneStart) =
                s.zone (z' + geo.dataZoneStart) := by
            refine Function.update_of_ne (fun same => ?_) ..
            rw [Nat.add_right_cancel same, unmarked] at used
            cases used
          -- either write before the entry is undone alike
          have before (written : ¬(goes .dotBlock = true ∧ goes .writeNew = true)) :
              (∀ ino' z', some ino = some ino' → some z = some z' → true = true → true = true →
                (goes .dotBlock = true ∧ goes .writeNew = true →
                  Enters geo goes (dotted geo s parent ino' z') dir name ino' →
                  passed = false ∧ goes .writeParent = true ∧ goes .sync = true) ∧
                (¬((goes .dotBlock = true ∧ goes .writeNew = true) ∧
                  Enters geo goes (dotted geo s parent ino' z') dir name ino') →
                    z' + geo.dataZoneStart < geo.sZones) ∧
                ¬((goes .dotBlock = true ∧ goes .writeNew = true) ∧
                  GrowthLost geo goes (dotted geo s parent ino' z') dir name ino')) ↔
              z + geo.dataZoneStart < geo.sZones := by
            constructor
            · intro all
              exact (all ino z rfl rfl rfl rfl).2.1 fun both => written both.1
            · intro inside ino' z' same same' _ _
              cases same
              cases same'
              exact ⟨fun both => absurd both written, fun _ => inside, fun both => written both.1⟩
          rw [next]
          cases dot : goes .dotBlock with
          | false =>
            rw [dot] at before
            refine Iff.trans ?_ (before nofun).symm
            exact @zoneUndone geo s _ ino z (passed || false) found next rfl rfl
              (withInodeKept .dir found) fun _ _ => rfl
          | true =>
            rw [if_neg (by decide)]
            cases new : goes .writeNew with
            | false =>
              rw [dot, new] at before
              refine Iff.trans ?_ (before nofun).symm
              exact @zoneUndone geo s _ ino z (passed || false) found next rfl rfl
                (withInodeKept .dir found) (kept _)
            | true =>
              rw [if_neg (by decide)]
              refine (dottedAdded found next).trans ?_
              constructor
              · intro all ino' z' same same' _ _
                cases same
                cases same'
                exact ⟨fun _ => all.1, fun not => all.2.1 fun enters => not ⟨⟨rfl, rfl⟩, enters⟩,
                  fun both => all.2.2 both.2⟩
              · intro all
                obtain ⟨one, two, three⟩ := all ino z rfl rfl rfl rfl
                exact ⟨one ⟨rfl, rfl⟩, fun not => two fun both => not both.2,
                  fun lost => three ⟨⟨rfl, rfl⟩, lost⟩⟩

theorem openProper (path : FsPath) :
    Proper geo s (openFile geo goes s path) ↔ OpenUndone geo goes s path := by
  unfold openFile OpenUndone
  have proper : Proper geo s (false, false, s) := unchangedProper
  cases room : goes .kalloc with
  | false => exact iff_of_true proper nofun
  | true =>
    rw [if_neg (by decide)]
    cases above : lookupParent geo goes s path.parent with
    | none => exact iff_of_true proper fun _ _ _ _ _ absurd' => nomatch absurd'
    | some found =>
      obtain ⟨parent, dir⟩ := found
      dsimp only
      by_cases root : path.names = []
      · rw [if_pos root]
        exact iff_of_true ⟨nofun, nofun⟩ fun _ below => absurd root below
      · rw [if_neg root]
        have only (passed : Bool)
            (look : (lookup goes s path.parent.length dir path.name).missed = some passed) :
            (true = true → path.names ≠ [] → ∀ parent' dir' passed',
              some (parent, dir) = some (parent', dir') →
              (lookup goes s path.parent.length dir' path.name).missed = some passed' →
              CreateUndone geo goes s dir' path.name passed') ↔
            CreateUndone geo goes s dir path.name passed := by
          refine ⟨fun all => all rfl root parent dir passed rfl look,
            fun undone _ _ parent' dir' passed' same look' => ?_⟩
          cases same
          cases look.symm.trans look'
          exact undone
        cases look : lookup goes s path.parent.length dir path.name with
        | found ino =>
          refine iff_of_true ⟨nofun, fun _ => restoredRefl⟩ fun _ _ _ _ _ same look' => ?_
          cases same
          rw [look] at look'
          cases look'
        | absent => exact (openCreateProper false).trans (only false (by rw [look]; rfl)).symm
        | refused => exact (openCreateProper true).trans (only true (by rw [look]; rfl)).symm

theorem mkdirProper (path : FsPath) :
    Proper geo s (mkdir geo goes s path) ↔ DirUndone geo goes s path := by
  unfold mkdir DirUndone
  have proper : Proper geo s (false, false, s) := unchangedProper
  dsimp only
  by_cases bad : path.name.take (NAME_LEN - 1) = [] ∨ path.name.take (NAME_LEN - 1) = DOT ∨
      path.name.take (NAME_LEN - 1) = DOTDOT
  · rw [if_pos bad]
    refine iff_of_true proper fun one two three => ?_
    rcases bad with is | is | is
    · exact absurd is one
    · exact absurd is two
    · exact absurd is three
  · rw [if_neg bad]
    obtain ⟨one, others⟩ := not_or.mp bad
    obtain ⟨two, three⟩ := not_or.mp others
    cases above : lookupParent geo goes s path.parent with
    | none => exact iff_of_true proper fun _ _ _ _ _ _ absurd' => nomatch absurd'
    | some found =>
      obtain ⟨parent, dir⟩ := found
      dsimp only
      by_cases isDir : dir.mode = .dir
      · rw [if_neg (not_not.mpr isDir)]
        have only (passed : Bool) (look : (lookup goes s path.parent.length dir
              (path.name.take (NAME_LEN - 1))).missed = some passed) :
            (path.name.take (NAME_LEN - 1) ≠ [] → path.name.take (NAME_LEN - 1) ≠ DOT →
              path.name.take (NAME_LEN - 1) ≠ DOTDOT → ∀ parent' dir' passed',
              some (parent, dir) = some (parent', dir') → dir'.mode = .dir →
              (lookup goes s path.parent.length dir'
                (path.name.take (NAME_LEN - 1))).missed = some passed' →
              MkdirUndone geo goes s parent' dir' (path.name.take (NAME_LEN - 1)) passed') ↔
            MkdirUndone geo goes s parent dir (path.name.take (NAME_LEN - 1)) passed := by
          refine ⟨fun all => all one two three parent dir passed rfl isDir look,
            fun undone _ _ _ parent' dir' passed' same _ look' => ?_⟩
          cases same
          cases look.symm.trans look'
          exact undone
        cases look : lookup goes s path.parent.length dir (path.name.take (NAME_LEN - 1)) with
        | found ino =>
          refine iff_of_true proper fun _ _ _ _ _ _ same _ look' => ?_
          cases same
          rw [look] at look'
          cases look'
        | absent => exact (makeDirProper false).trans (only false (by rw [look]; rfl)).symm
        | refused => exact (makeDirProper true).trans (only true (by rw [look]; rfl)).symm
      · rw [if_pos isDir]
        refine iff_of_true proper fun _ _ _ parent' dir' _ same isDir' => ?_
        cases same
        exact absurd isDir' isDir

end calls

def rootOnly : State where
  inodes := fun _ => ⟨.dir, 2, [2]⟩
  used := fun ino => ino ≤ 1
  zmap := fun z => z ≤ 1
  zone := fun _ => ⟨1, DOT⟩ :: ⟨1, DOTDOT⟩ :: List.replicate 14 unusedEntry

end Scepter.Minix3.FailedCreate
