import Scepter.Fs.MountPoints
import Scepter.Fs.Minix3.PathWalk
import Scepter.Fs.Minix3.Tree
import Scepter.Lib.Walk
import Mathlib.Algebra.Group.Nat.Defs

/-! fs_link over the mount table (fs/vfs.c), with the link calls of minix3 and ext2: the two
paths are looked up one by one, and the call goes to the file system of the old one. The
transfers of the disk succeed. -/
namespace Scepter.LinkMounts
open Scepter.Path (Str Normal)
open Mounts (Driver Mount covers slots findIn relPath)
open Names (Dirent Mode DOT DOTDOT)
open Minix3 (NAME_LEN takeShort)
open Minix3.PathWalk (MAX_PATH_LEN unslash pathCopy lastSlash dirPart namePart lastSlashSome
  unslashLength copied dirShort unslashWalk partsWalk)

structure Inode where
  mode : Mode
  -- i_nlinks or i_links_count, of 16 bits
  links : Nat
  -- of a directory, in the order in which a lookup meets them
  entries : List Dirent

abbrev Volume := Nat → Option Inode

def rootIno : Driver → Nat
  | .ext2 => 2
  | _ => 1

def EXT2_NAME_LEN : Nat := 255

/-! ## Directories and paths -/

def hasName (driver : Driver) (name : Str) (e : Dirent) : Bool :=
  match driver with
  | .ext2 => e.inode ≠ 0 ∧ e.name = name
  | _ => e.inode ≠ 0 ∧ e.name = name.take NAME_LEN

def lookup (driver : Driver) (dir : Inode) (name : Str) : Option Nat :=
  if dir.mode ≠ .dir then none
  else if driver = .ext2 ∧ (name = [] ∨ name.length > EXT2_NAME_LEN) then none
  else (dir.entries.find? (hasName driver name)).map Dirent.inode

/-- `room` tells before which entry there is a place for the name, or is made, if there
is any. -/
def addDirent (driver : Driver) (dir : Inode) (name : Str) (ino : Nat) (room : Option Nat) :
    Option Inode :=
  if dir.mode ≠ .dir then none
  else if driver = .ext2 ∧ (name = [] ∨ name.length > EXT2_NAME_LEN) then none
  else if driver = .minix3 ∧ name.length ≥ NAME_LEN then none
  else room.map fun i =>
    {dir with entries := dir.entries.take i ++ ⟨ino, name⟩ :: dir.entries.drop i}

def enter (driver : Driver) (v : Volume) (place : Nat × Inode) (word : Str) :
    Option (Nat × Inode) :=
  (lookup driver place.2 word).bind fun ino => (v ino).map fun inode => (ino, inode)

def isDir (place : Nat × Inode) : Bool := place.2.mode = .dir

def walk (driver : Driver) (v : Volume) (path : Str) (root : Inode) : Option (Nat × Inode) :=
  Walk.walk (enter driver v) isDir [] path (rootIno driver, root)

def vfsOpen (driver : Driver) (v : Volume) (path : Str) : Option (Nat × Inode) :=
  let filename := unslash path
  (v (rootIno driver)).bind fun root =>
    if filename = [] ∨ filename = DOT then some (rootIno driver, root)
    else walk driver v (pathCopy filename) root

def parseParentAndName (driver : Driver) (path : Str) : Str × Str :=
  match driver with
  | .ext2 => match lastSlash path with
    | none => (['/'], path)
    | some (front, last) => (if front = [] then ['/'] else front, last)
  | _ => Minix3.PathWalk.parseParentAndName path

def lookupDirectoryByPath (driver : Driver) (v : Volume) (path : Str) : Option (Nat × Inode) :=
  (v (rootIno driver)).bind fun root =>
    if path = [] ∨ path = ['/'] ∨ driver = .ext2 ∧ path = DOT then some (rootIno driver, root)
    else (walk driver v (pathCopy (unslash path)) root).filter fun found =>
      driver = .ext2 ∨ isDir found

/-! ## The calls -/

def Inode.more (inode : Inode) : Inode := {inode with links := (inode.links + 1) % 2 ^ 16}

def writeInode (v : Volume) (ino : Nat) (inode : Inode) : Volume :=
  Function.update v ino (some inode)

def vfsLink (driver : Driver) (v : Volume) (old new : Str) (room : Option Nat) : Bool × Volume :=
  match vfsOpen driver v old with
  | none => (false, v)
  | some (ino, inode) =>
    if inode.mode = .dir then (false, v)
    else
      let (parent, name) := parseParentAndName driver new
      if name = [] ∨ name = DOT ∨ name = DOTDOT ∨ '/' ∈ name then (false, v)
      else match lookupDirectoryByPath driver v parent with
        | none => (false, v)
        | some (parentIno, dir) =>
          if (lookup driver dir name).isSome then (false, v)
          else match addDirent driver dir name ino room with
            | none => (false, v)
            | some dir => (true, writeInode (writeInode v ino inode.more) parentIno dir)

def hasLink : Driver → Bool
  | .minix3 | .ext2 => true
  | .devfs | .procfs | .tmpfs => false

structure State where
  mounts : Nat → Option Mount
  -- of a mount, by what its driver's mount call has made
  volumes : Nat → Volume

structure LinkCall where
  task : {task : Vfs.Task // Vfs.Sane task}
  old : Str
  new : Str
  room : Option Nat

def fsLink (s : State) (c : LinkCall) : Option (Bool × State) :=
  match Vfs.resolvePath c.task c.old with
  | .overrun => none
  | .refused => some (false, s)
  | .path absOld => match Vfs.resolvePath c.task c.new with
    | .overrun => none
    | .refused => some (false, s)
    | .path absNew => match findIn s.mounts absOld, findIn s.mounts absNew with
      | some mpOld, some mpNew =>
        if mpOld.driver ≠ mpNew.driver then some (false, s)
        else if !hasLink mpOld.driver then some (false, s)
        else
          let (ok, v) := vfsLink mpOld.driver (s.volumes mpOld.inst) (relPath mpOld absOld)
            (relPath mpNew absNew) c.room
          some (ok, {s with volumes := Function.update s.volumes mpOld.inst v})
      | _, _ => some (false, s)

def fsOpen (s : State) (task : {task : Vfs.Task // Vfs.Sane task}) (path : Str) : Option (Nat × Nat) :=
  match Vfs.resolvePath task path with
  | .path abs => (findIn s.mounts abs).bind fun mp =>
    (vfsOpen mp.driver (s.volumes mp.inst) (relPath mp abs)).map fun found => (mp.inst, found.1)
  | _ => none

/-! ## What should hold -/

structure Leads (s : State) (c : LinkCall) (absOld absNew : Str) (mpOld mpNew : Mount) :
    Prop where
  old : Vfs.resolvePath c.task c.old = .path absOld
  new : Vfs.resolvePath c.task c.new = .path absNew
  oldMount : findIn s.mounts absOld = some mpOld
  newMount : findIn s.mounts absNew = some mpNew

/-- After a success new opens as what old named, and no other file system has changed.
Between two mounts the call fails and changes nothing. -/
structure Linked (s : State) (c : LinkCall) (ok : Bool) (t : State) : Prop where
  names : ok = true → ∃ f, fsOpen s c.task c.old = some f ∧ fsOpen t c.task c.new = some f ∧
    t.mounts = s.mounts ∧ ∀ inst ≠ f.1, t.volumes inst = s.volumes inst
  apart : ∀ absOld absNew mpOld mpNew, Leads s c absOld absNew mpOld mpNew →
    mpOld.inst ≠ mpNew.inst → ok = false ∧ t = s

def LinkRight (s : State) (c : LinkCall) : Prop :=
  ∃ ok t, fsLink s c = some (ok, t) ∧ Linked s c ok t

structure Linkable (driver : Driver) (v : Volume) (old new : Str) (room : Option Nat)
    (file parent : Nat × Inode) : Prop where
  opens : vfsOpen driver v old = some file
  plain : isDir file = false
  named : ¬((parseParentAndName driver new).2 = [] ∨ (parseParentAndName driver new).2 = DOT ∨
    (parseParentAndName driver new).2 = DOTDOT ∨ '/' ∈ (parseParentAndName driver new).2)
  short : ¬(driver = .ext2 ∧ (parseParentAndName driver new).2.length > EXT2_NAME_LEN)
  above : lookupDirectoryByPath driver v (parseParentAndName driver new).1 = some parent
  dir : isDir parent = true
  fresh : lookup driver parent.2 (parseParentAndName driver new).2 = none
  place : room.isSome = true

structure Makes (s : State) (c : LinkCall) (absOld absNew : Str) (mpOld mpNew : Mount)
    (file parent : Nat × Inode) : Prop extends Leads s c absOld absNew mpOld mpNew where
  driver : mpOld.driver = mpNew.driver
  link : hasLink mpOld.driver = true
  linkable : Linkable mpOld.driver (s.volumes mpOld.inst) (relPath mpOld absOld)
    (relPath mpNew absNew) c.room file parent

def kept : Driver → Nat
  | .ext2 => EXT2_NAME_LEN
  | _ => NAME_LEN - 1

/-- No path is too long for resolve_path. What the driver could link lies on one mount, and
the last name is kept whole, unless new already opens as what old names. -/
structure OneMount (s : State) (c : LinkCall) : Prop where
  oldFits : Vfs.resolvePath c.task c.old ≠ .overrun
  newFits : Vfs.resolvePath c.task c.old ≠ .refused → Vfs.resolvePath c.task c.new ≠ .overrun
  same : ∀ absOld absNew mpOld mpNew file parent,
    Makes s c absOld absNew mpOld mpNew file parent →
    mpOld.inst = mpNew.inst ∧ ((namePart (relPath mpNew absNew)).length ≤ kept mpOld.driver ∨
      fsOpen s c.task c.new = fsOpen s c.task c.old)

section driver
variable {driver : Driver} {v : Volume} {old new path name word : Str} {r : Inode}
variable {file parent : Nat × Inode} {room : Option Nat}

/-! ## What link makes -/

def made (v : Volume) (name : Str) (file parent : Nat × Inode) (i : Nat) : Volume :=
  writeInode (writeInode v file.1 file.2.more) parent.1
    {parent.2 with
      entries := parent.2.entries.take i ++ ⟨file.1, name⟩ :: parent.2.entries.drop i}

theorem nameCut (other : driver ≠ .ext2) : (parseParentAndName driver new).2.length < NAME_LEN := by
  have cut : (Minix3.PathWalk.parseParentAndName new).2.length < NAME_LEN := by
    unfold Minix3.PathWalk.parseParentAndName
    split
    · exact Nat.lt_of_le_of_lt (List.length_take_le _ _) (by decide)
    · exact Nat.lt_of_le_of_lt (List.length_take_le _ _) (by decide)
  cases driver
  case ext2 => exact absurd rfl other
  all_goals exact cut

theorem linkMakes (linkable : Linkable driver v old new room file parent) :
    ∃ i, vfsLink driver v old new room =
      (true, made v (parseParentAndName driver new).2 file parent i) := by
  obtain ⟨i, place⟩ := Option.isSome_iff_exists.mp linkable.place
  have plain : ¬ file.2.mode = .dir := of_decide_eq_false linkable.plain
  have added : addDirent driver parent.2 (parseParentAndName driver new).2 file.1 room =
      some {parent.2 with entries := parent.2.entries.take i ++
        ⟨file.1, (parseParentAndName driver new).2⟩ :: parent.2.entries.drop i} := by
    unfold addDirent
    rw [if_neg (not_not.mpr (of_decide_eq_true linkable.dir)), if_neg, if_neg, place]
    · rfl
    · rintro ⟨rfl, long⟩
      exact absurd (nameCut (by decide)) (Nat.not_lt.mpr long)
    · rintro ⟨same, none_ | long⟩
      · exact linkable.named (.inl none_)
      · exact linkable.short ⟨same, long⟩
  refine ⟨i, ?_⟩
  unfold vfsLink
  rw [linkable.opens]
  dsimp only
  rw [if_neg plain, if_neg linkable.named, linkable.above]
  dsimp only
  rw [linkable.fresh, if_neg (by simp), added]
  rfl

theorem linkRefuses (none_ : ∀ file parent, ¬ Linkable driver v old new room file parent) :
    vfsLink driver v old new room = (false, v) := by
  unfold vfsLink
  split
  · rfl
  · rename_i ino inode opens
    split
    · rfl
    · rename_i plain
      dsimp only
      split
      · rfl
      · rename_i named
        split
        · rfl
        · rename_i parentIno dir above
          split
          · rfl
          · rename_i fresh
            split
            · rfl
            · rename_i dir' added
              unfold addDirent at added
              split at added
              · cases added
              · rename_i directory
                split at added
                · cases added
                · rename_i short
                  split at added
                  · cases added
                  · refine absurd ?_ (none_ (ino, inode) (parentIno, dir))
                    obtain ⟨i, place, _⟩ := Option.map_eq_some_iff.mp added
                    exact
                      { opens := opens
                        plain := decide_eq_false plain
                        named := named
                        short := fun both => short ⟨both.1, .inr both.2⟩
                        above := above
                        dir := decide_eq_true (not_not.mp directory)
                        fresh := Option.not_isSome_iff_eq_none.mp fresh
                        place := by rw [place]; rfl }

/-! ## The walks -/

theorem walkUnslash : walk driver v (unslash path) r = walk driver v path r := unslashWalk

theorem stops (place : Nat × Inode) (word : Str) (shut : isDir place = false) :
    enter driver v place word = none := by
  unfold enter lookup
  rw [if_pos (of_decide_eq_false shut)]
  rfl

theorem openWalk (short : path.length < MAX_PATH_LEN) (root : v (rootIno driver) = some r)
    (dot : unslash path ≠ DOT) : vfsOpen driver v path = walk driver v path r := by
  unfold vfsOpen
  rw [root, Option.bind_some, copied short, walkUnslash]
  split <;> rename_i top
  · rw [← walkUnslash, top.resolve_right dot]
    rfl
  · rfl

theorem directoryWalk (short : (unslash path).length < MAX_PATH_LEN) (dot : path ≠ DOT)
    (root : v (rootIno driver) = some r)
    (found : lookupDirectoryByPath driver v path = some parent) :
    walk driver v path r = some parent := by
  have whole : pathCopy (unslash path) = unslash path :=
    List.take_of_length_le (Nat.le_sub_one_of_lt short)
  unfold lookupDirectoryByPath at found
  rw [root, Option.bind_some, whole, walkUnslash] at found
  split at found <;> rename_i top
  · rw [← found]
    rcases top with rfl | rfl | ⟨_, same⟩
    · rfl
    · rfl
    · exact absurd same dot
  · exact (Option.filter_eq_some_iff.mp found).1

theorem walkParts (filled : namePart path ≠ []) : walk driver v path r =
    (walk driver v (dirPart path) r).bind fun found =>
      enter driver v found (namePart path) :=
  partsWalk stops filled

theorem ext2Parse (path : Str) : ∃ p, parseParentAndName .ext2 path = (p, namePart path) ∧
    (p = dirPart path ∨ p = '/' :: dirPart path) := by
  unfold parseParentAndName dirPart namePart
  dsimp only
  cases path with
  | nil => exact ⟨_, rfl, .inr rfl⟩
  | cons c rest =>
    by_cases slash : c = '/'
    · subst slash
      rw [lastSlash, show unslash ('/' :: rest) = rest from rfl]
      cases lastSlash rest with
      | none => exact ⟨_, rfl, .inr rfl⟩
      | some pair => exact ⟨_, rfl, .inr (if_neg (List.cons_ne_nil _ _))⟩
    · have same : unslash (c :: rest) = c :: rest := by
        unfold unslash
        split
        · rename_i p whole
          cases whole
          exact absurd rfl slash
        · rfl
      rw [same]
      cases split : lastSlash (c :: rest) with
      | none => exact ⟨_, rfl, .inr rfl⟩
      | some pair =>
        obtain ⟨front, last⟩ := pair
        have filled : front ≠ [] := by
          rintro rfl
          exact slash (List.cons.inj (lastSlashSome split).1).1
        exact ⟨_, rfl, .inl (if_neg filled)⟩

theorem nameLength (path : Str) : (namePart path).length ≤ path.length := by
  have less := unslashLength path
  unfold namePart
  cases split : lastSlash (unslash path) with
  | none => exact less
  | some pair =>
    have whole := congrArg List.length (@lastSlashSome pair.1 pair.2 _ split).1
    rw [List.length_append, List.length_cons] at whole
    rw [Option.map_some, Option.getD_some]
    omega

theorem parseName (short : new.length < MAX_PATH_LEN) :
    (parseParentAndName driver new).2 = (namePart new).take (kept driver) := by
  have other (same : parseParentAndName driver new = Minix3.PathWalk.parseParentAndName new) :
      (parseParentAndName driver new).2 = (namePart new).take (NAME_LEN - 1) := by
    rw [same, Minix3.PathWalk.parseSpec short]
  cases driver
  case ext2 =>
    obtain ⟨p, split, _⟩ := ext2Parse new
    rw [split]
    exact (List.take_of_length_le
      (Nat.le_trans (nameLength new) (Nat.le_of_lt_succ short))).symm
  all_goals exact other rfl

theorem parentWalk (short : new.length < MAX_PATH_LEN) (dot : dirPart new ≠ DOT)
    (root : v (rootIno driver) = some r)
    (found : lookupDirectoryByPath driver v (parseParentAndName driver new).1 = some parent) :
    walk driver v (dirPart new) r = some parent := by
  have within := dirShort short
  have other (same : parseParentAndName driver new = Minix3.PathWalk.parseParentAndName new) :
      walk driver v (dirPart new) r = some parent := by
    rw [same, Minix3.PathWalk.parseSpec short] at found
    exact directoryWalk (Nat.lt_of_le_of_lt (unslashLength _) within) dot root found
  cases driver
  case ext2 =>
    obtain ⟨p, split, rfl | rfl⟩ := ext2Parse new
    · rw [split] at found
      exact directoryWalk (Nat.lt_of_le_of_lt (unslashLength _) within) dot root found
    · rw [split] at found
      have walked := directoryWalk (show (unslash ('/' :: dirPart new)).length < _ from within)
        (by simp [DOT]) root found
      rw [← walked]
      exact Walk.walkSlash.symm
  all_goals exact other rfl

end driver

/-! ## What still opens -/

section growth
variable {driver : Driver} {v w : Volume} {old new path name word : Str} {r r' dir : Inode}
variable {file parent p p' q : Nat × Inode} {room : Option Nat} {e : Dirent} {ino i : Nat}
variable {entries : List Dirent}

structure Grows (driver : Driver) (dir dir' : Inode) : Prop where
  mode : dir'.mode = dir.mode
  finds : ∀ word ino, lookup driver dir word = some ino → lookup driver dir' word = some ino

def Grown (driver : Driver) (v w : Volume) : Prop :=
  ∀ x dir, v x = some dir → ∃ dir', w x = some dir' ∧ Grows driver dir dir'

def Read (v : Volume) (p : Nat × Inode) : Prop := p.1 ≠ 0 ∧ v p.1 = some p.2

structure Same (driver : Driver) (v w : Volume) (p p' : Nat × Inode) : Prop where
  number : p'.1 = p.1
  before : Read v p
  after : w p.1 = some p'.2
  grows : Grows driver p.2 p'.2

theorem insertOther (differ : hasName driver word e = false) :
    (entries.take i ++ e :: entries.drop i).find? (hasName driver word) =
      entries.find? (hasName driver word) := by
  rw [List.find?_append, List.find?_cons_of_neg (Bool.eq_false_iff.mp differ),
    ← List.find?_append, List.take_append_drop]

theorem hasNameOnly (short : driver ≠ .ext2 → name.length < NAME_LEN)
    (named : hasName driver word ⟨ino, name⟩ = true) : word = name := by
  have other (away : driver ≠ .ext2) (same : name = word.take NAME_LEN) : word = name :=
    takeShort (short away) same.symm
  cases driver
  case ext2 => exact (of_decide_eq_true named).2.symm
  all_goals exact other (by decide) (of_decide_eq_true named).2

theorem insertGrows (fresh : lookup driver dir name = none)
    (short : driver ≠ .ext2 → name.length < NAME_LEN) :
    Grows driver dir {dir with entries := dir.entries.take i ++ ⟨ino, name⟩ :: dir.entries.drop i} where
  mode := rfl
  finds word x found := by
    have differ : hasName driver word ⟨ino, name⟩ = false := by
      refine Bool.eq_false_iff.mpr fun named => ?_
      rw [hasNameOnly short named, fresh] at found
      cases found
    unfold lookup at found ⊢
    rw [insertOther differ]
    exact found

theorem madeGrown (linkable : Linkable driver v old new room file parent)
    (file' : v file.1 = some file.2) (parent' : v parent.1 = some parent.2) :
    Grown driver v (made v (parseParentAndName driver new).2 file parent i) := by
  intro x dir before
  unfold made writeInode
  by_cases above : x = parent.1
  · subst above
    cases parent'.symm.trans before
    exact ⟨_, Function.update_self .., insertGrows linkable.fresh nameCut⟩
  · rw [Function.update_of_ne above]
    by_cases here : x = file.1
    · subst here
      cases file'.symm.trans before
      exact ⟨_, Function.update_self .., rfl, fun _ _ found => found⟩
    · exact ⟨dir, (Function.update_of_ne here _ _).trans before, rfl, fun _ _ found => found⟩

theorem lookupFilled (found : lookup driver dir word = some ino) : ino ≠ 0 := by
  unfold lookup at found
  split at found
  · cases found
  · split at found
    · cases found
    · obtain ⟨e, first, rfl⟩ := Option.map_eq_some_iff.mp found
      have named := List.find?_some first
      cases driver <;> exact (of_decide_eq_true named).1

theorem enterSpec (entered : enter driver v p word = some q) :
    lookup driver p.2 word = some q.1 ∧ Read v q := by
  obtain ⟨ino, found, rest⟩ := Option.bind_eq_some_iff.mp entered
  obtain ⟨inode, reads, rfl⟩ := Option.map_eq_some_iff.mp rest
  exact ⟨found, lookupFilled found, reads⟩

theorem enterGrown (grown : Grown driver v w) (same : Same driver v w p p')
    (entered : enter driver v p word = some q) :
    ∃ q', enter driver w p' word = some q' ∧ Same driver v w q q' := by
  obtain ⟨found, reads⟩ := enterSpec entered
  obtain ⟨dir', after, grows⟩ := grown q.1 q.2 reads.2
  refine ⟨(q.1, dir'), ?_, rfl, reads, after, grows⟩
  unfold enter
  rw [same.grows.finds word q.1 found, Option.bind_some, after]
  rfl

theorem rootFilled : rootIno driver ≠ 0 := by
  cases driver <;> decide

theorem walkGrown (grown : Grown driver v w) (root : v (rootIno driver) = some r)
    (walked : walk driver v path r = some q) :
    ∃ r' q', w (rootIno driver) = some r' ∧ walk driver w path r' = some q' ∧
      Same driver v w q q' := by
  obtain ⟨r', after, grows⟩ := grown _ r root
  have related : Same driver v w (rootIno driver, r) (rootIno driver, r') :=
    ⟨rfl, ⟨rootFilled, root⟩, after, grows⟩
  have onward (p p' : Nat × Inode) (word : Str) (q : Nat × Inode) (same : Same driver v w p p')
      (entered : enter driver v p word = some q) :
      ∃ q', enter driver w p' word = some q' ∧ Same driver v w q q' :=
    enterGrown grown same entered
  have opens (p p' : Nat × Inode) (same : Same driver v w p p') : isDir p' = isDir p := by
    unfold isDir
    rw [same.grows.mode]
  obtain ⟨q', walked', same⟩ := Walk.walkRelated onward opens related walked
  exact ⟨r', q', after, walked', same⟩

theorem grownSelf : Grown driver v v := fun _ dir before =>
  ⟨dir, before, rfl, fun _ _ found => found⟩

theorem walkRead (root : v (rootIno driver) = some r)
    (walked : walk driver v path r = some q) : Read v q := by
  obtain ⟨_, _, _, _, same⟩ := walkGrown grownSelf root walked
  exact same.before

theorem openRead (opened : vfsOpen driver v path = some q) : Read v q := by
  obtain ⟨r, root, found⟩ := Option.bind_eq_some_iff.mp opened
  split at found
  · cases found
    exact ⟨rootFilled, root⟩
  · exact walkRead root found

theorem insertFinds (fresh : lookup driver dir name = none) (directory : dir.mode = .dir)
    (fits : ¬(driver = .ext2 ∧ (name = [] ∨ name.length > EXT2_NAME_LEN)))
    (short : driver ≠ .ext2 → name.length < NAME_LEN) (filled : ino ≠ 0) :
    lookup driver {dir with entries := dir.entries.take i ++ ⟨ino, name⟩ :: dir.entries.drop i} name =
      some ino := by
  have named : hasName driver name ⟨ino, name⟩ = true := by
    have whole (away : driver ≠ .ext2) : name = name.take NAME_LEN :=
      (List.take_of_length_le (Nat.le_of_lt (short away))).symm
    cases driver
    case ext2 => exact decide_eq_true ⟨filled, rfl⟩
    all_goals exact decide_eq_true ⟨filled, whole (by decide)⟩
  unfold lookup at fresh ⊢
  rw [if_neg (not_not.mpr directory), if_neg fits] at fresh ⊢
  have none_ := List.find?_eq_none.mp (Option.map_eq_none_iff.mp fresh)
  have before : (dir.entries.take i).find? (hasName driver name) = none :=
    List.find?_eq_none.mpr fun e member => none_ e (List.take_subset i _ member)
  rw [List.find?_append, before, List.find?_cons_of_pos named]
  rfl

theorem enterNumber (grown : Grown driver v w) (keeps : ∀ x, v x = none → w x = none)
    (looks : lookup driver p'.2 word = lookup driver p.2 word) :
    (enter driver w p' word).map Prod.fst = (enter driver v p word).map Prod.fst := by
  unfold enter
  rw [looks]
  cases lookup driver p.2 word with
  | none => rfl
  | some ino =>
    rw [Option.bind_some, Option.bind_some]
    cases here : v ino with
    | none => rw [keeps ino here]
    | some dir =>
      obtain ⟨dir', there, _⟩ := grown ino dir here
      rw [there]
      rfl

theorem madeKeeps (file' : v file.1 = some file.2) (parent' : v parent.1 = some parent.2) (x : Nat)
    (none_ : v x = none) : made v name file parent i x = none := by
  have above : x ≠ parent.1 := fun same => by
    rw [same, parent'] at none_
    cases none_
  have here : x ≠ file.1 := fun same => by
    rw [same, file'] at none_
    cases none_
  exact (Function.update_of_ne above _ _).trans ((Function.update_of_ne here _ _).trans none_)

theorem openParts (short : path.length < MAX_PATH_LEN) (dot : namePart path ≠ DOT)
    (filled : namePart path ≠ []) (root : v (rootIno driver) = some r)
    (walked : walk driver v (dirPart path) r = some parent) :
    vfsOpen driver v path = enter driver v parent (namePart path) := by
  have other : unslash path ≠ DOT := by
    intro same
    refine dot ?_
    unfold namePart
    rw [same]
    rfl
  rw [openWalk short root other, walkParts filled, walked, Option.bind_some]

theorem linkOpens (linkable : Linkable driver v old new room file parent)
    (short : new.length < MAX_PATH_LEN) (dot : dirPart new ≠ DOT) :
    ((namePart new).length ≤ kept driver →
      (vfsOpen driver (made v (parseParentAndName driver new).2 file parent i) new).map Prod.fst =
        some file.1) ∧
    (kept driver < (namePart new).length →
      (vfsOpen driver (made v (parseParentAndName driver new).2 file parent i) new).map Prod.fst =
        (vfsOpen driver v new).map Prod.fst) := by
  obtain ⟨r, root, _⟩ := Option.bind_eq_some_iff.mp linkable.above
  have walked := parentWalk short dot root linkable.above
  have file' := openRead linkable.opens
  have parent' := walkRead root walked
  have grown := @madeGrown driver v old new file parent room i linkable file'.2 parent'.2
  obtain ⟨r', parent₁, root', walked', same⟩ := walkGrown grown root walked
  have name := @parseName driver new short
  have named := linkable.named
  have away : namePart new ≠ DOT := by
    intro same
    refine named (.inr (.inl ?_))
    rw [name, same]
    cases driver <;> rfl
  have filled : namePart new ≠ [] := by
    intro same
    refine named (.inl ?_)
    rw [name, same, List.take_nil]
  have opens := openParts short away filled root walked
  have opens' := openParts short away filled root' walked'
  have inside : parent₁.2 = {parent.2 with entries := parent.2.entries.take i ++
      ⟨file.1, (parseParentAndName driver new).2⟩ :: parent.2.entries.drop i} :=
    Option.some.inj (same.after.symm.trans (Function.update_self ..))
  rw [opens', opens]
  constructor
  · intro fits
    have whole : namePart new = (parseParentAndName driver new).2 := by
      rw [name, List.take_of_length_le fits]
    have looks : lookup driver parent₁.2 (namePart new) = some file.1 := by
      rw [inside, whole]
      refine insertFinds linkable.fresh (of_decide_eq_true linkable.dir) ?_ nameCut file'.1
      rintro ⟨ext2, none_ | long⟩
      · exact named (.inl none_)
      · exact linkable.short ⟨ext2, long⟩
    obtain ⟨inode, there, _⟩ := grown file.1 file.2 file'.2
    unfold enter
    rw [looks, Option.bind_some, there]
    rfl
  · intro long
    have differ : hasName driver (namePart new) ⟨file.1, (parseParentAndName driver new).2⟩ =
        false := by
      refine Bool.eq_false_iff.mpr fun matches' => ?_
      have length := congrArg List.length (hasNameOnly nameCut matches')
      rw [name, List.length_take] at length
      omega
    refine enterNumber grown (madeKeeps file'.2 parent'.2) ?_
    unfold lookup
    rw [inside]
    dsimp only
    rw [insertOther differ]

end growth

/-! ## Over the mount table -/

section table
variable {s t : State} {c : LinkCall} {absOld absNew abs : Str} {mpOld mpNew m : Mount}
variable {file parent : Nat × Inode} {cs : List Str}

theorem relShort (short : abs.length ≤ Vfs.MAX_PATH_LEN - 1) :
    (relPath m abs).length < MAX_PATH_LEN := by
  unfold relPath
  split
  · exact (by decide : 1 < MAX_PATH_LEN)
  · rw [List.length_drop]
    exact Nat.lt_of_le_of_lt (Nat.sub_le _ _) (Nat.lt_of_le_of_lt short (by decide))

theorem relComponents (found : findIn s.mounts abs = some m) (normal : Normal abs cs) :
    ∀ word ∈ Path.components (relPath m abs), word ∈ cs := by
  have covered : covers m.path abs = true := by
    rcases (@Mounts.foldSpec s.mounts abs slots none).2.1 with same | ⟨_, _, m', _, covered, same⟩
    · cases found.symm.trans same
    · cases found.symm.trans same
      exact covered
  have reads := normal.reads
  unfold relPath
  split
  · exact fun _ member => nomatch member
  · rename_i filled
    rcases of_decide_eq_true covered with root | ⟨⟨rest, whole⟩, ends⟩
    · obtain ⟨c, rest, rfl⟩ := List.exists_cons_of_ne_nil normal.filled
      have slash : c = '/' := by
        have starts := normal.starts
        simpa using starts
      subst slash
      rw [Path.componentsLead] at reads
      rw [root, ← reads]
      exact fun _ member => member
    · subst whole
      rw [List.drop_left] at filled ⊢
      rcases ends with short | slash
      · rw [List.length_append] at short
        exact absurd (List.length_eq_zero_iff.mp (by omega)) filled
      · rw [List.getElem?_append_right (Nat.le_refl _), Nat.sub_self] at slash
        obtain ⟨d, more, rfl⟩ := List.exists_cons_of_ne_nil filled
        cases slash
        rw [Path.componentsSlash] at reads
        rw [Path.componentsLead, ← reads]
        exact fun _ member => List.mem_append_right _ member

theorem leadsPlain (leads : Leads s c absOld absNew mpOld mpNew) :
    (relPath mpNew absNew).length < MAX_PATH_LEN ∧ dirPart (relPath mpNew absNew) ≠ DOT := by
  obtain ⟨⟨cs, normal⟩, short, _⟩ := Vfs.resolvePathSpec c.task.2 leads.new
  refine ⟨relShort short, fun same => ?_⟩
  have member : DOT ∈ Path.components (dirPart (relPath mpNew absNew)) := by
    rw [same]
    decide
  have inside := relComponents leads.newMount normal _
    (Minix3.PathWalk.componentsDir _ _ member)
  exact (normal.names _ inside).2.2.1 rfl

def linkedState (s : State) (mpOld mpNew : Mount) (absNew : Str) (file parent : Nat × Inode)
    (i : Nat) : State :=
  {s with
    volumes := Function.update s.volumes mpOld.inst
      (made (s.volumes mpOld.inst) (parseParentAndName mpOld.driver (relPath mpNew absNew)).2
        file parent i)}

theorem fsLinkMakes (makes : Makes s c absOld absNew mpOld mpNew file parent) :
    ∃ i, fsLink s c = some (true, linkedState s mpOld mpNew absNew file parent i) := by
  obtain ⟨i, done⟩ := linkMakes makes.linkable
  refine ⟨i, ?_⟩
  unfold fsLink
  rw [makes.old]
  dsimp only
  rw [makes.new]
  dsimp only
  rw [makes.oldMount, makes.newMount]
  dsimp only
  rw [if_neg (not_not.mpr makes.driver), if_neg (by rw [makes.link]; decide), done]
  rfl

theorem fsLinkRefuses (oldFits : Vfs.resolvePath c.task c.old ≠ .overrun)
    (newFits : Vfs.resolvePath c.task c.old ≠ .refused → Vfs.resolvePath c.task c.new ≠ .overrun)
    (none_ : ∀ absOld absNew mpOld mpNew file parent,
      ¬ Makes s c absOld absNew mpOld mpNew file parent) : fsLink s c = some (false, s) := by
  unfold fsLink
  cases old : Vfs.resolvePath c.task c.old with
  | overrun => exact absurd old oldFits
  | refused => rfl
  | path absOld =>
    dsimp only
    cases new : Vfs.resolvePath c.task c.new with
    | overrun => exact absurd new (newFits (by rw [old]; exact nofun))
    | refused => rfl
    | path absNew =>
      dsimp only
      cases oldMount : findIn s.mounts absOld with
      | none => rfl
      | some mpOld => cases newMount : findIn s.mounts absNew with
        | none => rfl
        | some mpNew =>
          dsimp only
          split
          · rfl
          · rename_i driver
            split
            · rfl
            · rename_i link
              rw [linkRefuses fun file parent linkable => none_ absOld absNew mpOld mpNew file
                parent ⟨⟨old, new, oldMount, newMount⟩, not_not.mp driver, by simpa using link,
                  linkable⟩]
              dsimp only
              rw [Function.update_eq_self]

theorem openOld (leads : Leads s c absOld absNew mpOld mpNew) : fsOpen s c.task c.old =
    (vfsOpen mpOld.driver (s.volumes mpOld.inst) (relPath mpOld absOld)).map fun found =>
      (mpOld.inst, found.1) := by
  unfold fsOpen
  rw [leads.old]
  dsimp only
  rw [leads.oldMount]
  rfl

theorem openNew (leads : Leads s c absOld absNew mpOld mpNew) (kept : t.mounts = s.mounts) :
    fsOpen t c.task c.new =
      ((vfsOpen mpNew.driver (t.volumes mpNew.inst) (relPath mpNew absNew)).map Prod.fst).map
        fun ino => (mpNew.inst, ino) := by
  unfold fsOpen
  rw [leads.new]
  dsimp only
  rw [kept, leads.newMount, Option.map_map]
  rfl

theorem openLinked (makes : Makes s c absOld absNew mpOld mpNew file parent)
    (same : mpOld.inst = mpNew.inst) (i : Nat) :
    ((namePart (relPath mpNew absNew)).length ≤ kept mpOld.driver →
      fsOpen (linkedState s mpOld mpNew absNew file parent i) c.task c.new =
        some (mpOld.inst, file.1)) ∧
    (kept mpOld.driver < (namePart (relPath mpNew absNew)).length →
      fsOpen (linkedState s mpOld mpNew absNew file parent i) c.task c.new =
        fsOpen s c.task c.new) := by
  obtain ⟨short, dot⟩ := leadsPlain makes.toLeads
  obtain ⟨whole, cut⟩ := @linkOpens mpOld.driver (s.volumes mpOld.inst) (relPath mpOld absOld)
    (relPath mpNew absNew) file parent c.room i makes.linkable short dot
  have volume : (linkedState s mpOld mpNew absNew file parent i).volumes mpNew.inst =
      made (s.volumes mpOld.inst) (parseParentAndName mpOld.driver (relPath mpNew absNew)).2
        file parent i := by
    rw [← same]
    exact Function.update_self ..
  have before := openNew (t := s) makes.toLeads rfl
  have after := openNew (t := linkedState s mpOld mpNew absNew file parent i) makes.toLeads rfl
  rw [before, after, volume, ← makes.driver, ← same]
  exact ⟨fun fits => by rw [whole fits]; rfl, fun long => by rw [cut long]⟩

/-- fs_link does what it says exactly when no path is too long for resolve_path, and what the
driver can link lies on one mount and has a name that is kept whole. -/
theorem linkRightIff (s : State) (c : LinkCall) : LinkRight s c ↔ OneMount s c := by
  constructor
  · rintro ⟨ok, t, ran, linked⟩
    refine ⟨fun long => ?_, fun _ long => ?_, fun absOld absNew mpOld mpNew file parent makes => ?_⟩
    · unfold fsLink at ran
      rw [long] at ran
      cases ran
    · unfold fsLink at ran
      cases old : Vfs.resolvePath c.task c.old with
      | refused => contradiction
      | overrun =>
        rw [old] at ran
        cases ran
      | path absOld =>
        rw [old] at ran
        dsimp only at ran
        rw [long] at ran
        cases ran
    · obtain ⟨i, done⟩ := fsLinkMakes makes
      cases done.symm.trans ran
      have same : mpOld.inst = mpNew.inst := by
        by_contra other
        cases (linked.apart absOld absNew mpOld mpNew makes.toLeads other).1
      refine ⟨same, ?_⟩
      obtain ⟨f, opens, opens', _⟩ := linked.names rfl
      rcases Nat.lt_or_ge (kept mpOld.driver) (namePart (relPath mpNew absNew)).length with cut | fits
      · rw [(openLinked makes same i).2 cut] at opens'
        exact .inr (opens'.trans opens.symm)
      · exact .inl fits
  · rintro ⟨oldFits, newFits, all⟩
    by_cases some_ : ∃ absOld absNew mpOld mpNew file parent,
        Makes s c absOld absNew mpOld mpNew file parent
    · obtain ⟨absOld, absNew, mpOld, mpNew, file, parent, makes⟩ := some_
      obtain ⟨same, fits⟩ := all absOld absNew mpOld mpNew file parent makes
      obtain ⟨i, done⟩ := fsLinkMakes makes
      have opens : fsOpen s c.task c.old = some (mpOld.inst, file.1) := by
        rw [openOld makes.toLeads, makes.linkable.opens]
        rfl
      have opens' : fsOpen (linkedState s mpOld mpNew absNew file parent i) c.task c.new =
          some (mpOld.inst, file.1) := by
        rcases Nat.lt_or_ge (kept mpOld.driver) (namePart (relPath mpNew absNew)).length with
          cut | whole
        · have before := fits.resolve_left (Nat.not_le.mpr cut)
          rw [(openLinked makes same i).2 cut, before, opens]
        · exact (openLinked makes same i).1 whole
      refine ⟨true, _, done, fun _ => ⟨_, opens, opens', rfl, fun inst other => ?_⟩, ?_⟩
      · exact Function.update_of_ne other _ _
      · intro absOld' absNew' mpOld' mpNew' leads apart
        cases makes.old.symm.trans leads.old
        cases makes.new.symm.trans leads.new
        cases makes.oldMount.symm.trans leads.oldMount
        cases makes.newMount.symm.trans leads.newMount
        exact absurd same apart
    · refine ⟨false, s, fsLinkRefuses oldFits newFits ?_, nofun, fun _ _ _ _ _ _ => ⟨rfl, rfl⟩⟩
      intro absOld absNew mpOld mpNew file parent makes
      exact some_ ⟨absOld, absNew, mpOld, mpNew, file, parent, makes⟩

end table

def twoMounts : State where
  mounts i := if i = 0 then some ⟨['/'], .minix3, 0⟩ else if i = 1 then some ⟨['/', 'm'], .minix3, 1⟩
    else none
  volumes inst ino :=
    if ino = 1 then some ⟨.dir, 2, ⟨1, DOT⟩ :: ⟨1, DOTDOT⟩ :: if inst = 0 then [⟨2, ['f']⟩] else []⟩
    else if ino = 2 then some ⟨.reg, 1, []⟩
    else none

theorem topSane : Vfs.Sane ⟨['/'], ['/']⟩ where
  root := ⟨[], Path.rootNormal⟩
  cwd := ⟨[], Path.rootNormal⟩
  rootShort := by decide
  cwdShort := by decide

def crossLink : LinkCall := ⟨⟨⟨['/'], ['/']⟩, topSane⟩, ['/', 'f'], ['/', 'm', '/', 'g'], some 3⟩

/-- The call succeeds, and makes the name g on the mount of f. -/
theorem linkedAcross : ¬ LinkRight twoMounts crossLink := by
  rintro ⟨ok, t, ran, linked⟩
  have leads : Leads twoMounts crossLink ['/', 'f'] ['/', 'm', '/', 'g'] ⟨['/'], .minix3, 0⟩
      ⟨['/', 'm'], .minix3, 1⟩ := ⟨rfl, rfl, rfl, rfl⟩
  have done : (fsLink twoMounts crossLink).map Prod.fst = some true := by decide
  rw [ran, (linked.apart _ _ _ _ leads (by decide)).1] at done
  cases done

end Scepter.LinkMounts
