import Scepter.Fs.Minix3.TreeCalls
import Mathlib.Algebra.BigOperators.Group.Finset.Piecewise
import Mathlib.Order.Interval.Finset.Nat

/-! The calls of minix3 keep the directories a tree. In the middle of a call the inodes
that it still has to write are pending: their link counts, and the blocks of a
directory, are not yet what the graph says. -/
namespace Scepter.Minix3
open Scepter.Path (Str)
open Names

variable {geo : Geometry} {s t m : Fs}

structure Pending (geo : Geometry) (s : Fs) (n : Nat → Nat) (rest : List Nat) : Prop
    extends Formed geo s where
  filled : ∀ d ∉ rest, IsDir geo s d →
    (s.dirs d).length = (s.inodes d).zones.length * geo.perBlock
  links : ∀ i ∉ rest, InRange geo i → s.used i = true → (s.inodes i).nlinks = n i
  counted : ∀ i, (graph geo s).links i = n i
  narrow : ∀ i, (s.inodes i).nlinks < 2 ^ 16

variable {n : Nat → Nat} {rest : List Nat}

theorem Sound.pending (sound : Sound geo s) : Pending geo s (graph geo s).links [] :=
  ⟨sound.toFormed, fun d _ => sound.filled d, fun i _ => sound.links i, fun _ => rfl,
    sound.narrow⟩

theorem Pending.sound (pending : Pending geo s n []) : Sound geo s :=
  ⟨pending.toFormed, fun d => pending.filled d List.not_mem_nil,
    fun i range used => (pending.links i List.not_mem_nil range used).trans
      (pending.counted i).symm,
    pending.narrow⟩

structure Beside (s t : Fs) : Prop where
  inodes : t.inodes = s.inodes
  used : t.used = s.used
  dirs : t.dirs = s.dirs

theorem Pending.beside (pending : Pending geo s n rest) (beside : Beside s t) :
    Pending geo t n rest := by
  obtain ⟨inodes, used, dirs⟩ := beside
  obtain ⟨formed, same⟩ := pending.toFormed.still used (fun i _ => by rw [inodes])
    fun d _ => congrFun dirs d
  refine ⟨formed, fun d away here => ?_, fun i away range inUse => ?_, fun i => ?_, fun i => ?_⟩
  · rw [dirs, inodes]
    exact pending.filled d away ((dirKept used inodes d).mp here)
  · rw [inodes]
    exact pending.links i away range (used ▸ inUse)
  · rw [Hierarchy.sameLinks same]
    exact pending.counted i
  · rw [inodes]
    exact pending.narrow i

theorem Pending.more (pending : Pending geo s n rest) (i : Nat) : Pending geo s n (i :: rest) :=
  ⟨pending.toFormed, fun d away => pending.filled d fun inside => away (List.mem_cons_of_mem _ inside),
    fun j away => pending.links j fun inside => away (List.mem_cons_of_mem _ inside),
    pending.counted, pending.narrow⟩

theorem Pending.settle {i : Nat} (pending : Pending geo s n (i :: rest))
    (filled : IsDir geo s i → (s.dirs i).length = (s.inodes i).zones.length * geo.perBlock)
    (links : (s.inodes i).nlinks = n i) : Pending geo s n rest := by
  refine ⟨pending.toFormed, fun d away here => ?_, fun j away range used => ?_, pending.counted,
    pending.narrow⟩
  · by_cases same : d = i
    · subst same
      exact filled here
    · exact pending.filled d (fun inside => (List.mem_cons.mp inside).elim same away) here
  · by_cases same : j = i
    · subst same
      exact links
    · exact pending.links j (fun inside => (List.mem_cons.mp inside).elim same away) range used

theorem writeInRange {i : Nat} (range : InRange geo i) (inode : Inode) :
    writeInode geo s i inode = s.setInode i inode := by
  obtain ⟨low, high⟩ := range
  exact if_neg (by omega)

theorem Pending.write {i : Nat} {inode : Inode} (pending : Pending geo s n (i :: rest))
    (range : InRange geo i) (mode : inode.mode = (s.inodes i).mode)
    (narrow : inode.nlinks < 2 ^ 16)
    (right : i ∉ rest → (inode.mode = .dir →
        (s.dirs i).length = inode.zones.length * geo.perBlock) ∧ inode.nlinks = n i) :
    Pending geo (writeInode geo s i inode) n rest := by
  rw [writeInRange range]
  have modes : ∀ j, ((s.setInode i inode).inodes j).mode = (s.inodes j).mode := fun j => by
    unfold Fs.setInode
    dsimp only
    by_cases same : j = i
    · rw [same, Function.update_self, mode]
    · rw [Function.update_of_ne same]
  have isDir : ∀ d, IsDir geo (s.setInode i inode) d ↔ IsDir geo s d := fun d => by
    unfold IsDir
    rw [modes]
    rfl
  obtain ⟨formed, same⟩ := pending.toFormed.still (t := s.setInode i inode) rfl
    (fun j _ => modes j) fun _ _ => rfl
  refine ⟨formed, fun d away here => ?_, fun j away inside inUse => ?_, fun j => ?_, fun j => ?_⟩
  · unfold Fs.setInode
    dsimp only
    by_cases same : d = i
    · subst same
      rw [Function.update_self]
      exact (right away).1 (mode.trans ((isDir d).mp here).2.2)
    · rw [Function.update_of_ne same]
      exact pending.filled d (fun inside => (List.mem_cons.mp inside).elim same away)
        ((isDir d).mp here)
  · unfold Fs.setInode
    dsimp only
    by_cases same : j = i
    · subst same
      rw [Function.update_self]
      exact (right away).2
    · rw [Function.update_of_ne same]
      exact pending.links j (fun inside => (List.mem_cons.mp inside).elim same away) inside inUse
  · rw [Hierarchy.sameLinks same]
    exact pending.counted j
  · unfold Fs.setInode
    dsimp only
    by_cases same : j = i
    · rw [same, Function.update_self]
      exact narrow
    · rw [Function.update_of_ne same]
      exact pending.narrow j

theorem Pending.again {i : Nat} {inode : Inode} (pending : Pending geo s n rest)
    (range : InRange geo i) (used : s.used i = true) (same : inode = s.inodes i) :
    Pending geo (writeInode geo s i inode) n rest := by
  subst same
  exact (pending.more i).write range rfl (pending.narrow i) fun away =>
    ⟨fun mode => pending.filled i away ⟨range, used, mode⟩, pending.links i away range used⟩

theorem Pending.gain {p : Nat} {dir dir' : Inode} {e : Dirent} {l : List Dirent}
    (pending : Pending geo s n rest) (here : IsDir geo s p) (range : InRange geo e.inode)
    (used : s.used e.inode = true) (file : ¬IsDir geo s e.inode)
    (added : Added geo s t p dir dir' e l) :
    Pending geo t (fun j => n j + if j = e.inode then 1 else 0) (e.inode :: p :: rest) := by
  obtain ⟨formed, links⟩ := pending.toFormed.gain here range used file added
  refine ⟨formed, fun d away dir => ?_, fun j away inside inUse => ?_, fun j => ?_, fun j => ?_⟩
  · simp only [List.mem_cons, not_or] at away
    rw [added.entries, Function.update_of_ne away.2.1, added.inodes]
    exact pending.filled d away.2.2 ((dirKept added.used added.inodes d).mp dir)
  · simp only [List.mem_cons, not_or] at away
    rw [added.inodes, if_neg away.1]
    exact pending.links j away.2.2 inside (added.used ▸ inUse)
  · rw [links, pending.counted]
  · rw [added.inodes]
    exact pending.narrow j

theorem Pending.lose {p : Nat} {e : Dirent} {l : List Dirent}
    (pending : Pending geo s n rest) (here : IsDir geo s p) (file : ¬IsDir geo s e.inode)
    (lost : Lost p (s.dirs p) l e) (length : l.length = (s.dirs p).length) :
    Pending geo (s.setDir p l) (fun j => n j - if j = e.inode then 1 else 0)
      (e.inode :: rest) := by
  obtain ⟨formed, links⟩ := pending.toFormed.lose here file lost
  refine ⟨formed, fun d away dir => ?_, fun j away inside inUse => ?_, fun j => ?_,
    pending.narrow⟩
  · have before := pending.filled d (fun inside => away (List.mem_cons_of_mem _ inside))
      ((dirKept rfl rfl d).mp dir)
    unfold Fs.setDir
    dsimp only
    by_cases same : d = p
    · rw [same] at before ⊢
      rw [Function.update_self, length, before]
    · rw [Function.update_of_ne same, before]
  · simp only [List.mem_cons, not_or] at away
    rw [if_neg away.1]
    exact pending.links j away.2 inside inUse
  · have count := links j
    rw [pending.counted] at count
    omega

theorem Pending.take {i : Nat} (pending : Pending geo s n rest) (unused : s.used i = false)
    (used : t.used = Function.update s.used i true) (mode : (t.inodes i).mode ≠ .dir)
    (small : (t.inodes i).nlinks < 2 ^ 16)
    (others : ∀ j, j ≠ i → t.inodes j = s.inodes j) (dirs : t.dirs = s.dirs) :
    Pending geo t n (i :: rest) := by
  obtain ⟨formed, same⟩ := pending.toFormed.take unused used mode others dirs
  refine ⟨formed, fun d away dir => ?_, fun j away inside inUse => ?_, fun j => ?_, fun j => ?_⟩
  · simp only [List.mem_cons, not_or] at away
    obtain ⟨inside, inUse, isDir⟩ := dir
    rw [used, Function.update_of_ne away.1] at inUse
    rw [others d away.1] at isDir ⊢
    rw [dirs]
    exact pending.filled d away.2 ⟨inside, inUse, isDir⟩
  · simp only [List.mem_cons, not_or] at away
    rw [used, Function.update_of_ne away.1] at inUse
    rw [others j away.1]
    exact pending.links j away.2 inside inUse
  · rw [Hierarchy.sameLinks same]
    exact pending.counted j
  · by_cases here : j = i
    · rw [here]
      exact small
    · rw [others j here]
      exact pending.narrow j

theorem Pending.drop {i : Nat} (pending : Pending geo s n (i :: rest)) (file : ¬IsDir geo s i)
    (none' : n i = 0) : Pending geo (s.setUsed i false) n rest := by
  obtain ⟨formed, same⟩ := pending.toFormed.drop file ((pending.counted i).trans none')
  have before : ∀ j, (s.setUsed i false).used j = true → j ≠ i ∧ s.used j = true := by
    intro j inUse
    unfold Fs.setUsed at inUse
    dsimp only at inUse
    by_cases same : j = i
    · rw [same, Function.update_self] at inUse
      cases inUse
    · rw [Function.update_of_ne same] at inUse
      exact ⟨same, inUse⟩
  refine ⟨formed, fun d away dir => ?_, fun j away inside inUse => ?_, fun j => ?_, pending.narrow⟩
  · obtain ⟨differs, inUse⟩ := before d dir.2.1
    exact pending.filled d (fun inside => (List.mem_cons.mp inside).elim differs away)
      ⟨dir.1, inUse, dir.2.2⟩
  · obtain ⟨differs, inUse⟩ := before j inUse
    exact pending.links j (fun inside => (List.mem_cons.mp inside).elim differs away) inside inUse
  · rw [Hierarchy.sameLinks same]
    exact pending.counted j

theorem Sound.still (sound : Sound geo s) (used : t.used = s.used)
    (inodes : ∀ i, s.used i = true → t.inodes i = s.inodes i)
    (dirs : ∀ d, s.used d = true → t.dirs d = s.dirs d)
    (narrow : ∀ i, (t.inodes i).nlinks < 2 ^ 16) : Sound geo t := by
  obtain ⟨formed, same⟩ := sound.toFormed.still used (fun i inUse => by rw [inodes i inUse])
    fun d dir => dirs d dir.2.1
  refine ⟨formed, fun d dir => ?_, fun i range inUse => ?_, narrow⟩
  · have inUse : s.used d = true := used ▸ dir.2.1
    rw [dirs d inUse, inodes d inUse]
    exact sound.filled d ⟨dir.1, inUse, inodes d inUse ▸ dir.2.2⟩
  · rw [used] at inUse
    rw [inodes i inUse, Hierarchy.sameLinks same]
    exact sound.links i range inUse

/-! ## Zones and inodes -/

theorem zonesBeside (zones : List Nat) : Beside s (zones.foldl (freeZone geo) s) := by
  induction zones generalizing s with
  | nil => exact ⟨rfl, rfl, rfl⟩
  | cons zone later ih =>
    have one : Beside s (freeZone geo s zone) := by
      unfold freeZone
      split <;> exact ⟨rfl, rfl, rfl⟩
    obtain ⟨inodes, used, dirs⟩ := ih (s := freeZone geo s zone)
    exact ⟨inodes.trans one.inodes, used.trans one.used, dirs.trans one.dirs⟩

theorem truncateBeside (inode : Inode) : Beside s (truncateFile geo s inode) := by
  unfold truncateFile
  split
  · exact zonesBeside inode.zones
  · exact ⟨rfl, rfl, rfl⟩

theorem allocInodeSpec {mode : Mode} {ino : Nat} (done : allocInode geo s mode = some (ino, t)) :
    InRange geo ino ∧ s.used ino = false ∧
      t = (s.setUsed ino true).setInode ino ⟨mode, 1, []⟩ := by
  obtain ⟨i, found, same⟩ := Option.map_eq_some_iff.mp done
  cases same
  have member := List.mem_range'_1.mp (List.mem_of_find?_eq_some found)
  have unused : (!s.used ino) = true := List.find?_some (p := fun ino => !s.used ino) found
  exact ⟨⟨by omega, by omega⟩, (Bool.not_eq_true' _).mp unused, rfl⟩

theorem allocZoneBeside {zone : Nat} (done : allocZone geo s = some (zone, t)) : Beside s t := by
  obtain ⟨z, -, same⟩ := Option.map_eq_some_iff.mp done
  cases same
  exact ⟨rfl, rfl, rfl⟩

theorem freeInRange {i : Nat} (range : InRange geo i) :
    freeInode geo s i = s.setUsed i false := by
  obtain ⟨low, high⟩ := range
  exact if_neg (by omega)

theorem Sound.giveBack (sound : Sound geo s) {i : Nat} (range : InRange geo i)
    (unused : s.used i = false) (used : m.used = Function.update s.used i true)
    (inodes : ∀ j, j ≠ i → m.inodes j = s.inodes j) (small : (m.inodes i).nlinks < 2 ^ 16)
    (dirs : ∀ d, d ≠ i → m.dirs d = s.dirs d) : Sound geo (freeInode geo m i) := by
  rw [freeInRange range]
  have away : ∀ j, s.used j = true → j ≠ i := fun j inUse same => by
    rw [same, unused] at inUse
    cases inUse
  refine sound.still ?_ (fun j inUse => inodes j (away j inUse))
    (fun d inUse => dirs d (away d inUse)) fun j => ?_
  · unfold Fs.setUsed
    dsimp only
    rw [used, Function.update_idem, ← unused, Function.update_eq_self]
  · by_cases same : j = i
    · rw [same]
      exact small
    · have kept := sound.narrow j
      rw [← inodes j same] at kept
      exact kept

/-! ## Calls -/

theorem Pending.writeAdded {p : Nat} {old dir : Inode} {e : Dirent} {l : List Dirent}
    (pending : Pending geo m n (p :: rest)) (here : IsDir geo m p) (small : dir.nlinks < 2 ^ 16)
    (added : Added geo s t p old dir e l) (dirs : m.dirs p = l) (links : dir.nlinks = n p) :
    Pending geo (writeInode geo m p dir) n rest :=
  pending.write here.1 (added.mode.trans here.2.2.symm) small fun _ =>
    ⟨fun _ => dirs ▸ added.filled, links⟩

theorem linkSound (sound : Sound geo s) {old new : FsPath}
    (room : ∀ found, openFile geo s old = some found → found.2.nlinks < 65535) :
    Sound geo (link geo s old new).2 := by
  unfold link
  dsimp only
  split
  · exact sound
  rename_i ino inode opened
  obtain ⟨range, used, rfl⟩ : Held geo s ino inode := openHeld sound.toFormed opened
  split <;> rename_i refused
  · exact sound
  obtain ⟨mode, -⟩ := not_or.mp refused
  split
  · exact sound
  rename_i parent dir looked
  obtain ⟨here, rfl⟩ := directoryFound sound.toFormed (parentPlain new) looked
  split
  · exact sound
  split
  · exact sound
  rename_i s' dir' done
  have some' : ino ≠ 0 := Nat.ne_of_gt range.1
  obtain ⟨l, added⟩ := addSpec (sound.whole here) (lastPlain new) some' done
  have file : ¬IsDir geo s ino := fun dir => mode dir.2.2
  have differs : parent ≠ ino := fun same => file (same ▸ here)
  have pending := sound.pending.gain here range used file added
  have before := sound.links ino range used
  have small : (s.inodes ino).nlinks < 65535 := room _ opened
  have wrote : Pending geo (writeInode geo s' ino (s.inodes ino).more) _ [parent] :=
    pending.write range (by rw [added.inodes, moreMode]) (moreNarrow _) fun _ =>
      ⟨fun dir => absurd ((moreMode _).symm.trans dir) mode, by rw [if_pos rfl, ← before, moreLinks small]⟩
  rw [writeInRange range] at wrote ⊢
  have kept : (s'.setInode ino (s.inodes ino).more).inodes parent = s.inodes parent := by
    unfold Fs.setInode
    dsimp only
    rw [Function.update_of_ne differs, added.inodes]
  refine (wrote.writeAdded ⟨here.1, ?_, kept ▸ here.2.2⟩ ?_ added ?_ ?_).sound
  · change s'.used parent = true
    rw [added.used]
    exact here.2.1
  · rw [added.nlinks]
    exact sound.narrow parent
  · change s'.dirs parent = l
    rw [added.entries, Function.update_self]
  · rw [added.nlinks, if_neg differs, sound.links parent here.1 here.2.1, Nat.add_zero]

theorem Sound.unlinkLast (sound : Sound geo s) {p : Nat} {e : Dirent} {l : List Dirent} {cut : Fs}
    (here : IsDir geo s p) (file : ¬IsDir geo s e.inode)
    (one : (graph geo s).links e.inode = 1) (lost : Lost p (s.dirs p) l e)
    (length : l.length = (s.dirs p).length) (beside : Beside s cut) :
    Pending geo ((cut.setUsed e.inode false).setDir p l)
      (fun j => (graph geo s).links j - if j = e.inode then 1 else 0) [] := by
  obtain ⟨inodes, inUse, dirs⟩ := beside
  have pending := sound.pending.lose here file lost length
  have dropped := pending.drop file (by rw [if_pos rfl, one])
  refine dropped.beside ⟨inodes, ?_, ?_⟩
  · change Function.update cut.used _ _ = Function.update s.used _ _
    rw [inUse]
  · change Function.update cut.dirs _ _ = Function.update s.dirs _ _
    rw [dirs]

theorem unlinkSound (sound : Sound geo s) (path : FsPath) : Sound geo (unlink geo s path).2 := by
  unfold unlink
  dsimp only
  split
  · exact sound
  rename_i parent dir looked
  obtain ⟨here, rfl⟩ := directoryFound sound.toFormed (parentPlain path) looked
  split
  · exact sound
  rename_i ino found
  obtain ⟨name, range, used⟩ := lookupNamed sound.toFormed here (lastPlain path) found
  obtain ⟨-, e, first, rfl⟩ := lookupEntry found
  split
  · exact sound
  rename_i inode read
  obtain ⟨-, rfl⟩ := readInRange read
  split <;> rename_i mode
  · exact sound
  have file : ¬IsDir geo s e.inode := fun dir => mode dir.2.2
  have differs : parent ≠ e.inode := fun same => file (same ▸ here)
  have before := sound.links e.inode range used
  have narrow := sound.narrow e.inode
  have some' : 0 < (graph geo s).links e.inode := by
    have names := Nat.pos_of_ne_zero fun none' =>
      (Hierarchy.namesNone (graph geo s) e.inode).mp none' parent (memDirs.mpr here) name
    unfold Hierarchy.links
    omega
  have less : (s.inodes e.inode).less.nlinks = (graph geo s).links e.inode - 1 := by
    rw [← before] at some' ⊢
    exact lessLinks some' narrow
  obtain ⟨l, removed, lost, length, -⟩ := removeSpec (sound.whole here).some' here.2.2
    (sound.shaped parent here) (lastPlain path) first
  by_cases last : (s.inodes e.inode).less.nlinks = 0
  · have kept : Beside s (truncateFile geo s (s.inodes e.inode).less) := truncateBeside _
    have after := sound.unlinkLast here file (by omega) lost length kept
    generalize truncateFile geo s (s.inodes e.inode).less = cut at kept after ⊢
    obtain ⟨inodes, inUse, dirs⟩ := kept
    rw [if_pos last, freeInRange range, removed (cut.setUsed e.inode false) dirs]
    refine (after.again here.1 ?_ (congrFun inodes parent).symm).sound
    change Function.update cut.used e.inode false parent = true
    rw [Function.update_of_ne differs, inUse]
    exact here.2.1
  · obtain ⟨n, count, pending⟩ : ∃ n : Nat → Nat, n e.inode = (s.inodes e.inode).less.nlinks ∧
        Pending geo (s.setDir parent l) n [e.inode] := by
      refine ⟨_, ?_, sound.pending.lose here file lost length⟩
      rw [if_pos rfl, less]
    have wrote : Pending geo (writeInode geo (s.setDir parent l) e.inode (s.inodes e.inode).less)
        n [] := pending.write range (lessMode _) (lessNarrow _) fun _ =>
      ⟨fun dir => absurd ((lessMode _).symm.trans dir) mode, count.symm⟩
    rw [writeInRange range] at wrote
    rw [if_neg last, writeInRange range,
      removed (s.setInode e.inode (s.inodes e.inode).less) rfl]
    exact (wrote.again here.1 here.2.1 (Function.update_of_ne differs _ _).symm).sound

theorem Sound.newFile (sound : Sound geo s) {ino p : Nat} {name : Str} {dir : Inode}
    (range : InRange geo ino) (unused : s.used ino = false)
    (used : m.used = Function.update s.used ino true) (mode : (m.inodes ino).mode ≠ .dir)
    (one : (m.inodes ino).nlinks = 1) (others : ∀ j, j ≠ ino → m.inodes j = s.inodes j)
    (dirs : m.dirs = s.dirs) (here : IsDir geo s p) (plain : Plain name)
    (done : addDirent geo m p (s.inodes p) name ino = some (t, dir)) :
    Sound geo (writeInode geo t p dir) := by
  have differs : p ≠ ino := by
    rintro rfl
    exact absurd (here.2.1.symm.trans unused) (by decide)
  have whole : Whole geo m p (s.inodes p) :=
    ⟨Nat.ne_of_gt here.1.1, here.2.2, dirs ▸ sound.shaped p here, dirs ▸ sound.filled p here⟩
  have usedP : m.used p = true := by
    rw [used, Function.update_of_ne differs]
    exact here.2.1
  have hereM : IsDir geo m p := ⟨here.1, usedP, by rw [others p differs]; exact here.2.2⟩
  have usedI : m.used ino = true := by rw [used, Function.update_self]
  have small : (m.inodes ino).nlinks < 2 ^ 16 := by
    rw [one]
    decide
  obtain ⟨l, added⟩ := addSpec whole plain (Nat.ne_of_gt range.1) done
  have taken := sound.pending.take unused used mode small others dirs
  have gained := taken.gain hereM range usedI (fun dir => mode dir.2.2) added
  have file : ¬IsDir geo t ino := fun dir => mode (added.inodes ▸ dir.2.2)
  have links : (t.inodes ino).nlinks =
      (graph geo s).links ino + if ino = ino then 1 else 0 := by
    rw [added.inodes, one, if_pos rfl, sound.toFormed.unusedLinks unused]
  have settled := gained.settle (fun dir => absurd dir file) links
  have wrote := settled.writeAdded ((dirKept added.used added.inodes p).mpr hereM)
    (added.nlinks ▸ sound.narrow p) added (by rw [added.entries, Function.update_self])
    (by rw [added.nlinks, if_neg differs, sound.links p here.1 here.2.1, Nat.add_zero])
  rw [writeInRange here.1] at wrote ⊢
  have keptI : (t.setInode p dir).inodes ino = t.inodes ino := Function.update_of_ne differs.symm _ _
  refine (wrote.settle (fun dir => absurd dir.2.2 ?_) (keptI ▸ links)).sound
  rw [keptI, added.inodes]
  exact mode

theorem createSound (sound : Sound geo s) (path : FsPath) (trunc : Bool) :
    Sound geo (create geo s path trunc).2 := by
  unfold create
  split
  · rename_i ino inode opened
    obtain ⟨range, used, rfl⟩ : Held geo s ino inode := openHeld sound.toFormed opened
    split <;> rename_i reg
    · have cut : Pending geo (truncateFile geo s (s.inodes ino)) (graph geo s).links [] :=
        sound.pending.beside (truncateBeside _)
      have kept : Beside s (truncateFile geo s (s.inodes ino)) := truncateBeside _
      have wrote : Pending geo (writeInode geo (truncateFile geo s (s.inodes ino)) ino
          {s.inodes ino with zones := []}) (graph geo s).links [] := by
        refine (cut.more ino).write range (by rw [kept.inodes]) (sound.narrow ino) fun _ =>
          ⟨fun dir => ?_, sound.links ino range used⟩
        exact absurd (reg.2.symm.trans dir) (by decide)
      exact wrote.sound
    · exact sound
  · split
    · exact sound
    split
    · exact sound
    rename_i parent dir walked
    obtain ⟨root, read, walked⟩ := Option.bind_eq_some_iff.mp walked
    have held : Held geo s parent dir :=
      walkHeld sound.toFormed (parentPlain path) (rootHeld sound.toFormed read) walked
    split <;> rename_i refused
    · exact sound
    obtain ⟨here, rfl⟩ := held.dir (not_not.mp (not_or.mp refused).1)
    split
    · exact sound
    rename_i ino s' taken
    obtain ⟨range, unused, rfl⟩ := allocInodeSpec taken
    have others : ∀ j, j ≠ ino →
        ((s.setUsed ino true).setInode ino ⟨.reg, 1, []⟩).inodes j = s.inodes j :=
      fun j differs => Function.update_of_ne differs _ _
    have self : ((s.setUsed ino true).setInode ino ⟨.reg, 1, []⟩).inodes ino = ⟨.reg, 1, []⟩ :=
      Function.update_self ..
    split
    · exact sound.giveBack range unused rfl others (by rw [self]; decide) fun _ _ => rfl
    · rename_i s' dir' done
      exact sound.newFile range unused rfl (by rw [self]; decide) (by rw [self]) others rfl here
        (pathPlain path) done

theorem removeMissing {d : Nat} {dir : Inode} {name : Str} (mode : dir.mode = .dir)
    (missing : lookup geo s d dir name = none) (same : t.dirs = s.dirs) :
    removeDirent geo t d dir name = none := by
  have none' : (slots geo t d dir).find? (hasName name) = none := by
    unfold lookup at missing
    rw [if_neg (not_not_intro mode)] at missing
    unfold slots
    rw [same]
    exact Option.map_eq_none_iff.mp missing
  unfold removeDirent
  rw [if_neg (not_not_intro mode)]
  cases done : replaceFirst (hasName name) unusedEntry (slots geo t d dir) with
  | none => rfl
  | some l =>
    obtain ⟨_, _, _, _, _, _, found⟩ := replaceFirstSome done
    rw [none'] at found
    cases found

theorem symlinkSound (sound : Sound geo s) (length : Nat) (path : FsPath) :
    Sound geo (symlink geo s length path).2 := by
  unfold symlink
  dsimp only
  split
  · exact sound
  split
  · exact sound
  rename_i parent dir looked
  obtain ⟨here, rfl⟩ := directoryFound sound.toFormed (parentPlain path) looked
  split <;> rename_i refused
  · exact sound
  have missing : lookup geo s parent (s.inodes parent) (lastName path) = none := by
    cases found : lookup geo s parent (s.inodes parent) (lastName path) with
    | none => rfl
    | some i => exact absurd (.inl (by rw [found]; rfl)) refused
  split
  · exact sound
  rename_i ino s' taken
  obtain ⟨range, unused, rfl⟩ := allocInodeSpec taken
  have others : ∀ (inode : Inode) (j), j ≠ ino →
      Function.update s.inodes ino inode j = s.inodes j :=
    fun inode j differs => Function.update_of_ne differs _ _
  split
  · exact sound.giveBack range unused rfl (others _)
      (by unfold Fs.setInode; dsimp only; rw [Function.update_self]; decide) fun _ _ => rfl
  rename_i zones cut written
  have kept : Beside ((s.setUsed ino true).setInode ino ⟨.lnk, 1, []⟩) cut := by
    split at written
    · cases written
      exact ⟨rfl, rfl, rfl⟩
    · obtain ⟨⟨zone, after⟩, took, same⟩ := Option.map_eq_some_iff.mp written
      cases same
      exact allocZoneBeside took
  have inodes : (cut.setInode ino ⟨.lnk, 1, zones⟩).inodes =
      Function.update s.inodes ino ⟨.lnk, 1, zones⟩ := by
    change Function.update cut.inodes ino _ = _
    rw [kept.inodes]
    exact Function.update_idem _ _ _
  have self : (cut.setInode ino ⟨.lnk, 1, zones⟩).inodes ino = ⟨.lnk, 1, zones⟩ :=
    Function.update_self ..
  rw [writeInRange range]
  split
  · rw [removeMissing here.2.2 missing (t := cut.setInode ino ⟨.lnk, 1, zones⟩) kept.dirs,
      Option.getD_none]
    exact sound.giveBack range unused kept.used (inodes ▸ others _)
      (by rw [self]; exact (by decide : 1 < 2 ^ 16)) fun d _ => congrFun kept.dirs d
  · rename_i s' dir' done
    exact sound.newFile (m := cut.setInode ino ⟨.lnk, 1, zones⟩) range unused kept.used
      (by rw [self]; exact nofun) (by rw [self]) (inodes ▸ others _) kept.dirs here (lastPlain path) done

theorem firstLength (geo : Geometry) (d parent : Nat) :
    (firstBlock d parent (geo.perBlock - 2)).length = geo.perBlock := by
  have sized := perBlockPos geo
  unfold firstBlock
  rw [List.length_cons, List.length_cons, List.length_replicate]
  omega

theorem Sound.newDir (sound : Sound geo s) {ino p zone : Nat} {name : Str} {dir : Inode}
    (range : InRange geo ino) (unused : s.used ino = false)
    (used : m.used = Function.update s.used ino true) (new : m.inodes ino = ⟨.dir, 2, [zone]⟩)
    (others : ∀ j, j ≠ ino → m.inodes j = s.inodes j)
    (dirs : m.dirs = Function.update s.dirs ino (firstBlock ino p (geo.perBlock - 2)))
    (here : IsDir geo s p) (room : (s.inodes p).nlinks < 65535) (plain : Plain name)
    (done : addDirent geo m p (s.inodes p) name ino = some (t, dir)) :
    Sound geo (writeInode geo t p dir.more) := by
  have differs : p ≠ ino := by
    rintro rfl
    exact absurd (here.2.1.symm.trans unused) (by decide)
  have dirsP : m.dirs p = s.dirs p := by rw [dirs, Function.update_of_ne differs]
  have whole : Whole geo m p (s.inodes p) :=
    ⟨Nat.ne_of_gt here.1.1, here.2.2, dirsP ▸ sound.shaped p here, dirsP ▸ sound.filled p here⟩
  obtain ⟨l, added⟩ := addSpec whole plain (Nat.ne_of_gt range.1) done
  obtain ⟨formed, links⟩ := sound.toFormed.mkdir here range unused used (by rw [new]) others dirs
    rfl added
  have usedP : t.used p = true := by
    rw [added.used, used, Function.update_of_ne differs]
    exact here.2.1
  have modeP : (t.inodes p).mode = .dir := by
    rw [added.inodes, others p differs]
    exact here.2.2
  have usedBut : ∀ j, j ≠ ino → t.used j = s.used j := fun j away => by
    rw [added.used, used, Function.update_of_ne away]
  have inodesBut : ∀ j, j ≠ ino → t.inodes j = s.inodes j := fun j away => by
    rw [added.inodes, others j away]
  have pending : Pending geo t (graph geo t).links [p] := by
    refine ⟨formed, fun d away dir => ?_, fun j away inside inUse => ?_, fun _ => rfl, fun j => ?_⟩
    · rw [List.mem_singleton] at away
      rw [added.entries, Function.update_of_ne away, dirs]
      by_cases same : d = ino
      · rw [same, Function.update_self, firstLength, added.inodes, new]
        exact (Nat.one_mul _).symm
      · rw [Function.update_of_ne same, inodesBut d same]
        exact sound.filled d ⟨dir.1, usedBut d same ▸ dir.2.1, inodesBut d same ▸ dir.2.2⟩
    · rw [List.mem_singleton] at away
      rw [links j, if_neg away]
      by_cases same : j = ino
      · rw [same, added.inodes, new, if_pos rfl, sound.toFormed.unusedLinks unused]
      · rw [inodesBut j same, if_neg same]
        exact sound.links j inside (usedBut j same ▸ inUse)
    · by_cases same : j = ino
      · rw [same, added.inodes, new]
        exact (by decide : 2 < 2 ^ 16)
      · rw [inodesBut j same]
        exact sound.narrow j
  refine (pending.write here.1 ?_ (moreNarrow dir) fun _ => ⟨fun _ => ?_, ?_⟩).sound
  · rw [moreMode, added.mode, modeP]
  · rw [moreZones, added.entries, Function.update_self]
    exact added.filled
  · rw [moreLinks (added.nlinks ▸ room), added.nlinks, links, if_neg differs, if_pos rfl,
      sound.links p here.1 here.2.1, Nat.add_zero]

theorem mkdirSound (sound : Sound geo s) {path : FsPath}
    (room : ∀ found, lookupDirectory geo s path.parent = some found → found.2.nlinks < 65535) :
    Sound geo (mkdir geo s path).2 := by
  unfold mkdir
  dsimp only
  split
  · exact sound
  split
  · exact sound
  rename_i parent dir looked
  have small : dir.nlinks < 65535 := room _ looked
  obtain ⟨here, rfl⟩ := directoryFound sound.toFormed (parentPlain path) looked
  split
  · exact sound
  split
  · exact sound
  rename_i ino s' taken
  obtain ⟨range, unused, rfl⟩ := allocInodeSpec taken
  have others : ∀ (inode : Inode) (j), j ≠ ino →
      Function.update s.inodes ino inode j = s.inodes j :=
    fun inode j differs => Function.update_of_ne differs _ _
  split
  · exact sound.giveBack range unused rfl (others _)
      (by unfold Fs.setInode; dsimp only; rw [Function.update_self]; decide) fun _ _ => rfl
  rename_i zone cut took
  have kept := allocZoneBeside took
  generalize made : writeInode geo (cut.setDir ino _) ino ⟨.dir, 2, [zone]⟩ = m
  rw [writeInRange range] at made
  have used : m.used = Function.update s.used ino true := by
    rw [← made]
    exact kept.used
  have inodes : m.inodes = Function.update s.inodes ino ⟨.dir, 2, [zone]⟩ := by
    rw [← made]
    change Function.update cut.inodes ino _ = _
    rw [kept.inodes]
    exact Function.update_idem _ _ _
  have dirs : m.dirs = Function.update s.dirs ino (firstBlock ino parent (geo.perBlock - 2)) := by
    rw [← made]
    change Function.update cut.dirs ino _ = _
    rw [kept.dirs]
    rfl
  have new : m.inodes ino = ⟨.dir, 2, [zone]⟩ := by rw [inodes, Function.update_self]
  split
  · have freed : Beside m (freeZone geo m zone) := zonesBeside [zone]
    refine sound.giveBack range unused (freed.used.trans used) (freed.inodes ▸ inodes ▸ others _)
      ?_ fun d away => ?_
    · rw [freed.inodes, new]
      exact (by decide : 2 < 2 ^ 16)
    · rw [freed.dirs, dirs, Function.update_of_ne away]
  · rename_i s' dir' done
    exact sound.newDir range unused used new (inodes ▸ others _) dirs here small (lastPlain path) done

theorem emptyNamed (sound : Sound geo s) {d : Nat} (dir : IsDir geo s d)
    (empty : dirEmpty geo s d (s.inodes d) = true) : (graph geo s).named d = 0 := by
  refine Multiset.eq_zero_of_forall_notMem fun i member => ?_
  obtain ⟨e, inside, rfl⟩ := memNamed.mp member
  obtain ⟨later, some'⟩ := memProper.mp inside
  unfold dirEmpty at empty
  have whole : slots geo s d (s.inodes d) = s.dirs d :=
    List.take_of_length_le (Nat.le_of_eq (sound.filled d dir))
  rw [whole, List.all_eq_true] at empty
  have holds := of_decide_eq_true (empty e (List.mem_of_mem_drop later))
  obtain ⟨up, others, same, -, plain⟩ := sound.shaped d dir
  rw [same] at later
  obtain ⟨one, two⟩ := plain e later some'
  rcases holds with none' | dot | dotdot
  · exact some' none'
  · exact one dot
  · exact two dotdot

theorem freeDirSpec {d : Nat} (range : InRange geo d) (dir : Inode) :
    (freeDir geo s d dir).inodes = s.inodes ∧
      (freeDir geo s d dir).used = Function.update s.used d false ∧
      (freeDir geo s d dir).dirs = s.dirs := by
  have kept : Beside s ((dir.zones.take DIRECT_ZONES).foldl (freeZone geo) s) := zonesBeside _
  unfold freeDir
  rw [freeInRange range]
  refine ⟨kept.inodes, ?_, kept.dirs⟩
  change Function.update ((dir.zones.take DIRECT_ZONES).foldl (freeZone geo) s).used d false = _
  rw [kept.used]

theorem rmdirSound (sound : Sound geo s) (path : FsPath) : Sound geo (rmdir geo s path).2 := by
  unfold rmdir
  dsimp only
  split
  · exact sound
  rename_i parent dir looked
  obtain ⟨here, rfl⟩ := directoryFound sound.toFormed (parentPlain path) looked
  split
  · exact sound
  rename_i ino found
  obtain ⟨name, range, used⟩ := lookupNamed sound.toFormed here (lastPlain path) found
  obtain ⟨-, e, first, rfl⟩ := lookupEntry found
  split
  · exact sound
  rename_i inode read
  obtain ⟨-, rfl⟩ := readInRange read
  split <;> rename_i refused
  · exact sound
  have mine : IsDir geo s e.inode := ⟨range, used, not_not.mp refused⟩
  split <;> rename_i filled
  · exact sound
  have empty : dirEmpty geo s e.inode (s.inodes e.inode) = true := by
    cases result : dirEmpty geo s e.inode (s.inodes e.inode) with
    | false => exact absurd (by rw [result]; rfl) filled
    | true => rfl
  have none' := emptyNamed sound mine empty
  have differs : parent ≠ e.inode := fun same => by
    rw [same, none'] at name
    exact Multiset.notMem_zero _ name
  obtain ⟨l, removed, lost, length, -⟩ := removeSpec (sound.whole here).some' here.2.2
    (sound.shaped parent here) (lastPlain path) first
  obtain ⟨inodes, inUse, dirs⟩ := freeDirSpec (s := s) range (s.inodes e.inode)
  generalize freeDir geo s e.inode (s.inodes e.inode) = cut at inodes inUse dirs ⊢
  rw [removed cut dirs, Option.getD_some]
  have after : (cut.setDir parent l).dirs = Function.update s.dirs parent l := by
    change Function.update cut.dirs parent l = _
    rw [dirs]
  obtain ⟨formed, links⟩ := sound.toFormed.rmdir (t := cut.setDir parent l) here mine none' lost
    inUse inodes after
  have before : ∀ j, (cut.setDir parent l).used j = true → j ≠ e.inode ∧ s.used j = true := by
    intro j was
    change cut.used j = true at was
    rw [inUse] at was
    by_cases same : j = e.inode
    · rw [same, Function.update_self] at was
      cases was
    · rw [Function.update_of_ne same] at was
      exact ⟨same, was⟩
  have kept : ∀ j, (cut.setDir parent l).inodes j = s.inodes j := congrFun inodes
  have pending : Pending geo (cut.setDir parent l) (graph geo (cut.setDir parent l)).links
      [parent] := by
    refine ⟨formed, fun d away dir => ?_, fun j away inside was => ?_, fun _ => rfl, fun j => ?_⟩
    · rw [List.mem_singleton] at away
      rw [after, Function.update_of_ne away, kept]
      exact sound.filled d ⟨dir.1, (before d dir.2.1).2, kept d ▸ dir.2.2⟩
    · rw [List.mem_singleton] at away
      obtain ⟨other, inUse⟩ := before j was
      have count := links j
      rw [if_neg other, if_neg away] at count
      rw [kept, sound.links j inside inUse]
      exact count.symm
    · rw [kept]
      exact sound.narrow j
  have count := links parent
  rw [if_neg differs, if_pos rfl, ← sound.links parent here.1 here.2.1] at count
  refine (pending.write here.1 ?_ (lessNarrow _) fun _ => ⟨fun _ => ?_, ?_⟩).sound
  · rw [lessMode, kept]
  · rw [lessZones, after, Function.update_self, length]
    exact sound.filled parent here
  · rw [lessLinks (by omega) (sound.narrow parent)]
    omega

/-! ## Rename -/

theorem Pending.renamed {p q i : Nat} {oldDir newDir inode : Inode}
    (pending : Pending geo t n [p, q]) (here : IsDir geo t p) (into : IsDir geo t q)
    (oldMode : oldDir.mode = .dir) (newMode : newDir.mode = .dir)
    (oldSmall : oldDir.nlinks < 2 ^ 16) (newSmall : newDir.nlinks < 2 ^ 16)
    (old : p ≠ q → (t.dirs p).length = oldDir.zones.length * geo.perBlock ∧ oldDir.nlinks = n p)
    (new : (t.dirs q).length = newDir.zones.length * geo.perBlock ∧ newDir.nlinks = n q)
    (range : InRange geo i) (used : t.used i = true) (one : i ≠ p) (two : i ≠ q)
    (same : inode = t.inodes i) :
    Sound geo (writeInode geo (writeInode geo (writeInode geo t p oldDir) q newDir) i inode) := by
  have first : Pending geo (writeInode geo t p oldDir) n [q] :=
    pending.write here.1 (oldMode.trans here.2.2.symm) oldSmall fun away =>
      have apart : p ≠ q := fun same => away (List.mem_singleton.mpr same)
      ⟨fun _ => (old apart).1, (old apart).2⟩
  rw [writeInRange here.1] at first ⊢
  have kept : ((t.setInode p oldDir).inodes q).mode = .dir := by
    unfold Fs.setInode
    dsimp only
    by_cases same : q = p
    · rw [same, Function.update_self]
      exact oldMode
    · rw [Function.update_of_ne same]
      exact into.2.2
  have second : Pending geo (writeInode geo (t.setInode p oldDir) q newDir) n [] :=
    first.write into.1 (newMode.trans kept.symm) newSmall fun _ => ⟨fun _ => new.1, new.2⟩
  rw [writeInRange into.1] at second ⊢
  refine (second.again range used ?_).sound
  unfold Fs.setInode
  dsimp only
  rw [Function.update_of_ne two, Function.update_of_ne one, same]

structure Ready (geo : Geometry) (s : Fs) (p q : Nat) (oldName newName : Str) (e : Dirent) :
    Prop where
  sound : Sound geo s
  here : IsDir geo s p
  into : IsDir geo s q
  first : (s.dirs p).find? (hasName oldName) = some e
  range : InRange geo e.inode
  used : s.used e.inode = true
  apart : p = q → oldName.take NAME_LEN ≠ newName
  above : (s.inodes e.inode).mode = .dir → ∀ k, (parentOf s)^[k] q ≠ e.inode
  room : (s.inodes e.inode).mode = .dir → p ≠ q → (s.inodes q).nlinks < 65535

theorem Ready.changed {p q : Nat} {oldName newName : Str} {e : Dirent} {dir : Inode}
    (ready : Ready geo s p q oldName newName e) (plainOld : Plain oldName)
    (plainNew : Plain newName)
    (done : addDirent geo s q (s.inodes q) newName e.inode = some (m, dir)) :
    ∃ l l', Added geo s m q (s.inodes q) dir ⟨e.inode, newName⟩ l ∧
      removeDirent geo m p (s.inodes p) oldName = some (m.setDir p l') ∧
      Lost p (m.dirs p) l' e ∧ l'.length = (m.dirs p).length := by
  obtain ⟨sound, here, into, first, range, -, apart, -, -⟩ := ready
  obtain ⟨l, added⟩ := addSpec (sound.whole into) plainNew (Nat.ne_of_gt range.1) done
  have listed := sound.toListed
  have shaped : Shaped p (m.dirs p) := by
    rw [added.entries]
    by_cases same : p = q
    · rw [same, Function.update_self]
      exact added.gained.shaped
    · rw [Function.update_of_ne same]
      exact listed.shaped p here
  have found : (slots geo m p (s.inodes p)).find? (hasName oldName) = some e := by
    unfold slots
    rw [← sound.filled p here, added.entries]
    by_cases same : p = q
    · subst same
      rw [Function.update_self, added.others oldName (apart rfl)]
      exact first
    · rw [Function.update_of_ne same, List.take_length]
      exact first
  obtain ⟨l', removed, lost, length, -⟩ :=
    removeSpec (sound.whole here).some' here.2.2 shaped plainOld found
  exact ⟨l, l', added, removed m rfl, lost, length⟩

theorem renamedLengths {p q : Nat} {dir : Inode} {e : Dirent} {l l' : List Dirent}
    (sound : Sound geo s) (here : IsDir geo s p) (added : Added geo s m q (s.inodes q) dir e l)
    (length : l'.length = (m.dirs p).length) :
    (p ≠ q → ((m.setDir p l').dirs p).length = (s.inodes p).zones.length * geo.perBlock) ∧
      ((m.setDir p l').dirs q).length = dir.zones.length * geo.perBlock := by
  unfold Fs.setDir
  dsimp only
  refine ⟨fun apart => ?_, ?_⟩
  · rw [Function.update_self, length, added.entries, Function.update_of_ne apart]
    exact sound.filled p here
  · by_cases same : q = p
    · subst same
      rw [Function.update_self, length, added.entries, Function.update_self, added.filled]
    · rw [Function.update_of_ne same, added.entries, Function.update_self, added.filled]

theorem Ready.file {p q : Nat} {oldName newName : Str} {e : Dirent} {dir : Inode}
    {l l' : List Dirent} (ready : Ready geo s p q oldName newName e)
    (mode : (s.inodes e.inode).mode ≠ .dir)
    (added : Added geo s m q (s.inodes q) dir ⟨e.inode, newName⟩ l)
    (lost : Lost p (m.dirs p) l' e) (length : l'.length = (m.dirs p).length) :
    Sound geo (writeInode geo (writeInode geo (writeInode geo (m.setDir p l') p (s.inodes p))
      q dir) e.inode (s.inodes e.inode)) := by
  obtain ⟨sound, here, into, -, range, used, -, -, -⟩ := ready
  have file : ¬IsDir geo s e.inode := fun isDir => mode isDir.2.2
  have kept : ∀ d, IsDir geo m d ↔ IsDir geo s d := dirKept added.used added.inodes
  have gained := sound.pending.gain (e := ⟨e.inode, newName⟩) into range used file added
  have swapped := gained.lose ((kept p).mpr here) (fun isDir => file ((kept _).mp isDir)) lost length
  have right : ((m.setDir p l').inodes e.inode).nlinks =
      (graph geo s).links e.inode + (if e.inode = e.inode then 1 else 0) -
        if e.inode = e.inode then 1 else 0 := by
    change (m.inodes e.inode).nlinks = _
    rw [added.inodes, if_pos rfl, Nat.add_sub_cancel]
    exact sound.links e.inode range used
  have notDir : IsDir geo (m.setDir p l') e.inode → False := fun isDir => file ((kept _).mp isDir)
  have pending := (((swapped.settle (fun isDir => absurd isDir notDir) right).settle
    (fun isDir => absurd isDir notDir) right).more p)
  have countOf : ∀ d, IsDir geo s d → (s.inodes d).nlinks =
      (graph geo s).links d + (if d = e.inode then 1 else 0) - if d = e.inode then 1 else 0 := by
    intro d isDir
    rw [Nat.add_sub_cancel]
    exact sound.links d isDir.1 isDir.2.1
  obtain ⟨old, new⟩ := renamedLengths sound here added length
  exact pending.renamed ((kept p).mpr here) ((kept q).mpr into) here.2.2 added.mode (sound.narrow p)
    (added.nlinks ▸ sound.narrow q) (fun apart => ⟨old apart, countOf p here⟩)
    ⟨new, added.nlinks.trans (countOf q into)⟩ range (added.used.symm ▸ used)
    (fun same => file (same ▸ here)) (fun same => file (same ▸ into)) (by
      change s.inodes e.inode = m.inodes e.inode
      rw [added.inodes])

theorem reparentLength (q : Nat) (l : List Dirent) : (reparent q l).length = l.length := by
  unfold reparent
  split <;> rfl

theorem Ready.move {p q : Nat} {oldName newName : Str} {e : Dirent} {dir : Inode}
    {l l' : List Dirent} (ready : Ready geo s p q oldName newName e)
    (plain : Plain oldName) (mode : (s.inodes e.inode).mode = .dir)
    (added : Added geo s m q (s.inodes q) dir ⟨e.inode, newName⟩ l)
    (lost : Lost p (m.dirs p) l' e)
    (result : p = q ∧ t = m.setDir p l' ∨
      t = (m.setDir p l').setDir e.inode (reparent q ((m.setDir p l').dirs e.inode))) :
    Pending geo t (graph geo t).links [p, q] ∧ ∀ j,
      (graph geo t).links j + (if j = p then 1 else 0) =
        (graph geo s).links j + if j = q then 1 else 0 := by
  obtain ⟨sound, here, into, first, range, used, -, above, -⟩ := ready
  have mine : IsDir geo s e.inode := ⟨range, used, mode⟩
  have found : (slots geo s p (s.inodes p)).find? (hasName oldName) = some e := by
    unfold slots
    rw [← sound.filled p here, List.take_length]
    exact first
  have name : e.inode ∈ (graph geo s).named p :=
    memNamed.mpr ⟨e, foundProper (sound.shaped p here) plain found, rfl⟩
  obtain ⟨formed, links⟩ := sound.toFormed.move (e := ⟨e.inode, newName⟩) mine here into added
    lost rfl name (above mode) result
  have inodes : t.inodes = s.inodes := by
    rcases result with ⟨-, rfl⟩ | rfl
    · exact added.inodes
    · exact added.inodes
  have inUse : t.used = s.used := by
    rcases result with ⟨-, rfl⟩ | rfl
    · exact added.used
    · exact added.used
  have lengths : ∀ d, d ≠ p → d ≠ q → (t.dirs d).length = (s.dirs d).length := by
    intro d one two
    have before : (m.setDir p l').dirs d = s.dirs d := by
      unfold Fs.setDir
      dsimp only
      rw [Function.update_of_ne one, added.entries, Function.update_of_ne two]
    rcases result with ⟨-, rfl⟩ | rfl
    · rw [before]
    · change (Function.update (m.setDir p l').dirs e.inode _ d).length = _
      by_cases same : d = e.inode
      · rw [same, Function.update_self, reparentLength, ← same, before]
      · rw [Function.update_of_ne same, before]
  refine ⟨⟨formed, fun d away isDir => ?_, fun j away inside was => ?_, fun _ => rfl, fun j => ?_⟩,
    links⟩
  · simp only [List.mem_cons, not_or] at away
    rw [lengths d away.1 away.2.1, inodes]
    exact sound.filled d ((dirKept inUse inodes d).mp isDir)
  · simp only [List.mem_cons, not_or] at away
    have count := links j
    rw [if_neg away.1, if_neg away.2.1] at count
    rw [inodes, sound.links j inside (inUse ▸ was)]
    exact count.symm
  · rw [inodes]
    exact sound.narrow j

theorem Sound.zonesSome (sound : Sound geo s) {d : Nat} (dir : IsDir geo s d) :
    (s.inodes d).zones ≠ [] := by
  intro none'
  have filled := sound.filled d dir
  obtain ⟨up, later, same, -, -⟩ := sound.shaped d dir
  rw [none', same, List.length_nil, Nat.zero_mul] at filled
  cases filled

theorem Ready.apartDir {p q : Nat} {oldName newName : Str} {e : Dirent}
    (ready : Ready geo s p q oldName newName e) (plain : Plain oldName)
    (mode : (s.inodes e.inode).mode = .dir) : e.inode ≠ p ∧ e.inode ≠ q := by
  obtain ⟨sound, here, into, first, range, used, -, above, -⟩ := ready
  have mine : IsDir geo s e.inode := ⟨range, used, mode⟩
  have found : (slots geo s p (s.inodes p)).find? (hasName oldName) = some e := by
    unfold slots
    rw [← sound.filled p here, List.take_length]
    exact first
  have name : e.inode ∈ (graph geo s).named p :=
    memNamed.mpr ⟨e, foundProper (sound.shaped p here) plain found, rfl⟩
  obtain ⟨away, up⟩ := sound.rooted.namedIn (memDirs.mpr here) (memDirs.mpr mine) name
  refine ⟨fun same => ?_, fun same => above mode 0 same.symm⟩
  exact sound.rooted.parentOther (memDirs.mpr mine) away (up.trans same.symm)

theorem Ready.dir {p q : Nat} {oldName newName : Str} {e : Dirent} {dir : Inode}
    {l l' : List Dirent} (ready : Ready geo s p q oldName newName e)
    (plain : Plain oldName) (mode : (s.inodes e.inode).mode = .dir)
    (added : Added geo s m q (s.inodes q) dir ⟨e.inode, newName⟩ l)
    (lost : Lost p (m.dirs p) l' e) (length : l'.length = (m.dirs p).length) :
    Sound geo (writeInode geo (writeInode geo (writeInode geo
      (if p ≠ q then updateDotdot (m.setDir p l') e.inode q else m.setDir p l') p
        (if p ≠ q then (s.inodes p).less else s.inodes p))
      q (if p ≠ q then dir.more else dir)) e.inode (s.inodes e.inode)) := by
  obtain ⟨one, two⟩ := ready.apartDir plain mode
  have moved := fun t => ready.move (t := t) plain mode added lost
  obtain ⟨sound, here, into, -, range, used, -, -, room⟩ := ready
  obtain ⟨old, new⟩ := renamedLengths sound here added length
  have kept : ∀ d, IsDir geo m d ↔ IsDir geo s d := dirKept added.used added.inodes
  have oldLinks := sound.links p here.1 here.2.1
  have newLinks := sound.links q into.1 into.2.1
  have target : s.inodes e.inode = m.inodes e.inode := by rw [added.inodes]
  by_cases same : p = q
  · obtain ⟨pending, links⟩ := moved (m.setDir p l') (.inl ⟨same, rfl⟩)
    have count := links q
    rw [same, if_pos rfl] at count
    simp only [ne_eq, same, not_true_eq_false, if_false]
    rw [same] at pending new here
    refine pending.renamed ((kept q).mpr into) ((kept q).mpr into) here.2.2 added.mode
      (sound.narrow q) (added.nlinks ▸ sound.narrow q) (fun apart => absurd rfl apart)
      ⟨new, ?_⟩ range (added.used.symm ▸ used) two two target
    rw [added.nlinks, newLinks]
    omega
  · have block : (m.setDir p l').dirs e.inode = s.dirs e.inode := by
      unfold Fs.setDir
      dsimp only
      rw [Function.update_of_ne one, added.entries, Function.update_of_ne two]
    have shaped : Shaped e.inode ((m.setDir p l').dirs e.inode) :=
      block ▸ sound.shaped e.inode ⟨range, used, mode⟩
    have zones : ((m.setDir p l').inodes e.inode).zones ≠ [] :=
      target ▸ sound.zonesSome ⟨range, used, mode⟩
    obtain ⟨pending, links⟩ := moved _ (.inr rfl)
    have small := room mode same
    have countP := links p
    have countQ := links q
    rw [if_pos rfl, if_neg same, ← oldLinks] at countP
    rw [if_neg (Ne.symm same), if_pos rfl, ← newLinks] at countQ
    rw [if_pos same, if_pos same, if_pos same, dotdotUpdated shaped zones]
    refine pending.renamed ((kept p).mpr here) ((kept q).mpr into) ((lessMode _).trans here.2.2)
      ((moreMode _).trans added.mode) (lessNarrow _) (moreNarrow _) (fun apart => ⟨?_, ?_⟩)
      ⟨?_, ?_⟩ range (added.used.symm ▸ used) one two target
    · rw [lessZones, ← old apart]
      exact congrArg List.length (Function.update_of_ne one.symm _ _)
    · rw [lessLinks (by omega) (sound.narrow p)]
      omega
    · rw [moreZones, ← new]
      exact congrArg List.length (Function.update_of_ne two.symm _ _)
    · rw [moreLinks (added.nlinks ▸ small), added.nlinks]
      omega

/-! ## What rename must not meet -/

def above (geo : Geometry) (s : Fs) (d : Nat) : List Nat :=
  (List.range geo.sNinodes).map fun k => (parentOf s)^[k] d

def Refused (geo : Geometry) (s : Fs) (existing : Nat) : Prop :=
  (s.inodes existing).mode = .dir ∧ dirEmpty geo s existing (s.inodes existing) = false
instance (geo s existing) : Decidable (Refused geo s existing) := by
  unfold Refused; infer_instance

def Replaceable (s : Fs) (target existing : Nat) : Prop :=
  existing ≠ target ∧ (s.inodes existing).mode ≠ .dir ∧ (s.inodes existing).nlinks = 1
instance (s target existing) : Decidable (Replaceable s target existing) := by
  unfold Replaceable; infer_instance

def Movable (geo : Geometry) (s : Fs) (target p : Nat) (q : Nat × Inode) : Prop :=
  (s.inodes target).mode = .dir → target ∉ above geo s q.1 ∧ (p ≠ q.1 → q.2.nlinks < 65535)
instance (geo s target p q) : Decidable (Movable geo s target p q) := by
  unfold Movable; infer_instance

def RenameClean (geo : Geometry) (s : Fs) (old new : FsPath) : Prop :=
  ∀ p ∈ lookupDirectory geo s old.parent, ∀ q ∈ lookupDirectory geo s new.parent,
    ∀ target ∈ lookup geo s p.1 p.2 (lastName old),
      (∃ existing ∈ lookup geo s q.1 q.2 (lastName new), Refused geo s existing) ∨
      (∀ existing ∈ lookup geo s q.1 q.2 (lastName new), Replaceable s target existing) ∧
        Movable geo s target p.1 q
instance (geo s old new) : Decidable (RenameClean geo s old new) := by
  unfold RenameClean; infer_instance

def Clean (geo : Geometry) (s : Fs) : Action → Prop
  | .link old _ => ∀ found ∈ openFile geo s old, found.2.nlinks < 65535
  | .mkdir path => ∀ found ∈ lookupDirectory geo s path.parent, found.2.nlinks < 65535
  | .rename old new => RenameClean geo s old new
  | _ => True
instance (geo s a) : Decidable (Clean geo s a) := by
  cases a <;> unfold Clean <;> infer_instance

theorem neverAbove (formed : Formed geo s) {q d : Nat} (into : IsDir geo s q) (away : d ≠ ROOT_INO)
    (apart : d ∉ above geo s q) (k : Nat) : (parentOf s)^[k] q ≠ d := by
  have few : (graph geo s).dirs.card ≤ geo.sNinodes := by
    have inside : (graph geo s).dirs ⊆ Finset.Icc 1 geo.sNinodes := fun x member =>
      Finset.mem_Icc.mpr (memDirs.mp member).1
    have card := Finset.card_le_card inside
    rw [Nat.card_Icc] at card
    omega
  refine formed.rooted.never (memDirs.mpr into) away (fun j less same => apart ?_) k
  exact List.mem_map.mpr ⟨j, List.mem_range.mpr (Nat.lt_of_lt_of_le less few), same⟩

theorem lastShort (path : FsPath) : (lastName path).take NAME_LEN = lastName path := by
  unfold lastName
  rw [List.take_take]
  rfl

theorem replaceReady (sound : Sound geo s) {p q : Nat} {old new : FsPath} {e : Dirent}
    (here : IsDir geo s p) (into : IsDir geo s q)
    (first : (slots geo s p (s.inodes p)).find? (hasName (lastName old)) = some e)
    (clean : ∀ existing ∈ lookup geo s q (s.inodes q) (lastName new),
      Replaceable s e.inode existing)
    (movable : Movable geo s e.inode p (q, s.inodes q))
    (done : replace geo s q (s.inodes q) (lastName new) = some t) :
    Ready geo t p q (lastName old) (lastName new) e ∧ t.inodes = s.inodes := by
  have whole : slots geo s p (s.inodes p) = s.dirs p :=
    List.take_of_length_le (Nat.le_of_eq (sound.filled p here))
  have member := foundProper (sound.shaped p here) (lastPlain old) first
  obtain ⟨range, used⟩ := sound.valid p here e member
  have name : e.inode ∈ (graph geo s).named p := memNamed.mpr ⟨e, member, rfl⟩
  have room : (s.inodes e.inode).mode = .dir → ∀ k, (parentOf s)^[k] q ≠ e.inode := by
    intro mode
    obtain ⟨away, -⟩ := sound.rooted.namedIn (memDirs.mpr here) (memDirs.mpr ⟨range, used, mode⟩)
      name
    exact neverAbove sound.toFormed into away (movable mode).1
  have apart : ∀ f : Dirent, (s.dirs q).find? (hasName (lastName new)) = some f →
      f.inode ≠ e.inode → p = q → (lastName old).take NAME_LEN ≠ lastName new := by
    rintro f found differs rfl same
    have named : hasName (lastName old) = hasName (lastName new) := by
      funext x
      unfold hasName
      rw [same, lastShort]
    rw [whole, named, found] at first
    exact differs (congrArg Dirent.inode (Option.some.inj first))
  have wholeQ : slots geo s q (s.inodes q) = s.dirs q :=
    List.take_of_length_le (Nat.le_of_eq (sound.filled q into))
  rw [whole] at first
  unfold replace at done
  split at done
  · rename_i missing
    cases done
    refine ⟨⟨sound, here, into, first, range, used, ?_, room, fun mode => (movable mode).2⟩, rfl⟩
    rintro rfl same
    have named : hasName (lastName old) = hasName (lastName new) := by
      funext x
      unfold hasName
      rw [same, lastShort]
    unfold lookup at missing
    rw [if_neg (not_not_intro here.2.2), whole, ← named, first] at missing
    cases missing
  · rename_i existing looked
    obtain ⟨-, f, found, rfl⟩ := lookupEntry looked
    obtain ⟨differs, mode, one⟩ := clean f.inode looked
    have memberF := foundProper (sound.shaped q into) (lastPlain new) found
    obtain ⟨rangeF, usedF⟩ := sound.valid q into f memberF
    split at done
    · cases done
    rename_i inode read
    obtain ⟨-, rfl⟩ := readInRange read
    have kept : Beside s (truncateFile geo s (s.inodes f.inode)) := truncateBeside _
    rw [if_neg mode, Option.map_some, freeInRange rangeF] at done
    obtain ⟨l, removed, lost, length, others⟩ := removeSpec (sound.whole into).some' into.2.2
      (sound.shaped q into) (lastPlain new) found
    have file : ¬IsDir geo s f.inode := fun dir => mode dir.2.2
    have links := sound.links f.inode rangeF usedF
    have pending := sound.unlinkLast into file (links.symm.trans one) lost length kept
    generalize truncateFile geo s (s.inodes f.inode) = cut at kept done pending
    rw [removed (cut.setUsed f.inode false) kept.dirs, Option.getD_some] at done
    cases done
    have inodes : ((cut.setUsed f.inode false).setDir q l).inodes = s.inodes := kept.inodes
    have inUse : ∀ i, s.used i = true → i ≠ f.inode →
        ((cut.setUsed f.inode false).setDir q l).used i = true := fun i was other => by
      change Function.update cut.used f.inode false i = true
      rw [Function.update_of_ne other, kept.used, was]
    have isDir : ∀ d, IsDir geo s d → IsDir geo ((cut.setUsed f.inode false).setDir q l) d :=
      fun d dir => ⟨dir.1, inUse d dir.2.1 fun same => file (same ▸ dir), by
        rw [inodes]
        exact dir.2.2⟩
    have dirs : ((cut.setUsed f.inode false).setDir q l).dirs = Function.update s.dirs q l := by
      change Function.update cut.dirs q l = _
      rw [kept.dirs]
    have names := apart f (wholeQ ▸ found) differs
    refine ⟨⟨pending.sound, isDir p here, isDir q into, ?_, range, inUse _ used differs.symm, names,
      ?_, ?_⟩, inodes⟩
    · rw [dirs]
      by_cases same : p = q
      · subst same
        rw [Function.update_self, others _ (by rw [lastShort new]; exact names rfl)]
        exact first
      · rw [Function.update_of_ne same]
        exact first
    · rw [inodes, parentKept dirs lost.up]
      exact room
    · rw [inodes]
      exact fun isDir => (movable isDir).2

theorem replaceRefused {q existing : Nat} {dir : Inode} {name : Str}
    (looked : lookup geo s q dir name = some existing) (refused : Refused geo s existing) :
    replace geo s q dir name = none := by
  unfold replace
  rw [looked]
  dsimp only
  cases read : readInode geo s existing with
  | none => rfl
  | some inode =>
    obtain ⟨-, rfl⟩ := readInRange read
    dsimp only
    rw [if_pos refused.1, refused.2]
    rfl

theorem renameSound (sound : Sound geo s) {old new : FsPath} (clean : RenameClean geo s old new) :
    Sound geo (rename geo s old new).2 := by
  unfold rename
  dsimp only
  split
  case h_2 => exact sound
  rename_i p oldDir q newDir oldFound newFound
  have choice := clean _ oldFound _ newFound
  obtain ⟨here, rfl⟩ := directoryFound sound.toFormed (parentPlain old) oldFound
  obtain ⟨into, rfl⟩ := directoryFound sound.toFormed (parentPlain new) newFound
  split
  · exact sound
  rename_i target looked
  obtain ⟨-, e, first, rfl⟩ := lookupEntry looked
  split
  · exact sound
  rename_i inode read
  obtain ⟨-, rfl⟩ := readInRange read
  split
  · exact sound
  rename_i s' replaced
  rcases choice e.inode looked with ⟨existing, found, refused⟩ | ⟨files, movable⟩
  · rw [replaceRefused found refused] at replaced
    cases replaced
  obtain ⟨ready, inodes⟩ := replaceReady sound here into first files movable replaced
  rw [← inodes]
  split
  · exact ready.sound
  rename_i m dir done
  obtain ⟨l, l', added, removed, lost, length⟩ := ready.changed (lastPlain old) (lastPlain new) done
  rw [removed]
  dsimp only
  by_cases mode : (s'.inodes e.inode).mode = .dir
  · have moved := ready.dir (lastPlain old) mode added lost length
    simp only [mode, true_and]
    exact moved
  · have moved := ready.file mode added lost length
    simp only [mode, false_and, if_false]
    exact moved

theorem cleanSound (s : Fs) (a : Action) (t : Fs) (sound : Sound geo s) (clean : Clean geo s a)
    (taken : step geo s a = some t) : Sound geo t := by
  cases taken
  cases a with
  | create path trunc => exact createSound sound path trunc
  | mkdir path => exact mkdirSound sound clean
  | rmdir path => exact rmdirSound sound path
  | link old new => exact linkSound sound clean
  | unlink path => exact unlinkSound sound path
  | symlink length path => exact symlinkSound sound length path
  | rename old new => exact renameSound sound clean

theorem countEntries {d ino : Nat} (shaped : Shaped d (s.dirs d)) (some' : ino ≠ 0) :
    ((s.dirs d).countP fun e => e.inode = ino) =
      ((graph geo s).named d).count ino + (if d = ino then 1 else 0) +
        if (graph geo s).parent d = ino then 1 else 0 := by
  have named : ∀ l : List Dirent, ((l.filter fun e => !free e).map Dirent.inode).count ino =
      l.countP fun e => e.inode = ino := by
    intro l
    rw [List.count_eq_countP, List.countP_map, List.countP_filter]
    refine List.countP_congr fun e _ => ?_
    unfold free
    simp only [Function.comp_apply, beq_iff_eq, Bool.and_eq_true, Bool.not_eq_true',
      decide_eq_false_iff_not, decide_eq_true_eq]
    exact ⟨And.left, fun same => ⟨same, same ▸ some'⟩⟩
  obtain ⟨up, rest, same, -, -⟩ := shaped
  have parent : (graph geo s).parent d = up := by
    change parentOf s d = up
    unfold parentOf
    rw [same]
    rfl
  have others : ((graph geo s).named d).count ino = rest.countP fun e => e.inode = ino := by
    change Multiset.count ino (↑((proper (s.dirs d)).map Dirent.inode) : Multiset Nat) = _
    rw [Multiset.coe_count, same]
    exact named rest
  rw [others, parent, same, List.countP_cons, List.countP_cons]
  simp only [decide_eq_true_eq]
  omega

theorem Formed.referred (formed : Formed geo s) {ino : Nat} (range : InRange geo ino) :
    references geo s ino = (graph geo s).links ino := by
  have each : references geo s ino = ∑ d ∈ (graph geo s).dirs,
      (((graph geo s).named d).count ino + (if d = ino then 1 else 0) +
        if (graph geo s).parent d = ino then 1 else 0) :=
    Finset.sum_congr rfl fun d member =>
      countEntries (formed.shaped d (memDirs.mp member)) (Nat.ne_of_gt range.1)
  rw [each, Finset.sum_add_distrib, Finset.sum_add_distrib, Finset.sum_ite_eq']
  rfl

theorem Sound.treeRight (sound : Sound geo s) : TreeRight geo s := by
  refine ⟨sound.rooted, fun d dir e member some' => ?_, fun ino range used => ?_⟩
  · have up : parentOf s d ∈ (graph geo s).dirs := sound.rooted.parentIn (memDirs.mpr dir)
    obtain ⟨parent, rest, same, -, -⟩ := sound.shaped d dir
    have valid := sound.valid d dir
    unfold parentOf at up
    rw [same] at member up valid
    rcases List.mem_cons.mp member with rfl | later
    · exact ⟨dir.1, dir.2.1⟩
    rcases List.mem_cons.mp later with rfl | last
    · exact ⟨(memDirs.mp up).1, (memDirs.mp up).2.1⟩
    · exact valid e (memProper.mpr ⟨last, some'⟩)
  · rw [sound.toFormed.referred range]
    exact sound.links ino range used

def fresh (geo : Geometry) : Fs where
  inodes := Function.update (fun _ => ⟨.other, 0, []⟩) ROOT_INO ⟨.dir, 2, [geo.dataZoneStart]⟩
  used := Function.update (fun _ => false) ROOT_INO true
  zmap := Function.update (fun _ => false) 0 true
  dirs := Function.update (fun _ => []) ROOT_INO (firstBlock ROOT_INO ROOT_INO (geo.perBlock - 2))
  freed := []

theorem freshUsed {i : Nat} : (fresh geo).used i = true ↔ i = ROOT_INO := by
  unfold fresh
  dsimp only
  by_cases same : i = ROOT_INO
  · rw [same, Function.update_self]
    exact ⟨fun _ => rfl, fun _ => rfl⟩
  · rw [Function.update_of_ne same]
    exact ⟨nofun, fun root => absurd root same⟩

theorem freshSound (some' : 0 < geo.sNinodes) : Sound geo (fresh geo) := by
  have block : (fresh geo).dirs ROOT_INO = firstBlock ROOT_INO ROOT_INO (geo.perBlock - 2) := by
    unfold fresh
    dsimp only
    rw [Function.update_self]
  have inode : (fresh geo).inodes ROOT_INO = ⟨.dir, 2, [geo.dataZoneStart]⟩ := by
    unfold fresh
    dsimp only
    rw [Function.update_self]
  have root : IsDir geo (fresh geo) ROOT_INO :=
    ⟨⟨by decide, some'⟩, freshUsed.mpr rfl, by rw [inode]⟩
  have only : ∀ d, IsDir geo (fresh geo) d → d = ROOT_INO := fun d dir => freshUsed.mp dir.2.1
  have dirs : (graph geo (fresh geo)).dirs = {ROOT_INO} := by
    ext d
    rw [memDirs, Finset.mem_singleton]
    exact ⟨only d, fun same => same ▸ root⟩
  have named : (graph geo (fresh geo)).named ROOT_INO = 0 := by
    change (↑((proper ((fresh geo).dirs ROOT_INO)).map Dirent.inode) : Multiset Nat) = 0
    rw [block, firstProper]
    rfl
  have parent : (graph geo (fresh geo)).parent ROOT_INO = ROOT_INO := by
    change parentOf (fresh geo) ROOT_INO = ROOT_INO
    unfold parentOf
    rw [block]
    rfl
  have names : ∀ i, (graph geo (fresh geo)).names i = 0 := fun i => by
    unfold Hierarchy.names
    rw [dirs, Finset.sum_singleton, named, Multiset.count_zero]
  refine ⟨⟨⟨fun d dir => ?_, fun d dir e member => ?_⟩, ⟨?_, parent, names _, fun d member away => ?_,
    fun d member away => ?_, fun d member => ?_⟩⟩, fun d dir => ?_, fun i range used => ?_,
    fun i => ?_⟩
  · rw [only d dir, block]
    exact firstShaped ROOT_INO (by decide) _
  · rw [only d dir, block, firstProper] at member
    cases member
  · exact memDirs.mpr root
  · exact absurd (only d (memDirs.mp member)) away
  · exact absurd (only d (memDirs.mp member)) away
  · exact ⟨0, only d (memDirs.mp member)⟩
  · rw [only d dir, block, inode, firstLength]
    exact (Nat.one_mul _).symm
  · rw [freshUsed.mp used, inode]
    unfold Hierarchy.links
    rw [names, dirs, Finset.sum_singleton, parent]
    rfl
  · unfold fresh
    dsimp only
    by_cases same : i = ROOT_INO
    · rw [same, Function.update_self]
      exact (by decide : 2 < 2 ^ 16)
    · rw [Function.update_of_ne same]
      exact (by decide : 0 < 2 ^ 16)

/-! ## Runs -/

theorem tinySized : 16 = 16 ∨ 16 = 64 := .inl rfl

def tiny : Geometry := ⟨16, tinySized, 8, 16, 4⟩

def pathA : FsPath := ⟨[['a']], by decide, by decide⟩
def pathB : FsPath := ⟨[['b']], by decide, by decide⟩
def pathC : FsPath := ⟨[['c']], by decide, by decide⟩
def pathAB : FsPath := ⟨[['a'], ['b']], by decide, by decide⟩

def tidy : List Action :=
  [.create pathA false, .mkdir pathB, .link pathA pathC, .unlink pathA, .create pathA true,
    .rename pathA pathC, .mkdir pathA, .rename pathB pathAB, .symlink 3 pathB, .rmdir pathAB]

end Scepter.Minix3
