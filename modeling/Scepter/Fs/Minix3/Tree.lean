import Scepter.Fs.Minix3.Dirs
import Scepter.Lib.Hierarchy

/-! The directories of minix3 as a rooted graph. Every call keeps it, and the link
counts with it, as long as rename replaces nothing but a file with one name, moves no
directory below itself, and no link count passes its sixteen bits. -/
namespace Scepter.Minix3
open Scepter.Path (Str)
open Names

variable (geo : Geometry)

/-! ## What should hold -/

def InRange (ino : Nat) : Prop := 0 < ino ∧ ino ≤ geo.sNinodes
instance (ino) : Decidable (InRange geo ino) := by unfold InRange; infer_instance

def IsDir (s : Fs) (d : Nat) : Prop :=
  InRange geo d ∧ s.used d = true ∧ (s.inodes d).mode = .dir
instance (s d) : Decidable (IsDir geo s d) := by unfold IsDir; infer_instance

def proper (entries : List Dirent) : List Dirent := (entries.drop 2).filter fun e => !free e

def parentOf (s : Fs) (d : Nat) : Nat := ((s.dirs d).getD 1 unusedEntry).inode

def graph (s : Fs) : Hierarchy Nat where
  dirs := (Finset.range (geo.sNinodes + 1)).filter (IsDir geo s)
  named d := ↑((proper (s.dirs d)).map Dirent.inode)
  parent := parentOf s

def references (s : Fs) (ino : Nat) : Nat :=
  ∑ d ∈ (graph geo s).dirs, (s.dirs d).countP fun e => e.inode = ino

structure TreeRight (s : Fs) : Prop where
  rooted : (graph geo s).Rooted ROOT_INO
  valid : ∀ d, IsDir geo s d → ∀ e ∈ s.dirs d, e.inode ≠ 0 →
    InRange geo e.inode ∧ s.used e.inode = true
  links : ∀ ino, InRange geo ino → s.used ino = true →
    (s.inodes ino).nlinks = references geo s ino

/-! ## The invariant -/

def Shaped (d : Nat) (entries : List Dirent) : Prop :=
  ∃ up rest, entries = ⟨d, DOT⟩ :: ⟨up, DOTDOT⟩ :: rest ∧ up ≠ 0 ∧
    ∀ e ∈ rest, e.inode ≠ 0 → e.name ≠ DOT ∧ e.name ≠ DOTDOT

structure Listed (s : Fs) : Prop where
  shaped : ∀ d, IsDir geo s d → Shaped d (s.dirs d)
  valid : ∀ d, IsDir geo s d → ∀ e ∈ proper (s.dirs d), InRange geo e.inode ∧
    s.used e.inode = true

structure Formed (s : Fs) : Prop extends Listed geo s where
  rooted : (graph geo s).Rooted ROOT_INO

structure Sound (s : Fs) : Prop extends Formed geo s where
  filled : ∀ d, IsDir geo s d → (s.dirs d).length = (s.inodes d).zones.length * geo.perBlock
  links : ∀ ino, InRange geo ino → s.used ino = true →
    (s.inodes ino).nlinks = (graph geo s).links ino
  narrow : ∀ ino, (s.inodes ino).nlinks < 2 ^ 16

variable {geo} {s t : Fs}

theorem memDirs {d : Nat} : d ∈ (graph geo s).dirs ↔ IsDir geo s d := by
  unfold graph
  dsimp only
  rw [Finset.mem_filter, Finset.mem_range]
  exact ⟨fun both => both.2, fun dir => ⟨Nat.lt_succ_of_le dir.1.2, dir⟩⟩

theorem memNamed {d i : Nat} :
    i ∈ (graph geo s).named d ↔ ∃ e ∈ proper (s.dirs d), e.inode = i := by
  unfold graph
  dsimp only
  rw [Multiset.mem_coe]
  exact List.mem_map

theorem memProper {entries : List Dirent} {e : Dirent} :
    e ∈ proper entries ↔ e ∈ entries.drop 2 ∧ e.inode ≠ 0 := by
  unfold proper free
  rw [List.mem_filter]
  simp

theorem perBlockPos (geo : Geometry) : 2 ≤ geo.perBlock := by
  have sized := geo.sized
  omega

/-! ## Slots -/

theorem replaceFirstSome {α : Type} {p : α → Bool} {b : α} {l l' : List α}
    (done : replaceFirst p b l = some l') : ∃ before a after, l = before ++ a :: after ∧
      l' = before ++ b :: after ∧ p a = true ∧ l.find? p = some a := by
  induction l generalizing l' with
  | nil => cases done
  | cons x rest ih =>
    unfold replaceFirst at done
    split at done <;> rename_i holds
    · cases done
      exact ⟨[], x, rest, rfl, rfl, holds, List.find?_cons_of_pos holds⟩
    · obtain ⟨mid, inner, same⟩ := Option.map_eq_some_iff.mp done
      cases same
      obtain ⟨before, a, after, rfl, rfl, here, found⟩ := ih inner
      exact ⟨x :: before, a, after, rfl, rfl, here,
        (List.find?_cons_of_neg holds).trans found⟩

theorem replaceFirstFound {α : Type} {p : α → Bool} {l : List α} {a : α} (b : α)
    (found : l.find? p = some a) : ∃ l', replaceFirst p b l = some l' := by
  induction l with
  | nil => cases found
  | cons x rest ih =>
    unfold replaceFirst
    split <;> rename_i holds
    · exact ⟨_, rfl⟩
    · rw [List.find?_cons_of_neg holds] at found
      obtain ⟨l', done⟩ := ih found
      exact ⟨x :: l', by rw [done]; rfl⟩

def Plain (name : Str) : Prop := name ≠ DOT ∧ name ≠ DOTDOT

theorem takeShort {name : Str} {n : Nat} {short : Str} (fits : short.length < n)
    (same : name.take n = short) : name = short := by
  have length := congrArg List.length same
  rw [List.length_take] at length
  rw [← same, List.take_of_length_le (by omega)]

theorem plainTake {name : Str} (plain : Plain name) {n : Nat} (room : 2 < n) :
    Plain (name.take n) :=
  ⟨fun same => plain.1 (takeShort (Nat.lt_trans (by decide) room) same),
    fun same => plain.2 (takeShort room same)⟩

theorem pathPlain (path : FsPath) : Plain path.name := by
  unfold FsPath.name
  cases last : path.names.getLast? with
  | none =>
    rw [List.getLastD_eq_getLast?, last]
    exact ⟨nofun, nofun⟩
  | some name =>
    rw [List.getLastD_eq_getLast?, last]
    obtain ⟨_, _, one, two⟩ := path.proper name (List.mem_of_getLast? last)
    exact ⟨one, two⟩

theorem lastPlain (path : FsPath) : Plain (lastName path) :=
  plainTake (pathPlain path) (by decide)

structure Whole (geo : Geometry) (s : Fs) (d : Nat) (dir : Inode) : Prop where
  some' : d ≠ 0
  mode : dir.mode = .dir
  shaped : Shaped d (s.dirs d)
  filled : (s.dirs d).length = dir.zones.length * geo.perBlock

structure Gained (d : Nat) (l l' : List Dirent) (e : Dirent) : Prop where
  shaped : Shaped d l'
  up : l'.getD 1 unusedEntry = l.getD 1 unusedEntry
  perm : (proper l').Perm (e :: proper l)

structure Lost (d : Nat) (l l' : List Dirent) (e : Dirent) : Prop where
  shaped : Shaped d l'
  up : l'.getD 1 unusedEntry = l.getD 1 unusedEntry
  perm : (proper l).Perm (e :: proper l')

theorem inner {d : Nat} {l before after : List Dirent} {a : Dirent} (some' : d ≠ 0)
    (shaped : Shaped d l) (split : l = before ++ a :: after)
    (other : a.inode = 0 ∨ Plain a.name) :
    ∃ up mid, before = ⟨d, DOT⟩ :: ⟨up, DOTDOT⟩ :: mid ∧ up ≠ 0 ∧
      ∀ e ∈ mid ++ a :: after, e.inode ≠ 0 → Plain e.name := by
  obtain ⟨up, rest, rfl, parent, plain⟩ := shaped
  match before with
  | [] =>
    obtain ⟨same, -⟩ := List.cons.inj split
    subst same
    rcases other with none' | ⟨one, -⟩
    · exact absurd none' some'
    · exact absurd rfl one
  | [x] =>
    obtain ⟨-, later⟩ := List.cons.inj split
    obtain ⟨same, -⟩ := List.cons.inj later
    subst same
    rcases other with none' | ⟨-, two⟩
    · exact absurd none' parent
    · exact absurd rfl two
  | x :: y :: mid =>
    obtain ⟨rfl, later⟩ := List.cons.inj split
    obtain ⟨rfl, last⟩ := List.cons.inj later
    subst last
    exact ⟨up, mid, rfl, parent, plain⟩

theorem swapShaped {d up : Nat} {mid after : List Dirent} {a b : Dirent} (parent : up ≠ 0)
    (plain : ∀ e ∈ mid ++ a :: after, e.inode ≠ 0 → Plain e.name)
    (fine : b.inode ≠ 0 → Plain b.name) :
    Shaped d (⟨d, DOT⟩ :: ⟨up, DOTDOT⟩ :: mid ++ b :: after) := by
  refine ⟨up, mid ++ b :: after, rfl, parent, fun e member some' => ?_⟩
  rcases List.mem_append.mp member with inside | inside
  · exact plain e (List.mem_append_left _ inside) some'
  · rcases List.mem_cons.mp inside with rfl | inside
    · exact fine some'
    · exact plain e (List.mem_append_right _ (List.mem_cons_of_mem _ inside)) some'

theorem swapProper (x y : Dirent) (mid : List Dirent) (e : Dirent) (after : List Dirent) :
    proper (x :: y :: mid ++ e :: after) =
      (mid.filter fun e => !free e) ++ ([e].filter fun e => !free e) ++
        after.filter fun e => !free e := by
  unfold proper
  rw [List.cons_append, List.cons_append, List.drop_succ_cons, List.drop_succ_cons,
    List.drop_zero, ← List.singleton_append, List.filter_append, List.filter_append,
    List.append_assoc]

theorem findSwap {p : Dirent → Bool} {a b : Dirent} (before after : List Dirent)
    (first : p a = false) (second : p b = false) :
    (before ++ b :: after).find? p = (before ++ a :: after).find? p := by
  rw [List.find?_append, List.find?_append,
    List.find?_cons_of_neg (by rw [second]; exact Bool.false_ne_true),
    List.find?_cons_of_neg (by rw [first]; exact Bool.false_ne_true)]

theorem hasNameUnused (name : Str) : hasName name unusedEntry = false :=
  decide_eq_false fun both => both.1 rfl

theorem hasNameFree {name : Str} {e : Dirent} (unused : e.inode = 0) : hasName name e = false :=
  decide_eq_false fun both => both.1 unused

theorem hasNameIff {name : Str} {e : Dirent} :
    hasName name e = true ↔ e.inode ≠ 0 ∧ e.name = name.take NAME_LEN := decide_eq_true_iff

theorem properSome {e : Dirent} (some' : e.inode ≠ 0) :
    [e].filter (fun e => !free e) = [e] := by
  unfold free
  simp [some']

theorem properNone {e : Dirent} (unused : e.inode = 0) :
    [e].filter (fun e => !free e) = [] := by
  unfold free
  simp [unused]

/-! ## Entries added and removed -/

structure Added (geo : Geometry) (s t : Fs) (d : Nat) (dir dir' : Inode) (e : Dirent)
    (l : List Dirent) : Prop where
  entries : t.dirs = Function.update s.dirs d l
  gained : Gained d (s.dirs d) l e
  inodes : t.inodes = s.inodes
  used : t.used = s.used
  mode : dir'.mode = .dir
  nlinks : dir'.nlinks = dir.nlinks
  filled : l.length = dir'.zones.length * geo.perBlock
  short : e.name.length < NAME_LEN
  others : ∀ name : Str, name.take NAME_LEN ≠ e.name →
    (l.take (s.dirs d).length).find? (hasName name) = (s.dirs d).find? (hasName name)

theorem newNotNamed {name other : Str} {target : Nat} (differs : other.take NAME_LEN ≠ name) :
    hasName other ⟨target, name⟩ = false :=
  decide_eq_false fun both => differs both.2.symm

theorem gainedSlot {d : Nat} {l l' : List Dirent} {e : Dirent} (some' : d ≠ 0)
    (shaped : Shaped d l) (fresh : e.inode ≠ 0) (plain : Plain e.name)
    (done : replaceFirst free e l = some l') : Gained d l l' e ∧ l'.length = l.length ∧
      ∀ name : Str, name.take NAME_LEN ≠ e.name →
        l'.find? (hasName name) = l.find? (hasName name) := by
  obtain ⟨before, a, after, split, rfl, here, -⟩ := replaceFirstSome done
  have unused : a.inode = 0 := of_decide_eq_true here
  obtain ⟨up, mid, rfl, parent, names⟩ := inner some' shaped split (.inl unused)
  subst split
  refine ⟨⟨swapShaped parent names fun _ => plain, rfl, ?_⟩, ?_, fun name differs => ?_⟩
  · rw [swapProper, swapProper, properSome fresh, properNone unused, List.append_nil,
      List.append_assoc]
    exact List.perm_middle
  · simp only [List.length_append, List.length_cons]
  · exact findSwap _ _ (hasNameFree unused) (newNotNamed differs)

theorem gainedBlock {d n : Nat} {l : List Dirent} {e : Dirent} (shaped : Shaped d l)
    (fresh : e.inode ≠ 0) (plain : Plain e.name) :
    Gained d l (l ++ e :: List.replicate n unusedEntry) e := by
  obtain ⟨up, rest, rfl, parent, names⟩ := shaped
  refine ⟨⟨up, rest ++ e :: List.replicate n unusedEntry, rfl, parent, fun x member some' => ?_⟩,
    rfl, ?_⟩
  · rcases List.mem_append.mp member with inside | inside
    · exact names x inside some'
    · rcases List.mem_cons.mp inside with rfl | inside
      · exact plain
      · rw [List.eq_of_mem_replicate inside] at some'
        exact absurd rfl some'
  · have blank : (List.replicate n unusedEntry).filter (fun e => !free e) = [] := by
      rw [List.filter_eq_nil_iff]
      intro x member
      rw [List.eq_of_mem_replicate member]
      decide
    have all := swapProper ⟨d, DOT⟩ ⟨up, DOTDOT⟩ rest e (List.replicate n unusedEntry)
    rw [blank, properSome fresh, List.append_nil] at all
    refine (List.Perm.of_eq all).trans ?_
    exact List.perm_append_singleton e (rest.filter fun e => !free e)

theorem addSpec {d target : Nat} {dir dir' : Inode} {name : Str}
    (whole : Whole geo s d dir) (plain : Plain name) (fresh : target ≠ 0)
    (done : addDirent geo s d dir name target = some (t, dir')) :
    ∃ l, Added geo s t d dir dir' ⟨target, name⟩ l := by
  have all : slots geo s d dir = s.dirs d := List.take_of_length_le (Nat.le_of_eq whole.filled)
  have none' : (s.dirs d).drop (dir.zones.length * geo.perBlock) = [] :=
    List.drop_of_length_le (Nat.le_of_eq whole.filled)
  unfold addDirent at done
  split at done <;> rename_i refused
  · cases done
  obtain ⟨-, short⟩ := not_or.mp refused
  rw [all] at done
  split at done
  · rename_i entries replaced
    cases done
    obtain ⟨gained, length, others⟩ := gainedSlot whole.some' whole.shaped fresh plain replaced
    refine ⟨entries, ?_, gained, rfl, rfl, whole.mode, rfl, length.trans whole.filled,
      Nat.lt_of_not_le short, fun other differs => ?_⟩
    · unfold setSlots
      rw [none', List.append_nil]
      rfl
    · rw [← length, List.take_length]
      exact others other differs
  · split at done <;> rename_i room
    · obtain ⟨⟨zone, mid⟩, taken, same⟩ := Option.map_eq_some_iff.mp done
      cases same
      obtain ⟨z, -, same⟩ := Option.map_eq_some_iff.mp taken
      cases same
      have all' : slots geo {s with zmap := Function.update s.zmap z true} d dir = s.dirs d := all
      rw [all']
      refine ⟨_, rfl, gainedBlock (e := ⟨target, name⟩) whole.shaped fresh plain, rfl, rfl, whole.mode, rfl, ?_,
        Nat.lt_of_not_le short, fun other _ => ?_⟩
      · have sized := perBlockPos geo
        simp only [List.length_append, List.length_cons, List.length_replicate, List.length_nil,
          Nat.zero_add, Nat.add_mul, Nat.one_mul, whole.filled]
        omega
      · rw [List.take_left]
    · cases done

theorem removeSpec {d : Nat} {dir : Inode} {name : Str} {e : Dirent} (some' : d ≠ 0)
    (mode : dir.mode = .dir) (shaped : Shaped d (s.dirs d)) (plain : Plain name)
    (found : (slots geo s d dir).find? (hasName name) = some e) :
    ∃ l, (∀ t : Fs, t.dirs = s.dirs → removeDirent geo t d dir name = some (t.setDir d l)) ∧
      Lost d (s.dirs d) l e ∧ l.length = (s.dirs d).length ∧ ∀ other : Str, other.take NAME_LEN ≠ name.take NAME_LEN →
        l.find? (hasName other) = (s.dirs d).find? (hasName other) := by
  obtain ⟨entries, done⟩ := replaceFirstFound unusedEntry found
  obtain ⟨before, a, after, split, rfl, here, first⟩ := replaceFirstSome done
  obtain rfl : a = e := Option.some.inj (first.symm.trans found)
  obtain ⟨kept, named⟩ := hasNameIff.mp here
  have tail : s.dirs d = before ++ a ::
      (after ++ (s.dirs d).drop (dir.zones.length * geo.perBlock)) := by
    conv_lhs => rw [← List.take_append_drop (dir.zones.length * geo.perBlock) (s.dirs d)]
    change slots geo s d dir ++ _ = _
    rw [split, List.append_assoc, List.cons_append]
  generalize ending : (s.dirs d).drop (dir.zones.length * geo.perBlock) = rest at tail
  obtain ⟨up, mid, rfl, parent, names⟩ := inner some' shaped tail
    (.inr (named ▸ plainTake plain (by decide)))
  refine ⟨_, fun t dirs => ?_, ⟨swapShaped (b := unusedEntry) parent names (absurd rfl), ?_, ?_⟩,
    ?_, fun other differs => ?_⟩
  · have slotsT : slots geo t d dir = slots geo s d dir := by
      unfold slots
      rw [dirs]
    unfold removeDirent
    rw [if_neg (not_not_intro mode), slotsT, done]
    unfold setSlots
    rw [Option.map_some, dirs, ending, List.append_assoc]
    rfl
  · rw [tail]
    rfl
  · rw [tail, swapProper, swapProper, properSome kept, properNone rfl, List.append_nil,
      List.append_assoc]
    exact List.perm_middle
  · rw [tail]
    simp only [List.length_append, List.length_cons]
  · rw [tail]
    exact findSwap _ _ (decide_eq_false fun both => differs (both.2.symm.trans named))
      (hasNameUnused other)

/-! ## Names found -/

theorem Sound.whole (sound : Sound geo s) {d : Nat} (dir : IsDir geo s d) :
    Whole geo s d (s.inodes d) :=
  ⟨Nat.ne_of_gt dir.1.1, dir.2.2, sound.shaped d dir, sound.filled d dir⟩

theorem readInRange {ino : Nat} {inode : Inode} (done : readInode geo s ino = some inode) :
    InRange geo ino ∧ inode = s.inodes ino := by
  unfold readInode at done
  split at done <;> rename_i refused
  · cases done
  · cases done
    exact ⟨⟨by omega, by omega⟩, rfl⟩

theorem lookupEntry {d i : Nat} {dir : Inode} {name : Str}
    (found : lookup geo s d dir name = some i) : dir.mode = .dir ∧
      ∃ e, (slots geo s d dir).find? (hasName name) = some e ∧ e.inode = i := by
  unfold lookup at found
  split at found <;> rename_i mode
  · cases found
  · exact ⟨not_not.mp mode, Option.map_eq_some_iff.mp found⟩

theorem foundProper {d : Nat} {dir : Inode} {name : Str} {e : Dirent}
    (shaped : Shaped d (s.dirs d)) (plain : Plain name)
    (found : (slots geo s d dir).find? (hasName name) = some e) : e ∈ proper (s.dirs d) := by
  obtain ⟨some', named⟩ := hasNameIff.mp (List.find?_some found)
  have member : e ∈ s.dirs d := List.mem_of_mem_take (List.mem_of_find?_eq_some found)
  obtain ⟨one, two⟩ := plainTake plain (show 2 < NAME_LEN by decide)
  obtain ⟨up, rest, same, -, -⟩ := shaped
  rw [same] at member ⊢
  refine memProper.mpr ⟨?_, some'⟩
  rcases List.mem_cons.mp member with rfl | later
  · exact absurd named.symm one
  · rcases List.mem_cons.mp later with rfl | last
    · exact absurd named.symm two
    · exact last

theorem lookupNamed (formed : Formed geo s) {d i : Nat} {dir : Inode} {name : Str}
    (here : IsDir geo s d) (plain : Plain name) (found : lookup geo s d dir name = some i) :
    i ∈ (graph geo s).named d ∧ InRange geo i ∧ s.used i = true := by
  obtain ⟨-, e, first, rfl⟩ := lookupEntry found
  have member := foundProper (formed.shaped d here) plain first
  exact ⟨memNamed.mpr ⟨e, member, rfl⟩, formed.valid d here e member⟩

def Held (geo : Geometry) (s : Fs) (ino : Nat) (inode : Inode) : Prop :=
  InRange geo ino ∧ s.used ino = true ∧ inode = s.inodes ino

theorem Held.dir {ino : Nat} {inode : Inode} (held : Held geo s ino inode)
    (mode : inode.mode = .dir) : IsDir geo s ino ∧ inode = s.inodes ino :=
  ⟨⟨held.1, held.2.1, held.2.2 ▸ mode⟩, held.2.2⟩

theorem rootHeld (formed : Formed geo s) {root : Inode}
    (done : readInode geo s ROOT_INO = some root) : Held geo s ROOT_INO root := by
  obtain ⟨range, same⟩ := readInRange done
  exact ⟨range, (memDirs.mp formed.rooted.here).2.1, same⟩

theorem walkHeld (formed : Formed geo s) {names : List Str} {ino : Nat} {inode : Inode}
    {found : Nat × Inode} (plain : ∀ name ∈ names, Plain name) (held : Held geo s ino inode)
    (done : walk geo s names ino inode = some found) : Held geo s found.1 found.2 := by
  induction names generalizing ino inode with
  | nil => cases done; exact held
  | cons name rest ih =>
    unfold walk at done
    split at done
    · cases done
    · rename_i next looked
      split at done
      · cases done
      · rename_i inode' read
        split at done
        · cases done
        · obtain ⟨mode, -⟩ := lookupEntry looked
          obtain ⟨range, same⟩ := readInRange read
          obtain ⟨-, -, used⟩ := lookupNamed formed (held.dir mode).1
            (plain name List.mem_cons_self) looked
          exact ih (fun n member => plain n (List.mem_cons_of_mem _ member)) ⟨range, used, same⟩ done

theorem namesPlain (path : FsPath) : ∀ name ∈ path.names, Plain name := fun name member =>
  have ⟨_, _, one, two⟩ := path.proper name member
  ⟨one, two⟩

theorem parentPlain (path : FsPath) : ∀ name ∈ path.parent, Plain name := fun name member =>
  namesPlain path name (List.mem_of_mem_dropLast member)

theorem openHeld (formed : Formed geo s) {path : FsPath} {found : Nat × Inode}
    (done : openFile geo s path = some found) : Held geo s found.1 found.2 := by
  obtain ⟨root, read, walked⟩ := Option.bind_eq_some_iff.mp done
  exact walkHeld formed (namesPlain path) (rootHeld formed read) walked

theorem directoryFound (formed : Formed geo s) {names : List Str} {d : Nat} {dir : Inode}
    (plain : ∀ name ∈ names, Plain name)
    (done : lookupDirectory geo s names = some (d, dir)) :
    IsDir geo s d ∧ dir = s.inodes d := by
  unfold lookupDirectory at done
  split at done
  · obtain ⟨root, read, same⟩ := Option.map_eq_some_iff.mp done
    cases same
    exact (rootHeld formed read).dir ((readInRange read).2 ▸ (memDirs.mp formed.rooted.here).2.2)
  · split at done
    · cases done
    · rename_i root read
      obtain ⟨walked, mode⟩ := Option.filter_eq_some_iff.mp done
      exact (walkHeld formed plain (rootHeld formed read) walked).dir (of_decide_eq_true mode)

end Scepter.Minix3
