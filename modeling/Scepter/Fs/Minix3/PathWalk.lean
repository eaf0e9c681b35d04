import Scepter.Fs.Minix3.DirMap
import Scepter.Lib.Path
import Scepter.Lib.Walk

/-! Paths in the calls of minix3 (fs/minix3/minix3.c): the walk of minix3_vfs_open and of
lookup_directory_by_path, and the splitting into a parent directory and a last name. -/
namespace Scepter.Minix3.PathWalk
open Scepter.Path (Str)
open DirMap

def MAX_PATH_LEN : Nat := 256

variable (geo : Geometry)

/-- What minix3_read_inode reads, with the entries of the directories. The root's entry of
itself is there. -/
structure Tree where
  inode : Nat → Option Dir
  root : Dir
  rooted : inode ROOT_INO = some root
  dir : root.isDir
  dot : minix3Lookup geo working root ['.'] = some ROOT_INO

variable {geo} (t : Tree geo)

def unslash : Str → Str
  | '/' :: p => p
  | p => p

def pathCopy (p : Str) : Str := p.take (MAX_PATH_LEN - 1)

def enter (dir : Dir) (token : Str) : Option (Nat × Dir) :=
  (minix3Lookup geo working dir token).bind fun next => (t.inode next).map fun inode => (next, inode)

/-- The loop over path_copy, behind the characters `token` of the component at hand. What
is not the last must be a directory. -/
def walk (token : Str) : Str → Nat → Dir → Option (Nat × Dir)
  | [], ino, dir => if token = [] then some (ino, dir) else enter t dir token
  | c :: rest, ino, dir =>
    if c = '/' then
      if token = [] then walk [] rest ino dir
      else (enter t dir token).bind fun found =>
        if found.2.isDir then walk [] rest found.1 found.2 else none
    else walk (token ++ [c]) rest ino dir

def minix3VfsOpen (path : Str) : Option (Nat × Dir) :=
  let filename := unslash path
  (t.inode ROOT_INO).bind fun root =>
    if filename = [] ∨ filename = ['.'] then some (ROOT_INO, root)
    else walk t [] (pathCopy filename) ROOT_INO root

def lastSlash : Str → Option (Str × Str)
  | [] => none
  | c :: rest => match lastSlash rest with
    | some (front, last) => some (c :: front, last)
    | none => if c = '/' then some ([], rest) else none

def parseParentAndName (path : Str) : Str × Str :=
  match lastSlash (unslash path) with
  | none => ([], (unslash path).take (NAME_LEN - 1))
  | some (front, last) => (front.take (MAX_PATH_LEN - 2), last.take (NAME_LEN - 1))

def lookupDirectoryByPath (path : Str) : Option (Nat × Dir) :=
  (t.inode ROOT_INO).bind fun root =>
    if path = [] ∨ path = ['/'] then some (ROOT_INO, root)
    else (walk t [] (pathCopy (unslash path)) ROOT_INO root).filter fun found => found.2.isDir

def target (path : Str) : Option (Nat × Dir) :=
  let (parent, name) := parseParentAndName path
  (lookupDirectoryByPath t parent).bind fun found => enter t found.2 name

def place (path : Str) : Option (Nat × Str) :=
  let (parent, name) := parseParentAndName path
  (lookupDirectoryByPath t parent).map fun found => (found.1, name)

def dirPart (path : Str) : Str := ((lastSlash (unslash path)).map Prod.fst).getD []

def namePart (path : Str) : Str := ((lastSlash (unslash path)).map Prod.snd).getD (unslash path)

/-- The calls act on what open resolves the path to, or on the directory that open resolves
the path before the last name to, with that name. -/
structure Agrees (path : Str) : Prop where
  acts : target t path = minix3VfsOpen t path
  places : place t path =
    ((minix3VfsOpen t (dirPart path)).filter fun found => found.2.isDir).map fun found =>
      (found.1, namePart path)

variable {t} {path token a b : Str} {ino : Nat} {dir : Dir}

theorem lastSlashSome {front last : Str} {p : Str} (split : lastSlash p = some (front, last)) :
    p = front ++ '/' :: last ∧ '/' ∉ last := by
  suffices both : (∀ f l, lastSlash p = some (f, l) → p = f ++ '/' :: l ∧ '/' ∉ l) ∧
      (lastSlash p = none → '/' ∉ p) from both.1 front last split
  clear split
  induction p with
  | nil => simp [lastSlash]
  | cons c p ih =>
    obtain ⟨found, away⟩ := ih
    rw [lastSlash]
    cases later : lastSlash p with
    | some pair =>
      obtain ⟨f, l⟩ := pair
      obtain ⟨rfl, last⟩ := found f l later
      exact ⟨fun _ _ same => by cases same; exact ⟨rfl, last⟩, fun none_ => nomatch none_⟩
    | none =>
      have rest := away later
      dsimp only
      split
      · rename_i slash
        subst slash
        exact ⟨fun _ _ same => by cases same; exact ⟨rfl, rest⟩, fun none_ => nomatch none_⟩
      · rename_i other
        refine ⟨fun _ _ same => (nomatch same), fun _ member => ?_⟩
        rcases List.mem_cons.mp member with same | inside
        · exact other same.symm
        · exact rest inside

theorem lastSlashNone {p : Str} (none_ : lastSlash p = none) : '/' ∉ p := by
  induction p with
  | nil => simp
  | cons c p ih =>
    rw [lastSlash] at none_
    cases later : lastSlash p with
    | some pair => simp [later] at none_
    | none =>
      rw [later] at none_
      dsimp only at none_
      split at none_
      · cases none_
      · rename_i other
        simp [Ne.symm other, ih later]

/-! ## The walk -/

section onward
variable {α : Type} {onward : α → Str → Option α} {through : α → Bool} {place : α}

theorem unslashWalk :
    Walk.walk onward through [] (unslash a) place = Walk.walk onward through [] a place := by
  unfold unslash
  split
  · exact Walk.walkSlash.symm
  · rfl

theorem partsWalk (stops : ∀ p word, through p = false → onward p word = none)
    (filled : namePart path ≠ []) : Walk.walk onward through [] path place =
      (Walk.walk onward through [] (dirPart path) place).bind fun found =>
        onward found (namePart path) := by
  rw [← unslashWalk]
  unfold namePart dirPart at *
  cases split : lastSlash (unslash path) with
  | none =>
    rw [split] at filled
    dsimp only [Option.map_none, Option.getD_none] at filled ⊢
    rw [Walk.walkWord (lastSlashNone split), List.nil_append, if_neg filled, Walk.walk, if_pos rfl]
    rfl
  | some pair =>
    obtain ⟨front, last⟩ := pair
    obtain ⟨whole, word⟩ := lastSlashSome split
    rw [split] at filled
    dsimp only [Option.map_some, Option.getD_some] at filled ⊢
    rw [whole, Walk.walkLast stops word filled]

end onward

theorem enterDir {found : Nat × Dir} (ok : enter t dir token = some found) : dir.isDir := by
  obtain ⟨_, looked, _⟩ := Option.bind_eq_some_iff.mp ok
  exact (lookupFound looked).1

theorem walkGeneral : walk t token a ino dir =
    Walk.walk (fun place word => enter t place.2 word) (fun place => place.2.isDir) token a
      (ino, dir) := by
  induction a generalizing token ino dir with
  | nil => rfl
  | cons c a ih =>
    rw [walk, Walk.walk]
    simp only [ih]

theorem walkWord (word : '/' ∉ a) :
    walk t token a ino dir = if token ++ a = [] then some (ino, dir) else enter t dir (token ++ a) := by
  rw [walkGeneral, Walk.walkWord word]

theorem walkSlash : walk t [] ('/' :: a) ino dir = walk t [] a ino dir := by
  rw [walk, if_pos rfl, if_pos rfl]

theorem walkUnslash : walk t [] (unslash a) ino dir = walk t [] a ino dir := by
  rw [walkGeneral, unslashWalk, ← walkGeneral]

theorem unslashLength (p : Str) : (unslash p).length ≤ p.length := by
  unfold unslash
  split
  · exact Nat.le_succ _
  · exact Nat.le_refl _

theorem enterDot : enter t t.root ['.'] = some (ROOT_INO, t.root) := by
  unfold enter
  rw [t.dot, Option.bind_some, t.rooted]
  rfl

theorem copied (short : path.length < MAX_PATH_LEN) : pathCopy (unslash path) = unslash path :=
  List.take_of_length_le (Nat.le_trans (unslashLength path) (Nat.le_sub_one_of_lt short))

theorem openWalk (short : path.length < MAX_PATH_LEN) :
    minix3VfsOpen t path = walk t [] path ROOT_INO t.root := by
  unfold minix3VfsOpen
  rw [t.rooted, Option.bind_some, copied short, walkUnslash]
  split
  · rename_i root
    rw [← walkUnslash]
    rcases root with none_ | dot
    · rw [none_, walk, if_pos rfl]
    · rw [dot, walkWord (by decide), List.nil_append, if_neg (by decide), enterDot]
  · rfl

theorem directoryWalk (short : path.length < MAX_PATH_LEN) :
    lookupDirectoryByPath t path =
      (walk t [] path ROOT_INO t.root).filter fun found => found.2.isDir := by
  unfold lookupDirectoryByPath
  rw [t.rooted, Option.bind_some, copied short, walkUnslash]
  split
  · rename_i root
    have here : walk t [] path ROOT_INO t.root = some (ROOT_INO, t.root) := by
      rcases root with rfl | rfl
      · rw [walk, if_pos rfl]
      · rw [walkSlash, walk, if_pos rfl]
    rw [here, Option.filter_some, if_pos t.dir]
  · rfl

theorem filterEnter (found : Option (Nat × Dir)) :
    ((found.filter fun found => found.2.isDir).bind fun found => enter t found.2 token) =
      found.bind fun found => enter t found.2 token := by
  cases found with
  | none => rfl
  | some found =>
    rw [Option.filter_some]
    split
    · rfl
    · rename_i file
      cases ok : enter t found.2 token with
      | none => rw [Option.bind_some, ok]; rfl
      | some _ => exact absurd (enterDir ok) file

theorem parseSpec (short : path.length < MAX_PATH_LEN) :
    parseParentAndName path = (dirPart path, (namePart path).take (NAME_LEN - 1)) := by
  unfold parseParentAndName dirPart namePart
  cases split : lastSlash (unslash path) with
  | none => rfl
  | some pair =>
    obtain ⟨front, last⟩ := pair
    have whole := congrArg List.length (lastSlashSome split).1
    have bound := unslashLength path
    rw [List.length_append, List.length_cons] at whole
    have room : front.length ≤ MAX_PATH_LEN - 2 := by
      unfold MAX_PATH_LEN at short ⊢
      omega
    simp only [Option.map_some, Option.getD_some, List.take_of_length_le room]

theorem dirShort (short : path.length < MAX_PATH_LEN) : (dirPart path).length < MAX_PATH_LEN := by
  unfold dirPart
  cases split : lastSlash (unslash path) with
  | none => exact (by decide : 0 < MAX_PATH_LEN)
  | some pair =>
    have whole := congrArg List.length (@lastSlashSome pair.1 pair.2 _ split).1
    have bound := unslashLength path
    rw [List.length_append, List.length_cons] at whole
    rw [Option.map_some, Option.getD_some]
    omega

theorem walkParts (filled : namePart path ≠ []) : walk t [] path ino dir =
    (walk t [] (dirPart path) ino dir).bind fun found => enter t found.2 (namePart path) := by
  have stops (place : Nat × Dir) (c : Str) (file : place.2.isDir = false) :
      enter t place.2 c = none := by
    cases ok : enter t place.2 c with
    | none => rfl
    | some _ => exact absurd (enterDir ok) (Bool.eq_false_iff.mp file)
  rw [walkGeneral, partsWalk stops filled, ← walkGeneral]

theorem targetWalk (short : path.length < MAX_PATH_LEN) : target t path =
    (walk t [] (dirPart path) ROOT_INO t.root).bind fun found =>
      enter t found.2 ((namePart path).take (NAME_LEN - 1)) := by
  unfold target
  rw [parseSpec short]
  dsimp only
  rw [directoryWalk (dirShort short), filterEnter]

theorem placeWalk (short : path.length < MAX_PATH_LEN) : place t path =
    ((minix3VfsOpen t (dirPart path)).filter fun found => found.2.isDir).map fun found =>
      (found.1, (namePart path).take (NAME_LEN - 1)) := by
  unfold place
  rw [parseSpec short]
  dsimp only
  rw [directoryWalk (dirShort short), openWalk (dirShort short)]

theorem fittingAgrees (t : Tree geo) (short : path.length < MAX_PATH_LEN)
    (filled : namePart path ≠ []) (fits : (namePart path).length < NAME_LEN) : Agrees t path where
  acts := by
    rw [targetWalk short, openWalk short, walkParts filled,
      List.take_of_length_le (Nat.le_sub_one_of_lt fits)]
  places := by
    rw [placeWalk short, List.take_of_length_le (Nat.le_sub_one_of_lt fits)]

/-! ## A root that has every component -/

def loopDir (geo : Geometry) (names : List Str) : Dir where
  isDir := true
  iSize := 2 ^ 20
  small := by decide
  zones := fun block => block + 1
  entries := fun block i => match names[block * geo.perBlock + i]? with
    | some name => ⟨ROOT_INO, name.take NAME_LEN, List.length_take_le _ _⟩
    | none => unused

section loop
variable {names : List Str}

theorem loopLookup (few : names.length ≤ 257) {name : Str} (member : name ∈ names) :
    minix3Lookup geo working (loopDir geo names) name = some ROOT_INO := by
  obtain ⟨k, below, at'⟩ := List.getElem_of_mem member
  have per : geo.perBlock = 16 ∨ geo.perBlock = 64 := geo.sized
  have place : k / geo.perBlock * geo.perBlock + k % geo.perBlock = k := Nat.div_add_mod' k _
  have here : (loopDir geo names).entries (k / geo.perBlock) (k % geo.perBlock) =
      ⟨ROOT_INO, name.take NAME_LEN, List.length_take_le _ _⟩ := by
    unfold loopDir
    dsimp only
    rw [place, List.getElem?_eq_getElem below]
    simp only [at']
  have block : k / geo.perBlock < 17 := by
    rcases per with h | h <;> rw [h] <;> omega
  have slot : DirMap.Slot geo (loopDir geo names) (k / geo.perBlock) (k % geo.perBlock) := by
    refine ⟨?_, Nat.succ_ne_zero _, Nat.mod_lt _ (by omega)⟩
    unfold maxBlocks
    rcases @blockSizes geo with h | h <;> rw [h] <;> dsimp only <;> omega
  have scanned : k / geo.perBlock < numBlocks geo (loopDir geo names) := by
    refine (inside ?_ _).mpr ?_ <;> unfold loopDir <;> dsimp only <;>
      rcases @blockSizes geo with h | h <;> rw [h] <;> omega
  have is : named name ((loopDir geo names).entries (k / geo.perBlock) (k % geo.perBlock)) := by
    rw [here]
    simp [named, ROOT_INO]
  obtain ⟨c, j, _, is, found⟩ := lookupFinds rfl scanned slot is
  rw [found]
  unfold loopDir named at is
  unfold loopDir
  dsimp only at is ⊢
  cases entry : names[c * geo.perBlock + j]? with
  | some _ => rfl
  | none => simp [entry, unused] at is

theorem loopMisses (filled : ∀ name ∈ names, name ≠ []) :
    minix3Lookup geo working (loopDir geo names) [] = none := by
  cases found : minix3Lookup geo working (loopDir geo names) [] with
  | none => rfl
  | some ino =>
    obtain ⟨_, b, i, _, is, _⟩ := lookupFound found
    unfold loopDir named at is
    dsimp only at is
    cases entry : names[b * geo.perBlock + i]? with
    | none => simp [entry, unused] at is
    | some name =>
      have some_ := filled name (List.mem_of_getElem? entry)
      simp [entry, ROOT_INO, some_, NAME_LEN] at is

def loopTree (geo : Geometry) (names : List Str) (few : names.length ≤ 257) (dot : ['.'] ∈ names) :
    Tree geo where
  inode := fun ino => if ino = ROOT_INO then some (loopDir geo names) else none
  root := loopDir geo names
  rooted := if_pos rfl
  dir := rfl
  dot := loopLookup few dot

variable {few : names.length ≤ 257} {dot : ['.'] ∈ names}

theorem loopEnter {name : Str} (member : name ∈ names) :
    enter (loopTree geo names few dot) (loopDir geo names) name =
      some (ROOT_INO, loopDir geo names) := by
  unfold enter
  rw [loopLookup few member]
  rfl

theorem loopWalk (p word : Str) (known : ∀ c ∈ Path.scan word p, c ∈ names) :
    walk (loopTree geo names few dot) word p ROOT_INO (loopDir geo names) =
      some (ROOT_INO, loopDir geo names) := by
  induction p generalizing word with
  | nil =>
    rw [walk]
    split
    · rfl
    · rename_i filled
      exact loopEnter (known word (by simp [Path.scan, Path.emit, filled]))
  | cons c p ih =>
    rw [Path.scan] at known
    rw [walk]
    split
    · rename_i slash
      rw [if_pos slash, Path.emit] at known
      split
      · rename_i empty
        rw [if_pos empty] at known
        exact ih [] known
      · rename_i filled
        rw [if_neg filled] at known
        have here : (loopDir geo names).isDir = true := rfl
        rw [loopEnter (known word List.mem_cons_self), Option.bind_some]
        dsimp only
        rw [if_pos here]
        exact ih [] fun c member => known c (List.mem_cons_of_mem _ member)
    · rename_i other
      rw [if_neg other] at known
      exact ih _ known

end loop

theorem componentsUnslash (p : Str) : Path.components (unslash p) = Path.components p := by
  unfold unslash
  split
  · exact (Path.componentsLead _).symm
  · rfl

theorem componentsDir (path : Str) : ∀ c ∈ Path.components (dirPart path), c ∈ Path.components path := by
  intro c member
  rw [← componentsUnslash path]
  unfold dirPart at member
  cases split : lastSlash (unslash path) with
  | none =>
    rw [split] at member
    cases member
  | some pair =>
    obtain ⟨front, last⟩ := pair
    rw [split] at member
    rw [(lastSlashSome split).1, Path.componentsSlash]
    exact List.mem_append_left _ member

theorem scanCount (p word : Str) : (Path.scan word p).length ≤ p.length + 1 := by
  induction p generalizing word with
  | nil =>
    rw [Path.scan, Path.emit]
    split <;> simp
  | cons c p ih =>
    rw [Path.scan]
    have rest := ih []
    have more := ih (word ++ [c])
    rw [List.length_cons]
    split
    · rw [Path.emit]
      split
      · omega
      · rw [List.length_cons]
        omega
    · omega

/-- The calls act on what open resolves a path to, in every tree, exactly where the path
ends in a name that the name buffer holds. -/
theorem pathsAgreeIff (geo : Geometry) (path : Str) (short : path.length < MAX_PATH_LEN) :
    (∀ t : Tree geo, Agrees t path) ↔
      namePart path ≠ [] ∧ (namePart path).length < NAME_LEN := by
  refine ⟨fun agrees => ?_, fun ⟨filled, fits⟩ t => fittingAgrees t short filled fits⟩
  have few : (['.'] :: Path.components path).length ≤ 257 :=
    Nat.succ_le_succ (Nat.le_trans (scanCount path []) short)
  have words : ∀ c ∈ ['.'] :: Path.components path, c ≠ [] := by
    intro c member
    rcases List.mem_cons.mp member with rfl | member
    · decide
    · exact (Path.componentsWords path c member).1
  have known : ∀ c ∈ Path.components (dirPart path), c ∈ ['.'] :: Path.components path :=
    fun c member => List.mem_cons_of_mem _ (componentsDir path c member)
  obtain ⟨acts, places⟩ := agrees (loopTree geo _ few List.mem_cons_self)
  have walked : walk (loopTree geo _ few List.mem_cons_self) [] (dirPart path) ROOT_INO
      (loopDir geo (['.'] :: Path.components path)) = _ := loopWalk (dirPart path) [] known
  constructor
  · intro empty
    rw [targetWalk short, openWalk short] at acts
    have opened : walk (loopTree geo _ few List.mem_cons_self) [] path ROOT_INO
        (loopDir geo (['.'] :: Path.components path)) = _ :=
      loopWalk path [] fun c member => List.mem_cons_of_mem _ member
    have root : (loopTree geo _ few List.mem_cons_self).root =
        loopDir geo (['.'] :: Path.components path) := rfl
    rw [root, walked, opened, Option.bind_some, empty] at acts
    unfold enter at acts
    rw [List.take_nil, loopMisses words] at acts
    cases acts
  · by_contra long
    rw [placeWalk short, openWalk (dirShort short)] at places
    have root : (loopTree geo _ few List.mem_cons_self).root =
        loopDir geo (['.'] :: Path.components path) := rfl
    have here : (loopDir geo (['.'] :: Path.components path)).isDir = true := rfl
    rw [root, walked, Option.filter_some] at places
    dsimp only at places
    rw [if_pos here] at places
    have names := congrArg (fun found => found.map fun found => found.2.length) places
    simp only [Option.map_some, Option.some.injEq, List.length_take] at names
    unfold NAME_LEN at long names
    omega

def longName : Str := List.replicate 59 'a'

def longRoot : Dir where
  isDir := true
  iSize := 1024
  small := by decide
  zones := fun block => if block = 0 then 9 else 0
  entries := fun block i =>
    if block = 0 ∧ i = 0 then entry ROOT_INO ['.']
    else if block = 0 ∧ i = 1 then entry 2 longName
    else unused

def longFile : Dir where
  isDir := false
  iSize := 0
  small := by decide
  zones := fun _ => 0
  entries := fun _ _ => unused

def longTree : Tree smallGeo where
  inode := fun ino => if ino = ROOT_INO then some longRoot else if ino = 2 then some longFile else none
  root := longRoot
  rooted := rfl
  dir := rfl
  dot := by decide +kernel

theorem shortNameAgrees : Agrees longTree ['/', 'd', '/', '/', 'f'] :=
  (pathsAgreeIff smallGeo ['/', 'd', '/', '/', 'f'] (by decide)).mpr (by decide) longTree

/-- open finds no file of 60 characters, and unlink takes the one of 59. -/
theorem longerNameTruncated : ¬∀ path : Str, path.length < MAX_PATH_LEN →
    ∀ t : Tree smallGeo, Agrees t path := by
  intro claimed
  have same := (claimed ('/' :: longName ++ ['a']) (by decide) longTree).acts
  have unlinks : (target longTree ('/' :: longName ++ ['a'])).map Prod.fst = some 2 := by
    decide +kernel
  have opens : (minix3VfsOpen longTree ('/' :: longName ++ ['a'])).map Prod.fst = none := by
    decide +kernel
  rw [same, opens] at unlinks
  cases unlinks

end Scepter.Minix3.PathWalk
