import Scepter.Lib.Path
import Mathlib.Data.List.Basic

/-! Finding the path of an open directory again (minix3_vfs_getpath, ext2_vfs_getpath, and
fs_fchdir of fs/vfs.c). The search reads every inode that has the type of a directory, in use
or not. resolve_path and resolve_mount are given on the names of a path: the root of the task
goes in front, and the mount with the longest point is taken. -/
namespace Scepter.Getpath
open Scepter.Path (Str)

def MAX_PATH_LEN : Nat := 256
def NUL : Char := Char.ofNat 0
def DOT : Str := ['.']
def DOTDOT : Str := ['.', '.']

/-- What the search reads, and beside it the parent and the name of each directory in use but
the root. `skips` is set for ext2, which passes over the entries of a directory for itself and
its parent; `bound` is s_inodes_count there, the size of the buffer for minix3, whose loop
that size ends. -/
structure Volume where
  root : Nat
  count : Nat
  skips : Bool
  bound : Nat
  dirs : Nat → Option (List (Str × Nat))
  up : Nat → Option (Nat × Str)

namespace Volume
variable (v : Volume)

def InUse (d : Nat) : Prop := d = v.root ∨ (v.up d).isSome

structure Tree : Prop where
  top : v.up v.root = none
  topDir : (v.dirs v.root).isSome
  above : ∀ d p name, v.up d = some (p, name) → v.InUse p ∧ Path.Name name ∧ NUL ∉ name ∧ p ≠ d ∧
    (v.dirs d).isSome ∧ ∃ es, v.dirs p = some es ∧ (es.find? fun e => e.1 = name) = some (name, d)
  listed : ∀ d es name i, v.InUse d → v.dirs d = some es → (name, i) ∈ es → (v.dirs i).isSome →
    name = DOT ∧ i = d ∨ name = DOTDOT ∧ (i = d ∨ ∃ n, v.up d = some (i, n)) ∨
      v.up i = some (d, name)

inductive Live : Nat → List Str → Prop where
  | root : Live v.root []
  | child {d p : Nat} {name : Str} {ns : List Str} (above : v.up d = some (p, name))
      (parent : Live p ns) : Live d (ns ++ [name])

def holds (ino : Nat) (entries : List (Str × Nat)) : Option Str :=
  (entries.find? fun e => e.2 = ino ∧ !(v.skips ∧ (e.1 = DOT ∨ e.1 = DOTDOT))).map Prod.fst

def findParent (ino : Nat) : Option (Nat × Str) :=
  (List.range' 1 v.count).findSome? fun d =>
    if d = ino then none
    else (v.dirs d).bind fun es => (v.holds ino es).map fun name => (d, name)

def climb (fuel ino : Nat) (rev : Str) : Option Str :=
  if ino = v.root then some rev
  else match fuel with
    | 0 => none
    | fuel + 1 => match v.findParent ino with
      | none => none
      | some (parent, name) =>
        if name = [] ∨ rev.length + name.length + 1 ≥ MAX_PATH_LEN then none
        else climb fuel parent ('/' :: name ++ rev)

def getpath (stack : Char) (bufsize ino : Nat) : Option Str :=
  if ino = v.root then if bufsize < 2 then none else some ['/', NUL]
  else (v.climb v.bound ino []).bind fun rev =>
    if rev.length + 1 > bufsize then none else some (rev ++ [stack])

def walk : Nat → List Str → Option Nat
  | ino, [] => some ino
  | ino, name :: rest => (v.dirs ino).bind fun es =>
    (es.find? fun e => e.1 = name).bind fun e => walk e.2 rest

inductive Cleared : Nat → Prop where
  | root : Cleared v.root
  | child {d p : Nat} {name : Str} (above : v.up d = some (p, name))
      (first : v.findParent d = some (p, name)) (parent : Cleared p) : Cleared d

end Volume

def pathOf (ns : List Str) : Str := ns.flatMap fun name => '/' :: name

structure World where
  mounts : List (Nat × List Str)
  volume : Nat → Volume

def serve (cs : List Str) : List (Nat × List Str) → Option (Nat × List Str)
  | [] => none
  | m :: rest => match serve cs rest with
    | none => if m.2 <+: cs then some m else none
    | some best => if m.2 <+: cs ∧ best.2.length < m.2.length then some m else some best

/-- The names that resolve_path gives for a path of proper names, under the root of a task. -/
def resolve (root ns : List Str) : Option (List Str) :=
  if (pathOf root).length + (pathOf ns).length ≥ MAX_PATH_LEN then none else some (root ++ ns)

def World.lands (w : World) (cs : List Str) : Option (Nat × Nat) :=
  (serve cs w.mounts).bind fun m =>
    ((w.volume m.1).walk (w.volume m.1).root (cs.drop m.2.length)).map fun ino => (m.1, ino)

def World.opens (w : World) (root ns : List Str) : Option (Nat × Nat) :=
  (resolve root ns).bind w.lands

def World.fchdir (w : World) (stack : Char) (root : List Str) (m ino : Nat) : Option (List Str) :=
  ((w.volume m).getpath stack MAX_PATH_LEN ino).bind fun buf =>
    resolve root (Path.components (buf.takeWhile fun c => c ≠ NUL))

/-- The path ends with a NUL; opened by the task it leads to the inode again, and so does the
working directory that fchdir stores. -/
def Proper (w : World) (stack : Char) (root : List Str) (m ino : Nat) : Prop :=
  ∃ path, (w.volume m).getpath stack MAX_PATH_LEN ino = some (path ++ [NUL]) ∧ NUL ∉ path ∧
    w.opens root (Path.components path) = some (m, ino) ∧
    ∃ cwd, w.fchdir stack root m ino = some cwd ∧ w.lands cwd = some (m, ino)

/-! ## The search -/

namespace Volume
variable {v : Volume}

theorem Live.used {d : Nat} {ns : List Str} (live : v.Live d ns) : v.InUse d := by
  cases live with
  | root => exact .inl rfl
  | child above _ => exact .inr (by rw [above]; rfl)

theorem findParentSome {ino d : Nat} {name : Str} (found : v.findParent ino = some (d, name)) :
    d ≠ ino ∧ ∃ es, v.dirs d = some es ∧ (name, ino) ∈ es := by
  obtain ⟨d', _, hit⟩ := List.exists_of_findSome?_eq_some found
  split at hit
  · cases hit
  · rename_i other
    obtain ⟨es, read, hit⟩ := Option.bind_eq_some_iff.mp hit
    obtain ⟨name', held, same⟩ := Option.map_eq_some_iff.mp hit
    cases same
    obtain ⟨e, first, rfl⟩ := Option.map_eq_some_iff.mp held
    have is := List.find?_some first
    have member := List.mem_of_find?_eq_some first
    have same : e.2 = ino := by
      have both := of_decide_eq_true is
      exact both.1
    exact ⟨other, es, read, same ▸ member⟩

theorem findParentCases (tree : v.Tree) {x y : Nat} {name : Str}
    (isDir : (v.dirs x).isSome) (found : v.findParent x = some (y, name)) :
    v.up x = some (y, name) ∨ (∃ n, v.up y = some (x, n)) ∨ ¬v.InUse y ∧ (v.dirs y).isSome := by
  obtain ⟨other, es, read, member⟩ := findParentSome found
  by_cases inUse : v.InUse y
  · rcases tree.listed y es name x inUse read member isDir with
      ⟨_, same⟩ | ⟨_, same | ⟨n, parent⟩⟩ | parent
    · exact absurd same.symm other
    · exact absurd same.symm other
    · exact .inr (.inl ⟨n, parent⟩)
    · exact .inl parent
  · exact .inr (.inr ⟨inUse, by rw [read]; rfl⟩)

theorem climbStale (tree : v.Tree) (fuel : Nat) : ∀ (y : Nat) (rev : Str), ¬v.InUse y →
    (v.dirs y).isSome → v.climb fuel y rev = none := by
  induction fuel with
  | zero =>
    intro y rev stale _
    rw [climb, if_neg fun root => stale (.inl root)]
  | succ fuel ih =>
    intro y rev stale isDir
    rw [climb, if_neg fun root => stale (.inl root)]
    cases found : v.findParent y with
    | none => rfl
    | some next =>
      obtain ⟨z, name⟩ := next
      dsimp only
      split
      · rfl
      · obtain ⟨other, es, read, member⟩ := findParentSome found
        refine ih z _ (fun inUse => ?_) (by rw [read]; rfl)
        rcases tree.listed z es name y inUse read member isDir with
          ⟨_, same⟩ | ⟨_, same | ⟨n, parent⟩⟩ | parent
        · exact other same.symm
        · exact other same.symm
        · exact stale (tree.above z y n parent).1
        · exact stale (.inr (by rw [parent]; rfl))

theorem upDir (tree : v.Tree) {d p : Nat} {name : Str} (above : v.up d = some (p, name)) :
    (v.dirs d).isSome ∧ d ≠ v.root := by
  refine ⟨(tree.above d p name above).2.2.2.2.1, fun root => ?_⟩
  rw [root, tree.top] at above
  cases above

theorem climbDown (tree : v.Tree) (fuel : Nat) : ∀ (x c : Nat) (name n rev : Str), x ≠ v.root →
    v.findParent x = some (c, name) → v.up c = some (x, n) → v.climb fuel c rev = none := by
  induction fuel using Nat.strongRecOn with
  | ind fuel ih =>
    intro x c name n rev below first above
    obtain ⟨isDir, notRoot⟩ := upDir tree above
    cases fuel with
    | zero => rw [climb, if_neg notRoot]
    | succ fuel =>
      rw [climb, if_neg notRoot]
      cases found : v.findParent c with
      | none => rfl
      | some next =>
        obtain ⟨y, name'⟩ := next
        dsimp only
        split
        · rfl
        · rcases findParentCases tree isDir found with parent | ⟨n', child⟩ | ⟨stale, isDir'⟩
          · -- back at the parent, whose search leads down again
            cases above.symm.trans parent
            cases fuel with
            | zero => rw [climb, if_neg below]
            | succ fuel =>
              rw [climb, if_neg below, first]
              dsimp only
              split
              · rfl
              · exact ih fuel (by omega) x c name n _ below first above
          · exact ih fuel (Nat.lt_succ_self _) c y name' n' _ notRoot found child
          · exact climbStale tree fuel y _ stale isDir'

theorem pathOfSnoc (ns : List Str) (name : Str) :
    pathOf (ns ++ [name]) = pathOf ns ++ '/' :: name := by
  rw [pathOf, List.flatMap_append, List.flatMap_singleton]
  rfl

theorem climbIff (tree : v.Tree) {d : Nat} {ns : List Str} (live : v.Live d ns) :
    ∀ (fuel : Nat) (rev out : Str), v.climb fuel d rev = some out ↔
      ns.length ≤ fuel ∧ v.Cleared d ∧ out = pathOf ns ++ rev ∧
        (ns ≠ [] → (pathOf ns ++ rev).length < MAX_PATH_LEN) := by
  induction live with
  | root =>
    intro fuel rev out
    have here : v.climb fuel v.root rev = some rev := by
      cases fuel <;> rw [climb, if_pos rfl]
    rw [here]
    constructor
    · intro same
      cases same
      exact ⟨Nat.zero_le _, .root, rfl, fun absurd' => absurd rfl absurd'⟩
    · rintro ⟨_, _, rfl, _⟩
      rfl
  | @child d p name ns above parent ih =>
    intro fuel rev out
    obtain ⟨isDir, notRoot⟩ := upDir tree above
    cases fuel with
    | zero =>
      rw [climb, if_neg notRoot]
      refine iff_of_false nofun fun all => ?_
      have length := all.1
      rw [List.length_append] at length
      exact absurd length (Nat.not_succ_le_zero _)
    | succ fuel =>
      rw [climb, if_neg notRoot]
      by_cases first : v.findParent d = some (p, name)
      · rw [first]
        dsimp only
        have filled : name ≠ [] := (tree.above d p name above).2.1.1
        have sum : (pathOf (ns ++ [name]) ++ rev).length =
            (pathOf ns).length + (rev.length + name.length + 1) := by
          rw [pathOfSnoc, List.length_append, List.length_append, List.length_cons]
          omega
        have joined : pathOf ns ++ ('/' :: name ++ rev) = pathOf (ns ++ [name]) ++ rev := by
          rw [pathOfSnoc, List.append_assoc]
        have levels : (ns ++ [name]).length = ns.length + 1 := List.length_append
        by_cases long : rev.length + name.length + 1 ≥ MAX_PATH_LEN
        · rw [if_pos (.inr long)]
          refine iff_of_false nofun fun all => ?_
          have short := all.2.2.2 (List.append_ne_nil_of_right_ne_nil _ (List.cons_ne_nil _ _))
          omega
        · rw [if_neg (not_or.mpr ⟨filled, long⟩), ih fuel ('/' :: name ++ rev) out, joined, levels]
          constructor
          · rintro ⟨length, cleared, rfl, short⟩
            refine ⟨Nat.succ_le_succ length, .child above first cleared, rfl, fun _ => ?_⟩
            by_cases top : ns = []
            · rw [sum, top]
              change 0 + _ < _
              omega
            · exact short top
          · rintro ⟨length, cleared, rfl, short⟩
            refine ⟨Nat.le_of_succ_le_succ length, ?_, rfl, fun _ =>
              short (List.append_ne_nil_of_right_ne_nil _ (List.cons_ne_nil _ _))⟩
            cases cleared with
            | root => exact absurd rfl notRoot
            | child above' _ cleared =>
              cases above.symm.trans above'
              exact cleared
      · have refused : ¬v.Cleared d := fun cleared => by
          cases cleared with
          | root => exact notRoot rfl
          | child above' first' _ =>
            cases above.symm.trans above'
            exact first first'
        refine iff_of_false (fun ran => ?_) fun all => refused all.2.1
        cases found : v.findParent d with
        | none =>
          rw [found] at ran
          cases ran
        | some next =>
          obtain ⟨y, name'⟩ := next
          rw [found] at ran
          dsimp only at ran
          split at ran
          · cases ran
          · rcases findParentCases tree isDir found with up | ⟨n, child⟩ | ⟨stale, isDir'⟩
            · rw [above] at up
              cases up
              exact first found
            · rw [climbDown tree fuel d y name' n _ notRoot found child] at ran
              cases ran
            · rw [climbStale tree fuel y _ stale isDir'] at ran
              cases ran

theorem walkLive (tree : v.Tree) {d : Nat} {ns : List Str} (live : v.Live d ns) :
    ∀ rest, v.walk v.root (ns ++ rest) = v.walk d rest := by
  induction live with
  | root => exact fun rest => rfl
  | @child d p name ns above parent ih =>
    intro rest
    obtain ⟨_, _, _, _, _, es, read, found⟩ := tree.above d p name above
    rw [List.append_assoc, ih]
    change (v.dirs p).bind _ = _
    rw [read, Option.bind_some, found]
    rfl

theorem liveWalk (tree : v.Tree) (rest : List Str) : ∀ (d x : Nat) (ns : List Str), v.Live d ns →
    Path.Names rest → (v.dirs x).isSome → v.walk d rest = some x → v.Live x (ns ++ rest) := by
  induction rest with
  | nil =>
    intro d x ns live _ _ same
    cases same
    rw [List.append_nil]
    exact live
  | cons name rest ih =>
    intro d x ns live names isDir walked
    rw [walk] at walked
    obtain ⟨es, read, walked⟩ := Option.bind_eq_some_iff.mp walked
    obtain ⟨e, found, walked⟩ := Option.bind_eq_some_iff.mp walked
    have is : e.1 = name := by simpa using List.find?_some found
    have member : (name, e.2) ∈ es := is ▸ List.mem_of_find?_eq_some found
    have here : (v.dirs e.2).isSome := by
      cases rest with
      | nil =>
        cases walked
        exact isDir
      | cons _ _ =>
        rw [walk] at walked
        obtain ⟨_, read', _⟩ := Option.bind_eq_some_iff.mp walked
        rw [read']
        rfl
    have proper := names name List.mem_cons_self
    have above : v.up e.2 = some (d, name) := by
      rcases tree.listed d es name e.2 live.used read member here with ⟨dot, _⟩ | ⟨dots, _⟩ | above
      · exact absurd dot proper.2.2.1
      · exact absurd dots proper.2.2.2
      · exact above
    have later := ih e.2 x (ns ++ [name]) (.child above live)
      (fun other inside => names other (List.mem_cons_of_mem _ inside)) isDir walked
    rw [List.append_assoc] at later
    exact later

theorem liveUnique (tree : v.Tree) {d : Nat} {ns ms : List Str} (live : v.Live d ns)
    (other : v.Live d ms) : ns = ms := by
  induction live generalizing ms with
  | root =>
    generalize same : v.root = r at other
    cases other with
    | root => rfl
    | child above _ =>
      rw [← same, tree.top] at above
      cases above
  | @child d p name ns above parent ih =>
    cases other with
    | root =>
      rw [tree.top] at above
      cases above
    | child above' parent' =>
      cases above.symm.trans above'
      rw [ih parent']

theorem liveNames (tree : v.Tree) {d : Nat} {ns : List Str} (live : v.Live d ns) :
    Path.Names ns ∧ ∀ name ∈ ns, NUL ∉ name := by
  induction live with
  | root => exact ⟨nofun, nofun⟩
  | @child d p name ns above _ ih =>
    obtain ⟨_, proper, plain, _⟩ := tree.above d p name above
    constructor
    · intro other inside
      rcases List.mem_append.mp inside with old | new
      · exact ih.1 other old
      · rw [List.mem_singleton.mp new]
        exact proper
    · intro other inside
      rcases List.mem_append.mp inside with old | new
      · exact ih.2 other old
      · rw [List.mem_singleton.mp new]
        exact plain

theorem liveTop {d : Nat} {ns : List Str} (live : v.Live d ns) (top : ns = []) : d = v.root := by
  cases live with
  | root => rfl
  | child _ _ => exact absurd top (List.append_ne_nil_of_right_ne_nil _ (List.cons_ne_nil _ _))

theorem liveDir (tree : v.Tree) {d : Nat} {ns : List Str} (live : v.Live d ns) :
    (v.dirs d).isSome := by
  cases live with
  | root => exact tree.topDir
  | child above _ => exact (upDir tree above).1

end Volume

/-! ## Paths and mounts -/

theorem pathOfFlat (ns : List Str) : pathOf ns ++ ['/'] = Path.flat ns := by
  induction ns with
  | nil => rfl
  | cons name ns ih =>
    change '/' :: (name ++ pathOf ns) ++ ['/'] = '/' :: ((name ++ ['/']) ++ Path.body ns)
    rw [List.cons_append, List.append_assoc, ih, List.append_assoc]
    rfl

theorem componentsPathOf {ns : List Str} (names : Path.Names ns) :
    Path.components (pathOf ns) = ns := by
  have split := Path.componentsSlash (pathOf ns) []
  rw [pathOfFlat, ← List.append_nil (Path.flat ns), Path.componentsFlat names] at split
  exact (List.append_cancel_right split).symm

theorem pathOfPlain {ns : List Str} (plain : ∀ name ∈ ns, NUL ∉ name) : NUL ∉ pathOf ns := by
  intro inside
  obtain ⟨name, member, here⟩ := List.mem_flatMap.mp inside
  rcases List.mem_cons.mp here with slash | below
  · revert slash
    decide
  · exact plain name member below

theorem serveSome {cs : List Str} {mounts : List (Nat × List Str)} {m : Nat × List Str}
    (served : serve cs mounts = some m) : m ∈ mounts ∧ m.2 <+: cs := by
  induction mounts with
  | nil => cases served
  | cons head rest ih =>
    rw [serve] at served
    cases behind : serve cs rest with
    | none =>
      rw [behind] at served
      dsimp only at served
      split at served
      · cases served
        exact ⟨List.mem_cons_self, ‹_›⟩
      · cases served
    | some best =>
      rw [behind] at served
      dsimp only at served
      split at served
      · rename_i longer
        cases served
        exact ⟨List.mem_cons_self, longer.1⟩
      · cases served
        obtain ⟨member, begins⟩ := ih behind
        exact ⟨List.mem_cons_of_mem _ member, begins⟩

theorem untilNul {path : Str} (plain : NUL ∉ path) :
    (path ++ [NUL]).takeWhile (fun c => c ≠ NUL) = path := by
  have each : ∀ c ∈ path, decide (c ≠ NUL) = true := fun c inside =>
    decide_eq_true fun (same : c = NUL) => plain (same ▸ inside)
  rw [List.takeWhile_append_of_pos each]
  exact List.append_nil path

section world
variable {w : World} {stack : Char} {root point ns : List Str} {m ino : Nat}

theorem opensIff (tree : (w.volume m).Tree) (live : (w.volume m).Live ino ns)
    (mounted : serve (point ++ ns) w.mounts = some (m, point))
    (once : ∀ other, (m, other) ∈ w.mounts → other = point) (names : Path.Names root) :
    w.opens root ns = some (m, ino) ↔
      root = point ∧ (pathOf root).length + (pathOf ns).length < MAX_PATH_LEN := by
  unfold World.opens resolve
  by_cases long : (pathOf root).length + (pathOf ns).length ≥ MAX_PATH_LEN
  · rw [if_pos long]
    exact iff_of_false nofun fun all => absurd long (Nat.not_le.mpr all.2)
  · rw [if_neg long, Option.bind_some]
    refine Iff.trans ?_ (and_iff_left (Nat.not_le.mp long)).symm
    unfold World.lands
    constructor
    · intro landed
      obtain ⟨⟨m', other⟩, served, landed⟩ := Option.bind_eq_some_iff.mp landed
      obtain ⟨x, walked, same⟩ := Option.map_eq_some_iff.mp landed
      cases same
      obtain ⟨member, begins⟩ := serveSome served
      obtain ⟨rest, whole⟩ := begins
      have here : other = point := once other member
      dsimp only at whole walked
      rw [← whole, List.drop_left] at walked
      have proper : Path.Names rest := fun c inside => by
        have both : c ∈ root ++ ns := whole ▸ List.mem_append_right _ inside
        rcases List.mem_append.mp both with front | back
        · exact names c front
        · exact (Volume.liveNames tree live).1 c back
      have isDir := Volume.liveDir tree live
      have again := Volume.liveWalk tree rest _ ino [] .root proper isDir walked
      rw [List.nil_append] at again
      rw [Volume.liveUnique tree again live] at whole
      exact (List.append_cancel_right whole).symm.trans here
    · rintro rfl
      rw [mounted, Option.bind_some, List.drop_left]
      have walked := Volume.walkLive tree live []
      rw [List.append_nil] at walked
      rw [walked]
      rfl

/-- The path of an open directory in use leads back to it just where the task's root is the
point of its mount, the path fits, the stack has a zero byte behind it, and on every level the
first directory with an entry is the parent. -/
theorem getpathIff (w : World) (stack : Char) (root point ns : List Str) (m ino : Nat)
    (tree : (w.volume m).Tree) (live : (w.volume m).Live ino ns)
    (mounted : serve (point ++ ns) w.mounts = some (m, point))
    (once : ∀ other, (m, other) ∈ w.mounts → other = point) (names : Path.Names root) :
    Proper w stack root m ino ↔
      root = point ∧ (pathOf root).length + (pathOf ns).length < MAX_PATH_LEN ∧
        (ns = [] ∨ stack = NUL ∧ ns.length ≤ (w.volume m).bound ∧ (w.volume m).Cleared ino) := by
  have opens := opensIff tree live mounted once names
  obtain ⟨proper, plain⟩ := Volume.liveNames tree live
  have whole (path : Str) (is : (w.volume m).getpath stack MAX_PATH_LEN ino = some (path ++ [NUL]))
      (clean : NUL ∉ path) (parts : Path.components path = ns) :
      Proper w stack root m ino ↔ w.opens root ns = some (m, ino) := by
    constructor
    · rintro ⟨path', is', _, opened, _⟩
      have same := List.append_cancel_right (Option.some.inj (is.symm.trans is'))
      rw [← same, parts] at opened
      exact opened
    · intro opened
      refine ⟨path, is, clean, parts.symm ▸ opened, ?_⟩
      unfold World.fchdir
      rw [is, Option.bind_some, untilNul clean, parts]
      exact Option.bind_eq_some_iff.mp opened
  by_cases top : ns = []
  · have is : (w.volume m).getpath stack MAX_PATH_LEN ino = some (['/'] ++ [NUL]) := by
      unfold Volume.getpath
      rw [if_pos (Volume.liveTop live top), if_neg (by decide)]
      rfl
    subst top
    rw [whole ['/'] is (by decide) rfl, opens]
    exact and_congr_right fun _ => (and_iff_left (.inl rfl)).symm
  · have notRoot : ino ≠ (w.volume m).root := fun same => by
      cases live with
      | root => exact top rfl
      | child above _ => exact (Volume.upDir tree above).2 same
    have searched := Volume.climbIff tree live (w.volume m).bound []
    have got : (w.volume m).getpath stack MAX_PATH_LEN ino =
        ((w.volume m).climb (w.volume m).bound ino []).bind fun rev =>
          if rev.length + 1 > MAX_PATH_LEN then none else some (rev ++ [stack]) := by
      unfold Volume.getpath
      rw [if_neg notRoot]
    rw [List.append_nil] at searched
    by_cases holds : ns.length ≤ (w.volume m).bound ∧ (w.volume m).Cleared ino ∧
        (pathOf ns).length < MAX_PATH_LEN
    · obtain ⟨bound, cleared, short⟩ := holds
      rw [(searched (pathOf ns)).mpr ⟨bound, cleared, rfl, fun _ => short⟩, Option.bind_some,
        if_neg (by omega)] at got
      by_cases ended : stack = NUL
      · subst ended
        rw [whole (pathOf ns) got (pathOfPlain plain) (componentsPathOf proper), opens]
        exact and_congr_right fun _ => (and_iff_left (.inr ⟨rfl, bound, cleared⟩)).symm
      · refine iff_of_false (fun ⟨path, is, _⟩ => ?_) fun all => ?_
        · have last := (List.append_inj' (Option.some.inj (got.symm.trans is)) rfl).2
          exact ended (List.head_eq_of_cons_eq last)
        · rcases all.2.2 with none | ⟨is, _⟩
          · exact top none
          · exact ended is
    · refine iff_of_false (fun ⟨path, is, _⟩ => holds ?_) fun all => holds ?_
      · rw [got] at is
        obtain ⟨rev, ran, _⟩ := Option.bind_eq_some_iff.mp is
        obtain ⟨bound, cleared, _, short⟩ := (searched rev).mp ran
        exact ⟨bound, cleared, short top⟩
      · rcases all.2.2 with none | ⟨_, bound, cleared⟩
        · exact absurd none top
        · exact ⟨bound, cleared, Nat.lt_of_le_of_lt (Nat.le_add_left _ _) all.2.1⟩

end world

def oneDir : Volume where
  root := 1
  count := 8
  skips := false
  bound := MAX_PATH_LEN
  dirs := fun d => if d = 1 then some [(DOT, 1), (DOTDOT, 1), (['d'], 2)]
    else if d = 2 then some [(DOT, 2), (DOTDOT, 1)] else none
  up := fun d => if d = 2 then some (1, ['d']) else none

theorem oneDirUp {d p : Nat} {name : Str} (above : oneDir.up d = some (p, name)) :
    d = 2 ∧ p = 1 ∧ name = ['d'] := by
  unfold oneDir at above
  dsimp only at above
  split at above
  · cases above
    exact ⟨‹_›, rfl, rfl⟩
  · cases above

theorem oneDirTree : oneDir.Tree := by
  refine ⟨rfl, rfl, fun d p name above => ?_, fun d es name i used read member isDir => ?_⟩
  · obtain ⟨rfl, rfl, rfl⟩ := oneDirUp above
    exact ⟨.inl rfl, by decide, by decide, by decide, rfl, _, rfl, by decide⟩
  · unfold oneDir at read
    dsimp only at read
    split at read
    · rename_i is
      cases read
      rcases List.mem_cons.mp member with same | member
      · cases same
        exact .inl ⟨rfl, is.symm⟩
      rcases List.mem_cons.mp member with same | member
      · cases same
        exact .inr (.inl ⟨rfl, .inl is.symm⟩)
      · cases List.mem_singleton.mp member
        rw [is]
        exact .inr (.inr rfl)
    · split at read
      · rename_i is
        cases read
        rcases List.mem_cons.mp member with same | member
        · cases same
          exact .inl ⟨rfl, is.symm⟩
        · cases List.mem_singleton.mp member
          rw [is]
          exact .inr (.inl ⟨rfl, .inr ⟨_, rfl⟩⟩)
      · cases read

theorem oneDirLive : oneDir.Live 2 [['d']] :=
  @Volume.Live.child oneDir 2 1 ['d'] [] rfl .root

/-- On the root mount, with a zero byte behind the path on the stack, "d" is found. -/
theorem dirFound : Proper ⟨[(0, [])], fun _ => oneDir⟩ NUL [] 0 2 := by
  refine (getpathIff ⟨[(0, [])], fun _ => oneDir⟩ NUL [] [] [['d']] 0 2 oneDirTree oneDirLive
    (by decide) (fun other inside => ?_) nofun).mpr ⟨rfl, by decide, .inr ⟨rfl, by decide, ?_⟩⟩
  · cases List.mem_singleton.mp inside
    rfl
  · exact @Volume.Cleared.child oneDir 2 1 ['d'] rfl (by decide) .root

/-- Another byte there, and the path does not end; below /m, and it leads to the root mount. -/
theorem dirLost :
    ¬Proper ⟨[(0, [])], fun _ => oneDir⟩ 'x' [] 0 2 ∧
    ¬Proper ⟨[(0, []), (1, [['m']])], fun _ => oneDir⟩ NUL [] 1 2 := by
  constructor
  · rintro ⟨path, is, _⟩
    have got : oneDir.getpath 'x' MAX_PATH_LEN 2 = some (['/', 'd'] ++ ['x']) := by decide
    have last := (List.append_inj' (Option.some.inj (got.symm.trans is)) rfl).2
    exact absurd last (by decide)
  · rintro ⟨path, is, _, opened, _⟩
    have got : oneDir.getpath NUL MAX_PATH_LEN 2 = some (['/', 'd'] ++ [NUL]) := by decide
    have same := List.append_cancel_right (Option.some.inj (got.symm.trans is))
    rw [← same] at opened
    revert opened
    decide

end Scepter.Getpath
