import Scepter.Lib.Hierarchy
import Scepter.Lib.Path
import Scepter.Lib.Run

/-! The nodes of a mounted tmpfs (fs/tmpfs.c): names, links and reference counts. A node
stands for its memory, which has no other use afterwards; node 0 is the root that the
mount made. What a regular file contains is left out. `freed` is for the statements only. -/
namespace Scepter.Tmpfs
open Scepter.Path (Str components)

structure TreeNode where
  name : Str
  isDir : Bool
  refcount : Int
  parent : Option Nat
  children : List Nat

structure Tree where
  node : Nat → TreeNode
  next : Nat
  -- the node of each open file
  handles : List Nat
  freed : List Nat

def root : Nat := 0

namespace Tree

def setNode (s : Tree) (n : Nat) (node : TreeNode) : Tree :=
  {s with node := Function.update s.node n node}

/-! ## Paths -/

def lookupChild (s : Tree) (dir : Nat) (name : Str) : Option Nat :=
  if (s.node dir).isDir then (s.node dir).children.find? fun c => (s.node c).name = name else none

def walk (s : Tree) : Nat → List Str → Option Nat
  | cur, [] => some cur
  | cur, comp :: rest =>
    if comp.length ≥ 64 then none
    else match lookupChild s cur comp with
      | some child => walk s child rest
      | none => none

def lookup (s : Tree) (path : Str) : Option Nat := walk s root (components path)

def walkParent (s : Tree) : Nat → List Str → Option (Nat × Str)
  | _, [] => none
  | cur, [leaf] => if leaf.length ≥ 64 then none else some (cur, leaf)
  | cur, comp :: rest =>
    if comp.length ≥ 64 then none
    else match lookupChild s cur comp with
      | some child => if (s.node child).isDir then walkParent s child rest else none
      | none => none

def lookupParent (s : Tree) (path : Str) : Option (Nat × Str) :=
  walkParent s root (components path)

/-! ## Links and references -/

def listDel (s : Tree) (n : Nat) : Tree :=
  match (s.node n).parent with
  | some p => setNode s p {s.node p with children := (s.node p).children.erase n}
  | none => s

def listAddTail (s : Tree) (p n : Nat) : Tree :=
  setNode s p {s.node p with children := (s.node p).children ++ [n]}

def nodePut (s : Tree) (n : Nat) : Tree :=
  let refcount := (s.node n).refcount - 1
  let s := setNode s n {s.node n with refcount := refcount}
  if refcount > 0 then s else {s with freed := n :: s.freed}

def addNode (s : Tree) (p : Nat) (leaf : Str) (isDir : Bool) : Tree :=
  listAddTail {setNode s s.next ⟨leaf, isDir, 1, some p, []⟩ with next := s.next + 1} p s.next

def dropNode (s : Tree) (n : Nat) : Tree :=
  let s := listDel s n
  nodePut (setNode s n {s.node n with parent := none}) n

/-! ## Calls -/

def openNode (s : Tree) (n : Nat) (room : Bool) : Tree :=
  if room then
    {setNode s n {s.node n with refcount := (s.node n).refcount + 1} with handles := n :: s.handles}
  else s

def openFound (s : Tree) (n : Nat) (directory room : Bool) : Tree :=
  if directory ∧ !(s.node n).isDir then s
  else if !directory ∧ (s.node n).isDir then s
  else openNode s n room

def tmpfsOpen (s : Tree) (path : Str) (create directory nodeRoom room : Bool) : Tree :=
  if components path = [] then if directory then openNode s root room else s
  else match lookup s path with
    | some n => openFound s n directory room
    | none =>
      if create then match lookupParent s path with
        | some (p, leaf) =>
          if nodeRoom then openFound (addNode s p leaf false) s.next directory room else s
        | none => s
      else s

def tmpfsClose (s : Tree) (n : Nat) : Tree := {nodePut s n with handles := s.handles.erase n}

def tmpfsMkdir (s : Tree) (path : Str) (nodeRoom : Bool) : Tree :=
  match lookup s path with
  | some _ => s
  | none => match lookupParent s path with
    | some (p, leaf) => if nodeRoom then addNode s p leaf true else s
    | none => s

def tmpfsRmdir (s : Tree) (path : Str) : Tree :=
  match lookup s path with
  | some n =>
    if !(s.node n).isDir then s
    else if (s.node n).children ≠ [] then s
    else dropNode s n
  | none => s

def tmpfsUnlink (s : Tree) (path : Str) : Tree :=
  match lookup s path with
  | some n => if (s.node n).isDir then s else dropNode s n
  | none => s

def meets (s : Tree) (n : Nat) : Nat → Option Nat → Bool
  | 0, _ => false
  | _, none => false
  | fuel + 1, some walk => walk = n || meets s n fuel (s.node walk).parent

def intoItself (s : Tree) (n p : Nat) : Bool := (s.node n).isDir && meets s n s.next (some p)

def tmpfsRename (s : Tree) (oldPath newPath : Str) : Tree :=
  match lookup s oldPath with
  | some n => match lookupParent s newPath with
    | some (p, leaf) =>
      if intoItself s n p then s
      else
        let s := listDel s n
        listAddTail (setNode s n {s.node n with parent := some p, name := leaf}) p n
    | none => s
  | none => s

inductive Action where
  | openFile (path : Str) (create directory nodeRoom room : Bool)
  | close (n : Nat)
  | mkdir (path : Str) (nodeRoom : Bool)
  | rmdir (path : Str)
  | unlink (path : Str)
  | rename (oldPath newPath : Str)

def step (s : Tree) : Action → Option Tree
  | .openFile path create directory nodeRoom room =>
    some (tmpfsOpen s path create directory nodeRoom room)
  | .close n => if n ∈ s.handles then some (tmpfsClose s n) else none
  | .mkdir path nodeRoom => some (tmpfsMkdir s path nodeRoom)
  | .rmdir path => some (tmpfsRmdir s path)
  | .unlink path => some (tmpfsUnlink s path)
  | .rename oldPath newPath => some (tmpfsRename s oldPath newPath)

def mounted : Tree := ⟨fun _ => ⟨[], true, 1, none, []⟩, 1, [], []⟩

/-! ## The tree -/

def linked (s : Tree) : Finset Nat :=
  (Finset.range s.next).filter fun n => n = root ∨ (s.node n).parent.isSome

def shape (s : Tree) : Hierarchy Nat :=
  ⟨linked s, fun n => ↑(s.node n).children, fun n => (s.node n).parent.getD n⟩

def siblingNames (s : Tree) (d : Nat) : List Str := (s.node d).children.map fun c => (s.node c).name

structure Whole (s : Tree) : Prop where
  rooted : Hierarchy.Rooted root (shape s)
  siblings : ∀ d ∈ linked s, (siblingNames s d).Nodup
  rootKept : root ∉ s.freed
  counts : ∀ n < s.next, n ∉ s.freed →
    (s.node n).refcount = s.handles.count n + if n ∈ linked s then 1 else 0
  freedOnce : s.freed.Nodup
  freed : ∀ n < s.next, n ∈ s.freed ↔ n ∉ linked s ∧ n ∉ s.handles

structure Shaped (s : Tree) : Prop where
  rooted : Hierarchy.Rooted root (shape s)
  siblings : ∀ d ∈ linked s, (siblingNames s d).Nodup
  orphan : (s.node root).parent = none
  inside : ∀ d ∈ linked s, ∀ c ∈ (s.node d).children, c ∈ linked s
  files : ∀ n ∈ linked s, (s.node n).isDir = false → (s.node n).children = []
  rootDir : (s.node root).isDir = true

structure Counted (s : Tree) (owed : Nat → Int) : Prop where
  counts : ∀ n < s.next, n ∉ s.freed →
    (s.node n).refcount = s.handles.count n + (if n ∈ linked s then 1 else 0) + owed n
  freedOnce : s.freed.Nodup
  freed : ∀ n < s.next, n ∈ s.freed ↔ n ∉ linked s ∧ n ∉ s.handles ∧ owed n = 0
  opened : ∀ n ∈ s.handles, n < s.next
  old : ∀ n ∈ s.freed, n < s.next

structure Kept (s : Tree) : Prop where
  shaped : Shaped s
  counted : Counted s fun _ => 0

theorem Kept.whole {s : Tree} (kept : Kept s) : Whole s := by
  obtain ⟨shaped, counted⟩ := kept
  refine ⟨shaped.rooted, shaped.siblings, fun freed => ?_, fun n below unfreed => ?_,
    counted.freedOnce, fun n below => ?_⟩
  · exact ((counted.freed root (counted.old root freed)).mp freed).1 shaped.rooted.here
  · exact (counted.counts n below unfreed).trans (Int.add_zero _)
  · exact (counted.freed n below).trans (and_congr_right fun _ => and_iff_left rfl)

theorem memLinked (s : Tree) (n : Nat) :
    n ∈ linked s ↔ n < s.next ∧ (n = root ∨ (s.node n).parent.isSome) := by
  unfold linked
  rw [Finset.mem_filter, Finset.mem_range]

theorem linkedBelow {s : Tree} {n : Nat} (member : n ∈ linked s) : n < s.next :=
  ((memLinked s n).mp member).1

theorem mountedKept : Kept mounted := by
  have only : linked mounted = {root} := by decide
  have isRoot : ∀ n ∈ linked mounted, n = root := fun n member => by
    rw [only] at member
    exact Finset.mem_singleton.mp member
  have unnamed : (shape mounted).names root = 0 :=
    (Hierarchy.namesNone _ root).mpr fun d _ member => List.not_mem_nil (Multiset.mem_coe.mp member)
  have rooted : Hierarchy.Rooted root (shape mounted) := by
    refine ⟨by decide, rfl, unnamed, fun d member other => ?_, fun d member other => ?_,
      fun d member => ⟨0, isRoot d member⟩⟩
    · exact absurd (isRoot d member) other
    · exact absurd (isRoot d member) other
  have shaped : Shaped mounted := ⟨rooted, fun d _ => List.nodup_nil, rfl,
    fun d _ c child => (nomatch child), fun n _ _ => rfl, rfl⟩
  refine ⟨shaped, fun n below _ => ?_, List.nodup_nil, fun n below => ?_, nofun, nofun⟩
  all_goals
    have zero : n = root := Nat.lt_one_iff.mp below
    subst zero
  · rfl
  · exact ⟨nofun, fun free => absurd (by decide) free.1⟩

section
variable {s s' : Tree} {n p : Nat} {owed : Nat → Int}

theorem Counted.unfreed (counted : Counted s owed) (member : n ∈ linked s) : n ∉ s.freed :=
  fun freed => ((counted.freed n (linkedBelow member)).mp freed).1 member

theorem Shaped.inParent (shaped : Shaped s) (member : n ∈ linked s) (other : n ≠ root) :
    ∃ p, (s.node n).parent = some p ∧ p ∈ linked s ∧ n ∈ (s.node p).children ∧ p ≠ n := by
  obtain ⟨-, isRoot | isSome⟩ := (memLinked s n).mp member
  · exact absurd isRoot other
  obtain ⟨p, parent⟩ := Option.isSome_iff_exists.mp isSome
  have up : (shape s).parent n = p := by
    change (s.node n).parent.getD n = p
    rw [parent]
    rfl
  obtain ⟨inside, named⟩ := shaped.rooted.inParent n member other
  have apart := shaped.rooted.parentOther member other
  rw [up] at inside named apart
  exact ⟨p, parent, inside, named, apart⟩

theorem Shaped.parentOf (shaped : Shaped s) (here : p ∈ linked s)
    (child : n ∈ (s.node p).children) :
    n ∈ linked s ∧ n ≠ root ∧ (s.node n).parent = some p := by
  have member := shaped.inside p here n child
  obtain ⟨other, up⟩ := shaped.rooted.namedIn here member child
  obtain ⟨q, parent, -⟩ := shaped.inParent member other
  have same : (s.node n).parent.getD n = p := up
  rw [parent] at same
  exact ⟨member, other, parent.trans (congrArg some same)⟩

theorem Shaped.children (shaped : Shaped s) (here : p ∈ linked s) : (s.node p).children.Nodup :=
  List.Nodup.of_map _ (shaped.siblings p here)

/-! ## References -/

structure Alike (s s' : Tree) : Prop where
  next : s'.next = s.next
  node : ∀ n, s'.node n = {s.node n with refcount := (s'.node n).refcount}

theorem Alike.shape (alike : Alike s s') : shape s' = shape s := by
  have parent : ∀ n, (s'.node n).parent = (s.node n).parent := fun n => by rw [alike.node n]
  have children : ∀ n, (s'.node n).children = (s.node n).children := fun n => by rw [alike.node n]
  have dirs : linked s' = linked s := by
    ext n
    rw [memLinked, memLinked, alike.next, parent n]
  unfold Tree.shape
  rw [dirs]
  congr 1
  · funext n
    rw [children n]
  · funext n
    rw [parent n]

theorem Alike.linked (alike : Alike s s') : linked s' = linked s :=
  congrArg Hierarchy.dirs alike.shape

theorem Alike.shaped (alike : Alike s s') (shaped : Shaped s) : Shaped s' := by
  have children : ∀ n, (s'.node n).children = (s.node n).children := fun n => by rw [alike.node n]
  have names : ∀ d, siblingNames s' d = siblingNames s d := by
    intro d
    unfold siblingNames
    rw [children d]
    exact List.map_congr_left fun c _ => by rw [alike.node c]
  refine ⟨alike.shape ▸ shaped.rooted, fun d member => ?_, ?_, fun d member c child => ?_,
    fun n member isFile => ?_, ?_⟩
  · rw [names d]
    exact shaped.siblings d (alike.linked ▸ member)
  · rw [alike.node root]
    exact shaped.orphan
  · rw [alike.linked] at member ⊢
    exact shaped.inside d member c (children d ▸ child)
  · rw [alike.node n] at isFile
    exact (children n).trans (shaped.files n (alike.linked ▸ member) isFile)
  · rw [alike.node root]
    exact shaped.rootDir

theorem putNode (s : Tree) (n m : Nat) : (nodePut s n).node m = {s.node m with
    refcount := (s.node m).refcount - if m = n then 1 else 0} := by
  have set : (nodePut s n).node = Function.update s.node n
      {s.node n with refcount := (s.node n).refcount - 1} := by
    unfold nodePut
    dsimp only
    split <;> rfl
  rw [set]
  by_cases same : m = n
  · rw [same, Function.update_self, if_pos rfl]
  · rw [Function.update_of_ne same, if_neg same, Int.sub_zero]

theorem putAlike (s : Tree) (n : Nat) : Alike s (nodePut s n) := by
  refine ⟨?_, fun m => ?_⟩
  · unfold nodePut
    dsimp only
    split <;> rfl
  · rw [putNode]

@[simp] theorem putHandles (s : Tree) (n : Nat) : (nodePut s n).handles = s.handles := by
  unfold nodePut
  dsimp only
  split <;> rfl

theorem putCounted (counted : Counted s fun m => if m = n then 1 else 0) (below : n < s.next) :
    Counted (nodePut s n) fun _ => 0 := by
  have alike := putAlike s n
  have unfreed : n ∉ s.freed := fun freed => by
    have owed := ((counted.freed n below).mp freed).2.2
    rw [if_pos rfl] at owed
    cases owed
  have count := counted.counts n below unfreed
  rw [if_pos rfl] at count
  have last : (s.node n).refcount - 1 > 0 ↔ n ∈ linked s ∨ n ∈ s.handles := by
    rw [count, ← List.count_pos_iff]
    by_cases member : n ∈ linked s
    · simp only [member, if_true, true_or, iff_true]
      omega
    · simp only [member, if_false, false_or]
      omega
  have freed : ∀ m, m ∈ (nodePut s n).freed ↔
      m ∈ s.freed ∨ m = n ∧ n ∉ linked s ∧ n ∉ s.handles := by
    intro m
    unfold nodePut
    dsimp only
    split <;> rename_i more
    · refine ⟨.inl, fun | .inl before => before | .inr gone => ?_⟩
      exact absurd (last.mp more) (not_or.mpr gone.2)
    · have gone := not_or.mp fun still => more (last.mpr still)
      exact List.mem_cons.trans
        ⟨fun | .inl same => .inr ⟨same, gone⟩ | .inr before => .inl before,
          fun | .inl before => .inr before | .inr same => .inl same.1⟩
  refine ⟨fun m small kept => ?_, ?_, fun m small => ?_, fun m opened => ?_, fun m gone => ?_⟩
  · have before := counted.counts m (alike.next ▸ small) fun was => kept ((freed m).mpr (.inl was))
    rw [putNode, alike.linked, putHandles]
    dsimp only
    rw [before]
    omega
  · have once := counted.freedOnce
    unfold nodePut
    dsimp only
    split
    · exact once
    · exact List.nodup_cons.mpr ⟨unfreed, once⟩
  · rw [freed, alike.linked, putHandles, counted.freed m (alike.next ▸ small)]
    by_cases same : m = n
    · subst same
      simp only [if_true, Int.one_ne_zero, and_false, false_or, true_and, and_true]
    · simp only [same, if_false, and_true, false_and, or_false]
  · rw [putHandles] at opened
    exact alike.next ▸ counted.opened m opened
  · rcases (freed m).mp gone with before | ⟨rfl, -⟩
    · exact alike.next ▸ counted.old m before
    · exact alike.next ▸ below

theorem openNodeKept (kept : Kept s) (member : n ∈ linked s) (room : Bool) :
    Kept (openNode s n room) := by
  unfold openNode
  split
  swap
  · exact kept
  obtain ⟨shaped, counted⟩ := kept
  have nodes : ∀ m, Function.update s.node n {s.node n with refcount := (s.node n).refcount + 1} m =
      {s.node m with refcount := (s.node m).refcount + if m = n then 1 else 0} := by
    intro m
    by_cases same : m = n
    · rw [same, Function.update_self, if_pos rfl]
    · rw [Function.update_of_ne same, if_neg same, Int.add_zero]
  have alike : Alike s {setNode s n {s.node n with refcount := (s.node n).refcount + 1} with
      handles := n :: s.handles} := ⟨rfl, fun m => by
    unfold setNode
    dsimp only
    rw [nodes]⟩
  refine ⟨alike.shaped shaped, fun m below unfreed => ?_, counted.freedOnce, fun m below => ?_,
    fun m opened => ?_, counted.old⟩
  · have count := counted.counts m below unfreed
    rw [alike.linked]
    unfold setNode
    dsimp only
    rw [nodes]
    dsimp only
    rw [count, List.count_cons]
    push_cast
    by_cases same : m = n
    · rw [if_pos same, same]
      simp only [beq_self_eq_true, if_true]
      omega
    · rw [if_neg same]
      simp only [beq_iff_eq, Ne.symm same, if_false]
      omega
  · rw [alike.linked]
    refine (counted.freed m below).trans (and_congr_right fun unlinked => and_congr_left fun _ => ?_)
    have other : m ≠ n := fun same => unlinked (same ▸ member)
    exact not_congr (List.mem_cons.trans (or_iff_right other)).symm
  · rcases List.mem_cons.mp opened with rfl | before
    · exact show m < s.next from linkedBelow member
    · exact counted.opened m before

theorem closeKept (kept : Kept s) (opened : n ∈ s.handles) : Kept (tmpfsClose s n) := by
  obtain ⟨shaped, counted⟩ := kept
  have unfreed : n ∉ s.freed := fun freed =>
    ((counted.freed n (counted.opened n opened)).mp freed).2.1 opened
  have owed : Counted {s with handles := s.handles.erase n} fun m => if m = n then 1 else 0 := by
    refine ⟨fun m below kept => ?_, counted.freedOnce, fun m below => ?_, fun m open' => ?_,
      counted.old⟩
    · change _ = _ + (if m ∈ linked s then 1 else 0) + _
      have count := counted.counts m below kept
      dsimp only
      rw [count]
      by_cases same : m = n
      · have one := List.count_pos_iff.mpr opened
        rw [same, List.count_erase_self, if_pos rfl]
        omega
      · rw [List.count_erase_of_ne same, if_neg same]
    · refine (counted.freed m below).trans (and_congr_right fun _ => ?_)
      by_cases same : m = n
      · subst same
        simp only [opened, not_true_eq_false, false_and, if_true, Int.one_ne_zero, and_false]
      · simp only [List.mem_erase_of_ne same, same, if_false]
    · exact counted.opened m (List.mem_of_mem_erase open')
  have put := putCounted owed (counted.opened n opened)
  have alike := putAlike {s with handles := s.handles.erase n} n
  have same : tmpfsClose s n = nodePut {s with handles := s.handles.erase n} n := by
    unfold tmpfsClose nodePut setNode
    dsimp only
    split <;> rfl
  rw [same]
  have base : Shaped {s with handles := s.handles.erase n} :=
    ⟨shaped.rooted, shaped.siblings, shaped.orphan, shaped.inside, shaped.files, shaped.rootDir⟩
  exact ⟨alike.shaped base, put⟩

/-! ## New nodes -/

theorem addAt (leaf : Str) (isDir : Bool) (apart : p ≠ s.next) (m : Nat) :
    (addNode s p leaf isDir).node m =
      if m = p then {s.node p with children := (s.node p).children ++ [s.next]}
      else if m = s.next then ⟨leaf, isDir, 1, some p, []⟩ else s.node m := by
  unfold addNode listAddTail setNode
  dsimp only
  rw [Function.update_of_ne apart]
  by_cases isP : m = p
  · rw [isP, Function.update_self, if_pos rfl]
  · rw [Function.update_of_ne isP, if_neg isP]
    by_cases isNew : m = s.next
    · rw [isNew, Function.update_self, if_pos rfl]
    · rw [Function.update_of_ne isNew, if_neg isNew]

theorem addKept (kept : Kept s) (here : p ∈ linked s) (dir : (s.node p).isDir = true)
    {leaf : Str} (free : leaf ∉ siblingNames s p) (isDir : Bool) :
    Kept (addNode s p leaf isDir) ∧ s.next ∈ linked (addNode s p leaf isDir) := by
  obtain ⟨shaped, counted⟩ := kept
  have apart : p ≠ s.next := Nat.ne_of_lt (linkedBelow here)
  have fresh : s.next ∉ linked s := fun member => Nat.lt_irrefl _ (linkedBelow member)
  have others : ∀ m ∈ linked s, m ≠ s.next := fun m member => ne_of_mem_of_not_mem member fresh
  have at' := addAt leaf isDir apart
  have next : (addNode s p leaf isDir).next = s.next + 1 := rfl
  have parents : ∀ m, ((addNode s p leaf isDir).node m).parent =
      if m = s.next then some p else (s.node m).parent := by
    intro m
    rw [at']
    by_cases isP : m = p
    · rw [if_pos isP, if_neg (isP ▸ apart), isP]
    · rw [if_neg isP]
      split <;> rfl
  have names : ∀ m, m ≠ s.next → ((addNode s p leaf isDir).node m).name = (s.node m).name := by
    intro m other
    rw [at']
    by_cases isP : m = p
    · rw [if_pos isP, isP]
    · rw [if_neg isP, if_neg other]
  have dirs : linked (addNode s p leaf isDir) = insert s.next (linked s) := by
    ext m
    rw [memLinked, Finset.mem_insert, memLinked, parents, next]
    by_cases isNew : m = s.next
    · simp only [isNew, if_true, Option.isSome_some, or_true, and_true, true_or, iff_true]
      exact Nat.lt_succ_self _
    · simp only [isNew, if_false, false_or]
      exact and_congr_left fun _ => by omega
  have same : Hierarchy.Same ((shape s).mkdir p s.next) (shape (addNode s p leaf isDir)) := by
    refine ⟨dirs, fun d _ => ?_, fun d _ => ?_⟩
    · change (((addNode s p leaf isDir).node d).children : Multiset Nat) =
        Function.update (Function.update (shape s).named p _) s.next 0 d
      rw [at']
      by_cases isNew : d = s.next
      · rw [isNew, if_neg (Ne.symm apart), if_pos rfl, Function.update_self]
        rfl
      · rw [Function.update_of_ne isNew, if_neg isNew]
        by_cases isP : d = p
        · rw [if_pos isP, isP, Function.update_self]
          change (((s.node p).children ++ [s.next] : List Nat) : Multiset Nat) = _
          rw [← Multiset.coe_add, add_comm]
          rfl
        · rw [if_neg isP, Function.update_of_ne isP]
          rfl
    · change ((addNode s p leaf isDir).node d).parent.getD d =
        Function.update (shape s).parent s.next p d
      rw [parents]
      by_cases isNew : d = s.next
      · rw [isNew, if_pos rfl, Function.update_self]
        rfl
      · rw [if_neg isNew, Function.update_of_ne isNew]
        rfl
  have unnamed : (shape s).names s.next = 0 := (Hierarchy.namesNone _ _).mpr fun d member named =>
    fresh (shaped.inside d member s.next named)
  have rooted := (shaped.rooted.mkdir here fresh unnamed).congr same
  refine ⟨⟨⟨rooted, fun d member => ?_, ?_, fun d member c child => ?_, fun m member isFile => ?_,
    ?_⟩, fun m below unfreed => ?_, counted.freedOnce, fun m below => ?_, fun m opened => ?_,
    fun m gone => ?_⟩, dirs ▸ Finset.mem_insert_self _ _⟩
  · unfold siblingNames
    rw [at']
    rw [dirs] at member
    rcases Finset.mem_insert.mp member with rfl | before
    · rw [if_neg (Ne.symm apart), if_pos rfl]
      exact List.nodup_nil
    rw [if_neg (others d before)]
    have kept : ∀ e ∈ linked s, (s.node e).children.map
        (fun c => ((addNode s p leaf isDir).node c).name) = siblingNames s e := fun e inside =>
      List.map_congr_left fun c child => names c (others c (shaped.inside e inside c child))
    by_cases isP : d = p
    · subst isP
      rw [if_pos rfl]
      dsimp only
      rw [List.map_append, kept d here, List.map_singleton]
      refine List.nodup_append.mpr ⟨shaped.siblings d here, List.nodup_singleton _, ?_⟩
      intro name member' other single
      rw [List.mem_singleton.mp single, at', if_neg (Ne.symm apart), if_pos rfl]
      rintro rfl
      exact free member'
    · rw [if_neg isP, kept d before]
      exact shaped.siblings d before
  · rw [parents, if_neg (others root shaped.rooted.here).symm.symm]
    exact shaped.orphan
  · rw [dirs] at member ⊢
    rw [at'] at child
    rcases Finset.mem_insert.mp member with rfl | before
    · rw [if_neg (Ne.symm apart), if_pos rfl] at child
      cases child
    · rw [if_neg (others d before)] at child
      by_cases isP : d = p
      · subst isP
        rw [if_pos rfl] at child
        rcases List.mem_append.mp child with old | single
        · exact Finset.mem_insert_of_mem (shaped.inside d before c old)
        · exact Finset.mem_insert.mpr (.inl (List.mem_singleton.mp single))
      · rw [if_neg isP] at child
        exact Finset.mem_insert_of_mem (shaped.inside d before c child)
  · rw [dirs] at member
    rw [at'] at isFile ⊢
    by_cases isP : m = p
    · subst isP
      rw [if_pos rfl] at isFile
      exact absurd (dir.symm.trans isFile) (by decide)
    · rw [if_neg isP] at isFile ⊢
      by_cases isNew : m = s.next
      · rw [if_pos isNew]
      · rw [if_neg isNew] at isFile ⊢
        exact shaped.files m ((Finset.mem_insert.mp member).resolve_left isNew) isFile
  · rw [at']
    split <;> rename_i isP
    · exact dir
    · rw [if_neg (others root shaped.rooted.here)]
      exact shaped.rootDir
  · have unfreed : m ∉ s.freed := unfreed
    rw [dirs]
    change _ = (s.handles.count m : Int) + _ + _
    by_cases isNew : m = s.next
    · have unopened : s.handles.count m = 0 := List.count_eq_zero.mpr fun opened =>
        Nat.lt_irrefl _ (isNew ▸ counted.opened m opened)
      rw [unopened, if_pos (isNew ▸ Finset.mem_insert_self _ _), at', isNew,
        if_neg (Ne.symm apart), if_pos rfl]
      rfl
    · have count := counted.counts m (by omega) unfreed
      rw [show ((addNode s p leaf isDir).node m).refcount = (s.node m).refcount by
        rw [at']
        by_cases isP : m = p
        · rw [if_pos isP, isP]
        · rw [if_neg isP, if_neg isNew], count]
      simp only [Finset.mem_insert, isNew, false_or]
  · rw [dirs]
    change m ∈ s.freed ↔ _ ∧ m ∉ s.handles ∧ _
    by_cases isNew : m = s.next
    · have notFreed : m ∉ s.freed := fun gone => Nat.lt_irrefl _ (isNew ▸ counted.old m gone)
      subst isNew
      simp only [notFreed, Finset.mem_insert_self, not_true_eq_false, false_and]
    · rw [counted.freed m (by omega)]
      simp only [Finset.mem_insert, isNew, false_or]
  · exact Nat.lt_succ_of_lt (counted.opened m opened)
  · exact Nat.lt_succ_of_lt (counted.old m gone)

/-! ## Nodes that leave their directory -/

def relink (s : Tree) (n : Nat) (parent : Option Nat) (name : Str) : Tree :=
  setNode (listDel s n) n {(listDel s n).node n with parent := parent, name := name}

theorem relinkAt (parent : (s.node n).parent = some p) (apart : p ≠ n) (parent' : Option Nat)
    (name : Str) (m : Nat) : (relink s n parent' name).node m =
      if m = n then {s.node n with parent := parent', name := name}
      else if m = p then {s.node p with children := (s.node p).children.erase n}
      else s.node m := by
  unfold relink listDel setNode
  rw [parent]
  dsimp only
  by_cases isN : m = n
  · rw [isN, Function.update_self, if_pos rfl, Function.update_of_ne (Ne.symm apart)]
  · rw [Function.update_of_ne isN, if_neg isN]
    by_cases isP : m = p
    · rw [isP, Function.update_self, if_pos rfl]
    · rw [Function.update_of_ne isP, if_neg isP]

@[simp] theorem listDelKeeps (s : Tree) (n : Nat) : (listDel s n).next = s.next ∧
    (listDel s n).handles = s.handles ∧ (listDel s n).freed = s.freed := by
  unfold listDel
  split <;> exact ⟨rfl, rfl, rfl⟩

theorem relinkKeeps (s : Tree) (n : Nat) (parent : Option Nat) (name : Str) :
    (relink s n parent name).next = s.next ∧ (relink s n parent name).handles = s.handles ∧
    (relink s n parent name).freed = s.freed := by
  exact listDelKeeps s n

theorem dropRelinks (s : Tree) (n : Nat) :
    dropNode s n = nodePut (relink s n none ((listDel s n).node n).name) n := rfl

theorem dropKept (kept : Kept s) (member : n ∈ linked s) (other : n ≠ root)
    (empty : (s.node n).children = []) : Kept (dropNode s n) := by
  obtain ⟨shaped, counted⟩ := kept
  obtain ⟨p, parent, here, -, apart⟩ := shaped.inParent member other
  have at' := relinkAt parent apart none ((listDel s n).node n).name
  obtain ⟨next, handles, freed⟩ := relinkKeeps s n none ((listDel s n).node n).name
  rw [dropRelinks]
  generalize relink s n none ((listDel s n).node n).name = s1 at at' next handles freed
  have parents : ∀ m, (s1.node m).parent = if m = n then none else (s.node m).parent := by
    intro m
    rw [at']
    by_cases isN : m = n
    · rw [if_pos isN, if_pos isN]
    · rw [if_neg isN, if_neg isN]
      split <;> rename_i isP
      · rw [isP]
      · rfl
  have dirs : linked s1 = (linked s).erase n := by
    ext m
    rw [memLinked, Finset.mem_erase, memLinked, parents, next]
    by_cases isN : m = n
    · simp only [isN, if_true, Option.isSome_none, Bool.false_eq_true, or_false, other, and_false,
        ne_eq, not_true_eq_false, false_and]
    · simp only [isN, if_false, ne_eq, not_false_eq_true, true_and]
  have up : (shape s).parent n = p := by
    change (s.node n).parent.getD n = p
    rw [parent]
    rfl
  have same : Hierarchy.Same ((shape s).rmdir p n) (shape s1) := by
    refine ⟨dirs, fun d inside => ?_, fun d inside => ?_⟩
    all_goals have isN : d ≠ n := Finset.ne_of_mem_erase inside
    · change ((s1.node d).children : Multiset Nat) = Function.update (shape s).named p _ d
      rw [at', if_neg isN]
      by_cases isP : d = p
      · rw [if_pos isP, isP, Function.update_self]
        rfl
      · rw [if_neg isP, Function.update_of_ne isP]
        rfl
    · change (s1.node d).parent.getD d = (s.node d).parent.getD d
      rw [parents, if_neg isN]
  have childless : (shape s).named n = 0 := congrArg (fun l : List Nat => (l : Multiset Nat)) empty
  have rooted := shaped.rooted.rmdir member other childless
  rw [up] at rooted
  have base : Shaped s1 := by
    have inner : ∀ d ∈ linked s1, d ≠ n ∧ d ∈ linked s := fun d inside => by
      rw [dirs] at inside
      exact ⟨Finset.ne_of_mem_erase inside, Finset.mem_of_mem_erase inside⟩
    have children : ∀ d, d ≠ n → (s1.node d).children =
        if d = p then (s.node p).children.erase n else (s.node d).children := by
      intro d isN
      rw [at', if_neg isN]
      split <;> rfl
    have names : ∀ d, d ≠ n → (s1.node d).name = (s.node d).name := by
      intro d isN
      rw [at', if_neg isN]
      split <;> rename_i isP
      · rw [isP]
      · rfl
    have gone : ∀ d ∈ linked s, d ≠ n → ∀ c ∈ (s1.node d).children,
        c ≠ n ∧ c ∈ (s.node d).children := by
      intro d inside isN c child
      rw [children d isN] at child
      split at child <;> rename_i isP
      · subst isP
        rw [List.Nodup.mem_erase_iff (shaped.children inside)] at child
        exact child
      · refine ⟨?_, child⟩
        rintro rfl
        have mine := (shaped.parentOf inside child).2.2
        rw [parent] at mine
        exact isP (Option.some.inj mine).symm
    refine ⟨rooted.congr same, fun d inside => ?_, ?_, fun d inside c child => ?_,
      fun m inside isFile => ?_, ?_⟩
    · obtain ⟨isN, was⟩ := inner d inside
      have list : siblingNames s1 d = (s1.node d).children.map fun c => (s.node c).name :=
        List.map_congr_left fun c child => names c (gone d was isN c child).1
      rw [list, children d isN]
      split <;> rename_i isP
      · subst isP
        exact (shaped.siblings d was).sublist (List.Sublist.map _ List.erase_sublist)
      · exact shaped.siblings d was
    · rw [parents, if_neg (Ne.symm other)]
      exact shaped.orphan
    · obtain ⟨isN, was⟩ := inner d inside
      obtain ⟨notN, old⟩ := gone d was isN c child
      rw [dirs]
      exact Finset.mem_erase.mpr ⟨notN, shaped.inside d was c old⟩
    · obtain ⟨isN, was⟩ := inner m inside
      rw [at', if_neg isN] at isFile
      rw [children m isN]
      split <;> rename_i isP
      · subst isP
        rw [if_pos rfl] at isFile
        rw [shaped.files m was isFile]
        rfl
      · rw [if_neg isP] at isFile
        exact shaped.files m was isFile
    · rw [at', if_neg (Ne.symm other)]
      split <;> rename_i isP
      · exact isP ▸ shaped.rootDir
      · exact shaped.rootDir
  have refs : ∀ m, (s1.node m).refcount = (s.node m).refcount := by
    intro m
    rw [at']
    split <;> rename_i isN
    · rw [isN]
    · split <;> rename_i isP
      · rw [isP]
      · rfl
  have owed : Counted s1 fun m => if m = n then 1 else 0 := by
    have unfreed := counted.unfreed member
    refine ⟨fun m below still => ?_, freed ▸ counted.freedOnce, fun m below => ?_,
      fun m opened => ?_, fun m gone => ?_⟩
    · rw [next] at below
      rw [freed] at still
      rw [refs, handles, dirs, counted.counts m below still]
      by_cases isN : m = n
      · subst isN
        simp only [member, if_true, Finset.mem_erase, ne_eq, not_true_eq_false, false_and, if_false]
        omega
      · simp only [Finset.mem_erase, isN, ne_eq, not_false_eq_true, true_and, if_false]
    · rw [next] at below
      rw [freed, handles, dirs, counted.freed m below]
      by_cases isN : m = n
      · subst isN
        simp only [member, not_true_eq_false, false_and, if_true, Int.one_ne_zero, and_false]
      · simp only [Finset.mem_erase, isN, ne_eq, not_false_eq_true, true_and, if_false]
    · rw [handles] at opened
      exact next ▸ counted.opened m opened
    · rw [freed] at gone
      exact next ▸ counted.old m gone
  exact ⟨(putAlike s1 n).shaped base, putCounted owed (next ▸ linkedBelow member)⟩

/-! ## Nodes that are moved -/

theorem moveKept (kept : Kept s) (member : n ∈ linked s) (other : n ≠ root) {q : Nat}
    (there : q ∈ linked s) (dir : (s.node q).isDir = true)
    (away : ∀ k, (shape s).parent^[k] q ≠ n) {leaf : Str}
    (free : ∀ c ∈ (s.node q).children, c ≠ n → (s.node c).name ≠ leaf) :
    Kept (listAddTail (relink s n (some q) leaf) q n) := by
  obtain ⟨shaped, counted⟩ := kept
  obtain ⟨p, parent, here, -, apart⟩ := shaped.inParent member other
  have notN : q ≠ n := away 0
  have before := relinkAt parent apart (some q) leaf
  obtain ⟨next, handles, freed⟩ := relinkKeeps s n (some q) leaf
  have at' : ∀ m, (listAddTail (relink s n (some q) leaf) q n).node m = {s.node m with
      parent := if m = n then some q else (s.node m).parent
      name := if m = n then leaf else (s.node m).name
      children := (if m = p then (s.node m).children.erase n else (s.node m).children) ++
        if m = q then [n] else []} := by
    intro m
    unfold listAddTail setNode
    dsimp only
    by_cases isQ : m = q
    · subst isQ
      rw [Function.update_self, before, if_neg notN, if_neg notN, if_neg notN, if_pos rfl]
      split <;> rename_i isP
      · rw [isP]
      · rfl
    · rw [Function.update_of_ne isQ, before, if_neg isQ, List.append_nil]
      by_cases isN : m = n
      · rw [if_pos isN, if_pos isN, if_pos isN, if_neg (isN ▸ Ne.symm apart), isN]
      · rw [if_neg isN, if_neg isN, if_neg isN]
        split <;> rename_i isP
        · rw [isP]
        · rfl
  have next : (listAddTail (relink s n (some q) leaf) q n).next = s.next := next
  have handles : (listAddTail (relink s n (some q) leaf) q n).handles = s.handles := handles
  have freed : (listAddTail (relink s n (some q) leaf) q n).freed = s.freed := freed
  generalize listAddTail (relink s n (some q) leaf) q n = s2 at at' next handles freed
  have dirs : linked s2 = linked s := by
    ext m
    rw [memLinked, memLinked, at', next]
    by_cases isN : m = n
    · have some' := ((memLinked s n).mp member).2.resolve_left other
      simp only [isN, if_true, Option.isSome_some, some']
    · simp only [isN, if_false]
  have up : (shape s).parent n = p := by
    change (s.node n).parent.getD n = p
    rw [parent]
    rfl
  have listed : n ∈ (s.node p).children := by
    obtain ⟨p', parent', -, child, -⟩ := shaped.inParent member other
    cases parent.symm.trans parent'
    exact child
  have same : Hierarchy.Same ((shape s).move p q n) (shape s2) := by
    refine ⟨dirs, fun d inside => ?_, fun d inside => ?_⟩
    · change ((s2.node d).children : Multiset Nat) =
        Function.update (Function.update (shape s).named q (n ::ₘ (shape s).named q)) p
          ((Function.update (shape s).named q (n ::ₘ (shape s).named q) p).erase n) d
      rw [at']
      dsimp only
      by_cases isP : d = p
      · subst isP
        rw [Function.update_self, if_pos rfl]
        by_cases isQ : d = q
        · subst isQ
          rw [if_pos rfl, Function.update_self, Multiset.erase_cons_head, ← Multiset.coe_add,
            add_comm]
          exact Multiset.cons_erase (Multiset.mem_coe.mpr listed)
        · rw [if_neg isQ, Function.update_of_ne isQ, List.append_nil]
          rfl
      · rw [Function.update_of_ne isP, if_neg isP]
        by_cases isQ : d = q
        · subst isQ
          rw [if_pos rfl, Function.update_self, ← Multiset.coe_add, add_comm]
          rfl
        · rw [if_neg isQ, Function.update_of_ne isQ, List.append_nil]
          rfl
    · change (s2.node d).parent.getD d = Function.update (shape s).parent n q d
      rw [at']
      by_cases isN : d = n
      · subst isN
        rw [Function.update_self]
        dsimp only
        rw [if_pos rfl]
        rfl
      · rw [Function.update_of_ne isN]
        dsimp only
        rw [if_neg isN]
        rfl
  have rooted := shaped.rooted.move member other there away
  rw [up] at rooted
  have only : ∀ d ∈ linked s, n ∈ (s.node d).children → d = p := by
    intro d inside child
    have mine := (shaped.parentOf inside child).2.2
    rw [parent] at mine
    exact (Option.some.inj mine).symm
  -- what is left of a directory when the node is gone
  have rest : ∀ d ∈ linked s, ∀ c ∈ (if d = p then (s.node d).children.erase n
      else (s.node d).children), c ≠ n ∧ c ∈ (s.node d).children := by
    intro d inside c child
    split at child <;> rename_i isP
    · rw [List.Nodup.mem_erase_iff (shaped.children inside)] at child
      exact child
    · refine ⟨?_, child⟩
      rintro rfl
      exact isP (only d inside child)
  refine ⟨⟨rooted.congr same, fun d inside => ?_, ?_, fun d inside c child => ?_,
    fun m inside isFile => ?_, ?_⟩, fun m below unfreed => ?_, freed ▸ counted.freedOnce,
    fun m below => ?_, fun m opened => ?_, fun m gone => ?_⟩
  · rw [dirs] at inside
    unfold siblingNames
    rw [at']
    dsimp only
    rw [List.map_append]
    have names : ∀ c ∈ (if d = p then (s.node d).children.erase n else (s.node d).children),
        (s2.node c).name = (s.node c).name := by
      intro c child
      rw [at']
      dsimp only
      rw [if_neg (rest d inside c child).1]
    rw [List.map_congr_left names]
    have sub : ((if d = p then (s.node d).children.erase n else (s.node d).children).map
        fun c => (s.node c).name).Nodup := by
      refine (shaped.siblings d inside).sublist (List.Sublist.map _ ?_)
      split
      · exact List.erase_sublist
      · exact List.Sublist.refl _
    refine List.nodup_append.mpr ⟨sub, ?_, ?_⟩
    · split
      · exact List.nodup_singleton _
      · exact List.nodup_nil
    · intro name old other' new
      by_cases isQ : d = q
      · subst isQ
        rw [if_pos rfl, List.map_singleton, List.mem_singleton, at'] at new
        dsimp only at new
        rw [if_pos rfl] at new
        obtain ⟨c, child, rfl⟩ := List.mem_map.mp old
        obtain ⟨isOther, was⟩ := rest d inside c child
        rw [new]
        exact free c was isOther
      · rw [if_neg isQ] at new
        cases new
  · rw [at']
    dsimp only
    rw [if_neg (Ne.symm other)]
    exact shaped.orphan
  · rw [dirs] at inside ⊢
    rw [at'] at child
    rcases List.mem_append.mp child with old | new
    · exact shaped.inside d inside c (rest d inside c old).2
    · split at new
      · exact List.mem_singleton.mp new ▸ member
      · cases new
  · rw [dirs] at inside
    rw [at'] at isFile ⊢
    have none := shaped.files m inside isFile
    have notQ : m ≠ q := by
      rintro rfl
      exact absurd (dir.symm.trans isFile) (by decide)
    dsimp only
    rw [if_neg notQ, none]
    split <;> rfl
  · rw [at']
    exact shaped.rootDir
  · rw [next] at below
    rw [freed] at unfreed
    rw [at', handles, dirs]
    exact counted.counts m below unfreed
  · rw [next] at below
    rw [freed, handles, dirs]
    exact counted.freed m below
  · rw [handles] at opened
    exact next ▸ counted.opened m opened
  · rw [freed] at gone
    exact next ▸ counted.old m gone

/-! ## Paths -/

theorem childLinked (shaped : Shaped s) (here : p ∈ linked s) {name : Str}
    (found : lookupChild s p name = some n) :
    n ∈ linked s ∧ n ∈ (s.node p).children ∧ (s.node n).name = name := by
  unfold lookupChild at found
  split at found
  · have child := List.mem_of_find?_eq_some found
    have named := List.find?_some (p := fun c => decide ((s.node c).name = name)) found
    exact ⟨shaped.inside p here n child, child, of_decide_eq_true named⟩
  · cases found

theorem childNone (dir : (s.node p).isDir = true) {name : Str}
    (none : lookupChild s p name = none) : name ∉ siblingNames s p := by
  unfold lookupChild at none
  rw [if_pos dir] at none
  intro member
  obtain ⟨c, child, named⟩ := List.mem_map.mp member
  exact List.find?_eq_none.mp none c child (decide_eq_true named)

theorem walkLinked (shaped : Shaped s) {comps : List Str} {cur : Nat} (here : cur ∈ linked s)
    (found : walk s cur comps = some n) : n ∈ linked s := by
  induction comps generalizing cur with
  | nil =>
    cases found
    exact here
  | cons comp rest ih =>
    unfold walk at found
    split at found
    · cases found
    split at found <;> rename_i child
    · exact ih (childLinked shaped here child).1 found
    · cases found

theorem walkParentSpec (shaped : Shaped s) {comps : List Str} {cur : Nat} (here : cur ∈ linked s)
    (dir : (s.node cur).isDir = true) {leaf : Str} (found : walkParent s cur comps = some (p, leaf)) :
    p ∈ linked s ∧ (s.node p).isDir = true ∧ walk s cur comps = lookupChild s p leaf := by
  induction comps generalizing cur with
  | nil => cases found
  | cons comp rest ih =>
    cases rest with
    | nil =>
      unfold walkParent at found
      split at found <;> rename_i short
      · cases found
      · cases found
        refine ⟨here, dir, ?_⟩
        unfold walk
        rw [if_neg short]
        split <;> rename_i child
        · rw [child]
          rfl
        · exact child.symm
    | cons comp' rest =>
      unfold walkParent at found
      split at found <;> rename_i short
      · cases found
      split at found <;> rename_i child
      · split at found <;> rename_i isDir
        · obtain ⟨inside, parentDir, walks⟩ := ih (childLinked shaped here child).1 isDir found
          refine ⟨inside, parentDir, ?_⟩
          rw [walk, if_neg short, child]
          exact walks
        · cases found
      · cases found

theorem lookupLinked (shaped : Shaped s) {path : Str} (found : lookup s path = some n) :
    n ∈ linked s := walkLinked shaped shaped.rooted.here found

theorem lookupParentSpec (shaped : Shaped s) {path leaf : Str}
    (found : lookupParent s path = some (p, leaf)) :
    p ∈ linked s ∧ (s.node p).isDir = true ∧ lookup s path = lookupChild s p leaf :=
  walkParentSpec shaped shaped.rooted.here shaped.rootDir found

theorem meetsSpec (shaped : Shaped s) (n fuel : Nat) {q : Nat} (here : q ∈ linked s) :
    meets s n fuel (some q) = true ↔ ∃ k < fuel, (shape s).parent^[k] q = n := by
  induction fuel generalizing q with
  | zero => exact ⟨nofun, fun ⟨_, absurd', _⟩ => nomatch absurd'⟩
  | succ fuel ih =>
    rw [meets, Bool.or_eq_true, decide_eq_true_eq]
    by_cases top : q = root
    · subst top
      have stays : ∀ k, (shape s).parent^[k] root = root :=
        fun k => Function.iterate_fixed shaped.rooted.top k
      have ends : meets s n fuel (s.node root).parent = false := by
        rw [shaped.orphan]
        cases fuel <;> rfl
      rw [ends]
      refine ⟨fun hit => ⟨0, Nat.succ_pos _, ?_⟩, fun ⟨k, _, hit⟩ => .inl ((stays k).symm.trans hit)⟩
      exact hit.resolve_right nofun
    · obtain ⟨p, parent, inside, -, -⟩ := shaped.inParent here top
      have up : (shape s).parent q = p := by
        change (s.node q).parent.getD q = p
        rw [parent]
        rfl
      rw [parent, ih inside]
      refine ⟨fun hit => ?_, fun ⟨k, few, hit⟩ => ?_⟩
      · rcases hit with now | ⟨k, few, later⟩
        · exact ⟨0, Nat.succ_pos _, now⟩
        · refine ⟨k + 1, Nat.succ_lt_succ few, ?_⟩
          rw [Function.iterate_succ_apply, up]
          exact later
      · cases k with
        | zero => exact .inl hit
        | succ k =>
          rw [Function.iterate_succ_apply, up] at hit
          exact .inr ⟨k, Nat.lt_of_succ_lt_succ few, hit⟩

theorem notAbove (shaped : Shaped s) (member : n ∈ linked s) {q : Nat} (there : q ∈ linked s)
    (dir : (s.node q).isDir = true) (passes : intoItself s n q = false) :
    n ≠ root ∧ ∀ k, (shape s).parent^[k] q ≠ n := by
  have card : (linked s).card ≤ s.next := by
    refine (Finset.card_le_card fun m inside => ?_).trans_eq (Finset.card_range s.next)
    exact Finset.mem_range.mpr (linkedBelow inside)
  unfold intoItself at passes
  by_cases isDir : (s.node n).isDir = true
  · rw [isDir, Bool.true_and] at passes
    have apart : ∀ k < s.next, (shape s).parent^[k] q ≠ n := fun k few hit => by
      have meet := (meetsSpec shaped n s.next there).mpr ⟨k, few, hit⟩
      exact absurd (meet.symm.trans passes) (by decide)
    have notRoot : n ≠ root := by
      rintro rfl
      obtain ⟨k, few, top⟩ := shaped.rooted.within there
      exact apart k (Nat.lt_of_lt_of_le few card) top
    exact ⟨notRoot, shaped.rooted.never there notRoot fun k few =>
      apart k (Nat.lt_of_lt_of_le few card)⟩
  · have notRoot : n ≠ root := fun same => isDir (same ▸ shaped.rootDir)
    have childless := shaped.files n member (by simpa using isDir)
    have stays : ∀ k, (shape s).parent^[k] q ∈ linked s := by
      intro k
      induction k with
      | zero => exact there
      | succ k ih =>
        rw [Function.iterate_succ_apply']
        exact shaped.rooted.parentIn ih
    refine ⟨notRoot, fun k hit => ?_⟩
    cases k with
    | zero =>
      have same : q = n := hit
      exact isDir (same ▸ dir)
    | succ k =>
      rw [Function.iterate_succ_apply'] at hit
      by_cases top : (shape s).parent^[k] q = root
      · rw [top] at hit
        exact notRoot (hit.symm.trans shaped.rooted.top)
      · have named := (shaped.rooted.inParent _ (stays k) top).2
        rw [hit] at named
        have child : (shape s).parent^[k] q ∈ (s.node n).children := named
        rw [childless] at child
        cases child

/-! ## Every run -/

def Tidy (s : Tree) : Action → Prop
  | .rmdir path => lookup s path = some root → (s.node root).children ≠ []
  | .rename oldPath newPath => ∀ n ∈ lookup s oldPath, ∀ place ∈ lookupParent s newPath,
      intoItself s n place.1 = false → ∀ m ∈ lookup s newPath, m = n
  | _ => True

instance (s : Tree) (a : Action) : Decidable (Tidy s a) :=
  match a with
  | .rmdir path =>
    inferInstanceAs (Decidable (lookup s path = some root → (s.node root).children ≠ []))
  | .rename oldPath newPath =>
    inferInstanceAs (Decidable (∀ n ∈ lookup s oldPath, ∀ place ∈ lookupParent s newPath,
      intoItself s n place.1 = false → ∀ m ∈ lookup s newPath, m = n))
  | .openFile .. | .close _ | .mkdir .. | .unlink _ => isTrue trivial

theorem openFoundKept (kept : Kept s) (member : n ∈ linked s) (directory room : Bool) :
    Kept (openFound s n directory room) := by
  unfold openFound
  split
  · exact kept
  split
  · exact kept
  · exact openNodeKept kept member room

theorem openKept (kept : Kept s) (path : Str) (create directory nodeRoom room : Bool) :
    Kept (tmpfsOpen s path create directory nodeRoom room) := by
  unfold tmpfsOpen
  split
  · split
    · exact openNodeKept kept kept.shaped.rooted.here room
    · exact kept
  split <;> rename_i found
  · exact openFoundKept kept (lookupLinked kept.shaped found) directory room
  split
  · split <;> rename_i place
    · split
      · obtain ⟨inside, dir, child⟩ := lookupParentSpec kept.shaped place
        have free := childNone dir (child.symm.trans found)
        obtain ⟨added, new⟩ := addKept kept inside dir free false
        exact openFoundKept added new directory room
      · exact kept
    · exact kept
  · exact kept

theorem mkdirKept (kept : Kept s) (path : Str) (nodeRoom : Bool) :
    Kept (tmpfsMkdir s path nodeRoom) := by
  unfold tmpfsMkdir
  split <;> rename_i found
  · exact kept
  split <;> rename_i place
  · split
    · obtain ⟨inside, dir, child⟩ := lookupParentSpec kept.shaped place
      exact (addKept kept inside dir (childNone dir (child.symm.trans found)) true).1
    · exact kept
  · exact kept

theorem rmdirKept (kept : Kept s) (path : Str) (tidy : Tidy s (.rmdir path)) :
    Kept (tmpfsRmdir s path) := by
  unfold tmpfsRmdir
  split <;> rename_i found
  · split
    · exact kept
    split <;> rename_i empty
    · exact kept
    have empty := not_not.mp empty
    refine dropKept kept (lookupLinked kept.shaped found) ?_ empty
    rintro rfl
    exact tidy found empty
  · exact kept

theorem unlinkKept (kept : Kept s) (path : Str) : Kept (tmpfsUnlink s path) := by
  unfold tmpfsUnlink
  split <;> rename_i found
  · split <;> rename_i isDir
    · exact kept
    have member := lookupLinked kept.shaped found
    have isFile := Bool.eq_false_iff.mpr isDir
    refine dropKept kept member ?_ (kept.shaped.files _ member isFile)
    rintro rfl
    exact isDir kept.shaped.rootDir
  · exact kept

theorem renameKept (kept : Kept s) (oldPath newPath : Str)
    (tidy : Tidy s (.rename oldPath newPath)) : Kept (tmpfsRename s oldPath newPath) := by
  unfold tmpfsRename
  split
  · rename_i n found
    split
    · rename_i q leaf place
      split <;> rename_i passes
      · exact kept
      have passes := Bool.eq_false_iff.mpr passes
      have member := lookupLinked kept.shaped found
      obtain ⟨there, dir, child⟩ := lookupParentSpec kept.shaped place
      obtain ⟨other, away⟩ := notAbove kept.shaped member there dir passes
      refine moveKept kept member other there dir away fun c inside isOther same => ?_
      cases new : lookup s newPath with
      | none => exact childNone dir (child.symm.trans new) (List.mem_map.mpr ⟨c, inside, same⟩)
      | some m =>
        have isN : m = n := tidy n found (q, leaf) place passes m new
        subst isN
        obtain ⟨-, listed, named⟩ := childLinked kept.shaped there (child.symm.trans new)
        exact isOther (List.inj_on_of_nodup_map (kept.shaped.siblings q there) inside listed
          (same.trans named.symm))
    · exact kept
  · exact kept

theorem stepKept (s : Tree) (a : Action) (s' : Tree) (kept : Kept s) (tidy : Tidy s a)
    (taken : step s a = some s') : Kept s' := by
  cases a with
  | openFile path create directory nodeRoom room =>
    cases taken
    exact openKept kept path create directory nodeRoom room
  | close n =>
    dsimp only [step] at taken
    split at taken <;> rename_i opened
    · cases taken
      exact closeKept kept opened
    · cases taken
  | mkdir path nodeRoom =>
    cases taken
    exact mkdirKept kept path nodeRoom
  | rmdir path =>
    cases taken
    exact rmdirKept kept path tidy
  | unlink path =>
    cases taken
    exact unlinkKept kept path
  | rename oldPath newPath =>
    cases taken
    exact renameKept kept oldPath newPath tidy

end

/-- Over all runs of tidy calls. -/
theorem treeWhole {acts : List Action} {s : Tree} (tidy : Run.Meets step Tidy mounted acts)
    (ran : Run.run step mounted acts = some s) : Whole s :=
  (Run.invariantMeets stepKept mountedKept tidy ran).whole

def tidyActs : List Action :=
  [.mkdir ['/', 'd'] true, .mkdir ['/', 'e'] true, .openFile ['/', 'd', '/', 'f'] true false true true,
   .rename ['/', 'd'] ['/', 'e', '/', 'g'], .unlink ['/', 'e', '/', 'g', '/', 'f'], .close 3,
   .rmdir ['/', 'e', '/', 'g']]

theorem tidyTree : ∃ s, Run.run step mounted tidyActs = some s ∧ s.freed = [1, 3] ∧ Whole s := by
  have tidy : Run.Meets step Tidy mounted tidyActs := by decide
  obtain ⟨s, ran, freed⟩ : ∃ s, Run.run step mounted tidyActs = some s ∧ s.freed = [1, 3] :=
    ⟨_, rfl, rfl⟩
  exact ⟨s, ran, freed, treeWhole tidy ran⟩

/-- The root of an empty mount is removed; one file is renamed over another. -/
theorem rootFreed : (∃ s, Run.run step mounted [.rmdir ['/']] = some s ∧ ¬ Whole s) ∧
    ∃ s, Run.run step mounted [.mkdir ['/', 'a'] true, .mkdir ['/', 'b'] true,
      .rename ['/', 'a'] ['/', 'b']] = some s ∧ ¬ Whole s := by
  refine ⟨⟨_, rfl, fun whole => ?_⟩, _, rfl, fun whole => ?_⟩
  · exact absurd whole.rootKept (by decide)
  · exact absurd (whole.siblings root (by decide)) (by decide)

end Tree

end Scepter.Tmpfs
