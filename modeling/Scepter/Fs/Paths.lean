import Scepter.Lib.Path
import Scepter.Lib.Run
import Mathlib.Logic.Function.Basic

/-! How the VFS resolves the paths of a task (resolve_path, vfs.c), and the calls
that hand their paths to it. Strings are lists of characters other than NUL. What
a copy beyond the end of resolve_path's buffer does is not modelled. -/
namespace Scepter.Vfs
open Scepter.Path (Str components slashed flat Normal Name Names)

def MAX_PATH_LEN : Nat := 256

structure Task where
  root : Str
  cwd : Str

inductive Resolved where
  | path (p : Str)
  | refused
  | overrun

def rawPath (root cwd input : Str) : Resolved :=
  if input.head? = some '/' then
    if root.length > 1 then
      if input = ['/'] then
        if root.length ≥ MAX_PATH_LEN then .refused else .path root
      else if root.length + input.length ≥ MAX_PATH_LEN then .overrun
      else .path (root ++ input)
    else if input.length ≥ MAX_PATH_LEN then .refused
    else .path input
  else if cwd.length + 1 + input.length + 1 ≥ MAX_PATH_LEN then .refused
  else
    let cwd := if cwd.length > 0 ∧ cwd.getLast? ≠ some '/' then cwd ++ ['/'] else cwd
    .path (cwd ++ input)

def chopRev (boundary : Nat) : Str → Str
  | [] => []
  | c :: rest => if (c :: rest).length > boundary ∧ c ≠ '/' then chopRev boundary rest else c :: rest

def parent (boundary : Nat) (out : Str) : Str :=
  if out.length > boundary then (chopRev boundary out.dropLast.reverse).reverse else out

def component (boundary : Nat) (out comp : Str) : Option Str :=
  if comp = ['.'] then some out
  else if comp = ['.', '.'] then some (parent boundary out)
  else
    let append := fun out : Str =>
      if out.length + comp.length > MAX_PATH_LEN - 1 then none else some (out ++ comp)
    if out.length > 1 ∧ out.getLast? ≠ some '/' then
      if out.length ≥ MAX_PATH_LEN - 1 then none else append (out ++ ['/'])
    else append out

def resolvePath (task : Task) (input : Str) : Resolved :=
  let root := if task.root = [] then ['/'] else task.root
  match rawPath root task.cwd input with
  | .path tmp =>
    let boundary := if root <+: tmp then root.length else 1
    match (components tmp).foldlM (component boundary) ['/'] with
    | some out => .path (if out = [] then ['/'] else out)
    | none => .refused
  | .refused => .refused
  | .overrun => .overrun

def copyPathFromUser (path : Str) : Str := path.take (MAX_PATH_LEN - 1)

inductive PathCall where
  | fsOpen (path : Str)
  | fsMkdir (path : Str)
  | fsRmdir (path : Str)
  | fsUnlink (path : Str)
  | fsRename (old new : Str)
  | fsStat (path : Str)
  | fsLink (old new : Str)
  | fsSymlink (target new : Str)
  | fsReadlink (path : Str)
  | fsChmod (path : Str)
  | fsMknod (path : Str)
  | fsUtime (path : Str)
  | fsChown (path : Str)
  | fsStatfs (path : Str)
  | fsChdir (path : Str)
  | fsChroot (path : Str)
  -- the path that the file system finds for the descriptor
  | fsFchdir (buf : Str)
  | sysMount (target : Str)
  | sysUmount (target : Str)

def resolve (task : Task) (path : Str) : Resolved := resolvePath task (copyPathFromUser path)

def goesOn (task : Task) : PathCall → List Resolved
  | .fsOpen path | .fsMkdir path | .fsRmdir path | .fsUnlink path | .fsStat path
  | .fsReadlink path | .fsChmod path | .fsMknod path | .fsUtime path | .fsChown path
  | .fsStatfs path | .fsChdir path | .fsChroot path | .fsFchdir path => [resolve task path]
  | .fsRename old new | .fsLink old new => [resolve task old, resolve task new]
  | .fsSymlink _ new => [resolve task new]
  | .sysMount target => [resolve task target, .path (copyPathFromUser target)]
  | .sysUmount target => [.path (copyPathFromUser target)]

inductive Action where
  | spawn (t : Nat)
  | fork (t child : Nat)
  | call (t : Nat) (c : PathCall) (ok : Bool)

abbrev State := Nat → Option Task

def boot : State := fun t => if t = 0 then some ⟨['/'], ['/']⟩ else none

def setTask (s : State) (t : Nat) (task : Task) : State := Function.update s t (some task)

def stored (abs : Str) : Str := abs.take (MAX_PATH_LEN - 1)

def changeDir (task : Task) (ok : Bool) (path : Str) : Task :=
  match resolve task path with
  | .path abs => if ok then {task with cwd := stored abs} else task
  | _ => task

def changeRoot (task : Task) (ok : Bool) (path : Str) : Task :=
  match resolve task path with
  | .path abs => if ok then {task with root := stored abs} else task
  | _ => task

def called (task : Task) (ok : Bool) : PathCall → Task
  | .fsChdir path | .fsFchdir path => changeDir task ok path
  | .fsChroot path => changeRoot task ok path
  | _ => task

def step (s : State) : Action → Option State
  | .spawn t => if s t = none then some (setTask s t ⟨['/'], ['/']⟩) else none
  | .fork t child => match s t with
    | some task => if s child = none then some (setTask s child task) else none
    | none => none
  | .call t c ok => match s t with
    | some task =>
      if (goesOn task c).any (fun r => r matches .overrun) then none
      else some (setTask s t (called task ok c))
    | none => none

def Inside (root p : Str) : Prop :=
  p.head? = some '/' ∧ components root <+: components p ∧ ['.', '.'] ∉ components p

def Contained (root : Str) : Resolved → Prop
  | .path p => Inside root p
  | .refused => True
  | .overrun => False

def Fits (root path : Str) : Prop :=
  path.head? = some '/' → root.length > 1 → path ≠ ['/'] →
    root.length + path.length < MAX_PATH_LEN

def Sound (root : Str) : PathCall → Prop
  | .fsOpen path | .fsMkdir path | .fsRmdir path | .fsUnlink path | .fsStat path
  | .fsReadlink path | .fsChmod path | .fsMknod path | .fsUtime path | .fsChown path
  | .fsStatfs path | .fsChdir path | .fsChroot path | .fsFchdir path =>
    Fits root (copyPathFromUser path)
  | .fsRename old new | .fsLink old new =>
    Fits root (copyPathFromUser old) ∧ Fits root (copyPathFromUser new)
  | .fsSymlink _ new => Fits root (copyPathFromUser new)
  | .sysMount target =>
    Fits root (copyPathFromUser target) ∧ Inside root (copyPathFromUser target)
  | .sysUmount target => Inside root (copyPathFromUser target)

section loop
variable {base out out' c : Str} {bs cs : List Str} {boundary : Nat}

theorem chopRevSpec (boundary : Nat) (r : Str) :
    chopRev boundary r <:+ r ∧ (boundary ≤ r.length → boundary ≤ (chopRev boundary r).length) ∧
      ((chopRev boundary r).length ≤ boundary ∨ (chopRev boundary r).head? = some '/') := by
  induction r with
  | nil => exact ⟨List.suffix_refl [], fun h => h, Or.inl (Nat.zero_le _)⟩
  | cons c rest ih =>
    unfold chopRev
    split <;> rename_i go
    · obtain ⟨suffix, long, ends⟩ := ih
      refine ⟨suffix.trans (List.suffix_cons c rest), fun _ => long ?_, ends⟩
      have length := go.1
      rw [List.length_cons] at length
      omega
    · refine ⟨List.suffix_refl _, fun h => h, ?_⟩
      by_cases slash : c = '/'
      · exact Or.inr (by rw [slash]; rfl)
      · exact Or.inl (Nat.le_of_not_lt fun long => go ⟨long, slash⟩)

theorem parentSpec (long : boundary < out.length) :
    parent boundary out <+: out ∧ boundary ≤ (parent boundary out).length ∧
      ((parent boundary out).length = boundary ∨ (parent boundary out).getLast? = some '/') := by
  obtain ⟨suffix, keeps, ends⟩ := chopRevSpec boundary out.dropLast.reverse
  have room : boundary ≤ out.dropLast.reverse.length := by
    rw [List.length_reverse, List.length_dropLast]
    omega
  unfold parent
  rw [if_pos long]
  refine ⟨?_, by simpa using keeps room, ?_⟩
  · have inner := List.reverse_prefix.mpr suffix
    rw [List.reverse_reverse] at inner
    exact inner.trans (List.dropLast_prefix out)
  · rcases ends with short | slash
    · exact Or.inl (Nat.le_antisymm (by simpa using short) (by simpa using keeps room))
    · exact Or.inr (by rw [List.getLast?_reverse]; exact slash)

def Held (base : Str) (out : Str) : Prop := ∃ cs, Normal out cs ∧ base <+: slashed out

theorem heldParent (normal : Normal base bs) (held : Held base out) :
    Held base (parent base.length out) ∧
      (slashed base <+: slashed out → slashed base <+: slashed (parent base.length out)) := by
  obtain ⟨cs, normal', onward⟩ := held
  by_cases long : base.length < out.length
  · obtain ⟨inside, room, ends⟩ := parentSpec long
    have inOut : base <+: out :=
      List.prefix_of_prefix_length_le onward (Path.prefixSlashed out) (Nat.le_of_lt long)
    have inParent : base <+: parent base.length out :=
      List.prefix_of_prefix_length_le inOut inside room
    by_cases exact' : (parent base.length out).length = base.length
    · have same : parent base.length out = base :=
        (List.IsPrefix.eq_of_length inParent exact'.symm).symm
      rw [same]
      exact ⟨⟨bs, normal, Path.prefixSlashed base⟩, fun _ => List.prefix_refl _⟩
    · rcases ends with equal | slash
      · exact absurd equal exact'
      · obtain ⟨ds, _, normal''⟩ := normal'.upTo inside slash
        refine ⟨⟨ds, normal'', inParent.trans (Path.prefixSlashed _)⟩, fun under => ?_⟩
        rw [show slashed (parent base.length out) = parent base.length out from if_pos slash]
        refine List.prefix_of_prefix_length_le under (inside.trans (Path.prefixSlashed out)) ?_
        have bound := Path.slashedLength base
        omega
  · unfold parent
    rw [if_neg long]
    exact ⟨⟨cs, normal', onward⟩, fun under => under⟩

theorem componentSpec (normal : Normal out cs) (word : c ≠ [] ∧ '/' ∉ c)
    (done : component boundary out c = some out') :
    c = ['.'] ∧ out' = out ∨ c = ['.', '.'] ∧ out' = parent boundary out ∨
      Name c ∧ out' = slashed out ++ c := by
  unfold component at done
  split at done <;> rename_i dot
  · cases done
    exact Or.inl ⟨dot, rfl⟩
  · split at done <;> rename_i dots
    · cases done
      exact Or.inr (Or.inl ⟨dots, rfl⟩)
    · refine Or.inr (Or.inr ⟨⟨word.1, word.2, dot, dots⟩, ?_⟩)
      dsimp only at done
      split at done <;> rename_i apart
      · split at done
        · cases done
        · split at done
          · cases done
          · cases done
            rw [Path.slashedSnoc apart.2]
      · have ends : slashed out = out := by
          refine if_pos (Decidable.byContradiction fun other => apart ⟨?_, other⟩)
          obtain ⟨rest, rfl⟩ := normal.starts
          cases rest with
          | nil => exact absurd rfl other
          | cons x rest =>
            rw [List.length_cons, List.length_cons]
            omega
        split at done
        · cases done
        · cases done
          rw [ends]

theorem heldComponent (normal : Normal base bs) (word : c ≠ [] ∧ '/' ∉ c) (held : Held base out)
    (done : component base.length out c = some out') :
    Held base out' ∧ (slashed base <+: slashed out → slashed base <+: slashed out') := by
  obtain ⟨cs, normal', onward⟩ := held
  rcases componentSpec normal' word done with ⟨_, rfl⟩ | ⟨_, rfl⟩ | ⟨name, rfl⟩
  · exact ⟨⟨cs, normal', onward⟩, fun under => under⟩
  · exact heldParent normal ⟨cs, normal', onward⟩
  · have further : slashed out <+: slashed (slashed out ++ c) :=
      (List.prefix_append _ c).trans (Path.prefixSlashed _)
    exact ⟨⟨cs ++ [c], normal'.push name, onward.trans further⟩, fun under => under.trans further⟩

theorem heldLoop (normal : Normal base bs) {more : List Str}
    (words : ∀ c ∈ more, c ≠ [] ∧ '/' ∉ c) (held : Held base out)
    (done : more.foldlM (component base.length) out = some out') :
    Held base out' ∧ (slashed base <+: slashed out → slashed base <+: slashed out') := by
  induction more generalizing out with
  | nil =>
    cases done
    exact ⟨held, fun under => under⟩
  | cons c more ih =>
    rw [List.foldlM_cons] at done
    obtain ⟨mid, one, rest⟩ := Option.bind_eq_some_iff.mp done
    obtain ⟨held', kept⟩ := heldComponent normal (words c List.mem_cons_self) held one
    obtain ⟨held'', kept'⟩ := ih (fun d member => words d (List.mem_cons_of_mem c member)) held' rest
    exact ⟨held'', fun under => kept' (kept under)⟩

theorem namesLoop {first : List Str} (names : Names first) (normal : Normal out cs)
    (done : first.foldlM (component boundary) out = some out') : Normal out' (cs ++ first) := by
  induction first generalizing out cs with
  | nil =>
    cases done
    rw [List.append_nil]
    exact normal
  | cons c first ih =>
    rw [List.foldlM_cons] at done
    obtain ⟨mid, one, rest⟩ := Option.bind_eq_some_iff.mp done
    obtain ⟨filled, word, dot, dots⟩ := names c List.mem_cons_self
    have normal' : Normal mid (cs ++ [c]) := by
      rcases componentSpec normal ⟨filled, word⟩ one with ⟨same, _⟩ | ⟨same, _⟩ | ⟨name, rfl⟩
      · exact absurd same dot
      · exact absurd same dots
      · exact normal.push name
    have all := ih (fun d member => names d (List.mem_cons_of_mem c member)) normal' rest
    rw [List.append_assoc] at all
    exact all

theorem heldFrom (normal : Normal base bs) {first more : List Str} (names : Names first)
    (words : ∀ c ∈ more, c ≠ [] ∧ '/' ∉ c) (onward : base <+: flat first)
    (done : (first ++ more).foldlM (component base.length) ['/'] = some out) :
    Held base out ∧ (slashed base <+: flat first → slashed base <+: slashed out) := by
  rw [List.foldlM_append] at done
  obtain ⟨mid, early, late⟩ := Option.bind_eq_some_iff.mp done
  have normal' := namesLoop names Path.rootNormal early
  rw [List.nil_append] at normal'
  have string := normal'.string
  obtain ⟨held, kept⟩ := heldLoop normal words ⟨first, normal', string ▸ onward⟩ late
  exact ⟨held, fun under => kept (string ▸ under)⟩

theorem componentShort (short : out.length ≤ MAX_PATH_LEN - 1)
    (done : component boundary out c = some out') : out'.length ≤ MAX_PATH_LEN - 1 := by
  unfold component at done
  split at done
  · cases done
    exact short
  · split at done
    · cases done
      by_cases long : boundary < out.length
      · exact Nat.le_trans (parentSpec long).1.length_le short
      · unfold parent
        rw [if_neg long]
        exact short
    · dsimp only at done
      split at done
      · split at done
        · cases done
        · split at done
          · cases done
          · cases done
            rw [List.length_append]
            omega
      · split at done
        · cases done
        · cases done
          rw [List.length_append]
          omega

theorem loopShort {comps : List Str} (short : out.length ≤ MAX_PATH_LEN - 1)
    (done : comps.foldlM (component boundary) out = some out') :
    out'.length ≤ MAX_PATH_LEN - 1 := by
  induction comps generalizing out with
  | nil =>
    cases done
    exact short
  | cons c comps ih =>
    rw [List.foldlM_cons] at done
    obtain ⟨mid, one, rest⟩ := Option.bind_eq_some_iff.mp done
    exact ih (componentShort short one) rest

end loop

section resolving
variable {task : Task} {rs ws cs : List Str} {input p tmp : Str}

structure Sane (task : Task) : Prop where
  root : ∃ rs, Normal task.root rs
  cwd : ∃ ws, Normal task.cwd ws
  rootShort : task.root.length ≤ MAX_PATH_LEN - 1
  cwdShort : task.cwd.length ≤ MAX_PATH_LEN - 1

theorem normalInside (normal : Normal task.root rs) (normal' : Normal p cs)
    (under : slashed task.root <+: slashed p) : Inside task.root p := by
  obtain ⟨rest, rfl⟩ := normal'.starts
  refine ⟨rfl, ?_, fun member => ?_⟩
  · rw [normal.string, normal'.string] at under
    rw [normal.reads, normal'.reads]
    exact Path.flatPrefix normal'.names normal.names under
  · rw [normal'.reads] at member
    exact (normal'.names _ member).2.2.2 rfl

theorem insideUnder (normal : Normal task.root rs) (normal' : Normal p cs)
    (inside : Inside task.root p) : flat rs <+: flat cs := by
  have components := inside.2.1
  rw [normal.reads, normal'.reads] at components
  obtain ⟨more, rfl⟩ := components
  rw [Path.flatAppend]
  exact List.prefix_append _ _

theorem rawPathSpec (normal : Normal task.root rs) (normal' : Normal task.cwd ws)
    (raw : rawPath task.root task.cwd input = .path tmp) :
    (∃ rest, tmp = task.root ++ rest ∧ components tmp = rs ++ components rest) ∨
      tmp = slashed task.cwd ++ input := by
  unfold rawPath at raw
  split at raw <;> rename_i absolute
  · refine Or.inl ?_
    split at raw <;> rename_i jailed
    · split at raw
      · split at raw
        · cases raw
        · cases raw
          exact ⟨[], (List.append_nil _).symm, by rw [normal.reads]; exact (List.append_nil rs).symm⟩
      · split at raw
        · cases raw
        · cases raw
          obtain ⟨x, rest, rfl⟩ := List.exists_cons_of_ne_nil
            (show input ≠ [] from fun none => by rw [none] at absolute; cases absolute)
          cases absolute
          exact ⟨'/' :: rest, rfl, by rw [Path.componentsSlash, normal.reads, Path.componentsLead]⟩
    · split at raw
      · cases raw
      · cases raw
        obtain ⟨rest, string⟩ := normal.starts
        have alone : rest = [] := by
          rw [string, List.length_cons] at jailed
          exact List.length_eq_zero_iff.mp (by omega)
        rw [alone] at string
        have none : rs = [] := by
          have reads := normal.reads
          rw [string] at reads
          exact reads.symm
        obtain ⟨x, more, rfl⟩ := List.exists_cons_of_ne_nil
          (show input ≠ [] from fun none => by rw [none] at absolute; cases absolute)
        cases absolute
        exact ⟨more, by rw [string]; rfl, by rw [none, Path.componentsLead]; rfl⟩
  · split at raw
    · cases raw
    · cases raw
      refine Or.inr ?_
      have filled : 0 < task.cwd.length := List.length_pos_iff.mpr normal'.filled
      unfold slashed
      by_cases ends : task.cwd.getLast? = some '/'
      · rw [if_pos ends, if_neg fun apart => apart.2 ends]
      · rw [if_neg ends, if_pos ⟨filled, ends⟩]

theorem rawLead (normal : Normal task.root rs) (normal' : Normal task.cwd ws)
    (raw : rawPath task.root task.cwd input = .path tmp) (begins : task.root <+: tmp) :
    ∃ first more, components tmp = first ++ more ∧ Names first ∧ task.root <+: flat first ∧
      (Inside task.root task.cwd → slashed task.root <+: flat first) := by
  have root : task.root <+: flat rs := normal.string ▸ Path.prefixSlashed task.root
  rcases rawPathSpec normal normal' raw with ⟨rest, _, split⟩ | rfl
  · exact ⟨rs, components rest, split, normal.names, root, fun _ => normal.string ▸ List.prefix_refl _⟩
  · by_cases inside : Inside task.root task.cwd
    · have under := insideUnder normal normal' inside
      refine ⟨ws, components input, ?_, normal'.names, root.trans under, fun _ => ?_⟩
      · rw [normal'.string, Path.componentsFlat normal'.names]
      · exact normal.string ▸ under
    · obtain ⟨rest, whole⟩ := begins
      obtain ⟨first, more, split, names, onward, _⟩ := normal.lead rest
      rw [whole] at split
      exact ⟨first, more, split, names, onward, fun absurd' => absurd absurd' inside⟩

theorem resolvePathSpec (sane : Sane task) (done : resolvePath task input = .path p) :
    (∃ cs, Normal p cs) ∧ p.length ≤ MAX_PATH_LEN - 1 ∧
      (Inside task.root task.cwd → Inside task.root p) := by
  obtain ⟨rs, normal⟩ := sane.root
  obtain ⟨ws, normal'⟩ := sane.cwd
  unfold resolvePath at done
  rw [if_neg normal.filled] at done
  dsimp only at done
  split at done
  · rename_i tmp raw
    split at done <;> rename_i loop
    · have short := loopShort (by decide) loop
      by_cases begins : task.root <+: tmp
      · rw [if_pos begins] at loop
        obtain ⟨first, more, split, names, onward, under⟩ := rawLead normal normal' raw begins
        have words : ∀ c ∈ more, c ≠ [] ∧ '/' ∉ c := fun c member =>
          Path.componentsWords _ c (split ▸ List.mem_append_right first member)
        rw [split] at loop
        obtain ⟨⟨cs, out, _⟩, kept⟩ := heldFrom normal names words onward loop
        rw [if_neg out.filled] at done
        cases done
        exact ⟨⟨cs, out⟩, short, fun inside => normalInside normal out (kept (under inside))⟩
      · rw [if_neg begins] at loop
        obtain ⟨⟨cs, out, _⟩, _⟩ := heldFrom Path.rootNormal
          (show Names [] from fun _ absurd' => nomatch absurd') (Path.componentsWords _) (List.prefix_refl _) loop
        rw [if_neg out.filled] at done
        cases done
        refine ⟨⟨cs, out⟩, short, fun inside => absurd ?_ begins⟩
        rcases rawPathSpec normal normal' raw with ⟨rest, rfl, _⟩ | rfl
        · exact List.prefix_append _ _
        · have under := insideUnder normal normal' inside
          rw [← normal.string, ← normal'.string] at under
          exact ((Path.prefixSlashed _).trans under).trans (List.prefix_append _ _)
    · cases done
  · cases done
  · cases done

theorem resolvePathOverrun (sane : Sane task) :
    resolvePath task input = .overrun ↔ ¬ Fits task.root input := by
  obtain ⟨rs, normal⟩ := sane.root
  have raw : rawPath task.root task.cwd input = .overrun ↔ ¬ Fits task.root input := by
    unfold rawPath Fits
    grind
  rw [← raw]
  unfold resolvePath
  rw [if_neg normal.filled]
  dsimp only
  split <;> rename_i result
  · split <;> simp [result]
  · simp [result]
  · simp [result]

theorem resolveContainedIff (sane : Sane task) (inside : Inside task.root task.cwd) (path : Str) :
    Contained task.root (resolve task path) ↔ Fits task.root (copyPathFromUser path) := by
  unfold resolve
  cases result : resolvePath task (copyPathFromUser path) with
  | path p =>
    have fits : Fits task.root (copyPathFromUser path) := by
      by_contra long
      rw [(resolvePathOverrun sane).mpr long] at result
      cases result
    exact ⟨fun _ => fits, fun _ => (resolvePathSpec sane result).2.2 inside⟩
  | refused =>
    have fits : Fits task.root (copyPathFromUser path) := by
      by_contra long
      rw [(resolvePathOverrun sane).mpr long] at result
      cases result
    exact ⟨fun _ => fits, fun _ => trivial⟩
  | overrun =>
    have long := (resolvePathOverrun sane).mp result
    exact ⟨fun absurd' => absurd'.elim, fun fits => absurd fits long⟩

theorem callContainedIff (sane : Sane task) (inside : Inside task.root task.cwd) (c : PathCall) :
    (∀ r ∈ goesOn task c, Contained task.root r) ↔ Sound task.root c := by
  have one := resolveContainedIff sane inside
  cases c <;> simp only [goesOn, Sound, List.mem_cons, List.not_mem_nil, or_false, forall_eq,
    forall_eq_or_imp, one] <;> rfl

theorem bootSane {t : Nat} (here : boot t = some task) : Sane task := by
  unfold boot at here
  split at here
  · cases here
    exact ⟨⟨[], Path.rootNormal⟩, ⟨[], Path.rootNormal⟩, by decide, by decide⟩
  · cases here

theorem storedSame (short : p.length ≤ MAX_PATH_LEN - 1) : stored p = p :=
  List.take_of_length_le short

theorem changeDirSpec (sane : Sane task) (ok : Bool) (path : Str) :
    Sane (changeDir task ok path) ∧ (changeDir task ok path).root = task.root ∧
      (Inside task.root task.cwd → Inside task.root (changeDir task ok path).cwd) := by
  unfold changeDir
  split <;> rename_i result
  · split
    · obtain ⟨normal, short, kept⟩ := resolvePathSpec sane result
      rw [storedSame short]
      exact ⟨⟨sane.root, normal, sane.rootShort, short⟩, rfl, kept⟩
    · exact ⟨sane, rfl, fun inside => inside⟩
  · exact ⟨sane, rfl, fun inside => inside⟩

theorem changeRootSane (sane : Sane task) (ok : Bool) (path : Str) :
    Sane (changeRoot task ok path) := by
  unfold changeRoot
  split <;> rename_i result
  · split
    · obtain ⟨normal, short, _⟩ := resolvePathSpec sane result
      rw [storedSame short]
      exact ⟨normal, sane.cwd, short, sane.cwdShort⟩
    · exact sane
  · exact sane

theorem calledSane (sane : Sane task) (ok : Bool) (c : PathCall) : Sane (called task ok c) := by
  unfold called
  split
  · exact (changeDirSpec sane ok _).1
  · exact (changeDirSpec sane ok _).1
  · exact changeRootSane sane ok _
  · exact sane

end resolving

def AllSane (s : State) : Prop := ∀ t task, s t = some task → Sane task

theorem setSane {s : State} {t : Nat} {task : Task} (sane : AllSane s) (new : Sane task) :
    AllSane (setTask s t task) := by
  intro t' task' here
  unfold setTask at here
  by_cases same : t' = t
  · rw [same, Function.update_self] at here
    cases here
    exact new
  · rw [Function.update_of_ne same] at here
    exact sane t' task' here

theorem stepSane (s : State) (a : Action) (s' : State) (sane : AllSane s)
    (stepped : step s a = some s') : AllSane s' := by
  unfold step at stepped
  cases a with
  | spawn t =>
    dsimp only at stepped
    split at stepped <;> cases stepped
    exact setSane sane (bootSane (t := 0) rfl)
  | fork t child =>
    dsimp only at stepped
    split at stepped <;> rename_i here
    · split at stepped <;> cases stepped
      exact setSane sane (sane t _ here)
    · cases stepped
  | call t c ok =>
    dsimp only at stepped
    split at stepped <;> rename_i here
    · split at stepped <;> cases stepped
      exact setSane sane (calledSane (sane t _ here) ok c)
    · cases stepped

theorem stepInside {s s' : State} {a : Action} {t : Nat} {task : Task} (sane : Sane task)
    (here : s t = some task) (inside : Inside task.root task.cwd)
    (other : ∀ path ok, a ≠ .call t (.fsChroot path) ok) (stepped : step s a = some s') :
    ∃ task', s' t = some task' ∧ task'.root = task.root ∧ Inside task'.root task'.cwd := by
  have apart : ∀ t' new, t ≠ t' → setTask s t' new t = some task := fun t' new differ =>
    (Function.update_of_ne differ ..).trans here
  have taken : ∀ t', s t' = none → t ≠ t' := by
    intro t' free same
    rw [← same, here] at free
    cases free
  unfold step at stepped
  cases a with
  | spawn t' =>
    dsimp only at stepped
    split at stepped <;> rename_i free <;> cases stepped
    exact ⟨task, apart t' _ (taken t' free), rfl, inside⟩
  | fork t' child =>
    dsimp only at stepped
    split at stepped
    · split at stepped <;> rename_i free <;> cases stepped
      exact ⟨task, apart child _ (taken child free), rfl, inside⟩
    · cases stepped
  | call t' c ok =>
    dsimp only at stepped
    split at stepped <;> rename_i caller
    · split at stepped <;> cases stepped
      by_cases same : t = t'
      · cases same
        cases here.symm.trans caller
        refine ⟨called task ok c, Function.update_self .., ?_⟩
        unfold called
        split
        · obtain ⟨_, root, kept⟩ := changeDirSpec sane ok (by assumption)
          exact ⟨root, root ▸ kept inside⟩
        · obtain ⟨_, root, kept⟩ := changeDirSpec sane ok (by assumption)
          exact ⟨root, root ▸ kept inside⟩
        · exact absurd rfl (other _ ok)
        · exact ⟨rfl, inside⟩
      · exact ⟨task, apart t' _ same, rfl, inside⟩
    · cases stepped

/-- In every state that is reached, for a task whose working directory lies in its
root: every path of a call lies there just when the call is sound, and the working
directory stays there until the task changes its root. -/
theorem pathsContainedIff (acts : List Action) (s : State) (t : Nat) (task : Task)
    (ran : Run.run step boot acts = some s) (here : s t = some task)
    (inside : Inside task.root task.cwd) :
    (∀ c, (∀ r ∈ goesOn task c, Contained task.root r) ↔ Sound task.root c) ∧
      ∀ a s', step s a = some s' → (∀ path ok, a ≠ .call t (.fsChroot path) ok) →
        ∃ task', s' t = some task' ∧ task'.root = task.root ∧ Inside task'.root task'.cwd := by
  have all : AllSane s := Run.invariant stepSane (fun _ _ => bootSane) ran
  have sane := all t task here
  exact ⟨callContainedIff sane inside,
    fun a s' stepped other => stepInside sane here inside other stepped⟩

def jailActs : List Action :=
  [.call 0 (.fsChroot ['/', 'j']) true, .call 0 (.fsChdir ['/']) true]

def jailed : Task := ⟨['/', 'j'], ['/', 'j']⟩

theorem jailRuns : ∃ s, Run.run step boot jailActs = some s ∧ s 0 = some jailed := ⟨_, rfl, rfl⟩

theorem jailedInside : Inside jailed.root jailed.cwd := by
  unfold Inside
  decide

theorem jailedOpen : ∃ s, Run.run step boot jailActs = some s ∧ s 0 = some jailed ∧
    ∀ r ∈ goesOn jailed (.fsOpen ['.', '.', '/', '.', '.', '/', 'e']),
      Contained jailed.root r := by
  obtain ⟨s, ran, here⟩ := jailRuns
  have contained := (pathsContainedIff jailActs s 0 jailed ran here jailedInside).1
  refine ⟨s, ran, here, (contained _).mpr fun absurd' => ?_⟩
  cases absurd'

def longPath : Str := '/' :: List.replicate 254 'x'

/-- It mounts on a directory outside, and a long path overruns the buffer. -/
theorem mountedOutside : ∃ s, Run.run step boot jailActs = some s ∧ s 0 = some jailed ∧
    Inside jailed.root jailed.cwd ∧
    (∃ r ∈ goesOn jailed (.sysMount ['/', 'm']), ¬ Contained jailed.root r) ∧
    ∃ r ∈ goesOn jailed (.fsOpen longPath), ¬ Contained jailed.root r := by
  obtain ⟨s, ran, here⟩ := jailRuns
  refine ⟨s, ran, here, jailedInside, ⟨.path ['/', 'm'], ?_, ?_⟩, .overrun, ?_, id⟩
  · exact List.mem_cons_of_mem _ (List.mem_singleton_self _)
  · unfold Contained Inside
    decide
  · have sane : Sane jailed := Run.invariant stepSane (fun _ _ => bootSane) ran 0 jailed here
    have long : ¬ Fits jailed.root (copyPathFromUser longPath) :=
      fun fits => absurd (fits rfl (by decide) (by decide +kernel)) (by decide +kernel)
    have overrun : resolve jailed longPath = .overrun := (resolvePathOverrun sane).mpr long
    exact overrun ▸ List.mem_singleton_self _

end Scepter.Vfs
