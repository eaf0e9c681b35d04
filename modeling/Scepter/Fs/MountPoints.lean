import Scepter.Fs.Mounts
import Scepter.Fs.ResolveForm
import Scepter.Kernel.Errno

/-! Which mount a path belongs to (fs/vfs.c, sys_mount in kernel/syscall.c). The table keeps
each mount under the string that was asked for; `points` has beside it the names of the
directory that the string led to, which the code does not keep. -/
namespace Scepter.Mounts
open Scepter.Path (Str components slashed flat body Normal Name Names normalPath)

structure Table where
  mounts : Nat → Option Mount
  nextInst : Nat
  points : Nat → List Str

def betterIn (mounts : Nat → Option Mount) (abs : Str) (best : Option Mount) (i : Nat) : Option Mount :=
  match mounts i with
  | some m =>
    if covers m.path abs ∧ m.path.length > (best.map fun b => b.path.length).getD 0 then some m
    else best
  | none => best

def findIn (mounts : Nat → Option Mount) (abs : Str) : Option Mount :=
  slots.foldl (betterIn mounts abs) none

def relPath (m : Mount) (abs : Str) : Str :=
  if abs.drop m.path.length = [] then ['/'] else abs.drop m.path.length

namespace Table

def isMounted (s : Table) (path : Str) : Bool :=
  slots.any fun i => match s.mounts i with
    | some m => m.path = path
    | none => false

def fsMount (s : Table) (path : Str) (point : List Str) (driver : Driver) (made : Bool) :
    Option Table :=
  if s.isMounted path then none
  else match slots.find? fun i => (s.mounts i).isNone with
    | none => none
    | some slot =>
      if !made then none
      else some
        { mounts := Function.update s.mounts slot (some ⟨path, driver, s.nextInst⟩)
          nextInst := s.nextInst + 1
          points := Function.update s.points s.nextInst point }

def fsUnmount (s : Table) (path : Str) : Table :=
  match slots.find? fun i => (s.mounts i).any fun m => m.path = path with
  | none => s
  | some slot => {s with mounts := Function.update s.mounts slot none}

/-- A call of mount: who makes it, what it names, and how the drivers answer. `stat` tells
whether the target is there and a directory. -/
structure MountCall where
  superuser : Bool
  copied : Bool
  task : {task : Vfs.Task // Vfs.Sane task}
  target : Str
  stat : Option Bool
  driver : Option Driver
  device : Bool
  made : Bool

def pseudo : Driver → Bool
  | .devfs | .procfs | .tmpfs => true
  | .minix3 | .ext2 => false

def sysMount (s : Table) (c : MountCall) : Option (Table × Int) :=
  let target := Vfs.copyPathFromUser c.target
  if !c.superuser then some (s, -EPERM)
  else if !c.copied then some (s, -EFAULT)
  else match Vfs.resolvePath c.task target with
    | .overrun => none
    | .refused => some (s, -ENOENT)
    | .path abs => match (findIn s.mounts abs).bind fun _ => c.stat with
      | none => some (s, -ENOENT)
      | some isDir =>
        if !isDir then some (s, -ENOTDIR)
        else if s.isMounted target then some (s, -EBUSY)
        else match c.driver with
          | none => some (s, -ENODEV)
          | some driver =>
            if !pseudo driver && !c.device then some (s, -ENODEV)
            else match s.fsMount target (components abs) driver c.made with
              | none => some (s, -EINVAL)
              | some s => some (s, 0)

inductive Action where
  -- by the kernel, when it starts
  | mountRoot (driver : Driver) (made : Bool)
  | sysMount (c : MountCall)
  | unmount (target : Str)

def boot : Table := ⟨fun _ => none, 0, fun _ => []⟩

def step (s : Table) : Action → Option Table
  | .mountRoot driver made => some ((s.fsMount ['/'] [] driver made).getD s)
  | .sysMount c => (s.sysMount c).map Prod.fst
  | .unmount target => some (s.fsUnmount (Vfs.copyPathFromUser target))

def point (s : Table) (m : Mount) : List Str := s.points m.inst

def Mounted (s : Table) (m : Mount) : Prop := ∃ i, s.mounts i = some m

structure Longest (s : Table) (cs : List Str) (m : Mount) : Prop where
  mounted : Mounted s m
  begins : s.point m <+: cs
  longest : ∀ other, Mounted s other → s.point other <+: cs →
    other = m ∨ (s.point other).length < (s.point m).length

structure Right (s : Table) : Prop where
  found : ∀ abs cs m, Normal abs cs → (findIn s.mounts abs = some m ↔ Longest s cs m)
  missing : ∀ abs cs, Normal abs cs →
    (findIn s.mounts abs = none ↔ ∀ m, Mounted s m → ¬ s.point m <+: cs)
  rest : ∀ abs cs m, Normal abs cs → findIn s.mounts abs = some m →
    components (relPath m abs) = cs.drop (s.point m).length

def Takes (s : Table) (a : Action) (s' : Table) : Prop :=
  ∀ c target, a = .sysMount c → s.sysMount c = some (s', 0) →
    Vfs.resolvePath c.task (Vfs.copyPathFromUser c.target) = .path target →
      ∀ abs cs, Normal abs cs → components target <+: cs →
        ∃ m, findIn s'.mounts abs = some m ∧ m.inst = s.nextInst ∧
          components (relPath m abs) = cs.drop (components target).length

def Spelled (_ : Table) : Action → Prop
  | .sysMount c => ∀ abs, Vfs.resolvePath c.task (Vfs.copyPathFromUser c.target) = .path abs →
    Vfs.copyPathFromUser c.target = normalPath (components abs)
  | _ => True

def Alone (s : Table) : Action → Prop
  | .sysMount c => ∀ abs, Vfs.resolvePath c.task (Vfs.copyPathFromUser c.target) = .path abs →
    ∀ m, Mounted s m → ¬ components abs <+: s.point m
  | _ => True

end Table

/-! ## The search -/

section search
variable {mounts : Nat → Option Mount} {abs : Str} {m : Mount}

def weight (best : Option Mount) : Nat := (best.map fun b => b.path.length).getD 0

theorem betterSpec (best : Option Mount) (i : Nat) :
    betterIn mounts abs best i = best ∧
      (∀ m, mounts i = some m → covers m.path abs = true → m.path.length ≤ weight best) ∨
    ∃ m, mounts i = some m ∧ covers m.path abs = true ∧ weight best < m.path.length ∧
      betterIn mounts abs best i = some m := by
  unfold betterIn
  cases here : mounts i with
  | none => exact .inl ⟨rfl, nofun⟩
  | some m =>
    dsimp only
    by_cases taken : covers m.path abs ∧ m.path.length > (best.map fun b => b.path.length).getD 0
    · exact .inr ⟨m, rfl, taken.1, taken.2, if_pos taken⟩
    · refine .inl ⟨if_neg taken, fun m' same covered => ?_⟩
      cases same
      exact Nat.not_lt.mp fun longer => taken ⟨covered, longer⟩

theorem foldSpec (l : List Nat) (best : Option Mount) :
    let r := l.foldl (betterIn mounts abs) best
    weight best ≤ weight r ∧
      (r = best ∨ ∃ i ∈ l, ∃ m, mounts i = some m ∧ covers m.path abs = true ∧ r = some m) ∧
      ∀ i ∈ l, ∀ m, mounts i = some m → covers m.path abs = true → m.path.length ≤ weight r := by
  induction l generalizing best with
  | nil => exact ⟨Nat.le_refl _, .inl rfl, fun _ absurd' => nomatch absurd'⟩
  | cons i l ih =>
    obtain ⟨grows, from', all⟩ := ih (betterIn mounts abs best i)
    dsimp only
    rw [List.foldl_cons]
    rcases @betterSpec mounts abs best i with ⟨stays, less⟩ | ⟨m, here, covered, more, taken⟩
    · rw [stays] at grows from' all ⊢
      refine ⟨grows, ?_, fun j member m here covered => ?_⟩
      · rcases from' with same | ⟨j, member, rest⟩
        · exact .inl same
        · exact .inr ⟨j, List.mem_cons_of_mem i member, rest⟩
      · rcases List.mem_cons.mp member with rfl | later
        · exact (less m here covered).trans grows
        · exact all j later m here covered
    · rw [taken] at grows from' all ⊢
      have own : m.path.length ≤ weight (l.foldl (betterIn mounts abs) (some m)) := grows
      refine ⟨by omega, .inr ?_, fun j member m' here' covered' => ?_⟩
      · rcases from' with same | ⟨j, member, rest⟩
        · exact ⟨i, List.mem_cons_self, m, here, covered, same⟩
        · exact ⟨j, List.mem_cons_of_mem i member, rest⟩
      · rcases List.mem_cons.mp member with rfl | later
        · cases here.symm.trans here'
          exact own
        · exact all j later m' here' covered'

end search

/-! ## Strings and names -/

section strings
variable {abs : Str} {cs ds es : List Str}

theorem normalPathShorter (names : Names es) (inside : ds <+: es) (differ : ds ≠ es) :
    (normalPath ds).length < (normalPath es).length := by
  obtain ⟨more, rfl⟩ := inside
  cases more with
  | nil => exact absurd (List.append_nil ds).symm differ
  | cons k ks =>
    have filled := List.length_pos_iff.mpr (names k (by simp)).1
    have behind : (body (k :: ks)).length = k.length + 1 + (body ks).length := by
      simp [body]
      omega
    have longer : (flat (ds ++ k :: ks)).length = (flat ds).length + (body (k :: ks)).length := by
      rw [Path.flatAppend, List.length_append]
    have own : (normalPath ds).length ≤ (flat ds).length := by
      unfold normalPath
      split <;> rename_i none_
      · rw [none_]
        exact Nat.le_refl _
      · rw [List.length_dropLast]
        omega
    rw [show normalPath (ds ++ k :: ks) = (flat (ds ++ k :: ks)).dropLast from if_neg (by simp),
      List.length_dropLast]
    omega

theorem normalCut (normal : Normal abs (ds ++ es)) (some_ : ds ≠ []) :
    ∃ rest, abs = normalPath ds ++ rest ∧ (rest = [] ∨ ∃ more, rest = '/' :: more) := by
  have names : Names ds := fun d member => normal.names d (List.mem_append_left es member)
  have point : flat ds = normalPath ds ++ ['/'] := by
    rw [normalPath, if_neg some_]
    exact (List.dropLast_append_getLast? _ (Path.flatEnds ds)).symm
  rcases normal.ending with string | string <;> rw [Path.flatAppend, point] at string
  · exact ⟨'/' :: body es, by rw [string, List.append_assoc]; rfl, .inr ⟨_, rfl⟩⟩
  · rcases List.eq_nil_or_concat es with rfl | ⟨init, k, rfl⟩
    · refine ⟨[], ?_, .inl rfl⟩
      rw [show body [] = [] from rfl, List.append_nil] at string
      rw [List.append_nil]
      exact List.append_cancel_right string
    · rw [List.concat_eq_append, Path.bodyAppend, List.append_assoc] at string
      refine ⟨'/' :: (body init ++ k), ?_, .inr ⟨_, rfl⟩⟩
      refine List.append_cancel_right (show _ ++ ['/'] = _ ++ ['/'] from ?_)
      rw [string]
      simp [body]

theorem coversIff (names : Names ds) (normal : Normal abs cs) :
    covers (normalPath ds) abs = true ↔ ds <+: cs := by
  have unfolded : covers (normalPath ds) abs = true ↔ normalPath ds = ['/'] ∨
      normalPath ds <+: abs ∧ (abs.length = (normalPath ds).length ∨
        abs[(normalPath ds).length]? = some '/') := decide_eq_true_iff
  rw [unfolded]
  by_cases none_ : ds = []
  · subst none_
    exact iff_of_true (.inl rfl) List.nil_prefix
  · have root : normalPath ds ≠ ['/'] := by
      intro same
      have longer := normalPathShorter names List.nil_prefix (Ne.symm none_)
      rw [same] at longer
      exact Nat.lt_irrefl 1 longer
    have reads := (Path.normalPathNormal names).reads
    constructor
    · rintro (same | ⟨⟨rest, whole⟩, ends⟩)
      · exact absurd same root
      · have all := normal.reads
        rw [← whole] at all
        cases rest with
        | nil =>
          rw [List.append_nil, reads] at all
          exact all ▸ List.prefix_refl ds
        | cons x more =>
          have slash : x = '/' := by
            rcases ends with same | same
            · rw [← whole, List.length_append, List.length_cons] at same
              omega
            · rw [← whole, List.getElem?_append_right (Nat.le_refl _), Nat.sub_self] at same
              exact Option.some.inj same
          rw [slash, Path.componentsSlash, reads] at all
          exact ⟨_, all⟩
    · rintro ⟨es, rfl⟩
      obtain ⟨rest, whole, ends⟩ := normalCut normal none_
      refine .inr ⟨⟨rest, whole.symm⟩, ?_⟩
      rcases ends with rfl | ⟨more, rfl⟩
      · rw [List.append_nil] at whole
        exact .inl (by rw [whole])
      · rw [whole, List.getElem?_append_right (Nat.le_refl _), Nat.sub_self]
        exact .inr rfl

theorem relPathReads {m : Mount} (path : m.path = normalPath ds) (names : Names ds)
    (normal : Normal abs cs) (inside : ds <+: cs) :
    components (relPath m abs) = cs.drop ds.length := by
  obtain ⟨es, rfl⟩ := inside
  rw [List.drop_left]
  have behind (rest : Str) (whole : abs.drop m.path.length = rest) (reads : components rest = es) :
      components (relPath m abs) = es := by
    unfold relPath
    rw [whole]
    split <;> rename_i none_
    · rw [← reads, none_]
      rfl
    · exact reads
  by_cases none_ : ds = []
  · subst none_
    obtain ⟨rest, string⟩ := normal.starts
    refine behind rest (by rw [path, string]; rfl) ?_
    have reads := normal.reads
    rw [string, Path.componentsLead] at reads
    exact reads
  · obtain ⟨rest, whole, ends⟩ := normalCut normal none_
    refine behind rest (by rw [path, whole, List.drop_left]) ?_
    have reads := normal.reads
    have own := (Path.normalPathNormal names).reads
    rcases ends with rfl | ⟨more, rfl⟩
    · rw [whole, List.append_nil, own] at reads
      have lengths := congrArg List.length reads
      rw [List.length_append] at lengths
      rw [List.length_eq_zero_iff.mp (show es.length = 0 by omega)]
      rfl
    · rw [whole, Path.componentsSlash, own] at reads
      rw [Path.componentsLead]
      exact List.append_cancel_left reads

end strings

/-! ## The table -/

namespace Table

structure Known (s : Table) : Prop where
  slot : ∀ i m, s.mounts i = some m → i ∈ slots
  names : ∀ m, Mounted s m → Names (s.point m)
  path : ∀ m, Mounted s m → m.path = normalPath (s.point m)
  fresh : ∀ m, Mounted s m → m.inst < s.nextInst
  apart : ∀ m other, Mounted s m → Mounted s other → m.path = other.path → m = other

variable {s s' : Table} {m other : Mount} {abs : Str} {cs : List Str}

theorem Known.covers (known : Known s) (mounted : Mounted s m) (normal : Normal abs cs) :
    Mounts.covers m.path abs = true ↔ s.point m <+: cs := by
  rw [known.path m mounted]
  exact coversIff (known.names m mounted) normal

theorem Known.foundIs (known : Known s) (normal : Normal abs cs)
    (found : findIn s.mounts abs = some m) : Longest s cs m := by
  obtain ⟨_, from', all⟩ := @foldSpec s.mounts abs slots none
  change (findIn s.mounts abs = none ∨ ∃ i ∈ slots, ∃ m, _ ∧ _ ∧ findIn s.mounts abs = some m) at from'
  rw [found] at from'
  obtain absurd' | ⟨i, _, m', here, covered, same⟩ := from'
  · cases absurd'
  · cases same
    have mounted : Mounted s m := ⟨i, here⟩
    have begins := (known.covers mounted normal).mp covered
    refine ⟨mounted, begins, fun other mounted' begins' => ?_⟩
    obtain ⟨j, here'⟩ := mounted'
    have shorter := all j (known.slot j other here') other here'
      ((known.covers ⟨j, here'⟩ normal).mpr begins')
    change other.path.length ≤ weight (findIn s.mounts abs) at shorter
    rw [found] at shorter
    change other.path.length ≤ m.path.length at shorter
    rw [known.path m mounted, known.path other ⟨j, here'⟩] at shorter
    by_cases same : s.point other = s.point m
    · refine .inl (known.apart other m ⟨j, here'⟩ mounted ?_)
      rw [known.path m mounted, known.path other ⟨j, here'⟩, same]
    · rcases Nat.lt_trichotomy (s.point other).length (s.point m).length with less | level | more
      · exact .inr less
      · exact absurd ((List.prefix_of_prefix_length_le begins' begins (Nat.le_of_eq level)).eq_of_length
          level) same
      · have deeper := normalPathShorter (known.names other ⟨j, here'⟩)
          (List.prefix_of_prefix_length_le begins begins' (Nat.le_of_lt more)) (Ne.symm same)
        omega

theorem Known.missing (known : Known s) (normal : Normal abs cs) :
    findIn s.mounts abs = none ↔ ∀ m, Mounted s m → ¬ s.point m <+: cs := by
  constructor
  · intro none_ m mounted begins
    obtain ⟨i, here⟩ := mounted
    obtain ⟨_, _, all⟩ := @foldSpec s.mounts abs slots none
    have shorter := all i (known.slot i m here) m here ((known.covers ⟨i, here⟩ normal).mpr begins)
    change m.path.length ≤ weight (findIn s.mounts abs) at shorter
    rw [none_, known.path m ⟨i, here⟩] at shorter
    have filled := List.length_pos_iff.mpr
      (Path.normalPathNormal (known.names m ⟨i, here⟩)).filled
    change _ ≤ 0 at shorter
    omega
  · intro none_
    cases found : findIn s.mounts abs with
    | none => rfl
    | some m =>
      have longest := known.foundIs normal found
      exact absurd longest.begins (none_ m longest.mounted)

theorem Known.right (known : Known s) : Right s := by
  refine ⟨fun abs cs m normal => ⟨known.foundIs normal, fun longest => ?_⟩,
    fun abs cs normal => known.missing normal, fun abs cs m normal found => ?_⟩
  · cases found : findIn s.mounts abs with
    | none => exact absurd longest.begins ((known.missing normal).mp found m longest.mounted)
    | some r =>
      have longest' := known.foundIs normal found
      rcases longest.longest r longest'.mounted longest'.begins with same | less
      · rw [same]
      · rcases longest'.longest m longest.mounted longest.begins with same | less'
        · rw [same]
        · omega
  · have longest := known.foundIs normal found
    exact relPathReads (known.path m longest.mounted) (known.names m longest.mounted) normal
      longest.begins

theorem freeSlot {slot : Nat} (free : (slots.find? fun i => (s.mounts i).isNone) = some slot) :
    slot ∈ slots ∧ s.mounts slot = none := by
  have empty := List.find?_some free
  exact ⟨List.mem_of_find?_eq_some free, Option.isNone_iff_eq_none.mp empty⟩

theorem mountedNot {path : Str} (known : Known s) (free : s.isMounted path = false)
    (mounted : Mounted s m) : m.path ≠ path := by
  obtain ⟨i, here⟩ := mounted
  have each := List.any_eq_false.mp free i (known.slot i m here)
  rw [here] at each
  simpa using each

theorem fsMountSpec {path : Str} {point : List Str} {driver : Driver} {made : Bool}
    (known : Known s) (names : Names point) (spelled : path = normalPath point)
    (done : s.fsMount path point driver made = some s') :
    Known s' ∧ s'.point ⟨path, driver, s.nextInst⟩ = point ∧
      (∀ m, Mounted s m → s'.point m = s.point m) ∧
      ∀ m, Mounted s' m ↔ m = ⟨path, driver, s.nextInst⟩ ∨ Mounted s m := by
  unfold fsMount at done
  split at done <;> rename_i free
  · cases done
  · split at done <;> rename_i found
    · cases done
    · rename_i slot
      split at done
      · cases done
      · obtain ⟨inside, empty⟩ := freeSlot found
        cases done
        have others {i : Nat} {m : Mount} (here : s.mounts i = some m) : i ≠ slot := by
          rintro rfl
          cases empty.symm.trans here
        have mounted : ∀ m, Mounted
            { mounts := Function.update s.mounts slot (some ⟨path, driver, s.nextInst⟩)
              nextInst := s.nextInst + 1
              points := Function.update s.points s.nextInst point } m ↔
            m = ⟨path, driver, s.nextInst⟩ ∨ Mounted s m := by
          intro m
          constructor
          · rintro ⟨i, here⟩
            by_cases same : i = slot
            · rw [same] at here
              change Function.update s.mounts slot _ slot = _ at here
              rw [Function.update_self] at here
              exact .inl (Option.some.inj here).symm
            · change Function.update s.mounts slot _ i = _ at here
              rw [Function.update_of_ne same] at here
              exact .inr ⟨i, here⟩
          · rintro (rfl | ⟨i, here⟩)
            · exact ⟨slot, Function.update_self ..⟩
            · exact ⟨i, (Function.update_of_ne (others here) ..).trans here⟩
        have kept : ∀ m, Mounted s m →
            Function.update s.points s.nextInst point m.inst = s.points m.inst := fun m old =>
          Function.update_of_ne (Nat.ne_of_lt (known.fresh m old)) ..
        have own : Function.update s.points s.nextInst point s.nextInst = point :=
          Function.update_self ..
        refine ⟨⟨fun i m here => ?_, fun m is => ?_, fun m is => ?_, fun m is => ?_,
          fun m other is is' same => ?_⟩, own, kept, mounted⟩
        · by_cases same : i = slot
          · exact same ▸ inside
          · change Function.update s.mounts slot _ i = _ at here
            rw [Function.update_of_ne same] at here
            exact known.slot i m here
        · change Names (Function.update s.points s.nextInst point m.inst)
          rcases (mounted m).mp is with rfl | old
          · rw [own]
            exact names
          · rw [kept m old]
            exact known.names m old
        · change m.path = normalPath (Function.update s.points s.nextInst point m.inst)
          rcases (mounted m).mp is with rfl | old
          · rw [own]
            exact spelled
          · rw [kept m old]
            exact known.path m old
        · rcases (mounted m).mp is with rfl | old
          · exact Nat.lt_succ_self _
          · exact Nat.lt_succ_of_lt (known.fresh m old)
        · have free' : s.isMounted path = false := by simpa using free
          rcases (mounted m).mp is with rfl | old <;> rcases (mounted other).mp is' with rfl | old'
          · rfl
          · exact absurd same.symm (mountedNot known free' old')
          · exact absurd same (mountedNot known free' old)
          · exact known.apart m other old old' same

theorem sysMountCases {c : MountCall} {r : Int} (done : s.sysMount c = some (s', r)) :
    s' = s ∧ r ≠ 0 ∨ r = 0 ∧ ∃ target driver,
      Vfs.resolvePath c.task (Vfs.copyPathFromUser c.target) = .path target ∧
        s.fsMount (Vfs.copyPathFromUser c.target) (components target) driver c.made = some s' := by
  have refused (e : Int) (not : e ≠ 0) (same : some (s, e) = some (s', r)) : s' = s ∧ r ≠ 0 := by
    cases same
    exact ⟨rfl, not⟩
  unfold sysMount at done
  dsimp only at done
  split at done
  · exact .inl (refused _ (by decide) done)
  · split at done
    · exact .inl (refused _ (by decide) done)
    · split at done <;> rename_i resolved
      · cases done
      · exact .inl (refused _ (by decide) done)
      · split at done
        · exact .inl (refused _ (by decide) done)
        · split at done
          · exact .inl (refused _ (by decide) done)
          · split at done
            · exact .inl (refused _ (by decide) done)
            · split at done
              · exact .inl (refused _ (by decide) done)
              · split at done
                · exact .inl (refused _ (by decide) done)
                · split at done <;> rename_i mounts
                  · exact .inl (refused _ (by decide) done)
                  · cases done
                    exact .inr ⟨rfl, _, _, resolved, mounts⟩

theorem resolvedNames {c : MountCall} {target : Str}
    (resolved : Vfs.resolvePath c.task (Vfs.copyPathFromUser c.target) = .path target) :
    Names (components target) := by
  obtain ⟨cs, normal⟩ := (Vfs.resolvePathSpec c.task.property resolved).1
  exact normal.reads ▸ normal.names

theorem bootKnown : Known boot where
  slot := nofun
  names := fun _ mounted => nomatch mounted.choose_spec
  path := fun _ mounted => nomatch mounted.choose_spec
  fresh := fun _ mounted => nomatch mounted.choose_spec
  apart := fun _ _ mounted => nomatch mounted.choose_spec

theorem unmountKnown (known : Known s) (path : Str) : Known (s.fsUnmount path) := by
  unfold fsUnmount
  split
  · exact known
  · rename_i slot found
    have before {i : Nat} {m : Mount} (here : Function.update s.mounts slot none i = some m) :
        s.mounts i = some m := by
      by_cases same : i = slot
      · rw [same, Function.update_self] at here
        cases here
      · rwa [Function.update_of_ne same] at here
    have old {m : Mount} (mounted : Mounted {s with mounts := Function.update s.mounts slot none} m) :
        Mounted s m := ⟨_, before mounted.choose_spec⟩
    exact ⟨fun i m here => known.slot i m (before here), fun m is => known.names m (old is),
      fun m is => known.path m (old is), fun m is => known.fresh m (old is),
      fun m other is is' => known.apart m other (old is) (old is')⟩

theorem stepKnown (s : Table) (a : Action) (s' : Table) (known : Known s) (spelled : Spelled s a)
    (stepped : step s a = some s') : Known s' := by
  unfold step at stepped
  cases a with
  | mountRoot driver made =>
    cases stepped
    cases done : s.fsMount ['/'] [] driver made with
    | none => exact known
    | some s' => exact (fsMountSpec known Path.rootNormal.names rfl done).1
  | sysMount c =>
    obtain ⟨⟨_, r⟩, done, rfl⟩ := Option.map_eq_some_iff.mp stepped
    rcases sysMountCases done with ⟨rfl, _⟩ | ⟨_, target, driver, resolved, mounts⟩
    · exact known
    · exact (fsMountSpec known (resolvedNames resolved) (spelled target resolved) mounts).1
  | unmount target =>
    cases stepped
    exact unmountKnown known _

theorem stepTakes {a : Action} (known : Known s) (spelled : Spelled s a) (alone : Alone s a) :
    Takes s a s' := by
  rintro c target rfl done resolved abs cs normal inside
  rcases sysMountCases done with ⟨_, failed⟩ | ⟨_, target', driver, resolved', mounts⟩
  · exact absurd rfl failed
  · cases resolved.symm.trans resolved'
    obtain ⟨known', own, kept, mounted⟩ :=
      fsMountSpec known (resolvedNames resolved) (spelled target resolved) mounts
    have new := (mounted _).mpr (.inl rfl)
    have right := known'.right
    have found : findIn s'.mounts abs = some ⟨Vfs.copyPathFromUser c.target, driver, s.nextInst⟩ := by
      refine (right.found abs cs _ normal).mpr ⟨new, own.symm ▸ inside, fun other is begins => ?_⟩
      rcases (mounted other).mp is with same | old
      · exact .inl same
      · refine .inr ?_
        rw [own]
        by_contra longer
        rw [kept other old] at begins longer
        exact alone target resolved other old
          (List.prefix_of_prefix_length_le inside begins (Nat.not_lt.mp longer))
    exact ⟨_, found, rfl, own ▸ right.rest abs cs _ normal found⟩

/-- In every run of mounts that are spelled as they resolve, the lookup is by the longest point,
and a further such mount takes over what is under its target where no mount stands below it. -/
theorem mountsResolve (acts : List Action) (s : Table)
    (spelled : Run.Meets step Spelled boot acts) (ran : Run.run step boot acts = some s) :
    Right s ∧ ∀ a s', Spelled s a → Alone s a → Takes s a s' := by
  have known := Run.invariantMeets stepKnown bootKnown spelled ran
  exact ⟨known.right, fun a s' spelled' alone => stepTakes known spelled' alone⟩

def plainTask : {task : Vfs.Task // Vfs.Sane task} :=
  ⟨⟨['/'], ['/']⟩, ⟨⟨[], Path.rootNormal⟩, ⟨[], Path.rootNormal⟩, by decide, by decide⟩⟩

def mountCall (target : Str) : MountCall :=
  ⟨true, true, plainTask, target, some true, some .tmpfs, false, true⟩

theorem mountedTmp : ∃ s, Run.run step boot [.mountRoot .ext2 true,
    .sysMount (mountCall ['/', 't', 'm', 'p'])] = some s ∧ Right s := by
  have spelled : Run.Meets step Spelled boot [.mountRoot .ext2 true,
      .sysMount (mountCall ['/', 't', 'm', 'p'])] := by
    refine ⟨trivial, fun s _ => ⟨fun abs resolved => ?_, fun _ _ => trivial⟩⟩
    have given : Vfs.resolvePath ⟨['/'], ['/']⟩ ['/', 't', 'm', 'p'] = .path ['/', 't', 'm', 'p'] := rfl
    cases given.symm.trans resolved
    decide
  exact ⟨_, rfl, (mountsResolve _ _ spelled rfl).1⟩

/-- mount of `tmp/` from the root directory: the path `/tmp/f` stays with the root's mount. -/
theorem slashMountMissed : ∃ s, Run.run step boot [.mountRoot .ext2 true,
    .sysMount (mountCall ['t', 'm', 'p', '/'])] = some s ∧ ¬ Right s := by
  refine ⟨_, rfl, fun right => ?_⟩
  have normal : Normal ['/', 't', 'm', 'p', '/', 'f'] [['t', 'm', 'p'], ['f']] :=
    ⟨by decide, by decide, by decide⟩
  have longest := (right.found _ _ ⟨['/'], .ext2, 0⟩ normal).mp rfl
  rcases longest.longest ⟨['t', 'm', 'p', '/'], .tmpfs, 1⟩ ⟨1, rfl⟩ (by decide) with same | shorter
  · cases same
  · exact absurd shorter (by decide)

end Table

end Scepter.Mounts
