import Scepter.Fs.ResolveForm
import Scepter.Kernel.Errno

/-! realpath of the C library (misc.c) next to resolve_path of the kernel. What
stat says about a path is a parameter; nothing is assumed of it, also where the path
overruns the kernel's buffer. -/
namespace Scepter.Realpath
open Scepter.Path (Str components slashed flat body Normal Name Names turn normalise Climbs normalPath)
open Scepter.Vfs

def fsGetcwd (task : Task) (size : Nat) : Option Str :=
  let root := if task.root = [] then ['/'] else task.root
  let cwd :=
    if root.length > 1 ∧ root <+: task.cwd then
      if task.cwd.drop root.length = [] then ['/'] else task.cwd.drop root.length
    else task.cwd
  if cwd.length + 1 > size then none else some cwd

/-- A copy of 255 characters has no NUL behind it, but no name of that length is
put into the result. -/
def pushToken (stack : List Str) (tok : Str) : List Str :=
  if tok = ['.'] ∨ tok = [] then stack
  else if tok = ['.', '.'] then
    if stack.length > 0 then stack.dropLast else stack
  else if stack.length < 32 then stack ++ [tok.take 255] else stack

def appendName (out c : Str) : Str :=
  if out.length + c.length + 2 < 256 then out ++ c ++ ['/'] else out

def stripSlash (out : Str) : Str :=
  if out.length > 1 ∧ out.getLast? = some '/' then out.dropLast else out

def composed (cwd path : Str) : Str :=
  if path.head? = some '/' then path.take 511 else (cwd ++ '/' :: path).take 511

def normalised (tmp : Str) : Str :=
  stripSlash (((components tmp).foldl pushToken []).foldl appendName ['/'])

def realpath (stat : Str → Bool) (task : Task) : Option Str → Except Int Str
  | none => .error EINVAL
  | some path =>
    match if path.head? = some '/' then some [] else fsGetcwd task 256 with
    | none => .error EACCES
    | some cwd =>
      let out := normalised (composed cwd path)
      if stat out then .ok out else .error ENOENT

/-! ## What should hold -/

def seen (task : Task) (path : Str) : List Str :=
  (if path.head? = some '/' then [] else components ((fsGetcwd task 256).getD [])) ++
    components path

structure Agrees (task : Task) (path out : Str) : Prop where
  form : out = normalPath (normalise (seen task path))
  same : ∃ p, resolvePath task out = .path p ∧ resolvePath task path = .path p

def Shallow (cs : List Str) : Prop :=
  ∃ before, before <+: cs ∧ normalise before = [] ∧
    ∀ mid, before <+: mid → mid <+: cs → (normalise mid).length ≤ 32

def below (task : Task) (path : Str) : List Str :=
  if path.head? = some '/' then components path
  else (components (rawString task path)).drop (components task.root).length

/-- A relative path goes on from the root, and names behind it what it names behind
the working directory that getcwd reports. -/
def Rooted (task : Task) (path : Str) : Prop :=
  path.head? ≠ some '/' → task.root <+: rawString task path ∧
    (components task.root <+: components (rawString task path) ∨ Climbs (below task path)) ∧
    normalise (seen task path) = normalise (below task path)

def Tidy (task : Task) (path : Str) : Prop :=
  EndsUp task.root (below task path) →
    components task.root ++ normalise (below task path) = []

section stack
variable {cs : List Str} {c : Str} {stack : List Str}

theorem pushWord (filled : c ≠ []) (short : c.length ≤ 255) :
    pushToken stack c = if c = ['.'] then stack else if c = ['.', '.'] then stack.dropLast
      else if stack.length < 32 then stack ++ [c] else stack := by
  have popped : (if stack.length > 0 then stack.dropLast else stack) = stack.dropLast := by
    cases stack with
    | nil => rfl
    | cons d rest => exact if_pos (Nat.succ_pos _)
  unfold pushToken
  simp only [filled, or_false, List.take_of_length_le short, popped]

theorem Shallow.snoc (shallow : Shallow cs) (few : (normalise (cs ++ [c])).length ≤ 32) :
    Shallow (cs ++ [c]) := by
  obtain ⟨before, inside, base, bound⟩ := shallow
  refine ⟨before, inside.trans (List.prefix_append _ _), base, fun mid low high => ?_⟩
  rcases List.prefix_concat_iff.mp high with rfl | inner
  · exact few
  · exact bound mid low inner

theorem shallowRoot (base : normalise cs = []) : Shallow cs := by
  refine ⟨cs, List.prefix_refl _, base, fun mid low high => ?_⟩
  rw [high.eq_of_length (Nat.le_antisymm high.length_le low.length_le), base]
  exact Nat.zero_le _

def Words (cs : List Str) : Prop := ∀ c ∈ cs, c ≠ [] ∧ '/' ∉ c ∧ c.length ≤ 255

theorem Words.init (words : Words (cs ++ [c])) : Words cs :=
  fun d member => words d (List.mem_append_left _ member)

theorem Words.names (words : Words cs) : Names (normalise cs) :=
  Path.namesNormalise fun c member => ⟨(words c member).1, (words c member).2.1⟩

theorem stackNames (words : Words cs) : Names (cs.foldl pushToken []) := by
  induction cs using List.reverseRecOn with
  | nil => exact fun _ absurd' => nomatch absurd'
  | append_singleton cs c ih =>
    obtain ⟨filled, away, short⟩ := words c (by simp)
    have names := ih words.init
    rw [List.foldl_concat, pushWord filled short]
    split <;> rename_i dot
    · exact names
    · split <;> rename_i dots
      · exact fun d member => names d (List.dropLast_subset _ member)
      · split
        · intro d member
          rcases List.mem_append.mp member with old | new
          · exact names d old
          · exact List.mem_singleton.mp new ▸ ⟨filled, away, dot, dots⟩
        · exact names

theorem stackShort (words : Words cs) :
    (cs.foldl pushToken []).length ≤ (normalise cs).length ∧
      ((cs.foldl pushToken []).length = (normalise cs).length →
        cs.foldl pushToken [] = normalise cs ∧ Shallow cs) := by
  induction cs using List.reverseRecOn with
  | nil => exact ⟨Nat.le_refl _, fun _ => ⟨rfl, shallowRoot rfl⟩⟩
  | append_singleton cs c ih =>
    obtain ⟨fewer, level⟩ := ih words.init
    obtain ⟨filled, _, short⟩ := words c (by simp)
    have down := Path.normaliseSnoc cs c
    rw [List.foldl_concat, pushWord filled short, down, turn]
    by_cases dot : c = ['.']
    · rw [turn, if_pos dot] at down
      rw [if_pos dot, if_pos dot]
      refine ⟨fewer, fun same => ?_⟩
      obtain ⟨equal, shallow⟩ := level same
      obtain ⟨before, inside, base, bound⟩ := shallow
      exact ⟨equal, Shallow.snoc ⟨before, inside, base, bound⟩
        (down ▸ bound cs inside (List.prefix_refl _))⟩
    · rw [if_neg dot, if_neg dot]
      rw [turn, if_neg dot] at down
      by_cases dots : c = ['.', '.']
      · rw [if_pos dots] at down ⊢
        rw [if_pos dots]
        rw [List.length_dropLast, List.length_dropLast]
        refine ⟨by omega, fun same => ?_⟩
        by_cases top : (normalise cs).dropLast = []
        · have none_ : (cs.foldl pushToken []).dropLast = [] := by
            have size := congrArg List.length top
            rw [List.length_dropLast, List.length_nil] at size
            exact List.length_eq_zero_iff.mp (by rw [List.length_dropLast]; omega)
          exact ⟨none_.trans top.symm, shallowRoot (down.trans top)⟩
        · have some_ : 0 < (normalise cs).dropLast.length := List.length_pos_iff.mpr top
          rw [List.length_dropLast] at some_
          obtain ⟨equal, shallow⟩ := level (by omega)
          refine ⟨by rw [equal], ?_⟩
          obtain ⟨before, inside, base, bound⟩ := shallow
          refine Shallow.snoc ⟨before, inside, base, bound⟩ ?_
          rw [down, List.length_dropLast]
          have few := bound cs inside (List.prefix_refl _)
          omega
      · rw [if_neg dots] at down ⊢
        rw [if_neg dots]
        by_cases room : (cs.foldl pushToken []).length < 32
        · rw [if_pos room, List.length_append, List.length_append]
          refine ⟨by omega, fun same => ?_⟩
          obtain ⟨equal, shallow⟩ := level (by omega)
          refine ⟨by rw [equal], shallow.snoc ?_⟩
          rw [down, ← equal, List.length_append, List.length_singleton]
          omega
        · rw [if_neg room, List.length_append, List.length_singleton]
          exact ⟨by omega, fun same => by omega⟩

theorem normaliseFewer (cs : List Str) : (normalise cs).length ≤ cs.length := by
  induction cs using List.reverseRecOn with
  | nil => exact Nat.le_refl _
  | append_singleton cs c ih =>
    rw [Path.normaliseSnoc, turn, List.length_append, List.length_singleton]
    split
    · omega
    · split
      · rw [List.length_dropLast]
        omega
      · rw [List.length_append, List.length_singleton]
        omega

theorem fewShallow (few : cs.length ≤ 32) : Shallow cs :=
  ⟨[], List.nil_prefix, rfl, fun mid _ high =>
    Nat.le_trans (normaliseFewer mid) (Nat.le_trans high.length_le few)⟩

theorem stackWhole (words : Words cs) (shallow : Shallow cs) :
    cs.foldl pushToken [] = normalise cs := by
  obtain ⟨before, ⟨after, rfl⟩, base, bound⟩ := shallow
  induction after using List.reverseRecOn with
  | nil =>
    rw [List.append_nil] at words ⊢
    have fewer := (stackShort words).1
    rw [base] at fewer ⊢
    exact List.length_eq_zero_iff.mp (Nat.le_zero.mp fewer)
  | append_singleton after c ih =>
    rw [← List.append_assoc] at words bound ⊢
    have equal := ih words.init fun mid low high =>
      bound mid low (high.trans (List.prefix_append _ _))
    obtain ⟨filled, _, short⟩ := words c (by simp)
    have few := bound (before ++ after ++ [c]) ⟨after ++ [c], by simp⟩ (List.prefix_refl _)
    rw [Path.normaliseSnoc] at few ⊢
    rw [List.foldl_concat, pushWord filled short, equal]
    unfold turn at few ⊢
    by_cases dot : c = ['.']
    · simp only [if_pos dot]
    · by_cases dots : c = ['.', '.']
      · simp only [if_neg dot, if_pos dots]
      · simp only [if_neg dot, if_neg dots] at few ⊢
        rw [List.length_append, List.length_singleton] at few
        rw [if_pos (by omega)]

end stack

section text
variable {cs ks : List Str}

theorem appendedNames (cs : List Str) : ∃ ks, cs.foldl appendName ['/'] = flat ks ∧ ks.Sublist cs ∧
    (flat ks).length ≤ 254 ∧ ((flat cs).length ≤ 254 → ks = cs) := by
  induction cs using List.reverseRecOn with
  | nil => exact ⟨[], rfl, List.Sublist.refl _, by decide, fun _ => rfl⟩
  | append_singleton cs c ih =>
    obtain ⟨ks, text, inside, bound, whole⟩ := ih
    rw [List.foldl_concat, text, appendName, Path.flatSnoc, List.length_append, List.length_append,
      List.length_singleton]
    by_cases room : (flat ks).length + c.length + 2 < 256
    · rw [if_pos room]
      refine ⟨ks ++ [c], (Path.flatSnoc ks c).symm, inside.append (List.Sublist.refl _), ?_, ?_⟩
      · rw [Path.flatSnoc, List.length_append, List.length_append, List.length_singleton]
        omega
      · intro short
        rw [whole (by omega)]
    · rw [if_neg room]
      refine ⟨ks, rfl, inside.trans (List.sublist_append_left _ _), bound, fun short => ?_⟩
      rw [whole (by omega)] at room
      omega

theorem stripFlat (ks : List Str) : stripSlash (flat ks) = normalPath ks := by
  unfold stripSlash normalPath
  by_cases none_ : ks = []
  · rw [none_]
    rfl
  · have long : (flat ks).length > 1 := by
      obtain ⟨init, c, rfl⟩ := (List.eq_nil_or_concat ks).resolve_left none_
      rw [List.concat_eq_append, Path.flatSnoc, List.length_append, List.length_append,
        List.length_singleton, flat, List.length_cons]
      omega
    rw [if_pos ⟨long, Path.flatEnds ks⟩, if_neg none_]

theorem normalPathOnly (names : Names cs) (names' : Names ks) (same : normalPath cs = normalPath ks) :
    cs = ks := by
  have reads := (Path.normalPathNormal names).reads
  rw [same, (Path.normalPathNormal names').reads] at reads
  exact reads.symm

theorem flatPlain (same : flat cs = normalPath cs) : cs = [] := by
  by_contra some_
  rw [normalPath, if_neg some_] at same
  have length := congrArg List.length same
  rw [List.length_dropLast, flat, List.length_cons] at length
  omega

end text

section agreeing
variable {task : Task} {path out : Str} {rs ws ts : List Str}

def view (task : Task) : Str :=
  if task.root.length > 1 ∧ task.root <+: task.cwd then
    if task.cwd.drop task.root.length = [] then ['/'] else task.cwd.drop task.root.length
  else task.cwd

theorem getcwdView (sane : Sane task) :
    fsGetcwd task 256 = some (view task) ∧ (view task).length ≤ 255 := by
  obtain ⟨rs, normal⟩ := sane.root
  have bound : (view task).length ≤ 255 := by
    have short := sane.cwdShort
    rw [MAX_PATH_LEN] at short
    have cut : (task.cwd.drop task.root.length).length ≤ task.cwd.length := by simp
    unfold view
    split
    · split
      · decide
      · omega
    · omega
  refine ⟨?_, bound⟩
  unfold fsGetcwd
  rw [if_neg normal.filled]
  exact if_neg (by
    show ¬ (view task).length + 1 > 256
    omega)

theorem realpathText (sane : Sane task) (accepted : Accepted task path) (stat : Str → Bool) :
    Words (seen task path) ∧
    realpath stat task (some path) =
      if stat (stripSlash (((seen task path).foldl pushToken []).foldl appendName ['/']))
      then .ok (stripSlash (((seen task path).foldl pushToken []).foldl appendName ['/']))
      else .error ENOENT := by
  obtain ⟨cwd, short⟩ := getcwdView sane
  generalize view task = g at cwd short
  have wordShort {tmp : Str} (bound : tmp.length ≤ 254) : ∀ c ∈ components tmp, c.length ≤ 255 := by
    intro c member
    have whole : c.length ≤ (body (components tmp)).length := by
      obtain ⟨front, back, split⟩ := List.append_of_mem member
      rw [split, Path.bodyAppend]
      simp only [body, List.flatMap_cons, List.length_append]
      omega
    have scan := Path.scanLength [] tmp
    rw [← components, List.length_nil] at scan
    omega
  unfold Accepted at accepted
  unfold realpath seen composed normalised
  by_cases absolute : path.head? = some '/'
  · obtain ⟨rest, rfl⟩ : ∃ rest, path = '/' :: rest := by
      cases path with
      | nil => cases absolute
      | cons x rest =>
        cases absolute
        exact ⟨rest, rfl⟩
    rw [if_pos absolute] at accepted
    have bound : ('/' :: rest).length ≤ 255 := by
      by_cases alone : ('/' :: rest) = ['/']
      · rw [alone]
        decide
      · have := (accepted alone).1
        rw [MAX_PATH_LEN] at this
        omega
    simp only [if_pos absolute, List.nil_append, List.take_of_length_le (show
      ('/' :: rest).length ≤ 511 by omega)]
    refine ⟨fun c member => ?_, trivial⟩
    obtain ⟨filled, away⟩ := Path.componentsWords _ c member
    rw [Path.componentsLead] at member
    rw [List.length_cons] at bound
    exact ⟨filled, away, wordShort (by omega) c member⟩
  · rw [if_neg absolute, MAX_PATH_LEN] at accepted
    have cut : (g ++ '/' :: path).take 511 = g ++ '/' :: path :=
      List.take_of_length_le (by rw [List.length_append, List.length_cons]; omega)
    simp only [if_neg absolute, cwd, Option.getD_some, cut, Path.componentsSlash]
    refine ⟨fun c member => ?_, trivial⟩
    rcases List.mem_append.mp member with inside | behind
    · obtain ⟨filled, away⟩ := Path.componentsWords _ c inside
      refine ⟨filled, away, ?_⟩
      have whole : c.length + 1 ≤ (body (components g)).length := by
        obtain ⟨front, back, split⟩ := List.append_of_mem inside
        rw [split, Path.bodyAppend]
        simp only [body, List.flatMap_cons, List.length_append, List.length_singleton]
        omega
      have scan := Path.scanLength [] g
      rw [← components, List.length_nil] at scan
      omega
    · obtain ⟨filled, away⟩ := Path.componentsWords _ c behind
      exact ⟨filled, away, wordShort (by omega) c behind⟩

theorem resolveNormal (sane : Sane task) (normal : Normal task.root rs) (names : Names ts)
    (accepted : Accepted task (normalPath ts)) :
    resolvePath task (normalPath ts) = .path (normalPath (rs ++ ts)) := by
  have normal' := Path.normalPathNormal names
  have absolute : (normalPath ts).head? = some '/' := by
    obtain ⟨rest, string⟩ := normal'.starts
    rw [string]
    rfl
  obtain ⟨tmp, raw, begins, split, short⟩ := rawAbsolute sane normal absolute accepted
  obtain ⟨first, rest, out, lead, parts, level, done, _, kept, _, written⟩ :=
    resolveBehind normal raw begins short
  rw [split, normal'.reads] at parts
  obtain ⟨rfl, rfl⟩ := List.append_inj parts.symm level
  have still : ¬ Climbs rest := by
    rintro ⟨before, inside, _⟩
    exact (names _ (inside.subset (by simp))).2.2.2 rfl
  have plain : ¬ EndsUp task.root rest := by
    rintro ⟨before, same, _⟩
    have member : ['.', '.'] ∈ rest.filter (· ≠ ['.']) := same ▸ by simp
    exact (names _ (List.mem_filter.mp member).1).2.2.2 rfl
  have text := written.plain plain
  rw [kept still, Path.normaliseNames names] at text
  rw [done, text]

theorem sameIff {first rest lead : List Str} (names : Names (rs ++ ts))
    (level : first.length = rs.length) (back : Climbs rest → lead = rs)
    (kept : ¬ Climbs rest → lead = first) (names' : Names (lead ++ normalise rest))
    (written : Written task.root rest (lead ++ normalise rest) out) :
    normalPath (rs ++ ts) = out ↔ (first = rs ∨ Climbs rest) ∧ ts = normalise rest ∧
      (EndsUp task.root rest → rs ++ normalise rest = []) := by
  have level' : lead.length = rs.length := by
    by_cases climbs : Climbs rest
    · rw [back climbs]
    · rw [kept climbs, level]
  constructor
  · intro same
    have reads := (Path.normalPathNormal names).reads
    rw [same, (written.normal names').reads] at reads
    obtain ⟨rfl, rfl⟩ := List.append_inj reads level'
    refine ⟨?_, rfl, fun ends => ?_⟩
    · by_cases climbs : Climbs rest
      · exact Or.inr climbs
      · exact Or.inl (kept climbs).symm
    · rw [written.slash ends] at same
      exact flatPlain same.symm
  · rintro ⟨from_, rfl, tidy⟩
    have same : lead = rs := by
      by_cases climbs : Climbs rest
      · exact back climbs
      · rw [kept climbs]
        exact from_.resolve_right climbs
    rw [same] at written
    by_cases ends : EndsUp task.root rest
    · rw [written.slash ends, tidy ends]
      rfl
    · exact (written.plain ends).symm

theorem prefixLevel {first rest : List Str} (level : first.length = rs.length) :
    rs <+: first ++ rest ↔ first = rs := by
  constructor
  · intro inside
    have short := List.prefix_of_prefix_length_le inside (List.prefix_append first rest)
      (Nat.le_of_eq level.symm)
    exact (short.eq_of_length level.symm).symm
  · rintro rfl
    exact List.prefix_append _ _

theorem belowSplit {first rest : List Str} (normal : Normal task.root rs)
    (relative : path.head? ≠ some '/') (split : components (rawString task path) = first ++ rest)
    (level : first.length = rs.length) : below task path = rest := by
  unfold below
  rw [if_neg relative, split, normal.reads, ← level, List.drop_left]

theorem lengthNormal (some_ : ts ≠ []) : (normalPath ts).length = (body ts).length := by
  rw [normalPath, if_neg some_, List.length_dropLast, flat, List.length_cons, Nat.add_sub_cancel]

theorem acceptedNormal (sane : Sane task) (accepted : Accepted task path)
    (rooted : Rooted task path) (short : (flat (normalise (seen task path))).length ≤ 254) :
    Accepted task (normalPath (normalise (seen task path))) := by
  obtain ⟨rs, normal⟩ := sane.root
  obtain ⟨ws, normal'⟩ := sane.cwd
  have names := (realpathText sane accepted fun _ => true).1.names
  obtain ⟨tail, string⟩ := (Path.normalPathNormal names).starts
  unfold Accepted
  rw [if_pos (by rw [string]; rfl)]
  intro other
  have some_ : normalise (seen task path) ≠ [] := fun none_ => other (by rw [none_]; rfl)
  rw [flat, List.length_cons] at short
  rw [lengthNormal some_, MAX_PATH_LEN]
  refine ⟨by omega, fun jailed => ?_⟩
  by_cases absolute : path.head? = some '/'
  · have same : seen task path = components path := by rw [seen, if_pos absolute, List.nil_append]
    have more : path ≠ ['/'] := by
      rintro rfl
      exact some_ (by rw [same]; rfl)
    have bound := Path.flatLength absolute
    have fewer := Path.normaliseLength (components path)
    unfold Accepted at accepted
    rw [if_pos absolute] at accepted
    have fits := (accepted more).2 jailed
    rw [MAX_PATH_LEN] at fits
    rw [flat, List.length_cons] at bound
    rw [same]
    omega
  · obtain ⟨begins, _, same⟩ := rooted absolute
    obtain ⟨raw, _, _⟩ := rawRelative normal' absolute accepted
    obtain ⟨rest', whole⟩ := begins
    obtain ⟨first, rest, split, _, onward, level⟩ := normal.lead rest'
    rw [whole] at split
    have bound := Path.flatLength (p := rawString task path) (by
      obtain ⟨tail, string⟩ := normal.starts
      rw [← whole, string]
      rfl)
    have fewer := Path.normaliseLength rest
    have longer := rootShorter normal onward
    have inRoot := (normal.string ▸ Path.prefixSlashed task.root).length_le
    have slash := Path.slashedLength task.cwd
    unfold Accepted at accepted
    rw [if_neg absolute, MAX_PATH_LEN] at accepted
    rw [split, Path.flatAppend, List.length_append] at bound
    rw [rawString, List.length_append] at bound
    rw [same, belowSplit normal absolute split level]
    omega

theorem kernelSameIff (sane : Sane task) (accepted : Accepted task path)
    (accepted' : Accepted task (normalPath (normalise (seen task path)))) :
    (∃ p, resolvePath task (normalPath (normalise (seen task path))) = .path p ∧
      resolvePath task path = .path p) ↔ Rooted task path ∧ Tidy task path := by
  obtain ⟨rs, normal⟩ := sane.root
  obtain ⟨ws, normal'⟩ := sane.cwd
  have names := (realpathText sane accepted fun _ => true).1.names
  have namesAll : Names (rs ++ normalise (seen task path)) := by
    intro d member
    rcases List.mem_append.mp member with inside | behind
    · exact normal.names d inside
    · exact names d behind
  have first' := resolveNormal sane normal names accepted'
  have one (out : Str) (done : resolvePath task path = .path out) :
      (∃ p, resolvePath task (normalPath (normalise (seen task path))) = .path p ∧
        resolvePath task path = .path p) ↔ normalPath (rs ++ normalise (seen task path)) = out := by
    rw [first', done]
    constructor
    · rintro ⟨p, left, right⟩
      cases left
      cases right
      rfl
    · rintro rfl
      exact ⟨_, rfl, rfl⟩
  unfold Rooted Tidy
  rw [normal.reads]
  by_cases absolute : path.head? = some '/'
  · obtain ⟨tmp, raw, begins, split, short⟩ := rawAbsolute sane normal absolute accepted
    obtain ⟨first, rest, out, lead, parts, level, done, back, kept, names', written⟩ :=
      resolveBehind normal raw begins short
    rw [split] at parts
    obtain ⟨rfl, rfl⟩ := List.append_inj parts.symm level
    have same : below task path = components path := if_pos absolute
    have same' : seen task path = components path := by
      rw [seen, if_pos absolute, List.nil_append]
    rw [one out done, sameIff namesAll level back kept names' written, same, same']
    simp only [absolute, ne_eq, not_true_eq_false, false_implies, true_and, true_or]
  · obtain ⟨raw, split, short⟩ := rawRelative normal' absolute accepted
    by_cases begins : task.root <+: rawString task path
    · obtain ⟨first, rest, out, lead, parts, level, done, back, kept, names', written⟩ :=
        resolveBehind normal raw begins short
      have same := belowSplit normal absolute parts level
      rw [one out done, sameIff namesAll level back kept names' written, same, parts,
        prefixLevel level]
      simp only [ne_eq, absolute, not_false_eq_true, true_implies, begins, true_and, and_assoc]
    · have lead : (rawString task path).head? = some '/' := by
        obtain ⟨tail, string⟩ := normal'.starts
        rw [rawString, normal'.string]
        rfl
      obtain ⟨out, done, written⟩ := resolveApart normal lead raw begins short
      have outNormal := written.normal (Path.namesNormalise (Path.componentsWords _))
      rw [one out done]
      refine iff_of_false (fun same => ?_) fun both => begins (both.1 absolute).1
      have reads := (Path.normalPathNormal namesAll).reads
      have away : ¬ (task.root.length > 1 ∧ task.root <+: task.cwd) := fun both =>
        begins ((both.2.trans (Path.prefixSlashed _)).trans (List.prefix_append _ _))
      have cwd : fsGetcwd task 256 = some task.cwd := by
        rw [(getcwdView sane).1, view, if_neg away]
      have whole : seen task path = components (rawString task path) := by
        rw [seen, if_neg absolute, cwd, split, Option.getD_some, normal'.reads]
      rw [same, outNormal.reads, ← whole] at reads
      have none_ : rs = [] := by
        have length := congrArg List.length reads
        rw [List.length_append] at length
        exact List.length_eq_zero_iff.mp (by omega)
      refine begins ?_
      have string := normal.string ▸ Path.prefixSlashed task.root
      rw [none_] at string
      obtain ⟨tail, string'⟩ := normal.starts
      rw [string'] at string ⊢
      have short' := string.length_le
      have empty : tail = [] := List.length_eq_zero_iff.mp (by
        simpa [flat, body] using short')
      obtain ⟨more, leads⟩ : ∃ more, rawString task path = '/' :: more := by
        cases text : rawString task path with
        | nil => rw [text] at lead; cases lead
        | cons x more => rw [text] at lead; cases lead; exact ⟨more, rfl⟩
      rw [empty, leads]
      exact ⟨more, rfl⟩

/-- For every task and path: whatever stat says, a result of realpath is the normal
form of the path and one path with it for the kernel, just when the path fits the
kernel's buffer, the stack and the result, goes on from the task's root, and does not
end in a `..` that leaves a slash behind. -/
theorem realpathAgreesIff (task : Task) (path : Str) (sane : Sane task) :
    (∀ stat out, realpath stat task (some path) = .ok out → Agrees task path out) ↔
      Accepted task path ∧ Rooted task path ∧ Tidy task path ∧ Shallow (seen task path) ∧
        (flat (normalise (seen task path))).length ≤ 254 := by
  constructor
  · intro agrees
    obtain ⟨out, ran⟩ : ∃ out, realpath (fun _ => true) task (some path) = .ok out := by
      obtain ⟨cwd, _⟩ := getcwdView sane
      unfold realpath
      dsimp only
      by_cases absolute : path.head? = some '/'
      · rw [if_pos absolute]
        exact ⟨_, rfl⟩
      · rw [if_neg absolute, cwd]
        exact ⟨_, rfl⟩
    obtain ⟨form, p, first, second⟩ := agrees _ _ ran
    have accepted := acceptedOf second sane
    obtain ⟨words, text⟩ := realpathText sane accepted fun _ => true
    rw [if_pos rfl, ran] at text
    obtain ⟨ks, joined, inside, bound, _⟩ :=
      appendedNames ((seen task path).foldl pushToken [])
    obtain ⟨fewer, level⟩ := stackShort words
    rw [joined, stripFlat] at text
    cases text
    -- the names that were put into the result are those of the normal form
    have reads := (Path.normalPathNormal words.names).reads
    have namesStack : Names ks := fun d member => stackNames words d (inside.subset member)
    obtain rfl := normalPathOnly namesStack words.names form
    have shallow := (level (Nat.le_antisymm fewer inside.length_le)).2
    have accepted' := acceptedOf first sane
    obtain ⟨rooted, tidy⟩ := (kernelSameIff sane accepted accepted').mp ⟨p, first, second⟩
    exact ⟨accepted, rooted, tidy, shallow, bound⟩
  · rintro ⟨accepted, rooted, tidy, shallow, short⟩ stat out ran
    obtain ⟨words, text⟩ := realpathText sane accepted stat
    rw [stackWhole words shallow] at text
    obtain ⟨ks, joined, _, _, whole⟩ := appendedNames (normalise (seen task path))
    rw [joined, whole short, stripFlat] at text
    rw [text] at ran
    split at ran
    · cases ran
      refine ⟨rfl, ?_⟩
      exact (kernelSameIff sane accepted (acceptedNormal sane accepted rooted short)).mpr
        ⟨rooted, tidy⟩
    · cases ran

theorem insideRooted (sane : Sane task) (inside : Inside task.root task.cwd)
    (behind : task.root.length > 1 → task.root <+: task.cwd) (path : Str) : Rooted task path := by
  obtain ⟨rs, normal⟩ := sane.root
  obtain ⟨ws, normal'⟩ := sane.cwd
  intro relative
  have split : components (rawString task path) = ws ++ components path := by
    rw [rawString, normal'.string, Path.componentsFlat normal'.names]
  have under := insideUnder normal normal' inside
  have level : rs <+: ws := by
    have components := inside.2.1
    rwa [normal.reads, normal'.reads] at components
  have begins : task.root <+: rawString task path := by
    have string := normal.string ▸ Path.prefixSlashed task.root
    exact ((string.trans under).trans (normal'.string ▸ List.prefix_refl _)).trans
      (List.prefix_append _ _)
  refine ⟨begins, Or.inl ?_, ?_⟩
  · rw [normal.reads, split]
    exact level.trans (List.prefix_append _ _)
  · have whole : ws = rs ++ components (view task) := by
      unfold view
      by_cases jailed : task.root.length > 1
      · obtain ⟨d, cwd⟩ := behind jailed
        have reads := normal'.reads
        rw [← cwd] at reads
        rw [if_pos ⟨jailed, behind jailed⟩, ← cwd, List.drop_left]
        by_cases none_ : d = []
        · rw [none_, List.append_nil, normal.reads] at reads
          rw [if_pos none_, ← reads]
          exact (List.append_nil rs).symm
        · rw [if_neg none_]
          rcases normal.ending with string | string
          · rw [string, Path.componentsFlat normal.names] at reads
            exact reads.symm
          · obtain ⟨x, d, rfl⟩ := List.exists_cons_of_ne_nil none_
            -- the root is followed by a slash in the working directory
            have one : task.root ++ [x] <+: flat ws := by
              refine List.IsPrefix.trans ?_ (normal'.string ▸ Path.prefixSlashed task.cwd)
              rw [← cwd]
              exact ⟨d, by simp⟩
            rw [← string] at under
            have same := List.prefix_of_prefix_length_le one under (by simp)
            have slash : x = '/' := by
              have equal := same.eq_of_length (by simp)
              exact List.singleton_inj.mp (List.append_cancel_left equal)
            rw [slash, Path.componentsSlash, normal.reads] at reads
            rw [slash, Path.componentsLead]
            exact reads.symm
      · rw [if_neg fun both => jailed both.1, normal'.reads]
        obtain ⟨tail, string⟩ := normal.starts
        have reads := normal.reads
        rw [string, List.length_cons] at jailed
        rw [string, List.length_eq_zero_iff.mp (show tail.length = 0 by omega)] at reads
        rw [← reads]
        rfl
    have rest : below task path = components (view task) ++ components path := by
      rw [below, if_neg relative, split, normal.reads, whole, List.append_assoc, List.drop_left]
    rw [rest, seen, if_neg relative, (getcwdView sane).1, Option.getD_some]

theorem jailedSane : Sane jailed := by
  have normal : Normal ['/', 'j'] [['j']] := ⟨by decide, by decide, by decide⟩
  exact ⟨⟨_, normal⟩, ⟨_, normal⟩, by decide, by decide⟩

theorem jailedRealpath : ∃ out,
    realpath (fun _ => true) jailed (some ['a', '/', '.', '.', '/', 'b']) = .ok out ∧
      Agrees jailed ['a', '/', '.', '.', '/', 'b'] out := by
  have rooted := insideRooted jailedSane jailedInside (fun _ => by decide)
    ['a', '/', '.', '.', '/', 'b']
  have plain : ¬ EndsUp jailed.root ([['a'], ['.', '.']] ++ [['b']]) :=
    endsUpName (by decide) (by decide)
  have agrees := (realpathAgreesIff jailed ['a', '/', '.', '.', '/', 'b'] jailedSane).mpr ⟨by decide,
    rooted, fun ends => absurd ends plain, fewShallow (by decide), by decide⟩
  exact ⟨_, rfl, agrees (fun _ => true) _ rfl⟩

def deepPath : Str := (List.replicate 33 ['/', 'a']).flatten ++ ['/', '.', '.']

/-- The normal form has 32 names, the result 31. -/
theorem deepPathLosesName : ∃ out, Sane ⟨['/'], ['/']⟩ ∧
    realpath (fun _ => true) ⟨['/'], ['/']⟩ (some deepPath) = .ok out ∧
    ¬ Agrees ⟨['/'], ['/']⟩ deepPath out := by
  refine ⟨_, ⟨⟨[], Path.rootNormal⟩, ⟨[], Path.rootNormal⟩, by decide, by decide⟩, rfl, ?_⟩
  intro agrees
  have length := congrArg List.length agrees.form
  exact absurd length (by decide +kernel)

end agreeing

end Scepter.Realpath
