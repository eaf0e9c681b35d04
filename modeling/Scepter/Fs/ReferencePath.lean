import Scepter.Fs.ResolveForm

/-! resolve_path against a stack of names (fs/vfs.c). The stack starts with the root's
names or the working directory's; `..` takes the last one back, though none of the root's
where the path starts in the root. -/
namespace Scepter.Vfs
open Scepter.Path (Str components slashed flat body Normal Name Names turn normalise Climbs normalPath)

def stackStep (floor : Nat) (stack : List Str) (c : Str) : List Str :=
  if c = ['.'] then stack
  else if c = ['.', '.'] then (if floor < stack.length then stack.dropLast else stack)
  else stack ++ [c]

def referenceNames (task : Task) (path : Str) : List Str :=
  let root := components task.root
  let cwd := components task.cwd
  if path.head? = some '/' then (components path).foldl (stackStep root.length) root
  else (components path).foldl (stackStep (if root <+: cwd then root.length else 0)) cwd

def reference (task : Task) (path : Str) : Str := normalPath (referenceNames task path)

/-- A path that fits the buffer becomes the reference's string, every other one is refused
and none writes past a buffer. What comes out is a path from the real root, and comes out
of the call again when it goes in as one. -/
structure Normalises (task : Task) (path : Str) : Prop where
  bounded : resolvePath task path ≠ .overrun
  rejects : ¬ Accepted task path → resolvePath task path = .refused
  result : Accepted task path → resolvePath task path = .path (reference task path)
  again : ∀ out, resolvePath task path = .path out → resolvePath ⟨['/'], task.cwd⟩ out = .path out

def bounding (task : Task) (path : Str) : Str × List Str :=
  if path.head? = some '/' then (task.root, components path)
  else if task.root <+: rawString task path then
    (task.root, (components (rawString task path)).drop (components task.root).length)
  else (['/'], components (rawString task path))

def Floored (task : Task) (path : Str) : Prop :=
  path.head? ≠ some '/' → task.root <+: rawString task path →
    components task.root <+: components task.cwd ∨ ¬ Climbs (bounding task path).2

def NoSlash (task : Task) (path : Str) : Prop :=
  EndsUp (bounding task path).1 (bounding task path).2 → referenceNames task path = []

section stack
variable {ks rs ws cs : List Str}

theorem stackAbove (rs ks cs : List Str) :
    cs.foldl (stackStep rs.length) (rs ++ ks) = rs ++ cs.foldl turn ks := by
  induction cs generalizing ks with
  | nil => rfl
  | cons c cs ih =>
    rw [List.foldl_cons, List.foldl_cons, ← ih]
    congr 1
    unfold stackStep turn
    split
    · rfl
    · split
      · rcases List.eq_nil_or_concat ks with rfl | ⟨init, k, rfl⟩
        · rw [if_neg (by simp), List.dropLast_nil]
        · rw [List.concat_eq_append, if_pos (by simp), List.dropLast_append_of_ne_nil (by simp)]
      · rw [List.append_assoc]

theorem turnNames (names : Names ks) (cs : List Str) : cs.foldl turn ks = normalise (ks ++ cs) := by
  have same := Path.normaliseNames names
  unfold normalise at same ⊢
  rw [List.foldl_append, same]

theorem stackFlat (names : Names ws) (cs : List Str) :
    cs.foldl (stackStep 0) ws = normalise (ws ++ cs) := by
  have whole := stackAbove [] ws cs
  rw [List.nil_append, List.nil_append, List.length_nil] at whole
  rw [whole, turnNames names]

theorem climbsShorter (st cs : List Str) (some' : st ≠ []) :
    (cs.foldl turn st).length ≤ st.length + (normalise cs).length ∧
      (Climbs cs → (cs.foldl turn st).length < st.length + (normalise cs).length) := by
  have filled := List.length_pos_iff.mpr some'
  induction cs using List.reverseRecOn with
  | nil =>
    refine ⟨Nat.le_refl _, ?_⟩
    rintro ⟨before, inside, _⟩
    simpa using inside.length_le
  | append_singleton cs c ih =>
    rw [List.foldl_append, List.foldl_cons, List.foldl_nil, Path.normaliseSnoc, Path.climbsSnoc,
      turn, turn]
    by_cases dot : c = ['.']
    · simpa [dot] using ih
    · by_cases dots : c = ['.', '.']
      · rw [if_neg dot, if_pos dots, if_neg dot, if_pos dots, List.length_dropLast,
          List.length_dropLast]
        by_cases none_ : normalise cs = []
        · rw [none_, List.length_nil] at ih ⊢
          exact ⟨by omega, fun _ => by omega⟩
        · have deep := List.length_pos_iff.mpr none_
          refine ⟨by omega, ?_⟩
          rintro (climbs | ⟨_, absurd'⟩)
          · have less := ih.2 climbs
            omega
          · exact absurd absurd' none_
      · rw [if_neg dot, if_neg dots, if_neg dot, if_neg dots, List.length_append, List.length_append]
        refine ⟨by omega, ?_⟩
        rintro (climbs | ⟨absurd', _⟩)
        · have less := ih.2 climbs
          omega
        · exact absurd absurd' dots

theorem turnsBehind (st : List Str) (level : ¬ Climbs cs) : cs.foldl turn st = st ++ normalise cs := by
  induction cs using List.reverseRecOn with
  | nil => exact (List.append_nil st).symm
  | append_singleton cs c ih =>
    rw [Path.climbsSnoc, not_or] at level
    rw [List.foldl_append, List.foldl_cons, List.foldl_nil, ih level.1, Path.normaliseSnoc, turn, turn]
    split
    · rfl
    · split <;> rename_i dots
      · have some_ : normalise cs ≠ [] := fun none_ => level.2 ⟨dots, none_⟩
        rw [List.dropLast_append_of_ne_nil some_]
      · rw [List.append_assoc]

end stack

section call
variable {task : Task} {path tmp : Str} {rs ws first rest : List Str}

theorem referenceAbsolute (normal : Normal task.root rs) (absolute : path.head? = some '/') :
    referenceNames task path = rs ++ normalise (components path) := by
  unfold referenceNames
  dsimp only
  rw [if_pos absolute, normal.reads]
  have whole := stackAbove rs [] (components path)
  rw [List.append_nil] at whole
  exact whole

theorem referenceInside {ks : List Str} (normal : Normal task.root rs)
    (normal' : Normal task.cwd (rs ++ ks)) (relative : path.head? ≠ some '/') :
    referenceNames task path = rs ++ normalise (ks ++ components path) := by
  have names : Names ks := fun k member => normal'.names k (List.mem_append_right rs member)
  unfold referenceNames
  dsimp only
  rw [if_neg relative, normal.reads, normal'.reads, if_pos (List.prefix_append rs ks), stackAbove,
    turnNames names]

theorem referenceOutside (normal : Normal task.root rs) (normal' : Normal task.cwd ws)
    (relative : path.head? ≠ some '/') (outside : ¬ rs <+: ws) :
    referenceNames task path = normalise (ws ++ components path) := by
  unfold referenceNames
  dsimp only
  rw [if_neg relative, normal.reads, normal'.reads, if_neg outside, stackFlat normal'.names]

theorem referenceIsNames (sane : Sane task) (path : Str) : Names (referenceNames task path) := by
  obtain ⟨rs, normal⟩ := sane.root
  obtain ⟨ws, normal'⟩ := sane.cwd
  have joined {ks ms : List Str} (one : Names ks) (other : Names ms) : Names (ks ++ ms) := by
    intro c member
    rcases List.mem_append.mp member with inside | behind
    · exact one c inside
    · exact other c behind
  have words := Path.componentsWords path
  by_cases absolute : path.head? = some '/'
  · rw [referenceAbsolute normal absolute]
    exact joined normal.names (Path.namesNormalise words)
  · by_cases inside : rs <+: ws
    · obtain ⟨ks, rfl⟩ := inside
      rw [referenceInside normal normal' absolute]
      refine joined normal.names (Path.namesNormalise fun c member => ?_)
      rcases List.mem_append.mp member with old | new
      · have name := normal'.names c (List.mem_append_right rs old)
        exact ⟨name.1, name.2.1⟩
      · exact words c new
    · rw [referenceOutside normal normal' absolute inside]
      refine Path.namesNormalise fun c member => ?_
      rcases List.mem_append.mp member with old | new
      · exact ⟨(normal'.names c old).1, (normal'.names c old).2.1⟩
      · exact words c new

theorem flatNotNormal {ns : List Str} (some_ : ns ≠ []) : flat ns ≠ normalPath ns := by
  intro same
  have shorter := congrArg List.length same
  rw [normalPath, if_neg some_, List.length_dropLast] at shorter
  simp [flat] at shorter

theorem writtenIs {base out : Str} {ts ns ms : List Str} (written : Written base ts ns out)
    (names : Names ns) (names' : Names ms) :
    out = normalPath ms ↔ ns = ms ∧ (EndsUp base ts → ms = []) := by
  constructor
  · intro same
    have reads := (written.normal names).reads
    rw [same, (Path.normalPathNormal names').reads] at reads
    refine ⟨reads.symm, fun ends => ?_⟩
    by_contra some_
    rw [written.slash ends, ← reads] at same
    exact flatNotNormal some_ same
  · rintro ⟨rfl, tidy⟩
    by_cases ends : EndsUp base ts
    · rw [written.slash ends, tidy ends]
      rfl
    · exact written.plain ends

theorem behindIff (namesFirst : Names first)
    (level : first.length = rs.length) {lead : List Str} (back : Climbs rest → lead = rs)
    (kept : ¬ Climbs rest → lead = first) :
    lead ++ normalise rest = normalise (first ++ rest) ↔ first = [] ∨ ¬ Climbs rest := by
  rw [← turnNames namesFirst]
  by_cases climbs : Climbs rest
  · rw [back climbs]
    rcases List.eq_nil_or_concat first with rfl | ⟨init, k, whole⟩
    · have none_ : rs = [] := List.length_eq_zero_iff.mp level.symm
      rw [none_]
      exact iff_of_true rfl (.inl rfl)
    · have some_ : first ≠ [] := by simp [whole]
      have shorter := (climbsShorter first rest some_).2 climbs
      refine iff_of_false (fun same => ?_) fun either => ?_
      · have lengths := congrArg List.length same
        rw [List.length_append] at lengths
        omega
      · exact either.elim some_ fun not => not climbs
  · rw [kept climbs]
    exact iff_of_true (turnsBehind first climbs).symm (.inr climbs)

theorem resultIff (sane : Sane task) (accepted : Accepted task path) :
    resolvePath task path = .path (reference task path) ↔ Floored task path ∧ NoSlash task path := by
  obtain ⟨rs, normal⟩ := sane.root
  obtain ⟨ws, normal'⟩ := sane.cwd
  have namesAll := referenceIsNames sane path
  have one {base out : Str} {ts ns : List Str} (done : resolvePath task path = .path out)
      (written : Written base ts ns out) (names : Names ns) :
      resolvePath task path = .path (reference task path) ↔
        ns = referenceNames task path ∧ (EndsUp base ts → referenceNames task path = []) := by
    rw [done]
    rw [Resolved.path.injEq]
    exact writtenIs written names namesAll
  unfold Floored NoSlash bounding
  by_cases absolute : path.head? = some '/'
  · obtain ⟨tmp, raw, begins, split, short⟩ := rawAbsolute sane normal absolute accepted
    obtain ⟨first, rest, out, lead, parts, level, done, back, kept, names', written⟩ :=
      resolveBehind normal raw begins short
    rw [split] at parts
    obtain ⟨rfl, rfl⟩ := List.append_inj parts.symm level
    have same : lead ++ normalise (components path) = referenceNames task path := by
      rw [referenceAbsolute normal absolute]
      by_cases climbs : Climbs (components path)
      · rw [back climbs]
      · rw [kept climbs]
    rw [one done written names', if_pos absolute]
    simp only [same, true_and, absolute, ne_eq, not_true_eq_false, false_implies]
  · obtain ⟨raw, split, short⟩ := rawRelative normal' absolute accepted
    rw [if_neg absolute, normal.reads, normal'.reads]
    by_cases begins : task.root <+: rawString task path
    · obtain ⟨first, rest, out, lead, parts, level, done, back, kept, names', written⟩ :=
        resolveBehind normal raw begins short
      have behind : (components (rawString task path)).drop rs.length = rest := by
        rw [parts, List.drop_left' level]
      rw [one done written names', if_pos begins, behind]
      simp only [absolute, begins, ne_eq, not_false_eq_true, forall_const]
      refine and_congr_left fun _ => ?_
      by_cases inside : rs <+: ws
      · obtain ⟨ks, rfl⟩ := inside
        rw [split, List.append_assoc] at parts
        obtain ⟨rfl, rfl⟩ := List.append_inj parts.symm level
        refine iff_of_true ?_ (.inl (List.prefix_append _ _))
        rw [referenceInside normal normal' absolute]
        by_cases climbs : Climbs (ks ++ components path)
        · rw [back climbs]
        · rw [kept climbs]
      · have namesFirst : Names first := by
          obtain ⟨more, whole⟩ := begins
          obtain ⟨first', rest', parts', names, _, level'⟩ := normal.lead more
          rw [whole, parts] at parts'
          rw [(List.append_inj parts' (level.trans level'.symm)).1]
          exact names
        have some_ : first ≠ [] := by
          rintro rfl
          rw [List.length_eq_zero_iff.mp level.symm] at inside
          exact inside (List.nil_prefix)
        rw [referenceOutside normal normal' absolute inside, ← split, parts,
          behindIff namesFirst level back kept]
        simp only [some_, inside, false_or]
    · obtain ⟨out, done, written⟩ := resolveApart normal (by rw [rawString, normal'.string]; rfl) raw
        begins short
      have outside : ¬ rs <+: ws := by
        rintro ⟨ks, rfl⟩
        refine begins ?_
        have string := normal.string ▸ Path.prefixSlashed task.root
        rw [rawString, normal'.string, Path.flatAppend]
        exact (string.trans (List.prefix_append _ _)).trans (List.prefix_append _ _)
      have same : normalise (components (rawString task path)) = referenceNames task path := by
        rw [referenceOutside normal normal' absolute outside, split]
      rw [one done written (Path.namesNormalise (Path.componentsWords _)), if_neg begins]
      simp only [same, true_and, begins, false_implies, implies_true]

theorem normalAgain {ns : List Str} {cwd : Str} (names : Names ns) (sane : Sane ⟨['/'], cwd⟩)
    (short : (normalPath ns).length < MAX_PATH_LEN) :
    resolvePath ⟨['/'], cwd⟩ (normalPath ns) = .path (normalPath ns) := by
  have normal := Path.normalPathNormal names
  obtain ⟨tail, string⟩ := normal.starts
  have absolute : (normalPath ns).head? = some '/' := by
    rw [string]
    rfl
  have accepted : Accepted ⟨['/'], cwd⟩ (normalPath ns) := by
    unfold Accepted
    rw [if_pos absolute]
    exact fun _ => ⟨short, fun long => absurd long (Nat.lt_irrefl 1)⟩
  have plain : normalise (components (normalPath ns)) = ns := by
    rw [normal.reads, Path.normaliseNames names]
  have result := (resultIff sane accepted).mpr ⟨fun relative => absurd absolute relative, fun ends => ?_⟩
  · rw [result, reference, referenceAbsolute Path.rootNormal absolute, plain, List.nil_append]
  · unfold bounding at ends
    rw [if_pos absolute, normal.reads] at ends
    obtain ⟨before, whole, _⟩ := ends
    have member : ['.', '.'] ∈ ns.filter (· ≠ ['.']) := by
      rw [whole]
      exact List.mem_append_right _ List.mem_cons_self
    exact absurd rfl (names _ (List.mem_filter.mp member).1).2.2.2

/-- For every sane task and every path. -/
theorem normalisesIff (task : Task) (path : Str) (sane : Sane task) :
    Normalises task path ↔
      Fits task.root path ∧ (Accepted task path → Floored task path ∧ NoSlash task path) := by
  have overrun : resolvePath task path = .overrun ↔ ¬ Fits task.root path := resolvePathOverrun sane
  constructor
  · rintro ⟨bounded, _, result, _⟩
    refine ⟨?_, fun accepted => (resultIff sane accepted).mp (result accepted)⟩
    by_contra long
    exact bounded (overrun.mpr long)
  · rintro ⟨fits, plain⟩
    have bounded : resolvePath task path ≠ .overrun := fun beyond => overrun.mp beyond fits
    refine ⟨bounded, fun long => ?_, fun accepted => (resultIff sane accepted).mpr (plain accepted),
      fun out done => ?_⟩
    · cases done : resolvePath task path with
      | path out => exact absurd (acceptedOf done sane) long
      | refused => rfl
      | overrun => exact absurd done bounded
    · have accepted := acceptedOf done sane
      have result := (resultIff sane accepted).mpr (plain accepted)
      have short := (resolvePathSpec sane done).2.1
      cases done.symm.trans result
      refine normalAgain (referenceIsNames sane path) ?_ (by
        rw [reference, MAX_PATH_LEN] at *
        omega)
      exact ⟨⟨[], Path.rootNormal⟩, sane.cwd, (by decide : 1 ≤ 255), sane.cwdShort⟩

end call

def plainTask : Task := ⟨['/'], ['/', 'h']⟩

theorem plainSane : Sane plainTask := by
  have home : Normal ['/', 'h'] [['h']] := ⟨by decide, by decide, by decide⟩
  exact ⟨⟨[], Path.rootNormal⟩, ⟨_, home⟩, by decide, by decide⟩

/-- `a//./b` from the directory `/h`. -/
theorem normalisesRelative : Normalises plainTask ['a', '/', '/', '.', '/', 'b'] := by
  refine (normalisesIff plainTask _ plainSane).mpr ⟨?_, fun _ => ⟨fun _ _ => ?_, fun ends => ?_⟩⟩
  · exact fun absolute => absurd absolute (by decide)
  · exact .inl (by decide)
  · have last : ¬ EndsUp ['/'] ([['h'], ['a'], ['.']] ++ [['b']]) := endsUpName (by decide) (by decide)
    exact absurd ends last

/-- `/a/b/..` becomes `/a/`. -/
theorem slashStays : ¬ ∀ task path, Sane task → Normalises task path := by
  intro claimed
  have normalises := claimed plainTask ['/', 'a', '/', 'b', '/', '.', '.'] plainSane
  have result := normalises.result (by decide)
  have given : resolvePath plainTask ['/', 'a', '/', 'b', '/', '.', '.'] = .path ['/', 'a', '/'] := rfl
  rw [given, Resolved.path.injEq] at result
  exact absurd result (by decide)

end Scepter.Vfs
