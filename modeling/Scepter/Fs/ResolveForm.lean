import Scepter.Fs.Paths

/-! The path that resolve_path makes, as a string: the root and the components of
the path without `.` and `..`, and where a slash stays at its end. -/
namespace Scepter.Vfs
open Scepter.Path (Str components slashed flat body Normal Name Names turn normalise Climbs normalPath)

section parents
variable {base out front word : Str} {bs ks lead : List Str} {k : Str} {boundary : Nat}

theorem chopRevWord (away : '/' ∉ word) (room : boundary ≤ front.length)
    (ends : front.length = boundary ∨ front.head? = some '/') :
    chopRev boundary (word ++ front) = front := by
  induction word with
  | nil =>
    cases front with
    | nil => rfl
    | cons x front =>
      rw [List.nil_append, chopRev, if_neg]
      rintro ⟨long, other⟩
      rcases ends with exact' | slash
      · omega
      · exact other (Option.some.inj slash)
  | cons x word ih =>
    have other : x ≠ '/' := fun same => away (same ▸ List.mem_cons_self)
    have long : boundary < (x :: (word ++ front)).length := by
      rw [List.length_cons, List.length_append]
      omega
    rw [List.cons_append, chopRev, if_pos ⟨long, other⟩]
    exact ih fun member => away (List.mem_cons_of_mem x member)

theorem parentAt (word : Str) (long : boundary < out.length) (split : out.dropLast = front ++ word)
    (away : '/' ∉ word) (room : boundary ≤ front.length)
    (ends : front.length = boundary ∨ front.getLast? = some '/') : parent boundary out = front := by
  unfold parent
  rw [if_pos long, split, List.reverse_append, chopRevWord, List.reverse_reverse]
  · simpa using away
  · simpa using room
  · simpa using ends

theorem parentTakes (normal : Normal out (ks ++ [k])) (room : boundary ≤ (flat ks).length) :
    parent boundary out = flat ks := by
  obtain ⟨filled, away, _⟩ := normal.names k (by simp)
  have some := List.length_pos_iff.mpr filled
  rcases normal.ending with string | string <;> rw [Path.flatSnoc] at string
  · refine parentAt k ?_ ?_ away room (Or.inr (Path.flatEnds ks))
    · rw [string, List.length_append, List.length_append]
      omega
    · rw [string, List.dropLast_concat]
  · have string' := List.append_cancel_right string
    refine parentAt k.dropLast ?_ ?_ (fun member => away (List.dropLast_subset k member))
      room (Or.inr (Path.flatEnds ks))
    · rw [string', List.length_append]
      omega
    · rw [string', List.dropLast_append_of_ne_nil filled]

theorem parentStays (normal : Normal base bs) (slash : base.getLast? = some '/')
    (names : Names lead) (level : lead.length = bs.length) (onward : base <+: flat lead)
    (normal' : Normal out lead) : parent base.length out = out ∧ lead = bs := by
  have whole : base = flat bs := by
    have string := normal.string
    rwa [slashed, if_pos slash] at string
  have same : bs = lead :=
    (Path.flatPrefix names normal.names (whole ▸ onward)).eq_of_length level.symm
  refine ⟨?_, same.symm⟩
  have bound := (normal'.string ▸ Path.prefixSlashed out).length_le
  rw [← same, ← whole] at bound
  rw [parent, if_neg (by omega)]

theorem parentBack (normal : Normal base bs) (open' : base.getLast? ≠ some '/')
    (names : Names lead) (level : lead.length = bs.length) (onward : base <+: flat lead)
    (normal' : Normal out lead) : parent base.length out = base := by
  have whole : base ++ ['/'] = flat bs := by
    have string := normal.string
    rwa [slashed, if_neg open'] at string
  have inside : out <+: flat lead := normal'.string ▸ Path.prefixSlashed out
  by_cases long : base.length < out.length
  · obtain ⟨word, front⟩ : base <+: out.dropLast := by
      refine List.prefix_of_prefix_length_le onward ((List.dropLast_prefix out).trans inside) ?_
      rw [List.length_dropLast]
      omega
    -- the slashes of the string are all in the root
    refine parentAt word long front.symm (fun member => ?_) (Nat.le_refl _) (Or.inl rfl)
    have slashes := Path.flatSlashes names
    have slashes' := Path.flatSlashes normal.names
    have more := List.count_pos_iff.mpr member
    rw [← whole, List.count_append, List.count_singleton_self] at slashes'
    have split := congrArg (List.count '/') front
    rw [List.count_append] at split
    rcases normal'.ending with string | string
    · have last : out.dropLast ++ ['/'] = out := by
        have ends := Path.flatEnds lead
        rw [← string] at ends
        exact List.dropLast_append_getLast? _ ends
      rw [← string, ← last, List.count_append, List.count_singleton_self] at slashes
      omega
    · rw [← string, List.count_append, List.count_singleton_self] at slashes
      have fewer := (List.dropLast_sublist out).count_le '/'
      omega
  · rw [parent, if_neg long]
    have other : base ≠ flat lead := fun same => open' (same ▸ Path.flatEnds lead)
    have proper : base.length ≠ (flat lead).length := fun same => other (onward.eq_of_length same)
    have bound := onward.length_le
    have bound' : (flat lead).length ≤ out.length + 1 := normal'.string ▸ Path.slashedLength out
    have into : base <+: out := List.prefix_of_prefix_length_le onward inside (by omega)
    exact (into.eq_of_length (by omega)).symm

end parents

/-! ## The loop -/

/-- The last component other than dots is a `..` after which a slash stays: it takes
back a name, or, at a root that ends with a slash, leaves the path that names before
it have left. -/
def EndsUp (root : Str) (cs : List Str) : Prop :=
  ∃ before, cs.filter (· ≠ ['.']) = before ++ [['.', '.']] ∧
    (normalise before ≠ [] ∨ root.getLast? = some '/' ∧ ∃ c ∈ before, c ≠ ['.', '.'])

structure Written (root : Str) (cs ns : List Str) (out : Str) : Prop where
  slash : EndsUp root cs → out = flat ns
  plain : ¬ EndsUp root cs → out = normalPath ns

section loop
variable {base out : Str} {bs first ts ns : List Str} {c : Str}

theorem normaliseDots (cs : List Str) : normalise (cs.filter (· ≠ ['.'])) = normalise cs := by
  induction cs using List.reverseRecOn with
  | nil => rfl
  | append_singleton cs c ih =>
    rw [List.filter_append, Path.normaliseSnoc]
    by_cases dot : c = ['.']
    · simpa [dot, turn] using ih
    · have kept : [c].filter (· ≠ ['.']) = [c] := by simp [dot]
      rw [kept, Path.normaliseSnoc, ih]

theorem endsUpDot (root : Str) (cs : List Str) : EndsUp root (cs ++ [['.']]) ↔ EndsUp root cs := by
  have same : (cs ++ [['.']]).filter (· ≠ ['.']) = cs.filter (· ≠ ['.']) := by simp
  unfold EndsUp
  rw [same]

theorem endsUpName (dot : c ≠ ['.']) (dots : c ≠ ['.', '.']) : ¬ EndsUp base (ts ++ [c]) := by
  rintro ⟨before, same, _⟩
  have kept : [c].filter (· ≠ ['.']) = [c] := by simp [dot]
  rw [List.filter_append, kept] at same
  exact dots (List.singleton_inj.mp (List.append_inj' same rfl).2)

theorem endsUpDots : EndsUp base (ts ++ [['.', '.']]) ↔
    normalise ts ≠ [] ∨ base.getLast? = some '/' ∧ ∃ c ∈ ts.filter (· ≠ ['.']), c ≠ ['.', '.'] := by
  have kept : (ts ++ [['.', '.']]).filter (· ≠ ['.']) = ts.filter (· ≠ ['.']) ++ [['.', '.']] := by
    simp
  unfold EndsUp
  rw [kept]
  constructor
  · rintro ⟨before, same, ends⟩
    rw [← normaliseDots, (List.append_inj' same rfl).1]
    exact ends
  · intro ends
    rw [← normaliseDots] at ends
    exact ⟨_, rfl, ends⟩

theorem endsUpStays (slash : base.getLast? = some '/') (none_ : normalise ts = []) :
    EndsUp base (ts ++ [['.', '.']]) ↔ EndsUp base ts := by
  rw [endsUpDots]
  constructor
  · rintro (some_ | ⟨_, c, member, name⟩)
    · exact absurd none_ some_
    · rcases List.eq_nil_or_concat (ts.filter (· ≠ ['.'])) with nothing | ⟨init, last, whole⟩
      · rw [nothing] at member
        cases member
      · rw [List.concat_eq_append] at whole
        have dot : last ≠ ['.'] := by
          have inside : last ∈ ts.filter (· ≠ ['.']) := whole ▸ List.mem_append_right _ (by simp)
          simpa using (List.mem_filter.mp inside).2
        have up : last = ['.', '.'] := by
          by_contra dots
          rw [← normaliseDots, whole, Path.normaliseSnoc, turn, if_neg dot, if_neg dots] at none_
          simp at none_
        rw [whole, up] at member
        refine ⟨init, by rw [whole, up], Or.inr ⟨slash, c, ?_, name⟩⟩
        rcases List.mem_append.mp member with inside | last'
        · exact inside
        · exact absurd (List.mem_singleton.mp last') name
  · rintro ⟨before, whole, ends⟩
    refine Or.inr ⟨slash, ?_⟩
    have inside : ∃ c ∈ before, c ≠ ['.', '.'] := by
      rcases ends with some_ | ⟨_, found⟩
      · by_contra none'
        refine some_ (Path.normaliseUps fun c member => ?_)
        by_contra other
        exact none' ⟨c, member, other⟩
      · exact found
    obtain ⟨c, member, name⟩ := inside
    exact ⟨c, whole ▸ List.mem_append_left _ member, name⟩

theorem Written.normal (written : Written base ts ns out) (names : Names ns) : Normal out ns := by
  by_cases ends : EndsUp base ts
  · rw [written.slash ends]
    exact Path.flatNormal names
  · rw [written.plain ends]
    exact Path.normalPathNormal names

theorem componentPush (boundary : Nat) (normal : Normal out ns) (name : Name c)
    (room : (flat ns).length + c.length ≤ MAX_PATH_LEN - 1) :
    component boundary out c = some (normalPath (ns ++ [c])) := by
  have starts := normal.starts
  have string := normal.string
  have appended : normalPath (ns ++ [c]) = slashed out ++ c := by
    rw [Path.normalPathSnoc, string]
  rw [← string] at room
  unfold component
  rw [if_neg name.2.2.1, if_neg name.2.2.2, appended]
  dsimp only
  by_cases ends : out.getLast? = some '/'
  · rw [if_neg fun apart => apart.2 ends]
    rw [slashed, if_pos ends] at room ⊢
    rw [if_neg (by omega)]
  · have long : out.length > 1 := by
      obtain ⟨rest, rfl⟩ := starts
      cases rest with
      | nil => exact absurd rfl ends
      | cons x rest =>
        rw [List.length_cons, List.length_cons]
        omega
    have filled := List.length_pos_iff.mpr name.1
    rw [if_pos ⟨long, ends⟩]
    rw [slashed, if_neg ends] at room ⊢
    rw [List.length_append, List.length_singleton] at room
    rw [if_neg (by omega), if_neg (by rw [List.length_append, List.length_singleton]; omega)]

theorem namesForm {boundary : Nat} (names : Names first) (room : (flat first).length ≤ MAX_PATH_LEN) :
    first.foldlM (component boundary) ['/'] = some (normalPath first) := by
  induction first using List.reverseRecOn with
  | nil => rfl
  | append_singleton init c ih =>
    have namesInit : Names init := fun d member => names d (List.mem_append_left _ member)
    rw [Path.flatSnoc, List.length_append, List.length_append, List.length_singleton] at room
    have early := ih namesInit (by omega)
    have pushed := componentPush boundary (Path.normalPathNormal namesInit)
      (names c (by simp)) (by omega)
    rw [List.foldlM_append, early]
    exact (bind_pure _).trans pushed

theorem rootShorter (normal : Normal base bs) (onward : base <+: flat first) :
    (flat bs).length ≤ (flat first).length := by
  have string := normal.string
  by_cases slash : base.getLast? = some '/'
  · rw [slashed, if_pos slash] at string
    rw [← string]
    exact onward.length_le
  · rw [slashed, if_neg slash] at string
    have other : base ≠ flat first := fun same => slash (same ▸ Path.flatEnds first)
    have proper : base.length ≠ (flat first).length := fun same => other (onward.eq_of_length same)
    have bound := onward.length_le
    rw [← string, List.length_append, List.length_singleton]
    omega

theorem rootPlain (normal : Normal base bs) (open' : base.getLast? ≠ some '/') :
    base = normalPath bs := by
  have string := normal.string
  rw [slashed, if_neg open'] at string
  unfold normalPath
  split <;> rename_i none_
  · rw [none_] at string
    have length : base.length + 1 = 1 := by
      rw [← List.length_singleton, ← List.length_append, string]
      rfl
    exact absurd (List.length_eq_zero_iff.mp (by omega)) normal.filled
  · rw [← string, List.dropLast_concat]

theorem loopForm (normal : Normal base bs) (names : Names first) (level : first.length = bs.length)
    (onward : base <+: flat first) (words : ∀ c ∈ ts, c ≠ [] ∧ '/' ∉ c)
    (room : (flat first).length + (body ts).length ≤ MAX_PATH_LEN) :
    ∃ out lead, (first ++ ts).foldlM (component base.length) ['/'] = some out ∧
      (Climbs ts → lead = bs) ∧ (¬ Climbs ts → lead = first) ∧
      Written base ts (lead ++ normalise ts) out := by
  induction ts using List.reverseRecOn with
  | nil =>
    refine ⟨normalPath first, first, ?_, ?_, fun _ => rfl, ?_, ?_⟩
    · rw [List.append_nil]
      exact namesForm names (by omega)
    · rintro ⟨before, inside, _⟩
      simpa using inside.length_le
    · rintro ⟨before, same, _⟩
      simpa using congrArg List.length same
    · exact fun _ => congrArg normalPath (List.append_nil first).symm
  | append_singleton ts c ih =>
    rw [Path.bodyAppend, List.length_append] at room
    have wordsInit : ∀ d ∈ ts, d ≠ [] ∧ '/' ∉ d := fun d member =>
      words d (List.mem_append_left _ member)
    obtain ⟨out, lead, early, back, kept, written⟩ := ih wordsInit (by omega)
    have leadIs : lead = bs ∨ lead = first := by
      by_cases climbs : Climbs ts
      · exact Or.inl (back climbs)
      · exact Or.inr (kept climbs)
    have inBs : base <+: flat bs := normal.string ▸ Path.prefixSlashed base
    obtain ⟨namesLead, levelLead, onwardLead, shorter⟩ : Names lead ∧ lead.length = bs.length ∧
        base <+: flat lead ∧ (flat lead).length ≤ (flat first).length := by
      rcases leadIs with rfl | rfl
      · exact ⟨normal.names, rfl, inBs, rootShorter normal onward⟩
      · exact ⟨names, level, onward, Nat.le_refl _⟩
    have namesDown := Path.namesNormalise wordsInit
    have namesAll : Names (lead ++ normalise ts) := by
      intro d member
      rcases List.mem_append.mp member with inside | below
      · exact namesLead d inside
      · exact namesDown d below
    have outNormal := written.normal namesAll
    have fold (next : Option Str) (one : component base.length out c = next) :
        (first ++ (ts ++ [c])).foldlM (component base.length) ['/'] = next := by
      rw [← List.append_assoc, List.foldlM_append, early]
      exact (bind_pure _).trans one
    rw [Path.normaliseSnoc]
    by_cases dot : c = ['.']
    · have one : component base.length out c = some out := if_pos dot
      have climbs : Climbs (ts ++ [c]) ↔ Climbs ts := by
        rw [Path.climbsSnoc, dot]
        simp
      rw [turn, if_pos dot, climbs]
      refine ⟨out, lead, fold _ one, back, kept, ?_, ?_⟩
      · rw [dot, endsUpDot]
        exact written.slash
      · rw [dot, endsUpDot]
        exact written.plain
    · by_cases dots : c = ['.', '.']
      · have one : component base.length out c = some (parent base.length out) := by
          rw [component, if_neg dot, if_pos dots]
        rw [turn, if_neg dot, if_pos dots]
        rcases List.eq_nil_or_concat (normalise ts) with none_ | ⟨ks, k, whole⟩
        · have climbs : Climbs (ts ++ [c]) := (Path.climbsSnoc ts c).mpr (Or.inr ⟨dots, none_⟩)
          rw [none_, List.append_nil] at written outNormal
          rw [none_, List.dropLast_nil, dots]
          rw [dots] at fold one climbs
          by_cases slash : base.getLast? = some '/'
          · obtain ⟨stays, same⟩ :=
              parentStays normal slash namesLead levelLead onwardLead outNormal
            rw [stays] at one
            refine ⟨out, bs, fold _ one, fun _ => rfl, fun not => absurd climbs not, ?_⟩
            rw [same] at written
            rw [List.append_nil]
            refine ⟨fun ends => written.slash ((endsUpStays slash none_).mp ends), fun not => ?_⟩
            exact written.plain fun ends => not ((endsUpStays slash none_).mpr ends)
          · have returns := parentBack normal slash namesLead levelLead onwardLead outNormal
            rw [returns] at one
            refine ⟨base, bs, fold _ one, fun _ => rfl, fun not => absurd climbs not, fun ends => ?_,
              fun _ => ?_⟩
            · rcases endsUpDots.mp ends with some_ | ⟨slash', _⟩
              · exact absurd none_ some_
              · exact absurd slash' slash
            · rw [List.append_nil]
              exact rootPlain normal slash
        · rw [List.concat_eq_append] at whole
          have some_ : normalise ts ≠ [] := by simp [whole]
          have climbs : Climbs (ts ++ [c]) ↔ Climbs ts := by
            rw [Path.climbsSnoc]
            simp [some_]
          rw [whole, List.dropLast_concat, climbs]
          rw [whole, ← List.append_assoc] at outNormal
          have deeper : base.length ≤ (flat (lead ++ ks)).length := by
            rw [Path.flatAppend, List.length_append]
            exact Nat.le_add_right_of_le onwardLead.length_le
          rw [parentTakes outNormal deeper] at one
          refine ⟨_, lead, fold _ one, back, kept, fun _ => rfl, fun not => ?_⟩
          exact absurd (dots ▸ endsUpDots.mpr (Or.inl some_)) not
      · obtain ⟨filled, away⟩ := words c (by simp)
        have size : (flat (lead ++ normalise ts)).length ≤
            (flat first).length + (body ts).length := by
          have bound := Path.normaliseLength ts
          rw [Path.flatAppend, List.length_append]
          omega
        have last : (body [c]).length = c.length + 1 := by simp [body]
        have one := componentPush base.length outNormal ⟨filled, away, dot, dots⟩
          (by rw [MAX_PATH_LEN] at room ⊢; omega)
        have climbs : Climbs (ts ++ [c]) ↔ Climbs ts := by
          rw [Path.climbsSnoc]
          simp [dots]
        rw [turn, if_neg dot, if_neg dots, climbs]
        refine ⟨_, lead, fold _ one, back, kept, fun ends => absurd ends (endsUpName dot dots),
          fun _ => ?_⟩
        rw [List.append_assoc]

end loop

/-! ## The call -/

section call
variable {task : Task} {path tmp : Str} {rs ws : List Str}

def rawString (task : Task) (path : Str) : Str := slashed task.cwd ++ path

def Accepted (task : Task) (path : Str) : Prop :=
  if path.head? = some '/' then
    path ≠ ['/'] → path.length < MAX_PATH_LEN ∧
      (task.root.length > 1 → task.root.length + path.length < MAX_PATH_LEN)
  else task.cwd.length + 1 + path.length + 1 < MAX_PATH_LEN

instance (task path) : Decidable (Accepted task path) := by unfold Accepted; infer_instance

theorem rawAbsolute (sane : Sane task) (normal : Normal task.root rs)
    (absolute : path.head? = some '/') (accepted : Accepted task path) :
    ∃ tmp, rawPath task.root task.cwd path = .path tmp ∧ task.root <+: tmp ∧
      components tmp = rs ++ components path ∧ tmp.length < MAX_PATH_LEN := by
  obtain ⟨rest, rfl⟩ : ∃ rest, path = '/' :: rest := by
    cases path with
    | nil => cases absolute
    | cons x rest =>
      cases absolute
      exact ⟨rest, rfl⟩
  unfold Accepted at accepted
  rw [if_pos absolute] at accepted
  unfold rawPath
  rw [if_pos absolute]
  by_cases jailed : task.root.length > 1
  · rw [if_pos jailed]
    by_cases alone : ('/' :: rest) = ['/']
    · have short := sane.rootShort
      rw [MAX_PATH_LEN] at short
      rw [if_pos alone, if_neg (by rw [MAX_PATH_LEN]; omega), alone]
      refine ⟨task.root, rfl, List.prefix_refl _, ?_, by rw [MAX_PATH_LEN]; omega⟩
      rw [normal.reads]
      exact (List.append_nil rs).symm
    · have bound := (accepted alone).2 jailed
      rw [if_neg alone, if_neg (by omega)]
      refine ⟨_, rfl, List.prefix_append _ _, ?_, by rw [List.length_append]; exact bound⟩
      rw [Path.componentsSlash, normal.reads, Path.componentsLead]
  · have alone : task.root = ['/'] := by
      obtain ⟨more, string⟩ := normal.starts
      rw [string, List.length_cons] at jailed
      rw [string, List.length_eq_zero_iff.mp (show more.length = 0 by omega)]
    have none_ : rs = [] := by
      have reads := normal.reads
      rw [alone] at reads
      exact reads.symm
    have short : ('/' :: rest).length < MAX_PATH_LEN := by
      by_cases alone : ('/' :: rest) = ['/']
      · rw [alone]
        decide
      · exact (accepted alone).1
    rw [if_neg jailed, if_neg (Nat.not_le_of_lt short)]
    refine ⟨_, rfl, ?_, by rw [none_]; rfl, short⟩
    rw [alone]
    exact ⟨rest, rfl⟩

theorem rawRelative (normal : Normal task.cwd ws) (relative : path.head? ≠ some '/')
    (accepted : Accepted task path) :
    rawPath task.root task.cwd path = .path (rawString task path) ∧
      components (rawString task path) = ws ++ components path ∧
      (rawString task path).length < MAX_PATH_LEN := by
  unfold Accepted at accepted
  rw [if_neg relative] at accepted
  refine ⟨?_, ?_, ?_⟩
  · have filled : 0 < task.cwd.length := List.length_pos_iff.mpr normal.filled
    unfold rawPath rawString slashed
    rw [if_neg relative, if_neg (Nat.not_le_of_lt accepted)]
    by_cases ends : task.cwd.getLast? = some '/'
    · rw [if_pos ends, if_neg fun apart => apart.2 ends]
    · rw [if_neg ends, if_pos ⟨filled, ends⟩]
  · rw [rawString, normal.string, Path.componentsFlat normal.names]
  · have bound := Path.slashedLength task.cwd
    rw [rawString, List.length_append]
    omega

theorem acceptedOf {p : Str} (done : resolvePath task path = .path p) (sane : Sane task) :
    Accepted task path := by
  obtain ⟨rs, normal⟩ := sane.root
  unfold resolvePath at done
  rw [if_neg normal.filled] at done
  dsimp only at done
  unfold Accepted
  rcases raw : rawPath task.root task.cwd path with tmp | _ | _ <;> rw [raw] at done
  · unfold rawPath at raw
    split at raw <;> rename_i absolute
    · rw [if_pos absolute]
      intro other
      split at raw <;> rename_i jailed
      · split at raw
        · cases raw
        · exact ⟨by omega, fun _ => by omega⟩
      · split at raw
        · cases raw
        · exact ⟨by omega, fun jailed' => absurd jailed' jailed⟩
    · rw [if_neg absolute]
      split at raw
      · cases raw
      · omega
  · cases done
  · cases done

theorem resolveBehind (normal : Normal task.root rs)
    (raw : rawPath task.root task.cwd path = .path tmp) (begins : task.root <+: tmp)
    (short : tmp.length < MAX_PATH_LEN) :
    ∃ first rest out lead, components tmp = first ++ rest ∧ first.length = rs.length ∧
      resolvePath task path = .path out ∧ (Climbs rest → lead = rs) ∧
      (¬ Climbs rest → lead = first) ∧ Names (lead ++ normalise rest) ∧
      Written task.root rest (lead ++ normalise rest) out := by
  obtain ⟨more, rfl⟩ := begins
  obtain ⟨first, rest, split, names, onward, level⟩ := normal.lead more
  have words : ∀ c ∈ rest, c ≠ [] ∧ '/' ∉ c := fun c member =>
    Path.componentsWords _ c (split ▸ List.mem_append_right first member)
  have room : (flat first).length + (body rest).length ≤ MAX_PATH_LEN := by
    obtain ⟨tail, string⟩ := normal.starts
    have bound := Path.flatLength (p := task.root ++ more) (by rw [string]; rfl)
    rw [split, Path.flatAppend, List.length_append] at bound
    omega
  obtain ⟨out, lead, loop, back, kept, written⟩ :=
    loopForm normal names level onward words room
  have namesLead : Names lead := by
    by_cases climbs : Climbs rest
    · exact back climbs ▸ normal.names
    · exact kept climbs ▸ names
  have namesAll : Names (lead ++ normalise rest) := by
    intro d member
    rcases List.mem_append.mp member with inside | below
    · exact namesLead d inside
    · exact Path.namesNormalise words d below
  refine ⟨first, rest, out, lead, split, level, ?_, back, kept, namesAll, written⟩
  unfold resolvePath
  rw [if_neg normal.filled]
  dsimp only
  rw [raw]
  dsimp only
  rw [if_pos (List.prefix_append _ _), split, loop]
  dsimp only
  rw [if_neg (written.normal namesAll).filled]

theorem resolveApart (normal : Normal task.root rs) (absolute : tmp.head? = some '/')
    (raw : rawPath task.root task.cwd path = .path tmp) (apart : ¬ task.root <+: tmp)
    (short : tmp.length < MAX_PATH_LEN) :
    ∃ out, resolvePath task path = .path out ∧
      Written ['/'] (components tmp) (normalise (components tmp)) out := by
  have words := Path.componentsWords tmp
  have room : (flat []).length + (body (components tmp)).length ≤ MAX_PATH_LEN := by
    have bound := Path.flatLength absolute
    rw [flat, List.length_cons] at bound
    simp only [flat, body, List.flatMap_nil, List.length_singleton]
    rw [← body]
    omega
  obtain ⟨out, lead, loop, back, kept, written⟩ := loopForm Path.rootNormal
    (show Names [] from List.forall_mem_nil _) rfl (List.prefix_refl _) words room
  have none_ : lead = [] := by
    by_cases climbs : Climbs (components tmp)
    · exact back climbs
    · exact kept climbs
  rw [none_, List.nil_append] at written
  have outNormal := written.normal (Path.namesNormalise words)
  refine ⟨out, ?_, written⟩
  unfold resolvePath
  rw [if_neg normal.filled]
  dsimp only
  rw [raw]
  dsimp only
  rw [if_neg apart]
  rw [List.nil_append] at loop
  rw [show (1 : Nat) = ['/'].length from rfl, loop]
  dsimp only
  rw [if_neg outNormal.filled]

end call

end Scepter.Vfs
