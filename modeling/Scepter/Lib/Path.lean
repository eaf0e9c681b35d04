import Mathlib.Data.List.Basic
import Mathlib.Data.List.Induction

/-! Slash-separated paths as lists of characters: their components, the string of
a list of components with a slash before and behind each, paths that are such
strings up to the last slash, and the names that are left when `.` and `..` are
taken for what they mean. -/
namespace Scepter.Path

abbrev Str := List Char

def emit (cur : Str) (rest : List Str) : List Str := if cur = [] then rest else cur :: rest

def scan (cur : Str) : Str → List Str
  | [] => emit cur []
  | c :: rest => if c = '/' then emit cur (scan [] rest) else scan (cur ++ [c]) rest

def components (p : Str) : List Str := scan [] p

def slashed (p : Str) : Str := if p.getLast? = some '/' then p else p ++ ['/']

def body (cs : List Str) : Str := cs.flatMap (· ++ ['/'])

def flat (cs : List Str) : Str := '/' :: body cs

def Name (c : Str) : Prop := c ≠ [] ∧ '/' ∉ c ∧ c ≠ ['.'] ∧ c ≠ ['.', '.']

instance (c) : Decidable (Name c) := by unfold Name; infer_instance

def Names (cs : List Str) : Prop := ∀ c ∈ cs, Name c
instance (cs) : Decidable (Names cs) := by unfold Names; infer_instance

/-- `p` is the string of the components `cs`, perhaps without its last slash. -/
structure Normal (p : Str) (cs : List Str) : Prop where
  names : Names cs
  string : slashed p = flat cs
  filled : p ≠ []

variable {p q c cur a b : Str} {cs ds : List Str}

theorem scanSlash (cur a b : Str) : scan cur (a ++ '/' :: b) = scan cur a ++ scan [] b := by
  induction a generalizing cur with
  | nil =>
    simp only [List.nil_append, scan, if_true, emit]
    split <;> rfl
  | cons x a ih =>
    simp only [List.cons_append, scan]
    split
    · rw [ih, emit, emit]
      split <;> rfl
    · exact ih _

theorem componentsSlash (a b : Str) : components (a ++ '/' :: b) = components a ++ components b :=
  scanSlash [] a b

theorem scanWord (word : '/' ∉ a) : scan cur a = emit (cur ++ a) [] := by
  induction a generalizing cur with
  | nil => simp [scan]
  | cons x a ih =>
    have other : x ≠ '/' := fun same => word (same ▸ List.mem_cons_self)
    have rest : '/' ∉ a := fun member => word (List.mem_cons_of_mem x member)
    rw [scan, if_neg other, ih rest, List.append_assoc, List.singleton_append]

theorem componentsName (some : c ≠ []) (word : '/' ∉ c) : components c = [c] := by
  rw [components, scanWord word, List.nil_append, emit, if_neg some]

theorem scanWords (word : '/' ∉ cur) : ∀ c ∈ scan cur p, c ≠ [] ∧ '/' ∉ c := by
  have emitted : ∀ cur rest, '/' ∉ cur → (∀ c ∈ rest, c ≠ [] ∧ '/' ∉ c) →
      ∀ c ∈ emit cur rest, c ≠ [] ∧ '/' ∉ c := by
    intro cur rest word others c member
    unfold emit at member
    split at member <;> rename_i empty
    · exact others c member
    · rcases List.mem_cons.mp member with rfl | old
      · exact ⟨empty, word⟩
      · exact others c old
  induction p generalizing cur with
  | nil => exact emitted cur [] word fun _ absurd' => nomatch absurd'
  | cons x p ih =>
    unfold scan
    split <;> rename_i other
    · exact emitted cur _ word (ih List.not_mem_nil)
    · refine ih fun member => ?_
      rcases List.mem_append.mp member with old | new
      · exact word old
      · exact other (List.mem_singleton.mp new).symm

theorem componentsWords (p : Str) : ∀ c ∈ components p, c ≠ [] ∧ '/' ∉ c :=
  scanWords List.not_mem_nil

theorem componentsLead (p : Str) : components ('/' :: p) = components p := by
  have split := componentsSlash [] p
  exact split

theorem componentsSlashed (p : Str) : components (slashed p) = components p := by
  unfold slashed
  split
  · rfl
  · rw [componentsSlash]
    simp [components, scan, emit]

theorem bodyAppend (cs ds : List Str) : body (cs ++ ds) = body cs ++ body ds :=
  List.flatMap_append

theorem flatAppend (cs ds : List Str) : flat (cs ++ ds) = flat cs ++ body ds := by
  unfold flat
  rw [bodyAppend, List.cons_append]

theorem flatSnoc (cs : List Str) (c : Str) : flat (cs ++ [c]) = flat cs ++ c ++ ['/'] := by
  rw [flatAppend, List.append_assoc]
  simp [body]

theorem componentsBody (names : Names cs) (rest : Str) :
    components (body cs ++ rest) = cs ++ components rest := by
  induction cs with
  | nil => rfl
  | cons c cs ih =>
    obtain ⟨some, word, _⟩ := names c List.mem_cons_self
    have tail := ih fun d member => names d (List.mem_cons_of_mem c member)
    have shape : body (c :: cs) ++ rest = c ++ '/' :: (body cs ++ rest) := by
      simp [body, List.append_assoc]
    rw [shape, componentsSlash, componentsName some word, tail]
    rfl

theorem componentsFlat (names : Names cs) (rest : Str) :
    components (flat cs ++ rest) = cs ++ components rest := by
  unfold flat
  rw [List.cons_append, componentsLead, componentsBody names]

theorem Normal.reads (normal : Normal p cs) : components p = cs := by
  have all := componentsFlat normal.names []
  rw [List.append_nil, ← normal.string, componentsSlashed] at all
  exact all.trans (List.append_nil cs)

theorem flatEnds (cs : List Str) : (flat cs).getLast? = some '/' := by
  rcases List.eq_nil_or_concat cs with rfl | ⟨cs, c, rfl⟩
  · rfl
  · rw [List.concat_eq_append, flatSnoc, List.getLast?_append]
    rfl

theorem slashedFlat (cs : List Str) : slashed (flat cs) = flat cs := if_pos (flatEnds cs)

theorem rootNormal : Normal ['/'] [] := by
  refine ⟨fun c absurd' => ?_, rfl, List.cons_ne_nil _ _⟩
  cases absurd'

theorem prefixSlashed (p : Str) : p <+: slashed p := by
  unfold slashed
  split
  · exact List.prefix_refl p
  · exact List.prefix_append p _

theorem slashedLength (p : Str) : (slashed p).length ≤ p.length + 1 := by
  unfold slashed
  split <;> simp

theorem Normal.ending (normal : Normal p cs) : p = flat cs ∨ p ++ ['/'] = flat cs := by
  have string := normal.string
  unfold slashed at string
  split at string
  · exact Or.inl string
  · exact Or.inr string

theorem Normal.starts (normal : Normal p cs) : ∃ rest, p = '/' :: rest := by
  cases p with
  | nil => exact absurd rfl normal.filled
  | cons x rest =>
    rcases normal.ending with string | string
    · injection string with head _
      exact ⟨rest, by rw [head]⟩
    · injection string with head _
      exact ⟨rest, by rw [head]⟩

theorem bodySplit (names : Names cs) (same : a ++ b = body cs)
    (ends : a = [] ∨ a.getLast? = some '/') : ∃ ds es, cs = ds ++ es ∧ a = body ds := by
  induction cs generalizing a with
  | nil =>
    obtain ⟨rfl, _⟩ := List.append_eq_nil_iff.mp same
    exact ⟨[], [], rfl, rfl⟩
  | cons c cs ih =>
    rcases ends with rfl | ends
    · exact ⟨[], c :: cs, rfl, rfl⟩
    · have shape : body (c :: cs) = (c ++ ['/']) ++ body cs := rfl
      rw [shape] at same
      rcases List.append_eq_append_iff.mp same with ⟨rest, first, _⟩ | ⟨rest, first, second⟩
      · -- the slash at the end of `a` is not in the name `c`
        rcases List.eq_nil_or_concat rest with rfl | ⟨rest, last, rfl⟩
        · rw [List.append_nil] at first
          exact ⟨[c], cs, rfl, by rw [← first]; simp [body]⟩
        · have word := (names c List.mem_cons_self).2.1
          rw [List.concat_eq_append, ← List.append_assoc] at first
          obtain ⟨inside, _⟩ := List.append_inj' first rfl
          exact absurd (inside ▸ List.mem_append_left _ (List.mem_of_getLast? ends)) word
      · have tail : rest = [] ∨ rest.getLast? = some '/' := by
          cases rest with
          | nil => exact Or.inl rfl
          | cons x rest =>
            rw [first, List.getLast?_append_of_ne_nil _ (List.cons_ne_nil x rest)] at ends
            exact Or.inr ends
        obtain ⟨ds, es, split, string⟩ :=
          ih (fun d member => names d (List.mem_cons_of_mem c member)) second.symm tail
        refine ⟨c :: ds, es, by rw [split]; rfl, ?_⟩
        rw [first, string]
        rfl

theorem flatPrefix (names : Names cs) (names' : Names ds) (inside : flat ds <+: flat cs) : ds <+: cs := by
  obtain ⟨rest, same⟩ := inside
  have tail : body ds ++ rest = body cs := by
    unfold flat at same
    injection same
  have ends : body ds = [] ∨ (body ds).getLast? = some '/' := by
    have whole := flatEnds ds
    unfold flat at whole
    cases shape : body ds with
    | nil => exact Or.inl rfl
    | cons x rest =>
      rw [shape, List.getLast?_cons_cons] at whole
      exact Or.inr whole
  obtain ⟨ds', es, split, string⟩ := bodySplit names tail ends
  have names'' : Names ds' := fun d member => names d (split ▸ List.mem_append_left es member)
  have one := componentsBody names' []
  have two := componentsBody names'' []
  rw [string] at one
  have same' : ds = ds' := by simpa using one.symm.trans two
  exact ⟨es, by rw [same', split]⟩

theorem Normal.upTo (normal : Normal p cs) (inside : q <+: p) (ends : q.getLast? = some '/') :
    ∃ ds, ds <+: cs ∧ Normal q ds := by
  obtain ⟨rest, same⟩ := inside.trans (prefixSlashed p)
  rw [normal.string] at same
  have filled : q ≠ [] := by
    intro none
    rw [none] at ends
    cases ends
  cases q with
  | nil => exact absurd rfl filled
  | cons x q =>
    unfold flat at same
    injection same with head tail
    cases head
    have ends' : q = [] ∨ q.getLast? = some '/' := by
      cases q with
      | nil => exact Or.inl rfl
      | cons y q =>
        rw [List.getLast?_cons_cons] at ends
        exact Or.inr ends
    obtain ⟨ds, es, split, string⟩ := bodySplit normal.names tail ends'
    refine ⟨ds, ⟨es, split.symm⟩, fun d member => normal.names d ?_, ?_, filled⟩
    · rw [split]
      exact List.mem_append_left es member
    · rw [string]
      exact slashedFlat ds

theorem slashedSnoc (other : p.getLast? ≠ some '/') : slashed p = p ++ ['/'] := if_neg other

theorem Normal.push (normal : Normal p cs) (name : Name c) :
    Normal (slashed p ++ c) (cs ++ [c]) := by
  have filled := name.1
  have word := name.2.1
  refine ⟨fun d member => ?_, ?_, by simp [filled]⟩
  · rcases List.mem_append.mp member with old | new
    · exact normal.names d old
    · exact List.mem_singleton.mp new ▸ name
  · have other : (slashed p ++ c).getLast? ≠ some '/' := by
      intro ends
      rw [List.getLast?_append_of_ne_nil _ filled] at ends
      exact word (List.mem_of_getLast? ends)
    rw [slashedSnoc other, normal.string, flatSnoc]

theorem spanWord (a : Str) : ∃ word rest, a = word ++ rest ∧ '/' ∉ word ∧
    (rest = [] ∨ ∃ tail, rest = '/' :: tail) := by
  induction a with
  | nil => exact ⟨[], [], rfl, List.not_mem_nil, Or.inl rfl⟩
  | cons x a ih =>
    obtain ⟨word, rest, rfl, away, ends⟩ := ih
    by_cases slash : x = '/'
    · cases slash
      exact ⟨[], '/' :: (word ++ rest), rfl, List.not_mem_nil, Or.inr ⟨_, rfl⟩⟩
    · refine ⟨x :: word, rest, rfl, fun member => ?_, ends⟩
      rcases List.mem_cons.mp member with same | inside
      · exact slash same.symm
      · exact away inside

theorem Normal.lead (normal : Normal p cs) (rest : Str) :
    ∃ first more, components (p ++ rest) = first ++ more ∧ Names first ∧ p <+: flat first ∧
      first.length = cs.length := by
  rcases normal.ending with string | string
  · refine ⟨cs, components rest, ?_, normal.names, string ▸ List.prefix_refl _, rfl⟩
    rw [string, componentsFlat normal.names]
  · rcases List.eq_nil_or_concat cs with rfl | ⟨init, c, rfl⟩
    · have empty : p = [] := by
        have length := congrArg List.length string
        simpa [flat, body] using length
      exact absurd empty normal.filled
    · rw [List.concat_eq_append, flatSnoc] at string
      have shape := List.append_cancel_right string
      have namesInit : Names init := fun d member =>
        normal.names d (by rw [List.concat_eq_append]; exact List.mem_append_left _ member)
      obtain ⟨filled, away, dot, dots⟩ := normal.names c (by simp)
      obtain ⟨word, rest', rfl, away', ends⟩ := spanWord rest
      have name : Name (c ++ word) := by
        refine ⟨by simp [filled], ?_, ?_, ?_⟩
        · rw [List.mem_append]
          exact fun both => both.elim away away'
        · intro same
          rcases c with _ | ⟨x, c⟩
          · exact filled rfl
          · injection same with head tail
            obtain ⟨rfl, _⟩ := List.append_eq_nil_iff.mp tail
            exact dot (by rw [head])
        · intro same
          rcases c with _ | ⟨x, _ | ⟨y, c⟩⟩
          · exact filled rfl
          · injection same with head tail
            exact dot (by rw [head])
          · injection same with head tail
            injection tail with head' tail'
            obtain ⟨rfl, _⟩ := List.append_eq_nil_iff.mp tail'
            exact dots (by rw [head, head'])
      refine ⟨init ++ [c ++ word], components rest', ?_, ?_, ?_, by simp⟩
      · have split : components (c ++ word ++ rest') = (c ++ word) :: components rest' := by
          rcases ends with rfl | ⟨tail, rfl⟩
          · rw [List.append_nil, componentsName name.1 name.2.1]
            rfl
          · rw [componentsSlash, componentsName name.1 name.2.1, componentsLead]
            rfl
        rw [shape, List.append_assoc, componentsFlat namesInit, ← List.append_assoc, split,
          List.append_assoc]
        rfl
      · intro d member
        rcases List.mem_append.mp member with old | new
        · exact namesInit d old
        · exact List.mem_singleton.mp new ▸ name
      · rw [shape, flatSnoc]
        exact ⟨word ++ ['/'], by simp [List.append_assoc]⟩

section normalising

/-- The names below the root after one more component; above the root is the root. -/
def turn (cs : List Str) (c : Str) : List Str :=
  if c = ['.'] then cs else if c = ['.', '.'] then cs.dropLast else cs ++ [c]

def normalise (cs : List Str) : List Str := cs.foldl turn []

def Climbs (cs : List Str) : Prop :=
  ∃ before, before ++ [['.', '.']] <+: cs ∧ normalise before = []

def normalPath (cs : List Str) : Str := if cs = [] then ['/'] else (flat cs).dropLast

theorem normaliseSnoc (cs : List Str) (c : Str) :
    normalise (cs ++ [c]) = turn (normalise cs) c := by
  simp [normalise, List.foldl_append]

theorem normaliseNames (names : Names cs) : normalise cs = cs := by
  induction cs using List.reverseRecOn with
  | nil => rfl
  | append_singleton cs c ih =>
    obtain ⟨_, _, dot, dots⟩ := names c (by simp)
    rw [normaliseSnoc, ih fun d member => names d (List.mem_append_left _ member), turn,
      if_neg dot, if_neg dots]

theorem namesNormalise (words : ∀ c ∈ cs, c ≠ [] ∧ '/' ∉ c) : Names (normalise cs) := by
  induction cs using List.reverseRecOn with
  | nil => exact fun _ absurd' => nomatch absurd'
  | append_singleton cs c ih =>
    have names := ih fun d member => words d (List.mem_append_left _ member)
    obtain ⟨filled, away⟩ := words c (by simp)
    rw [normaliseSnoc, turn]
    split <;> rename_i dot
    · exact names
    · split <;> rename_i dots
      · exact fun d member => names d (List.dropLast_subset _ member)
      · intro d member
        rcases List.mem_append.mp member with old | new
        · exact names d old
        · exact List.mem_singleton.mp new ▸ ⟨filled, away, dot, dots⟩

theorem normaliseUps (ups : ∀ c ∈ cs, c = ['.', '.']) : normalise cs = [] := by
  induction cs using List.reverseRecOn with
  | nil => rfl
  | append_singleton cs c ih =>
    rw [normaliseSnoc, ih fun d member => ups d (List.mem_append_left _ member),
      ups c (by simp)]
    rfl

theorem normaliseLength (cs : List Str) : (body (normalise cs)).length ≤ (body cs).length := by
  induction cs using List.reverseRecOn with
  | nil => exact Nat.le_refl _
  | append_singleton cs c ih =>
    rw [normaliseSnoc, turn, bodyAppend, List.length_append]
    split
    · omega
    · split
      · have split := congrArg List.length (bodyAppend (normalise cs).dropLast
          ((normalise cs).drop ((normalise cs).length - 1)))
        rw [List.dropLast_eq_take, List.take_append_drop, List.length_append] at split
        rw [List.dropLast_eq_take]
        omega
      · rw [bodyAppend, List.length_append]
        omega

theorem climbsSnoc (cs : List Str) (c : Str) :
    Climbs (cs ++ [c]) ↔ Climbs cs ∨ c = ['.', '.'] ∧ normalise cs = [] := by
  unfold Climbs
  constructor
  · rintro ⟨before, inside, base⟩
    rcases List.prefix_concat_iff.mp inside with whole | inner
    · obtain ⟨rfl, same⟩ := List.append_inj' whole rfl
      exact Or.inr ⟨(List.singleton_inj.mp same).symm, base⟩
    · exact Or.inl ⟨before, inner, base⟩
  · rintro (⟨before, inside, base⟩ | ⟨rfl, base⟩)
    · exact ⟨before, inside.trans (List.prefix_append _ _), base⟩
    · exact ⟨cs, List.prefix_refl _, base⟩

theorem scanLength (cur p : Str) : (body (scan cur p)).length ≤ cur.length + p.length + 1 := by
  have emitted : ∀ cur rest, (body (emit cur rest)).length ≤ cur.length + 1 + (body rest).length := by
    intro cur rest
    unfold emit
    split
    · omega
    · simp only [body, List.flatMap_cons, List.length_append, List.length_singleton]
      omega
  induction p generalizing cur with
  | nil =>
    have one := emitted cur []
    simp only [body, List.flatMap_nil, List.length_nil] at one ⊢
    exact one
  | cons c p ih =>
    unfold scan
    split
    · have one := emitted cur (scan [] p)
      have rest := ih []
      simp only [List.length_nil, List.length_cons] at rest ⊢
      omega
    · have rest := ih (cur ++ [c])
      simp only [List.length_append, List.length_cons, List.length_nil] at rest ⊢
      omega

theorem flatLength (absolute : p.head? = some '/') : (flat (components p)).length ≤ p.length + 1 := by
  cases p with
  | nil => cases absolute
  | cons x p =>
    cases absolute
    have bound := scanLength [] p
    rw [componentsLead]
    simp only [flat, components, List.length_cons, List.length_nil] at bound ⊢
    omega

theorem flatSlashes (names : Names cs) : (flat cs).count '/' = cs.length + 1 := by
  induction cs using List.reverseRecOn with
  | nil => rfl
  | append_singleton cs c ih =>
    have away : '/' ∉ c := (names c (by simp)).2.1
    rw [flatSnoc, List.count_append, List.count_append, List.count_eq_zero_of_not_mem away,
      ih fun d member => names d (List.mem_append_left _ member)]
    simp

theorem normalPathSnoc (cs : List Str) (c : Str) : normalPath (cs ++ [c]) = flat cs ++ c := by
  rw [normalPath, if_neg (by simp), flatSnoc, List.dropLast_concat]

theorem normalPathSlashed (names : Names cs) : slashed (normalPath cs) = flat cs := by
  rcases List.eq_nil_or_concat cs with rfl | ⟨init, c, rfl⟩
  · rfl
  · rw [List.concat_eq_append] at names ⊢
    obtain ⟨filled, away, _⟩ := names c (by simp)
    rw [normalPathSnoc, slashedSnoc, flatSnoc]
    intro ends
    rw [List.getLast?_append_of_ne_nil _ filled] at ends
    exact away (List.mem_of_getLast? ends)

theorem normalPathNormal (names : Names cs) : Normal (normalPath cs) cs := by
  refine ⟨names, normalPathSlashed names, fun none => ?_⟩
  have string := normalPathSlashed names
  rw [none] at string
  have length := congrArg List.length string
  cases cs with
  | nil => cases none
  | cons c cs =>
    obtain ⟨filled, _⟩ := names c List.mem_cons_self
    have some := List.length_pos_iff.mpr filled
    simp only [slashed, flat, body, List.flatMap_cons, List.length_cons, List.length_append,
      List.length_nil, List.getLast?_nil, reduceCtorEq, if_false, List.nil_append] at length
    omega

theorem flatNormal (names : Names cs) : Normal (flat cs) cs :=
  ⟨names, slashedFlat cs, List.cons_ne_nil _ _⟩

end normalising

end Scepter.Path
