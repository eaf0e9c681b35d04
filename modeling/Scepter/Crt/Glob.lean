import Scepter.Lib.Path
import Scepter.Lib.Wildcard
import Mathlib.Data.List.DropRight

/-! The two matchers of file names: glob_match of the shell (crt/coreutil/sh.c) and
name_matches of find (crt/coreutil/find.c). A character is a byte other than NUL, a pointer
into a string is what is left of it. -/
namespace Scepter.Glob
open Path (Str)
open Wildcard

def globMatch : Str → Str → Bool
  | [], s => s.isEmpty
  | c :: pat, s =>
    if c = '*' then
      globMatch pat s ||
        match s with
        | [] => false
        | _ :: rest => globMatch (c :: pat) rest
    else if c = '?' then
      match s with
      | [] => false
      | _ :: rest => globMatch pat rest
    else
      match s with
      | [] => false
      | d :: rest => decide (d = c) && globMatch pat rest
termination_by pat s => (pat.length, s.length)

def nameMatchesTail : Str → Str → Bool
  | _, [] => true
  | s, c :: g =>
    if c = '*' then
      nameMatchesTail s g ||
        match s with
        | [] => false
        | _ :: rest => nameMatchesTail rest (c :: g)
    else if c = '?' then
      match s with
      | [] => false
      | _ :: rest => nameMatchesTail rest g
    else
      match s with
      | [] => false
      | d :: rest => if d ≠ c then false else nameMatchesTail rest g
termination_by s g => (g.length, s.length)

def tryTails (g : Str) : Str → Bool
  | [] => nameMatchesTail [] g
  | c :: s => nameMatchesTail (c :: s) g || tryTails g s

def nameLoop : Str → Str → Bool
  | [], s => s.isEmpty
  | c :: g, s =>
    if c = '*' then if g = [] then true else tryTails g s
    else
      match s with
      | [] => false
      | d :: s => if c = '?' then nameLoop g s else if d ≠ c then false else nameLoop g s

def nameMatches (nameGlob : Option Str) (name : Str) : Bool :=
  match nameGlob with
  | none => true
  | some g => nameLoop g name

def piece (c : Char) : Piece Char := if c = '*' then .star else if c = '?' then .any else .one c

def pattern (g : Str) : List (Piece Char) := g.map piece

def FileName (s : Str) : Prop := '/' ∉ s

def ending (g : Str) : Str := g.rtakeWhile (· ≠ '*')

/-- No file name can match, or the end of the pattern is not there to be tested: there is
no star, or nothing but `?` behind the last one. -/
def Settled (g : Str) : Prop := '/' ∈ g ∨ '*' ∉ g ∨ ∀ c ∈ ending g, c = '?'

variable {g h r s : Str} {c d : Char}

theorem pieceStar : piece '*' = .star := rfl

theorem langChar {p : List (Piece Char)} (star : c ≠ '*') :
    ¬ Lang (piece c :: p) [] ∧
      (Lang (piece c :: p) (d :: s) ↔ (c = '?' ∨ d = c) ∧ Lang p s) := by
  unfold piece
  rw [if_neg star]
  by_cases any : c = '?'
  · rw [if_pos any]
    refine ⟨fun ⟨_, _, same, _⟩ => List.cons_ne_nil _ _ same.symm, ?_, ?_⟩
    · rintro ⟨e, t, same, rest⟩
      cases same
      exact ⟨Or.inl any, rest⟩
    · exact fun ⟨_, rest⟩ => ⟨d, s, rfl, rest⟩
  · rw [if_neg any]
    refine ⟨fun ⟨_, same, _⟩ => List.cons_ne_nil _ _ same.symm, ?_, ?_⟩
    · rintro ⟨t, same, rest⟩
      cases same
      exact ⟨Or.inr rfl, rest⟩
    · rintro ⟨taken, rest⟩
      exact ⟨s, by rw [taken.resolve_left any], rest⟩

theorem langStarNil {p : List (Piece Char)} : Lang (.star :: p) [] ↔ Lang p [] := by
  rw [langStar]
  refine ⟨?_, Or.inl⟩
  rintro (now | ⟨e, t, same, _⟩)
  · exact now
  · cases same

theorem langStarCons {p : List (Piece Char)} :
    Lang (.star :: p) (d :: s) ↔ Lang p (d :: s) ∨ Lang (.star :: p) s := by
  rw [langStar]
  constructor
  · rintro (now | ⟨e, t, same, later⟩)
    · exact Or.inl now
    · cases same
      exact Or.inr later
  · rintro (now | later)
    · exact Or.inl now
    · exact Or.inr ⟨d, s, rfl, later⟩

theorem globMatchChar (star : c ≠ '*') :
    globMatch (c :: g) [] = false ∧
      globMatch (c :: g) (d :: s) = (decide (c = '?' ∨ d = c) && globMatch g s) := by
  rw [globMatch, globMatch, if_neg star, if_neg star]
  by_cases any : c = '?' <;> simp [any]

theorem nameMatchesTailChar (star : c ≠ '*') :
    nameMatchesTail [] (c :: g) = false ∧
      nameMatchesTail (d :: s) (c :: g) =
        (decide (c = '?' ∨ d = c) && nameMatchesTail s g) := by
  rw [nameMatchesTail, nameMatchesTail, if_neg star, if_neg star]
  by_cases any : c = '?' <;> by_cases same : d = c <;> simp [any, same]

theorem nameLoopStar (g s : Str) :
    nameLoop ('*' :: g) s = if g = [] then true else tryTails g s := by
  cases s <;> rfl

theorem nameLoopChar (star : c ≠ '*') :
    nameLoop (c :: g) [] = false ∧
      nameLoop (c :: g) (d :: s) = (decide (c = '?' ∨ d = c) && nameLoop g s) := by
  rw [nameLoop, nameLoop, if_neg star, if_neg star]
  by_cases any : c = '?' <;> by_cases same : d = c <;> simp [any, same]

theorem globMatchLang (g s : Str) : globMatch g s = true ↔ Lang (pattern g) s := by
  induction g generalizing s with
  | nil =>
    rw [globMatch, List.isEmpty_iff]
    rfl
  | cons c g ih =>
    show _ ↔ Lang (piece c :: pattern g) s
    by_cases star : c = '*'
    · subst star
      rw [pieceStar]
      -- the pattern stays while the name gets shorter
      induction s with
      | nil => rw [globMatch, if_pos rfl, Bool.or_false, langStarNil, ih]
      | cons d s shorter => rw [globMatch, if_pos rfl, Bool.or_eq_true, langStarCons, ih, shorter]
    · cases s with
      | nil =>
        rw [(globMatchChar (d := c) (s := []) star).1]
        exact iff_of_false Bool.false_ne_true (langChar (d := c) (s := []) star).1
      | cons d s =>
        rw [(globMatchChar star).2, (langChar star).2, Bool.and_eq_true, decide_eq_true_iff, ih]

theorem nameMatchesTailLang (s g : Str) :
    nameMatchesTail s g = true ↔ Lang (pattern g ++ [.star]) s := by
  induction g generalizing s with
  | nil =>
    rw [nameMatchesTail]
    exact iff_of_true rfl ⟨s, [], (List.append_nil s).symm, rfl⟩
  | cons c g ih =>
    show _ ↔ Lang (piece c :: (pattern g ++ [.star])) s
    by_cases star : c = '*'
    · subst star
      rw [pieceStar]
      induction s with
      | nil => rw [nameMatchesTail, if_pos rfl, Bool.or_false, langStarNil, ih]
      | cons d s shorter =>
        rw [nameMatchesTail, if_pos rfl, Bool.or_eq_true, langStarCons, ih, shorter]
    · cases s with
      | nil =>
        rw [(nameMatchesTailChar (d := c) (s := []) star).1]
        exact iff_of_false Bool.false_ne_true (langChar (d := c) (s := []) star).1
      | cons d s =>
        rw [(nameMatchesTailChar star).2, (langChar star).2, Bool.and_eq_true,
          decide_eq_true_iff, ih]

theorem tryTailsLang (g s : Str) :
    tryTails g s = true ↔ Lang (.star :: (pattern g ++ [.star])) s := by
  induction s with
  | nil => rw [tryTails, nameMatchesTailLang, langStarNil]
  | cons c s ih => rw [tryTails, Bool.or_eq_true, langStarCons, nameMatchesTailLang, ih]

theorem nameLoopLang (g s : Str) :
    nameLoop g s = true ↔ Lang (if '*' ∈ g then pattern g ++ [.star] else pattern g) s := by
  induction g generalizing s with
  | nil =>
    rw [nameLoop, List.isEmpty_iff]
    rfl
  | cons c g ih =>
    by_cases star : c = '*'
    · subst star
      rw [nameLoopStar, if_pos List.mem_cons_self]
      show _ ↔ Lang (.star :: (pattern g ++ [.star])) s
      by_cases last : g = []
      · rw [if_pos last, last]
        exact iff_of_true rfl ⟨s, [], (List.append_nil s).symm, [], [], rfl, rfl⟩
      · rw [if_neg last, tryTailsLang]
    · have tail : '*' ∈ c :: g ↔ '*' ∈ g :=
        List.mem_cons.trans (or_iff_right fun same => star same.symm)
      have shape : (if '*' ∈ c :: g then pattern (c :: g) ++ [.star] else pattern (c :: g)) =
          piece c :: if '*' ∈ g then pattern g ++ [.star] else pattern g := by
        simp only [tail]
        split <;> rfl
      rw [shape]
      cases s with
      | nil =>
        rw [(nameLoopChar (d := c) (s := []) star).1]
        exact iff_of_false Bool.false_ne_true (langChar (d := c) (s := []) star).1
      | cons d s =>
        rw [(nameLoopChar star).2, (langChar star).2, Bool.and_eq_true, decide_eq_true_iff, ih]

theorem slashUnmatched (slash : '/' ∈ g) (name : FileName s) (more : List (Piece Char)) :
    ¬ Lang (pattern g ++ more) s := by
  induction g generalizing s with
  | nil => cases slash
  | cons c g ih =>
    show ¬ Lang (piece c :: (pattern g ++ more)) s
    by_cases star : c = '*'
    · subst star
      rintro ⟨a, b, rfl, rest⟩
      have later : '/' ∈ g := (List.mem_cons.mp slash).resolve_left (by decide)
      exact ih later (fun inside => name (List.mem_append_right a inside)) rest
    · cases s with
      | nil => exact (langChar (d := c) (s := []) star).1
      | cons d s =>
        rw [(langChar star).2]
        rintro ⟨taken, rest⟩
        rcases List.mem_cons.mp slash with rfl | later
        · exact name (taken.resolve_left (by decide) ▸ List.mem_cons_self)
        · exact ih later (fun inside => name (List.mem_cons_of_mem d inside)) rest

theorem endingSplit (star : '*' ∈ g) : ∃ h, g = h ++ '*' :: ending g := by
  have whole : g.rdropWhile (· ≠ '*') ++ ending g = g := List.rdropWhile_append_rtakeWhile
  have left : g.rdropWhile (· ≠ '*') ≠ [] := fun none =>
    absurd (List.rdropWhile_eq_nil_iff.mp none '*' star) (by decide)
  have stop := List.rdropWhile_last_not (· ≠ '*') g left
  have last : (g.rdropWhile (· ≠ '*')).getLast left = '*' := by simpa using stop
  have cut := List.dropLast_append_getLast left
  rw [last] at cut
  refine ⟨(g.rdropWhile (· ≠ '*')).dropLast, ?_⟩
  calc g = g.rdropWhile (· ≠ '*') ++ ending g := whole.symm
    _ = ((g.rdropWhile (· ≠ '*')).dropLast ++ ['*']) ++ ending g := by rw [cut]
    _ = _ := by rw [List.append_assoc, List.singleton_append]

theorem lastOther {q : Char} (other : ∃ c ∈ r, c ≠ q) :
    ∃ a c b, r = a ++ c :: b ∧ c ≠ q ∧ ∀ x ∈ b, x = q := by
  induction r with
  | nil =>
    obtain ⟨c, member, _⟩ := other
    cases member
  | cons x r ih =>
    by_cases later : ∃ c ∈ r, c ≠ q
    · obtain ⟨a, c, b, rfl, here, rest⟩ := ih later
      exact ⟨x :: a, c, b, rfl, here, rest⟩
    · have rest : ∀ c ∈ r, c = q := fun c member => not_not.mp fun ne => later ⟨c, member, ne⟩
      obtain ⟨c, member, ne⟩ := other
      rcases List.mem_cons.mp member with rfl | inside
      · exact ⟨[], c, r, rfl, ne, rest⟩
      · exact absurd (rest c inside) ne

theorem endingPlain (g : Str) : '*' ∉ ending g := by
  intro star
  exact absurd (List.mem_rtakeWhile_imp star) (by decide)

theorem openPattern (g : Str) (all : ∀ c ∈ g, c = '?') : ∀ x ∈ pattern g, x = .any := by
  intro x member
  obtain ⟨c, inside, rfl⟩ := List.mem_map.mp member
  rw [all c inside]
  rfl

theorem patternStar (h r : Str) : pattern (h ++ '*' :: r) = pattern h ++ .star :: pattern r :=
  List.map_append

theorem unsettledName (unsettled : ¬ Settled g) :
    ∃ s, FileName s ∧ Lang (pattern g ++ [.star]) s ∧ ¬ Lang (pattern g) s := by
  obtain ⟨slash, star, other⟩ : '/' ∉ g ∧ '*' ∈ g ∧ ∃ c ∈ ending g, c ≠ '?' := by
    unfold Settled at unsettled
    push Not at unsettled
    exact unsettled
  obtain ⟨h, whole⟩ := endingSplit star
  obtain ⟨a, c, b, split, any, rest⟩ := lastOther other
  have noStar : c ≠ '*' := fun same =>
    endingPlain g (split ▸ List.mem_append_right a (same ▸ List.mem_cons_self))
  obtain ⟨d, apart, word⟩ : ∃ d : Char, d ≠ c ∧ d ≠ '/' := by
    by_cases first : c = 'a'
    · exact ⟨'b', by rw [first]; decide, by decide⟩
    · exact ⟨'a', fun same => first same.symm, by decide⟩
  have shape : pattern g = pattern (h ++ '*' :: a) ++ .one c :: pattern b := by
    have one : piece c = .one c := by
      unfold piece
      rw [if_neg noStar, if_neg any]
    rw [whole, split, patternStar, patternStar, pattern, pattern, pattern, List.map_append,
      List.map_cons, one, List.append_assoc, List.cons_append, pattern]
  have failing := openFixed (h := pattern (h ++ '*' :: a)) (openPattern b rest) apart
  rw [← shape] at failing
  refine ⟨_, fun inside => ?_, failing⟩
  rcases List.mem_append.mp inside with filled | behind
  · rcases fillFrom filled with literal | same
    · obtain ⟨e, member, one⟩ := List.mem_map.mp literal
      have plain : e = '/' := by
        unfold piece at one
        split at one
        · cases one
        · split at one
          · cases one
          · exact Piece.one.inj one
      exact slash (plain ▸ member)
    · exact word same.symm
  · exact word (List.eq_of_mem_replicate behind).symm

/-- The shell asks for the pattern. find does so for every file name exactly if the pattern
leaves nothing to test behind its last star. -/
theorem matchersAgreeIff (g : Str) :
    (∀ s, globMatch g s = true ↔ Lang (pattern g) s) ∧
      ((∀ s, FileName s →
          nameMatches (some g) s = globMatch g s ∧
            (nameMatches (some g) s = true ↔ Lang (pattern g) s)) ↔
        Settled g) := by
  refine ⟨globMatchLang g, fun agree => ?_, fun settled s name => ?_⟩
  · by_contra unsettled
    obtain ⟨s, name, taken, refused⟩ := unsettledName unsettled
    have star : '*' ∈ g := by
      by_contra noStar
      exact unsettled (Or.inr (Or.inl noStar))
    have asked := nameLoopLang g s
    rw [if_pos star] at asked
    exact refused ((agree s name).2.mp (asked.mpr taken))
  · have same : nameLoop g s = true ↔ Lang (pattern g) s := by
      rw [nameLoopLang]
      by_cases star : '*' ∈ g
      · rw [if_pos star]
        rcases settled with slash | noStar | rest
        · have unmatched := slashUnmatched slash name
          exact iff_of_false (unmatched _) (by simpa using unmatched [])
        · exact absurd star noStar
        · obtain ⟨h, whole⟩ := endingSplit star
          have shape : pattern g = pattern h ++ .star :: pattern (ending g) := by
            rw [← patternStar, ← whole]
          rw [shape]
          exact openFree (openPattern _ rest)
      · rw [if_neg star]
    exact ⟨Bool.eq_iff_iff.mpr (same.trans (globMatchLang g s).symm), same⟩

/-- `find -name '*.c'` prints `a.cpp`. -/
theorem sourcePatternTakesMore :
    nameMatches (some ['*', '.', 'c']) ['a', '.', 'c', 'p', 'p'] = true ∧
      globMatch ['*', '.', 'c'] ['a', '.', 'c', 'p', 'p'] = false := by
  constructor
  · simp [nameMatches, nameLoop, tryTails, nameMatchesTail]
  · simp [globMatch]

end Scepter.Glob
