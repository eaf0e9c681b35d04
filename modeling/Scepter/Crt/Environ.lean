import Scepter.Lib.Run
import Scepter.Lib.CString
import Scepter.Lib.FirstMatch

/-! The environment of a process (crt/libc/stdlib/environ.c, clearenv of process/exec.c). The
pointer arrays lie in a heap by their addresses, with the cells of their allocation; an access
outside an allocation is a fault. Entries are strings that nothing changes once they are made. -/
namespace Scepter.Environ
open Path (Str)
open CString (NUL)
open FirstMatch

abbrev Cell := Option Str

def EINVAL : Int := 22
def ENOMEM : Int := 12

structure Env where
  heap : Nat → Option (List Cell)
  environ : Nat
  envOwn : Nat
  envCap : Nat
  /-- clearenv's static list. -/
  empty : Nat
  errno : Int

/-- What the allocator answers: an array with what is left in it, and whether there is room for
the entry. -/
structure Grants where
  copy : Option (Nat × (Nat → Cell))
  entry : Bool

def strncmp : Str → Str → Nat → Int
  | _, _, 0 => 0
  | s, t, n + 1 =>
    if s.headD NUL ≠ NUL ∧ s.headD NUL = t.headD NUL then strncmp s.tail t.tail n
    else ((s.headD NUL).toNat : Int) - (t.headD NUL).toNat

def matches' (e name : Str) : Prop := strncmp e name name.length = 0 ∧ e.getD name.length NUL = '='
instance (e name) : Decidable (matches' e name) := by unfold matches'; infer_instance

def countFrom : List Cell → Option Nat
  | [] => none
  | none :: _ => some 0
  | some _ :: rest => (countFrom rest).map (· + 1)

def envCount (s : Env) : Option Nat :=
  if s.environ = 0 then some 0 else (s.heap s.environ).bind countFrom

def slotFrom (name : Str) : List Cell → Option (Option Nat)
  | [] => none
  | none :: _ => some none
  | some e :: rest =>
    if matches' e name then some (some 0) else (slotFrom name rest).map (Option.map (· + 1))

def findSlot (s : Env) (name : Str) : Option (Option Nat) :=
  if s.environ = 0 then some none else (s.heap s.environ).bind (slotFrom name)

def getenvFrom (name : Str) : List Cell → Option (Option Str)
  | [] => none
  | none :: _ => some none
  | some e :: rest =>
    if matches' e name then some (some (e.drop (name.length + 1))) else getenvFrom name rest

def getenv (s : Env) (name : Option Str) : Option (Option Str) :=
  match name with
  | none => some none
  | some name =>
    if s.environ = 0 then some none else (s.heap s.environ).bind (getenvFrom name)

def makeEntry (name value : Str) : Str := name ++ '=' :: value

def store (cells : List Cell) (i : Nat) (c : Cell) : Option (List Cell) :=
  if i < cells.length then some (cells.set i c) else none

def copyCells (environ : List Cell) : Nat → Nat → List Cell → Option (List Cell)
  | 0, _, copy => some copy
  | k + 1, i, copy => do
    let c ← environ[i]?
    let copy ← store copy i c
    copyCells environ k (i + 1) copy

def fresh (size : Nat) (left : Nat → Cell) : List Cell := (List.range size).map left

def grown (old : List Cell) (size : Nat) (left : Nat → Cell) : List Cell :=
  old.take size ++ (fresh size left).drop old.length

def invalid (name : Str) : Prop := name = [] ∨ '=' ∈ name
instance (name) : Decidable (invalid name) := by unfold invalid; infer_instance

def ownArray (g : Grants) (s : Env) (n : Nat) : Option (Int × Env) :=
  if s.environ ≠ s.envOwn then
    match g.copy with
    | none => some (-1, {s with errno := ENOMEM})
    | some (a, left) => do
      let copy ← copyCells ((s.heap s.environ).getD []) n 0 (fresh (n + 2) left)
      let copy ← store copy n none
      some (0, {s with
        heap := Function.update s.heap a (some copy)
        envOwn := a
        envCap := n + 2
        environ := a })
  else if n + 2 > s.envCap then
    let newcap := if s.envCap ≠ 0 then s.envCap * 2 else 4
    match g.copy with
    | none => some (-1, {s with errno := ENOMEM})
    | some (a, left) =>
      let old := (s.heap s.envOwn).getD []
      some (0, {s with
        heap := Function.update (Function.update s.heap s.envOwn none) a (some (grown old newcap left))
        envOwn := a
        envCap := newcap
        environ := a })
  else some (0, s)

def setenv (g : Grants) (s : Env) (name : Option Str) (value : Str) (overwrite : Int) :
    Option (Int × Env) :=
  match name with
  | none => some (-1, {s with errno := EINVAL})
  | some name =>
    if invalid name then some (-1, {s with errno := EINVAL})
    else do
      let slot ← findSlot s name
      match slot with
      | some slot =>
        if overwrite = 0 then some (0, s)
        else if g.entry then do
          let cells ← s.heap s.environ
          let cells ← store cells slot (some (makeEntry name value))
          some (0, {s with heap := Function.update s.heap s.environ (some cells)})
        else some (-1, {s with errno := ENOMEM})
      | none => do
        let n ← envCount s
        let (r, s) ← ownArray g s n
        if r < 0 then some (-1, s)
        else if g.entry then do
          let cells ← s.heap s.envOwn
          let cells ← store cells n (some (makeEntry name value))
          let cells ← store cells (n + 1) none
          some (0, {s with heap := Function.update s.heap s.envOwn (some cells)})
        else some (-1, {s with errno := ENOMEM})

def closeUp : List Cell → Option (List Cell)
  | [] => none
  | none :: rest => some (none :: rest)
  | [some _] => none
  | some _ :: c :: rest => (closeUp (c :: rest)).map (c :: ·)

def unsetenv (s : Env) (name : Option Str) : Option (Int × Env) :=
  match name with
  | none => some (-1, {s with errno := EINVAL})
  | some name =>
    if invalid name then some (-1, {s with errno := EINVAL})
    else do
      let slot ← findSlot s name
      match slot with
      | none => some (0, s)
      | some slot => do
        let cells ← s.heap s.environ
        let rest ← closeUp (cells.drop slot)
        some (0, {s with heap := Function.update s.heap s.environ (some (cells.take slot ++ rest))})

def clearenv (s : Env) : Int × Env := (0, {s with environ := s.empty})

/-! ## Names -/

abbrev Text := {s : Str // NUL ∉ s}

structure Name where
  chars : Str
  text : NUL ∉ chars
  proper : ¬invalid chars
  deriving DecidableEq

def nameOf (name : Text) : Option Name :=
  if proper : ¬invalid name.val then some ⟨name.val, name.property, proper⟩ else none

def value (name : Name) (e : Str) : Option Str :=
  if matches' e name.chars then some (e.drop (name.chars.length + 1)) else none

theorem strncmpPrefix {e name : Str} (text : NUL ∉ name) :
    strncmp e name name.length = 0 ↔ name <+: e := by
  induction name generalizing e with
  | nil => simp [strncmp]
  | cons c name ih =>
    rw [List.mem_cons, not_or] at text
    obtain ⟨notNul, rest⟩ := text
    cases e with
    | nil =>
      have differ : (NUL.toNat : Int) - c.toNat ≠ 0 := by
        intro same
        refine notNul (Char.ext (UInt32.toNat_inj.mp ?_))
        exact Int.ofNat_inj.mp (Int.sub_eq_zero.mp same)
      simp [strncmp, differ]
    | cons d e =>
      rw [List.cons_prefix_cons]
      show (if d ≠ NUL ∧ d = c then strncmp e name name.length else (d.toNat : Int) - c.toNat) = 0 ↔ _
      by_cases same : d = c
      · rw [if_pos ⟨same.symm ▸ Ne.symm notNul, same⟩, ih rest]
        simp [same]
      · have differ : (d.toNat : Int) - c.toNat ≠ 0 := by
          intro equal
          refine same (Char.ext (UInt32.toNat_inj.mp ?_))
          exact Int.ofNat_inj.mp (Int.sub_eq_zero.mp equal)
        rw [if_neg fun both => same both.2]
        simp [differ, Ne.symm same]

theorem matchesIff {e name : Str} (text : NUL ∉ name) : matches' e name ↔ ∃ v, e = name ++ '=' :: v := by
  rw [matches', strncmpPrefix text]
  constructor
  · rintro ⟨⟨t, rfl⟩, sign⟩
    cases t with
    | nil => simp [NUL] at sign
    | cons c t =>
      have isSign : c = '=' := by simpa using sign
      exact ⟨t, by rw [isSign]⟩
  · rintro ⟨v, rfl⟩
    exact ⟨List.prefix_append _ _, by simp⟩

theorem valueIs (name : Name) (v : Str) : value name (makeEntry name.chars v) = some v := by
  have entry : matches' (makeEntry name.chars v) name.chars := (matchesIff name.text).mpr ⟨v, rfl⟩
  rw [value, if_pos entry, makeEntry]
  simp [List.drop_append]

theorem valueSome {name : Name} {e : Str} (is : (value name e).isSome) :
    ∃ v, e = name.chars ++ '=' :: v := by
  refine (matchesIff name.text).mp ?_
  by_contra other
  rw [value, if_neg other] at is
  cases is

theorem valueExclusive : Exclusive value := by
  intro j k e first second
  obtain ⟨v, rfl⟩ := valueSome first
  obtain ⟨w, same⟩ := valueSome second
  have noSign : ∀ name : Name, '=' ∉ name.chars := fun name sign => name.proper (Or.inr sign)
  have chars : j.chars = k.chars := by
    have cut := congrArg (List.takeWhile (· ≠ '=')) same
    have before : ∀ (name : Name) (v : Str), (name.chars ++ '=' :: v).takeWhile (· ≠ '=') = name.chars := by
      intro name v
      rw [List.takeWhile_append_of_pos]
      · simp
      · intro c member
        simpa using fun sign : c = '=' => noSign name (sign ▸ member)
    rwa [before, before] at cut
  cases j
  cases k
  cases chars
  rfl

theorem valueOther {name k : Name} (v : Str) (other : k ≠ name) :
    value k (makeEntry name.chars v) = none := by
  by_contra has
  exact other (valueExclusive _ _ _ (Option.ne_none_iff_isSome.mp has) (by rw [valueIs]; rfl))

/-! ## The loops over the cells -/

section Cells

variable {es : List Str} {rest : List Cell}

theorem countCells : countFrom (es.map some ++ none :: rest) = some es.length := by
  induction es with
  | nil => rfl
  | cons e es ih => simp [countFrom, ih]

theorem findSlotCells (name : Name) :
    slotFrom name.chars (es.map some ++ none :: rest) = some (slot value es name) := by
  induction es with
  | nil => rfl
  | cons e es ih =>
    rw [List.map_cons, List.cons_append, slotFrom, ih]
    by_cases found : matches' e name.chars <;> simp [found, slot, value, List.findIdx?_cons]

theorem getenvCells (name : Name) :
    getenvFrom name.chars (es.map some ++ none :: rest) = some (look value es name) := by
  induction es with
  | nil => rfl
  | cons e es ih =>
    rw [List.map_cons, List.cons_append, getenvFrom, ih]
    by_cases found : matches' e name.chars <;> simp [found, look, value]

theorem closeUpCells (e : Str) :
    closeUp (some e :: (es.map some ++ none :: rest)) = some (es.map some ++ none :: none :: rest) := by
  induction es generalizing e with
  | nil => rfl
  | cons d es ih =>
    rw [List.map_cons, List.cons_append, closeUp, ih]
    rfl

theorem closeUpAt (rest : List Cell) {i : Nat} (inside : i < es.length) :
    ∃ rest', closeUp ((es.map some ++ none :: rest).drop i) = some rest' ∧
      (es.map some ++ none :: rest).take i ++ rest' = (es.eraseIdx i).map some ++ none :: none :: rest := by
  have split : es = es.take i ++ es[i] :: es.drop (i + 1) := by
    rw [List.getElem_cons_drop, List.take_append_drop]
  have length : (es.take i).length = i := by
    rw [List.length_take]
    omega
  have back : (es.map some ++ none :: rest).drop i =
      some es[i] :: ((es.drop (i + 1)).map some ++ none :: rest) := by
    rw [List.drop_append_of_le_length (by simp; omega), ← List.map_drop, List.drop_eq_getElem_cons inside]
    rfl
  refine ⟨_, by rw [back]; exact closeUpCells _, ?_⟩
  rw [List.take_append_of_le_length (by simp; omega), ← List.map_take, List.eraseIdx_eq_take_drop_succ,
    List.map_append, List.append_assoc]

theorem copyCellsTo {environ copy : List Cell} {k i : Nat} (from' : i + k ≤ environ.length)
    (into : i + k ≤ copy.length) :
    copyCells environ k i copy = some (copy.take i ++ (environ.drop i).take k ++ copy.drop (i + k)) := by
  induction k generalizing i copy with
  | zero => simp [copyCells]
  | succ k ih =>
    have inside : i < environ.length := by omega
    have within : i < copy.length := by omega
    have stored : store copy i environ[i] = some (copy.set i environ[i]) := if_pos within
    have behind : i + 1 + k ≤ (copy.set i environ[i]).length := by
      rw [List.length_set]
      omega
    have rest := ih (by omega) behind
    have front : (copy.set i environ[i]).take (i + 1) = copy.take i ++ [environ[i]] := by
      rw [List.take_succ_eq_append_getElem (by rw [List.length_set]; exact within),
        List.take_set_of_le (Nat.le_refl i), List.getElem_set_self]
    have back : (copy.set i environ[i]).drop (i + 1 + k) = copy.drop (i + (k + 1)) := by
      rw [List.drop_set_of_lt (by omega)]
      congr 1
      omega
    rw [copyCells, List.getElem?_eq_getElem inside, Option.bind_eq_bind, Option.bind_some, stored,
      Option.bind_eq_bind, Option.bind_some, rest, front, back, List.drop_eq_getElem_cons inside, List.take_succ_cons]
    simp

end Cells

/-! ## The array of the environment -/

structure Held (s : Env) (es : List Str) : Prop where
  nonNull : s.environ ≠ 0
  null : s.heap 0 = none
  cells : ∃ rest, s.heap s.environ = some (es.map some ++ none :: rest)
  cap : s.environ = s.envOwn → ∀ cells, s.heap s.envOwn = some cells → cells.length = s.envCap
  static : s.heap s.empty = some [none]
  apart : s.empty ≠ s.envOwn

def Granted (g : Grants) (s : Env) : Prop :=
  ∀ a left, g.copy = some (a, left) →
    a ≠ 0 ∧ (s.heap a = none ∨ s.environ = s.envOwn ∧ a = s.envOwn)

variable {s t : Env} {es es' : List Str} {g : Grants}

theorem Held.withErrno (held : Held s es) (e : Int) : Held {s with errno := e} es :=
  ⟨held.nonNull, held.null, held.cells, held.cap, held.static, held.apart⟩

theorem Held.notStatic (held : Held s es) (some' : es ≠ []) : s.environ ≠ s.empty := by
  intro same
  obtain ⟨rest, cells⟩ := held.cells
  rw [same, held.static] at cells
  cases es with
  | nil => exact some' rfl
  | cons e es => cases cells

theorem Held.write (held : Held s es) (notStatic : s.environ ≠ s.empty) {rest rest' : List Cell}
    (was : s.heap s.environ = some (es.map some ++ none :: rest))
    (length : (es'.map some ++ none :: rest').length = (es.map some ++ none :: rest).length) :
    Held {s with heap := Function.update s.heap s.environ (some (es'.map some ++ none :: rest'))} es' := by
  refine ⟨held.nonNull, ?_, ⟨rest', Function.update_self _ _ _⟩, ?_, ?_, held.apart⟩
  · exact (Function.update_of_ne held.nonNull.symm _ _).trans held.null
  · intro own cells same
    dsimp only at own same ⊢
    rw [← own, Function.update_self] at same
    cases same
    rw [length]
    exact held.cap own _ (own ▸ was)
  · exact (Function.update_of_ne notStatic.symm _ _).trans held.static

theorem freshLength (size : Nat) (left : Nat → Cell) : (fresh size left).length = size := by
  simp [fresh]

theorem freshDrop (n : Nat) (left : Nat → Cell) : (fresh (n + 2) left).drop n = [left n, left (n + 1)] := by
  rw [fresh, List.range_succ, List.range_succ]
  simp

theorem grownMore {old : List Cell} {size : Nat} (left : Nat → Cell) (more : old.length < size) :
    ∃ c rest, grown old size left = old ++ c :: rest ∧ (old ++ c :: rest).length = size := by
  have behind : ((fresh size left).drop old.length).length = size - old.length := by
    rw [List.length_drop, freshLength]
  cases rest : (fresh size left).drop old.length with
  | nil =>
    rw [rest, List.length_nil] at behind
    omega
  | cons c rest' =>
    rw [rest] at behind
    refine ⟨c, rest', ?_, ?_⟩
    · rw [grown, rest, List.take_of_length_le (Nat.le_of_lt more)]
    · rw [List.length_append, behind]
      omega

theorem Held.move (held : Held s es) {a : Nat} {left : Nat → Cell} (granted : Granted g s)
    (given : g.copy = some (a, left)) {heap : Nat → Option (List Cell)}
    (kept : ∀ b, b ≠ a → b ≠ s.envOwn → heap b = s.heap b) (null : heap 0 = none) {rest : List Cell}
    (cells : heap a = some (es.map some ++ none :: rest)) {cap : Nat}
    (length : (es.map some ++ none :: rest).length = cap) :
    Held {s with heap := heap, envOwn := a, envCap := cap, environ := a} es := by
  obtain ⟨nonNull, place⟩ := granted a left given
  have apart : s.empty ≠ a := by
    intro same
    rcases place with free | ⟨_, own⟩
    · rw [← same, held.static] at free
      cases free
    · exact held.apart (same.trans own)
  refine ⟨nonNull, null, ⟨rest, cells⟩, ?_, ?_, apart⟩
  · intro _ found same
    dsimp only at same ⊢
    rw [cells] at same
    cases same
    exact length
  · exact (kept _ apart held.apart).trans held.static

theorem ownArraySpec (held : Held s es) (granted : Granted g s) :
    ∃ r t, ownArray g s es.length = some (r, t) ∧ Held t es ∧
      (r = 0 ∧ t.environ = t.envOwn ∧
          (∃ c rest, t.heap t.environ = some (es.map some ++ none :: c :: rest)) ∨
        r = -1 ∧ g.copy = none) := by
  obtain ⟨rest, cells⟩ := held.cells
  unfold ownArray
  by_cases own : s.environ = s.envOwn
  · have length := held.cap own _ (own ▸ cells)
    rw [List.length_append, List.length_map, List.length_cons] at length
    rw [if_neg (not_not.mpr own)]
    by_cases full : es.length + 2 > s.envCap
    · rw [if_pos full]
      cases given : g.copy with
      | none => exact ⟨-1, _, rfl, held.withErrno _, Or.inr ⟨rfl, rfl⟩⟩
      | some place =>
        obtain ⟨a, left⟩ := place
        obtain rfl : rest = [] := List.eq_nil_of_length_eq_zero (by omega)
        rw [List.length_nil] at length
        have double : (if s.envCap ≠ 0 then s.envCap * 2 else 4) = s.envCap * 2 := if_pos (by omega)
        have room : (es.map some ++ [none]).length < s.envCap * 2 := by
          rw [List.length_append, List.length_map, List.length_singleton]
          omega
        obtain ⟨c, more, grew, size⟩ := grownMore left room
        rw [List.append_assoc, List.singleton_append] at grew size
        have old : (s.heap s.envOwn).getD [] = es.map some ++ [none] := by
          rw [← own, cells, Option.getD_some]
        have nonNull := (granted a left given).1
        refine ⟨0, _, rfl, ?_, Or.inl ⟨rfl, rfl, c, more, ?_⟩⟩
        · rw [double, old, grew]
          refine held.move granted given ?_ ?_ (Function.update_self _ _ _) size
          · intro b notNew notOwn
            rw [Function.update_of_ne notNew, Function.update_of_ne notOwn]
          · rw [Function.update_of_ne nonNull.symm]
            by_cases zero : 0 = s.envOwn
            · rw [← zero, Function.update_self]
            · rw [Function.update_of_ne zero, held.null]
        · dsimp only
          rw [double, old, grew, Function.update_self]
    · rw [if_neg full]
      cases rest with
      | nil =>
        rw [List.length_nil] at length
        omega
      | cons c rest => exact ⟨0, s, rfl, held, Or.inl ⟨rfl, own, c, rest, cells⟩⟩
  · rw [if_pos own]
    cases given : g.copy with
    | none => exact ⟨-1, _, rfl, held.withErrno _, Or.inr ⟨rfl, rfl⟩⟩
    | some place =>
      obtain ⟨a, left⟩ := place
      have nonNull := (granted a left given).1
      have copied : copyCells ((s.heap s.environ).getD []) es.length 0 (fresh (es.length + 2) left) =
          some (es.map some ++ [left es.length, left (es.length + 1)]) := by
        rw [cells, Option.getD_some, copyCellsTo (by simp) (by simp [freshLength]), Nat.zero_add,
          freshDrop]
        simp
      have stored : store (es.map some ++ [left es.length, left (es.length + 1)]) es.length none =
          some (es.map some ++ none :: left (es.length + 1) :: []) := by
        rw [store, if_pos (by simp)]
        simp
      refine ⟨0, {s with
        heap := Function.update s.heap a (some (es.map some ++ none :: left (es.length + 1) :: []))
        envOwn := a
        envCap := es.length + 2
        environ := a }, ?_, ?_, Or.inl ⟨rfl, rfl, left (es.length + 1), [], Function.update_self _ _ _⟩⟩
      · dsimp only
        rw [copied, Option.bind_eq_bind, Option.bind_some, stored]
        rfl
      · refine held.move granted given ?_ ?_ (Function.update_self _ _ _) (by simp)
        · intro b notNew _
          exact Function.update_of_ne notNew _ _
        · exact (Function.update_of_ne nonNull.symm _ _).trans held.null

/-! ## The calls -/

theorem Held.count (held : Held s es) : envCount s = some es.length := by
  obtain ⟨rest, cells⟩ := held.cells
  rw [envCount, if_neg held.nonNull, cells]
  exact countCells

theorem Held.find (held : Held s es) (name : Name) :
    findSlot s name.chars = some (slot value es name) := by
  obtain ⟨rest, cells⟩ := held.cells
  rw [findSlot, if_neg held.nonNull, cells]
  exact findSlotCells name

theorem getenvSpec (held : Held s es) (name : Name) :
    getenv s (some name.chars) = some (look value es name) := by
  obtain ⟨rest, cells⟩ := held.cells
  rw [getenv, if_neg held.nonNull, cells]
  exact getenvCells name

theorem slotInside {name : Name} {i : Nat} (found : slot value es name = some i) : i < es.length := by
  obtain ⟨before, e, after, v, rfl, rfl, _⟩ := slotSplit found
  simp

def setLook (es : List Str) (name : Name) (v : Str) (overwrite : Int) (k : Name) : Option Str :=
  if k = name ∧ ¬(overwrite = 0 ∧ (look value es name).isSome) then some v else look value es k

theorem setenvSpec (held : Held s es) (granted : Granted g s) (name : Name) (v : Str) (overwrite : Int) :
    ∃ r t es', setenv g s (some name.chars) v overwrite = some (r, t) ∧ Held t es' ∧
      (r = 0 ∧ look value es' = setLook es name v overwrite ∨
        r = -1 ∧ es' = es ∧ (g.copy = none ∨ g.entry = false)) := by
  obtain ⟨rest, cells⟩ := held.cells
  rw [setenv, if_neg name.proper, held.find name, Option.bind_eq_bind, Option.bind_some]
  cases found : slot value es name with
  | some i =>
    have present := lookSlot found
    have inside := slotInside found
    dsimp only
    by_cases keep : overwrite = 0
    · refine ⟨0, s, es, if_pos keep, held, Or.inl ⟨rfl, ?_⟩⟩
      funext k
      rw [setLook, if_neg fun change => change.2 ⟨keep, present⟩]
    · rw [if_neg keep]
      by_cases entry : g.entry = true
      · have stored : store (es.map some ++ none :: rest) i (some (makeEntry name.chars v)) =
            some ((es.set i (makeEntry name.chars v)).map some ++ none :: rest) := by
          rw [store, if_pos (by simp; omega), List.set_append_left _ _ (by simpa using inside),
            List.map_set]
        have notEmpty : es ≠ [] := by
          rintro rfl
          exact Nat.not_lt_zero i inside
        have length : ((es.set i (makeEntry name.chars v)).map some ++ none :: rest).length =
            (es.map some ++ none :: rest).length := by simp
        refine ⟨0, _, es.set i (makeEntry name.chars v), ?_,
          held.write (held.notStatic notEmpty) cells length, Or.inl ⟨rfl, ?_⟩⟩
        · rw [if_pos entry, cells, Option.bind_eq_bind, Option.bind_some, stored]
          rfl
        · funext k
          rw [lookSet valueExclusive found (valueIs name v), setLook]
          simp [keep]
      · refine ⟨-1, _, es, if_neg entry, held.withErrno _, Or.inr ⟨rfl, rfl, Or.inr ?_⟩⟩
        simpa using entry
  | none =>
    have absent : look value es name = none := lookNone.mpr (slotNone.mp found)
    obtain ⟨r, t, ran, held', outcome⟩ := ownArraySpec held granted
    dsimp only
    rw [held.count, Option.bind_eq_bind, Option.bind_some, ran, Option.bind_eq_bind, Option.bind_some]
    dsimp only
    rcases outcome with ⟨rfl, own, c, more, there⟩ | ⟨rfl, refused⟩
    · rw [if_neg (by decide)]
      by_cases entry : g.entry = true
      · have first : store (es.map some ++ none :: c :: more) es.length
            (some (makeEntry name.chars v)) =
            some (es.map some ++ some (makeEntry name.chars v) :: c :: more) := by
          rw [store, if_pos (by simp)]
          simp
        have second : store (es.map some ++ some (makeEntry name.chars v) :: c :: more) (es.length + 1)
            none = some ((es ++ [makeEntry name.chars v]).map some ++ none :: more) := by
          rw [store, if_pos (by simp)]
          simp
        have notStatic : t.environ ≠ t.empty := fun same => held'.apart (same.symm.trans own)
        have length : ((es ++ [makeEntry name.chars v]).map some ++ none :: more).length =
            (es.map some ++ none :: c :: more).length := by
          simp
        refine ⟨0, _, es ++ [makeEntry name.chars v], ?_,
          held'.write notStatic there length, Or.inl ⟨rfl, ?_⟩⟩
        · rw [if_pos entry, ← own, there, Option.bind_eq_bind, Option.bind_some, first,
            Option.bind_some, second]
          rfl
        · funext k
          rw [lookAppend, setLook]
          by_cases same : k = name
          · rw [same, absent, valueIs name v]
            simp
          · rw [valueOther v same, if_neg fun both => same both.1, Option.or_none]
      · refine ⟨-1, _, es, if_neg entry, held'.withErrno _, Or.inr ⟨rfl, rfl, Or.inr ?_⟩⟩
        simpa using entry
    · exact ⟨-1, t, es, if_pos (by decide), held', Or.inr ⟨rfl, rfl, Or.inl refused⟩⟩

theorem unsetenvSpec (held : Held s es) (name : Name) :
    ∃ t es', unsetenv s (some name.chars) = some (0, t) ∧ Held t es' ∧
      (∀ k, k ≠ name → look value es' k = look value es k) ∧
      (look value es' name = none ↔ FirstMatch.held value es name ≤ 1) := by
  obtain ⟨rest, cells⟩ := held.cells
  rw [unsetenv, if_neg name.proper, held.find name, Option.bind_eq_bind, Option.bind_some]
  cases found : slot value es name with
  | some i =>
    have inside := slotInside found
    have notEmpty : es ≠ [] := by
      rintro rfl
      exact Nat.not_lt_zero i inside
    have length : ((es.eraseIdx i).map some ++ none :: none :: rest).length =
        (es.map some ++ none :: rest).length := by
      have shorter := List.length_eraseIdx_of_lt inside
      simp only [List.length_append, List.length_map, List.length_cons]
      omega
    obtain ⟨rest', closed, joined⟩ := closeUpAt rest inside
    refine ⟨_, es.eraseIdx i, ?_, held.write (held.notStatic notEmpty) cells length,
      fun k other => lookErase valueExclusive found other, lookEraseSelf found⟩
    dsimp only
    rw [cells, Option.bind_eq_bind, Option.bind_some, closed, ← joined]
    rfl
  | none =>
    have absent := slotNone.mp found
    refine ⟨s, es, rfl, held, fun _ _ => rfl, ?_⟩
    have zero : FirstMatch.held value es name = 0 := by
      rw [FirstMatch.held, List.countP_eq_zero]
      intro e member
      simp [absent e member]
    rw [lookNone, zero]
    exact ⟨fun _ => Nat.zero_le 1, fun _ => absent⟩

theorem Held.cleared (held : Held s es) : Held (clearenv s).2 [] := by
  have nonNull : s.empty ≠ 0 := by
    intro zero
    have static := held.static
    rw [zero, held.null] at static
    cases static
  exact ⟨nonNull, held.null, ⟨[], held.static⟩, fun own => absurd own held.apart, held.static, held.apart⟩

/-! ## Runs -/

inductive Call
  | getenv (name : Option Text)
  | setenv (g : Grants) (name : Option Text) (value : Text) (overwrite : Int)
  | unsetenv (name : Option Text)
  | clearenv

inductive Answer
  | text (value : Option Str)
  | code (r : Int)

def perform (s : Env) : Call → Option (Answer × Env)
  | .getenv name => (getenv s (name.map Subtype.val)).map fun value => (.text value, s)
  | .setenv g name value overwrite =>
    (setenv g s (name.map Subtype.val) value.val overwrite).map fun (r, t) => (.code r, t)
  | .unsetenv name => (unsetenv s (name.map Subtype.val)).map fun (r, t) => (.code r, t)
  | .clearenv => some (.code (clearenv s).1, (clearenv s).2)

abbrev Map := Name → Option Str

def Map.after (map : Map) : Call → Answer → Map
  | .setenv _ name value overwrite, .code r =>
    match name.bind nameOf with
    | some key =>
      if r = 0 ∧ ¬(overwrite = 0 ∧ (map key).isSome) then Function.update map key (some value.val)
      else map
    | none => map
  | .unsetenv name, .code _ =>
    match name.bind nameOf with
    | some key => Function.update map key none
    | none => map
  | .clearenv, _ => fun _ => none
  | _, _ => map

def Answers (map : Map) : Call → Answer → Prop
  | .getenv none, .text found => found = none
  | .getenv (some name), .text found => ∀ key, nameOf name = some key → found = map key
  | .setenv g name _ _, .code r =>
    r = 0 ∧ (name.bind nameOf).isSome ∨
      r = -1 ∧ (name.bind nameOf = none ∨ g.copy = none ∨ g.entry = false)
  | .unsetenv name, .code r =>
    r = 0 ∧ (name.bind nameOf).isSome ∨ r = -1 ∧ name.bind nameOf = none
  | .clearenv, .code r => r = 0
  | _, _ => False

def step (s : Env × Map) (c : Call) : Option (Env × Map) :=
  (perform s.1 c).map fun (answer, t) => (t, s.2.after c answer)

def Env.entries (s : Env) : List Str :=
  (((s.heap s.environ).getD []).takeWhile Option.isSome).filterMap id

def Allocates (s : Env) : Call → Prop
  | .setenv g _ _ _ => Granted g s
  | _ => True

def Once (s : Env) : Call → Prop
  | .unsetenv (some name) =>
    ∀ key, nameOf name = some key → FirstMatch.held value s.entries key ≤ 1
  | _ => True

structure Started (s : Env) (envp : List Str) : Prop where
  nonNull : s.environ ≠ 0
  null : s.heap 0 = none
  cells : ∃ rest, s.heap s.environ = some (envp.map some ++ none :: rest)
  own : s.envOwn = 0
  static : s.heap s.empty = some [none]

structure Behaves (s : Env) (map : Map) : Prop where
  /-- The array ends with a NULL inside its allocation. -/
  terminated : ∃ (cells : List Cell) (n : Nat), s.heap s.environ = some cells ∧
    cells[n]? = some none ∧ ∀ i < n, ∃ e, cells[i]? = some (some e)
  gets : ∀ name : Name, getenv s (some name.chars) = some (map name)
  performs : ∀ c, Allocates s c → ∃ answer t, perform s c = some (answer, t) ∧ Answers map c answer
  /-- A name is gone exactly where it was there once at most. -/
  unset : ∀ (name : Name) (t : Env), unsetenv s (some name.chars) = some (0, t) →
    (getenv t (some name.chars) = some none ↔ FirstMatch.held value s.entries name ≤ 1)

theorem Started.held {envp : List Str} (started : Started s envp) : Held s envp := by
  refine ⟨started.nonNull, started.null, started.cells, ?_, started.static, ?_⟩
  · intro own
    exact absurd (own.trans started.own) started.nonNull
  · intro same
    have static := started.static
    rw [same, started.own, started.null] at static
    cases static

theorem Held.entries (held : Held s es) : s.entries = es := by
  obtain ⟨rest, cells⟩ := held.cells
  rw [Env.entries, cells, Option.getD_some, List.takeWhile_append_of_pos]
  · simp [List.filterMap_map]
  · intro c member
    obtain ⟨e, _, rfl⟩ := List.mem_map.mp member
    rfl

theorem nameOfSome {name : Text} {key : Name} (is : nameOf name = some key) : name.val = key.chars := by
  unfold nameOf at is
  split at is
  · cases is
    rfl
  · cases is

theorem nameOfNone {name : Text} (is : nameOf name = none) : invalid name.val := by
  unfold nameOf at is
  split at is
  · cases is
  · exact not_not.mp ‹_›

theorem setenvInvalid {name : Text} (is : nameOf name = none) (v : Str) (overwrite : Int) :
    setenv g s (some name.val) v overwrite = some (-1, {s with errno := EINVAL}) := by
  rw [setenv, if_pos (nameOfNone is)]

theorem unsetenvInvalid {name : Text} (is : nameOf name = none) :
    unsetenv s (some name.val) = some (-1, {s with errno := EINVAL}) := by
  rw [unsetenv, if_pos (nameOfNone is)]

theorem stepHeld {s t : Env × Map} {c : Call} (held : Held s.1 es) (agrees : s.2 = look value es)
    (allocates : Allocates s.1 c) (once : Once s.1 c) (taken : step s c = some t) :
    ∃ es', Held t.1 es' ∧ t.2 = look value es' := by
  obtain ⟨⟨answer, u⟩, performed, rfl⟩ := Option.map_eq_some_iff.mp taken
  cases c with
  | getenv name =>
    obtain ⟨found, _, same⟩ := Option.map_eq_some_iff.mp performed
    cases same
    exact ⟨es, held, agrees⟩
  | clearenv =>
    cases performed
    exact ⟨[], held.cleared, rfl⟩
  | setenv g name v overwrite =>
    obtain ⟨⟨r, t⟩, ran, same⟩ := Option.map_eq_some_iff.mp performed
    cases same
    cases name with
    | none =>
      cases ran
      exact ⟨es, held.withErrno _, agrees⟩
    | some name =>
      cases is : nameOf name with
      | none =>
        rw [Option.map_some, setenvInvalid is] at ran
        cases ran
        refine ⟨es, held.withErrno _, ?_⟩
        simp [Map.after, is, agrees]
      | some key =>
        obtain ⟨r', t', es', ran', held', outcome⟩ := setenvSpec held allocates key v.val overwrite
        rw [Option.map_some, nameOfSome is, ran'] at ran
        cases ran
        refine ⟨es', held', ?_⟩
        rcases outcome with ⟨rfl, looks⟩ | ⟨rfl, rfl, _⟩
        · rw [looks]
          funext k
          simp only [Map.after, Option.bind_some, is, agrees, setLook, true_and]
          by_cases keep : overwrite = 0 ∧ (look value es key).isSome
          · rw [if_neg (not_not.mpr keep), if_neg fun both => both.2 keep]
          · rw [if_pos keep, Function.update_apply]
            simp [keep]
        · simp [Map.after, is, agrees]
  | unsetenv name =>
    obtain ⟨⟨r, t⟩, ran, same⟩ := Option.map_eq_some_iff.mp performed
    cases same
    cases name with
    | none =>
      cases ran
      exact ⟨es, held.withErrno _, agrees⟩
    | some name =>
      cases is : nameOf name with
      | none =>
        rw [Option.map_some, unsetenvInvalid is] at ran
        cases ran
        refine ⟨es, held.withErrno _, ?_⟩
        simp [Map.after, is, agrees]
      | some key =>
        obtain ⟨t', es', ran', held', others, gone⟩ := unsetenvSpec held key
        rw [Option.map_some, nameOfSome is, ran'] at ran
        cases ran
        refine ⟨es', held', ?_⟩
        have few := once key is
        rw [held.entries] at few
        funext k
        simp only [Map.after, Option.bind_some, is, agrees, Function.update_apply]
        by_cases same : k = key
        · rw [if_pos same, same, gone.mpr few]
        · rw [if_neg same, others k same]

theorem Held.terminated (held : Held s es) :
    ∃ (cells : List Cell) (n : Nat), s.heap s.environ = some cells ∧ cells[n]? = some none ∧
      ∀ i < n, ∃ e, cells[i]? = some (some e) := by
  obtain ⟨rest, cells⟩ := held.cells
  refine ⟨_, es.length, cells, ?_, ?_⟩
  · rw [List.getElem?_append_right (by simp)]
    simp
  · intro i inside
    rw [List.getElem?_append_left (by simpa using inside), List.getElem?_map]
    exact ⟨es[i], by rw [List.getElem?_eq_getElem inside]; rfl⟩

theorem getenvAnswers (held : Held s es) (name : Str) : ∃ found, getenv s (some name) = some found := by
  obtain ⟨rest, cells⟩ := held.cells
  rw [getenv, if_neg held.nonNull, cells, Option.bind_some]
  clear cells held
  induction es with
  | nil => exact ⟨none, rfl⟩
  | cons e es ih =>
    rw [List.map_cons, List.cons_append, getenvFrom]
    split
    · exact ⟨_, rfl⟩
    · exact ih

theorem Held.performs (held : Held s es) (c : Call) (allocates : Allocates s c) :
    ∃ answer t, perform s c = some (answer, t) ∧ Answers (look value es) c answer := by
  cases c with
  | clearenv => exact ⟨_, _, rfl, rfl⟩
  | getenv name =>
    cases name with
    | none => exact ⟨_, _, rfl, rfl⟩
    | some name =>
      obtain ⟨found, ran⟩ := getenvAnswers held name.val
      refine ⟨_, _, congrArg (Option.map _) ran, ?_⟩
      intro key is
      rw [nameOfSome is, getenvSpec held key] at ran
      exact (Option.some.inj ran).symm
  | setenv g name v overwrite =>
    cases name with
    | none => exact ⟨_, _, rfl, Or.inr ⟨rfl, Or.inl rfl⟩⟩
    | some name =>
      cases is : nameOf name with
      | none =>
        refine ⟨_, _, congrArg (Option.map _) (setenvInvalid is v.val overwrite), Or.inr ⟨rfl, Or.inl is⟩⟩
      | some key =>
        obtain ⟨r, t, es', ran, _, outcome⟩ := setenvSpec held allocates key v.val overwrite
        rw [← nameOfSome is] at ran
        refine ⟨_, _, congrArg (Option.map _) ran, ?_⟩
        rcases outcome with ⟨rfl, _⟩ | ⟨rfl, _, refused⟩
        · exact Or.inl ⟨rfl, by rw [Option.bind_some, is]; rfl⟩
        · exact Or.inr ⟨rfl, Or.inr refused⟩
  | unsetenv name =>
    cases name with
    | none => exact ⟨_, _, rfl, Or.inr ⟨rfl, rfl⟩⟩
    | some name =>
      cases is : nameOf name with
      | none => exact ⟨_, _, congrArg (Option.map _) (unsetenvInvalid is), Or.inr ⟨rfl, is⟩⟩
      | some key =>
        obtain ⟨t, es', ran, _⟩ := unsetenvSpec held key
        rw [← nameOfSome is] at ran
        exact ⟨_, _, congrArg (Option.map _) ran, Or.inl ⟨rfl, by rw [Option.bind_some, is]; rfl⟩⟩

theorem heldBehaves (held : Held s es) : Behaves s (look value es) := by
  refine ⟨held.terminated, getenvSpec held, held.performs, ?_⟩
  intro name t ran
  obtain ⟨t', es', ran', held', _, gone⟩ := unsetenvSpec held name
  rw [ran'] at ran
  cases ran
  rw [getenvSpec held' name, held.entries, ← gone, Option.some_inj]

/-- In every run from exec in which unsetenv is called for names that are there once at most, the
environment behaves as a map. -/
theorem environIsMap {s : Env} {envp : List Str} {calls : List Call} {t : Env × Map}
    (started : Started s envp)
    (meets : Run.Meets step (fun u c => Allocates u.1 c ∧ Once u.1 c) (s, look value envp) calls)
    (ran : Run.run step (s, look value envp) calls = some t) : Behaves t.1 t.2 := by
  obtain ⟨es, held, agrees⟩ := Run.invariantMeets
    (P := fun u : Env × Map => ∃ es, Held u.1 es ∧ u.2 = look value es)
    (fun u c v ⟨es, held, agrees⟩ meets taken => stepHeld held agrees meets.1 meets.2 taken)
    ⟨envp, started.held, rfl⟩ meets ran
  rw [agrees]
  exact heldBehaves held

def onStack (envp : List Str) : Env :=
  { heap := fun a => if a = 8 then some (envp.map some ++ [none]) else if a = 4 then some [none] else none
    environ := 8
    envOwn := 0
    envCap := 0
    empty := 4
    errno := 0 }

theorem onStackStarted (envp : List Str) : Started (onStack envp) envp :=
  ⟨Nat.succ_ne_zero 7, rfl, ⟨[], rfl⟩, rfl, rfl⟩

def nameA : Text := ⟨['A'], by decide⟩

/-- Of two entries of one name unsetenv removes the first only. -/
theorem secondLeft :
    ¬∀ (s : Env) (envp : List Str) (name : Text) (t : Env × Map), Started s envp →
      step (s, look value envp) (.unsetenv (some name)) = some t →
        getenv t.1 (some name.val) = some none := by
  intro right
  have left : (step (onStack [['A', '=', '1'], ['A', '=', '2']], fun _ => none)
      (.unsetenv (some nameA))).bind (fun t => getenv t.1 (some ['A'])) = some (some ['2']) := rfl
  obtain ⟨t, taken, found⟩ := Option.bind_eq_some_iff.mp left
  obtain ⟨⟨answer, u⟩, performed, rfl⟩ := Option.map_eq_some_iff.mp taken
  have gone := right _ _ nameA _ (onStackStarted _) (Option.map_eq_some_iff.mpr ⟨_, performed, rfl⟩)
  exact absurd (found.symm.trans gone) (by decide)

theorem environIsMapUnset :
    ∃ t, Run.run step (onStack [['A', '=', '1'], ['B', '=', '2']],
        look value [['A', '=', '1'], ['B', '=', '2']]) [.unsetenv (some nameA)] = some t ∧
      Behaves t.1 t.2 := by
  obtain ⟨t, ran⟩ : ∃ t, Run.run step (onStack [['A', '=', '1'], ['B', '=', '2']],
      look value [['A', '=', '1'], ['B', '=', '2']]) [.unsetenv (some nameA)] = some t :=
    Option.isSome_iff_exists.mp rfl
  have meets : Run.Meets step (fun u c => Allocates u.1 c ∧ Once u.1 c)
      (onStack [['A', '=', '1'], ['B', '=', '2']], look value [['A', '=', '1'], ['B', '=', '2']])
      [.unsetenv (some nameA)] := by
    refine ⟨⟨trivial, ?_⟩, fun _ _ => trivial⟩
    intro key is
    obtain ⟨chars, text, proper⟩ := key
    cases nameOfSome is
    have few : FirstMatch.held value (onStack [['A', '=', '1'], ['B', '=', '2']]).entries
        ⟨['A'], by decide, by decide⟩ ≤ 1 := by decide
    exact few
  exact ⟨t, ran, environIsMap (onStackStarted _) meets ran⟩

end Scepter.Environ
