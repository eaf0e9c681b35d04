import Scepter.Crt.Sh.Tokens
import Mathlib.Data.List.TakeWhile

/-! The shell's command lines (find_conditional, run_segment and run_line in
crt/coreutil/sh.c): how they are cut at ;, && and || in their own buffer, and what a line
means. How the `k`th command ends comes with the line; a piece with no word runs none.
run_subsegment writes into its own piece only, which is not read again. -/
namespace Scepter.Sh
open Path (Str)
open CString (Mem NUL Holds)

inductive Op where
  | and | or
  deriving DecidableEq

structure Found where
  op : Option (Op × Nat)
  -- the addresses that are read
  reads : List Nat

def Found.reading (f : Found) (ps : List Nat) : Found := {f with reads := ps ++ f.reads}

def findConditional (m : Mem) : Nat → Nat → Quote → Found
  | 0, _, _ => ⟨none, []⟩
  | fuel + 1, p, quote =>
    if m p = NUL then ⟨none, [p]⟩
    else if m p = '\'' ∧ quote ≠ .double then
      (findConditional m fuel (p + 1) (if quote = .none then .single else .none)).reading [p]
    else if m p = '"' ∧ quote ≠ .single then
      (findConditional m fuel (p + 1) (if quote = .none then .double else .none)).reading [p]
    else if m p = '\\' ∧ quote ≠ .single then (findConditional m fuel (p + 2) quote).reading [p]
    else
      let looked := if quote = .none ∧ (m p = '&' ∨ m p = '|') then [p, p + 1] else [p]
      if quote = .none ∧ m p = '&' ∧ m (p + 1) = '&' then ⟨some (.and, p), looked⟩
      else if quote = .none ∧ m p = '|' ∧ m (p + 1) = '|' then ⟨some (.or, p), looked⟩
      else (findConditional m fuel (p + 1) quote).reading looked

def strchr (m : Mem) (c : Char) : Nat → Nat → Option Nat
  | 0, _ => none
  | fuel + 1, p => if m p = c then some p else if m p = NUL then none else strchr m c fuel (p + 1)

/-- What came of a line so far: the status, the number of commands that ran, each piece with
whether it was run, and the addresses that find_conditional read. -/
structure Lines where
  m : Mem
  status : Int
  count : Nat
  trace : List (Str × Bool)
  reads : List Nat

def isCommand (text : Str) : Bool := tokenize text MAX_WORDS ≠ []

def Lines.piece (statuses : Nat → Int) (l : Lines) (text : Str) (runNext : Bool) : Lines :=
  let l := {l with trace := l.trace ++ [(text, runNext)]}
  if !runNext then l
  else if isCommand text then {l with status := statuses l.count, count := l.count + 1}
  else {l with status := 0}

def Op.goesOn (op : Op) (status : Int) : Bool :=
  match op with
  | .and => status = 0
  | .or => status ≠ 0

def cut (m : Mem) : Option Nat → Mem
  | none => m
  | some p => Function.update m p NUL

def segmentLoop (statuses : Nat → Int) (size : Nat) : Nat → Nat → Bool → Lines → Lines
  | 0, _, _, l => l
  | fuel + 1, p, runNext, l =>
    let f := findConditional l.m size p .none
    let l := {l with m := cut l.m (f.op.map Prod.snd), reads := l.reads ++ f.reads}
    let l := l.piece statuses (CString.read l.m size p) runNext
    match f.op with
    | none => l
    | some (op, at') => segmentLoop statuses size fuel (at' + 2) (op.goesOn l.status) l

def runSegment (statuses : Nat → Int) (size p : Nat) (l : Lines) : Lines :=
  segmentLoop statuses size size p true {l with status := 0}

def lineLoop (statuses : Nat → Int) (size : Nat) : Nat → Nat → Lines → Lines
  | 0, _, l => l
  | fuel + 1, p, l =>
    let semi := strchr l.m ';' size p
    let l := runSegment statuses size p {l with m := cut l.m semi}
    match semi with
    | none => l
    | some semi => lineLoop statuses size fuel (semi + 1) l

def runLine (statuses : Nat → Int) (m : Mem) (length : Nat) (old : Int) : Lines :=
  lineLoop statuses (length + 2) (length + 2) 0 ⟨m, old, 0, [], []⟩

/-! ## What a line means -/

inductive Mode where
  | plain | single | double | escape | escapeDouble
  deriving DecidableEq

def Mode.step : Mode → Char → Mode
  | .plain, c => if c = '\'' then .single else if c = '"' then .double
    else if c = '\\' then .escape else .plain
  | .single, c => if c = '\'' then .plain else .single
  | .double, c => if c = '"' then .plain else if c = '\\' then .escapeDouble else .double
  | .escape, _ => .plain
  | .escapeDouble, _ => .double

def Mode.after (mode : Mode) (text : Str) : Mode := text.foldl Mode.step mode

inductive Sep where
  | line
  | semi
  | op (op : Op)

structure Piece where
  text : Str
  sep : Sep

def Piece.cons (c : Char) : List Piece → List Piece
  | [] => []
  | p :: rest => ⟨c :: p.text, p.sep⟩ :: rest

def piecesFrom : Mode → Str → List Piece
  | _, [] => [⟨[], .line⟩]
  | .plain, ';' :: rest => ⟨[], .semi⟩ :: piecesFrom .plain rest
  | .plain, '&' :: '&' :: rest => ⟨[], .op .and⟩ :: piecesFrom .plain rest
  | .plain, '|' :: '|' :: rest => ⟨[], .op .or⟩ :: piecesFrom .plain rest
  | mode, c :: rest => Piece.cons c (piecesFrom (mode.step c) rest)

def pieces (line : Str) : List Piece := piecesFrom .plain line

/-- `last` is the status of the last command that ran; `status` is what && and || look at. -/
structure Meaning where
  status : Int
  last : Int
  count : Nat
  trace : List (Str × Bool)

def blank (text : Str) : Bool := text.all isBlank

def Meaning.piece (statuses : Nat → Int) (e : Meaning) (text : Str) (runNext : Bool) : Meaning :=
  let e := {e with trace := e.trace ++ [(text, runNext)]}
  if !runNext then e
  else if blank text then {e with status := 0}
  else {e with status := statuses e.count, last := statuses e.count, count := e.count + 1}

def meaningFrom (statuses : Nat → Int) : Bool → Meaning → List Piece → Meaning
  | _, e, [] => e
  | runNext, e, p :: rest =>
    let e := e.piece statuses p.text runNext
    match p.sep with
    | .line => e
    | .semi => meaningFrom statuses true {e with status := 0} rest
    | .op op => meaningFrom statuses (op.goesOn e.status) e rest

def meaning (statuses : Nat → Int) (line : Str) (old : Int) : Meaning :=
  meaningFrom statuses true ⟨0, old, 0, []⟩ (pieces line)

/-- However the commands end, each piece is run or skipped as the line means it, $? is the
status of the last command, and the scan stays inside the line. -/
structure LineRight (line : Str) (statuses : Nat → Int) (m : Mem) (old : Int) : Prop where
  trace : (runLine statuses m line.length old).trace = (meaning statuses line old).trace
  status : (runLine statuses m line.length old).status = (meaning statuses line old).last
  within : ∀ p ∈ (runLine statuses m line.length old).reads, p ≤ line.length

def RunsRight (line : Str) : Prop :=
  ∀ statuses m old, Holds m 0 line → LineRight line statuses m old

def owes : Bool → Op → List Piece → Bool
  | debt, _, [] => debt
  | debt, op, p :: rest =>
    let debt := match op with
      | .and => debt ∧ blank p.text
      | .or => debt ∨ blank p.text
    match p.sep with
    | .line => debt
    | .semi => owes true .and rest
    | .op op => owes debt op rest

/-- Every ; is outside quotes and not escaped, no backslash ends the line, and the line does not
end with a blank piece that runs. -/
structure Clear (line : Str) : Prop where
  semis : ∀ a b, line = a ++ ';' :: b → Mode.plain.after a = .plain
  closed : Mode.plain.after line ≠ .escape ∧ Mode.plain.after line ≠ .escapeDouble
  settled : owes true .and (pieces line) = false

/-! ## The scan for an operator -/

section scan

variable {m : Mem} {p fuel : Nat} {mode : Mode} {seg rest text tail : Str} {c : Char} {op : Op}
  {quote : Quote} {f : Found}

def opAt : Mode → Str → Option (Op × Str)
  | .plain, '&' :: '&' :: rest => some (.and, rest)
  | .plain, '|' :: '|' :: rest => some (.or, rest)
  | _, _ => none

def splitCond : Mode → Str → Str × Option (Op × Str)
  | _, [] => ([], none)
  | mode, c :: rest =>
    match opAt mode (c :: rest) with
    | some found => ([], some found)
    | none => (c :: (splitCond (mode.step c) rest).1, (splitCond (mode.step c) rest).2)

def Quote.asMode : Quote → Mode
  | .none => .plain
  | .single => .single
  | .double => .double

def Mode.open : Mode → Prop
  | .escape | .escapeDouble => True
  | _ => False

inductive Looked (mode : Mode) (p : Nat) (seg : Str) (f : Found) : Prop where
  | op (op : Op) (rest : Str) (split : (splitCond mode seg).2 = some (op, rest))
      (found : f.op = some (op, p + (splitCond mode seg).1.length))
      (within : ∀ a ∈ f.reads, a ≤ p + seg.length)
  | closed (split : (splitCond mode seg).2 = none) (shut : ¬ (mode.after seg).open)
      (found : f.op = none) (within : ∀ a ∈ f.reads, a ≤ p + seg.length)
  | beyond (split : (splitCond mode seg).2 = none) (opened : (mode.after seg).open)
      (read : p + seg.length + 1 ∈ f.reads)
      (far : ∀ op q, f.op = some (op, q) → p + seg.length < q)

theorem Looked.cons (plain : opAt mode (c :: seg) = none)
    (later : Looked (mode.step c) (p + 1) seg f) {looked : List Nat}
    (near : ∀ a ∈ looked, a ≤ p + 1) : Looked mode p (c :: seg) (f.reading looked) := by
  have split : splitCond mode (c :: seg) =
      (c :: (splitCond (mode.step c) seg).1, (splitCond (mode.step c) seg).2) := by
    rw [splitCond, plain]
  have both : (∀ a ∈ f.reads, a ≤ p + 1 + seg.length) →
      ∀ a ∈ (f.reading looked).reads, a ≤ p + (c :: seg).length := fun within a member => by
    rw [List.length_cons]
    rcases List.mem_append.mp member with here | there
    · have := near a here
      omega
    · have := within a there
      omega
  cases later with
  | op op rest split' found within =>
    refine .op op rest (by rw [split]; exact split') ?_ (both within)
    rw [split, List.length_cons]
    exact found.trans (by rw [Nat.add_assoc, Nat.add_comm 1])
  | closed split' shut found within =>
    exact .closed (by rw [split]; exact split') shut found (both within)
  | beyond split' opened read far =>
    refine .beyond (by rw [split]; exact split') opened (List.mem_append_right _ ?_) ?_
    · rw [List.length_cons, ← Nat.add_assoc, Nat.add_right_comm p]
      exact read
    · intro op q found
      have := far op q found
      rw [List.length_cons]
      omega

theorem findReads (some' : 0 < fuel) : p ∈ (findConditional m fuel p quote).reads := by
  obtain ⟨k, rfl⟩ : ∃ k, fuel = k + 1 := ⟨fuel - 1, by omega⟩
  unfold findConditional Found.reading
  dsimp only
  have looked : p ∈ if quote = .none ∧ (m p = '&' ∨ m p = '|') then [p, p + 1] else [p] := by
    split <;> exact List.mem_cons_self
  split
  · exact List.mem_cons_self
  split
  · exact List.mem_cons_self
  split
  · exact List.mem_cons_self
  split
  · exact List.mem_cons_self
  split
  · exact looked
  split
  · exact looked
  · exact List.mem_append_left _ looked

theorem findAfter {q : Nat} (found : (findConditional m fuel p quote).op = some (op, q)) :
    p ≤ q := by
  fun_induction findConditional m fuel p quote with
  | case1 => cases found
  | case2 => cases found
  | case3 _ _ _ _ _ ih => exact Nat.le_of_succ_le (ih found)
  | case4 _ _ _ _ _ _ ih => exact Nat.le_of_succ_le (ih found)
  | case5 _ _ _ _ _ _ _ ih => exact Nat.le_of_succ_le (Nat.le_of_succ_le (ih found))
  | case6 =>
    cases found
    exact Nat.le_refl _
  | case7 =>
    cases found
    exact Nat.le_refl _
  | case8 _ _ _ _ _ _ _ _ _ _ ih => exact Nat.le_of_succ_le (ih found)

theorem opAtOther (other : c ≠ '&' ∧ c ≠ '|') : opAt mode (c :: rest) = none := by
  unfold opAt
  split
  · rename_i same
    exact absurd (List.cons.inj same).1 other.1
  · rename_i same
    exact absurd (List.cons.inj same).1 other.2
  · rfl

theorem opAtQuoted (quoted : mode ≠ .plain) : opAt mode seg = none := by
  unfold opAt
  split
  · exact absurd rfl quoted
  · exact absurd rfl quoted
  · rfl

theorem opAtHeld (held : Holds m p (c :: rest)) (quote : Quote) :
    opAt quote.asMode (c :: rest) =
      if quote = .none ∧ c = '&' ∧ m (p + 1) = '&' then some (.and, rest.tail)
      else if quote = .none ∧ c = '|' ∧ m (p + 1) = '|' then some (.or, rest.tail)
      else none := by
  cases quote with
  | single => exact opAtQuoted (by decide)
  | double => exact opAtQuoted (by decide)
  | none =>
    simp only [Quote.asMode, true_and]
    rcases rest with _ | ⟨d, rest⟩
    · rw [held.tail.nil, if_neg fun both => absurd both.2 (by decide),
        if_neg fun both => absurd both.2 (by decide)]
      exact opAt.eq_3 _ _ (fun _ _ same => by cases same) fun _ _ same => by cases same
    · rw [held.tail.head]
      unfold opAt
      grind

theorem stepSame (tick : ¬ (c = '\'' ∧ quote ≠ .double)) (quotes : ¬ (c = '"' ∧ quote ≠ .single))
    (escape : ¬ (c = '\\' ∧ quote ≠ .single)) : quote.asMode.step c = quote.asMode := by
  cases quote <;> simp_all [Quote.asMode, Mode.step]

theorem stepEscape (outside : quote ≠ .single) (d : Char) :
    (quote.asMode.step '\\').step d = quote.asMode ∧ (quote.asMode.step '\\').open ∧
      quote.asMode.step '\\' ≠ .plain := by
  cases quote with
  | none => exact ⟨rfl, trivial, by decide⟩
  | single => exact absurd rfl outside
  | double => exact ⟨rfl, trivial, by decide⟩

theorem findLooked (held : Holds m p seg) (enough : seg.length + 2 ≤ fuel) (quote : Quote) :
    Looked quote.asMode p seg (findConditional m fuel p quote) := by
  induction hsize : seg.length using Nat.strongRecOn generalizing seg p fuel quote with
  | ind size ih =>
    subst hsize
    obtain ⟨fuel, rfl⟩ : ∃ k, fuel = k + 1 := ⟨fuel - 1, by omega⟩
    cases seg with
    | nil =>
      unfold findConditional
      rw [if_pos held.nil]
      refine .closed rfl (by cases quote <;> exact id) rfl fun a member => ?_
      rw [List.mem_singleton.mp member]
      exact Nat.le_refl p
    | cons c rest =>
      rw [List.length_cons] at enough ih
      have shorter := fun quote => ih rest.length (Nat.lt_succ_self _) held.tail
        (by omega : rest.length + 2 ≤ fuel) quote rfl
      have single : ∀ a ∈ [p], a ≤ p + 1 := fun a member => by
        rw [List.mem_singleton.mp member]
        omega
      unfold findConditional
      rw [if_neg held.headNul, held.head]
      by_cases tick : c = '\'' ∧ quote ≠ .double
      · rw [if_pos tick]
        refine .cons (opAtOther (by rw [tick.1]; decide)) ?_ single
        rw [tick.1]
        cases quote with
        | none => exact shorter .single
        | single => exact shorter .none
        | double => exact absurd rfl tick.2
      rw [if_neg tick]
      by_cases quotes : c = '"' ∧ quote ≠ .single
      · rw [if_pos quotes]
        refine .cons (opAtOther (by rw [quotes.1]; decide)) ?_ single
        rw [quotes.1]
        cases quote with
        | none => exact shorter .double
        | single => exact absurd rfl quotes.2
        | double => exact shorter .none
      rw [if_neg quotes]
      by_cases escape : c = '\\' ∧ quote ≠ .single
      · rw [if_pos escape, escape.1]
        obtain ⟨_, opened, _⟩ := stepEscape escape.2 'x'
        cases rest with
        | nil =>
          refine .beyond (by rw [splitCond, opAtOther (by decide)]; rfl) opened ?_ ?_
          · exact List.mem_append_right _ (findReads (by omega))
          · intro op q found
            exact findAfter found
        | cons d more =>
          rw [List.length_cons] at enough ih
          obtain ⟨same, _, quoted⟩ := stepEscape escape.2 d
          have later := ih more.length (by omega) held.tail.tail
            (by omega : more.length + 2 ≤ fuel) quote rfl
          rw [← same] at later
          have inner : Looked (quote.asMode.step '\\') (p + 1) (d :: more)
              ((findConditional m fuel (p + 2) quote).reading []) :=
            .cons (opAtQuoted quoted) later fun _ member => absurd member List.not_mem_nil
          exact .cons (opAtOther (by decide)) inner single
      rw [if_neg escape]
      have looked : ∀ a ∈ (if quote = .none ∧ (c = '&' ∨ c = '|') then [p, p + 1] else [p]),
          a ≤ p + 1 := fun a member => by
        split at member
        · rcases List.mem_cons.mp member with rfl | last
          · omega
          · exact Nat.le_of_eq (List.mem_singleton.mp last)
        · exact single a member
      have at' := opAtHeld held quote
      have here : ∀ {op : Op} {rest' : Str}, opAt quote.asMode (c :: rest) = some (op, rest') →
          Looked quote.asMode p (c :: rest)
            ⟨some (op, p), if quote = .none ∧ (c = '&' ∨ c = '|') then [p, p + 1] else [p]⟩ := by
        intro op rest' found
        have split : splitCond quote.asMode (c :: rest) = ([], some (op, rest')) := by
          rw [splitCond, found]
        refine .op op rest' (by rw [split]) (by rw [split]; rfl) fun a member => ?_
        have := looked a member
        rw [List.length_cons]
        omega
      dsimp only
      by_cases ands : quote = .none ∧ c = '&' ∧ m (p + 1) = '&'
      · rw [if_pos ands] at at' ⊢
        exact here at'
      rw [if_neg ands] at at' ⊢
      by_cases ors : quote = .none ∧ c = '|' ∧ m (p + 1) = '|'
      · rw [if_pos ors] at at' ⊢
        exact here at'
      rw [if_neg ors] at at' ⊢
      have later := shorter quote
      rw [← stepSame tick quotes escape] at later
      exact .cons at' later looked

end scan

/-! ## The pieces -/

section cutting

variable {mode : Mode} {seg rest tail line : Str} {c : Char} {op : Op}

theorem piecesOp (found : opAt mode line = some (op, rest)) :
    piecesFrom mode line = ⟨[], .op op⟩ :: piecesFrom .plain rest := by
  unfold opAt at found
  split at found
  · cases found
    rw [piecesFrom]
  · cases found
    rw [piecesFrom]
  · cases found

theorem piecesChar (never : opAt mode (c :: rest) = none) (other : mode = .plain → c ≠ ';') :
    piecesFrom mode (c :: rest) = Piece.cons c (piecesFrom (mode.step c) rest) := by
  rw [piecesFrom]
  · intro plain same
    exact other plain same
  · rintro more plain rfl rfl
    subst plain
    cases never
  · rintro more plain rfl rfl
    subst plain
    cases never

theorem piecesSome (mode : Mode) (line : Str) : ∃ p more, piecesFrom mode line = p :: more := by
  fun_induction piecesFrom mode line with
  | case1 => exact ⟨_, _, rfl⟩
  | case2 => exact ⟨_, _, rfl⟩
  | case3 => exact ⟨_, _, rfl⟩
  | case4 => exact ⟨_, _, rfl⟩
  | case5 mode c rest _ _ _ ih =>
    obtain ⟨p, more, same⟩ := ih
    exact ⟨_, more, by rw [same]; rfl⟩

def Behind (tail : Str) : Prop := tail = [] ∨ ∃ more, tail = ';' :: more

theorem opAtSome (found : opAt mode seg = some (op, rest)) (tail : Str) :
    opAt mode (seg ++ tail) = some (op, rest ++ tail) ∧ mode = .plain ∧
      ∃ x, seg = x :: x :: rest ∧ Mode.plain.step x = .plain := by
  unfold opAt at found
  split at found
  · cases found
    exact ⟨rfl, rfl, _, rfl, rfl⟩
  · cases found
    exact ⟨rfl, rfl, _, rfl, rfl⟩
  · cases found

theorem opAtNone (never : opAt mode (c :: seg) = none) (behind : Behind tail) :
    opAt mode (c :: (seg ++ tail)) = none := by
  rcases seg with _ | ⟨d, seg⟩
  · rcases behind with rfl | ⟨more, rfl⟩
    · exact never
    · unfold opAt
      split
      · rename_i same
        cases same
      · rename_i same
        cases same
      · rfl
  · unfold opAt at never ⊢
    split at never
    · cases never
    · cases never
    · split
      · rename_i more same ands ors
        cases same
        exact (ands _ rfl rfl).elim
      · rename_i more same ands ors
        cases same
        exact (ors _ rfl rfl).elim
      · rfl

theorem piecesSplit (split : (splitCond mode seg).2 = some (op, rest)) (raw : ';' ∉ seg)
    (behind : Behind tail) :
    piecesFrom mode (seg ++ tail) =
        ⟨(splitCond mode seg).1, .op op⟩ :: piecesFrom .plain (rest ++ tail) ∧
      (∃ x, seg = (splitCond mode seg).1 ++ x :: x :: rest) ∧
      mode.after seg = Mode.plain.after rest := by
  induction seg generalizing mode with
  | nil => cases split
  | cons c seg ih =>
    rw [splitCond] at split ⊢
    cases at' : opAt mode (c :: seg) with
    | some found =>
      rw [at'] at split
      cases split
      obtain ⟨later, rfl, x, same, plain⟩ := opAtSome at' tail
      refine ⟨piecesOp later, ⟨x, same⟩, ?_⟩
      rw [same]
      show Mode.after ((Mode.plain.step x).step x) rest = _
      rw [plain, plain]
    | none =>
      rw [at'] at split
      obtain ⟨first, clean⟩ := not_or.mp (mt List.mem_cons.mpr raw)
      obtain ⟨later, ⟨x, same⟩, after⟩ := ih split clean
      refine ⟨?_, ⟨x, congrArg (c :: ·) same⟩, after⟩
      rw [List.cons_append, piecesChar (opAtNone at' behind) fun _ same => first same.symm, later]
      rfl

theorem piecesWhole (split : (splitCond mode seg).2 = none) (raw : ';' ∉ seg) :
    (splitCond mode seg).1 = seg ∧ piecesFrom mode seg = [⟨seg, .line⟩] ∧
      (∀ more, mode.after seg = .plain →
        piecesFrom mode (seg ++ ';' :: more) = ⟨seg, .semi⟩ :: piecesFrom .plain more) ∧
      ∀ more, mode.after seg ≠ .plain → ∃ u sep ps,
        piecesFrom mode (seg ++ ';' :: more) = ⟨seg ++ ';' :: u, sep⟩ :: ps := by
  induction seg generalizing mode with
  | nil =>
    refine ⟨rfl, by rw [piecesFrom], fun more plain => ?_, fun more quoted => ?_⟩
    · have same : mode = .plain := plain
      rw [same, List.nil_append, piecesFrom]
    · obtain ⟨p, ps, later⟩ := piecesSome (mode.step ';') more
      refine ⟨p.text, p.sep, ps, ?_⟩
      have other : mode ≠ .plain := quoted
      rw [List.nil_append, piecesChar (opAtQuoted other) fun same => absurd same other, later]
      rfl
  | cons c seg ih =>
    rw [splitCond] at split ⊢
    cases at' : opAt mode (c :: seg) with
    | some found =>
      rw [at'] at split
      cases split
    | none =>
      rw [at'] at split
      obtain ⟨first, clean⟩ := not_or.mp (mt List.mem_cons.mpr raw)
      obtain ⟨text, lone, plainly, quotedly⟩ := ih split clean
      have other : ∀ more, Behind more → piecesFrom mode (c :: (seg ++ more)) =
          Piece.cons c (piecesFrom (mode.step c) (seg ++ more)) := fun more behind =>
        piecesChar (opAtNone at' behind) fun _ same => first same.symm
      refine ⟨congrArg (c :: ·) text, ?_, fun more plain => ?_, fun more quoted => ?_⟩
      · have whole := other [] (.inl rfl)
        rw [List.append_nil, lone] at whole
        exact whole
      · rw [List.cons_append, other _ (.inr ⟨more, rfl⟩), plainly more plain]
        rfl
      · obtain ⟨u, sep, ps, same⟩ := quotedly more quoted
        exact ⟨u, sep, ps, by rw [List.cons_append, other _ (.inr ⟨more, rfl⟩), same]; rfl⟩

theorem cutInduct {P : (seg : Str) → ';' ∉ seg → Prop}
    (whole : ∀ seg raw, (splitCond .plain seg).2 = none → P seg raw)
    (split : ∀ seg raw op rest clean, (splitCond .plain seg).2 = some (op, rest) →
      P rest clean → P seg raw) (seg : Str) (raw : ';' ∉ seg) : P seg raw := by
  induction hsize : seg.length using Nat.strongRecOn generalizing seg with
  | ind size ih =>
    subst hsize
    cases found : (splitCond .plain seg).2 with
    | none => exact whole seg raw found
    | some both =>
      obtain ⟨_, ⟨x, same⟩, _⟩ := piecesSplit found raw (.inl rfl)
      have shorter := congrArg List.length same
      rw [List.length_append, List.length_cons, List.length_cons] at shorter
      have clean : ';' ∉ both.2 := fun member => raw (by
        rw [same]
        exact List.mem_append_right _ (List.mem_cons_of_mem _ (List.mem_cons_of_mem _ member)))
      exact split seg raw both.1 both.2 clean found (ih both.2.length (by omega) both.2 clean rfl)

end cutting

/-! ## The loops -/

section loops

variable {statuses : Nat → Int} {size fuel p : Nat} {runNext : Bool} {l : Lines} {e : Meaning}
  {seg line text tail : Str}

theorem isCommandBlank (clean : NUL ∉ text) : isCommand text = !blank text := by
  unfold isCommand blank
  rw [tokenizeScan clean]
  cases ahead : skip text with
  | nil =>
    have all := List.dropWhile_eq_nil_iff.mp ahead
    rw [scanNil ahead, List.all_eq_true.mpr all]
    rfl
  | cons c rest =>
    have some' : ¬ text.all isBlank = true := fun all => by
      have nil := List.dropWhile_eq_nil_iff.mpr (List.all_eq_true.mp all)
      exact absurd (ahead.symm.trans nil) (List.cons_ne_nil _ _)
    have token : scan MAX_WORDS 0 text ≠ [] := by
      rw [scanCons ahead, if_neg (by decide)]
      split
      · rw [if_neg (by decide)]
        exact List.cons_ne_nil _ _
      · exact List.cons_ne_nil _ _
    simp [token, some']

structure Same (l : Lines) (e : Meaning) : Prop where
  status : l.status = e.status
  count : l.count = e.count
  trace : l.trace = e.trace

theorem Same.piece (same : Same l e) (clean : NUL ∉ text) :
    Same (l.piece statuses text runNext) (e.piece statuses text runNext) := by
  obtain ⟨status, count, trace⟩ := same
  unfold Lines.piece Meaning.piece
  dsimp only
  rw [isCommandBlank clean]
  cases runNext with
  | false => exact ⟨status, count, congrArg (· ++ _) trace⟩
  | true =>
    cases blank text with
    | true => exact ⟨rfl, count, congrArg (· ++ _) trace⟩
    | false =>
      refine ⟨?_, congrArg (· + 1) count, congrArg (· ++ _) trace⟩
      show statuses l.count = statuses e.count
      rw [count]

theorem pieceNoted (text : Str) (runNext : Bool) : ∃ status count,
    l.piece statuses text runNext =
      ⟨l.m, status, count, l.trace ++ [(text, runNext)], l.reads⟩ := by
  unfold Lines.piece
  cases runNext with
  | false => exact ⟨_, _, rfl⟩
  | true =>
    dsimp only
    split
    · exact ⟨_, _, rfl⟩
    · split <;> exact ⟨_, _, rfl⟩

@[simp] theorem pieceMemory (text : Str) (runNext : Bool) :
    (l.piece statuses text runNext).m = l.m := by
  obtain ⟨_, _, noted⟩ := @pieceNoted statuses l text runNext
  rw [noted]

@[simp] theorem pieceReads (text : Str) (runNext : Bool) :
    (l.piece statuses text runNext).reads = l.reads := by
  obtain ⟨_, _, noted⟩ := @pieceNoted statuses l text runNext
  rw [noted]

@[simp] theorem pieceTrace (text : Str) (runNext : Bool) :
    (l.piece statuses text runNext).trace = l.trace ++ [(text, runNext)] := by
  obtain ⟨_, _, noted⟩ := @pieceNoted statuses l text runNext
  rw [noted]

theorem segmentGrows (fuel p : Nat) (runNext : Bool) (l : Lines) :
    l.trace <+: (segmentLoop statuses size fuel p runNext l).trace ∧
      l.reads <+: (segmentLoop statuses size fuel p runNext l).reads := by
  induction fuel generalizing p runNext l with
  | zero => exact ⟨List.prefix_refl _, List.prefix_refl _⟩
  | succ fuel ih =>
    unfold segmentLoop
    dsimp only
    generalize readAt : CString.read _ size p = text
    have trace : l.trace <+: (Lines.piece statuses {l with
        m := cut l.m ((findConditional l.m size p .none).op.map Prod.snd),
        reads := l.reads ++ (findConditional l.m size p .none).reads} text runNext).trace := by
      rw [pieceTrace]
      exact List.prefix_append _ _
    have reads : l.reads <+: (Lines.piece statuses {l with
        m := cut l.m ((findConditional l.m size p .none).op.map Prod.snd),
        reads := l.reads ++ (findConditional l.m size p .none).reads} text runNext).reads := by
      rw [pieceReads]
      exact List.prefix_append _ _
    generalize Lines.piece statuses _ text runNext = now at trace reads ⊢
    cases (findConditional l.m size p .none).op with
    | none => exact ⟨trace, reads⟩
    | some found => exact ⟨trace.trans (ih _ _ _).1, reads.trans (ih _ _ _).2⟩

theorem segmentTrace (fuel p : Nat) (runNext : Bool) (l : Lines) :
    l.trace <+: (segmentLoop statuses size fuel p runNext l).trace :=
  (segmentGrows fuel p runNext l).1

theorem segmentReads (fuel p : Nat) (runNext : Bool) (l : Lines) :
    l.reads <+: (segmentLoop statuses size fuel p runNext l).reads :=
  (segmentGrows fuel p runNext l).2

theorem runTrace (p : Nat) (l : Lines) : l.trace <+: (runSegment statuses size p l).trace :=
  segmentTrace size p true {l with status := 0}

theorem lineTrace (fuel p : Nat) (l : Lines) :
    l.trace <+: (lineLoop statuses size fuel p l).trace := by
  induction fuel generalizing p l with
  | zero => exact List.prefix_refl _
  | succ fuel ih =>
    unfold lineLoop
    dsimp only
    cases strchr l.m ';' size p with
    | none => exact runTrace p {l with m := l.m}
    | some semi => exact (runTrace p {l with m := cut l.m semi}).trans (ih _ _)

theorem meaningPiece {e : Meaning} (text : Str) (runNext : Bool) :
    (e.piece statuses text runNext).trace = e.trace ++ [(text, runNext)] := by
  unfold Meaning.piece
  cases runNext with
  | false => rfl
  | true =>
    dsimp only
    split
    · rfl
    · split <;> rfl

theorem meaningTrace (ps : List Piece) (runNext : Bool) (e : Meaning) :
    e.trace <+: (meaningFrom statuses runNext e ps).trace := by
  induction ps generalizing runNext e with
  | nil => exact List.prefix_refl _
  | cons p rest ih =>
    have first : e.trace <+: (e.piece statuses p.text runNext).trace := by
      rw [meaningPiece]
      exact List.prefix_append _ _
    unfold meaningFrom
    dsimp only
    cases p.sep with
    | line => exact first
    | semi => exact first.trans (ih _ {e.piece statuses p.text runNext with status := 0})
    | op op => exact first.trans (ih _ _)

theorem meaningSemi {more : Str} (raw : ';' ∉ seg) (plain : Mode.plain.after seg = .plain) :
    meaningFrom statuses runNext e (piecesFrom .plain (seg ++ ';' :: more)) =
      meaningFrom statuses true
        {meaningFrom statuses runNext e (piecesFrom .plain seg) with status := 0}
        (piecesFrom .plain more) := by
  induction seg, raw using cutInduct generalizing runNext e with
  | whole seg raw never =>
    obtain ⟨_, lone, plainly, _⟩ := piecesWhole never raw
    rw [lone, plainly more plain]
    rfl
  | split seg raw op rest clean found ih =>
    obtain ⟨first, _, after⟩ := piecesSplit found raw (.inr ⟨more, rfl⟩)
    obtain ⟨alone, _, _⟩ := piecesSplit found raw (.inl rfl)
    rw [List.append_nil, List.append_nil] at alone
    rw [first, alone]
    exact ih (after.symm.trans plain)

theorem meaningQuoted (raw : ';' ∉ seg) (quoted : Mode.plain.after seg ≠ .plain) (more : Str) :
    ∃ x s u b, (meaningFrom statuses runNext e (piecesFrom .plain seg)).trace = x ++ [(s, b)] ∧
      x ++ [(s ++ ';' :: u, b)] <+:
        (meaningFrom statuses runNext e (piecesFrom .plain (seg ++ ';' :: more))).trace := by
  induction seg, raw using cutInduct generalizing runNext e with
  | whole seg raw never =>
    obtain ⟨_, lone, _, quotedly⟩ := piecesWhole never raw
    obtain ⟨u, sep, ps, same⟩ := quotedly more quoted
    refine ⟨e.trace, seg, u, runNext, ?_, ?_⟩
    · rw [lone]
      exact meaningPiece _ _
    · rw [same, ← meaningPiece]
      unfold meaningFrom
      dsimp only
      cases sep with
      | line => exact List.prefix_refl _
      | semi => exact meaningTrace ps true {e.piece statuses _ runNext with status := 0}
      | op op => exact meaningTrace ps _ _
  | split seg raw op rest clean found ih =>
    obtain ⟨first, _, after⟩ := piecesSplit found raw (.inr ⟨more, rfl⟩)
    obtain ⟨alone, _, _⟩ := piecesSplit found raw (.inl rfl)
    rw [List.append_nil, List.append_nil] at alone
    rw [first, alone]
    exact ih (after ▸ quoted)

structure SegmentRan (l l' : Lines) (p : Nat) (seg : Str) (e : Meaning) : Prop where
  trace : e.trace <+: l'.trace
  same : ¬ (Mode.plain.after seg).open → Same l' e
  above : ¬ (Mode.plain.after seg).open → ∀ k, p + seg.length < k → l'.m k = l.m k
  within : ¬ (Mode.plain.after seg).open → ∀ a ∈ l'.reads, a ∈ l.reads ∨ a ≤ p + seg.length
  beyond : (Mode.plain.after seg).open → p + seg.length + 1 ∈ l'.reads

theorem segmentRan (raw : ';' ∉ seg) (held : Holds l.m p seg) (turns : seg.length < fuel)
    (enough : seg.length + 2 ≤ size) (same : Same l e) :
    SegmentRan l (segmentLoop statuses size fuel p runNext l) p seg
      (meaningFrom statuses runNext e (piecesFrom .plain seg)) := by
  induction seg, raw using cutInduct generalizing runNext e l p fuel with
  | whole seg raw never =>
    obtain ⟨fuel, rfl⟩ : ∃ k, fuel = k + 1 := ⟨fuel - 1, by omega⟩
    obtain ⟨_, lone, _, _⟩ := piecesWhole never raw
    have traced : (meaningFrom statuses runNext e [⟨seg, .line⟩]).trace =
        l.trace ++ [(seg, runNext)] := by
      rw [same.trace]
      exact meaningPiece _ _
    rw [lone]
    unfold segmentLoop
    dsimp only
    cases findLooked held enough .none with
    | op op rest split => exact absurd (never.symm.trans split) (by simp)
    | closed split shut found within =>
      rw [found]
      dsimp only [Option.map_none, cut]
      have now : Same {l with reads := l.reads ++ (findConditional l.m size p .none).reads} e :=
        ⟨same.status, same.count, same.trace⟩
      rw [held.read (by omega)]
      refine ⟨?_, fun _ => now.piece held.clean, fun _ k _ => by rw [pieceMemory],
        fun _ a member => ?_, fun opened => absurd opened shut⟩
      · exact ⟨[], by rw [traced, pieceTrace, List.append_nil]⟩
      · rw [pieceReads] at member
        exact (List.mem_append.mp member).imp_right (within a)
    | beyond split opened read far =>
      have text : CString.read (cut l.m ((findConditional l.m size p .none).op.map Prod.snd)) size p
          = seg := by
        refine (held.frame fun k _ below => ?_).read (by omega)
        cases found : (findConditional l.m size p .none).op with
        | none => rfl
        | some both =>
          have := far _ _ found
          exact Function.update_of_ne (by omega) ..
      rw [text]
      refine ⟨?_, fun shut => absurd opened shut, fun shut => absurd opened shut,
        fun shut => absurd opened shut, fun _ => ?_⟩
      · rw [traced]
        cases (findConditional l.m size p .none).op with
        | none =>
          exact ⟨[], by rw [pieceTrace, List.append_nil]⟩
        | some both =>
          refine List.IsPrefix.trans ?_ (segmentTrace _ _ _ _)
          exact ⟨[], by rw [pieceTrace, List.append_nil]⟩
      · have here := List.mem_append_right l.reads read
        cases (findConditional l.m size p .none).op with
        | none =>
          dsimp only
          rw [pieceReads]
          exact here
        | some both =>
          refine (segmentReads _ _ _ _).subset ?_
          rw [pieceReads]
          exact here
  | split seg raw op rest clean split ih =>
    obtain ⟨fuel, rfl⟩ : ∃ k, fuel = k + 1 := ⟨fuel - 1, by omega⟩
    obtain ⟨first, ⟨x, whole⟩, after⟩ := piecesSplit split raw (.inl rfl)
    rw [List.append_nil, List.append_nil] at first
    have looked : Looked .plain p seg (findConditional l.m size p .none) :=
      findLooked held enough .none
    rw [first]
    unfold segmentLoop
    dsimp only
    cases looked with
    | closed never => exact absurd (never.symm.trans split) (by simp)
    | beyond never => exact absurd (never.symm.trans split) (by simp)
    | op op' rest' split' found within =>
      cases split'.symm.trans split
      generalize (splitCond .plain seg).1 = s at whole found
      have long := congrArg List.length whole
      rw [List.length_append, List.length_cons, List.length_cons] at long
      rw [whole] at held
      rw [found]
      dsimp only [Option.map_some, cut]
      rw [held.cut.read (by omega)]
      have now : Same (Lines.mk (Function.update l.m (p + s.length) NUL) l.status l.count l.trace
          (l.reads ++ (findConditional l.m size p .none).reads)) e :=
        ⟨same.status, same.count, same.trace⟩
      have next : Same (Lines.piece statuses _ s runNext) (e.piece statuses s runNext) :=
        now.piece held.cut.clean
      generalize here : Lines.piece statuses ⟨_, _, _, _, _⟩ s runNext = l' at next ⊢
      have memory : l'.m = Function.update l.m (p + s.length) NUL := by
        rw [← here, pieceMemory]
      have reads : l'.reads = l.reads ++ (findConditional l.m size p .none).reads := by
        rw [← here, pieceReads]
      have left : Holds l'.m (p + s.length + 2) rest := by
        rw [memory]
        exact held.drop.tail.tail.update (by omega)
      have later : SegmentRan l' _ _ rest (meaningFrom statuses (op.goesOn l'.status)
          (e.piece statuses s runNext) (piecesFrom .plain rest)) :=
        ih left (by omega : rest.length < fuel) (by omega) next
      rw [next.status] at later ⊢
      have ends : p + s.length + 2 + rest.length = p + seg.length := by omega
      obtain ⟨trace, same', above, inside, beyond⟩ := later
      rw [← after] at same' above inside beyond
      rw [ends] at above inside beyond
      refine ⟨trace, same', fun shut k past => ?_, fun shut a member => ?_, beyond⟩
      · rw [above shut k past, memory]
        exact Function.update_of_ne (by omega) ..
      · rcases inside shut a member with old | near
        · rw [reads] at old
          exact (List.mem_append.mp old).imp_right (within a)
        · exact .inr near

theorem strchrFinds {m : Mem} {c : Char} (held : Holds m p line) (turns : line.length < fuel)
    (char : c ≠ NUL) :
    c ∉ line ∧ strchr m c fuel p = none ∨
      ∃ s more, line = s ++ c :: more ∧ c ∉ s ∧ strchr m c fuel p = some (p + s.length) := by
  induction line generalizing p fuel with
  | nil =>
    obtain ⟨k, rfl⟩ : ∃ k, fuel = k + 1 := ⟨fuel - 1, by omega⟩
    refine .inl ⟨List.not_mem_nil, ?_⟩
    rw [strchr, held.nil, if_neg (Ne.symm char), if_pos rfl]
  | cons d rest ih =>
    rw [List.length_cons] at turns
    obtain ⟨k, rfl⟩ : ∃ k, fuel = k + 1 := ⟨fuel - 1, by omega⟩
    rw [strchr, held.head]
    by_cases here : d = c
    · rw [if_pos here, here]
      exact .inr ⟨[], rest, rfl, List.not_mem_nil, rfl⟩
    rw [if_neg here, if_neg held.2.1]
    have later := ih held.tail (by omega : rest.length < k)
    rcases later with ⟨clean, never⟩ | ⟨s, more, rfl, clean, found⟩
    · exact .inl ⟨by simpa [clean] using Ne.symm here, never⟩
    · refine .inr ⟨d :: s, more, rfl, by simpa [clean] using Ne.symm here, ?_⟩
      rw [found, List.length_cons]
      exact congrArg some (by omega)

structure Shut (line : Str) : Prop where
  semis : ∀ a b, line = a ++ ';' :: b → Mode.plain.after a = .plain
  closed : ¬ (Mode.plain.after line).open

theorem shutWhole (raw : ';' ∉ line) : Shut line ↔ ¬ (Mode.plain.after line).open :=
  ⟨Shut.closed, fun closed => ⟨fun a b same => absurd (by rw [same]; simp) raw, closed⟩⟩

theorem shutCut {more : Str} (raw : ';' ∉ seg) :
    Shut (seg ++ ';' :: more) ↔ Mode.plain.after seg = .plain ∧ Shut more := by
  have after : Mode.plain.after seg = .plain → ∀ t,
      Mode.plain.after (seg ++ ';' :: t) = Mode.plain.after t := fun plain t => by
    unfold Mode.after at plain ⊢
    rw [List.foldl_append, plain]
    rfl
  constructor
  · intro shut
    have plain := shut.semis seg more rfl
    refine ⟨plain, fun a b same => ?_, after plain more ▸ shut.closed⟩
    rw [← after plain a]
    exact shut.semis (seg ++ ';' :: a) b (by rw [same, List.append_assoc]; rfl)
  · rintro ⟨plain, shut⟩
    refine ⟨fun a b same => ?_, (after plain more).symm ▸ shut.closed⟩
    rcases List.append_eq_append_iff.mp same with ⟨c, rfl, tail⟩ | ⟨c, rfl, tail⟩
    · cases c with
      | nil => rwa [List.append_nil]
      | cons d c =>
        obtain ⟨rfl, rfl⟩ := List.cons.inj tail
        rw [after plain]
        exact shut.semis c b rfl
    · cases c with
      | nil => rwa [List.append_nil] at plain
      | cons d c =>
        obtain ⟨rfl, _⟩ := List.cons.inj tail
        exact absurd (by simp) raw

structure LineRan (l l' : Lines) (p : Nat) (line : Str) (e : Meaning) : Prop where
  same : Shut line → Same l' e
  within : Shut line → ∀ a ∈ l'.reads, a ∈ l.reads ∨ a ≤ p + line.length
  wrong : ¬ Shut line → l'.trace ≠ e.trace ∨ p + line.length + 1 ∈ l'.reads

theorem lineRan (held : Holds l.m p line) (turns : line.length < fuel)
    (enough : line.length + 2 ≤ size) (same : Same {l with status := 0} e) :
    LineRan l (lineLoop statuses size fuel p l) p line
      (meaningFrom statuses true e (pieces line)) := by
  induction fuel generalizing p l e line with
  | zero => exact absurd turns (Nat.not_lt_zero _)
  | succ fuel ih =>
    unfold lineLoop
    dsimp only
    rcases strchrFinds held (by omega : line.length < size) (by decide : ';' ≠ NUL) with
      ⟨raw, never⟩ | ⟨s, more, rfl, raw, found⟩
    · rw [never]
      have ran : SegmentRan {l with status := 0} (runSegment statuses size p l) p line
          (meaningFrom statuses true e (pieces line)) :=
        segmentRan raw held (by omega) enough same
      refine ⟨fun shut => ran.same shut.closed, fun shut => ran.within shut.closed, fun wrong => ?_⟩
      exact .inr (ran.beyond (not_not.mp (mt (shutWhole raw).mpr wrong)))
    · rw [List.length_append, List.length_cons] at turns enough
      rw [found]
      have ran : SegmentRan {l with m := Function.update l.m (p + s.length) NUL, status := 0}
          (runSegment statuses size p {l with m := Function.update l.m (p + s.length) NUL}) p s
          (meaningFrom statuses true e (piecesFrom .plain s)) :=
        segmentRan raw held.cut (by omega) (by omega) ⟨same.status, same.count, same.trace⟩
      dsimp only [cut]
      generalize runSegment statuses size p _ = l' at ran ⊢
      by_cases plain : Mode.plain.after s = .plain
      · have closed : ¬ (Mode.plain.after s).open := by rw [plain]; exact id
        have left : Holds l'.m (p + s.length + 1) more :=
          (held.drop.tail.update (Nat.lt_succ_self _)).congr fun k past => ran.above closed k past
        have ended := ran.same closed
        have later : LineRan l' (lineLoop statuses size fuel (p + s.length + 1) l') _ more
            (meaningFrom statuses true
              {meaningFrom statuses true e (piecesFrom .plain s) with status := 0} (pieces more)) :=
          ih left (by omega) (by omega) ⟨rfl, ended.count, ended.trace⟩
        rw [pieces, meaningSemi raw plain]
        have ends : p + s.length + 1 + more.length = p + (s ++ ';' :: more).length := by
          rw [List.length_append, List.length_cons]
          omega
        refine ⟨fun shut => later.same ((shutCut raw).mp shut).2, fun shut a member => ?_,
          fun wrong => ?_⟩
        · rw [← ends]
          rcases later.within ((shutCut raw).mp shut).2 a member with old | near
          · rcases ran.within closed a old with older | near
            · exact .inl older
            · exact .inr (by omega)
          · exact .inr near
        · rw [← ends]
          exact later.wrong fun shut => wrong ((shutCut raw).mpr ⟨plain, shut⟩)
      · have never : ¬ Shut (s ++ ';' :: more) := fun shut => plain ((shutCut raw).mp shut).1
        refine ⟨fun shut => absurd shut never, fun shut => absurd shut never, fun _ => .inl ?_⟩
        obtain ⟨x, t, u, b, code, meant⟩ :=
          @meaningQuoted statuses true e s raw plain more
        intro equal
        have later : l'.trace <+: (lineLoop statuses size fuel (p + s.length + 1) l').trace :=
          lineTrace fuel (p + s.length + 1) l'
        have traced := ran.trace.trans later
        rw [equal, code] at traced
        have level := List.prefix_of_prefix_length_le traced meant (by simp)
        have both := level.eq_of_length (by simp)
        have texts := congrArg Prod.fst (List.cons.inj (List.append_cancel_left both)).1
        exact absurd texts (by simp)

/-! ## The last status -/

def owed (debt : Bool) (op : Op) (text : Str) : Bool :=
  match op with
  | .and => debt ∧ blank text
  | .or => debt ∨ blank text

theorem owesPiece (debt : Bool) (op : Op) (p : Piece) (rest : List Piece) :
    owes debt op (p :: rest) = match p.sep with
      | .line => owed debt op p.text
      | .semi => owes true .and rest
      | .op next => owes (owed debt op p.text) next rest := by
  cases op <;> cases hsep : p.sep <;> simp [owes, owed, hsep]

theorem alongPieces {holds : Bool → Meaning → Prop}
    (piece : ∀ debt op e text, holds debt e →
      holds (owed debt op text) (e.piece statuses text (op.goesOn e.status)))
    (fresh : ∀ debt e, holds debt e → holds true {e with status := 0})
    {debt : Bool} {op : Op} (ps : List Piece) (begun : holds debt e) :
    holds (owes debt op ps) (meaningFrom statuses (op.goesOn e.status) e ps) := by
  induction ps generalizing debt op e with
  | nil => exact begun
  | cons p rest ih =>
    have now := piece debt op e p.text begun
    rw [owesPiece]
    unfold meaningFrom
    dsimp only
    cases p.sep with
    | line => exact now
    | semi => exact @ih _ true .and (fresh _ _ now)
    | op next => exact ih now

def Settles (debt : Bool) (e : Meaning) : Prop := e.status ≠ e.last → debt = true ∧ e.status = 0

theorem Settles.piece {debt : Bool} {op : Op} (settles : Settles debt e) :
    Settles (owed debt op text) (e.piece statuses text (op.goesOn e.status)) := by
  unfold Meaning.piece owed
  cases op <;> cases hblank : blank text <;> by_cases zero : e.status = 0 <;>
    simp_all [Settles, Op.goesOn]

theorem settlesFrom {debt : Bool} {op : Op} (ps : List Piece) (settles : Settles debt e) :
    Settles (owes debt op ps) (meaningFrom statuses (op.goesOn e.status) e ps) :=
  alongPieces (fun _ _ _ _ settles => settles.piece) (fun _ _ _ _ => ⟨rfl, rfl⟩) ps settles

structure Failing (debt : Bool) (e : Meaning) : Prop where
  last : e.last = 1
  status : e.status = if debt then 0 else 1

theorem Failing.piece {debt : Bool} {op : Op} (failing : Failing debt e) :
    Failing (owed debt op text) (e.piece (fun _ => 1) text (op.goesOn e.status)) := by
  obtain ⟨last, status⟩ := failing
  unfold Meaning.piece owed
  rw [status]
  cases op <;> cases hblank : blank text <;> cases debt <;>
    exact ⟨by simp [Op.goesOn, last], by simp [Op.goesOn]⟩

theorem failingFrom {debt : Bool} {op : Op} (ps : List Piece) (failing : Failing debt e) :
    Failing (owes debt op ps) (meaningFrom (fun _ => 1) (op.goesOn e.status) e ps) :=
  alongPieces (fun _ _ _ _ failing => failing.piece) (fun _ _ failing => ⟨failing.last, rfl⟩) ps
    failing

end loops

theorem clearShut (line : Str) : Clear line ↔ Shut line ∧ owes true .and (pieces line) = false := by
  have opened : ∀ mode : Mode, ¬ mode.open ↔ mode ≠ .escape ∧ mode ≠ .escapeDouble := by
    intro mode
    cases mode <;> simp [Mode.open]
  exact ⟨fun clear => ⟨⟨clear.semis, (opened _).mpr clear.closed⟩, clear.settled⟩,
    fun ⟨shut, settled⟩ => ⟨shut.semis, (opened _).mp shut.closed, settled⟩⟩

theorem lineRuns (line : Line) : RunsRight line.val ↔ Clear line.val := by
  obtain ⟨line, clean⟩ := line
  dsimp only
  have ran : ∀ statuses m old, Holds m 0 line →
      LineRan ⟨m, old, 0, [], []⟩ (runLine statuses m line.length old) 0 line
        (meaning statuses line old) := fun statuses m old held =>
    lineRan held (by omega) (by omega) ⟨rfl, rfl, rfl⟩
  rw [clearShut]
  constructor
  · intro right
    have now := right (fun _ => 1) (CString.ofStr line) 1 (CString.ofStrHolds clean)
    have ran' := ran (fun _ => 1) (CString.ofStr line) 1 (CString.ofStrHolds clean)
    have shut : Shut line := by
      by_contra wrong
      rcases ran'.wrong wrong with differ | beyond
      · exact differ now.trace
      · have := now.within _ beyond
        omega
    refine ⟨shut, ?_⟩
    have failing : Failing (owes true .and (pieces line)) (meaning (fun _ => 1) line 1) :=
      @failingFrom ⟨0, 1, 0, []⟩ true .and (pieces line) ⟨rfl, rfl⟩
    have equal := (ran'.same shut).status.symm.trans now.status
    rw [failing.last, failing.status] at equal
    by_contra debt
    rw [Bool.not_eq_false] at debt
    rw [debt] at equal
    cases equal
  · rintro ⟨shut, settled⟩ statuses m old held
    have ran' := ran statuses m old held
    have same := ran'.same shut
    refine ⟨same.trace, ?_, fun a member => ?_⟩
    · rw [same.status]
      by_contra differ
      have settles : Settles (owes true .and (pieces line)) (meaning statuses line old) :=
        @settlesFrom statuses ⟨0, old, 0, []⟩ true .and (pieces line) fun _ => ⟨rfl, rfl⟩
      exact absurd ((settles differ).1.symm.trans settled) (by decide)
    · have := ran'.within shut a member
      simpa using this

theorem semicolonCuts : ¬ RunsRight "echo 'a;b'".toList := fun right =>
  absurd (right (fun _ => 0) _ 0 (CString.ofStrHolds (by decide))).trace (by decide)

end Scepter.Sh
