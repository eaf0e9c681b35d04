import Scepter.Lib.CString

/-! The shell's tokenizer (tokenize in crt/coreutil/sh.c), which takes the quotes out of a
word in the line it is still scanning, the words that build_commands takes for operators, and
the documented grammar. A character is a byte other than NUL. -/
namespace Scepter.Sh
open Path (Str)
open CString (Mem NUL Holds)

def MAX_WORDS : Nat := 96
def MAX_ARGS : Nat := 32
def MAX_STAGES : Nat := 16

def isBlank (c : Char) : Bool := c = ' ' ∨ c = '\t'

def isMeta (c : Char) : Bool := c = '<' ∨ c = '>' ∨ c = '|' ∨ c = ';' ∨ c = '&'

inductive Quote where
  | none | single | double
  deriving DecidableEq

def skipBlanks (m : Mem) : Nat → Nat → Nat
  | 0, p => p
  | fuel + 1, p => if isBlank (m p) then skipBlanks m fuel (p + 1) else p

structure Word where
  m : Mem
  p : Nat
  dst : Nat
  stopped : Bool

def wordLoop : Nat → Mem → Nat → Nat → Quote → Word
  | 0, m, p, dst, _ => ⟨m, p, dst, false⟩
  | fuel + 1, m, p, dst, quote =>
    if m p = NUL then ⟨m, p, dst, false⟩
    else match quote with
    | .none =>
      if isBlank (m p) ∨ isMeta (m p) then ⟨m, p, dst, true⟩
      else if m p = '\'' then wordLoop fuel m (p + 1) dst .single
      else if m p = '"' then wordLoop fuel m (p + 1) dst .double
      else if m p = '\\' ∧ m (p + 1) ≠ NUL then
        wordLoop fuel (Function.update m dst (m (p + 1))) (p + 2) (dst + 1) .none
      else wordLoop fuel (Function.update m dst (m p)) (p + 1) (dst + 1) .none
    | .single =>
      if m p = '\'' then wordLoop fuel m (p + 1) dst .none
      else wordLoop fuel (Function.update m dst (m p)) (p + 1) (dst + 1) .single
    | .double =>
      if m p = '"' then wordLoop fuel m (p + 1) dst .none
      else if m p = '\\' ∧ m (p + 1) ≠ NUL then
        wordLoop fuel (Function.update m dst (m (p + 1))) (p + 2) (dst + 1) .double
      else wordLoop fuel (Function.update m dst (m p)) (p + 1) (dst + 1) .double

inductive Pointer where
  | ops (slot : Nat)
  | line (start : Nat)

structure Tokenizer where
  m : Mem
  ops : Nat → Str
  words : List Pointer

def OPS : Nat := 32

def tokenLoop (max : Nat) : Nat → Nat → Tokenizer → Tokenizer
  | 0, _, t => t
  | fuel + 1, p, t =>
    let p := skipBlanks t.m fuel p
    let n := t.words.length
    if t.m p = NUL then t
    else if max ≤ n then t
    else if isMeta (t.m p) then
      if OPS ≤ n then t
      else if t.m p = '>' ∧ t.m (p + 1) = '>' then
        tokenLoop max fuel (p + 2) ⟨t.m, Function.update t.ops n ['>', '>'], t.words ++ [.ops n]⟩
      else
        tokenLoop max fuel (p + 1) ⟨t.m, Function.update t.ops n [t.m p], t.words ++ [.ops n]⟩
    else
      let word := wordLoop fuel t.m p p .none
      tokenLoop max fuel (if word.stopped then word.p + 1 else word.p)
        ⟨Function.update word.m word.dst NUL, t.ops, t.words ++ [.line p]⟩

inductive Token where
  | op (text : Str)
  | word (text : Str)
  deriving DecidableEq

def Token.text : Token → Str
  | .op text | .word text => text

def Tokenizer.token (t : Tokenizer) (size : Nat) : Pointer → Token
  | .ops slot => .op (t.ops slot)
  | .line start => .word (CString.read t.m size start)

def tokenize (line : Str) (max : Nat) : List Token :=
  let t := tokenLoop max (line.length + 1) 0 ⟨CString.ofStr line, fun _ => [], []⟩
  t.words.map (t.token line.length)

/-! ## build_commands -/

structure Command (α : Type) where
  argv : List α
  inFile : Option α
  outFile : Option α
  append : Bool
  background : Bool

def Command.empty {α : Type} : Command α := ⟨[], none, none, false, false⟩

/-- `operators` lists the words that were taken for operators, for the statements only; `none`
is an error. -/
structure Built (α : Type) where
  cmds : Option (List (Command α))
  operators : List α

def Built.taken {α : Type} (b : Built α) (w : α) : Built α := {b with operators := w :: b.operators}

def buildLoop {α : Type} (text : α → Str) (maxStages : Nat) :
    List (Command α) → Command α → List α → Built α
  | done, cur, [] => ⟨some (done ++ [cur]), []⟩
  | done, cur, w :: rest =>
    if text w = ['|'] then
      if maxStages ≤ done.length + 1 then ⟨none, [w]⟩
      else (buildLoop text maxStages (done ++ [cur]) .empty rest).taken w
    else if text w = ['&'] then
      (buildLoop text maxStages done {cur with background := true} rest).taken w
    else if text w = ['<'] then
      match rest with
      | [] => ⟨none, [w]⟩
      | file :: rest => (buildLoop text maxStages done {cur with inFile := some file} rest).taken w
    else if text w = ['>'] ∨ text w = ['>', '>'] then
      match rest with
      | [] => ⟨none, [w]⟩
      | file :: rest =>
        (buildLoop text maxStages done
          {cur with outFile := some file, append := (text w)[1]? = some '>'} rest).taken w
    else if cur.argv.length < MAX_ARGS - 1 then
      buildLoop text maxStages done {cur with argv := cur.argv ++ [w]} rest
    else buildLoop text maxStages done cur rest

def buildCommands {α : Type} (text : α → Str) (words : List α) : Built α :=
  buildLoop text MAX_STAGES [] .empty words

def keptVerbatim (w : Str) : Bool := '<' ∈ w ∨ '>' ∈ w

/-! ## The documented grammar -/

def wordOf : Quote → Str → Str × Str
  | _, [] => ([], [])
  | .none, c :: rest =>
    if isBlank c ∨ isMeta c then ([], c :: rest)
    else if c = '\'' then wordOf .single rest
    else if c = '"' then wordOf .double rest
    else if c = '\\' then
      match rest with
      | [] => (['\\'], [])
      | d :: rest => let (text, rest) := wordOf .none rest; (d :: text, rest)
    else let (text, rest) := wordOf .none rest; (c :: text, rest)
  | .single, c :: rest =>
    if c = '\'' then wordOf .none rest
    else let (text, rest) := wordOf .single rest; (c :: text, rest)
  | .double, c :: rest =>
    if c = '"' then wordOf .none rest
    else if c = '\\' then
      match rest with
      | [] => (['\\'], [])
      | d :: rest => let (text, rest) := wordOf .double rest; (d :: text, rest)
    else let (text, rest) := wordOf .double rest; (c :: text, rest)

def skip (line : Str) : Str := line.dropWhile isBlank

structure Lexeme where
  token : Token
  glued : Bool

def opOf (c : Char) (rest : Str) : Str × Str :=
  match rest with
  | [] => ([c], [])
  | d :: more => if c = '>' ∧ d = '>' then (['>', '>'], more) else ([c], d :: more)

theorem skipShorter (line : Str) : (skip line).length ≤ line.length :=
  (List.dropWhile_sublist isBlank).length_le

theorem skipHead {line rest : Str} {c : Char} (ahead : skip line = c :: rest) :
    ¬ isBlank c = true := by
  unfold skip at ahead
  have first := List.head?_dropWhile_not isBlank line
  rw [ahead, List.head?_cons] at first
  simpa using first

theorem opOfShorter (c : Char) (rest : Str) : (opOf c rest).2.length ≤ rest.length := by
  cases rest with
  | nil => exact Nat.le_refl 0
  | cons d more =>
    unfold opOf
    dsimp only
    split
    · exact Nat.le_succ _
    · exact Nat.le_refl _

theorem wordOfShorter (quote : Quote) (line : Str) :
    (wordOf quote line).2.length ≤ line.length := by
  fun_induction wordOf quote line <;> grind

theorem wordOfShrinks {c : Char} (plain : ¬ (isBlank c = true ∨ isMeta c = true)) (rest : Str) :
    (wordOf .none (c :: rest)).2.length ≤ rest.length := by
  unfold wordOf
  rw [if_neg plain]
  have shorter := fun quote => wordOfShorter quote rest
  split
  · exact shorter .single
  split
  · exact shorter .double
  split
  · cases rest with
    | nil => exact Nat.le_refl 0
    | cons d more => exact Nat.le_trans (wordOfShorter .none more) (Nat.le_succ _)
  · exact shorter .none

theorem tokenShrinks {line rest : Str} {c : Char} (ahead : skip line = c :: rest) :
    (opOf c rest).2.length < line.length ∧
      (¬ isMeta c = true → (wordOf .none (c :: rest)).2.length < line.length) := by
  have shorter := skipShorter line
  rw [ahead, List.length_cons] at shorter
  refine ⟨Nat.lt_of_le_of_lt (opOfShorter c rest) shorter, fun plain => ?_⟩
  have shrinks := wordOfShrinks (fun either => either.elim (skipHead ahead) plain) rest
  exact Nat.lt_of_le_of_lt shrinks shorter

def lexFrom (glued : Bool) (line : Str) : List Lexeme :=
  match _ahead : skip line with
  | [] => []
  | c :: rest =>
    if _plain : isMeta c then
      ⟨.op (opOf c rest).1, glued ∧ line.head? = some c⟩ :: lexFrom false (opOf c rest).2
    else ⟨.word (wordOf .none (c :: rest)).1, false⟩ :: lexFrom true (wordOf .none (c :: rest)).2
termination_by line.length
decreasing_by
  · exact (tokenShrinks _ahead).1
  · exact (tokenShrinks _ahead).2 _plain

def lex (line : Str) : List Lexeme := lexFrom false line

/-- tokenize over the characters alone, from the `n`th token on: the character that ended a word
goes with it. -/
def scan (max n : Nat) (line : Str) : List Token :=
  match ahead : skip line with
  | [] => []
  | c :: rest =>
    if max ≤ n then []
    else if plain : isMeta c then
      if OPS ≤ n then []
      else .op (opOf c rest).1 :: scan max (n + 1) (opOf c rest).2
    else .word (wordOf .none (c :: rest)).1 ::
      scan max (n + 1) (wordOf .none (c :: rest)).2.tail
termination_by line.length
decreasing_by
  · exact (tokenShrinks ahead).1
  · have shrinks := (tokenShrinks ahead).2 plain
    rw [List.length_tail]
    omega

theorem scanNil {max n : Nat} {line : Str} (ahead : skip line = []) : scan max n line = [] := by
  unfold scan
  split
  · rfl
  · rename_i other
    rw [ahead] at other
    cases other

theorem scanCons {max n : Nat} {line rest : Str} {c : Char} (ahead : skip line = c :: rest) :
    scan max n line = if max ≤ n then []
      else if isMeta c then
        if OPS ≤ n then []
        else .op (opOf c rest).1 :: scan max (n + 1) (opOf c rest).2
      else .word (wordOf .none (c :: rest)).1 ::
        scan max (n + 1) (wordOf .none (c :: rest)).2.tail := by
  conv => lhs; unfold scan
  split
  · rename_i other
    rw [ahead] at other
    cases other
  · rename_i other
    rw [ahead] at other
    cases other
    simp only [dite_eq_ite]

theorem lexNil {glued : Bool} {line : Str} (ahead : skip line = []) : lexFrom glued line = [] := by
  unfold lexFrom
  split
  · rfl
  · rename_i other
    rw [ahead] at other
    cases other

theorem lexCons {glued : Bool} {line rest : Str} {c : Char} (ahead : skip line = c :: rest) :
    lexFrom glued line = if isMeta c then
        ⟨.op (opOf c rest).1, glued ∧ line.head? = some c⟩ :: lexFrom false (opOf c rest).2
      else ⟨.word (wordOf .none (c :: rest)).1, false⟩ ::
        lexFrom true (wordOf .none (c :: rest)).2 := by
  conv => lhs; unfold lexFrom
  split
  · rename_i other
    rw [ahead] at other
    cases other
  · rename_i other
    rw [ahead] at other
    cases other
    simp only [dite_eq_ite]

/-! ## The buffer -/

section buffer

variable {m : Mem} {p dst fuel : Nat} {line text rest : Str} {w : Word} {c d : Char} {quote : Quote}

structure Scanned (m : Mem) (p dst : Nat) (line text rest : Str) (w : Word) : Prop where
  behind : Holds w.m w.p rest
  ended : w.stopped = true ↔ rest ≠ []
  low : ∀ k < dst, w.m k = m k
  copied : Holds (Function.update w.m w.dst NUL) dst text
  reached : w.dst = dst + text.length
  room : w.dst ≤ w.p
  place : w.p + rest.length = p + line.length

theorem Scanned.put {k : Nat} {line' : Str} (clean : d ≠ NUL)
    (ahead : p + line.length = k + line'.length)
    (later : Scanned (Function.update m dst d) k (dst + 1) line' text rest w) :
    Scanned m p dst line (d :: text) rest w where
  behind := later.behind
  ended := later.ended
  low k below := by rw [later.low k (by omega), Function.update_of_ne (by omega)]
  copied := by
    have beyond := later.reached
    refine ⟨?_, clean, later.copied⟩
    rw [Function.update_of_ne (by omega), later.low dst (by omega), Function.update_self]
  reached := by rw [later.reached, List.length_cons]; omega
  room := later.room
  place := later.place.trans ahead.symm

theorem Scanned.pass (later : Scanned m (p + 1) dst line text rest w) :
    Scanned m p dst (c :: line) text rest w where
  behind := later.behind
  ended := later.ended
  low := later.low
  copied := later.copied
  reached := later.reached
  room := later.room
  place := by rw [later.place, List.length_cons]; omega

theorem Scanned.stop (held : Holds m p line) (room : dst ≤ p) {stopped : Bool}
    (stops : stopped = true ↔ line ≠ []) : Scanned m p dst line [] line ⟨m, p, dst, stopped⟩ where
  behind := held
  ended := stops
  low _ _ := rfl
  copied := Function.update_self ..
  reached := rfl
  room := room
  place := rfl

theorem wordOfNil (quote : Quote) : wordOf quote [] = ([], []) := by
  cases quote <;> rfl

structure Turns (fuel : Nat) (quote : Quote) : Prop where
  scan {m : Mem} {p dst : Nat} {line : Str} : Holds m p line → dst ≤ p → line.length ≤ fuel →
    Scanned m p dst line (wordOf quote line).1 (wordOf quote line).2 (wordLoop fuel m p dst quote)

theorem Turns.copy (turns : Turns fuel quote) (held : Holds m p (c :: line)) (room : dst ≤ p)
    (enough : line.length ≤ fuel) :
    Scanned m p dst (c :: line) (c :: (wordOf quote line).1) (wordOf quote line).2
      (wordLoop fuel (Function.update m dst c) (p + 1) (dst + 1) quote) :=
  .put held.2.1 (by rw [List.length_cons]; omega)
    (turns.scan (held.tail.update (by omega)) (by omega) enough)

theorem Turns.escape (turns : Turns fuel quote) (held : Holds m p ('\\' :: line)) (room : dst ≤ p)
    (enough : line.length ≤ fuel) :
    Scanned m p dst ('\\' :: line)
      (match line with | [] => ['\\'] | d :: rest => d :: (wordOf quote rest).1)
      (match line with | [] => [] | _ :: rest => (wordOf quote rest).2)
      (if m (p + 1) ≠ NUL then
        wordLoop fuel (Function.update m dst (m (p + 1))) (p + 2) (dst + 1) quote
      else wordLoop fuel (Function.update m dst '\\') (p + 1) (dst + 1) quote) := by
  cases line with
  | nil =>
    have copied := turns.copy held room enough
    rw [wordOfNil] at copied
    rw [if_neg (not_not.mpr held.tail.nil)]
    exact copied
  | cons d rest =>
    rw [List.length_cons] at enough
    rw [if_pos held.tail.headNul, held.tail.head]
    exact .put held.tail.2.1 (by rw [List.length_cons, List.length_cons]; omega)
      (turns.scan (held.tail.tail.update (by omega)) (by omega) (by omega))

theorem wordLoopScanned (quote : Quote) : Turns fuel quote := by
  induction fuel generalizing quote with
  | zero =>
    refine ⟨fun {m p dst line} held room enough => ?_⟩
    obtain rfl := List.eq_nil_of_length_eq_zero (Nat.le_zero.mp enough)
    rw [wordOfNil]
    exact .stop held room (by simp)
  | succ fuel ih =>
    refine ⟨fun {m p dst line} held room enough => ?_⟩
    cases line with
    | nil =>
      rw [wordOfNil]
      unfold wordLoop
      rw [if_pos held.nil]
      exact .stop held room (by simp)
    | cons c rest =>
      rw [List.length_cons] at enough
      have less : rest.length ≤ fuel := by omega
      unfold wordLoop
      rw [if_neg held.headNul, held.head]
      cases quote with
      | none =>
        unfold wordOf
        dsimp only
        by_cases ends : isBlank c ∨ isMeta c
        · rw [if_pos ends, if_pos ends]
          exact .stop held room (by simp)
        rw [if_neg ends, if_neg ends]
        by_cases single : c = '\''
        · rw [if_pos single, if_pos single]
          exact ((ih .single).scan held.tail (by omega) less).pass
        rw [if_neg single, if_neg single]
        by_cases double : c = '"'
        · rw [if_pos double, if_pos double]
          exact ((ih .double).scan held.tail (by omega) less).pass
        rw [if_neg double, if_neg double]
        by_cases escape : c = '\\'
        · subst escape
          have escaped := (ih .none).escape held room less
          simp only [if_true, true_and]
          cases rest <;> exact escaped
        · rw [if_neg escape, if_neg fun both => escape both.1]
          exact (ih .none).copy held room less
      | single =>
        unfold wordOf
        dsimp only
        by_cases ends : c = '\''
        · rw [if_pos ends, if_pos ends]
          exact ((ih .none).scan held.tail (by omega) less).pass
        · rw [if_neg ends, if_neg ends]
          exact (ih .single).copy held room less
      | double =>
        unfold wordOf
        dsimp only
        by_cases ends : c = '"'
        · rw [if_pos ends, if_pos ends]
          exact ((ih .none).scan held.tail (by omega) less).pass
        rw [if_neg ends, if_neg ends]
        by_cases escape : c = '\\'
        · subst escape
          have escaped := (ih .double).escape held room less
          simp only [if_true, true_and]
          cases rest <;> exact escaped
        · rw [if_neg escape, if_neg fun both => escape both.1]
          exact (ih .double).copy held room less

theorem skipBlanksHolds (held : Holds m p line) (enough : line.length ≤ fuel) :
    Holds m (skipBlanks m fuel p) (skip line) ∧
      skipBlanks m fuel p + (skip line).length = p + line.length := by
  induction line generalizing p fuel with
  | nil =>
    have ends : skipBlanks m fuel p = p := by
      cases fuel with
      | zero => rfl
      | succ fuel =>
        unfold skipBlanks
        rw [held.nil]
        rfl
    rw [ends]
    exact ⟨held, rfl⟩
  | cons c rest ih =>
    rw [List.length_cons] at enough
    obtain ⟨k, rfl⟩ : ∃ k, fuel = k + 1 := ⟨fuel - 1, by omega⟩
    unfold skipBlanks skip
    rw [held.head]
    by_cases blank : isBlank c = true
    · rw [if_pos blank, List.dropWhile_cons_of_pos blank]
      obtain ⟨held', place⟩ := @ih (p + 1) k held.tail (by omega)
      refine ⟨held', place.trans ?_⟩
      rw [List.length_cons]
      omega
    · rw [if_neg blank, List.dropWhile_cons_of_neg blank]
      exact ⟨held, rfl⟩

def Settled (t : Tokenizer) (p : Nat) : Prop :=
  ∀ w ∈ t.words, match w with
    | .ops slot => slot < t.words.length
    | .line start => ∃ text, Holds t.m start text ∧ start + text.length < p

variable {t : Tokenizer} {ops : Nat → Str} {words : List Pointer} {size max : Nat} {m' : Mem}

theorem Settled.more (settled : Settled t p) {w : Pointer} {p' : Nat} (later : p ≤ p')
    (low : ∀ k < p, m' k = t.m k)
    (new : match w with
      | .ops slot => slot = t.words.length
      | .line start => ∃ text, Holds m' start text ∧ start + text.length < p') :
    Settled ⟨m', ops, t.words ++ [w]⟩ p' := by
  intro v member
  dsimp only
  rw [List.length_append]
  rcases List.mem_append.mp member with old | last
  · have was := settled v old
    cases v with
    | ops slot => exact Nat.lt_of_lt_of_le was (Nat.le_add_right _ _)
    | line start =>
      obtain ⟨text, held, below⟩ := was
      exact ⟨text, held.frame fun k _ within => low k (by omega), by omega⟩
  · obtain rfl := List.mem_singleton.mp last
    cases v with
    | ops slot =>
      have last : slot = t.words.length := new
      exact last ▸ Nat.lt_succ_self _
    | line start => exact new

theorem Settled.kept (settled : Settled t p) (inside : p ≤ size) (low : ∀ k < p, m' k = t.m k)
    (slots : ∀ slot < t.words.length, ops slot = t.ops slot) :
    t.words.map (Tokenizer.token ⟨m', ops, words⟩ size) = t.words.map (t.token size) := by
  refine List.map_congr_left fun w member => ?_
  have was := settled w member
  cases w with
  | ops slot => exact congrArg Token.op (slots slot was)
  | line start =>
    obtain ⟨text, held, below⟩ := was
    have moved : Holds m' start text := held.frame fun k _ within => low k (by omega)
    exact congrArg Token.word ((moved.read (by omega)).trans (held.read (by omega)).symm)

@[simp] theorem tokenOps (slot : Nat) :
    Tokenizer.token ⟨m', ops, words⟩ size (.ops slot) = .op (ops slot) := rfl

@[simp] theorem tokenLine (start : Nat) :
    Tokenizer.token ⟨m', ops, words⟩ size (.line start) = .word (CString.read m' size start) := rfl

theorem opOfHeld (held : Holds m p (c :: rest)) :
    (if c = '>' ∧ m (p + 1) = '>' then
      opOf c rest = (['>', '>'], rest.tail) ∧ Holds m (p + 2) rest.tail ∧
        rest.tail.length + 1 = rest.length
    else opOf c rest = ([c], rest)) := by
  cases rest with
  | nil =>
    rw [if_neg fun both => by
      have nul : m (p + 1) = NUL := held.tail
      rw [nul] at both
      exact absurd both.2 (by decide)]
    rfl
  | cons d more =>
    rw [held.tail.head]
    by_cases double : c = '>' ∧ d = '>'
    · rw [if_pos double]
      exact ⟨if_pos double, held.tail.tail, rfl⟩
    · rw [if_neg double]
      exact if_neg double

theorem tokenLoopScan (held : Holds t.m p line) (enough : line.length < fuel)
    (place : p + line.length = size) (settled : line ≠ [] → Settled t p) :
    (tokenLoop max fuel p t).words.map ((tokenLoop max fuel p t).token size) =
      t.words.map (t.token size) ++ scan max t.words.length line := by
  induction fuel generalizing p t line with
  | zero => omega
  | succ fuel ih =>
    obtain ⟨held', place'⟩ := skipBlanksHolds held (Nat.le_of_lt_succ enough)
    have shorter := skipShorter line
    unfold tokenLoop
    dsimp only
    generalize skipBlanks t.m fuel p = q at held' place' ⊢
    cases ahead : skip line with
    | nil =>
      rw [ahead] at held'
      rw [if_pos held'.nil, scanNil ahead, List.append_nil]
    | cons c rest =>
      rw [ahead] at held' place' shorter
      rw [List.length_cons] at place' shorter
      have some' : line ≠ [] := fun none => by
        rw [none] at shorter
        exact absurd shorter (Nat.not_succ_le_zero _)
      have settled := settled some'
      rw [if_neg held'.headNul, scanCons ahead]
      by_cases full : max ≤ t.words.length
      · rw [if_pos full, if_pos full, List.append_nil]
      rw [if_neg full, if_neg full, held'.head]
      by_cases op : isMeta c = true
      · rw [if_pos op, if_pos op]
        by_cases many : OPS ≤ t.words.length
        · rw [if_pos many, if_pos many, List.append_nil]
        rw [if_neg many, if_neg many]
        have next : ∀ {q' : Nat} {text rest' : Str}, Holds t.m q' rest' → p ≤ q' →
            rest'.length < fuel → q' + rest'.length = size →
            (tokenLoop max fuel q' ⟨t.m, Function.update t.ops t.words.length text,
                t.words ++ [.ops t.words.length]⟩).words.map
              ((tokenLoop max fuel q' ⟨t.m, Function.update t.ops t.words.length text,
                t.words ++ [.ops t.words.length]⟩).token size) =
              t.words.map (t.token size) ++
                .op text :: scan max (t.words.length + 1) rest' := by
          intro q' text rest' held later enough place
          have scanned := ih (t := ⟨t.m, Function.update t.ops t.words.length text,
            t.words ++ [.ops t.words.length]⟩) held enough place
            fun _ => settled.more later (fun _ _ => rfl) rfl
          rw [scanned, List.map_append, settled.kept (by omega) (fun _ _ => rfl)
              (fun slot less => Function.update_of_ne (Nat.ne_of_lt less) ..), List.append_assoc,
            List.length_append, List.map_singleton, tokenOps, Function.update_self]
          rfl
        have split := opOfHeld held'
        by_cases double : c = '>' ∧ t.m (q + 1) = '>'
        · rw [if_pos double] at split ⊢
          obtain ⟨same, held'', less⟩ := split
          rw [next held'' (by omega) (by omega) (by omega), same]
        · rw [if_neg double] at split ⊢
          rw [next held'.tail (by omega) (by omega) (by omega), split]
      · rw [if_neg op, if_neg op]
        have word := (wordLoopScanned .none).scan held' (Nat.le_refl q)
          (by rw [List.length_cons]; omega : (c :: rest).length ≤ fuel)
        have shrinks : (wordOf .none (c :: rest)).2.length ≤ rest.length :=
          wordOfShrinks (fun either => either.elim (skipHead ahead) op) rest
        generalize wordOf .none (c :: rest) = found at word shrinks ⊢
        obtain ⟨text, rest'⟩ := found
        generalize wordLoop fuel t.m q q .none = w at word ⊢
        dsimp only at word shrinks ⊢
        obtain ⟨behind, ended, low, copied, reached, room, wordPlace⟩ := word
        rw [List.length_cons] at wordPlace
        have before : ∀ k < p, Function.update w.m w.dst NUL k = t.m k := fun k below => by
          rw [Function.update_of_ne (by omega), low k (by omega)]
        have next : ∀ {q' : Nat}, Holds (Function.update w.m w.dst NUL) q' rest'.tail →
            q' + rest'.tail.length = size → (rest'.tail ≠ [] → w.dst < q') →
            (tokenLoop max fuel q' ⟨Function.update w.m w.dst NUL, t.ops,
                t.words ++ [.line q]⟩).words.map
              ((tokenLoop max fuel q' ⟨Function.update w.m w.dst NUL, t.ops,
                t.words ++ [.line q]⟩).token size) =
              t.words.map (t.token size) ++
                .word text :: scan max (t.words.length + 1) rest'.tail := by
          intro q' held place beyond
          have fewer : rest'.tail.length < fuel := by
            rw [List.length_tail]
            omega
          have scanned := ih (t := ⟨Function.update w.m w.dst NUL, t.ops, t.words ++ [.line q]⟩)
            held fewer place fun more => by
              have far := beyond more
              have new : ∃ text, Holds (Function.update w.m w.dst NUL) q text ∧
                  q + text.length < q' := ⟨text, copied, by omega⟩
              exact settled.more (by omega) before new
          rw [scanned, List.map_append, settled.kept (by omega) before fun _ _ => rfl,
            List.append_assoc, List.length_append, List.map_singleton, tokenLine,
            copied.read (by omega)]
          rfl
        cases rest' with
        | nil =>
          rw [if_neg fun stopped => ended.mp stopped rfl]
          refine next ?_ (by rw [List.tail_nil]; exact wordPlace.trans (by omega))
            fun more => absurd rfl more
          show Function.update w.m w.dst NUL w.p = NUL
          rw [Function.update_apply]
          split
          · rfl
          · exact behind.nil
        | cons d more =>
          rw [List.length_cons] at wordPlace
          rw [if_pos (ended.mpr (List.cons_ne_nil d more))]
          exact next (behind.tail.update (by omega)) (by rw [List.tail_cons]; omega)
            fun _ => by omega

theorem tokenizeScan (clean : NUL ∉ line) : tokenize line max = scan max 0 line := by
  exact @tokenLoopScan 0 _ line ⟨CString.ofStr line, fun _ => [], []⟩ line.length max
    (CString.ofStrHolds clean) (Nat.lt_succ_self _) (Nat.zero_add _)
    fun _ _ member => absurd member List.not_mem_nil

end buffer

/-! ## Which lines are split as documented -/

section lines

variable {max n : Nat} {line rest : Str} {c d : Char} {text : Str}

def tokensOf (line : Str) : List Token := (lex line).map Lexeme.token

theorem lexGlued (glued : Bool) (line : Str) :
    (lexFrom glued line).map Lexeme.token = tokensOf line := by
  unfold tokensOf lex
  cases ahead : skip line with
  | nil => rw [lexNil ahead, lexNil ahead]
  | cons c rest =>
    rw [lexCons ahead, lexCons ahead]
    split <;> rfl

theorem tokensNil (ahead : skip line = []) : tokensOf line = [] := by
  unfold tokensOf lex
  rw [lexNil ahead]
  rfl

theorem tokensOp (ahead : skip line = c :: rest) (op : isMeta c = true) :
    tokensOf line = .op (opOf c rest).1 :: tokensOf (opOf c rest).2 := by
  unfold tokensOf lex
  rw [lexCons ahead, if_pos op]
  rfl

theorem tokensWord (ahead : skip line = c :: rest) (plain : ¬ isMeta c = true) :
    tokensOf line = .word (wordOf .none (c :: rest)).1 :: tokensOf (wordOf .none (c :: rest)).2 := by
  conv => lhs; unfold tokensOf lex
  rw [lexCons ahead, if_neg plain, List.map_cons, lexGlued]

theorem skipBlank (blank : isBlank c = true) : skip (c :: rest) = skip rest :=
  List.dropWhile_cons_of_pos blank

theorem skipMeta (op : isMeta c = true) : skip (c :: rest) = c :: rest := by
  refine List.dropWhile_cons_of_neg fun blank => ?_
  simp only [isMeta, isBlank, decide_eq_true_eq] at op blank
  rcases blank with rfl | rfl <;> exact absurd op (by decide)

theorem lexBlank (blank : isBlank c = true) (glued : Bool) :
    lexFrom glued (c :: rest) = lexFrom false rest := by
  have same := @skipBlank rest c blank
  cases ahead : skip rest with
  | nil => rw [lexNil ahead, lexNil (same.trans ahead)]
  | cons d more =>
    have other : ¬ c = d := fun equal => skipHead ahead (equal ▸ blank)
    rw [lexCons ahead, lexCons (same.trans ahead)]
    simp [other]

theorem wordOfStops {quote : Quote} (stops : (wordOf quote line).2 = d :: rest) :
    isBlank d = true ∨ isMeta d = true := by
  fun_induction wordOf quote line <;> grind

theorem scanFull (full : max ≤ n) : scan max n line = [] := by
  cases ahead : skip line with
  | nil => exact scanNil ahead
  | cons c rest => rw [scanCons ahead, if_pos full]

theorem scanBehind (room : OPS < max) (less : n < max) (line text : Str) :
    scan max n line ≠ .op text :: (tokensOf line).take (max - (n + 1)) := by
  induction hsize : line.length using Nat.strongRecOn generalizing line n with
  | ind size ih =>
    intro same
    cases ahead : skip line with
    | nil =>
      rw [scanNil ahead] at same
      cases same
    | cons c rest =>
      rw [scanCons ahead, if_neg (by omega)] at same
      by_cases op : isMeta c = true
      · rw [if_pos op] at same
        by_cases many : OPS ≤ n
        · rw [if_pos many] at same
          cases same
        · rw [if_neg many] at same
          obtain ⟨first, later⟩ := List.cons.inj same
          have more : max - (n + 1) = max - (n + 1 + 1) + 1 := by omega
          rw [tokensOp ahead op, more, List.take_succ_cons] at later
          exact ih _ (hsize ▸ (tokenShrinks ahead).1) (by omega) _ rfl
            (Token.op.inj first ▸ later)
      · rw [if_neg op] at same
        cases (List.cons.inj same).1

theorem scanInside (room : OPS < max) (less : n < max) (rest : Str) :
    scan max n ('>' :: rest) ≠ .op ['>', '>'] :: (tokensOf rest).take (max - (n + 1)) := by
  induction hsize : rest.length using Nat.strongRecOn generalizing rest n with
  | ind size ih =>
    intro same
    have op : isMeta '>' = true := by decide
    rw [scanCons (skipMeta op), if_neg (by omega), if_pos op] at same
    by_cases many : OPS ≤ n
    · rw [if_pos many] at same
      cases same
    rw [if_neg many] at same
    obtain ⟨first, later⟩ := List.cons.inj same
    have more : max - (n + 1) = max - (n + 1 + 1) + 1 := by omega
    rcases rest with _ | ⟨d, rest⟩
    · exact absurd (Token.op.inj first) (by decide)
    by_cases double : d = '>'
    · subst double
      unfold opOf at later
      dsimp only at later
      rw [if_pos ⟨rfl, rfl⟩, tokensOp (skipMeta op) op, more, List.take_succ_cons] at later
      rcases rest with _ | ⟨e, rest⟩
      · exact scanBehind room (by omega) _ _ later
      by_cases triple : e = '>'
      · subst triple
        unfold opOf at later
        dsimp only at later
        rw [if_pos ⟨rfl, rfl⟩] at later
        exact ih _ (by rw [← hsize, List.length_cons, List.length_cons]; omega) (by omega) _ rfl later
      · unfold opOf at later
        dsimp only at later
        rw [if_neg fun both => triple both.2] at later
        exact scanBehind room (by omega) _ _ later
    · unfold opOf at first
      dsimp only at first
      rw [if_neg fun both => double both.2] at first
      exact absurd (Token.op.inj first) (by simp)

theorem scanGlued (room : OPS < max) (less : n < max) :
    scan max n rest ≠ .op (opOf d rest).1 :: (tokensOf (opOf d rest).2).take (max - (n + 1)) := by
  rcases rest with _ | ⟨e, rest⟩
  · exact scanBehind room less _ _
  unfold opOf
  dsimp only
  by_cases double : d = '>' ∧ e = '>'
  · rw [if_pos double, double.2]
    exact scanInside room less _
  · rw [if_neg double]
    exact scanBehind room less _ _

def Apart (max n : Nat) (lexemes : List Lexeme) : Prop :=
  ∀ i l, n + i < max → lexemes[i]? = some l → ∀ text, l.token = .op text →
    l.glued = false ∧ n + i < OPS

theorem apartNil : Apart max n [] := fun _ _ _ found => by cases found

theorem apartCons {l : Lexeme} {lexemes : List Lexeme} : Apart max n (l :: lexemes) ↔
    (n < max → ∀ text, l.token = .op text → l.glued = false ∧ n < OPS) ∧
      Apart max (n + 1) lexemes := by
  constructor
  · intro apart
    refine ⟨fun less text => apart 0 l less rfl text, fun i l less found text op => ?_⟩
    rw [Nat.add_right_comm] at less ⊢
    exact apart (i + 1) l less found text op
  · rintro ⟨first, later⟩ i l less found text op
    cases i with
    | zero =>
      cases found
      exact first less text op
    | succ i =>
      have shifted := later i l (by omega) found text op
      rw [Nat.add_right_comm] at shifted
      exact shifted

theorem apartFull (full : max ≤ n) (lexemes : List Lexeme) : Apart max n lexemes :=
  fun _ _ less => absurd less (by omega)

theorem scanRight (room : OPS < max) (line : Str) :
    scan max n line = (tokensOf line).take (max - n) ↔ Apart max n (lex line) := by
  induction hsize : line.length using Nat.strongRecOn generalizing line n with
  | ind size ih =>
    subst hsize
    by_cases full : max ≤ n
    · rw [scanFull full, Nat.sub_eq_zero_of_le full, List.take_zero]
      exact iff_of_true rfl (apartFull full _)
    have more : max - n = max - (n + 1) + 1 := by omega
    unfold lex
    cases ahead : skip line with
    | nil =>
      rw [scanNil ahead, tokensNil ahead, lexNil ahead, List.take_nil]
      exact iff_of_true rfl apartNil
    | cons c rest =>
      have shrinks := tokenShrinks ahead
      rw [scanCons ahead, if_neg full, lexCons ahead]
      by_cases op : isMeta c = true
      · rw [if_pos op, if_pos op, tokensOp ahead op, more, List.take_succ_cons, apartCons]
        have later := @ih _ shrinks.1 (n + 1) _ rfl
        by_cases many : OPS ≤ n
        · rw [if_pos many]
          refine iff_of_false (by simp) fun apart => ?_
          have few := (apart.1 (by omega) _ rfl).2
          omega
        · rw [if_neg many, List.cons_inj_right]
          refine later.trans ⟨fun apart => ⟨fun _ _ _ => ⟨by simp, by omega⟩, apart⟩, And.right⟩
      · rw [if_neg op, if_neg op, tokensWord ahead op, more, List.take_succ_cons, List.cons_inj_right,
          apartCons]
        have word : (n < max → ∀ text, (⟨.word (wordOf .none (c :: rest)).1, false⟩ : Lexeme).token =
            .op text → false = false ∧ n < OPS) := fun _ _ no => by cases no
        rw [and_iff_right word]
        have shorter := shrinks.2 op
        cases behind : (wordOf .none (c :: rest)).2 with
        | nil =>
          rw [List.tail_nil, scanNil rfl, tokensNil rfl, lexNil rfl, List.take_nil]
          exact iff_of_true rfl apartNil
        | cons d rest' =>
          rw [behind, List.length_cons] at shorter
          rw [List.tail_cons]
          rcases wordOfStops behind with blank | sep
          · rw [lexBlank blank]
            have same : tokensOf (d :: rest') = tokensOf rest' := by
              unfold tokensOf lex
              rw [lexBlank blank]
            rw [same]
            exact ih _ (by omega) _ rfl
          · rw [lexCons (skipMeta sep), if_pos sep, tokensOp (skipMeta sep) sep]
            by_cases last : max ≤ n + 1
            · rw [scanFull last, Nat.sub_eq_zero_of_le last, List.take_zero]
              exact iff_of_true rfl (apartFull last _)
            have still : max - (n + 1) = max - (n + 1 + 1) + 1 := by omega
            rw [still, List.take_succ_cons]
            refine iff_of_false (scanGlued room (by omega)) fun apart => ?_
            have unglued := ((apartCons.mp apart).1 (by omega) _ rfl).1
            simp at unglued

end lines

/-! ## Quoted operators -/

def isRedirection (text : Str) : Bool := text = ['<'] ∨ text = ['>'] ∨ text = ['>', '>']

/-- Read after the grammar behind `stages` stages, no word but a redirection's target is one of
the two that are compared with whole. -/
def Unmistaken : Nat → List Token → Prop
  | _, [] => True
  | stages, .word text :: rest => text ≠ ['|'] ∧ text ≠ ['&'] ∧ Unmistaken stages rest
  | stages, .op text :: rest =>
    if text = ['|'] then MAX_STAGES ≤ stages + 1 ∨ Unmistaken (stages + 1) rest
    else if isRedirection text then
      match rest with
      | [] => True
      | _ :: rest => Unmistaken stages rest
    else Unmistaken stages rest

def Token.isOp : Token → Prop
  | .op _ => True
  | .word _ => False

structure Tokenized (line : Str) : Prop where
  tokens : tokenize line MAX_WORDS = (tokensOf line).take MAX_WORDS
  verbatim : ∀ t ∈ tokenize line MAX_WORDS, keptVerbatim t.text = true → t.isOp
  taken : ∀ t ∈ (buildCommands Token.text (tokenize line MAX_WORDS)).operators, t.isOp

structure Spaced (line : Str) : Prop where
  apart : Apart MAX_WORDS 0 (lex line)
  words : ∀ text, .word text ∈ (tokensOf line).take MAX_WORDS → '<' ∉ text ∧ '>' ∉ text
  unmistaken : Unmistaken 0 ((tokensOf line).take MAX_WORDS)

theorem takenMem {b : Built Token} {w : Token} : (∀ t ∈ (b.taken w).operators, t.isOp) ↔
    w.isOp ∧ ∀ t ∈ b.operators, t.isOp := List.forall_mem_cons

theorem unmistakenOp {stages : Nat} {text : Str} {rest : List Token} (bar : text ≠ ['|'])
    (plain : isRedirection text = false) :
    Unmistaken stages (.op text :: rest) ↔ Unmistaken stages rest := by
  cases rest <;> simp [Unmistaken, bar, plain]

theorem unmistakenBar {stages : Nat} {rest : List Token} : Unmistaken stages (.op ['|'] :: rest) ↔
    MAX_STAGES ≤ stages + 1 ∨ Unmistaken (stages + 1) rest := by
  cases rest <;> simp [Unmistaken]

theorem unmistakenTarget {stages : Nat} {text : Str} {file : Token} {rest : List Token}
    (redirects : isRedirection text = true) :
    Unmistaken stages (.op text :: file :: rest) ↔ Unmistaken stages rest := by
  have bar : text ≠ ['|'] := fun same => by
    rw [same] at redirects
    exact absurd redirects (by decide)
  rw [Unmistaken, if_neg bar, if_pos redirects]

theorem unmistakenCut {stages : Nat} {text : Str} (redirects : isRedirection text = true) :
    Unmistaken stages [.op text] := by
  have bar : text ≠ ['|'] := fun same => by
    rw [same] at redirects
    exact absurd redirects (by decide)
  rw [Unmistaken, if_neg bar, if_pos redirects]
  trivial

theorem buildUnmistaken {tokens : List Token}
    (words : ∀ text, .word text ∈ tokens → '<' ∉ text ∧ '>' ∉ text)
    (done : List (Command Token)) (cur : Command Token) :
    (∀ t ∈ (buildLoop Token.text MAX_STAGES done cur tokens).operators, t.isOp) ↔
      Unmistaken done.length tokens := by
  have angled : ∀ {text : Str} {tokens : List Token}, isRedirection text = true →
      (∀ text, .word text ∈ tokens → '<' ∉ text ∧ '>' ∉ text) → .word text ∉ tokens := by
    intro text tokens redirects words member
    have clean := words text member
    simp only [isRedirection, decide_eq_true_eq] at redirects
    rcases redirects with rfl | rfl | rfl <;> simp at clean
  fun_induction buildLoop Token.text MAX_STAGES done cur tokens with
  | case1 => exact iff_of_true (fun _ member => absurd member List.not_mem_nil) trivial
  | case2 done cur w rest bar full =>
    cases w with
    | op text =>
      refine iff_of_true (fun t member => ?_) ?_
      · rw [List.mem_singleton.mp member]
        trivial
      · have same : text = ['|'] := bar
        rw [same, unmistakenBar]
        exact .inl full
    | word text => exact iff_of_false (fun all => all _ List.mem_cons_self) fun un => un.1 bar
  | case3 done cur w rest bar more ih =>
    have later : _ ↔ _ := ih fun text member => words text (List.mem_cons_of_mem _ member)
    rw [takenMem, later, List.length_append, List.length_singleton]
    cases w with
    | op text =>
      have same : text = ['|'] := bar
      rw [same, unmistakenBar, or_iff_right more]
      exact and_iff_right trivial
    | word text => exact iff_of_false And.left fun un => un.1 bar
  | case4 done cur w rest bar amp ih =>
    have later : _ ↔ _ := ih fun text member => words text (List.mem_cons_of_mem _ member)
    rw [takenMem, later]
    cases w with
    | op text =>
      have same : text = ['&'] := amp
      subst same
      exact (and_iff_right trivial).trans (unmistakenOp bar (by decide)).symm
    | word text => exact iff_of_false And.left fun un => un.2.1 amp
  | case5 done cur w bar amp less =>
    cases w with
    | op text =>
      have same : text = ['<'] := less
      refine iff_of_true (fun t member => ?_) (unmistakenCut (same ▸ by decide))
      rw [List.mem_singleton.mp member]
      trivial
    | word text =>
      have same : text = ['<'] := less
      exact absurd List.mem_cons_self (angled (same ▸ by decide) words)
  | case6 done cur w bar amp less file rest ih =>
    have later : _ ↔ _ := ih fun text member =>
      words text (List.mem_cons_of_mem _ (List.mem_cons_of_mem _ member))
    rw [takenMem, later]
    have redirects : isRedirection w.text = true := by
      rw [less]
      decide
    cases w with
    | op text => exact (and_iff_right trivial).trans (unmistakenTarget redirects).symm
    | word text => exact absurd List.mem_cons_self (angled redirects words)
  | case7 done cur w bar amp less greater =>
    have redirects : isRedirection w.text = true := by
      simp only [isRedirection, decide_eq_true_eq]
      exact .inr greater
    cases w with
    | op text =>
      refine iff_of_true (fun t member => ?_) (unmistakenCut redirects)
      rw [List.mem_singleton.mp member]
      trivial
    | word text => exact absurd List.mem_cons_self (angled redirects words)
  | case8 done cur w bar amp less greater file rest ih =>
    have later : _ ↔ _ := ih fun text member =>
      words text (List.mem_cons_of_mem _ (List.mem_cons_of_mem _ member))
    rw [takenMem, later]
    have redirects : isRedirection w.text = true := by
      simp only [isRedirection, decide_eq_true_eq]
      exact .inr greater
    cases w with
    | op text => exact (and_iff_right trivial).trans (unmistakenTarget redirects).symm
    | word text => exact absurd List.mem_cons_self (angled redirects words)
  | case9 done cur w rest bar amp less greater room ih =>
    have later : _ ↔ _ := ih fun text member => words text (List.mem_cons_of_mem _ member)
    rw [later]
    have plain : isRedirection w.text = false := by
      simp only [isRedirection, decide_eq_false_iff_not]
      exact fun either => either.elim less greater
    cases w with
    | op text => exact (unmistakenOp bar plain).symm
    | word text => exact ⟨fun un => ⟨bar, amp, un⟩, fun un => un.2.2⟩
  | case10 done cur w rest bar amp less greater room ih =>
    have later : _ ↔ _ := ih fun text member => words text (List.mem_cons_of_mem _ member)
    rw [later]
    have plain : isRedirection w.text = false := by
      simp only [isRedirection, decide_eq_false_iff_not]
      exact fun either => either.elim less greater
    cases w with
    | op text => exact (unmistakenOp bar plain).symm
    | word text => exact ⟨fun un => ⟨bar, amp, un⟩, fun un => un.2.2⟩

abbrev Line := {line : Str // NUL ∉ line}

theorem tokenizeRight (line : Line) : Tokenized line.val ↔ Spaced line.val := by
  have right := scanRight (n := 0) (by decide : OPS < MAX_WORDS) line.val
  rw [← tokenizeScan line.property, Nat.sub_zero] at right
  constructor
  · rintro ⟨tokens, verbatim, taken⟩
    rw [tokens] at verbatim taken
    have words : ∀ text, .word text ∈ (tokensOf line.val).take MAX_WORDS →
        '<' ∉ text ∧ '>' ∉ text := fun text member => by
      have plain : ¬ keptVerbatim text = true := fun kept => verbatim _ member kept
      simpa [keptVerbatim] using plain
    exact ⟨right.mp tokens, words, (buildUnmistaken words [] .empty).mp taken⟩
  · rintro ⟨apart, words, unmistaken⟩
    have tokens := right.mpr apart
    refine ⟨tokens, fun t member kept => ?_, ?_⟩
    · rw [tokens] at member
      cases t with
      | op text => trivial
      | word text =>
        have clean := words text member
        simp only [keptVerbatim, decide_eq_true_eq] at kept
        exact kept.elim clean.1 clean.2
    · rw [tokens]
      exact (buildUnmistaken words [] .empty).mpr unmistaken

/-- The line of the tokenizer's own comment. -/
theorem redirectionSwallowed : ¬ Tokenized "echo a>b".toList := fun right =>
  absurd right.tokens (by decide +kernel)

end Scepter.Sh
