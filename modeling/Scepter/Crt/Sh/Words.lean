import Scepter.Crt.Sh.Tokens

/-! The strings that a command is run with (expand_word and run_subsegment in
crt/coreutil/sh.c): which heap blocks hold them, when these are freed, and what is written
into the buffers of the expansion. Block `k` is what `ewords[k]` points to. -/
namespace Scepter.Sh
open Path (Str)
open CString (NUL)

inductive Buffer where
  | tmp | dirbuf | namebuf | full

def Buffer.size : Buffer → Nat
  | .tmp => 512
  | .dirbuf => 256
  | .namebuf => 128
  | .full => 512

abbrev Store := Buffer × Nat

structure Env where
  lastStatus : Int
  -- the names of a directory
  opendir : Str → Option (List Str)

/-! ## expand_word -/

def digits : Nat → Nat → Str
  | 0, _ => []
  | fuel + 1, n => (if n < 10 then [] else digits fuel (n / 10)) ++ [Char.ofNat (48 + n % 10)]

def decimal (n : Int) : Str :=
  if n < 0 then '-' :: digits 10 n.natAbs else digits 10 n.natAbs

def hasStatus : Str → Bool
  | '$' :: '?' :: _ => true
  | _ :: rest => hasStatus rest
  | [] => false

def snprintf (size : Nat) (text : Str) : Str := text.take (size - 1)

def statusLoop (status : Str) : Str → Str → Str × List Store
  | word, d =>
    match word with
    | '$' :: '?' :: rest =>
      if d.length < Buffer.tmp.size - 16 then
        let (tmp, stores) := statusLoop status rest (d ++ status)
        (tmp, (.tmp, d.length + (snprintf 16 status).length + 1) :: stores)
      else (d, [])
    | c :: rest =>
      if d.length < Buffer.tmp.size - 16 then
        let (tmp, stores) := statusLoop status rest (d ++ [c])
        (tmp, (.tmp, d.length + 1) :: stores)
      else (d, [])
    | [] => (d, [])

def globMatch : Str → Str → Bool
  | [], s => s = []
  | '*' :: pat, [] => globMatch pat []
  | '*' :: pat, c :: s => globMatch pat (c :: s) ∨ globMatch ('*' :: pat) s
  | '?' :: pat, s => match s with
    | [] => false
    | _ :: s => globMatch pat s
  | p :: pat, s => match s with
    | [] => false
    | c :: s => c = p ∧ globMatch pat s
termination_by pat s => pat.length + s.length

def lastSlash : Str → Option (Str × Str)
  | [] => none
  | c :: rest => match lastSlash rest with
    | some (dir, name) => some (c :: dir, name)
    | none => if c = '/' then some ([], rest) else none

structure Pattern where
  dirbuf : Str
  namebuf : Str
  stores : List Store

def pattern (word : Str) : Pattern :=
  match lastSlash word with
  | some (dir, name) =>
    let dirbuf := if dir = [] then ['/'] else dir
    ⟨dirbuf, snprintf Buffer.namebuf.size name,
      [(.dirbuf, dirbuf.length + 1), (.namebuf, (snprintf Buffer.namebuf.size name).length + 1)]⟩
  | none => ⟨['.'], snprintf Buffer.namebuf.size word,
      [(.dirbuf, 2), (.namebuf, (snprintf Buffer.namebuf.size word).length + 1)]⟩

def fullName (dirbuf name : Str) : Str :=
  snprintf Buffer.full.size (if dirbuf = ['.'] then name
    else if dirbuf = ['/'] then '/' :: name
    else dirbuf ++ '/' :: name)

def hidden (namebuf name : Str) : Bool := name.head? = some '.' ∧ namebuf.head? ≠ some '.'

def globLoop (p : Pattern) : Nat → List Str → List Str
  | 0, _ => []
  | _, [] => []
  | max + 1, name :: rest =>
    if hidden p.namebuf name then globLoop p (max + 1) rest
    else if globMatch p.namebuf name then fullName p.dirbuf name :: globLoop p max rest
    else globLoop p (max + 1) rest

def exchange : Str → List Str → Str × List Str
  | a, [] => (a, [])
  | a, b :: rest =>
    if b < a then let (least, others) := exchange b rest; (least, a :: others)
    else let (least, others) := exchange a rest; (least, b :: others)

def bubble : Nat → List Str → List Str
  | 0, out => out
  | _, [] => []
  | count + 1, a :: rest => let (least, others) := exchange a rest; least :: bubble count others

structure Expansion where
  out : List Str
  stores : List Store

def isGlob (word : Str) : Bool := '*' ∈ word ∨ '?' ∈ word

def expandWord (env : Env) (word : Str) (max : Nat) : Expansion :=
  if hasStatus word then
    let (tmp, stores) := statusLoop (decimal env.lastStatus) word []
    ⟨[tmp], stores ++ [(.tmp, tmp.length + 1)]⟩
  else if !isGlob word then ⟨[word], []⟩
  else
    let p := pattern word
    match env.opendir p.dirbuf with
    | none => ⟨[word], p.stores⟩
    | some names =>
      let out := globLoop p max names
      let stores := p.stores ++ out.map fun full => (.full, full.length + 1)
      if out = [] then ⟨[word], stores⟩ else ⟨bubble out.length out, stores⟩

/-! ## run_subsegment -/

def EWORDS : Nat := MAX_WORDS * 2

def expandLoop (env : Env) : List Str → Expansion → Expansion
  | [], e => e
  | word :: rest, e =>
    if e.out.length < EWORDS - 1 then
      if keptVerbatim word then expandLoop env rest ⟨e.out ++ [word], e.stores⟩
      else
        let x := expandWord env word (EWORDS - e.out.length - 1)
        expandLoop env rest ⟨e.out ++ x.out, e.stores ++ x.stores⟩
    else e

structure Block where
  text : Str
  live : Bool

def Block.free (b : Block) : Block := {b with live := false}

structure Ran where
  -- what expansion gave, and its blocks when the commands run
  ewords : List Str
  heap : List Block
  -- the blocks that the commands are run with
  passed : List Nat
  stores : List Store

def Command.passed (c : Command Nat) : List Nat :=
  if c.argv = [] then [] else c.argv ++ c.inFile.toList ++ c.outFile.toList

def runsOf {α : Type} (started : Nat) : List (Command α) → List (Command α)
  | [cmd] => [cmd]
  | cmds => cmds.take started

def wordsOf (seg : Str) : List Str := (tokenize seg MAX_WORDS).map Token.text

def runSubsegment (env : Env) (started : Nat) (seg : Str) : Ran :=
  let e := expandLoop env (wordsOf seg) ⟨[], []⟩
  let heap := e.out.map fun text => (⟨text, true⟩ : Block)
  let text k := (heap[k]?.map Block.text).getD []
  let cmds := (buildCommands text (List.range e.out.length)).cmds
  let heap := heap.map Block.free
  ⟨e.out, heap, (runsOf started (cmds.getD [])).flatMap Command.passed, e.stores⟩

/-! ## What is asked of it -/

structure Sound (r : Ran) : Prop where
  live : ∀ k ∈ r.passed, ∃ text, r.ewords[k]? = some text ∧ r.heap[k]? = some ⟨text, true⟩
  within : ∀ store ∈ r.stores, store.2 ≤ store.1.size

def DirFits (word : Str) : Prop :=
  hasStatus word = false → isGlob word = true → ∀ dir name, lastSlash word = some (dir, name) →
    dir.length < Buffer.dirbuf.size

structure Harmless (env : Env) (started : Nat) (seg : Str) : Prop where
  idle : ∀ cmds, (buildCommands id (expandLoop env (wordsOf seg) ⟨[], []⟩).out).cmds = some cmds →
    ∀ c ∈ runsOf started cmds, c.argv = []
  short : ∀ before word after, wordsOf seg = before ++ word :: after →
    (expandLoop env before ⟨[], []⟩).out.length < EWORDS - 1 → keptVerbatim word = false →
    DirFits word

/-! ## The buffers -/

section buffers

variable {env : Env} {word d : Str} {max : Nat}

theorem digitsLength (fuel n : Nat) : (digits fuel n).length ≤ fuel := by
  induction fuel generalizing n with
  | zero => exact Nat.le_refl 0
  | succ fuel ih =>
    unfold digits
    rw [List.length_append, List.length_singleton]
    split
    · exact Nat.succ_le_succ (Nat.zero_le fuel)
    · exact Nat.succ_le_succ (ih _)

theorem decimalLength (n : Int) : (decimal n).length ≤ 11 := by
  have tens := digitsLength 10 n.natAbs
  unfold decimal
  split
  · exact Nat.succ_le_succ tens
  · omega

theorem snprintfLength (size : Nat) (text : Str) : (snprintf size text).length ≤ size - 1 :=
  List.length_take_le _ _

theorem statusLoopWithin {status : Str} (few : status.length ≤ 11) (word : Str)
    (room : d.length ≤ 506) : (statusLoop status word d).1.length ≤ 506 ∧
      ∀ store ∈ (statusLoop status word d).2, store.2 ≤ store.1.size := by
  have size : Buffer.tmp.size = 512 := rfl
  fun_induction statusLoop status word d with
  | case1 d rest less tmp stores same ih =>
    have print := snprintfLength 16 status
    obtain ⟨long, within⟩ := ih (by rw [List.length_append]; omega)
    rw [same] at long within
    refine ⟨long, fun store member => ?_⟩
    rcases List.mem_cons.mp member with rfl | later
    · dsimp only
      omega
    · exact within store later
  | case2 d rest less => exact ⟨room, fun _ member => absurd member List.not_mem_nil⟩
  | case3 d c rest other less tmp stores same ih =>
    obtain ⟨long, within⟩ := ih (by
      rw [List.length_append, List.length_singleton]
      omega)
    rw [same] at long within
    refine ⟨long, fun store member => ?_⟩
    rcases List.mem_cons.mp member with rfl | later
    · dsimp only
      omega
    · exact within store later
  | case4 d c rest other less => exact ⟨room, fun _ member => absurd member List.not_mem_nil⟩
  | case5 d => exact ⟨room, fun _ member => absurd member List.not_mem_nil⟩

theorem fullNameLength (dirbuf name : Str) : (fullName dirbuf name).length + 1 ≤ 512 := by
  have print := snprintfLength Buffer.full.size (if dirbuf = ['.'] then name
    else if dirbuf = ['/'] then '/' :: name else dirbuf ++ '/' :: name)
  have size : Buffer.full.size = 512 := rfl
  unfold fullName
  omega

theorem globLoopFull {p : Pattern} {names : List Str} :
    ∀ full ∈ globLoop p max names, full.length + 1 ≤ 512 := by
  fun_induction globLoop p max names with
  | case1 => exact fun _ member => absurd member List.not_mem_nil
  | case2 => exact fun _ member => absurd member List.not_mem_nil
  | case3 max name rest hid ih => exact ih
  | case4 max name rest hid hit ih =>
    intro full member
    rcases List.mem_cons.mp member with rfl | later
    · exact fullNameLength _ _
    · exact ih full later
  | case5 max name rest hid hit ih => exact ih

theorem patternWithin (word : Str) : (∀ store ∈ (pattern word).stores, store.2 ≤ store.1.size) ↔
    ∀ dir name, lastSlash word = some (dir, name) → dir.length < Buffer.dirbuf.size := by
  have named : ∀ name, (snprintf Buffer.namebuf.size name).length + 1 ≤ Buffer.namebuf.size :=
    fun name => by
      have print := snprintfLength Buffer.namebuf.size name
      have size : Buffer.namebuf.size = 128 := rfl
      omega
  have two : 2 ≤ Buffer.dirbuf.size := by decide
  unfold pattern
  cases split : lastSlash word with
  | none =>
    simp only [List.forall_mem_cons, named, two, true_and]
    simp
  | some parts =>
    obtain ⟨dir, name⟩ := parts
    simp only [List.forall_mem_cons, named, true_and]
    by_cases root : dir = []
    · subst root
      simp [two]
      decide
    · rw [if_neg root]
      constructor
      · rintro ⟨fits, _⟩ _ _ same
        cases same
        exact fits
      · exact fun fits => ⟨fits dir name rfl, fun _ member => absurd member List.not_mem_nil⟩

theorem expandWordWithin (env : Env) (word : Str) (max : Nat) :
    (∀ store ∈ (expandWord env word max).stores, store.2 ≤ store.1.size) ↔ DirFits word := by
  unfold expandWord DirFits
  by_cases status : hasStatus word = true
  · rw [if_pos status]
    obtain ⟨long, within⟩ := @statusLoopWithin [] _ (decimalLength env.lastStatus) word (Nat.zero_le 506)
    generalize statusLoop (decimal env.lastStatus) word [] = r at long within ⊢
    obtain ⟨tmp, stores⟩ := r
    refine iff_of_true (fun store member => ?_) fun none => ?_
    · rcases List.mem_append.mp member with loop | last
      · exact within store loop
      · rw [List.mem_singleton.mp last]
        have size : Buffer.tmp.size = 512 := rfl
        dsimp only at long ⊢
        omega
    · rw [status] at none
      cases none
  rw [if_neg status]
  by_cases glob : isGlob word = true
  · have plain : (!isGlob word) = false := by rw [glob]; rfl
    have only : (hasStatus word = false → isGlob word = true → ∀ dir name,
        lastSlash word = some (dir, name) → dir.length < Buffer.dirbuf.size) ↔
        ∀ dir name, lastSlash word = some (dir, name) → dir.length < Buffer.dirbuf.size :=
      ⟨fun fits => fits (by simpa using status) glob, fun fits _ _ => fits⟩
    rw [plain, if_neg Bool.false_ne_true, only, ← patternWithin]
    dsimp only
    cases opened : env.opendir (pattern word).dirbuf with
    | none => exact Iff.rfl
    | some names =>
      have full : ∀ store ∈ (globLoop (pattern word) max names).map
          (fun full => ((.full, full.length + 1) : Store)), store.2 ≤ store.1.size := by
        intro store member
        obtain ⟨text, found, rfl⟩ := List.mem_map.mp member
        exact globLoopFull text found
      have both : (∀ store ∈ (pattern word).stores ++ (globLoop (pattern word) max names).map
          (fun full => ((.full, full.length + 1) : Store)), store.2 ≤ store.1.size) ↔
          ∀ store ∈ (pattern word).stores, store.2 ≤ store.1.size := by
        rw [List.forall_mem_append, and_iff_left full]
      dsimp only
      split <;> exact both
  · have plain : (!isGlob word) = true := by simpa using glob
    rw [plain, if_pos rfl]
    exact iff_of_true (fun _ member => absurd member List.not_mem_nil) fun _ yes => absurd yes glob

theorem expandLoopFull {e : Expansion} (full : ¬ e.out.length < EWORDS - 1) (words : List Str) :
    expandLoop env words e = e := by
  cases words with
  | nil => rfl
  | cons word rest =>
    unfold expandLoop
    rw [if_neg full]

theorem expandLoopWithin (words : List Str) (e : Expansion) :
    (∀ store ∈ (expandLoop env words e).stores, store.2 ≤ store.1.size) ↔
      (∀ store ∈ e.stores, store.2 ≤ store.1.size) ∧
        ∀ before word after, words = before ++ word :: after →
          (expandLoop env before e).out.length < EWORDS - 1 → keptVerbatim word = false →
          DirFits word := by
  induction words generalizing e with
  | nil =>
    exact (and_iff_left fun before word after split => absurd split.symm (by simp)).symm
  | cons first rest ih =>
    by_cases room : e.out.length < EWORDS - 1
    · -- what the first word adds, and then the rest by induction
      have cons : ∀ e', (∀ before, expandLoop env (first :: before) e = expandLoop env before e') →
          ((∀ store ∈ e'.stores, store.2 ≤ store.1.size) ↔
            (∀ store ∈ e.stores, store.2 ≤ store.1.size) ∧
              (keptVerbatim first = false → DirFits first)) →
          ((∀ store ∈ (expandLoop env (first :: rest) e).stores, store.2 ≤ store.1.size) ↔
            (∀ store ∈ e.stores, store.2 ≤ store.1.size) ∧
              ∀ before word after, first :: rest = before ++ word :: after →
                (expandLoop env before e).out.length < EWORDS - 1 → keptVerbatim word = false →
                DirFits word) := by
        intro e' goes stores
        rw [goes, ih, stores, and_assoc]
        refine and_congr_right fun _ => ⟨?_, fun all => ⟨?_, ?_⟩⟩
        · rintro ⟨head, tail⟩ before word after split
          cases before with
          | nil =>
            cases split
            exact fun _ => head
          | cons b before =>
            rw [List.cons_append] at split
            obtain ⟨rfl, later⟩ := List.cons.inj split
            rw [goes]
            exact tail before word after later
        · exact all [] first rest rfl room
        · intro before word after split
          have later := all (first :: before) word after (congrArg (first :: ·) split)
          rwa [goes] at later
      by_cases kept : keptVerbatim first = true
      · refine cons ⟨e.out ++ [first], e.stores⟩ (fun before => ?_) ?_
        · conv => lhs; unfold expandLoop
          rw [if_pos room, if_pos kept]
        · exact (and_iff_left fun no => absurd (no.symm.trans kept) Bool.false_ne_true).symm
      · refine cons ⟨e.out ++ (expandWord env first (EWORDS - e.out.length - 1)).out,
          e.stores ++ (expandWord env first (EWORDS - e.out.length - 1)).stores⟩ (fun before => ?_) ?_
        · conv => lhs; unfold expandLoop
          rw [if_pos room, if_neg kept]
        · rw [List.forall_mem_append, expandWordWithin]
          exact and_congr_right fun _ => ⟨fun fits _ => fits, fun fits => fits (by simpa using kept)⟩
    · rw [expandLoopFull room]
      refine (and_iff_left fun before word after _ less => absurd less ?_).symm
      rw [expandLoopFull room]
      exact room

end buffers

/-! ## The blocks -/

section blocks

variable {α β : Type}

def Command.map (f : α → β) (c : Command α) : Command β :=
  ⟨c.argv.map f, c.inFile.map f, c.outFile.map f, c.append, c.background⟩

section turns

variable {text : α → Str} {maxStages : Nat} {done : List (Command α)} {cur : Command α} {w : α}
  {rest : List α}

theorem buildBar (bar : text w = ['|']) : buildLoop text maxStages done cur (w :: rest) =
    if maxStages ≤ done.length + 1 then ⟨none, [w]⟩
    else (buildLoop text maxStages (done ++ [cur]) .empty rest).taken w := by
  cases rest <;> simp [buildLoop, bar]

theorem buildAmp (amp : text w = ['&']) : buildLoop text maxStages done cur (w :: rest) =
    (buildLoop text maxStages done {cur with background := true} rest).taken w := by
  cases rest <;> simp [buildLoop, amp]

theorem buildWord (bar : text w ≠ ['|']) (amp : text w ≠ ['&']) (less : text w ≠ ['<'])
    (greater : ¬ (text w = ['>'] ∨ text w = ['>', '>'])) :
    buildLoop text maxStages done cur (w :: rest) =
      if cur.argv.length < MAX_ARGS - 1 then
        buildLoop text maxStages done {cur with argv := cur.argv ++ [w]} rest
      else buildLoop text maxStages done cur rest := by
  cases rest <;> simp [buildLoop, bar, amp, less, greater]

end turns

theorem buildLoopMap (f : α → β) (text : β → Str) (maxStages : Nat) (done : List (Command α))
    (cur : Command α) (words : List α) :
    (buildLoop text maxStages (done.map (Command.map f)) (cur.map f) (words.map f)).cmds =
      (buildLoop (fun a => text (f a)) maxStages done cur words).cmds.map
        (List.map (Command.map f)) := by
  fun_induction buildLoop (fun a => text (f a)) maxStages done cur words with
  | case1 done cur => simp [buildLoop]
  | case2 done cur w rest bar full =>
    rw [List.map_cons, buildBar bar, List.length_map, if_pos full]
    rfl
  | case3 done cur w rest bar more ih =>
    rw [List.map_cons, buildBar bar, List.length_map, if_neg more]
    rw [List.map_append] at ih
    exact ih
  | case4 done cur w rest bar amp ih =>
    rw [List.map_cons, buildAmp amp]
    exact ih
  | case5 done cur w bar amp less => simp [buildLoop, less]
  | case6 done cur w bar amp less file rest ih =>
    simp only [List.map_cons, buildLoop, less]
    exact ih
  | case7 done cur w bar amp less greater => simp [buildLoop, bar, amp, less, greater]
  | case8 done cur w bar amp less greater file rest ih =>
    simp only [List.map_cons, buildLoop, bar, amp, less, greater, if_true, if_false]
    exact ih
  | case9 done cur w rest bar amp less greater room ih =>
    have room' : (cur.map f).argv.length < MAX_ARGS - 1 := by
      rw [Command.map, List.length_map]
      exact room
    rw [List.map_cons, buildWord bar amp less greater, if_pos room', ← ih]
    simp [Command.map]
  | case10 done cur w rest bar amp less greater room ih =>
    have room' : ¬ (cur.map f).argv.length < MAX_ARGS - 1 := by
      rw [Command.map, List.length_map]
      exact room
    rw [List.map_cons, buildWord bar amp less greater, if_neg room', ← ih]

theorem runsOfMap (f : α → β) (started : Nat) (cmds : List (Command α)) :
    runsOf started (cmds.map (Command.map f)) = (runsOf started cmds).map (Command.map f) := by
  rcases cmds with _ | ⟨a, _ | ⟨b, rest⟩⟩
  · simp [runsOf]
  · rfl
  · simp [runsOf, List.map_take]

theorem passedNil (cmds : List (Command Nat)) :
    cmds.flatMap Command.passed = [] ↔ ∀ c ∈ cmds, c.argv = [] := by
  rw [List.flatMap_eq_nil_iff]
  refine forall_congr' fun c => imp_congr_right fun _ => ?_
  unfold Command.passed
  constructor
  · intro none
    by_contra named
    rw [if_neg named] at none
    exact named (List.append_eq_nil_iff.mp (List.append_eq_nil_iff.mp none).1).1
  · exact fun none => if_pos none

end blocks

def textAt (ewords : List Str) (k : Nat) : Str :=
  ((ewords.map fun text => (⟨text, true⟩ : Block))[k]?.map Block.text).getD []

theorem textsAt (ewords : List Str) : (List.range ewords.length).map (textAt ewords) = ewords := by
  refine List.ext_getElem (by simp) fun k inside _ => ?_
  rw [List.length_map, List.length_range] at inside
  simp [textAt, inside]

theorem commandsAt (ewords : List Str) :
    (buildCommands (textAt ewords) (List.range ewords.length)).cmds.map
      (List.map (Command.map (textAt ewords))) = (buildCommands id ewords).cmds := by
  have same := buildLoopMap (textAt ewords) id MAX_STAGES [] .empty (List.range ewords.length)
  rw [textsAt] at same
  exact same.symm

theorem liveNone (env : Env) (started : Nat) (seg : Str) :
    (∀ k ∈ (runSubsegment env started seg).passed, ∃ text,
      (runSubsegment env started seg).ewords[k]? = some text ∧
        (runSubsegment env started seg).heap[k]? = some ⟨text, true⟩) ↔
      (runSubsegment env started seg).passed = [] := by
  constructor
  · intro all
    refine List.eq_nil_iff_forall_not_mem.mpr fun k member => ?_
    obtain ⟨text, _, live⟩ := all k member
    unfold runSubsegment at live
    dsimp only at live
    rw [List.getElem?_map, Option.map_eq_some_iff] at live
    obtain ⟨block, _, freed⟩ := live
    exact absurd (congrArg Block.live freed) Bool.false_ne_true
  · intro none k member
    rw [none] at member
    exact absurd member List.not_mem_nil

theorem idleIff (started : Nat) (ewords : List Str) :
    (runsOf started ((buildCommands (textAt ewords) (List.range ewords.length)).cmds.getD [])).flatMap
      Command.passed = [] ↔
      ∀ cmds, (buildCommands id ewords).cmds = some cmds → ∀ c ∈ runsOf started cmds, c.argv = [] := by
  rw [passedNil, ← commandsAt]
  cases (buildCommands (textAt ewords) (List.range ewords.length)).cmds with
  | none =>
    refine iff_of_true (fun c member => ?_) fun cmds no => by cases no
    simp [runsOf] at member
  | some cmds =>
    rw [Option.getD_some]
    constructor
    · intro all cmds' same c member
      cases same
      rw [runsOfMap] at member
      obtain ⟨c', inside, rfl⟩ := List.mem_map.mp member
      rw [Command.map, all c' inside]
      rfl
    · intro all c member
      have mapped := all _ rfl (c.map (textAt ewords))
        (by rw [runsOfMap]; exact List.mem_map_of_mem member)
      exact List.map_eq_nil_iff.mp mapped

theorem wordsSound (env : Env) (started : Nat) (seg : Str) :
    Sound (runSubsegment env started seg) ↔ Harmless env started seg := by
  have idle := (liveNone env started seg).trans
    (idleIff started (expandLoop env (wordsOf seg) ⟨[], []⟩).out)
  have within := @expandLoopWithin env (wordsOf seg) ⟨[], []⟩
  rw [and_iff_right fun _ member => absurd member List.not_mem_nil] at within
  exact ⟨fun sound => ⟨idle.mp sound.live, within.mp sound.within⟩,
    fun harmless => ⟨idle.mpr harmless.idle, within.mpr harmless.short⟩⟩

/-- A command with any environment. -/
theorem echoUsesFreed : ¬ Sound (runSubsegment ⟨0, fun _ => none⟩ 0 "echo".toList) := by
  intro sound
  obtain ⟨text, _, live⟩ := sound.live 0 (by decide)
  have freed : (runSubsegment ⟨0, fun _ => none⟩ 0 "echo".toList).heap[0]? =
      some ⟨"echo".toList, false⟩ := by rfl
  rw [freed] at live
  cases live

end Scepter.Sh
