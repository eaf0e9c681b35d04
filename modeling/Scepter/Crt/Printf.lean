import Scepter.Lib.CInt
import Scepter.Lib.CString
import Mathlib.Algebra.Group.Nat.Defs
import Mathlib.Data.List.Basic

/-! The formatter behind the printf family (crt/libc/stdio/vsnprintf.c) on i386: the scan of
a conversion, the characters of each conversion, and what vsnprintf leaves in the buffer. A
character of the format is a byte other than NUL, and signed arithmetic wraps. -/
namespace Scepter.Printf
open Path (Str)
open CString (Mem NUL)
open CInt (int intFits)

/-- The words that va_arg takes one after the other, and the strings that they point to; an
object is shorter than 2 GiB. -/
structure Va where
  word : Nat → BitVec 32
  string : BitVec 32 → Str
  short : ∀ p, (string p).length < 2 ^ 31

/-- fmt_t. Of a buffer, its characters by their offsets, and the offsets of the stores; `sent`
went to write or putchar. -/
structure Fmt where
  buf : Option Mem
  size : Nat
  len : Nat
  discard : Bool
  fd : Int
  stores : List Nat
  sent : Str

def outCh (f : Fmt) (c : Char) : Fmt :=
  let len := (f.len + 1) % 2 ^ 32
  if f.discard then {f with len := len}
  else match f.buf with
    | none => {f with sent := f.sent ++ [c], len := len}
    | some m =>
      if f.size = 0 ∨ f.len < f.size then
        {f with buf := some (Function.update m f.len c), stores := f.len :: f.stores, len := len}
      else {f with len := len}

def outAll (f : Fmt) (text : Str) : Fmt := text.foldl outCh f

/-! ## Numbers -/

def digit (upper : Bool) (n : Nat) : Char :=
  (if upper then "0123456789ABCDEF" else "0123456789abcdef").toList.getD n NUL

def tmpDigits (base : Nat) (upper : Bool) : Nat → Nat → Str
  | 0, _ => []
  | n + 1, v => if v > 0 then digit upper (v % base) :: tmpDigits base upper n (v / base) else []

def times (c : Char) (n : Int) : Str := List.replicate n.toNat c

def outNumber (v base : Nat) (upper : Bool) (width prec : Int) (left : Bool) (pad : Char)
    (neg showplus space alt : Bool) : Str :=
  let tmp := (if v = 0 ∧ prec ≠ 0 then ['0'] else []) ++ tmpDigits base upper 40 v
  let ndig : Int := tmp.length
  let sign := if neg then ['-'] else if showplus then ['+'] else if space then [' '] else []
  let pre := sign ++
    if alt ∧ base = 16 then ['0', if upper then 'X' else 'x']
    else if alt ∧ base = 8 ∧ ndig > 0 ∧ tmp.getLast? ≠ some '0' then ['0']
    else []
  let zeros := if prec > ndig then prec - ndig else 0
  let body := ndig + zeros
  let total := int (pre.length + body)
  if pad = '0' ∧ prec ≤ 0 then
    let nz := int (width - total)
    let nz := if nz < 0 then 0 else nz
    pre ++ times '0' nz ++ times '0' zeros ++ tmp.reverse
  else
    let sp := int (width - total)
    (if sp > 0 ∧ !left then times ' ' sp else []) ++ pre ++ times '0' zeros ++ tmp.reverse ++
      if sp > 0 ∧ left then times ' ' sp else []

/-! ## The scan of a conversion -/

structure Flags where
  left : Bool
  showplus : Bool
  space : Bool
  alt : Bool
  pad : Char

structure Scan where
  flags : Flags
  width : Int
  prec : Int
  ap : Nat
  rest : Str

def flagLoop (fl : Flags) : Str → Flags × Str
  | [] => (fl, [])
  | c :: fmt =>
    if c = '-' then flagLoop {fl with left := true, pad := ' '} fmt
    else if c = '+' then flagLoop {fl with showplus := true} fmt
    else if c = ' ' then flagLoop {fl with space := true} fmt
    else if c = '#' then flagLoop {fl with alt := true} fmt
    else if c = '0' then flagLoop (if fl.left then fl else {fl with pad := '0'}) fmt
    else (fl, c :: fmt)

def isDigit (c : Char) : Bool := '0' ≤ c ∧ c ≤ '9'

def number (n : Int) : Str → Int × Str
  | [] => (n, [])
  | c :: fmt => if isDigit c then number (int (n * 10 + (c.toNat - 48))) fmt else (n, c :: fmt)

def scanWidth (va : Va) (s : Scan) : Scan :=
  match s.rest with
  | '*' :: fmt =>
    let width := (va.word s.ap).toInt
    if width < 0 then
      {s with flags := {s.flags with left := true}, width := int (-width), ap := s.ap + 1, rest := fmt}
    else {s with width := width, ap := s.ap + 1, rest := fmt}
  | fmt => {s with width := (number 0 fmt).1, rest := (number 0 fmt).2}

def scanPrec (va : Va) (s : Scan) : Scan :=
  match s.rest with
  | '.' :: '*' :: fmt =>
    let prec := (va.word s.ap).toInt
    {s with prec := if prec < 0 then -1 else prec, ap := s.ap + 1, rest := fmt}
  | '.' :: fmt => {s with prec := (number 0 fmt).1, rest := (number 0 fmt).2}
  | _ => s

def isLength (c : Char) : Bool := c = 'l' ∨ c = 'h' ∨ c = 'z' ∨ c = 't' ∨ c = 'j'

def scan (va : Va) (ap : Nat) (fmt : Str) : Scan :=
  let fl := flagLoop ⟨false, false, false, false, ' '⟩ fmt
  let s := scanPrec va (scanWidth va ⟨fl.1, 0, -1, ap, fl.2⟩)
  {s with rest := s.rest.dropWhile isLength}

def convert (va : Va) (s : Scan) (ch : Char) : Str × Nat :=
  let fl := s.flags
  let arg := va.word s.ap
  if ch = 'd' ∨ ch = 'i' then
    let v := arg.toInt
    (if v < 0 then
      outNumber (-v).toNat 10 false s.width s.prec fl.left fl.pad true false false false
    else
      outNumber v.toNat 10 false s.width s.prec fl.left fl.pad false fl.showplus fl.space false,
      s.ap + 1)
  else if ch = 'u' then
    (outNumber arg.toNat 10 false s.width s.prec fl.left fl.pad false false false false, s.ap + 1)
  else if ch = 'x' then
    (outNumber arg.toNat 16 false s.width s.prec fl.left fl.pad false false false fl.alt, s.ap + 1)
  else if ch = 'X' then
    (outNumber arg.toNat 16 true s.width s.prec fl.left fl.pad false false false fl.alt, s.ap + 1)
  else if ch = 'o' then
    (outNumber arg.toNat 8 false s.width s.prec fl.left fl.pad false false false fl.alt, s.ap + 1)
  else if ch = 'p' then
    (outNumber arg.toNat 16 false s.width s.prec fl.left fl.pad false false false true, s.ap + 1)
  else if ch = 'c' then
    let c := Char.ofNat (arg.toNat % 256)
    (if fl.left then c :: times ' ' (s.width - 1) else times ' ' (s.width - 1) ++ [c], s.ap + 1)
  else if ch = 's' then
    let string := if arg = 0 then "(null)".toList else va.string arg
    let len : Int := string.length
    let len := if s.prec ≥ 0 ∧ len > s.prec then s.prec else len
    let text := string.take len.toNat
    (if fl.left then text ++ times ' ' (s.width - len) else times ' ' (s.width - len) ++ text,
      s.ap + 1)
  else (['%', ch], s.ap)

/-! ## The run over the format -/

theorem numberRest (n : Int) (fmt : Str) : (number n fmt).2 = fmt.dropWhile isDigit := by
  induction fmt generalizing n with
  | nil => rfl
  | cons c fmt ih =>
    unfold number
    rw [List.dropWhile_cons]
    split
    · exact ih _
    · rfl

def isFlag (c : Char) : Bool := c = '-' ∨ c = '+' ∨ c = ' ' ∨ c = '#' ∨ c = '0'

def behindField : Str → Str
  | '*' :: fmt => fmt
  | fmt => fmt.dropWhile isDigit

def behindPrec : Str → Str
  | '.' :: fmt => behindField fmt
  | fmt => fmt

def named (fmt : Str) : Str :=
  (behindPrec (behindField (fmt.dropWhile isFlag))).dropWhile isLength

theorem flagLoopFlags (fl : Flags) (fmt : Str) : (flagLoop fl fmt).2 = fmt.dropWhile isFlag := by
  induction fmt generalizing fl with
  | nil => rfl
  | cons c fmt ih =>
    rw [List.dropWhile_cons]
    unfold flagLoop
    by_cases flag : isFlag c
    · rw [if_pos flag]
      unfold isFlag at flag
      repeat' split
      all_goals first | exact ih _ | simp_all
    · rw [if_neg flag]
      unfold isFlag at flag
      repeat' split
      all_goals first | rfl | simp_all

theorem scanNamed (va : Va) (ap : Nat) (fmt : Str) : (scan va ap fmt).rest = named fmt := by
  have width : ∀ s, (scanWidth va s).rest = behindField s.rest := by
    intro s
    unfold scanWidth
    split
    · rename_i rest shape
      rw [shape]
      dsimp only
      split <;> rfl
    · rename_i other
      unfold behindField
      split
      · rename_i rest shape
        exact absurd shape (other rest)
      · exact numberRest 0 s.rest
  have prec : ∀ s, (scanPrec va s).rest = behindPrec s.rest := by
    intro s
    unfold scanPrec
    split <;> rename_i shape
    · rw [shape]
      rfl
    · rename_i rest other
      rw [shape]
      show _ = behindField rest
      unfold behindField
      split
      · rename_i rest'
        exact absurd rfl (other rest')
      · exact numberRest 0 rest
    · unfold behindPrec
      split
      · rename_i rest here
        exact (shape rest here).elim
      · rfl
  show List.dropWhile isLength _ = _
  rw [prec, width, flagLoopFlags]
  rfl

theorem behindFieldSuffix (fmt : Str) : behindField fmt <:+ fmt := by
  unfold behindField
  split
  · exact List.suffix_cons ..
  · exact List.dropWhile_suffix _

theorem namedSuffix (fmt : Str) : named fmt <:+ fmt := by
  have prec : ∀ s, behindPrec s <:+ s := by
    intro s
    unfold behindPrec
    split
    · exact (behindFieldSuffix _).trans (List.suffix_cons ..)
    · exact List.suffix_refl _
  exact (List.dropWhile_suffix _).trans
    ((prec _).trans ((behindFieldSuffix _).trans (List.dropWhile_suffix _)))

theorem namedShorter {fmt rest : Str} {ch : Char} (found : named fmt = ch :: rest) :
    rest.length < fmt.length := by
  have short := (namedSuffix fmt).length_le
  rwa [found, List.length_cons] at short

def fmtRun (va : Va) (f : Fmt) (ap : Nat) : Str → Option Fmt
  | [] => some f
  | c :: fmt =>
    if c ≠ '%' then fmtRun va (outCh f c) ap fmt
    else if fmt.head? = some '%' then fmtRun va (outCh f '%') ap fmt.tail
    else match _found : (scan va ap fmt).rest with
      | [] => none
      | ch :: rest =>
        let done := convert va (scan va ap fmt) ch
        fmtRun va (outAll f done.1) done.2 rest
termination_by fmt => fmt.length
decreasing_by
  · exact Nat.lt_succ_self _
  · rw [List.length_tail, List.length_cons]; omega
  · exact Nat.lt_succ_of_lt (namedShorter ((scanNamed va ap fmt).symm.trans _found))

structure Printed where
  ret : Int
  mem : Mem
  stores : List Nat

def counting : Fmt := ⟨none, 0, 0, true, -1, [], []⟩

def counted (s : Mem) (f : Fmt) : Printed := ⟨int f.len, s, f.stores⟩

def storing (s : Mem) (size : Nat) : Fmt := ⟨some s, size - 1, 0, false, -1, [], []⟩

def finish (s : Mem) (size : Nat) (f : Fmt) : Printed :=
  let pos := if f.len < size - 1 then f.len else size - 1
  ⟨int f.len, Function.update (f.buf.getD s) pos NUL, pos :: f.stores⟩

def vsnprintf (va : Va) (s : Mem) (size : Nat) (fmt : Str) : Option Printed :=
  if size = 0 then (fmtRun va counting 0 fmt).map (counted s)
  else (fmtRun va (storing s size) 0 fmt).map (finish s size)

/-! ## What is printed -/

def emits (va : Va) (ap : Nat) : Str → Option Str
  | [] => some []
  | c :: fmt =>
    if c ≠ '%' then (emits va ap fmt).map ([c] ++ ·)
    else if fmt.head? = some '%' then (emits va ap fmt.tail).map (['%'] ++ ·)
    else match _found : named fmt with
      | [] => none
      | ch :: rest =>
        let done := convert va (scan va ap fmt) ch
        (emits va done.2 rest).map (done.1 ++ ·)
termination_by fmt => fmt.length
decreasing_by
  · exact Nat.lt_succ_self _
  · rw [List.length_tail, List.length_cons]; omega
  · exact Nat.lt_succ_of_lt (namedShorter _found)

def whole : Str → Bool
  | [] => true
  | c :: fmt =>
    if c ≠ '%' then whole fmt
    else match _found : named fmt with
      | [] => false
      | _ :: rest => whole rest
termination_by fmt => fmt.length
decreasing_by
  · exact Nat.lt_succ_self _
  · exact Nat.lt_succ_of_lt (namedShorter _found)

/-- vsnprintf does what is said of it: all stores are inside the buffer, which holds as much
of the full output as there is room for, and the length of the full output is returned. -/
def Prints (va : Va) (s : Mem) (size : Nat) (fmt : Str) : Prop :=
  ∃ text p, emits va 0 fmt = some text ∧ vsnprintf va s size fmt = some p ∧
    p.ret = text.length ∧ (∀ k ∈ p.stores, k < size) ∧ (∀ k, k ∉ p.stores → p.mem k = s k) ∧
    (0 < size →
      (List.range (min text.length (size - 1))).map p.mem = text.take (size - 1) ∧
        p.mem (min text.length (size - 1)) = NUL)

variable {va : Va} {f : Fmt} {m : Mem} {s : Mem} {ap size : Nat} {fmt text more : Str} {c : Char}

theorem outAllAppend (f : Fmt) (text more : Str) :
    outAll f (text ++ more) = outAll (outAll f text) more := List.foldl_append

theorem mapAppend (f : Fmt) (text : Str) (o : Option Str) :
    (o.map (text ++ ·)).map (outAll f) = o.map (outAll (outAll f text)) := by
  cases o with
  | none => rfl
  | some more => exact congrArg some (outAllAppend f text more)

theorem fmtRunEmits (va : Va) (f : Fmt) (ap : Nat) (fmt : Str) :
    fmtRun va f ap fmt = (emits va ap fmt).map (outAll f) := by
  induction ap, fmt using emits.induct va generalizing f with
  | case1 ap =>
    rw [fmtRun, emits]
    rfl
  | case2 ap c fmt plain ih =>
    rw [fmtRun, emits, if_pos plain, if_pos plain, mapAppend, ih]
    rfl
  | case3 ap c fmt sign again ih =>
    rw [fmtRun, emits, if_neg sign, if_neg sign, if_pos again, if_pos again, mapAppend, ih]
    rfl
  | case4 ap c fmt sign other found =>
    rw [fmtRun, emits, if_neg sign, if_neg sign, if_neg other, if_neg other]
    split <;> rename_i here <;> rw [scanNamed, found] at here
    · split <;> rename_i there
      · rfl
      · rw [found] at there
        cases there
    · cases here
  | case5 ap c fmt sign other ch rest found done ih =>
    rw [fmtRun, emits, if_neg sign, if_neg sign, if_neg other, if_neg other]
    split <;> rename_i here <;> rw [scanNamed, found] at here
    · cases here
    · cases here
      split <;> rename_i there <;> rw [found] at there <;> cases there
      rw [mapAppend]
      exact ih _

theorem emitsWhole (va : Va) (ap : Nat) (fmt : Str) : (emits va ap fmt).isSome = whole fmt := by
  induction ap, fmt using emits.induct va with
  | case1 ap =>
    rw [emits, whole]
    rfl
  | case2 ap c fmt plain ih => rw [emits, whole, if_pos plain, if_pos plain, Option.isSome_map, ih]
  | case3 ap c fmt sign again ih =>
    rw [emits, whole, if_neg sign, if_neg sign, if_pos again, Option.isSome_map, ih]
    obtain ⟨rest, rfl⟩ := List.head?_eq_some_iff.mp again
    split <;> rename_i found <;> cases found
    rfl
  | case4 ap c fmt sign other found =>
    rw [emits, whole, if_neg sign, if_neg sign, if_neg other]
    split <;> rename_i here <;> rw [found] at here <;> cases here
    rfl
  | case5 ap c fmt sign other ch rest found done ih =>
    rw [emits, whole, if_neg sign, if_neg sign, if_neg other]
    split <;> rename_i here <;> rw [found] at here <;> cases here
    dsimp only
    rw [Option.isSome_map]
    exact ih

/-! ## The buffer -/

theorem outAllLen (text : Str) (small : f.len < 2 ^ 32) :
    (outAll f text).len = (f.len + text.length) % 2 ^ 32 := by
  induction text generalizing f with
  | nil => exact (Nat.mod_eq_of_lt small).symm
  | cons c text ih =>
    have one : (outCh f c).len = (f.len + 1) % 2 ^ 32 := by
      unfold outCh
      dsimp only
      repeat' split
      all_goals rfl
    have later := ih (f := outCh f c) (by rw [one]; exact Nat.mod_lt _ (by decide))
    rw [one, Nat.mod_add_mod, Nat.add_assoc, Nat.add_comm 1] at later
    exact later

theorem outAllDiscard (off : f.discard = true) : (outAll f text).stores = f.stores := by
  induction text generalizing f with
  | nil => rfl
  | cons c text ih =>
    have one : outCh f c = {f with len := (f.len + 1) % 2 ^ 32} := by
      unfold outCh
      rw [if_pos off]
    rw [outAll, List.foldl_cons, one]
    exact ih off

structure Stored (f f' : Fmt) (m : Mem) (text : Str) : Prop where
  into : f'.discard = false ∧ f'.size = f.size ∧ ∃ m', f'.buf = some m' ∧
    ∀ k, m' k = if f.len ≤ k ∧ (f.size = 0 ∨ k < f.size) then text.getD (k - f.len) (m k) else m k
  stores : ∀ k, k ∈ f'.stores ↔
    k ∈ f.stores ∨ f.len ≤ k ∧ k < f.len + text.length ∧ (f.size = 0 ∨ k < f.size)

theorem outAllStored (text : Str) (on : f.discard = false) (buf : f.buf = some m)
    (small : f.len + text.length < 2 ^ 32) : Stored f (outAll f text) m text := by
  induction text generalizing f m with
  | nil =>
    refine ⟨⟨on, rfl, m, buf, fun k => ?_⟩, fun k => ?_⟩
    · split <;> rfl
    · rw [List.length_nil]
      show k ∈ f.stores ↔ _
      constructor
      · exact Or.inl
      · rintro (old | new)
        · exact old
        · omega
  | cons c text ih =>
    rw [List.length_cons] at small
    have next : (f.len + 1) % 2 ^ 32 = f.len + 1 := Nat.mod_eq_of_lt (by omega)
    by_cases room : f.size = 0 ∨ f.len < f.size
    · have one : outCh f c = {f with buf := some (Function.update m f.len c),
                                      stores := f.len :: f.stores, len := f.len + 1} := by
        unfold outCh
        simp only [on, buf, next, if_pos room, Bool.false_eq_true, if_false]
      rw [outAll, List.foldl_cons, one]
      obtain ⟨⟨on', size, m', buf', into⟩, stores⟩ :=
        @ih {f with buf := some (Function.update m f.len c), stores := f.len :: f.stores,
                    len := f.len + 1} _ on rfl (by show f.len + 1 + _ < _; omega)
      refine ⟨⟨on', size, m', buf', fun k => (into k).trans ?_⟩, fun k => (stores k).trans ?_⟩
      · dsimp only
        rcases Nat.lt_trichotomy k f.len with before | rfl | behind
        · rw [if_neg (by omega), if_neg (by omega), Function.update_of_ne (by omega)]
        · rw [if_neg (by omega), if_pos ⟨Nat.le_refl _, room⟩, Function.update_self, Nat.sub_self]
          rfl
        · have same : k - f.len = k - (f.len + 1) + 1 := by omega
          rw [Function.update_of_ne (by omega), same, List.getD_cons_succ]
          by_cases roomy : f.size = 0 ∨ k < f.size
          · rw [if_pos ⟨behind, roomy⟩, if_pos ⟨Nat.le_of_lt behind, roomy⟩]
          · rw [if_neg fun h => roomy h.2, if_neg fun h => roomy h.2]
      · rw [List.mem_cons, List.length_cons]
        dsimp only
        constructor
        · rintro ((rfl | old) | new)
          · exact Or.inr ⟨Nat.le_refl _, by omega, room⟩
          · exact Or.inl old
          · exact Or.inr ⟨by omega, by omega, new.2.2⟩
        · rintro (old | new)
          · exact Or.inl (Or.inr old)
          · rcases Nat.eq_or_lt_of_le new.1 with same | behind
            · exact Or.inl (Or.inl same.symm)
            · exact Or.inr ⟨behind, by omega, new.2.2⟩
    · have one : outCh f c = {f with len := f.len + 1} := by
        unfold outCh
        simp only [on, buf, next, if_neg room, Bool.false_eq_true, if_false]
      rw [outAll, List.foldl_cons, one]
      obtain ⟨⟨on', size, m', buf', into⟩, stores⟩ :=
        @ih {f with len := f.len + 1} _ on buf (by show f.len + 1 + _ < _; omega)
      refine ⟨⟨on', size, m', buf', fun k => (into k).trans ?_⟩, fun k => (stores k).trans ?_⟩
      · dsimp only
        rw [if_neg (by omega), if_neg (by omega)]
      · rw [List.length_cons]
        dsimp only
        constructor <;> exact Or.imp_right fun new => ⟨by omega, by omega, by omega⟩

theorem retLength {n : Nat} : int ((n % 2 ^ 32 : Nat) : Int) = n ↔ n < 2 ^ 31 := by
  unfold int
  omega

theorem vsnprintfCounts (full : emits va 0 fmt = some text) :
    vsnprintf va s 0 fmt = some (counted s (outAll counting text)) := by
  unfold vsnprintf
  rw [if_pos rfl, fmtRunEmits, full, Option.map_some, Option.map_some]

theorem vsnprintfStores (some' : 0 < size) (full : emits va 0 fmt = some text) :
    vsnprintf va s size fmt = some (finish s size (outAll (storing s size) text)) := by
  unfold vsnprintf
  rw [if_neg (Nat.ne_of_gt some'), fmtRunEmits, full, Option.map_some, Option.map_some]

theorem countingLen (text : Str) : (outAll counting text).len = text.length % 2 ^ 32 := by
  have len := outAllLen (f := counting) text (Nat.two_pow_pos 32)
  rwa [show counting.len = 0 from rfl, Nat.zero_add] at len

theorem storingLen (s : Mem) (size : Nat) (text : Str) :
    (outAll (storing s size) text).len = text.length % 2 ^ 32 := by
  have len := outAllLen (f := storing s size) text (Nat.two_pow_pos 32)
  rwa [show (storing s size).len = 0 from rfl, Nat.zero_add] at len

theorem countedRet (s : Mem) (f : Fmt) : (counted s f).ret = int f.len := rfl

theorem finishRet (s : Mem) (size : Nat) (f : Fmt) : (finish s size f).ret = int f.len := rfl

theorem vsnprintfRet (s : Mem) (size : Nat) (full : emits va 0 fmt = some text) :
    ∃ p, vsnprintf va s size fmt = some p ∧ p.ret = int ((text.length % 2 ^ 32 : Nat) : Int) := by
  rcases Nat.eq_zero_or_pos size with rfl | some'
  · exact ⟨_, vsnprintfCounts full, by rw [countedRet, countingLen]⟩
  · exact ⟨_, vsnprintfStores some' full, by rw [finishRet, storingLen]⟩

theorem vsnprintfStored (some' : 0 < size) (full : emits va 0 fmt = some text)
    (small : text.length < 2 ^ 31) :
    ∃ p m, vsnprintf va s size fmt = some p ∧
      p.ret = text.length ∧ p.mem = Function.update m (min text.length (size - 1)) NUL ∧
      (∀ k, m k = if size = 1 ∨ k < size - 1 then text.getD k (s k) else s k) ∧
      ∀ k, k ∈ p.stores ↔ k = min text.length (size - 1) ∨
        k < text.length ∧ (size = 1 ∨ k < size - 1) := by
  have len := storingLen s size text
  have ret : (finish s size (outAll (storing s size) text)).ret = text.length := by
    rw [finishRet, len]
    exact retLength.mpr small
  rw [Nat.mod_eq_of_lt (by omega)] at len
  obtain ⟨⟨_, _, m, buf, into⟩, stores⟩ :=
    outAllStored (f := storing s size) text rfl rfl
      (by show 0 + text.length < _; omega)
  have bound : ∀ k, (storing s size).size = 0 ∨ k < (storing s size).size ↔
      size = 1 ∨ k < size - 1 := fun k => by
    show size - 1 = 0 ∨ k < size - 1 ↔ _
    omega
  have zero : (storing s size).len = 0 := rfl
  have pos : (if text.length < size - 1 then text.length else size - 1) =
      min text.length (size - 1) := by
    split <;> omega
  refine ⟨_, m, vsnprintfStores some' full, ret, ?_, fun k => ?_, fun k => ?_⟩
  · rw [finish, len, buf, pos]
    rfl
  · rw [into, zero, Nat.sub_zero]
    simp only [bound, Nat.zero_le, true_and]
  · rw [finish]
    dsimp only
    rw [len, pos, List.mem_cons, stores, zero, bound]
    constructor
    · rintro (same | old | new)
      · exact Or.inl same
      · cases old
      · exact Or.inr ⟨by omega, new.2.2⟩
    · rintro (same | new)
      · exact Or.inl same
      · exact Or.inr (Or.inr ⟨Nat.zero_le k, by omega, new.2⟩)

theorem printsFits (prints : Prints va s size fmt) :
    ∃ text, emits va 0 fmt = some text ∧ text.length < 2 ^ 31 ∧ (size = 1 → text.length ≤ 1) := by
  obtain ⟨text, p, full, printed, ret, inside, _⟩ := prints
  obtain ⟨p', printed', ret'⟩ := vsnprintfRet s size full
  cases printed.symm.trans printed'
  have small := retLength.mp (ret'.symm.trans ret)
  refine ⟨text, full, small, ?_⟩
  rintro rfl
  by_contra long
  obtain ⟨p', m, printed', _, _, _, stores⟩ := vsnprintfStored (s := s) Nat.one_pos full small
  cases printed.symm.trans printed'
  have stored := (stores 1).mpr (Or.inr ⟨by omega, Or.inl rfl⟩)
  exact absurd (inside 1 stored) (by decide)

/-- vsnprintf keeps its promise exactly if no conversion is cut off, the length of the output
is an int, and a buffer of one byte gets one character at most. -/
theorem printsIff (va : Va) (s : Mem) (size : Nat) (fmt : Str) :
    Prints va s size fmt ↔
      whole fmt = true ∧ ∀ text, emits va 0 fmt = some text →
        text.length < 2 ^ 31 ∧ (size = 1 → text.length ≤ 1) := by
  rw [← emitsWhole va 0 fmt, Option.isSome_iff_exists]
  constructor
  · intro prints
    obtain ⟨text, full, fits⟩ := printsFits prints
    refine ⟨⟨text, full⟩, fun text' full' => ?_⟩
    cases full.symm.trans full'
    exact fits
  · rintro ⟨⟨text, full⟩, fits⟩
    obtain ⟨small, one⟩ := fits text full
    rcases Nat.eq_zero_or_pos size with rfl | some'
    · refine ⟨text, _, full, vsnprintfCounts full, ?_, fun k stored => ?_, fun _ _ => rfl, ?_⟩
      · rw [countedRet, countingLen]
        exact retLength.mpr small
      · have none : (outAll counting text).stores = [] := outAllDiscard rfl
        rw [counted, none] at stored
        cases stored
      · exact fun absurd' => absurd absurd' (Nat.lt_irrefl 0)
    · obtain ⟨p, m, printed, ret, mem, into, stores⟩ := vsnprintfStored (s := s) some' full small
      refine ⟨text, p, full, printed, ret, ?_, ?_, fun _ => ⟨?_, ?_⟩⟩
      · intro k stored
        rcases (stores k).mp stored with rfl | ⟨short, room⟩ <;> omega
      · intro k kept
        obtain ⟨other, apart⟩ := not_or.mp (mt (stores k).mpr kept)
        rw [mem, Function.update_of_ne other, into]
        split <;> rename_i room
        · exact List.getD_eq_default _ _ (by omega)
        · rfl
      · refine List.ext_getElem (by simp; omega) fun k lower upper => ?_
        rw [List.length_take] at upper
        rw [List.getElem_map, List.getElem_range, List.getElem_take, mem,
          Function.update_of_ne (by omega), into, if_pos (by omega), List.getD_eq_getElem]
      · rw [mem, Function.update_self]

def noArguments : Va := ⟨fun _ => 0, fun _ => [], fun _ => by decide⟩

/-- Two characters for a buffer of one byte, and a percent sign at the end of the format. -/
theorem oneByteOverrun :
    ¬ Prints noArguments (fun _ => NUL) 1 ['a', 'b'] ∧
      ¬ Prints noArguments (fun _ => NUL) 8 ['%'] := by
  constructor
  · intro prints
    obtain ⟨text, full, _, one⟩ := printsFits prints
    have two : emits noArguments 0 ['a', 'b'] = some ['a', 'b'] := by simp [emits]
    cases full.symm.trans two
    exact absurd (one rfl) (by decide)
  · intro prints
    obtain ⟨text, full, _⟩ := printsFits prints
    have cut : whole ['%'] = false := by
      rw [whole, if_neg (by decide)]
      rfl
    have some' := emitsWhole noArguments 0 ['%']
    rw [full, cut] at some'
    cases some'

end Scepter.Printf
