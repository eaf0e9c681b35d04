import Scepter.Crt.Printf
import Mathlib.Data.List.Basic

/-! The integer conversions of the printf family against what the C standard prescribes for
them: the text of a conversion specification and how fmt_run reads it, the prescribed text, and
when out_number prints it. -/
namespace Scepter.Printf
open Path (Str)
open CInt (int intFits intSub)

/-! ## Conversion specifications -/

inductive Flag where
  | minus | plus | space | hash | zero
  deriving DecidableEq

def Flag.char : Flag → Char
  | .minus => '-'
  | .plus => '+'
  | .space => ' '
  | .hash => '#'
  | .zero => '0'

def numberFrom (n : Nat) (digits : List (Fin 10)) : Nat :=
  digits.foldl (fun n d => n * 10 + d.val) n

def numberOf (digits : List (Fin 10)) : Nat := numberFrom 0 digits

structure Decimal where
  digits : List (Fin 10)
  fits : numberOf digits < 2 ^ 31

inductive Field where
  | number (n : Decimal)
  | star

def Field.value (f : Field) (va : Va) (ap : Nat) : Int :=
  match f with
  | .number n => numberOf n.digits
  | .star => (va.word ap).toInt

def Field.next (f : Field) (ap : Nat) : Nat :=
  match f with
  | .number _ => ap
  | .star => ap + 1

def decimalChar (d : Fin 10) : Char := Char.ofNat (48 + d)

def Field.text : Field → Str
  | .number n => n.digits.map decimalChar
  | .star => ['*']

inductive Integer where
  | d | i | u | x | X | o
  deriving DecidableEq

def Integer.char : Integer → Char
  | .d => 'd'
  | .i => 'i'
  | .u => 'u'
  | .x => 'x'
  | .X => 'X'
  | .o => 'o'

/-- What stands behind the percent sign. A width does not begin with a zero, which is a flag;
no width is a number without digits, and so is a precision of a dot alone. -/
structure Conversion where
  flags : List Flag
  width : Field
  prec : Option Field
  conv : Integer
  lead : ∀ n, width = .number n → n.digits.head? ≠ some 0

def Conversion.text (c : Conversion) : Str :=
  c.flags.map Flag.char ++ (c.width.text ++
    ((match c.prec with
      | none => []
      | some p => '.' :: p.text) ++ [c.conv.char]))

/-! ## What is prescribed -/

/-- What the specification asks for, with the value of the argument taken apart. `negWidth`: the
width came from a negative argument. -/
structure Asked where
  minus : Bool
  plus : Bool
  space : Bool
  hash : Bool
  zero : Bool
  negWidth : Bool
  width : Nat
  prec : Option Nat
  base : Nat
  upper : Bool
  signed : Bool
  neg : Bool
  v : Nat

def numeral (base : Nat) (upper : Bool) (v : Nat) : Str :=
  (Nat.toDigits base v).map fun c => if upper then c.toUpper else c

namespace Asked

def left (a : Asked) : Bool := a.minus || a.negWidth

def digits (a : Asked) : Str :=
  if a.v = 0 ∧ a.prec = some 0 then [] else numeral a.base a.upper a.v

def padded (a : Asked) : Str :=
  List.replicate (a.prec.getD 0 - a.digits.length) '0' ++ a.digits

def body (a : Asked) : Str :=
  if a.hash ∧ a.base = 8 ∧ a.padded.head? ≠ some '0' then '0' :: a.padded else a.padded

def sign (a : Asked) : Str :=
  if a.neg then ['-']
  else if a.signed ∧ a.plus then ['+']
  else if a.signed ∧ a.space then [' ']
  else []

def pre (a : Asked) : Str :=
  a.sign ++ if a.hash ∧ a.base = 16 ∧ a.v ≠ 0 then ['0', if a.upper then 'X' else 'x'] else []

def precision (a : Asked) : Int :=
  match a.prec with
  | none => -1
  | some p => p

def total (a : Asked) : Nat := a.pre.length + a.body.length

def text (a : Asked) : Str :=
  let room := a.width - a.total
  if a.left then a.pre ++ a.body ++ List.replicate room ' '
  else if a.zero ∧ a.prec = none then a.pre ++ List.replicate room '0' ++ a.body
  else List.replicate room ' ' ++ a.pre ++ a.body

end Asked

def Integer.value (conv : Integer) (arg : BitVec 32) : Bool × Nat :=
  match conv with
  | .d | .i => (decide (arg.toInt < 0), arg.toInt.natAbs)
  | .u | .x | .X | .o => (false, arg.toNat)

def Integer.base : Integer → Nat
  | .d | .i | .u => 10
  | .x | .X => 16
  | .o => 8

namespace Conversion

def valueAt (c : Conversion) (ap : Nat) : Nat :=
  match c.prec with
  | none => c.width.next ap
  | some p => p.next (c.width.next ap)

def asked (c : Conversion) (va : Va) (ap : Nat) : Asked :=
  let value := c.conv.value (va.word (c.valueAt ap))
  { minus := decide (.minus ∈ c.flags)
    plus := decide (.plus ∈ c.flags)
    space := decide (.space ∈ c.flags)
    hash := decide (.hash ∈ c.flags)
    zero := decide (.zero ∈ c.flags)
    negWidth := decide (c.width.value va ap < 0)
    width := (c.width.value va ap).natAbs
    -- a negative precision is as if there were none
    prec := match c.prec with
      | none => none
      | some p =>
        let n := p.value va (c.width.next ap)
        if n < 0 then none else some n.toNat
    base := c.conv.base
    upper := decide (c.conv = .X)
    signed := decide (c.conv = .d ∨ c.conv = .i)
    neg := value.1
    v := value.2 }

end Conversion

/-! ## How fmt_run reads a specification -/

def Flags.add (fl : Flags) : Flag → Flags
  | .minus => {fl with left := true, pad := ' '}
  | .plus => {fl with showplus := true}
  | .space => {fl with space := true}
  | .hash => {fl with alt := true}
  | .zero => if fl.left then fl else {fl with pad := '0'}

def noFlags : Flags := ⟨false, false, false, false, ' '⟩

variable {va : Va} {fl : Flags} {fs : List Flag} {r : Str} {ap : Nat} {ds : List (Fin 10)}

theorem flagsRead (fl : Flags) (fs : List Flag) (r : Str) :
    flagLoop fl (fs.map Flag.char ++ r) = flagLoop (fs.foldl Flags.add fl) r := by
  induction fs generalizing fl with
  | nil => rfl
  | cons f fs ih => cases f <;> exact ih _

theorem flagsStop (stop : ∀ c ∈ r.head?, isFlag c = false) : flagLoop fl r = (fl, r) := by
  cases r with
  | nil => rfl
  | cons c r =>
    have other := stop c rfl
    unfold isFlag at other
    unfold flagLoop
    repeat' split
    all_goals first | rfl | simp_all

theorem flagsAdded (fs : List Flag) (fl : Flags) (plain : fl.left = true → fl.pad = ' ') :
    let read := fs.foldl Flags.add fl
    read.left = (fl.left || decide (.minus ∈ fs)) ∧
      read.showplus = (fl.showplus || decide (.plus ∈ fs)) ∧
      read.space = (fl.space || decide (.space ∈ fs)) ∧
      read.alt = (fl.alt || decide (.hash ∈ fs)) ∧
      read.pad = if fl.left || decide (.minus ∈ fs) then ' '
        else if .zero ∈ fs then '0' else fl.pad := by
  induction fs generalizing fl with
  | nil =>
    refine ⟨(Bool.or_false _).symm, (Bool.or_false _).symm, (Bool.or_false _).symm,
      (Bool.or_false _).symm, ?_⟩
    by_cases left : fl.left = true
    · simp [left, plain left]
    · simp [left]
  | cons f fs ih =>
    rw [List.foldl_cons]
    have kept : (fl.add f).left = true → (fl.add f).pad = ' ' := by
      cases f <;> simp_all [Flags.add]
      split <;> simp_all
    have later := ih (fl.add f) kept
    cases f <;> simp_all [Flags.add]
    split <;> simp_all

theorem decimalCharDigit (d : Fin 10) :
    isDigit (decimalChar d) = true ∧ (decimalChar d).toNat = 48 + d ∧ decimalChar d ≠ '*' ∧
      decimalChar d ≠ '%' ∧ (isFlag (decimalChar d) = true → d = 0) := by
  revert d
  decide

theorem numberGrows (ds : List (Fin 10)) (n : Nat) : n ≤ numberFrom n ds := by
  induction ds generalizing n with
  | nil => exact Nat.le_refl n
  | cons d ds ih => exact Nat.le_trans (by omega) (ih (n * 10 + d))

theorem numberStop {n : Int} (stop : ∀ c ∈ r.head?, isDigit c = false) : number n r = (n, r) := by
  cases r with
  | nil => rfl
  | cons c r => rw [number, if_neg (by rw [stop c rfl]; decide)]

theorem numberRead (ds : List (Fin 10)) (n : Nat) (fits : numberFrom n ds < 2 ^ 31)
    (stop : ∀ c ∈ r.head?, isDigit c = false) :
    number n (ds.map decimalChar ++ r) = ((numberFrom n ds : Int), r) := by
  induction ds generalizing n with
  | nil => exact numberStop stop
  | cons d ds ih =>
    obtain ⟨digit, value, _⟩ := decimalCharDigit d
    have grows : n * 10 + d ≤ numberFrom n (d :: ds) := numberGrows ds (n * 10 + d)
    have small : int (n * 10 + ((decimalChar d).toNat - 48)) = ((n * 10 + d : Nat) : Int) := by
      rw [value, intFits (by omega) (by omega)]
      omega
    rw [List.map_cons, List.cons_append, number, if_pos digit, small]
    exact ih _ fits

theorem numberPlain {n : Decimal} (stop : ∀ c ∈ r.head?, isDigit c = false ∧ c ≠ '*') (rest : Str) :
    n.digits.map decimalChar ++ r ≠ '*' :: rest := by
  intro same
  cases shape : n.digits with
  | nil =>
    rw [shape] at same
    exact (stop '*' (by rw [show r = '*' :: rest from same]; rfl)).2 rfl
  | cons d ds =>
    rw [shape] at same
    exact (decimalCharDigit d).2.2.1 (List.cons.inj same).1

theorem widthRead (va : Va) (f : Field) (fl : Flags) (p : Int) (ap : Nat)
    (stop : ∀ c ∈ r.head?, isDigit c = false ∧ c ≠ '*') :
    scanWidth va ⟨fl, 0, p, ap, f.text ++ r⟩ =
      ⟨{fl with left := fl.left || decide (f.value va ap < 0)}, int (f.value va ap).natAbs, p,
        f.next ap, r⟩ := by
  cases f with
  | star =>
    have read : scanWidth va ⟨fl, 0, p, ap, '*' :: r⟩ =
        if (va.word ap).toInt < 0 then
          ⟨{fl with left := true}, int (-(va.word ap).toInt), p, ap + 1, r⟩
        else ⟨fl, (va.word ap).toInt, p, ap + 1, r⟩ := rfl
    have low := BitVec.le_toInt (va.word ap)
    have high := BitVec.toInt_lt (x := va.word ap)
    have value : Field.star.value va ap = (va.word ap).toInt := rfl
    have next : Field.star.next ap = ap + 1 := rfl
    rw [value, next]
    refine read.trans ?_
    by_cases sign : (va.word ap).toInt < 0
    · have size : (((va.word ap).toInt.natAbs : Nat) : Int) = -(va.word ap).toInt := by omega
      rw [if_pos sign, decide_eq_true sign, Bool.or_true, size]
    · have size : (((va.word ap).toInt.natAbs : Nat) : Int) = (va.word ap).toInt := by omega
      rw [if_neg sign, decide_eq_false sign, Bool.or_false, size, intFits (by omega) (by omega)]
  | number n =>
    have read := numberRead n.digits 0 n.fits fun c member => (stop c member).1
    have small : int (numberOf n.digits) = numberOf n.digits :=
      intFits (by omega) (by have fits := n.fits; omega)
    have value : (Field.number n).value va ap = numberOf n.digits := rfl
    have next : (Field.number n).next ap = ap := rfl
    rw [value, next, decide_eq_false (by omega), Bool.or_false, Int.natAbs_natCast, small]
    show scanWidth va ⟨fl, 0, p, ap, n.digits.map decimalChar ++ r⟩ = _
    unfold scanWidth
    split <;> rename_i shape
    · exact absurd shape (numberPlain stop _)
    · rw [show (0 : Int) = ((0 : Nat) : Int) from rfl, read]
      rfl

theorem precRead (va : Va) (f : Field) (fl : Flags) (w : Int) (ap : Nat)
    (stop : ∀ c ∈ r.head?, isDigit c = false ∧ c ≠ '*') :
    scanPrec va ⟨fl, w, -1, ap, '.' :: (f.text ++ r)⟩ =
      ⟨fl, w, if f.value va ap < 0 then -1 else f.value va ap, f.next ap, r⟩ := by
  cases f with
  | star => rfl
  | number n =>
    have value : (Field.number n).value va ap = numberOf n.digits := rfl
    have next : (Field.number n).next ap = ap := rfl
    rw [value, next, if_neg (by omega)]
    show scanPrec va ⟨fl, w, -1, ap, '.' :: (n.digits.map decimalChar ++ r)⟩ = _
    unfold scanPrec
    split <;> rename_i shape
    · exact absurd (List.cons.inj shape).2 (numberPlain stop _)
    · obtain ⟨_, rfl⟩ := List.cons.inj shape
      rw [show (0 : Int) = ((0 : Nat) : Int) from rfl,
        numberRead n.digits 0 n.fits fun c member => (stop c member).1]
      rfl
    · exact absurd rfl (shape _)

theorem convChar (conv : Integer) :
    isFlag conv.char = false ∧ isDigit conv.char = false ∧ isLength conv.char = false ∧
      conv.char ≠ '*' ∧ conv.char ≠ '%' ∧ conv.char ≠ '.' := by
  cases conv <;> decide

def Conversion.precText (c : Conversion) : Str :=
  match c.prec with
  | none => []
  | some p => '.' :: p.text

theorem textSplit (c : Conversion) (more : Str) :
    c.text ++ more =
      c.flags.map Flag.char ++ (c.width.text ++ (c.precText ++ c.conv.char :: more)) := by
  show (c.flags.map Flag.char ++ (c.width.text ++ (c.precText ++ [c.conv.char]))) ++ more = _
  simp only [List.append_assoc, List.singleton_append]

theorem precHead (c : Conversion) (more : Str) :
    ∀ x ∈ (c.precText ++ c.conv.char :: more).head?,
      isFlag x = false ∧ isDigit x = false ∧ x ≠ '*' ∧ x ≠ '%' := by
  obtain ⟨flag, digit, _, star, percent, _⟩ := convChar c.conv
  unfold Conversion.precText
  cases c.prec with
  | none =>
    intro x head
    obtain rfl := Option.some.inj head
    exact ⟨flag, digit, star, percent⟩
  | some p =>
    intro x head
    obtain rfl := Option.some.inj head
    decide

theorem widthHead (c : Conversion) (more : Str) :
    ∀ x ∈ (c.width.text ++ (c.precText ++ c.conv.char :: more)).head?,
      isFlag x = false ∧ x ≠ '%' := by
  have later := precHead c more
  have lead := c.lead
  cases width : c.width with
  | star =>
    intro x head
    obtain rfl := Option.some.inj head
    decide
  | number n =>
    show ∀ x ∈ (n.digits.map decimalChar ++ _).head?, _
    cases shape : n.digits with
    | nil => exact fun x head => ⟨(later x head).1, (later x head).2.2.2⟩
    | cons d ds =>
      intro x head
      obtain rfl := Option.some.inj head
      obtain ⟨_, _, _, percent, flag⟩ := decimalCharDigit d
      refine ⟨?_, percent⟩
      by_contra zero
      refine lead n width ?_
      rw [shape, List.head?_cons, flag (by simpa using zero)]

theorem textHead (c : Conversion) (more : Str) : (c.text ++ more).head? ≠ some '%' := by
  rw [textSplit]
  cases c.flags with
  | nil => exact fun head => (widthHead c more '%' head).2 rfl
  | cons f fs => cases f <;> exact fun head => absurd (Option.some.inj head) (by decide)

theorem precStep (c : Conversion) (va : Va) (fl : Flags) (w : Int) (ap : Nat) (more : Str) :
    scanPrec va ⟨fl, w, -1, c.width.next ap, c.precText ++ c.conv.char :: more⟩ =
      ⟨fl, w, (c.asked va ap).precision, c.valueAt ap,
        c.conv.char :: more⟩ := by
  obtain ⟨_, digit, _, star, _, dot⟩ := convChar c.conv
  unfold Conversion.precText Conversion.asked Conversion.valueAt Asked.precision
  cases c.prec with
  | none =>
    show scanPrec va ⟨fl, w, -1, _, c.conv.char :: more⟩ = _
    unfold scanPrec
    split <;> rename_i shape
    · exact absurd (List.cons.inj shape).1 dot
    · exact absurd (List.cons.inj shape).1 dot
    · rfl
  | some p =>
    have read := precRead (r := c.conv.char :: more) va p fl w (c.width.next ap)
      (by
        intro x head
        obtain rfl := Option.some.inj head
        exact ⟨digit, star⟩)
    refine read.trans ?_
    dsimp only
    by_cases sign : p.value va (c.width.next ap) < 0
    · rw [if_pos sign, if_pos sign]
    · have size : (((p.value va (c.width.next ap)).toNat : Nat) : Int) =
          p.value va (c.width.next ap) := by omega
      rw [if_neg sign, if_neg sign]
      dsimp only
      rw [size]

theorem scanRead (c : Conversion) (va : Va) (ap : Nat) (more : Str) :
    scan va ap (c.text ++ more) =
      ⟨{c.flags.foldl Flags.add noFlags with
          left := (c.flags.foldl Flags.add noFlags).left || (c.asked va ap).negWidth},
        int (c.asked va ap).width, (c.asked va ap).precision,
        c.valueAt ap, c.conv.char :: more⟩ := by
  have later := precHead c more
  have flags : flagLoop noFlags (c.text ++ more) =
      (c.flags.foldl Flags.add noFlags, c.width.text ++ (c.precText ++ c.conv.char :: more)) := by
    rw [textSplit, flagsRead, flagsStop fun x head => (widthHead c more x head).1]
  have width := widthRead va c.width (c.flags.foldl Flags.add noFlags) (-1) ap
    fun x head => ⟨(later x head).2.1, (later x head).2.2.1⟩
  unfold scan
  rw [show (⟨false, false, false, false, ' '⟩ : Flags) = noFlags from rfl, flags]
  dsimp only
  rw [width, precStep]
  dsimp only
  rw [List.dropWhile_cons, if_neg (by rw [(convChar c.conv).2.2.1]; decide)]
  rfl

def printed (a : Asked) : Str :=
  outNumber a.v a.base a.upper (int a.width) a.precision a.left
    (if a.zero ∧ ¬ a.minus then '0' else ' ') a.neg (a.signed && !a.neg && a.plus)
    (a.signed && !a.neg && a.space) a.hash

theorem outNumberTen (v : Nat) (upper : Bool) (w p : Int) (left : Bool) (pad : Char)
    (neg showplus space alt : Bool) :
    outNumber v 10 upper w p left pad neg showplus space alt =
      outNumber v 10 upper w p left pad neg showplus space false := by
  unfold outNumber
  simp

theorem convertSigned (va : Va) (s : Scan) {conv : Integer} (signed : conv = .d ∨ conv = .i) :
    convert va s conv.char =
      (outNumber (va.word s.ap).toInt.natAbs 10 false s.width s.prec s.flags.left s.flags.pad
        (decide ((va.word s.ap).toInt < 0))
        (!decide ((va.word s.ap).toInt < 0) && s.flags.showplus)
        (!decide ((va.word s.ap).toInt < 0) && s.flags.space) false, s.ap + 1) := by
  have char : conv.char = 'd' ∨ conv.char = 'i' := by rcases signed with rfl | rfl <;> decide
  unfold convert
  rw [if_pos char]
  dsimp only
  by_cases sign : (va.word s.ap).toInt < 0
  · have size : (-(va.word s.ap).toInt).toNat = (va.word s.ap).toInt.natAbs := by omega
    rw [if_pos sign, size, decide_eq_true sign]
    rfl
  · have size : (va.word s.ap).toInt.toNat = (va.word s.ap).toInt.natAbs := by omega
    rw [if_neg sign, size, decide_eq_false sign]
    rfl

theorem convertUnsigned (va : Va) (s : Scan) {conv : Integer} (d : conv ≠ .d) (i : conv ≠ .i) :
    convert va s conv.char =
      (outNumber (va.word s.ap).toNat conv.base (decide (conv = .X)) s.width s.prec s.flags.left
        s.flags.pad false false false (decide (conv ≠ .u) && s.flags.alt), s.ap + 1) := by
  cases conv with
  | d => exact absurd rfl d
  | i => exact absurd rfl i
  | u | x | X | o => rfl

theorem convertAsked (c : Conversion) (va : Va) (ap : Nat) (more : Str) :
    convert va (scan va ap (c.text ++ more)) c.conv.char =
      (printed (c.asked va ap), c.valueAt ap + 1) := by
  obtain ⟨left, plus, space, alt, pad⟩ := flagsAdded c.flags noFlags fun _ => rfl
  have padded : (if noFlags.left || decide (.minus ∈ c.flags) then ' '
      else if .zero ∈ c.flags then '0' else noFlags.pad) =
      if (c.asked va ap).zero ∧ ¬ (c.asked va ap).minus then '0' else ' ' := by
    show (if false || decide (Flag.minus ∈ c.flags) then ' ' else if _ then '0' else ' ') =
      if decide (Flag.zero ∈ c.flags) = true ∧ ¬ decide (Flag.minus ∈ c.flags) = true
        then '0' else ' '
    by_cases minus : Flag.minus ∈ c.flags <;> by_cases zero : Flag.zero ∈ c.flags <;>
      simp [minus, zero]
  have v : (c.asked va ap).v = (c.conv.value (va.word (c.valueAt ap))).2 := rfl
  have neg : (c.asked va ap).neg = (c.conv.value (va.word (c.valueAt ap))).1 := rfl
  have base : (c.asked va ap).base = c.conv.base := rfl
  have upper : (c.asked va ap).upper = decide (c.conv = .X) := rfl
  have sign : (c.asked va ap).signed = decide (c.conv = .d ∨ c.conv = .i) := rfl
  rw [scanRead]
  unfold printed
  rw [v, neg, base, upper, sign]
  by_cases signed : c.conv = .d ∨ c.conv = .i
  · have ten : c.conv.base = 10 ∧ c.conv ≠ .X ∧
        c.conv.value (va.word (c.valueAt ap)) =
          (decide ((va.word (c.valueAt ap)).toInt < 0), (va.word (c.valueAt ap)).toInt.natAbs) := by
      rcases signed with conv | conv <;> rw [conv] <;> exact ⟨rfl, by decide, rfl⟩
    obtain ⟨ten, lower, value⟩ := ten
    rw [convertSigned va _ signed, decide_eq_true signed, ten, decide_eq_false lower, value,
      outNumberTen _ _ _ _ _ _ _ _ _ (c.asked va ap).hash]
    dsimp only
    rw [left, plus, space, pad, padded]
    rfl
  · obtain ⟨d, i⟩ := not_or.mp signed
    have value : c.conv.value (va.word (c.valueAt ap)) =
        (false, (va.word (c.valueAt ap)).toNat) := by
      cases conv : c.conv with
      | d => exact absurd conv d
      | i => exact absurd conv i
      | u | x | X | o => rfl
    rw [convertUnsigned va _ d i, decide_eq_false signed, value]
    dsimp only
    rw [left, alt, pad, padded]
    by_cases ten : c.conv = .u
    · rw [ten, show Integer.u.base = 10 from rfl, outNumberTen, outNumberTen _ _ _ _ _ _ _ _ _ (c.asked va ap).hash]
      rfl
    · rw [decide_eq_true ten]
      rfl

theorem emitsConversion (c : Conversion) (va : Va) (ap : Nat) (more : Str) :
    emits va ap ('%' :: (c.text ++ more)) =
      (emits va (c.valueAt ap + 1) more).map (printed (c.asked va ap) ++ ·) := by
  have found : named (c.text ++ more) = c.conv.char :: more := by
    rw [← scanNamed va ap, scanRead]
  rw [emits, if_neg (by decide), if_neg (textHead c more)]
  split <;> rename_i here <;> rw [found] at here <;> cases here
  dsimp only
  rw [convertAsked]

/-! ## Numerals -/

def shown (upper : Bool) (n : Nat) : Char := if upper then n.digitChar.toUpper else n.digitChar

theorem shownDigit {n : Nat} (upper : Bool) (small : n < 16) : digit upper n = shown upper n := by
  have all : ∀ upper : Bool, ∀ n : Fin 16, digit upper n = shown upper n := by decide
  exact all upper ⟨n, small⟩

theorem shownPlain {n : Nat} (upper : Bool) (small : n < 16) :
    shown upper n ≠ ' ' ∧ (shown upper n = '0' ↔ n = 0) := by
  have all : ∀ upper : Bool, ∀ n : Fin 16,
      shown upper n ≠ ' ' ∧ (shown upper n = '0' ↔ n.val = 0) := by decide
  exact all upper ⟨n, small⟩

variable {base v n : Nat} {upper : Bool} {a : Asked}

theorem numeralSmall (small : v < base) : numeral base upper v = [shown upper v] := by
  unfold numeral
  rw [Nat.toDigits_of_lt_base small]
  rfl

theorem numeralLarge (two : 1 < base) (large : base ≤ v) :
    numeral base upper v = numeral base upper (v / base) ++ [shown upper (v % base)] := by
  unfold numeral
  rw [Nat.toDigits_of_base_le two large, List.map_append]
  rfl

theorem numeralDigits (two : 1 < base) (sixteen : base ≤ 16) (upper : Bool) (v : Nat) :
    (∀ c ∈ numeral base upper v, c ≠ ' ') ∧
      ∃ c s, numeral base upper v = c :: s ∧ (c = '0' ↔ v = 0) := by
  induction v using Nat.strongRecOn with
  | ind v ih =>
    by_cases small : v < base
    · rw [numeralSmall small]
      refine ⟨fun c member => ?_, _, [], rfl, (shownPlain upper (by omega)).2⟩
      rw [List.mem_singleton.mp member]
      exact (shownPlain upper (by omega)).1
    · have digit : v % base < base := Nat.mod_lt v (by omega)
      have less : v / base < v := Nat.div_lt_self (by omega) two
      have more : v / base ≠ 0 := by
        have positive := Nat.div_pos (Nat.le_of_not_lt small) (by omega)
        omega
      obtain ⟨plain, c, s, shape, zero⟩ := ih (v / base) less
      rw [numeralLarge two (Nat.le_of_not_lt small)]
      refine ⟨fun c member => ?_, c, s ++ [shown upper (v % base)], by rw [shape]; rfl, ?_⟩
      · rcases List.mem_append.mp member with front | last
        · exact plain c front
        · rw [List.mem_singleton.mp last]
          exact (shownPlain upper (by omega)).1
      · rw [zero]
        exact iff_of_false more (by omega)

theorem tmpNumeral (two : 1 < base) (sixteen : base ≤ 16) (n : Nat) (some' : 0 < v)
    (fits : v < base ^ n) : (tmpDigits base upper n v).reverse = numeral base upper v := by
  induction n generalizing v with
  | zero =>
    rw [Nat.pow_zero] at fits
    omega
  | succ n ih =>
    have digit : v % base < base := Nat.mod_lt v (by omega)
    rw [tmpDigits, if_pos some', List.reverse_cons, shownDigit upper (by omega)]
    by_cases small : v < base
    · have nothing : tmpDigits base upper n 0 = [] := by
        cases n <;> rfl
      rw [Nat.div_eq_of_lt small, nothing, numeralSmall small, Nat.mod_eq_of_lt small]
      rfl
    · have positive := Nat.div_pos (Nat.le_of_not_lt small) (by omega : 0 < base)
      have below : v / base < base ^ n := Nat.div_lt_of_lt_mul (by rwa [Nat.pow_succ'] at fits)
      rw [ih positive below, numeralLarge two (Nat.le_of_not_lt small)]

/-! ## What out_number prints -/

namespace Asked

structure Well (a : Asked) : Prop where
  base : a.base = 8 ∨ a.base = 10 ∨ a.base = 16
  small : a.v < 2 ^ 32
  width : a.width ≤ 2 ^ 31
  prec : a.prec.getD 0 < 2 ^ 31
  signed : a.signed → a.base = 10
  neg : a.neg → a.signed

def codePre (a : Asked) : Str :=
  a.sign ++
    if a.hash ∧ a.base = 16 then ['0', if a.upper then 'X' else 'x']
    else if a.hash ∧ a.base = 8 ∧ a.digits ≠ [] ∧ a.digits.head? ≠ some '0' then ['0']
    else []

def codeTotal (a : Asked) : Nat := a.codePre.length + a.padded.length

def codePad (a : Asked) : Nat := (int (a.width - a.codeTotal)).toNat

def zeroPads (a : Asked) : Prop := (a.zero ∧ ¬ a.minus) ∧ a.prec.getD 0 = 0
instance (a : Asked) : Decidable a.zeroPads := by unfold zeroPads; infer_instance

end Asked

theorem Asked.Well.bounds (well : a.Well) : 1 < a.base ∧ a.base ≤ 16 := by
  rcases well.base with base | base | base <;> omega

theorem precisionNone (a : Asked) : a.prec = some 0 ↔ a.precision = 0 := by
  unfold Asked.precision
  cases a.prec with
  | none => simp
  | some p => simp

theorem precisionLow (a : Asked) : a.precision ≤ 0 ↔ a.prec.getD 0 = 0 := by
  unfold Asked.precision
  cases a.prec with
  | none => simp
  | some p => simp

theorem digitsTmp (well : a.Well) :
    (if a.v = 0 ∧ a.precision ≠ 0 then ['0'] else []) ++ tmpDigits a.base a.upper 40 a.v =
      a.digits.reverse := by
  obtain ⟨two, sixteen⟩ := well.bounds
  unfold Asked.digits
  by_cases zero : a.v = 0
  · have nothing : tmpDigits a.base a.upper 40 0 = [] := rfl
    rw [zero, nothing, List.append_nil]
    by_cases prec : a.prec = some 0
    · rw [if_neg fun h => h.2 ((precisionNone a).mp prec), if_pos ⟨rfl, prec⟩]
      rfl
    · rw [if_pos ⟨rfl, fun h => prec ((precisionNone a).mpr h)⟩, if_neg fun h => prec h.2,
        numeralSmall (by omega)]
      cases a.upper <;> rfl
  · have fits : a.v < a.base ^ 40 :=
      Nat.lt_of_lt_of_le (Nat.lt_of_lt_of_le well.small (by decide)) (Nat.pow_le_pow_left two 40)
    rw [if_neg fun h => zero h.1, if_neg fun h => zero h.1, List.nil_append,
      ← tmpNumeral two sixteen 40 (by omega) fits, List.reverse_reverse]

theorem tmpShort (base : Nat) (upper : Bool) (n v : Nat) :
    (tmpDigits base upper n v).length ≤ n := by
  induction n generalizing v with
  | zero => exact Nat.le_refl 0
  | succ n ih =>
    unfold tmpDigits
    split
    · exact Nat.succ_le_succ (ih _)
    · exact Nat.zero_le _

theorem digitsShort (well : a.Well) : a.digits.length ≤ 41 := by
  have tmp := congrArg List.length (digitsTmp well)
  have short := tmpShort a.base a.upper 40 a.v
  rw [List.length_append, List.length_reverse] at tmp
  have first : (if a.v = 0 ∧ a.precision ≠ 0 then ['0'] else []).length ≤ 1 := by
    split <;> decide
  omega

theorem paddedLength (a : Asked) :
    a.padded.length = max (a.prec.getD 0) a.digits.length := by
  unfold Asked.padded
  rw [List.length_append, List.length_replicate]
  omega

theorem timesRoom (c : Char) (x : Int) :
    times c (if x < 0 then 0 else x) = List.replicate x.toNat c := by
  unfold times
  congr 1
  split <;> omega

theorem timesGuarded (c : Char) (x : Int) (p : Prop) [Decidable p] :
    (if x > 0 ∧ p then times c x else []) = if p then List.replicate x.toNat c else [] := by
  by_cases here : p
  · rw [if_pos here]
    by_cases positive : x > 0
    · rw [if_pos ⟨positive, here⟩]
      rfl
    · rw [if_neg fun h => positive h.1, show x.toNat = 0 by omega]
      rfl
  · rw [if_neg fun h => here h.2, if_neg here]

theorem printedLayout (well : a.Well) :
    printed a =
      if a.zeroPads then a.codePre ++ List.replicate a.codePad '0' ++ a.padded
      else if a.left then a.codePre ++ a.padded ++ List.replicate a.codePad ' '
      else List.replicate a.codePad ' ' ++ a.codePre ++ a.padded := by
  have pre : (if a.neg then ['-'] else if a.signed && !a.neg && a.plus then ['+']
        else if a.signed && !a.neg && a.space then [' '] else []) ++
      (if a.hash ∧ a.base = 16 then ['0', if a.upper then 'X' else 'x']
        else if a.hash ∧ a.base = 8 ∧ ((a.digits.reverse.length : Nat) : Int) > 0 ∧
          a.digits.reverse.getLast? ≠ some '0' then ['0'] else []) = a.codePre := by
    have some' : ((a.digits.reverse.length : Nat) : Int) > 0 ↔ a.digits ≠ [] := by
      rw [List.length_reverse, ← List.length_pos_iff]
      omega
    have sign : (if a.neg then ['-'] else if a.signed && !a.neg && a.plus then ['+']
        else if a.signed && !a.neg && a.space then [' '] else []) = a.sign := by
      unfold Asked.sign
      cases a.neg <;> simp
    rw [sign, List.getLast?_reverse]
    simp only [some']
    rfl
  have count : (if a.precision > (a.digits.reverse.length : Nat) then
        a.precision - (a.digits.reverse.length : Nat) else 0) =
      ((a.prec.getD 0 - a.digits.length : Nat) : Int) := by
    rw [List.length_reverse]
    unfold Asked.precision
    cases a.prec with
    | none =>
      dsimp only
      rw [if_neg (by omega), Option.getD_none, Nat.zero_sub]
      rfl
    | some p =>
      dsimp only
      rw [Option.getD_some]
      split <;> omega
  have zeros : times '0' ((a.prec.getD 0 - a.digits.length : Nat) : Int) ++ a.digits =
      a.padded := rfl
  have body : (a.digits.length : Int) + ((a.prec.getD 0 - a.digits.length : Nat) : Int) =
      (a.padded.length : Nat) := by
    rw [paddedLength]
    omega
  have total : int (int a.width - int (a.codePre.length + (a.padded.length : Nat))) =
      int (a.width - a.codeTotal) := by
    rw [intSub]
    rfl
  unfold printed outNumber
  rw [digitsTmp well]
  dsimp only
  rw [pre, count, List.length_reverse, body, total, List.reverse_reverse]
  have first : (if a.zero ∧ ¬ a.minus then '0' else ' ') = '0' ∧ a.precision ≤ 0 ↔ a.zeroPads := by
    rw [precisionLow]
    unfold Asked.zeroPads
    refine and_congr_left fun _ => ?_
    split <;> rename_i zero
    · exact iff_of_true rfl zero
    · exact iff_of_false (by decide) zero
  by_cases zero : a.zeroPads
  · rw [if_pos (first.mpr zero), if_pos zero, timesRoom, ← zeros]
    simp only [List.append_assoc]
    rfl
  · rw [if_neg (mt first.mp zero), if_neg zero, timesGuarded, timesGuarded,
      ← zeros]
    unfold Asked.codePad
    cases a.left <;> simp [List.append_assoc]

namespace Asked

def HexZero (a : Asked) : Prop := a.hash ∧ a.base = 16 ∧ a.v = 0

def OctalPadded (a : Asked) : Prop :=
  a.hash ∧ a.base = 8 ∧ a.v ≠ 0 ∧ a.digits.length < a.prec.getD 0

/-- `%#.0o` of 0: the standard wants a zero. (In a field of one character, padding with zeros
puts one there.) -/
def OctalNothing (a : Asked) : Prop :=
  a.hash ∧ a.base = 8 ∧ a.v = 0 ∧ a.prec = some 0 ∧ ¬ ((a.zero ∧ ¬ a.minus) ∧ a.width = 1)

def ZerosKept (a : Asked) : Prop :=
  (a.zero ∧ ¬ a.minus) ∧ (a.prec = some 0 ∨ a.prec = none ∧ a.negWidth) ∧ a.total < a.width

def Wraps (a : Asked) : Prop :=
  a.width = 2 ^ 31 ∧ a.total = 0 ∨ a.width = 0 ∧ a.total = 2 ^ 31 + 1

def Astray (a : Asked) : Prop :=
  a.HexZero ∨ a.OctalPadded ∨ a.OctalNothing ∨ a.ZerosKept ∨ a.Wraps

end Asked

/-! ## Where the two agree -/

theorem digitsPlain (well : a.Well) : ∀ c ∈ a.digits, c ≠ ' ' := by
  obtain ⟨two, sixteen⟩ := well.bounds
  unfold Asked.digits
  split
  · intro c member
    cases member
  · exact (numeralDigits two sixteen a.upper a.v).1

theorem digitsHead (well : a.Well) (some' : ¬ (a.v = 0 ∧ a.prec = some 0)) :
    ∃ c s, a.digits = c :: s ∧ (c = '0' ↔ a.v = 0) := by
  obtain ⟨two, sixteen⟩ := well.bounds
  unfold Asked.digits
  rw [if_neg some']
  exact (numeralDigits two sixteen a.upper a.v).2

theorem zerosShift (k : Nat) (s : Str) :
    '0' :: (List.replicate k '0' ++ s) = List.replicate k '0' ++ '0' :: s := by
  rw [← List.cons_append, ← List.replicate_succ, List.replicate_succ', List.append_assoc]
  rfl

theorem octalParts (well : a.Well) (octal : ¬ a.OctalPadded) (hash : a.hash = true)
    (base : a.base = 8) (some' : a.v ≠ 0) :
    a.codePre = a.sign ++ ['0'] ∧ a.pre = a.sign ∧ a.padded = a.digits ∧
      a.body = '0' :: a.digits := by
  obtain ⟨c, s, shape, zero⟩ := digitsHead well fun h => some' h.1
  have other : a.digits.head? ≠ some '0' := by
    rw [shape]
    exact fun same => some' (zero.mp (Option.some.inj same))
  have left : a.digits ≠ [] := by
    rw [shape]
    exact List.cons_ne_nil c s
  have padded : a.padded = a.digits := by
    have enough : a.prec.getD 0 - a.digits.length = 0 := by
      unfold Asked.OctalPadded at octal
      have short : ¬ a.digits.length < a.prec.getD 0 := fun h => octal ⟨hash, base, some', h⟩
      omega
    unfold Asked.padded
    rw [enough]
    rfl
  refine ⟨?_, ?_, padded, ?_⟩
  · unfold Asked.codePre
    rw [if_neg (by rw [base]; omega), if_pos ⟨hash, base, left, other⟩]
  · unfold Asked.pre
    rw [if_neg (by rw [base]; omega), List.append_nil]
  · unfold Asked.body
    rw [padded, if_pos ⟨hash, base, other⟩]

theorem otherParts (well : a.Well) (hex : ¬ a.HexZero)
    (octal : ¬ (a.hash = true ∧ a.base = 8 ∧ (a.v ≠ 0 ∨ a.prec = some 0))) :
    a.codePre = a.pre ∧ a.body = a.padded := by
  have first : a.hash = true → a.base = 8 → a.digits.head? = some '0' := by
    intro hash base
    have zero : a.v = 0 := by
      by_contra some'
      exact octal ⟨hash, base, Or.inl some'⟩
    obtain ⟨c, s, shape, same⟩ :=
      digitsHead well fun h => octal ⟨hash, base, Or.inr h.2⟩
    rw [shape, same.mpr zero]
    rfl
  constructor
  · unfold Asked.codePre Asked.pre
    congr 1
    by_cases sixteen : a.hash = true ∧ a.base = 16
    · have some' : a.v ≠ 0 := fun zero => hex ⟨sixteen.1, sixteen.2, zero⟩
      exact (if_pos sixteen).trans (if_pos ⟨sixteen.1, sixteen.2, some'⟩).symm
    · have zero : ¬ (a.hash = true ∧ a.base = 8 ∧ a.digits ≠ [] ∧ a.digits.head? ≠ some '0') :=
        fun h => h.2.2.2 (first h.1 h.2.1)
      exact (if_neg sixteen).trans ((if_neg zero).trans
        (if_neg fun h => sixteen ⟨h.1, h.2.1⟩).symm)
  · unfold Asked.body
    refine if_neg fun h => h.2.2 ?_
    unfold Asked.padded
    cases a.prec.getD 0 - a.digits.length with
    | zero => exact first h.1 h.2.1
    | succ k => rfl

theorem partsSame (well : a.Well) (hex : ¬ a.HexZero) (octal : ¬ a.OctalPadded)
    (nothing : ¬ (a.hash ∧ a.base = 8 ∧ a.v = 0 ∧ a.prec = some 0)) :
    (∀ k, a.codePre ++ (List.replicate k '0' ++ a.padded) =
      a.pre ++ (List.replicate k '0' ++ a.body)) ∧ a.codeTotal = a.total := by
  unfold Asked.codeTotal Asked.total
  by_cases eight : a.hash = true ∧ a.base = 8 ∧ a.v ≠ 0
  · obtain ⟨code, pre, padded, body⟩ := octalParts well octal eight.1 eight.2.1 eight.2.2
    rw [code, pre, padded, body]
    refine ⟨fun k => ?_, ?_⟩
    · rw [List.append_assoc, List.singleton_append, zerosShift]
    · rw [List.length_append, List.length_cons, List.length_cons, List.length_nil]
      omega
  · obtain ⟨code, body⟩ := otherParts well hex fun h =>
      (h.2.2.elim (fun some' => eight ⟨h.1, h.2.1, some'⟩) fun prec => by
        by_cases zero : a.v = 0
        · exact nothing ⟨h.1, h.2.1, zero, prec⟩
        · exact eight ⟨h.1, h.2.1, zero⟩)
    rw [code, body]
    exact ⟨fun _ => rfl, rfl⟩

/-! ## Where they differ -/

def spaces (s : Str) : Nat := s.count ' '

theorem spacesReplicate (k : Nat) : spaces (List.replicate k ' ') = k := List.count_replicate_self

theorem spacesZeros (k : Nat) : spaces (List.replicate k '0') = 0 :=
  List.count_eq_zero.mpr fun member => absurd (List.eq_of_mem_replicate member) (by decide)

theorem spacesAppend (s t : Str) : spaces (s ++ t) = spaces s + spaces t := List.count_append

theorem spacesPadded (well : a.Well) : spaces a.padded = 0 := by
  unfold Asked.padded
  rw [spacesAppend, spacesZeros, Nat.zero_add]
  exact List.count_eq_zero.mpr fun member => digitsPlain well ' ' member rfl

theorem spacesBody (well : a.Well) : spaces a.body = 0 := by
  unfold Asked.body
  split
  · show List.count ' ' ('0' :: a.padded) = 0
    rw [List.count_cons_of_ne (by decide)]
    exact spacesPadded well
  · exact spacesPadded well

theorem spacesText (well : a.Well) :
    spaces a.text = spaces a.pre +
      if a.left ∨ ¬ (a.zero ∧ a.prec = none) then a.width - a.total else 0 := by
  unfold Asked.text
  by_cases left : a.left = true
  · rw [if_pos left, if_pos (Or.inl left), spacesAppend, spacesAppend, spacesBody well,
      spacesReplicate]
    omega
  · by_cases zero : a.zero = true ∧ a.prec = none
    · rw [if_neg left, if_pos zero, if_neg (by tauto), spacesAppend, spacesAppend, spacesBody well,
        spacesZeros]
    · rw [if_neg left, if_neg zero, if_pos (Or.inr zero), spacesAppend, spacesAppend,
        spacesBody well, spacesReplicate]
      omega

theorem spacesPrinted (well : a.Well) :
    spaces (printed a) = spaces a.codePre + if a.zeroPads then 0 else a.codePad := by
  rw [printedLayout well]
  by_cases zero : a.zeroPads
  · rw [if_pos zero, if_pos zero, spacesAppend, spacesAppend, spacesPadded well, spacesZeros]
  · rw [if_neg zero, if_neg zero]
    split
    · rw [spacesAppend, spacesAppend, spacesPadded well, spacesReplicate]; omega
    · rw [spacesAppend, spacesAppend, spacesPadded well, spacesReplicate]; omega

theorem lengthText (a : Asked) : a.text.length = a.total + (a.width - a.total) := by
  unfold Asked.text Asked.total
  dsimp only
  split
  · simp only [List.length_append, List.length_replicate]
  · split <;> simp only [List.length_append, List.length_replicate] <;> omega

theorem lengthPrinted (well : a.Well) : (printed a).length = a.codeTotal + a.codePad := by
  rw [printedLayout well]
  unfold Asked.codeTotal
  split
  · simp only [List.length_append, List.length_replicate]
    omega
  · split
    · simp only [List.length_append, List.length_replicate]
    · simp only [List.length_append, List.length_replicate]
      omega

theorem signNone (well : a.Well) (other : a.base ≠ 10) : a.sign = [] := by
  have signed : a.signed = false := by
    by_contra some'
    exact other (well.signed (by simpa using some'))
  have neg : a.neg = false := by
    by_contra some'
    have yes := well.neg (by simpa using some')
    rw [signed] at yes
    cases yes
  unfold Asked.sign
  simp [signed, neg]

theorem totals (well : a.Well) :
    a.codeTotal ≤ 2 ^ 31 + 1 ∧ (a.base = 8 → a.codeTotal ≤ 2 ^ 31) := by
  have padded := paddedLength a
  have short := digitsShort well
  have prec := well.prec
  have sign : a.sign.length ≤ 1 ∧ (a.base ≠ 10 → a.sign.length = 0) := by
    refine ⟨?_, fun other => by rw [signNone well other, List.length_nil]⟩
    unfold Asked.sign
    repeat' split
    all_goals decide
  have pre : a.codePre.length ≤ 2 ∧ (a.base = 8 → a.codePre.length ≤ 1) := by
    unfold Asked.codePre
    rw [List.length_append]
    by_cases sixteen : a.hash = true ∧ a.base = 16
    · have none := sign.2 (by omega)
      rw [if_pos sixteen, none]
      exact ⟨Nat.le_refl 2, fun eight => by omega⟩
    · rw [if_neg sixteen]
      split <;> rename_i octal
      · have none := sign.2 (by omega)
        rw [none]
        exact ⟨by decide, fun _ => by decide⟩
      · exact ⟨Nat.le_trans sign.1 (by decide), fun _ => sign.1⟩
  unfold Asked.codeTotal
  omega

theorem padRoom (well : a.Well) (fits : ¬ (a.width = 2 ^ 31 ∧ a.codeTotal = 0))
    (long : ¬ (a.width = 0 ∧ a.codeTotal = 2 ^ 31 + 1)) :
    a.codePad = a.width - a.codeTotal := by
  have total := (totals well).1
  have width := well.width
  unfold Asked.codePad int
  omega

theorem textChars {c : Char} (member : c ∈ a.text) :
    c ∈ a.pre ∨ c ∈ a.body ∨ c = ' ' ∨ c = '0' := by
  unfold Asked.text at member
  dsimp only at member
  have filled : ∀ k d, c ∈ List.replicate k d → c = d := fun k d inside =>
    List.eq_of_mem_replicate inside
  split at member
  · simp only [List.mem_append] at member
    rcases member with (pre | body) | room
    · exact Or.inl pre
    · exact Or.inr (Or.inl body)
    · exact Or.inr (Or.inr (Or.inl (filled _ _ room)))
  · split at member <;> simp only [List.mem_append] at member
    · rcases member with (pre | room) | body
      · exact Or.inl pre
      · exact Or.inr (Or.inr (Or.inr (filled _ _ room)))
      · exact Or.inr (Or.inl body)
    · rcases member with (room | pre) | body
      · exact Or.inr (Or.inr (Or.inl (filled _ _ room)))
      · exact Or.inl pre
      · exact Or.inr (Or.inl body)

theorem codePrePrinted (well : a.Well) {c : Char} (member : c ∈ a.codePre) : c ∈ printed a := by
  rw [printedLayout well]
  split
  · simp [member]
  · split <;> simp [member]

theorem hexZeroDiffers (well : a.Well) (hex : a.HexZero) : printed a ≠ a.text := by
  obtain ⟨hash, base, zero⟩ := hex
  have none : a.sign = [] := signNone well (by omega)
  have printedX : (if a.upper then 'X' else 'x') ∈ printed a := by
    refine codePrePrinted well ?_
    unfold Asked.codePre
    rw [if_pos ⟨hash, base⟩, none]
    exact List.mem_cons_of_mem _ List.mem_cons_self
  have zeros : ∀ c ∈ a.digits, c = '0' := by
    unfold Asked.digits
    split
    · intro c member
      cases member
    · rw [zero, numeralSmall (by omega)]
      intro c member
      rw [List.mem_singleton.mp member]
      cases a.upper <;> rfl
  intro same
  rw [same] at printedX
  have other : (if a.upper then 'X' else 'x') ≠ '0' ∧ (if a.upper then 'X' else 'x') ≠ ' ' := by
    cases a.upper <;> decide
  rcases textChars printedX with pre | body | space | digit
  · unfold Asked.pre at pre
    rw [none, if_neg fun h => h.2.2 zero] at pre
    cases pre
  · unfold Asked.body Asked.padded at body
    rw [if_neg (by rw [base]; omega)] at body
    rcases List.mem_append.mp body with front | last
    · exact other.1 (List.eq_of_mem_replicate front)
    · exact other.1 (zeros _ last)
  · exact other.2 space
  · exact other.1 digit

theorem octalPaddedDiffers (well : a.Well) (octal : a.OctalPadded) : printed a ≠ a.text := by
  obtain ⟨hash, base, some', short⟩ := octal
  have none : a.sign = [] := signNone well (by omega)
  obtain ⟨c, s, shape, zero⟩ := digitsHead well fun h => some' h.1
  have code : a.codePre = ['0'] := by
    unfold Asked.codePre
    rw [if_neg (by rw [base]; omega), none, if_pos]
    · rfl
    · rw [shape]
      exact ⟨hash, base, List.cons_ne_nil c s, fun same => some' (zero.mp (Option.some.inj same))⟩
  have pre : a.pre = [] := by
    unfold Asked.pre
    rw [none, if_neg (by rw [base]; omega)]
    rfl
  have body : a.body = a.padded := by
    unfold Asked.body
    refine if_neg fun h => h.2.2 ?_
    unfold Asked.padded
    obtain ⟨k, more⟩ : ∃ k, a.prec.getD 0 - a.digits.length = k + 1 :=
      ⟨a.prec.getD 0 - a.digits.length - 1, by omega⟩
    rw [more]
    rfl
  intro same
  have length := congrArg List.length same
  have space := congrArg spaces same
  have prec : a.prec ≠ Option.none := fun without => by
    rw [without, Option.getD_none] at short
    omega
  rw [lengthPrinted well, lengthText, Asked.codeTotal, Asked.total, code, pre, body] at length
  rw [spacesPrinted well, spacesText well, if_neg (fun h => by have zero := h.2; omega),
    if_pos (Or.inr fun h => prec h.2), code, pre, Asked.total, pre, body] at space
  have codeSpaces : spaces ['0'] = 0 := by decide
  have preSpaces : spaces [] = 0 := rfl
  rw [codeSpaces, preSpaces] at space
  rw [List.length_cons, List.length_nil] at length
  rw [List.length_nil] at space
  omega

theorem octalNothingIff (well : a.Well)
    (nothing : a.hash ∧ a.base = 8 ∧ a.v = 0 ∧ a.prec = some 0) :
    (printed a = a.text ↔ (a.zero ∧ ¬ a.minus) ∧ a.width = 1) ∧ a.total = 1 := by
  obtain ⟨hash, base, zero, prec⟩ := nothing
  have none : a.sign = [] := signNone well (by omega)
  have digits : a.digits = [] := if_pos ⟨zero, prec⟩
  have padded : a.padded = [] := by
    unfold Asked.padded
    rw [digits, prec]
    rfl
  have code : a.codePre = [] := by
    unfold Asked.codePre
    rw [none, digits, if_neg (by rw [base]; omega), if_neg fun h => h.2.2.1 rfl]
    rfl
  have pre : a.pre = [] := by
    unfold Asked.pre
    rw [none, if_neg fun h => h.2.2 zero]
    rfl
  have body : a.body = ['0'] := by
    unfold Asked.body
    rw [padded, if_pos ⟨hash, base, fun same => by cases same⟩]
  have total : a.total = 1 ∧ a.codeTotal = 0 := by
    unfold Asked.total Asked.codeTotal
    rw [pre, body, code, padded]
    exact ⟨rfl, rfl⟩
  have pads : a.zeroPads ↔ a.zero ∧ ¬ a.minus := by
    unfold Asked.zeroPads
    rw [prec]
    exact and_iff_left rfl
  have width := well.width
  have pad : a.codePad = (int a.width).toNat := by
    unfold Asked.codePad
    rw [total.2, Int.natCast_zero, Int.sub_zero]
  refine ⟨⟨?_, ?_⟩, total.1⟩
  · intro same
    have length := congrArg List.length same
    have space := congrArg spaces same
    rw [lengthPrinted well, lengthText, total.1, total.2] at length
    rw [spacesPrinted well, spacesText well, code, pre, total.1,
      if_pos (Or.inr fun h => by rw [prec] at h; cases h.2)] at space
    by_cases first : a.zeroPads
    · rw [if_pos first] at space
      refine ⟨pads.mp first, ?_⟩
      unfold int at pad
      omega
    · rw [if_neg first] at space
      omega
  · rintro ⟨first, one⟩
    have room : a.codePad = 1 := by
      rw [pad, one]
      rfl
    rw [printedLayout well, if_pos (pads.mpr first), room, code, padded]
    unfold Asked.text
    rw [total.1, one, pre, body]
    dsimp only
    repeat' split
    all_goals rfl

theorem plainIff (well : a.Well) (hex : ¬ a.HexZero) (octal : ¬ a.OctalPadded)
    (nothing : ¬ (a.hash ∧ a.base = 8 ∧ a.v = 0 ∧ a.prec = some 0)) :
    printed a = a.text ↔ ¬ a.ZerosKept ∧ ¬ a.Wraps := by
  obtain ⟨parts, total⟩ := partsSame well hex octal nothing
  have core : a.codePre ++ a.padded = a.pre ++ a.body := parts 0
  have space : spaces a.codePre = spaces a.pre := by
    have both := congrArg spaces core
    rwa [spacesAppend, spacesAppend, spacesPadded well, spacesBody well] at both
  constructor
  · intro same
    refine ⟨?_, ?_⟩
    · rintro ⟨zero, asked, room⟩
      have counts := congrArg spaces same
      have pads : a.zeroPads := by
        refine ⟨zero, ?_⟩
        rcases asked with prec | ⟨prec, _⟩ <;> rw [prec] <;> rfl
      have padded : a.left = true ∨ ¬ (a.zero = true ∧ a.prec = none) := by
        rcases asked with prec | ⟨_, width⟩
        · exact Or.inr fun h => by rw [prec] at h; cases h.2
        · exact Or.inl (by unfold Asked.left; rw [width, Bool.or_true])
      rw [spacesPrinted well, spacesText well, if_pos pads, if_pos padded, space] at counts
      omega
    · intro wraps
      have length := congrArg List.length same
      have width := well.width
      rw [lengthPrinted well, lengthText, ← total] at length
      unfold Asked.Wraps at wraps
      rw [← total] at wraps
      unfold Asked.codePad int at length
      omega
  · rintro ⟨kept, wraps⟩
    have pad : a.codePad = a.width - a.total := by
      unfold Asked.Wraps at wraps
      rw [← total] at wraps ⊢
      exact padRoom well (fun h => wraps (Or.inl h)) fun h => wraps (Or.inr h)
    rw [printedLayout well, pad]
    unfold Asked.text
    dsimp only
    by_cases pads : a.zeroPads
    · rw [if_pos pads, List.append_assoc, parts]
      by_cases room : a.width - a.total = 0
      · rw [room]
        simp
      · have prec : a.prec = none := by
          cases prec : a.prec with
          | none => rfl
          | some p =>
            have zero : p = 0 := by
              have low := pads.2
              rwa [prec, Option.getD_some] at low
            exact absurd ⟨pads.1, Or.inl (by rw [prec, zero]), by omega⟩ kept
        have left : ¬ a.left = true := by
          unfold Asked.left
          intro left
          rcases Bool.or_eq_true_iff.mp left with minus | width
          · exact pads.1.2 minus
          · exact kept ⟨pads.1, Or.inr ⟨prec, width⟩, by omega⟩
        rw [if_neg left, if_pos ⟨pads.1.1, prec⟩, List.append_assoc]
    · rw [if_neg pads]
      by_cases left : a.left = true
      · rw [if_pos left, if_pos left, core]
      · have other : ¬ (a.zero = true ∧ a.prec = none) := by
          rintro ⟨zero, prec⟩
          refine pads ⟨⟨zero, fun minus => left ?_⟩, by rw [prec]; rfl⟩
          unfold Asked.left
          rw [minus, Bool.true_or]
        rw [if_neg left, if_neg left, if_neg other, List.append_assoc, core, List.append_assoc]

/-! ## The value of the digits -/

def digitValue (c : Char) : Nat :=
  if c.toNat < 58 then c.toNat - 48 else if c.toNat < 71 then c.toNat - 55 else c.toNat - 87

def parse (base : Nat) (s : Str) : Nat := s.foldl (fun n c => n * base + digitValue c) 0

theorem shownValue {n : Nat} (upper : Bool) (small : n < 16) : digitValue (shown upper n) = n := by
  have all : ∀ upper : Bool, ∀ n : Fin 16, digitValue (shown upper n) = n.val := by decide
  exact all upper ⟨n, small⟩

theorem parseNumeral (two : 1 < base) (sixteen : base ≤ 16) (upper : Bool) (v : Nat) :
    parse base (numeral base upper v) = v := by
  induction v using Nat.strongRecOn with
  | ind v ih =>
    by_cases small : v < base
    · rw [numeralSmall small]
      show 0 * base + digitValue (shown upper v) = v
      rw [shownValue upper (by omega), Nat.zero_mul, Nat.zero_add]
    · have digit : v % base < base := Nat.mod_lt v (by omega)
      have front := ih (v / base) (Nat.div_lt_self (by omega) two)
      rw [numeralLarge two (Nat.le_of_not_lt small), parse, List.foldl_append]
      show parse base (numeral base upper (v / base)) * base + digitValue (shown upper (v % base)) = v
      rw [front, shownValue upper (by omega), Nat.mul_comm]
      exact Nat.div_add_mod v base

theorem parseBody (well : a.Well) : parse a.base a.body = a.v := by
  obtain ⟨two, sixteen⟩ := well.bounds
  have digits : parse a.base a.digits = a.v := by
    unfold Asked.digits
    split <;> rename_i nothing
    · exact nothing.1.symm
    · exact parseNumeral two sixteen a.upper a.v
  have zeros : ∀ k s, parse a.base (List.replicate k '0' ++ s) = parse a.base s := by
    intro k s
    induction k with
    | zero => rfl
    | succ k ih =>
      rw [List.replicate_succ, List.cons_append, parse, List.foldl_cons, Nat.zero_mul]
      exact ih
  have padded : parse a.base a.padded = a.v := (zeros _ _).trans digits
  unfold Asked.body
  split
  · exact (zeros 1 a.padded).trans padded
  · exact padded

/-! ## The conversions -/

theorem fieldRange (f : Field) (va : Va) (ap : Nat) :
    -2 ^ 31 ≤ f.value va ap ∧ f.value va ap < 2 ^ 31 := by
  cases f with
  | number n =>
    have fits := n.fits
    show -2 ^ 31 ≤ ((numberOf n.digits : Nat) : Int) ∧ ((numberOf n.digits : Nat) : Int) < 2 ^ 31
    omega
  | star => exact ⟨BitVec.le_toInt (va.word ap), BitVec.toInt_lt⟩

theorem askedWell (c : Conversion) (va : Va) (ap : Nat) : (c.asked va ap).Well := by
  constructor
  · show c.conv.base = 8 ∨ c.conv.base = 10 ∨ c.conv.base = 16
    cases c.conv <;> decide
  · show (c.conv.value (va.word (c.valueAt ap))).2 < 2 ^ 32
    have low := BitVec.le_toInt (va.word (c.valueAt ap))
    have high := BitVec.toInt_lt (x := va.word (c.valueAt ap))
    cases c.conv with
    | d | i =>
      show (va.word (c.valueAt ap)).toInt.natAbs < 2 ^ 32
      omega
    | u | x | X | o => exact (va.word (c.valueAt ap)).isLt
  · show (c.width.value va ap).natAbs ≤ 2 ^ 31
    have range := fieldRange c.width va ap
    omega
  · unfold Conversion.asked
    cases c.prec with
    | none => exact Nat.two_pow_pos 31
    | some p =>
      have range := fieldRange p va (c.width.next ap)
      dsimp only
      split
      · exact Nat.two_pow_pos 31
      · rw [Option.getD_some]
        omega
  · intro signed
    have conv : c.conv = .d ∨ c.conv = .i := of_decide_eq_true signed
    show c.conv.base = 10
    rcases conv with conv | conv <;> rw [conv] <;> rfl
  · intro neg
    have value : (c.conv.value (va.word (c.valueAt ap))).1 = true := neg
    show decide (c.conv = .d ∨ c.conv = .i) = true
    cases conv : c.conv with
    | d | i => rfl
    | u | x | X | o =>
      rw [conv] at value
      cases value

/-- What an integer conversion prints, wherever it stands in a format, is what the standard
prescribes exactly if it is none of the five cases; and the prescribed digits stand for the
value. -/
theorem integerTextIff (c : Conversion) (va : Va) (ap : Nat) :
    ∃ text, (∀ more, emits va ap ('%' :: (c.text ++ more)) =
        (emits va (c.valueAt ap + 1) more).map (text ++ ·)) ∧
      (text = (c.asked va ap).text ↔ ¬ (c.asked va ap).Astray) ∧
      parse (c.asked va ap).base (c.asked va ap).body = (c.asked va ap).v := by
  have well := askedWell c va ap
  refine ⟨_, emitsConversion c va ap, ?_, parseBody well⟩
  generalize c.asked va ap = a at well
  unfold Asked.Astray
  by_cases hex : a.HexZero
  · exact iff_of_false (hexZeroDiffers well hex) fun h => h (Or.inl hex)
  by_cases octal : a.OctalPadded
  · exact iff_of_false (octalPaddedDiffers well octal) fun h => h (Or.inr (Or.inl octal))
  by_cases nothing : a.hash ∧ a.base = 8 ∧ a.v = 0 ∧ a.prec = some 0
  · obtain ⟨same, total⟩ := octalNothingIff well nothing
    rw [same]
    constructor
    · rintro ⟨zero, one⟩ (h | h | h | h | h)
      · exact hex h
      · exact octal h
      · exact h.2.2.2.2 ⟨zero, one⟩
      · have room := h.2.2
        omega
      · unfold Asked.Wraps at h
        omega
    · intro straight
      by_contra other
      exact straight (Or.inr (Or.inr (Or.inl
        ⟨nothing.1, nothing.2.1, nothing.2.2.1, nothing.2.2.2, other⟩)))
  · have none : ¬ a.OctalNothing := fun h => nothing ⟨h.1, h.2.1, h.2.2.1, h.2.2.2.1⟩
    rw [plainIff well hex octal nothing]
    tauto

def hexSpec : Conversion :=
  ⟨[.hash], .number ⟨[], by decide⟩, none, .x, fun n same => by cases same; decide⟩

/-- `%#x` of 0 prints `0x0`. -/
theorem hexZeroPrefixed :
    emits noArguments 0 ['%', '#', 'x'] = some ['0', 'x', '0'] ∧
      (hexSpec.asked noArguments 0).text = ['0'] := by
  refine ⟨?_, by decide⟩
  have front := emitsConversion hexSpec noArguments 0 []
  have shown : printed (hexSpec.asked noArguments 0) = ['0', 'x', '0'] := by decide
  have last : emits noArguments (hexSpec.valueAt 0 + 1) [] = some [] := by rw [emits]
  rw [shown, last] at front
  exact front

end Scepter.Printf
