import Mathlib.Algebra.Group.Nat.Defs
import Mathlib.Data.List.GetD
import Mathlib.Data.List.Range

/-! The terminal emulator (driver/char/tty.c, the output side): the cursor, the parser of
escape sequences and the calls of the backend, and where a sequence is meant to move the
cursor. The screen is as large as the two backends allow, and it stays attached. -/
namespace Scepter.Terminal

def TAB_WIDTH : Nat := 8

structure Screen where
  cols : Nat
  rows : Nat
  someCol : 0 < cols
  colsMax : cols ≤ 256
  someRow : 0 < rows
  rowsMax : rows ≤ 128

inductive State where
  | normal | esc | csi
  deriving DecidableEq

inductive Call where
  | clear
  | scroll
  | writeCell (col row : Nat) (c : Char) (fg bg : Nat)
  | setCursor (col row : Nat)

structure Tty where
  col : Nat
  row : Nat
  fg : Nat
  bg : Nat
  bold : Bool
  state : State
  params : List Int
  currentParam : Int
  calls : List Call

def TTY_WHITE : Nat := 7
def TTY_BLACK : Nat := 0

def Tty.init : Tty := ⟨0, 0, TTY_WHITE, TTY_BLACK, false, .normal, [], 0, []⟩

def u8 (x : Int) : Nat := (x % 256).toNat

def wrap32 (x : Int) : Int := x.bmod (2 ^ 32)

def Tty.call (t : Tty) (call : Call) : Tty := {t with calls := t.calls ++ [call]}

def Tty.writeCell (t : Tty) (c : Char) : Tty := t.call (.writeCell t.col t.row c t.fg t.bg)

def Tty.updateHwCursor (t : Tty) : Tty := t.call (.setCursor t.col t.row)

def Tty.clear (t : Tty) : Tty := {t.call .clear with col := 0, row := 0}.updateHwCursor

def Tty.setCursor (s : Screen) (t : Tty) (col row : Int) : Tty :=
  let col := if col < 0 then 0 else col
  let row := if row < 0 then 0 else row
  let col := if s.cols ≤ col then (s.cols : Int) - 1 else col
  let row := if s.rows ≤ row then (s.rows : Int) - 1 else row
  {t with col := u8 col, row := u8 row}.updateHwCursor

def Tty.newline (s : Screen) (t : Tty) : Tty :=
  let t := {t with col := 0, row := u8 (t.row + 1)}
  if s.rows ≤ t.row then {t.call .scroll with row := u8 (s.rows - 1)} else t

def Tty.param (t : Tty) (i : Nat) : Int :=
  if 0 < t.params.getD i 0 then t.params.getD i 0 else 1

def ansiToVga : List Nat := [0, 4, 2, 6, 1, 5, 3, 7]

def Tty.selectColor (t : Tty) (param : Int) : Tty :=
  if param = 0 then {t with fg := TTY_WHITE, bg := TTY_BLACK, bold := false}
  else if param = 1 then {t with bold := true}
  else if 30 ≤ param ∧ param ≤ 37 then
    {t with fg := ansiToVga.getD (param - 30).toNat 0 + if t.bold then 8 else 0}
  else if 40 ≤ param ∧ param ≤ 47 then {t with bg := ansiToVga.getD (param - 40).toNat 0}
  else t

def Tty.executeCsi (s : Screen) (t : Tty) (command : Char) : Tty :=
  match command with
  | 'A' =>
    let n := t.param 0
    {t with row := if n ≤ t.row then u8 (t.row - n) else 0}.updateHwCursor
  | 'B' =>
    let row := u8 (t.row + t.param 0)
    {t with row := if s.rows ≤ row then u8 (s.rows - 1) else row}.updateHwCursor
  | 'C' =>
    let col := u8 (t.col + t.param 0)
    {t with col := if s.cols ≤ col then u8 (s.cols - 1) else col}.updateHwCursor
  | 'D' =>
    let n := t.param 0
    {t with col := if n ≤ t.col then u8 (t.col - n) else 0}.updateHwCursor
  | 'H' | 'f' => t.setCursor s (t.param 1 - 1) (t.param 0 - 1)
  | 'J' => if t.params.getD 0 0 = 2 then t.clear else t.updateHwCursor
  | 'K' =>
    let cells := (List.range' t.col (s.cols - t.col)).map fun col =>
      Call.writeCell col t.row ' ' t.fg t.bg
    {t with calls := t.calls ++ cells}.updateHwCursor
  | 'm' => (t.params.foldl Tty.selectColor t).updateHwCursor
  | _ => t.updateHwCursor

def tabLoop (next : Nat) : Nat → Tty → Tty
  | 0, t => t
  | fuel + 1, t =>
    if t.col < next then tabLoop next fuel {t.writeCell ' ' with col := u8 (t.col + 1)} else t

def Tty.put (s : Screen) (t : Tty) (c : Char) : Tty :=
  if c = '\n' then t.newline s
  else if c = '\r' then {t with col := 0}
  else if c = '\x08' then
    if 0 < t.col then {t with col := u8 (t.col - 1)}.writeCell ' ' else t
  else if c = '\t' then
    let next := (t.col / TAB_WIDTH + 1) * TAB_WIDTH
    if s.cols ≤ next then t.newline s else tabLoop next TAB_WIDTH t
  else if c = '\x07' then t
  else if 32 ≤ c.toNat ∧ c.toNat ≤ 126 then
    let t := {t.writeCell c with col := u8 (t.col + 1)}
    if s.cols ≤ t.col then t.newline s else t
  else t

def isDigit (c : Char) : Bool := '0' ≤ c ∧ c ≤ '9'

def digit (c : Char) : Nat := c.toNat - '0'.toNat

def isLetter (c : Char) : Bool := ('A' ≤ c ∧ c ≤ 'Z') ∨ ('a' ≤ c ∧ c ≤ 'z')

def Tty.pushParam (t : Tty) : Tty :=
  if t.params.length < 8 then {t with params := t.params ++ [t.currentParam]} else t

def Tty.putchar (s : Screen) (t : Tty) (c : Char) : Tty :=
  match t.state with
  | .normal => if c = '\x1b' then {t with state := .esc} else (t.put s c).updateHwCursor
  | .esc =>
    if c = '[' then {t with state := .csi, params := [], currentParam := 0}.updateHwCursor
    else {t with state := .normal}.updateHwCursor
  | .csi =>
    if isDigit c then
      {t with currentParam := wrap32 (t.currentParam * 10 + digit c)}.updateHwCursor
    else if c = ';' then {t.pushParam with currentParam := 0}.updateHwCursor
    else if isLetter c then {t.pushParam.executeCsi s c with state := .normal}.updateHwCursor
    else {t with state := .normal}.updateHwCursor

def Tty.writeCb (s : Screen) (onlcr : Bool) (t : Tty) (c : Char) : Tty :=
  if onlcr ∧ c = '\n' then (t.putchar s '\r').putchar s '\n' else t.putchar s c

def emulate (s : Screen) (onlcr : Bool) (stream : List Char) : Tty :=
  stream.foldl (Tty.writeCb s onlcr) .init

/-! ## What a stream means -/

inductive Phase where
  | ground
  | escape
  | sequence (text : List Char)

def Phase.next : Phase → Char → Phase
  | .ground, c => if c = '\x1b' then .escape else .ground
  | .escape, c => if c = '[' then .sequence [] else .ground
  | .sequence text, c => if isDigit c ∨ c = ';' then .sequence (text ++ [c]) else .ground

def phase (stream : List Char) : Phase := stream.foldl Phase.next .ground

def readNumber (read : List Nat × Nat) (c : Char) : List Nat × Nat :=
  if c = ';' then (read.1 ++ [read.2], 0) else (read.1, read.2 * 10 + digit c)

def numbers (text : List Char) : List Nat :=
  (text.foldl readNumber ([], 0)).1 ++ [(text.foldl readNumber ([], 0)).2]

def amount (ns : List Nat) (i : Nat) : Nat := if ns.getD i 0 = 0 then 1 else ns.getD i 0

def moved (s : Screen) (col row : Nat) (ns : List Nat) (command : Char) : Option (Nat × Nat) :=
  let n := amount ns 0
  match command with
  | 'A' => some (col, row - n)
  | 'B' => some (col, min (row + n) (s.rows - 1))
  | 'C' => some (min (col + n) (s.cols - 1), row)
  | 'D' => some (col - n, row)
  | 'H' | 'f' => some (min (amount ns 1 - 1) (s.cols - 1), min (n - 1) (s.rows - 1))
  | _ => none

def isFinal (c : Char) : Prop := 0x40 ≤ c.toNat ∧ c.toNat ≤ 0x7e

def Call.Inside (s : Screen) : Call → Prop
  | .writeCell col row _ _ _ => col < s.cols ∧ row < s.rows
  | _ => True

structure StepRight (s : Screen) (onlcr : Bool) (before : List Char) (c : Char) : Prop where
  col : (emulate s onlcr (before ++ [c])).col < s.cols
  row : (emulate s onlcr (before ++ [c])).row < s.rows
  drawn : ∀ call ∈ (emulate s onlcr (before ++ [c])).calls, call.Inside s
  ended : isFinal c → ((emulate s onlcr before).state = .esc → c ≠ '[') →
    (emulate s onlcr (before ++ [c])).state = .normal
  moved : ∀ text place, phase before = .sequence text →
    moved s (emulate s onlcr before).col (emulate s onlcr before).row (numbers text) c =
      some place →
    ((emulate s onlcr (before ++ [c])).col, (emulate s onlcr (before ++ [c])).row) = place

def Emulated (s : Screen) (onlcr : Bool) (stream : List Char) : Prop :=
  ∀ before c after, stream = before ++ c :: after → StepRight s onlcr before c

def INT_MAX : Nat := 2147483647

def kept (n : Nat) : Nat := if 0 < wrap32 n then (wrap32 n).toNat else 1

def BackFits (at' n : Nat) : Prop := n ≤ INT_MAX ∨ at' ≤ kept n

def OnFits (size at' n : Nat) : Prop := at' + n < 256 ∨ size - 1 ≤ (at' + kept n) % 256

def ToFits (size n : Nat) : Prop := n ≤ INT_MAX ∨ size ≤ kept n

def MoveFits (s : Screen) (col row : Nat) (ns : List Nat) (command : Char) : Prop :=
  match command with
  | 'A' => BackFits row (amount ns 0)
  | 'B' => OnFits s.rows row (amount ns 0)
  | 'C' => OnFits s.cols col (amount ns 0)
  | 'D' => BackFits col (amount ns 0)
  | 'H' | 'f' => ToFits s.cols (amount ns 1) ∧ ToFits s.rows (amount ns 0)
  | _ => True

/-- Whatever a sequence adds to the cursor fits its byte, and its numbers an int, or what is
left of the sum still reaches the edge. -/
def Moderate (s : Screen) (onlcr : Bool) (stream : List Char) : Prop :=
  ∀ before c after text, stream = before ++ c :: after → phase before = .sequence text →
    MoveFits s (emulate s onlcr before).col (emulate s onlcr before).row (numbers text) c

/-! ## Inside the screen -/

section inside

variable {s : Screen} {t : Tty} {c : Char} {n : Nat}

structure Inside (s : Screen) (t : Tty) : Prop where
  col : t.col < s.cols
  row : t.row < s.rows
  drawn : ∀ call ∈ t.calls, call.Inside s

theorem u8Small {x : Int} (low : 0 ≤ x) (high : x < 256) : (u8 x : Int) = x := by
  unfold u8
  omega

theorem Inside.call {call : Call} (inside : Inside s t) (here : call.Inside s) :
    Inside s (t.call call) :=
  ⟨inside.col, inside.row, fun one member => (List.mem_append.mp member).elim (inside.drawn one)
    fun last => List.mem_singleton.mp last ▸ here⟩

theorem Inside.writeCell (inside : Inside s t) (c : Char) : Inside s (t.writeCell c) :=
  inside.call ⟨inside.col, inside.row⟩

theorem Inside.updateHwCursor (inside : Inside s t) : Inside s t.updateHwCursor :=
  inside.call trivial

theorem Inside.at' (inside : Inside s t) {col row : Nat} (colIn : col < s.cols)
    (rowIn : row < s.rows) : Inside s {t with col := col, row := row} :=
  ⟨colIn, rowIn, inside.drawn⟩

theorem Inside.setCursor (inside : Inside s t) (col row : Int) :
    Inside s (t.setCursor s col row) := by
  obtain ⟨cols, rows, someCol, colsMax, someRow, rowsMax⟩ := s
  unfold Tty.setCursor
  dsimp only
  refine (inside.at' ?_ ?_).updateHwCursor <;> unfold u8 <;> dsimp only <;> grind

theorem Inside.clear (inside : Inside s t) : Inside s t.clear :=
  ((@Inside.call s t .clear inside trivial).at' s.someCol s.someRow).updateHwCursor

theorem insideNewline (below : t.row < s.rows) (drawn : ∀ call ∈ t.calls, call.Inside s) :
    Inside s (t.newline s) := by
  have last := s.rowsMax
  have next : u8 (t.row + 1) = t.row + 1 := by
    have := u8Small (by omega : 0 ≤ (t.row : Int) + 1) (by omega)
    omega
  have edge : u8 ((s.rows : Int) - 1) < s.rows := by
    have := u8Small (by omega : 0 ≤ (s.rows : Int) - 1) (by omega)
    omega
  unfold Tty.newline
  dsimp only
  rw [next]
  split
  · refine ⟨s.someCol, edge, fun call member => ?_⟩
    rcases List.mem_append.mp member with old | scroll
    · exact drawn call old
    · rw [List.mem_singleton.mp scroll]
      trivial
  · rename_i above
    exact ⟨s.someCol, Nat.lt_of_not_le above, drawn⟩

theorem Inside.selectColor (inside : Inside s t) (param : Int) :
    Inside s (t.selectColor param) := by
  unfold Tty.selectColor
  obtain ⟨col, row, drawn⟩ := inside
  split_ifs <;> exact ⟨col, row, drawn⟩

theorem Inside.selectColors (inside : Inside s t) (params : List Int) :
    Inside s (params.foldl Tty.selectColor t) := by
  induction params generalizing t with
  | nil => exact inside
  | cons param rest ih => exact ih (inside.selectColor param)

theorem Inside.tabLoop (inside : Inside s t) {next : Nat} (nextIn : next < s.cols) (fuel : Nat) :
    Inside s (tabLoop next fuel t) := by
  induction fuel generalizing t with
  | zero => exact inside
  | succ fuel ih =>
    unfold Terminal.tabLoop
    split
    · rename_i before
      have last := s.colsMax
      have one := u8Small (by omega : 0 ≤ (t.col : Int) + 1) (by omega)
      exact ih ((inside.writeCell ' ').at' (by omega) inside.row)
    · exact inside

theorem Inside.executeCsi (inside : Inside s t) (command : Char) :
    Inside s (t.executeCsi s command) := by
  have colsMax := s.colsMax
  have rowsMax := s.rowsMax
  have someCol := s.someCol
  have someRow := s.someRow
  have col := inside.col
  have row := inside.row
  have lastCol : u8 ((s.cols : Int) - 1) < s.cols := by
    have := u8Small (by omega : 0 ≤ (s.cols : Int) - 1) (by omega)
    omega
  have lastRow : u8 ((s.rows : Int) - 1) < s.rows := by
    have := u8Small (by omega : 0 ≤ (s.rows : Int) - 1) (by omega)
    omega
  have positive : ∀ i, 0 < t.param i := fun i => by
    unfold Tty.param
    split <;> omega
  have one := positive 0
  unfold Tty.executeCsi
  split
  · refine (inside.at' col ?_).updateHwCursor
    split
    · have := u8Small (by omega : 0 ≤ (t.row : Int) - t.param 0) (by omega)
      omega
    · exact someRow
  · refine (inside.at' col ?_).updateHwCursor
    split
    · exact lastRow
    · omega
  · refine (inside.at' ?_ row).updateHwCursor
    split
    · exact lastCol
    · omega
  · refine (inside.at' ?_ row).updateHwCursor
    split
    · have := u8Small (by omega : 0 ≤ (t.col : Int) - t.param 0) (by omega)
      omega
    · exact someCol
  · exact inside.setCursor _ _
  · exact inside.setCursor _ _
  · split
    · exact inside.clear
    · exact inside.updateHwCursor
  · refine Inside.updateHwCursor ⟨col, row, fun call member => ?_⟩
    rcases List.mem_append.mp member with old | cell
    · exact inside.drawn call old
    · obtain ⟨at', place, rfl⟩ := List.mem_map.mp cell
      have := List.mem_range'_1.mp place
      exact ⟨by omega, row⟩
  · exact (inside.selectColors t.params).updateHwCursor
  · exact inside.updateHwCursor

theorem Inside.put (inside : Inside s t) (c : Char) : Inside s (t.put s c) := by
  have col := inside.col
  have colsMax := s.colsMax
  have newline := insideNewline inside.row inside.drawn
  unfold Tty.put
  dsimp only
  split_ifs with _ _ _ some' _ wide _ _ past
  · exact newline
  · exact inside.at' s.someCol inside.row
  · have back := u8Small (by omega : 0 ≤ (t.col : Int) - 1) (by omega)
    exact (inside.at' (by omega) inside.row).writeCell ' '
  · exact inside
  · exact newline
  · exact inside.tabLoop (by omega) _
  · exact inside
  · exact insideNewline inside.row (inside.writeCell c).drawn
  · exact (inside.writeCell c).at' (Nat.lt_of_not_le past) inside.row
  · exact inside

theorem Inside.pushParam (inside : Inside s t) : Inside s t.pushParam := by
  unfold Tty.pushParam
  split
  · exact ⟨inside.col, inside.row, inside.drawn⟩
  · exact inside

theorem Inside.putchar (inside : Inside s t) (c : Char) : Inside s (t.putchar s c) := by
  have same : ∀ {t : Tty} (state : State) (params : List Int) (current : Int), Inside s t →
      Inside s {t with state := state, params := params, currentParam := current} :=
    fun _ _ _ inside => ⟨inside.col, inside.row, inside.drawn⟩
  unfold Tty.putchar
  split
  · split_ifs
    · exact same _ _ _ inside
    · exact (inside.put c).updateHwCursor
  · split_ifs <;> exact (same _ _ _ inside).updateHwCursor
  · split_ifs
    · exact (same _ _ _ inside).updateHwCursor
    · exact (same _ _ _ inside.pushParam).updateHwCursor
    · exact (same _ _ _ (inside.pushParam.executeCsi c)).updateHwCursor
    · exact (same _ _ _ inside).updateHwCursor

theorem Inside.writeCb (inside : Inside s t) (onlcr : Bool) (c : Char) :
    Inside s (t.writeCb s onlcr c) := by
  unfold Tty.writeCb
  split
  · exact (inside.putchar '\r').putchar '\n'
  · exact inside.putchar c

theorem insideInit (s : Screen) : Inside s .init :=
  ⟨s.someCol, s.someRow, fun _ member => absurd member List.not_mem_nil⟩

theorem insideEmulate (s : Screen) (onlcr : Bool) (stream : List Char) :
    Inside s (emulate s onlcr stream) := by
  unfold emulate
  induction stream using List.reverseRecOn with
  | nil => exact insideInit s
  | append_singleton before c ih =>
    rw [List.foldl_append]
    exact ih.writeCb onlcr c

end inside

/-! ## The parser -/

section parser

variable {s : Screen} {t : Tty} {c : Char} {text : List Char} {p : Phase}

def Follows (t : Tty) : Phase → Prop
  | .ground => t.state = .normal
  | .escape => t.state = .esc
  | .sequence text => t.state = .csi ∧
    t.params = ((text.foldl readNumber ([], 0)).1.map fun n : Nat => wrap32 n).take 8 ∧
    t.currentParam = wrap32 (text.foldl readNumber ([], 0)).2

@[simp] theorem newlineState : (t.newline s).state = t.state := by
  unfold Tty.newline
  dsimp only
  split <;> rfl

@[simp] theorem tabLoopState (next fuel : Nat) (t : Tty) :
    (tabLoop next fuel t).state = t.state := by
  induction fuel generalizing t with
  | zero => rfl
  | succ fuel ih =>
    unfold tabLoop
    split
    · exact ih _
    · rfl

theorem putState (c : Char) : (t.put s c).state = t.state := by
  unfold Tty.put
  dsimp only
  split_ifs with _ _ _ _ _ _ _ _ past
  · exact newlineState
  · rfl
  · rfl
  · rfl
  · exact newlineState
  · exact tabLoopState _ _ _
  · rfl
  · exact newlineState
  · rfl
  · rfl

theorem wrapZero : wrap32 0 = 0 := by decide

theorem wrapDigit (x : Int) (d : Nat) : wrap32 (wrap32 x * 10 + d) = wrap32 (x * 10 + d) := by
  unfold wrap32
  rw [← Int.bmod_add_bmod, Int.bmod_mul_bmod, Int.bmod_add_bmod]

theorem pushTaken {ns : List Int} {n : Int} (params : t.params = ns.take 8)
    (current : t.currentParam = n) : t.pushParam.params = (ns ++ [n]).take 8 := by
  unfold Tty.pushParam
  rw [params, current, List.length_take]
  split
  · rename_i short
    have all : ns.length < 8 := by omega
    dsimp only
    rw [List.take_of_length_le (by omega),
      List.take_of_length_le (by rw [List.length_append, List.length_singleton]; omega)]
  · rename_i full
    exact params.trans (List.take_append_of_le_length (by omega)).symm

theorem Follows.putchar (follows : Follows t p) (c : Char) :
    Follows (t.putchar s c) (p.next c) := by
  unfold Tty.putchar
  cases p with
  | ground =>
    have state : t.state = .normal := follows
    rw [state]
    dsimp only [Phase.next]
    split
    · rfl
    · exact (putState c).trans state
  | escape =>
    have state : t.state = .esc := follows
    rw [state]
    dsimp only [Phase.next]
    by_cases bracket : c = '['
    · rw [if_pos bracket, if_pos bracket]
      exact ⟨rfl, rfl, wrapZero.symm⟩
    · rw [if_neg bracket, if_neg bracket]
      rfl
  | sequence text =>
    obtain ⟨state, params, current⟩ := follows
    rw [state]
    dsimp only [Phase.next]
    by_cases number : isDigit c
    · have other : c ≠ ';' := fun same => by
        rw [same] at number
        revert number
        decide
      rw [if_pos number, if_pos (.inl number)]
      have read : (text ++ [c]).foldl readNumber ([], 0) =
          ((text.foldl readNumber ([], 0)).1,
            (text.foldl readNumber ([], 0)).2 * 10 + digit c) := by
        rw [List.foldl_append]
        exact if_neg other
      refine ⟨rfl, ?_, ?_⟩
      · rw [read]
        exact params
      · rw [read]
        show wrap32 (t.currentParam * 10 + digit c) = _
        rw [current, wrapDigit, Int.natCast_add, Int.natCast_mul]
        rfl
    rw [if_neg number]
    by_cases separator : c = ';'
    · have read : (text ++ [c]).foldl readNumber ([], 0) =
          ((text.foldl readNumber ([], 0)).1 ++ [(text.foldl readNumber ([], 0)).2], 0) := by
        rw [List.foldl_append]
        exact if_pos separator
      rw [if_pos separator, if_pos (.inr separator)]
      have state' : t.pushParam.state = t.state := by
        unfold Tty.pushParam
        split <;> rfl
      refine ⟨state'.trans state, ?_, ?_⟩
      · rw [read, List.map_append]
        exact pushTaken params current
      · rw [read]
        exact wrapZero.symm
    rw [if_neg separator, if_neg (not_or.mpr ⟨number, separator⟩)]
    split <;> rfl

theorem Follows.writeCb (follows : Follows t p) (onlcr : Bool) (c : Char) :
    Follows (t.writeCb s onlcr c) (p.next c) := by
  unfold Tty.writeCb
  split
  · rename_i both
    have same : (p.next '\r').next '\n' = p.next c := by
      rw [both.2]
      cases p <;> rfl
    exact same ▸ (follows.putchar '\r').putchar '\n'
  · exact follows.putchar c

theorem followsEmulate (s : Screen) (onlcr : Bool) (stream : List Char) :
    Follows (emulate s onlcr stream) (phase stream) := by
  unfold emulate phase
  induction stream using List.reverseRecOn with
  | nil => rfl
  | append_singleton before c ih =>
    rw [List.foldl_append, List.foldl_append]
    exact ih.writeCb onlcr c

end parser

/-! ## The movements -/

section movements

variable {s : Screen} {t : Tty} {c : Char} {text : List Char} {at' size n : Nat}

theorem keptPos (n : Nat) : 0 < kept n := by
  unfold kept
  split <;> omega

theorem keptSmall (some' : 0 < n) (small : n ≤ INT_MAX) : kept n = n := by
  have same : wrap32 n = n := Int.bmod_eq_of_le (by omega) (by unfold INT_MAX at small; omega)
  unfold kept
  rw [same, if_pos (by omega), Int.toNat_natCast]

theorem paramKept {ns : List Nat} {i : Nat} (early : i < 8)
    (params : t.params = (ns.map fun n : Nat => wrap32 n).take 8) :
    t.param i = kept (amount ns i) := by
  have entry : t.params.getD i 0 = wrap32 (ns.getD i 0 : Nat) := by
    rw [params, List.getD_eq_getElem?_getD, List.getElem?_take_of_lt early, List.getElem?_map,
      List.getD_eq_getElem?_getD]
    have read := Option.getD_map (fun n : Nat => wrap32 n) 0 ns[i]?
    rwa [Int.ofNat_zero, wrapZero] at read
  unfold Tty.param amount
  rw [entry]
  by_cases zero : ns.getD i 0 = 0
  · have one : kept 1 = 1 := keptSmall Nat.one_pos (by unfold INT_MAX; omega)
    rw [if_pos zero, zero, one, Int.ofNat_zero, wrapZero]
    rfl
  · unfold kept
    rw [if_neg zero]
    split
    · omega
    · rfl

theorem back (some' : 0 < n) (byte : at' < 256) :
    (if (kept n : Int) ≤ at' then u8 (at' - kept n) else 0) = at' - n ↔ BackFits at' n := by
  have pos := keptPos n
  have moved : (if (kept n : Int) ≤ at' then u8 (at' - kept n) else 0) = at' - kept n := by
    split
    · have := u8Small (by omega : 0 ≤ (at' : Int) - kept n) (by omega)
      omega
    · omega
  rw [moved]
  unfold BackFits
  by_cases small : n ≤ INT_MAX
  · simp only [keptSmall some' small, small, true_or]
  · have large : 256 < n := by
      unfold INT_MAX at small
      omega
    omega

theorem onward (some' : 0 < n) (inside : at' < size) (byte : size ≤ 256) :
    (if size ≤ u8 (at' + kept n) then u8 (size - 1) else u8 (at' + kept n)) =
      min (at' + n) (size - 1) ↔ OnFits size at' n := by
  have last : u8 ((size : Int) - 1) = size - 1 := by
    have := u8Small (by omega : 0 ≤ (size : Int) - 1) (by omega)
    omega
  have low : u8 (at' + kept n) = (at' + kept n) % 256 := by
    unfold u8
    omega
  rw [last, low]
  unfold OnFits
  by_cases small : at' + n < 256
  · have same := keptSmall some' (by unfold INT_MAX; omega)
    rw [same, Nat.mod_eq_of_lt small]
    split <;> omega
  · have pos := keptPos n
    split <;> omega

theorem place (some' : 0 < n) (inside : 0 < size) (byte : size ≤ 256) :
    u8 (if (size : Int) ≤ (if (kept n : Int) - 1 < 0 then 0 else (kept n : Int) - 1)
      then (size : Int) - 1 else if (kept n : Int) - 1 < 0 then 0 else (kept n : Int) - 1) =
      min (n - 1) (size - 1) ↔ ToFits size n := by
  have pos := keptPos n
  rw [if_neg (by omega : ¬ (kept n : Int) - 1 < 0)]
  have stored : u8 (if (size : Int) ≤ (kept n : Int) - 1 then (size : Int) - 1 else
      (kept n : Int) - 1) = min (kept n - 1) (size - 1) := by
    split
    · have := u8Small (by omega : 0 ≤ (size : Int) - 1) (by omega)
      omega
    · have := u8Small (by omega : 0 ≤ (kept n : Int) - 1) (by omega)
      omega
  rw [stored]
  unfold ToFits
  by_cases small : n ≤ INT_MAX
  · simp only [keptSmall some' small, small, true_or]
  · have large : 256 < n := by
      unfold INT_MAX at small
      omega
    omega

theorem amountPos (ns : List Nat) (i : Nat) : 0 < amount ns i := by
  unfold amount
  split <;> omega

theorem executeMoved {ns : List Nat}
    (params : t.params = (ns.map fun n : Nat => wrap32 n).take 8) (inside : Inside s t)
    (command : Char) :
    (∀ place, moved s t.col t.row ns command = some place →
      ((t.executeCsi s command).col, (t.executeCsi s command).row) = place) ↔
    MoveFits s t.col t.row ns command := by
  have colsMax := s.colsMax
  have rowsMax := s.rowsMax
  have col := inside.col
  have row := inside.row
  have first := paramKept (by decide : 0 < 8) params
  have second := paramKept (by decide : 1 < 8) params
  have one := amountPos ns 0
  have two := amountPos ns 1
  have only : ∀ {a b : Nat × Nat}, (∀ place, some b = some place → a = place) ↔ a = b :=
    ⟨fun all => all _ rfl, fun same _ equal => same.trans (Option.some.inj equal)⟩
  unfold Tty.executeCsi moved MoveFits
  dsimp only
  rw [first, second]
  split
  · simp only [only, Tty.updateHwCursor, Tty.call, Prod.mk.injEq, true_and]
    exact back one (by omega)
  · simp only [only, Tty.updateHwCursor, Tty.call, Prod.mk.injEq, true_and]
    exact onward one row (by omega)
  · simp only [only, Tty.updateHwCursor, Tty.call, Prod.mk.injEq, and_true]
    exact onward one col (by omega)
  · simp only [only, Tty.updateHwCursor, Tty.call, Prod.mk.injEq, and_true]
    exact back one (by omega)
  · simp only [only, Tty.setCursor, Tty.updateHwCursor, Tty.call, Prod.mk.injEq]
    exact and_congr (place two s.someCol s.colsMax) (place one s.someRow (by omega))
  · simp only [only, Tty.setCursor, Tty.updateHwCursor, Tty.call, Prod.mk.injEq]
    exact and_congr (place two s.someCol s.colsMax) (place one s.someRow (by omega))
  · exact ⟨fun _ => trivial, fun _ _ same => by cases same⟩

theorem putcharMoved (inside : Inside s t) (follows : Follows t (.sequence text)) :
    (∀ place, moved s t.col t.row (numbers text) c = some place →
      ((t.putchar s c).col, (t.putchar s c).row) = place) ↔
    MoveFits s t.col t.row (numbers text) c := by
  obtain ⟨state, params, current⟩ := follows
  by_cases letter : isLetter c
  · have number : ¬ isDigit c = true := fun number => by
      have low := of_decide_eq_true number
      rcases of_decide_eq_true letter with ⟨high, _⟩ | ⟨high, _⟩ <;>
        exact absurd (Char.le_trans high low.2) (by decide)
    have separator : c ≠ ';' := fun same => by
      rw [same] at letter
      revert letter
      decide
    have same : t.putchar s c =
        {t.pushParam.executeCsi s c with state := .normal}.updateHwCursor := by
      unfold Tty.putchar
      rw [state]
      dsimp only
      rw [if_neg number, if_neg separator, if_pos letter]
    have pushed : t.pushParam.params = ((numbers text).map fun n : Nat => wrap32 n).take 8 := by
      unfold numbers
      rw [List.map_append]
      exact pushTaken params current
    have col : t.pushParam.col = t.col := by
      unfold Tty.pushParam
      split <;> rfl
    have row : t.pushParam.row = t.row := by
      unfold Tty.pushParam
      split <;> rfl
    rw [same, ← col, ← row]
    exact executeMoved pushed inside.pushParam c
  · unfold moved MoveFits
    split
    · exact absurd (by decide) letter
    · exact absurd (by decide) letter
    · exact absurd (by decide) letter
    · exact absurd (by decide) letter
    · exact absurd (by decide) letter
    · exact absurd (by decide) letter
    · exact ⟨fun _ => trivial, fun _ _ same => by cases same⟩

end movements

theorem emulatorRight (s : Screen) (onlcr : Bool) (stream : List Char) :
    Emulated s onlcr stream ↔ Moderate s onlcr stream := by
  have moves : ∀ before c text, phase before = .sequence text →
      ((∀ place, moved s (emulate s onlcr before).col (emulate s onlcr before).row
          (numbers text) c = some place →
        ((emulate s onlcr (before ++ [c])).col, (emulate s onlcr (before ++ [c])).row) = place) ↔
      MoveFits s (emulate s onlcr before).col (emulate s onlcr before).row (numbers text) c) := by
    intro before c text sequence
    have follows := followsEmulate s onlcr before
    rw [sequence] at follows
    have inside := insideEmulate s onlcr before
    have plain : emulate s onlcr (before ++ [c]) = (emulate s onlcr before).writeCb s onlcr c := by
      unfold emulate
      rw [List.foldl_append]
      rfl
    rw [plain]
    unfold Tty.writeCb
    split
    · rename_i both
      rw [both.2]
      exact ⟨fun _ => trivial, fun _ _ same => by cases same⟩
    · exact putcharMoved inside follows
  constructor
  · intro right before c after text split sequence
    have step := right before c after split
    exact (moves before c text sequence).mp fun place => step.moved text place sequence
  · intro moderate before c after split
    have inside := insideEmulate s onlcr (before ++ [c])
    refine ⟨inside.col, inside.row, inside.drawn, fun final outside => ?_,
      fun text place sequence => ?_⟩
    · have here := followsEmulate s onlcr before
      have next := followsEmulate s onlcr (before ++ [c])
      have ground : phase (before ++ [c]) = .ground := by
        have behind : phase (before ++ [c]) = (phase before).next c := by
          unfold phase
          rw [List.foldl_append]
          rfl
        rw [behind]
        cases at' : phase before with
        | ground =>
          refine if_neg fun same => ?_
          rw [same] at final
          exact absurd final.1 (by decide)
        | escape =>
          rw [at'] at here
          exact if_neg (outside here)
        | sequence text =>
          refine if_neg (not_or.mpr ⟨fun number => ?_, fun same => ?_⟩)
          · have low : c.toNat ≤ '9'.toNat := (of_decide_eq_true number).2
            exact absurd (Nat.le_trans final.1 low) (by decide)
          · rw [same] at final
            exact absurd final.1 (by decide)
      rw [ground] at next
      exact next
    · exact (moves before c text sequence).mpr (moderate before c after text split sequence) place


def vga : Screen := ⟨80, 25, by decide, by decide, by decide, by decide⟩

theorem downWraps : ¬ Emulated vga true "\x1b[256B".toList := fun right => by
  have step := right "\x1b[256".toList 'B' [] (by decide)
  exact absurd (step.moved "256".toList (0, 24) rfl (by decide +kernel)) (by decide +kernel)

end Scepter.Terminal
