import Mathlib.Data.List.Basic
import Scepter.Kernel.Errno

/-! sys_sendfile (kernel/syscall_new.c): chunks read from one descriptor and written to another.
What the input holds at each chunk, and how far the read and the write come, are inputs. A
position stays below the size of a file, which has 32 bits. -/
namespace Scepter.Sendfile

abbrev Byte := UInt8

def CHUNK : Nat := 2048

/-- One turn of the loop: what the input holds, how many bytes the read gives at most (none after
an error), and the result of fs_write, which takes no more than it is given. -/
structure Turn where
  content : List Byte
  limit : Nat
  wrote : Int

def Turn.read (t : Turn) (pos chunk : Nat) : List Byte := ((t.content.drop pos).take chunk).take t.limit

/-- `offset` is the one at user_offset, and `shared` tells that the two descriptors are of one
open file. -/
structure Call where
  fdsValid : Bool
  offset : Option Nat
  pointerValid : Bool
  copyOut : Bool
  shared : Bool
  count : Nat

/-- The early error, the bytes written and the offset or the input's position. A position is
moved by the read, an offset by what is written. -/
def sendLoop (offset shared : Bool) (count : Nat) :
    List Turn → Nat → List Byte → Option Int × List Byte × Nat
  | [], pos, out => (none, out, pos)
  | t :: rest, pos, out =>
    if out.length ≥ count then (none, out, pos)
    else
      let bytes := t.read pos (min (count - out.length) CHUNK)
      if bytes = [] then (none, out, pos)
      else if t.wrote < 0 then
        (if out = [] then some t.wrote else none, out,
          if offset then pos else pos + bytes.length)
      else
        let w := min t.wrote.toNat bytes.length
        let out := out ++ bytes.take w
        let pos := if offset then pos + w
          else pos + bytes.length + if shared then w else 0
        if w < bytes.length then (none, out, pos) else sendLoop offset shared count rest pos out

structure Result where
  ret : Int
  out : List Byte
  -- the offset at user_offset, or the position of the input
  pos : Nat

def sysSendfile (c : Call) (turns : List Turn) (pos : Nat) : Result :=
  if !c.fdsValid then ⟨-EBADF, [], c.offset.getD pos⟩
  else if c.offset.isSome ∧ !c.pointerValid then ⟨-EFAULT, [], c.offset.getD pos⟩
  else match sendLoop c.offset.isSome c.shared c.count turns (c.offset.getD pos) [] with
    | (some err, out, after) => ⟨err, out, if c.offset.isSome then c.offset.getD pos else after⟩
    | (none, out, after) =>
      if c.offset.isSome ∧ !c.copyOut then ⟨-EFAULT, out, c.offset.getD pos⟩
      else ⟨cInt out.length, out, after⟩

/-! ## What should hold -/

def Follow (turns : List Turn) (start : Nat) (out : List Byte) : Prop :=
  ∀ j b, out[j]? = some b → ∃ t ∈ turns, t.content[start + j]? = some b

/-- The bytes that follow the position have been written, as many as the result says, and the
position or offset is behind them. After an error there are none. -/
structure Right (turns : List Turn) (start : Nat) (r : Result) : Prop where
  count : r.out.length = r.ret.toNat
  bytes : Follow turns start r.out
  moved : r.pos = start + r.ret.toNat

def Whole (count : Nat) : List Turn → Nat → Nat → Prop
  | [], _, _ => True
  | t :: rest, pos, total =>
    count ≤ total ∨ t.read pos (min (count - total) CHUNK) = [] ∨
      (((t.read pos (min (count - total) CHUNK)).length : Int) ≤ t.wrote ∧
        Whole count rest (pos + (t.read pos (min (count - total) CHUNK)).length)
          (total + (t.read pos (min (count - total) CHUNK)).length))

def through (count : Nat) : List Turn → Nat → Nat → Nat
  | [], _, total => total
  | t :: rest, pos, total =>
    if count ≤ total then total
    else
      let n := (t.read pos (min (count - total) CHUNK)).length
      if (n : Int) ≤ t.wrote ∧ 0 < n then through count rest (pos + n) (total + n)
      else total + min t.wrote.toNat n

def Idle (count : Nat) (turns : List Turn) (pos : Nat) : Prop :=
  count = 0 ∨ ∀ t ∈ turns.head?, t.read pos (min count CHUNK) = []

/-- With an offset, the bytes can be counted in an int, and the offset can be stored, unless
there are none. Without one, also no write may be short, and the output may not move the input's
position. -/
def Safe (c : Call) (turns : List Turn) (pos : Nat) : Prop :=
  c.fdsValid = false ∨ match c.offset with
    | some start => c.pointerValid = false ∨ (through c.count turns start 0 < 2 ^ 31 ∧
        (c.copyOut = true ∨ through c.count turns start 0 = 0))
    | none => if c.shared then Idle c.count turns pos
        else Whole c.count turns pos 0 ∧ through c.count turns pos 0 < 2 ^ 31

section
variable {offset shared : Bool} {count start pos : Nat} {turns rest : List Turn} {t : Turn}
variable {out : List Byte} {c : Call}

theorem followAppend {all : List Turn} (chunk w : Nat) (member : t ∈ all)
    (follow : Follow all start out) (here : pos = start + out.length) :
    Follow all start (out ++ (t.read pos chunk).take w) := by
  intro j b is
  by_cases old : j < out.length
  · rw [List.getElem?_append_left old] at is
    exact follow j b is
  · rw [List.getElem?_append_right (Nat.not_lt.mp old)] at is
    refine ⟨t, member, ?_⟩
    unfold Turn.read at is
    rw [List.getElem?_take] at is
    split at is
    · rw [List.getElem?_take] at is
      split at is
      · rw [List.getElem?_take] at is
        split at is
        · rw [List.getElem?_drop] at is
          rw [← is, here]
          congr 1
          omega
        · cases is
      · cases is
    · cases is

theorem sendLoopSpec (offset shared : Bool) (count : Nat) {all : List Turn} (members : ∀ t ∈ turns, t ∈ all)
    (follow : Follow all start out) (here : pos = start + out.length)
    (apart : offset = false → shared = false) :
    ∃ err new after, sendLoop offset shared count turns pos out = (err, new, after) ∧
      Follow all start new ∧ new.length = through count turns pos out.length ∧
      (err.isSome → new = [] ∧ ∀ e ∈ err, e < 0) ∧ start + new.length ≤ after ∧
      (offset = true → after = start + new.length) ∧
      (offset = false → (after = start + new.length ↔ Whole count turns pos out.length)) ∧
      (Whole count turns pos out.length → err = none) := by
  induction turns generalizing pos out with
  | nil => exact ⟨none, out, pos, rfl, follow, rfl, nofun, Nat.le_of_eq here.symm, fun _ => here,
      fun _ => iff_of_true here trivial, fun _ => rfl⟩
  | cons t rest ih =>
    unfold sendLoop through Whole
    by_cases enough : count ≤ out.length
    · rw [if_pos enough, if_pos enough]
      exact ⟨none, out, pos, rfl, follow, rfl, nofun, Nat.le_of_eq here.symm, fun _ => here,
        fun _ => iff_of_true here (.inl enough), fun _ => rfl⟩
    rw [if_neg enough, if_neg enough]
    have own := followAppend (min (count - out.length) CHUNK)
      (min t.wrote.toNat (t.read pos (min (count - out.length) CHUNK)).length)
      (members t List.mem_cons_self) follow here
    dsimp only
    generalize t.read pos (min (count - out.length) CHUNK) = bytes at own ⊢
    by_cases none_ : bytes = []
    · rw [none_]
      exact ⟨none, out, pos, rfl, follow, by simp, nofun, Nat.le_of_eq here.symm, fun _ => here,
        fun _ => iff_of_true here (.inr (.inl rfl)), fun _ => rfl⟩
    have some' : 0 < bytes.length := List.length_pos_of_ne_nil none_
    rw [if_neg none_]
    simp only [enough, none_, false_or]
    by_cases failed : t.wrote < 0
    · rw [if_pos failed]
      have short : ¬ (bytes.length : Int) ≤ t.wrote := by omega
      refine ⟨_, _, _, rfl, follow, ?_, ?_, ?_, fun on => ?_, fun off => ?_, fun whole => ?_⟩
      · rw [if_neg fun both => short both.1]
        omega
      · split <;> rename_i first
        · exact fun _ => ⟨first, fun e same => by cases same; exact failed⟩
        · exact nofun
      · split <;> omega
      · rw [if_pos on]
        exact here
      · rw [if_neg (by simp [off])]
        exact iff_of_false (by omega) fun whole => short whole.1
      · exact absurd whole.1 short
    · rw [if_neg failed]
      have added : (out ++ bytes.take (min t.wrote.toNat bytes.length)).length =
          out.length + min t.wrote.toNat bytes.length := by
        rw [List.length_append, List.length_take]
        omega
      have next : (if offset = true then pos + min t.wrote.toNat bytes.length
          else pos + bytes.length + if shared = true then min t.wrote.toNat bytes.length else 0) =
          if offset = true then pos + min t.wrote.toNat bytes.length else pos + bytes.length := by
        cases offset with
        | true => rfl
        | false => rw [apart rfl]; rfl
      rw [next]
      by_cases short : min t.wrote.toNat bytes.length < bytes.length
      · rw [if_pos short]
        have part : ¬ (bytes.length : Int) ≤ t.wrote := by omega
        refine ⟨none, _, _, rfl, own, ?_, nofun, ?_, fun on => ?_, fun off => ?_, fun _ => rfl⟩
        · rw [added, if_neg fun both => part both.1]
        · rw [added]
          split <;> omega
        · rw [added, if_pos on]
          omega
        · rw [added, if_neg (by simp [off])]
          exact iff_of_false (by omega) fun whole => part whole.1
      · rw [if_neg short]
        have all' : min t.wrote.toNat bytes.length = bytes.length := by omega
        have full : (bytes.length : Int) ≤ t.wrote := by omega
        rw [all', ite_self]
        rw [all'] at own added
        obtain ⟨err, new, after, run, follows, sum, fails, low, moved, lost, fine⟩ :=
          ih (fun t member => members t (List.mem_cons_of_mem _ member))
            own (show pos + bytes.length = _ by rw [added]; omega)
        rw [added] at sum lost fine
        rw [if_pos ⟨full, some'⟩]
        simp only [full, true_and]
        exact ⟨err, new, after, run, follows, sum, fails, low, moved, lost, fine⟩

theorem sharedLoop (count : Nat) (turns : List Turn) (here : start + out.length ≤ pos) :
    ∃ err new after, sendLoop false true count turns pos out = (err, new, after) ∧
      (err.isSome → ∀ e ∈ err, e < 0) ∧ start + new.length + (pos - (start + out.length)) ≤ after ∧
      (Idle (count - out.length) turns pos → err = none ∧ new = out ∧ after = pos) ∧
      (¬ Idle (count - out.length) turns pos → start + new.length < after) := by
  induction turns generalizing pos out with
  | nil => exact ⟨none, out, pos, rfl, nofun, by omega, fun _ => ⟨rfl, rfl, rfl⟩,
      fun busy => absurd (.inr nofun) busy⟩
  | cons t rest ih =>
    unfold sendLoop
    by_cases enough : count ≤ out.length
    · rw [if_pos enough]
      exact ⟨none, out, pos, rfl, nofun, by omega, fun _ => ⟨rfl, rfl, rfl⟩,
        fun busy => absurd (.inl (by omega)) busy⟩
    rw [if_neg enough]
    have idle : Idle (count - out.length) (t :: rest) pos ↔
        t.read pos (min (count - out.length) CHUNK) = [] := by
      unfold Idle
      simp only [List.head?_cons, Option.mem_some_iff, forall_eq']
      exact or_iff_right (by omega)
    rw [idle]
    dsimp only
    generalize t.read pos (min (count - out.length) CHUNK) = bytes
    by_cases none_ : bytes = []
    · rw [if_pos none_]
      exact ⟨none, out, pos, rfl, nofun, by omega, fun _ => ⟨rfl, rfl, rfl⟩,
        fun busy => absurd none_ busy⟩
    have some' : 0 < bytes.length := List.length_pos_of_ne_nil none_
    rw [if_neg none_]
    by_cases failed : t.wrote < 0
    · rw [if_pos failed]
      refine ⟨_, _, _, rfl, ?_, ?_, fun idle => absurd idle none_, fun _ => ?_⟩
      · split
        · exact fun _ e same => by cases same; exact failed
        · exact nofun
      · rw [if_neg Bool.false_ne_true]
        omega
      · rw [if_neg Bool.false_ne_true]
        omega
    · rw [if_neg failed, if_neg Bool.false_ne_true, if_pos rfl]
      have added : (out ++ bytes.take (min t.wrote.toNat bytes.length)).length =
          out.length + min t.wrote.toNat bytes.length := by
        rw [List.length_append, List.length_take]
        omega
      split
      · refine ⟨none, _, _, rfl, nofun, ?_, fun idle => absurd idle none_, fun _ => ?_⟩ <;>
          rw [added] <;> omega
      · obtain ⟨err, new, after, run, fails, far, -, -⟩ :=
          ih (show start + (out ++ bytes.take (min t.wrote.toNat bytes.length)).length ≤
            pos + bytes.length + min t.wrote.toNat bytes.length by rw [added]; omega)
        rw [added] at far
        exact ⟨err, new, after, run, fails, by omega, fun idle => absurd idle none_,
          fun _ => by omega⟩

theorem cIntLength {n : Nat} : (cInt n).toNat = n ↔ n < 2 ^ 31 := by
  constructor
  · intro same
    have high : cInt n < 2 ^ 31 := by
      have := @BitVec.toInt_lt 32 (BitVec.ofNat 32 n)
      unfold cInt
      omega
    omega
  · intro small
    rw [cIntSmall small, Int.toNat_natCast]

theorem rightNothing {r : Result} (turns : List Turn) (ret : r.ret ≤ 0) (out : r.out = [])
    (pos : r.pos = start) : Right turns start r :=
  ⟨by rw [out]; exact (Int.toNat_of_nonpos ret).symm, by rw [out]; exact nofun,
    by rw [pos, Int.toNat_of_nonpos ret]; rfl⟩

theorem offsetRightIff {offset : Nat} (fds : c.fdsValid = true) (given : c.offset = some offset)
    (pointer : c.pointerValid = true) (turns : List Turn) (pos : Nat) :
    Right turns offset (sysSendfile c turns pos) ↔
      through c.count turns offset 0 < 2 ^ 31 ∧
        (c.copyOut = true ∨ through c.count turns offset 0 = 0) := by
  obtain ⟨err, new, after, run, follows, sum, fails, _, moved, -, -⟩ :=
    sendLoopSpec true c.shared c.count (fun _ member => member)
      (show Follow turns offset [] from nofun) (Nat.add_zero offset).symm nofun
  simp only [sysSendfile, fds, given, pointer, Option.isSome_some, Option.getD_some, Bool.not_true,
    Bool.false_eq_true, if_false, and_false, if_true, true_and, run]
  rw [List.length_nil] at sum
  rw [← sum]
  cases err with
  | some e =>
    obtain ⟨none_, negative⟩ := fails rfl
    have low : e < 0 := negative e rfl
    refine iff_of_true (rightNothing turns (Int.le_of_lt low) none_ rfl) ?_
    rw [none_]
    exact ⟨by decide, .inr rfl⟩
  | none =>
    dsimp only
    cases copy : c.copyOut with
    | false =>
      rw [Bool.not_false, if_pos rfl]
      simp only [Bool.false_eq_true, false_or]
      constructor
      · intro right
        have none_ : new.length = 0 := right.count
        exact ⟨by omega, none_⟩
      · exact fun both => rightNothing turns (show (-EFAULT : Int) ≤ 0 by decide)
          (List.length_eq_zero_iff.mp both.2) rfl
    | true =>
      rw [Bool.not_true, if_neg Bool.false_ne_true]
      simp only [true_or, and_true]
      constructor
      · exact fun right => cIntLength.mp right.count.symm
      · intro small
        exact ⟨(cIntLength.mpr small).symm, follows, by
          rw [cIntLength.mpr small]
          exact moved rfl⟩

theorem sharedRightIff (fds : c.fdsValid = true) (given : c.offset = none)
    (shared : c.shared = true) (turns : List Turn) (pos : Nat) :
    Right turns pos (sysSendfile c turns pos) ↔ Idle c.count turns pos := by
  obtain ⟨err, new, after, run, fails, far, idle, busy⟩ :=
    sharedLoop c.count turns (show pos + ([] : List Byte).length ≤ pos from Nat.le_refl pos)
  simp only [sysSendfile, fds, given, shared, Option.isSome_none, Option.getD_none, Bool.not_true,
    Bool.false_eq_true, if_false, false_and, run]
  rw [List.length_nil, Nat.sub_zero] at idle busy
  constructor
  · intro right
    by_contra moves
    have beyond := busy moves
    cases err with
    | some e =>
      have moved := right.moved
      have count := right.count
      dsimp only at moved count
      omega
    | none =>
      have moved := right.moved
      have count := right.count
      dsimp only at moved count
      omega
  · intro stays
    obtain ⟨rfl, rfl, rfl⟩ := idle stays
    exact rightNothing turns (show cInt 0 ≤ 0 by decide) rfl rfl

theorem positionRightIff (fds : c.fdsValid = true) (given : c.offset = none)
    (shared : c.shared = false) (turns : List Turn) (pos : Nat) :
    Right turns pos (sysSendfile c turns pos) ↔
      Whole c.count turns pos 0 ∧ through c.count turns pos 0 < 2 ^ 31 := by
  obtain ⟨err, new, after, run, follows, sum, fails, low, -, lost, fine⟩ :=
    sendLoopSpec false false c.count (fun _ member => member)
      (show Follow turns pos [] from nofun) (Nat.add_zero pos).symm (fun _ => rfl)
  simp only [sysSendfile, fds, given, shared, Option.isSome_none, Option.getD_none, Bool.not_true,
    Bool.false_eq_true, if_false, false_and, run]
  rw [List.length_nil] at sum lost fine
  rw [← sum, ← lost rfl]
  rw [← lost rfl] at fine
  cases err with
  | some e =>
    obtain ⟨none_, negative⟩ := fails rfl
    have below : e < 0 := negative e rfl
    refine iff_of_false (fun right => ?_) fun both => nomatch fine both.1
    have moved := right.moved
    dsimp only at moved
    rw [Int.toNat_of_nonpos (Int.le_of_lt below)] at moved
    rw [none_] at fine
    cases fine moved
  | none =>
    dsimp only
    constructor
    · intro right
      have count : new.length = (cInt new.length).toNat := right.count
      have moved : after = pos + (cInt new.length).toNat := right.moved
      rw [← count] at moved
      exact ⟨moved, cIntLength.mp count.symm⟩
    · rintro ⟨moved, small⟩
      exact ⟨(cIntLength.mpr small).symm, follows, by rw [cIntLength.mpr small]; exact moved⟩

end

end Scepter.Sendfile
