import Scepter.Lib.Bytes
import Scepter.Lib.Ring
import Scepter.Lib.Run

/-! The kernel's message ring (kmsg.c). Interrupts are off in each call, so the calls
follow one another. A loop that does not end within the size of the ring gives
`none`. -/
namespace Scepter.Kmsg
open RingBuffer

def KMSG_BUFSIZE : Nat := 8192

def NEWLINE : Byte := 0x0A

structure State where
  buf : Nat → Byte
  writePos : Nat
  readPos : Nat

def kmsgPutchar (s : State) (c : Byte) : State :=
  let next := (s.writePos + 1) % KMSG_BUFSIZE
  { buf := store s.buf s.writePos c
    writePos := next
    readPos := if next = s.readPos then (s.readPos + 1) % KMSG_BUFSIZE else s.readPos }

def pollLoop (s : State) : Nat → Nat → Option Bool
  | 0, _ => none
  | fuel + 1, pos =>
    if pos = s.writePos then some false
    else if s.buf pos = NEWLINE then some true
    else pollLoop s fuel ((pos + 1) % KMSG_BUFSIZE)

def kmsgPoll (s : State) : Option Bool := pollLoop s KMSG_BUFSIZE s.readPos

def measure (s : State) (max : Nat) : Nat → Nat → Nat → Option (Nat × Bool)
  | 0, _, _ => none
  | fuel + 1, pos, len =>
    if pos = s.writePos then some (len, false)
    else if s.buf pos = NEWLINE then some (len + 1, true)
    else if len + 1 ≥ max then some (len + 1, false)
    else measure s max fuel ((pos + 1) % KMSG_BUFSIZE) (len + 1)

def copyLine (s : State) : Nat → Nat → List Byte × Nat
  | 0, pos => ([], pos)
  | left + 1, pos =>
    let (rest, after) := copyLine s left ((pos + 1) % KMSG_BUFSIZE)
    (s.buf pos :: rest, after)

def kmsgRead (s : State) (max : Int) : Option (State × List Byte) :=
  if max ≤ 0 then some (s, [])
  else match measure s max.toNat KMSG_BUFSIZE s.readPos 0 with
    | none => none
    | some (_, false) => some (s, [])
    | some (len, true) =>
      let (line, pos) := copyLine s (min len max.toNat) s.readPos
      some ({s with readPos := pos}, line)

/-! ## What the ring holds -/

structure Holds (s : State) (waiting : List Byte) : Prop where
  place : s.readPos < KMSG_BUFSIZE
  room : waiting.length < KMSG_BUFSIZE
  write : s.writePos = (s.readPos + waiting.length) % KMSG_BUFSIZE
  bytes : ringRead s.buf KMSG_BUFSIZE s.readPos waiting.length = waiting

def firstLine (waiting : List Byte) : Option Nat :=
  (waiting.findIdx? (· == NEWLINE)).map (· + 1)

section ring
variable {s : State} {waiting : List Byte} {pos : Nat} {b : Byte}

theorem firstLineCons (b : Byte) (rest : List Byte) :
    firstLine (b :: rest) = if b = NEWLINE then some 1 else (firstLine rest).map (· + 1) := by
  unfold firstLine
  rw [List.findIdx?_cons]
  by_cases same : b = NEWLINE
  · simp [same]
  · simp [same, Function.comp_def]

theorem firstLineBound {k : Nat} (found : firstLine waiting = some k) :
    0 < k ∧ k ≤ waiting.length := by
  obtain ⟨i, index, rfl⟩ := Option.map_eq_some_iff.mp found
  exact ⟨Nat.succ_pos i, (List.findIdx?_eq_some_iff_findIdx_eq.mp index).1⟩

theorem stepPlace (pos left : Nat) :
    (pos + (left + 1)) % KMSG_BUFSIZE = ((pos + 1) % KMSG_BUFSIZE + left) % KMSG_BUFSIZE := by
  rw [Nat.mod_add_mod, Nat.add_assoc, Nat.add_comm left 1]

theorem scanStep (place : pos < KMSG_BUFSIZE) {left : Nat} (small : left + 1 < KMSG_BUFSIZE) :
    pos ≠ (pos + (left + 1)) % KMSG_BUFSIZE ∧
      (pos + (left + 1)) % KMSG_BUFSIZE = ((pos + 1) % KMSG_BUFSIZE + left) % KMSG_BUFSIZE := by
  have differ := slotsDiffer KMSG_BUFSIZE (show pos < pos + (left + 1) by omega) (by omega)
  rw [Nat.mod_eq_of_lt place] at differ
  exact ⟨differ, stepPlace pos left⟩

theorem ringCons (buf : Nat → Byte) (place : pos < KMSG_BUFSIZE) (left : Nat) :
    ringRead buf KMSG_BUFSIZE pos (left + 1) =
      buf pos :: ringRead buf KMSG_BUFSIZE ((pos + 1) % KMSG_BUFSIZE) left := by
  rw [readSucc, readMod, Nat.mod_eq_of_lt place]

theorem pollLoopSpec {left fuel : Nat} (place : pos < KMSG_BUFSIZE) (small : left < KMSG_BUFSIZE)
    (enough : left < fuel) (write : s.writePos = (pos + left) % KMSG_BUFSIZE) :
    pollLoop s fuel pos =
      some (firstLine (ringRead s.buf KMSG_BUFSIZE pos left)).isSome := by
  induction left generalizing fuel pos with
  | zero =>
    obtain ⟨fuel, rfl⟩ := Nat.exists_eq_succ_of_ne_zero (Nat.ne_of_gt enough)
    rw [Nat.add_zero, Nat.mod_eq_of_lt place] at write
    rw [pollLoop, if_pos write.symm]
    rfl
  | succ left ih =>
    obtain ⟨fuel, rfl⟩ := Nat.exists_eq_succ_of_ne_zero (Nat.ne_of_gt (Nat.zero_lt_of_lt enough))
    obtain ⟨differ, next⟩ := scanStep place small
    rw [pollLoop, write, if_neg differ, ringCons _ place, firstLineCons]
    by_cases same : s.buf pos = NEWLINE
    · rw [if_pos same, if_pos same]
      rfl
    · rw [if_neg same, if_neg same, Option.isSome_map]
      exact ih (Nat.mod_lt _ (by decide)) (by omega) (by omega) (write.trans next)

theorem measureSpec {left fuel len max : Nat} (place : pos < KMSG_BUFSIZE)
    (small : left < KMSG_BUFSIZE) (enough : left < fuel) (below : len < max)
    (write : s.writePos = (pos + left) % KMSG_BUFSIZE) :
    (∃ k, firstLine (ringRead s.buf KMSG_BUFSIZE pos left) = some k ∧ len + k ≤ max ∧
      measure s max fuel pos len = some (len + k, true)) ∨
    (∀ k, firstLine (ringRead s.buf KMSG_BUFSIZE pos left) = some k → max < len + k) ∧
      ∃ n, measure s max fuel pos len = some (n, false) := by
  induction left generalizing fuel pos len with
  | zero =>
    obtain ⟨fuel, rfl⟩ := Nat.exists_eq_succ_of_ne_zero (Nat.ne_of_gt enough)
    rw [Nat.add_zero, Nat.mod_eq_of_lt place] at write
    rw [measure, if_pos write.symm]
    exact Or.inr ⟨fun k found => (nomatch found), len, rfl⟩
  | succ left ih =>
    obtain ⟨fuel, rfl⟩ := Nat.exists_eq_succ_of_ne_zero (Nat.ne_of_gt (Nat.zero_lt_of_lt enough))
    obtain ⟨differ, next⟩ := scanStep place small
    rw [measure, write, if_neg differ, ringCons _ place, firstLineCons]
    by_cases same : s.buf pos = NEWLINE
    · rw [if_pos same, if_pos same]
      exact Or.inl ⟨1, rfl, below, rfl⟩
    · rw [if_neg same, if_neg same]
      by_cases last : len + 1 ≥ max
      · rw [if_pos last]
        refine Or.inr ⟨fun k found => ?_, len + 1, rfl⟩
        obtain ⟨j, line, rfl⟩ := Option.map_eq_some_iff.mp found
        have some_ := (firstLineBound line).1
        omega
      · rw [if_neg last]
        rcases ih (Nat.mod_lt _ (by decide)) (by omega) (show left < fuel by omega)
          (Nat.lt_of_not_le last) (write.trans next) with ⟨k, line, fits, done⟩ | ⟨long, done⟩
        · refine Or.inl ⟨k + 1, by rw [line]; rfl, by omega, ?_⟩
          rw [done, Nat.add_assoc, Nat.add_comm 1 k]
        · refine Or.inr ⟨fun k found => ?_, done⟩
          obtain ⟨j, line, rfl⟩ := Option.map_eq_some_iff.mp found
          have far := long j line
          omega

theorem copyLineSpec {left : Nat} (place : pos < KMSG_BUFSIZE) :
    copyLine s left pos =
      (ringRead s.buf KMSG_BUFSIZE pos left, (pos + left) % KMSG_BUFSIZE) := by
  induction left generalizing pos with
  | zero => rw [copyLine, Nat.add_zero, Nat.mod_eq_of_lt place, readZero]
  | succ left ih =>
    rw [copyLine, ih (Nat.mod_lt _ (by decide)), ringCons _ place, Nat.mod_add_mod, Nat.add_assoc,
      Nat.add_comm 1 left]

theorem Holds.poll (holds : Holds s waiting) : kmsgPoll s = some (firstLine waiting).isSome := by
  have scanned := pollLoopSpec holds.place holds.room holds.room holds.write
  rwa [holds.bytes] at scanned

theorem Holds.put (holds : Holds s waiting) (c : Byte) :
    Holds (kmsgPutchar s c)
      ((waiting ++ [c]).drop (waiting.length + 1 - (KMSG_BUFSIZE - 1))) := by
  obtain ⟨place, room, write, bytes⟩ := holds
  have written : ringWrite s.buf KMSG_BUFSIZE ((s.readPos + waiting.length) % KMSG_BUFSIZE) [c] =
      store s.buf s.writePos c := by
    rw [ringWrite, ringWrite, write, Nat.mod_mod]
  have all : ringRead (ringWrite s.buf KMSG_BUFSIZE
      ((s.readPos + waiting.length) % KMSG_BUFSIZE) [c]) KMSG_BUFSIZE s.readPos
      (waiting.length + [c].length) = _ := readAppend s.buf KMSG_BUFSIZE room
  rw [written, bytes, List.length_singleton] at all
  have next : (s.writePos + 1) % KMSG_BUFSIZE =
      (s.readPos + (waiting.length + 1)) % KMSG_BUFSIZE := by
    rw [write, Nat.mod_add_mod, Nat.add_assoc]
  unfold kmsgPutchar
  dsimp only
  by_cases full : waiting.length + 1 = KMSG_BUFSIZE
  · have wrapped : (s.writePos + 1) % KMSG_BUFSIZE = s.readPos := by
      rw [next, full, Nat.add_mod_right, Nat.mod_eq_of_lt place]
    have one : waiting.length + 1 - (KMSG_BUFSIZE - 1) = 1 := by
      rw [KMSG_BUFSIZE] at full ⊢
      omega
    rw [one]
    rw [ringCons _ place] at all
    have length : ((waiting ++ [c]).drop 1).length = waiting.length := by simp
    rw [if_pos wrapped]
    refine ⟨Nat.mod_lt _ (by decide), by rw [length]; exact room, ?_, ?_⟩
    · rw [length]
      show (s.writePos + 1) % KMSG_BUFSIZE =
        ((s.readPos + 1) % KMSG_BUFSIZE + waiting.length) % KMSG_BUFSIZE
      rw [← stepPlace, next]
    · rw [length]
      rw [← all]
      rfl
  · have none_ : waiting.length + 1 - (KMSG_BUFSIZE - 1) = 0 := by
      rw [KMSG_BUFSIZE] at full room ⊢
      omega
    have apart : (s.writePos + 1) % KMSG_BUFSIZE ≠ s.readPos := by
      rw [next]
      exact (scanStep place (by omega)).1.symm
    rw [none_, List.drop_zero, if_neg apart]
    refine ⟨place, by rw [List.length_append, List.length_singleton]; omega, ?_, ?_⟩
    · rw [List.length_append, List.length_singleton]
      exact next
    · rw [List.length_append, List.length_singleton]
      exact all

theorem Holds.read (holds : Holds s waiting) (max : Int) :
    ∃ s' n, kmsgRead s max = some (s', waiting.take n) ∧ Holds s' (waiting.drop n) ∧
      ((0 < max ∧ ∃ k, firstLine waiting = some k ∧ k ≤ max.toNat ∧ n = k) ∨
        n = 0 ∧ (0 < max → ∀ k, firstLine waiting = some k → max.toNat < k)) := by
  obtain ⟨place, room, write, bytes⟩ := holds
  unfold kmsgRead
  by_cases none_ : max ≤ 0
  · rw [if_pos none_]
    exact ⟨s, 0, rfl, ⟨place, room, write, bytes⟩, Or.inr ⟨rfl, fun some_ => absurd none_ (by omega)⟩⟩
  · rw [if_neg none_]
    have positive : 0 < max.toNat := by omega
    have measured := measureSpec place room room positive write
    rw [bytes] at measured
    rcases measured with ⟨k, line, fits, done⟩ | ⟨long, n, done⟩
    · rw [Nat.zero_add] at fits done
      have inside := (firstLineBound line).2
      rw [done]
      dsimp only
      rw [Nat.min_eq_left fits, copyLineSpec place]
      have parts := readTake s.buf KMSG_BUFSIZE inside s.readPos
      rw [bytes] at parts
      have head : ringRead s.buf KMSG_BUFSIZE s.readPos k = waiting.take k := by
        rw [parts, List.take_left' (readLength ..)]
      have tail : ringRead s.buf KMSG_BUFSIZE ((s.readPos + k) % KMSG_BUFSIZE)
          (waiting.length - k) = waiting.drop k := by
        conv_rhs => rw [parts]
        rw [List.drop_left' (readLength ..)]
      refine ⟨_, k, by rw [head], ⟨?_, ?_, ?_, ?_⟩,
        Or.inl ⟨by omega, k, line, fits, rfl⟩⟩
      · show (s.readPos + k) % KMSG_BUFSIZE < KMSG_BUFSIZE
        exact Nat.mod_lt _ (by decide)
      · rw [List.length_drop]
        omega
      · rw [List.length_drop, Nat.mod_add_mod, Nat.add_assoc, Nat.add_sub_cancel' inside]
        exact write
      · rw [List.length_drop]
        exact tail
    · rw [done]
      refine ⟨s, 0, rfl, ⟨place, room, write, bytes⟩, Or.inr ⟨rfl, fun _ k line => ?_⟩⟩
      have far := long k line
      omega

end ring

/-! ## Runs -/

inductive Call where
  | putchar (c : Byte)
  | read (max : Int)

structure Ledger where
  ring : State
  log : List Byte
  next : Nat

def Ledger.start (t : Ledger) : Nat := max t.next (t.log.length - (KMSG_BUFSIZE - 1))

def Ledger.unread (t : Ledger) : List Byte := t.log.drop t.start

def empty : State := ⟨fun _ => 0, 0, 0⟩

def step (t : Ledger) : Call → Option Ledger
  | .putchar c => some {t with ring := kmsgPutchar t.ring c, log := t.log ++ [c]}
  | .read max => match kmsgRead t.ring max with
    | none => none
    | some (ring, []) => some {t with ring := ring}
    | some (ring, b :: line) =>
      some {t with ring := ring, next := t.start + (b :: line).length}

/-- The next read hands out what comes next in the log, of which only the oldest part
may be missing and only when more than the ring holds was logged since; and it hands
out something when the poll says so. -/
structure ReadRight (t : Ledger) (size : Int) : Prop where
  given : ∃ ring n, kmsgRead t.ring size = some (ring, (t.log.drop t.start).take n)
  missing : t.next < t.start → KMSG_BUFSIZE - 1 < t.log.length - t.next
  progress : ∀ ring line, 0 < size → kmsgPoll t.ring = some true →
    kmsgRead t.ring size = some (ring, line) → line ≠ []

section runs
variable {t : Ledger}

structure Faithful (t : Ledger) : Prop where
  holds : Holds t.ring t.unread
  order : t.next ≤ t.log.length

theorem Faithful.start (faithful : Faithful t) : t.start ≤ t.log.length :=
  Nat.max_le.mpr ⟨faithful.order, Nat.sub_le _ _⟩

theorem startMoves {next logged : Nat} (order : next ≤ logged)
    (room : logged - max next (logged - (KMSG_BUFSIZE - 1)) < KMSG_BUFSIZE) :
    max next (logged - (KMSG_BUFSIZE - 1)) +
        (logged - max next (logged - (KMSG_BUFSIZE - 1)) + 1 - (KMSG_BUFSIZE - 1)) =
      max next (logged + 1 - (KMSG_BUFSIZE - 1)) := by
  have size : KMSG_BUFSIZE = 8192 := rfl
  omega

theorem stepFaithful (t : Ledger) (c : Call) (u : Ledger) (faithful : Faithful t)
    (stepped : step t c = some u) : Faithful u := by
  have startLe := faithful.start
  obtain ⟨holds, order⟩ := faithful
  unfold step at stepped
  cases c with
  | putchar c =>
    cases stepped
    refine ⟨?_, by rw [List.length_append]; exact Nat.le_add_right_of_le order⟩
    have put := holds.put c
    have room := holds.room
    -- one more byte, and one less when the ring was full
    have same : (t.unread ++ [c]).drop (t.unread.length + 1 - (KMSG_BUFSIZE - 1)) =
        Ledger.unread ⟨kmsgPutchar t.ring c, t.log ++ [c], t.next⟩ := by
      rw [Ledger.unread, List.length_drop] at room
      have next : t.start + (t.log.length - t.start + 1 - (KMSG_BUFSIZE - 1)) =
          Ledger.start ⟨kmsgPutchar t.ring c, t.log ++ [c], t.next⟩ := by
        unfold Ledger.start at room ⊢
        rw [List.length_append, List.length_singleton]
        exact startMoves order room
      unfold Ledger.unread
      rw [List.length_drop, ← List.drop_append_of_le_length startLe, List.drop_drop, next]
    rwa [same] at put
  | read size =>
    obtain ⟨ring, n, ran, holds', _⟩ := holds.read size
    dsimp only at stepped
    rw [ran] at stepped
    cases line : t.unread.take n with
    | nil =>
      rw [line] at stepped
      cases stepped
      refine ⟨?_, order⟩
      have whole := List.take_append_drop n t.unread
      rw [line, List.nil_append] at whole
      rwa [whole] at holds'
    | cons b rest =>
      rw [line] at stepped
      cases stepped
      have length := congrArg List.length line
      rw [List.length_take, Ledger.unread, List.length_drop] at length
      refine ⟨?_, by dsimp only; omega⟩
      have same : t.unread.drop n =
          Ledger.unread ⟨ring, t.log, t.start + (b :: rest).length⟩ := by
        unfold Ledger.unread
        rw [List.drop_drop]
        have onward : Ledger.start ⟨ring, t.log, t.start + (b :: rest).length⟩ =
            t.start + (b :: rest).length := by
          have low : t.log.length - (KMSG_BUFSIZE - 1) ≤ t.start := Nat.le_max_right _ _
          unfold Ledger.start at low ⊢
          dsimp only at low ⊢
          omega
        rw [onward, ← length]
        dsimp only
        rcases Nat.le_total n (t.log.length - t.start) with short | long
        · rw [Nat.min_eq_left short]
        · rw [Nat.min_eq_right long, Nat.add_sub_cancel' startLe, List.drop_length,
            List.drop_eq_nil_of_le (by omega)]
      rwa [same] at holds'

theorem emptyFaithful : Faithful ⟨empty, [], 0⟩ :=
  ⟨⟨by decide, by decide, rfl, rfl⟩, Nat.le_refl _⟩

/-- In every state that calls lead to, the poll ends, and a read is right just when
its buffer has room for the oldest unread line. -/
theorem kmsgRightIff (calls : List Call) (t : Ledger) (ran : Run.run step ⟨empty, [], 0⟩ calls = some t)
    (size : Int) : (∃ ready, kmsgPoll t.ring = some ready) ∧
      (ReadRight t size ↔ (0 < size → ∀ k, firstLine t.unread = some k → k ≤ size.toNat)) := by
  obtain ⟨holds, order⟩ := Run.invariant stepFaithful emptyFaithful ran
  refine ⟨⟨_, holds.poll⟩, ?_⟩
  obtain ⟨ring, n, done, _, how⟩ := holds.read size
  constructor
  · intro right some_ k line
    by_contra long
    have ready : kmsgPoll t.ring = some true := by rw [holds.poll, line]; rfl
    have given := right.progress ring _ some_ ready done
    rcases how with ⟨_, k', line', fits, _⟩ | ⟨none_, _⟩
    · cases line.symm.trans line'
      exact long fits
    · rw [none_] at given
      exact given rfl
  · intro fits
    refine ⟨⟨ring, n, done⟩, fun behind => ?_, fun ring' line some_ ready done' => ?_⟩
    · unfold Ledger.start at behind
      omega
    · cases done.symm.trans done'
      rw [holds.poll] at ready
      obtain ⟨k, line⟩ := Option.isSome_iff_exists.mp (Option.some.inj ready)
      have bounds := firstLineBound line
      rcases how with ⟨_, k', line', _, rfl⟩ | ⟨_, none_⟩
      · cases line.symm.trans line'
        intro nothing
        have length := congrArg List.length nothing
        rw [List.length_take, List.length_nil] at length
        omega
      · have far := none_ some_ k line
        have near := fits some_ k line
        omega

def oneLine : List Call := [.putchar 0x61, .putchar NEWLINE]

theorem oneLineRead : ∃ t, Run.run step ⟨empty, [], 0⟩ oneLine = some t ∧ ReadRight t 2 := by
  have ran : Run.run step ⟨empty, [], 0⟩ oneLine = some _ := rfl
  refine ⟨_, ran, (kmsgRightIff oneLine _ ran 2).2.mpr fun _ k line => ?_⟩
  have two : firstLine [0x61, NEWLINE] = some 2 := by decide
  cases two.symm.trans line
  decide

/-- With room for one byte the read hands out nothing of a line that is ready. -/
theorem shortBufferStalls : ∃ t, Run.run step ⟨empty, [], 0⟩ oneLine = some t ∧
    kmsgPoll t.ring = some true ∧ ∃ ring, kmsgRead t.ring 1 = some (ring, []) :=
  ⟨_, rfl, by decide +kernel, _, rfl⟩

end runs

end Scepter.Kmsg
