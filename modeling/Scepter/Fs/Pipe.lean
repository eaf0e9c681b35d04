import Scepter.Kernel.Errno
import Scepter.Lib.Ring
import Scepter.Lib.Run

/-! Pipes (fs/pipe.c): a ring of PIPE_SIZE bytes between any number of readers and
writers. A blocking call is a record of its locals; one action is one pass of its
while loop, its sleep, or its return from sleep_on, so that every interleaving of
the calls in progress is a run. The logs `accepted` and `delivered` record each
byte that enters or leaves the ring with the call that moved it. -/
namespace Scepter.PipeIo
open RingBuffer Run

def PIPE_SIZE : Nat := 4096

structure Pipe where
  buf : Nat → UInt8
  head : Nat
  tail : Nat
  count : Nat
  readers : Nat
  writers : Nat

-- The buffer is what the allocator left in it.
def pipeCreate (buf : Nat → UInt8) : Pipe := ⟨buf, 0, 0, 0, 1, 1⟩

def Pipe.contents (p : Pipe) : List UInt8 := ringRead p.buf PIPE_SIZE p.tail p.count

def Pipe.take (p : Pipe) (take : Nat) : Pipe × List UInt8 :=
  ({p with tail := (p.tail + take) % PIPE_SIZE, count := p.count - take},
    ringRead p.buf PIPE_SIZE p.tail take)

def Pipe.put (p : Pipe) (bytes : List UInt8) : Pipe :=
  {p with
    buf := ringWrite p.buf PIPE_SIZE p.head bytes
    head := (p.head + bytes.length) % PIPE_SIZE
    count := p.count + bytes.length}

inductive Pass where
  | again (p : Pipe) (bytes : List UInt8)
  | sleep
  | done (ret : Int)

def pipeReadPass (p : Pipe) (count total : Nat) : Pass :=
  if total < count then
    if 0 < p.count then
      let (p, bytes) := p.take (min p.count (count - total))
      .again p bytes
    else if p.writers = 0 then .done (cInt total)
    else .sleep
  else .done (cInt total)

def pipeReadResume (pending : Bool) (total : Nat) : Option Int :=
  if pending then some (if 0 < total then cInt total else -EINTR) else none

def pipeWritePass (p : Pipe) (data : List UInt8) (total : Nat) : Pass :=
  if total < data.length then
    if p.readers = 0 then .done (if 0 < total then cInt total else -EPIPE)
    else if p.count < PIPE_SIZE then
      let put := min (data.length - total) (PIPE_SIZE - p.count)
      let bytes := (data.drop total).take put
      .again (p.put bytes) bytes
    else .sleep
  else .done (cInt total)

def pipeReadNonblock (p : Pipe) (count : Nat) : Int × Option (Pipe × List UInt8) :=
  if 0 < p.count then
    let take := min p.count count
    (cInt take, some (p.take take))
  else if p.writers = 0 then (0, none)
  else (-EAGAIN, none)

def pipeWriteNonblock (p : Pipe) (data : List UInt8) : Int × Option (Pipe × List UInt8) :=
  if p.readers = 0 then (-EPIPE, none)
  else if PIPE_SIZE - p.count = 0 then (-EAGAIN, none)
  else
    let put := min data.length (PIPE_SIZE - p.count)
    (cInt put, some (p.put (data.take put), data.take put))

def Pipe.readRelease (p : Pipe) : Pipe := {p with readers := p.readers - 1}
def Pipe.writeRelease (p : Pipe) : Pipe := {p with writers := p.writers - 1}

-- Both counts are zero: the release that finds it so frees the pipe.
def Pipe.unreferenced (p : Pipe) : Bool := p.readers = 0 ∧ p.writers = 0

/-! ## Calls in progress -/

inductive Request where
  | read (count : Nat) (buf : List UInt8)
  | write (data : List UInt8)
  deriving DecidableEq

inductive Phase where
  | running
  | asleep
  | woken
  | returned (ret : Int)
  deriving DecidableEq

structure Call where
  request : Request
  total : Nat
  phase : Phase
  deriving DecidableEq

def Request.isRead : Request → Bool
  | .read .. => true
  | .write _ => false

def Call.unfinished (call : Call) : Bool :=
  match call.phase with
  | .returned _ => false
  | _ => true

def wake (reads : Bool) (calls : List Call) : List Call :=
  calls.map fun call =>
    if call.phase = .asleep ∧ call.request.isRead = reads then {call with phase := .woken}
    else call

structure State where
  pipe : Pipe
  freed : Bool
  calls : List Call
  accepted : List (Nat × UInt8)
  delivered : List (Nat × UInt8)

-- fifo_get_pipe resets the end counts pipe_create sets to one.
def start (buf : Nat → UInt8) (readers writers : Nat) : State :=
  ⟨{pipeCreate buf with readers := readers, writers := writers}, false, [], [], []⟩

def tag (id : Nat) (bytes : List UInt8) : List (Nat × UInt8) := bytes.map fun b => (id, b)

def bytesOf (id : Nat) (log : List (Nat × UInt8)) : List UInt8 :=
  (log.filter fun e => e.1 = id).map Prod.snd

def enter (s : State) (request : Request) : State :=
  {s with calls := s.calls ++ [⟨request, 0, .running⟩]}

def setPhase (s : State) (id : Nat) (call : Call) (phase : Phase) : State :=
  {s with calls := s.calls.set id {call with phase := phase}}

def deliver (s : State) (id count total : Nat) (buf bytes : List UInt8) (p : Pipe)
    (phase : Phase) : State :=
  {s with
    pipe := p
    delivered := s.delivered ++ tag id bytes
    calls := wake false
      (s.calls.set id ⟨.read count (buf ++ bytes), total + bytes.length, phase⟩)}

def accept (s : State) (id : Nat) (data : List UInt8) (total : Nat) (bytes : List UInt8)
    (p : Pipe) (phase : Phase) : State :=
  {s with
    pipe := p
    accepted := s.accepted ++ tag id bytes
    calls := wake true (s.calls.set id ⟨.write data, total + bytes.length, phase⟩)}

def pass (s : State) (id : Nat) (call : Call) : State :=
  match call.request with
  | .read count buf =>
    match pipeReadPass s.pipe count call.total with
    | .again p bytes => deliver s id count call.total buf bytes p .running
    | .sleep => setPhase s id call .asleep
    | .done ret => setPhase s id call (.returned ret)
  | .write data =>
    match pipeWritePass s.pipe data call.total with
    | .again p bytes => accept s id data call.total bytes p .running
    | .sleep => setPhase s id call .asleep
    | .done ret => setPhase s id call (.returned ret)

def resume (s : State) (id : Nat) (call : Call) (pending : Bool) : State :=
  match call.request with
  | .read .. =>
    match pipeReadResume pending call.total with
    | some ret => setPhase s id call (.returned ret)
    | none => setPhase s id call .running
  | .write _ => setPhase s id call .running

def readNonblock (s : State) (count : Nat) : State :=
  let id := s.calls.length
  let entered := enter s (.read count [])
  match pipeReadNonblock s.pipe count with
  | (ret, some (p, bytes)) => deliver entered id count 0 [] bytes p (.returned ret)
  | (ret, none) => setPhase entered id ⟨.read count [], 0, .running⟩ (.returned ret)

def writeNonblock (s : State) (data : List UInt8) : State :=
  let id := s.calls.length
  let entered := enter s (.write data)
  match pipeWriteNonblock s.pipe data with
  | (ret, some (p, bytes)) => accept entered id data 0 bytes p (.returned ret)
  | (ret, none) => setPhase entered id ⟨.write data, 0, .running⟩ (.returned ret)

/-! ## Ends -/

def pipeReadRelease (s : State) : State :=
  let pipe := s.pipe.readRelease
  {s with
    pipe := pipe
    calls := if pipe.readers = 0 then wake false s.calls else s.calls
    freed := pipe.unreferenced}

def pipeWriteRelease (s : State) : State :=
  let pipe := s.pipe.writeRelease
  {s with
    pipe := pipe
    calls := if pipe.writers = 0 then wake true s.calls else s.calls
    freed := pipe.unreferenced}

/-! A call holds the open file it came through, so the last end of a kind is not
released under an unfinished call of that kind. -/
def endInUse (s : State) (reads : Bool) : Bool :=
  s.calls.any fun call => call.request.isRead = reads ∧ call.unfinished

inductive Action where
  | read (count : Nat)
  | write (data : List UInt8)
  | readNonblock (count : Nat)
  | writeNonblock (data : List UInt8)
  | pass (id : Nat)
  | resume (id : Nat) (pending : Bool)
  | attachRead
  | attachWrite
  | releaseRead
  | releaseWrite

/-! Callers of pipe_write pass at most a kernel buffer at a time, far below 2^31. -/
def step (s : State) (action : Action) : Option State :=
  if s.freed then none
  else match action with
    | .read count => if 0 < s.pipe.readers then some (enter s (.read count [])) else none
    | .write data =>
      if 0 < s.pipe.writers ∧ data.length < 2 ^ 31 then some (enter s (.write data)) else none
    | .readNonblock count => if 0 < s.pipe.readers then some (readNonblock s count) else none
    | .writeNonblock data =>
      if 0 < s.pipe.writers ∧ data.length < 2 ^ 31 then some (writeNonblock s data) else none
    | .pass id =>
      match s.calls[id]? with
      | some call => if call.phase = .running then some (pass s id call) else none
      | none => none
    | .resume id pending =>
      match s.calls[id]? with
      | some call => if call.phase = .woken then some (resume s id call pending) else none
      | none => none
    | .attachRead => some {s with pipe := {s.pipe with readers := s.pipe.readers + 1}}
    | .attachWrite => some {s with pipe := {s.pipe with writers := s.pipe.writers + 1}}
    | .releaseRead =>
      if s.pipe.readers ≤ 1 ∧ endInUse s true then none
      else some (pipeReadRelease s)
    | .releaseWrite =>
      if s.pipe.writers ≤ 1 ∧ endInUse s false then none
      else some (pipeWriteRelease s)

/-! ## Ring operations -/

theorem takeLength (p : Pipe) (n : Nat) : (p.take n).2.length = n := by
  simp [Pipe.take]

theorem takeContents {p : Pipe} {n : Nat} (fits : n ≤ p.count) :
    p.contents = (p.take n).2 ++ (p.take n).1.contents :=
  readTake p.buf PIPE_SIZE fits p.tail

theorem putContents {p : Pipe} {bytes : List UInt8}
    (ring : p.head = (p.tail + p.count) % PIPE_SIZE)
    (room : p.count + bytes.length ≤ PIPE_SIZE) :
    (p.put bytes).contents = p.contents ++ bytes := by
  simp only [Pipe.contents, Pipe.put, ring]
  exact readAppend p.buf PIPE_SIZE room

structure RingOk (p : Pipe) : Prop where
  bound : p.count ≤ PIPE_SIZE
  ring : p.head = (p.tail + p.count) % PIPE_SIZE

theorem takeRingOk {p : Pipe} {n : Nat} (ok : RingOk p) (fits : n ≤ p.count) :
    RingOk (p.take n).1 := by
  obtain ⟨bound, ring⟩ := ok
  refine ⟨by simp only [Pipe.take]; omega, ?_⟩
  simp only [Pipe.take, ring, Nat.mod_add_mod]
  congr 1
  omega

theorem putRingOk {p : Pipe} {bytes : List UInt8} (ok : RingOk p)
    (room : p.count + bytes.length ≤ PIPE_SIZE) : RingOk (p.put bytes) := by
  obtain ⟨bound, ring⟩ := ok
  refine ⟨room, ?_⟩
  simp only [Pipe.put, ring, Nat.mod_add_mod]
  congr 1
  omega

/-! What a pass can do, said once for each direction. -/

theorem readPassCases (p : Pipe) (count total : Nat) :
    (∃ n, 0 < n ∧ n ≤ p.count ∧ total + n ≤ count ∧
      pipeReadPass p count total = .again (p.take n).1 (p.take n).2) ∨
    pipeReadPass p count total = .sleep ∨
    pipeReadPass p count total = .done (cInt total) := by
  unfold pipeReadPass
  split
  · split
    · exact .inl ⟨min p.count (count - total), by omega, by omega, by omega, rfl⟩
    · split
      · exact .inr (.inr rfl)
      · exact .inr (.inl rfl)
  · exact .inr (.inr rfl)

theorem writePassCases (p : Pipe) (data : List UInt8) (total : Nat) :
    (∃ n, total + n ≤ data.length ∧ p.count + n ≤ PIPE_SIZE ∧
      pipeWritePass p data total =
        .again (p.put ((data.drop total).take n)) ((data.drop total).take n)) ∨
    pipeWritePass p data total = .sleep ∨
    pipeWritePass p data total = .done (cInt total) ∨
    total = 0 ∧ pipeWritePass p data total = .done (-EPIPE) := by
  unfold pipeWritePass
  split
  · split
    · rcases Nat.eq_zero_or_pos total with none | some
      · exact .inr (.inr (.inr ⟨none, by simp [none]⟩))
      · exact .inr (.inr (.inl (by simp [some])))
    · split
      · exact .inl ⟨min (data.length - total) (PIPE_SIZE - p.count), by omega, by omega, rfl⟩
      · exact .inr (.inl rfl)
  · exact .inr (.inr (.inl rfl))

/-! ## Logs -/

@[simp] theorem bytesOfAppend (id : Nat) (xs ys : List (Nat × UInt8)) :
    bytesOf id (xs ++ ys) = bytesOf id xs ++ bytesOf id ys := by
  simp [bytesOf]

@[simp] theorem bytesOfTag (id : Nat) (bytes : List UInt8) : bytesOf id (tag id bytes) = bytes := by
  simp [bytesOf, tag, List.filter_map, Function.comp_def]

theorem bytesOfOther {id other : Nat} (differ : id ≠ other) (bytes : List UInt8) :
    bytesOf id (tag other bytes) = [] := by
  simp [bytesOf, tag, List.filter_map, Function.comp_def, Ne.symm differ]

@[simp] theorem tagBytes (id : Nat) (bytes : List UInt8) : (tag id bytes).map Prod.snd = bytes := by
  simp [tag, Function.comp_def]

theorem bytesOfFresh {id : Nat} {log : List (Nat × UInt8)} (fresh : ∀ e ∈ log, e.1 < id) :
    bytesOf id log = [] := by
  simp only [bytesOf, List.map_eq_nil_iff, List.filter_eq_nil_iff, decide_eq_true_eq]
  intro e member
  exact (fresh e member).ne

/-! ## The invariant -/

-- Every return value is the number of bytes moved, or an error with none moved.
def Returned (call : Call) : Prop :=
  ∀ ret, call.phase = .returned ret → ret = cInt call.total ∨ ret < 0 ∧ call.total = 0

def Books (id : Nat) (s : State) (call : Call) : Prop :=
  Returned call ∧
  match call.request with
  | .read count buf =>
    buf = bytesOf id s.delivered ∧ call.total = buf.length ∧ call.total ≤ count ∧
      bytesOf id s.accepted = []
  | .write data =>
    bytesOf id s.accepted = data.take call.total ∧ call.total ≤ data.length ∧
      data.length < 2 ^ 31 ∧ bytesOf id s.delivered = []

structure Inv (s : State) : Prop where
  ring : RingOk s.pipe
  stream : s.accepted.map Prod.snd = s.delivered.map Prod.snd ++ s.pipe.contents
  acceptedOld : ∀ e ∈ s.accepted, e.1 < s.calls.length
  deliveredOld : ∀ e ∈ s.delivered, e.1 < s.calls.length
  books : ∀ id call, s.calls[id]? = some call → Books id s call

theorem startInv (buf : Nat → UInt8) (readers writers : Nat) : Inv (start buf readers writers) where
  ring := ⟨Nat.zero_le _, rfl⟩
  stream := by simp [start, pipeCreate, Pipe.contents]
  acceptedOld := by simp [start]
  deliveredOld := by simp [start]
  books := by simp [start]

theorem booksKept {id : Nat} {s t : State} {call : Call} (books : Books id s call)
    (delivered : bytesOf id t.delivered = bytesOf id s.delivered)
    (accepted : bytesOf id t.accepted = bytesOf id s.accepted) : Books id t call := by
  obtain ⟨returned, moved⟩ := books
  refine ⟨returned, ?_⟩
  cases h : call.request with
  | read count buf => simpa only [h, delivered, accepted] using moved
  | write data => simpa only [h, delivered, accepted] using moved

/-! A wake-up changes no books: the call woken was asleep and has not returned. -/
theorem wakeInv {s : State} (reads : Bool) (inv : Inv s) :
    Inv {s with calls := wake reads s.calls} where
  ring := inv.ring
  stream := inv.stream
  acceptedOld := by simpa [wake] using inv.acceptedOld
  deliveredOld := by simpa [wake] using inv.deliveredOld
  books := by
    intro id call found
    simp only [wake, List.getElem?_map, Option.map_eq_some_iff] at found
    obtain ⟨old, atId, rfl⟩ := found
    obtain ⟨returned, moved⟩ := inv.books id old atId
    split
    · exact ⟨(fun _ h => nomatch h), moved⟩
    · exact ⟨returned, moved⟩

theorem enterInv {s : State} {request : Request} (inv : Inv s)
    (opening : (∃ count, request = .read count []) ∨
      ∃ data, request = .write data ∧ data.length < 2 ^ 31) :
    Inv (enter s request) where
  ring := inv.ring
  stream := inv.stream
  acceptedOld := by
    intro e member
    have old := inv.acceptedOld e member
    simp only [enter, List.length_append, List.length_singleton]
    omega
  deliveredOld := by
    intro e member
    have old := inv.deliveredOld e member
    simp only [enter, List.length_append, List.length_singleton]
    omega
  books := by
    intro id call found
    rcases Nat.lt_trichotomy id s.calls.length with older | rfl | later
    · rw [enter, List.getElem?_append_left older] at found
      exact inv.books id call found
    · simp only [enter, List.getElem?_concat_length, Option.some.injEq] at found
      subst found
      have noneIn := bytesOfFresh inv.acceptedOld
      have noneOut := bytesOfFresh inv.deliveredOld
      rcases opening with ⟨count, rfl⟩ | ⟨data, rfl, small⟩
      · exact ⟨(fun _ h => nomatch h), noneOut.symm, rfl, Nat.zero_le _, noneIn⟩
      · exact ⟨(fun _ h => nomatch h), by simpa [enter] using noneIn, Nat.zero_le _, small, noneOut⟩
    · rw [List.getElem?_eq_none (by simp [enter]; omega)] at found
      contradiction

theorem phaseInv {s : State} {id : Nat} {call : Call} {phase : Phase} (inv : Inv s)
    (found : s.calls[id]? = some call) (returned : Returned {call with phase := phase}) :
    Inv (setPhase s id call phase) where
  ring := inv.ring
  stream := inv.stream
  acceptedOld := by simpa [setPhase] using inv.acceptedOld
  deliveredOld := by simpa [setPhase] using inv.deliveredOld
  books := by
    intro other theirs atOther
    rcases eq_or_ne id other with rfl | differ
    · have size : id < s.calls.length := (List.getElem?_eq_some_iff.mp found).1
      simp only [setPhase, List.getElem?_set_self size, Option.some.injEq] at atOther
      subst atOther
      exact ⟨returned, (inv.books id call found).2⟩
    · rw [setPhase, List.getElem?_set_ne differ] at atOther
      exact inv.books other theirs atOther

theorem loggedOld {log : List (Nat × UInt8)} {id n : Nat} (old : ∀ e ∈ log, e.1 < n)
    (size : id < n) (bytes : List UInt8) : ∀ e ∈ log ++ tag id bytes, e.1 < n := by
  intro e member
  rcases List.mem_append.mp member with before | now
  · exact old e before
  · obtain ⟨b, -, rfl⟩ := List.mem_map.mp now
    exact size

theorem deliverInv {s : State} {id count total n : Nat} {buf : List UInt8} {phase after : Phase}
    (inv : Inv s) (found : s.calls[id]? = some ⟨.read count buf, total, phase⟩)
    (held : n ≤ s.pipe.count) (asked : total + n ≤ count)
    (returned : ∀ ret, after = .returned ret → ret = cInt (total + n)) :
    Inv (deliver s id count total buf (s.pipe.take n).2 (s.pipe.take n).1 after) := by
  have size : id < s.calls.length := (List.getElem?_eq_some_iff.mp found).1
  have old := inv.books id _ found
  refine wakeInv (s := {s with pipe := _, delivered := _, calls := _}) false ⟨?_, ?_, ?_, ?_, ?_⟩
  · exact takeRingOk inv.ring held
  · rw [List.map_append, tagBytes, List.append_assoc, ← takeContents held]
    exact inv.stream
  · simpa using inv.acceptedOld
  · simp only [List.length_set]
    exact loggedOld inv.deliveredOld size _
  · intro other call atOther
    rcases eq_or_ne id other with rfl | differ
    · simp only [List.getElem?_set_self size, Option.some.injEq] at atOther
      subst atOther
      obtain ⟨-, bufOld, totalOld, -, noneIn⟩ := old
      simp only at bufOld totalOld
      refine ⟨?_, ?_, ?_, ?_, noneIn⟩
      · intro ret h
        rw [takeLength]
        exact .inl (returned ret h)
      · simp [bufOld]
      · simp [totalOld]
      · simpa [takeLength] using asked
    · rw [List.getElem?_set_ne differ] at atOther
      refine booksKept (inv.books other call atOther) ?_ rfl
      simp [bytesOfOther (Ne.symm differ)]

theorem acceptInv {s : State} {id total n : Nat} {data : List UInt8} {phase after : Phase}
    (inv : Inv s) (found : s.calls[id]? = some ⟨.write data, total, phase⟩)
    (room : s.pipe.count + n ≤ PIPE_SIZE) (left : total + n ≤ data.length)
    (returned : ∀ ret, after = .returned ret → ret = cInt (total + n)) :
    Inv (accept s id data total ((data.drop total).take n)
      (s.pipe.put ((data.drop total).take n)) after) := by
  have size : id < s.calls.length := (List.getElem?_eq_some_iff.mp found).1
  have old := inv.books id _ found
  have moved : ((data.drop total).take n).length = n := by simp; omega
  have fits : s.pipe.count + ((data.drop total).take n).length ≤ PIPE_SIZE := by rwa [moved]
  refine wakeInv (s := {s with pipe := _, accepted := _, calls := _}) true ⟨?_, ?_, ?_, ?_, ?_⟩
  · exact putRingOk inv.ring fits
  · change _ = s.delivered.map Prod.snd ++ (s.pipe.put _).contents
    rw [List.map_append, tagBytes, putContents inv.ring.ring fits, ← List.append_assoc, inv.stream]
  · simp only [List.length_set]
    exact loggedOld inv.acceptedOld size _
  · simpa using inv.deliveredOld
  · intro other call atOther
    rcases eq_or_ne id other with rfl | differ
    · simp only [List.getElem?_set_self size, Option.some.injEq] at atOther
      subst atOther
      obtain ⟨-, entered, -, small, noneOut⟩ := old
      simp only at entered
      refine ⟨?_, ?_, ?_, small, noneOut⟩
      · intro ret h
        rw [moved]
        exact .inl (returned ret h)
      · rw [bytesOfAppend, bytesOfTag, entered, moved, List.take_add]
      · rwa [moved]
    · rw [List.getElem?_set_ne differ] at atOther
      refine booksKept (inv.books other call atOther) rfl ?_
      simp [bytesOfOther (Ne.symm differ)]

/-! ## One step -/

-- The count a call returns normally is always right for it.
theorem returnedTotal (request : Request) (total : Nat) :
    Returned ⟨request, total, .returned (cInt total)⟩ := by
  intro ret h
  cases h
  exact .inl rfl

theorem passInv {s : State} {id : Nat} {call : Call} (inv : Inv s)
    (found : s.calls[id]? = some call) (running : call.phase = .running) :
    Inv (pass s id call) := by
  obtain ⟨request, total, phase⟩ := call
  cases running
  have sleeping : Returned ⟨request, total, .asleep⟩ := fun _ h => nomatch h
  unfold pass
  cases request with
  | read count buf =>
    rcases readPassCases s.pipe count total with ⟨n, -, held, asked, moves⟩ | sleeps | done
    · simp only [moves]
      exact deliverInv inv found held asked fun _ h => nomatch h
    · simp only [sleeps]
      exact phaseInv inv found sleeping
    · simp only [done]
      exact phaseInv inv found (returnedTotal _ total)
  | write data =>
    rcases writePassCases s.pipe data total with
      ⟨n, left, room, moves⟩ | sleeps | done | ⟨none, refused⟩
    · simp only [moves]
      exact acceptInv inv found room left fun _ h => nomatch h
    · simp only [sleeps]
      exact phaseInv inv found sleeping
    · simp only [done]
      exact phaseInv inv found (returnedTotal _ total)
    · simp only [refused]
      refine phaseInv inv found ?_
      intro ret h
      cases h
      exact .inr ⟨by decide, none⟩

theorem resumeInv {s : State} {id : Nat} {call : Call} (pending : Bool) (inv : Inv s)
    (found : s.calls[id]? = some call) : Inv (resume s id call pending) := by
  obtain ⟨request, total, phase⟩ := call
  have goesOn : Inv (setPhase s id ⟨request, total, phase⟩ .running) :=
    phaseInv inv found fun _ h => nomatch h
  unfold resume
  cases request with
  | write data => exact goesOn
  | read count buf =>
    cases pending with
    | false => exact goesOn
    | true =>
      refine phaseInv inv found ?_
      intro ret h
      cases h
      rcases Nat.eq_zero_or_pos total with none | some
      · exact .inr ⟨by simp [none, EINTR], none⟩
      · exact .inl (by simp [some])

/-! The non-blocking calls are entered and finished in one step. -/

theorem enterFound (s : State) (request : Request) :
    (enter s request).calls[s.calls.length]? = some ⟨request, 0, .running⟩ := by
  simp [enter]

theorem refusedInv {s : State} {request : Request} {ret : Int} (inv : Inv (enter s request))
    (error : ret = 0 ∨ ret < 0) :
    Inv (setPhase (enter s request) s.calls.length ⟨request, 0, .running⟩ (.returned ret)) := by
  refine phaseInv inv (enterFound s request) ?_
  intro r h
  cases h
  rcases error with rfl | negative
  · exact .inl rfl
  · exact .inr ⟨negative, rfl⟩

theorem readNonblockInv {s : State} (count : Nat) (inv : Inv s) : Inv (readNonblock s count) := by
  have entered : Inv (enter s (.read count [])) := enterInv inv (.inl ⟨count, rfl⟩)
  unfold readNonblock pipeReadNonblock
  split <;> rename_i result
  · split at result
    · cases result
      refine deliverInv entered (enterFound s _) (Nat.min_le_left ..) (by omega) ?_
      intro ret h
      cases h
      simp
    · split at result <;> cases result
  · split at result
    · cases result
    · split at result <;> cases result
      · exact refusedInv entered (.inl rfl)
      · exact refusedInv entered (.inr (by decide))

theorem writeNonblockInv {s : State} {data : List UInt8} (inv : Inv s)
    (small : data.length < 2 ^ 31) : Inv (writeNonblock s data) := by
  have entered : Inv (enter s (.write data)) := enterInv inv (.inr ⟨data, rfl, small⟩)
  unfold writeNonblock pipeWriteNonblock
  split <;> rename_i result
  · split at result
    · cases result
    · split at result
      · cases result
      · cases result
        have room : s.pipe.count ≤ PIPE_SIZE := inv.ring.bound
        refine acceptInv (n := min data.length (PIPE_SIZE - s.pipe.count)) entered
          (enterFound s _) ?_ (by omega) ?_
        · change s.pipe.count + _ ≤ _
          omega
        · intro ret h
          cases h
          simp
  · split at result
    · cases result
      exact refusedInv entered (.inr (by decide))
    · split at result
      · cases result
        exact refusedInv entered (.inr (by decide))
      · cases result

theorem endsInv {s : State} {readers writers : Nat} {freed : Bool} (inv : Inv s) :
    Inv {s with pipe := {s.pipe with readers := readers, writers := writers}, freed := freed} :=
  ⟨⟨inv.ring.bound, inv.ring.ring⟩, inv.stream, inv.acceptedOld, inv.deliveredOld, inv.books⟩

theorem readReleaseInv {s : State} (inv : Inv s) : Inv (pipeReadRelease s) := by
  unfold pipeReadRelease
  rcases Nat.eq_zero_or_pos s.pipe.readRelease.readers with last | others
  · simp only [last, if_true]
    exact endsInv (wakeInv false inv)
  · simp only [Nat.ne_of_gt others, if_false]
    exact endsInv inv

theorem writeReleaseInv {s : State} (inv : Inv s) : Inv (pipeWriteRelease s) := by
  unfold pipeWriteRelease
  rcases Nat.eq_zero_or_pos s.pipe.writeRelease.writers with last | others
  · simp only [last, if_true]
    exact endsInv (wakeInv true inv)
  · simp only [Nat.ne_of_gt others, if_false]
    exact endsInv inv

theorem stepInv (s : State) (action : Action) (t : State) (inv : Inv s)
    (stepped : step s action = some t) : Inv t := by
  unfold step at stepped
  split at stepped <;> try contradiction
  cases action with
  | read count =>
    simp only at stepped
    split at stepped <;> cases stepped
    exact enterInv inv (.inl ⟨count, rfl⟩)
  | write data =>
    simp only at stepped
    split at stepped <;> cases stepped
    rename_i open'
    exact enterInv inv (.inr ⟨data, rfl, open'.2⟩)
  | readNonblock count =>
    simp only at stepped
    split at stepped <;> cases stepped
    exact readNonblockInv count inv
  | writeNonblock data =>
    simp only at stepped
    split at stepped <;> cases stepped
    rename_i open'
    exact writeNonblockInv inv open'.2
  | pass id =>
    simp only at stepped
    split at stepped <;> try contradiction
    rename_i call found
    split at stepped <;> cases stepped
    rename_i running
    exact passInv inv found running
  | resume id pending =>
    simp only at stepped
    split at stepped <;> try contradiction
    rename_i call found
    split at stepped <;> cases stepped
    exact resumeInv pending inv found
  | attachRead => cases stepped; exact endsInv inv
  | attachWrite => cases stepped; exact endsInv inv
  | releaseRead =>
    simp only at stepped
    split at stepped <;> cases stepped
    exact readReleaseInv inv
  | releaseWrite =>
    simp only at stepped
    split at stepped <;> cases stepped
    exact writeReleaseInv inv

/-! ## Whole runs -/

structure StreamLaw (s : State) : Prop where
  stream : s.delivered.map Prod.snd <+: s.accepted.map Prod.snd
  bound : s.pipe.count ≤ PIPE_SIZE
  ring : s.pipe.head = (s.pipe.tail + s.pipe.count) % PIPE_SIZE
  -- The buffer of a read holds what the log says was delivered to it.
  reads : ∀ (id count : Nat) buf total phase,
    s.calls[id]? = some ⟨.read count buf, total, phase⟩ →
      buf = bytesOf id s.delivered ∧
      ∀ ret, phase = .returned ret → ret = cInt buf.length ∨ ret < 0 ∧ buf = []
  -- A write returns the number of its bytes that entered, or an error and none did.
  writes : ∀ (id : Nat) data total ret,
    s.calls[id]? = some ⟨.write data, total, .returned ret⟩ →
      bytesOf id s.accepted <+: data ∧
      (ret = (bytesOf id s.accepted).length ∨ ret < 0 ∧ bytesOf id s.accepted = [])

theorem pipeStream {buf : Nat → UInt8} {readers writers : Nat} {acts : List Action} {s : State}
    (ran : run step (start buf readers writers) acts = some s) : StreamLaw s := by
  have inv : Inv s := invariant stepInv (startInv buf readers writers) ran
  refine ⟨?_, inv.ring.bound, inv.ring.ring, ?_, ?_⟩
  · rw [inv.stream]
    exact List.prefix_append ..
  · intro id count buf total phase found
    obtain ⟨returned, delivered, size, -⟩ := inv.books id _ found
    refine ⟨delivered, ?_⟩
    intro ret h
    rcases returned ret h with counted | ⟨negative, none⟩
    · exact .inl (counted.trans (congrArg cInt size))
    · exact .inr ⟨negative, List.length_eq_zero_iff.mp (size.symm.trans none)⟩
  · intro id data total ret found
    obtain ⟨returned, entered, fits, small, -⟩ := inv.books id _ found
    simp only at entered fits
    refine ⟨entered ▸ List.take_prefix .., ?_⟩
    rcases returned ret rfl with counted | ⟨negative, none⟩
    · left
      rw [counted, entered, List.length_take, Nat.min_eq_left fits, cIntSmall (by simp only; omega)]
    · right
      simp only at none
      exact ⟨negative, by simp [entered, none]⟩

/-! A reader that sleeps on the empty pipe, is woken by the first write and takes two
of its bytes; the second write and read go without blocking. -/
def sleepingReader : Option State :=
  run step (start (fun _ => 0) 1 1)
    [.read 2, .pass 0, .write [7, 8, 9], .pass 1, .resume 0 false, .pass 0, .pass 0,
      .pass 1, .writeNonblock [10], .readNonblock 5]

theorem sleepingReaderStream :
    ∃ s, sleepingReader = some s ∧ s.delivered = [(0, 7), (0, 8), (3, 9), (3, 10)] ∧
      StreamLaw s := by
  have ends : sleepingReader.isSome := rfl
  exact ⟨sleepingReader.get ends, (Option.some_get ends).symm, rfl,
    pipeStream (Option.some_get ends).symm⟩

end Scepter.PipeIo
