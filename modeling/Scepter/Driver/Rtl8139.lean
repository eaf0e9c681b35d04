import Scepter.Net.Proto

/-! What the RTL8139 driver takes out of its receive ring (driver/net/rtl8139.c). The NIC
writes the ring and its write pointer whenever it likes: each turn of the loop finds them as
they are then. A packet is a status word, a length word that counts four bytes of CRC, and
the frame; its end is rounded up to a multiple of four. -/
namespace Scepter.Rtl8139
open Net (Frame NET_MAX_FRAME memcpy)

def RTL_RX_BUF_SIZE : Nat := 8192

/-- A difference of two uint32_t. -/
def sub32 (a b : Nat) : Nat := (a + 2 ^ 32 - b) % 2 ^ 32

structure Nic where
  -- RTL_REG_CBA
  cba : Nat
  ring : Buf

structure Packet where
  -- what net_rx is called with
  frame : Option Frame
  -- the parts of tmp that are written, by offset and length
  writes : List (Nat × Nat)
  cur : Nat

def rxStatusOk (status : Nat) : Prop := status % 2 = 1

instance (status : Nat) : Decidable (rxStatusOk status) := by unfold rxStatusOk; infer_instance

def advance (cur rxLen : Nat) : Nat :=
  let cur := (cur + 4 + rxLen + 3) / 4 * 4
  if RTL_RX_BUF_SIZE ≤ cur then cur - RTL_RX_BUF_SIZE else cur

def rtl8139Packet (cur : Nat) : Peek (Option Packet) := do
  let status ← Peek.le16 cur
  let rxLen ← Peek.le16 (cur + 2)
  if rxLen < 4 ∨ RTL_RX_BUF_SIZE < rxLen then return none
  let dataLen := rxLen - 4
  let dataOff := cur + 4
  if rxStatusOk status then
    if dataOff + dataLen ≤ RTL_RX_BUF_SIZE then
      let data ← Peek.take dataOff dataLen
      return some ⟨some ⟨memcpy Buf.zero 0 data 0 dataLen, dataLen⟩, [(0, dataLen)],
        advance cur rxLen⟩
    else
      let part1 := sub32 RTL_RX_BUF_SIZE dataOff
      let part2 := sub32 dataLen part1
      let first ← Peek.take dataOff part1
      let second ← Peek.take 0 part2
      return some ⟨some ⟨memcpy (memcpy Buf.zero 0 first 0 part1) part1 second 0 part2, dataLen⟩,
        [(0, part1), (part1, part2)], advance cur rxLen⟩
  else return some ⟨none, [], advance cur rxLen⟩

structure Receive where
  cur : Nat
  -- calls of net_rx
  frames : List Frame
  rxDropped : Nat

def rtl8139Receive (nic : Nat → Nic) : Nat → Nat → Nat → Option Receive
  | 0, _, _ => none
  | fuel + 1, k, cur =>
    if cur = (nic k).cba then some ⟨cur, [], 0⟩
    else match (rtl8139Packet cur).value (nic k).ring with
      | none => some ⟨cur, [], 0⟩
      | some packet => (rtl8139Receive nic fuel (k + 1) packet.cur).map fun later =>
        match packet.frame with
        | some frame => {later with frames := frame :: later.frames}
        | none => {later with rxDropped := later.rxDropped + 1}

def position (nic : Nat → Nic) (start : Nat) : Nat → Option Nat
  | 0 => some start
  | k + 1 => (position nic start k).bind fun cur =>
    if cur = (nic k).cba then none
    else ((rtl8139Packet cur).value (nic k).ring).map Packet.cur

def Placed (cur : Nat) : Prop := cur % 4 = 0 ∧ cur < RTL_RX_BUF_SIZE

def TurnSafe (nic : Nic) (cur : Nat) : Prop :=
  cur ≠ nic.cba → Peek.Within RTL_RX_BUF_SIZE (rtl8139Packet cur) nic.ring ∧
    ∀ packet, (rtl8139Packet cur).value nic.ring = some packet →
      ∀ part ∈ packet.writes, part.1 + part.2 ≤ NET_MAX_FRAME

def Safe (nic : Nat → Nic) (start : Nat) : Prop :=
  ∀ k cur, position nic start k = some cur → Placed cur ∧ TurnSafe (nic k) cur

/-! ## The packets of a ring -/

def status (ring : Buf) (at_ : Nat) : Nat := (ring at_).toNat + 256 * (ring (at_ + 1)).toNat
def rxLen (ring : Buf) (at_ : Nat) : Nat := (ring (at_ + 2)).toNat + 256 * (ring (at_ + 3)).toNat

def onward (at_ len : Nat) : Nat := (at_ + 4 + len + 3) / 4 * 4 % RTL_RX_BUF_SIZE

def header (nic : Nat → Nic) (start : Nat) : Nat → Option Nat
  | 0 => some start
  | k + 1 => (header nic start k).bind fun at_ =>
    if at_ = (nic k).cba ∨ rxLen (nic k).ring at_ < 4 ∨ RTL_RX_BUF_SIZE < rxLen (nic k).ring at_
    then none else some (onward at_ (rxLen (nic k).ring at_))

/-- No packet received without error is larger than a frame, and none with an error in the
ring's last four bytes fills the ring up to its end. -/
def Sane (nic : Nat → Nic) (start : Nat) : Prop :=
  ∀ k at_, header nic start k = some at_ → at_ ≠ (nic k).cba →
    4 ≤ rxLen (nic k).ring at_ → rxLen (nic k).ring at_ ≤ RTL_RX_BUF_SIZE →
      (rxStatusOk (status (nic k).ring at_) → rxLen (nic k).ring at_ ≤ NET_MAX_FRAME + 4) ∧
      at_ + rxLen (nic k).ring at_ ≤ 2 * RTL_RX_BUF_SIZE - 8

/-- Turn `k` and those after it find these frames, each well formed and with the write
pointer elsewhere, and then nothing more. -/
def Feeds (nic : Nat → Nic) : Nat → Nat → List (List Byte) → Prop
  | k, at_, [] => at_ = (nic k).cba
  | k, at_, frame :: rest => at_ ≠ (nic k).cba ∧ rxStatusOk (status (nic k).ring at_) ∧
      rxLen (nic k).ring at_ = frame.length + 4 ∧ frame.length + 4 ≤ RTL_RX_BUF_SIZE ∧
      (∀ i (small : i < frame.length), (nic k).ring ((at_ + 4 + i) % RTL_RX_BUF_SIZE) = frame[i]) ∧
      Feeds nic (k + 1) (onward at_ (frame.length + 4)) rest

def frameBytes (f : Frame) : List Byte := (List.range f.len).map f.data

def Delivers (nic : Nat → Nic) (start : Nat) : Prop :=
  ∀ frames, Feeds nic 0 start frames → ∃ fuel received,
    rtl8139Receive nic fuel 0 start = some received ∧ received.frames.map frameBytes = frames

def ReceivesRight (nic : Nat → Nic) (start : Nat) : Prop := Safe nic start ∧ Delivers nic start

/-! ## One turn -/

section turn

variable {ring : Buf} {cur : Nat}

theorem statusRead : (Peek.le16 cur).value ring = status ring cur := by
  rw [Peek.valueLe16, status]

theorem rxLenRead : (Peek.le16 (cur + 2)).value ring = rxLen ring cur := by
  rw [Peek.valueLe16]
  rfl

theorem packetBogus (bogus : rxLen ring cur < 4 ∨ RTL_RX_BUF_SIZE < rxLen ring cur) :
    (rtl8139Packet cur).value ring = none := by
  unfold rtl8139Packet
  simp only [Peek.valueBind, rxLenRead, Peek.valueIte]
  exact if_pos bogus

variable (low : 4 ≤ rxLen ring cur) (high : rxLen ring cur ≤ RTL_RX_BUF_SIZE)
include low high

theorem packetFailed (failed : ¬ rxStatusOk (status ring cur)) :
    (rtl8139Packet cur).value ring = some ⟨none, [], advance cur (rxLen ring cur)⟩ := by
  unfold rtl8139Packet
  simp only [Peek.valueBind, rxLenRead, Peek.valueIte]
  rw [statusRead, if_neg (by omega), if_neg failed, Peek.valuePure]

theorem packetWhole (ok : rxStatusOk (status ring cur))
    (fits : cur + 4 + (rxLen ring cur - 4) ≤ RTL_RX_BUF_SIZE) :
    (rtl8139Packet cur).value ring = some ⟨some ⟨memcpy Buf.zero 0 (fun i => ring (cur + 4 + i)) 0
      (rxLen ring cur - 4), rxLen ring cur - 4⟩, [(0, rxLen ring cur - 4)],
      advance cur (rxLen ring cur)⟩ := by
  unfold rtl8139Packet
  simp only [Peek.valueBind, rxLenRead, Peek.valueIte, Peek.valueTake, Peek.valuePure]
  rw [statusRead, if_neg (by omega), if_pos ok, if_pos fits]

theorem packetWrapped (placed : Placed cur) (ok : rxStatusOk (status ring cur))
    (wraps : RTL_RX_BUF_SIZE < cur + 4 + (rxLen ring cur - 4)) :
    (rtl8139Packet cur).value ring = some ⟨some ⟨memcpy (memcpy Buf.zero 0
      (fun i => ring (cur + 4 + i)) 0 (RTL_RX_BUF_SIZE - (cur + 4))) (RTL_RX_BUF_SIZE - (cur + 4))
      (fun i => ring (0 + i)) 0 (rxLen ring cur - 4 - (RTL_RX_BUF_SIZE - (cur + 4))),
      rxLen ring cur - 4⟩, [(0, RTL_RX_BUF_SIZE - (cur + 4)),
        (RTL_RX_BUF_SIZE - (cur + 4), rxLen ring cur - 4 - (RTL_RX_BUF_SIZE - (cur + 4)))],
      advance cur (rxLen ring cur)⟩ := by
  obtain ⟨aligned, inside⟩ := placed
  have part1 : sub32 RTL_RX_BUF_SIZE (cur + 4) = RTL_RX_BUF_SIZE - (cur + 4) := by
    unfold sub32 RTL_RX_BUF_SIZE at *
    omega
  have part2 : sub32 (rxLen ring cur - 4) (RTL_RX_BUF_SIZE - (cur + 4)) =
      rxLen ring cur - 4 - (RTL_RX_BUF_SIZE - (cur + 4)) := by
    unfold sub32 RTL_RX_BUF_SIZE at *
    omega
  unfold rtl8139Packet
  simp only [Peek.valueBind, rxLenRead, Peek.valueIte, Peek.valueTake, Peek.valuePure]
  rw [statusRead, if_neg (by omega), if_pos ok, if_neg (by omega), part1, part2]

theorem packetCur (placed : Placed cur) : ∃ packet, (rtl8139Packet cur).value ring = some packet ∧
    packet.cur = advance cur (rxLen ring cur) := by
  by_cases ok : rxStatusOk (status ring cur)
  · by_cases fits : cur + 4 + (rxLen ring cur - 4) ≤ RTL_RX_BUF_SIZE
    · exact ⟨_, packetWhole low high ok fits, rfl⟩
    · exact ⟨_, packetWrapped low high placed ok (by omega), rfl⟩
  · exact ⟨_, packetFailed low high ok, rfl⟩

theorem turnSafeIff {nic : Nic} (same : nic.ring = ring) (placed : Placed cur) (pending : cur ≠ nic.cba) :
    TurnSafe nic cur ↔ (rxStatusOk (status ring cur) → rxLen ring cur ≤ NET_MAX_FRAME + 4) := by
  obtain ⟨aligned, inside⟩ := placed
  unfold TurnSafe
  rw [same]
  constructor
  · intro safe ok
    have safe := (safe pending).2
    by_cases fits : cur + 4 + (rxLen ring cur - 4) ≤ RTL_RX_BUF_SIZE
    · have := safe _ (packetWhole low high ok fits) (0, rxLen ring cur - 4) (by simp)
      dsimp only at this
      omega
    · have := safe _ (packetWrapped low high ⟨aligned, inside⟩ ok (by omega))
        (RTL_RX_BUF_SIZE - (cur + 4), rxLen ring cur - 4 - (RTL_RX_BUF_SIZE - (cur + 4))) (by simp)
      dsimp only at this
      unfold RTL_RX_BUF_SIZE at *
      omega
  · intro short _
    refine ⟨?_, fun packet value part member => ?_⟩
    · unfold rtl8139Packet
      simp only [Peek.withinBind, Peek.withinLe16, Peek.withinIte, Peek.withinPure, rxLenRead]
      rw [statusRead]
      rw [if_neg (by omega)]
      refine ⟨by unfold RTL_RX_BUF_SIZE at *; omega, by unfold RTL_RX_BUF_SIZE at *; omega, ?_⟩
      split
      · split
        · exact ⟨Peek.withinTake (by omega), trivial⟩
        · have part1 : sub32 RTL_RX_BUF_SIZE (cur + 4) = RTL_RX_BUF_SIZE - (cur + 4) := by
            unfold sub32 RTL_RX_BUF_SIZE at *
            omega
          have part2 : sub32 (rxLen ring cur - 4) (RTL_RX_BUF_SIZE - (cur + 4)) =
              rxLen ring cur - 4 - (RTL_RX_BUF_SIZE - (cur + 4)) := by
            unfold sub32 RTL_RX_BUF_SIZE at *
            omega
          rw [part1, part2]
          exact ⟨Peek.withinTake (by unfold RTL_RX_BUF_SIZE at *; omega),
            Peek.withinTake (by unfold RTL_RX_BUF_SIZE at *; omega), trivial⟩
      · trivial
    · by_cases ok : rxStatusOk (status ring cur)
      · have short := short ok
        by_cases fits : cur + 4 + (rxLen ring cur - 4) ≤ RTL_RX_BUF_SIZE
        · rw [packetWhole low high ok fits] at value
          cases value
          cases List.mem_singleton.mp member
          dsimp only
          omega
        · rw [packetWrapped low high ⟨aligned, inside⟩ ok (by omega)] at value
          cases value
          unfold RTL_RX_BUF_SIZE at *
          rcases List.mem_cons.mp member with rfl | member
          · dsimp only
            omega
          · cases List.mem_singleton.mp member
            dsimp only
            omega
      · rw [packetFailed low high ok] at value
        cases value
        exact absurd member List.not_mem_nil

end turn

/-! ## The loop -/

theorem advancePlaced {cur len : Nat} (placed : Placed cur) (low : 4 ≤ len) (high : len ≤ RTL_RX_BUF_SIZE) :
    (Placed (advance cur len) ↔ cur + len ≤ 2 * RTL_RX_BUF_SIZE - 8) ∧
      (Placed (advance cur len) → advance cur len = onward cur len) := by
  unfold Placed advance onward RTL_RX_BUF_SIZE at *
  dsimp only
  split <;> omega

theorem frameBytesEq {f : Frame} {frame : List Byte} (len : f.len = frame.length)
    (bytes : ∀ i (small : i < frame.length), f.data i = frame[i]) : frameBytes f = frame := by
  unfold frameBytes
  refine List.ext_getElem (by simp [len]) fun i _ small => ?_
  rw [List.getElem_map, List.getElem_range]
  exact bytes i small

theorem packetFrame {ring : Buf} {cur : Nat} {frame : List Byte} (placed : Placed cur)
    (ok : rxStatusOk (status ring cur)) (len : rxLen ring cur = frame.length + 4)
    (high : rxLen ring cur ≤ RTL_RX_BUF_SIZE)
    (bytes : ∀ i (small : i < frame.length), ring ((cur + 4 + i) % RTL_RX_BUF_SIZE) = frame[i]) :
    ∃ f writes, (rtl8139Packet cur).value ring =
      some ⟨some f, writes, advance cur (rxLen ring cur)⟩ ∧ frameBytes f = frame := by
  have low : 4 ≤ rxLen ring cur := by omega
  by_cases fits : cur + 4 + (rxLen ring cur - 4) ≤ RTL_RX_BUF_SIZE
  · refine ⟨_, _, packetWhole low high ok fits, frameBytesEq ?_ fun i small => ?_⟩
    · show rxLen ring cur - 4 = _
      omega
    rw [← bytes i small, Nat.mod_eq_of_lt (by omega)]
    dsimp only
    rw [Net.memcpyIn (by omega) (by omega)]
    congr 1
    omega
  · refine ⟨_, _, packetWrapped low high placed ok (by omega), frameBytesEq ?_ fun i small => ?_⟩
    · show rxLen ring cur - 4 = _
      omega
    obtain ⟨aligned, inside⟩ := placed
    rw [← bytes i small]
    dsimp only
    unfold RTL_RX_BUF_SIZE at *
    by_cases first : i < 8192 - (cur + 4)
    · rw [Net.memcpyOut (by omega), Net.memcpyIn (by omega) (by omega)]
      congr 1
      omega
    · rw [Net.memcpyIn (by omega) (by omega)]
      congr 1
      omega

section loop

variable {nic : Nat → Nic} {start : Nat}

theorem positionEnds {k cur : Nat} (here : position nic start k = some cur)
    (ends : cur = (nic k).cba ∨ rxLen (nic k).ring cur < 4 ∨
      RTL_RX_BUF_SIZE < rxLen (nic k).ring cur) : position nic start (k + 1) = none := by
  unfold position
  rw [here, Option.bind_some]
  split
  · rfl
  · rename_i pending
    rw [packetBogus (ends.resolve_left pending)]
    rfl

theorem positionNext {k cur : Nat} (here : position nic start k = some cur) (placed : Placed cur)
    (pending : cur ≠ (nic k).cba) (low : 4 ≤ rxLen (nic k).ring cur)
    (high : rxLen (nic k).ring cur ≤ RTL_RX_BUF_SIZE) :
    position nic start (k + 1) = some (advance cur (rxLen (nic k).ring cur)) := by
  obtain ⟨packet, value, next⟩ := packetCur low high placed
  unfold position
  rw [here, Option.bind_some, if_neg pending, value, Option.map_some, next]

theorem headerEnds {k at_ : Nat} (here : header nic start k = some at_)
    (ends : at_ = (nic k).cba ∨ rxLen (nic k).ring at_ < 4 ∨
      RTL_RX_BUF_SIZE < rxLen (nic k).ring at_) : header nic start (k + 1) = none := by
  unfold header
  rw [here, Option.bind_some, if_pos ends]

theorem headerNext {k at_ : Nat} (here : header nic start k = some at_)
    (pending : at_ ≠ (nic k).cba) (low : 4 ≤ rxLen (nic k).ring at_)
    (high : rxLen (nic k).ring at_ ≤ RTL_RX_BUF_SIZE) :
    header nic start (k + 1) = some (onward at_ (rxLen (nic k).ring at_)) := by
  unfold header
  rw [here, Option.bind_some, if_neg (by omega)]

theorem positionHeader (placed : ∀ k cur, position nic start k = some cur → Placed cur) (k : Nat) :
    position nic start k = header nic start k := by
  induction k with
  | zero => rfl
  | succ k ih =>
    cases here : position nic start k with
    | none =>
      unfold position header
      rw [← ih, here]
      rfl
    | some cur =>
      have there := ih.symm.trans here
      by_cases ends : cur = (nic k).cba ∨ rxLen (nic k).ring cur < 4 ∨
          RTL_RX_BUF_SIZE < rxLen (nic k).ring cur
      · rw [positionEnds here ends, headerEnds there ends]
      · have next := positionNext here (placed k cur here) (by omega) (by omega) (by omega)
        rw [next, headerNext there (by omega) (by omega) (by omega)]
        rw [(advancePlaced (placed k cur here) (by omega) (by omega)).2 (placed _ _ next)]

variable (begun : Placed start)
include begun

theorem sanePlaced (sane : Sane nic start) (k : Nat) :
    position nic start k = header nic start k ∧
      ∀ cur, position nic start k = some cur → Placed cur := by
  induction k with
  | zero =>
    refine ⟨rfl, fun cur here => ?_⟩
    cases here
    exact begun
  | succ k ih =>
    obtain ⟨same, placed⟩ := ih
    cases here : position nic start k with
    | none =>
      have ended : position nic start (k + 1) = none := by
        unfold position
        rw [here]
        rfl
      refine ⟨?_, fun cur next => nomatch ended.symm.trans next⟩
      rw [ended]
      unfold header
      rw [← same, here]
      rfl
    | some cur =>
      have there := same.symm.trans here
      by_cases ends : cur = (nic k).cba ∨ rxLen (nic k).ring cur < 4 ∨
          RTL_RX_BUF_SIZE < rxLen (nic k).ring cur
      · have ended := positionEnds here ends
        exact ⟨ended.trans (headerEnds there ends).symm, fun _ next => nomatch ended.symm.trans next⟩
      · have low : 4 ≤ rxLen (nic k).ring cur := by omega
        have high : rxLen (nic k).ring cur ≤ RTL_RX_BUF_SIZE := by omega
        have pending : cur ≠ (nic k).cba := by omega
        have next := positionNext here (placed cur here) pending low high
        have moves := advancePlaced (placed cur here) low high
        have placed' := moves.1.mpr (sane k cur there pending low high).2
        refine ⟨?_, fun cur' here' => ?_⟩
        · rw [next, headerNext there pending low high, moves.2 placed']
        · cases next.symm.trans here'
          exact placed'

theorem safeIff : Safe nic start ↔ Sane nic start := by
  constructor
  · intro safe k at_ there pending low high
    have placed : ∀ k cur, position nic start k = some cur → Placed cur :=
      fun k cur here => (safe k cur here).1
    have here := (positionHeader placed k).trans there
    have next := positionNext here (placed k at_ here) pending low high
    refine ⟨?_, ?_⟩
    · exact (turnSafeIff low high rfl (placed k at_ here) pending).mp (safe k at_ here).2
    · exact (advancePlaced (placed k at_ here) low high).1.mp (placed _ _ next)
  · intro sane k cur here
    obtain ⟨same, placed⟩ := sanePlaced begun sane k
    have there := same.symm.trans here
    refine ⟨placed cur here, fun pending => ?_⟩
    by_cases bogus : rxLen (nic k).ring cur < 4 ∨ RTL_RX_BUF_SIZE < rxLen (nic k).ring cur
    · obtain ⟨aligned, inside⟩ := placed cur here
      refine ⟨?_, fun packet value => nomatch (packetBogus bogus).symm.trans value⟩
      unfold rtl8139Packet
      simp only [Peek.withinBind, Peek.withinLe16, Peek.withinIte, Peek.withinPure, rxLenRead]
      rw [if_pos bogus]
      unfold RTL_RX_BUF_SIZE at *
      exact ⟨by omega, by omega, trivial⟩
    · have low : 4 ≤ rxLen (nic k).ring cur := by omega
      have high : rxLen (nic k).ring cur ≤ RTL_RX_BUF_SIZE := by omega
      exact (turnSafeIff low high rfl (placed cur here) pending).mpr
        (sane k cur there pending low high).1 pending

theorem saneDelivers (sane : Sane nic start) : Delivers nic start := by
  intro frames feeds
  suffices along : ∀ (frames : List (List Byte)) (k cur : Nat), header nic start k = some cur →
      Feeds nic k cur frames → ∃ received, rtl8139Receive nic (frames.length + 1) k cur =
        some received ∧ received.frames.map frameBytes = frames by
    obtain ⟨received, ran, same⟩ := along frames 0 start rfl feeds
    exact ⟨_, received, ran, same⟩
  intro frames
  induction frames with
  | nil =>
    intro k cur _ feeds
    exact ⟨⟨cur, [], 0⟩, if_pos feeds, rfl⟩
  | cons frame rest ih =>
    intro k cur there feeds
    obtain ⟨pending, ok, len, fits, bytes, later⟩ := feeds
    have placed : Placed cur := (sanePlaced begun sane k).2 cur ((sanePlaced begun sane k).1.trans there)
    have low : 4 ≤ rxLen (nic k).ring cur := by omega
    have high : rxLen (nic k).ring cur ≤ RTL_RX_BUF_SIZE := by omega
    obtain ⟨f, writes, value, frameIs⟩ := packetFrame placed ok len high bytes
    have moves := advancePlaced placed low high
    have placed' := moves.1.mpr (sane k cur there pending low high).2
    have next : onward cur (frame.length + 4) = advance cur (rxLen (nic k).ring cur) := by
      rw [moves.2 placed', len]
    rw [next] at later
    obtain ⟨received, ran, same⟩ := ih (k + 1) (advance cur (rxLen (nic k).ring cur))
      (by rw [headerNext there pending low high, moves.2 placed']) later
    refine ⟨{ received with frames := f :: received.frames }, ?_, ?_⟩
    · unfold rtl8139Receive
      rw [if_neg pending, value]
      dsimp only
      rw [List.length_cons, ran]
      rfl
    · rw [List.map_cons, frameIs, same]

end loop

/-- From a position that the driver keeps, whatever the ring holds and wherever the NIC
writes, the call is right exactly if the ring is sane. -/
theorem receivesRightIff (nic : Nat → Nic) {start : Nat} (begun : Placed start) :
    ReceivesRight nic start ↔ Sane nic start :=
  ⟨fun right => (safeIff begun).mp right.1, fun sane =>
    ⟨(safeIff begun).mpr sane, saneDelivers begun sane⟩⟩

def jumbo : Nat → Nic := fun _ => ⟨2056, fun o => if o = 0 then 1 else if o = 2 then 5 else
  if o = 3 then 8 else 0⟩

theorem jumboOverruns : ¬ ReceivesRight jumbo 0 := by
  intro right
  have sane := (safeIff ⟨by decide, by decide⟩).mp right.1
  exact absurd ((sane 0 0 rfl (by decide) (by decide) (by decide)).1 (by decide)) (by decide)

def wrapping : Nat → Nic := fun _ => ⟨8, fun o => if o = 8184 then 1 else if o = 8186 then 12 else
  if o = 8188 then 0xaa else if o = 0 then 0xbb else 0⟩

theorem wrappingReceived : Placed 8184 ∧ ReceivesRight wrapping 8184 := by
  refine ⟨⟨by decide, by decide⟩, (receivesRightIff wrapping ⟨by decide, by decide⟩).mpr ?_⟩
  have ended : ∀ k, header wrapping 8184 (k + 2) = none := by
    intro k
    induction k with
    | zero => rfl
    | succ k ih =>
      unfold header
      rw [ih]
      rfl
  intro k at_ there pending low high
  match k with
  | 0 =>
    cases there
    decide
  | 1 =>
    cases there
    exact absurd rfl pending
  | k + 2 => exact nomatch (ended k).symm.trans there

end Scepter.Rtl8139
