import Scepter.Net.Proto
import Scepter.Lib.Links
import Scepter.Lib.Run
import Mathlib.Data.List.Perm.Subperm

/-! The networking core (net/net.c, net/loopback.c): one pool of packet buffers for the
receive queues of all interfaces. Sending on loopback receives the frame again, from
within the call that is still at work on the one before. What a driver says to a frame it
is given comes with the action. `arrived`, `sent` and `taken` are for the statements only. -/
namespace Scepter.Net
open Links

def NET_POOL_SIZE : Nat := 48

/-- The counters have 32 bits. -/
def counter (n : Nat) : Nat := n % 2 ^ 32

structure Stats where
  rxPackets : Nat
  txPackets : Nat
  rxBytes : Nat
  txBytes : Nat
  rxDropped : Nat
  txDropped : Nat
  deriving DecidableEq

def Stats.zero : Stats := ⟨0, 0, 0, 0, 0, 0⟩

structure NetIface where
  conf : Iface
  stats : Stats
  rxHead : Option Nat
  rxTail : Option Nat
  rxCount : Nat

structure Pkt where
  next : Option Nat
  iface : Nat
  len : Nat
  data : Buf

def bytesIn (data : Buf) (len : Nat) : List Byte := (List.range len).map data

inductive Fate where
  | refused | answered | queued | dropped
  deriving DecidableEq

inductive Sending where
  | refused | failed | passed
  deriving DecidableEq

structure State where
  pool : Nat → Pkt
  poolFree : Option Nat
  ifaces : Nat → NetIface
  arrived : Nat → List (List Byte × Fate)
  sent : Nat → List (List Byte × Sending)
  -- the size of the buffer and what was put into it
  taken : Nat → List (Nat × List Byte)

def State.setIface (s : State) (i : Nat) (iface : NetIface) : State :=
  {s with ifaces := Function.update s.ifaces i iface}

def State.setPkt (s : State) (p : Nat) (pkt : Pkt) : State :=
  {s with pool := Function.update s.pool p pkt}

def State.setStats (s : State) (i : Nat) (stats : Stats) : State :=
  s.setIface i {s.ifaces i with stats := stats}

def State.meets (s : State) (i : Nat) (f : Frame) (fate : Fate) : State :=
  {s with arrived := Function.update s.arrived i (s.arrived i ++ [(bytesIn f.data f.len, fate)])}

def State.sends (s : State) (i : Nat) (f : Frame) (how : Sending) : State :=
  {s with sent := Function.update s.sent i (s.sent i ++ [(bytesIn f.data f.len, how)])}

def State.hands (s : State) (i buflen : Nat) (bytes : List Byte) : State :=
  {s with taken := Function.update s.taken i (s.taken i ++ [(buflen, bytes)])}

def poolGet (s : State) : Option Nat × State := match s.poolFree with
  | none => (none, s)
  | some p => (some p, {s with poolFree := (s.pool p).next})

def poolPut (s : State) (p : Nat) : State :=
  {s.setPkt p {s.pool p with next := s.poolFree} with poolFree := some p}

def countRx (s : State) (i len : Nat) : State :=
  let stats := (s.ifaces i).stats
  s.setStats i {stats with
    rxPackets := counter (stats.rxPackets + 1), rxBytes := counter (stats.rxBytes + len)}

def countTx (s : State) (i len : Nat) : State :=
  let stats := (s.ifaces i).stats
  s.setStats i {stats with
    txPackets := counter (stats.txPackets + 1), txBytes := counter (stats.txBytes + len)}

def dropRx (s : State) (i : Nat) : State :=
  let stats := (s.ifaces i).stats
  s.setStats i {stats with rxDropped := counter (stats.rxDropped + 1)}

def dropTx (s : State) (i : Nat) : State :=
  let stats := (s.ifaces i).stats
  s.setStats i {stats with txDropped := counter (stats.txDropped + 1)}

def queueFrame (s : State) (i : Nat) (f : Frame) : State := match poolGet s with
  | (none, s) => (dropRx s i).meets i f .dropped
  | (some p, s) =>
    let s := s.setPkt p ⟨none, i, f.len, memcpy (s.pool p).data 0 f.data 0 f.len⟩
    let iface := s.ifaces i
    let s := match iface.rxTail with
      | some t => (s.setPkt t {s.pool t with next := some p}).setIface i
          {iface with rxTail := some p, rxCount := counter (iface.rxCount + 1)}
      | none => s.setIface i
          {iface with rxHead := some p, rxTail := some p, rxCount := counter (iface.rxCount + 1)}
    s.meets i f .queued

def transmitBy (rx : State → Frame → Option State) (s : State) (i : Nat) (f : Frame)
    (took : Bool) : Option State :=
  match netTransmit (s.ifaces i).conf f with
  | none => some (s.sends i f .refused)
  | some f => match (s.ifaces i).conf.type with
    | .loopback => (rx (s.sends i f .passed) f).map fun s => countTx s i f.len
    | .ethernet => if took then some (countTx (s.sends i f .passed) i f.len)
        else some (dropTx (s.sends i f .failed) i)

def netRx : Nat → State → Nat → Frame → Bool → Option State
  | 0, _, _, _, _ => none
  | fuel + 1, s, i, f, took =>
    if f.len = 0 ∨ NET_MAX_FRAME < f.len then some (s.meets i f .refused)
    else match (netProtoRx (s.ifaces i).conf f.len).value f.data with
      | some reply => transmitBy (fun s g => netRx fuel s i g took)
          ((countRx s i f.len).meets i f .answered) i reply took
      | none => some (queueFrame (countRx s i f.len) i f)

def netRecv (s : State) (i buflen : Nat) : State := match (s.ifaces i).rxHead with
  | none => s
  | some p =>
    let pkt := s.pool p
    let iface : NetIface := {s.ifaces i with rxHead := pkt.next}
    let iface := if iface.rxHead = none then {iface with rxTail := none} else iface
    let s := s.setIface i {iface with rxCount := counter (iface.rxCount + (2 ^ 32 - 1))}
    let n := if pkt.len < buflen then pkt.len else buflen
    poolPut (s.hands i buflen (bytesIn pkt.data n)) p

def netSetIp (s : State) (i : Nat) (ip : Buf) : State :=
  let iface := s.ifaces i
  s.setIface i {iface with conf := {iface.conf with ip := ip}}

inductive Action where
  | rx (i : Nat) (f : Frame) (took : Bool)
  | transmit (i : Nat) (f : Frame) (took : Bool)
  | recv (i buflen : Nat)
  | setIp (i : Nat) (ip : Buf)

def step (fuel : Nat) (s : State) : Action → Option State
  | .rx i f took => netRx fuel s i f took
  | .transmit i f took => transmitBy (fun s g => netRx fuel s i g took) s i f took
  | .recv i buflen => some (netRecv s i buflen)
  | .setIp i ip => some (netSetIp s i ip)

def poolInit (s : State) : State := (List.range NET_POOL_SIZE).foldl poolPut s

def booted (confs : Nat → Iface) : State :=
  poolInit ⟨fun _ => ⟨none, 0, 0, Buf.zero⟩, none, fun i => ⟨confs i, Stats.zero, none, none, 0⟩,
    fun _ => [], fun _ => [], fun _ => []⟩

/-! ## The pool and the queues -/

def State.next (s : State) (p : Nat) : Option Nat := (s.pool p).next

def State.held (s : State) (p : Nat) : List Byte := bytesIn (s.pool p).data (s.pool p).len

structure Pooled (s : State) (rows : Option Nat → List Nat) : Prop where
  dealt : Dealt (· < NET_POOL_SIZE) rows
  free : Chain s.next s.poolFree (rows none)
  queue : ∀ i, Chain s.next (s.ifaces i).rxHead (rows (some i))
  tail : ∀ i, (s.ifaces i).rxTail = (rows (some i)).getLast?
  count : ∀ i, (s.ifaces i).rxCount = (rows (some i)).length

def marked {κ : Type} [DecidableEq κ] (k : κ) (xs : List (List Byte × κ)) : List (List Byte) :=
  xs.filterMap fun x => if x.2 = k then some x.1 else none

/-- What was queued is what was handed out, cut to the buffers it went into, and then what
is still queued; what was dropped or not taken by a driver is counted. -/
structure Handed (s : State) (rows : Option Nat → List Nat) : Prop where
  order : ∀ i, ∃ out, marked .queued (s.arrived i) = out ++ (rows (some i)).map s.held ∧
    List.Forall₂ (fun taken frame => taken.2 = frame.take taken.1) (s.taken i) out
  dropped : ∀ i, (s.ifaces i).stats.rxDropped = counter (marked .dropped (s.arrived i)).length
  failed : ∀ i, (s.ifaces i).stats.txDropped = counter (marked .failed (s.sent i)).length
  refused : ∀ i, ∀ bytes ∈ marked .refused (s.arrived i),
    bytes.length = 0 ∨ NET_MAX_FRAME < bytes.length

def Kept (s : State) : Prop := ∃ rows, Pooled s rows ∧ Handed s rows

section records

variable {κ : Type} [DecidableEq κ]

@[simp] theorem markedNil (k : κ) : marked k [] = [] := rfl

@[simp] theorem markedSnoc (k : κ) (xs : List (List Byte × κ)) (bytes : List Byte) (how : κ) :
    marked k (xs ++ [(bytes, how)]) = marked k xs ++ if how = k then [bytes] else [] := by
  unfold marked
  rw [List.filterMap_append]
  congr 1
  by_cases same : how = k <;> simp [same]

end records

@[simp] theorem bytesInLength (data : Buf) (len : Nat) : (bytesIn data len).length = len := by
  simp [bytesIn]

theorem bytesInTake (data : Buf) (len n : Nat) :
    bytesIn data (if len < n then len else n) = (bytesIn data len).take n := by
  unfold bytesIn
  rw [← List.map_take, List.take_range]
  congr 2
  split <;> omega

theorem bytesInCongr {a b : Buf} {len : Nat} (same : ∀ i < len, a i = b i) :
    bytesIn a len = bytesIn b len :=
  List.map_congr_left fun i member => same i (List.mem_range.mp member)

section pool

variable {s t : State} {rows : Option Nat → List Nat} {i : Nat}

@[simp] theorem nextSetPkt (s : State) (p : Nat) (pkt : Pkt) :
    (s.setPkt p pkt).next = Function.update s.next p pkt.next := by
  funext q
  unfold State.next State.setPkt
  by_cases same : q = p
  · subst same
    simp
  · simp [same]

theorem heldSetPkt {p q : Nat} (pkt : Pkt) (differ : q ≠ p) : (s.setPkt p pkt).held q = s.held q := by
  unfold State.held State.setPkt
  dsimp only
  rw [Function.update_of_ne differ]

theorem Pooled.same (pooled : Pooled s rows) (next : t.next = s.next)
    (free : t.poolFree = s.poolFree) (faces : ∀ i, (t.ifaces i).rxHead = (s.ifaces i).rxHead ∧
      (t.ifaces i).rxTail = (s.ifaces i).rxTail ∧ (t.ifaces i).rxCount = (s.ifaces i).rxCount) :
    Pooled t rows where
  dealt := pooled.dealt
  free := by
    rw [next, free]
    exact pooled.free
  queue i := by
    rw [next, (faces i).1]
    exact pooled.queue i
  tail i := (faces i).2.1.trans (pooled.tail i)
  count i := (faces i).2.2.trans (pooled.count i)

theorem Pooled.short (pooled : Pooled s rows) (place : Option Nat) :
    (rows place).length ≤ NET_POOL_SIZE := by
  have subset : rows place ⊆ List.range NET_POOL_SIZE := fun p member =>
    List.mem_range.mpr ((pooled.dealt.all p).mpr ⟨place, member⟩)
  have := ((pooled.dealt.once place).subperm subset).length_le
  rwa [List.length_range] at this

@[simp] theorem heldRelink (p : Nat) (next : Option Nat) :
    (s.setPkt p {s.pool p with next := next}).held = s.held := by
  funext q
  by_cases same : q = p
  · subst same
    simp [State.held, State.setPkt]
  · exact heldSetPkt _ same

def relinked (next : Nat → Option Nat) (tail : Option Nat) (p : Nat) : Nat → Option Nat :=
  match tail with
  | some t => Function.update (Function.update next p none) t (some p)
  | none => Function.update next p none

structure Queued (s : State) (i : Nat) (f : Frame) (p : Nat) (t : State) : Prop where
  free : t.poolFree = s.next p
  next : t.next = relinked s.next (s.ifaces i).rxTail p
  ifaces : t.ifaces = Function.update s.ifaces i {s.ifaces i with
    rxHead := if (s.ifaces i).rxTail = none then some p else (s.ifaces i).rxHead,
    rxTail := some p, rxCount := counter ((s.ifaces i).rxCount + 1)}
  arrived : t.arrived =
    Function.update s.arrived i (s.arrived i ++ [(bytesIn f.data f.len, .queued)])
  sent : t.sent = s.sent
  taken : t.taken = s.taken
  new : t.held p = bytesIn f.data f.len
  others : ∀ q, q ≠ p → t.held q = s.held q

theorem queueFrameSome {p : Nat} (free : s.poolFree = some p) (f : Frame) :
    Queued s i f p (queueFrame s i f) := by
  have copied : bytesIn (memcpy (s.pool p).data 0 f.data 0 f.len) f.len = bytesIn f.data f.len := by
    refine bytesInCongr fun k small => ?_
    rw [memcpyIn (by omega) (by omega)]
    congr 1
    omega
  unfold queueFrame poolGet
  rw [free]
  dsimp only
  generalize s' : ({s with poolFree := (s.pool p).next} : State).setPkt p
    ⟨none, i, f.len, memcpy (s.pool p).data 0 f.data 0 f.len⟩ = mid
  have next : mid.next = Function.update s.next p none := by
    rw [← s', nextSetPkt]
    rfl
  have faces : mid.ifaces = s.ifaces := by
    rw [← s']
    rfl
  have held : ∀ q, mid.held q = if q = p then bytesIn f.data f.len else s.held q := by
    intro q
    rw [← s']
    split
    · rename_i same
      subst same
      simp only [State.held, State.setPkt, Function.update_self]
      exact copied
    · rename_i differ
      exact heldSetPkt _ differ
  rw [faces]
  have left : mid.poolFree = s.next p ∧ mid.arrived = s.arrived ∧ mid.sent = s.sent ∧
      mid.taken = s.taken := by
    rw [← s']
    exact ⟨rfl, rfl, rfl, rfl⟩
  cases tail : (s.ifaces i).rxTail with
  | none =>
    refine ⟨left.1, ?_, ?_, ?_, left.2.2.1, left.2.2.2, ?_, fun q differ => ?_⟩
    · show mid.next = _
      rw [next, tail]
      rfl
    · show Function.update mid.ifaces i _ = _
      rw [faces, if_pos tail]
    · show Function.update mid.arrived i (mid.arrived i ++ _) = _
      rw [left.2.1]
    · exact (held p).trans (if_pos rfl)
    · exact (held q).trans (if_neg differ)
  | some q =>
    refine ⟨left.1, ?_, ?_, ?_, left.2.2.1, left.2.2.2, ?_, fun q' differ => ?_⟩
    · show (mid.setPkt q _).next = _
      rw [nextSetPkt, next, tail]
      rfl
    · show Function.update mid.ifaces i _ = _
      rw [faces, if_neg (by rw [tail]; exact nofun)]
    · show Function.update mid.arrived i (mid.arrived i ++ _) = _
      rw [left.2.1]
    · show (mid.setPkt q _).held p = _
      rw [heldRelink]
      exact (held p).trans (if_pos rfl)
    · show (mid.setPkt q _).held q' = _
      rw [heldRelink]
      exact (held q').trans (if_neg differ)

theorem queueFramePooled (pooled : Pooled s rows) {p : Nat} {rest : List Nat} {f : Frame}
    (here : rows none = p :: rest) (queued : Queued s i f p t) :
    Pooled t (Function.update (Function.update rows none rest) (some i) (rows (some i) ++ [p])) := by
  have fits := pooled.short (some i)
  have onceFree := List.nodup_cons.mp (here ▸ pooled.dealt.once none)
  have notQueued : ∀ j, p ∉ rows (some j) := fun j inJ =>
    nomatch pooled.dealt.apart none (some j) p (by simp [here]) inJ
  have free := here ▸ pooled.free
  have untouched : ∀ q, q ≠ p → (s.ifaces i).rxTail ≠ some q → t.next q = s.next q := by
    intro q differ notTail
    rw [queued.next]
    unfold relinked
    cases tail : (s.ifaces i).rxTail with
    | none => exact Function.update_of_ne differ _ _
    | some r =>
      have differ' : q ≠ r := fun same => notTail (by rw [tail, same])
      dsimp only
      rw [Function.update_of_ne differ', Function.update_of_ne differ]
  have tailQueued : ∀ q, (s.ifaces i).rxTail = some q → q ∈ rows (some i) := fun q tail =>
    List.mem_of_getLast? ((pooled.tail i).symm.trans tail)
  refine ⟨pooled.dealt.move here nofun ?_, ?_, fun j => ?_, fun j => ?_, fun j => ?_⟩
  · exact List.perm_append_singleton p (rows (some i))
  · rw [Function.update_of_ne (Option.some_ne_none i).symm, Function.update_self, queued.free]
    refine chainCongr (fun q member => untouched q ?_ fun tail => ?_) free.2
    · rintro rfl
      exact onceFree.1 member
    · exact nomatch pooled.dealt.apart none (some i) q (by simp [here, member]) (tailQueued q tail)
  · rw [queued.ifaces]
    by_cases same : j = i
    · subst same
      rw [Function.update_self, Function.update_self, queued.next]
      cases tail : (s.ifaces j).rxTail with
      | none =>
        have empty : rows (some j) = [] := List.getLast?_eq_none_iff.mp ((pooled.tail j).symm.trans tail)
        rw [empty]
        exact ⟨rfl, Function.update_self _ _ _⟩
      | some q =>
        exact chainAppend (pooled.queue j) (pooled.dealt.once _) ((pooled.tail j).symm.trans tail)
          (notQueued j)
    · rw [Function.update_of_ne same, Function.update_of_ne (by simpa using same),
        Function.update_of_ne (Option.some_ne_none j)]
      refine chainCongr (fun q member => untouched q ?_ fun tail => ?_) (pooled.queue j)
      · rintro rfl
        exact notQueued j member
      · exact same (Option.some.inj (pooled.dealt.apart _ _ q member (tailQueued q tail)))
  · rw [queued.ifaces]
    by_cases same : j = i
    · subst same
      rw [Function.update_self, Function.update_self]
      simp
    · rw [Function.update_of_ne same, Function.update_of_ne (by simpa using same),
        Function.update_of_ne (Option.some_ne_none j)]
      exact pooled.tail j
  · rw [queued.ifaces]
    by_cases same : j = i
    · subst same
      rw [Function.update_self, Function.update_self, List.length_append, List.length_singleton]
      show counter ((s.ifaces j).rxCount + 1) = _
      rw [pooled.count j]
      unfold counter NET_POOL_SIZE at *
      omega
    · rw [Function.update_of_ne same, Function.update_of_ne (by simpa using same),
        Function.update_of_ne (Option.some_ne_none j)]
      exact pooled.count j

theorem markedUpdate {κ : Type} [DecidableEq κ] (k how : κ) (log : Nat → List (List Byte × κ))
    (i j : Nat) (bytes : List Byte) :
    marked k (Function.update log i (log i ++ [(bytes, how)]) j) =
      marked k (log j) ++ if j = i ∧ how = k then [bytes] else [] := by
  by_cases same : j = i
  · subst same
    simp
  · simp [same]

theorem queueFrameHanded (pooled : Pooled s rows) (handed : Handed s rows) {p : Nat}
    {rest : List Nat} {f : Frame} (here : rows none = p :: rest) (queued : Queued s i f p t) :
    Handed t (Function.update (Function.update rows none rest) (some i) (rows (some i) ++ [p])) := by
  have notQueued : ∀ j, p ∉ rows (some j) := fun j inJ =>
    nomatch pooled.dealt.apart none (some j) p (by simp [here]) inJ
  have still : ∀ j, (rows (some j)).map t.held = (rows (some j)).map s.held := fun j =>
    List.map_congr_left fun q member => queued.others q fun same => notQueued j (same ▸ member)
  have stats : ∀ j, (t.ifaces j).stats = (s.ifaces j).stats := by
    intro j
    rw [queued.ifaces]
    by_cases same : j = i
    · subst same
      rw [Function.update_self]
    · rw [Function.update_of_ne same]
  refine ⟨fun j => ?_, fun j => ?_, fun j => ?_, fun j => ?_⟩
  · obtain ⟨out, order, cut⟩ := handed.order j
    refine ⟨out, ?_, by rw [queued.taken]; exact cut⟩
    rw [queued.arrived, markedUpdate, order, List.append_assoc]
    congr 1
    by_cases same : j = i
    · subst same
      rw [Function.update_self, List.map_append, still, if_pos ⟨rfl, rfl⟩, List.map_singleton,
        queued.new]
    · rw [Function.update_of_ne (by simpa using same), Function.update_of_ne (Option.some_ne_none j),
        still, if_neg fun both => same both.1, List.append_nil]
  · rw [stats, queued.arrived, markedUpdate, if_neg nofun, List.append_nil]
    exact handed.dropped j
  · rw [stats, queued.sent]
    exact handed.failed j
  · rw [queued.arrived, markedUpdate, if_neg nofun, List.append_nil]
    exact handed.refused j

structure Received (s : State) (i buflen p : Nat) (t : State) : Prop where
  free : t.poolFree = some p
  next : t.next = Function.update s.next p s.poolFree
  ifaces : t.ifaces = Function.update s.ifaces i {s.ifaces i with
    rxHead := s.next p, rxTail := if s.next p = none then none else (s.ifaces i).rxTail,
    rxCount := counter ((s.ifaces i).rxCount + (2 ^ 32 - 1))}
  arrived : t.arrived = s.arrived
  sent : t.sent = s.sent
  taken : t.taken = Function.update s.taken i (s.taken i ++ [(buflen, (s.held p).take buflen)])
  held : t.held = s.held

theorem netRecvSome {p : Nat} (head : (s.ifaces i).rxHead = some p) (buflen : Nat) :
    Received s i buflen p (netRecv s i buflen) := by
  unfold netRecv
  rw [head]
  dsimp only
  refine ⟨rfl, ?_, ?_, rfl, rfl, ?_, ?_⟩
  · exact nextSetPkt _ p _
  · show Function.update s.ifaces i _ = _
    congr 1
    unfold State.next
    split <;> rfl
  · show Function.update s.taken i (s.taken i ++ [(buflen, bytesIn (s.pool p).data _)]) = _
    rw [bytesInTake]
    rfl
  · exact heldRelink p _

theorem netRecvPooled (pooled : Pooled s rows) {p buflen : Nat} {rest : List Nat}
    (here : rows (some i) = p :: rest) (received : Received s i buflen p t) :
    Pooled t (Function.update (Function.update rows (some i) rest) none (p :: rows none)) := by
  have fits := pooled.short (some i)
  have once := List.nodup_cons.mp (here ▸ pooled.dealt.once (some i))
  have notIn : ∀ j, j ≠ some i → p ∉ rows j := fun j differ inJ =>
    differ (pooled.dealt.apart j (some i) p inJ (by simp [here]))
  have queue := here ▸ pooled.queue i
  have tail := here ▸ pooled.tail i
  have untouched : ∀ q, q ≠ p → t.next q = s.next q := fun q differ => by
    rw [received.next, Function.update_of_ne differ]
  refine ⟨pooled.dealt.move here (Option.some_ne_none i) (List.Perm.refl _), ?_, fun j => ?_,
    fun j => ?_, fun j => ?_⟩
  · rw [Function.update_self, received.free, received.next]
    exact chainPush pooled.free (notIn none (Option.some_ne_none i).symm)
  · rw [Function.update_of_ne (Option.some_ne_none j), received.ifaces]
    by_cases same : j = i
    · subst same
      rw [Function.update_self, Function.update_self]
      exact chainCongr (fun q member => untouched q fun same => once.1 (same ▸ member)) queue.2
    · have differ : some j ≠ some i := by simpa using same
      rw [Function.update_of_ne same, Function.update_of_ne differ]
      exact chainCongr (fun q member => untouched q fun same' => notIn _ differ (same' ▸ member))
        (pooled.queue j)
  · rw [Function.update_of_ne (Option.some_ne_none j), received.ifaces]
    by_cases same : j = i
    · subst same
      rw [Function.update_self, Function.update_self]
      show (if s.next p = none then none else (s.ifaces j).rxTail) = _
      have later := queue.2
      cases next : s.next p with
      | none =>
        rw [next] at later
        rw [chainNone later, if_pos rfl]
        rfl
      | some q =>
        rw [next] at later
        obtain ⟨more, shape, _⟩ := chainSome later
        rw [if_neg nofun, tail, shape, List.getLast?_cons_cons]
    · have differ : some j ≠ some i := by simpa using same
      rw [Function.update_of_ne same, Function.update_of_ne differ]
      exact pooled.tail j
  · rw [Function.update_of_ne (Option.some_ne_none j), received.ifaces]
    by_cases same : j = i
    · subst same
      rw [Function.update_self, Function.update_self]
      show counter ((s.ifaces j).rxCount + (2 ^ 32 - 1)) = _
      rw [pooled.count j]
      rw [here, List.length_cons] at *
      unfold counter NET_POOL_SIZE at *
      omega
    · have differ : some j ≠ some i := by simpa using same
      rw [Function.update_of_ne same, Function.update_of_ne differ]
      exact pooled.count j

theorem netRecvHanded (handed : Handed s rows) {p buflen : Nat} {rest : List Nat}
    (here : rows (some i) = p :: rest) (received : Received s i buflen p t) :
    Handed t (Function.update (Function.update rows (some i) rest) none (p :: rows none)) := by
  have stats : ∀ j, (t.ifaces j).stats = (s.ifaces j).stats := by
    intro j
    rw [received.ifaces]
    by_cases same : j = i
    · subst same
      rw [Function.update_self]
    · rw [Function.update_of_ne same]
  refine ⟨fun j => ?_, fun j => ?_, fun j => ?_, fun j => ?_⟩
  · obtain ⟨out, order, cut⟩ := handed.order j
    rw [Function.update_of_ne (Option.some_ne_none j), received.arrived, received.taken,
      received.held]
    by_cases same : j = i
    · subst same
      refine ⟨out ++ [s.held p], ?_, ?_⟩
      · rw [order, here, Function.update_self, List.map_cons, List.append_assoc,
          List.singleton_append]
      · rw [Function.update_self]
        exact List.rel_append cut (.cons rfl .nil)
    · have differ : some j ≠ some i := by simpa using same
      rw [Function.update_of_ne same, Function.update_of_ne differ]
      exact ⟨out, order, cut⟩
  · rw [stats, received.arrived]
    exact handed.dropped j
  · rw [stats, received.sent]
    exact handed.failed j
  · rw [received.arrived]
    exact handed.refused j

structure Noted (s t : State) : Prop where
  next : t.next = s.next
  free : t.poolFree = s.poolFree
  faces : ∀ i, (t.ifaces i).rxHead = (s.ifaces i).rxHead ∧
    (t.ifaces i).rxTail = (s.ifaces i).rxTail ∧ (t.ifaces i).rxCount = (s.ifaces i).rxCount
  held : t.held = s.held
  taken : t.taken = s.taken

theorem setStatsNoted (s : State) (i : Nat) (stats : Stats) : Noted s (s.setStats i stats) := by
  refine ⟨rfl, rfl, fun j => ?_, rfl, rfl⟩
  unfold State.setStats State.setIface
  by_cases same : j = i
  · subst same
    simp
  · simp [same]

theorem Noted.trans {u : State} (first : Noted s t) (second : Noted t u) : Noted s u :=
  ⟨second.next.trans first.next, second.free.trans first.free, fun i =>
    ⟨(second.faces i).1.trans (first.faces i).1, (second.faces i).2.1.trans (first.faces i).2.1,
      (second.faces i).2.2.trans (first.faces i).2.2⟩, second.held.trans first.held,
    second.taken.trans first.taken⟩

theorem Kept.noted (kept : Kept s) (noted : Noted s t)
    (queued : ∀ i, marked .queued (t.arrived i) = marked .queued (s.arrived i))
    (dropped : ∀ i, (t.ifaces i).stats.rxDropped = counter (marked .dropped (t.arrived i)).length)
    (failed : ∀ i, (t.ifaces i).stats.txDropped = counter (marked .failed (t.sent i)).length)
    (refused : ∀ i, ∀ bytes ∈ marked .refused (t.arrived i),
      bytes.length = 0 ∨ NET_MAX_FRAME < bytes.length) : Kept t := by
  obtain ⟨rows, pooled, handed⟩ := kept
  refine ⟨rows, pooled.same noted.next noted.free noted.faces, fun i => ?_, dropped, failed, refused⟩
  rw [queued, noted.held, noted.taken]
  exact handed.order i

theorem statsSet (s : State) (i j : Nat) (stats : Stats) :
    ((s.setStats i stats).ifaces j).stats = if j = i then stats else (s.ifaces j).stats := by
  unfold State.setStats State.setIface
  by_cases same : j = i
  · subst same
    simp
  · simp [same]

theorem Handed.dropSame (handed : Handed s rows) {stats : Stats}
    (same : stats.rxDropped = (s.ifaces i).stats.rxDropped ∧
      stats.txDropped = (s.ifaces i).stats.txDropped) (j : Nat) :
    ((s.setStats i stats).ifaces j).stats.rxDropped = counter (marked .dropped (s.arrived j)).length ∧
      ((s.setStats i stats).ifaces j).stats.txDropped = counter (marked .failed (s.sent j)).length := by
  rw [statsSet]
  split
  · rename_i here
    subst here
    exact ⟨same.1.trans (handed.dropped j), same.2.trans (handed.failed j)⟩
  · exact ⟨handed.dropped j, handed.failed j⟩

theorem Kept.counted (kept : Kept s) {stats : Stats}
    (same : stats.rxDropped = (s.ifaces i).stats.rxDropped ∧
      stats.txDropped = (s.ifaces i).stats.txDropped) : Kept (s.setStats i stats) := by
  have ⟨rows, _, handed⟩ := kept
  exact kept.noted (setStatsNoted s i stats) (fun _ => rfl) (fun j => (handed.dropSame same j).1)
    (fun j => (handed.dropSame same j).2) handed.refused

theorem Kept.countRx (kept : Kept s) (i len : Nat) : Kept (countRx s i len) :=
  kept.counted ⟨rfl, rfl⟩

theorem Kept.countTx (kept : Kept s) (i len : Nat) : Kept (countTx s i len) :=
  kept.counted ⟨rfl, rfl⟩

theorem Kept.answered (kept : Kept s) (i : Nat) (f : Frame) : Kept (s.meets i f .answered) := by
  have ⟨rows, _, handed⟩ := kept
  have same : ∀ (k : Fate) (_ : k ≠ .answered) j,
      marked k ((s.meets i f .answered).arrived j) = marked k (s.arrived j) := by
    intro k differ j
    unfold State.meets
    dsimp only
    rw [markedUpdate, if_neg fun both => differ both.2.symm, List.append_nil]
  refine kept.noted ⟨rfl, rfl, fun _ => ⟨rfl, rfl, rfl⟩, rfl, rfl⟩ (same .queued nofun) (fun j => ?_)
    handed.failed fun j => ?_
  · rw [same .dropped nofun]
    exact handed.dropped j
  · rw [same .refused nofun]
    exact handed.refused j

theorem Kept.refused (kept : Kept s) (i : Nat) {f : Frame} (bad : f.len = 0 ∨ NET_MAX_FRAME < f.len) :
    Kept (s.meets i f .refused) := by
  have ⟨rows, _, handed⟩ := kept
  refine kept.noted ⟨rfl, rfl, fun _ => ⟨rfl, rfl, rfl⟩, rfl, rfl⟩ (fun j => ?_) (fun j => ?_)
    handed.failed fun j => ?_
  all_goals
    unfold State.meets
    dsimp only
    rw [markedUpdate]
  · rw [if_neg nofun, List.append_nil]
  · rw [if_neg nofun, List.append_nil]
    exact handed.dropped j
  · intro bytes member
    rcases List.mem_append.mp member with old | new
    · exact handed.refused j bytes old
    · split at new
      · rw [List.mem_singleton.mp new, bytesInLength]
        exact bad
      · exact nomatch new

theorem Kept.dropped (kept : Kept s) (i : Nat) (f : Frame) :
    Kept ((dropRx s i).meets i f .dropped) := by
  have ⟨rows, _, handed⟩ := kept
  have noted : Noted s ((dropRx s i).meets i f .dropped) :=
    (setStatsNoted s i _).trans ⟨rfl, rfl, fun _ => ⟨rfl, rfl, rfl⟩, rfl, rfl⟩
  have marks : ∀ k j, marked k (((dropRx s i).meets i f .dropped).arrived j) =
      marked k (s.arrived j) ++ if j = i ∧ Fate.dropped = k then [bytesIn f.data f.len] else [] :=
    fun k j => markedUpdate k .dropped s.arrived i j _
  refine kept.noted noted (fun j => ?_) (fun j => ?_) (fun j => ?_) fun j => ?_
  · rw [marks, if_neg nofun, List.append_nil]
  · rw [marks]
    show ((s.setStats i _).ifaces j).stats.rxDropped = _
    rw [statsSet]
    by_cases same : j = i
    · subst same
      rw [if_pos rfl, if_pos ⟨rfl, rfl⟩, List.length_append, List.length_singleton]
      show counter ((s.ifaces j).stats.rxDropped + 1) = _
      rw [handed.dropped j]
      unfold counter
      omega
    · rw [if_neg same, if_neg fun both => same both.1, List.append_nil]
      exact handed.dropped j
  · show ((s.setStats i _).ifaces j).stats.txDropped = counter (marked .failed (s.sent j)).length
    rw [statsSet]
    split
    · rename_i same
      subst same
      exact handed.failed j
    · exact handed.failed j
  · rw [marks, if_neg nofun, List.append_nil]
    exact handed.refused j

theorem Kept.sends (kept : Kept s) (i : Nat) (f : Frame) {how : Sending} (fine : how ≠ .failed) :
    Kept (s.sends i f how) := by
  have ⟨rows, _, handed⟩ := kept
  refine kept.noted ⟨rfl, rfl, fun _ => ⟨rfl, rfl, rfl⟩, rfl, rfl⟩ (fun _ => rfl) handed.dropped
    (fun j => ?_) handed.refused
  unfold State.sends
  dsimp only
  rw [markedUpdate, if_neg fun both => fine both.2, List.append_nil]
  exact handed.failed j

theorem Kept.failed (kept : Kept s) (i : Nat) (f : Frame) :
    Kept (dropTx (s.sends i f .failed) i) := by
  have ⟨rows, _, handed⟩ := kept
  have noted : Noted s (dropTx (s.sends i f .failed) i) :=
    Noted.trans (t := s.sends i f .failed) ⟨rfl, rfl, fun _ => ⟨rfl, rfl, rfl⟩, rfl, rfl⟩
      (setStatsNoted _ i _)
  refine kept.noted noted (fun _ => rfl) (fun j => ?_) (fun j => ?_) handed.refused
  · show (((s.sends i f .failed).setStats i _).ifaces j).stats.rxDropped =
      counter (marked .dropped (s.arrived j)).length
    rw [statsSet]
    split
    · rename_i same
      subst same
      exact handed.dropped j
    · exact handed.dropped j
  · show (((s.sends i f .failed).setStats i _).ifaces j).stats.txDropped =
      counter (marked .failed (Function.update s.sent i _ j)).length
    rw [statsSet, markedUpdate]
    by_cases same : j = i
    · subst same
      rw [if_pos rfl, if_pos ⟨rfl, rfl⟩, List.length_append, List.length_singleton]
      show counter ((s.ifaces j).stats.txDropped + 1) = _
      rw [handed.failed j]
      unfold counter
      omega
    · rw [if_neg same, if_neg fun both => same both.1, List.append_nil]
      exact handed.failed j

theorem Kept.queueFrame (kept : Kept s) (i : Nat) (f : Frame) : Kept (queueFrame s i f) := by
  have ⟨rows, pooled, handed⟩ := kept
  cases free : s.poolFree with
  | none =>
    have dropped : Net.queueFrame s i f = (dropRx s i).meets i f .dropped := by
      unfold Net.queueFrame poolGet
      rw [free]
    rw [dropped]
    exact kept.dropped i f
  | some p =>
    have chain := pooled.free
    rw [free] at chain
    obtain ⟨rest, here, _⟩ := chainSome chain
    have queued := queueFrameSome (i := i) free f
    exact ⟨_, queueFramePooled pooled here queued, queueFrameHanded pooled handed here queued⟩

theorem Kept.recv (kept : Kept s) (i buflen : Nat) : Kept (netRecv s i buflen) := by
  have ⟨rows, pooled, handed⟩ := kept
  cases head : (s.ifaces i).rxHead with
  | none =>
    unfold netRecv
    rw [head]
    exact kept
  | some p =>
    have chain := pooled.queue i
    rw [head] at chain
    obtain ⟨rest, here, _⟩ := chainSome chain
    have received := netRecvSome head buflen
    exact ⟨_, netRecvPooled pooled here received, netRecvHanded handed here received⟩

theorem Kept.setIp (kept : Kept s) (i : Nat) (ip : Buf) : Kept (netSetIp s i ip) := by
  have ⟨rows, pooled, handed⟩ := kept
  have face : ∀ j, ((netSetIp s i ip).ifaces j).rxHead = (s.ifaces j).rxHead ∧
      ((netSetIp s i ip).ifaces j).rxTail = (s.ifaces j).rxTail ∧
      ((netSetIp s i ip).ifaces j).rxCount = (s.ifaces j).rxCount ∧
      ((netSetIp s i ip).ifaces j).stats = (s.ifaces j).stats := by
    intro j
    unfold netSetIp State.setIface
    by_cases same : j = i
    · subst same
      simp
    · simp [same]
  refine kept.noted ⟨rfl, rfl, fun j => ⟨(face j).1, (face j).2.1, (face j).2.2.1⟩, rfl, rfl⟩
    (fun _ => rfl) (fun j => ?_) (fun j => ?_) handed.refused
  · rw [(face j).2.2.2]
    exact handed.dropped j
  · rw [(face j).2.2.2]
    exact handed.failed j

end pool

/-! ## Receiving from within receiving -/

theorem transmitKept (rx : State → Frame → Option State) {s t : State} {i : Nat} {f : Frame}
    {took : Bool} (kept : Kept s) (inner : ∀ s f t, Kept s → rx s f = some t → Kept t)
    (ran : transmitBy rx s i f took = some t) : Kept t := by
  unfold transmitBy at ran
  split at ran
  · cases ran
    exact kept.sends i f nofun
  · split at ran
    · obtain ⟨mid, received, rfl⟩ := Option.map_eq_some_iff.mp ran
      exact (inner _ _ _ (kept.sends i _ (show Sending.passed ≠ .failed from nofun)) received).countTx i _
    · split at ran
      · cases ran
        exact (kept.sends i _ (show Sending.passed ≠ .failed from nofun)).countTx i _
      · cases ran
        exact kept.failed i _

theorem netRxKept {fuel : Nat} {s t : State} {i : Nat} {f : Frame} {took : Bool} (kept : Kept s)
    (ran : netRx fuel s i f took = some t) : Kept t := by
  induction fuel generalizing s t f with
  | zero => exact nomatch ran
  | succ fuel ih =>
    unfold netRx at ran
    split at ran
    · rename_i bad
      cases ran
      exact kept.refused i bad
    · split at ran
      · exact transmitKept _ ((kept.countRx i f.len).answered i f) (fun _ _ _ => ih) ran
      · cases ran
        exact (kept.countRx i f.len).queueFrame i f

def Ends (k : Nat) (conf : Iface) (f : Frame) : Prop :=
  ∀ s i took, (s.ifaces i).conf = conf → (netRx k s i f took).isSome

def passedOn (conf : Iface) (f : Frame) : Option Frame := (netProtoRx conf f.len).value f.data

theorem transmitEnds (rx : State → Frame → Option State) {s : State} {i : Nat} {f : Frame}
    {took : Bool} (inner : (s.ifaces i).conf.type = .loopback →
      ∀ u : State, (u.ifaces i).conf = (s.ifaces i).conf → (rx u f).isSome) :
    (transmitBy rx s i f took).isSome := by
  unfold transmitBy
  cases sent : netTransmit (s.ifaces i).conf f with
  | none => rfl
  | some g =>
    have same := (transmitted sent).2
    subst same
    cases type : (s.ifaces i).conf.type with
    | loopback =>
      dsimp only
      rw [Option.isSome_map]
      exact inner type (s.sends i g .passed) rfl
    | ethernet =>
      dsimp only
      split <;> rfl

theorem endsStep {k : Nat} {conf : Iface} {f : Frame} (inner : conf.type = .loopback →
    ∀ reply, passedOn conf f = some reply → Ends k conf reply) : Ends (k + 1) conf f := by
  intro s i took same
  unfold netRx
  split
  · rfl
  · rw [same]
    cases proto : (netProtoRx conf f.len).value f.data with
    | none => rfl
    | some reply =>
      have conf' : (((countRx s i f.len).meets i f .answered).ifaces i).conf = conf := by
        rw [← same]
        simp [State.meets, countRx, State.setStats, State.setIface]
      refine transmitEnds _ fun type u same' => ?_
      rw [conf'] at type same'
      exact inner type reply proto u i took same'

theorem icmpRxIpSome {iface : Iface} {o len : Nat} {m : Buf} {reply : Frame}
    (value : (icmpRxIp iface o len none).value m = some reply) :
    20 ≤ ihl m o ∧ m (o + ihl m o) = ICMP_ECHO_REQUEST ∧
      reply = echoReply iface Buf.zero 0 (fun i => m (o + i)) (ihl m o)
        (fun i => m (o + ihl m o + i)) (len - ihl m o) := by
  unfold icmpRxIp at value
  simp only [Peek.valueIte, Peek.valueBind, Peek.valueByte, Peek.valuePure, Peek.valueTake] at value
  rw [show (m o).toNat % 16 * 4 = ihl m o from rfl] at value
  split at value
  · exact nomatch value
  split at value
  · exact nomatch value
  split at value
  · exact nomatch value
  split at value
  · exact nomatch value
  split at value
  · exact nomatch value
  split at value
  · exact nomatch value
  split at value
  · exact nomatch value
  rename_i sizes _ _ _ type
  refine ⟨by omega, not_not.mp type, (Option.some.inj value).symm⟩

theorem loopedReply {conf : Iface} {f reply : Frame} (type : conf.type = .loopback)
    (passed : passedOn conf f = some reply) :
    reply.data 0 = 0x45 ∧ (f.data 0 = 0x45 → reply.data 20 = ICMP_ECHO_REPLY) := by
  unfold passedOn netProtoRx at passed
  rw [type] at passed
  obtain ⟨large, _, rfl⟩ := icmpRxIpSome passed
  refine ⟨(echoReplySays (r := 0) large).1, fun plain => ?_⟩
  have size : ihl f.data 0 = 20 := by
    unfold ihl
    rw [plain]
    rfl
  rw [size]
  exact echoReplyType (r := 0)

theorem replySilent {conf : Iface} {f : Frame} (type : conf.type = .loopback)
    (plain : f.data 0 = 0x45) (reply : f.data 20 = ICMP_ECHO_REPLY) : passedOn conf f = none := by
  unfold passedOn netProtoRx
  rw [type]
  cases value : (icmpRxIp conf 0 f.len none).value f.data with
  | none => rfl
  | some r =>
    have request := (icmpRxIpSome value).2.1
    have size : ihl f.data 0 = 20 := by
      unfold ihl
      rw [plain]
      rfl
    rw [size, Nat.zero_add, reply] at request
    exact absurd request (by decide)

theorem netRxEnds (k : Nat) (conf : Iface) (f : Frame) : Ends (k + 3) conf f := by
  refine endsStep fun type reply first => endsStep fun _ reply' second => endsStep fun _ r third => ?_
  have plain := (loopedReply type first).1
  have second' := loopedReply type second
  have silent := replySilent type second'.1 (second'.2 plain)
  exact nomatch silent.symm.trans third

theorem stepKept {fuel : Nat} (s : State) (a : Action) (t : State) (kept : Kept s)
    (took : step fuel s a = some t) : Kept t := by
  cases a with
  | rx i f took' => exact netRxKept kept took
  | transmit i f took' => exact transmitKept (fun s g => netRx fuel s i g took') kept (fun _ _ _ => netRxKept) took
  | recv i buflen =>
    cases took
    exact kept.recv i buflen
  | setIp i ip =>
    cases took
    exact kept.setIp i ip

theorem stepEnds (k : Nat) (s : State) (a : Action) : (step (k + 3) s a).isSome := by
  cases a with
  | rx i f took => exact netRxEnds k _ f s i took rfl
  | transmit i f took =>
    exact transmitEnds (fun s g => netRx (k + 3) s i g took) fun _ u _ => netRxEnds k _ _ u i took rfl
  | recv i buflen => rfl
  | setIp i ip => rfl

theorem poolInitFree {s : State} {ps row : List Nat} (chain : Chain s.next s.poolFree row)
    (once : ps.Nodup) (new : ∀ p ∈ ps, p ∉ row) :
    let t := ps.foldl poolPut s
    Chain t.next t.poolFree (ps.reverse ++ row) ∧ t.ifaces = s.ifaces ∧ t.arrived = s.arrived ∧
      t.sent = s.sent ∧ t.taken = s.taken := by
  induction ps generalizing s row with
  | nil => exact ⟨chain, rfl, rfl, rfl, rfl⟩
  | cons p rest ih =>
    obtain ⟨others, once⟩ := List.nodup_cons.mp once
    have pushed : Chain (poolPut s p).next (poolPut s p).poolFree (p :: row) := by
      show Chain (s.setPkt p _).next (some p) (p :: row)
      rw [nextSetPkt]
      exact chainPush chain (new p List.mem_cons_self)
    have later := ih pushed once fun q member => by
      intro inRow
      rcases List.mem_cons.mp inRow with rfl | inRow
      · exact others member
      · exact new q (List.mem_cons_of_mem p member) inRow
    rw [List.reverse_cons, List.append_assoc, List.singleton_append]
    exact later

theorem bootedKept (confs : Nat → Iface) : Kept (booted confs) := by
  obtain ⟨chain, faces, arrived, sent, taken⟩ :=
    @poolInitFree ⟨fun _ => ⟨none, 0, 0, Buf.zero⟩, none, fun i =>
      ⟨confs i, Stats.zero, none, none, 0⟩, fun _ => [], fun _ => [], fun _ => []⟩
      (List.range NET_POOL_SIZE) [] rfl List.nodup_range fun _ _ => List.not_mem_nil
  rw [List.append_nil] at chain
  refine ⟨fun place => if place = none then (List.range NET_POOL_SIZE).reverse else [], ?_, ?_⟩
  · refine ⟨⟨fun place => ?_, fun i j p inI inJ => ?_, fun p => ?_⟩, chain, fun i => ?_, fun i => ?_,
      fun i => ?_⟩
    · split
      · exact List.nodup_reverse.mpr List.nodup_range
      · exact List.nodup_nil
    · split at inI
      · split at inJ
        · rename_i one two
          rw [one, two]
        · exact nomatch inJ
      · exact nomatch inI
    · constructor
      · exact fun small => ⟨none, by simpa using small⟩
      · rintro ⟨place, inRow⟩
        split at inRow
        · simpa using inRow
        · exact nomatch inRow
    all_goals
      unfold booted poolInit
      rw [faces]
      rfl
  · refine ⟨fun i => ⟨[], ?_, ?_⟩, fun i => ?_, fun i => ?_, fun i => ?_⟩
    · unfold booted poolInit
      rw [arrived]
      rfl
    · unfold booted poolInit
      rw [taken]
      exact .nil
    · unfold booted poolInit
      rw [faces, arrived]
      rfl
    · unfold booted poolInit
      rw [faces, sent]
      rfl
    · unfold booted poolInit
      rw [arrived]
      exact fun _ member => nomatch member

/-- Whatever arrives, is sent and is handed out on any number of interfaces, three nested
calls are enough and the pool and the queues stay whole. -/
theorem networkKept (confs : Nat → Iface) (acts : List Action) (k : Nat) :
    ∃ s, Run.run (step (k + 3)) (booted confs) acts = some s ∧ Kept s := by
  have total : ∀ s : State, ∃ t, Run.run (step (k + 3)) s acts = some t := by
    induction acts with
    | nil => exact fun s => ⟨s, rfl⟩
    | cons a rest ih =>
      intro s
      obtain ⟨mid, took⟩ := Option.isSome_iff_exists.mp (stepEnds k s a)
      obtain ⟨t, ran⟩ := ih mid
      refine ⟨t, ?_⟩
      unfold Run.run
      rw [took]
      exact ran
  obtain ⟨s, ran⟩ := total (booted confs)
  exact ⟨s, ran, Run.invariant stepKept (bootedKept confs) ran⟩

def LossesCounted (s : State) : Prop := ∀ i, (s.ifaces i).stats.rxDropped =
  counter ((s.arrived i).filter fun x => x.2 ≠ .queued ∧ x.2 ≠ .answered).length

theorem emptyFrameUncounted : ∃ s,
    Run.run (step 3) (booted fun _ => nic) [.rx 0 ⟨Buf.zero, 0⟩ true] = some s ∧
      ¬ LossesCounted s :=
  ⟨_, rfl, fun all => absurd (all 0) (by decide +kernel)⟩

end Scepter.Net
