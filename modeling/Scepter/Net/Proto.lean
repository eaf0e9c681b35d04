import Scepter.Lib.Peek
import Scepter.Lib.OnesSum
import Mathlib.Tactic.IntervalCases

/-! The kernel's protocol layer (net/proto.c): it answers ARP requests and ICMP echo
requests itself. A frame lies at the start of a memory; what follows its last byte is
whatever the memory holds there. -/
namespace Scepter.Net
open OnesSum

def ETH_HDR_LEN : Nat := 14
def ETH_TYPE_IPV4 : Nat := 0x0800
def ETH_TYPE_ARP : Nat := 0x0806
def ARP_HRD_ETH : Nat := 1
def ARP_OP_REQUEST : Nat := 1
def ARP_OP_REPLY : Nat := 2
def ARP_HLEN : Nat := 28
def IP_PROTO_ICMP : Byte := 1
def ICMP_ECHO_REPLY : Byte := 0
def ICMP_ECHO_REQUEST : Byte := 8
def NET_MAC_LEN : Byte := 6
def NET_MAX_FRAME : Nat := 2048

inductive IfaceType where
  | loopback | ethernet
  deriving DecidableEq

structure Iface where
  mac : Buf
  ip : Buf
  type : IfaceType
  -- NET_IF_UP in flags
  up : Bool

structure Frame where
  data : Buf
  len : Nat

def memcpy (dst : Buf) (d : Nat) (src : Buf) (s n : Nat) : Buf :=
  fun o => if d ≤ o ∧ o < d + n then src (s + (o - d)) else dst o

def put (buf : Buf) (o : Nat) (b : Byte) : Buf := fun p => if p = o then b else buf p

def putBe16 (buf : Buf) (o v : Nat) : Buf :=
  put (put buf o (BitVec.ofNat 8 (v / 256))) (o + 1) (BitVec.ofNat 8 (v % 256))

def netChecksum (buf : Buf) (o len : Nat) : Nat := 65535 - fold (wordSum buf o len)

def netTransmit (iface : Iface) (f : Frame) : Option Frame :=
  if iface.up = false ∨ f.len = 0 ∨ NET_MAX_FRAME < f.len then none else some f

/-! ## ARP -/

def arpReply (iface : Iface) (mac ip : Buf) : Frame where
  data :=
    let reply := memcpy Buf.zero 0 mac 0 6
    let reply := memcpy reply 6 iface.mac 0 6
    let reply := putBe16 reply 12 ETH_TYPE_ARP
    let r := ETH_HDR_LEN
    let reply := putBe16 reply (r + 0) ARP_HRD_ETH
    let reply := putBe16 reply (r + 2) ETH_TYPE_IPV4
    let reply := put (put reply (r + 4) NET_MAC_LEN) (r + 5) 4
    let reply := putBe16 reply (r + 6) ARP_OP_REPLY
    let reply := memcpy reply (r + 8) iface.mac 0 6
    let reply := memcpy reply (r + 14) iface.ip 0 4
    let reply := memcpy reply (r + 18) mac 0 6
    memcpy reply (r + 24) ip 0 4
  len := ETH_HDR_LEN + ARP_HLEN

def arpRx (iface : Iface) (len : Nat) : Peek (Option Frame) := do
  if len < ETH_HDR_LEN + ARP_HLEN then return none
  if (← Peek.be16 12) ≠ ETH_TYPE_ARP then return none
  let a := ETH_HDR_LEN
  if (← Peek.be16 (a + 0)) ≠ ARP_HRD_ETH then return none
  if (← Peek.be16 (a + 2)) ≠ ETH_TYPE_IPV4 then return none
  if (← Peek.byte (a + 4)) ≠ NET_MAC_LEN then return none
  if (← Peek.byte (a + 5)) ≠ 4 then return none
  if (← Peek.be16 (a + 6)) ≠ ARP_OP_REQUEST then return none
  if (← Peek.same (a + 30) iface.ip 0 4) = false then return none
  let mac ← Peek.take (a + 14) 6
  let ip ← Peek.take (a + 20) 4
  return some (arpReply iface mac ip)

/-! ## IPv4 and ICMP -/

def ethHeader (iface : Iface) (srcMac : Buf) : Buf :=
  putBe16 (memcpy (memcpy Buf.zero 0 srcMac 0 6) 6 iface.mac 0 6) 12 ETH_TYPE_IPV4

def echoReply (iface : Iface) (buf : Buf) (r : Nat) (ip : Buf) (ihlen : Nat) (icmp : Buf)
    (icmplen : Nat) : Frame where
  data :=
    let buf := memcpy buf r ip 0 ihlen
    let buf := put buf (r + 0) 0x45
    let buf := putBe16 buf (r + 2) ((ihlen + icmplen) % 2 ^ 16)
    let buf := putBe16 buf (r + 4) 0
    let buf := putBe16 buf (r + 6) 0
    let buf := put (put buf (r + 8) 64) (r + 9) IP_PROTO_ICMP
    let buf := memcpy buf (r + 12) iface.ip 0 4
    let buf := memcpy buf (r + 16) ip 12 4
    let buf := putBe16 buf (r + 10) 0
    let buf := putBe16 buf (r + 10) (netChecksum buf r ihlen)
    let buf := memcpy buf (r + ihlen) icmp 0 icmplen
    let buf := put buf (r + ihlen) ICMP_ECHO_REPLY
    putBe16 buf (r + ihlen + 2) (netChecksum buf (r + ihlen) icmplen)
  len := r + (ihlen + icmplen)

/-- `ip` is where the IPv4 packet starts, `srcMac` where the sender's hardware address is. -/
def icmpRxIp (iface : Iface) (ip iplen : Nat) (srcMac : Option Nat) : Peek (Option Frame) := do
  if iplen < 20 then return none
  if (← Peek.byte ip).toNat / 16 ≠ 4 then return none
  let ihlen := (← Peek.byte ip).toNat % 16 * 4
  if ihlen < 20 ∨ iplen < ihlen then return none
  if (← Peek.byte (ip + 9)) ≠ IP_PROTO_ICMP then return none
  if (← Peek.same (ip + 16) iface.ip 0 4) = false then return none
  let icmp := ip + ihlen
  let icmplen := iplen - ihlen
  if icmplen < 8 then return none
  if (← Peek.byte icmp) ≠ ICMP_ECHO_REQUEST then return none
  let header ← Peek.take ip ihlen
  let message ← Peek.take icmp icmplen
  match srcMac with
  | some at_ => do
    let mac ← Peek.take at_ 6
    return some (echoReply iface (ethHeader iface mac) ETH_HDR_LEN header ihlen message icmplen)
  | none => return some (echoReply iface Buf.zero 0 header ihlen message icmplen)

def icmpRxEth (iface : Iface) (len : Nat) : Peek (Option Frame) := do
  if len < ETH_HDR_LEN + 20 then return none
  if (← Peek.be16 12) ≠ ETH_TYPE_IPV4 then return none
  icmpRxIp iface ETH_HDR_LEN (len - ETH_HDR_LEN) (some 6)

/-- The reply that the protocol layer passes to net_transmit, if it consumes the frame. -/
def netProtoRx (iface : Iface) (len : Nat) : Peek (Option Frame) :=
  match iface.type with
  | .loopback => icmpRxIp iface 0 len none
  | .ethernet => do
    match ← arpRx iface len with
    | some reply => return some reply
    | none => icmpRxEth iface len

def answered (iface : Iface) (f : Frame) : Option Frame :=
  ((netProtoRx iface f.len).value f.data).bind (netTransmit iface)

/-! ## ARP requests -/

structure ArpRequest (iface : Iface) (f : Frame) : Prop where
  whole : ETH_HDR_LEN + ARP_HLEN ≤ f.len
  type : beWord f.data 12 = ETH_TYPE_ARP
  hrd : beWord f.data 14 = ARP_HRD_ETH
  pro : beWord f.data 16 = ETH_TYPE_IPV4
  hlen : f.data 18 = NET_MAC_LEN
  plen : f.data 19 = 4
  op : beWord f.data 20 = ARP_OP_REQUEST
  ours : ∀ i < 4, f.data (38 + i) = iface.ip i

structure ArpAnswer (iface : Iface) (f r : Frame) : Prop where
  whole : r.len = ETH_HDR_LEN + ARP_HLEN
  addressed : ∀ i < 6, r.data i = f.data (22 + i)
  source : ∀ i < 6, r.data (6 + i) = iface.mac i
  type : beWord r.data 12 = ETH_TYPE_ARP
  hrd : beWord r.data 14 = ARP_HRD_ETH
  pro : beWord r.data 16 = ETH_TYPE_IPV4
  hlen : r.data 18 = NET_MAC_LEN
  plen : r.data 19 = 4
  op : beWord r.data 20 = ARP_OP_REPLY
  senderMac : ∀ i < 6, r.data (22 + i) = iface.mac i
  senderIp : ∀ i < 4, r.data (28 + i) = iface.ip i
  targetMac : ∀ i < 6, r.data (32 + i) = f.data (22 + i)
  targetIp : ∀ i < 4, r.data (38 + i) = f.data (28 + i)

def Inside (iface : Iface) (f : Frame) : Prop := Peek.Within f.len (netProtoRx iface f.len) f.data

/-- The code looks for the fields six bytes further on than they are: it takes what
follows the request for the target address, the sender's IP address and the first half of
the target's for its hardware address, and the second half for its IP address. -/
structure ArpReached (iface : Iface) (f : Frame) : Prop where
  up : iface.up = true
  padded : 48 ≤ f.len
  trailer : ∀ i < 4, f.data (44 + i) = iface.ip i
  mac : ∀ i < 6, f.data (28 + i) = f.data (22 + i)
  ip : ∀ i < 4, f.data (34 + i) = f.data (28 + i)

variable {iface : Iface} {f : Frame}

theorem be16Word (m : Buf) (o : Nat) : (Peek.be16 o).value m = beWord m o := by
  rw [Peek.valueBe16, beWord]

theorem arpRxValue (request : ArpRequest iface f) :
    (arpRx iface f.len).value f.data =
      if (Peek.same 44 iface.ip 0 4).value f.data = false then none
      else some (arpReply iface (fun i => f.data (28 + i)) fun i => f.data (34 + i)) := by
  obtain ⟨whole, type, hrd, pro, hlen, plen, op, _⟩ := request
  unfold arpRx
  simp only [ETH_HDR_LEN] at *
  simp only [Peek.valueIte, Peek.valueBind, Peek.valuePure, Peek.valueByte, Peek.valueTake,
    be16Word, Nat.add_zero, Nat.reduceAdd, type, hrd, pro, hlen, plen, op, ne_eq, not_true_eq_false,
    if_false, if_neg (Nat.not_lt.mpr whole)]

theorem arpRxWithin (request : ArpRequest iface f) :
    Peek.Within f.len (arpRx iface f.len) f.data ↔
      Peek.Within f.len (Peek.same 44 iface.ip 0 4) f.data := by
  obtain ⟨whole, type, hrd, pro, hlen, plen, op, _⟩ := request
  have large : 42 ≤ f.len := whole
  unfold arpRx
  simp only [ETH_HDR_LEN] at *
  simp only [Peek.withinIte, Peek.withinBind, Peek.withinPure, Peek.withinByte, Peek.withinBe16,
    Peek.valueByte, be16Word, Nat.add_zero, Nat.reduceAdd, type, hrd, pro, hlen, plen, op,
    ne_eq, not_true_eq_false, if_false, if_neg (Nat.not_lt.mpr whole), ite_self, and_true,
    Peek.withinTake (show 28 + 6 ≤ f.len by omega), Peek.withinTake (show 34 + 4 ≤ f.len by omega)]
  have : ∀ k ≤ 21, k < f.len := fun k small => by omega
  simp [this]

theorem arpReplySays (iface : Iface) (mac ip : Buf) :
    let r := (arpReply iface mac ip).data
    ((∀ i < 6, r i = mac i) ∧ (∀ i < 6, r (6 + i) = iface.mac i)) ∧
      (beWord r 12 = ETH_TYPE_ARP ∧ beWord r 14 = ARP_HRD_ETH ∧ beWord r 16 = ETH_TYPE_IPV4 ∧
        r 18 = NET_MAC_LEN ∧ r 19 = 4 ∧ beWord r 20 = ARP_OP_REPLY) ∧
      (∀ i < 6, r (22 + i) = iface.mac i) ∧ (∀ i < 4, r (28 + i) = iface.ip i) ∧
      (∀ i < 6, r (32 + i) = mac i) ∧ (∀ i < 4, r (38 + i) = ip i) := by
  refine ⟨⟨?_, ?_⟩, ⟨rfl, rfl, rfl, rfl, rfl, rfl⟩, ?_, ?_, ?_, ?_⟩
  all_goals
    intro i small
    interval_cases i <;> rfl

theorem arpAnswers {mac ip : Buf} :
    ArpAnswer iface f (arpReply iface mac ip) ↔
      (∀ i < 6, mac i = f.data (22 + i)) ∧ ∀ i < 4, ip i = f.data (28 + i) := by
  obtain ⟨⟨addressed, source⟩, ⟨type, hrd, pro, hlen, plen, op⟩, senderMac, senderIp, targetMac,
    targetIp⟩ := arpReplySays iface mac ip
  constructor
  · intro answer
    refine ⟨fun i small => ?_, fun i small => ?_⟩
    · rw [← addressed i small, answer.addressed i small]
    · rw [← targetIp i small, answer.targetIp i small]
  · rintro ⟨sameMac, sameIp⟩
    exact ⟨rfl, fun i small => (addressed i small).trans (sameMac i small), source, type, hrd, pro,
      hlen, plen, op, senderMac, senderIp, fun i small => (targetMac i small).trans (sameMac i small),
      fun i small => (targetIp i small).trans (sameIp i small)⟩

def ArpServed (iface : Iface) (f : Frame) : Prop :=
  (∃ r, answered iface f = some r ∧ ArpAnswer iface f r) ∧ Inside iface f

theorem arpNotIp (request : ArpRequest iface f) : (icmpRxEth iface f.len).value f.data = none := by
  unfold icmpRxEth
  rw [Peek.valueIte]
  split
  · rfl
  · rw [Peek.valueBind, be16Word, request.type, Peek.valueIte, if_pos (by decide), Peek.valuePure]

theorem arpProto (ethernet : iface.type = .ethernet) (request : ArpRequest iface f) :
    (netProtoRx iface f.len).value f.data = (arpRx iface f.len).value f.data := by
  unfold netProtoRx
  rw [ethernet]
  show (Peek.value (_ >>= _) _) = _
  rw [Peek.valueBind]
  rcases (arpRx iface f.len).value f.data with _ | reply
  · exact arpNotIp request
  · rfl

theorem arpTransmits (up : iface.up = true) (mac ip : Buf) :
    netTransmit iface (arpReply iface mac ip) = some (arpReply iface mac ip) := by
  refine if_neg ?_
  rw [up]
  simp only [arpReply]
  decide

theorem transmitted {reply r : Frame} (sent : netTransmit iface reply = some r) :
    iface.up = true ∧ r = reply := by
  unfold netTransmit at sent
  split at sent
  · exact nomatch sent
  · rename_i passes
    have up : iface.up = true := by
      cases up : iface.up with
      | false => exact absurd (Or.inl up) passes
      | true => rfl
    exact ⟨up, (Option.some.inj sent).symm⟩

theorem arpServedIff (ethernet : iface.type = .ethernet) (request : ArpRequest iface f) :
    ArpServed iface f ↔ ArpReached iface f := by
  unfold ArpServed answered
  rw [arpProto ethernet request, arpRxValue request]
  constructor
  · rintro ⟨⟨r, sent, answer⟩, inside⟩
    obtain ⟨_, _, passed⟩ := Option.bind_eq_some_iff.mp sent
    have up := (transmitted passed).1
    cases matched : (Peek.same 44 iface.ip 0 4).value f.data with
    | false =>
      rw [matched, if_pos rfl] at sent
      exact nomatch sent
    | true =>
      rw [matched, if_neg (by decide), Option.bind_some, arpTransmits up] at sent
      cases sent
      obtain ⟨mac, ip⟩ := arpAnswers.mp answer
      refine ⟨up, ?_, fun i small => ?_, mac, ip⟩
      · unfold Inside netProtoRx at inside
        rw [ethernet] at inside
        have reads := ((Peek.withinBind _ _).mp inside).1
        exact Peek.sameReads (by decide) matched ((arpRxWithin request).mp reads)
      · rw [Peek.valueSame.mp matched i small, Nat.zero_add]
  · rintro ⟨up, padded, trailer, mac, ip⟩
    have matched : (Peek.same 44 iface.ip 0 4).value f.data = true :=
      Peek.valueSame.mpr fun i small => by rw [trailer i small, Nat.zero_add]
    rw [matched, if_neg (by decide), Option.bind_some, arpTransmits up]
    refine ⟨⟨_, rfl, arpAnswers.mpr ⟨mac, ip⟩⟩, ?_⟩
    unfold Inside netProtoRx
    rw [ethernet]
    refine (Peek.withinBind _ _).mpr ⟨(arpRxWithin request).mpr (Peek.withinSame _ _ padded), ?_⟩
    rw [arpRxValue request, matched, if_neg (by decide)]
    exact (Peek.withinPure _).mpr trivial

/-! ## Echo requests -/

def ihl (m : Buf) (o : Nat) : Nat := (m o).toNat % 16 * 4
def totalLength (m : Buf) (o : Nat) : Nat := beWord m (o + 2)

structure EchoPacket (type : Byte) (m : Buf) (o len : Nat) : Prop where
  version : (m o).toNat / 16 = 4
  header : 20 ≤ ihl m o
  room : ihl m o + 8 ≤ totalLength m o
  whole : totalLength m o ≤ len
  fragment : beWord m (o + 6) % 2 ^ 14 = 0
  proto : m (o + 9) = IP_PROTO_ICMP
  headerSum : netChecksum m o (ihl m o) = 0
  type : m (o + ihl m o) = type
  code : m (o + ihl m o + 1) = 0
  sum : netChecksum m (o + ihl m o) (totalLength m o - ihl m o) = 0

def ipStart (iface : Iface) : Nat := match iface.type with
  | .loopback => 0
  | .ethernet => ETH_HDR_LEN

def OverEthernet (iface : Iface) (m : Buf) : Prop :=
  iface.type = .ethernet → beWord m 12 = ETH_TYPE_IPV4

structure EchoRequest (iface : Iface) (f : Frame) : Prop where
  link : OverEthernet iface f.data
  packet : EchoPacket ICMP_ECHO_REQUEST f.data (ipStart iface) (f.len - ipStart iface)
  ours : ∀ i < 4, f.data (ipStart iface + 16 + i) = iface.ip i

structure EchoAnswer (iface : Iface) (f r : Frame) : Prop where
  link : OverEthernet iface r.data
  addressed : iface.type = .ethernet →
    ∀ i < 6, r.data i = f.data (6 + i) ∧ r.data (6 + i) = iface.mac i
  packet : EchoPacket ICMP_ECHO_REPLY r.data (ipStart iface) (r.len - ipStart iface)
  source : ∀ i < 4, r.data (ipStart iface + 12 + i) = iface.ip i
  target : ∀ i < 4, r.data (ipStart iface + 16 + i) = f.data (ipStart iface + 12 + i)
  length : totalLength r.data (ipStart iface) - ihl r.data (ipStart iface) =
    totalLength f.data (ipStart iface) - ihl f.data (ipStart iface)
  payload : ∀ i, 4 ≤ i → i < totalLength f.data (ipStart iface) - ihl f.data (ipStart iface) →
    r.data (ipStart iface + ihl r.data (ipStart iface) + i) =
      f.data (ipStart iface + ihl f.data (ipStart iface) + i)

def EchoServed (iface : Iface) (f : Frame) : Prop :=
  (∃ r, answered iface f = some r ∧ EchoAnswer iface f r) ∧ Inside iface f

/-- The request ends with its frame, has no options, and its checksum field is a zero: the
sum over the reply still contains the field, and padding and options are echoed. -/
structure EchoReached (iface : Iface) (f : Frame) : Prop where
  up : iface.up = true
  plain : ihl f.data (ipStart iface) = 20
  unpadded : totalLength f.data (ipStart iface) = f.len - ipStart iface
  noSum : beWord f.data (ipStart iface + ihl f.data (ipStart iface) + 2) = 0 ∨
    beWord f.data (ipStart iface + ihl f.data (ipStart iface) + 2) = 65535

section buffers

variable {buf src : Buf} {d s n o p v : Nat} {b : Byte}

@[simp] theorem putSame : put buf o b o = b := if_pos rfl

theorem putApart (apart : p ≠ o) : put buf o b p = buf p := if_neg apart

theorem putBe16Apart (apart : p < o ∨ o + 2 ≤ p) : putBe16 buf o v p = buf p := by
  unfold putBe16
  rw [putApart (by omega), putApart (by omega)]

theorem putBe16Word (small : v < 65536) : beWord (putBe16 buf o v) o = v := by
  unfold beWord putBe16
  rw [putSame, putApart (by omega), putSame, BitVec.toNat_ofNat, BitVec.toNat_ofNat]
  omega

theorem memcpyIn (low : d ≤ p) (high : p < d + n) : memcpy buf d src s n p = src (s + (p - d)) :=
  if_pos ⟨low, high⟩

theorem memcpyOut (apart : p < d ∨ d + n ≤ p) : memcpy buf d src s n p = buf p := if_neg (by omega)

theorem beWordPutApart (apart : p + 2 ≤ o ∨ o < p) : beWord (put buf o b) p = beWord buf p :=
  beWordCongr (putApart (by omega)) (putApart (by omega))

theorem beWordPutBe16Apart (apart : p + 2 ≤ o ∨ o + 2 ≤ p) :
    beWord (putBe16 buf o v) p = beWord buf p :=
  beWordCongr (putBe16Apart (by omega)) (putBe16Apart (by omega))

theorem beWordMemcpyOut (apart : p + 2 ≤ d ∨ d + n ≤ p) :
    beWord (memcpy buf d src s n) p = beWord buf p :=
  beWordCongr (memcpyOut (by omega)) (memcpyOut (by omega))

end buffers

theorem netChecksumZero {m : Buf} {o n : Nat} :
    netChecksum m o n = 0 ↔ fold (wordSum m o n) = 65535 := by
  have : fold (wordSum m o n) ≤ 65535 := by
    rw [foldEq]
    split <;> omega
  unfold netChecksum
  omega

section reply

variable {buf ip icmp : Buf} {r ihlen icmplen : Nat}

theorem echoReplySays (large : 20 ≤ ihlen) :
    let m := (echoReply iface buf r ip ihlen icmp icmplen).data
    m r = 0x45 ∧ beWord m (r + 2) = (ihlen + icmplen) % 2 ^ 16 ∧ beWord m (r + 6) = 0 ∧
      m (r + 9) = IP_PROTO_ICMP ∧ (∀ i < 4, m (r + 12 + i) = iface.ip i) ∧
      (∀ i < 4, m (r + 16 + i) = ip (12 + i)) ∧ ∀ p < r, m p = buf p := by
  simp only [echoReply, Nat.add_zero]
  refine ⟨?_, ?_, ?_, ?_, fun i small => ?_, fun i small => ?_, fun p before => ?_⟩
  · simp (disch := omega) only [putBe16Apart, putApart, memcpyOut, putSame]
  · simp (disch := omega) only [beWordPutBe16Apart, beWordPutApart, beWordMemcpyOut]
    exact putBe16Word (Nat.mod_lt _ (by decide))
  · simp (disch := omega) only [beWordPutBe16Apart, beWordPutApart, beWordMemcpyOut]
    exact putBe16Word (by decide)
  · simp (disch := omega) only [putBe16Apart, putApart, memcpyOut, putSame]
  · simp (disch := omega) only [putBe16Apart, putApart, memcpyOut, memcpyIn]
    congr 1
    omega
  · simp (disch := omega) only [putBe16Apart, putApart, memcpyOut, memcpyIn]
    congr 1
    omega
  · simp (disch := omega) only [putBe16Apart, putApart, memcpyOut]

theorem echoReplyHeaderSum (plain : ihlen = 20) :
    netChecksum (echoReply iface buf r ip ihlen icmp icmplen).data r 20 = 0 := by
  subst plain
  rw [netChecksumZero]
  simp only [echoReply, Nat.add_zero]
  generalize memcpy (memcpy _ (r + 12) iface.ip 0 4) (r + 16) ip 12 4 = header
  have summed := wordSumSwap (a := putBe16 (putBe16 header (r + 10) 0) (r + 10)
    (netChecksum (putBe16 header (r + 10) 0) r 20)) (b := putBe16 header (r + 10) 0) (o := r)
    (k := 5) (n := 20) (by decide) fun p apart => putBe16Apart (by omega)
  rw [putBe16Word (by decide), putBe16Word (by unfold netChecksum; omega)] at summed
  rw [wordSumCongr (b := putBe16 (putBe16 header (r + 10) 0) (r + 10)
    (netChecksum (putBe16 header (r + 10) 0) r 20)) (p := r)]
  · rw [← Nat.add_zero (wordSum _ _ _), summed]
    exact foldComplement _
  · intro i small
    simp (disch := omega) only [putBe16Apart, putApart, memcpyOut]

theorem echoReplyMessage {i : Nat} (low : 1 ≤ i) (small : i < icmplen)
    (apart : i ≠ 2 ∧ i ≠ 3) :
    (echoReply iface buf r ip ihlen icmp icmplen).data (r + ihlen + i) = icmp i := by
  simp only [echoReply]
  simp (disch := omega) only [putBe16Apart, putApart, memcpyIn]
  congr 1
  omega

theorem echoReplyType :
    (echoReply iface buf r ip ihlen icmp icmplen).data (r + ihlen) = ICMP_ECHO_REPLY := by
  simp only [echoReply]
  simp (disch := omega) only [putBe16Apart, putSame]

theorem echoReplySum (large : 8 ≤ icmplen) (request : icmp 0 = ICMP_ECHO_REQUEST)
    (valid : fold (wordSum icmp 0 icmplen) = 65535) :
    netChecksum (echoReply iface buf r ip ihlen icmp icmplen).data (r + ihlen) icmplen = 0 ↔
      beWord icmp 2 = 0 ∨ beWord icmp 2 = 65535 := by
  rw [netChecksumZero]
  simp only [echoReply]
  generalize putBe16 _ (r + 10) (netChecksum _ r ihlen) = header
  generalize at_ : r + ihlen = p
  have copied : ∀ i < icmplen, memcpy header p icmp 0 icmplen (p + i) = icmp (0 + i) :=
    fun i small => by rw [memcpyIn (by omega) (by omega), Nat.add_sub_cancel_left]
  have kept : ∀ i < icmplen, 0 < i →
      put (memcpy header p icmp 0 icmplen) p ICMP_ECHO_REPLY (p + i) = icmp (0 + i) :=
    fun i small positive => by rw [putApart (by omega), copied i small]
  have first : put (memcpy header p icmp 0 icmplen) p ICMP_ECHO_REPLY p = 0 := putSame
  generalize put (memcpy header p icmp 0 icmplen) p ICMP_ECHO_REPLY = typed at *
  obtain ⟨k, rfl⟩ := Nat.exists_eq_add_of_le' (show 4 ≤ icmplen by omega)
  have second := kept 1 (by omega) (by omega)
  have field : beWord typed (p + 2) = beWord icmp 2 :=
    beWordCongr (kept 2 (by omega) (by omega)) (kept 3 (by omega) (by omega))
  have rest : wordSum typed (p + 2 + 2) k = wordSum icmp (0 + 2 + 2) k := by
    refine wordSumCongr fun i small => ?_
    have := kept (i + 4) (by omega) (by omega)
    rwa [show p + 2 + 2 + i = p + (i + 4) by omega, show 0 + 2 + 2 + i = 0 + (i + 4) by omega]
  have before : beWord typed p + 2048 = beWord icmp 0 := by
    unfold beWord
    rw [first, second, request]
    simp [ICMP_ECHO_REQUEST]
    omega
  have summed := wordSumSwap (a := putBe16 typed (p + 2) (netChecksum typed p (k + 4))) (b := typed)
    (o := p) (k := 1) (n := k + 4) (by omega) fun q apart => putBe16Apart (by omega)
  rw [putBe16Word (by unfold netChecksum; omega), field] at summed
  have request' : wordSum icmp 0 (k + 4) = wordSum typed p (k + 4) + 2048 := by
    simp only [wordSum, rest, Nat.zero_add, field]
    omega
  have large' : beWord icmp 2 ≤ wordSum typed p (k + 4) := by
    simp only [wordSum, field]
    omega
  rw [foldEq] at valid
  split at valid
  · omega
  · exact foldWithout large' (beWordLt icmp 2) summed (by omega) (by omega)

end reply

section request

variable {m : Buf} {o len n : Nat} (srcMac : Option Nat)

theorem icmpRxIpValue (packet : EchoPacket ICMP_ECHO_REQUEST m o len)
    (ours : ∀ i < 4, m (o + 16 + i) = iface.ip i) :
    (icmpRxIp iface o len srcMac).value m =
      let reply := fun buf r => some (echoReply iface buf r (fun i => m (o + i)) (ihl m o)
        (fun i => m (o + ihl m o + i)) (len - ihl m o))
      match srcMac with
      | some at_ => reply (ethHeader iface fun i => m (at_ + i)) ETH_HDR_LEN
      | none => reply Buf.zero 0 := by
  have matched : (Peek.same (o + 16) iface.ip 0 4).value m = true :=
    Peek.valueSame.mpr fun i small => by rw [ours i small, Nat.zero_add]
  have := packet.header
  have := packet.room
  have := packet.whole
  unfold icmpRxIp
  simp only [Peek.valueIte, Peek.valueBind, Peek.valueByte, Peek.valuePure, Peek.valueTake]
  rw [if_neg (by omega), if_neg (not_not_intro packet.version)]
  rw [show (m o).toNat % 16 * 4 = ihl m o from rfl]
  rw [if_neg (by omega), if_neg (not_not_intro packet.proto), if_neg (by rw [matched]; decide),
    if_neg (by omega), if_neg (not_not_intro packet.type)]
  cases srcMac <;> rfl

theorem icmpRxIpWithin (packet : EchoPacket ICMP_ECHO_REQUEST m o len)
    (ours : ∀ i < 4, m (o + 16 + i) = iface.ip i) (ends : o + len ≤ n)
    (mac : ∀ a ∈ srcMac, a + 6 ≤ n) : Peek.Within n (icmpRxIp iface o len srcMac) m := by
  have := packet.header
  have := packet.room
  have := packet.whole
  unfold icmpRxIp
  simp only [Peek.withinIte, Peek.withinBind, Peek.withinByte, Peek.withinPure, Peek.valueByte]
  rw [show (m o).toNat % 16 * 4 = ihl m o from rfl]
  have takes := Peek.withinTake (m := m) (show o + ihl m o ≤ n by omega)
  have takes' := Peek.withinTake (m := m) (show o + ihl m o + (len - ihl m o) ≤ n by omega)
  have compares := Peek.withinSame (m := m) iface.ip 0 (show o + 16 + 4 ≤ n by omega)
  have matched : (Peek.same (o + 16) iface.ip 0 4).value m = true :=
    Peek.valueSame.mpr fun i small => by rw [ours i small, Nat.zero_add]
  rw [if_neg (by omega), if_neg (not_not_intro packet.version), if_neg (by omega),
    if_neg (not_not_intro packet.proto), if_neg (by rw [matched]; decide), if_neg (by omega),
    if_neg (not_not_intro packet.type), Peek.valueTake, Peek.valueTake]
  refine ⟨by omega, by omega, by omega, compares, by omega, takes, takes', ?_⟩
  cases srcMac with
  | none => exact (Peek.withinPure _).mpr trivial
  | some at_ =>
    rw [Peek.withinBind]
    exact ⟨Peek.withinTake (mac at_ rfl), (Peek.withinPure _).mpr trivial⟩

end request

theorem arpRxOther (other : beWord f.data 12 ≠ ETH_TYPE_ARP) :
    (arpRx iface f.len).value f.data = none := by
  unfold arpRx
  simp only [Peek.valueIte, Peek.valueBind, Peek.valuePure, be16Word]
  rw [if_pos other, ite_self]

theorem arpRxOtherWithin (other : beWord f.data 12 ≠ ETH_TYPE_ARP) :
    Peek.Within f.len (arpRx iface f.len) f.data := by
  unfold arpRx
  rw [Peek.withinIte]
  split
  · exact (Peek.withinPure _).mpr trivial
  · rw [Peek.withinBind, be16Word, Peek.withinIte, if_pos other, Peek.withinBe16]
    simp only [ETH_HDR_LEN, ARP_HLEN] at *
    exact ⟨by omega, (Peek.withinPure _).mpr trivial⟩

theorem ethHeaderSays (mac : Buf) :
    beWord (ethHeader iface mac) 12 = ETH_TYPE_IPV4 ∧
      ∀ i < 6, ethHeader iface mac i = mac i ∧ ethHeader iface mac (6 + i) = iface.mac i := by
  refine ⟨rfl, fun i small => ?_⟩
  interval_cases i <;> exact ⟨rfl, rfl⟩

theorem echoValue (request : EchoRequest iface f) :
    (∃ buf, (netProtoRx iface f.len).value f.data = some
      (echoReply iface buf (ipStart iface) (fun i => f.data (ipStart iface + i))
        (ihl f.data (ipStart iface)) (fun i => f.data (ipStart iface + ihl f.data (ipStart iface) + i))
        (f.len - ipStart iface - ihl f.data (ipStart iface))) ∧
      (iface.type = .ethernet → beWord buf 12 = ETH_TYPE_IPV4 ∧
        ∀ i < 6, buf i = f.data (6 + i) ∧ buf (6 + i) = iface.mac i)) ∧ Inside iface f := by
  obtain ⟨link, packet, ours⟩ := request
  have := packet.header
  have := packet.room
  have := packet.whole
  unfold ipStart at *
  unfold Inside netProtoRx
  cases type : iface.type with
  | loopback =>
    rw [type] at packet ours
    have value := icmpRxIpValue none packet ours
    have within := icmpRxIpWithin (n := f.len) none packet ours (by simp) (by simp)
    exact ⟨⟨Buf.zero, value, nofun⟩, within⟩
  | ethernet =>
    rw [type] at packet ours
    have ipv4 := link type
    have other : beWord f.data 12 ≠ ETH_TYPE_ARP := by
      rw [ipv4]
      decide
    have value := icmpRxIpValue (some 6) packet ours
    simp only [type] at *
    have within := icmpRxIpWithin (n := f.len) (some 6) packet ours
      (by unfold ETH_HDR_LEN at *; omega) (by unfold ETH_HDR_LEN at *; simp; omega)
    have large : ¬ f.len < ETH_HDR_LEN + 20 := by
      unfold ETH_HDR_LEN at *
      omega
    have ethValue : (icmpRxEth iface f.len).value f.data =
        (icmpRxIp iface ETH_HDR_LEN (f.len - ETH_HDR_LEN) (some 6)).value f.data := by
      unfold icmpRxEth
      rw [if_neg large, Peek.valueBind, be16Word, ipv4, if_neg (by decide)]
    have ethWithin : Peek.Within f.len (icmpRxEth iface f.len) f.data := by
      unfold icmpRxEth
      rw [if_neg large, Peek.withinBind, be16Word, ipv4, if_neg (by decide), Peek.withinBe16]
      exact ⟨by unfold ETH_HDR_LEN at *; omega, within⟩
    refine ⟨⟨_, ?_, fun _ => ethHeaderSays _⟩, ?_⟩
    · rw [Peek.valueBind, arpRxOther other]
      exact ethValue.trans value
    · rw [Peek.withinBind, arpRxOther other]
      exact ⟨arpRxOtherWithin other, ethWithin⟩

/-- A reply to `f` as it leaves: a 20-byte header and, `h` bytes from its start, the
request's message with everything that followed it. -/
structure Echoed (iface : Iface) (f : Frame) (buf : Buf) (h n : Nat) (reply : Frame) : Prop where
  len : reply.len = ipStart iface + (h + n)
  version : reply.data (ipStart iface) = 0x45
  header : ihl reply.data (ipStart iface) = 20
  total : totalLength reply.data (ipStart iface) = h + n
  fragment : beWord reply.data (ipStart iface + 6) = 0
  proto : reply.data (ipStart iface + 9) = IP_PROTO_ICMP
  source : ∀ i < 4, reply.data (ipStart iface + 12 + i) = iface.ip i
  target : ∀ i < 4, reply.data (ipStart iface + 16 + i) = f.data (ipStart iface + (12 + i))
  link : ∀ p < ipStart iface, reply.data p = buf p
  headerSum : h = 20 → netChecksum reply.data (ipStart iface) 20 = 0
  type : reply.data (ipStart iface + h) = ICMP_ECHO_REPLY
  message : ∀ i, 1 ≤ i → i < n → i ≠ 2 ∧ i ≠ 3 →
    reply.data (ipStart iface + h + i) = f.data (ipStart iface + h + i)
  sum : fold (wordSum (fun i => f.data (ipStart iface + h + i)) 0 n) = 65535 →
    (netChecksum reply.data (ipStart iface + h) n = 0 ↔
      beWord f.data (ipStart iface + h + 2) = 0 ∨ beWord f.data (ipStart iface + h + 2) = 65535)

section echoed

variable {buf : Buf} {h n : Nat} {reply : Frame}

theorem echoReplyEchoed (large : 20 ≤ h) (long : 8 ≤ n) (small : h + n ≤ NET_MAX_FRAME)
    (type : f.data (ipStart iface + h) = ICMP_ECHO_REQUEST) :
    Echoed iface f buf h n (echoReply iface buf (ipStart iface)
      (fun i => f.data (ipStart iface + i)) h (fun i => f.data (ipStart iface + h + i)) n) := by
  obtain ⟨first, total, fragment, proto, source, target, before⟩ :=
    @echoReplySays iface buf (fun i => f.data (ipStart iface + i))
      (fun i => f.data (ipStart iface + h + i)) (ipStart iface) h n large
  refine ⟨rfl, first, ?_, ?_, fragment, proto, source, target, before, echoReplyHeaderSum,
    echoReplyType, fun i low high => echoReplyMessage low high, echoReplySum long type⟩
  · unfold ihl
    rw [first]
    rfl
  · unfold totalLength NET_MAX_FRAME at *
    rw [total]
    omega

theorem messageValid (options : ihl f.data (ipStart iface) = h) (request : EchoRequest iface f)
    (unpadded : totalLength f.data (ipStart iface) = h + n) :
    fold (wordSum (fun i => f.data (ipStart iface + h + i)) 0 n) = 65535 := by
  have valid := netChecksumZero.mp request.packet.sum
  rw [options, unpadded, Nat.add_sub_cancel_left] at valid
  rw [← valid]
  exact congrArg fold (wordSumCongr fun i _ => by rw [Nat.zero_add])

variable (echoed : Echoed iface f buf h n reply) (options : ihl f.data (ipStart iface) = h)
  (rest : f.len = ipStart iface + (h + n)) (request : EchoRequest iface f)
include echoed options rest request

theorem answerPlain (up : iface.up = true) (answer : EchoAnswer iface f reply) :
    EchoReached iface f := by
  have header := request.packet.header
  have room := request.packet.room
  have whole := request.packet.whole
  have same := answer.length
  have sum := answer.packet.sum
  rw [echoed.header, echoed.total] at same sum
  rw [options] at same header room
  have plain : h = 20 := by omega
  have unpadded : totalLength f.data (ipStart iface) = h + n := by omega
  have valid := messageValid options request unpadded
  refine ⟨up, options.trans plain, by omega, ?_⟩
  rw [plain, Nat.add_sub_cancel_left, ← plain] at sum
  rw [options]
  exact (echoed.sum valid).mp sum

theorem plainAnswers (reached : EchoReached iface f) (linked : iface.type = .ethernet →
    beWord buf 12 = ETH_TYPE_IPV4 ∧ ∀ i < 6, buf i = f.data (6 + i) ∧ buf (6 + i) = iface.mac i) :
    EchoAnswer iface f reply := by
  obtain ⟨up, plain, unpadded, noSum⟩ := reached
  have room := request.packet.room
  have size : totalLength f.data (ipStart iface) = h + n := by omega
  have valid := messageValid options request size
  rw [options] at plain noSum room
  have ethernet : iface.type = .ethernet → ipStart iface = 14 := by
    intro type
    rw [ipStart, type]
    rfl
  have headerSize := echoed.header
  rw [← plain] at headerSize
  constructor
  · intro type
    have := ethernet type
    refine (beWordCongr (echoed.link 12 (by omega)) (echoed.link 13 (by omega))).trans ?_
    exact (linked type).1
  · intro type i low
    have := ethernet type
    rw [echoed.link i (by omega), echoed.link (6 + i) (by omega)]
    exact (linked type).2 i low
  · constructor
    · rw [echoed.version]
      rfl
    · omega
    · rw [headerSize, echoed.total]
      omega
    · rw [echoed.total, echoed.len]
      omega
    · rw [echoed.fragment]
      rfl
    · exact echoed.proto
    · rw [echoed.header]
      exact echoed.headerSum plain
    · rw [headerSize]
      exact echoed.type
    · rw [headerSize, echoed.message 1 (by omega) (by omega) (by omega), ← options]
      exact request.packet.code
    · rw [headerSize, echoed.total, Nat.add_sub_cancel_left]
      exact (echoed.sum valid).mpr noSum
  · exact echoed.source
  · intro i low
    rw [echoed.target i low, Nat.add_assoc]
  · rw [headerSize, echoed.total, options, size]
  · intro i low high
    rw [size, options] at high
    rw [headerSize, options]
    exact echoed.message i (by omega) (by omega) (by omega)

end echoed

theorem echoServedIff (small : f.len ≤ NET_MAX_FRAME) (request : EchoRequest iface f) :
    EchoServed iface f ↔ EchoReached iface f := by
  obtain ⟨⟨buf, value, linked⟩, inside⟩ := echoValue request
  have header := request.packet.header
  have room := request.packet.room
  have whole := request.packet.whole
  have echoed := @echoReplyEchoed iface f buf (ihl f.data (ipStart iface))
    (f.len - ipStart iface - ihl f.data (ipStart iface)) header (by omega) (by omega)
    request.packet.type
  have rest : f.len = ipStart iface + (ihl f.data (ipStart iface) +
    (f.len - ipStart iface - ihl f.data (ipStart iface))) := by omega
  unfold EchoServed answered
  rw [value, Option.bind_some]
  constructor
  · rintro ⟨⟨r, sent, answer⟩, -⟩
    obtain ⟨up, rfl⟩ := transmitted sent
    exact answerPlain echoed rfl rest request up answer
  · intro reached
    refine ⟨⟨_, if_neg ?_, plainAnswers echoed rfl rest request reached linked⟩, inside⟩
    rw [reached.up, echoed.len, ← rest]
    simp
    omega

def RepliesRight (iface : Iface) (f : Frame) : Prop :=
  (iface.type = .ethernet → ArpRequest iface f → ArpServed iface f) ∧
    (EchoRequest iface f → EchoServed iface f)

def RepliesReached (iface : Iface) (f : Frame) : Prop :=
  (iface.type = .ethernet → ArpRequest iface f → ArpReached iface f) ∧
    (EchoRequest iface f → EchoReached iface f)

/-- For every frame that net_rx passes on, requests are answered exactly in these cases. -/
theorem repliesRightIff (iface : Iface) {f : Frame} (small : f.len ≤ NET_MAX_FRAME) :
    RepliesRight iface f ↔ RepliesReached iface f :=
  and_congr (imp_congr_right fun ethernet => imp_congr_right fun request =>
    arpServedIff ethernet request) (imp_congr_right fun request => echoServedIff small request)

def bytesOf (bytes : List Byte) : Frame := ⟨fun o => bytes.getD o 0, bytes.length⟩

def nic : Iface where
  mac := (bytesOf [0x52, 0x54, 0x00, 0x12, 0x34, 0x56]).data
  ip := (bytesOf [10, 0, 2, 15]).data
  type := .ethernet
  up := true

def whoHas : Frame := bytesOf ([0xff, 0xff, 0xff, 0xff, 0xff, 0xff, 0x52, 0x55, 0x0a, 0x00, 0x02,
  0x02, 0x08, 0x06, 0x00, 0x01, 0x08, 0x00, 0x06, 0x04, 0x00, 0x01, 0x52, 0x55, 0x0a, 0x00, 0x02,
  0x02, 10, 0, 2, 2, 0, 0, 0, 0, 0, 0, 10, 0, 2, 15] ++ List.replicate 18 0)

def ping (sum payload : List Byte) : Frame := bytesOf ([0x52, 0x54, 0x00, 0x12, 0x34, 0x56, 0x52,
  0x55, 0x0a, 0x00, 0x02, 0x02, 0x08, 0x00, 0x45, 0, 0, 30, 0, 1, 0, 0, 64, 1, 0x62, 0xce, 10, 0, 2,
  2, 10, 0, 2, 15, 8, 0] ++ sum ++ [0x12, 0x34, 0, 1] ++ payload)

theorem repliesWrong :
    ¬ RepliesRight nic whoHas ∧ ¬ RepliesRight nic (ping [0x84, 0x68] [0x61, 0x62]) := by
  constructor
  · intro right
    have request : ArpRequest nic whoHas :=
      ⟨by decide, by decide, by decide, by decide, by decide, by decide, by decide, by decide⟩
    have silent : answered nic whoHas = none := by
      have : (answered nic whoHas).isNone = true := by decide +kernel
      exact Option.isNone_iff_eq_none.mp this
    obtain ⟨⟨r, sent, _⟩, _⟩ := right.1 rfl request
    exact nomatch silent.symm.trans sent
  · intro right
    have request : EchoRequest nic (ping [0x84, 0x68] [0x61, 0x62]) := by
      refine ⟨fun _ => by decide, ⟨by decide, by decide, by decide, by decide, by decide, by decide,
        ?_, by decide, by decide, ?_⟩, by decide⟩
      · decide +kernel
      · decide +kernel
    have reached := (echoServedIff (by decide) request).mp (right.2 request)
    exact absurd reached.noSum (by decide)

theorem repliesToZeroSum : RepliesRight nic (ping [0, 0] [0xe5, 0xca]) :=
  (repliesRightIff nic (by decide)).mpr
    ⟨fun _ request => absurd request.type (by decide), fun _ =>
      ⟨rfl, by decide, by decide, by decide⟩⟩

end Scepter.Net
