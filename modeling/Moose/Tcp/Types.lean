import Moose.Tcp.ReceiveBuffer

/-!
# The control block

`types.rs` and the state records of the sub-modules. The fields of `TcpControlBlock` are those of
the source, in groups: what one part of the driver owns is one record, so that a function which
returns only that record cannot touch the others. Counters that are only traced are left out, and
so are the socket, the wake-up events and the log.

Sequence numbers and timestamps are 32-bit words. The other integers are natural numbers; where the
source saturates the model does, and where it would overflow the model stops (`checked32`).
Times are nanoseconds since boot, and a call sees one reading of the clock.
-/

set_option autoImplicit false

namespace Moose.Tcp

/-! ## Machine integers and time -/

def checked32 (n : Nat) : Option Nat := if n < 2 ^ 32 then some n else none

def satAdd32 (a b : Nat) : Nat := min (a + b) (2 ^ 32 - 1)

abbrev Instant := Nat
abbrev Duration := Nat

/-- `u64::saturating_add` and `saturating_mul`; instants and durations are `u64`. -/
def satAdd64 (a b : Nat) : Nat := min (a + b) (2 ^ 64 - 1)
def satMul64 (a b : Nat) : Nat := min (a * b) (2 ^ 64 - 1)

def Duration.fromMillis (n : Nat) : Duration := n * 1000000
def Duration.fromSecs (n : Nat) : Duration := n * 1000000000

/-! ## Segments -/

structure Flags where
  fin : Bool := false
  syn : Bool := false
  rst : Bool := false
  psh : Bool := false
  ack : Bool := false
  urg : Bool := false
  ece : Bool := false
  cwr : Bool := false
deriving DecidableEq

/-- A parsed option. `sack` lists every pair of edges the option carries. -/
inductive TcpOption where
  | mss (value : Nat)
  | windowScale (shift : Nat)
  | timestamp (tsval tsecr : BitVec 32)
  | sackPermitted
  | sack (blocks : List SackBlock)
  | other

/-- What the handlers read of an incoming segment, with its options as parsed. -/
structure Segment where
  seq : SeqNum
  ack : SeqNum
  flags : Flags
  /-- the window field, not scaled -/
  window : BitVec 16
  payload : List UInt8
  options : List TcpOption := []
  /-- the IP header carries the CE mark -/
  ce : Bool := false

/-- `find_timestamp`: the first Timestamps option. -/
def findTimestamp (options : List TcpOption) : Option (BitVec 32 × BitVec 32) :=
  options.findSome? fun
    | .timestamp tsval tsecr => some (tsval, tsecr)
    | _ => none

/-- `parse_sack_blocks`: the first four non-empty blocks of the first SACK option. -/
def parseSackBlocks (options : List TcpOption) : List SackBlock :=
  let blocks := options.findSome? fun
    | .sack blocks => some blocks
    | _ => none
  ((blocks.getD []).filter fun b => 0 < SeqNum.dist b.right b.left).take 4

inductive TcpState where
  | closed | listen | synSent | synReceived | established | finWait1 | finWait2 | closeWait
  | closing | lastAck | timeWait
deriving DecidableEq

inductive TcpError where
  | connectionRefused | timeout | noRoute | connectionReset | notConnected

/-- A segment that was sent and is not yet acknowledged. -/
structure UnackedSegment where
  seq : SeqNum
  data : List UInt8
  flags : Flags
  sendTime : Instant
  retries : Nat
  retransmitTsval : Option (BitVec 32)
  sacked : Bool
  lost : Bool
  xmitMstamp : Instant
  retrans : Bool

namespace UnackedSegment

/-- A fresh entry of the queue. -/
def new (seq : SeqNum) (data : List UInt8) (flags : Flags) (now : Instant) : UnackedSegment :=
  ⟨seq, data, flags, now, 0, none, false, false, now, false⟩

def isSyn (s : UnackedSegment) : Bool := s.flags.syn
def isFin (s : UnackedSegment) : Bool := s.flags.fin

def seqLen (s : UnackedSegment) : Nat := if s.isSyn || s.isFin then 1 else s.data.length

def endSeq (s : UnackedSegment) : SeqNum := s.seq + BitVec.ofNat 32 s.seqLen

end UnackedSegment

/-! ## Sub-states -/

structure CubicState where
  wMax : Nat
  epochStart : Instant
  kNs : Nat
  lastMaxCwnd : Nat
  beta : Nat
  c : Nat
  recover : SeqNum
deriving DecidableEq

inductive CongestionControl where
  | reno (recover : SeqNum)
  | cubic (state : CubicState)
deriving DecidableEq

/-- The point an ACK must cover to end Fast Recovery. -/
def CongestionControl.recover : CongestionControl → SeqNum
  | .reno recover => recover
  | .cubic state => state.recover

/-- `NewCwvState`. -/
structure CwvState where
  enabled : Bool
  validated : Bool
  pipeMax : Nat
  lastDataTx : Instant
  appLimitedSince : Option Instant
  cwndRaw : Nat

structure AbcState where
  lSmss : Nat
  caAccum : Nat
  caAccumRaw : Nat

def AbcState.clearAccumulators (a : AbcState) : AbcState := { a with caAccum := 0, caAccumRaw := 0 }

structure Congestion where
  algo : CongestionControl
  cwnd : Nat
  ssthresh : Nat
  inFastRecovery : Bool
  duplicateAckCount : Nat
  cwv : CwvState
  abc : AbcState

structure RttProbe where
  seq : SeqNum
  endSeq : SeqNum
  sentAt : Instant

structure RttState where
  rto : Duration
  srtt : Option Duration
  rttvar : Option Duration
  probe : Option RttProbe

/-- `TcpTimestampState`. -/
structure TimestampState where
  enabled : Bool
  tsRecent : BitVec 32
  lastAckTsSeq : SeqNum
  recentAge : Instant
  offset : BitVec 32
deriving DecidableEq

structure EifelState where
  pipePrev : Option Nat
  retransmitTs : Option (BitVec 32)
  sndMax : Option SeqNum
  bytesAcked : Nat

def EifelState.new : EifelState := ⟨none, none, none, 0⟩

inductive FrtoPhase where
  | idle | step1 | step2
deriving DecidableEq

structure FrtoState where
  phase : FrtoPhase
  recoverNxt : SeqNum
  rtoRetransEnd : SeqNum
  prevCwnd : Nat
  prevSsthresh : Nat
deriving DecidableEq

def FrtoState.new : FrtoState := ⟨.idle, 0, 0, 0, 0⟩

def FrtoState.clear (f : FrtoState) : FrtoState := { f with phase := .idle }

/-- `TcpEcnState`. -/
structure EcnState where
  enabled : Bool
  echoPending : Bool
  cwrPending : Bool

structure PacingState where
  enabled : Bool
  nextTx : Option Instant

/-- The sender half of `SackRackState`; the scoreboard of received ranges is part of `Receiver`. -/
structure SackState where
  enabled : Bool
  highSacked : SeqNum
  undoCwnd : Nat
  undoSsthresh : Nat
  undoPending : Bool
  rackMinRtt : Duration
  rackXmitTs : Instant
  rackReorderWindow : Duration
  rackReorderWindowPersist : Nat
  tlpDeadline : Option Instant
  tlpHighRxt : SeqNum
  tlpIsRetrans : Bool

def SackState.new (now : Instant) : SackState :=
  ⟨false, 0, 0, 0, false, Duration.fromSecs 60, now, 0, 0, none, 0, false⟩

/-! ## The block -/

/-- The send sequence variables, the queue of unacknowledged segments and the bytes that wait. -/
structure Sender where
  una : SeqNum
  nxt : SeqNum
  /-- the peer's window, already scaled -/
  wnd : Nat
  wl1 : SeqNum
  wl2 : SeqNum
  iss : SeqNum
  retransmissionQueue : List UnackedSegment
  sendBuffer : List UInt8

structure Timers where
  ackNeeded : Bool
  ackDeadline : Option Instant
  unackedSegments : Nat
  persistTimer : Option Instant
  persistBackoff : Duration
  lastRxTime : Instant
  keepaliveDeadline : Option Instant
  keepaliveCount : Nat
  timewaitDeadline : Option Instant

structure Negotiated where
  peerMss : Nat
  rcvWscale : Nat
  sndWscale : Nat
  wndScaleEnabled : Bool
  effectiveMss : Nat

structure TcpControlBlock where
  state : TcpState
  lastError : Option TcpError
  nagleEnabled : Bool
  snd : Sender
  rx : Receiver UInt8
  irs : SeqNum
  rcvWnd : Nat
  maxRcvWnd : Nat
  timers : Timers
  rtt : RttState
  cc : Congestion
  neg : Negotiated
  ts : TimestampState
  eifel : EifelState
  frto : FrtoState
  ecn : EcnState
  pacing : PacingState
  sack : SackState

structure TcpSessionSettings where
  nagleEnabled : Bool
  recvBufSize : Nat
  rcvWscale : Nat
  cwvEnabled : Bool
  pacingEnabled : Bool
  wndScaleEnabled : Bool
  sackEnabled : Bool
  timestampsEnabled : Bool
  ecnEnabled : Bool
  receiveBufferSize : Nat

/-- `MSS` and `DEFAULT_MSS`. -/
def mss : Nat := 1460
def initialCwnd : Nat := 1512
def initialSsthresh : Nat := 0x7fffffff
def defaultTcpRecvBufferBytes : Nat := 4096
def maxTcpRecvBufferBytes : Nat := 256 * 1024
def tcpTsOptionOverhead : Nat := 12

def clampTcpReceiveBufferBytes (requested : Nat) : Nat :=
  let cap := if 0 < requested then requested else defaultTcpRecvBufferBytes
  if maxTcpRecvBufferBytes < cap then maxTcpRecvBufferBytes
  else max cap defaultTcpRecvBufferBytes

namespace TcpControlBlock

/-- `tsOffset` is the random bias of outgoing timestamps. -/
def new (iss : SeqNum) (settings : TcpSessionSettings) (tsOffset : BitVec 32) (now : Instant) :
    TcpControlBlock where
  state := .closed
  lastError := none
  nagleEnabled := settings.nagleEnabled
  snd := ⟨iss, iss, 0, 0, 0, iss, [], []⟩
  rx := ⟨0, .new (clampTcpReceiveBufferBytes settings.receiveBufferSize), [], none⟩
  irs := 0
  rcvWnd := 0
  maxRcvWnd := 0
  timers := ⟨false, none, 0, none, Duration.fromMillis 500, now, none, 0, none⟩
  rtt := ⟨Duration.fromSecs 1, none, none, none⟩
  cc :=
    { algo := .cubic ⟨0, now, 0, 0, 717, 410, 0⟩
      cwnd := initialCwnd
      ssthresh := initialSsthresh
      inFastRecovery := false
      duplicateAckCount := 0
      cwv := ⟨settings.cwvEnabled, true, 0, now, none, initialCwnd⟩
      abc := ⟨2, 0, 0⟩ }
  neg := ⟨mss, 0, 0, false, mss⟩
  ts := ⟨false, 0, 0, now, tsOffset⟩
  eifel := .new
  frto := .new
  ecn := ⟨false, false, false⟩
  pacing := ⟨settings.pacingEnabled, none⟩
  sack := .new now

variable (t : TcpControlBlock)

def smss : Nat := max t.neg.effectiveMss 1

def flightSizeBytes : Nat := (t.snd.nxt - t.snd.una).toNat

def recomputeEffectiveMss : TcpControlBlock :=
  let m := min mss t.neg.peerMss
  let m := if t.ts.enabled then m - tcpTsOptionOverhead else m
  { t with neg := { t.neg with effectiveMss := max m 1 } }

def effectiveRcvWnd : Option Nat :=
  t.rx.receiveBuffer.freeSpace.map fun free => min free t.maxRcvWnd

def updateRcvWndFromBuffer : Option TcpControlBlock :=
  t.effectiveRcvWnd.map fun wnd => { t with rcvWnd := min wnd 65535 }

/-- A window field of the peer in bytes; the shift is at most 14. -/
def scalePeerWindow (wireWnd : Nat) : Nat :=
  if t.neg.wndScaleEnabled && 0 < t.neg.sndWscale then (wireWnd <<< t.neg.sndWscale) % 2 ^ 32
  else wireWnd

def maybeUpdateSendWindow (segSeq segAck : SeqNum) (wireWnd : Nat) : TcpControlBlock :=
  let seqNewer := 0 < SeqNum.dist segSeq t.snd.wl1
  let ackNewerSameSeq := t.snd.wl1 = segSeq ∧ 0 ≤ SeqNum.dist segAck t.snd.wl2
  if seqNewer ∨ ackNewerSameSeq then
    { t with snd := { t.snd with wnd := t.scalePeerWindow wireWnd, wl1 := segSeq, wl2 := segAck } }
  else t

/-- An acknowledgement of SND.UNA itself passes as well. -/
def isAcceptableAck (ack : SeqNum) : Bool :=
  (ack - t.snd.una).toNat ≤ (t.snd.nxt - t.snd.una).toNat

def isInReceiveWindow (seq : SeqNum) : Bool :=
  let rcvNxt := t.rx.rcvNxt
  let wndEnd := rcvNxt + BitVec.ofNat 32 t.rcvWnd
  if rcvNxt.toNat ≤ wndEnd.toNat then rcvNxt.toNat ≤ seq.toNat && seq.toNat < wndEnd.toNat
  else rcvNxt.toNat ≤ seq.toNat || seq.toNat < wndEnd.toNat

/-- The first or the last byte of the segment is in the window. -/
def isSegmentAcceptable (seq : SeqNum) (len : Nat) : Bool :=
  if len = 0 then
    if t.rcvWnd = 0 then seq == t.rx.rcvNxt else t.isInReceiveWindow seq
  else t.isInReceiveWindow seq || t.isInReceiveWindow (seq + BitVec.ofNat 32 (len - 1))

def canSend (n : Nat) : Bool :=
  t.flightSizeBytes + n < 2 ^ 32 && t.flightSizeBytes + n ≤ t.snd.wnd

/-- Steps RCV.NXT over the FIN and moves the state machine, whatever data may still be missing. -/
def handleFinFlag (now : Instant) : TcpControlBlock :=
  let t := { t with
    rx := { t.rx with rcvNxt := t.rx.rcvNxt + 1 }
    timers := { t.timers with ackNeeded := true } }
  match t.state with
  | .established => { t with state := .closeWait }
  | .finWait1 => { t with state := .closing }
  | .finWait2 =>
    { t with
      state := .timeWait
      timers := { t.timers with timewaitDeadline := some (satAdd64 now (Duration.fromSecs 120)) } }
  | _ => t

end TcpControlBlock

/-- Buffer and window settings of a new block. -/
def TcpSessionSettings.applyReceivePath (s : TcpSessionSettings) (t : TcpControlBlock) :
    Option TcpControlBlock :=
  let bufCap := max s.recvBufSize 1
  { t with
    rx := { t.rx with receiveBuffer := .new bufCap }
    maxRcvWnd := bufCap % 2 ^ 32
    neg := { t.neg with rcvWscale := s.rcvWscale, wndScaleEnabled := s.wndScaleEnabled }
      }.updateRcvWndFromBuffer

end Moose.Tcp
