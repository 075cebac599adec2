import Moose.Tcp.Send

/-!
# The receive path

`driver/connect.rs` and `driver/recv.rs`: the two opens, the handshake, and
`process_data_datagram`, cut into the parts its comments name. A part that may panic is an
`Option`. The flags the source keeps until the lock is dropped are the record `Plan`.
-/

set_option autoImplicit false

namespace Moose.Tcp
namespace TcpControlBlock

/-! ## Opening a connection -/

def applyPeerTcpOption (segSeq : SeqNum) (now : Instant) (t : TcpControlBlock) :
    TcpOption → TcpControlBlock
  | .mss value => { t with neg := { t.neg with peerMss := value } }
  | .windowScale shift =>
    { t with neg := { t.neg with sndWscale := min shift 14, wndScaleEnabled := true } }
  | .timestamp tsval _ =>
    { t with ts := { t.ts with
      enabled := true, tsRecent := tsval, lastAckTsSeq := segSeq, recentAge := now } }
  | .sackPermitted => { t with sack := { t.sack with enabled := true } }
  | _ => t

variable (t : TcpControlBlock)

def applyPeerTcpOptions (options : List TcpOption) (segSeq : SeqNum)
    (now : Instant) : TcpControlBlock :=
  (options.foldl (applyPeerTcpOption segSeq now) t).recomputeEffectiveMss

/-- The block of an active open, with the SYN on its queue. -/
def connect (settings : TcpSessionSettings) (iss : SeqNum) (tsOffset : BitVec 32)
    (now : Instant) : Option TcpControlBlock := do
  let settings :=
    { settings with receiveBufferSize := clampTcpReceiveBufferBytes settings.receiveBufferSize }
  let t ← settings.applyReceivePath (.new iss settings tsOffset now)
  let flags : Flags := { syn := true, ece := settings.ecnEnabled, cwr := settings.ecnEnabled }
  some { t with
    state := .synSent
    snd := { t.snd with
      nxt := iss + 1
      retransmissionQueue := [.new iss [] flags now] }
    rtt := { t.rtt with probe := some ⟨iss, iss + 1, now⟩ } }

/-- The block of a passive open, with the SYN-ACK on its queue. -/
def processPassiveSyn (settings : TcpSessionSettings) (iss : SeqNum) (tsOffset : BitVec 32)
    (seg : Segment) (now : Instant) : Option TcpControlBlock := do
  let t ← settings.applyReceivePath (.new iss settings tsOffset now)
  let t := { t with
    state := .synReceived
    irs := seg.seq
    rx := { t.rx with rcvNxt := seg.seq + 1 } }
  let t := t.applyPeerTcpOptions seg.options seg.seq now
  let ecn := settings.ecnEnabled && seg.flags.ece && seg.flags.cwr
  let flags : Flags := { syn := true, ack := true, ece := ecn }
  some { t with
    ecn := { t.ecn with enabled := ecn }
    snd := { t.snd with
      wnd := t.scalePeerWindow seg.window.toNat
      wl1 := seg.seq
      wl2 := seg.ack
      nxt := iss + 1
      retransmissionQueue := [.new iss [] flags now] } }

/-- The RTT sample of an echoed timestamp, in milliseconds from `low` to a minute. -/
def sampleTimestamp (now : Instant) (tsecr : BitVec 32) (low : Nat) : Option TcpControlBlock :=
  let rttMs := (t.tcpTsNow now - tsecr).toNat
  if tsecr ≠ 0 ∧ low ≤ rttMs ∧ rttMs < 60000 then
    t.updateRttEstimators (Duration.fromMillis rttMs)
  else some t

def synAckTimestamp (seg : Segment) (now : Instant) : Option TcpControlBlock :=
  match findTimestamp seg.options with
  | none => some t
  | some (tsval, tsecr) =>
    let t := { t with ts := { t.ts with enabled := true } }
    let t := (t.onRxTimestamp now seg.seq tsval true false).getD t
    (t.sampleTimestamp now tsecr 1).map recomputeEffectiveMss

/-- Completes the RTT probe the acknowledgement covers. -/
def completeProbe (ack : SeqNum) (now : Instant) : Option TcpControlBlock :=
  match t.rtt.probe with
  | none => some t
  | some p =>
    if 0 ≤ SeqNum.dist ack p.endSeq then
      let t := { t with rtt := { t.rtt with probe := none } }
      if !t.ts.enabled then t.updateRttEstimators (now - p.sentAt) else some t
    else some t

/-- The peer refuses the connection. -/
def refused : TcpControlBlock :=
  { t with
    state := .closed
    lastError := some .connectionReset
    snd := { t.snd with retransmissionQueue := [] }
    rtt := { t.rtt with probe := none } }

/-- `process_syn_ack`: the block it leaves, and whether the call returns. When the connection is
established the function opens the gate of the waiting thread through `tcb.read()`. The guard of
its own `tcb.write()` is still alive there, so it waits for itself with the lock held and
interrupts off. -/
def answerSynAck (seg : Segment) (now : Instant) : Option (TcpControlBlock × Bool) :=
  if seg.flags.rst then some (t.refused, true)
  else if t.state ≠ .synSent then some (t, true)
  else if !t.isAcceptableAck seg.ack then some (t, true)
  else do
    let t := t.applyPeerTcpOptions seg.options seg.seq now
    let t ← t.synAckTimestamp seg now
    let t ← t.completeProbe seg.ack now
    -- the probe is taken whether or not the acknowledgement covers it
    let t := { t with
      rtt := { t.rtt with probe := none }
      ecn := { t.ecn with enabled := seg.flags.ece && !seg.flags.cwr }
      irs := seg.seq
      rx := { t.rx with rcvNxt := seg.seq + 1 }
      snd := { t.snd with
        wnd := t.scalePeerWindow seg.window.toNat, wl1 := seg.seq, wl2 := seg.ack,
        una := seg.ack } }
    some ({ t.drainRetransmissionQueue seg.ack with state := .established }, false)

/-- A SYN-ACK the driver comes back from. An accepted one is not among them. -/
def processSynAck (seg : Segment) (now : Instant) : Option TcpControlBlock := do
  let (t, returns) ← t.answerSynAck seg now
  if returns then some t else none

end TcpControlBlock

/-! ## An incoming segment -/

/-- What is left to do once the lock is dropped. -/
structure Plan where
  sendAck : Bool := false
  fastRetransmit : Bool := false
  dupRecoveryInflate : Bool := false
  partialRetransmitAck : Option SeqNum := none
  runSendQueue : Bool := false

namespace TcpControlBlock

variable (t : TcpControlBlock) (seg : Segment)

/-- The segment carries data, all of it below RCV.NXT. -/
def isOldDuplicate : Bool :=
  !seg.payload.isEmpty && !seg.flags.rst &&
    SeqNum.dist (seg.seq + BitVec.ofNat 32 seg.payload.length) t.rx.rcvNxt ≤ 0

/-- ECN, receive side. -/
def noteEcn : TcpControlBlock :=
  if !t.ecn.enabled then t
  else
    { t with ecn := { t.ecn with
      echoPending := (t.ecn.echoPending || seg.ce) && !seg.flags.cwr } }

/-- RST, the ACK bit, ECN and timestamps; the flag says whether the segment is processed
further. -/
def checkSegment (now : Instant) : Option (TcpControlBlock × Bool) :=
  if seg.flags.rst then
    some ({ t with state := .closed, lastError := some .connectionReset }, false)
  else if !seg.flags.ack then some (t, false)
  else
    let t := t.noteEcn seg
    match findTimestamp seg.options with
    | none => some (t, !t.ts.enabled)
    | some (tsval, tsecr) =>
      match t.onRxTimestamp now seg.seq tsval seg.flags.syn false with
      | none => some (t, false)
      | some t => (t.sampleTimestamp now tsecr 0).map (·, true)

variable (M : CubicMath)

/-- ECE on an acceptable ACK cuts the window once. -/
def eceReaction (t : TcpControlBlock) (seg : Segment) (now : Instant) :
    Option (TcpControlBlock × Bool) :=
  if t.isAcceptableAck seg.ack && t.ecn.enabled && seg.flags.ece && !t.ecn.cwrPending &&
      !t.cc.inFastRecovery then
    (onCongestionEvent M now t).map fun cc =>
      ({ t with cc := cc, ecn := { t.ecn with cwrPending := true } }, true)
  else some (t, false)

/-! ### Acknowledgements -/

/-- Fast Recovery ends when the ACK covers the recovery point, and otherwise asks for the next
hole. -/
def ackInRecovery (ack : SeqNum) : Option (TcpControlBlock × Option SeqNum) :=
  if !t.cc.inFastRecovery then some (t, none)
  else if 0 ≤ SeqNum.dist ack t.cc.algo.recover then
    some ({ t with cc := { t.cc with
      inFastRecovery := false
      cwnd := t.cc.ssthresh
      cwv := { t.cc.cwv with cwndRaw := t.cc.ssthresh }
      abc := t.cc.abc.clearAccumulators } }, none)
  else
    (checked32 (t.cc.ssthresh + 3 * t.smss)).map fun cwnd =>
      ({ t with cc := { t.cc with cwnd := cwnd, cwv := { t.cc.cwv with cwndRaw := cwnd } } },
        some ack)

/-- SND.UNA moves, and the detectors of a spurious timeout see the ACK. -/
def advanceUna : TcpControlBlock :=
  let bytesAcked := (seg.ack - t.snd.una).toNat
  let t := { t with
    snd := { t.snd with una := seg.ack }
    cc := { t.cc with duplicateAckCount := 0 }
    eifel := { t.eifel with bytesAcked := bytesAcked } }
  if t.ts.enabled then
    t.eifelOnAcceptableAck ((findTimestamp seg.options).map (·.2)) seg.flags.ece
  else t.frtoOnAck false

/-- SACK blocks and loss detection. -/
def detectLoss (now : Instant) : TcpControlBlock :=
  if !t.sack.enabled then t
  else
    let t := t.sackTxApply seg.ack (parseSackBlocks seg.options)
    let t := { t with snd := { t.snd with
      retransmissionQueue := sackMarkLost t.smss t.snd.retransmissionQueue } }
    t.rackDetect now

def enterRecovery (t : TcpControlBlock) (now : Instant) : Option TcpControlBlock :=
  let t := if t.sack.enabled then t.sackEnterRecovery else t
  let t := { t with cc := { t.cc with inFastRecovery := true } }
  (onCongestionEvent M now t).map fun cc => { t with cc := cc }

/-- Our FIN has been acknowledged. -/
def finAcked (priorState : TcpState) (now : Instant) : TcpControlBlock :=
  match priorState with
  | .finWait1 => { t with state := .finWait2 }
  | .closing =>
    { t with
      state := .timeWait
      timers := { t.timers with timewaitDeadline := some (satAdd64 now (Duration.fromSecs 120)) } }
  | .lastAck => { t with state := .closed }
  | _ => t

/-- Loss reported with an advancing ACK starts a recovery. -/
def recoverIfLost (t : TcpControlBlock) (now : Instant) : Option (TcpControlBlock × Bool) :=
  if t.sack.enabled && !t.cc.inFastRecovery && sackHasLost t.snd.retransmissionQueue then
    (t.enterRecovery M now).map (·, true)
  else some (t, false)

def growWindow (t : TcpControlBlock) (bytesAcked : Nat) (now : Instant) : TcpControlBlock :=
  { t with cc := updateCongestionWindow M now t bytesAcked }

/-- An ACK above SND.UNA. -/
def ackAdvances (t : TcpControlBlock) (seg : Segment) (now : Instant)
    (plan : Plan) : Option (TcpControlBlock × Plan) := do
  let bytesAcked := (seg.ack - t.snd.una).toNat
  let (t, partialAck) ← t.ackInRecovery seg.ack
  let hadFin := t.snd.retransmissionQueue.any (·.isFin)
  let priorState := t.state
  let t ← (t.advanceUna seg).completeProbe seg.ack now
  let (t, lost) ← ((t.growWindow M bytesAcked now).detectLoss seg now).recoverIfLost M now
  let t := (t.drainRetransmissionQueue seg.ack).tlpArm now
  let t :=
    if hadFin && !t.snd.retransmissionQueue.any (·.isFin) then t.finAcked priorState now else t
  some (t, { plan with
    partialRetransmitAck := partialAck, fastRetransmit := lost, runSendQueue := true })

/-- A duplicate ACK is counted and its SACK blocks are looked at. -/
def countDuplicate (count : Nat) (now : Instant) : TcpControlBlock :=
  let t := { t with cc := { t.cc with duplicateAckCount := count } }
  let t := if !t.ts.enabled then t.frtoOnAck true else t
  t.detectLoss seg now

/-- The third duplicate, or a loss, starts a recovery; later ones inflate the window. -/
def reactToDuplicate (t : TcpControlBlock) (now : Instant) (plan : Plan) :
    Option (TcpControlBlock × Plan) :=
  let lostNow := t.sack.enabled && sackHasLost t.snd.retransmissionQueue
  if !t.cc.inFastRecovery && (t.cc.duplicateAckCount = 3 || lostNow) then
    (t.enterRecovery M now).map
      (·, { plan with fastRetransmit := true, runSendQueue := true })
  else if t.cc.inFastRecovery then
    some ({ t with cc := { t.cc with
      cwnd := satAdd32 t.cc.cwnd t.smss
      cwv := { t.cc.cwv with cwndRaw := satAdd32 t.cc.cwv.cwndRaw t.smss } } },
      { plan with dupRecoveryInflate := true, runSendQueue := true })
  else some (t, plan)

/-- An ACK of SND.UNA itself, without data, while something is outstanding. -/
def ackDuplicates (t : TcpControlBlock) (seg : Segment) (now : Instant)
    (plan : Plan) : Option (TcpControlBlock × Plan) := do
  let count ← checked32 (t.cc.duplicateAckCount + 1)
  (t.countDuplicate seg count now).reactToDuplicate M now plan

/-- The acknowledgement of a segment. Sequence numbers are compared as plain integers here. -/
def processAck (t : TcpControlBlock) (seg : Segment) (now : Instant) :
    Option (TcpControlBlock × Plan) := do
  let sendAck := t.ecn.enabled && t.ecn.echoPending && seg.ce
  let acceptable := t.isAcceptableAck seg.ack
  let (t, reacted) ← t.eceReaction M seg now
  let plan : Plan := { sendAck := sendAck, runSendQueue := reacted }
  if !acceptable then some (t, { plan with sendAck := true })
  else if t.snd.una.toNat < seg.ack.toNat then t.ackAdvances M seg now plan
  else if seg.ack = t.snd.una && seg.payload.isEmpty &&
      !t.snd.retransmissionQueue.isEmpty then t.ackDuplicates M seg now plan
  else if seg.ack.toNat < t.snd.una.toNat then some (t, { plan with sendAck := true })
  else some (t, plan)

/-! ### Data -/

/-- Data ahead of a gap: kept if SACK is on. The number is how many bytes were stored. -/
def receiveOutOfOrder : Option (TcpControlBlock × Nat) :=
  if !t.sack.enabled then some (t, 0)
  else do
    let (_, n) ← t.rx.receiveBuffer.writeAt t.rx.rcvNxt seg.seq seg.payload
    let rx ← t.rx.sackReceiveOutOfOrder seg.seq seg.payload
    let t ← { t with rx := rx }.updateRcvWndFromBuffer
    some (t, n)

end TcpControlBlock

/-- Data at RCV.NXT, put into the ring. -/
def Receiver.storeInOrder (sack : Bool) (r : Receiver UInt8) (seg : Segment) :
    Option (TcpReceiveBuffer UInt8 × Nat) :=
  if sack then r.receiveBuffer.writeAt r.rcvNxt seg.seq seg.payload
  else r.receiveBuffer.write seg.payload

/-- RCV.NXT steps over `n` new bytes and over the ranges that have become adjacent. -/
def Receiver.advanceRcvNxt (sack : Bool) (r : Receiver UInt8) (b : TcpReceiveBuffer UInt8)
    (n : Nat) : Receiver UInt8 :=
  let r := { r with receiveBuffer := b, rcvNxt := r.rcvNxt + BitVec.ofNat 32 n }
  if sack then r.sackRxAdvanceFromScoreboard else r

namespace TcpControlBlock

variable (t : TcpControlBlock)

def oweAck : TcpControlBlock :=
  { t with timers := { t.timers with
    ackNeeded := true, unackedSegments := t.timers.unackedSegments + 1 } }

variable (seg : Segment)

/-- The payload of an acceptable segment; the flag asks for an immediate ACK. -/
def receivePayload : Option (TcpControlBlock × Bool × Nat) :=
  if seg.payload.isEmpty then
    some (if t.rcvWnd = 0 then t.oweAck else t, false, 0)
  else if seg.seq ≠ t.rx.rcvNxt then
    (t.receiveOutOfOrder seg).map fun (t, n) => (t, true, n)
  else do
    let (b, n) ← t.rx.storeInOrder t.sack.enabled seg
    if n = 0 then some ({ t with rx := { t.rx with receiveBuffer := b } }, true, 0)
    else do
      let t ← { t with rx := t.rx.advanceRcvNxt t.sack.enabled b n }.updateRcvWndFromBuffer
      some (t.oweAck, false, n)

/-- An ACK that is owed goes out at once, or within 40 ms. -/
def decideAck (now : Instant) : TcpControlBlock × Bool :=
  if !t.timers.ackNeeded then (t, false)
  else if seg.flags.psh || seg.flags.fin || t.rcvWnd = 0 || 2 ≤ t.timers.unackedSegments then
    ({ t with timers := { t.timers with
      ackNeeded := false, unackedSegments := 0, ackDeadline := none } }, true)
  else
    ({ t with timers := { t.timers with
      ackDeadline := some (satAdd64 now (Duration.fromMillis 40)) } }, false)

/-- A valid segment from the peer was seen. -/
def noteArrival (now : Instant) : TcpControlBlock :=
  { t with timers := { t.timers with
    lastRxTime := now, keepaliveCount := 0, keepaliveDeadline := none } }

/-- The receive part: window test, data, FIN. The FIN of an acceptable segment is handled whether
or not its data could be stored. -/
def receiveSegment (now : Instant) (plan : Plan) : Option (TcpControlBlock × Plan × Nat) :=
  if !t.isSegmentAcceptable seg.seq seg.payload.length then
    some (t, { plan with sendAck := true }, 0)
  else do
    let t := (t.maybeUpdateSendWindow seg.seq seg.ack seg.window.toNat).noteArrival now
    let (t, ackNow, n) ← t.receivePayload seg
    let t := if seg.flags.fin then t.handleFinFlag now else t
    let (t, ackOwed) := t.decideAck seg now
    some (t, { plan with sendAck := plan.sendAck || ackNow || ackOwed, runSendQueue := true }, n)

/-- What follows when the lock is dropped. An ACK on its own changes nothing in the block. -/
def carryOut (plan : Plan) (now : Instant) : TcpControlBlock :=
  let t := if plan.fastRetransmit then t.retransmitMatching .fastRetransmit none now else t
  let t :=
    match plan.partialRetransmitAck with
    | some ack => t.retransmitMatching .partialAck (some ack) now
    | none => t
  if plan.runSendQueue then t.processSendQueue now else t

def reachesReceive (acceptable : Bool) (plan : Plan) : Bool :=
  acceptable && (!seg.payload.isEmpty || seg.flags.fin ||
    (!plan.sendAck && !plan.fastRetransmit && !plan.dupRecoveryInflate))

/-- The part that runs under the lock, for a segment that passed the checks. -/
def processChecked (M : CubicMath) (t : TcpControlBlock) (seg : Segment) (now : Instant) :
    Option (TcpControlBlock × Plan × Nat) := do
  let acceptable := t.isAcceptableAck seg.ack
  let (t, plan) ← t.processAck M seg now
  if reachesReceive seg acceptable plan then t.receiveSegment seg now plan
  else some (t, plan, 0)

/-- **`process_data_datagram`**; the number is how many bytes of the payload were stored. -/
def processDataDatagram (M : CubicMath) (t : TcpControlBlock) (seg : Segment) (now : Instant) :
    Option (TcpControlBlock × Nat) :=
  if t.isOldDuplicate seg then
    some (if seg.ce && t.ecn.enabled then { t with ecn := { t.ecn with echoPending := true } }
      else t, 0)
  else do
    let (t, go) ← t.checkSegment seg now
    if !go then some (t, 0)
    else do
      let (t, plan, n) ← t.processChecked M seg now
      some (t.carryOut plan now, n)

/-- The final ACK of a passive open. -/
def processSynReceivedAck (M : CubicMath) (t : TcpControlBlock) (seg : Segment)
    (now : Instant) : Option TcpControlBlock :=
  if seg.flags.rst then
    some { t with state := .closed, lastError := some .connectionReset }
  else if t.state ≠ .synReceived ∨ !seg.flags.ack ∨ !t.isAcceptableAck seg.ack then some t
  else
    let t := { t with snd := { t.snd with una := seg.ack } }
    let t := { t.drainRetransmissionQueue seg.ack with state := .established }
    if seg.payload.isEmpty && seg.options.isEmpty then some t
    else (t.processDataDatagram M seg now).map (·.1)

/-! ## The application's side -/

end TcpControlBlock

/-- What one round of `receive_sync` comes to. -/
inductive ReceiveResult where
  | error (e : TcpError)
  | data (bytes : List UInt8)
  | eof
  | blocked

def ReceiveResult.bytes : ReceiveResult → List UInt8
  | .data bytes => bytes
  | _ => []

/-- One round of `receive_sync` with room for `len` bytes. -/
def TcpControlBlock.receiveSync (t : TcpControlBlock) (len : Nat) :
    Option (TcpControlBlock × ReceiveResult) :=
  match t.lastError with
  | some e => some (t, .error e)
  | none => do
    let (b, out) ← t.rx.receiveBuffer.read len
    let t := { t with rx := { t.rx with receiveBuffer := b } }
    if out.isEmpty then
      some (t, if t.state = .closeWait ∨ t.state = .closed ∨ t.state = .lastAck ∨
        t.state = .timeWait then .eof else .blocked)
    else do
      let t ← t.updateRcvWndFromBuffer
      some (t, .data out)

/-! ## A connection to evaluate -/

/-- Everything optional off, and a ring of `capacity` bytes. -/
def TcpSessionSettings.plain (capacity : Nat) : TcpSessionSettings where
  nagleEnabled := false
  recvBufSize := capacity
  rcvWscale := 0
  cwvEnabled := false
  pacingEnabled := false
  wndScaleEnabled := false
  sackEnabled := true
  timestampsEnabled := false
  ecnEnabled := false
  receiveBufferSize := capacity

/-- The acknowledgement of our SYN with number 100, from a peer whose own had number 1000. -/
def Segment.ackOfSyn : Segment where
  seq := 1001
  ack := 101
  flags := { ack := true }
  window := 65535
  payload := []

/-- The SYN of that peer. -/
def Segment.peerSyn (window : BitVec 16) (options : List TcpOption) : Segment where
  seq := 1000
  ack := 0
  flags := { syn := true }
  window := window
  payload := []
  options := options

/-- A passive open from sequence number 100, to a SYN with the given options. -/
def TcpControlBlock.opened (capacity : Nat) (options : List TcpOption) :
    Option TcpControlBlock := do
  let t ← processPassiveSyn (.plain capacity) 100 0 (.peerSyn 65535 options) 0
  t.processSynReceivedAck .integer .ackOfSyn 0

end Moose.Tcp
