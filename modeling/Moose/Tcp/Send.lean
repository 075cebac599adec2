import Moose.Tcp.LossRecovery

/-!
# The send path

`driver/send.rs`, `driver/retransmit.rs` and the retransmission timer of `driver/timer.rs`, as far
as they change the control block. What goes out on the wire is the new entry of the queue, or the
entry that was marked as retransmitted.
-/

set_option autoImplicit false

namespace Moose.Tcp.TcpControlBlock

variable (t : TcpControlBlock)

/-- `apply_outgoing_ecn`: owed marks go on the header; CWR is owed once, on data. -/
def applyOutgoingEcn (flags : Flags) (data : List UInt8) : TcpControlBlock × Flags :=
  if !t.ecn.enabled then (t, flags)
  else
    let flags := if t.ecn.echoPending && flags.ack then { flags with ece := true } else flags
    if t.ecn.cwrPending && !data.isEmpty then
      ({ t with ecn := { t.ecn with cwrPending := false } }, { flags with cwr := true })
    else (t, flags)

/-- Puts a segment at SND.NXT on the queue and steps SND.NXT over it. -/
def enqueue (data : List UInt8) (flags : Flags) (len : Nat) (now : Instant) : TcpControlBlock :=
  { t with snd := { t.snd with
    retransmissionQueue :=
      t.snd.retransmissionQueue ++
        [.new t.snd.nxt data { flags with cwr := false } now]
    nxt := t.snd.nxt + BitVec.ofNat 32 len } }

def closeConnection (now : Instant) : TcpControlBlock :=
  let close (state : TcpState) : TcpControlBlock :=
    let r := t.applyOutgoingEcn { fin := true, ack := true } []
    { r.1.enqueue [] r.2 1 now with state := state }
  match t.state with
  | .established | .synReceived => close .finWait1
  | .closeWait => close .lastAck
  | _ => t

/-! ## The send loop -/

/-- The windows do not let anything out: book-keeping of window validation, and the persist
timer. -/
def sendBlocked (inFlight : Nat) (now : Instant) : TcpControlBlock :=
  let cc :=
    if inFlight < t.snd.wnd ∧ t.cc.cwnd ≤ inFlight then cwvNoteValidated t.cc
    else cwvNoteAppLimited t.cc now
  let t := { t with cc := cc }
  if t.timers.persistTimer.isNone then
    { t with timers := { t.timers with
      persistTimer := some (satAdd64 now (Duration.fromMillis 50))
      persistBackoff := Duration.fromMillis 50 } }
  else t

/-- Times the segment that is about to go out, unless one is being timed. -/
def armProbe (len : Nat) (now : Instant) : TcpControlBlock :=
  if t.rtt.probe.isNone then
    { t with rtt := { t.rtt with
      probe := some ⟨t.snd.nxt, t.snd.nxt + BitVec.ofNat 32 len, now⟩ } }
  else t

/-- Window validation when `flightAfter` bytes will be in flight: the window counts as validated
if that fills it. -/
def noteSent (flightAfter : Nat) (now : Instant) : TcpControlBlock :=
  let cc := { t.cc with cwv := { t.cc.cwv with
    pipeMax := max t.cc.cwv.pipeMax flightAfter
    lastDataTx := now
    appLimitedSince := none } }
  { t with
    cc := if cc.cwnd ≤ flightAfter ∧ cc.cwnd ≤ t.snd.wnd then cwvNoteValidated cc else cc }

def schedulePacing (sendLen : Nat) (now : Instant) : TcpControlBlock :=
  match pacingGapFor t sendLen with
  | some gap => { t with pacing := { t.pacing with nextTx := some (satAdd64 now gap) } }
  | none => { t with pacing := t.pacing.clearDeadline }

/-- Carves `sendLen` bytes off the send buffer, queues and sends them. -/
def sendSegment (inFlight sendLen : Nat) (now : Instant) : TcpControlBlock :=
  let data := t.snd.sendBuffer.take sendLen
  let t := { t with snd := { t.snd with sendBuffer := t.snd.sendBuffer.drop sendLen } }
  let r := t.applyOutgoingEcn { ack := true, psh := true } data
  let t := (r.1.armProbe data.length now).noteSent (satAdd32 inFlight sendLen) now
  ((t.enqueue data r.2 sendLen now).tlpArm now).schedulePacing sendLen now

/-- One round of `process_send_queue`; the flag says whether a segment went out and the loop goes
on. -/
def sendRound (now : Instant) : TcpControlBlock × Bool :=
  if t.snd.sendBuffer.isEmpty then
    ({ t with cc := cwvNoteAppLimited t.cc now, pacing := t.pacing.clearDeadline }, false)
  else if pacingShouldHold t now then (t, false)
  else
    let inFlight := t.flightSizeBytes
    let t := { t with cc := { t.cc with cwv := { t.cc.cwv with
      pipeMax := max t.cc.cwv.pipeMax inFlight } } }
    let mss := t.neg.effectiveMss
    if t.nagleEnabled && t.frto.phase != .step2 && 0 < inFlight &&
        t.snd.sendBuffer.length < mss then
      ({ t with cc := cwvNoteAppLimited t.cc now }, false)
    else
      let effectiveWnd := min t.snd.wnd t.cc.cwnd
      if effectiveWnd ≤ inFlight ∨ t.snd.wnd = 0 then (t.sendBlocked inFlight now, false)
      else
        let t := { t with timers := { t.timers with persistTimer := none } }
        let sendLen := min (min t.snd.sendBuffer.length (effectiveWnd - inFlight)) mss
        if sendLen = 0 then (t, false) else (t.sendSegment inFlight sendLen now, true)

def sendLoop (now : Instant) : Nat → TcpControlBlock → TcpControlBlock
  | 0, t => t
  | fuel + 1, t =>
    match t.sendRound now with
    | (t, true) => sendLoop now fuel t
    | (t, false) => t

/-- Every round that goes on takes at least one byte off the send buffer. -/
def processSendQueue (now : Instant) : TcpControlBlock :=
  sendLoop now (t.snd.sendBuffer.length + 1) t

def sendData (data : List UInt8) (now : Instant) : Except TcpError TcpControlBlock :=
  if t.state ≠ .established ∧ t.state ≠ .closeWait then .error .notConnected
  else
    .ok ({ t with snd := { t.snd with sendBuffer := t.snd.sendBuffer ++ data } }.processSendQueue
      now)

/-! ## Retransmission -/

end TcpControlBlock

inductive RetransmitCause where
  | rto | fastRetransmit | partialAck
deriving DecidableEq

namespace TcpControlBlock

variable (t : TcpControlBlock)

/-- The entry of the queue that is sent again. -/
def retransmitIndex (partialAck : Option SeqNum) : Option Nat :=
  let q := t.snd.retransmissionQueue
  if t.sack.enabled then
    (q.findIdx? fun s => s.lost && !s.sacked).or (q.findIdx? fun s => !s.sacked)
  else
    match partialAck with
    | some ack => q.findIdx? fun s => SeqNum.dist ack s.endSeq < 0
    | none => if q.isEmpty then none else some 0

def modifySegment (i : Nat) (f : UnackedSegment → UnackedSegment) : TcpControlBlock :=
  { t with snd := { t.snd with retransmissionQueue := t.snd.retransmissionQueue.modify i f } }

/-- A timeout with timestamps arms Eifel detection: the TSval of the retransmission is kept. -/
def armEifel (cause : RetransmitCause) (i : Nat) (now : Instant) : TcpControlBlock :=
  if cause = .rto && t.ts.enabled then
    let tsval := t.tcpTsNow now
    { t with eifel := { t.eifel with retransmitTs := some tsval } }.modifySegment i
      fun s => { s with retransmitTsval := some tsval }
  else t

def retransmitMatching (cause : RetransmitCause)
    (partialAck : Option SeqNum) (now : Instant) : TcpControlBlock :=
  match t.retransmitIndex partialAck with
  | none => t
  | some i =>
    let t := (t.armEifel cause i now).modifySegment i fun s =>
      { s with xmitMstamp := now, retrans := true, lost := false }
    match t.snd.retransmissionQueue[i]? with
    | some s => (t.applyOutgoingEcn { s.flags with cwr := false } s.data).1
    | none => t

/-- Drops the segments a cumulative acknowledgement covers. -/
def drainRetransmissionQueue (ack : SeqNum) : TcpControlBlock :=
  { t with snd := { t.snd with
    retransmissionQueue :=
      t.snd.retransmissionQueue.filter fun s => SeqNum.dist ack s.endSeq < 0 } }

/-! ## The retransmission timer -/

/-- The window after a timeout. -/
def rtoCongestion (flight : Nat) (now : Instant) : Congestion :=
  let smss := t.smss
  let c := t.cc
  let c :=
    match c.algo with
    | .cubic cubic =>
      let ssthresh := max ((flight * cubic.beta) >>> 10 % 2 ^ 32) (2 * smss)
      { c with
        ssthresh := ssthresh
        algo := .cubic { cubic with
          epochStart := now, kNs := 0, wMax := ssthresh, lastMaxCwnd := ssthresh, recover := 0 } }
    | .reno _ => { c with ssthresh := max (flight / 2) (2 * smss), algo := .reno 0 }
  { c with
    cwnd := smss
    cwv := { c.cwv with cwndRaw := smss }
    abc := c.abc.clearAccumulators }

/-- The head of the queue is timed anew and a recovery is over. A timeout during F-RTO ends it. -/
def retimeHead (nestedAbort : Bool) (now : Instant) : TcpControlBlock :=
  { t with
    snd := { t.snd with
      retransmissionQueue := t.snd.retransmissionQueue.modify 0
        fun s => { s with sendTime := now, retries := s.retries + 1 } }
    frto := if nestedAbort then t.frto.clear else t.frto
    cc := { t.cc with inFastRecovery := false, duplicateAckCount := 0 } }

/-- The detectors of spurious timeouts take their snapshots. -/
def armDetectors (seg : UnackedSegment) (nestedAbort : Bool) : TcpControlBlock :=
  if t.ts.enabled then t.eifelOnRtoBeforeMd
  else if !nestedAbort then t.frtoOnRto seg.endSeq
  else t.eifelClearPending

/-- A probe that times the segment is given up. -/
def cancelProbe (seq : SeqNum) : TcpControlBlock :=
  match t.rtt.probe with
  | some p => if p.seq = seq then { t with rtt := { t.rtt with probe := none } } else t
  | none => t

/-- The timeout response for the segment at the head of the queue. -/
def onRto (seg : UnackedSegment) (now : Instant) : TcpControlBlock :=
  let flight := t.flightSizeBytes
  let nestedAbort := !t.ts.enabled && t.frto.phase != .idle
  let t := (t.retimeHead nestedAbort now).armDetectors seg nestedAbort
  let t := { t with
    cc := t.rtoCongestion flight now
    rtt := { t.rtt with rto := min (satMul64 t.rtt.rto 2) (Duration.fromSecs 60) } }
  t.cancelProbe seg.seq

/-- `tick_retransmission_timer`; the flag says whether the head of the queue is to be sent
again. -/
def tickRetransmissionTimer (now : Instant) : TcpControlBlock × Bool :=
  if t.state = .closed then (t, false)
  else
    match t.snd.retransmissionQueue.head? with
    | none => (t, false)
    | some seg =>
      if now - seg.sendTime < t.rtt.rto then (t, false)
      else if 5 ≤ seg.retries then
        ({ t with state := .closed, lastError := some .timeout }, false)
      else (t.onRto seg now, true)

/-- The timer thread's part for one block: the tick and the retransmission it asks for. -/
def retransmissionTimeout (now : Instant) : TcpControlBlock :=
  match t.tickRetransmissionTimer now with
  | (t, true) => t.retransmitMatching .rto none now
  | (t, false) => t

end Moose.Tcp.TcpControlBlock
