import Moose.Tcp.Connection

/-!
# The timer thread and the wire

`driver/timer.rs` and the tail-loss probe of `sack.rs`. A pass of the timer thread over a block
decides under the lock what is due, and does it after the lock is dropped; anything may happen in
between. `Endpoint` is a block with what the thread still has to do for it and with two histories:
every segment that was ever put on the retransmission queue, and every byte that `send_data` took.

A step puts out the segments it transmits. A pure acknowledgement occupies no sequence number and is
left out; a keepalive occupies none either, but is listed.
-/

set_option autoImplicit false

namespace Moose.Tcp

/-- What the timer thread does once the lock is dropped. -/
inductive Due where
  | ack | retransmit | tailLoss | windowProbe | keepalive | pacingRelease
deriving DecidableEq

/-- What goes out: entries of the queue once more, new entries, and segments that are not on the
queue. -/
structure Sent where
  again : List SentCore := []
  fresh : List SentCore := []
  probes : List SentCore := []

def Sent.all (s : Sent) : List SentCore := s.again ++ s.fresh ++ s.probes

namespace TcpControlBlock

/-! ## Under the lock -/

variable (t : TcpControlBlock)

/-- A tail-loss probe is due, unless the retransmission timer fired. -/
def tickTailLoss (retransmit : Bool) (now : Instant) : TcpControlBlock × Bool :=
  match t.sack.tlpDeadline with
  | some deadline =>
    if !retransmit && deadline ≤ now then
      ({ t with sack := { t.sack with tlpDeadline := none } }, true)
    else (t, false)
  | none => (t, false)

variable (now : Instant)

def tickPersistTimer : TcpControlBlock × Bool :=
  match t.timers.persistTimer with
  | some deadline =>
    if deadline ≤ now then
      let backoff := min (satMul64 t.timers.persistBackoff 2) (Duration.fromSecs 60)
      ({ t with timers := { t.timers with
        persistBackoff := backoff, persistTimer := some (satAdd64 now backoff) } },
        !t.snd.sendBuffer.isEmpty)
    else (t, false)
  | none => (t, false)

/-- `KEEPALIVE_IDLE`, `KEEPALIVE_INTERVAL` and `KEEPALIVE_MAX_PROBES`. -/
def keepaliveIdle : Duration := Duration.fromSecs 30
def keepaliveInterval : Duration := Duration.fromSecs 5
def keepaliveMaxProbes : Nat := 3

/-- The timer is armed by silence and due at once then. -/
def keepaliveDue : Bool :=
  match t.timers.keepaliveDeadline with
  | some deadline => deadline ≤ now
  | none => keepaliveIdle ≤ now - t.timers.lastRxTime

def tickKeepaliveTimer : TcpControlBlock × Bool :=
  if t.state ≠ .established then
    ({ t with timers := { t.timers with keepaliveDeadline := none } }, false)
  else if !t.keepaliveDue now then (t, false)
  else if keepaliveMaxProbes ≤ t.timers.keepaliveCount then
    ({ t with
      state := .closed
      lastError := some .timeout
      timers := { t.timers with keepaliveDeadline := none } }, false)
  else
    ({ t with timers := { t.timers with
      keepaliveCount := t.timers.keepaliveCount + 1
      keepaliveDeadline := some (satAdd64 now keepaliveInterval) } }, true)

def tickDelayedAck : TcpControlBlock × Bool :=
  match t.timers.ackDeadline with
  | some deadline =>
    if deadline ≤ now then
      ({ t with timers := { t.timers with
        ackDeadline := none, ackNeeded := false, unackedSegments := 0 } }, true)
    else (t, false)
  | none => (t, false)

def pacingDue : Bool :=
  t.pacing.enabled && !t.snd.sendBuffer.isEmpty &&
    match t.pacing.nextTx with
    | some deadline => deadline ≤ now
    | none => true

def tickTimeWait : TcpControlBlock :=
  match t.timers.timewaitDeadline with
  | some deadline =>
    if t.state = .timeWait ∧ deadline ≤ now then { t with state := .closed } else t
  | none => t

/-- The part of `tcp_timer_thread` that runs under the lock, with what is due in the order in which
it is done. -/
def tick : TcpControlBlock × List Due :=
  if t.state = .closed then (t, [])
  else
    let (t, retransmit) := t.tickRetransmissionTimer now
    let (t, tailLoss) := t.tickTailLoss retransmit now
    let (t, windowProbe) := t.tickPersistTimer now
    let (t, keepalive) := t.tickKeepaliveTimer now
    let (t, ack) := t.tickDelayedAck now
    let pacing := t.pacingDue now
    (t.tickTimeWait now,
      [(ack, Due.ack), (retransmit, .retransmit), (tailLoss, .tailLoss),
        (windowProbe, .windowProbe), (keepalive, .keepalive), (pacing, .pacingRelease)].filterMap
        fun (flag, due) => if flag then some due else none)

/-! ## What goes out -/

/-- The entry of the queue that `retransmit_matching` sends. -/
def sentByRetransmit (partialAck : Option SeqNum) : List SentCore :=
  (((t.retransmitIndex partialAck).bind (t.snd.retransmissionQueue[·]?)).map (·.core)).toList

/-- The entries that `t'` has behind those of `t`. -/
def queuedSince (t t' : TcpControlBlock) : List SentCore :=
  (t'.sndView.queue).drop t.sndView.queue.length

def sentBySendQueue : List SentCore :=
  t.queuedSince (t.processSendQueue now)

def sentByCarryOut (plan : Plan) (now : Instant) : Sent :=
  let t1 := if plan.fastRetransmit then t.retransmitMatching .fastRetransmit none now else t
  let t2 :=
    match plan.partialRetransmitAck with
    | some ack => t1.retransmitMatching .partialAck (some ack) now
    | none => t1
  { again :=
      (if plan.fastRetransmit then t.sentByRetransmit none else []) ++
        match plan.partialRetransmitAck with
        | some ack => t1.sentByRetransmit (some ack)
        | none => []
    fresh := if plan.runSendQueue then t2.sentBySendQueue now else [] }

def sentByDatagram (M : CubicMath) (t : TcpControlBlock) (seg : Segment) (now : Instant) : Sent :=
  if t.isOldDuplicate seg then {}
  else
    match t.checkSegment seg now with
    | some (t, true) =>
      match t.processChecked M seg now with
      | some (t, plan, _) => t.sentByCarryOut plan now
      | none => {}
    | _ => {}

def sentByData (M : CubicMath) (t : TcpControlBlock) (seg : Segment) (now : Instant) : Sent :=
  match t.state with
  | .synReceived =>
    if seg.flags.rst ∨ !seg.flags.ack ∨ !t.isAcceptableAck seg.ack ∨
      (seg.payload.isEmpty && seg.options.isEmpty) then {}
    else (t.establish seg.ack).sentByDatagram M seg now
  | .established =>
    if seg.flags.syn && seg.flags.ack then {} else t.sentByDatagram M seg now
  | .finWait1 | .finWait2 | .closeWait | .closing | .lastAck => t.sentByDatagram M seg now
  | _ => {}

/-- The send buffer with the new bytes at its end. -/
def accept (data : List UInt8) : TcpControlBlock :=
  { t with snd := { t.snd with sendBuffer := t.snd.sendBuffer ++ data } }

/-- What `send_data` takes. -/
def acceptedBy : Event → List UInt8
  | .sendData data _ => if t.state ≠ .established ∧ t.state ≠ .closeWait then [] else data
  | _ => []

def sentBy (M : CubicMath) (t : TcpControlBlock) : Event → Sent
  | .segment seg now => t.sentByData M seg now
  | .sendData data now =>
    if t.state ≠ .established ∧ t.state ≠ .closeWait then {}
    else { fresh := (t.accept data).sentBySendQueue now }
  | .sendQueue now => { fresh := t.sentBySendQueue now }
  | .timeout now =>
    match t.tickRetransmissionTimer now with
    | (t, true) => { again := t.sentByRetransmit none }
    | (_, false) => {}
  | .close now => { fresh := t.queuedSince (t.closeConnection now) }
  | .read _ => {}

/-- `tlp_send_probe_unlocked`: new data if the peer's window allows it, and otherwise the last entry
of the queue once more. -/
def tlpSendProbe : TcpControlBlock × Sent :=
  if !t.snd.sendBuffer.isEmpty && t.canSend 1 then
    let t := { t with sack := { t.sack with tlpIsRetrans := false, tlpHighRxt := t.snd.nxt } }
    (t.processSendQueue now, { fresh := t.sentBySendQueue now })
  else
    match t.snd.retransmissionQueue.getLast? with
    | none => (t, {})
    | some s =>
      let t := t.modifySegment (t.snd.retransmissionQueue.length - 1)
        fun s => { s with xmitMstamp := now, retrans := true }
      let t := { t with sack := { t.sack with tlpIsRetrans := true, tlpHighRxt := t.snd.nxt } }
      ((t.applyOutgoingEcn { s.flags with cwr := false } s.data).1, { again := [s.core] })

/-- `send_window_probe_unlocked`: the first byte that waits, at SND.NXT, which does not move. -/
def sendWindowProbe : TcpControlBlock × Sent :=
  match t.snd.sendBuffer with
  | [] => (t, {})
  | b :: _ =>
    let r := t.applyOutgoingEcn { ack := true } [b]
    (r.1, { probes := [⟨t.snd.nxt, [b], r.2⟩] })

/-- `send_keepalive_probe_unlocked`: no data, one number below SND.UNA. -/
def sendKeepaliveProbe : TcpControlBlock × Sent :=
  let r := t.applyOutgoingEcn { ack := true } []
  (r.1, { probes := [⟨t.snd.una - 1, [], r.2⟩] })

def perform : Due → TcpControlBlock × Sent
  | .ack => ((t.applyOutgoingEcn { ack := true } []).1, {})
  | .retransmit => (t.retransmitMatching .rto none now, { again := t.sentByRetransmit none })
  | .tailLoss => t.tlpSendProbe now
  | .windowProbe => t.sendWindowProbe
  | .keepalive => t.sendKeepaliveProbe
  | .pacingRelease => (t.processSendQueue now, { fresh := t.sentBySendQueue now })

end TcpControlBlock

/-! ## The machine -/

/-- A block with its timer thread, and with the segments it queued and the bytes it accepted so
far. -/
structure Endpoint where
  tcb : TcpControlBlock
  due : List Due := []
  log : List SentCore
  accepted : List UInt8 := []

/-- A call of the driver, a pass of the timer thread under the lock, or the next thing it has to
do. -/
inductive Activity where
  | call (e : Event)
  | tick (now : Instant)
  | act (now : Instant)

namespace Endpoint

/-- A block as an open leaves it. Its SYN has been sent. -/
def ofOpen (t : TcpControlBlock) : Endpoint where
  tcb := t
  log := t.sndView.queue

/-- One activity; the output is what was transmitted. The timer thread starts a new pass when it is
done with the last one. -/
def step (M : CubicMath) (s : Endpoint) : Activity → Option (Endpoint × List SentCore)
  | .call e => do
    let (t, _) ← s.tcb.step M e
    let sent := s.tcb.sentBy M e
    some ({ s with
      tcb := t, log := s.log ++ sent.fresh, accepted := s.accepted ++ s.tcb.acceptedBy e },
      sent.all)
  | .tick now =>
    match s.due with
    | [] =>
      let (t, due) := s.tcb.tick now
      some ({ s with tcb := t, due := due }, [])
    | _ :: _ => some (s, [])
  | .act now =>
    match s.due with
    | [] => some (s, [])
    | d :: due =>
      let (t, sent) := s.tcb.perform now d
      some ({ s with tcb := t, due := due, log := s.log ++ sent.fresh }, sent.all)

end Endpoint
end Moose.Tcp
