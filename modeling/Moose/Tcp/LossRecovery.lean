import Moose.Tcp.Congestion

/-!
# Loss recovery

The sender half of `sack.rs` (SACK, DSACK, RACK, TLP), `eifel.rs`, `frto.rs` and the estimators of
`timestamp.rs`. These functions mark segments of the queue and rewrite congestion state; apart from
the Eifel response none of them touches a sequence variable.
-/

set_option autoImplicit false

namespace Moose.Tcp.TcpControlBlock

/-! ## SACK -/

/-- Restores the window a spurious recovery cut, and widens the reordering window. -/
def sackDsackUndo (t : TcpControlBlock) : TcpControlBlock :=
  let t :=
    if t.sack.undoPending then
      let cwnd := max t.sack.undoCwnd t.smss
      { t with
        cc := { t.cc with
          cwnd := cwnd
          ssthresh := t.sack.undoSsthresh
          inFastRecovery := false
          cwv := { t.cc.cwv with cwndRaw := cwnd } }
        sack := { t.sack with undoPending := false } }
    else t
  { t with sack := { t.sack with
    rackReorderWindow := max (satMul64 t.sack.rackReorderWindow 2) (Duration.fromMillis 1)
    rackReorderWindowPersist := min (t.sack.rackReorderWindowPersist + 16) 255 } }

end TcpControlBlock

def SackBlock.covers (b : SackBlock) (seq endSeq : SeqNum) : Bool :=
  0 ≤ SeqNum.dist seq b.left && 0 ≤ SeqNum.dist b.right endSeq

/-- A block marks the segments it covers that are not SACKed yet. -/
def SackBlock.mark (b : SackBlock) (s : UnackedSegment) : UnackedSegment :=
  if !s.sacked && b.covers s.seq s.endSeq then { s with sacked := true, lost := false } else s

namespace TcpControlBlock

/-- One block of `sack_tx_apply`: at or below the cumulative ACK it reports a duplicate. -/
def sackTxApplyBlock (ack : SeqNum) (t : TcpControlBlock) (b : SackBlock) : TcpControlBlock :=
  if SeqNum.dist b.right ack ≤ 0 then t.sackDsackUndo
  else
    let covered := t.snd.retransmissionQueue.any fun s => !s.sacked && b.covers s.seq s.endSeq
    { t with
      snd := { t.snd with retransmissionQueue := t.snd.retransmissionQueue.map b.mark }
      sack := { t.sack with
        highSacked :=
          if covered && 0 < SeqNum.dist b.right t.sack.highSacked then b.right
          else t.sack.highSacked } }

def sackTxApply (t : TcpControlBlock) (ack : SeqNum) (blocks : List SackBlock) :
    TcpControlBlock :=
  blocks.foldl (sackTxApplyBlock ack) t

def sackEnterRecovery (t : TcpControlBlock) : TcpControlBlock :=
  { t with sack := { t.sack with
    undoCwnd := t.cc.cwnd, undoSsthresh := t.cc.ssthresh, undoPending := true } }

end TcpControlBlock

def dupThresh : Nat := 3

def sackBytesAbove (queue : List UnackedSegment) (seq : SeqNum) : Nat :=
  (queue.filter fun s => s.sacked && 0 ≤ SeqNum.dist s.seq seq).foldl
    (fun acc s => satAdd32 acc s.seqLen) 0

/-- Marks the first segment that starts at `seq` as lost, unless it is SACKed. -/
def markLostAt (seq : SeqNum) : List UnackedSegment → List UnackedSegment
  | [] => []
  | s :: rest =>
    if s.seq = seq then (if s.sacked then s else { s with lost := true }) :: rest
    else s :: markLostAt seq rest

/-- The loop of `sack_mark_lost` over the segments that were not SACKed when it started. -/
def sackMarkLost (smss : Nat) (queue : List UnackedSegment) : List UnackedSegment :=
  ((queue.filter fun s => !s.sacked).map (·.seq)).foldl
    (fun q seq => if sackBytesAbove q seq < min (dupThresh * smss) (2 ^ 32 - 1) then q
      else markLostAt seq q) queue

def sackHasLost (queue : List UnackedSegment) : Bool := queue.any fun s => s.lost && !s.sacked

/-- RACK marks a segment that was sent more than the reordering window before the newest SACKed
one. -/
def rackMark (xmitTs : Instant) (window : Duration) (s : UnackedSegment) : UnackedSegment :=
  if !s.sacked && !s.lost && s.xmitMstamp < xmitTs && window < xmitTs - s.xmitMstamp then
    { s with lost := true }
  else s

namespace SackState

/-- The newest transmission that is known to have arrived, and the RTT it shows. -/
def rackNoteDelivery (s : SackState) (newest : Option Instant) (now : Instant) : SackState :=
  match newest with
  | some xmitTs =>
    if s.rackXmitTs < xmitTs then
      { s with
        rackXmitTs := xmitTs
        rackMinRtt := if xmitTs < now then min s.rackMinRtt (now - xmitTs) else s.rackMinRtt }
    else s
  | none => s

/-- `rack_update_reordering_winow`. -/
def rackUpdateReorderingWindow (s : SackState) : SackState :=
  if 0 < s.rackReorderWindowPersist then
    { s with rackReorderWindowPersist := s.rackReorderWindowPersist - 1 }
  else { s with rackReorderWindow := s.rackMinRtt / 4 }

end SackState

namespace TcpControlBlock

variable (t : TcpControlBlock)

def rackDetect (now : Instant) : TcpControlBlock :=
  let newest := ((t.snd.retransmissionQueue.filter (·.sacked)).map (·.xmitMstamp)).max?
  let sack := (t.sack.rackNoteDelivery newest now).rackUpdateReorderingWindow
  { t with
    snd := { t.snd with
      retransmissionQueue :=
        t.snd.retransmissionQueue.map (rackMark sack.rackXmitTs sack.rackReorderWindow) }
    sack := sack }

def tlpArm (now : Instant) : TcpControlBlock :=
  if t.snd.retransmissionQueue.isEmpty || t.cc.inFastRecovery then
    { t with sack := { t.sack with tlpDeadline := none } }
  else
    let srtt := t.rtt.srtt.getD (Duration.fromMillis 200)
    let rttvar := t.rtt.rttvar.getD (Duration.fromMillis 50)
    let pto :=
      if 1 < t.snd.retransmissionQueue.length then
        max (satMul64 srtt 2) (Duration.fromMillis 10)
      else max (satAdd64 srtt (satMul64 rttvar 4)) (Duration.fromMillis 200)
    { t with sack := { t.sack with tlpDeadline := some (satAdd64 now pto) } }

/-! ## Spurious timeouts -/

def eifelIwBytes : Nat := 4380

/-- Snapshot before the window is cut on a timeout. -/
def eifelOnRtoBeforeMd : TcpControlBlock :=
  if !t.ts.enabled then t
  else
    { t with
      frto := t.frto.clear
      eifel := { t.eifel with
        pipePrev := some (max t.flightSizeBytes t.cc.ssthresh)
        sndMax := some t.snd.nxt
        bytesAcked := 0 } }

def eifelClearPending : TcpControlBlock := { t with eifel := .new }

/-- The timeout is judged spurious by this acknowledgement. -/
def eifelSpurious (tsecr : Option (BitVec 32)) (ece : Bool) : Bool :=
  match t.eifel.retransmitTs, tsecr with
  | some retransmitTs, some tsecr => SeqNum.dist tsecr retransmitTs < 0 && !ece
  | _, _ => false

/-- The value SND.NXT takes in the response: SND.NXT as it was at the timeout, unless that has
been acknowledged. -/
def eifelSndNxt : SeqNum :=
  let sndMax := t.eifel.sndMax.getD t.snd.nxt
  if 0 ≤ SeqNum.dist sndMax t.snd.una then sndMax else t.snd.nxt

def eifelOnAcceptableAck (tsecr : Option (BitVec 32)) (ece : Bool) : TcpControlBlock :=
  if t.eifel.retransmitTs.isNone then t
  else if !t.eifelSpurious tsecr ece then t.eifelClearPending
  else
    let flight := t.flightSizeBytes
    let cwnd := satAdd32 flight (min t.eifel.bytesAcked eifelIwBytes)
    { t with
      cc := { t.cc with
        cwnd := cwnd
        ssthresh := t.eifel.pipePrev.getD flight
        inFastRecovery := false
        cwv := { t.cc.cwv with cwndRaw := cwnd }
        abc := t.cc.abc.clearAccumulators }
      snd := { t.snd with nxt := t.eifelSndNxt }
      eifel := .new }

/-- Arms F-RTO. The guard is the wrong way round: the callers get here only without timestamps,
and then it returns at once. -/
def frtoOnRto (rtoRetransEnd : SeqNum) : TcpControlBlock :=
  if !t.ts.enabled then t
  else
    { t with
      frto := ⟨.step1, t.snd.nxt, rtoRetransEnd, t.cc.cwnd, t.cc.ssthresh⟩
      eifel := .new }

def frtoDeclareSpurious : TcpControlBlock :=
  let cwnd := max (satAdd32 t.flightSizeBytes t.smss) (2 * t.smss)
  { t with
    cc := { t.cc with
      ssthresh := max t.frto.prevSsthresh (max (2 * t.smss) t.cc.ssthresh)
      cwnd := cwnd
      inFastRecovery := false
      cwv := { t.cc.cwv with cwndRaw := cwnd }
      abc := t.cc.abc.clearAccumulators }
    eifel := .new
    frto := t.frto.clear }

def frtoOnAck (isDup : Bool) : TcpControlBlock :=
  if t.ts.enabled then { t with frto := t.frto.clear }
  else
    match t.frto.phase with
    | .idle => t
    | .step1 =>
      if isDup then { t with frto := t.frto.clear }
      else
        { t with
          frto := { t.frto with phase := .step2 }
          cc := { t.cc with
            cwnd := max t.cc.cwnd t.smss
            cwv := { t.cc.cwv with cwndRaw := max t.cc.cwv.cwndRaw t.smss } } }
    | .step2 =>
      if isDup then { t with frto := t.frto.clear } else t.frtoDeclareSpurious

/-! ## Round-trip times -/

end TcpControlBlock

/-- SRTT and RTTVAR after the sample `r`. The products are 64-bit. -/
def RttState.estimate (s : RttState) (r : Duration) : Option (Duration × Duration) :=
  match s.srtt, s.rttvar with
  | some srtt, some rttvar =>
    if 3 * rttvar < 2 ^ 64 ∧ 7 * srtt < 2 ^ 64 then
      some (7 * srtt / 8 + r / 8, 3 * rttvar / 4 + (max srtt r - min srtt r) / 4)
    else none
  | _, _ => some (r, r / 2)

namespace TcpControlBlock

/-- One sample for the estimators, the timeout, and the smallest RTT of RACK. -/
def updateRttEstimators (t : TcpControlBlock) (r : Duration) : Option TcpControlBlock :=
  (t.rtt.estimate r).map fun (srtt, rttvar) =>
    { t with
      rtt := { t.rtt with
        srtt := some srtt
        rttvar := some rttvar
        rto := min (max (satAdd64 srtt (satMul64 rttvar 4)) (Duration.fromSecs 1))
          (Duration.fromSecs 60) }
      sack := { t.sack with rackMinRtt := min t.sack.rackMinRtt r } }

def pawsIdle : Duration := Duration.fromSecs (24 * 24 * 3600)

/-- `tcp_ts_now`: milliseconds with the bias of the connection. -/
def tcpTsNow (t : TcpControlBlock) (now : Instant) : BitVec 32 :=
  BitVec.ofNat 32 (now / 1000000) + t.ts.offset

/-- PAWS and TS.Recent; `none` drops the segment. -/
def onRxTimestamp (t : TcpControlBlock) (now : Instant) (segSeq : SeqNum) (tsval : BitVec 32)
    (isSyn isRst : Bool) : Option TcpControlBlock :=
  if !t.ts.enabled then some t
  else
    let idle := pawsIdle < now - t.ts.recentAge
    if !isRst && !isSyn && !idle && t.ts.tsRecent != 0 &&
        SeqNum.dist tsval t.ts.tsRecent < 0 then none
    else if 0 ≤ SeqNum.dist segSeq t.ts.lastAckTsSeq || isSyn then
      some { t with ts := { t.ts with
        tsRecent := tsval, lastAckTsSeq := segSeq, recentAge := now } }
    else some t

end Moose.Tcp.TcpControlBlock
