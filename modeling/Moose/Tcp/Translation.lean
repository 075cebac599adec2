import Moose.Tcp.Injection

/-!
# Translation of the send sequence space

`shift k` adds `k` to every send-side sequence number of a block, and to the acknowledgement and
SACK numbers of a segment. Every function of the receive path commutes with it, except for one
comparison: the handler orders SEG.ACK and SND.UNA as plain integers. `translates_iff` says that
this is the only obstacle.

`simps` says field by field what is shifted, and each function gets one lemma that moves the shift
from its arguments to its result; the lemmas of callers are proved by `simp` with those of callees.
-/

set_option autoImplicit false

namespace Moose.Tcp

open List Option Function Lib

/-! ## Shifts -/

section Shift

variable (k : SeqNum)

@[simps] def SackBlock.shift (b : SackBlock) : SackBlock := ⟨b.left + k, b.right + k⟩

def TcpOption.shift : TcpOption → TcpOption
  | .sack blocks => .sack (blocks.map (·.shift k))
  | o => o

/-- The acknowledgement and SACK numbers; SEG.SEQ belongs to the other direction. -/
@[simps] def Segment.shift (seg : Segment) : Segment :=
  { seg with ack := seg.ack + k, options := seg.options.map (·.shift k) }

@[simps] def UnackedSegment.shift (s : UnackedSegment) : UnackedSegment :=
  { s with seq := s.seq + k }

@[simps] def Sender.shift (s : Sender) : Sender :=
  { s with
    una := s.una + k
    nxt := s.nxt + k
    wl2 := s.wl2 + k
    iss := s.iss + k
    retransmissionQueue := s.retransmissionQueue.map (·.shift k) }

@[simps] def RttProbe.shift (p : RttProbe) : RttProbe := ⟨p.seq + k, p.endSeq + k, p.sentAt⟩

@[simps] def RttState.shift (r : RttState) : RttState := { r with probe := r.probe.map (·.shift k) }

def CongestionControl.shift : CongestionControl → CongestionControl
  | .reno recover => .reno (recover + k)
  | .cubic state => .cubic { state with recover := state.recover + k }

@[simps] def Congestion.shift (c : Congestion) : Congestion := { c with algo := c.algo.shift k }

@[simps] def EifelState.shift (e : EifelState) : EifelState :=
  { e with sndMax := e.sndMax.map (· + k) }

@[simps] def FrtoState.shift (f : FrtoState) : FrtoState :=
  { f with recoverNxt := f.recoverNxt + k, rtoRetransEnd := f.rtoRetransEnd + k }

@[simps] def SackState.shift (s : SackState) : SackState :=
  { s with highSacked := s.highSacked + k, tlpHighRxt := s.tlpHighRxt + k }

@[simps] def TcpControlBlock.shift (t : TcpControlBlock) : TcpControlBlock :=
  { t with
    snd := t.snd.shift k
    rtt := t.rtt.shift k
    cc := t.cc.shift k
    eifel := t.eifel.shift k
    frto := t.frto.shift k
    sack := t.sack.shift k }

@[simps] def Plan.shift (p : Plan) : Plan :=
  { p with partialRetransmitAck := p.partialRetransmitAck.map (· + k) }

end Shift

variable {M : CubicMath} {k : SeqNum} {seg : Segment} {now : Instant}

/-! ## Options -/

@[simp] theorem findTimestamp_shift (options : List TcpOption) :
    findTimestamp (options.map (·.shift k)) = findTimestamp options := by
  unfold findTimestamp
  rw [findSome?_map]
  congr 1
  funext o
  cases o <;> rfl

@[simp] theorem parseSackBlocks_shift (options : List TcpOption) :
    parseSackBlocks (options.map (·.shift k)) = (parseSackBlocks options).map (·.shift k) := by
  induction options with
  | nil => rfl
  | cons o options ih =>
    cases o with
    | sack blocks => simp [parseSackBlocks, TcpOption.shift, List.filter_map, Function.comp_def]
    | _ => exact ih

/-! ## The queue -/

@[simp] theorem endSeq_shift (s : UnackedSegment) : (s.shift k).endSeq = s.endSeq + k :=
  add_right_comm _ _ _

@[simp] theorem covers_shift (b : SackBlock) (seq endSeq : SeqNum) :
    (b.shift k).covers (seq + k) (endSeq + k) = b.covers seq endSeq := by
  simp [SackBlock.covers]

@[simp] theorem mark_shift (b : SackBlock) (s : UnackedSegment) :
    (b.shift k).mark (s.shift k) = (b.mark s).shift k := by
  simp only [SackBlock.mark, endSeq_shift, UnackedSegment.shift_seq, covers_shift]
  rw [apply_ite (UnackedSegment.shift k)]
  rfl

theorem map_shift {f g : UnackedSegment → UnackedSegment} (h : ∀ s, g (s.shift k) = (f s).shift k)
    (q : List UnackedSegment) : (q.map (·.shift k)).map g = (q.map f).map (·.shift k) := by
  simp [h]

@[simp] theorem sackPipeBytes_shift (q : List UnackedSegment) :
    sackPipeBytes (q.map (·.shift k)) = sackPipeBytes q := by
  unfold sackPipeBytes
  rw [List.filter_map, List.foldl_map]
  rfl

@[simp] theorem sackBytesAbove_shift (q : List UnackedSegment) (seq : SeqNum) :
    sackBytesAbove (q.map (·.shift k)) (seq + k) = sackBytesAbove q seq := by
  simp only [sackBytesAbove, List.filter_map, List.foldl_map, Function.comp_def,
    UnackedSegment.shift_seq, SeqNum.dist_add_add]
  rfl

@[simp] theorem markLostAt_shift (seq : SeqNum) (q : List UnackedSegment) :
    markLostAt (seq + k) (q.map (·.shift k)) = (markLostAt seq q).map (·.shift k) := by
  induction q with
  | nil => rfl
  | cons s q ih =>
    simp only [map_cons, markLostAt, UnackedSegment.shift_seq, add_left_inj, ih]
    split
    · rw [map_cons, apply_ite (UnackedSegment.shift k)]
      rfl
    · rfl

@[simp] theorem sackMarkLost_shift (smss : Nat) (q : List UnackedSegment) :
    sackMarkLost smss (q.map (·.shift k)) = (sackMarkLost smss q).map (·.shift k) := by
  unfold sackMarkLost
  have hseqs : ((q.map (·.shift k)).filter fun s => !s.sacked).map (·.seq) =
      ((q.filter fun s => !s.sacked).map (·.seq)).map (· + k) := by
    rw [List.filter_map, List.map_map, List.map_map]
    rfl
  rw [hseqs]
  clear hseqs
  generalize (q.filter fun s => !s.sacked).map (·.seq) = seqs
  induction seqs generalizing q with
  | nil => rfl
  | cons seq seqs ih =>
    rw [List.map_cons, List.foldl_cons, List.foldl_cons, sackBytesAbove_shift]
    split
    · exact ih q
    rw [markLostAt_shift]
    exact ih _

namespace TcpControlBlock

variable {t : TcpControlBlock}

@[simp] theorem flightSizeBytes_shift : (t.shift k).flightSizeBytes = t.flightSizeBytes := by
  simp [flightSizeBytes]

@[simp] theorem isAcceptableAck_shift (ack : SeqNum) :
    (t.shift k).isAcceptableAck (ack + k) = t.isAcceptableAck ack := by
  simp [isAcceptableAck]

/-! ## Checks -/

@[simp] theorem noteEcn_shift : (t.shift k).noteEcn (seg.shift k) = (t.noteEcn seg).shift k := by
  unfold noteEcn
  rw [apply_ite (shift k)]
  rfl

@[simp] theorem onRxTimestamp_shift (seq : SeqNum) (tsval : BitVec 32) (isSyn isRst : Bool) :
    (t.shift k).onRxTimestamp now seq tsval isSyn isRst =
      (t.onRxTimestamp now seq tsval isSyn isRst).map (shift k) := by
  unfold onRxTimestamp
  rw [apply_ite (Option.map (shift k)), apply_ite (Option.map (shift k)),
    apply_ite (Option.map (shift k))]
  rfl

@[simp] theorem updateRttEstimators_shift (r : Duration) :
    (t.shift k).updateRttEstimators r = (t.updateRttEstimators r).map (shift k) := by
  unfold updateRttEstimators
  rw [Option.map_map]
  rfl

@[simp] theorem sampleTimestamp_shift (tsecr : BitVec 32) (low : Nat) :
    (t.shift k).sampleTimestamp now tsecr low =
      (t.sampleTimestamp now tsecr low).map (shift k) := by
  unfold sampleTimestamp
  rw [apply_ite (Option.map (shift k)), ← updateRttEstimators_shift]
  rfl

@[simp] theorem checkSegment_shift :
    (t.shift k).checkSegment (seg.shift k) now =
      (t.checkSegment seg now).map (Prod.map (shift k) id) := by
  unfold checkSegment
  simp only [noteEcn_shift, Segment.shift_flags, Segment.shift_options, Segment.shift_seq,
    findTimestamp_shift, onRxTimestamp_shift]
  split
  · rfl
  split
  · rfl
  cases findTimestamp seg.options with
  | none => rfl
  | some ts =>
    dsimp only
    cases (t.noteEcn seg).onRxTimestamp now seg.seq ts.1 seg.flags.syn false with
    | none => rfl
    | some t1 => simp [comp_def]

/-! ## Congestion -/

@[simp] theorem onCongestionEvent_shift :
    onCongestionEvent M now (t.shift k) = (onCongestionEvent M now t).map (Congestion.shift k) := by
  unfold onCongestionEvent
  simp only [shift_snd, Sender.shift_retransmissionQueue, sackPipeBytes_shift,
    flightSizeBytes_shift,
    shift_sack, SackState.shift_enabled, shift_cc, Congestion.shift_algo]
  cases t.cc.algo with
  | reno recover =>
    simp only [Option.bind_eq_bind, Option.map_bind, Function.comp_def]
    rfl
  | cubic cubic =>
    simp only [CongestionControl.shift, Option.bind_eq_bind, Option.map_bind, Function.comp_def,
      apply_ite (Option.map (Congestion.shift k))]
    rfl

@[simp] theorem eceReaction_shift :
    (t.shift k).eceReaction M (seg.shift k) now =
      (t.eceReaction M seg now).map (Prod.map (shift k) id) := by
  unfold eceReaction
  rw [Segment.shift_ack, isAcceptableAck_shift, apply_ite (Option.map (Prod.map (shift k) id)),
    onCongestionEvent_shift, Option.map_map, Option.map_map]
  rfl

@[simp] theorem ackInRecovery_shift (ack : SeqNum) :
    (t.shift k).ackInRecovery (ack + k) =
      (t.ackInRecovery ack).map (Prod.map (shift k) (Option.map (· + k))) := by
  have hrecover : (t.cc.algo.shift k).recover = t.cc.algo.recover + k := by
    cases t.cc.algo <;> rfl
  unfold ackInRecovery
  rw [shift_cc, Congestion.shift_algo, hrecover, SeqNum.dist_add_add,
    apply_ite (Option.map (Prod.map (shift k) _)), apply_ite (Option.map (Prod.map (shift k) _)),
    Option.map_map]
  rfl

@[simp] theorem setWnd_shift (c : Congestion) (raw : Bool) (wnd : Nat) :
    (c.shift k).setWnd raw wnd = (c.setWnd raw wnd).shift k := by
  cases raw <;> rfl

@[simp] theorem growCwndValue_shift (smss : Nat) (c : Congestion) (raw : Bool) (bytesAcked : Nat) :
    growCwndValue M now smss (c.shift k) raw bytesAcked =
      (growCwndValue M now smss c raw bytesAcked).shift k := by
  have hacc : ∀ n, (c.shift k).setAccum raw n = (c.setAccum raw n).shift k := by
    cases raw <;> exact fun n => rfl
  have halgo : ∀ n, (c.setAccum raw n).algo = c.algo := by
    cases raw <;> exact fun n => rfl
  have hold : (c.shift k).accum raw = c.accum raw ∧ (c.shift k).wnd raw = c.wnd raw := ⟨rfl, rfl⟩
  unfold growCwndValue
  simp only [hacc, hold, setWnd_shift, Congestion.shift_algo, Congestion.shift_ssthresh,
    Congestion.shift_abc, halgo, apply_ite (Congestion.shift k)]
  congr 2
  cases c.algo with
  | reno recover => rfl
  | cubic cubic =>
    dsimp only [CongestionControl.shift]
    rw [M.window_recover, apply_ite (Congestion.shift k)]

@[simp] theorem cwvReduceCwnd_shift (c : Congestion) (flight effectiveMss : Nat) :
    cwvReduceCwnd (c.shift k) flight effectiveMss =
      (cwvReduceCwnd c flight effectiveMss).shift k := rfl

@[simp] theorem updateCongestionWindow_shift (bytesAcked : Nat) :
    updateCongestionWindow M now (t.shift k) bytesAcked =
      (updateCongestionWindow M now t bytesAcked).shift k := by
  -- the last growth, for whatever is left of the window
  have hlast : ∀ c : Congestion,
      (if !(c.shift k).cwv.validated then c.shift k
        else growCwndValue M now t.smss { c.shift k with
          cwv := { (c.shift k).cwv with validated := false, pipeMax := 0 } } false bytesAcked) =
      (if !c.cwv.validated then c
        else growCwndValue M now t.smss { c with
          cwv := { c.cwv with validated := false, pipeMax := 0 } } false bytesAcked).shift k := by
    intro c
    rw [apply_ite (Congestion.shift k), ← growCwndValue_shift]
    rfl
  unfold updateCongestionWindow
  simp only [shift_cc, shift_neg, shift_rtt, RttState.shift_rto, flightSizeBytes_shift,
    show (t.shift k).smss = t.smss from rfl, growCwndValue_shift, Congestion.shift_inFastRecovery,
    cwvReduceCwnd_shift, apply_ite (Congestion.shift k)]
  congr 2
  generalize growCwndValue M now t.smss t.cc true bytesAcked = c
  simp only [Congestion.shift_cwv, ← apply_ite (Congestion.shift k)]
  generalize (if t.rtt.rto < now - c.cwv.lastDataTx then
    cwvReduceCwnd c t.flightSizeBytes t.neg.effectiveMss else c) = c1
  cases c1.cwv.appLimitedSince with
  | none => exact hlast c1
  | some since =>
    by_cases hlong : t.rtt.rto ≤ now - since
    · simp only [if_pos hlong]
      exact hlast { cwvReduceCwnd c1 t.flightSizeBytes t.neg.effectiveMss with
        cwv := { (cwvReduceCwnd c1 t.flightSizeBytes t.neg.effectiveMss).cwv with
          appLimitedSince := some now } }
    · simp only [if_neg hlong]
      exact hlast c1

@[simp] theorem eifelOnAcceptableAck_shift (tsecr : Option (BitVec 32)) (ece : Bool) :
    (t.shift k).eifelOnAcceptableAck tsecr ece = (t.eifelOnAcceptableAck tsecr ece).shift k := by
  have hmax : (t.eifel.sndMax.map (· + k)).getD (t.snd.nxt + k) =
      t.eifel.sndMax.getD t.snd.nxt + k := by
    cases t.eifel.sndMax <;> rfl
  have hnxt : (t.shift k).eifelSndNxt = t.eifelSndNxt + k := by
    simp [eifelSndNxt, shift_eifel, EifelState.shift_sndMax, shift_snd, Sender.shift_nxt,
      Sender.shift_una, hmax, SeqNum.dist_add_add, apply_ite (· + k)]
  unfold eifelOnAcceptableAck
  rw [hnxt, flightSizeBytes_shift, apply_ite (shift k), apply_ite (shift k)]
  rfl

@[simp] theorem frtoOnAck_shift (isDup : Bool) :
    (t.shift k).frtoOnAck isDup = (t.frtoOnAck isDup).shift k := by
  have hspurious : (t.shift k).frtoDeclareSpurious = t.frtoDeclareSpurious.shift k := by
    unfold frtoDeclareSpurious
    rw [flightSizeBytes_shift]
    rfl
  unfold frtoOnAck
  rw [hspurious, apply_ite (shift k), shift_frto, FrtoState.shift_phase]
  congr 1
  cases t.frto.phase with
  | idle => rfl
  | step1 | step2 =>
    rw [apply_ite (shift k)]
    rfl

@[simp] theorem advanceUna_shift :
    (t.shift k).advanceUna (seg.shift k) = (t.advanceUna seg).shift k := by
  unfold advanceUna
  simp only [shift_snd, Sender.shift_una, Segment.shift_ack, add_sub_add_right_eq_sub,
    Segment.shift_options, findTimestamp_shift]
  rw [apply_ite (shift k), ← eifelOnAcceptableAck_shift, ← frtoOnAck_shift]
  rfl

@[simp] theorem completeProbe_shift (ack : SeqNum) :
    (t.shift k).completeProbe (ack + k) now = (t.completeProbe ack now).map (shift k) := by
  unfold completeProbe
  rw [shift_rtt, RttState.shift_probe]
  cases t.rtt.probe with
  | none => rfl
  | some p =>
    dsimp only [Option.map_some]
    rw [RttProbe.shift_endSeq, SeqNum.dist_add_add, apply_ite (Option.map (shift k)),
      apply_ite (Option.map (shift k)), ← updateRttEstimators_shift]
    rfl

/-! ## Loss -/

@[simp] theorem sackTxApplyBlock_shift (ack : SeqNum) (b : SackBlock) :
    sackTxApplyBlock (ack + k) (t.shift k) (b.shift k) = (sackTxApplyBlock ack t b).shift k := by
  have hundo : (t.shift k).sackDsackUndo = t.sackDsackUndo.shift k := by
    unfold sackDsackUndo
    rw [shift_sack, SackState.shift_undoPending]
    cases t.sack.undoPending <;> rfl
  unfold sackTxApplyBlock
  simp only [hundo, shift_snd, Sender.shift_retransmissionQueue, map_shift (mark_shift b),
    List.any_map, Function.comp_def, UnackedSegment.shift_seq, UnackedSegment.shift_sacked,
    endSeq_shift, covers_shift, SackBlock.shift_right, shift_sack, SackState.shift_highSacked,
    SeqNum.dist_add_add, ← apply_ite (· + k), apply_ite (shift k)]
  rfl

@[simp] theorem sackTxApply_shift (ack : SeqNum) (blocks : List SackBlock) :
    (t.shift k).sackTxApply (ack + k) (blocks.map (·.shift k)) =
      (t.sackTxApply ack blocks).shift k := by
  unfold sackTxApply
  induction blocks generalizing t with
  | nil => rfl
  | cons b blocks ih => simp [ih]

@[simp] theorem rackDetect_shift : (t.shift k).rackDetect now = (t.rackDetect now).shift k := by
  have hnote : ∀ newest, (t.sack.shift k).rackNoteDelivery newest now =
      (t.sack.rackNoteDelivery newest now).shift k := by
    intro newest
    unfold SackState.rackNoteDelivery
    cases newest with
    | none => rfl
    | some xmitTs =>
      rw [apply_ite (SackState.shift k)]
      rfl
  have hwindow : ∀ s : SackState, (s.shift k).rackUpdateReorderingWindow =
      s.rackUpdateReorderingWindow.shift k := by
    intro s
    unfold SackState.rackUpdateReorderingWindow
    rw [apply_ite (SackState.shift k)]
    rfl
  have hmark : ∀ xmitTs window s,
      rackMark xmitTs window (s.shift k) = (rackMark xmitTs window s).shift k := by
    intro xmitTs window s
    unfold rackMark
    rw [apply_ite (UnackedSegment.shift k)]
    rfl
  have hnewest : ((t.snd.retransmissionQueue.map (·.shift k)).filter (·.sacked)).map
    (·.xmitMstamp) =
      (t.snd.retransmissionQueue.filter (·.sacked)).map (·.xmitMstamp) := by
    simp [List.filter_map, Function.comp_def]
  unfold rackDetect
  simp only [shift_snd, Sender.shift_retransmissionQueue, hnewest, shift_sack, hnote, hwindow,
    map_shift (hmark _ _)]
  rfl

@[simp] theorem detectLoss_shift :
    (t.shift k).detectLoss (seg.shift k) now = (t.detectLoss seg now).shift k := by
  have hmark : ∀ t : TcpControlBlock, ({ t.shift k with snd := { (t.shift k).snd with
        retransmissionQueue :=
          sackMarkLost (t.shift k).smss (t.shift k).snd.retransmissionQueue } } :
          TcpControlBlock) =
      ({ t with snd := { t.snd with
        retransmissionQueue := sackMarkLost t.smss t.snd.retransmissionQueue } } :
          TcpControlBlock).shift k := by
    intro t
    rw [shift_snd, Sender.shift_retransmissionQueue, sackMarkLost_shift]
    rfl
  unfold detectLoss
  rw [Segment.shift_options, Segment.shift_ack, parseSackBlocks_shift, sackTxApply_shift]
  dsimp only
  rw [hmark, rackDetect_shift, apply_ite (shift k)]
  rfl

@[simp] theorem enterRecovery_shift :
    (t.shift k).enterRecovery M now = (t.enterRecovery M now).map (shift k) := by
  have henter : (if (t.shift k).sack.enabled = true then (t.shift k).sackEnterRecovery
        else t.shift k) =
      (if t.sack.enabled = true then t.sackEnterRecovery else t).shift k := by
    rw [apply_ite (shift k)]
    rfl
  unfold enterRecovery
  rw [henter]
  generalize (if t.sack.enabled = true then t.sackEnterRecovery else t) = t1
  show (onCongestionEvent M now
    (TcpControlBlock.shift k { t1 with cc := { t1.cc with inFastRecovery := true } })).map _ = _
  rw [onCongestionEvent_shift, Option.map_map, Option.map_map]
  rfl

@[simp] theorem sackHasLost_shift (q : List UnackedSegment) :
    sackHasLost (q.map (·.shift k)) = sackHasLost q := by
  unfold sackHasLost
  rw [List.any_map]
  rfl

@[simp] theorem recoverIfLost_shift :
    (t.shift k).recoverIfLost M now = (t.recoverIfLost M now).map (Prod.map (shift k) id) := by
  unfold recoverIfLost
  rw [shift_snd, Sender.shift_retransmissionQueue, sackHasLost_shift, enterRecovery_shift,
    apply_ite (Option.map (Prod.map (shift k) id)), Option.map_map, Option.map_map]
  rfl

@[simp] theorem drainRetransmissionQueue_shift (ack : SeqNum) :
    (t.shift k).drainRetransmissionQueue (ack + k) = (t.drainRetransmissionQueue ack).shift k := by
  unfold drainRetransmissionQueue
  simp only [shift_snd, Sender.shift_retransmissionQueue, List.filter_map, Function.comp_def,
    endSeq_shift, SeqNum.dist_add_add]
  rfl

@[simp] theorem tlpArm_shift : (t.shift k).tlpArm now = (t.tlpArm now).shift k := by
  unfold tlpArm
  simp only [shift_snd, Sender.shift_retransmissionQueue, isEmpty_map, length_map]
  rw [apply_ite (shift k)]
  rfl

@[simp] theorem finAcked_shift (prior : TcpState) :
    (t.shift k).finAcked prior now = (t.finAcked prior now).shift k := by
  cases prior <;> rfl

@[simp] theorem hasFin_shift :
    ((t.shift k).snd.retransmissionQueue.any (·.isFin)) =
      t.snd.retransmissionQueue.any (·.isFin) :=
  any_map

/-! ## Acknowledgements -/

@[simp] theorem growWindow_shift (n : Nat) :
    (t.shift k).growWindow M n now = (t.growWindow M n now).shift k := by
  unfold growWindow
  rw [updateCongestionWindow_shift]
  rfl

@[simp] theorem ackAdvances_shift (plan : Plan) :
    (t.shift k).ackAdvances M (seg.shift k) now (plan.shift k) =
      (t.ackAdvances M seg now plan).map (Prod.map (shift k) (Plan.shift k)) := by
  have hbytes : (seg.ack + k - (t.shift k).snd.una).toNat = (seg.ack - t.snd.una).toNat := by
    simp
  unfold ackAdvances
  rw [Segment.shift_ack, ackInRecovery_shift, hbytes]
  cases t.ackInRecovery seg.ack with
  | none => rfl
  | some r =>
    obtain ⟨t1, partialAck⟩ := r
    simp only [map_some, Prod.map, bind_eq_bind, bind_some, hasFin_shift,
      advanceUna_shift, completeProbe_shift]
    cases (t1.advanceUna seg).completeProbe seg.ack now with
    | none => rfl
    | some t2 =>
      simp only [map_some, bind_some, growWindow_shift, detectLoss_shift,
        recoverIfLost_shift]
      cases ((t2.growWindow M (seg.ack - t.snd.una).toNat now).detectLoss seg now).recoverIfLost M
          now with
      | none => rfl
      | some r =>
        simp only [map_some, bind_some, Prod.map, id, drainRetransmissionQueue_shift,
          tlpArm_shift, hasFin_shift, shift_state, finAcked_shift, ← apply_ite (shift k)]
        rfl

@[simp] theorem countDuplicate_shift (count : Nat) :
    (t.shift k).countDuplicate (seg.shift k) count now =
      (t.countDuplicate seg count now).shift k := by
  unfold countDuplicate
  rw [← detectLoss_shift, apply_ite (shift k), ← frtoOnAck_shift]
  rfl

@[simp] theorem reactToDuplicate_shift (plan : Plan) :
    (t.shift k).reactToDuplicate M now (plan.shift k) =
      (t.reactToDuplicate M now plan).map (Prod.map (shift k) (Plan.shift k)) := by
  unfold reactToDuplicate
  rw [shift_snd, Sender.shift_retransmissionQueue, sackHasLost_shift, enterRecovery_shift,
    apply_ite (Option.map (Prod.map (shift k) _)), apply_ite (Option.map (Prod.map (shift k) _)),
    Option.map_map, Option.map_map]
  rfl

@[simp] theorem ackDuplicates_shift (plan : Plan) :
    (t.shift k).ackDuplicates M (seg.shift k) now (plan.shift k) =
      (t.ackDuplicates M seg now plan).map (Prod.map (shift k) (Plan.shift k)) := by
  unfold ackDuplicates
  simp [map_bind]

/-- SEG.ACK and SND.UNA keep their order as plain integers. -/
def SameOrder (t : TcpControlBlock) (seg : Segment) (k : SeqNum) : Prop :=
  t.snd.una.toNat < seg.ack.toNat ↔ (t.snd.una + k).toNat < (seg.ack + k).toNat

theorem SameOrder.stale (h : t.SameOrder seg k) :
    seg.ack.toNat < t.snd.una.toNat ↔ (seg.ack + k).toNat < (t.snd.una + k).toNat := by
  by_cases heq : seg.ack = t.snd.una
  · rw [heq]
    exact ⟨fun hlt => absurd hlt (Nat.lt_irrefl _), fun hlt => absurd hlt (Nat.lt_irrefl _)⟩
  have hne : seg.ack.toNat ≠ t.snd.una.toNat := fun hn => heq (BitVec.eq_of_toNat_eq hn)
  have hne' : (seg.ack + k).toNat ≠ (t.snd.una + k).toNat :=
    fun hn => heq (add_left_injective k (BitVec.eq_of_toNat_eq hn))
  unfold SameOrder at h
  omega

theorem processAck_shift (h : t.isAcceptableAck seg.ack = true → t.SameOrder seg k) :
    (t.shift k).processAck M (seg.shift k) now =
      (t.processAck M seg now).map (Prod.map (shift k) (Plan.shift k)) := by
  unfold processAck
  rw [eceReaction_shift, Segment.shift_ack, isAcceptableAck_shift]
  cases hece : t.eceReaction M seg now with
  | none => rfl
  | some r =>
    obtain ⟨t1, reacted⟩ := r
    have huna : t1.snd.una = t.snd.una :=
      congrArg SndView.una (sndView_of_view (view_eceReaction hece))
    simp only [Option.map_some, some_bind, Prod.map, id, shift_snd,
      Sender.shift_una, Sender.shift_retransmissionQueue, List.isEmpty_map, add_left_inj]
    by_cases hacc : t.isAcceptableAck seg.ack = true
    · have horder := h hacc
      have hstale := horder.stale
      unfold SameOrder at horder
      rw [← huna] at horder hstale
      simp only [hacc, Bool.not_true, Bool.false_eq_true, if_false, ← horder, ← hstale]
      rw [apply_ite (Option.map _), apply_ite (Option.map _), apply_ite (Option.map _),
        ← ackAdvances_shift, ← ackDuplicates_shift]
      rfl
    · rw [Bool.not_eq_true] at hacc
      simp only [hacc, Bool.not_false, if_true]
      rfl

/-! ## Data -/

@[simp] theorem updateRcvWndFromBuffer_shift :
    (t.shift k).updateRcvWndFromBuffer = t.updateRcvWndFromBuffer.map (shift k) := by
  unfold updateRcvWndFromBuffer
  rw [Option.map_map]
  rfl

@[simp] theorem receivePayload_shift :
    (t.shift k).receivePayload (seg.shift k) =
      (t.receivePayload seg).map (Prod.map (shift k) id) := by
  have hupdate : ∀ rx : Receiver UInt8,
      ({ t.shift k with rx := rx } : TcpControlBlock).updateRcvWndFromBuffer =
        ({ t with rx := rx } : TcpControlBlock).updateRcvWndFromBuffer.map (shift k) :=
    fun rx => updateRcvWndFromBuffer_shift (t := { t with rx := rx })
  have hooo : (t.shift k).receiveOutOfOrder (seg.shift k) =
      (t.receiveOutOfOrder seg).map (Prod.map (shift k) id) := by
    unfold receiveOutOfOrder
    rw [apply_ite (Option.map (Prod.map (shift k) id))]
    simp only [hupdate, Option.bind_eq_bind, Option.map_bind, Option.bind_map, Function.comp_def]
    rfl
  have howe : (if (t.shift k).rcvWnd = 0 then (t.shift k).oweAck else t.shift k) =
      (if t.rcvWnd = 0 then t.oweAck else t).shift k := by
    rw [apply_ite (shift k)]
    rfl
  unfold receivePayload
  simp only [hooo, howe, hupdate, Option.bind_eq_bind, Option.map_bind, Option.bind_map,
    Option.map_map, Function.comp_def, apply_ite (Option.map (Prod.map (shift k) id))]
  rfl

@[simp] theorem maybeUpdateSendWindow_shift (seq ack : SeqNum) (wireWnd : Nat) :
    (t.shift k).maybeUpdateSendWindow seq (ack + k) wireWnd =
      (t.maybeUpdateSendWindow seq ack wireWnd).shift k := by
  unfold maybeUpdateSendWindow
  rw [shift_snd, Sender.shift_wl2, SeqNum.dist_add_add, apply_ite (shift k)]
  rfl

@[simp] theorem handleFinFlag_shift :
    (t.shift k).handleFinFlag now = (t.handleFinFlag now).shift k := by
  unfold handleFinFlag
  rw [shift_state]
  cases t.state <;> rfl

@[simp] theorem decideAck_shift :
    (t.shift k).decideAck (seg.shift k) now = Prod.map (shift k) id (t.decideAck seg now) := by
  unfold decideAck
  rw [apply_ite (Prod.map (shift k) id), apply_ite (Prod.map (shift k) id)]
  rfl

@[simp] theorem receiveSegment_shift (plan : Plan) :
    (t.shift k).receiveSegment (seg.shift k) now (plan.shift k) =
      (t.receiveSegment seg now plan).map (Prod.map (shift k) (Prod.map (Plan.shift k) id)) := by
  have harrival : ∀ t : TcpControlBlock, (t.shift k).noteArrival now =
    (t.noteArrival now).shift k :=
    fun t => rfl
  unfold receiveSegment
  rw [apply_ite (Option.map (Prod.map (shift k) (Prod.map (Plan.shift k) id)))]
  congr 1
  simp only [Segment.shift_seq, Segment.shift_ack, Segment.shift_window, Segment.shift_flags,
    maybeUpdateSendWindow_shift, harrival, receivePayload_shift]
  cases ((t.maybeUpdateSendWindow seg.seq seg.ack seg.window.toNat).noteArrival now).receivePayload
      seg with
  | none => rfl
  | some r =>
    simp only [Option.map_some, Prod.map, id, some_bind,
      handleFinFlag_shift, ← apply_ite (shift k), decideAck_shift]
    rfl

/-! ## What goes out -/

@[simp] theorem retransmitIndex_shift (ack : Option SeqNum) :
    (t.shift k).retransmitIndex (ack.map (· + k)) = t.retransmitIndex ack := by
  unfold retransmitIndex
  simp only [shift_snd, Sender.shift_retransmissionQueue, findIdx?_map, isEmpty_map,
    comp_def, UnackedSegment.shift_lost, UnackedSegment.shift_sacked, endSeq_shift]
  congr 1
  cases ack with
  | none => rfl
  | some ack => simp

@[simp] theorem applyOutgoingEcn_shift (flags : Flags) (data : List UInt8) :
    (t.shift k).applyOutgoingEcn flags data =
      Prod.map (shift k) id (t.applyOutgoingEcn flags data) := by
  unfold applyOutgoingEcn
  rw [apply_ite (Prod.map (shift k) id), apply_ite (Prod.map (shift k) id)]
  rfl

theorem modifySegment_shift {f : UnackedSegment → UnackedSegment} (i : Nat)
    (hf : ∀ s, f (s.shift k) = (f s).shift k) :
    (t.shift k).modifySegment i f = (t.modifySegment i f).shift k := by
  have hqueue : ∀ (q : List UnackedSegment) (i : Nat),
      (q.map (·.shift k)).modify i f = (q.modify i f).map (·.shift k) := by
    intro q
    induction q with
    | nil => intro i; cases i <;> rfl
    | cons s q ih =>
      intro i
      cases i with
      | zero => simp [hf]
      | succ i => simp [ih]
  unfold modifySegment
  rw [shift_snd, Sender.shift_retransmissionQueue, hqueue]
  rfl

@[simp] theorem armEifel_shift (cause : RetransmitCause) (i : Nat) :
    (t.shift k).armEifel cause i now = (t.armEifel cause i now).shift k := by
  unfold armEifel
  rw [apply_ite (shift k)]
  congr 1
  exact modifySegment_shift (t := { t with
    eifel := { t.eifel with retransmitTs := some (t.tcpTsNow now) } }) i fun _ => rfl

@[simp] theorem retransmitMatching_shift (cause : RetransmitCause) (ack : Option SeqNum) :
    (t.shift k).retransmitMatching cause (ack.map (· + k)) now =
      (t.retransmitMatching cause ack now).shift k := by
  unfold retransmitMatching
  rw [retransmitIndex_shift]
  cases t.retransmitIndex ack with
  | none => rfl
  | some i =>
    have hmark : ∀ t : TcpControlBlock,
        (t.shift k).modifySegment i
            (fun s => { s with xmitMstamp := now, retrans := true, lost := false }) =
          (t.modifySegment i
            fun s => { s with xmitMstamp := now, retrans := true, lost := false }).shift k :=
      fun t => modifySegment_shift i fun _ => rfl
    dsimp only
    rw [armEifel_shift, hmark, shift_snd, Sender.shift_retransmissionQueue, getElem?_map]
    cases ((t.armEifel cause i now).modifySegment i _).snd.retransmissionQueue[i]? with
    | none => rfl
    | some s => simp

@[simp] theorem cwvNoteValidated_shift (c : Congestion) :
    cwvNoteValidated (c.shift k) = (cwvNoteValidated c).shift k := by
  unfold cwvNoteValidated
  rw [apply_ite (Congestion.shift k)]
  rfl

@[simp] theorem cwvNoteAppLimited_shift (c : Congestion) :
    cwvNoteAppLimited (c.shift k) now = (cwvNoteAppLimited c now).shift k := by
  unfold cwvNoteAppLimited
  rw [apply_ite (Congestion.shift k)]
  rfl

@[simp] theorem sendBlocked_shift (inFlight : Nat) :
    (t.shift k).sendBlocked inFlight now = (t.sendBlocked inFlight now).shift k := by
  unfold sendBlocked
  rw [shift_cc, cwvNoteValidated_shift, cwvNoteAppLimited_shift, apply_ite (shift k),
    ← apply_ite (Congestion.shift k)]
  rfl

@[simp] theorem armProbe_shift (len : Nat) :
    (t.shift k).armProbe len now = (t.armProbe len now).shift k := by
  unfold armProbe
  rw [shift_rtt, RttState.shift_probe, isNone_map, shift_snd, Sender.shift_nxt,
    add_right_comm, apply_ite (shift k)]
  rfl

@[simp] theorem noteSent_shift (flightAfter : Nat) :
    (t.shift k).noteSent flightAfter now = (t.noteSent flightAfter now).shift k := by
  have hcc : ∀ c : Congestion,
      (if c.cwnd ≤ flightAfter ∧ c.cwnd ≤ t.snd.wnd then cwvNoteValidated (c.shift k)
        else c.shift k) =
      (if c.cwnd ≤ flightAfter ∧ c.cwnd ≤ t.snd.wnd then cwvNoteValidated c else c).shift k := by
    intro c
    rw [cwvNoteValidated_shift, ← apply_ite (Congestion.shift k)]
  exact congrArg (fun cc => ({ t.shift k with cc := cc } : TcpControlBlock))
    (hcc { t.cc with cwv := { t.cc.cwv with
      pipeMax := max t.cc.cwv.pipeMax flightAfter, lastDataTx := now, appLimitedSince := none } })

@[simp] theorem schedulePacing_shift (len : Nat) :
    (t.shift k).schedulePacing len now = (t.schedulePacing len now).shift k := by
  unfold schedulePacing
  rw [show pacingGapFor (t.shift k) len = pacingGapFor t len from rfl]
  cases pacingGapFor t len <;> rfl

@[simp] theorem enqueue_shift (data : List UInt8) (flags : Flags) (len : Nat) :
    (t.shift k).enqueue data flags len now = (t.enqueue data flags len now).shift k := by
  unfold enqueue
  rw [shift_snd, Sender.shift_nxt, add_right_comm]
  simp only [shift, Sender.shift, map_append]
  rfl

@[simp] theorem sendSegment_shift (inFlight sendLen : Nat) :
    (t.shift k).sendSegment inFlight sendLen now =
      (t.sendSegment inFlight sendLen now).shift k := by
  have hcut : ({ t.shift k with snd := { (t.shift k).snd with
        sendBuffer := t.snd.sendBuffer.drop sendLen } } : TcpControlBlock) =
      ({ t with snd := { t.snd with sendBuffer := t.snd.sendBuffer.drop sendLen } } :
        TcpControlBlock).shift k := rfl
  unfold sendSegment
  rw [show (t.shift k).snd.sendBuffer = t.snd.sendBuffer from rfl, hcut]
  simp

@[simp] theorem sendRound_shift :
    (t.shift k).sendRound now = Prod.map (shift k) id (t.sendRound now) := by
  unfold sendRound
  rw [flightSizeBytes_shift]
  simp only [apply_ite (Prod.map (shift k) id)]
  refine if_congr Iff.rfl ?_ (if_congr Iff.rfl rfl
    (if_congr Iff.rfl ?_ (if_congr Iff.rfl ?_ (if_congr Iff.rfl rfl ?_))))
  · exact congrArg (fun cc => ({ t.shift k with
      cc := cc, pacing := t.pacing.clearDeadline }, false)) (cwvNoteAppLimited_shift t.cc)
  · exact congrArg (fun cc => ({ t.shift k with cc := cc }, false))
      (cwvNoteAppLimited_shift { t.cc with cwv := { t.cc.cwv with
        pipeMax := max t.cc.cwv.pipeMax t.flightSizeBytes } })
  · exact congrArg (·, false) (sendBlocked_shift (t := { t with cc := { t.cc with
      cwv := { t.cc.cwv with pipeMax := max t.cc.cwv.pipeMax t.flightSizeBytes } } }) _)
  · exact congrArg (·, true) (sendSegment_shift (t := { t with
      timers := { t.timers with persistTimer := none }
      cc := { t.cc with
        cwv := { t.cc.cwv with pipeMax := max t.cc.cwv.pipeMax t.flightSizeBytes } } }) _ _)

@[simp] theorem processSendQueue_shift :
    (t.shift k).processSendQueue now = (t.processSendQueue now).shift k := by
  have hloop : ∀ (fuel : Nat) (t : TcpControlBlock),
      sendLoop now fuel (t.shift k) = (sendLoop now fuel t).shift k := by
    intro fuel
    induction fuel with
    | zero => exact fun t => rfl
    | succ fuel ih =>
      intro t
      unfold sendLoop
      rw [sendRound_shift]
      cases t.sendRound now with
      | mk t1 sent =>
        cases sent with
        | true => exact ih t1
        | false => rfl
  exact hloop _ t

@[simp] theorem carryOut_shift (plan : Plan) :
    (t.shift k).carryOut (plan.shift k) now = (t.carryOut plan now).shift k := by
  have hfast : (t.shift k).retransmitMatching .fastRetransmit none now =
      (t.retransmitMatching .fastRetransmit none now).shift k :=
    retransmitMatching_shift .fastRetransmit none
  have hretransmit : ∀ (t : TcpControlBlock) (ack : SeqNum),
      (t.shift k).retransmitMatching .partialAck (some (ack + k)) now =
        (t.retransmitMatching .partialAck (some ack) now).shift k :=
    fun t ack => retransmitMatching_shift .partialAck (some ack)
  unfold carryOut
  rw [Plan.shift_fastRetransmit, Plan.shift_partialRetransmitAck, Plan.shift_runSendQueue, hfast,
    ← apply_ite (shift k)]
  cases plan.partialRetransmitAck with
  | none => simp [processSendQueue_shift, ← apply_ite (shift k)]
  | some ack => simp [hretransmit, processSendQueue_shift, ← apply_ite (shift k)]

theorem processChecked_shift (h : t.isAcceptableAck seg.ack = true → t.SameOrder seg k) :
    (t.shift k).processChecked M (seg.shift k) now =
      (t.processChecked M seg now).map (Prod.map (shift k) (Prod.map (Plan.shift k) id)) := by
  unfold processChecked
  rw [processAck_shift h, Segment.shift_ack, isAcceptableAck_shift]
  cases t.processAck M seg now with
  | none => rfl
  | some r =>
    simp only [Option.map_some, Prod.map, some_bind]
    rw [receiveSegment_shift, apply_ite (Option.map _)]
    rfl

/-! ## The handler -/

/-- The comparison is not reached, or it comes out the same. -/
def TranslationOk (t : TcpControlBlock) (seg : Segment) (now : Instant) (k : SeqNum) : Prop :=
  t.isOldDuplicate seg = true ∨ (∀ t1, t.checkSegment seg now ≠ some (t1, true)) ∨
    (t.isAcceptableAck seg.ack = true → t.SameOrder seg k)

theorem processDataDatagram_shift (h : t.TranslationOk seg now k) :
    (t.shift k).processDataDatagram M (seg.shift k) now =
      (t.processDataDatagram M seg now).map (Prod.map (shift k) id) := by
  have hold : (t.shift k).isOldDuplicate (seg.shift k) = t.isOldDuplicate seg := rfl
  unfold processDataDatagram
  rw [hold, checkSegment_shift]
  by_cases hdup : t.isOldDuplicate seg = true
  · rw [if_pos hdup, if_pos hdup, map_some]
    congr 1
    show (_, 0) = (TcpControlBlock.shift k (ite _ _ _), 0)
    rw [apply_ite (shift k)]
    rfl
  rw [if_neg hdup, if_neg hdup]
  cases hcheck : t.checkSegment seg now with
  | none => rfl
  | some r =>
    obtain ⟨t1, go⟩ := r
    cases go with
    | false => rfl
    | true =>
      have horder : t1.isAcceptableAck seg.ack = true → t1.SameOrder seg k := by
        have hview := sndView_of_view (view_checkSegment hcheck)
        have huna : t1.snd.una = t.snd.una := congrArg SndView.una hview
        have hnxt : t1.snd.nxt = t.snd.nxt := congrArg SndView.nxt hview
        unfold isAcceptableAck SameOrder
        rw [huna, hnxt]
        rcases h with h | h | h
        · exact absurd h hdup
        · exact absurd hcheck (h t1)
        · exact h
      simp only [map_some, Prod.map, id, bind_eq_bind, bind_some,
        Bool.not_true, Bool.false_eq_true, if_false]
      rw [processChecked_shift horder]
      cases t1.processChecked M seg now with
      | none => rfl
      | some r =>
        obtain ⟨t2, plan, n⟩ := r
        simp [Prod.map, id, carryOut_shift]

/-- Where the comparison is reached, it decides about SND.UNA. -/
theorem una_processDataDatagram {t1 t' : TcpControlBlock} {n : Nat}
    (hold : t.isOldDuplicate seg = false) (hcheck : t.checkSegment seg now = some (t1, true))
    (hacc : t.isAcceptableAck seg.ack = true)
    (h : t.processDataDatagram M seg now = some (t', n)) :
    t'.snd.una = if t.snd.una.toNat < seg.ack.toNat then seg.ack else t.snd.una := by
  have hview := sndView_of_view (view_checkSegment hcheck)
  have huna : t1.snd.una = t.snd.una := congrArg SndView.una hview
  have hnxt : t1.snd.nxt = t.snd.nxt := congrArg SndView.nxt hview
  have hacc1 : t1.isAcceptableAck seg.ack = true := by
    unfold isAcceptableAck at hacc ⊢
    rw [huna, hnxt]
    exact hacc
  rw [← huna]
  obtain ⟨hold', -⟩ | ⟨-, ⟨-, hcheck'⟩ | ⟨t1', t2, plan, hcheck', hchecked, rfl⟩⟩ :=
    processDataDatagram_cases h
  · cases hold.symm.trans hold'
  · cases hcheck.symm.trans hcheck'
  cases hcheck.symm.trans hcheck'
  have hcarry : (t2.carryOut plan now).snd.una = t2.snd.una :=
    Sending.una (t2.carryOut_sending plan now)
  rw [hcarry]
  obtain ⟨t3, plan3, hack, hchecked⟩ := processChecked_cases hchecked
  have hreceive : t2.snd.una = t3.snd.una := by
    rcases hchecked with hchecked | ⟨rfl, -⟩
    · rcases sndView_receiveSegment hchecked with hv | hv
      · exact congrArg SndView.una hv
      refine (congrArg SndView.una hv).trans ?_
      unfold maybeUpdateSendWindow
      dsimp only
      split <;> rfl
    · rfl
  rw [hreceive]
  simp only [processAck, bind_eq_some, Prod.exists] at hack
  obtain ⟨t4, reacted, hece, hack⟩ := hack
  have huna4 : t4.snd.una = t1.snd.una :=
    congrArg SndView.una (sndView_of_view (view_eceReaction hece))
  rw [if_neg (by rw [hacc1]; decide), huna4] at hack
  split at hack
  next hlt =>
    rw [if_pos hlt]
    exact una_ackAdvances hack
  next hle =>
    rw [if_neg hle, ← huna4]
    split at hack
    · exact congrArg SndView.una (sndView_of_view (view_ackDuplicates hack))
    · split at hack <;> cases hack <;> rfl

/-- The handler takes the same decisions in the shifted sequence space. -/
def Translates (M : CubicMath) (t : TcpControlBlock) (seg : Segment) (now : Instant)
    (k : SeqNum) : Prop :=
  (t.shift k).processDataDatagram M (seg.shift k) now =
    (t.processDataDatagram M seg now).map (Prod.map (shift k) id)

/-- **Translation of the sequence space**: `process_data_datagram` commutes with a shift if and only
if the plain comparison is not reached or comes out the same (or both runs panic). -/
theorem translates_iff (M : CubicMath) (t : TcpControlBlock) (seg : Segment) (now : Instant)
    (k : SeqNum) :
    Translates M t seg now k ↔
      t.TranslationOk seg now k ∨
        t.processDataDatagram M seg now = none ∧
          (t.shift k).processDataDatagram M (seg.shift k) now = none := by
  constructor
  · intro htrans
    unfold Translates at htrans
    by_cases hok : t.TranslationOk seg now k
    · exact .inl hok
    right
    cases hrun : t.processDataDatagram M seg now with
    | none =>
      rw [hrun] at htrans
      exact ⟨rfl, htrans⟩
    | some r =>
      exfalso
      obtain ⟨t', n⟩ := r
      rw [hrun] at htrans
      unfold TranslationOk at hok
      push Not at hok
      obtain ⟨hold, ⟨t1, hcheck⟩, hacc, horder⟩ := hok
      rw [ne_eq, Bool.not_eq_true] at hold
      have hcheck' : (t.shift k).checkSegment (seg.shift k) now = some (t1.shift k, true) := by
        rw [checkSegment_shift, hcheck]
        rfl
      have hold' : (t.shift k).isOldDuplicate (seg.shift k) = false := hold
      have hacc' : (t.shift k).isAcceptableAck (seg.shift k).ack = true :=
        (isAcceptableAck_shift seg.ack).trans hacc
      -- one run moves SND.UNA and the other does not
      have huna := una_processDataDatagram hold hcheck hacc hrun
      have huna' : t'.snd.una + k = if (t.snd.una + k).toNat < (seg.ack + k).toNat
          then seg.ack + k else t.snd.una + k :=
        una_processDataDatagram hold' hcheck' hacc' htrans
      apply horder
      unfold SameOrder
      rw [huna, apply_ite (· + k)] at huna'
      by_cases heq : seg.ack = t.snd.una
      · rw [heq]
        exact ⟨fun hlt => absurd hlt (Nat.lt_irrefl _), fun hlt => absurd hlt (Nat.lt_irrefl _)⟩
      have hne : seg.ack + k ≠ t.snd.una + k := fun h => heq (add_left_injective k h)
      split at huna' <;> split at huna'
      · exact iff_of_true ‹_› ‹_›
      · exact absurd huna' hne
      · exact absurd huna'.symm hne
      · exact iff_of_false ‹_› ‹_›
  · rintro (hok | ⟨hnone, hnone'⟩)
    · exact processDataDatagram_shift hok
    unfold Translates
    rw [hnone, hnone']
    rfl

/-- An acknowledgement of two bytes. -/
def ackOfData : Segment := { Segment.ackOfSyn with ack := 103 }

/-- Takes 101 to the last number below the wrap-around. -/
def belowWrap : SeqNum := BitVec.ofInt 32 (-102)

/-- Two bytes are in flight; their acknowledgement is not taken if SND.UNA is just below `2^32`. -/
theorem wraparound_ack_ignored :
    ∃ t0 t, opened 4 [] = some t0 ∧ t0.sendData [1, 2] 0 = .ok t ∧ t.state = .established ∧
      ¬ Translates CubicMath.integer t ackOfData 0 belowWrap := by
  obtain ⟨t0, ht0, t, hsend, hstate, hne⟩ : ∃ t0, opened 4 [] = some t0 ∧
      ∃ t, (t0.sendData [1, 2] 0).toOption = some t ∧ t.state = .established ∧
        ((t.shift belowWrap).processDataDatagram .integer (ackOfData.shift belowWrap)
            0).map (·.1.snd.una) ≠
          ((t.processDataDatagram .integer ackOfData 0).map
            (Prod.map (shift belowWrap) id)).map (·.1.snd.una) := by decide
  have hok : t0.sendData [1, 2] 0 = .ok t := by
    cases h : t0.sendData [1, 2] 0 with
    | error e =>
      rw [h] at hsend
      cases hsend
    | ok t1 =>
      rw [h] at hsend
      exact congrArg Except.ok (Option.some.inj hsend)
  exact ⟨t0, t, ht0, hok, hstate, fun h => hne (congrArg (Option.map (·.1.snd.una)) h)⟩

end TcpControlBlock
end Moose.Tcp
