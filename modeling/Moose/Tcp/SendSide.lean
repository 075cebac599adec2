import Moose.Tcp.Outbound
import Moose.Tcp.Steering

/-!
# The driver as an outgoing stream

Every activity of an endpoint is one move of `Outbound`, as long as no acknowledgement takes SND.NXT
back (`rewinds`). What the moves keep therefore holds in every state a connection reaches.

Only one statement of the driver can take SND.NXT back. At a timeout Eifel saves SND.NXT as
`snd_max`, and when an acknowledgement shows that the timeout was spurious, it sets SND.NXT to what
it saved. That is harmless as long as nothing was sent in between; otherwise the numbers of what was
sent since are used twice.
-/

set_option autoImplicit false

namespace Moose.Tcp

open List Option

open Relation (ReflTransGen)
open Lib

namespace TcpControlBlock

/-- The timestamp it echoes shows that a timeout was spurious, and the response of Eifel takes
SND.NXT back to where it was at the timeout. SND.NXT stays if that is where it still is, and also if
the acknowledgement is already past it: the response then leaves SND.NXT alone. -/
def eifelRewinds (t : TcpControlBlock) (seg : Segment) : Bool :=
  t.ts.enabled && t.eifelSpurious ((findTimestamp seg.options).map (·.2)) seg.flags.ece &&
    match t.eifel.sndMax with
    | some sndMax => sndMax != t.snd.nxt && 0 ≤ SeqNum.dist sndMax seg.ack
    | none => false

/-- The segment takes SND.NXT back. It has to be an acceptable acknowledgement above SND.UNA, since
`process_data_datagram` does not come to Eifel with any other; the source compares the two numbers
as plain integers there. So a duplicate with an old timestamp does not rewind. -/
def rewinds (t : TcpControlBlock) (seg : Segment) : Bool :=
  t.isAcceptableAck seg.ack && t.snd.una.toNat < seg.ack.toNat && t.eifelRewinds seg

variable {M : CubicMath} {t t' : TcpControlBlock} {seg : Segment} {now : Instant}

/-! ## Sending -/

theorem applyOutgoingEcn_flags (flags : Flags) (data : List UInt8) :
    (t.applyOutgoingEcn flags data).2.syn = flags.syn ∧
      (t.applyOutgoingEcn flags data).2.fin = flags.fin := by
  unfold applyOutgoingEcn
  split
  · exact ⟨rfl, rfl⟩
  · split <;> split <;> exact ⟨rfl, rfl⟩

theorem sndView_enqueue (data : List UInt8) (flags : Flags) (len : Nat) :
    (t.enqueue data flags len now).sndView =
      { t.sndView with
        nxt := t.snd.nxt + BitVec.ofNat 32 len
        queue := t.sndView.queue ++ [⟨t.snd.nxt, data, { flags with cwr := false }⟩] } := by
  simp only [enqueue, sndView, map_append]
  rfl

theorem sndView_sendSegment (t : TcpControlBlock) (inFlight sendLen : Nat) (now : Instant) :
    ∃ flags : Flags, flags.syn = false ∧ flags.fin = false ∧
      (t.sendSegment inFlight sendLen now).sndView = t.sndView.push sendLen flags := by
  let t1 : TcpControlBlock :=
    { t with snd := { t.snd with sendBuffer := t.snd.sendBuffer.drop sendLen } }
  let r := t1.applyOutgoingEcn { ack := true, psh := true } (t.snd.sendBuffer.take sendLen)
  have hflags := t1.applyOutgoingEcn_flags { ack := true, psh := true }
    (t.snd.sendBuffer.take sendLen)
  refine ⟨{ r.2 with cwr := false }, hflags.1, hflags.2, ?_⟩
  unfold sendSegment
  have hnoted : ((r.1.armProbe (t.snd.sendBuffer.take sendLen).length now).noteSent
      (satAdd32 inFlight sendLen) now).sndView = t1.sndView :=
    sndView_of_view (((tunes_applyOutgoingEcn _ _).trans (tunes_armProbe _)).trans
      (tunes_noteSent _)).view
  have hnxt : ((r.1.armProbe (t.snd.sendBuffer.take sendLen).length now).noteSent
      (satAdd32 inFlight sendLen) now).snd.nxt = t.snd.nxt := congrArg SndView.nxt hnoted
  rw [sndView_of_view (tunes_tlpArm.trans (tunes_schedulePacing _)).view, sndView_enqueue, hnoted,
    hnxt]
  rfl

/-- A round of the send loop sends a segment that both windows have room for, or nothing. -/
theorem sndView_sendRound (t : TcpControlBlock) (now : Instant) :
    ((t.sendRound now).2 = false ∧ (t.sendRound now).1.sndView = t.sndView) ∨
      ((t.sendRound now).2 = true ∧ ∃ n flags, flags.syn = false ∧ flags.fin = false ∧ 0 < n ∧
        n ≤ t.sndView.sendBuffer.length ∧ n ≤ t.neg.effectiveMss ∧
        t.flightSizeBytes + n ≤ min t.cc.cwnd t.snd.wnd ∧
        (t.sendRound now).1.sndView = t.sndView.push n flags) := by
  unfold sendRound
  split
  · exact .inl ⟨rfl, rfl⟩
  split
  · exact .inl ⟨rfl, rfl⟩
  dsimp only
  split
  · exact .inl ⟨rfl, rfl⟩
  split
  · exact .inl ⟨rfl, sndView_of_view (tunes_sendBlocked _).view⟩
  rename_i hwnd
  split
  · exact .inl ⟨rfl, rfl⟩
  rename_i hlen
  obtain ⟨flags, hsyn, hfin, hview⟩ := sndView_sendSegment
    { t with
      cc := { t.cc with cwv := { t.cc.cwv with
        pipeMax := max t.cc.cwv.pipeMax t.flightSizeBytes } }
      timers := { t.timers with persistTimer := none } }
    t.flightSizeBytes
    (min (min t.snd.sendBuffer.length (min t.snd.wnd t.cc.cwnd - t.flightSizeBytes))
      t.neg.effectiveMss) now
  refine .inr ⟨rfl, _, flags, hsyn, hfin, Nat.pos_of_ne_zero hlen, ?_,
    Nat.min_le_right _ _, ?_, hview⟩
  · exact Nat.le_trans (Nat.min_le_left _ _) (Nat.min_le_left _ _)
  simp only [not_or, Nat.not_le] at hwnd
  omega

theorem sendLoop_sending (t : TcpControlBlock) (now : Instant) (fuel : Nat) :
    ∃ out, t.sndView.Sending out (sendLoop now fuel t).sndView := by
  induction fuel generalizing t with
  | zero => exact ⟨[], .done _⟩
  | succ fuel ih =>
    have hround := t.sndView_sendRound now
    unfold sendLoop
    split
    next t1 heq =>
      rw [heq] at hround
      rcases hround with ⟨hf, -⟩ | ⟨-, n, flags, hsyn, hfin, hpos, hlen, -, hroom, hview⟩
      · cases hf
      obtain ⟨out, hout⟩ := ih t1
      rw [show t1.sndView = t.sndView.push n flags from hview] at hout
      have hwnd := Nat.le_trans hroom (Nat.min_le_right _ _)
      exact ⟨_, .segment n flags hsyn hfin hpos hlen hwnd hout⟩
    next t1 heq =>
      rw [heq] at hround
      rcases hround with ⟨-, hview⟩ | ⟨hf, -⟩
      · rw [show t1.sndView = t.sndView from hview]
        exact ⟨[], .done _⟩
      · cases hf

/-- **The send queue**: what goes out is what the queue gained. -/
theorem processSendQueue_sending (t : TcpControlBlock) (now : Instant) :
    t.sndView.Sending (t.sentBySendQueue now) (t.processSendQueue now).sndView := by
  obtain ⟨out, hout⟩ := t.sendLoop_sending now (t.snd.sendBuffer.length + 1)
  have hsent : t.sentBySendQueue now = out := by
    rw [sentBySendQueue, queuedSince, processSendQueue, hout.queue, drop_left]
  rw [hsent]
  exact hout

theorem carryOut_sending (t : TcpControlBlock) (plan : Plan) (now : Instant) :
    t.sndView.Sending (t.sentByCarryOut plan now).fresh (t.carryOut plan now).sndView := by
  unfold carryOut sentByCarryOut
  have hfast : (if plan.fastRetransmit then t.retransmitMatching .fastRetransmit none now
      else t).sndView = t.sndView := by
    split
    · exact sndView_of_view (tunes_retransmitMatching _ _).view
    · rfl
  generalize (if plan.fastRetransmit then t.retransmitMatching .fastRetransmit none now
    else t) = t1 at hfast
  rw [← hfast]
  cases plan.partialRetransmitAck with
  | none =>
    dsimp only
    split
    · exact t1.processSendQueue_sending now
    · exact .done _
  | some ack =>
    have hview : (t1.retransmitMatching .partialAck (some ack) now).sndView = t1.sndView :=
      sndView_of_view (tunes_retransmitMatching _ _).view
    dsimp only
    rw [← hview]
    split
    · exact processSendQueue_sending _ now
    · exact .done _

/-! ## Acknowledgements -/

theorem map_core_filter (ack : SeqNum) (q : List UnackedSegment) :
    (q.filter fun s => SeqNum.dist ack s.endSeq < 0).map (·.core) =
      SentCore.above ack (q.map (·.core)) := by
  rw [SentCore.above, Spans.above, List.filter_map]
  rfl

theorem sndView_drainRetransmissionQueue (ack : SeqNum) :
    (t.drainRetransmissionQueue ack).sndView =
      { t.sndView with queue := SentCore.above ack t.sndView.queue } := by
  simp only [drainRetransmissionQueue, sndView, map_core_filter]

theorem sndView_finAcked (prior : TcpState) : (t.finAcked prior now).sndView = t.sndView := by
  unfold finAcked
  split <;> rfl

/-- An ACK that does not take SND.NXT back only moves SND.UNA. -/
theorem sndView_advanceUna (h : t.eifelRewinds seg = false) :
    (t.advanceUna seg).sndView = { t.sndView with una := seg.ack } := by
  unfold advanceUna
  dsimp only
  split
  next hts =>
    unfold eifelOnAcceptableAck
    split
    · rfl
    split
    · rfl
    rename_i hspurious
    have hnxt : eifelSndNxt { t with
        snd := { t.snd with una := seg.ack }
        cc := { t.cc with duplicateAckCount := 0 }
        eifel := { t.eifel with bytesAcked := (seg.ack - t.snd.una).toNat } } = t.snd.nxt := by
      simp only [Bool.not_eq_true, Bool.not_eq_false'] at hspurious
      have hs : t.eifelSpurious ((findTimestamp seg.options).map (·.2)) seg.flags.ece =
        true := hspurious
      rw [eifelRewinds, show t.ts.enabled = true from hts, hs, Bool.true_and, Bool.true_and] at h
      unfold eifelSndNxt
      cases hmax : t.eifel.sndMax with
      | none => rw [getD_none, ite_self]
      | some m =>
        rw [hmax] at h
        simp only [Bool.and_eq_false_iff, bne_eq_false_iff_eq, decide_eq_false_iff_not] at h
        rw [getD_some]
        rcases h with rfl | h
        · rw [ite_self]
        · rw [if_neg h]
    simp only [sndView, hnxt]
  · exact (sndView_of_view (view_frtoOnAck _)).trans rfl

theorem sndView_ackAdvances (hrewinds : t.eifelRewinds seg = false) {plan plan' : Plan}
    (h : t.ackAdvances M seg now plan = some (t', plan')) :
    t'.sndView =
      { t.sndView with una := seg.ack, queue := SentCore.above seg.ack t.sndView.queue } := by
  obtain ⟨cc, t1, hview1, h⟩ := ackAdvances_cases h
  have hview : ((t1.drainRetransmissionQueue seg.ack).tlpArm now).sndView =
      { t.sndView with una := seg.ack, queue := SentCore.above seg.ack t.sndView.queue } := by
    rw [sndView_of_view tunes_tlpArm.view, sndView_drainRetransmissionQueue,
      sndView_of_view hview1, sndView_advanceUna (t := { t with cc := cc }) hrewinds]
    rfl
  rcases h with rfl | rfl
  · exact hview
  rw [sndView_finAcked]
  exact hview

/-- **The acknowledgement of a segment** is heard, or ignored. -/
theorem processAck_hears (hrewinds : t.rewinds seg = false) {plan : Plan}
    (h : t.processAck M seg now = some (t', plan)) :
    ReflTransGen SndView.Hears t.sndView t'.sndView := by
  obtain ⟨t1, reacted, h1, h⟩ := processAck_cases h
  have hview1 := sndView_of_view (view_eceReaction h1)
  have hrewinds1 : t1.rewinds seg = false := by
    obtain ⟨cc, ecn, rfl⟩ := eceReaction_only h1
    exact hrewinds
  rcases h with rfl | ⟨plan1, ⟨hacc, hadvances, h⟩ | h⟩
  · rw [hview1]
  · have hacc1 : t1.isAcceptableAck seg.ack = true := by
      obtain ⟨cc, ecn, rfl⟩ := eceReaction_only h1
      exact hacc
    rw [rewinds, hacc1, decide_eq_true hadvances, Bool.true_and, Bool.true_and] at hrewinds1
    rw [sndView_ackAdvances hrewinds1 h, hview1]
    exact .single (.ack seg.ack (of_decide_eq_true hacc))
  · rw [sndView_of_view (view_ackDuplicates h), hview1]

/-! ## Segments -/

theorem scalePeerWindow_le (t : TcpControlBlock) (wnd : BitVec 16) :
    t.scalePeerWindow wnd.toNat ≤ 65535 * 2 ^ t.neg.sndWscale := by
  have hwnd : wnd.toNat ≤ 65535 := Nat.le_of_lt_succ wnd.isLt
  unfold scalePeerWindow
  split
  · rw [Nat.shiftLeft_eq]
    exact Nat.le_trans (Nat.mod_le _ _) (Nat.mul_le_mul_right _ hwnd)
  · exact Nat.le_trans hwnd (Nat.le_mul_of_pos_right _ (Nat.two_pow_pos _))

theorem sndView_receiveSegment {plan plan' : Plan} {n : Nat}
    (h : t.receiveSegment seg now plan = some (t', plan', n)) :
    t'.sndView = t.sndView ∨
      t'.sndView = (t.maybeUpdateSendWindow seg.seq seg.ack seg.window.toNat).sndView := by
  rcases receiveSegment_cases h with ⟨rfl, -⟩ | ⟨t1, a, h1, rfl⟩
  · exact .inl rfl
  have hview := (receives_receivePayload h1).sndView
  rw [sndView_of_view tunes_decideAck.view]
  have hfin : (if seg.flags.fin then t1.handleFinFlag now else t1).sndView = t1.sndView := by
    split
    · exact receives_handleFinFlag.sndView
    · rfl
  exact .inr (hfin.trans hview)

theorem receiveSegment_hears {plan plan' : Plan} {n : Nat}
    (h : t.receiveSegment seg now plan = some (t', plan', n)) :
    ReflTransGen SndView.Hears t.sndView t'.sndView := by
  rcases sndView_receiveSegment h with hview | hview
  · rw [hview]
  rw [hview]
  unfold maybeUpdateSendWindow
  dsimp only
  split
  · exact .single (.window _ (t.scalePeerWindow_le _))
  · rfl

/-- **A segment of a synchronized connection** is heard, and then the queue is served. -/
theorem processDataDatagram_talks (hrewinds : t.rewinds seg = false) {n : Nat}
    (h : t.processDataDatagram M seg now = some (t', n)) :
    ∃ v, ReflTransGen SndView.Hears t.sndView v ∧
      v.Sending (t.sentByDatagram M seg now).fresh t'.sndView := by
  unfold sentByDatagram
  rcases processDataDatagram_cases h with ⟨hold, -, echo, rfl⟩ | ⟨hnew, ⟨-, hcheck⟩ |
    ⟨t1, t2, plan, hcheck, hchecked, rfl⟩⟩
  · rw [if_pos hold]
    exact ⟨t.sndView, .refl, .done _⟩
  · rw [hnew, if_neg nofun, hcheck]
    have hview : t'.sndView = t.sndView :=
      (view_checkSegment_dropped hcheck).elim sndView_of_view (congrArg View.snd)
    rw [hview]
    exact ⟨_, .refl, .done _⟩
  rw [hnew, if_neg nofun, hcheck]
  have hview1 := sndView_of_view (view_checkSegment hcheck)
  have hrewinds1 : t1.rewinds seg = false := by
    obtain ⟨echo, recent, last, age, rtt, least, rfl⟩ := checkSegment_only hcheck
    exact hrewinds
  dsimp only
  rw [hchecked]
  obtain ⟨t3, plan3, hack, hchecked⟩ := processChecked_cases hchecked
  have hhears3 := processAck_hears hrewinds1 hack
  rw [hview1] at hhears3
  refine ⟨t2.sndView, ?_, t2.carryOut_sending plan now⟩
  rcases hchecked with hchecked | ⟨rfl, -⟩
  · exact hhears3.trans (receiveSegment_hears hchecked)
  · exact hhears3

/-! ## The handshake -/

/-- The options of a SYN change at most the scale of the peer's window. -/
theorem sndView_applyPeerTcpOptions (t : TcpControlBlock) (options : List TcpOption)
    (seq : SeqNum) (now : Instant) :
    ∃ shift, (shift = t.sndView.wscale ∨ shift ≤ 14) ∧
      (t.applyPeerTcpOptions options seq now).sndView = { t.sndView with wscale := shift } := by
  induction options generalizing t with
  | nil => exact ⟨_, .inl rfl, rfl⟩
  | cons o options ih =>
    obtain ⟨shift, hshift, hview⟩ := ih (applyPeerTcpOption seq now t o)
    cases o with
    | windowScale k =>
      refine ⟨shift, ?_, hview⟩
      rcases hshift with rfl | hshift
      · exact .inr (Nat.min_le_right _ _)
      · exact .inr hshift
    | _ => exact ⟨shift, hshift, hview⟩

theorem processSynReceivedAck_eq (t : TcpControlBlock) (seg : Segment) (now : Instant) :
    t.processSynReceivedAck M seg now =
      if seg.flags.rst then some { t with state := .closed, lastError := some .connectionReset }
      else if t.state ≠ .synReceived ∨ !seg.flags.ack ∨ !t.isAcceptableAck seg.ack then some t
      else if seg.payload.isEmpty && seg.options.isEmpty then some (t.establish seg.ack)
      else ((t.establish seg.ack).processDataDatagram M seg now).map (·.1) := rfl

/-- The final ACK of a passive open, with whatever else the segment carries. -/
theorem processSynReceivedAck_talks (hstate : t.state = .synReceived)
    (h : t.processSynReceivedAck M seg now = some t') :
    ∃ v, ReflTransGen SndView.Hears t.sndView v ∧
      v.Sending (t.sentByData M seg now).fresh t'.sndView := by
  rw [processSynReceivedAck_eq] at h
  unfold sentByData
  rw [hstate]
  by_cases hrst : seg.flags.rst = true
  · rw [if_pos hrst] at h
    rw [if_pos (.inl hrst)]
    cases h
    exact ⟨_, .refl, .done _⟩
  rw [if_neg hrst] at h
  by_cases hacc : !seg.flags.ack ∨ !t.isAcceptableAck seg.ack
  · rw [if_pos (.inr hacc)] at h
    rw [if_pos (.inr (hacc.imp id .inl))]
    cases h
    exact ⟨_, .refl, .done _⟩
  rw [if_neg (by rw [hstate]; simpa using hacc)] at h
  have hhears : ReflTransGen SndView.Hears t.sndView (t.establish seg.ack).sndView := by
    simp only [establish, drainRetransmissionQueue, sndView, map_core_filter]
    refine .single (.ack seg.ack ?_)
    simp only [not_or, Bool.not_eq_true, Bool.not_eq_false'] at hacc
    exact of_decide_eq_true hacc.2
  by_cases hempty : (seg.payload.isEmpty && seg.options.isEmpty) = true
  · rw [if_pos hempty] at h
    rw [if_pos (.inr (.inr (.inr hempty)))]
    cases h
    exact ⟨_, hhears, .done _⟩
  rw [if_neg hempty] at h
  rw [if_neg (by
    rintro (hc | hc | hc | hc)
    · exact hrst hc
    · exact hacc (.inl hc)
    · exact hacc (.inr hc)
    · exact hempty hc)]
  simp only [map_eq_some_iff, Prod.exists, exists_and_right, exists_eq_right] at h
  obtain ⟨n, hdata⟩ := h
  -- the acknowledgement has been taken when the data is looked at
  have hrewinds' : (t.establish seg.ack).rewinds seg = false := by
    have huna : (t.establish seg.ack).snd.una = seg.ack := rfl
    rw [rewinds, huna, decide_eq_false (Nat.lt_irrefl _), Bool.and_false, Bool.false_and]
  obtain ⟨v, hv, hsend⟩ := processDataDatagram_talks hrewinds' hdata
  exact ⟨v, hhears.trans hv, hsend⟩

end TcpControlBlock

/-! ## Every activity is a move -/

namespace TcpControlBlock

/-- The segment resets the connection in a way that empties the queue. -/
def aborts (t : TcpControlBlock) (seg : Segment) : Bool :=
  match t.state with
  | .synSent => seg.flags.rst
  | .established => seg.flags.syn && seg.flags.ack && seg.flags.rst
  | _ => false

variable {M : CubicMath} {t t' : TcpControlBlock} {seg : Segment} {now : Instant}

theorem processData_talks (haborts : t.aborts seg = false) (hrewinds : t.rewinds seg = false)
    (h : t.processData M seg now = some t') :
    ∃ v, ReflTransGen SndView.Hears t.sndView v ∧
      v.Sending (t.sentByData M seg now).fresh t'.sndView := by
  have hdatagram : (t.processDataDatagram M seg now).map (·.1) = some t' →
      ∃ v, ReflTransGen SndView.Hears t.sndView v ∧
        v.Sending (t.sentByDatagram M seg now).fresh t'.sndView := by
    intro hd
    simp only [map_eq_some_iff, Prod.exists, exists_and_right, exists_eq_right] at hd
    obtain ⟨n, hdata⟩ := hd
    exact processDataDatagram_talks hrewinds hdata
  have hquiet : t'.sndView = t.sndView → ∃ v, ReflTransGen SndView.Hears t.sndView v ∧
      v.Sending [] t'.sndView := fun hv => ⟨_, .refl, hv ▸ .done _⟩
  unfold processData at h
  cases hstate : t.state with
  | synSent =>
    simp only [aborts, hstate] at haborts
    simp only [hstate, haborts, Bool.false_eq_true, if_false] at h
    simp only [sentByData, hstate]
    split at h
    · rcases processSynAck_cases h with rfl | ⟨hrst, -⟩
      · exact hquiet rfl
      · cases haborts.symm.trans hrst
    cases h
    exact hquiet rfl
  | synReceived =>
    rw [hstate] at h
    exact processSynReceivedAck_talks hstate h
  | established =>
    rw [hstate] at h
    simp only [aborts, hstate] at haborts
    simp only [sentByData, hstate]
    by_cases hsyn : (seg.flags.syn && seg.flags.ack) = true
    · simp only [if_pos hsyn] at h ⊢
      rw [hsyn, Bool.true_and] at haborts
      rcases processSynAck_cases h with rfl | ⟨hrst, -⟩
      · exact hquiet rfl
      · cases haborts.symm.trans hrst
    · simp only [if_neg hsyn] at h ⊢
      exact hdatagram h
  | timeWait =>
    rw [hstate] at h
    cases h
    simp only [sentByData, hstate]
    apply hquiet
    split <;> rfl
  | closed | listen =>
    rw [hstate] at h
    cases h
    simp only [sentByData, hstate]
    exact hquiet rfl
  | finWait1 | finWait2 | closeWait | closing | lastAck =>
    rw [hstate] at h
    simp only [sentByData, hstate]
    exact hdatagram h

theorem processData_aborts (haborts : t.aborts seg = true)
    (h : t.processData M seg now = some t') :
    t'.sndView = { t.sndView with queue := [] } ∧ t'.state = .closed ∧
      (t.sentByData M seg now).fresh = [] := by
  unfold processData at h
  unfold aborts at haborts
  cases hstate : t.state with
  | synSent =>
    simp only [hstate] at haborts
    simp only [hstate, haborts, if_true, some.injEq] at h
    rw [← h, abortConnection, if_neg (by rw [hstate]; simp)]
    simp only [sentByData, hstate, sndView, map_nil, and_self]
  | established =>
    simp only [hstate, Bool.and_eq_true] at haborts
    obtain ⟨⟨hsyn, hack⟩, hrst⟩ := haborts
    simp only [hstate, hsyn, hack, processSynAck, answerSynAck, hrst, Bool.and_self, if_true,
      some_bind, some.injEq] at h
    rw [← h]
    simp only [sentByData, hstate, hsyn, hack, Bool.and_self, if_true, refused, sndView, map_nil,
      and_self]
  | _ =>
    simp only [hstate] at haborts
    cases haborts

/-- A connection that cannot be closed any more stays so. -/
theorem canClose_processData (h : t.processData M seg now = some t')
    (hclosed : t.state.canClose = false) : t'.state.canClose = false := by
  have hopen : ∀ {s : TcpState}, t.state = s → s.canClose = true → t'.state.canClose = false := by
    intro s hs hopen
    rw [hs, hopen] at hclosed
    cases hclosed
  rcases processData_cases h with rfl | ⟨hs, -⟩ | ⟨hs, -⟩ | ⟨hs, -⟩ | ⟨-, timers, rfl⟩ |
    ⟨-, -, n, hdata⟩
  · exact hclosed
  · exact hopen hs rfl
  · exact hopen hs rfl
  · exact hopen hs rfl
  · exact hclosed
  · by_contra hcan
    rw [Bool.not_eq_false] at hcan
    rw [early_processDataDatagram TcpState.early_canClose hdata hcan] at hclosed
    cases hclosed

/-! ### Calls and timers -/

/-- The retransmission timer keeps the send side, and the state unless it gives up. -/
theorem tickRetransmissionTimer_quiet (t : TcpControlBlock) (now : Instant) :
    (t.tickRetransmissionTimer now).1.sndView = t.sndView ∧
      ((t.tickRetransmissionTimer now).1.state = t.state ∨
        (t.tickRetransmissionTimer now).1.state = .closed) := by
  unfold tickRetransmissionTimer
  split
  · exact ⟨rfl, .inl rfl⟩
  split
  · exact ⟨rfl, .inl rfl⟩
  split
  · exact ⟨rfl, .inl rfl⟩
  split
  · exact ⟨rfl, .inr rfl⟩
  · exact ⟨sndView_of_view (view_onRto _), .inl (congrArg (·.rx.state) (view_onRto _))⟩

theorem retransmissionTimeout_quiet (t : TcpControlBlock) (now : Instant) :
    (t.retransmissionTimeout now).sndView = t.sndView ∧
      ((t.retransmissionTimeout now).state = t.state ∨
        (t.retransmissionTimeout now).state = .closed) := by
  have htick := t.tickRetransmissionTimer_quiet now
  unfold retransmissionTimeout
  split
  next t1 heq =>
    rw [heq] at htick
    rw [sndView_of_view (tunes_retransmitMatching _ _).view,
      (tunes_retransmitMatching _ _).pushes.state]
    exact htick
  next t1 heq =>
    rw [heq] at htick
    exact htick

/-- What the timer thread does under the lock keeps the send side. -/
theorem tick_quiet (t : TcpControlBlock) (now : Instant) :
    (t.tick now).1.sndView = t.sndView ∧
      ((t.tick now).1.state = t.state ∨ (t.tick now).1.state = .closed) := by
  obtain ⟨hview, hstate⟩ := t.tickRetransmissionTimer_quiet now
  rcases t.tick_cases now with ⟨-, heq⟩ | hrest
  · rw [heq]
    exact ⟨rfl, .inl rfl⟩
  refine ⟨hrest.sndView.trans hview, ?_⟩
  rcases hrest.state with hs | hs
  · rw [hs]
    exact hstate
  · exact .inr hs

/-- Nothing is sent from the buffer. -/
theorem Tunes.sending (h : Tunes t t') : t.sndView.Sending [] t'.sndView := by
  rw [sndView_of_view h.view]
  exact .done _

/-- What the timer thread does after the lock is dropped. -/
theorem perform_sending (t : TcpControlBlock) (now : Instant) (d : Due) :
    t.sndView.Sending (t.perform now d).2.fresh (t.perform now d).1.sndView := by
  cases d with
  | ack => exact (tunes_applyOutgoingEcn _ _).sending
  | retransmit => exact (tunes_retransmitMatching _ _).sending
  | tailLoss =>
    show t.sndView.Sending (t.tlpSendProbe now).2.fresh (t.tlpSendProbe now).1.sndView
    unfold tlpSendProbe
    split
    · exact processSendQueue_sending
        { t with sack := { t.sack with tlpIsRetrans := false, tlpHighRxt := t.snd.nxt } } now
    split
    · exact .done _
    have hmark : Tunes t (t.modifySegment (t.snd.retransmissionQueue.length - 1)
        fun s => { s with xmitMstamp := now, retrans := true }) :=
      tunes_modifySegment fun _ => rfl
    refine Tunes.sending ((hmark.trans ?_).trans (tunes_applyOutgoingEcn _ _))
    exact ⟨rfl, rfl⟩
  | windowProbe =>
    show t.sndView.Sending t.sendWindowProbe.2.fresh t.sendWindowProbe.1.sndView
    unfold sendWindowProbe
    split
    · exact .done _
    · exact (tunes_applyOutgoingEcn _ _).sending
  | keepalive => exact (tunes_applyOutgoingEcn _ _).sending
  | pacingRelease => exact t.processSendQueue_sending now

theorem state_receiveSync {len : Nat} {result : ReceiveResult}
    (h : t.receiveSync len = some (t', result)) : t'.state = t.state := by
  rcases receiveSync_read h with ⟨rfl, -⟩ | ⟨b, wnd, -, hview, -⟩
  · rfl
  · exact congrArg RxView.state hview

/-! ## What goes out is in the queue -/

theorem sentByRetransmit_mem (partialAck : Option SeqNum) :
    ∀ e ∈ t.sentByRetransmit partialAck, e ∈ t.sndView.queue := by
  intro e he
  simp only [sentByRetransmit, mem_toList, map_eq_some_iff,
    bind_eq_some_iff] at he
  obtain ⟨s, ⟨i, -, hi⟩, rfl⟩ := he
  exact mem_map_of_mem (mem_of_getElem? hi)

theorem queue_of_sending {v v' : SndView} {out : List SentCore} (h : v.Sending out v') :
    ∀ e ∈ v.queue ++ out, e ∈ v'.queue := by
  intro e he
  rw [h.queue]
  exact he

theorem sentByCarryOut_mem (t : TcpControlBlock) (plan : Plan) (now : Instant) :
    ∀ e ∈ (t.sentByCarryOut plan now).all, e ∈ (t.carryOut plan now).sndView.queue := by
  intro e he
  apply queue_of_sending (t.carryOut_sending plan now)
  simp only [Sent.all, mem_append] at he ⊢
  rcases he with (he | he) | he
  · left
    simp only [sentByCarryOut, mem_append] at he
    rcases he with he | he
    · split at he
      · exact sentByRetransmit_mem _ e he
      · cases he
    split at he
    · have hmem := sentByRetransmit_mem _ e he
      split at hmem
      · rwa [sndView_of_view (tunes_retransmitMatching _ _).view] at hmem
      · exact hmem
    · cases he
  · exact .inr he
  · cases he

theorem sentByDatagram_mem {n : Nat} (h : t.processDataDatagram M seg now = some (t', n)) :
    ∀ e ∈ (t.sentByDatagram M seg now).all, e ∈ t'.sndView.queue := by
  intro e he
  unfold sentByDatagram at he
  rcases processDataDatagram_cases h with ⟨hold, -⟩ | ⟨hnew, ⟨-, hcheck⟩ |
    ⟨t1, t2, plan, hcheck, hchecked, rfl⟩⟩
  · rw [if_pos hold] at he
    cases he
  · rw [hnew, if_neg nofun, hcheck] at he
    cases he
  rw [hnew, if_neg nofun, hcheck] at he
  dsimp only at he
  rw [hchecked] at he
  exact t2.sentByCarryOut_mem plan now e he

theorem sentByData_mem (h : t.processData M seg now = some t') :
    ∀ e ∈ (t.sentByData M seg now).all, e ∈ t'.sndView.queue := by
  intro e he
  have hdatagram : ∀ {t : TcpControlBlock}, (t.processDataDatagram M seg now).map (·.1) = some t' →
      e ∈ (t.sentByDatagram M seg now).all → e ∈ t'.sndView.queue := by
    intro t hd he
    simp only [map_eq_some_iff, Prod.exists, exists_and_right, exists_eq_right] at hd
    obtain ⟨n, hdata⟩ := hd
    exact sentByDatagram_mem hdata e he
  unfold processData at h
  unfold sentByData at he
  cases hstate : t.state with
  | synReceived =>
    simp only [hstate] at h he
    split at he
    · cases he
    rename_i hnot
    simp only [not_or] at hnot
    obtain ⟨hrst, hack, hacc, hempty⟩ := hnot
    rw [processSynReceivedAck_eq, if_neg hrst, if_neg (by rw [hstate]; simp [hack, hacc]),
      if_neg hempty] at h
    exact hdatagram h he
  | established =>
    simp only [hstate] at h he
    split at he
    · cases he
    next hsyn =>
      rw [if_neg hsyn] at h
      exact hdatagram h he
  | finWait1 | finWait2 | closeWait | closing | lastAck =>
    simp only [hstate] at h he
    exact hdatagram h he
  | closed | listen | synSent | timeWait =>
    simp only [hstate] at he
    cases he

/-- A window probe is the only segment with a number of its own that is not on the queue. -/
theorem perform_mem (t : TcpControlBlock) (now : Instant) (d : Due)
    (hprobe : d = .windowProbe → t.snd.sendBuffer = []) :
    ∀ e ∈ (t.perform now d).2.all, e.seqLen = 0 ∨ e ∈ (t.perform now d).1.sndView.queue := by
  intro e he
  have hsend := queue_of_sending (t.perform_sending now d) e
  cases d with
  | ack => cases he
  | retransmit =>
    right
    apply hsend
    simp only [perform, Sent.all, append_nil] at he
    exact mem_append_left _ (sentByRetransmit_mem _ e he)
  | tailLoss =>
    right
    apply hsend
    simp only [perform, tlpSendProbe] at he ⊢
    split at he
    next hnew =>
      rw [if_pos hnew]
      exact mem_append_right _ (by simpa [Sent.all] using he)
    rename_i hnew
    rw [if_neg hnew]
    split at he
    · cases he
    rename_i s hs
    have hes : e = s.core := by simpa [Sent.all] using he
    rw [hes]
    exact mem_append_left _ (mem_map_of_mem (mem_of_getLast? hs))
  | windowProbe =>
    simp only [perform, sendWindowProbe, hprobe rfl] at he
    cases he
  | keepalive =>
    left
    have hes : e = ⟨t.snd.una - 1, [], (t.applyOutgoingEcn { ack := true } []).2⟩ := by
      simpa [perform, sendKeepaliveProbe, Sent.all] using he
    obtain ⟨hsyn, hfin⟩ := t.applyOutgoingEcn_flags { ack := true } []
    rw [hes, SentCore.seqLen, hsyn, hfin]
    rfl
  | pacingRelease =>
    right
    apply hsend
    simp only [perform, Sent.all, nil_append, append_nil] at he
    exact mem_append_right _ he

end TcpControlBlock
end Moose.Tcp
