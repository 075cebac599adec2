import Moose.Tcp.SendSide

/-!
# Segments from outside the window

A segment that lies outside the receive window should change nothing: whoever sends it need not know
the connection. The handler looks at the window last, after the RST flag, ECN, timestamps and the
acknowledgement. `Ignores` says for which segments this makes no difference.

The condition has one part for each step of the handler before the window, in their order, and each
compares the segment with the fields that step would write: CE and CWR with the pending echo, TSval
with TS.Recent, TSecr with the estimators, the acknowledgement with SND.UNA. A segment may pass all
of them because it is dropped on the way, for its timestamp for instance.
-/

set_option autoImplicit false

namespace Moose.Tcp

open TcpControlBlock Lib

/-- Both sides have agreed on their sequence numbers. -/
def TcpState.synchronized : TcpState → Bool
  | .closed | .listen | .synSent | .synReceived => false
  | _ => true

namespace TcpControlBlock

/-! ## What a segment changes before the window is looked at -/

/-- ECE makes the congestion window smaller. -/
def reactsToEce (t : TcpControlBlock) (seg : Segment) : Bool :=
  t.ecn.enabled && seg.flags.ece && !t.ecn.cwrPending && !t.cc.inFastRecovery

def isDuplicateAck (t : TcpControlBlock) (seg : Segment) : Bool :=
  seg.ack = t.snd.una && seg.payload.isEmpty && !t.snd.retransmissionQueue.isEmpty

/-- The acknowledgement is out of range, or it is old news. -/
def AckIgnored (t : TcpControlBlock) (seg : Segment) : Prop :=
  t.isAcceptableAck seg.ack = true →
    t.reactsToEce seg = false ∧ seg.ack.toNat ≤ t.snd.una.toNat ∧ t.isDuplicateAck seg = false

/-- CE and CWR leave the note that a mark has to be echoed as it is. -/
def EchoKept (t : TcpControlBlock) (seg : Segment) : Prop :=
  t.ecn.enabled = true →
    if t.ecn.echoPending then seg.flags.cwr = false else seg.ce = true → seg.flags.cwr = true

/-- TS.Recent is not set, or to the values it has: a segment from before the last one that set it
leaves it alone. -/
def RecentKept (t : TcpControlBlock) (seg : Segment) (now : Instant) (tsval : BitVec 32) : Prop :=
  t.ts.enabled = true → 0 ≤ SeqNum.dist seg.seq t.ts.lastAckTsSeq ∨ seg.flags.syn = true →
    tsval = t.ts.tsRecent ∧ seg.seq = t.ts.lastAckTsSeq ∧ now = t.ts.recentAge

/-- A sample at which SRTT, RTTVAR, the timeout and the least RTT all stay. -/
def FixedSample (t : TcpControlBlock) (r : Nat) : Prop :=
  ∃ srtt rttvar : Nat, t.rtt.srtt = some srtt ∧ t.rtt.rttvar = some rttvar ∧
    (3 * rttvar < 2 ^ 64 ∧ 7 * srtt < 2 ^ 64) ∧ 7 * srtt / 8 + r / 8 = srtt ∧
    3 * rttvar / 4 + (max srtt r - min srtt r) / 4 = rttvar ∧
    t.rtt.rto = min (max (satAdd64 srtt (satMul64 rttvar 4)) (Duration.fromSecs 1))
      (Duration.fromSecs 60) ∧ t.sack.rackMinRtt ≤ r

/-- The echoed timestamp gives no sample, or one that changes nothing. -/
def SampleKept (t : TcpControlBlock) (now : Instant) (tsecr : BitVec 32) : Prop :=
  tsecr ≠ 0 → (t.tcpTsNow now - tsecr).toNat < 60000 →
    t.FixedSample (Duration.fromMillis (t.tcpTsNow now - tsecr).toNat)

/-- The segment is dropped for its timestamp, or the timestamp says nothing new. -/
def TimestampIgnored (t : TcpControlBlock) (seg : Segment) (now : Instant) : Prop :=
  match findTimestamp seg.options with
  | none => t.ts.enabled = true ∨ t.AckIgnored seg
  | some (tsval, tsecr) => t.pawsRejects seg now tsval = true ∨
    t.RecentKept seg now tsval ∧ t.SampleKept now tsecr ∧ t.AckIgnored seg

/-- `process_data_datagram` has nothing to do before it comes to the window. -/
def IgnoresDatagram (t : TcpControlBlock) (seg : Segment) (now : Instant) : Prop :=
  if t.isOldDuplicate seg then (seg.ce && t.ecn.enabled) = true → t.ecn.echoPending = true
  else seg.flags.rst = false ∧
    (seg.flags.ack = true → t.EchoKept seg ∧ t.TimestampIgnored seg now)

/-- The same for the handler of the current state. -/
def Ignores (t : TcpControlBlock) (seg : Segment) (now : Instant) : Prop :=
  match t.state with
  | .timeWait =>
    seg.flags.fin = true →
      t.timers.timewaitDeadline = some (satAdd64 now (Duration.fromSecs 120))
  | .established =>
    if seg.flags.syn && seg.flags.ack then seg.flags.rst = false else t.IgnoresDatagram seg now
  | _ => t.IgnoresDatagram seg now

variable {M : CubicMath} {t t' : TcpControlBlock} {seg : Segment} {now : Instant}

/-! ## Traces -/

/-- Fields in which an acknowledgement leaves a trace. -/
structure Trace where
  snd : SndView
  duplicateAckCount : Nat
  cwrPending : Bool

def trace (t : TcpControlBlock) : Trace := ⟨t.sndView, t.cc.duplicateAckCount, t.ecn.cwrPending⟩

theorem count_onCongestionEvent {cc : Congestion} (h : onCongestionEvent M now t = some cc) :
    cc.duplicateAckCount = t.cc.duplicateAckCount := by
  simp only [onCongestionEvent, Option.bind_eq_bind] at h
  split at h
  · split at h
    · simp only [Option.bind_eq_some_iff, Option.some.injEq] at h
      obtain ⟨wMax, -, cwnd, -, raw, -, c, rfl, rfl⟩ := h
      rfl
    simp only [Option.bind_eq_some_iff, Option.some.injEq] at h
    obtain ⟨wMax, -, cwnd, -, raw, -, c, rfl, rfl⟩ := h
    rfl
  · simp only [Option.bind_eq_some_iff, Option.some.injEq] at h
    obtain ⟨cwnd, -, c, rfl, rfl⟩ := h
    rfl

theorem count_sackTxApply (ack : SeqNum) (blocks : List SackBlock) :
    (t.sackTxApply ack blocks).cc.duplicateAckCount = t.cc.duplicateAckCount := by
  unfold sackTxApply
  induction blocks generalizing t with
  | nil => rfl
  | cons b blocks ih =>
    rw [List.foldl_cons, ih]
    unfold sackTxApplyBlock
    split
    · unfold sackDsackUndo
      split <;> rfl
    · rfl

theorem count_detectLoss :
    (t.detectLoss seg now).cc.duplicateAckCount = t.cc.duplicateAckCount := by
  unfold detectLoss
  split
  · rfl
  · exact count_sackTxApply _ _

theorem count_ackDuplicates {plan plan' : Plan}
    (h : t.ackDuplicates M seg now plan = some (t', plan')) :
    t'.cc.duplicateAckCount = t.cc.duplicateAckCount + 1 := by
  simp only [ackDuplicates, bind_eq_some] at h
  obtain ⟨count, hcount, h⟩ := h
  have hchecked : count = t.cc.duplicateAckCount + 1 := by
    unfold checked32 at hcount
    split at hcount <;> cases hcount
    rfl
  have hcounted : (t.countDuplicate seg count now).cc.duplicateAckCount = count := by
    unfold countDuplicate
    rw [count_detectLoss]
    split
    · unfold frtoOnAck
      repeat' split
      all_goals rfl
    · rfl
  rw [← hchecked, ← hcounted]
  unfold reactToDuplicate at h
  dsimp only at h
  split at h
  · simp only [Option.map_eq_some_iff, Prod.mk.injEq] at h
    obtain ⟨t1, h1, rfl, -⟩ := h
    unfold enterRecovery at h1
    simp only [Option.map_eq_some_iff] at h1
    obtain ⟨cc, hcc, rfl⟩ := h1
    have hcount := count_onCongestionEvent hcc
    split at hcount <;> exact hcount
  · split at h <;> cases h <;> rfl

theorem cc_applyOutgoingEcn (flags : Flags) (data : List UInt8) :
    (t.applyOutgoingEcn flags data).1.cc = t.cc := by
  unfold applyOutgoingEcn
  split
  · rfl
  dsimp only
  split <;> rfl

theorem cc_tlpArm : (t.tlpArm now).cc = t.cc := by
  unfold tlpArm
  split <;> rfl

theorem count_cwvNoteAppLimited (c : Congestion) (now : Instant) :
    (cwvNoteAppLimited c now).duplicateAckCount = c.duplicateAckCount := by
  unfold cwvNoteAppLimited
  split <;> rfl

theorem count_cwvNoteValidated (c : Congestion) :
    (cwvNoteValidated c).duplicateAckCount = c.duplicateAckCount := by
  unfold cwvNoteValidated
  split <;> rfl

theorem count_retransmitMatching (cause : RetransmitCause) (ack : Option SeqNum) :
    (t.retransmitMatching cause ack now).cc.duplicateAckCount = t.cc.duplicateAckCount := by
  have heifel : ∀ (t : TcpControlBlock) (i : Nat), (t.armEifel cause i now).cc = t.cc := by
    intro t i
    unfold armEifel
    split <;> rfl
  unfold retransmitMatching
  split
  · rfl
  dsimp only
  split
  · rw [cc_applyOutgoingEcn]
    exact congrArg Congestion.duplicateAckCount (heifel _ _)
  · exact congrArg Congestion.duplicateAckCount (heifel _ _)

theorem count_sendSegment (inFlight sendLen : Nat) :
    (t.sendSegment inFlight sendLen now).cc.duplicateAckCount = t.cc.duplicateAckCount := by
  have hpacing : ∀ (t : TcpControlBlock) (n : Nat), (t.schedulePacing n now).cc = t.cc := by
    intro t n
    unfold schedulePacing
    split <;> rfl
  have hprobe : ∀ (t : TcpControlBlock) (n : Nat), (t.armProbe n now).cc = t.cc := by
    intro t n
    unfold armProbe
    split <;> rfl
  have hsent : ∀ (t : TcpControlBlock) (n : Nat),
      (t.noteSent n now).cc.duplicateAckCount = t.cc.duplicateAckCount := by
    intro t n
    unfold noteSent
    dsimp only
    split
    · exact count_cwvNoteValidated _
    · rfl
  have hqueue : ∀ (t : TcpControlBlock) (data : List UInt8) (flags : Flags) (n : Nat),
      (t.enqueue data flags n now).cc = t.cc := fun _ _ _ _ => rfl
  unfold sendSegment
  rw [hpacing, cc_tlpArm, hqueue, hsent, hprobe, cc_applyOutgoingEcn]

theorem count_sendRound :
    (t.sendRound now).1.cc.duplicateAckCount = t.cc.duplicateAckCount := by
  unfold sendRound
  split
  · exact count_cwvNoteAppLimited _ _
  split
  · rfl
  dsimp only
  split
  · exact count_cwvNoteAppLimited _ _
  split
  · unfold sendBlocked
    dsimp only
    split
    · split
      · exact count_cwvNoteValidated _
      · exact count_cwvNoteAppLimited _ _
    split
    · exact count_cwvNoteValidated _
    · exact count_cwvNoteAppLimited _ _
  · split
    · rfl
    · exact count_sendSegment _ _

theorem count_carryOut (plan : Plan) :
    (t.carryOut plan now).cc.duplicateAckCount = t.cc.duplicateAckCount := by
  have hloop : ∀ (fuel : Nat) (t : TcpControlBlock),
      (sendLoop now fuel t).cc.duplicateAckCount = t.cc.duplicateAckCount := by
    intro fuel
    induction fuel with
    | zero => exact fun t => rfl
    | succ fuel ih =>
      intro t
      have hround : (t.sendRound now).1.cc.duplicateAckCount = t.cc.duplicateAckCount :=
        count_sendRound
      unfold sendLoop
      split
      next t1 heq =>
        rw [heq] at hround
        rw [ih, ← hround]
      next t1 heq =>
        rw [heq] at hround
        exact hround
  have hqueue : ∀ t : TcpControlBlock,
      (t.processSendQueue now).cc.duplicateAckCount = t.cc.duplicateAckCount :=
    fun t => hloop _ t
  unfold carryOut
  split <;> split <;> split <;> simp [count_retransmitMatching, hqueue]

/-- The send loop clears the CWR flag only by sending. -/
theorem cwrPending_processSendQueue (h : (t.processSendQueue now).sndView = t.sndView) :
    (t.processSendQueue now).ecn.cwrPending = t.ecn.cwrPending := by
  have hround : (t.sendRound now).2 = false → (t.sendRound now).1.ecn = t.ecn := by
    unfold sendRound
    split
    · exact fun _ => rfl
    split
    · exact fun _ => rfl
    dsimp only
    split
    · exact fun _ => rfl
    split
    · intro _
      unfold sendBlocked
      dsimp only
      split <;> rfl
    · split
      · exact fun _ => rfl
      · exact fun hsent => by cases hsent
  unfold processSendQueue sendLoop at h ⊢
  have hview := t.sndView_sendRound now
  split at h
  next t1 heq =>
    rw [heq] at hview
    rcases hview with ⟨hf, -⟩ | ⟨-, n, flags, -, -, -, -, -, -, hpush⟩
    · cases hf
    -- something went out, so the queue is longer
    exfalso
    obtain ⟨out, hout⟩ := t1.sendLoop_sending now t.snd.sendBuffer.length
    have hlen := congrArg List.length hout.queue
    rw [h, show t1.sndView = t.sndView.push n flags from hpush] at hlen
    simp only [SndView.push, List.length_append, List.length_singleton] at hlen
    omega
  next t1 heq =>
    rw [heq] at hround
    exact congrArg EcnState.cwrPending (hround rfl)

theorem Sending.una {v v' : SndView} {out : List SentCore} (h : v.Sending out v') :
    v'.una = v.una := by
  induction h with
  | done v => rfl
  | segment n flags _ _ _ _ _ _ ih => exact ih

/-- SND.UNA goes where the acknowledgement says. -/
theorem una_ackAdvances {plan plan' : Plan}
    (h : t.ackAdvances M seg now plan = some (t', plan')) : t'.snd.una = seg.ack := by
  obtain ⟨cc, t1, hview, h⟩ := ackAdvances_cases h
  obtain ⟨cc', nxt, eifel, frto, hadvance⟩ := advanceUna_only (t := { t with cc := cc })
  have hdrain : (t1.drainRetransmissionQueue seg.ack).sndView.una = t1.sndView.una := rfl
  have huna : ((t1.drainRetransmissionQueue seg.ack).tlpArm now).sndView.una = seg.ack := by
    rw [sndView_of_view tunes_tlpArm.view, hdrain, sndView_of_view hview, hadvance]
    rfl
  rcases h with rfl | rfl
  · exact huna
  · exact (congrArg SndView.una (sndView_finAcked _)).trans huna

/-! ## Acknowledgements -/

theorem isSegmentAcceptable_processAck {plan : Plan}
    (h : t.processAck M seg now = some (t', plan)) (seq : SeqNum) (len : Nat) :
    t'.isSegmentAcceptable seq len = t.isSegmentAcceptable seq len := by
  rcases rxView_processAck h with hview | ⟨t1, hview, rfl⟩
  · exact isSegmentAcceptable_congr hview seq len
  unfold finAcked
  split <;> exact isSegmentAcceptable_congr hview seq len

/-- Outside the window only the acknowledgement counts. -/
theorem processChecked_outside (hout : t.isSegmentAcceptable seg.seq seg.payload.length = false)
    {plan : Plan} {n : Nat} (h : t.processChecked M seg now = some (t', plan, n)) :
    ∃ plan1, t.processAck M seg now = some (t', plan1) ∧
      (plan = plan1 ∨ plan = { plan1 with sendAck := true }) := by
  obtain ⟨t1, plan1, hack, h | ⟨rfl, rfl, -⟩⟩ := processChecked_cases h
  · rw [receiveSegment, isSegmentAcceptable_processAck hack, hout] at h
    cases h
    exact ⟨plan1, hack, .inr rfl⟩
  · exact ⟨_, hack, .inl rfl⟩

/-- An acknowledgement that is old news does nothing. -/
theorem processAck_ignored (M : CubicMath) (now : Instant) (h : t.AckIgnored seg) :
    ∃ sendAck, t.processAck M seg now = some (t, { sendAck := sendAck }) := by
  have hreact : t.eceReaction M seg now = some (t, false) := by
    unfold eceReaction
    rw [if_neg]
    intro hcond
    simp only [Bool.and_assoc, Bool.and_eq_true] at hcond
    obtain ⟨hacc, hrest⟩ := hcond
    have hece := (h hacc).1
    simp only [reactsToEce, Bool.and_assoc, Bool.and_eq_false_iff] at hece
    simp only [hrest.1, hrest.2.1, hrest.2.2.1, hrest.2.2.2, Bool.true_eq_false, or_self] at hece
  unfold processAck
  rw [hreact]
  simp only [some_bind]
  by_cases hacc : t.isAcceptableAck seg.ack = true
  · obtain ⟨-, hle, hdup⟩ := h hacc
    rw [if_neg (by rw [hacc]; exact nofun), if_neg (Nat.not_lt.mpr hle)]
    unfold isDuplicateAck at hdup
    rw [if_neg (by rw [hdup]; exact nofun)]
    split <;> exact ⟨_, rfl⟩
  · rw [if_pos (by rw [Bool.not_eq_true] at hacc; rw [hacc]; rfl)]
    exact ⟨_, rfl⟩

theorem processChecked_ignored (M : CubicMath) (now : Instant)
    (hout : t.isSegmentAcceptable seg.seq seg.payload.length = false)
    (h : t.AckIgnored seg) :
    ∃ plan, t.processChecked M seg now = some (t, plan, 0) ∧ t.carryOut plan now = t := by
  obtain ⟨sendAck, hack⟩ := processAck_ignored M now h
  unfold processChecked
  rw [hack]
  simp only [some_bind]
  split
  · rw [receiveSegment, hout]
    exact ⟨_, rfl, rfl⟩
  · exact ⟨_, rfl, rfl⟩

theorem count_eceReaction {b : Bool} (h : t.eceReaction M seg now = some (t', b)) :
    t'.cc.duplicateAckCount = t.cc.duplicateAckCount := by
  unfold eceReaction at h
  split at h
  · simp only [Option.map_eq_some_iff, Prod.mk.injEq] at h
    obtain ⟨cc, hcc, rfl, -⟩ := h
    exact count_onCongestionEvent hcc
  · cases h
    rfl

/-- A reaction to ECE is still to be signalled to the peer. -/
theorem cwrPending_eceReaction {b : Bool} (hacc : t.isAcceptableAck seg.ack = true)
    (hreacts : t.reactsToEce seg = true) (h : t.eceReaction M seg now = some (t', b)) :
    b = true ∧ t.ecn.cwrPending = false ∧ t'.ecn.cwrPending = true := by
  simp only [reactsToEce, Bool.and_eq_true, Bool.not_eq_true'] at hreacts
  obtain ⟨⟨⟨henabled, hflag⟩, hpending⟩, hrecovery⟩ := hreacts
  have hcond : (t.isAcceptableAck seg.ack && t.ecn.enabled && seg.flags.ece &&
      !t.ecn.cwrPending && !t.cc.inFastRecovery) = true := by
    simp [hacc, henabled, hflag, hpending, hrecovery]
  unfold eceReaction at h
  rw [if_pos hcond] at h
  obtain ⟨cc, -, h⟩ := Option.map_eq_some_iff.mp h
  cases h
  exact ⟨rfl, hpending, rfl⟩

/-- Any other acknowledgement leaves a trace: SND.UNA moves, a duplicate is counted, or the
congestion window is cut, which is to be signalled to the peer. -/
theorem trace_processAck (hignored : ¬ t.AckIgnored seg) {plan plan1 : Plan}
    (hplan : plan = plan1 ∨ plan = { plan1 with sendAck := true })
    (h : t.processAck M seg now = some (t', plan1)) :
    (t'.carryOut plan now).trace ≠ t.trace := by
  have hcarry : t'.carryOut plan now = t'.carryOut plan1 now := by
    rcases hplan with rfl | rfl
    · rfl
    · rfl
  rw [hcarry]
  intro htrace
  obtain ⟨hsnd, hcount, hcwr⟩ := Trace.mk.inj htrace
  have huna : t'.snd.una = t.snd.una :=
    (Sending.una (t'.carryOut_sending plan1 now)).symm.trans (congrArg SndView.una hsnd)
  rw [count_carryOut] at hcount
  unfold AckIgnored at hignored
  rw [Classical.not_imp] at hignored
  obtain ⟨hacc, hignored⟩ := hignored
  simp only [processAck, bind_eq_some, Prod.exists] at h
  obtain ⟨t1, reacted, hece, h⟩ := h
  rw [if_neg (by rw [hacc]; decide)] at h
  have huna1 : t1.snd.una = t.snd.una :=
    congrArg SndView.una (sndView_of_view (view_eceReaction hece))
  have hcount1 := count_eceReaction hece
  split at h
  next hlt =>
    have hack := una_ackAdvances h
    rw [← hack, huna, huna1] at hlt
    exact Nat.lt_irrefl _ hlt
  rename_i hle
  split at h
  · have hcounted := count_ackDuplicates h
    omega
  rename_i hdup
  have hplan1 : t' = t1 ∧ plan1.runSendQueue = reacted ∧ plan1.fastRetransmit = false ∧
      plan1.partialRetransmitAck = none := by
    split at h <;> cases h <;> exact ⟨rfl, rfl, rfl, rfl⟩
  obtain ⟨rfl, hrun, hfast, hresend⟩ := hplan1
  have hreacts : t.reactsToEce seg = true := by
    by_contra hno
    rw [Bool.not_eq_true] at hno
    apply hignored
    refine ⟨hno, ?_, ?_⟩
    · rw [← huna1]
      exact Nat.not_lt.mp hle
    have hqueue : t'.snd.retransmissionQueue.isEmpty = t.snd.retransmissionQueue.isEmpty := by
      have hcore := congrArg SndView.queue (sndView_of_view (view_eceReaction hece))
      rw [← List.isEmpty_map, ← List.isEmpty_map (l := t.snd.retransmissionQueue)]
      exact congrArg List.isEmpty hcore
    rw [huna1, hqueue] at hdup
    exact Bool.not_eq_true _ ▸ hdup
  obtain ⟨rfl, hpending, hset⟩ := cwrPending_eceReaction hacc hreacts hece
  -- only a segment with data would clear the flag again
  have hsend : t'.carryOut plan1 now = t'.processSendQueue now := by
    unfold carryOut
    rw [hfast, hresend, hrun]
    rfl
  rw [hsend, ← sndView_of_view (view_eceReaction hece)] at hsnd
  rw [hsend, cwrPending_processSendQueue hsnd, hpending, hset] at hcwr
  cases hcwr

/-! ## Checks -/

theorem noteEcn_eq_iff : t.noteEcn seg = t ↔ t.EchoKept seg := by
  unfold noteEcn EchoKept
  cases henabled : t.ecn.enabled with
  | false => simp
  | true =>
    have hecho : ({ t with ecn := { t.ecn with
        echoPending := (t.ecn.echoPending || seg.ce) && !seg.flags.cwr } } : TcpControlBlock) = t ↔
        ((t.ecn.echoPending || seg.ce) && !seg.flags.cwr) = t.ecn.echoPending := by
      refine ⟨fun h => (congrArg (·.ecn.echoPending) h :), fun h => ?_⟩
      rw [h]
    simp only [Bool.not_true, Bool.false_eq_true, if_false, forall_true_left, hecho]
    cases t.ecn.echoPending <;> cases seg.ce <;> cases seg.flags.cwr <;> decide

theorem updateRttEstimators_eq_iff {r : Nat} :
    t.updateRttEstimators r = some t ↔ t.FixedSample r := by
  unfold updateRttEstimators FixedSample
  simp only [Option.map_eq_some_iff, Prod.exists]
  constructor
  · rintro ⟨srtt, rttvar, hest, h⟩
    have hs : t.rtt.srtt = some srtt := (congrArg (·.rtt.srtt) h).symm
    have hv : t.rtt.rttvar = some rttvar := (congrArg (·.rtt.rttvar) h).symm
    have hrto := congrArg (·.rtt.rto) h
    have hleast := congrArg (·.sack.rackMinRtt) h
    unfold RttState.estimate at hest
    simp only [hs, hv] at hest
    split at hest
    next hfits =>
      obtain ⟨h1, h2⟩ := Prod.mk.inj (Option.some.inj hest)
      exact ⟨srtt, rttvar, hs, hv, hfits, h1, h2, hrto.symm,
        hleast.symm.trans_le (Nat.min_le_right _ _)⟩
    · cases hest
  · rintro ⟨srtt, rttvar, hs, hv, hfits, h1, h2, hrto, hleast⟩
    refine ⟨srtt, rttvar, ?_, ?_⟩
    · unfold RttState.estimate
      simp only [hs, hv, if_pos hfits, h1, h2]
    · rw [← hrto, ← hs, ← hv, Nat.min_eq_left hleast]

theorem sampleTimestamp_eq_iff {tsecr : BitVec 32} :
    t.sampleTimestamp now tsecr 0 = some t ↔ t.SampleKept now tsecr := by
  unfold sampleTimestamp SampleKept
  dsimp only
  split
  next h => rw [updateRttEstimators_eq_iff, forall_prop_of_true h.1, forall_prop_of_true h.2.2]
  next h => exact ⟨fun _ hne hlt => absurd ⟨hne, Nat.zero_le _, hlt⟩ h, fun _ => rfl⟩

theorem timestampIgnored_iff : t.TimestampIgnored seg now ↔
    match findTimestamp seg.options with
    | none => t.ts.enabled = true ∨ t.AckIgnored seg
    | some (tsval, tsecr) =>
      match t.onRxTimestamp now seg.seq tsval seg.flags.syn false with
      | none => True
      | some t1 => t1 = t ∧ t.sampleTimestamp now tsecr 0 = some t ∧ t.AckIgnored seg := by
  unfold TimestampIgnored RecentKept
  split
  · rfl
  rename_i tsval tsecr _
  rw [onRxTimestamp_eq, sampleTimestamp_eq_iff]
  by_cases hold : t.pawsRejects seg now tsval = true
  · simp only [hold, if_true, true_or]
  simp only [hold, if_false, false_or, Bool.false_eq_true]
  split
  next t1 hnone => split at hnone <;> cases hnone
  next t1 hstamp =>
    refine and_congr_left' ?_
    split at hstamp
    next hset =>
      rw [Bool.and_eq_true, Bool.or_eq_true, decide_eq_true_iff] at hset
      rw [forall_prop_of_true hset.1, forall_prop_of_true hset.2, ← Option.some.inj hstamp]
      constructor
      · rintro ⟨hval, hseq, hnow⟩
        rw [hval, hseq, hnow]
      · intro h
        exact ⟨(congrArg (·.ts.tsRecent) h :), (congrArg (·.ts.lastAckTsSeq) h :),
          (congrArg (·.ts.recentAge) h :)⟩
    next hset =>
      cases hstamp
      refine ⟨fun _ => rfl, fun _ hts hlater => absurd ?_ hset⟩
      rw [hts, Bool.true_and, Bool.or_eq_true, decide_eq_true_iff]
      exact hlater

theorem checkSegment_eq (hrst : seg.flags.rst = false) (hack : seg.flags.ack = true) :
    t.checkSegment seg now =
      match findTimestamp seg.options with
      | none => some (t.noteEcn seg, !(t.noteEcn seg).ts.enabled)
      | some (tsval, tsecr) =>
        match (t.noteEcn seg).onRxTimestamp now seg.seq tsval seg.flags.syn false with
        | none => some (t.noteEcn seg, false)
        | some t => (t.sampleTimestamp now tsecr 0).map (·, true) := by
  unfold checkSegment
  rw [hrst, hack]
  rfl

/-- ECN, timestamps and RTT are kept in different fields: where the three steps lead back to the
block, each of them leaves it alone. -/
theorem kept_of_sampled {t1 : TcpControlBlock} {tsval tsecr : BitVec 32}
    (hts : (t.noteEcn seg).onRxTimestamp now seg.seq tsval seg.flags.syn false = some t1)
    (hs : t1.sampleTimestamp now tsecr 0 = some t) : t.noteEcn seg = t ∧ t1 = t := by
  obtain ⟨echo, hecho⟩ := t.noteEcn_only seg
  obtain ⟨recent, last, age, h1⟩ := onRxTimestamp_only hts
  obtain ⟨rtt, least, h2⟩ := sampleTimestamp_only hs
  have hts2 := congrArg ts h2
  have honly : t1 = { t.noteEcn seg with ts := t.ts } := by
    rw [hts2, h1]
  have hecn : t.noteEcn seg = t := by
    have hkept : (t.noteEcn seg).ecn = t.ecn :=
      (congrArg ecn honly).symm.trans (congrArg ecn h2).symm
    rw [hecho] at hkept ⊢
    dsimp only at hkept
    rw [hkept]
  rw [hecn] at honly
  exact ⟨hecn, honly⟩

/-- The checks leave the block alone, whether the segment passes them or not. -/
theorem checkSegment_iff (hrst : seg.flags.rst = false) (hack : seg.flags.ack = true) :
    (∃ go, t.checkSegment seg now = some (t, go) ∧ (go = true → t.AckIgnored seg)) ↔
      t.EchoKept seg ∧ t.TimestampIgnored seg now := by
  rw [checkSegment_eq hrst hack, ← noteEcn_eq_iff, timestampIgnored_iff]
  constructor
  · rintro ⟨go, h, hgo⟩
    cases hfind : findTimestamp seg.options with
    | none =>
      rw [hfind] at h
      obtain ⟨hecn, rfl⟩ := Prod.mk.inj (Option.some.inj h)
      rw [hecn] at hgo
      refine ⟨hecn, ?_⟩
      by_cases henabled : t.ts.enabled = true
      · exact .inl henabled
      right
      apply hgo
      rw [Bool.not_eq_true] at henabled
      rw [henabled]
      rfl
    | some ts =>
      obtain ⟨tsval, tsecr⟩ := ts
      rw [hfind] at h
      dsimp only at h ⊢
      cases hts : (t.noteEcn seg).onRxTimestamp now seg.seq tsval seg.flags.syn false with
      | none =>
        rw [hts] at h
        obtain ⟨hecn, -⟩ := Prod.mk.inj (Option.some.inj h)
        rw [hecn] at hts
        rw [hts]
        exact ⟨hecn, trivial⟩
      | some t1 =>
        rw [hts] at h
        simp only [Option.map_eq_some_iff, Prod.mk.injEq] at h
        obtain ⟨t2, hs, rfl, rfl⟩ := h
        obtain ⟨hecn, rfl⟩ := kept_of_sampled hts hs
        rw [hecn] at hts
        rw [hts]
        exact ⟨hecn, rfl, hs, hgo rfl⟩
  · rintro ⟨hecn, h⟩
    rw [hecn]
    cases hfind : findTimestamp seg.options with
    | none =>
      rw [hfind] at h
      refine ⟨_, rfl, fun hgo => ?_⟩
      rcases h with henabled | hignored
      · rw [henabled] at hgo
        cases hgo
      · exact hignored
    | some ts =>
      obtain ⟨tsval, tsecr⟩ := ts
      rw [hfind] at h
      dsimp only at h ⊢
      cases hts : t.onRxTimestamp now seg.seq tsval seg.flags.syn false with
      | none => exact ⟨false, rfl, fun hgo => by cases hgo⟩
      | some t1 =>
        rw [hts] at h
        obtain ⟨rfl, hs, hignored⟩ := h
        dsimp only
        rw [hs]
        exact ⟨true, rfl, fun _ => hignored⟩

/-- **Outside the window**, `process_data_datagram` changes nothing just for the segments it has no
reason to look at. -/
theorem processDataDatagram_iff (hstate : t.state ≠ .closed)
    (hout : t.isSegmentAcceptable seg.seq seg.payload.length = false) :
    (∃ n, t.processDataDatagram M seg now = some (t, n)) ↔ t.IgnoresDatagram seg now := by
  unfold processDataDatagram IgnoresDatagram
  by_cases hold : t.isOldDuplicate seg = true
  · rw [if_pos hold, if_pos hold]
    by_cases hce : (seg.ce && t.ecn.enabled) = true
    · rw [if_pos hce]
      constructor
      · rintro ⟨n, h⟩ -
        obtain ⟨h, -⟩ := Prod.mk.inj (Option.some.inj h)
        rw [← h]
      intro h
      refine ⟨0, ?_⟩
      have hset : ({ t with ecn := { t.ecn with echoPending := true } } : TcpControlBlock) = t := by
        rw [← h hce]
      rw [hset]
    · rw [if_neg hce]
      exact ⟨fun _ h => absurd h hce, fun _ => ⟨0, rfl⟩⟩
  rw [if_neg hold, if_neg hold]
  by_cases hrst : seg.flags.rst = true
  · rw [checkSegment, if_pos hrst]
    refine ⟨fun ⟨n, h⟩ => ?_, fun ⟨h, _⟩ => ?_⟩
    · obtain ⟨h, -⟩ := Prod.mk.inj (Option.some.inj h)
      exact absurd (congrArg state h).symm hstate
    rw [hrst] at h
    cases h
  rw [Bool.not_eq_true] at hrst
  by_cases hack : seg.flags.ack = true
  · rw [and_iff_right hrst, forall_prop_of_true hack, ← checkSegment_iff hrst hack]
    constructor
    · rintro ⟨n, h⟩
      simp only [Option.bind_eq_bind, Option.bind_eq_some_iff, Prod.exists] at h
      obtain ⟨t1, go, hcheck, h⟩ := h
      cases go with
      | false =>
        cases h
        exact ⟨false, hcheck, fun hgo => by cases hgo⟩
      | true =>
        simp only [Bool.not_true, Bool.false_eq_true, if_false, Option.bind_eq_some_iff,
          Prod.exists, Option.some.injEq, Prod.mk.injEq] at h
        obtain ⟨t2, plan, n2, hchecked, h2, rfl⟩ := h
        have hout1 : t1.isSegmentAcceptable seg.seq seg.payload.length = false :=
          (isSegmentAcceptable_congr (rxView_of_view (view_checkSegment hcheck)) _ _).trans hout
        obtain ⟨plan1, hprocess, hplan⟩ := processChecked_outside hout1 hchecked
        have hignored : t1.AckIgnored seg := by
          by_contra hno
          apply trace_processAck hno hplan hprocess
          rw [h2]
          obtain ⟨echo, recent, last, age, rtt, least, rfl⟩ := checkSegment_only hcheck
          rfl
        obtain ⟨sendAck, hquiet⟩ := processAck_ignored M now hignored
        rw [hquiet] at hprocess
        obtain ⟨rfl, rfl⟩ := Prod.mk.inj (Option.some.inj hprocess)
        have hsame : t1 = t := by
          rw [← h2]
          rcases hplan with rfl | rfl
          · rfl
          · rfl
        subst hsame
        exact ⟨true, hcheck, fun _ => hignored⟩
    · rintro ⟨go, hcheck, hignored⟩
      rw [hcheck]
      cases go with
      | false => exact ⟨0, rfl⟩
      | true =>
        obtain ⟨plan, hchecked, hcarry⟩ := processChecked_ignored M now hout (hignored rfl)
        refine ⟨0, ?_⟩
        simp [some_bind, hchecked, hcarry]
  · rw [checkSegment, hrst, if_neg nofun, if_pos (by simpa using hack)]
    exact ⟨fun _ => ⟨rfl, fun h => absurd h hack⟩, fun _ => ⟨0, rfl⟩⟩

/-- A segment far away, with an acknowledgement that is not acceptable. -/
def strayData : Segment := { Segment.ackOfSyn with seq := 5000, ack := 7, payload := [1] }

end TcpControlBlock
end Moose.Tcp
