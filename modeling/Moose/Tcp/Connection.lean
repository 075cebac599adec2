import Moose.Tcp.Frame

/-!
# One connection

The entry points of the driver on one control block, as a machine: a segment that `process_data`
dispatches on the state, the calls of the application, and the retransmission timer. A run starts
with the block an open leaves behind. A call that panics or does not return has no next state, so a
run that gets there ends: no run of an active open goes past its SYN-ACK.
-/

set_option autoImplicit false

namespace Moose.Tcp

open Lib

/-- Neither side has closed yet. -/
def TcpState.isOpen : TcpState → Bool
  | .synSent | .synReceived | .established => true
  | _ => false

/-- We have not closed yet. -/
def TcpState.canClose : TcpState → Bool
  | .synSent | .synReceived | .established | .closeWait => true
  | _ => false

/-- What a connection loses when either side closes. -/
structure TcpState.Early (p : TcpState → Bool) : Prop where
  closed : p .closed = false
  finWait2 : p .finWait2 = false
  closing : p .closing = false
  timeWait : p .timeWait = false
  closeWait : p .closeWait = true → p .established = true

theorem TcpState.early_isOpen : Early isOpen := ⟨rfl, rfl, rfl, rfl, fun _ => rfl⟩

theorem TcpState.early_canClose : Early canClose := ⟨rfl, rfl, rfl, rfl, fun _ => rfl⟩

namespace TcpControlBlock

def abortConnection (t : TcpControlBlock) (error : TcpError) : TcpControlBlock :=
  if t.state = .closed then t
  else
    { t with
      state := .closed
      lastError := some error
      snd := { t.snd with retransmissionQueue := [] }
      rtt := { t.rtt with probe := none }
      timers := { t.timers with persistTimer := none }
      eifel := .new
      frto := t.frto.clear }

/-- `process_data` for a segment of a known connection. -/
def processData (M : CubicMath) (t : TcpControlBlock) (seg : Segment) (now : Instant) :
    Option TcpControlBlock :=
  match t.state with
  | .synSent =>
    if seg.flags.rst then some (t.abortConnection .connectionReset)
    else if seg.flags.syn && seg.flags.ack then t.processSynAck seg now
    else some t
  | .synReceived => t.processSynReceivedAck M seg now
  | .established =>
    if seg.flags.syn && seg.flags.ack then t.processSynAck seg now
    else (t.processDataDatagram M seg now).map (·.1)
  | .finWait1 | .finWait2 | .closeWait | .closing | .lastAck =>
    (t.processDataDatagram M seg now).map (·.1)
  | .timeWait =>
    some (if seg.flags.fin then
      { t with timers := { t.timers with
        timewaitDeadline := some (satAdd64 now (Duration.fromSecs 120)) } }
      else t)
  | .closed | .listen => some t

end TcpControlBlock

inductive Event where
  | segment (seg : Segment) (now : Instant)
  | sendData (data : List UInt8) (now : Instant)
  | sendQueue (now : Instant)
  | timeout (now : Instant)
  | close (now : Instant)
  | read (len : Nat)

namespace TcpControlBlock

/-- One event; the output is what a read returned. -/
def step (M : CubicMath) (t : TcpControlBlock) : Event → Option (TcpControlBlock × List UInt8)
  | .segment seg now => (t.processData M seg now).map (·, [])
  | .sendData data now =>
    match t.sendData data now with
    | .ok t => some (t, [])
    | .error _ => some (t, [])
  | .sendQueue now => some (t.processSendQueue now, [])
  | .timeout now => some (t.retransmissionTimeout now, [])
  | .close now => some (t.closeConnection now, [])
  | .read len => (t.receiveSync len).map fun (t, result) => (t, result.bytes)

/-- The block is the work of an active or of a passive open. -/
inductive Opens (settings : TcpSessionSettings) (t : TcpControlBlock) : Prop where
  | active (iss : SeqNum) (tsOffset : BitVec 32) (now : Instant)
      (h : connect settings iss tsOffset now = some t)
  | passive (iss : SeqNum) (tsOffset : BitVec 32) (syn : Segment) (now : Instant)
      (h : processPassiveSyn settings iss tsOffset syn now = some t)

variable {M : CubicMath} {t t' : TcpControlBlock} {seg : Segment} {now : Instant}

/-! ## The receive side under the other events -/

theorem view_onRto (s : UnackedSegment) : (t.onRto s now).view = t.view := by
  have hretime : ∀ nestedAbort, (t.retimeHead nestedAbort now).view = t.view := by
    intro nestedAbort
    simp only [retimeHead, view, rxView, sndView, negView]
    rw [map_core_modify]
    exact fun _ => rfl
  unfold onRto
  rw [(tunes_cancelProbe _).view]
  rw [← hretime (!t.ts.enabled && t.frto.phase != .idle)]
  unfold armDetectors eifelOnRtoBeforeMd frtoOnRto
  repeat' split
  all_goals rfl

/-- What the timer does: nothing, giving up, or the timeout response with its retransmission. -/
theorem retransmissionTimeout_cases (t : TcpControlBlock) (now : Instant) :
    t.retransmissionTimeout now = t ∨
      t.retransmissionTimeout now = { t with state := .closed, lastError := some .timeout } ∨
      ∃ s, t.snd.retransmissionQueue.head? = some s ∧
        t.retransmissionTimeout now = (t.onRto s now).retransmitMatching .rto none now := by
  unfold retransmissionTimeout tickRetransmissionTimer
  by_cases hclosed : t.state = .closed
  · rw [if_pos hclosed]
    exact .inl rfl
  rw [if_neg hclosed]
  cases hhead : t.snd.retransmissionQueue.head? with
  | none => exact .inl rfl
  | some s =>
    dsimp only
    by_cases hearly : now - s.sendTime < t.rtt.rto
    · rw [if_pos hearly]
      exact .inl rfl
    rw [if_neg hearly]
    by_cases hretries : 5 ≤ s.retries
    · rw [if_pos hretries]
      exact .inr (.inl rfl)
    rw [if_neg hretries]
    exact .inr (.inr ⟨s, rfl, rfl⟩)

theorem rxView_retransmissionTimeout (t : TcpControlBlock) (now : Instant) :
    (t.retransmissionTimeout now).rxView = t.rxView ∨
      (t.retransmissionTimeout now).state = .closed := by
  rcases t.retransmissionTimeout_cases now with h | h | ⟨s, -, h⟩
  · rw [h]
    exact .inl rfl
  · rw [h]
    exact .inr rfl
  · rw [h, rxView_of_view (tunes_retransmitMatching _ _).view, rxView_of_view (view_onRto _)]
    exact .inl rfl

/-! ## The receive side in the handshake -/

theorem rxView_applyPeerTcpOptions (t : TcpControlBlock) (options : List TcpOption)
    (seq : SeqNum) (now : Instant) :
    ∃ sack, (t.applyPeerTcpOptions options seq now).rxView =
      { t.rxView with sackEnabled := sack } := by
  induction options generalizing t with
  | nil => exact ⟨t.sack.enabled, rfl⟩
  | cons o options ih =>
    obtain ⟨s1, h1⟩ : ∃ sack,
        (applyPeerTcpOption seq now t o).rxView = { t.rxView with sackEnabled := sack } := by
      cases o with
      | sackPermitted => exact ⟨true, rfl⟩
      | _ => exact ⟨t.sack.enabled, rfl⟩
    obtain ⟨s2, h2⟩ := ih (t := applyPeerTcpOption seq now t o)
    rw [h1] at h2
    exact ⟨s2, h2⟩

/-- A SYN-ACK the driver comes back from was ignored, or carried a RST. -/
theorem processSynAck_cases (h : t.processSynAck seg now = some t') :
    t' = t ∨ seg.flags.rst = true ∧ t' = t.refused := by
  unfold processSynAck answerSynAck at h
  split at h
  next hrst =>
    cases h
    exact .inr ⟨hrst, rfl⟩
  left
  split at h
  · cases h
    rfl
  split at h
  · cases h
    rfl
  simp only [bind_eq_some, Option.some.injEq, Prod.exists, Prod.mk.injEq] at h
  obtain ⟨t1, returns, ⟨t2, -, t3, -, -, rfl⟩, h⟩ := h
  cases h

/-! ## The state only moves forward -/

section Early

variable {p : TcpState → Bool} (hp : TcpState.Early p)
include hp

theorem early_finAcked {prior : TcpState} (h : p (t.finAcked prior now).state = true) :
    p t.state = true := by
  unfold finAcked at h
  split at h
  · rw [hp.finWait2] at h
    cases h
  · rw [hp.timeWait] at h
    cases h
  · rw [hp.closed] at h
    cases h
  · exact h

theorem early_handleFinFlag (h : p (t.handleFinFlag now).state = true) : p t.state = true := by
  unfold handleFinFlag at h
  dsimp only at h
  split at h
  next hstate =>
    rw [hstate]
    exact hp.closeWait h
  · rw [hp.closing] at h
    cases h
  · rw [hp.timeWait] at h
    cases h
  · exact h

theorem early_processAck {plan : Plan} (h : t.processAck M seg now = some (t', plan))
    (hearly : p t'.state = true) : p t.state = true := by
  rcases rxView_processAck h with hv | ⟨t1, hv, rfl⟩
  · rwa [← show t'.state = t.state from congrArg RxView.state hv]
  have h1 := early_finAcked hp hearly
  rwa [← show t1.state = t.state from congrArg RxView.state hv]

theorem early_receiveSegment {plan plan' : Plan} {n : Nat}
    (h : t.receiveSegment seg now plan = some (t', plan', n))
    (hearly : p t'.state = true) : p t.state = true := by
  rcases receiveSegment_cases h with ⟨rfl, -⟩ | ⟨t1, a, h1, rfl⟩
  · exact hearly
  obtain ⟨rx, wnd, -, hv, -⟩ := receivePayload_received h1
  have hstate : t1.state = t.state :=
    (congrArg RxView.state hv).trans (congrArg RxView.state (rxView_maybeUpdateSendWindow _ _ _))
  rw [← hstate]
  rw [tunes_decideAck.pushes.state] at hearly
  split at hearly
  · exact early_handleFinFlag hp hearly
  · exact hearly

/-- A segment does not give a connection back what it lost when a side closed. -/
theorem early_processDataDatagram {n : Nat}
    (h : t.processDataDatagram M seg now = some (t', n)) (hearly : p t'.state = true) :
    p t.state = true := by
  rcases processDataDatagram_cases h with ⟨-, -, echo, rfl⟩ | ⟨-, ⟨-, hcheck⟩ |
    ⟨t1, t2, plan, hcheck, hchecked, rfl⟩⟩
  · exact hearly
  · rcases view_checkSegment_dropped hcheck with hv | hv
    · rwa [← show t'.state = t.state from congrArg (·.rx.state) hv]
    rw [show t'.state = .closed from congrArg (·.rx.state) hv, hp.closed] at hearly
    cases hearly
  obtain ⟨t3, plan3, hack, hchecked⟩ := processChecked_cases hchecked
  rw [(pushes_carryOut plan).state] at hearly
  rw [← show t1.state = t.state from congrArg (·.rx.state) (view_checkSegment hcheck)]
  apply early_processAck hp hack
  rcases hchecked with hchecked | ⟨rfl, -⟩
  · exact early_receiveSegment hp hchecked hearly
  · exact hearly

end Early

/-! ## What a segment can do -/

/-- The block once the final ACK of a passive open is taken. -/
def establish (t : TcpControlBlock) (ack : SeqNum) : TcpControlBlock :=
  { { t with snd := { t.snd with una := ack } }.drainRetransmissionQueue ack with
    state := .established }

theorem processSynReceivedAck_cases (h : t.processSynReceivedAck M seg now = some t') :
    t' = t ∨ t' = { t with state := .closed, lastError := some .connectionReset } ∨
      seg.flags.ack = true ∧ t.isAcceptableAck seg.ack = true ∧
        (t' = t.establish seg.ack ∨
          ∃ n, (t.establish seg.ack).processDataDatagram M seg now = some (t', n)) := by
  unfold processSynReceivedAck at h
  split at h
  · cases h
    exact .inr (.inl rfl)
  split at h
  · cases h
    exact .inl rfl
  rename_i hnot
  simp only [not_or, Bool.not_eq_true, Bool.not_eq_false'] at hnot
  refine .inr (.inr ⟨hnot.2.1, hnot.2.2, ?_⟩)
  split at h
  · cases h
    exact .inl rfl
  simp only [Option.map_eq_some_iff, Prod.exists, exists_and_right, exists_eq_right] at h
  exact .inr h

/-- Where a segment is dispatched to. -/
theorem processData_cases (h : t.processData M seg now = some t') :
    t' = t ∨
      (t.state = .synSent ∧ t' = t.abortConnection .connectionReset) ∨
      (t.state = .established ∧ seg.flags.rst = true ∧ t' = t.refused) ∨
      (t.state = .synReceived ∧ t.processSynReceivedAck M seg now = some t') ∨
      (t.state = .timeWait ∧ ∃ timers, t' = { t with timers := timers }) ∨
      t.state ≠ .synSent ∧ t.state ≠ .synReceived ∧
        ∃ n, t.processDataDatagram M seg now = some (t', n) := by
  have hdatagram : (t.processDataDatagram M seg now).map (·.1) = some t' →
      ∃ n, t.processDataDatagram M seg now = some (t', n) := by
    simp only [Option.map_eq_some_iff, Prod.exists, exists_and_right, exists_eq_right]
    exact id
  unfold processData at h
  cases hstate : t.state with
  | synSent =>
    simp only [hstate] at h
    split at h
    · cases h
      exact .inr (.inl ⟨rfl, rfl⟩)
    rename_i hrst
    split at h
    · exact .inl ((processSynAck_cases h).resolve_right fun hr => hrst hr.1)
    · cases h
      exact .inl rfl
  | synReceived =>
    simp only [hstate] at h
    exact .inr (.inr (.inr (.inl ⟨rfl, h⟩)))
  | established =>
    simp only [hstate] at h
    split at h
    · rcases processSynAck_cases h with heq | hr
      · exact .inl heq
      · exact .inr (.inr (.inl ⟨rfl, hr⟩))
    · exact .inr (.inr (.inr (.inr (.inr ⟨nofun, nofun, hdatagram h⟩))))
  | timeWait =>
    simp only [hstate] at h
    cases h
    refine .inr (.inr (.inr (.inr (.inl ⟨rfl, ?_⟩))))
    rw [← hstate]
    split
    · exact ⟨_, rfl⟩
    · exact ⟨t.timers, rfl⟩
  | closed | listen =>
    simp only [hstate] at h
    cases h
    exact .inl rfl
  | finWait1 | finWait2 | closeWait | closing | lastAck =>
    simp only [hstate] at h
    exact .inr (.inr (.inr (.inr (.inr ⟨nofun, nofun, hdatagram h⟩))))

end TcpControlBlock
end Moose.Tcp
