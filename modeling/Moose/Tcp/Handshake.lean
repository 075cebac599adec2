import Moose.Tcp.Transmit

/-!
# The handshake

While a connection opens, SND.UNA is ISS and SND.NXT is ISS + 1: the SYN is all there is. A segment
completes the handshake if its acknowledgement is acceptable then, which leaves two numbers. One of
them is ISS, which acknowledges nothing; the code takes it as well.

An active open is established by a call that does not come back: `process_syn_ack` waits for the
lock it holds. The block has its new state at that point, so the statement is about what an activity
reaches (`Reaches`), not only about what it returns.
-/

set_option autoImplicit false

namespace Moose.Tcp

open Option Lib TcpControlBlock

namespace TcpState

def opening : TcpState → Bool
  | .synSent | .synReceived => true
  | _ => false

/-- Where the timers and `close` lead. -/
def leaving : TcpState → Bool
  | .closed | .finWait1 | .lastAck => true
  | _ => false

theorem early_opening : Early opening := ⟨rfl, rfl, rfl, rfl, fun h => by cases h⟩

theorem early_established : Early (· == .established) :=
  ⟨rfl, rfl, rfl, rfl, fun _ => rfl⟩

/-- A step from the first state to the second completes the handshake. A FIN on the same segment
takes the connection on to CLOSE-WAIT at once. -/
def Completes (s s' : TcpState) : Prop :=
  s ≠ .established ∧ s' = .established ∨ s.opening = true ∧ s' = .closeWait

end TcpState

namespace TcpControlBlock

variable {M : CubicMath} {t t' : TcpControlBlock} {seg : Segment} {now : Instant}

/-! ## Segments while the connection opens -/

/-- A SYN-ACK the driver does not come back from answers our SYN. -/
theorem answerSynAck_accepted (h : t.answerSynAck seg now = some (t', false)) :
    t.state = .synSent ∧ t.isAcceptableAck seg.ack = true ∧ t'.state = .established := by
  unfold answerSynAck at h
  split at h
  · cases h
  split at h
  · cases h
  next hstate =>
    split at h
    · cases h
    next hacc =>
      rw [Bool.not_eq_true, Bool.not_eq_false'] at hacc
      simp only [bind_eq_some, some.injEq, Prod.mk.injEq] at h
      obtain ⟨t1, -, t2, -, rfl, -⟩ := h
      exact ⟨not_not.mp hstate, hacc, rfl⟩

theorem opening_processDataDatagram {n : Nat} (h : t.processDataDatagram M seg now = some (t', n))
    (hsync : t.state.opening = false) : t'.state.opening = false := by
  by_contra hopening
  rw [Bool.not_eq_false] at hopening
  rw [early_processDataDatagram TcpState.early_opening h hopening] at hsync
  cases hsync

/-- **What a segment does to the state**: it is ignored, ends the connection, completes the
handshake with an acceptable acknowledgement, or belongs to a synchronized connection. -/
theorem processData_state (h : t.processData M seg now = some t') :
    t' = t ∨ t'.state = .closed ∨
      t.state.opening = true ∧ seg.flags.ack = true ∧ t.isAcceptableAck seg.ack = true ∧
        t'.state.opening = false ∨
      t.state.opening = false ∧ t'.state.opening = false ∧
        (t'.state = .established → t.state = .established) := by
  rcases processData_cases h with rfl | ⟨hs, rfl⟩ | ⟨-, -, rfl⟩ | ⟨hs, h⟩ | ⟨hs, timers, rfl⟩ |
    ⟨hsent, hreceived, n, hdata⟩
  · exact .inl rfl
  · rw [abortConnection, if_neg (by rw [hs]; simp)]
    exact .inr (.inl rfl)
  · exact .inr (.inl rfl)
  · rcases processSynReceivedAck_cases h with rfl | rfl | ⟨hack, hacc, hdone⟩
    · exact .inl rfl
    · exact .inr (.inl rfl)
    refine .inr (.inr (.inl ⟨by rw [hs]; rfl, hack, hacc, ?_⟩))
    rcases hdone with rfl | ⟨n, hdata⟩
    · rfl
    · exact opening_processDataDatagram hdata rfl
  · rw [hs]
    exact .inr (.inr (.inr ⟨rfl, rfl, id⟩))
  · have hsync : t.state.opening = false := by
      cases hstate : t.state with
      | synSent => exact absurd hstate hsent
      | synReceived => exact absurd hstate hreceived
      | _ => rfl
    refine .inr (.inr (.inr ⟨hsync, opening_processDataDatagram hdata hsync, fun hest => ?_⟩))
    exact eq_of_beq
      (early_processDataDatagram TcpState.early_established hdata (beq_iff_eq.mpr hest))

/-! ## The sequence variables while the connection opens -/

def SynOnly (t : TcpControlBlock) : Prop :=
  t.state.opening = true →
    t.snd.una = t.snd.iss ∧ t.snd.nxt = t.snd.iss + 1 ∧ t.snd.sendBuffer = []

theorem synOnly_of_not_opening (h : t.state.opening = false) : t.SynOnly := by
  intro hopening
  rw [h] at hopening
  cases hopening

theorem SynOnly.of_view (h : t.SynOnly) (hview : t'.sndView = t.sndView)
    (hstate : t'.state = t.state) : t'.SynOnly := by
  intro hopening
  rw [hstate] at hopening
  obtain ⟨huna, hnxt, hbuf⟩ := h hopening
  obtain ⟨hi, hu, hn, -, -, -, hb⟩ := SndView.mk.inj hview
  rw [hi, hu, hn, hb]
  exact ⟨huna, hnxt, hbuf⟩

/-- With nothing in the buffer nothing is sent. -/
theorem SynOnly.of_sending (h : t.SynOnly) {out : List SentCore}
    (hsend : t.sndView.Sending out t'.sndView) (hstate : t'.state = t.state) : t'.SynOnly := by
  by_cases hopening : t.state.opening = true
  · obtain ⟨-, -, hbuf⟩ := h hopening
    exact h.of_view (Outbound.sending_nil hsend hbuf).2 hstate
  apply synOnly_of_not_opening
  rw [hstate]
  exact Bool.not_eq_true _ ▸ hopening

theorem SynOnly.of_quiet (h : t.SynOnly) (hview : t'.sndView = t.sndView)
    (hstate : t'.state = t.state ∨ t'.state = .closed) : t'.SynOnly := by
  rcases hstate with hstate | hstate
  · exact h.of_view hview hstate
  apply synOnly_of_not_opening
  rw [hstate]
  rfl

theorem SynOnly.segment (h : t.SynOnly) (hdata : t.processData M seg now = some t') :
    t'.SynOnly := by
  rcases processData_state hdata with rfl | hclosed | ⟨-, -, -, hdone⟩ | ⟨-, hdone, -⟩
  · exact h
  · apply synOnly_of_not_opening
    rw [hclosed]
    rfl
  · exact synOnly_of_not_opening hdone
  · exact synOnly_of_not_opening hdone

theorem closeConnection_cases (t : TcpControlBlock) (now : Instant) :
    t.closeConnection now = t ∨ (t.closeConnection now).state = .finWait1 ∨
      (t.closeConnection now).state = .lastAck := by
  unfold closeConnection
  split
  · exact .inr (.inl rfl)
  · exact .inr (.inl rfl)
  · exact .inr (.inr rfl)
  · exact .inl rfl

theorem SynOnly.call (h : t.SynOnly) {e : Event} {bytes : List UInt8}
    (hstep : t.step M e = some (t', bytes)) : t'.SynOnly := by
  cases e with
  | segment seg now =>
    simp only [step, map_eq_some_iff, Prod.mk.injEq] at hstep
    obtain ⟨t1, hdata, rfl, -⟩ := hstep
    exact h.segment hdata
  | sendData data now =>
    simp only [step, sendData] at hstep
    by_cases hstate : t.state ≠ .established ∧ t.state ≠ .closeWait
    · simp only [if_pos hstate] at hstep
      cases hstep
      exact h
    simp only [if_neg hstate] at hstep
    cases hstep
    apply synOnly_of_not_opening
    have hkept : ((t.accept data).processSendQueue now).state = t.state :=
      pushes_processSendQueue.state
    show ((t.accept data).processSendQueue now).state.opening = false
    rw [hkept]
    rcases not_and_or.mp hstate with hs | hs
    · rw [not_not.mp hs]
      rfl
    rw [not_not.mp hs]
    rfl
  | sendQueue now =>
    cases hstep
    exact h.of_sending (t.processSendQueue_sending now)
      (pushes_processSendQueue.state)
  | timeout now =>
    cases hstep
    obtain ⟨hview, hstate⟩ := t.retransmissionTimeout_quiet now
    exact h.of_quiet hview hstate
  | close now =>
    cases hstep
    rcases t.closeConnection_cases now with heq | hstate | hstate
    · rw [heq]
      exact h
    · apply synOnly_of_not_opening
      rw [hstate]
      rfl
    · apply synOnly_of_not_opening
      rw [hstate]
      rfl
  | read len =>
    simp only [step, map_eq_some_iff, Prod.exists, Prod.mk.injEq] at hstep
    obtain ⟨t1, result, hread, rfl, -⟩ := hstep
    have hview := (receives_receiveSync hread).sndView
    have hstate := state_receiveSync hread
    exact h.of_view hview hstate

/-- The two numbers that are acceptable while the connection opens. -/
theorem SynOnly.acceptable (h : t.SynOnly) (hopening : t.state.opening = true) {ack : SeqNum}
    (hacc : t.isAcceptableAck ack = true) : ack = t.snd.una ∨ ack = t.snd.iss + 1 := by
  obtain ⟨huna, hnxt, -⟩ := h hopening
  have hle := of_decide_eq_true hacc
  rw [hnxt, huna] at hle
  rw [huna]
  have hone : (t.snd.iss + 1 - t.snd.iss).toNat = 1 := by
    rw [BitVec.add_comm, BitVec.add_sub_cancel]
    rfl
  rw [hone] at hle
  by_cases hz : (ack - t.snd.iss).toNat = 0
  · left
    bv_omega
  right
  bv_omega

end TcpControlBlock

/-! ## Runs -/

namespace Endpoint

variable {M : CubicMath} {s s' : Endpoint} {a : Activity} {out : List SentCore}

theorem synOnly_step (h : s.tcb.SynOnly) (hstep : s.step M a = some (s', out)) :
    s'.tcb.SynOnly := by
  cases a with
  | call e =>
    simp only [step, bind_eq_some, Prod.exists, some.injEq, Prod.mk.injEq] at hstep
    obtain ⟨t', bytes, hcall, rfl, -⟩ := hstep
    exact h.call hcall
  | tick now =>
    simp only [step] at hstep
    split at hstep
    · cases hstep
      obtain ⟨hview, hstate⟩ := s.tcb.tick_quiet now
      exact h.of_quiet hview hstate
    · cases hstep
      exact h
  | act now =>
    simp only [step] at hstep
    split at hstep
    · cases hstep
      exact h
    next d due _ =>
      cases hstep
      have hsend := s.tcb.perform_sending now d
      have hstate := (s.tcb.pushes_perform now d).state
      exact h.of_sending hsend hstate

theorem synOnly_ofOpen {settings : TcpSessionSettings} {t : TcpControlBlock}
    (h : TcpControlBlock.Opens settings t) : (ofOpen t).tcb.SynOnly := by
  intro _
  obtain ⟨wnd, shift, flags, -, -, -, -, -, hview⟩ := opens_sndView h
  obtain ⟨-, huna, hnxt, -, -, -, hbuf⟩ := SndView.mk.inj hview
  exact ⟨huna, hnxt, hbuf⟩

/-- Every activity but a segment keeps the state, ends the connection or closes our side. -/
theorem step_state (hstep : s.step M a = some (s', out)) :
    (∃ seg now, a = .call (.segment seg now) ∧ s.tcb.processData M seg now = some s'.tcb) ∨
      s'.tcb.state = s.tcb.state ∨ s'.tcb.state.leaving = true := by
  rcases step_cases hstep with h | ⟨now, h⟩ | ⟨now, h⟩ | ⟨len, result, h⟩ | ⟨now, h⟩ | h
  · exact .inl h
  · rw [h]
    exact .inr ((s.tcb.retransmissionTimeout_quiet now).2.imp id (congrArg TcpState.leaving))
  · rw [h]
    rcases s.tcb.closeConnection_cases now with heq | hs | hs
    · exact .inr (.inl (congrArg state heq))
    · exact .inr (.inr (congrArg TcpState.leaving hs))
    · exact .inr (.inr (congrArg TcpState.leaving hs))
  · exact .inr (.inl (state_receiveSync h))
  · rw [h]
    exact .inr ((s.tcb.tick_quiet now).2.imp id (congrArg TcpState.leaving))
  · exact .inr (.inl h.state)

/-- Nothing but a segment completes the handshake. -/
theorem completes_segment (hstep : s.step M a = some (s', out))
    (hcomp : TcpState.Completes s.tcb.state s'.tcb.state) :
    ∃ seg now, a = .call (.segment seg now) ∧ s.tcb.processData M seg now = some s'.tcb := by
  rcases step_state hstep with hseg | hs | hs
  · exact hseg
  · exfalso
    rcases hcomp with ⟨hne, he⟩ | ⟨hopening, he⟩
    · exact hne (hs.symm.trans he)
    rw [← hs, he] at hopening
    cases hopening
  · exfalso
    rcases hcomp with ⟨-, he⟩ | ⟨-, he⟩
    all_goals
      rw [he] at hs
      cases hs

/-- The block an activity leads to. An accepted SYN-ACK leads to its block although the driver does
not come back from it. -/
inductive Reaches (M : CubicMath) (s : Endpoint) (a : Activity) (t' : TcpControlBlock) : Prop where
  | returns (s' : Endpoint) (out : List SentCore) (h : s.step M a = some (s', out))
      (htcb : s'.tcb = t')
  | hangs (seg : Segment) (now : Instant) (ha : a = .call (.segment seg now))
      (hack : seg.flags.ack = true) (h : s.tcb.answerSynAck seg now = some (t', false))

/-- **Handshake safety**: in every run, a segment that completes the handshake acknowledges our SYN,
unless its acknowledgement number is ISS itself. -/
theorem run_handshake (M : CubicMath) (settings : TcpSessionSettings) (t : TcpControlBlock)
    (hopens : TcpControlBlock.Opens settings t) (activities : List Activity) (s : Endpoint)
    (outs : List (List SentCore)) (hrun : run (step M) (ofOpen t) activities = some (s, outs))
    (a : Activity) (t' : TcpControlBlock) (hreach : s.Reaches M a t')
    (hcomp : TcpState.Completes s.tcb.state t'.state) :
    ∃ seg now, a = .call (.segment seg now) ∧ seg.flags.ack = true ∧
      s.tcb.state.opening = true ∧ (seg.ack = s.tcb.snd.iss + 1 ↔ seg.ack ≠ s.tcb.snd.iss) := by
  have hall : ∀ (s : Endpoint) (a : Activity) (s' : Endpoint) (out : List SentCore),
      s.tcb.SynOnly → True → s.step M a = some (s', out) → s'.tcb.SynOnly :=
    fun _ _ _ _ h _ hstep => synOnly_step h hstep
  have hinv : s.tcb.SynOnly :=
    run_forall hall (synOnly_ofOpen hopens) (guarded_of_forall (fun _ _ => trivial) _ _) hrun
  obtain ⟨seg, now, rfl, hack, ho, hacc⟩ : ∃ seg now, a = .call (.segment seg now) ∧
      seg.flags.ack = true ∧ s.tcb.state.opening = true ∧ s.tcb.isAcceptableAck seg.ack = true := by
    cases hreach with
    | returns s' out hstep htcb =>
      subst htcb
      obtain ⟨seg, now, rfl, hdata⟩ := completes_segment hstep hcomp
      refine ⟨seg, now, rfl, ?_⟩
      rcases processData_state hdata with heq | hclosed | ⟨ho, hack, hacc, -⟩ | ⟨hsync, -, hest⟩
      · rw [heq] at hcomp
        rcases hcomp with ⟨hne, he⟩ | ⟨ho, he⟩
        · exact absurd he hne
        rw [he] at ho
        cases ho
      · rw [hclosed] at hcomp
        rcases hcomp with ⟨-, he⟩ | ⟨-, he⟩ <;> cases he
      · exact ⟨hack, ho, hacc⟩
      · rcases hcomp with ⟨hne, he⟩ | ⟨ho, -⟩
        · exact absurd (hest he) hne
        rw [hsync] at ho
        cases ho
    | hangs seg now ha hack h =>
      obtain ⟨hs, hacc, -⟩ := answerSynAck_accepted h
      exact ⟨seg, now, ha, hack, by rw [hs]; rfl, hacc⟩
  have huna := (hinv ho).1
  refine ⟨seg, now, rfl, hack, ho, fun h => ?_, fun hne => ?_⟩
  · rw [h]
    bv_omega
  rcases hinv.acceptable ho hacc with h | h
  · exact absurd (h.trans huna) hne
  · exact h

/-- The handshake of a passive open that is completed as it should be. -/
theorem run_handshake_passive :
    ∃ t s' out, processPassiveSyn (.plain 4) 100 0 (.peerSyn 65535 []) 0 = some t ∧
      (ofOpen t).step CubicMath.integer (.call (.segment .ackOfSyn 0)) = some (s', out) ∧
      s'.tcb.state = .established ∧
      ∃ seg now, Activity.call (.segment .ackOfSyn 0) = .call (.segment seg now) ∧
        seg.flags.ack = true ∧ (ofOpen t).tcb.state.opening = true ∧
        (seg.ack = (ofOpen t).tcb.snd.iss + 1 ↔ seg.ack ≠ (ofOpen t).tcb.snd.iss) := by
  obtain ⟨t, ht, hreceived, s', out, hstep, hest⟩ :
      ∃ t, processPassiveSyn (.plain 4) 100 0 (.peerSyn 65535 []) 0 = some t ∧
        t.state = .synReceived ∧ ∃ s' out,
          (ofOpen t).step .integer (.call (.segment .ackOfSyn 0)) = some (s', out) ∧
            s'.tcb.state = .established := by decide
  refine ⟨t, s', out, ht, hstep, hest, ?_⟩
  refine run_handshake .integer (.plain 4) t (.passive 100 0 _ 0 ht) [] (ofOpen t) [] rfl _
    s'.tcb (.returns s' out hstep rfl) (.inl ⟨?_, hest⟩)
  rw [show (ofOpen t).tcb.state = .synReceived from hreceived]
  decide

/-- A final ACK that acknowledges nothing establishes the connection. -/
theorem syn_not_acknowledged :
    ∃ t s' out, processPassiveSyn (.plain 4) 100 0 (.peerSyn 65535 []) 0 = some t ∧
      (ofOpen t).step CubicMath.integer
        (.call (.segment { Segment.ackOfSyn with ack := 100 } 0)) = some (s', out) ∧
      t.snd.iss = 100 ∧ t.state = .synReceived ∧ s'.tcb.state = .established := by
  simp only [exists_and_left]
  decide

end Endpoint
end Moose.Tcp
