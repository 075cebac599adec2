import Mathlib.Data.List.Chain
import Moose.Tcp.SendSide

/-!
# What a connection transmits

An endpoint refines `Outbound`: every activity is one move. Four results are read off, each for
every state a connection reaches by activities that meet a condition:

* the retransmission queue is contiguous, starts at SND.UNA and ends at SND.NXT;
* what is transmitted lies below SND.NXT, so its acknowledgements are accepted;
* a FIN comes after everything that was accepted;
* what is transmitted are the bytes of the stream that its number stands for.

The conditions name what the code does not handle: an Eifel response that takes SND.NXT back after
new data was sent, a window probe, which uses a number that SND.NXT does not count, and a close
while data still waits.
-/

set_option autoImplicit false

namespace Moose.Tcp

open List Option Lib TcpControlBlock

namespace TcpState

/-- `close_connection` sends a FIN in these states. -/
def closes : TcpState → Bool
  | .established | .synReceived | .closeWait => true
  | _ => false

end TcpState

namespace Endpoint

def outbound (s : Endpoint) : Outbound :=
  ⟨s.tcb.sndView, s.log, s.accepted, !s.tcb.state.canClose⟩

def move (s : Endpoint) : Activity → Move
  | .call (.segment seg _) => if s.tcb.aborts seg then .reset else .talk
  | .call (.sendData data _) =>
    if s.tcb.state ≠ .established ∧ s.tcb.state ≠ .closeWait then .talk else .accept data
  | .call (.close _) => if s.tcb.state.closes then .close else .talk
  | _ => .talk

/-- Only a segment can take SND.NXT back. Where it does, the log and the queue disagree about the
numbers from there on, and none of the four results holds any more. -/
def rewinds (s : Endpoint) : Activity → Bool
  | .call (.segment seg _) => s.tcb.rewinds seg
  | _ => false

/-- The probe carries the byte at SND.NXT, but SND.NXT stays and the byte is not queued. -/
def probesWindow (s : Endpoint) : Activity → Bool
  | .act _ => s.due.head? == some .windowProbe && !s.tcb.snd.sendBuffer.isEmpty
  | _ => false

variable {M : CubicMath} {s s' : Endpoint} {a : Activity} {out : List SentCore}

/-! ## Refinement -/

theorem moves_talk {t' : TcpControlBlock} {fresh : List SentCore} {v : SndView}
    (hin : Relation.ReflTransGen SndView.Hears s.tcb.sndView v) (hout : v.Sending fresh t'.sndView)
    (hstate : s.tcb.state.canClose = false → t'.state.canClose = false) :
    s.outbound.Moves .talk ⟨t'.sndView, s.log ++ fresh, s.accepted, !t'.state.canClose⟩ := by
  refine .talk hin hout _ ?_
  intro h
  simp only [outbound, Bool.not_eq_true'] at h
  rw [hstate h]
  rfl

/-- An activity that keeps the send side, and the state unless it ends the connection. -/
theorem moves_quiet {t' : TcpControlBlock} (hview : t'.sndView = s.tcb.sndView)
    (hstate : t'.state = s.tcb.state ∨ t'.state = .closed) :
    s.outbound.Moves .talk ⟨t'.sndView, s.log ++ [], s.accepted, !t'.state.canClose⟩ := by
  apply moves_talk .refl
  · rw [hview]
    exact .done _
  intro h
  rcases hstate with hstate | hstate
  · rw [hstate]
    exact h
  rw [hstate]
  rfl

theorem moves_self (s : Endpoint) : s.outbound.Moves .talk s.outbound := by
  have hm : s.outbound.Moves .talk
      ⟨s.tcb.sndView, s.log ++ [], s.accepted, !s.tcb.state.canClose⟩ :=
    moves_quiet rfl (.inl rfl)
  rw [append_nil] at hm
  exact hm

theorem segment_moves {seg : Segment} {now : Instant} {t' : TcpControlBlock}
    (hrewinds : s.tcb.rewinds seg = false) (h : s.tcb.processData M seg now = some t') :
    s.outbound.Moves (if s.tcb.aborts seg then .reset else .talk)
      ⟨t'.sndView, s.log ++ (s.tcb.sentByData M seg now).fresh, s.accepted,
        !t'.state.canClose⟩ := by
  by_cases haborts : s.tcb.aborts seg = true
  · obtain ⟨hview, hstate, hfresh⟩ := processData_aborts haborts h
    rw [if_pos haborts, hview, hstate, hfresh, append_nil]
    exact .reset
  rw [if_neg haborts]
  rw [Bool.not_eq_true] at haborts
  obtain ⟨v, hin, hout⟩ := processData_talks haborts hrewinds h
  exact moves_talk hin hout (canClose_processData h)

/-- Bytes that are accepted are sent as far as the windows allow. -/
theorem accept_moves (data : List UInt8) (now : Instant)
    (hstate : ¬ (s.tcb.state ≠ .established ∧ s.tcb.state ≠ .closeWait)) :
    s.outbound.Moves (.accept data)
      ⟨((s.tcb.accept data).processSendQueue now).sndView,
        s.log ++ (s.tcb.accept data).sentBySendQueue now, s.accepted ++ data,
        !((s.tcb.accept data).processSendQueue now).state.canClose⟩ := by
  have hopen : s.tcb.state.canClose = true := by
    rcases not_and_or.mp hstate with h | h
    · rw [not_not.mp h]
      rfl
    rw [not_not.mp h]
    rfl
  have hstate' : ((s.tcb.accept data).processSendQueue now).state = s.tcb.state :=
    pushes_processSendQueue.state
  rw [hstate', hopen]
  refine .accept data ?_ ((s.tcb.accept data).processSendQueue_sending now)
  simp [outbound, hopen]

/-- A close that is not ignored sends a FIN at SND.NXT. -/
theorem fin_moves {now : Instant} {state : TcpState} (hopen : s.tcb.state.canClose = true)
    (hclosed : state.canClose = false)
    (h : s.tcb.closeConnection now =
      { (s.tcb.applyOutgoingEcn { fin := true, ack := true } []).1.enqueue []
          (s.tcb.applyOutgoingEcn { fin := true, ack := true } []).2 1 now with state := state }) :
    s.outbound.Moves .close ⟨(s.tcb.closeConnection now).sndView,
      s.log ++ s.tcb.queuedSince (s.tcb.closeConnection now), s.accepted,
      !(s.tcb.closeConnection now).state.canClose⟩ := by
  let r := s.tcb.applyOutgoingEcn { fin := true, ack := true } []
  have hecn : r.1.sndView = s.tcb.sndView :=
    sndView_of_view (tunes_applyOutgoingEcn _ _).view
  have hview : (s.tcb.closeConnection now).sndView =
      s.tcb.sndView.fin { r.2 with cwr := false } := by
    rw [h]
    show (r.1.enqueue [] r.2 1 now).sndView = _
    rw [sndView_enqueue, hecn, show r.1.snd.nxt = s.tcb.snd.nxt from congrArg SndView.nxt hecn]
    rfl
  have hfresh : s.tcb.queuedSince (s.tcb.closeConnection now) =
      [⟨s.tcb.sndView.nxt, [], { r.2 with cwr := false }⟩] := by
    rw [queuedSince, hview, SndView.fin, drop_left]
  have hstate : (s.tcb.closeConnection now).state = state := by rw [h]
  rw [hview, hfresh, hstate, hclosed]
  refine .close _ ?_ ?_
  · exact (applyOutgoingEcn_flags _ _).2
  · simp [outbound, hopen]

theorem close_moves (s : Endpoint) (now : Instant) :
    s.outbound.Moves (if s.tcb.state.closes then .close else .talk)
      ⟨(s.tcb.closeConnection now).sndView,
        s.log ++ s.tcb.queuedSince (s.tcb.closeConnection now), s.accepted,
        !(s.tcb.closeConnection now).state.canClose⟩ := by
  cases hstate : s.tcb.state with
  | established | synReceived | closeWait =>
    refine fin_moves (by rw [hstate]; rfl) ?_
      (by unfold closeConnection; rw [hstate])
    rfl
  | closed | listen | synSent | finWait1 | finWait2 | closing | lastAck | timeWait =>
    have heq : s.tcb.closeConnection now = s.tcb := by
      unfold closeConnection
      rw [hstate]
    rw [heq, queuedSince, drop_length]
    exact moves_quiet rfl (.inl rfl)

theorem call_moves {e : Event} {t' : TcpControlBlock} {bytes : List UInt8}
    (hrewinds : s.rewinds (.call e) = false) (h : s.tcb.step M e = some (t', bytes)) :
    s.outbound.Moves (s.move (.call e))
      ⟨t'.sndView, s.log ++ (s.tcb.sentBy M e).fresh, s.accepted ++ s.tcb.acceptedBy e,
        !t'.state.canClose⟩ := by
  cases e with
  | segment seg now =>
    simp only [TcpControlBlock.step, map_eq_some_iff, Prod.mk.injEq] at h
    obtain ⟨t1, h, rfl, -⟩ := h
    rw [show s.tcb.acceptedBy (.segment seg now) = [] from rfl, append_nil]
    exact segment_moves hrewinds h
  | sendData data now =>
    simp only [TcpControlBlock.step, sendData] at h
    simp only [move, sentBy, acceptedBy]
    by_cases hstate : s.tcb.state ≠ .established ∧ s.tcb.state ≠ .closeWait
    · simp only [if_pos hstate] at h ⊢
      cases h
      rw [append_nil s.accepted]
      exact moves_quiet rfl (.inl rfl)
    · simp only [if_neg hstate] at h ⊢
      cases h
      exact accept_moves data now hstate
  | sendQueue now =>
    cases h
    rw [show s.tcb.acceptedBy (.sendQueue now) = [] from rfl, append_nil]
    refine moves_talk .refl (s.tcb.processSendQueue_sending now) ?_
    rw [show (s.tcb.processSendQueue now).state = s.tcb.state from
      pushes_processSendQueue.state]
    exact id
  | timeout now =>
    cases h
    have hfresh : (s.tcb.sentBy M (.timeout now)).fresh = [] := by
      rw [sentBy]
      split <;> rfl
    obtain ⟨hview, hstate⟩ := s.tcb.retransmissionTimeout_quiet now
    rw [show s.tcb.acceptedBy (.timeout now) = [] from rfl, append_nil, hfresh]
    exact moves_quiet hview hstate
  | close now =>
    cases h
    rw [show s.tcb.acceptedBy (.close now) = [] from rfl, append_nil]
    exact s.close_moves now
  | read len =>
    simp only [TcpControlBlock.step, map_eq_some_iff, Prod.exists, Prod.mk.injEq] at h
    obtain ⟨t1, result, hread, rfl, -⟩ := h
    have hview := (receives_receiveSync hread).sndView
    have hstate := state_receiveSync hread
    rw [show s.tcb.acceptedBy (.read len) = [] from rfl, append_nil]
    exact moves_quiet hview (.inl hstate)

/-- **An endpoint refines the outgoing stream.** -/
theorem step_moves (hrewinds : s.rewinds a = false) (h : s.step M a = some (s', out)) :
    s.outbound.Moves (s.move a) s'.outbound := by
  cases a with
  | call e =>
    simp only [step, bind_eq_some, Prod.exists, some.injEq, Prod.mk.injEq] at h
    obtain ⟨t', bytes, hstep, rfl, -⟩ := h
    exact call_moves hrewinds hstep
  | tick now =>
    simp only [step] at h
    split at h
    · cases h
      obtain ⟨hview, hstate⟩ := s.tcb.tick_quiet now
      have hm := moves_quiet hview hstate
      rw [append_nil] at hm
      exact hm
    · cases h
      exact s.moves_self
  | act now =>
    simp only [step] at h
    split at h
    · cases h
      exact s.moves_self
    next d due _ =>
      cases h
      have hout := s.tcb.perform_sending now d
      have hstate := (s.tcb.pushes_perform now d).state
      refine moves_talk .refl hout ?_
      rw [hstate]
      exact id

/-! ## The open -/

/-- What an open leaves behind: the SYN at ISS, and nothing to send. -/
theorem opens_sndView {settings : TcpSessionSettings} {t : TcpControlBlock}
    (h : TcpControlBlock.Opens settings t) :
    ∃ wnd shift flags, shift ≤ 14 ∧ wnd ≤ 65535 * 2 ^ shift ∧ flags.syn = true ∧
      flags.fin = false ∧ t.state.canClose = true ∧
      t.sndView = ⟨t.snd.iss, t.snd.iss, t.snd.iss + 1, wnd, shift, [⟨t.snd.iss, [], flags⟩],
        []⟩ := by
  have hpath : ∀ {s s' : TcpSessionSettings} {iss : SeqNum} {tsOffset : BitVec 32} {now : Instant}
      {t : TcpControlBlock}, s.applyReceivePath (.new iss s' tsOffset now) = some t →
      t.sndView = ⟨iss, iss, iss, 0, 0, [], []⟩ := by
    intro s s' iss tsOffset now t h
    exact (receives_updateRcvWndFromBuffer h).sndView
  cases h with
  | active iss tsOffset now h =>
    simp only [connect, bind_eq_some, some.injEq] at h
    obtain ⟨t1, h1, rfl⟩ := h
    obtain ⟨hiss, huna, -, hwnd, hscale, -, hbuf⟩ := SndView.mk.inj (hpath h1)
    refine ⟨0, 0, { syn := true, ece := settings.ecnEnabled, cwr := settings.ecnEnabled },
      Nat.zero_le _, Nat.zero_le _, rfl, rfl, rfl, ?_⟩
    simp only [sndView, hiss, huna, hwnd, hscale, hbuf]
    rfl
  | passive iss tsOffset syn now h =>
    simp only [processPassiveSyn, bind_eq_some, some.injEq] at h
    obtain ⟨t1, h1, rfl⟩ := h
    let t0 : TcpControlBlock :=
      { t1 with
        state := .synReceived, irs := syn.seq, rx := { t1.rx with rcvNxt := syn.seq + 1 } }
    obtain ⟨shift, hshift, hview⟩ := t0.sndView_applyPeerTcpOptions syn.options syn.seq now
    obtain ⟨sack, hrx⟩ := t0.rxView_applyPeerTcpOptions syn.options syn.seq now
    have hview0 : t0.sndView = ⟨iss, iss, iss, 0, 0, [], []⟩ := (hpath h1 :)
    rw [hview0] at hshift hview
    have hstate : (t0.applyPeerTcpOptions syn.options syn.seq now).state = .synReceived :=
      congrArg RxView.state hrx
    obtain ⟨hiss, huna, -, -, hscale, -, hbuf⟩ := SndView.mk.inj hview
    refine ⟨(t0.applyPeerTcpOptions syn.options syn.seq now).scalePeerWindow syn.window.toNat,
      shift,
      { syn := true, ack := true, ece := settings.ecnEnabled && syn.flags.ece && syn.flags.cwr },
      ?_, ?_, rfl, rfl, ?_, ?_⟩
    · rcases hshift with rfl | hshift
      · exact Nat.zero_le _
      · exact hshift
    · have hwnd := (t0.applyPeerTcpOptions syn.options syn.seq now).scalePeerWindow_le syn.window
      rw [hscale] at hwnd
      exact hwnd
    · show (t0.applyPeerTcpOptions syn.options syn.seq now).state.canClose = true
      rw [hstate]
      rfl
    · simp only [sndView]
      rw [show (t0.applyPeerTcpOptions syn.options syn.seq now).snd.iss = iss from hiss,
        show (t0.applyPeerTcpOptions syn.options syn.seq now).snd.una = iss from huna,
        show (t0.applyPeerTcpOptions syn.options syn.seq now).neg.sndWscale = shift from hscale,
        show (t0.applyPeerTcpOptions syn.options syn.seq now).snd.sendBuffer = [] from hbuf]
      rfl

/-- The histories of a new connection agree with its variables. -/
theorem ok_ofOpen {settings : TcpSessionSettings} {t : TcpControlBlock}
    (h : TcpControlBlock.Opens settings t) :
    (ofOpen t).outbound.Ok 0 1 ∧
      Outbound.Covers (ofOpen t).outbound.view.iss (ofOpen t).outbound.view.queue 0 1 ∧
      (ofOpen t).outbound.Orderly := by
  obtain ⟨wnd, shift, flags, hshift, hwnd, hsyn, hfin, hopen, hview⟩ := opens_sndView h
  have hlen : SentCore.seqLen ⟨t.snd.iss, [], flags⟩ = 1 := by
    rw [SentCore.seqLen, hsyn, Bool.true_or, if_pos rfl]
  have hspans : Spans SentCore.seq SentCore.seqLen t.snd.iss 1 0
      [(⟨t.snd.iss, [], flags⟩ : SentCore)] := by
    refine ⟨(SeqNum.pos_zero _).symm, ?_, ?_⟩
    · rw [hlen]
      exact Nat.one_pos
    rw [hlen]
    rfl
  have hlog : (ofOpen t).log = [⟨t.snd.iss, [], flags⟩] := congrArg SndView.queue hview
  unfold outbound
  rw [hlog, show (ofOpen t).tcb.sndView = _ from hview,
    show (ofOpen t).tcb.state.canClose = true from hopen]
  refine ⟨⟨hshift, Outbound.window_le_maxPeerWnd hwnd hshift, (SeqNum.pos_zero _).symm, rfl,
    Nat.zero_le _, ?_, hspans, ?_, fun e he => he, rfl⟩, ⟨0, Nat.le_refl _, hspans, ?_⟩,
    ⟨_, [], [], rfl, rfl, hlen, hfin, (fun d hd => by cases hd), .inl rfl⟩⟩
  · unfold maxPeerWnd
    norm_num
  · intro e he
    rw [mem_singleton.mp he]
    refine ⟨0, (SeqNum.pos_zero _).symm, ?_, ?_, ?_⟩ <;> rw [hlen]
    · exact Nat.one_pos
    unfold maxPeerWnd
    norm_num
  · intro e es he
    cases he
    rw [hlen]
    exact Nat.one_pos

/-! ## The retransmission queue -/

/-- No reset, and SND.NXT is not taken back. -/
def QueueStepOk (s : Endpoint) (a : Activity) : Prop := s.rewinds a = false ∧ s.move a ≠ .reset

instance (s : Endpoint) (a : Activity) : Decidable (QueueStepOk s a) :=
  inferInstanceAs (Decidable (_ ∧ _))

def QueueInv (s : Endpoint) : Prop :=
  ∃ u x, s.outbound.Ok u x ∧ Outbound.Covers s.outbound.view.iss s.outbound.view.queue u x

theorem queueInv_step (h : s.QueueInv) (hok : s.QueueStepOk a)
    (hstep : s.step M a = some (s', out)) :
    s'.QueueInv := by
  obtain ⟨u, x, hin, hcov⟩ := h
  obtain ⟨u', x', hin', -, -, -, hcov'⟩ := hin.moves (step_moves hok.1 hstep)
  exact ⟨u', x', hin', hcov' hok.2 hcov⟩

end Endpoint

/-- The retransmission queue is what lies between SND.UNA and SND.NXT. -/
structure SendOk (t : TcpControlBlock) : Prop where
  contiguous : t.snd.retransmissionQueue.IsChain fun s s' => s.endSeq = s'.seq
  head : ∀ s, t.snd.retransmissionQueue.head? = some s →
    0 ≤ SeqNum.dist t.snd.una s.seq ∧ SeqNum.dist t.snd.una s.endSeq < 0
  last : ∀ s, t.snd.retransmissionQueue.getLast? = some s → s.endSeq = t.snd.nxt
  empty : t.snd.retransmissionQueue = [] → t.snd.una = t.snd.nxt

namespace Endpoint

variable {M : CubicMath} {s s' : Endpoint} {a : Activity} {out : List SentCore}

theorem QueueInv.sendOk (h : s.QueueInv) : SendOk s.tcb := by
  obtain ⟨u, x, hin, hcov⟩ := h
  have hqueue : s.outbound.view.queue = s.tcb.snd.retransmissionQueue.map (·.core) := rfl
  constructor
  · have hchain := hcov.isChain
    rw [hqueue, isChain_map] at hchain
    exact hchain
  · intro e he
    refine hin.head_covers hcov (e := e.core) ?_
    rw [hqueue, head?_map, he]
    rfl
  · intro e he
    refine hin.last_end hcov (e := e.core) ?_
    rw [hqueue, getLast?_map, he]
    rfl
  · intro he
    apply hin.una_eq_nxt hcov
    rw [hqueue, he]
    rfl

theorem nxt_forward (h : s.QueueInv) (hok : s.QueueStepOk a)
    (hstep : s.step M a = some (s', out)) :
    0 ≤ SeqNum.dist s'.tcb.snd.nxt s.tcb.snd.nxt := by
  obtain ⟨u, x, hin, -⟩ := h
  have hmoves := step_moves hok.1 hstep
  obtain ⟨u', x', hin', -, hxx, hnear, -⟩ := hin.moves hmoves
  have hiss : s'.outbound.view.iss = s.outbound.view.iss := hmoves.iss
  have hnxt : s.tcb.snd.nxt = SeqNum.pos s.outbound.view.iss x := hin.nxt
  have hnxt' : s'.tcb.snd.nxt = SeqNum.pos s.outbound.view.iss x' := hiss ▸ hin'.nxt
  have := Outbound.maxPeerWnd_lt
  rw [hnxt, hnxt', SeqNum.dist_pos _ (by omega) (by omega)]
  omega

/-- **The send side in every state reached** by activities that neither reset the connection nor
take SND.NXT back: the queue fills the space between SND.UNA and SND.NXT, and from there SND.NXT
only moves forward. -/
theorem run_sendOk (M : CubicMath) (settings : TcpSessionSettings) (t : TcpControlBlock)
    (hopens : TcpControlBlock.Opens settings t) (activities : List Activity)
    (hok : Guarded (step M) QueueStepOk (ofOpen t) activities) (s : Endpoint)
    (outs : List (List SentCore)) (hrun : run (step M) (ofOpen t) activities = some (s, outs)) :
    SendOk s.tcb ∧ ∀ a s' out, s.QueueStepOk a → s.step M a = some (s', out) →
      0 ≤ SeqNum.dist s'.tcb.snd.nxt s.tcb.snd.nxt := by
  obtain ⟨hin, hcov, -⟩ := ok_ofOpen hopens
  have hinv : s.QueueInv :=
    run_forall (fun _ _ _ _ h hok hstep => queueInv_step h hok hstep) ⟨0, 1, hin, hcov⟩ hok hrun
  exact ⟨hinv.sendOk, fun a s' out ha hstep => nxt_forward hinv ha hstep⟩

/-- A passive open to a peer with the given window and options. -/
def passiveOpen (window : BitVec 16) (options : List TcpOption) : Option TcpControlBlock :=
  processPassiveSyn (.plain 4) 100 0 (.peerSyn window options) 0

def ackOf (ack : SeqNum) (options : List TcpOption) : Segment :=
  { Segment.ackOfSyn with ack := ack, options := options }

/-- Two writes, a timeout in between, and an acknowledgement of the first. -/
def timedOut : List Activity :=
  [.call (.segment .ackOfSyn 0), .call (.sendData [1, 2, 3] 0),
    .call (.timeout 2000000000), .call (.sendData [4, 5] 2000000000),
    .call (.segment (ackOf 104 []) 2001000000)]

theorem run_sendOk_timeout :
    ∃ t s outs, passiveOpen 65535 [] = some t ∧
      run (step CubicMath.integer) (ofOpen t) timedOut = some (s, outs) ∧
      s.tcb.snd.retransmissionQueue.length = 1 ∧ SendOk s.tcb := by
  obtain ⟨t, ht, hok, s, outs, hrun, hlen⟩ : ∃ t, passiveOpen 65535 [] = some t ∧
      Guarded (step .integer) QueueStepOk (ofOpen t) timedOut ∧
      ∃ s outs, run (step .integer) (ofOpen t) timedOut = some (s, outs) ∧
        s.tcb.snd.retransmissionQueue.length = 1 := by decide
  exact ⟨t, s, outs, ht, hrun, hlen,
    (run_sendOk .integer (.plain 4) t (.passive 100 0 _ 0 ht) _ hok s outs hrun).1⟩

/-- The same with timestamps: the acknowledgement echoes a timestamp from before the timeout, and
the response takes SND.NXT from 106 back to 104 while two bytes at 104 are in the queue. -/
def timedOutTs : List Activity :=
  [.call (.segment (ackOf 101 [.timestamp 1 0]) 0), .call (.sendData [1, 2, 3] 0),
    .call (.timeout 2000000000), .call (.sendData [4, 5] 2000000000)]

theorem spurious_timeout_rewinds :
    ∃ t s outs s' out, passiveOpen 65535 [.timestamp 1 0] = some t ∧
      run (step CubicMath.integer) (ofOpen t) timedOutTs = some (s, outs) ∧
      s.step CubicMath.integer (.call (.segment (ackOf 104 [.timestamp 2 1]) 2001000000)) =
        some (s', out) ∧
      SeqNum.dist s'.tcb.snd.nxt s.tcb.snd.nxt < 0 ∧ ¬ SendOk s'.tcb := by
  obtain ⟨t, ht, s, outs, hrun, s', out, hstep, hback, e, he, hne⟩ :
      ∃ t, passiveOpen 65535 [.timestamp 1 0] = some t ∧ ∃ s outs,
        run (step .integer) (ofOpen t) timedOutTs = some (s, outs) ∧ ∃ s' out,
          s.step .integer (.call (.segment (ackOf 104 [.timestamp 2 1]) 2001000000)) =
            some (s', out) ∧ SeqNum.dist s'.tcb.snd.nxt s.tcb.snd.nxt < 0 ∧
            ∃ e, s'.tcb.snd.retransmissionQueue.getLast? = some e ∧ e.endSeq ≠ s'.tcb.snd.nxt := by
    decide
  exact ⟨t, s, outs, s', out, ht, hrun, hstep, hback, fun h => hne (h.last e he)⟩

/-! ## The send horizon -/

/-- No window probe, and SND.NXT is not taken back. -/
def HorizonStepOk (s : Endpoint) (a : Activity) : Prop :=
  s.rewinds a = false ∧ s.probesWindow a = false

instance (s : Endpoint) (a : Activity) : Decidable (HorizonStepOk s a) :=
  inferInstanceAs (Decidable (_ ∧ _))

/-- How many sequence numbers were used so far. -/
def used (s : Endpoint) : Nat := (s.log.map (·.seqLen)).sum

/-- SND.NXT is where the numbers used so far end, and every acknowledgement of some of them that is
not older than SND.UNA is accepted. -/
structure Horizon (s : Endpoint) : Prop where
  nxt : s.tcb.snd.nxt = SeqNum.pos s.tcb.snd.iss s.used
  accepted : ∃ u, u ≤ s.used ∧ s.used < u + 2 ^ 31 ∧ s.tcb.snd.una = SeqNum.pos s.tcb.snd.iss u ∧
    ∀ a, u ≤ a → a ≤ s.used → s.tcb.isAcceptableAck (SeqNum.pos s.tcb.snd.iss a) = true

theorem horizon_of_ok {u x : Nat} (h : s.outbound.Ok u x) : s.Horizon := by
  have hused : x = s.used := h.used
  refine ⟨hused ▸ h.nxt, u, hused ▸ h.le, hused ▸ h.flight_lt, h.una, ?_⟩
  intro a hua hax
  exact decide_eq_true (h.acceptable_iff.mpr ⟨a, hua, hused ▸ hax, rfl⟩)

/-- What a step puts out is on the queue afterwards, or occupies nothing. -/
theorem transmitted_mem (hprobe : s.probesWindow a = false)
    (h : s.step M a = some (s', out)) :
    ∀ e ∈ out, e.seqLen = 0 ∨ e ∈ s'.tcb.sndView.queue := by
  intro e he
  cases a with
  | call event =>
    simp only [step, bind_eq_some, Prod.exists, some.injEq, Prod.mk.injEq] at h
    obtain ⟨t', bytes, hstep, rfl, rfl⟩ := h
    right
    cases event with
    | segment seg now =>
      simp only [TcpControlBlock.step, map_eq_some_iff, Prod.mk.injEq] at hstep
      obtain ⟨t1, hdata, rfl, -⟩ := hstep
      exact sentByData_mem hdata e he
    | sendData data now =>
      simp only [TcpControlBlock.step, sendData] at hstep
      simp only [sentBy] at he
      by_cases hstate : s.tcb.state ≠ .established ∧ s.tcb.state ≠ .closeWait
      · rw [if_pos hstate] at he
        cases he
      rw [if_neg hstate] at he hstep
      cases hstep
      apply queue_of_sending
        ((s.tcb.accept data).processSendQueue_sending now)
      exact mem_append_right _ (by simpa [Sent.all] using he)
    | sendQueue now =>
      cases hstep
      apply queue_of_sending (s.tcb.processSendQueue_sending now)
      exact mem_append_right _ (by simpa [Sent.all, sentBy] using he)
    | timeout now =>
      cases hstep
      rcases htick : s.tcb.tickRetransmissionTimer now with ⟨t1, fired⟩
      cases fired with
      | true =>
        have hnext : s.tcb.retransmissionTimeout now = t1.retransmitMatching .rto none now := by
          simp [retransmissionTimeout, htick]
        rw [hnext, sndView_of_view (tunes_retransmitMatching _ _).view]
        simp only [sentBy, htick] at he
        exact sentByRetransmit_mem _ e (by simpa [Sent.all] using he)
      | false =>
        simp only [sentBy, htick] at he
        cases he
    | close now =>
      cases hstep
      have hmem : e ∈ s.tcb.queuedSince (s.tcb.closeConnection now) := by
        simpa [Sent.all, sentBy] using he
      exact mem_of_mem_drop hmem
    | read len => cases he
  | tick now =>
    simp only [step] at h
    split at h <;> cases h <;> cases he
  | act now =>
    simp only [step] at h
    split at h
    · cases h
      cases he
    next d due hdue =>
      cases h
      refine s.tcb.perform_mem now d ?_ e he
      rintro rfl
      simpa [probesWindow, hdue] using hprobe

/-- **The horizon in every state reached** without a window probe and with SND.NXT never taken
back. From there every transmission uses numbers below SND.NXT, and they are on record. -/
theorem run_horizon (M : CubicMath) (settings : TcpSessionSettings) (t : TcpControlBlock)
    (hopens : TcpControlBlock.Opens settings t) (activities : List Activity)
    (hok : Guarded (step M) HorizonStepOk (ofOpen t) activities) (s : Endpoint)
    (outs : List (List SentCore)) (hrun : run (step M) (ofOpen t) activities = some (s, outs)) :
    s.Horizon ∧ ∀ a s' out, s.HorizonStepOk a → s.step M a = some (s', out) →
      ∀ e ∈ out, (e.seqLen = 0 ∨ e ∈ s'.log) ∧
        ∀ n, n < e.seqLen → SeqNum.dist (e.seq + BitVec.ofNat 32 n) s'.tcb.snd.nxt < 0 := by
  have hstepOk : ∀ (s : Endpoint) (a : Activity) (s' : Endpoint) (out : List SentCore),
      (∃ u x, s.outbound.Ok u x) → s.HorizonStepOk a → s.step M a = some (s', out) →
      ∃ u x, s'.outbound.Ok u x := by
    intro s a s' out ⟨u, x, h⟩ ha hstep
    obtain ⟨u', x', h', -⟩ := h.moves (step_moves ha.1 hstep)
    exact ⟨u', x', h'⟩
  obtain ⟨u, x, hin⟩ := run_forall hstepOk ⟨0, 1, (ok_ofOpen hopens).1⟩ hok hrun
  refine ⟨horizon_of_ok hin, ?_⟩
  intro a s' out ha hstep e he
  obtain ⟨u', x', hin'⟩ := hstepOk s a s' out ⟨u, x, hin⟩ ha hstep
  rcases transmitted_mem ha.2 hstep e he with hzero | hmem
  · refine ⟨.inl hzero, ?_⟩
    intro n hn
    rw [hzero] at hn
    cases hn
  · exact ⟨.inr (hin'.queued e hmem), fun n hn => hin'.live_below (hin'.live e hmem) hn⟩

theorem run_horizon_timeout :
    ∃ t s outs, passiveOpen 65535 [] = some t ∧
      run (step CubicMath.integer) (ofOpen t) timedOut = some (s, outs) ∧
      s.used = 6 ∧ s.Horizon := by
  obtain ⟨t, ht, hok, s, outs, hrun, hused⟩ : ∃ t, passiveOpen 65535 [] = some t ∧
      Guarded (step .integer) HorizonStepOk (ofOpen t) timedOut ∧
      ∃ s outs, run (step .integer) (ofOpen t) timedOut = some (s, outs) ∧ s.used = 6 := by decide
  exact ⟨t, s, outs, ht, hrun, hused,
    (run_horizon .integer (.plain 4) t (.passive 100 0 _ 0 ht) _ hok s outs hrun).1⟩

/-- The peer's window is closed when a byte is written, and the persist timer runs out. -/
def zeroWindow : List Activity :=
  [.call (.segment .ackOfSyn 0), .call (.sendData [7] 0), .tick 1000000000]

/-- The probe carries the byte at SND.NXT, which stays where it is, and the peer's acknowledgement
of the byte is not accepted. -/
theorem window_probe_beyond_horizon :
    ∃ t s outs s', passiveOpen 0 [] = some t ∧
      run (step CubicMath.integer) (ofOpen t) zeroWindow = some (s, outs) ∧
      s.step CubicMath.integer (.act 1000000000) =
        some (s', [⟨101, [7], { ack := true }⟩]) ∧
      ¬ SeqNum.dist 101 s'.tcb.snd.nxt < 0 ∧ s'.tcb.isAcceptableAck 102 = false := by
  obtain ⟨t, ht, s, outs, hrun, s', _, hstep, rfl, hbeyond, hacc⟩ :
      ∃ t, passiveOpen 0 [] = some t ∧ ∃ s outs,
        run (step .integer) (ofOpen t) zeroWindow = some (s, outs) ∧ ∃ s' out,
          s.step .integer (.act 1000000000) = some (s', out) ∧
            out = [⟨101, [7], { ack := true }⟩] ∧ ¬ SeqNum.dist 101 s'.tcb.snd.nxt < 0 ∧
            s'.tcb.isAcceptableAck 102 = false := by decide
  exact ⟨t, s, outs, s', ht, hrun, hstep, hbeyond, hacc⟩

/-! ## The orderly close -/

/-- The connection is closed only when nothing waits, and SND.NXT is not taken back. -/
def CloseStepOk (s : Endpoint) (a : Activity) : Prop :=
  s.rewinds a = false ∧ (s.move a = .close → s.tcb.snd.sendBuffer = [])

instance (s : Endpoint) (a : Activity) : Decidable (CloseStepOk s a) :=
  inferInstanceAs (Decidable (_ ∧ (_ → _)))

/-- Every accepted byte is in the log or waits; byte `i` of the stream is sent as ISS + 1 + `i`; and
once a FIN is sent, nothing waits, its number is that of the byte behind the last one, and no number
after it is used. -/
structure OrderlyClose (s : Endpoint) : Prop where
  accepted : s.accepted = SentCore.bytes s.log ++ s.tcb.snd.sendBuffer
  numbered : ∀ pre e post, s.log = pre ++ e :: post → e.data ≠ [] →
    e.seq = SeqNum.pos (s.tcb.snd.iss + 1) (SentCore.bytes pre).length
  fin : ∀ pre f post, s.log = pre ++ f :: post → f.flags.fin = true →
    post = [] ∧ s.tcb.snd.sendBuffer = [] ∧
      f.seq = SeqNum.pos (s.tcb.snd.iss + 1) s.accepted.length ∧ s.tcb.snd.nxt = f.seq + 1

theorem orderlyClose_of_ok {u x : Nat} (h : s.outbound.Ok u x) (ho : s.outbound.Orderly) :
    s.OrderlyClose := by
  refine ⟨h.accepted, fun pre e post hlog he => h.position ho hlog (.inl he), ?_⟩
  intro pre f post hlog hfin
  obtain ⟨syn, ds, -, -, -, -, hlast⟩ := ho.before hlog (.inr hfin)
  obtain ⟨rfl, hempty, hdata⟩ := hlast hfin
  have hbuffer : s.tcb.snd.sendBuffer = [] := hempty
  have hbytes : s.accepted = SentCore.bytes pre := by
    have hacc : s.accepted = SentCore.bytes s.log ++ s.tcb.snd.sendBuffer := h.accepted
    rw [hacc, hbuffer, show s.log = pre ++ [f] from hlog, Outbound.bytes_append,
      Outbound.bytes_singleton, hdata, append_nil, append_nil]
  have hseq := h.position ho hlog (.inr hfin)
  refine ⟨rfl, hbuffer, by rw [hbytes]; exact hseq, ?_⟩
  -- the FIN is the last entry of the log, which ends at SND.NXT
  have hend := h.log.getLast? (e := f)
    (by rw [show s.outbound.log = pre ++ [f] from hlog, getLast?_concat])
  rw [show s.tcb.snd.nxt = _ from h.nxt, ← hend, SentCore.seqLen, hfin, Bool.or_true, if_pos rfl]
  rfl

/-- **Data before the FIN in every state reached**, if the connection is closed when nothing
waits. -/
theorem run_orderlyClose (M : CubicMath) (settings : TcpSessionSettings) (t : TcpControlBlock)
    (hopens : TcpControlBlock.Opens settings t) (activities : List Activity)
    (hok : Guarded (step M) CloseStepOk (ofOpen t) activities) (s : Endpoint)
    (outs : List (List SentCore)) (hrun : run (step M) (ofOpen t) activities = some (s, outs)) :
    s.OrderlyClose := by
  have hstepOk : ∀ (s : Endpoint) (a : Activity) (s' : Endpoint) (out : List SentCore),
      (∃ u x, s.outbound.Ok u x ∧ s.outbound.Orderly) → s.CloseStepOk a →
      s.step M a = some (s', out) → ∃ u x, s'.outbound.Ok u x ∧ s'.outbound.Orderly := by
    intro s a s' out ⟨u, x, h, ho⟩ ha hstep
    have hmoves := step_moves ha.1 hstep
    obtain ⟨u', x', h', -⟩ := h.moves hmoves
    exact ⟨u', x', h', ho.moves hmoves ha.2⟩
  obtain ⟨hin, -, ho⟩ := ok_ofOpen hopens
  obtain ⟨u, x, h, ho⟩ := run_forall hstepOk ⟨0, 1, hin, ho⟩ hok hrun
  exact orderlyClose_of_ok h ho

/-- Three bytes, and a close after they went out. -/
def writtenAndClosed : List Activity :=
  [.call (.segment .ackOfSyn 0), .call (.sendData [1, 2, 3] 0), .call (.close 1)]

theorem run_orderlyClose_fin :
    ∃ t s outs, passiveOpen 65535 [] = some t ∧
      run (step CubicMath.integer) (ofOpen t) writtenAndClosed = some (s, outs) ∧
      s.log.any (·.flags.fin) = true ∧ s.OrderlyClose := by
  obtain ⟨t, ht, hok, s, outs, hrun, hfin⟩ : ∃ t, passiveOpen 65535 [] = some t ∧
      Guarded (step .integer) CloseStepOk (ofOpen t) writtenAndClosed ∧
      ∃ s outs, run (step .integer) (ofOpen t) writtenAndClosed = some (s, outs) ∧
        s.log.any (·.flags.fin) = true := by decide
  exact ⟨t, s, outs, ht, hrun, hfin,
    run_orderlyClose .integer (.plain 4) t (.passive 100 0 _ 0 ht) _ hok s outs hrun⟩

/-- The peer's window is closed when three bytes are written; the connection is closed, and then the
window opens. -/
def closedWithData : List Activity :=
  [.call (.segment .ackOfSyn 0), .call (.sendData [1, 2, 3] 0), .call (.close 1),
    .call (.segment (ackOf 101 []) 2)]

/-- The FIN has number 101, and the data follows at 102. -/
theorem data_after_fin :
    ∃ t s outs, passiveOpen 0 [] = some t ∧
      run (step CubicMath.integer) (ofOpen t) closedWithData = some (s, outs) ∧
      (s.log.drop 1).map (fun e => (e.seq, e.data, e.flags.fin)) =
        [(101, [], true), (102, [1, 2, 3], false)] ∧
      ¬ s.OrderlyClose := by
  obtain ⟨t, ht, s, outs, hrun, hlog⟩ : ∃ t, passiveOpen 0 [] = some t ∧
      ∃ s outs, run (step .integer) (ofOpen t) closedWithData = some (s, outs) ∧
        (s.log.drop 1).map (fun e => (e.seq, e.data, e.flags.fin)) =
          [(101, [], true), (102, [1, 2, 3], false)] := by decide
  refine ⟨t, s, outs, ht, hrun, hlog, fun h => ?_⟩
  cases hs : s.log with
  | nil =>
    rw [hs] at hlog
    cases hlog
  | cons syn rest =>
    rw [hs, drop_one, tail_cons, map_eq_cons_iff] at hlog
    obtain ⟨f, ds, rfl, hf, hds⟩ := hlog
    rw [map_eq_cons_iff] at hds
    obtain ⟨d, es, rfl, -, -⟩ := hds
    obtain ⟨hpost, -⟩ := h.fin [syn] f (d :: es) hs (congrArg (·.2.2) hf)
    cases hpost

/-! ## What is on the wire -/

/-- As for an orderly close, and without a window probe. -/
def WireStepOk (s : Endpoint) (a : Activity) : Prop := s.CloseStepOk a ∧ s.probesWindow a = false

instance (s : Endpoint) (a : Activity) : Decidable (WireStepOk s a) :=
  inferInstanceAs (Decidable (_ ∧ _))

/-- The data of a segment stands in the stream where its number says, and what occupies numbers is
not acknowledged to its end. -/
structure Faithful (s : Endpoint) (e : SentCore) : Prop where
  data : e.data ≠ [] → ∃ pre post, s.accepted = pre ++ e.data ++ post ∧
    e.seq = SeqNum.pos (s.tcb.snd.iss + 1) pre.length
  unacked : e.seqLen ≠ 0 → SeqNum.dist s.tcb.snd.una e.endSeq < 0

theorem faithful_of_mem {u x : Nat} (h : s.outbound.Ok u x) (ho : s.outbound.Orderly) {e : SentCore}
    (he : e ∈ s.tcb.sndView.queue) : s.Faithful e := by
  constructor
  · intro hdata
    obtain ⟨pre, post, hlog⟩ := append_of_mem (h.queued e he)
    refine ⟨SentCore.bytes pre, SentCore.bytes post ++ s.tcb.snd.sendBuffer, ?_,
      h.position ho hlog (.inl hdata)⟩
    rw [show s.accepted = _ from h.accepted, hlog, Outbound.bytes_append, Outbound.bytes_cons]
    simp only [append_assoc]
    rfl
  · intro _
    obtain ⟨p, hp, hup, hpx, hlen⟩ := h.live e he
    have hflight := h.flight_lt
    rw [show s.tcb.snd.una = _ from h.una, SentCore.endSeq, hp, SeqNum.pos_add,
      SeqNum.dist_pos _ (by omega) (by omega)]
    omega

theorem ok_step (h : ∃ u x, s.outbound.Ok u x ∧ s.outbound.Orderly) (hok : s.CloseStepOk a)
    (hstep : s.step M a = some (s', out)) : ∃ u x, s'.outbound.Ok u x ∧ s'.outbound.Orderly := by
  obtain ⟨u, x, hin, ho⟩ := h
  have hmoves := step_moves hok.1 hstep
  obtain ⟨u', x', hin', -⟩ := hin.moves hmoves
  exact ⟨u', x', hin', ho.moves hmoves hok.2⟩

/-- **Every transmission is faithful**, new or repeated, in every state reached: it carries bytes of
the stream under their number, and no segment that is acknowledged to its end is sent again. -/
theorem run_faithful (M : CubicMath) (settings : TcpSessionSettings) (t : TcpControlBlock)
    (hopens : TcpControlBlock.Opens settings t) (activities : List Activity)
    (hok : Guarded (step M) WireStepOk (ofOpen t) activities) (s : Endpoint)
    (outs : List (List SentCore)) (hrun : run (step M) (ofOpen t) activities = some (s, outs))
    (a : Activity) (ha : s.WireStepOk a) (s' : Endpoint) (out : List SentCore)
    (hstep : s.step M a = some (s', out)) : ∀ e ∈ out, s'.Faithful e := by
  intro e he
  obtain ⟨hin, -, ho⟩ := ok_ofOpen hopens
  have hreached := run_forall (fun _ _ _ _ h hok hstep => ok_step h hok.1 hstep) ⟨0, 1, hin, ho⟩
    hok hrun
  obtain ⟨u, x, hin', ho'⟩ := ok_step hreached ha.1 hstep
  rcases transmitted_mem ha.2 hstep e he with hzero | hmem
  · refine ⟨fun hdata => ?_, fun hne => absurd hzero hne⟩
    unfold SentCore.seqLen at hzero
    split at hzero
    · cases hzero
    · exact absurd (length_eq_zero_iff.mp hzero) hdata
  · exact faithful_of_mem hin' ho' hmem

/-- The two bytes that are not acknowledged are sent again. -/
theorem run_faithful_repeated :
    ∃ t s outs s' e, passiveOpen 65535 [] = some t ∧
      run (step .integer) (ofOpen t) timedOut = some (s, outs) ∧
      s.step .integer (.call (.timeout 9000000000)) = some (s', [e]) ∧
      e.data = [4, 5] ∧ s'.Faithful e := by
  obtain ⟨t, ht, hok, s, outs, hrun, ha, s', out, hstep, hdata⟩ :
      ∃ t, passiveOpen 65535 [] = some t ∧
        Guarded (step .integer) WireStepOk (ofOpen t) timedOut ∧ ∃ s outs,
          run (step .integer) (ofOpen t) timedOut = some (s, outs) ∧
            s.WireStepOk (.call (.timeout 9000000000)) ∧ ∃ s' out,
            s.step .integer (.call (.timeout 9000000000)) = some (s', out) ∧
              out.map (·.data) = [[4, 5]] := by decide
  obtain ⟨e, rfl, he⟩ := map_eq_singleton_iff.mp hdata
  exact ⟨t, s, outs, s', e, ht, hrun, hstep, he, run_faithful .integer (.plain 4) t
    (.passive 100 0 _ 0 ht) _ hok s outs hrun _ ha s' _ hstep e mem_cons_self⟩

end Endpoint
end Moose.Tcp
