import Moose.Lib.Run
import Moose.Tcp.Receive

/-!
# What a segment leaves alone

`rxView` collects the receive window, the ring, the scoreboard and the state, `sndView` the
sequence variables, the queue and the unsent bytes, `negView` the rest of what was negotiated. Loss
recovery, congestion control and the timers keep all three; the send side never touches the
receiver.
-/

set_option autoImplicit false

namespace Moose.Tcp

open List Option Lib

theorem checked32_eq_some {n m : Nat} : checked32 n = some m ↔ n < 2 ^ 32 ∧ n = m := by
  simp [checked32]

/-- The part of a control block the receive path works on. -/
structure RxView where
  rx : Receiver UInt8
  rcvWnd : Nat
  maxRcvWnd : Nat
  sackEnabled : Bool
  state : TcpState

/-- What of an entry of the queue stays as it was sent; the rest are marks and times. -/
structure SentCore where
  seq : SeqNum
  data : List UInt8
  flags : Flags
deriving DecidableEq

def SentCore.seqLen (s : SentCore) : Nat :=
  if s.flags.syn || s.flags.fin then 1 else s.data.length

def UnackedSegment.core (s : UnackedSegment) : SentCore := ⟨s.seq, s.data, s.flags⟩

/-- The sequence variables, the peer's window, the queue and the bytes that wait. -/
structure SndView where
  iss : SeqNum
  una : SeqNum
  nxt : SeqNum
  wnd : Nat
  wscale : Nat
  queue : List SentCore
  sendBuffer : List UInt8

/-- What the handshake settles, apart from SACK and the peer's shift. -/
structure NegView where
  wndScaleEnabled : Bool
  rcvWscale : Nat
  tsEnabled : Bool

/-- Both sides of a control block. What is not in it only steers when and how fast data is sent. -/
structure View where
  rx : RxView
  snd : SndView
  neg : NegView

/-- What steers the sender: the windows, the segment size, the timestamps and the snapshots. -/
structure Steering where
  algo : CongestionControl
  cwnd : Nat
  ssthresh : Nat
  cwndRaw : Nat
  effectiveMss : Nat
  ts : TimestampState
  undo : Nat × Nat × Bool
  pipePrev : Option Nat
  frto : FrtoState
deriving DecidableEq

/-- What `sack_enter_recovery` keeps for an undo. -/
def SackState.undo (s : SackState) : Nat × Nat × Bool :=
  (s.undoCwnd, s.undoSsthresh, s.undoPending)

/-- What the payload of an acceptable segment does to the receiver, and how many bytes of it are
stored. -/
inductive Stored (sack : Bool) (r : Receiver UInt8) (seg : Segment) :
    Receiver UInt8 → Nat → Prop where
  | ignored (h : seg.payload = [] ∨ sack = false ∧ seg.seq ≠ r.rcvNxt) : Stored sack r seg r 0
  | outOfOrder {b : TcpReceiveBuffer UInt8} {n : Nat} {r' : Receiver UInt8} (hsack : sack = true)
      (hseq : seg.seq ≠ r.rcvNxt) (hne : seg.payload ≠ [])
      (hwrite : r.receiveBuffer.writeAt r.rcvNxt seg.seq seg.payload = some (b, n))
      (hrx : r.sackReceiveOutOfOrder seg.seq seg.payload = some r') : Stored sack r seg r' n
  | refused {b : TcpReceiveBuffer UInt8} (hseq : seg.seq = r.rcvNxt) (hne : seg.payload ≠ [])
      (hstore : r.storeInOrder sack seg = some (b, 0)) :
      Stored sack r seg { r with receiveBuffer := b } 0
  | inOrder {b : TcpReceiveBuffer UInt8} {n : Nat} (hseq : seg.seq = r.rcvNxt)
      (hne : seg.payload ≠ []) (hn : n ≠ 0) (hstore : r.storeInOrder sack seg = some (b, n)) :
      Stored sack r seg (r.advanceRcvNxt sack b n) n

/-- What the receive part of an acceptable segment does, up to the FIN. A window that changes is
the one the ring has room for. -/
def Received (v : RxView) (seg : Segment) (v' : RxView) (n : Nat) : Prop :=
  ∃ rx wnd, Stored v.sackEnabled v.rx seg rx n ∧ v' = { v with rx := rx, rcvWnd := wnd } ∧
    (wnd = v.rcvWnd ∧ n = 0 ∨
      ∃ free, rx.receiveBuffer.freeSpace = some free ∧ wnd = min (min free v.maxRcvWnd) 65535)

/-- The FIN, seen from the receiver of an established connection. -/
def RxView.takeFin (v : RxView) (fin : Bool) : RxView :=
  if fin then { v with rx := { v.rx with rcvNxt := v.rx.rcvNxt + 1 }, state := .closeWait } else v

namespace TcpControlBlock

section

variable (t : TcpControlBlock)

def rxView : RxView :=
  ⟨t.rx, t.rcvWnd, t.maxRcvWnd, t.sack.enabled, t.state⟩

def sndView : SndView :=
  ⟨t.snd.iss, t.snd.una, t.snd.nxt, t.snd.wnd, t.neg.sndWscale,
    t.snd.retransmissionQueue.map (·.core), t.snd.sendBuffer⟩

def negView : NegView :=
  ⟨t.neg.wndScaleEnabled, t.neg.rcvWscale, t.ts.enabled⟩

def view : View := ⟨t.rxView, t.sndView, t.negView⟩

def steering : Steering where
  algo := t.cc.algo
  cwnd := t.cc.cwnd
  ssthresh := t.cc.ssthresh
  cwndRaw := t.cc.cwv.cwndRaw
  effectiveMss := t.neg.effectiveMss
  ts := t.ts
  undo := t.sack.undo
  pipePrev := t.eifel.pipePrev
  frto := t.frto

/-- What steers, with what was negotiated, the peer's window and the estimates. -/
def conduct :=
  (t.steering, t.neg, t.sack.enabled, t.snd.wnd, t.rtt.srtt, t.rtt.rttvar)

end

/-- Book-keeping: both sides of the block and what steers it stay. -/
structure Tunes (t t' : TcpControlBlock) : Prop where
  view : t'.view = t.view
  conduct : t'.conduct = t.conduct

/-- A step of the send path: the receiver and what steers the block stay. -/
structure Pushes (t t' : TcpControlBlock) : Prop where
  rxView : t'.rxView = t.rxView
  conduct : t'.conduct = t.conduct

variable {M : CubicMath} {t t' t'' : TcpControlBlock} {seg : Segment} {now : Instant}

theorem rxView_of_view (h : t'.view = t.view) : t'.rxView = t.rxView := congrArg View.rx h

theorem sndView_of_view (h : t'.view = t.view) : t'.sndView = t.sndView := congrArg View.snd h

theorem Tunes.refl (t : TcpControlBlock) : Tunes t t := ⟨rfl, rfl⟩

theorem Tunes.trans (h : Tunes t t') (h' : Tunes t' t'') : Tunes t t'' :=
  ⟨h'.view.trans h.view, h'.conduct.trans h.conduct⟩

theorem Tunes.pushes (h : Tunes t t') : Pushes t t' := ⟨rxView_of_view h.view, h.conduct⟩

theorem Pushes.trans (h : Pushes t t') (h' : Pushes t' t'') : Pushes t t'' :=
  ⟨h'.rxView.trans h.rxView, h'.conduct.trans h.conduct⟩

theorem Pushes.state (h : Pushes t t') : t'.state = t.state := congrArg RxView.state h.rxView

/-! ## What a segment can do -/

-- ECN, the timestamps and the estimates are kept in fields of their own
theorem noteEcn_only (t : TcpControlBlock) (seg : Segment) :
    ∃ echo, t.noteEcn seg = { t with ecn := { t.ecn with echoPending := echo } } := by
  unfold noteEcn
  split
  · exact ⟨t.ecn.echoPending, rfl⟩
  · exact ⟨_, rfl⟩

theorem onRxTimestamp_only {seq : SeqNum} {tsval : BitVec 32} {isSyn isRst : Bool}
    (h : t.onRxTimestamp now seq tsval isSyn isRst = some t') :
    ∃ recent last age, t' = { t with ts := { t.ts with
      tsRecent := recent, lastAckTsSeq := last, recentAge := age } } := by
  unfold onRxTimestamp at h
  split at h
  · cases h
    exact ⟨t.ts.tsRecent, t.ts.lastAckTsSeq, t.ts.recentAge, rfl⟩
  dsimp only at h
  split at h
  · cases h
  split at h
  · cases h
    exact ⟨_, _, _, rfl⟩
  cases h
  exact ⟨t.ts.tsRecent, t.ts.lastAckTsSeq, t.ts.recentAge, rfl⟩

/-- TS.Recent says nothing about the segment: it is a SYN, TS.Recent is too old to be trusted, or
there is none. -/
def pawsExempt (t : TcpControlBlock) (seg : Segment) (now : Instant) : Bool :=
  seg.flags.syn || pawsIdle < now - t.ts.recentAge || t.ts.tsRecent == 0

/-- The segment is older than the last one that was taken. -/
def pawsRejects (t : TcpControlBlock) (seg : Segment) (now : Instant) (tsval : BitVec 32) : Bool :=
  t.ts.enabled && !t.pawsExempt seg now && SeqNum.dist tsval t.ts.tsRecent < 0

theorem onRxTimestamp_eq (seg : Segment) (now : Instant) (tsval : BitVec 32) :
    t.onRxTimestamp now seg.seq tsval seg.flags.syn false =
      if t.pawsRejects seg now tsval then none
      else if t.ts.enabled && (0 ≤ SeqNum.dist seg.seq t.ts.lastAckTsSeq || seg.flags.syn) then
        some { t with ts := { t.ts with
          tsRecent := tsval, lastAckTsSeq := seg.seq, recentAge := now } }
      else some t := by
  cases hts : t.ts.enabled <;> simp [onRxTimestamp, hts, pawsRejects, pawsExempt, bne]

theorem updateRttEstimators_only {r : Duration} (h : t.updateRttEstimators r = some t') :
    ∃ rtt least, t' = { t with rtt := rtt, sack := { t.sack with rackMinRtt := least } } := by
  simp only [updateRttEstimators, map_eq_some_iff] at h
  obtain ⟨-, -, rfl⟩ := h
  exact ⟨_, _, rfl⟩

theorem sampleTimestamp_only {tsecr : BitVec 32} {low : Nat}
    (h : t.sampleTimestamp now tsecr low = some t') :
    ∃ rtt least, t' = { t with rtt := rtt, sack := { t.sack with rackMinRtt := least } } := by
  unfold sampleTimestamp at h
  dsimp only at h
  split at h
  · exact updateRttEstimators_only h
  cases h
  exact ⟨t.rtt, t.sack.rackMinRtt, rfl⟩

theorem synAckTimestamp_cases (h : t.synAckTimestamp seg now = some t') :
    t' = t ∨ ∃ stamp ts rtt least, findTimestamp seg.options = some stamp ∧ ts.enabled = true ∧
      t' = recomputeEffectiveMss
        { t with ts := ts, rtt := rtt, sack := { t.sack with rackMinRtt := least } } := by
  unfold synAckTimestamp at h
  split at h
  · cases h
    exact .inl rfl
  rename_i tsval tsecr hfind
  simp only [map_eq_some_iff] at h
  obtain ⟨t1, hs, rfl⟩ := h
  obtain ⟨rtt, least, rfl⟩ := sampleTimestamp_only hs
  cases hts : onRxTimestamp { t with ts := { t.ts with enabled := true } } now seg.seq tsval
      true false with
  | none => exact .inr ⟨_, _, rtt, least, hfind, rfl, rfl⟩
  | some t2 =>
    obtain ⟨recent, last, age, rfl⟩ := onRxTimestamp_only hts
    exact .inr ⟨_, _, rtt, least, hfind, rfl, rfl⟩

/-- The checks reset the connection, look at ECN only, or take a timestamp. -/
theorem checkSegment_cases {go : Bool} (h : t.checkSegment seg now = some (t', go)) :
    go = false ∧ t' = { t with state := .closed, lastError := some .connectionReset } ∨
      (∃ echo, t' = { t with ecn := { t.ecn with echoPending := echo } }) ∨
      go = true ∧ ∃ echo tsval tsecr t1,
        onRxTimestamp { t with ecn := { t.ecn with echoPending := echo } } now seg.seq tsval
          seg.flags.syn false = some t1 ∧
        t1.sampleTimestamp now tsecr 0 = some t' := by
  obtain ⟨echo, hecho⟩ := noteEcn_only t seg
  unfold checkSegment at h
  rw [hecho] at h
  split at h
  · cases h
    exact .inl ⟨rfl, rfl⟩
  split at h
  · cases h
    exact .inr (.inl ⟨t.ecn.echoPending, rfl⟩)
  dsimp only at h
  split at h
  · cases h
    exact .inr (.inl ⟨echo, rfl⟩)
  split at h
  · cases h
    exact .inr (.inl ⟨echo, rfl⟩)
  rename_i hts
  simp only [map_eq_some_iff, Prod.mk.injEq] at h
  obtain ⟨t2, hs, rfl, rfl⟩ := h
  exact .inr (.inr ⟨rfl, echo, _, _, _, hts, hs⟩)

/-- What the checks leave of a segment that is processed further. -/
theorem checkSegment_only (h : t.checkSegment seg now = some (t', true)) :
    ∃ echo recent last age rtt least, t' = { t with
      ecn := { t.ecn with echoPending := echo }
      ts := { t.ts with tsRecent := recent, lastAckTsSeq := last, recentAge := age }
      rtt := rtt
      sack := { t.sack with rackMinRtt := least } } := by
  rcases checkSegment_cases h with ⟨hgo, -⟩ | ⟨echo, rfl⟩ | ⟨-, echo, tsval, tsecr, t1, hts, hs⟩
  · cases hgo
  · exact ⟨echo, t.ts.tsRecent, t.ts.lastAckTsSeq, t.ts.recentAge, t.rtt, t.sack.rackMinRtt, rfl⟩
  obtain ⟨recent, last, age, rfl⟩ := onRxTimestamp_only hts
  obtain ⟨rtt, least, rfl⟩ := sampleTimestamp_only hs
  exact ⟨echo, recent, last, age, rtt, least, rfl⟩

variable {n : Nat} {plan plan' : Plan} {f : UnackedSegment → UnackedSegment} {ack : SeqNum}

/-- An old duplicate, a segment that the checks drop, and one that is processed. -/
theorem processDataDatagram_cases (h : t.processDataDatagram M seg now = some (t', n)) :
    (t.isOldDuplicate seg = true ∧ n = 0 ∧
        ∃ echo, t' = { t with ecn := { t.ecn with echoPending := echo } }) ∨
      t.isOldDuplicate seg = false ∧ (n = 0 ∧ t.checkSegment seg now = some (t', false) ∨
        ∃ t1 t2 plan, t.checkSegment seg now = some (t1, true) ∧
          t1.processChecked M seg now = some (t2, plan, n) ∧ t' = t2.carryOut plan now) := by
  unfold processDataDatagram at h
  split at h
  next hold =>
    cases h
    refine .inl ⟨hold, rfl, ?_⟩
    split
    · exact ⟨_, rfl⟩
    · exact ⟨t.ecn.echoPending, rfl⟩
  rename_i hnew
  refine .inr ⟨Bool.not_eq_true _ ▸ hnew, ?_⟩
  simp only [bind_eq_bind, bind_eq_some_iff, Prod.exists] at h
  obtain ⟨t1, go, hcheck, h⟩ := h
  cases go with
  | false =>
    cases h
    exact .inl ⟨rfl, hcheck⟩
  | true =>
    simp only [Bool.not_true, Bool.false_eq_true, if_false, bind_eq_some_iff,
      Prod.exists, some.injEq, Prod.mk.injEq] at h
    obtain ⟨t2, plan, n2, hchecked, rfl, rfl⟩ := h
    exact .inr ⟨t1, t2, plan, hcheck, hchecked, rfl⟩

theorem processChecked_cases (h : t.processChecked M seg now = some (t', plan, n)) :
    ∃ t1 plan1, t.processAck M seg now = some (t1, plan1) ∧
      (t1.receiveSegment seg now plan1 = some (t', plan, n) ∨ t' = t1 ∧ plan = plan1 ∧ n = 0) := by
  simp only [processChecked, bind_eq_some, Prod.exists] at h
  obtain ⟨t1, plan1, hack, h⟩ := h
  refine ⟨t1, plan1, hack, ?_⟩
  split at h
  · exact .inl h
  cases h
  exact .inr ⟨rfl, rfl, rfl⟩

theorem processAck_cases (h : t.processAck M seg now = some (t', plan)) :
    ∃ t1 reacted, t.eceReaction M seg now = some (t1, reacted) ∧ (t' = t1 ∨ ∃ plan1,
        t.isAcceptableAck seg.ack = true ∧ t1.snd.una.toNat < seg.ack.toNat ∧
          t1.ackAdvances M seg now plan1 = some (t', plan) ∨
        t1.ackDuplicates M seg now plan1 = some (t', plan)) := by
  simp only [processAck, bind_eq_some, Prod.exists] at h
  obtain ⟨t1, reacted, hece, h⟩ := h
  refine ⟨t1, reacted, hece, ?_⟩
  split at h
  · cases h
    exact .inl rfl
  rename_i hacc
  rw [Bool.not_eq_true, Bool.not_eq_false'] at hacc
  split at h
  next hadvances => exact .inr ⟨_, .inl ⟨hacc, hadvances, h⟩⟩
  split at h
  · exact .inr ⟨_, .inr h⟩
  · split at h <;> cases h <;> exact .inl rfl

theorem receiveSegment_cases (h : t.receiveSegment seg now plan = some (t', plan', n)) :
    t' = t ∧ n = 0 ∧ t.isSegmentAcceptable seg.seq seg.payload.length = false ∨
      ∃ t1 a, ((t.maybeUpdateSendWindow seg.seq seg.ack seg.window.toNat).noteArrival
          now).receivePayload seg = some (t1, a, n) ∧
        t' = ((if seg.flags.fin then t1.handleFinFlag now else t1).decideAck seg now).1 := by
  unfold receiveSegment at h
  split at h
  next hout =>
    cases h
    exact .inl ⟨rfl, rfl, by simpa using hout⟩
  · simp only [bind_eq_some, Prod.exists, some.injEq, Prod.mk.injEq] at h
    obtain ⟨t1, a, n1, h1, rfl, -, rfl⟩ := h
    exact .inr ⟨t1, a, h1, rfl⟩

/-! ## Marks -/

/-- Entries are marked one by one. -/
theorem map_core_map (hf : ∀ s, (f s).core = s.core)
    (q : List UnackedSegment) : (q.map f).map (·.core) = q.map (·.core) := by
  rw [List.map_map]
  exact List.map_congr_left fun s _ => hf s

theorem map_core_modify (hf : ∀ s, (f s).core = s.core)
    (q : List UnackedSegment) (i : Nat) : (q.modify i f).map (·.core) = q.map (·.core) := by
  induction q generalizing i with
  | nil => rw [modify_nil]
  | cons s q ih =>
    cases i with
    | zero => rw [modify_zero_cons, map_cons, map_cons, hf]
    | succ i => rw [modify_succ_cons, map_cons, map_cons, ih]

theorem core_mark (b : SackBlock) (s : UnackedSegment) : (b.mark s).core = s.core := by
  unfold SackBlock.mark
  split <;> rfl

theorem core_rackMark (xmitTs : Instant) (window : Duration) (s : UnackedSegment) :
    (rackMark xmitTs window s).core = s.core := by
  unfold rackMark
  split <;> rfl

theorem map_core_markLostAt (seq : SeqNum) (q : List UnackedSegment) :
    (markLostAt seq q).map (·.core) = q.map (·.core) := by
  induction q with
  | nil => rfl
  | cons s q ih =>
    unfold markLostAt
    split
    · rw [map_cons, map_cons]
      split <;> rfl
    · rw [map_cons, map_cons, ih]

theorem map_core_sackMarkLost (smss : Nat) (q : List UnackedSegment) :
    (sackMarkLost smss q).map (·.core) = q.map (·.core) := by
  unfold sackMarkLost
  generalize (q.filter fun s => !s.sacked).map (·.seq) = seqs
  induction seqs generalizing q with
  | nil => rfl
  | cons seq seqs ih =>
    rw [foldl_cons, ih]
    split
    · rfl
    · exact map_core_markLostAt seq q

/-! ## Loss recovery -/

@[simp] theorem view_sackDsackUndo : t.sackDsackUndo.view = t.view := by
  unfold sackDsackUndo
  split <;> rfl

@[simp] theorem view_sackTxApplyBlock (ack : SeqNum) (b : SackBlock) :
    (sackTxApplyBlock ack t b).view = t.view := by
  unfold sackTxApplyBlock
  split
  · exact view_sackDsackUndo
  · simp [view, rxView, sndView, negView, map_core_map (core_mark b)]

@[simp] theorem view_sackTxApply (ack : SeqNum) (blocks : List SackBlock) :
    (t.sackTxApply ack blocks).view = t.view := by
  unfold sackTxApply
  induction blocks generalizing t with
  | nil => rfl
  | cons b blocks ih => rw [foldl_cons, ih, view_sackTxApplyBlock]

@[simp] theorem enabled_rackNoteDelivery (s : SackState) (newest : Option Instant) :
    (s.rackNoteDelivery newest now).enabled = s.enabled := by
  unfold SackState.rackNoteDelivery
  split
  · split <;> rfl
  · rfl

@[simp] theorem enabled_rackUpdateReorderingWindow (s : SackState) :
    s.rackUpdateReorderingWindow.enabled = s.enabled := by
  unfold SackState.rackUpdateReorderingWindow
  split <;> rfl

@[simp] theorem view_rackDetect : (t.rackDetect now).view = t.view := by
  simp [rackDetect, view, rxView, sndView, negView, map_core_map (core_rackMark _ _),
    enabled_rackUpdateReorderingWindow, enabled_rackNoteDelivery]

@[simp] theorem view_frtoOnAck (isDup : Bool) : (t.frtoOnAck isDup).view = t.view := by
  unfold frtoOnAck
  repeat' split
  all_goals rfl

/-! ## The send path -/

theorem tunes_noteEcn : Tunes t (t.noteEcn seg) := by
  unfold noteEcn
  split <;> exact ⟨rfl, rfl⟩

theorem tunes_tlpArm : Tunes t (t.tlpArm now) := by
  unfold tlpArm
  split <;> exact ⟨rfl, rfl⟩

theorem tunes_applyOutgoingEcn (flags : Flags) (data : List UInt8) :
    Tunes t (t.applyOutgoingEcn flags data).1 := by
  unfold applyOutgoingEcn
  split
  · exact .refl t
  dsimp only
  split <;> exact ⟨rfl, rfl⟩

theorem tunes_modifySegment {i : Nat}
    (hf : ∀ s, (f s).core = s.core) : Tunes t (t.modifySegment i f) := by
  refine ⟨?_, rfl⟩
  simp [modifySegment, view, rxView, sndView, negView, map_core_modify hf]

theorem tunes_armEifel (cause : RetransmitCause) (i : Nat) : Tunes t (t.armEifel cause i now) := by
  unfold armEifel
  split
  · refine Tunes.trans ?_ (tunes_modifySegment fun _ => rfl)
    exact ⟨rfl, rfl⟩
  · exact .refl t

theorem tunes_retransmitMatching (cause : RetransmitCause) (partialAck : Option SeqNum) :
    Tunes t (t.retransmitMatching cause partialAck now) := by
  unfold retransmitMatching
  split
  · exact .refl t
  rename_i i _
  have hmark : Tunes t ((t.armEifel cause i now).modifySegment i fun s =>
      { s with xmitMstamp := now, retrans := true, lost := false }) :=
    (tunes_armEifel cause i).trans (tunes_modifySegment fun _ => rfl)
  dsimp only
  split
  · exact hmark.trans (tunes_applyOutgoingEcn _ _)
  · exact hmark

theorem tunes_noteAppLimited : Tunes t { t with cc := cwvNoteAppLimited t.cc now } := by
  unfold cwvNoteAppLimited
  split <;> exact ⟨rfl, rfl⟩

theorem tunes_sendBlocked (inFlight : Nat) : Tunes t (t.sendBlocked inFlight now) := by
  have hcc : Tunes t { t with
      cc := if inFlight < t.snd.wnd ∧ t.cc.cwnd ≤ inFlight then cwvNoteValidated t.cc
        else cwvNoteAppLimited t.cc now } := by
    split
    · unfold cwvNoteValidated
      split <;> exact ⟨rfl, rfl⟩
    · exact tunes_noteAppLimited
  unfold sendBlocked
  dsimp only
  split
  · exact hcc.trans ⟨rfl, rfl⟩
  · exact hcc

theorem tunes_armProbe (len : Nat) : Tunes t (t.armProbe len now) := by
  unfold armProbe
  split <;> exact ⟨rfl, rfl⟩

theorem tunes_noteSent (flightAfter : Nat) : Tunes t (t.noteSent flightAfter now) := by
  unfold noteSent cwvNoteValidated
  dsimp only
  split
  · split <;> exact ⟨rfl, rfl⟩
  · exact ⟨rfl, rfl⟩

theorem tunes_schedulePacing (sendLen : Nat) : Tunes t (t.schedulePacing sendLen now) := by
  unfold schedulePacing
  split <;> exact ⟨rfl, rfl⟩

theorem tunes_decideAck : Tunes t (t.decideAck seg now).1 := by
  unfold decideAck
  split
  · exact .refl t
  · split <;> exact ⟨rfl, rfl⟩

theorem pushes_enqueue (data : List UInt8) (flags : Flags) (len : Nat) :
    Pushes t (t.enqueue data flags len now) := ⟨rfl, rfl⟩

theorem pushes_sendSegment (inFlight sendLen : Nat) :
    Pushes t (t.sendSegment inFlight sendLen now) := by
  have hcarved : Pushes t { t with snd := { t.snd with
      sendBuffer := t.snd.sendBuffer.drop sendLen } } := ⟨rfl, rfl⟩
  exact ((hcarved.trans (((tunes_applyOutgoingEcn _ _).trans (tunes_armProbe _)).trans
    (tunes_noteSent _)).pushes).trans (pushes_enqueue _ _ _)).trans
    (tunes_tlpArm.trans (tunes_schedulePacing _)).pushes

theorem pushes_sendRound : Pushes t (t.sendRound now).1 := by
  unfold sendRound
  split
  · exact tunes_noteAppLimited.pushes.trans ⟨rfl, rfl⟩
  split
  · exact (Tunes.refl t).pushes
  have hpipe : Tunes t { t with cc := { t.cc with cwv := { t.cc.cwv with
      pipeMax := max t.cc.cwv.pipeMax t.flightSizeBytes } } } := ⟨rfl, rfl⟩
  dsimp only
  split
  · exact (hpipe.trans tunes_noteAppLimited).pushes
  split
  · exact (hpipe.trans (tunes_sendBlocked _)).pushes
  split
  · exact hpipe.pushes.trans ⟨rfl, rfl⟩
  refine Pushes.trans ?_ (pushes_sendSegment _ _)
  exact ⟨rfl, rfl⟩

theorem pushes_sendLoop (fuel : Nat) (t : TcpControlBlock) : Pushes t (sendLoop now fuel t) := by
  induction fuel generalizing t with
  | zero => exact (Tunes.refl t).pushes
  | succ fuel ih =>
    have hround : Pushes t (t.sendRound now).1 := pushes_sendRound
    unfold sendLoop
    split
    next t1 hsent =>
      rw [hsent] at hround
      exact hround.trans (ih t1)
    next t1 hsent =>
      rw [hsent] at hround
      exact hround

theorem pushes_processSendQueue : Pushes t (t.processSendQueue now) := pushes_sendLoop _ t

theorem pushes_carryOut (plan : Plan) : Pushes t (t.carryOut plan now) := by
  have hfast : Tunes t (if plan.fastRetransmit then
      t.retransmitMatching .fastRetransmit none now else t) := by
    split
    · exact tunes_retransmitMatching _ _
    · exact .refl t
  unfold carryOut
  refine hfast.pushes.trans ?_
  generalize (if plan.fastRetransmit then
    t.retransmitMatching .fastRetransmit none now else t) = t1
  cases plan.partialRetransmitAck with
  | none =>
    dsimp only
    split
    · exact pushes_processSendQueue
    · exact (Tunes.refl t1).pushes
  | some ack =>
    dsimp only
    split
    · exact (tunes_retransmitMatching _ _).pushes.trans pushes_processSendQueue
    · exact (tunes_retransmitMatching _ _).pushes

theorem pushes_sendData {data : List UInt8} (h : t.sendData data now = .ok t') : Pushes t t' := by
  unfold sendData at h
  split at h
  · cases h
  cases h
  refine Pushes.trans ?_ pushes_processSendQueue
  exact ⟨rfl, rfl⟩

theorem tunes_cancelProbe (seq : SeqNum) : Tunes t (t.cancelProbe seq) := by
  unfold cancelProbe
  split
  · split <;> exact ⟨rfl, rfl⟩
  · exact .refl t

/-! ## Checks and acknowledgements -/

theorem completeProbe_only (h : t.completeProbe ack now = some t') :
    ∃ rtt least, t' = { t with rtt := rtt, sack := { t.sack with rackMinRtt := least } } := by
  unfold completeProbe at h
  split at h
  · cases h
    exact ⟨t.rtt, t.sack.rackMinRtt, rfl⟩
  split at h
  · dsimp only at h
    split at h
    · obtain ⟨rtt, least, rfl⟩ := updateRttEstimators_only h
      exact ⟨rtt, least, rfl⟩
    cases h
    exact ⟨_, t.sack.rackMinRtt, rfl⟩
  · cases h
    exact ⟨t.rtt, t.sack.rackMinRtt, rfl⟩

theorem view_completeProbe (h : t.completeProbe ack now = some t') : t'.view = t.view := by
  obtain ⟨rtt, least, rfl⟩ := completeProbe_only h
  rfl

theorem view_checkSegment (h : t.checkSegment seg now = some (t', true)) :
    t'.view = t.view := by
  obtain ⟨echo, recent, last, age, rtt, least, rfl⟩ := checkSegment_only h
  rfl

/-- A segment that the checks drop changes at most the state. -/
theorem view_checkSegment_dropped (h : t.checkSegment seg now = some (t', false)) :
    t'.view = t.view ∨ t'.view = { t.view with rx := { t.rxView with state := .closed } } := by
  rcases checkSegment_cases h with ⟨-, rfl⟩ | ⟨echo, rfl⟩ | ⟨hgo, -⟩
  · exact .inr rfl
  · exact .inl rfl
  · cases hgo

theorem eceReaction_only {b : Bool} (h : t.eceReaction M seg now = some (t', b)) :
    ∃ cc ecn, t' = { t with cc := cc, ecn := ecn } := by
  unfold eceReaction at h
  split at h
  · simp only [map_eq_some_iff, Prod.mk.injEq] at h
    obtain ⟨cc, -, rfl, -⟩ := h
    exact ⟨cc, _, rfl⟩
  · cases h
    exact ⟨t.cc, t.ecn, rfl⟩

theorem view_eceReaction {b : Bool} (h : t.eceReaction M seg now = some (t', b)) :
    t'.view = t.view := by
  obtain ⟨cc, ecn, rfl⟩ := eceReaction_only h
  rfl

/-- Fast Recovery moves the window only, to ssthresh or three segments above it. -/
theorem ackInRecovery_cases {p : Option SeqNum} (h : t.ackInRecovery ack = some (t', p)) :
    ∃ cc : Congestion, t' = { t with cc := cc } ∧ (cc = t.cc ∨
      cc.algo = t.cc.algo ∧ cc.ssthresh = t.cc.ssthresh ∧ cc.cwv.cwndRaw = cc.cwnd ∧
        (cc.cwnd = t.cc.ssthresh ∨ cc.cwnd = t.cc.ssthresh + 3 * t.smss ∧ cc.cwnd < 2 ^ 32)) := by
  unfold ackInRecovery at h
  split at h
  · cases h
    exact ⟨t.cc, rfl, .inl rfl⟩
  split at h
  · cases h
    exact ⟨_, rfl, .inr ⟨rfl, rfl, rfl, .inl rfl⟩⟩
  simp only [map_eq_some_iff, Prod.mk.injEq, checked32_eq_some] at h
  obtain ⟨cwnd, ⟨hlt, rfl⟩, rfl, -⟩ := h
  exact ⟨_, rfl, .inr ⟨rfl, rfl, rfl, .inr ⟨rfl, hlt⟩⟩⟩

/-- An ACK that advances moves SND.UNA; the detectors of a spurious timeout may also move SND.NXT
and the window. -/
theorem advanceUna_only : ∃ cc nxt eifel frto, t.advanceUna seg = { t with
    cc := cc, snd := { t.snd with una := seg.ack, nxt := nxt }, eifel := eifel, frto := frto } := by
  unfold advanceUna eifelOnAcceptableAck frtoOnAck frtoDeclareSpurious
  dsimp only
  repeat' split
  all_goals exact ⟨_, _, _, _, rfl⟩

@[simp] theorem rxView_advanceUna : (t.advanceUna seg).rxView = t.rxView := by
  obtain ⟨cc, nxt, eifel, frto, h⟩ := t.advanceUna_only
  rw [h]
  rfl

@[simp] theorem view_detectLoss : (t.detectLoss seg now).view = t.view := by
  unfold detectLoss
  split
  · rfl
  rw [view_rackDetect]
  refine Eq.trans ?_ (view_sackTxApply seg.ack (parseSackBlocks seg.options))
  simp [view, rxView, sndView, negView, map_core_sackMarkLost]

theorem view_enterRecovery (h : t.enterRecovery M now = some t') : t'.view = t.view := by
  unfold enterRecovery at h
  simp only [map_eq_some_iff] at h
  obtain ⟨cc, -, rfl⟩ := h
  split <;> rfl

theorem view_recoverIfLost {b : Bool} (h : t.recoverIfLost M now = some (t', b)) :
    t'.view = t.view := by
  unfold recoverIfLost at h
  split at h
  · simp only [map_eq_some_iff, Prod.mk.injEq] at h
    obtain ⟨t1, h1, rfl, -⟩ := h
    exact view_enterRecovery h1
  · cases h
    rfl

@[simp] theorem rxView_drainRetransmissionQueue (ack : SeqNum) :
    (t.drainRetransmissionQueue ack).rxView = t.rxView := rfl

/-- After SND.UNA has moved, only the acknowledged entries leave the queue, and the state follows
the acknowledgement of a FIN. -/
theorem ackAdvances_cases (h : t.ackAdvances M seg now plan = some (t', plan')) :
    ∃ cc, ∃ t1 : TcpControlBlock, t1.view = (advanceUna { t with cc := cc } seg).view ∧
      (t' = (t1.drainRetransmissionQueue seg.ack).tlpArm now ∨
        t' = ((t1.drainRetransmissionQueue seg.ack).tlpArm now).finAcked t.state now) := by
  simp only [ackAdvances, bind_eq_some, Prod.exists, some.injEq, Prod.mk.injEq] at h
  obtain ⟨t1, p, h1, t2, h2, t3, lost, h3, rfl, -⟩ := h
  obtain ⟨cc, rfl, -⟩ := ackInRecovery_cases h1
  have hgrow : (t2.growWindow M (seg.ack - t.snd.una).toNat now).view = t2.view := rfl
  refine ⟨cc, t3, ?_, ?_⟩
  · rw [view_recoverIfLost h3, view_detectLoss, hgrow, view_completeProbe h2]
  split
  · exact .inr rfl
  · exact .inl rfl

theorem rxView_ackAdvances (h : t.ackAdvances M seg now plan = some (t', plan')) :
    t'.rxView = t.rxView ∨ ∃ t1 : TcpControlBlock, t1.rxView = t.rxView ∧
      t' = t1.finAcked t.state now := by
  obtain ⟨cc, t1, hview, h⟩ := ackAdvances_cases h
  have hrx : ((t1.drainRetransmissionQueue seg.ack).tlpArm now).rxView = t.rxView := by
    rw [rxView_of_view tunes_tlpArm.view, rxView_drainRetransmissionQueue, rxView_of_view hview,
      rxView_advanceUna]
    rfl
  rcases h with rfl | rfl
  · exact .inl hrx
  · exact .inr ⟨_, hrx, rfl⟩

@[simp] theorem view_countDuplicate (count : Nat) :
    (t.countDuplicate seg count now).view = t.view := by
  unfold countDuplicate
  rw [view_detectLoss]
  split
  · exact view_frtoOnAck _
  · rfl

theorem view_reactToDuplicate
    (h : t.reactToDuplicate M now plan = some (t', plan')) : t'.view = t.view := by
  unfold reactToDuplicate at h
  dsimp only at h
  split at h
  · simp only [map_eq_some_iff, Prod.mk.injEq] at h
    obtain ⟨t1, h1, rfl, -⟩ := h
    exact view_enterRecovery h1
  · split at h <;> cases h <;> rfl

theorem view_ackDuplicates
    (h : t.ackDuplicates M seg now plan = some (t', plan')) : t'.view = t.view := by
  simp only [ackDuplicates, bind_eq_some] at h
  obtain ⟨count, -, h⟩ := h
  rw [view_reactToDuplicate h, view_countDuplicate]

/-- **The acknowledgement part keeps the receiver**, up to the state an acknowledged FIN leads
to. -/
theorem rxView_processAck (h : t.processAck M seg now = some (t', plan)) :
    t'.rxView = t.rxView ∨ ∃ t1 : TcpControlBlock, t1.rxView = t.rxView ∧
      t' = t1.finAcked t.state now := by
  obtain ⟨t1, reacted, h1, h⟩ := processAck_cases h
  have hview1 := rxView_of_view (view_eceReaction h1)
  have hstate1 : t1.state = t.state := congrArg RxView.state hview1
  rw [← hview1, ← hstate1]
  rcases h with rfl | ⟨plan1, ⟨-, -, h⟩ | h⟩
  · exact .inl rfl
  · exact rxView_ackAdvances h
  · exact .inl (rxView_of_view (view_ackDuplicates h))

theorem rxView_processAck_established (hstate : t.state = .established)
    (h : t.processAck M seg now = some (t', plan)) : t'.rxView = t.rxView := by
  rcases rxView_processAck h with hv | ⟨t1, hv, rfl⟩
  · exact hv
  rw [hstate]
  exact hv

/-! ## What a segment does to the receiver -/

theorem isSegmentAcceptable_congr (h : t'.rxView = t.rxView) (seq : SeqNum) (len : Nat) :
    t'.isSegmentAcceptable seq len = t.isSegmentAcceptable seq len := by
  obtain ⟨hrx, hwnd, -⟩ := RxView.mk.inj h
  simp [isSegmentAcceptable, isInReceiveWindow, hrx, hwnd]

theorem rxView_updateRcvWndFromBuffer (h : t.updateRcvWndFromBuffer = some t') :
    ∃ free, t.rx.receiveBuffer.freeSpace = some free ∧
      t'.rxView = { t.rxView with rcvWnd := min (min free t.maxRcvWnd) 65535 } := by
  simp only [updateRcvWndFromBuffer, effectiveRcvWnd, Option.map_map, Option.map_eq_some_iff] at h
  obtain ⟨free, hfree, rfl⟩ := h
  exact ⟨free, hfree, rfl⟩

theorem receivePayload_received {a : Bool}
    (h : t.receivePayload seg = some (t', a, n)) : Received t.rxView seg t'.rxView n := by
  unfold receivePayload at h
  split at h
  next hempty =>
    cases h
    refine ⟨t.rx, t.rcvWnd, .ignored (.inl (isEmpty_iff.mp hempty)), ?_, .inl ⟨rfl, rfl⟩⟩
    split <;> rfl
  rename_i hne
  rw [Bool.not_eq_true, isEmpty_eq_false_iff] at hne
  split at h
  next hseq =>
    simp only [map_eq_some_iff, Prod.exists, Prod.mk.injEq] at h
    obtain ⟨t1, n1, h1, rfl, -, rfl⟩ := h
    unfold receiveOutOfOrder at h1
    split at h1
    next hsack =>
      cases h1
      simp only [Bool.not_eq_true'] at hsack
      exact ⟨t.rx, t.rcvWnd, .ignored (.inr ⟨hsack, hseq⟩), rfl, .inl ⟨rfl, rfl⟩⟩
    rename_i hsack
    simp only [Bool.not_eq_true', Bool.not_eq_false] at hsack
    simp only [bind_eq_some, Prod.exists, some.injEq, Prod.mk.injEq] at h1
    obtain ⟨b, n2, hw, rx, hrx, t2, hupd, rfl, rfl⟩ := h1
    obtain ⟨free, hfree, hview⟩ := rxView_updateRcvWndFromBuffer hupd
    exact ⟨rx, _, .outOfOrder hsack hseq hne hw hrx, hview, .inr ⟨free, hfree, rfl⟩⟩
  next hseq =>
    rw [ne_eq, not_not] at hseq
    simp only [bind_eq_bind, bind_eq_some_iff, Prod.exists] at h
    obtain ⟨b, n1, hs, h⟩ := h
    split at h
    next h0 =>
      subst h0
      cases h
      exact ⟨_, t.rcvWnd, .refused hseq hne hs, rfl, .inl ⟨rfl, rfl⟩⟩
    rename_i h0
    simp only [bind_eq_some_iff, some.injEq, Prod.mk.injEq] at h
    obtain ⟨t1, hupd, rfl, -, rfl⟩ := h
    obtain ⟨free, hfree, hview⟩ := rxView_updateRcvWndFromBuffer hupd
    exact ⟨_, _, .inOrder hseq hne h0 hs, hview, .inr ⟨free, hfree, rfl⟩⟩

theorem rxView_maybeUpdateSendWindow (seq ack : SeqNum) (wnd : Nat) :
    (t.maybeUpdateSendWindow seq ack wnd).rxView = t.rxView := by
  unfold maybeUpdateSendWindow
  dsimp only
  split <;> rfl

theorem rxView_handleFinFlag (hstate : t.state = .established) (fin : Bool) :
    (if fin then t.handleFinFlag now else t).rxView = t.rxView.takeFin fin := by
  cases fin with
  | false => rfl
  | true =>
    rw [if_pos rfl, RxView.takeFin, if_pos rfl]
    unfold handleFinFlag
    simp only [hstate]
    rfl

/-- The receive part of an established connection, for a segment that passes the window test. -/
theorem receiveSegment_received (hstate : t.state = .established)
    (hacc : t.isSegmentAcceptable seg.seq seg.payload.length = true)
    (h : t.receiveSegment seg now plan = some (t', plan', n)) :
    ∃ v, Received t.rxView seg v n ∧ t'.rxView = v.takeFin seg.flags.fin := by
  rcases receiveSegment_cases h with ⟨-, -, hout⟩ | ⟨t1, a, h1, rfl⟩
  · cases hacc.symm.trans hout
  have hview : ((t.maybeUpdateSendWindow seg.seq seg.ack seg.window.toNat).noteArrival now).rxView =
      t.rxView := rxView_maybeUpdateSendWindow _ _ _
  have hrec := receivePayload_received h1
  rw [hview] at hrec
  refine ⟨t1.rxView, hrec, ?_⟩
  rw [rxView_of_view tunes_decideAck.view]
  apply rxView_handleFinFlag
  obtain ⟨rx, wnd, -, hv, -⟩ := hrec
  exact (congrArg RxView.state hv).trans hstate

/-- **What a segment does to the receive side** of an established connection: it is dropped, or
resets the connection, or passes the window test and is received. -/
theorem processDataDatagram_received (hstate : t.state = .established)
    (h : t.processDataDatagram M seg now = some (t', n)) :
    n = 0 ∧ (t'.rxView = t.rxView ∨ t'.rxView = { t.rxView with state := .closed }) ∨
      t.isSegmentAcceptable seg.seq seg.payload.length = true ∧
        ∃ v, Received t.rxView seg v n ∧ t'.rxView = v.takeFin seg.flags.fin := by
  rcases processDataDatagram_cases h with ⟨-, rfl, echo, rfl⟩ | ⟨-, ⟨rfl, hcheck⟩ |
    ⟨t1, t2, plan, hcheck, hchecked, rfl⟩⟩
  · exact .inl ⟨rfl, .inl rfl⟩
  · exact .inl ⟨rfl, (view_checkSegment_dropped hcheck).imp rxView_of_view (congrArg View.rx)⟩
  have hview1 := rxView_of_view (view_checkSegment hcheck)
  rw [(pushes_carryOut plan).rxView]
  obtain ⟨t3, plan3, hack, hchecked⟩ := processChecked_cases hchecked
  have hstate1 : t1.state = .established := (congrArg RxView.state hview1).trans hstate
  have hview3 : t3.rxView = t.rxView := (rxView_processAck_established hstate1 hack).trans hview1
  have hstate3 : t3.state = .established := (congrArg RxView.state hview3).trans hstate
  rcases hchecked with hchecked | ⟨rfl, -, rfl⟩
  · by_cases hacc : t3.isSegmentAcceptable seg.seq seg.payload.length = true
    · obtain ⟨v, hrec, hv⟩ := receiveSegment_received hstate3 hacc hchecked
      rw [hview3] at hrec
      rw [isSegmentAcceptable_congr hview3] at hacc
      exact .inr ⟨hacc, v, hrec, hv⟩
    unfold receiveSegment at hchecked
    rw [Bool.not_eq_true] at hacc
    rw [hacc, Bool.not_false, if_pos rfl] at hchecked
    cases hchecked
    exact .inl ⟨rfl, .inl hview3⟩
  · exact .inl ⟨rfl, .inl hview3⟩

/-- **What a read does to the receive side.** A read that returns nothing leaves the window. -/
theorem receiveSync_read {len : Nat} {result : ReceiveResult}
    (h : t.receiveSync len = some (t', result)) :
    t' = t ∧ result.bytes = [] ∨
      ∃ b wnd, t.rx.receiveBuffer.read len = some (b, result.bytes) ∧
        t'.rxView = { t.rxView with rx := { t.rx with receiveBuffer := b }, rcvWnd := wnd } ∧
        (wnd = t.rcvWnd ∧ result.bytes = [] ∨
          ∃ free, b.freeSpace = some free ∧ wnd = min (min free t.maxRcvWnd) 65535) := by
  unfold receiveSync at h
  split at h
  · cases h
    exact .inl ⟨rfl, rfl⟩
  simp only [Option.bind_eq_bind, Option.bind_eq_some_iff, Prod.exists] at h
  obtain ⟨b, out, hread, h⟩ := h
  right
  split at h
  next hempty =>
    cases h
    rw [List.isEmpty_iff] at hempty
    have hbytes : ∀ P : Prop, [Decidable P] →
        (if P then ReceiveResult.eof else .blocked).bytes = [] := by
      intro P _
      split <;> rfl
    rw [hempty] at hread
    rw [hbytes]
    exact ⟨b, t.rcvWnd, hread, rfl, .inl ⟨rfl, rfl⟩⟩
  · simp only [Option.bind_eq_some_iff, Option.some.injEq, Prod.mk.injEq] at h
    obtain ⟨t1, hupd, rfl, rfl⟩ := h
    obtain ⟨free, hfree, hview⟩ := rxView_updateRcvWndFromBuffer hupd
    exact ⟨b, _, hread, hview, .inr ⟨free, hfree, rfl⟩⟩

end TcpControlBlock

/-! ## How much is stored -/

section Length

variable {sack : Bool} {r r' : Receiver UInt8} {seg : Segment} {n : Nat}

variable {b : TcpReceiveBuffer UInt8}

theorem writeAt_behind {rcvNxt seq : SeqNum} (h : SeqNum.dist seq rcvNxt < 0) (buf : List UInt8) :
    b.writeAt rcvNxt seq buf = some (b, 0) := by
  unfold TcpReceiveBuffer.writeAt
  rw [if_pos h, ite_self]

theorem writeAt_le_length {b b' : TcpReceiveBuffer UInt8} {rcvNxt seq : SeqNum} {buf : List UInt8}
    (h : b.writeAt rcvNxt seq buf = some (b', n)) : n ≤ buf.length := by
  unfold TcpReceiveBuffer.writeAt at h
  split at h
  · cases h
    exact Nat.zero_le _
  split at h
  · cases h
    exact Nat.zero_le _
  dsimp only at h
  split at h
  · cases h
    exact Nat.zero_le _
  simp only [map_eq_some_iff, Prod.mk.injEq] at h
  obtain ⟨_, -, -, rfl⟩ := h
  exact Nat.min_le_left _ _

theorem storeInOrder_le_length
    (h : r.storeInOrder sack seg = some (b, n)) : n ≤ seg.payload.length := by
  unfold Receiver.storeInOrder at h
  split at h
  · exact writeAt_le_length h
  · simp only [TcpReceiveBuffer.write, bind_eq_bind, bind_eq_some_iff] at h
    obtain ⟨free, -, h⟩ := h
    split at h
    · cases h
      exact Nat.zero_le _
    simp only [bind_eq_some_iff, some.injEq, Prod.mk.injEq] at h
    obtain ⟨_, -, -, rfl⟩ := h
    exact Nat.min_le_left _ _

theorem Stored.le_length (h : Stored sack r seg r' n) : n ≤ seg.payload.length := by
  cases h with
  | ignored _ => exact Nat.zero_le _
  | outOfOrder _ _ _ hwrite _ => exact writeAt_le_length hwrite
  | refused _ _ _ => exact Nat.zero_le _
  | inOrder _ _ _ hstore => exact storeInOrder_le_length hstore

end Length
end Moose.Tcp
