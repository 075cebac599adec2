import Moose.Tcp.Timer

/-!
# What steers the sender

The windows of congestion control, the segment size, the timestamps, and the snapshots from which a
spurious recovery or timeout is undone. Few functions of the driver change them. `Change` has one
constructor for each of those, and every step of a connection is a run of such changes
(`Endpoint.step_changes`): what all of them keep, every connection keeps.
-/

set_option autoImplicit false

namespace Moose.Tcp

open Option Lib TcpControlBlock

theorem SackState.undo_rackNoteDelivery (s : SackState) (newest : Option Instant) (now : Instant) :
    (s.rackNoteDelivery newest now).undo = s.undo := by
  unfold rackNoteDelivery
  split
  · split <;> rfl
  · rfl

theorem SackState.undo_rackUpdateReorderingWindow (s : SackState) :
    s.rackUpdateReorderingWindow.undo = s.undo := by
  unfold rackUpdateReorderingWindow
  split <;> rfl

inductive Change where
  /-- a step to a block with the same steering -/
  | other (next : TcpControlBlock)
  | timestamp (now : Instant) (seq : SeqNum) (tsval : BitVec 32) (syn : Bool)
  | grow (bytesAcked : Nat) (now : Instant)
  | congestion (now : Instant)
  | recoveryAck (ack : SeqNum)
  | inflate
  | snapshot
  | dsackUndo
  | timeout (seg : UnackedSegment) (now : Instant)
  | eifelAck (tsecr : Option (BitVec 32)) (ece : Bool)
  | frtoAck (isDup : Bool)
  | abort (error : TcpError)

/-- What the acknowledgement of a segment can do. -/
def Change.ofAck : Change → Bool
  | .timestamp _ _ _ _ | .timeout _ _ | .abort _ => false
  | _ => true

/-- Everything the driver can do. -/
def Change.any : Change → Bool := fun _ => true

namespace TcpControlBlock

/-- A step that steers nothing. -/
structure Quiet (t t' : TcpControlBlock) : Prop where
  steering : t'.steering = t.steering

/-- A quiet step that settles nothing anew either. -/
structure Steady (t t' : TcpControlBlock) : Prop where
  conduct : t'.conduct = t.conduct

/-- A step of the send path or of a timer: it does not touch the receiver. -/
structure Sends (t t' : TcpControlBlock) : Prop extends Steady t t' where
  rx : t'.rx = t.rx

/-- A step of the receive path: it does not touch the sender. -/
structure Receives (t t' : TcpControlBlock) : Prop extends Steady t t' where
  sndView : t'.sndView = t.sndView

/-- A step of the timer thread: it touches neither, and may only close. -/
structure Ticks (t t' : TcpControlBlock) : Prop where
  conduct : t'.conduct = t.conduct
  rx : t'.rx = t.rx
  sndView : t'.sndView = t.sndView
  state : t'.state = t.state ∨ t'.state = .closed

instance (t t' : TcpControlBlock) : Decidable (Quiet t t') :=
  decidable_of_iff (t'.steering = t.steering) ⟨.mk, (·.steering)⟩

/-- A further duplicate in Fast Recovery. -/
def inflate (t : TcpControlBlock) : TcpControlBlock :=
  { t with cc := { t.cc with
    cwnd := satAdd32 t.cc.cwnd t.smss
    cwv := { t.cc.cwv with cwndRaw := satAdd32 t.cc.cwv.cwndRaw t.smss } } }

def change (M : CubicMath) (t : TcpControlBlock) : Change → Option TcpControlBlock
  | .other next => if Quiet t next then some next else none
  | .timestamp now seq tsval syn => t.onRxTimestamp now seq tsval syn false
  | .grow bytesAcked now => some (t.growWindow M bytesAcked now)
  | .congestion now => (onCongestionEvent M now t).map fun cc => { t with cc := cc }
  | .recoveryAck ack => (t.ackInRecovery ack).map (·.1)
  | .inflate => some t.inflate
  | .snapshot => some t.sackEnterRecovery
  | .dsackUndo => some t.sackDsackUndo
  | .timeout seg now => some (t.onRto seg now)
  | .eifelAck tsecr ece => some (t.eifelOnAcceptableAck tsecr ece)
  | .frtoAck isDup => some (t.frtoOnAck isDup)
  | .abort error => some (t.abortConnection error)

/-- The machine of the changes. It puts nothing out. -/
def changeStep (M : CubicMath) (t : TcpControlBlock) (c : Change) :
    Option (TcpControlBlock × Unit) :=
  (t.change M c).map (·, ())

/-- A run of changes leads from one block to the other. Apart from those that steer nothing, they
are of the given kinds. -/
def Moves (M : CubicMath) (kinds : Change → Bool) (t t' : TcpControlBlock) : Prop :=
  ∃ cs os, run (changeStep M) t cs = some (t', os) ∧
    ∀ c ∈ cs, (∃ next, c = .other next) ∨ kinds c = true

variable {M : CubicMath} {kinds : Change → Bool} {t t' t'' : TcpControlBlock} {seg : Segment}
  {now : Instant}

theorem Quiet.refl (t : TcpControlBlock) : Quiet t t := ⟨rfl⟩

theorem Quiet.trans (h : Quiet t t') (h' : Quiet t' t'') : Quiet t t'' :=
  ⟨h'.steering.trans h.steering⟩

theorem Steady.quiet (h : Steady t t') : Quiet t t' := ⟨congrArg Prod.fst h.conduct⟩

theorem Receives.quiet (h : Receives t t') : Quiet t t' := h.toSteady.quiet

theorem Steady.refl (t : TcpControlBlock) : Steady t t := ⟨rfl⟩

theorem Steady.trans (h : Steady t t') (h' : Steady t' t'') : Steady t t'' :=
  ⟨h'.conduct.trans h.conduct⟩

theorem Sends.quiet (h : Sends t t') : Quiet t t' := h.toSteady.quiet

theorem Receives.refl (t : TcpControlBlock) : Receives t t := ⟨.refl t, rfl⟩

theorem Sends.refl (t : TcpControlBlock) : Sends t t := ⟨.refl t, rfl⟩

theorem Sends.trans (h : Sends t t') (h' : Sends t' t'') : Sends t t'' :=
  ⟨h.toSteady.trans h'.toSteady, h'.rx.trans h.rx⟩

theorem Pushes.sends (h : Pushes t t') : Sends t t' :=
  ⟨⟨h.conduct⟩, congrArg RxView.rx h.rxView⟩

theorem Tunes.sends (h : Tunes t t') : Sends t t' := h.pushes.sends

theorem Tunes.ticks (h : Tunes t t') : Ticks t t' :=
  ⟨h.conduct, h.sends.rx, sndView_of_view h.view, .inl h.pushes.state⟩

theorem Ticks.trans (h : Ticks t t') (h' : Ticks t' t'') : Ticks t t'' := by
  refine ⟨h'.conduct.trans h.conduct, h'.rx.trans h.rx, h'.sndView.trans h.sndView, ?_⟩
  rcases h'.state with hs | hs
  · rw [hs]
    exact h.state
  · exact .inr hs

theorem Ticks.sends (h : Ticks t t') : Sends t t' := ⟨⟨h.conduct⟩, h.rx⟩

theorem change_other {next : TcpControlBlock} :
    t.change M (.other next) = some t' ↔ Quiet t next ∧ next = t' := by
  simp [change]

/-- Apart from F-RTO, acknowledgements change the congestion record, the SACK record, the state of
Eifel and SND.NXT only. -/
theorem change_ofAck {c : Change} (hc : c.ofAck = true) (h : t.change M c = some t') :
    Quiet t t' ∨ (∃ isDup, t' = t.frtoOnAck isDup) ∨
      ∃ cc sack eifel snd, t' = { t with cc := cc, sack := sack, eifel := eifel, snd := snd } := by
  cases c with
  | other next =>
    obtain ⟨hq, rfl⟩ := change_other.mp h
    exact .inl hq
  | frtoAck isDup =>
    cases h
    exact .inr (.inl ⟨isDup, rfl⟩)
  | congestion now =>
    obtain ⟨cc, -, rfl⟩ := map_eq_some_iff.mp h
    exact .inr (.inr ⟨cc, t.sack, t.eifel, t.snd, rfl⟩)
  | recoveryAck ack =>
    obtain ⟨⟨t1, p⟩, h1, rfl⟩ := map_eq_some_iff.mp h
    obtain ⟨cc, rfl, -⟩ := ackInRecovery_cases h1
    exact .inr (.inr ⟨cc, t.sack, t.eifel, t.snd, rfl⟩)
  | grow | inflate =>
    cases h
    exact .inr (.inr ⟨_, t.sack, t.eifel, t.snd, rfl⟩)
  | snapshot =>
    cases h
    exact .inr (.inr ⟨t.cc, _, t.eifel, t.snd, rfl⟩)
  | dsackUndo =>
    cases h
    unfold sackDsackUndo
    split <;> exact .inr (.inr ⟨_, _, t.eifel, t.snd, rfl⟩)
  | eifelAck tsecr ece =>
    cases h
    unfold eifelOnAcceptableAck
    split
    · exact .inl (.refl t)
    · split <;> exact .inr (.inr ⟨_, t.sack, _, _, rfl⟩)
  | timestamp now seq tsval syn => cases hc
  | timeout s now => cases hc
  | abort e => cases hc

theorem Moves.refl (t : TcpControlBlock) : Moves M kinds t t :=
  ⟨[], [], rfl, fun _ hc => absurd hc List.not_mem_nil⟩

theorem Moves.trans (h : Moves M kinds t t') (h' : Moves M kinds t' t'') : Moves M kinds t t'' := by
  obtain ⟨cs, os, hrun, hcs⟩ := h
  obtain ⟨cs', os', hrun', hcs'⟩ := h'
  refine ⟨cs ++ cs', os ++ os', run_append hrun hrun', fun c hc => ?_⟩
  rcases List.mem_append.mp hc with hc | hc
  · exact hcs c hc
  · exact hcs' c hc

theorem Moves.mono {kinds' : Change → Bool} (h : Moves M kinds t t')
    (hkinds : ∀ c, kinds c = true → kinds' c = true) : Moves M kinds' t t' := by
  obtain ⟨cs, os, hrun, hcs⟩ := h
  exact ⟨cs, os, hrun, fun c hc => (hcs c hc).imp id (hkinds c)⟩

theorem moves_single {c : Change} (hc : (∃ next, c = .other next) ∨ kinds c = true)
    (h : t.change M c = some t') : Moves M kinds t t' := by
  have hstep : changeStep M t c = some (t', ()) := by rw [changeStep, h, map_some]
  refine ⟨[c], [()], run_cons hstep rfl, fun d hd => ?_⟩
  rwa [List.mem_singleton.mp hd]

theorem Moves.of_change (c : Change) (hc : kinds c = true) (h : t.change M c = some t') :
    Moves M kinds t t' :=
  moves_single (.inr hc) h

theorem Quiet.moves (h : Quiet t t') : Moves M kinds t t' :=
  moves_single (.inl ⟨t', rfl⟩) (if_pos h)

/-- What quiet steps and changes of the given kinds keep, a run of them keeps. -/
theorem Moves.induct {P : TcpControlBlock → Prop} (h : Moves M kinds t t')
    (hquiet : ∀ t t', Quiet t t' → P t → P t')
    (hkinds : ∀ t c t', kinds c = true → t.change M c = some t' → P t → P t') (ht : P t) :
    P t' := by
  obtain ⟨cs, os, hrun, hcs⟩ := h
  refine run_forall (fun t c t' _ hP hc hstep => ?_) ht (guarded_of_mem hcs t) hrun
  simp only [changeStep, map_eq_some_iff, Prod.mk.injEq] at hstep
  obtain ⟨t1, hchange, rfl, -⟩ := hstep
  rcases hc with ⟨next, rfl⟩ | hc
  · obtain ⟨hq, rfl⟩ := change_other.mp hchange
    exact hquiet t next hq hP
  · exact hkinds t c t1 hc hchange hP

theorem Moves.quiet (h : Moves M kinds t t') (h' : Quiet t' t'') : Moves M kinds t t'' :=
  h.trans h'.moves

/-! ## Estimates -/

theorem quiet_sampleTimestamp {tsecr : BitVec 32} {low : Nat}
    (h : t.sampleTimestamp now tsecr low = some t') : Quiet t t' := by
  obtain ⟨rtt, least, rfl⟩ := sampleTimestamp_only h
  exact ⟨rfl⟩

theorem quiet_completeProbe {ack : SeqNum} (h : t.completeProbe ack now = some t') :
    Quiet t t' := by
  obtain ⟨rtt, least, rfl⟩ := completeProbe_only h
  exact ⟨rfl⟩

theorem quiet_rackDetect : Quiet t (t.rackDetect now) := by
  refine ⟨?_⟩
  simp [rackDetect, steering, SackState.undo_rackUpdateReorderingWindow,
    SackState.undo_rackNoteDelivery]

/-! ## The send path -/

theorem sends_closeConnection : Sends t (t.closeConnection now) := by
  have hfin : Sends t ((t.applyOutgoingEcn { fin := true, ack := true } []).1.enqueue []
      (t.applyOutgoingEcn { fin := true, ack := true } []).2 1 now) :=
    (tunes_applyOutgoingEcn _ _).sends.trans (pushes_enqueue _ _ _).sends
  unfold closeConnection
  split
  · exact ⟨⟨hfin.conduct⟩, hfin.rx⟩
  · exact ⟨⟨hfin.conduct⟩, hfin.rx⟩
  · exact ⟨⟨hfin.conduct⟩, hfin.rx⟩
  · exact .refl t

/-! ## The receive path -/

theorem receives_updateRcvWndFromBuffer (h : t.updateRcvWndFromBuffer = some t') :
    Receives t t' := by
  simp only [updateRcvWndFromBuffer, map_eq_some_iff] at h
  obtain ⟨-, -, rfl⟩ := h
  exact ⟨⟨rfl⟩, rfl⟩

theorem receives_receivePayload {a : Bool} {n : Nat} (h : t.receivePayload seg = some (t', a, n)) :
    Receives t t' := by
  unfold receivePayload at h
  split at h
  · cases h
    split <;> exact ⟨⟨rfl⟩, rfl⟩
  split at h
  · simp only [map_eq_some_iff, Prod.mk.injEq, Prod.exists] at h
    obtain ⟨t1, n1, hstored, rfl, -, -⟩ := h
    unfold receiveOutOfOrder at hstored
    split at hstored
    · cases hstored
      exact .refl t
    simp only [bind_eq_some, some.injEq, Prod.mk.injEq] at hstored
    obtain ⟨-, -, rx, -, t1, hupd, rfl, -⟩ := hstored
    have hwnd := receives_updateRcvWndFromBuffer hupd
    exact ⟨⟨hwnd.conduct⟩, hwnd.sndView⟩
  simp only [bind_eq_bind, bind_eq_some_iff, Prod.exists] at h
  obtain ⟨b, n1, -, h⟩ := h
  split at h
  · cases h
    exact ⟨⟨rfl⟩, rfl⟩
  simp only [bind_eq_some_iff, some.injEq, Prod.mk.injEq] at h
  obtain ⟨t1, hupd, rfl, -, -⟩ := h
  have hwnd := receives_updateRcvWndFromBuffer hupd
  exact ⟨⟨hwnd.conduct⟩, hwnd.sndView⟩

theorem receives_handleFinFlag : Receives t (t.handleFinFlag now) := by
  unfold handleFinFlag
  dsimp only
  split
  · exact ⟨⟨rfl⟩, rfl⟩
  · exact ⟨⟨rfl⟩, rfl⟩
  · exact ⟨⟨rfl⟩, rfl⟩
  · exact ⟨⟨rfl⟩, rfl⟩

theorem quiet_receiveSegment {plan plan' : Plan} {n : Nat}
    (h : t.receiveSegment seg now plan = some (t', plan', n)) : Quiet t t' := by
  rcases receiveSegment_cases h with ⟨rfl, -⟩ | ⟨t1, a, hpayload, rfl⟩
  · exact .refl t'
  have harrived : Quiet t
      ((t.maybeUpdateSendWindow seg.seq seg.ack seg.window.toNat).noteArrival now) := by
    unfold maybeUpdateSendWindow
    dsimp only
    split <;> exact ⟨rfl⟩
  refine (harrived.trans (receives_receivePayload hpayload).quiet).trans
    (Quiet.trans ?_ tunes_decideAck.sends.quiet)
  split
  · exact receives_handleFinFlag.quiet
  · exact .refl t1

theorem sends_drainRetransmissionQueue (ack : SeqNum) :
    Sends t (t.drainRetransmissionQueue ack) := ⟨⟨rfl⟩, rfl⟩

theorem sends_finAcked (prior : TcpState) : Sends t (t.finAcked prior now) := by
  unfold finAcked
  split
  · exact ⟨⟨rfl⟩, rfl⟩
  · exact ⟨⟨rfl⟩, rfl⟩
  · exact ⟨⟨rfl⟩, rfl⟩
  · exact .refl t

theorem receives_receiveSync {len : Nat} {result : ReceiveResult}
    (h : t.receiveSync len = some (t', result)) : Receives t t' := by
  unfold receiveSync at h
  split at h
  · cases h
    exact .refl t
  simp only [bind_eq_bind, bind_eq_some_iff, Prod.exists] at h
  obtain ⟨b, out, -, h⟩ := h
  split at h
  · cases h
    exact ⟨⟨rfl⟩, rfl⟩
  simp only [bind_eq_some_iff, some.injEq, Prod.mk.injEq] at h
  obtain ⟨t1, hupd, rfl, -⟩ := h
  have hwnd := receives_updateRcvWndFromBuffer hupd
  exact ⟨⟨hwnd.conduct⟩, hwnd.sndView⟩

/-! ## An acknowledgement -/

theorem moves_sackTxApply (ack : SeqNum) (blocks : List SackBlock) (t : TcpControlBlock) :
    Moves M Change.ofAck t (t.sackTxApply ack blocks) := by
  unfold sackTxApply
  induction blocks generalizing t with
  | nil => exact .refl t
  | cons b blocks ih =>
    rw [List.foldl_cons]
    refine Moves.trans ?_ (ih _)
    unfold sackTxApplyBlock
    split
    · exact .of_change .dsackUndo rfl rfl
    · exact Quiet.moves ⟨rfl⟩

theorem moves_detectLoss : Moves M Change.ofAck t (t.detectLoss seg now) := by
  unfold detectLoss
  split
  · exact .refl t
  refine (moves_sackTxApply seg.ack (parseSackBlocks seg.options) t).quiet ?_
  refine Quiet.trans ?_ quiet_rackDetect
  exact ⟨rfl⟩

theorem moves_eceReaction {reacted : Bool} (h : t.eceReaction M seg now = some (t', reacted)) :
    Moves M Change.ofAck t t' := by
  unfold eceReaction at h
  split at h
  · simp only [map_eq_some_iff, Prod.mk.injEq] at h
    obtain ⟨cc, hcc, rfl, -⟩ := h
    have hcut : t.change M (.congestion now) = some { t with cc := cc } := by
      rw [change, hcc, map_some]
    exact (Moves.of_change _ rfl hcut).quiet ⟨rfl⟩
  · cases h
    exact .refl t

theorem moves_enterRecovery (h : t.enterRecovery M now = some t') : Moves M Change.ofAck t t' := by
  unfold enterRecovery at h
  have hsnapshot : Moves M Change.ofAck t (if t.sack.enabled then t.sackEnterRecovery else t) := by
    split
    · exact .of_change .snapshot rfl rfl
    · exact .refl t
  refine hsnapshot.trans ?_
  generalize (if t.sack.enabled then t.sackEnterRecovery else t) = t1 at h ⊢
  have hentered : Quiet t1 { t1 with cc := { t1.cc with inFastRecovery := true } } := ⟨rfl⟩
  exact hentered.moves.trans (.of_change (.congestion now) rfl h)

theorem moves_recoverIfLost {lost : Bool} (h : t.recoverIfLost M now = some (t', lost)) :
    Moves M Change.ofAck t t' := by
  unfold recoverIfLost at h
  split at h
  · simp only [map_eq_some_iff, Prod.mk.injEq] at h
    obtain ⟨t1, h1, rfl, -⟩ := h
    exact moves_enterRecovery h1
  · cases h
    exact .refl t

theorem moves_advanceUna : Moves M Change.ofAck t (t.advanceUna seg) := by
  unfold advanceUna
  dsimp only
  have hmoved : Quiet t { t with
      snd := { t.snd with una := seg.ack }
      cc := { t.cc with duplicateAckCount := 0 }
      eifel := { t.eifel with bytesAcked := (seg.ack - t.snd.una).toNat } } := ⟨rfl⟩
  refine hmoved.moves.trans ?_
  split
  · exact .of_change (.eifelAck _ _) rfl rfl
  · exact .of_change (.frtoAck _) rfl rfl

theorem moves_ackAdvances {plan plan' : Plan}
    (h : t.ackAdvances M seg now plan = some (t', plan')) : Moves M Change.ofAck t t' := by
  simp only [ackAdvances, bind_eq_some, Prod.exists, some.injEq, Prod.mk.injEq] at h
  obtain ⟨t1, p, h1, t2, h2, t3, lost, h3, rfl, -⟩ := h
  have hacked : Moves M Change.ofAck t t2 :=
    ((Moves.of_change (.recoveryAck seg.ack) rfl (by rw [change, h1, map_some])).trans
      moves_advanceUna).quiet (quiet_completeProbe h2)
  have hgrown : Moves M Change.ofAck t (t2.growWindow M (seg.ack - t.snd.una).toNat now) :=
    hacked.trans (.of_change (.grow _ _) rfl rfl)
  have hlost : Moves M Change.ofAck t t3 :=
    (hgrown.trans moves_detectLoss).trans (moves_recoverIfLost h3)
  have hdrained : Moves M Change.ofAck t ((t3.drainRetransmissionQueue seg.ack).tlpArm now) :=
    hlost.quiet ((sends_drainRetransmissionQueue seg.ack).trans tunes_tlpArm.sends).quiet
  split
  · exact hdrained.quiet (sends_finAcked _).quiet
  · exact hdrained

theorem moves_countDuplicate (count : Nat) :
    Moves M Change.ofAck t (t.countDuplicate seg count now) := by
  unfold countDuplicate
  refine Moves.trans ?_ moves_detectLoss
  have hcounted : Quiet t { t with cc := { t.cc with duplicateAckCount := count } } := ⟨rfl⟩
  split
  · exact hcounted.moves.trans (.of_change (.frtoAck true) rfl rfl)
  · exact hcounted.moves

theorem moves_reactToDuplicate {plan plan' : Plan}
    (h : t.reactToDuplicate M now plan = some (t', plan')) : Moves M Change.ofAck t t' := by
  unfold reactToDuplicate at h
  dsimp only at h
  split at h
  · simp only [map_eq_some_iff, Prod.mk.injEq] at h
    obtain ⟨t1, h1, rfl, -⟩ := h
    exact moves_enterRecovery h1
  split at h
  · cases h
    exact .of_change .inflate rfl rfl
  cases h
  exact .refl t

theorem moves_processAck {plan : Plan} (h : t.processAck M seg now = some (t', plan)) :
    Moves M Change.ofAck t t' := by
  obtain ⟨t1, reacted, h1, h⟩ := processAck_cases h
  refine (moves_eceReaction h1).trans ?_
  rcases h with rfl | ⟨plan1, ⟨-, -, h⟩ | h⟩
  · exact .refl _
  · exact moves_ackAdvances h
  simp only [ackDuplicates, bind_eq_some] at h
  obtain ⟨count, -, h⟩ := h
  exact (moves_countDuplicate count).trans (moves_reactToDuplicate h)

theorem moves_processChecked {plan : Plan} {n : Nat}
    (h : t.processChecked M seg now = some (t', plan, n)) : Moves M Change.ofAck t t' := by
  obtain ⟨t1, plan1, hack, h | ⟨rfl, -⟩⟩ := processChecked_cases h
  · exact (moves_processAck hack).quiet (quiet_receiveSegment h)
  · exact moves_processAck hack

theorem moves_checkSegment {go : Bool} (h : t.checkSegment seg now = some (t', go)) :
    Moves M Change.any t t' := by
  rcases checkSegment_cases h with ⟨-, rfl⟩ | ⟨echo, rfl⟩ | ⟨-, echo, tsval, tsecr, t1, hts, hs⟩
  · exact Quiet.moves ⟨rfl⟩
  · exact Quiet.moves ⟨rfl⟩
  have hecn : Quiet t { t with ecn := { t.ecn with echoPending := echo } } := ⟨rfl⟩
  exact (hecn.moves.trans (.of_change (.timestamp now seg.seq tsval seg.flags.syn) rfl hts)).quiet
    (quiet_sampleTimestamp hs)

theorem moves_processDataDatagram {n : Nat} (h : t.processDataDatagram M seg now = some (t', n)) :
    Moves M Change.any t t' := by
  rcases processDataDatagram_cases h with ⟨-, -, echo, rfl⟩ | ⟨-, ⟨-, hcheck⟩ |
    ⟨t1, t2, plan, hcheck, hchecked, rfl⟩⟩
  · exact Quiet.moves ⟨rfl⟩
  · exact moves_checkSegment hcheck
  exact (moves_checkSegment hcheck).trans
    (((moves_processChecked hchecked).mono fun _ _ => rfl).quiet
      (pushes_carryOut plan).sends.quiet)

theorem moves_processData (h : t.processData M seg now = some t') : Moves M Change.any t t' := by
  rcases processData_cases h with rfl | ⟨-, rfl⟩ | ⟨-, -, rfl⟩ | ⟨-, h⟩ |
    ⟨-, timers, rfl⟩ | ⟨-, -, n, h⟩
  · exact .refl _
  · exact .of_change (.abort .connectionReset) rfl rfl
  · exact Quiet.moves ⟨rfl⟩
  · have hopen : Quiet t (t.establish seg.ack) := ⟨rfl⟩
    rcases processSynReceivedAck_cases h with rfl | rfl | ⟨-, -, rfl | ⟨n, h⟩⟩
    · exact .refl _
    · exact Quiet.moves ⟨rfl⟩
    · exact hopen.moves
    · exact hopen.moves.trans (moves_processDataDatagram h)
  · exact Quiet.moves ⟨rfl⟩
  · exact moves_processDataDatagram h

/-! ## The handshake -/

/-- Only the segment size and the timestamps are settled anew. -/
def Negotiates (t t' : TcpControlBlock) : Prop :=
  t'.steering = { t.steering with effectiveMss := t'.neg.effectiveMss, ts := t'.ts }

theorem Negotiates.trans (h : Negotiates t t') (h' : Negotiates t' t'') : Negotiates t t'' := by
  unfold Negotiates at *
  rw [h', h]

theorem negotiates_of_steering (h : t'.steering = t.steering) : Negotiates t t' := by
  have hmss := congrArg Steering.effectiveMss h
  have hts := congrArg Steering.ts h
  dsimp only [steering] at hmss hts
  unfold Negotiates
  rw [h, hmss, hts]
  rfl

theorem Quiet.negotiates (h : Quiet t t') : Negotiates t t' := negotiates_of_steering h.steering

theorem negotiates_applyPeerTcpOptions (options : List TcpOption) (seq : SeqNum)
    (t : TcpControlBlock) : Negotiates t (t.applyPeerTcpOptions options seq now) := by
  have hfold : Negotiates t (options.foldl (applyPeerTcpOption seq now) t) := by
    induction options generalizing t with
    | nil => rfl
    | cons o options ih =>
      refine Negotiates.trans ?_ (ih _)
      cases o <;> rfl
  exact hfold.trans rfl

theorem effectiveMss_recomputeEffectiveMss (t : TcpControlBlock) :
    t.recomputeEffectiveMss.neg.effectiveMss ≤ mss := by
  unfold recomputeEffectiveMss mss
  dsimp only
  split <;> omega

theorem negotiates_onRxTimestamp {seq : SeqNum} {tsval : BitVec 32} {syn : Bool}
    (h : t.onRxTimestamp now seq tsval syn false = some t') :
    Negotiates t t' ∧ t'.neg = t.neg := by
  obtain ⟨recent, last, age, rfl⟩ := onRxTimestamp_only h
  exact ⟨rfl, rfl⟩

/-! ## Timers -/

theorem moves_tickRetransmissionTimer : Moves M Change.any t (t.tickRetransmissionTimer now).1 := by
  unfold tickRetransmissionTimer
  split
  · exact .refl t
  split
  · exact .refl t
  rename_i s _
  split
  · exact .refl t
  split
  · exact Quiet.moves ⟨rfl⟩
  · exact .of_change (.timeout s now) rfl rfl

theorem tunes_tickTailLoss (retransmit : Bool) : Tunes t (t.tickTailLoss retransmit now).1 := by
  unfold tickTailLoss
  split
  · split <;> exact ⟨rfl, rfl⟩
  · exact .refl t

theorem tunes_tickPersistTimer : Tunes t (t.tickPersistTimer now).1 := by
  unfold tickPersistTimer
  split
  · split <;> exact ⟨rfl, rfl⟩
  · exact .refl t

theorem ticks_tickKeepaliveTimer : Ticks t (t.tickKeepaliveTimer now).1 := by
  unfold tickKeepaliveTimer
  split
  · exact ⟨rfl, rfl, rfl, .inl rfl⟩
  split
  · exact (Tunes.refl t).ticks
  split
  · exact ⟨rfl, rfl, rfl, .inr rfl⟩
  · exact ⟨rfl, rfl, rfl, .inl rfl⟩

theorem tunes_tickDelayedAck : Tunes t (t.tickDelayedAck now).1 := by
  unfold tickDelayedAck
  split
  · split <;> exact ⟨rfl, rfl⟩
  · exact .refl t

theorem ticks_tickTimeWait : Ticks t (t.tickTimeWait now) := by
  unfold tickTimeWait
  split
  · split
    · exact ⟨rfl, rfl, rfl, .inr rfl⟩
    · exact (Tunes.refl t).ticks
  · exact (Tunes.refl t).ticks

/-- Of the timers only the one of retransmissions steers. -/
theorem tick_cases (t : TcpControlBlock) (now : Instant) :
    t.state = .closed ∧ (t.tick now).1 = t ∨
      Ticks (t.tickRetransmissionTimer now).1 (t.tick now).1 := by
  unfold tick
  split
  next hclosed =>
    exact .inl ⟨hclosed, rfl⟩
  · exact .inr (((((tunes_tickTailLoss _).trans tunes_tickPersistTimer).ticks.trans
      ticks_tickKeepaliveTimer).trans tunes_tickDelayedAck.ticks).trans ticks_tickTimeWait)

theorem moves_tick : Moves M Change.any t (t.tick now).1 := by
  rcases t.tick_cases now with ⟨-, h⟩ | h
  · rw [h]
    exact .refl t
  · exact moves_tickRetransmissionTimer.quiet h.sends.quiet

theorem pushes_tlpSendProbe : Pushes t (t.tlpSendProbe now).1 := by
  unfold tlpSendProbe
  split
  · refine Pushes.trans ?_ pushes_processSendQueue
    exact ⟨rfl, rfl⟩
  split
  · exact (Tunes.refl t).pushes
  refine Pushes.trans ?_ (tunes_applyOutgoingEcn _ _).pushes
  exact ⟨rfl, rfl⟩

theorem tunes_sendWindowProbe : Tunes t t.sendWindowProbe.1 := by
  unfold sendWindowProbe
  split
  · exact .refl t
  · exact tunes_applyOutgoingEcn _ _

theorem pushes_perform (t : TcpControlBlock) (now : Instant) (d : Due) :
    Pushes t (t.perform now d).1 := by
  cases d with
  | ack => exact (tunes_applyOutgoingEcn _ _).pushes
  | retransmit => exact (tunes_retransmitMatching _ _).pushes
  | tailLoss => exact pushes_tlpSendProbe
  | windowProbe => exact tunes_sendWindowProbe.pushes
  | keepalive => exact (tunes_applyOutgoingEcn _ _).pushes
  | pacingRelease => exact pushes_processSendQueue

theorem moves_retransmissionTimeout : Moves M Change.any t (t.retransmissionTimeout now) := by
  rcases t.retransmissionTimeout_cases now with h | h | ⟨s, -, h⟩
  · rw [h]
    exact .refl t
  · rw [h]
    exact Quiet.moves ⟨rfl⟩
  · rw [h]
    exact (Moves.of_change (.timeout s now) rfl rfl).quiet
      (tunes_retransmitMatching _ _).sends.quiet

/-- **What a call can do**: take a segment, run the retransmission timer, close our side, read, or
push data out. -/
theorem step_cases {e : Event} {out : List UInt8} (h : t.step M e = some (t', out)) :
    (∃ seg now, e = .segment seg now ∧ t.processData M seg now = some t') ∨
      (∃ now, t' = t.retransmissionTimeout now) ∨ (∃ now, t' = t.closeConnection now) ∨
      (∃ len result, t.receiveSync len = some (t', result)) ∨ Pushes t t' := by
  cases e with
  | segment seg now =>
    simp only [step, map_eq_some_iff, Prod.mk.injEq] at h
    obtain ⟨t1, hdata, rfl, -⟩ := h
    exact .inl ⟨seg, now, rfl, hdata⟩
  | sendData data now =>
    refine .inr (.inr (.inr (.inr ?_)))
    unfold step at h
    dsimp only at h
    split at h
    next t1 hsend =>
      cases h
      exact pushes_sendData hsend
    · cases h
      exact (Tunes.refl _).pushes
  | sendQueue now =>
    cases h
    exact .inr (.inr (.inr (.inr pushes_processSendQueue)))
  | timeout now =>
    cases h
    exact .inr (.inl ⟨now, rfl⟩)
  | close now =>
    cases h
    exact .inr (.inr (.inl ⟨now, rfl⟩))
  | read len =>
    simp only [step, map_eq_some_iff, Prod.mk.injEq, Prod.exists] at h
    obtain ⟨t1, result, hread, rfl, -⟩ := h
    exact .inr (.inr (.inr (.inl ⟨len, result, hread⟩)))

end TcpControlBlock

/-! ## A connection -/

namespace Endpoint

variable {M : CubicMath} {s s' : Endpoint}

/-- What an activity can do: the calls, what is due, and the timers. -/
theorem step_cases {a : Activity} {out : List SentCore} (h : s.step M a = some (s', out)) :
    (∃ seg now, a = .call (.segment seg now) ∧ s.tcb.processData M seg now = some s'.tcb) ∨
      (∃ now, s'.tcb = s.tcb.retransmissionTimeout now) ∨
      (∃ now, s'.tcb = s.tcb.closeConnection now) ∨
      (∃ len result, s.tcb.receiveSync len = some (s'.tcb, result)) ∨
      (∃ now, s'.tcb = (s.tcb.tick now).1) ∨ s.tcb.Pushes s'.tcb := by
  cases a with
  | call e =>
    simp only [step, bind_eq_some, Prod.exists, some.injEq, Prod.mk.injEq] at h
    obtain ⟨t, o, hstep, rfl, -⟩ := h
    rcases step_cases hstep with ⟨seg, now, rfl, h⟩ | h | h | h | h
    · exact .inl ⟨seg, now, rfl, h⟩
    · exact .inr (.inl h)
    · exact .inr (.inr (.inl h))
    · exact .inr (.inr (.inr (.inl h)))
    · exact .inr (.inr (.inr (.inr (.inr h))))
  | tick now =>
    unfold step at h
    dsimp only at h
    split at h
    · cases h
      exact .inr (.inr (.inr (.inr (.inl ⟨now, rfl⟩))))
    cases h
    exact .inr (.inr (.inr (.inr (.inr (TcpControlBlock.Tunes.refl _).pushes))))
  | act now =>
    unfold step at h
    dsimp only at h
    refine .inr (.inr (.inr (.inr (.inr ?_))))
    split at h
    · cases h
      exact (TcpControlBlock.Tunes.refl _).pushes
    cases h
    exact pushes_perform _ _ _

theorem step_changes {a : Activity} {out : List SentCore} (h : s.step M a = some (s', out)) :
    s.tcb.Moves M Change.any s'.tcb := by
  rcases step_cases h with ⟨seg, now, -, h⟩ | ⟨now, h⟩ | ⟨now, h⟩ | ⟨len, result, h⟩ | ⟨now, h⟩ | h
  · exact moves_processData h
  · rw [h]
    exact moves_retransmissionTimeout
  · rw [h]
    exact sends_closeConnection.quiet.moves
  · exact (receives_receiveSync h).quiet.moves
  · rw [h]
    exact moves_tick
  · exact h.sends.quiet.moves

/-- **Every run of a connection is a run of changes.** -/
theorem run_changes {as : List Activity} {outs : List (List SentCore)}
    (h : run (step M) s as = some (s', outs)) : s.tcb.Moves M Change.any s'.tcb := by
  have hstep : ∀ (u : Endpoint) (a : Activity) (u' : Endpoint) (out : List SentCore),
      s.tcb.Moves M Change.any u.tcb → True → u.step M a = some (u', out) →
        s.tcb.Moves M Change.any u'.tcb :=
    fun _ _ _ _ hmoves _ h => hmoves.trans (step_changes h)
  exact run_forall hstep (.refl _) (guarded_of_forall (fun _ _ => trivial) as s) h

end Endpoint
end Moose.Tcp
