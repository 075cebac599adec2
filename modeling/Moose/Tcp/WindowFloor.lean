import Moose.Tcp.EcnResponse

/-!
# The floor under the windows

RFC 5681 never lets ssthresh below two segments or the window below one. Reno, the retransmission
timer, F-RTO and window validation keep to that. CUBIC sets ssthresh to a share of the window
without a lower bound, and the Eifel response sets both from the bytes in flight. `FloorOk` says
when these two stay above the floor; apart from them no change of a connection goes below it.
-/

set_option autoImplicit false

namespace Moose.Tcp

open Option TcpControlBlock Lib

variable {M : CubicMath} {t t' : TcpControlBlock} {seg : Segment} {now : Instant}
  {cc : Congestion} {smss : Nat}

/-! ## The windows -/

/-- The windows and the threshold of a congestion record are above the floor. -/
structure Congestion.Above (c : Congestion) (smss : Nat) : Prop where
  cwnd : smss ≤ c.cwnd
  cwndRaw : smss ≤ c.cwv.cwndRaw
  ssthresh : 2 * smss ≤ c.ssthresh

namespace Congestion.Above

variable {c : Congestion}

theorem setWnd (h : c.Above smss) (raw : Bool) {wnd : Nat} (hwnd : smss ≤ wnd) :
    (c.setWnd raw wnd).Above smss := by
  cases raw with
  | true => exact ⟨h.cwnd, hwnd, h.ssthresh⟩
  | false => exact ⟨hwnd, h.cwndRaw, h.ssthresh⟩

theorem setAccum (h : c.Above smss) (raw : Bool) (accum : Nat) :
    (c.setAccum raw accum).Above smss := by
  cases raw <;> exact ⟨h.cwnd, h.cwndRaw, h.ssthresh⟩

theorem wnd (h : c.Above smss) (raw : Bool) : smss ≤ c.wnd raw := by
  cases raw with
  | true => exact h.cwndRaw
  | false => exact h.cwnd

theorem le_satAdd32 {a b : Nat} (h : smss ≤ a) (hsmss : smss < 2 ^ 32) : smss ≤ satAdd32 a b := by
  unfold satAdd32
  omega

theorem le_renoGrowth (hsmss : smss < 2 ^ 32) :
    ∀ (fuel accum wnd : Nat), smss ≤ wnd → smss ≤ (renoGrowth smss fuel accum wnd).2 := by
  intro fuel
  induction fuel with
  | zero => exact fun _ _ h => h
  | succ fuel ih =>
    intro accum wnd hwnd
    unfold renoGrowth
    split
    · exact hwnd
    · exact ih _ _ (le_satAdd32 hwnd hsmss)

theorem growCwndValue (h : c.Above smss) (hsmss : smss < 2 ^ 32) (M : CubicMath) (now : Instant)
    (raw : Bool) (bytesAcked : Nat) : (growCwndValue M now smss c raw bytesAcked).Above smss := by
  unfold Tcp.growCwndValue
  split
  · exact h
  dsimp only
  split
  · exact h.setWnd raw (le_satAdd32 (h.wnd raw) hsmss)
  have hreno := le_renoGrowth hsmss (satAdd32 (c.accum raw) bytesAcked + 1)
    (satAdd32 (c.accum raw) bytesAcked) (c.wnd raw) (h.wnd raw)
  generalize renoGrowth smss (satAdd32 (c.accum raw) bytesAcked + 1)
    (satAdd32 (c.accum raw) bytesAcked) (c.wnd raw) = grown at hreno
  have hacc := h.setAccum raw grown.1
  split
  · split
    · exact hacc.setWnd raw (le_satAdd32 (h.wnd raw) hsmss)
    · exact hacc.setWnd raw hreno
  · exact hacc.setWnd raw hreno

theorem cwvReduceCwnd (h : c.Above smss) (flight : Nat) {effectiveMss : Nat}
    (hsmss : smss = max effectiveMss 1) : (cwvReduceCwnd c flight effectiveMss).Above smss := by
  have hcwnd := h.cwnd
  have hss := h.ssthresh
  refine ⟨?_, h.cwndRaw, ?_⟩
  · unfold Tcp.cwvReduceCwnd
    dsimp only
    split <;> omega
  unfold Tcp.cwvReduceCwnd
  dsimp only
  split <;> omega

end Congestion.Above

theorem updateCongestionWindow_above (h : t.cc.Above t.smss) (hsmss : t.smss < 2 ^ 32)
    (bytesAcked : Nat) : (updateCongestionWindow M now t bytesAcked).Above t.smss :=
  updateCongestionWindow_induct (P := fun c => c.Above t.smss)
    (fun _ raw hc => hc.growCwndValue hsmss M now raw bytesAcked)
    (fun _ hc => hc.cwvReduceCwnd _ rfl) (fun _ hc => ⟨hc.cwndRaw, hc.cwndRaw, hc.ssthresh⟩)
    (fun _ _ hraw hc => ⟨hc.cwnd, hraw ▸ hc.cwndRaw, hc.ssthresh⟩) h

namespace TcpControlBlock

/-- The windows are above the floor, and so is what they may be restored from. -/
structure Floor (t : TcpControlBlock) : Prop where
  cc : t.cc.Above t.smss
  undo : t.sack.undoPending = true → 2 * t.smss ≤ t.sack.undoSsthresh
  pipePrev : ∀ p ∈ t.eifel.pipePrev, 2 * t.smss ≤ p
  effectiveMss : t.neg.effectiveMss ≤ mss

section

variable (h : t.Floor)
include h

theorem Floor.smss_le : t.smss ≤ 1460 := smss_le_of_effectiveMss h.effectiveMss

/-- The two changes that may go below the floor: a cut by CUBIC, and the Eifel response. -/
def FloorOk (t : TcpControlBlock) : Change → Prop
  | .congestion _ =>
    match t.cc.algo with
    | .cubic s => 2 * t.smss ≤ (t.cc.cwnd * s.beta) >>> 10 % 2 ^ 32
    | .reno _ => True
  | .eifelAck tsecr ece => t.eifelSpurious tsecr ece = true →
    t.smss ≤ satAdd32 t.flightSizeBytes (min t.eifel.bytesAcked eifelIwBytes) ∧
      (t.eifel.pipePrev = none → 2 * t.smss ≤ t.flightSizeBytes)
  | _ => True

instance (t : TcpControlBlock) : (c : Change) → Decidable (t.FloorOk c)
  | .congestion _ =>
    match h : t.cc.algo with
    | .reno _ => isTrue (by rw [FloorOk, h]; trivial)
    | .cubic s => decidable_of_iff (2 * t.smss ≤ (t.cc.cwnd * s.beta) >>> 10 % 2 ^ 32)
        (by rw [FloorOk, h])
  | .eifelAck tsecr ece => inferInstanceAs (Decidable (t.eifelSpurious tsecr ece = true →
    t.smss ≤ satAdd32 t.flightSizeBytes (min t.eifel.bytesAcked eifelIwBytes) ∧
      (t.eifel.pipePrev = none → 2 * t.smss ≤ t.flightSizeBytes)))
  | .other _ | .timestamp _ _ _ _ | .grow _ _ | .recoveryAck _ | .inflate
  | .snapshot | .dsackUndo | .timeout _ _ | .frtoAck _ | .abort _ => isTrue trivial

/-! ## One change -/

theorem Floor.setCc (hcc : cc.Above t.smss) : Floor { t with cc := cc } :=
  { h with cc := hcc }

theorem Floor.clearEifel : Floor { t with eifel := .new } :=
  { h with pipePrev := nofun }

theorem Floor.clearFrto : Floor { t with frto := t.frto.clear } := { h with }

/-- Segments may get smaller. -/
theorem Floor.negotiates (hn : Negotiates t t')
    (hmss : t'.neg.effectiveMss ≤ t.neg.effectiveMss) : t'.Floor := by
  obtain ⟨-, hcwnd, hss, hraw, -, -, hundo, hpipe, -⟩ := Steering.mk.inj hn
  obtain ⟨-, hundoSs, hpending⟩ : t'.sack.undoCwnd = t.sack.undoCwnd ∧
      t'.sack.undoSsthresh = t.sack.undoSsthresh ∧ t'.sack.undoPending = t.sack.undoPending := by
    simpa [SackState.undo, steering] using hundo
  have hsmss : t'.smss ≤ t.smss := by
    unfold smss
    omega
  dsimp only [steering] at hcwnd hss hraw hpipe
  refine ⟨⟨?_, ?_, ?_⟩, fun hp => ?_, fun p hp => ?_, ?_⟩
  · have := h.cc.cwnd
    omega
  · have := h.cc.cwndRaw
    omega
  · have := h.cc.ssthresh
    omega
  · have := h.undo (hpending ▸ hp)
    omega
  · have := h.pipePrev p (hpipe ▸ hp)
    omega
  · exact hmss.trans h.effectiveMss

theorem Floor.quiet (hq : Quiet t t') : t'.Floor := by
  have hmss : t'.neg.effectiveMss = t.neg.effectiveMss :=
    congrArg Steering.effectiveMss hq.steering
  exact h.negotiates hq.negotiates hmss.le

theorem Floor.onCongestionEvent (hok : t.FloorOk (.congestion now))
    (hc : Tcp.onCongestionEvent M now t = some cc) : cc.Above t.smss := by
  unfold FloorOk at hok
  cases halgo : t.cc.algo with
  | cubic s =>
    rw [halgo] at hok
    obtain ⟨-, -, hss, hcwnd, -, hraw, -⟩ := onCongestionEvent_cubic halgo hc
    exact ⟨by omega, by omega, by omega⟩
  | reno recover =>
    have hmss := h.smss_le
    obtain ⟨-, hss, hcwnd, -, hraw⟩ := onCongestionEvent_reno halgo hc
    refine ⟨by omega, ?_, by omega⟩
    rw [hraw]
    exact Congestion.Above.le_satAdd32 (by omega) (by omega)

theorem Floor.ackInRecovery {ack : SeqNum} {p : Option SeqNum}
    (hack : t.ackInRecovery ack = some (t', p)) : t'.Floor := by
  obtain ⟨cc, rfl, rfl | ⟨-, hss, hraw, hcwnd⟩⟩ := ackInRecovery_cases hack
  · exact h
  have hfloor := h.cc.ssthresh
  exact h.setCc ⟨by omega, by omega, by omega⟩

theorem Floor.sackDsackUndo : t.sackDsackUndo.Floor := by
  unfold TcpControlBlock.sackDsackUndo
  split
  next hpending =>
    exact { h with
      cc := ⟨Nat.le_max_right _ _, Nat.le_max_right _ _, h.undo hpending⟩, undo := nofun }
  · exact { h with }

theorem Floor.eifelOnAcceptableAck {tsecr : Option (BitVec 32)} {ece : Bool}
    (hok : t.FloorOk (.eifelAck tsecr ece)) : (t.eifelOnAcceptableAck tsecr ece).Floor := by
  unfold TcpControlBlock.eifelOnAcceptableAck
  split
  · exact h
  split
  · exact h.clearEifel
  next hspurious =>
    rw [Bool.not_eq_true, Bool.not_eq_false'] at hspurious
    obtain ⟨hcwnd, hflight⟩ := hok hspurious
    have hprev : 2 * t.smss ≤ t.eifel.pipePrev.getD t.flightSizeBytes := by
      cases hp : t.eifel.pipePrev with
      | none => exact hflight hp
      | some p => exact h.pipePrev p hp
    exact { h with cc := ⟨hcwnd, hcwnd, hprev⟩, pipePrev := nofun }

theorem Floor.frtoOnAck (isDup : Bool) : (t.frtoOnAck isDup).Floor := by
  unfold TcpControlBlock.frtoOnAck
  split
  · exact h.clearFrto
  split
  · exact h
  · split
    · exact h.clearFrto
    · exact { h with cc := ⟨Nat.le_max_right _ _, Nat.le_max_right _ _, h.cc.ssthresh⟩ }
  split
  · exact h.clearFrto
  have hcwnd : t.smss ≤ max (satAdd32 t.flightSizeBytes t.smss) (2 * t.smss) := by omega
  have hss : 2 * t.smss ≤ max t.frto.prevSsthresh (max (2 * t.smss) t.cc.ssthresh) := by
    omega
  exact { h with cc := ⟨hcwnd, hcwnd, hss⟩, pipePrev := nofun }

theorem Floor.armDetectors (s : UnackedSegment) (nestedAbort : Bool) :
    (t.armDetectors s nestedAbort).Floor := by
  have hss := h.cc.ssthresh
  unfold TcpControlBlock.armDetectors
  split
  · unfold eifelOnRtoBeforeMd
    split
    · exact h
    refine { h with pipePrev := fun p hp => ?_ }
    cases hp
    show 2 * t.smss ≤ max t.flightSizeBytes t.cc.ssthresh
    omega
  · split
    · unfold frtoOnRto
      split
      · exact h
      · exact { h with pipePrev := nofun }
    · exact h.clearEifel

end

theorem Floor.onRto (h : t.Floor) (s : UnackedSegment) (now : Instant) : (t.onRto s now).Floor := by
  have hhead : (t.retimeHead (!t.ts.enabled && t.frto.phase != .idle) now).Floor :=
    { h with cc := { h.cc with } }
  have harmed := hhead.armDetectors s (!t.ts.enabled && t.frto.phase != .idle)
  refine Floor.quiet ?_ (tunes_cancelProbe s.seq).sends.quiet
  refine { harmed with cc := ?_ }
  dsimp only [rtoCongestion]
  split <;> exact ⟨Nat.le_refl _, Nat.le_refl _, Nat.le_max_right _ _⟩

theorem Floor.inflate (h : t.Floor) : t.inflate.Floor := by
  have hmss := h.smss_le
  exact h.setCc ⟨Congestion.Above.le_satAdd32 h.cc.cwnd (by omega),
    Congestion.Above.le_satAdd32 h.cc.cwndRaw (by omega), h.cc.ssthresh⟩

theorem Floor.change (h : t.Floor) {c : Change} (hok : t.FloorOk c)
    (hc : t.change M c = some t') : t'.Floor := by
  cases c with
  | other next =>
    obtain ⟨hq, rfl⟩ := change_other.mp hc
    exact h.quiet hq
  | timestamp now seq tsval syn =>
    obtain ⟨hn, hneg⟩ := negotiates_onRxTimestamp hc
    exact h.negotiates hn (by rw [hneg])
  | grow bytesAcked now =>
    cases hc
    have hmss := h.smss_le
    exact h.setCc (updateCongestionWindow_above h.cc (by omega) bytesAcked)
  | congestion now =>
    obtain ⟨cc, hcc, rfl⟩ := map_eq_some_iff.mp hc
    exact h.setCc (h.onCongestionEvent hok hcc)
  | recoveryAck ack =>
    obtain ⟨⟨t1, p⟩, h1, rfl⟩ := map_eq_some_iff.mp hc
    exact h.ackInRecovery h1
  | inflate =>
    cases hc
    exact h.inflate
  | snapshot =>
    cases hc
    exact { h with undo := fun _ => h.cc.ssthresh }
  | dsackUndo =>
    cases hc
    exact h.sackDsackUndo
  | timeout s now =>
    cases hc
    exact h.onRto s now
  | eifelAck tsecr ece =>
    cases hc
    exact h.eifelOnAcceptableAck hok
  | frtoAck isDup =>
    cases hc
    exact h.frtoOnAck isDup
  | abort e =>
    cases hc
    unfold abortConnection
    split
    · exact h
    · exact ⟨h.cc, h.undo, nofun, h.effectiveMss⟩

/-! ## A connection -/

theorem floor_new (iss : SeqNum) (settings : TcpSessionSettings) (tsOffset : BitVec 32)
    (now : Instant) (state : TcpState) :
    Floor { new iss settings tsOffset now with state := state } where
  cc := by
    constructor
    · show max mss 1 ≤ initialCwnd
      decide
    · show max mss 1 ≤ initialCwnd
      decide
    · show 2 * max mss 1 ≤ initialSsthresh
      decide
  undo := nofun
  pipePrev := nofun
  effectiveMss := Nat.le_refl _

theorem steering_applyReceivePath {settings : TcpSessionSettings}
    (h : settings.applyReceivePath t = some t') : t'.steering = t.steering :=
  (receives_updateRcvWndFromBuffer h).quiet.steering

theorem Opens.floor {settings : TcpSessionSettings} (h : Opens settings t) : t.Floor := by
  cases h with
  | active iss tsOffset now h =>
    simp only [connect, bind_eq_some, some.injEq] at h
    obtain ⟨t1, h1, rfl⟩ := h
    have hsteer := steering_applyReceivePath h1
    have hmss : t1.neg.effectiveMss = mss := congrArg Steering.effectiveMss hsteer
    exact (floor_new iss _ tsOffset now .synSent).negotiates (negotiates_of_steering hsteer)
      hmss.le
  | passive iss tsOffset syn now h =>
    simp only [processPassiveSyn, bind_eq_some, some.injEq] at h
    obtain ⟨t1, h1, rfl⟩ := h
    have hsteer := steering_applyReceivePath h1
    have hpath : Negotiates (new iss settings tsOffset now)
        { t1 with
          state := .synReceived, irs := syn.seq, rx := { t1.rx with rcvNxt := syn.seq + 1 } } :=
      negotiates_of_steering hsteer
    have hoptions : Negotiates (new iss settings tsOffset now) (applyPeerTcpOptions _ _ _ now) :=
      hpath.trans (negotiates_applyPeerTcpOptions syn.options syn.seq _)
    exact (floor_new iss settings tsOffset now .synReceived).negotiates hoptions
      (effectiveMss_recomputeEffectiveMss _)

/-- The same block with another algorithm. -/
def withAlgo (t : TcpControlBlock) (algo : CongestionControl) : TcpControlBlock :=
  { t with cc := { t.cc with algo := algo } }

/-- **The windows stay above the floor** in every run of changes that starts with an open, with
either algorithm, as long as no cut by CUBIC and no Eifel response goes below it. Every run of a
connection is such a run (`Endpoint.run_changes`). -/
theorem run_floor (M : CubicMath) (settings : TcpSessionSettings) (t t' : TcpControlBlock)
    (hopen : Opens settings t) (algo : CongestionControl) (cs : List Change) (os : List Unit)
    (hok : Guarded (changeStep M) FloorOk (t.withAlgo algo) cs)
    (hrun : run (changeStep M) (t.withAlgo algo) cs = some (t', os)) :
    2 * t'.smss ≤ t'.cc.ssthresh ∧ t'.smss ≤ t'.cc.cwnd := by
  have hfloor : (t.withAlgo algo).Floor :=
    hopen.floor.setCc ⟨hopen.floor.cc.cwnd, hopen.floor.cc.cwndRaw, hopen.floor.cc.ssthresh⟩
  have hstep : ∀ (u : TcpControlBlock) (c : Change) (u' : TcpControlBlock) (o : Unit),
      u.Floor → u.FloorOk c → changeStep M u c = some (u', o) → u'.Floor := by
    intro u c u' o hu hc hstep
    simp only [changeStep, map_eq_some_iff, Prod.mk.injEq] at hstep
    obtain ⟨u1, hchange, rfl, -⟩ := hstep
    exact hu.change hc hchange
  have hfinal := run_forall hstep hfloor hok hrun
  exact ⟨hfinal.cc.ssthresh, hfinal.cc.cwnd⟩

/-- A loss on a connection with segments of ten bytes. -/
theorem run_floor_loss : ∃ t t' os, ecnOpen [.mss 10] = some t ∧
    run (changeStep .integer) (t.withAlgo t.cc.algo) [.congestion 0] = some (t', os) ∧
    2 * t'.smss ≤ t'.cc.ssthresh ∧ t'.smss ≤ t'.cc.cwnd := by
  obtain ⟨t, hopen, t', os, hrun, hok⟩ : ∃ t, ecnOpen [.mss 10] = some t ∧ ∃ t' os,
      run (changeStep .integer) (t.withAlgo t.cc.algo) [.congestion 0] = some (t', os) ∧
        Guarded (changeStep .integer) FloorOk (t.withAlgo t.cc.algo) [.congestion 0] := by
    decide +kernel
  exact ⟨t, t', os, hopen, hrun, run_floor .integer _ t t' (.passive 100 0 _ 0 hopen) _ _ os
    hok hrun⟩

/-- A mark on the first window leaves a threshold of 1058 bytes, less than one segment. -/
theorem mark_sinks_ssthresh :
    ((ecnOpen []).bind fun t => (run (Endpoint.step .integer) (.ofOpen t)
      [.call (.segment .ackOfSyn 0), .call (.segment .marked 0)]).map fun (s, _) =>
        (s.tcb.smss, s.tcb.cc.ssthresh)) = some (1460, 1058) := by
  decide +kernel

end TcpControlBlock
end Moose.Tcp
