import Moose.Tcp.Steering

/-!
# Congestion and RTT arithmetic

The integers of the control block stay in the range of their types, and the estimators below
`2 ^ 61`: far enough from the limits that most of the sums of the driver cannot overflow. What is
left are the places that a connection can really drive over the edge. They are listed in `ArithOk`.
-/

set_option autoImplicit false

namespace Moose.Tcp

open Lib

/-! ## Ranges -/

/-- CUBIC, with its constant `beta`, and windows that are 32-bit numbers. -/
structure Congestion.InRange (c : Congestion) : Prop where
  cubic : ∃ s, c.algo = .cubic s ∧ s.beta = 717
  cwnd : c.cwnd < 2 ^ 32
  cwndRaw : c.cwv.cwndRaw < 2 ^ 32
  ssthresh : c.ssthresh < 2 ^ 32

/-- The estimators are below `2 ^ 61` nanoseconds. -/
structure RttState.InRange (r : RttState) : Prop where
  srtt : ∀ x : Nat, r.srtt = some x → x ≤ 2 ^ 61
  rttvar : ∀ x : Nat, r.rttvar = some x → x ≤ 2 ^ 61

namespace TcpControlBlock

/-- The snapshots that a spurious timeout or recovery restores are 32-bit numbers too. -/
structure InRange (t : TcpControlBlock) : Prop where
  cc : t.cc.InRange
  rtt : t.rtt.InRange
  undoCwnd : t.sack.undoCwnd < 2 ^ 32
  undoSsthresh : t.sack.undoSsthresh < 2 ^ 32
  pipePrev : ∀ x ∈ t.eifel.pipePrev, x < 2 ^ 32
  prevSsthresh : t.frto.prevSsthresh < 2 ^ 32
  effectiveMss : t.neg.effectiveMss ≤ mss

/-- The windows, and the snapshots they can be restored from, are 32-bit numbers. -/
structure Sized (t : TcpControlBlock) : Prop where
  cc : t.cc.InRange
  undoCwnd : t.sack.undoCwnd < 2 ^ 32
  undoSsthresh : t.sack.undoSsthresh < 2 ^ 32
  pipePrev : ∀ x ∈ t.eifel.pipePrev, x < 2 ^ 32
  prevSsthresh : t.frto.prevSsthresh < 2 ^ 32
  effectiveMss : t.neg.effectiveMss ≤ mss

theorem InRange.sized {t : TcpControlBlock} (h : t.InRange) : t.Sized := { h with }

theorem smss_le_of_effectiveMss {t : TcpControlBlock} (h : t.neg.effectiveMss ≤ mss) :
    t.smss ≤ 1460 := by
  unfold smss
  unfold mss at h
  omega

theorem InRange.smss_le {t : TcpControlBlock} (h : t.InRange) : t.smss ≤ 1460 :=
  smss_le_of_effectiveMss h.effectiveMss

theorem flightSizeBytes_lt (t : TcpControlBlock) : t.flightSizeBytes < 2 ^ 32 := BitVec.isLt _

end TcpControlBlock

theorem satAdd32_lt (a b : Nat) : satAdd32 a b < 2 ^ 32 := by
  unfold satAdd32
  omega

/-! ## Congestion control -/

namespace Congestion

variable {c : Congestion}

theorem InRange.setWnd (h : c.InRange) (raw : Bool) {wnd : Nat} (hwnd : wnd < 2 ^ 32) :
    (c.setWnd raw wnd).InRange := by
  cases raw with
  | true => exact ⟨h.cubic, h.cwnd, hwnd, h.ssthresh⟩
  | false => exact ⟨h.cubic, hwnd, h.cwndRaw, h.ssthresh⟩

theorem InRange.setAccum (h : c.InRange) (raw : Bool) (accum : Nat) :
    (c.setAccum raw accum).InRange := by
  cases raw <;> exact ⟨h.cubic, h.cwnd, h.cwndRaw, h.ssthresh⟩

theorem InRange.wnd (h : c.InRange) (raw : Bool) : c.wnd raw < 2 ^ 32 := by
  cases raw with
  | true => exact h.cwndRaw
  | false => exact h.cwnd

theorem renoGrowth_lt (smss : Nat) :
    ∀ (fuel accum wnd : Nat), wnd < 2 ^ 32 → (renoGrowth smss fuel accum wnd).2 < 2 ^ 32 := by
  intro fuel
  induction fuel with
  | zero => exact fun _ _ h => h
  | succ fuel ih =>
    intro accum wnd hwnd
    unfold renoGrowth
    split
    · exact hwnd
    · exact ih _ _ (satAdd32_lt _ _)

@[simp] theorem algo_setWnd (raw : Bool) (wnd : Nat) : (c.setWnd raw wnd).algo = c.algo := by
  cases raw <;> rfl

@[simp] theorem algo_setAccum (raw : Bool) (accum : Nat) :
    (c.setAccum raw accum).algo = c.algo := by
  cases raw <;> rfl

/-- Growth keeps the range and the state of the algorithm. -/
theorem InRange.growCwndValue (h : c.InRange) (M : CubicMath) (now : Instant) (smss : Nat)
    (raw : Bool) (bytesAcked : Nat) :
    (growCwndValue M now smss c raw bytesAcked).InRange ∧
      (growCwndValue M now smss c raw bytesAcked).algo = c.algo := by
  unfold Tcp.growCwndValue
  split
  · exact ⟨h, rfl⟩
  dsimp only
  split
  · exact ⟨h.setWnd raw (satAdd32_lt _ _), algo_setWnd raw _⟩
  generalize hgrow : renoGrowth smss (satAdd32 (c.accum raw) bytesAcked + 1)
    (satAdd32 (c.accum raw) bytesAcked) (c.wnd raw) = grown
  have hreno : grown.2 < 2 ^ 32 := by
    rw [← hgrow]
    exact renoGrowth_lt smss _ _ _ (h.wnd raw)
  have hacc := h.setAccum raw grown.1
  split
  · split
    · exact ⟨hacc.setWnd raw (satAdd32_lt _ _), by simp⟩
    · exact ⟨hacc.setWnd raw hreno, by simp⟩
  · exact ⟨hacc.setWnd raw hreno, by simp⟩

theorem InRange.cwvReduceCwnd (h : c.InRange) (flight effectiveMss : Nat) :
    (cwvReduceCwnd c flight effectiveMss).InRange := by
  have hcwnd := h.cwnd
  have hss := h.ssthresh
  unfold Tcp.cwvReduceCwnd
  refine ⟨h.cubic, ?_, h.cwndRaw, ?_⟩
  · dsimp only
    split <;> omega
  dsimp only
  split <;> omega

/-- CUBIC's window at the last loss. -/
def lastMaxCwnd (c : Congestion) : Nat :=
  match c.algo with
  | .cubic s => s.lastMaxCwnd
  | .reno _ => 0

theorem lastMaxCwnd_congr {c' : Congestion} (h : c'.algo = c.algo) :
    c'.lastMaxCwnd = c.lastMaxCwnd := by
  unfold lastMaxCwnd
  rw [h]

end Congestion

/-- **What the window update keeps**: it is made of growth, of reductions by window validation, of
the shadow window taking the place of the real one, and of book-keeping of the validation. -/
theorem updateCongestionWindow_induct {P : Congestion → Prop} {M : CubicMath} {now : Instant}
    {t : TcpControlBlock} {bytesAcked : Nat}
    (hgrow : ∀ c raw, P c → P (growCwndValue M now t.smss c raw bytesAcked))
    (hreduce : ∀ c, P c → P (cwvReduceCwnd c t.flightSizeBytes t.neg.effectiveMss))
    (hraw : ∀ c, P c → P { c with cwnd := c.cwv.cwndRaw })
    (hcwv : ∀ c cwv, cwv.cwndRaw = c.cwv.cwndRaw → P c → P { c with cwv := cwv })
    (h : P t.cc) : P (updateCongestionWindow M now t bytesAcked) := by
  unfold updateCongestionWindow
  split
  · exact h
  have h1 := hgrow t.cc true h
  generalize growCwndValue M now t.smss t.cc true bytesAcked = c1 at h1
  dsimp only
  split
  · exact hraw c1 h1
  have hlast : ∀ c : Congestion, P c → P (if !c.cwv.validated then c
      else growCwndValue M now t.smss
        { c with cwv := { c.cwv with validated := false, pipeMax := 0 } } false
        bytesAcked) := by
    intro c hc
    split
    · exact hc
    exact hgrow _ false
      (hcwv c { c.cwv with validated := false, pipeMax := 0 } rfl hc)
  -- an idle period and an application-limited one reduce the window in the same way
  generalize hc2 : (if t.rtt.rto < now - c1.cwv.lastDataTx then
    cwvReduceCwnd c1 t.flightSizeBytes t.neg.effectiveMss else c1) = c2
  have h2 : P c2 := by
    rw [← hc2]
    split
    · exact hreduce c1 h1
    · exact h1
  cases hs : c2.cwv.appLimitedSince with
  | none => exact hlast c2 h2
  | some since =>
    by_cases hdue : t.rtt.rto ≤ now - since
    · simp only [if_pos hdue]
      exact hlast _ (hcwv _ { (cwvReduceCwnd c2 t.flightSizeBytes t.neg.effectiveMss).cwv with
        appLimitedSince := some now } rfl (hreduce c2 h2))
    · simp only [if_neg hdue]
      exact hlast c2 h2

open Congestion in
/-- The window update keeps the range and the state of the algorithm. -/
theorem updateCongestionWindow_inRange {t : TcpControlBlock} (h : t.cc.InRange) (M : CubicMath)
    (now : Instant) (bytesAcked : Nat) :
    (updateCongestionWindow M now t bytesAcked).InRange ∧
      (updateCongestionWindow M now t bytesAcked).algo = t.cc.algo := by
  refine updateCongestionWindow_induct (P := fun c => c.InRange ∧ c.algo = t.cc.algo)
    (fun c raw hc => ?_) (fun c hc => ?_) (fun c hc => ?_) (fun c cwv hraw hc => ?_) ⟨h, rfl⟩
  · obtain ⟨h1, ha1⟩ := hc.1.growCwndValue M now t.smss raw bytesAcked
    exact ⟨h1, ha1.trans hc.2⟩
  · exact ⟨hc.1.cwvReduceCwnd _ _, hc.2⟩
  · exact ⟨⟨hc.1.cubic, hc.1.cwndRaw, hc.1.cwndRaw, hc.1.ssthresh⟩, hc.2⟩
  · exact ⟨⟨hc.1.cubic, hc.1.cwnd, hraw ▸ hc.1.cwndRaw, hc.1.ssthresh⟩, hc.2⟩

theorem checked32_of_lt {n : Nat} (h : n < 2 ^ 32) : checked32 n = some n := if_pos h

/-- A share of `717 / 1024` of a 32-bit window leaves room for three segments. -/
theorem beta_add_lt {wnd smss : Nat} (hwnd : wnd < 2 ^ 32) (hmss : smss ≤ 1460) :
    (wnd * 717) >>> 10 % 2 ^ 32 + 3 * smss < 2 ^ 32 := by
  have hle := Nat.mod_le ((wnd * 717) >>> 10) (2 ^ 32)
  rw [Nat.shiftRight_eq_div_pow] at hle ⊢
  omega

/-- **The reaction to a loss does not overflow** unless nine times the last window does. -/
theorem onCongestionEvent_total {t : TcpControlBlock} (h : t.InRange) (M : CubicMath)
    (now : Instant) (hmax : 9 * t.cc.lastMaxCwnd < 2 ^ 32) :
    ∃ c, onCongestionEvent M now t = some c ∧ c.InRange ∧ c.lastMaxCwnd = t.cc.cwnd ∧
      c.inFastRecovery = t.cc.inFastRecovery ∧ c.duplicateAckCount = t.cc.duplicateAckCount := by
  obtain ⟨s, halgo, hbeta⟩ := h.cc.cubic
  have hmss := h.smss_le
  have hcwnd := beta_add_lt h.cc.cwnd hmss
  have hraw := beta_add_lt h.cc.cwndRaw hmss
  have hss : (t.cc.cwnd * 717) >>> 10 % 2 ^ 32 < 2 ^ 32 := Nat.mod_lt _ (by decide)
  have hnine : t.cc.cwnd < s.lastMaxCwnd → t.cc.cwnd * 9 < 2 ^ 32 := by
    intro hless
    unfold Congestion.lastMaxCwnd at hmax
    rw [halgo] at hmax
    dsimp only at hmax
    omega
  unfold onCongestionEvent
  simp only [halgo, hbeta, checked32_of_lt hcwnd, checked32_of_lt hraw, some_bind]
  split
  next hless =>
    rw [checked32_of_lt (hnine hless)]
    exact ⟨_, rfl, ⟨⟨_, rfl, rfl⟩, hcwnd, hraw, hss⟩, rfl, rfl, rfl⟩
  · exact ⟨_, rfl, ⟨⟨_, rfl, rfl⟩, hcwnd, hraw, hss⟩, rfl, rfl, rfl⟩

/-! ## Round-trip times -/

theorem RttState.estimate_of_some {s : RttState} {srtt rttvar : Nat} (hs : s.srtt = some srtt)
    (hv : s.rttvar = some rttvar) (h1 : srtt ≤ 2 ^ 61) (h2 : rttvar ≤ 2 ^ 61) (r : Nat) :
    s.estimate r =
      some (7 * srtt / 8 + r / 8, 3 * rttvar / 4 + (max srtt r - min srtt r) / 4) := by
  have hfits : 3 * rttvar < 2 ^ 64 ∧ 7 * srtt < 2 ^ 64 := by omega
  unfold RttState.estimate
  rw [hs, hv]
  exact if_pos hfits

/-- A sample below `2 ^ 61` is taken in without overflow. -/
theorem RttState.InRange.estimate {s : RttState} (h : s.InRange) {r : Nat} (hr : r ≤ 2 ^ 61) :
    ∃ srtt rttvar : Nat, s.estimate r = some (srtt, rttvar) ∧ srtt ≤ 2 ^ 61 ∧
      rttvar ≤ 2 ^ 61 := by
  have hfirst : r / 2 ≤ 2 ^ 61 := by omega
  cases hs : s.srtt with
  | none =>
    refine ⟨r, r / 2, ?_, hr, hfirst⟩
    unfold RttState.estimate
    rw [hs]
  | some srtt =>
    cases hv : s.rttvar with
    | none =>
      refine ⟨r, r / 2, ?_, hr, hfirst⟩
      unfold RttState.estimate
      rw [hs, hv]
    | some rttvar =>
      have h1 := h.srtt srtt hs
      have h2 := h.rttvar rttvar hv
      exact ⟨_, _, RttState.estimate_of_some hs hv h1 h2 r, by omega, by omega⟩

namespace TcpControlBlock

variable {t t' : TcpControlBlock} {M : CubicMath} {seg : Segment} {now : Nat}

/-- A change that leaves the congestion record, the estimators, the snapshots and the segment size
alone. -/
theorem InRange.congr (h : t.InRange) (hcc : t'.cc = t.cc) (hrtt : t'.rtt = t.rtt)
    (hsack : t'.sack = t.sack) (heifel : t'.eifel = t.eifel) (hfrto : t'.frto = t.frto)
    (hneg : t'.neg = t.neg) : t'.InRange := by
  refine ⟨hcc ▸ h.cc, hrtt ▸ h.rtt, ?_, ?_, ?_, ?_, ?_⟩
  · exact hsack ▸ h.undoCwnd
  · exact hsack ▸ h.undoSsthresh
  · exact heifel ▸ h.pipePrev
  · exact hfrto ▸ h.prevSsthresh
  · exact hneg ▸ h.effectiveMss

theorem Sized.quiet (h : t.Sized) (hq : Quiet t t') : t'.Sized := by
  have hsteering := hq.steering
  simp only [steering, SackState.undo, Prod.mk.injEq, Steering.mk.injEq] at hsteering
  obtain ⟨halgo, hcwnd, hss, hraw, hmss, -, ⟨hundo, hundoSs, -⟩, hpipe, hfrto⟩ := hsteering
  exact ⟨⟨halgo ▸ h.cc.cubic, hcwnd ▸ h.cc.cwnd, hraw ▸ h.cc.cwndRaw, hss ▸ h.cc.ssthresh⟩,
    hundo ▸ h.undoCwnd, hundoSs ▸ h.undoSsthresh, hpipe ▸ h.pipePrev, hfrto ▸ h.prevSsthresh,
    hmss ▸ h.effectiveMss⟩

theorem InRange.steady (h : t.InRange) (hs : Steady t t') : t'.InRange := by
  have hconduct := hs.conduct
  simp only [conduct, Prod.mk.injEq] at hconduct
  obtain ⟨-, -, -, -, hsrtt, hvar⟩ := hconduct
  exact { h.sized.quiet hs.quiet with rtt := ⟨hsrtt ▸ h.rtt.srtt, hvar ▸ h.rtt.rttvar⟩ }

theorem InRange.updateRttEstimators (h : t.InRange) {r : Nat} (hr : r ≤ 2 ^ 61) :
    ∃ t', t.updateRttEstimators r = some t' ∧ t'.InRange ∧ t'.cc = t.cc ∧ t'.neg = t.neg := by
  obtain ⟨srtt, rttvar, hest, h1, h2⟩ := h.rtt.estimate hr
  unfold TcpControlBlock.updateRttEstimators
  rw [hest]
  refine ⟨_, rfl, { h with rtt := ⟨?_, ?_⟩ }, rfl, rfl⟩
  · intro x hx
    cases hx
    exact h1
  intro x hx
  cases hx
  exact h2

theorem InRange.sampleTimestamp (h : t.InRange) (now : Instant) (tsecr : BitVec 32) (low : Nat) :
    ∃ t', t.sampleTimestamp now tsecr low = some t' ∧ t'.InRange ∧ t'.cc = t.cc ∧
      t'.neg = t.neg := by
  unfold TcpControlBlock.sampleTimestamp
  dsimp only
  split
  next hms =>
    apply h.updateRttEstimators
    -- at most a minute
    show (t.tcpTsNow now - tsecr).toNat * 1000000 ≤ 2 ^ 61
    omega
  · exact ⟨t, rfl, h, rfl, rfl⟩

theorem InRange.completeProbe (h : t.InRange) (ack : SeqNum) (hnow : now ≤ 2 ^ 61) :
    ∃ t', t.completeProbe ack now = some t' ∧ t'.InRange ∧ t'.cc = t.cc ∧ t'.neg = t.neg := by
  unfold TcpControlBlock.completeProbe
  split
  · exact ⟨t, rfl, h, rfl, rfl⟩
  split
  · have h1 : InRange { t with rtt := { t.rtt with probe := none } } :=
      { h with rtt := { h.rtt with } }
    dsimp only
    split
    · exact h1.updateRttEstimators (by omega)
    · exact ⟨_, rfl, h1, rfl, rfl⟩
  · exact ⟨t, rfl, h, rfl, rfl⟩

/-! ## Detectors and recovery -/

/-- The snapshots are not touched. -/
theorem Sized.setCc (h : t.Sized) {cc : Congestion} (hcc : cc.InRange) :
    Sized { t with cc := cc } :=
  { h with cc := hcc }

theorem Sized.clearEifel (h : t.Sized) : Sized { t with eifel := .new } :=
  { h with pipePrev := nofun }

theorem Sized.clearFrto (h : t.Sized) : Sized { t with frto := t.frto.clear } := { h with }

theorem Sized.smss_lt (h : t.Sized) : 2 * t.smss < 2 ^ 32 := by
  have := smss_le_of_effectiveMss h.effectiveMss
  omega

/-- A detector leaves the estimators and the state of the algorithm alone. -/
theorem InRange.detector (h : t.InRange) (hsized : t'.Sized)
    (hkeeps : t'.rtt = t.rtt ∧ t'.cc.algo = t.cc.algo) : t'.InRange ∧ t'.cc.algo = t.cc.algo :=
  ⟨{ hsized with rtt := hkeeps.1 ▸ h.rtt }, hkeeps.2⟩

theorem Sized.eifelOnAcceptableAck (h : t.Sized) (tsecr : Option (BitVec 32)) (ece : Bool) :
    (t.eifelOnAcceptableAck tsecr ece).Sized := by
  unfold TcpControlBlock.eifelOnAcceptableAck
  split
  · exact h
  split
  · exact h.clearEifel
  have hcwnd := satAdd32_lt t.flightSizeBytes (min t.eifel.bytesAcked eifelIwBytes)
  have hprev : t.eifel.pipePrev.getD t.flightSizeBytes < 2 ^ 32 := by
    cases hp : t.eifel.pipePrev with
    | none => exact t.flightSizeBytes_lt
    | some x => exact h.pipePrev x hp
  exact { h with cc := ⟨h.cc.cubic, hcwnd, hcwnd, hprev⟩, pipePrev := nofun }

theorem InRange.eifelOnAcceptableAck (h : t.InRange) (tsecr : Option (BitVec 32)) (ece : Bool) :
    (t.eifelOnAcceptableAck tsecr ece).InRange ∧
      (t.eifelOnAcceptableAck tsecr ece).cc.algo = t.cc.algo := by
  apply h.detector (h.sized.eifelOnAcceptableAck tsecr ece)
  unfold TcpControlBlock.eifelOnAcceptableAck
  split
  · exact ⟨rfl, rfl⟩
  · split <;> exact ⟨rfl, rfl⟩

theorem Sized.frtoDeclareSpurious (h : t.Sized) : t.frtoDeclareSpurious.Sized := by
  have hmss := h.smss_lt
  have hadd := satAdd32_lt t.flightSizeBytes t.smss
  have hss := h.cc.ssthresh
  have hprev := h.prevSsthresh
  have hcwnd : max (satAdd32 t.flightSizeBytes t.smss) (2 * t.smss) < 2 ^ 32 := by omega
  refine { h with cc := ⟨h.cc.cubic, hcwnd, hcwnd, ?_⟩, pipePrev := nofun }
  show max t.frto.prevSsthresh (max (2 * t.smss) t.cc.ssthresh) < 2 ^ 32
  omega

theorem Sized.frtoOnAck (h : t.Sized) (isDup : Bool) : (t.frtoOnAck isDup).Sized := by
  have hmss := h.smss_lt
  have hcwnd := h.cc.cwnd
  have hraw := h.cc.cwndRaw
  unfold TcpControlBlock.frtoOnAck
  split
  · exact h.clearFrto
  split
  · exact h
  · split
    · exact h.clearFrto
    have hcwnd' : max t.cc.cwnd t.smss < 2 ^ 32 := by omega
    have hraw' : max t.cc.cwv.cwndRaw t.smss < 2 ^ 32 := by omega
    exact { h with cc := ⟨h.cc.cubic, hcwnd', hraw', h.cc.ssthresh⟩ }
  · split
    · exact h.clearFrto
    · exact h.frtoDeclareSpurious

theorem InRange.frtoOnAck (h : t.InRange) (isDup : Bool) :
    (t.frtoOnAck isDup).InRange ∧ (t.frtoOnAck isDup).cc.algo = t.cc.algo := by
  apply h.detector (h.sized.frtoOnAck isDup)
  unfold TcpControlBlock.frtoOnAck
  repeat' split
  all_goals exact ⟨rfl, rfl⟩

theorem Sized.sackDsackUndo (h : t.Sized) : t.sackDsackUndo.Sized := by
  have hmss := h.smss_lt
  have hundo := h.undoCwnd
  have hcwnd : max t.sack.undoCwnd t.smss < 2 ^ 32 := by omega
  unfold TcpControlBlock.sackDsackUndo
  split
  · exact { h with cc := ⟨h.cc.cubic, hcwnd, hcwnd, h.undoSsthresh⟩ }
  · exact { h with }

theorem InRange.sackDsackUndo (h : t.InRange) :
    t.sackDsackUndo.InRange ∧ t.sackDsackUndo.cc.algo = t.cc.algo := by
  apply h.detector h.sized.sackDsackUndo
  unfold TcpControlBlock.sackDsackUndo
  split <;> exact ⟨rfl, rfl⟩

theorem InRange.sackTxApplyBlock (h : t.InRange) (ack : SeqNum) (b : SackBlock) :
    (sackTxApplyBlock ack t b).InRange ∧ (sackTxApplyBlock ack t b).cc.algo = t.cc.algo := by
  unfold TcpControlBlock.sackTxApplyBlock
  split
  · exact h.sackDsackUndo
  · exact ⟨{ h with }, rfl⟩

theorem InRange.sackTxApply (ack : SeqNum) (blocks : List SackBlock) :
    ∀ {t : TcpControlBlock}, t.InRange →
      (t.sackTxApply ack blocks).InRange ∧ (t.sackTxApply ack blocks).cc.algo = t.cc.algo := by
  induction blocks with
  | nil => exact fun h => ⟨h, rfl⟩
  | cons b blocks ih =>
    intro t h
    obtain ⟨h1, ha1⟩ := h.sackTxApplyBlock ack b
    obtain ⟨h2, ha2⟩ := ih h1
    exact ⟨h2, ha2.trans ha1⟩

theorem undo_rackNoteDelivery (s : SackState) (newest : Option Instant) (now : Instant) :
    (s.rackNoteDelivery newest now).undoCwnd = s.undoCwnd ∧
      (s.rackNoteDelivery newest now).undoSsthresh = s.undoSsthresh := by
  unfold SackState.rackNoteDelivery
  split
  · split <;> exact ⟨rfl, rfl⟩
  · exact ⟨rfl, rfl⟩

theorem undo_rackUpdateReorderingWindow (s : SackState) :
    s.rackUpdateReorderingWindow.undoCwnd = s.undoCwnd ∧
      s.rackUpdateReorderingWindow.undoSsthresh = s.undoSsthresh := by
  unfold SackState.rackUpdateReorderingWindow
  split <;> exact ⟨rfl, rfl⟩

theorem InRange.rackDetect (h : t.InRange) (now : Instant) : (t.rackDetect now).InRange := by
  obtain ⟨h1, h2⟩ := undo_rackNoteDelivery t.sack
    (((t.snd.retransmissionQueue.filter (·.sacked)).map (·.xmitMstamp)).max?) now
  obtain ⟨h3, h4⟩ := undo_rackUpdateReorderingWindow (t.sack.rackNoteDelivery
    (((t.snd.retransmissionQueue.filter (·.sacked)).map (·.xmitMstamp)).max?) now)
  exact { h with
    undoCwnd := (h3.trans h1) ▸ h.undoCwnd
    undoSsthresh := (h4.trans h2) ▸ h.undoSsthresh }

theorem InRange.detectLoss (h : t.InRange) (seg : Segment) (now : Instant) :
    (t.detectLoss seg now).InRange ∧ (t.detectLoss seg now).cc.algo = t.cc.algo := by
  unfold TcpControlBlock.detectLoss
  split
  · exact ⟨h, rfl⟩
  obtain ⟨h1, ha1⟩ := InRange.sackTxApply seg.ack (parseSackBlocks seg.options) h
  generalize t.sackTxApply seg.ack (parseSackBlocks seg.options) = t1 at h1 ha1
  have h2 : InRange { t1 with snd := { t1.snd with
      retransmissionQueue := sackMarkLost t1.smss t1.snd.retransmissionQueue } } :=
    h1.congr rfl rfl rfl rfl rfl rfl
  exact ⟨h2.rackDetect now, ha1⟩

theorem InRange.advanceUna (h : t.InRange) (seg : Segment) :
    (t.advanceUna seg).InRange ∧ (t.advanceUna seg).cc.algo = t.cc.algo := by
  have h1 : InRange { t with
      snd := { t.snd with una := seg.ack }
      cc := { t.cc with duplicateAckCount := 0 }
      eifel := { t.eifel with bytesAcked := (seg.ack - t.snd.una).toNat } } :=
    { h with cc := { h.cc with } }
  unfold TcpControlBlock.advanceUna
  dsimp only
  split
  · exact h1.eifelOnAcceptableAck _ _
  · exact h1.frtoOnAck false

/-! ## Acknowledgements -/

/-- What the acknowledgement of a segment needs: the duplicate counter and the windows of a loss
and of a recovery are away from their limits. -/
structure AckOk (t : TcpControlBlock) : Prop where
  lastMaxCwnd : 9 * t.cc.lastMaxCwnd < 2 ^ 32
  duplicateAckCount : t.cc.duplicateAckCount + 1 < 2 ^ 32
  recovery : t.cc.inFastRecovery = true → t.cc.ssthresh + 3 * t.smss < 2 ^ 32

/-- An ECN echo may make the present window the last one. -/
structure ArithOk (t : TcpControlBlock) : Prop extends AckOk t where
  cwnd : 9 * t.cc.cwnd < 2 ^ 32

theorem ArithOk.congr (h : t.ArithOk) (hcc : t'.cc = t.cc) (hneg : t'.neg = t.neg) :
    t'.ArithOk := by
  have hsmss : t'.smss = t.smss := by
    unfold smss
    rw [hneg]
  refine ⟨⟨?_, ?_, ?_⟩, ?_⟩
  · rw [hcc]
    exact h.lastMaxCwnd
  · rw [hcc]
    exact h.duplicateAckCount
  · rw [hcc, hsmss]
    exact h.recovery
  · rw [hcc]
    exact h.cwnd

instance (t : TcpControlBlock) : Decidable t.ArithOk :=
  decidable_of_iff
    (((9 * t.cc.lastMaxCwnd < 2 ^ 32 ∧ t.cc.duplicateAckCount + 1 < 2 ^ 32) ∧
      (t.cc.inFastRecovery = true → t.cc.ssthresh + 3 * t.smss < 2 ^ 32)) ∧
      9 * t.cc.cwnd < 2 ^ 32)
    ⟨fun ⟨⟨⟨h1, h2⟩, h3⟩, h4⟩ => ⟨⟨h1, h2, h3⟩, h4⟩,
      fun h => ⟨⟨⟨h.lastMaxCwnd, h.duplicateAckCount⟩, h.recovery⟩, h.cwnd⟩⟩

section

variable (h : t.InRange)
include h

theorem InRange.eceReaction (ha : t.ArithOk) (M : CubicMath) (seg : Segment) (now : Instant) :
    ∃ t' reacted, t.eceReaction M seg now = some (t', reacted) ∧ t'.InRange ∧ t'.AckOk := by
  unfold TcpControlBlock.eceReaction
  split
  next hcond =>
    obtain ⟨c, hc, hr, hlast, hrec, hdup⟩ := onCongestionEvent_total h M now ha.lastMaxCwnd
    rw [hc]
    refine ⟨_, _, rfl, { h with cc := hr }, ?_, ?_, ?_⟩
    · show 9 * c.lastMaxCwnd < 2 ^ 32
      rw [hlast]
      exact ha.cwnd
    · show c.duplicateAckCount + 1 < 2 ^ 32
      rw [hdup]
      exact ha.duplicateAckCount
    · -- no reaction within a recovery
      intro hin
      rw [hrec] at hin
      simp [hin] at hcond
  · exact ⟨t, false, rfl, h, ha.toAckOk⟩

theorem InRange.ackInRecovery (ha : t.AckOk) (ack : SeqNum) :
    ∃ t' partialAck, t.ackInRecovery ack = some (t', partialAck) ∧ t'.InRange ∧
      t'.cc.algo = t.cc.algo := by
  have hss := h.cc.ssthresh
  unfold TcpControlBlock.ackInRecovery
  split
  · exact ⟨t, none, rfl, h, rfl⟩
  split
  · exact ⟨_, _, rfl, { h with cc := ⟨h.cc.cubic, hss, hss, hss⟩ }, rfl⟩
  next hrec _ =>
    have hcwnd := ha.recovery (by simpa using hrec)
    rw [checked32_of_lt hcwnd]
    exact ⟨_, _, rfl, { h with cc := ⟨h.cc.cubic, hcwnd, hcwnd, hss⟩ }, rfl⟩

theorem InRange.enterRecovery (hmax : 9 * t.cc.lastMaxCwnd < 2 ^ 32) (M : CubicMath)
    (now : Instant) :
    ∃ t', t.enterRecovery M now = some t' ∧ t'.InRange := by
  have hsnap : (if t.sack.enabled then t.sackEnterRecovery else t).InRange ∧
      (if t.sack.enabled then t.sackEnterRecovery else t).cc = t.cc := by
    split
    · exact ⟨{ h with undoCwnd := h.cc.cwnd, undoSsthresh := h.cc.ssthresh }, rfl⟩
    · exact ⟨h, rfl⟩
  unfold TcpControlBlock.enterRecovery
  generalize (if t.sack.enabled then t.sackEnterRecovery else t) = t1 at hsnap
  obtain ⟨h1, hcc⟩ := hsnap
  have h2 : InRange { t1 with cc := { t1.cc with inFastRecovery := true } } :=
    { h1 with cc := { h1.cc with } }
  obtain ⟨c, hc, hr, -⟩ := onCongestionEvent_total h2 M now (by
    rw [Congestion.lastMaxCwnd_congr (c := t.cc) (by rw [hcc])]
    exact hmax)
  dsimp only
  rw [hc]
  exact ⟨_, rfl, { h2 with cc := hr }⟩

theorem InRange.recoverIfLost (hmax : 9 * t.cc.lastMaxCwnd < 2 ^ 32) (M : CubicMath) (now : Instant)
    :
    ∃ t' lost, t.recoverIfLost M now = some (t', lost) ∧ t'.InRange := by
  unfold TcpControlBlock.recoverIfLost
  split
  · obtain ⟨t', ht, h'⟩ := h.enterRecovery hmax M now
    rw [ht]
    exact ⟨t', true, rfl, h'⟩
  · exact ⟨t, false, rfl, h⟩

theorem InRange.ackAdvances (ha : t.AckOk) (M : CubicMath) (seg : Segment) (hnow : now ≤ 2 ^ 61)
    (plan : Plan) : ∃ t' plan', t.ackAdvances M seg now plan = some (t', plan') ∧ t'.InRange := by
  obtain ⟨t1, partialAck, e1, h1, a1⟩ := h.ackInRecovery ha seg.ack
  obtain ⟨h2, a2⟩ := h1.advanceUna seg
  obtain ⟨t3, e3, h3, c3, -⟩ := h2.completeProbe seg.ack hnow
  obtain ⟨hcc, a4⟩ :=
    updateCongestionWindow_inRange h3.cc M now (seg.ack - t.snd.una).toNat
  have h4 : (t3.growWindow M (seg.ack - t.snd.una).toNat now).InRange :=
    { h3 with cc := hcc }
  obtain ⟨h5, a5⟩ := h4.detectLoss seg now
  -- none of these steps changes the state of the algorithm, so the last window is still small
  have hmax : 9 * ((t3.growWindow M (seg.ack - t.snd.una).toNat now).detectLoss seg
      now).cc.lastMaxCwnd < 2 ^ 32 := by
    rw [Congestion.lastMaxCwnd_congr (c := t.cc)]
    · exact ha.lastMaxCwnd
    · exact a5.trans (a4.trans ((congrArg Congestion.algo c3).trans (a2.trans a1)))
  obtain ⟨t6, lost, e6, h6⟩ := h5.recoverIfLost hmax M now
  unfold TcpControlBlock.ackAdvances
  simp only [e1, e3, e6, some_bind]
  refine ⟨_, _, rfl, ?_⟩
  have h7 : ((t6.drainRetransmissionQueue seg.ack).tlpArm now).InRange :=
    h6.steady ((sends_drainRetransmissionQueue seg.ack).trans tunes_tlpArm.sends).toSteady
  split
  · exact h7.steady (sends_finAcked _).toSteady
  · exact h7

theorem InRange.countDuplicate (seg : Segment) (count : Nat) (now : Instant) :
    (t.countDuplicate seg count now).InRange ∧
      (t.countDuplicate seg count now).cc.algo = t.cc.algo := by
  have h1 : InRange { t with cc := { t.cc with duplicateAckCount := count } } :=
    { h with cc := { h.cc with } }
  unfold TcpControlBlock.countDuplicate
  dsimp only
  split
  · obtain ⟨h2, a2⟩ := h1.frtoOnAck true
    obtain ⟨h3, a3⟩ := h2.detectLoss seg now
    exact ⟨h3, a3.trans a2⟩
  · exact h1.detectLoss seg now

theorem InRange.reactToDuplicate (hmax : 9 * t.cc.lastMaxCwnd < 2 ^ 32) (M : CubicMath)
    (now : Instant) (plan : Plan) :
    ∃ t' plan', t.reactToDuplicate M now plan = some (t', plan') ∧ t'.InRange := by
  unfold TcpControlBlock.reactToDuplicate
  dsimp only
  split
  · obtain ⟨t', ht, h'⟩ := h.enterRecovery hmax M now
    rw [ht]
    exact ⟨t', _, rfl, h'⟩
  split
  · exact ⟨_, _, rfl,
      { h with cc := ⟨h.cc.cubic, satAdd32_lt _ _, satAdd32_lt _ _, h.cc.ssthresh⟩ }⟩
  · exact ⟨t, plan, rfl, h⟩

/-- **Every acknowledgement is processed**, and the numbers stay in range. -/
theorem InRange.processAck (ha : t.ArithOk) (M : CubicMath) (seg : Segment) (hnow : now ≤ 2 ^ 61) :
    ∃ t' plan, t.processAck M seg now = some (t', plan) ∧ t'.InRange := by
  obtain ⟨t1, reacted, e1, h1, ha1⟩ := h.eceReaction ha M seg now
  unfold TcpControlBlock.processAck
  simp only [e1, some_bind]
  split
  · exact ⟨t1, _, rfl, h1⟩
  split
  · exact h1.ackAdvances ha1 M seg hnow _
  split
  · unfold TcpControlBlock.ackDuplicates
    obtain ⟨h2, a2⟩ := h1.countDuplicate seg (t1.cc.duplicateAckCount + 1) now
    rw [checked32_of_lt ha1.duplicateAckCount]
    apply h2.reactToDuplicate
    rw [Congestion.lastMaxCwnd_congr a2]
    exact ha1.lastMaxCwnd
  · split <;> exact ⟨t1, _, rfl, h1⟩

end

/-! ## Timers -/

theorem Sized.retimeHead (h : t.Sized) (nestedAbort : Bool) (now : Instant) :
    (t.retimeHead nestedAbort now).Sized := by
  refine { h with cc := { h.cc with }, prevSsthresh := ?_ }
  unfold TcpControlBlock.retimeHead
  split <;> exact h.prevSsthresh

theorem Sized.armDetectors (h : t.Sized) (s : UnackedSegment) (nestedAbort : Bool) :
    (t.armDetectors s nestedAbort).Sized := by
  have hflight := t.flightSizeBytes_lt
  have hss := h.cc.ssthresh
  unfold TcpControlBlock.armDetectors
  split
  · unfold eifelOnRtoBeforeMd
    split
    · exact h
    refine { h with pipePrev := ?_ }
    intro x hx
    cases hx
    omega
  · split
    · unfold frtoOnRto
      split
      · exact h
      · exact { h with pipePrev := nofun, prevSsthresh := hss }
    · exact h.clearEifel

theorem Sized.rtoCongestion (h : t.Sized) (flight : Nat) (now : Instant) :
    (t.rtoCongestion flight now).InRange := by
  obtain ⟨s, halgo, hbeta⟩ := h.cc.cubic
  have hmss := h.smss_lt
  have hsmss : t.smss < 2 ^ 32 := by omega
  unfold TcpControlBlock.rtoCongestion
  simp only [halgo]
  refine ⟨⟨_, rfl, hbeta⟩, hsmss, hsmss, ?_⟩
  show max ((flight * s.beta) >>> 10 % 2 ^ 32) (2 * t.smss) < 2 ^ 32
  omega

theorem Sized.onRto (h : t.Sized) (s : UnackedSegment) (now : Instant) : (t.onRto s now).Sized := by
  have harmed := (h.retimeHead (!t.ts.enabled && t.frto.phase != .idle) now).armDetectors s
    (!t.ts.enabled && t.frto.phase != .idle)
  refine Sized.quiet ?_ (tunes_cancelProbe s.seq).sends.quiet
  exact { harmed with cc := harmed.rtoCongestion _ now }

theorem InRange.onRto (h : t.InRange) (s : UnackedSegment) (now : Instant) :
    (t.onRto s now).InRange := by
  have harmed := (h.sized.retimeHead (!t.ts.enabled && t.frto.phase != .idle) now).armDetectors s
    (!t.ts.enabled && t.frto.phase != .idle)
  have hrtt : RttState.InRange (((t.retimeHead (!t.ts.enabled && t.frto.phase != .idle)
      now).armDetectors s (!t.ts.enabled && t.frto.phase != .idle)).rtt) := by
    unfold TcpControlBlock.armDetectors eifelOnRtoBeforeMd frtoOnRto
    repeat' split
    all_goals exact h.rtt
  refine InRange.steady ?_ (tunes_cancelProbe s.seq).sends.toSteady
  exact { harmed with cc := harmed.rtoCongestion _ now, rtt := { hrtt with } }

theorem InRange.tickRetransmissionTimer (h : t.InRange) (now : Instant) :
    (t.tickRetransmissionTimer now).1.InRange := by
  unfold TcpControlBlock.tickRetransmissionTimer
  split
  · exact h
  split
  · exact h
  split
  · exact h
  split
  · exact h.congr rfl rfl rfl rfl rfl rfl
  · exact h.onRto _ now

end TcpControlBlock

end Moose.Tcp
