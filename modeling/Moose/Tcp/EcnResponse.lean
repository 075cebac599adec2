import Moose.Tcp.Total

/-!
# The response to a congestion mark

An acknowledgement with ECE calls `on_congestion_event`, the reaction to a loss. It cuts the window
to a share of it and then adds three segments, the inflation of Fast Recovery: three duplicates have
left the network. After a mark nothing has. `onCongestionEvent_cubic` and `onCongestionEvent_reno`
say what the windows are afterwards, for either algorithm.

Whatever a connection does, its windows stay 32-bit numbers, its segments have at most 1460 bytes
and CUBIC keeps its constant (`Sized`). A run of the driver is a run of changes, so it is enough
that every single change keeps this (`Sized.change`).
-/

set_option autoImplicit false

namespace Moose.Tcp

open Option Lib

variable {M : CubicMath} {t t' : TcpControlBlock} {seg : Segment} {now : Instant}
  {cc : Congestion}

/-! ## The reaction -/

theorem onCongestionEvent_cubic {s : CubicState} (halgo : t.cc.algo = .cubic s)
    (h : onCongestionEvent M now t = some cc) :
    (t.cc.cwnd < s.lastMaxCwnd → t.cc.cwnd * 9 < 2 ^ 32) ∧
      (∃ s', cc.algo = .cubic s' ∧ s'.beta = s.beta) ∧
      cc.ssthresh = (t.cc.cwnd * s.beta) >>> 10 % 2 ^ 32 ∧
      cc.cwnd = (t.cc.cwnd * s.beta) >>> 10 % 2 ^ 32 + 3 * t.smss ∧ cc.cwnd < 2 ^ 32 ∧
      cc.cwv.cwndRaw = (t.cc.cwv.cwndRaw * s.beta) >>> 10 % 2 ^ 32 + 3 * t.smss ∧
      cc.cwv.cwndRaw < 2 ^ 32 := by
  simp only [onCongestionEvent, halgo, bind_eq_bind] at h
  split at h
  · simp only [bind_eq_some_iff, map_eq_some_iff, checked32_eq_some,
      some.injEq] at h
    obtain ⟨-, ⟨-, ⟨hnine, -⟩, -⟩, -, ⟨hcwnd, rfl⟩, -, ⟨hraw, rfl⟩, -, rfl, rfl⟩ := h
    exact ⟨fun _ => hnine, ⟨_, rfl, rfl⟩, rfl, rfl, hcwnd, rfl, hraw⟩
  next hless =>
    simp only [bind_eq_some_iff, checked32_eq_some, some.injEq] at h
    obtain ⟨-, -, -, ⟨hcwnd, rfl⟩, -, ⟨hraw, rfl⟩, -, rfl, rfl⟩ := h
    exact ⟨fun h => absurd h hless, ⟨_, rfl, rfl⟩, rfl, rfl, hcwnd, rfl, hraw⟩

/-- The bytes in flight that Reno halves. -/
def TcpControlBlock.pipe (t : TcpControlBlock) : Nat :=
  if t.sack.enabled then sackPipeBytes t.snd.retransmissionQueue else t.flightSizeBytes

theorem onCongestionEvent_reno {recover : SeqNum} (halgo : t.cc.algo = .reno recover)
    (h : onCongestionEvent M now t = some cc) :
    cc.algo = .reno t.snd.nxt ∧ cc.ssthresh = max (t.pipe / 2) (2 * t.smss) ∧
      cc.cwnd = max (t.pipe / 2) (2 * t.smss) + 3 * t.smss ∧ cc.cwnd < 2 ^ 32 ∧
      cc.cwv.cwndRaw = satAdd32 (max (t.cc.cwv.cwndRaw / 2) (2 * t.smss)) (3 * t.smss) := by
  simp only [onCongestionEvent, halgo, bind_eq_some, checked32_eq_some, some.injEq] at h
  obtain ⟨-, ⟨hcwnd, rfl⟩, -, rfl, rfl⟩ := h
  exact ⟨rfl, rfl, rfl, hcwnd, rfl⟩

namespace TcpControlBlock

/-! ## The numbers stay in range -/

theorem Sized.negotiates (h : t.Sized) (hn : Negotiates t t') (hmss : t'.neg.effectiveMss ≤ mss) :
    t'.Sized := by
  -- up to the segment size and the timestamps nothing is steered
  have hquiet : Quiet t { t' with
      neg := { t'.neg with effectiveMss := t.neg.effectiveMss }, ts := t.ts, state := t.state } :=
    ⟨congrArg (fun s : Steering =>
      { s with effectiveMss := t.neg.effectiveMss, ts := t.ts }) hn⟩
  have hsized := h.quiet hquiet
  exact { hsized with effectiveMss := hmss }

theorem Sized.onCongestionEvent (h : t.Sized) (hc : Tcp.onCongestionEvent M now t = some cc) :
    cc.InRange := by
  obtain ⟨s, halgo, hbeta⟩ := h.cc.cubic
  obtain ⟨-, ⟨s', halgo', hbeta'⟩, hss, -, hcwnd, -, hraw⟩ := onCongestionEvent_cubic halgo hc
  refine ⟨⟨s', halgo', hbeta'.trans hbeta⟩, hcwnd, hraw, ?_⟩
  rw [hss]
  exact Nat.mod_lt _ (by decide)

theorem Sized.ackInRecovery (h : t.Sized) {ack : SeqNum} {p : Option SeqNum}
    (hack : t.ackInRecovery ack = some (t', p)) : t'.Sized := by
  obtain ⟨cc, rfl, rfl | ⟨halgo, hss, hraw, hcwnd⟩⟩ := ackInRecovery_cases hack
  · exact h
  have hlt := h.cc.ssthresh
  exact h.setCc ⟨halgo ▸ h.cc.cubic, by omega, by omega, by omega⟩

theorem Sized.change (h : t.Sized) {c : Change} (hc : t.change M c = some t') : t'.Sized := by
  cases c with
  | other next =>
    obtain ⟨hq, rfl⟩ := change_other.mp hc
    exact h.quiet hq
  | timestamp now seq tsval syn =>
    obtain ⟨hn, hneg⟩ := negotiates_onRxTimestamp hc
    exact h.negotiates hn (hneg ▸ h.effectiveMss)
  | grow bytesAcked now =>
    cases hc
    exact h.setCc (updateCongestionWindow_inRange h.cc M now bytesAcked).1
  | congestion now =>
    obtain ⟨cc, hcc, rfl⟩ := map_eq_some_iff.mp hc
    exact h.setCc (h.onCongestionEvent hcc)
  | recoveryAck ack =>
    obtain ⟨⟨t1, p⟩, h1, rfl⟩ := map_eq_some_iff.mp hc
    exact h.ackInRecovery h1
  | inflate =>
    cases hc
    exact h.setCc ⟨h.cc.cubic, satAdd32_lt _ _, satAdd32_lt _ _, h.cc.ssthresh⟩
  | snapshot =>
    cases hc
    exact { h with undoCwnd := h.cc.cwnd, undoSsthresh := h.cc.ssthresh }
  | dsackUndo =>
    cases hc
    exact h.sackDsackUndo
  | timeout s now =>
    cases hc
    exact h.onRto s now
  | eifelAck tsecr ece =>
    cases hc
    exact h.eifelOnAcceptableAck tsecr ece
  | frtoAck isDup =>
    cases hc
    exact h.frtoOnAck isDup
  | abort e =>
    cases hc
    unfold abortConnection
    split
    · exact h
    · exact { h with pipePrev := nofun }

theorem Sized.moves {kinds : Change → Bool} (h : t.Sized) (hm : Moves M kinds t t') : t'.Sized :=
  hm.induct (fun _ _ hq hu => hu.quiet hq) (fun _ _ _ _ hc hu => hu.change hc) h

theorem Opens.sized {settings : TcpSessionSettings} (h : Opens settings t) : t.Sized := by
  have hrange : t.InRange := by
    cases h with
    | active iss tsOffset now h =>
      obtain ⟨t1, h1, hsound⟩ := sound_connect settings iss tsOffset now
      rw [h1] at h
      cases h
      exact hsound.inRange
    | passive iss tsOffset syn now h =>
      obtain ⟨t1, h1, hsound⟩ := sound_processPassiveSyn settings iss tsOffset syn now
      rw [h1] at h
      cases h
      exact hsound.inRange
  exact hrange.sized

end TcpControlBlock

/-! ## A connection with ECN -/

/-- A passive open with ECN on both sides. -/
def TcpControlBlock.ecnOpen (options : List TcpOption) : Option TcpControlBlock :=
  processPassiveSyn { TcpSessionSettings.plain 4096 with ecnEnabled := true } 100 0
    { Segment.peerSyn 65535 options with flags := { syn := true, ece := true, cwr := true } } 0

def Segment.marked : Segment :=
  { Segment.ackOfSyn with flags := { ack := true, ece := true } }

end Moose.Tcp
