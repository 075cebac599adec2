import Moose.Tcp.Steering

/-!
# Protection against wrapped sequence numbers

`on_rx_timestamp` compares the timestamp of a segment with TS.Recent and drops the segment if it is
older. Nothing else that a segment does touches the timestamps (`ts_of_moves`), so this one function
decides how TS.Recent moves in any sequence of segments.

A reset is carried out before the timestamps are looked at. TS.Recent = 0 stands for "no timestamp
yet"; a peer whose clock passes through zero switches the protection off for one segment.
-/

set_option autoImplicit false

namespace Moose.Tcp

open Lib

namespace TcpControlBlock

variable {M : CubicMath} {t t' : TcpControlBlock} {seg : Segment} {now : Instant}

/-- The segments of an established connection; a step puts out how many bytes were stored. -/
def datagramStep (M : CubicMath) (t : TcpControlBlock) (i : Segment × Instant) :
    Option (TcpControlBlock × Nat) :=
  t.processDataDatagram M i.1 i.2

/-! ## Acknowledgements keep the timestamps -/

theorem Quiet.ts (h : Quiet t t') : t'.ts = t.ts := congrArg Steering.ts h.steering

theorem ts_change {c : Change} (hc : c.ofAck = true) (h : t.change M c = some t') :
    t'.ts = t.ts := by
  rcases change_ofAck hc h with hq | ⟨isDup, rfl⟩ | ⟨cc, sack, eifel, snd, rfl⟩
  · exact hq.ts
  · unfold frtoOnAck
    repeat' split
    all_goals rfl
  · rfl

theorem ts_of_moves (h : Moves M Change.ofAck t t') : t'.ts = t.ts :=
  h.induct (P := fun u => u.ts = t.ts)
    (fun _ _ hq hts => hq.ts.trans hts)
    (fun _ _ _ hc hchange hts => (ts_change hc hchange).trans hts) rfl

/-! ## One segment -/

/-- How a segment may move the timestamps. -/
def Stamped (t : TcpControlBlock) (seg : Segment) (now : Instant) (ts : TimestampState) : Prop :=
  ts = t.ts ∨ ∃ tsval, (t.pawsExempt seg now = true ∨ 0 ≤ SeqNum.dist tsval t.ts.tsRecent) ∧
    ts = { t.ts with tsRecent := tsval, lastAckTsSeq := seg.seq, recentAge := now }

theorem onRxTimestamp_stamped (hts : t.ts.enabled = true) {tsval : BitVec 32}
    (h : t.onRxTimestamp now seg.seq tsval seg.flags.syn false = some t') :
    t.Stamped seg now t'.ts := by
  rw [onRxTimestamp_eq] at h
  split at h
  · cases h
  next hpass =>
    split at h
    · cases h
      refine .inr ⟨tsval, ?_, rfl⟩
      simpa [-not_and, not_and_or, pawsRejects, hts] using hpass
    · cases h
      exact .inl rfl

theorem ts_noteEcn (t : TcpControlBlock) (seg : Segment) : (t.noteEcn seg).ts = t.ts :=
  tunes_noteEcn.sends.quiet.ts

theorem checkSegment_stamped (hts : t.ts.enabled = true) {go : Bool}
    (h : t.checkSegment seg now = some (t', go)) : t.Stamped seg now t'.ts := by
  rcases checkSegment_cases h with ⟨-, rfl⟩ | ⟨echo, rfl⟩ | ⟨-, echo, tsval, tsecr, t1, hstamp, hs⟩
  · exact .inl rfl
  · exact .inl rfl
  rw [Stamped, (quiet_sampleTimestamp hs).ts]
  have henabled :
      ({ t with ecn := { t.ecn with echoPending := echo } } : TcpControlBlock).ts.enabled = true :=
    hts
  have hstamped := onRxTimestamp_stamped henabled hstamp
  exact hstamped

theorem processDataDatagram_stamped (hts : t.ts.enabled = true) {n : Nat}
    (h : t.processDataDatagram M seg now = some (t', n)) : t.Stamped seg now t'.ts := by
  rcases processDataDatagram_cases h with ⟨-, -, echo, rfl⟩ | ⟨-, ⟨-, hcheck⟩ |
    ⟨t1, t2, plan, hcheck, hchecked, rfl⟩⟩
  · exact .inl rfl
  · exact checkSegment_stamped hts hcheck
  rw [Stamped, (pushes_carryOut plan).sends.quiet.ts, ts_of_moves (moves_processChecked hchecked)]
  exact checkSegment_stamped hts hcheck

theorem Stamped.forward {ts : TimestampState} (h : t.Stamped seg now ts)
    (hexempt : t.pawsExempt seg now = false) : 0 ≤ SeqNum.dist ts.tsRecent t.ts.tsRecent := by
  rcases h with rfl | ⟨tsval, hexempt' | hforward, rfl⟩
  · rw [SeqNum.dist, BitVec.sub_self]
    decide
  · rw [hexempt] at hexempt'
    cases hexempt'
  · exact hforward

/-- **An old segment is dropped.** Only the note that a congestion mark has to be echoed may
change. -/
theorem processDataDatagram_old (hts : t.ts.enabled = true)
    (hexempt : t.pawsExempt seg now = false) (hrst : seg.flags.rst = false)
    {tsval tsecr : BitVec 32} (hfind : findTimestamp seg.options = some (tsval, tsecr))
    (hold : SeqNum.dist tsval t.ts.tsRecent < 0) :
    ∃ ecn, t.processDataDatagram M seg now = some ({ t with ecn := ecn }, 0) := by
  unfold processDataDatagram
  split
  · split
    · exact ⟨_, rfl⟩
    · exact ⟨t.ecn, rfl⟩
  have hdropped : ∃ ecn, t.checkSegment seg now = some ({ t with ecn := ecn }, false) := by
    unfold checkSegment
    rw [hrst, if_neg (by decide)]
    split
    · exact ⟨t.ecn, rfl⟩
    have hnone : (t.noteEcn seg).onRxTimestamp now seg.seq tsval seg.flags.syn false = none := by
      rw [onRxTimestamp_eq, if_pos]
      unfold pawsExempt at hexempt
      simpa [pawsRejects, pawsExempt, ts_noteEcn, hts, hold] using hexempt
    obtain ⟨echo, hecn⟩ := noteEcn_only t seg
    refine ⟨{ t.ecn with echoPending := echo }, ?_⟩
    simp only [hfind, hnone]
    rw [hecn]
  obtain ⟨ecn, hdropped⟩ := hdropped
  exact ⟨ecn, by rw [hdropped]; rfl⟩

/-! ## Any sequence of segments -/

theorem run_ts_enabled (hts : t.ts.enabled = true) {segs : List (Segment × Instant)}
    {ns : List Nat} (h : run (datagramStep M) t segs = some (t', ns)) : t'.ts.enabled = true := by
  have hstep : ∀ (u : TcpControlBlock) (i : Segment × Instant) (u' : TcpControlBlock) (n : Nat),
      u.ts.enabled = true → True → datagramStep M u i = some (u', n) → u'.ts.enabled = true := by
    intro u i u' n hu _ hstep
    rcases processDataDatagram_stamped hu hstep with hsame | ⟨tsval, -, hsame⟩
    · rw [hsame]
      exact hu
    rw [hsame]
    exact hu
  exact run_forall hstep hts (guarded_of_forall (fun _ _ => trivial) segs t) h

/-- **TS.Recent only moves forward, and old segments are dropped**, after any sequence of segments
and for any further one, unless TS.Recent says nothing about it. A reset is not held up. -/
theorem run_paws (M : CubicMath) (t : TcpControlBlock) (hts : t.ts.enabled = true)
    (segs : List (Segment × Instant)) (t' : TcpControlBlock) (ns : List Nat)
    (hrun : run (datagramStep M) t segs = some (t', ns)) (seg : Segment) (now : Instant)
    (hexempt : t'.pawsExempt seg now = false) :
    (∀ u n, t'.processDataDatagram M seg now = some (u, n) →
      0 ≤ SeqNum.dist u.ts.tsRecent t'.ts.tsRecent) ∧
    ∀ tsval tsecr, findTimestamp seg.options = some (tsval, tsecr) →
      SeqNum.dist tsval t'.ts.tsRecent < 0 → seg.flags.rst = false →
        ∃ ecn, t'.processDataDatagram M seg now = some ({ t' with ecn := ecn }, 0) := by
  have hts' := run_ts_enabled hts hrun
  constructor
  · exact fun u n h => (processDataDatagram_stamped hts' h).forward hexempt
  · exact fun tsval tsecr hfind hold hrst => processDataDatagram_old hts' hexempt hrst hfind hold

/-- The timestamps 2 ^ 31 - 1, 2 ^ 32 - 16 and 0 on empty segments, each newer than the one
before. -/
def stampsThroughZero : List (Segment × Instant) :=
  [0x7fffffff, 0xfffffff0, 0].map fun tsval =>
    ({ Segment.ackOfSyn with options := [.timestamp tsval 0] }, 0)

theorem run_paws_below_zero : ∃ t t' ns ecn,
    opened 4096 [.timestamp 10 0] = some t ∧
    run (datagramStep .integer) t (stampsThroughZero.take 2) = some (t', ns) ∧
    t'.processDataDatagram .integer
      { Segment.ackOfSyn with options := [.timestamp 0xffffffe0 0] } 0 =
        some ({ t' with ecn := ecn }, 0) := by
  obtain ⟨t, hopened, hts, t', ns, hsegs, hexempt, hold⟩ :
      ∃ t, opened 4096 [.timestamp 10 0] = some t ∧ t.ts.enabled = true ∧ ∃ t' ns,
        run (datagramStep .integer) t (stampsThroughZero.take 2) = some (t', ns) ∧
          t'.pawsExempt { Segment.ackOfSyn with
            options := [.timestamp 0xffffffe0 0] } 0 = false ∧
          SeqNum.dist 0xffffffe0 t'.ts.tsRecent < 0 := by decide +kernel
  obtain ⟨ecn, hdropped⟩ := (run_paws .integer t hts _ t' ns hsegs _ 0 hexempt).2 _ 0 rfl hold rfl
  exact ⟨t, t', ns, ecn, hopened, hsegs, hdropped⟩

/-- A reset with an old timestamp closes the connection. After the timestamp 0, one that is
sixteen ticks older is taken over. -/
theorem old_timestamps_not_rejected :
    ((opened 4096 [.timestamp 10 0]).bind fun t =>
      (t.processDataDatagram .integer { Segment.ackOfSyn with
        flags := { rst := true }, options := [.timestamp 9 0] } 0).map fun r =>
        (t.ts.enabled, t.ts.tsRecent, t.state, r.1.state)) =
      some (true, 10, .established, .closed) ∧
    ((opened 4096 [.timestamp 10 0]).bind fun t =>
      (run (datagramStep .integer) t (stampsThroughZero ++
        [({ Segment.ackOfSyn with options := [.timestamp 0xfffffff0 0] }, 0)])).map
        fun r => (r.1.state, r.1.ts.tsRecent)) = some (.established, 0xfffffff0) := by
  decide +kernel

end TcpControlBlock
end Moose.Tcp
