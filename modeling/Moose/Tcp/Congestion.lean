import Mathlib.Data.Nat.NthRoot.Defs
import Moose.Tcp.Types

/-!
# Congestion control

`cc/mod.rs`, `cc/cubic.rs`, `cwv.rs` and `pacing.rs`. Every function here returns the congestion
record (or the pacing record) and nothing else of the block.

CUBIC computes its curve in floating point. The model takes the two results the driver uses as
parameters (`CubicMath`).
-/

set_option autoImplicit false

namespace Moose.Tcp

/-- What CUBIC gets from floating point: `calculate_cubic_window` at a time after the last loss, and
`K` in nanoseconds from `w_max - cwnd` and `c`. The curve does not look at the recovery point. -/
structure CubicMath where
  window : CubicState → Duration → Nat
  kNs : Nat → Nat → Nat
  window_recover : ∀ (s : CubicState) (recover : SeqNum) (elapsed : Duration),
    window { s with recover := recover } elapsed = window s elapsed

/-- The same two functions in integer arithmetic, rounded down. -/
def CubicMath.integer : CubicMath where
  window s elapsed :=
    let w : Int := s.wMax + s.c * (elapsed - s.kNs : Int) ^ 3 / (1024 * 10 ^ 27)
    if w < 0 then s.wMax else min w.toNat (2 ^ 32 - 1)
  kNs diff c := if c = 0 then 0 else Nat.nthRoot 3 (diff * 1024 * 10 ^ 27 / c)
  window_recover _ _ _ := rfl

/-! ## Window validation -/

def cwvNoteValidated (c : Congestion) : Congestion :=
  if c.cwv.enabled then { c with cwv := { c.cwv with validated := true, appLimitedSince := none } }
  else c

def cwvNoteAppLimited (c : Congestion) (now : Instant) : Congestion :=
  if c.cwv.enabled then
    { c with cwv := { c.cwv with
      validated := false
      appLimitedSince := some (c.cwv.appLimitedSince.getD now) } }
  else c

/-- Idle and application-limited periods reduce the window in the same way. -/
def cwvReduceCwnd (c : Congestion) (flight effectiveMss : Nat) : Congestion :=
  let pipe := max c.cwv.pipeMax flight
  let target := max pipe (max (2 * effectiveMss) 1)
  let cwnd := if target < c.cwnd then target else c.cwnd
  { c with
    cwnd := cwnd
    ssthresh := if target < c.cwnd ∧ c.ssthresh < target then target else c.ssthresh
    cwv := { c.cwv with pipeMax := pipe } }

/-! ## Growth -/

/-- The accumulator loop of congestion avoidance: one SMSS for each window's worth of bytes. The
accumulator gets smaller in every round, so it bounds the number of rounds. -/
def renoGrowth (smss : Nat) : Nat → Nat → Nat → Nat × Nat
  | 0, accum, wnd => (accum, wnd)
  | fuel + 1, accum, wnd =>
    if wnd = 0 ∨ accum < wnd then (accum, wnd)
    else renoGrowth smss fuel (accum - wnd) (satAdd32 wnd smss)

/-- The window `grow_cwnd_value` works on: the real one, or the shadow without validation. -/
def Congestion.wnd (c : Congestion) (raw : Bool) : Nat := if raw then c.cwv.cwndRaw else c.cwnd

def Congestion.setWnd (c : Congestion) (raw : Bool) (wnd : Nat) : Congestion :=
  if raw then { c with cwv := { c.cwv with cwndRaw := wnd } } else { c with cwnd := wnd }

def Congestion.accum (c : Congestion) (raw : Bool) : Nat :=
  if raw then c.abc.caAccumRaw else c.abc.caAccum

def Congestion.setAccum (c : Congestion) (raw : Bool) (accum : Nat) : Congestion :=
  if raw then { c with abc := { c.abc with caAccumRaw := accum } }
  else { c with abc := { c.abc with caAccum := accum } }

def growCwndValue (M : CubicMath) (now : Instant) (smss : Nat) (c : Congestion) (raw : Bool)
    (bytesAcked : Nat) : Congestion :=
  if bytesAcked = 0 then c
  else
    let cwndNow := c.wnd raw
    if cwndNow < c.ssthresh then
      -- slow start, at most `L` segments for one ACK
      let credit := min bytesAcked (min (smss * c.abc.lSmss) (2 ^ 32 - 1))
      c.setWnd raw (satAdd32 cwndNow credit)
    else
      let accum := satAdd32 (c.accum raw) bytesAcked
      let (accum, renoWnd) := renoGrowth smss (accum + 1) accum cwndNow
      let c := c.setAccum raw accum
      match c.algo with
      | .cubic cubic =>
        let target := max (M.window cubic (now - cubic.epochStart)) renoWnd
        if cwndNow < target then c.setWnd raw (satAdd32 cwndNow (min (target - cwndNow) smss))
        else c.setWnd raw renoWnd
      | .reno _ => c.setWnd raw renoWnd

def updateCongestionWindow (M : CubicMath) (now : Instant) (t : TcpControlBlock)
    (bytesAcked : Nat) : Congestion :=
  if t.cc.inFastRecovery then t.cc
  else
    let c := growCwndValue M now t.smss t.cc true bytesAcked
    if !c.cwv.enabled then { c with cwnd := c.cwv.cwndRaw }
    else
      let c :=
        if t.rtt.rto < now - c.cwv.lastDataTx then
          cwvReduceCwnd c t.flightSizeBytes t.neg.effectiveMss
        else c
      let c :=
        match c.cwv.appLimitedSince with
        | some since =>
          if t.rtt.rto ≤ now - since then
            let c := cwvReduceCwnd c t.flightSizeBytes t.neg.effectiveMss
            { c with cwv := { c.cwv with appLimitedSince := some now } }
          else c
        | none => c
      if !c.cwv.validated then c
      else
        let c := { c with cwv := { c.cwv with validated := false, pipeMax := 0 } }
        growCwndValue M now t.smss c false bytesAcked

/-! ## Reaction to a loss -/

/-- `sack_pipe_bytes`: bytes of the queue that are neither SACKed nor marked lost. -/
def sackPipeBytes (queue : List UnackedSegment) : Nat :=
  (queue.filter fun s => !s.sacked && !s.lost).foldl (fun acc s => satAdd32 acc s.seqLen) 0

def onCongestionEvent (M : CubicMath) (now : Instant) (t : TcpControlBlock) :
    Option Congestion := do
  let flight :=
    if t.sack.enabled then sackPipeBytes t.snd.retransmissionQueue else t.flightSizeBytes
  let c := t.cc
  let c ← match c.algo with
    | .cubic cubic => do
      let wMax ←
        if c.cwnd < cubic.lastMaxCwnd then (checked32 (c.cwnd * 9)).map (· / 10) else some c.cwnd
      let ssthresh := (c.cwnd * cubic.beta) >>> 10 % 2 ^ 32
      let cwnd ← checked32 (ssthresh + 3 * t.smss)
      let cwndRaw ← checked32 ((c.cwv.cwndRaw * cubic.beta) >>> 10 % 2 ^ 32 + 3 * t.smss)
      some { c with
        algo := .cubic { cubic with
          epochStart := now
          lastMaxCwnd := c.cwnd
          wMax := wMax
          recover := t.snd.nxt
          kNs := M.kNs (wMax - cwnd) cubic.c }
        ssthresh := ssthresh
        cwnd := cwnd
        cwv := { c.cwv with cwndRaw := cwndRaw } }
    | .reno _ => do
      let ssthresh := max (flight / 2) (2 * t.smss)
      let cwnd ← checked32 (ssthresh + 3 * t.smss)
      some { c with
        algo := .reno t.snd.nxt
        ssthresh := ssthresh
        cwnd := cwnd
        cwv := { c.cwv with
          cwndRaw := satAdd32 (max (c.cwv.cwndRaw / 2) (2 * t.smss)) (3 * t.smss) } }
  some { c with abc := c.abc.clearAccumulators }

/-! ## Pacing -/

def PacingState.clearDeadline (p : PacingState) : PacingState := { p with nextTx := none }

/-- The gap after a segment of `sendLen` bytes. -/
def pacingGapFor (t : TcpControlBlock) (sendLen : Nat) : Option Duration :=
  if !t.pacing.enabled || sendLen = 0 then none
  else
    t.rtt.srtt.map fun srtt =>
      let gain := if t.cc.cwnd < t.cc.ssthresh then 200 else 120
      let rate := max (max t.cc.cwnd 1 * 1000000000 * gain / (max srtt 1 * 100)) 1 % 2 ^ 64
      let gapNs := sendLen * 1000000000 / rate
      min (max gapNs 1000 % 2 ^ 64) t.rtt.rto

def pacingShouldHold (t : TcpControlBlock) (now : Instant) : Bool :=
  if !t.pacing.enabled || t.frto.phase = .step2 then false
  else
    match t.pacing.nextTx with
    | some next => now < next
    | none => false

end Moose.Tcp
