import Moose.Tcp.Steering

/-!
# F-RTO

Without timestamps a spurious timeout is detected by F-RTO: the first acknowledgement after the
timeout moves the detector to its second step, the second one confirms, and a duplicate stops it.
The timeout arms the detector in `frto_on_rto`, whose guard lets it through only if timestamps are
in force, and then the timer does not call it. So it stays idle (`Unarmed`), and two
acknowledgements that advance SND.UNA are never recognised.
-/

set_option autoImplicit false

namespace Moose.Tcp

open Option TcpControlBlock Lib

namespace TcpControlBlock

variable {M : CubicMath} {t t' : TcpControlBlock} {seg : Segment} {now : Instant}

/-- How `process_data_datagram` takes the acknowledgement of a segment: it advances SND.UNA
(`some false`), is a duplicate (`some true`), or neither. -/
def ackHeard (M : CubicMath) (t : TcpControlBlock) (seg : Segment) (now : Instant) : Option Bool :=
  if t.isOldDuplicate seg then none
  else
    match t.checkSegment seg now with
    | some (t, true) =>
      match t.eceReaction M seg now with
      | some (t1, _) =>
        if !t.isAcceptableAck seg.ack then none
        else if t1.snd.una.toNat < seg.ack.toNat then some false
        else if seg.ack = t1.snd.una && seg.payload.isEmpty &&
          !t1.snd.retransmissionQueue.isEmpty then some true
        else none
      | none => none
    | _ => none

/-- The same for `process_data`. -/
def dataHeard (M : CubicMath) (t : TcpControlBlock) (seg : Segment) (now : Instant) : Option Bool :=
  match t.state with
  | .synReceived =>
    if seg.flags.rst ∨ !seg.flags.ack ∨ !t.isAcceptableAck seg.ack ∨
      (seg.payload.isEmpty && seg.options.isEmpty) then none
    else (t.establish seg.ack).ackHeard M seg now
  | .established => if seg.flags.syn && seg.flags.ack then none else t.ackHeard M seg now
  | .finWait1 | .finWait2 | .closeWait | .closing | .lastAck => t.ackHeard M seg now
  | _ => none

/-- `frto_on_ack` declares the timeout spurious. -/
def frtoConfirms (t : TcpControlBlock) (isDup : Bool) : Bool :=
  !t.ts.enabled && t.frto.phase = .step2 && !isDup

/-- No timestamps, and F-RTO is not running. -/
structure Unarmed (t : TcpControlBlock) : Prop where
  ts : t.ts.enabled = false
  phase : t.frto.phase = .idle

theorem Unarmed.not_confirms (h : t.Unarmed) (isDup : Bool) : t.frtoConfirms isDup = false := by
  simp [frtoConfirms, h.phase]

/-! ## A timeout leaves F-RTO idle -/

theorem Unarmed.quiet (h : t.Unarmed) (hq : Quiet t t') : t'.Unarmed where
  ts := by
    rw [show t'.ts = t.ts from congrArg Steering.ts hq.steering]
    exact h.ts
  phase := by
    rw [show t'.frto = t.frto from congrArg Steering.frto hq.steering]
    exact h.phase

theorem Unarmed.armDetectors (h : t.Unarmed) (s : UnackedSegment) (nestedAbort : Bool) :
    (t.armDetectors s nestedAbort).Unarmed := by
  unfold TcpControlBlock.armDetectors
  rw [h.ts, if_neg (by decide)]
  split
  · rwa [frtoOnRto, h.ts, Bool.not_false, if_pos rfl]
  · exact ⟨h.ts, h.phase⟩

section

variable (hts : t.ts.enabled = false)
include hts

theorem onRto_unarmed (s : UnackedSegment) (now : Instant) : (t.onRto s now).Unarmed := by
  -- an F-RTO that was running is ended as a nested timeout
  have hhead : (t.retimeHead (!t.ts.enabled && t.frto.phase != .idle) now).Unarmed := by
    refine ⟨hts, ?_⟩
    simp only [retimeHead, hts, Bool.not_false, Bool.true_and, bne_iff_ne, ne_eq, ite_not]
    split
    · assumption
    · rfl
  have harmed := hhead.armDetectors s (!t.ts.enabled && t.frto.phase != .idle)
  refine Unarmed.quiet ?_ (tunes_cancelProbe s.seq).sends.quiet
  exact ⟨harmed.ts, harmed.phase⟩

theorem tickRetransmissionTimer_unarmed (h : (t.tickRetransmissionTimer now).2 = true) :
    (t.tickRetransmissionTimer now).1.Unarmed := by
  unfold tickRetransmissionTimer at h ⊢
  split at h
  · cases h
  rename_i hclosed
  rw [if_neg hclosed]
  split at h
  · cases h
  rename_i s _
  split at h
  · cases h
  rename_i hlate
  rw [if_neg hlate]
  split at h
  · cases h
  next hretries =>
    rw [if_neg hretries]
    exact onRto_unarmed hts s now

theorem retransmissionTimeout_unarmed (h : (t.tickRetransmissionTimer now).2 = true) :
    (t.retransmissionTimeout now).Unarmed := by
  have hticked := tickRetransmissionTimer_unarmed hts h
  unfold retransmissionTimeout
  split
  next t1 htick =>
    rw [htick] at hticked
    exact hticked.quiet (tunes_retransmitMatching _ _).sends.quiet
  next htick =>
    rw [htick] at h
    cases h

theorem tick_unarmed (hopen : t.state ≠ .closed) (h : (t.tickRetransmissionTimer now).2 = true) :
    (t.tick now).1.Unarmed := by
  rcases t.tick_cases now with ⟨hclosed, -⟩ | hrest
  · exact absurd hclosed hopen
  · exact (tickRetransmissionTimer_unarmed hts h).quiet hrest.sends.quiet

end

/-! ## Nothing arms it -/

section

variable (h : t.Unarmed)
include h

theorem Unarmed.frtoOnAck (isDup : Bool) : t.frtoOnAck isDup = t := by
  simp [TcpControlBlock.frtoOnAck, h.ts, h.phase]

theorem Unarmed.change {c : Change} (hc : t.change M c = some t') : t'.Unarmed := by
  by_cases hack : c.ofAck = true
  · rcases change_ofAck hack hc with hq | ⟨isDup, rfl⟩ | ⟨cc, sack, eifel, snd, rfl⟩
    · exact h.quiet hq
    · rwa [h.frtoOnAck]
    · exact ⟨h.ts, h.phase⟩
  cases c with
  | timestamp now seq tsval syn =>
    simp only [TcpControlBlock.change, onRxTimestamp, h.ts, Bool.not_false, if_true,
      Option.some.injEq] at hc
    rwa [← hc]
  | timeout s now =>
    cases hc
    exact onRto_unarmed h.ts s now
  | abort e =>
    cases hc
    unfold abortConnection
    split
    · exact h
    · exact ⟨h.ts, rfl⟩
  | _ => exact absurd rfl hack

theorem Unarmed.moves {kinds : Change → Bool} (hm : Moves M kinds t t') : t'.Unarmed :=
  hm.induct (fun _ _ hq hu => hu.quiet hq) (fun _ _ _ _ hc hu => hu.change hc) h

end

end TcpControlBlock

/-! ## What is heard after a timeout -/

/-- What an activity means to F-RTO: an acknowledgement, with whether the timeout is declared
spurious, a retransmission timeout, or nothing. -/
inductive Heard where
  | ack (isDup declared : Bool)
  | timeout
  | other
deriving DecidableEq

/-- The acknowledgements before the next timeout. -/
def acksHeard : List Heard → List (Bool × Bool)
  | [] => []
  | .timeout :: _ => []
  | .other :: hs => acksHeard hs
  | .ack isDup declared :: hs => (isDup, declared) :: acksHeard hs

/-- **The rule of F-RTO** for the acknowledgements that follow a timeout: two that advance declare
it spurious, a duplicate among the first two rules it out. -/
def FrtoRule : List (Bool × Bool) → Prop
  | (false, _) :: (false, declared) :: _ => declared = true
  | (false, first) :: (true, second) :: acks =>
    ∀ a ∈ (false, first) :: (true, second) :: acks, a.2 = false
  | (true, first) :: acks => ∀ a ∈ (true, first) :: acks, a.2 = false
  | _ => True

/-- The first two acknowledgements advance SND.UNA. -/
def twoAdvances : List (Bool × Bool) → Bool
  | (false, _) :: (false, _) :: _ => true
  | _ => false

namespace Endpoint

variable {M : CubicMath} {s s' : Endpoint}

def heard (M : CubicMath) (s : Endpoint) : Activity → Heard
  | .call (.segment seg now) =>
    match s.tcb.dataHeard M seg now with
    | some isDup => .ack isDup (s.tcb.frtoConfirms isDup)
    | none => .other
  | .call (.timeout now) => if (s.tcb.tickRetransmissionTimer now).2 then .timeout else .other
  | .tick now =>
    if s.due = [] ∧ s.tcb.state ≠ .closed ∧ (s.tcb.tickRetransmissionTimer now).2 then .timeout
    else .other
  | _ => .other

/-- One activity; the output is what F-RTO hears. -/
def heardStep (M : CubicMath) (s : Endpoint) (a : Activity) : Option (Endpoint × Heard) :=
  (s.step M a).map fun r => (r.1, s.heard M a)

theorem unarmed_of_timeout (hts : s.tcb.ts.enabled = false)
    {a : Activity} (h : heardStep M s a = some (s', .timeout)) : s'.tcb.Unarmed := by
  simp only [heardStep, map_eq_some_iff, Prod.mk.injEq] at h
  obtain ⟨⟨s1, sent⟩, hstep, rfl, hheard⟩ := h
  unfold heard at hheard
  split at hheard
  · split at hheard <;> cases hheard
  · split at hheard
    next hfired =>
      cases hstep
      exact retransmissionTimeout_unarmed hts hfired
    · cases hheard
  · split at hheard
    next hfired =>
      obtain ⟨hdue, hopen, hfired⟩ := hfired
      unfold step at hstep
      simp only [hdue] at hstep
      cases hstep
      exact tick_unarmed hts hopen hfired
    · cases hheard
  · cases hheard

theorem heard_of_unarmed (hs : s.tcb.Unarmed) (a : Activity) (isDup : Bool) :
    s.heard M a ≠ .ack isDup true := by
  unfold heard
  split
  · split
    · rw [hs.not_confirms]
      simp
    · nofun
  · split <;> nofun
  · split <;> nofun
  · nofun

/-- Along any run that starts with F-RTO idle, nothing is declared. -/
theorem run_nothing_declared (hs : s.tcb.Unarmed) {as : List Activity} {hs' : List Heard}
    (hrun : run (heardStep M) s as = some (s', hs')) : ∀ isDup, .ack isDup true ∉ hs' := by
  have hstep : ∀ (past : List Heard) (u : Endpoint) (a : Activity) (u' : Endpoint) (h : Heard),
      (u.tcb.Unarmed ∧ ∀ isDup, .ack isDup true ∉ past) → True →
      heardStep M u a = some (u', h) →
        u'.tcb.Unarmed ∧ ∀ isDup, .ack isDup true ∉ past ++ [h] := by
    intro past u a u' h hu _ hstep
    simp only [heardStep, map_eq_some_iff, Prod.mk.injEq] at hstep
    obtain ⟨⟨u1, sent⟩, hstep, rfl, rfl⟩ := hstep
    refine ⟨hu.1.moves (step_changes hstep), fun isDup hmem => ?_⟩
    rcases List.mem_append.mp hmem with hmem | hmem
    · exact hu.2 isDup hmem
    · exact heard_of_unarmed hu.1 a isDup (List.mem_singleton.mp hmem).symm
  exact (run_history hstep ⟨hs, fun _ => List.not_mem_nil⟩
    (guarded_of_forall (fun _ _ => trivial) as s) hrun).2

end Endpoint

theorem mem_acksHeard {a : Bool × Bool} {hs : List Heard} (h : a ∈ acksHeard hs) :
    .ack a.1 a.2 ∈ hs := by
  induction hs with
  | nil => cases h
  | cons x hs ih =>
    cases x with
    | timeout => cases h
    | other => exact List.mem_cons_of_mem _ (ih h)
    | ack isDup declared =>
      rcases List.mem_cons.mp h with rfl | h
      · exact List.mem_cons_self
      · exact List.mem_cons_of_mem _ (ih h)

/-- Without a declaration the rule is met exactly if it does not ask for one. -/
theorem frtoRule_iff_of_undeclared {acks : List (Bool × Bool)} (h : ∀ a ∈ acks, a.2 = false) :
    FrtoRule acks ↔ twoAdvances acks = false := by
  match acks with
  | [] => exact iff_of_true trivial rfl
  | [(false, _)] => exact iff_of_true trivial rfl
  | (true, first) :: acks => exact iff_of_true h rfl
  | (false, first) :: (true, second) :: acks => exact iff_of_true h rfl
  | (false, first) :: (false, second) :: acks =>
    have hsecond : second = false := h (false, second) (by simp)
    rw [hsecond]
    exact iff_of_false nofun nofun

namespace Endpoint

variable {M : CubicMath} {s s' : Endpoint}

/-- **F-RTO never recognises a spurious timeout.** After a timeout of a connection without
timestamps, its rule is met exactly if the first two acknowledgements do not both advance. -/
theorem frtoRule_iff (M : CubicMath) (s s' : Endpoint) (hts : s.tcb.ts.enabled = false)
    (a : Activity) (as : List Activity) (hs : List Heard)
    (hrun : run (heardStep M) s (a :: as) = some (s', .timeout :: hs)) :
    FrtoRule (acksHeard hs) ↔ twoAdvances (acksHeard hs) = false := by
  obtain ⟨s1, h, hs1, hfirst, hrest, heq⟩ := run_cons_inv hrun
  obtain ⟨rfl, rfl⟩ := List.cons.inj heq
  apply frtoRule_iff_of_undeclared
  rintro ⟨isDup, declared⟩ hmem
  have hnone := run_nothing_declared (unarmed_of_timeout hts hfirst) hrest isDup
  cases declared with
  | false => rfl
  | true => exact absurd (mem_acksHeard hmem) hnone

/-- Twenty bytes in two segments, a timeout after a second, and an acknowledgement of each
segment. -/
def spuriousTimeout : List Activity :=
  [.tick (Duration.fromSecs 1),
    .act (Duration.fromSecs 1),
    .call (.segment { Segment.ackOfSyn with ack := 111 } (Duration.fromSecs 2)),
    .call (.segment { Segment.ackOfSyn with ack := 121 } (Duration.fromSecs 2))]

/-- A connection with segments of ten bytes and twenty bytes in flight. -/
def twentyInFlight : Option Endpoint :=
  ((opened 4096 [.mss 10]).map ofOpen).bind fun s =>
    (s.step .integer (.call (.sendData (List.replicate 20 0) 0))).map (·.1)

theorem frtoRule_iff_duplicate : ∃ s s' hs,
    twentyInFlight = some s ∧ run (heardStep .integer) s (spuriousTimeout.take 2 ++
      [.call (.segment .ackOfSyn (Duration.fromSecs 2))]) =
        some (s', .timeout :: hs) ∧ FrtoRule (acksHeard hs) := by
  obtain ⟨s, hsent, hts, s', _, hrun, rfl⟩ : ∃ s, twentyInFlight = some s ∧
      s.tcb.ts.enabled = false ∧ ∃ s' hs,
        run (heardStep .integer) s (spuriousTimeout.take 2 ++
          [.call (.segment .ackOfSyn (Duration.fromSecs 2))]) =
            some (s', hs) ∧ hs = [.timeout, .other, .ack true false] := by decide +kernel
  refine ⟨s, s', [.other, .ack true false], hsent, hrun, ?_⟩
  exact (frtoRule_iff .integer s s' hts _ _ _ hrun).mpr rfl

theorem twoAdvances_not_recognised :
    (twentyInFlight.bind fun s => (run (heardStep .integer) s spuriousTimeout).map fun r =>
      (s.tcb.ts.enabled, s.tcb.flightSizeBytes, r.2)) =
      some (false, 20, [.timeout, .other, .ack false false, .ack false false]) ∧
    ¬ FrtoRule (acksHeard [.other, .ack false false, .ack false false]) := by
  refine ⟨by decide +kernel, nofun⟩

end Endpoint
end Moose.Tcp
