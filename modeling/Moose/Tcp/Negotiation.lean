import Moose.Tcp.Handshake

/-!
# Option negotiation

What the two SYNs offer and what is in force afterwards. `Terms` are the settings a connection works
with: once the handshake is over only the peer's window among them changes. The code turns an option
on as soon as one side offers it, where both should have to; the theorem says for which offers this
makes no difference.

The three options differ in which side is overlooked (`NegotiationOk`). Timestamps and SACK are
turned on by the peer's offer alone, so the settings have to enable what the peer offers. Window
scaling is turned on by the settings before the peer is heard and by the peer's offer later, so both
have to say the same. The window of a SYN is never to be scaled, but the code scales every window.
-/

set_option autoImplicit false

namespace Moose.Tcp

open Lib TcpControlBlock

/-! ## Offers -/

def TcpOption.isWindowScale : TcpOption → Bool
  | .windowScale _ => true
  | _ => false

def TcpOption.isTimestamp : TcpOption → Bool
  | .timestamp _ _ => true
  | _ => false

def TcpOption.isSackPermitted : TcpOption → Bool
  | .sackPermitted => true
  | _ => false

def TcpSessionSettings.synOptions (s : TcpSessionSettings) (tsval : BitVec 32) :
    List TcpOption :=
  [.mss mss] ++ (if s.wndScaleEnabled then [.windowScale s.rcvWscale] else []) ++
    (if s.sackEnabled then [.sackPermitted] else []) ++
    (if s.timestampsEnabled then [.timestamp tsval 0] else [])

/-- The options of our SYN-ACK. Timestamps are only sent if the SYN had them. -/
def TcpSessionSettings.synAckOptions (s : TcpSessionSettings) (t : TcpControlBlock)
    (tsval : BitVec 32) : List TcpOption :=
  [.mss mss] ++ (if s.wndScaleEnabled then [.windowScale s.rcvWscale] else []) ++
    (if s.sackEnabled then [.sackPermitted] else []) ++
    (if s.timestampsEnabled && t.ts.enabled then [.timestamp tsval t.ts.tsRecent] else [])

/-- The shift the peer asks for; the last option counts, and 14 is the largest. -/
def peerShift (options : List TcpOption) (shift : Nat) : Nat :=
  options.foldl (fun shift o =>
    match o with
    | .windowScale s => min s 14
    | _ => shift) shift

/-- The settings a connection works with. -/
structure Terms where
  wndScaleEnabled : Bool
  tsEnabled : Bool
  sackEnabled : Bool
  sndWscale : Nat
  rcvWscale : Nat
  wnd : Nat

/-- All but the peer's window. -/
def Terms.fixed (c : Terms) : Terms := { c with wnd := 0 }

/-- The peer's window field, read with the shift that is in force. -/
def Terms.scale (c : Terms) (window : BitVec 16) : Nat :=
  if c.wndScaleEnabled && 0 < c.sndWscale then (window.toNat <<< c.sndWscale) % 2 ^ 32
  else window.toNat

namespace TcpControlBlock

def terms (t : TcpControlBlock) : Terms :=
  ⟨t.neg.wndScaleEnabled, t.ts.enabled, t.sack.enabled, t.neg.sndWscale, t.neg.rcvWscale,
    t.snd.wnd⟩

variable {M : CubicMath} {t t' : TcpControlBlock} {seg : Segment} {now : Instant}

theorem terms_of_view (h : t'.view = t.view) : t'.terms = t.terms := by
  obtain ⟨hrx, hsnd, hneg⟩ := View.mk.inj h
  obtain ⟨-, -, -, hsack, -⟩ := RxView.mk.inj hrx
  obtain ⟨-, -, -, hwnd, hscale, -, -⟩ := SndView.mk.inj hsnd
  obtain ⟨hws, hrcv, hts⟩ := NegView.mk.inj hneg
  simp [terms, hws, hts, hsack, hscale, hrcv, hwnd]

theorem Steady.terms (h : Steady t t') : t'.terms = t.terms := by
  have hconduct := h.conduct
  simp only [TcpControlBlock.conduct, Prod.mk.injEq] at hconduct
  obtain ⟨hsteer, hneg, hsack, hwnd, -⟩ := hconduct
  have hts : t'.ts = t.ts := congrArg Steering.ts hsteer
  simp [TcpControlBlock.terms, hneg, hsack, hwnd, hts]

/-! ## After the handshake -/

theorem terms_ackAdvances {plan plan' : Plan}
    (h : t.ackAdvances M seg now plan = some (t', plan')) : t'.terms = t.terms := by
  obtain ⟨cc, t1, hview, h⟩ := ackAdvances_cases h
  obtain ⟨cc', nxt, eifel, frto, hadvance⟩ := advanceUna_only (t := { t with cc := cc })
  have hdrain : (t1.drainRetransmissionQueue seg.ack).terms = t1.terms := rfl
  have hterms : ((t1.drainRetransmissionQueue seg.ack).tlpArm now).terms = t.terms := by
    rw [terms_of_view tunes_tlpArm.view, hdrain, terms_of_view hview, hadvance]
    rfl
  rcases h with rfl | rfl
  · exact hterms
  · exact (sends_finAcked _).terms.trans hterms

variable {plan : Plan}

theorem terms_processAck (h : t.processAck M seg now = some (t', plan)) : t'.terms = t.terms := by
  obtain ⟨t1, reacted, h1, h⟩ := processAck_cases h
  rw [← terms_of_view (view_eceReaction h1)]
  rcases h with rfl | ⟨plan1, ⟨-, -, h⟩ | h⟩
  · rfl
  · exact terms_ackAdvances h
  · exact terms_of_view (view_ackDuplicates h)

/-- The window of a segment is read with the shift in force. -/
def ReadsWindow (t : TcpControlBlock) (seg : Segment) (t' : TcpControlBlock) : Prop :=
  t'.terms = t.terms ∨ t'.terms = { t.terms with wnd := t.terms.scale seg.window }

theorem readsWindow_receiveSegment {plan plan' : Plan} {n : Nat}
    (h : t.receiveSegment seg now plan = some (t', plan', n)) : t.ReadsWindow seg t' := by
  have hfin : ∀ t1 : TcpControlBlock,
      (if seg.flags.fin then t1.handleFinFlag now else t1).terms = t1.terms := by
    intro t1
    split
    · exact receives_handleFinFlag.terms
    · rfl
  have harrival : ∀ t1 : TcpControlBlock, (t1.noteArrival now).terms = t1.terms := fun _ => rfl
  rcases receiveSegment_cases h with ⟨rfl, -⟩ | ⟨t1, a, h1, rfl⟩
  · exact .inl rfl
  unfold ReadsWindow
  rw [tunes_decideAck.sends.terms, hfin, (receives_receivePayload h1).terms, harrival]
  unfold maybeUpdateSendWindow
  dsimp only
  split
  · exact .inr rfl
  · exact .inl rfl

theorem readsWindow_processDataDatagram {n : Nat}
    (h : t.processDataDatagram M seg now = some (t', n)) : t.ReadsWindow seg t' := by
  rcases processDataDatagram_cases h with ⟨-, -, echo, rfl⟩ | ⟨-, ⟨-, hcheck⟩ |
    ⟨t1, t2, plan, hcheck, hchecked, rfl⟩⟩
  · exact .inl rfl
  · rcases checkSegment_cases hcheck with ⟨-, rfl⟩ | ⟨echo, rfl⟩ | ⟨hgo, -⟩
    · exact .inl rfl
    · exact .inl rfl
    · cases hgo
  obtain ⟨t3, plan3, hack, hchecked⟩ := processChecked_cases hchecked
  have hterms3 : t3.terms = t.terms :=
    (terms_processAck hack).trans (terms_of_view (view_checkSegment hcheck))
  unfold ReadsWindow
  rw [(pushes_carryOut plan).sends.terms, ← hterms3]
  rcases hchecked with hchecked | ⟨rfl, -⟩
  · exact readsWindow_receiveSegment hchecked
  · exact .inl rfl

/-- **A segment the driver comes back from changes at most the peer's window.** -/
theorem readsWindow_processData (h : t.processData M seg now = some t') :
    t.ReadsWindow seg t' := by
  rcases processData_cases h with rfl | ⟨-, rfl⟩ | ⟨-, -, rfl⟩ | ⟨-, h⟩ | ⟨-, timers, rfl⟩ |
    ⟨-, -, n, h⟩
  · exact .inl rfl
  · unfold abortConnection
    split <;> exact .inl rfl
  · exact .inl rfl
  · rcases processSynReceivedAck_cases h with rfl | rfl | ⟨-, -, rfl | ⟨n, h⟩⟩
    · exact .inl rfl
    · exact .inl rfl
    · exact .inl rfl
    · have hreads := readsWindow_processDataDatagram h
      exact hreads
  · exact .inl rfl
  · exact readsWindow_processDataDatagram h

/-! ## The other activities -/

theorem terms_retransmissionTimeout : (t.retransmissionTimeout now).terms = t.terms := by
  rcases t.retransmissionTimeout_cases now with h | h | ⟨s, -, h⟩
  · rw [h]
  · rw [h]
    rfl
  · rw [h, terms_of_view (tunes_retransmitMatching _ _).view, terms_of_view (view_onRto s)]

theorem terms_tick : (t.tick now).1.terms = t.terms := by
  rcases t.tick_cases now with ⟨-, heq⟩ | hrest
  · rw [heq]
  refine hrest.sends.terms.trans ?_
  unfold tickRetransmissionTimer
  split
  · rfl
  split
  · rfl
  split
  · rfl
  split
  · rfl
  · exact terms_of_view (view_onRto _)

end TcpControlBlock

namespace Endpoint

variable {M : CubicMath} {s s' : Endpoint} {a : Activity} {out : List SentCore}

/-- Nothing but a segment touches the terms. -/
theorem step_terms (hstep : s.step M a = some (s', out)) :
    (∃ seg now, a = .call (.segment seg now) ∧ s.tcb.processData M seg now = some s'.tcb) ∨
      s'.tcb.terms = s.tcb.terms := by
  rcases step_cases hstep with h | ⟨now, h⟩ | ⟨now, h⟩ | ⟨len, result, h⟩ | ⟨now, h⟩ | h
  · exact .inl h
  · rw [h]
    exact .inr terms_retransmissionTimeout
  · rw [h]
    exact .inr sends_closeConnection.terms
  · exact .inr (receives_receiveSync h).terms
  · rw [h]
    exact .inr terms_tick
  · exact .inr h.sends.terms

theorem step_fixed (hstep : s.step M a = some (s', out)) :
    s'.tcb.terms.fixed = s.tcb.terms.fixed := by
  rcases step_terms hstep with ⟨seg, now, -, hdata⟩ | hterms
  · rcases readsWindow_processData hdata with h | h
    · rw [h]
    rw [h]
    rfl
  · rw [hterms]

/-- Only the peer's window changes in a run. -/
theorem run_fixed {t : TcpControlBlock} {activities : List Activity} {outs : List (List SentCore)}
    (hs : s.tcb = t) (hrun : run (step M) s activities = some (s', outs)) :
    s'.tcb.terms.fixed = t.terms.fixed := by
  have hall : ∀ (s : Endpoint) (a : Activity) (s' : Endpoint) (out : List SentCore),
      s.tcb.terms.fixed = t.terms.fixed → True → s.step M a = some (s', out) →
      s'.tcb.terms.fixed = t.terms.fixed :=
    fun _ _ _ _ hinv _ hstep => (step_fixed hstep).trans hinv
  exact run_forall hall (by rw [hs]) (guarded_of_forall (fun _ _ => trivial) _ _) hrun

end Endpoint

/-! ## The peer's offer -/

/-- What the peer's options make of the settings. -/
def Terms.after (c : Terms) (peer : List TcpOption) : Terms :=
  { c with
    wndScaleEnabled := c.wndScaleEnabled || peer.any (·.isWindowScale)
    tsEnabled := c.tsEnabled || peer.any (·.isTimestamp)
    sackEnabled := c.sackEnabled || peer.any (·.isSackPermitted)
    sndWscale := peerShift peer c.sndWscale }

namespace TcpControlBlock

variable {t t' : TcpControlBlock} {seg : Segment} {now : Instant}

theorem terms_applyPeerTcpOptions (options : List TcpOption) (segSeq : SeqNum) :
    (t.applyPeerTcpOptions options segSeq now).terms = t.terms.after options := by
  have hone : ∀ (o : TcpOption) (t : TcpControlBlock),
      (applyPeerTcpOption segSeq now t o).terms = t.terms.after [o] := by
    intro o t
    cases o <;> simp [Terms.after, TcpOption.isWindowScale, TcpOption.isTimestamp,
      TcpOption.isSackPermitted] <;> rfl
  have hfold : ∀ (options : List TcpOption) (t : TcpControlBlock),
      (options.foldl (applyPeerTcpOption segSeq now) t).terms = t.terms.after options := by
    intro options
    induction options with
    | nil => simp [Terms.after, peerShift]
    | cons o options ih =>
      intro t
      rw [List.foldl_cons, ih, hone]
      simp [Terms.after, Bool.or_assoc, peerShift]
  exact hfold options t

theorem isTimestamp_of_findTimestamp {options : List TcpOption} {ts : BitVec 32 × BitVec 32}
    (h : findTimestamp options = some ts) : options.any (·.isTimestamp) = true := by
  obtain ⟨o, hmem, ho⟩ := List.exists_of_findSome?_eq_some h
  rw [List.any_eq_true]
  refine ⟨o, hmem, ?_⟩
  cases o with
  | timestamp => rfl
  | _ => cases ho

theorem terms_synAckTimestamp (henabled : ∀ ts, findTimestamp seg.options = some ts →
    t.terms.tsEnabled = true) (h : t.synAckTimestamp seg now = some t') : t'.terms = t.terms := by
  rcases synAckTimestamp_cases h with rfl | ⟨stamp, ts, rtt, least, hfind, hon, rfl⟩
  · rfl
  -- the option has turned timestamps on already
  · have hts : t.ts.enabled = true := henabled _ hfind
    show Terms.mk _ ts.enabled _ _ _ _ = _
    rw [hon, ← hts]
    rfl

end TcpControlBlock

/-- The terms once the peer's SYN or SYN-ACK is taken. Its window is scaled already. -/
def Terms.heard (c : Terms) (seg : Segment) : Terms :=
  { c.after seg.options with wnd := (c.after seg.options).scale seg.window }

theorem Terms.heard_congr {c c' : Terms} (h : c'.fixed = c.fixed) (seg : Segment) :
    c'.heard seg = c.heard seg := by
  show c'.fixed.heard seg = c.fixed.heard seg
  rw [h]

/-- The terms before the peer is heard. -/
def TcpSessionSettings.terms (s : TcpSessionSettings) : Terms :=
  ⟨s.wndScaleEnabled, false, false, 0, s.rcvWscale, 0⟩

namespace TcpControlBlock

variable {t t' : TcpControlBlock} {seg : Segment} {now : Instant}

theorem terms_answerSynAck (h : t.answerSynAck seg now = some (t', false)) :
    t'.terms = t.terms.heard seg := by
  unfold answerSynAck at h
  split at h
  · cases h
  split at h
  · cases h
  split at h
  · cases h
  simp only [bind_eq_some, Option.some.injEq, Prod.mk.injEq] at h
  obtain ⟨t1, h1, t2, h2, rfl, -⟩ := h
  have hterms : t2.terms = t.terms.after seg.options := by
    rw [terms_of_view (view_completeProbe h2), terms_synAckTimestamp ?_ h1,
      terms_applyPeerTcpOptions]
    intro ts hts
    rw [terms_applyPeerTcpOptions]
    simp [Terms.after, isTimestamp_of_findTimestamp hts]
  rw [Terms.heard, ← hterms]
  rfl

variable {iss : SeqNum} {tsOffset : BitVec 32} {settings : TcpSessionSettings}

theorem terms_applyReceivePath {settings s : TcpSessionSettings}
    (h : settings.applyReceivePath (.new iss s tsOffset now) = some t) : t.terms = settings.terms :=
  (receives_updateRcvWndFromBuffer h).terms.trans rfl

theorem terms_connect
    (h : connect settings iss tsOffset now = some t) : t.terms = settings.terms := by
  simp only [connect, bind_eq_some, Option.some.injEq] at h
  obtain ⟨t1, h1, rfl⟩ := h
  exact (terms_applyReceivePath h1 :)

theorem processPassiveSyn_heard (h : processPassiveSyn settings iss tsOffset seg now = some t) :
    t.terms = settings.terms.heard seg ∧ t.state = .synReceived := by
  simp only [processPassiveSyn, bind_eq_some, Option.some.injEq] at h
  obtain ⟨t1, h1, rfl⟩ := h
  let t2 : TcpControlBlock := { t1 with
    state := .synReceived
    irs := seg.seq
    rx := { t1.rx with rcvNxt := seg.seq + 1 } }
  obtain ⟨sack, hview⟩ := t2.rxView_applyPeerTcpOptions seg.options seg.seq now
  refine ⟨?_, (congrArg RxView.state hview :)⟩
  have hterms : (t2.applyPeerTcpOptions seg.options seg.seq now).terms =
      settings.terms.after seg.options := by
    rw [terms_applyPeerTcpOptions, ← terms_applyReceivePath h1]
    rfl
  rw [Terms.heard, ← hterms]
  rfl

end TcpControlBlock

/-! ## What is in force -/

/-- Each option is in force if both sides offered it, and without window scaling nothing is
shifted. -/
def Terms.InForce (c : Terms) (ours peer : List TcpOption) : Prop :=
  c.wndScaleEnabled = (ours.any (·.isWindowScale) && peer.any (·.isWindowScale)) ∧
    c.tsEnabled = (ours.any (·.isTimestamp) && peer.any (·.isTimestamp)) ∧
    c.sackEnabled = (ours.any (·.isSackPermitted) && peer.any (·.isSackPermitted)) ∧
    (c.wndScaleEnabled = false → c.sndWscale = 0 ∧ c.rcvWscale = 0)

/-- The settings and the peer's SYN agree where the code does not look at both. -/
def NegotiationOk (s : TcpSessionSettings) (seg : Segment) : Prop :=
  s.wndScaleEnabled = seg.options.any (·.isWindowScale) ∧
    (seg.options.any (·.isTimestamp) = true → s.timestampsEnabled = true) ∧
    (seg.options.any (·.isSackPermitted) = true → s.sackEnabled = true) ∧
    (s.wndScaleEnabled = false → s.rcvWscale = 0) ∧
    (seg.window = 0 ∨ peerShift seg.options 0 = 0)

/-- The peer's SYN or SYN-ACK `seg` has been taken, `t` is the block after it and `ours` is what our
own SYN or SYN-ACK offers. On the active side `t` is the block the driver has established when it
hangs. -/
inductive Answered (M : CubicMath) (settings : TcpSessionSettings) (seg : Segment)
    (ours : List TcpOption) (t : TcpControlBlock) : Prop where
  | active (iss : SeqNum) (tsOffset : BitVec 32) (now : Instant) (t0 : TcpControlBlock)
      (activities : List Activity) (s : Endpoint) (outs : List (List SentCore)) (later : Instant)
      (hopen : connect settings iss tsOffset now = some t0)
      (hours : ours = settings.synOptions (t0.tcpTsNow now))
      (hrun : run (Endpoint.step M) (.ofOpen t0) activities = some (s, outs))
      (hack : s.tcb.answerSynAck seg later = some (t, false))
  | passive (iss : SeqNum) (tsOffset : BitVec 32) (now : Instant)
      (hopen : processPassiveSyn settings iss tsOffset seg now = some t)
      (hours : ours = settings.synAckOptions t (t.tcpTsNow now))

theorem peerShift_le (options : List TcpOption) : peerShift options 0 ≤ 14 := by
  have hle : ∀ (options : List TcpOption) (shift : Nat), shift ≤ 14 →
      peerShift options shift ≤ 14 := by
    intro options
    induction options with
    | nil => exact fun shift h => h
    | cons o options ih =>
      intro shift h
      apply ih
      cases o with
      | windowScale s => exact Nat.min_le_right _ _
      | _ => exact h
  exact hle options 0 (Nat.zero_le _)

/-- Without the option there is no shift. -/
theorem peerShift_eq_zero {options : List TcpOption}
    (h : options.any (·.isWindowScale) = false) : peerShift options 0 = 0 := by
  induction options with
  | nil => rfl
  | cons o options ih =>
    rw [List.any_cons, Bool.or_eq_false_iff] at h
    cases o with
    | windowScale s => cases h.1
    | _ => exact ih h.2

/-- A window is read the same with and without a shift only if it is 0. -/
theorem shifted_eq_iff {window : BitVec 16} {shift : Nat} (hpos : 0 < shift) (hle : shift ≤ 14) :
    (window.toNat <<< shift) % 2 ^ 32 = window.toNat ↔ window = 0 := by
  have hpow : 2 ^ shift ≤ 2 ^ 14 := Nat.pow_le_pow_right (by decide) hle
  have htwo : 2 ≤ 2 ^ shift := Nat.le_self_pow hpos.ne' 2
  have hlt : window.toNat * 2 ^ shift < 2 ^ 32 :=
    calc window.toNat * 2 ^ shift ≤ 65535 * 2 ^ 14 :=
          Nat.mul_le_mul (by have := window.isLt; omega) hpow
      _ < 2 ^ 32 := by decide
  rw [Nat.shiftLeft_eq, Nat.mod_eq_of_lt hlt]
  constructor
  · intro h
    have hzero : window.toNat = 0 := by
      by_contra hne
      have := Nat.mul_le_mul_left window.toNat htwo
      omega
    exact BitVec.eq_of_toNat_eq hzero
  · rintro rfl
    simp

/-- The offers that go right, for one handshake. -/
theorem inForce_heard_iff {s : TcpSessionSettings} {seg : Segment} {ours : List TcpOption}
    (hws : ours.any (·.isWindowScale) = s.wndScaleEnabled)
    (hts : (ours.any (·.isTimestamp) && seg.options.any (·.isTimestamp)) =
      (s.timestampsEnabled && seg.options.any (·.isTimestamp)))
    (hsack : ours.any (·.isSackPermitted) = s.sackEnabled) :
    (s.terms.heard seg).InForce ours seg.options ∧
        (s.terms.heard seg).wnd = seg.window.toNat ↔ NegotiationOk s seg := by
  have hscale : s.wndScaleEnabled = seg.options.any (·.isWindowScale) →
      ((s.terms.heard seg).wnd = seg.window.toNat ↔
        seg.window = 0 ∨ peerShift seg.options 0 = 0) := by
    intro hboth
    simp only [Terms.heard, Terms.after, TcpSessionSettings.terms, Terms.scale, hboth, Bool.or_self]
    by_cases hshift : peerShift seg.options 0 = 0
    · simp [hshift]
    have hon : seg.options.any (·.isWindowScale) = true := by
      by_contra hoff
      exact hshift (peerShift_eq_zero (Bool.not_eq_true _ ▸ hoff))
    have hpos := Nat.pos_of_ne_zero hshift
    rw [hon, if_pos (by simp [hpos]), shifted_eq_iff hpos (peerShift_le _)]
    simp [hshift]
  have hor : ∀ a b : Bool, (a || b) = (a && b) ↔ a = b := by decide
  have hand : ∀ a b : Bool, (false || b) = (a && b) ↔ (b = true → a = true) := by decide
  unfold Terms.InForce NegotiationOk
  rw [hws, hts, hsack]
  constructor
  · rintro ⟨⟨hscaling, hstamps, hsacks, hshifts⟩, hwnd⟩
    have hboth := (hor _ _).mp hscaling
    refine ⟨hboth, (hand _ _).mp hstamps, (hand _ _).mp hsacks, fun hoff => ?_,
      (hscale hboth).mp hwnd⟩
    refine (hshifts ?_).2
    rw [hscaling, hoff, Bool.false_and]
  · rintro ⟨hboth, hstamps, hsacks, hshift, hwindow⟩
    refine ⟨⟨(hor _ _).mpr hboth, (hand _ _).mpr hstamps, (hand _ _).mpr hsacks, fun hoff => ?_⟩,
      (hscale hboth).mpr hwindow⟩
    obtain ⟨hw, hp⟩ := Bool.or_eq_false_iff.mp hoff
    exact ⟨peerShift_eq_zero hp, hshift hw⟩

theorem synOptions_offers (s : TcpSessionSettings) (tsval : BitVec 32) :
    (s.synOptions tsval).any (·.isWindowScale) = s.wndScaleEnabled ∧
      (s.synOptions tsval).any (·.isTimestamp) = s.timestampsEnabled ∧
      (s.synOptions tsval).any (·.isSackPermitted) = s.sackEnabled := by
  unfold TcpSessionSettings.synOptions
  cases s.wndScaleEnabled <;> cases s.sackEnabled <;> cases s.timestampsEnabled <;>
    exact ⟨rfl, rfl, rfl⟩

theorem synAckOptions_offers (s : TcpSessionSettings) (t : TcpControlBlock) (tsval : BitVec 32) :
    (s.synAckOptions t tsval).any (·.isWindowScale) = s.wndScaleEnabled ∧
      (s.synAckOptions t tsval).any (·.isTimestamp) = (s.timestampsEnabled && t.ts.enabled) ∧
      (s.synAckOptions t tsval).any (·.isSackPermitted) = s.sackEnabled := by
  unfold TcpSessionSettings.synAckOptions
  cases s.wndScaleEnabled <;> cases s.sackEnabled <;>
    cases s.timestampsEnabled && t.ts.enabled <;> exact ⟨rfl, rfl, rfl⟩

namespace Answered

variable {M : CubicMath} {settings : TcpSessionSettings} {seg : Segment} {ours : List TcpOption}
  {t : TcpControlBlock}

theorem terms (h : Answered M settings seg ours t) : t.terms = settings.terms.heard seg := by
  cases h with
  | active iss tsOffset now t0 activities s outs later hopen hours hrun hack =>
    rw [terms_answerSynAck hack, Terms.heard_congr (Endpoint.run_fixed rfl hrun),
      ← terms_connect hopen]
    rfl
  | passive iss tsOffset now hopen hours => exact (processPassiveSyn_heard hopen).1

theorem inForce_iff (h : Answered M settings seg ours t) :
    t.terms.InForce ours seg.options ∧ t.snd.wnd = seg.window.toNat ↔
      NegotiationOk settings seg := by
  have hterms := h.terms
  have hwnd : t.snd.wnd = (settings.terms.heard seg).wnd := congrArg Terms.wnd hterms
  rw [hwnd, hterms]
  cases h with
  | active iss tsOffset now t0 activities s outs later hopen hours hrun hack =>
    subst hours
    obtain ⟨hws, hts, hsack⟩ := synOptions_offers settings (t0.tcpTsNow now)
    exact inForce_heard_iff hws (by rw [hts]) hsack
  | passive iss tsOffset now hopen hours =>
    subst hours
    obtain ⟨hws, hts, hsack⟩ := synAckOptions_offers settings t (t.tcpTsNow now)
    refine inForce_heard_iff hws ?_ hsack
    have hpeer : t.ts.enabled = seg.options.any (·.isTimestamp) := congrArg Terms.tsEnabled hterms
    rw [hts, hpeer, Bool.and_assoc, Bool.and_self]

/-- From here an established state can be reached that keeps the terms. -/
theorem establishes (h : Answered M settings seg ours t) :
    ∃ activities s outs, run (Endpoint.step M) (.ofOpen t) activities = some (s, outs) ∧
      s.tcb.state = .established ∧ s.tcb.terms = t.terms := by
  cases h with
  | active iss tsOffset now t0 activities s outs later hopen hours hrun hack =>
    exact ⟨[], .ofOpen t, [], rfl, (answerSynAck_accepted hack).2.2, rfl⟩
  | passive iss tsOffset now hopen hours =>
    -- the peer's final ACK
    let ack : Segment := Endpoint.ackOf t.snd.nxt []
    have hdata : t.processData M ack now = some (t.establish t.snd.nxt) := by
      have hacc : t.isAcceptableAck t.snd.nxt = true := decide_eq_true (Nat.le_refl _)
      unfold processData
      rw [(processPassiveSyn_heard hopen).2]
      dsimp only
      rw [processSynReceivedAck_eq,
        if_neg (show ¬ ack.flags.rst = true from nofun), if_neg (by
          rw [(processPassiveSyn_heard hopen).2]
          simp only [ack, Endpoint.ackOf, hacc]
          decide)]
      rfl
    have hstep : (Endpoint.ofOpen t).tcb.step M (.segment ack now) =
        some (t.establish t.snd.nxt, []) := by
      show (t.processData M ack now).map (·, []) = _
      rw [hdata]
      rfl
    refine ⟨[.call (.segment ack now)], _, _, run_cons (bind_of_eq_some hstep) rfl, rfl, rfl⟩

end Answered

/-- A window field, with a shift only if the segment has no SYN. -/
def Terms.interpret (c : Terms) (seg : Segment) : Nat :=
  if seg.flags.syn then seg.window.toNat else c.scale seg.window

/-- **Option negotiation**: whatever happens after the peer's SYN or SYN-ACK is taken, an
established connection works with what both sides offered, and that segment's window was not scaled,
if and only if the settings and the peer's SYN agree. The window of a later segment is read without
a shift if it carries a SYN, unless the shift makes a difference there. -/
theorem negotiation (M : CubicMath) (settings : TcpSessionSettings) (seg : Segment)
    (ours : List TcpOption) (t : TcpControlBlock) (h : Answered M settings seg ours t) :
    ((∀ (e : Endpoint) (activities : List Activity) (s : Endpoint) (outs : List (List SentCore)),
          e.tcb = t → run (Endpoint.step M) e activities = some (s, outs) →
          s.tcb.state = .established → s.tcb.terms.InForce ours seg.options) ∧
        t.snd.wnd = seg.window.toNat ↔ NegotiationOk settings seg) ∧
      ∀ (e : Endpoint) (activities : List Activity) (s : Endpoint) (outs : List (List SentCore)),
        e.tcb = t → run (Endpoint.step M) e activities = some (s, outs) →
        ∀ (later : Segment) (now : Instant) (t' : TcpControlBlock),
          s.tcb.processData M later now = some t' →
          (later.flags.syn = true → s.tcb.terms.scale later.window = later.window.toNat) →
          t'.snd.wnd = s.tcb.snd.wnd ∨ t'.snd.wnd = s.tcb.terms.interpret later := by
  refine ⟨?_, ?_⟩
  · rw [← h.inForce_iff]
    constructor
    · rintro ⟨hall, hwnd⟩
      obtain ⟨activities, s, outs, hrun, hest, hterms⟩ := h.establishes
      rw [← hterms]
      exact ⟨hall _ activities s outs rfl hrun hest, hwnd⟩
    · rintro ⟨hforce, hwnd⟩
      refine ⟨fun e activities s outs he hrun _ => ?_, hwnd⟩
      obtain ⟨hws, hts, hsack, hsnd, hrcv, -⟩ :=
        Terms.mk.inj (Endpoint.run_fixed he hrun)
      unfold Terms.InForce
      rw [hws, hts, hsack, hsnd, hrcv]
      exact hforce
  intro e activities s outs _ _ later now t' hdata hsyn
  rcases readsWindow_processData hdata with hterms | hterms
  · exact .inl (congrArg Terms.wnd hterms)
  right
  have hwnd : t'.snd.wnd = s.tcb.terms.scale later.window := congrArg Terms.wnd hterms
  rw [hwnd, Terms.interpret]
  split
  next h' =>
    exact hsyn h'
  · rfl

/-- A passive open that offers SACK alone, to a peer that offers it as well. -/
theorem negotiation_sack :
    ∃ t, processPassiveSyn (.plain 4) 100 0 (.peerSyn 65535 [.sackPermitted]) 0 = some t ∧
      ∀ (e : Endpoint) (activities : List Activity) (s : Endpoint) (outs : List (List SentCore)),
        e.tcb = t → run (Endpoint.step CubicMath.integer) e activities = some (s, outs) →
        s.tcb.state = .established →
        s.tcb.terms.InForce [.mss mss, .sackPermitted] [.sackPermitted] := by
  obtain ⟨t, ht⟩ := Option.isSome_iff_exists.mp (show (processPassiveSyn (.plain 4) 100 0
    (.peerSyn 65535 [.sackPermitted]) 0).isSome by decide)
  have hok : NegotiationOk (.plain 4) (.peerSyn 65535 [.sackPermitted]) := by
    unfold NegotiationOk
    decide
  exact ⟨t, ht, ((negotiation .integer _ _ _ t (.passive 100 0 0 ht rfl)).1.mpr hok).1⟩

instance (c : Terms) (ours peer : List TcpOption) : Decidable (c.InForce ours peer) :=
  inferInstanceAs (Decidable (_ ∧ _))

/-- We offer no timestamps and no window scaling; the peer offers both, and both are in force once
the final ACK is there, also for the window of the SYN itself. -/
theorem one_sided_options :
    ∃ t t', processPassiveSyn (.plain 4) 100 0 (.peerSyn 1 [.windowScale 3, .timestamp 7 0]) 0 =
        some t ∧
      t.processData CubicMath.integer .ackOfSyn 0 = some t' ∧ t'.state = .established ∧
      ¬ t'.terms.InForce ((TcpSessionSettings.plain 4).synAckOptions t (t.tcpTsNow 0))
        [.windowScale 3, .timestamp 7 0] ∧
      t'.neg.wndScaleEnabled = true ∧ t'.ts.enabled = true ∧ t'.snd.wnd = 8 := by
  simp only [exists_and_left]
  decide

end Moose.Tcp
