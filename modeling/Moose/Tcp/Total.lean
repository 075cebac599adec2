import Moose.Tcp.Numbers
import Moose.Tcp.Scoreboard

/-!
# The handler returns

A segment for a known connection is processed to the end, whatever it carries, if the counters of
the ring are consistent, the numbers of the block are in range (`Sound`), data at RCV.NXT fits
behind the unread bytes when SACK is on, and the sums of `ArithOk` do not overflow. `Sound` holds in
every block an open creates and is kept by everything that happens to it.
-/

set_option autoImplicit false

namespace Moose.Tcp

open Lib

/-! ## The counters of the ring -/

structure CountersOk (b : TcpReceiveBuffer UInt8) : Prop where
  head : b.head < b.capacity
  tail : b.tail < b.capacity
  size : b.size ≤ b.capacity
  occupied : b.occupied ≤ b.capacity

namespace CountersOk

variable {b : TcpReceiveBuffer UInt8}

section

variable (h : CountersOk b)
include h

theorem freeSpace : b.freeSpace = some (b.capacity - max b.occupied b.size) :=
  if_pos (Nat.max_le.mpr ⟨h.occupied, h.size⟩)

/-- New contents of the same length, with counters in range. -/
theorem update {data : List UInt8} (hdata : data.length = b.capacity) {head size occupied : Nat}
    (hhead : head < b.capacity) (hsize : size ≤ b.capacity) (hocc : occupied ≤ b.capacity) :
    CountersOk { b with data := data, head := head, size := size, occupied := occupied } := by
  constructor
  · show head < data.length
    omega
  · show b.tail < data.length
    have := h.tail
    omega
  · show size ≤ data.length
    omega
  · show occupied ≤ data.length
    omega

theorem write (buf : List UInt8) : ∃ b' n, b.write buf = some (b', n) ∧ CountersOk b' := by
  have hhead := h.head
  unfold TcpReceiveBuffer.write
  simp only [h.freeSpace, some_bind]
  split
  · exact ⟨b, 0, rfl, h⟩
  generalize hn : min buf.length (b.capacity - max b.occupied b.size) = n
  have hlen : (buf.take n).length ≤ b.data.length := by
    rw [List.length_take]
    show min n buf.length ≤ b.capacity
    omega
  obtain ⟨data, hd, hl, -⟩ := Cells.wrapStore_spec b.data b.head (buf.take n) hhead hlen
  simp only [hd]
  refine ⟨_, n, rfl, h.update hl (Nat.mod_lt _ (by omega)) ?_ ?_⟩
  · omega
  · omega

/-- A store at a sequence number; in order it must fit behind the unread bytes. -/
theorem writeAt {rcvNxt seq : SeqNum} {buf : List UInt8}
    (hfit : seq = rcvNxt → b.size + buf.length ≤ b.capacity) :
    ∃ b' n, b.writeAt rcvNxt seq buf = some (b', n) ∧ CountersOk b' := by
  have hhead := h.head
  have hsize := h.size
  have hocc := h.occupied
  unfold TcpReceiveBuffer.writeAt
  split
  · exact ⟨b, 0, rfl, h⟩
  split
  · exact ⟨b, 0, rfl, h⟩
  dsimp only
  split
  · exact ⟨b, 0, rfl, h⟩
  rename_i hneg hoff
  generalize hofs : (SeqNum.dist seq rcvNxt).toNat = off at hoff
  generalize hn : min buf.length (b.capacity - off) = n
  have hlen : (buf.take n).length ≤ b.data.length := by
    rw [List.length_take]
    show min n buf.length ≤ b.capacity
    omega
  obtain ⟨data, hd, hl, -⟩ := Cells.wrapStore_spec b.data ((b.head + off) % b.capacity)
    (buf.take n) (Nat.mod_lt _ (by omega)) hlen
  rw [hd]
  refine ⟨_, n, rfl, ?_⟩
  unfold TcpReceiveBuffer.stored
  by_cases hat : seq = rcvNxt
  · have hbuf := hfit hat
    rw [beq_iff_eq.mpr hat, if_pos rfl]
    apply h.update hl (Nat.mod_lt _ (by omega))
    · omega
    have hoff0 : off = 0 := by
      rw [← hofs, SeqNum.dist_eq_zero.mpr hat]
      rfl
    omega
  · rw [beq_false_of_ne hat, if_neg (by simp)]
    apply h.update hl hhead hsize
    omega

theorem advanceContig (n : Nat) : CountersOk (b.advanceContig n) := by
  have hocc := h.occupied
  unfold TcpReceiveBuffer.advanceContig
  dsimp only
  split
  · exact h
  apply h.update rfl (Nat.mod_lt _ (by omega))
  · omega
  · omega

theorem read (len : Nat) : ∃ b' out, b.read len = some (b', out) ∧ CountersOk b' := by
  have hsize := h.size
  have hocc := h.occupied
  unfold TcpReceiveBuffer.read
  dsimp only
  split
  · exact ⟨b, [], rfl, h⟩
  obtain ⟨out, hout, -⟩ := Cells.wrapLoad_spec b.data b.tail (min len b.size) h.tail
    (by show _ ≤ b.capacity; omega)
  rw [hout]
  refine ⟨_, out, rfl, h.head, Nat.mod_lt _ (by omega), ?_, ?_⟩
  · show b.size - min len b.size ≤ b.capacity
    omega
  show max (b.occupied - min len b.size) (b.size - min len b.size) ≤ b.capacity
  omega

end

theorem new {capacity : Nat} (h : 0 < capacity) :
    CountersOk (TcpReceiveBuffer.new capacity) := by
  have hcap : (TcpReceiveBuffer.new capacity : TcpReceiveBuffer UInt8).capacity = capacity :=
    List.length_replicate
  have hpos : 0 < (TcpReceiveBuffer.new capacity : TcpReceiveBuffer UInt8).capacity := by
    rw [hcap]
    exact h
  exact ⟨hpos, hpos, Nat.zero_le _, Nat.zero_le _⟩

end CountersOk

/-! ## Data -/

/-- Data at RCV.NXT fits behind the bytes that are not read yet. Without SACK the ring takes what it
has room for. -/
def RoomFor (t : TcpControlBlock) (seg : Segment) : Prop :=
  t.sack.enabled = true → seg.seq = t.rx.rcvNxt →
    t.rx.receiveBuffer.size + seg.payload.length ≤ t.rx.receiveBuffer.capacity

instance (t : TcpControlBlock) (seg : Segment) : Decidable (RoomFor t seg) :=
  inferInstanceAs (Decidable (_ → _ → _))

namespace TcpControlBlock

structure Sound (t : TcpControlBlock) : Prop where
  ring : CountersOk t.rx.receiveBuffer
  inRange : t.InRange

variable {t t' : TcpControlBlock} {M : CubicMath} {seg : Segment} {now : Nat}

theorem Sound.sends (h : t.Sound) (hs : Sends t t') : t'.Sound :=
  ⟨hs.rx ▸ h.ring, h.inRange.steady hs.toSteady⟩

theorem Sound.updateRcvWndFromBuffer (h : t.Sound) :
    ∃ t', t.updateRcvWndFromBuffer = some t' ∧ t'.Sound := by
  unfold TcpControlBlock.updateRcvWndFromBuffer effectiveRcvWnd
  rw [h.ring.freeSpace]
  exact ⟨_, rfl, h.ring, h.inRange.congr rfl rfl rfl rfl rfl rfl⟩

theorem Sound.setRx (h : t.Sound) {rx : Receiver UInt8} (hring : CountersOk rx.receiveBuffer) :
    Sound { t with rx := rx } := ⟨hring, h.inRange.congr rfl rfl rfl rfl rfl rfl⟩

theorem countersOk_advanceRcvNxt {r : Receiver UInt8} {b : TcpReceiveBuffer UInt8}
    (hb : CountersOk b) (sack : Bool) (n : Nat) :
    CountersOk (r.advanceRcvNxt sack b n).receiveBuffer := by
  unfold Receiver.advanceRcvNxt
  split
  · exact advanceLoop_induct (I := fun r => CountersOk r.receiveBuffer)
      (fun r i k hr _ _ => hr.advanceContig _) _ hb
  · exact hb

section

variable (h : t.Sound)
include h

theorem Sound.receiveOutOfOrder (hne : seg.seq ≠ t.rx.rcvNxt) :
    ∃ t' n, t.receiveOutOfOrder seg = some (t', n) ∧ t'.Sound := by
  unfold TcpControlBlock.receiveOutOfOrder
  split
  · exact ⟨t, 0, rfl, h⟩
  have hfit : seg.seq = t.rx.rcvNxt →
      t.rx.receiveBuffer.size + seg.payload.length ≤ t.rx.receiveBuffer.capacity :=
    fun hat => absurd hat hne
  obtain ⟨b, n, hw, hb⟩ := h.ring.writeAt hfit
  have hrx : ∃ rx, t.rx.sackReceiveOutOfOrder seg.seq seg.payload = some rx ∧
      CountersOk rx.receiveBuffer := by
    unfold Receiver.sackReceiveOutOfOrder
    rw [bind_of_eq_some hw]
    dsimp only
    split
    · exact ⟨_, rfl, hb⟩
    refine ⟨_, rfl, ?_⟩
    unfold Receiver.sackRxInsertRange
    split
    split <;> exact hb
  obtain ⟨rx, hrx, hring⟩ := hrx
  obtain ⟨t1, hupd, h1⟩ := (h.setRx hring).updateRcvWndFromBuffer
  simp only [hw, hrx, hupd, some_bind]
  exact ⟨t1, n, rfl, h1⟩

theorem Sound.storeInOrder (hroom : RoomFor t seg) (hat : seg.seq = t.rx.rcvNxt) :
    ∃ b n, t.rx.storeInOrder t.sack.enabled seg = some (b, n) ∧ CountersOk b := by
  unfold Receiver.storeInOrder
  split
  next hsack =>
    exact h.ring.writeAt fun _ => hroom hsack hat
  · exact h.ring.write seg.payload

theorem Sound.oweAck : t.oweAck.Sound :=
  ⟨h.ring, h.inRange.congr rfl rfl rfl rfl rfl rfl⟩

theorem Sound.receivePayload (hroom : RoomFor t seg) :
    ∃ t' a n, t.receivePayload seg = some (t', a, n) ∧ t'.Sound := by
  unfold TcpControlBlock.receivePayload
  split
  · refine ⟨_, _, _, rfl, ?_⟩
    split
    · exact h.oweAck
    · exact h
  split
  next hne =>
    obtain ⟨t1, n, ht, h1⟩ := h.receiveOutOfOrder hne
    rw [ht]
    exact ⟨t1, true, n, rfl, h1⟩
  rename_i hat
  obtain ⟨b, n, hstore, hb⟩ := h.storeInOrder hroom (not_not.mp hat)
  rw [bind_of_eq_some hstore]
  dsimp only
  split
  · exact ⟨_, _, _, rfl, h.setRx hb⟩
  obtain ⟨t1, hupd, h1⟩ :=
    (h.setRx (countersOk_advanceRcvNxt hb t.sack.enabled n)).updateRcvWndFromBuffer
  rw [bind_of_eq_some hupd]
  exact ⟨_, _, _, rfl, h1.oweAck⟩

theorem Sound.handleFinFlag (now : Instant) : (t.handleFinFlag now).Sound := by
  unfold TcpControlBlock.handleFinFlag
  dsimp only
  split <;> exact ⟨h.ring, h.inRange.congr rfl rfl rfl rfl rfl rfl⟩

theorem Sound.maybeUpdateSendWindow (seq ack : SeqNum) (wnd : Nat) :
    (t.maybeUpdateSendWindow seq ack wnd).Sound := by
  unfold TcpControlBlock.maybeUpdateSendWindow
  dsimp only
  split
  · exact ⟨h.ring, h.inRange.congr rfl rfl rfl rfl rfl rfl⟩
  · exact h

theorem Sound.receiveSegment (hroom : RoomFor t seg) (now : Instant) (plan : Plan) :
    ∃ t' plan' n, t.receiveSegment seg now plan = some (t', plan', n) ∧ t'.Sound := by
  unfold TcpControlBlock.receiveSegment
  split
  · exact ⟨t, _, 0, rfl, h⟩
  have h1 := h.maybeUpdateSendWindow seg.seq seg.ack seg.window.toNat
  have h2 : ((t.maybeUpdateSendWindow seg.seq seg.ack seg.window.toNat).noteArrival now).Sound :=
    ⟨h1.ring, h1.inRange.congr rfl rfl rfl rfl rfl rfl⟩
  obtain ⟨hrx, -, -, hsack, -⟩ := RxView.mk.inj
    (show ((t.maybeUpdateSendWindow seg.seq seg.ack seg.window.toNat).noteArrival now).rxView =
      t.rxView from rxView_maybeUpdateSendWindow _ _ _)
  have hroom2 : RoomFor ((t.maybeUpdateSendWindow seg.seq seg.ack
      seg.window.toNat).noteArrival now) seg := by
    unfold RoomFor
    rw [hrx, hsack]
    exact hroom
  obtain ⟨t3, a, n, hpay, h3⟩ := h2.receivePayload hroom2
  simp only [hpay, some_bind]
  refine ⟨_, _, n, rfl, Sound.sends ?_ tunes_decideAck.sends⟩
  split
  · exact h3.handleFinFlag now
  · exact h3

/-! ## A whole segment -/

theorem Sound.noteEcn (seg : Segment) :
    (t.noteEcn seg).Sound ∧ (t.noteEcn seg).cc = t.cc ∧ (t.noteEcn seg).neg = t.neg := by
  unfold TcpControlBlock.noteEcn
  split
  · exact ⟨h, rfl, rfl⟩
  · exact ⟨⟨h.ring, h.inRange.congr rfl rfl rfl rfl rfl rfl⟩, rfl, rfl⟩

theorem Sound.checkSegment (ha : t.ArithOk) (seg : Segment) (now : Instant) :
    ∃ t' go, t.checkSegment seg now = some (t', go) ∧ t'.Sound ∧ t'.ArithOk := by
  obtain ⟨h1, hcc1, hneg1⟩ := h.noteEcn seg
  have ha1 := ha.congr hcc1 hneg1
  unfold TcpControlBlock.checkSegment
  split
  · exact ⟨_, _, rfl, ⟨h.ring, h.inRange.congr rfl rfl rfl rfl rfl rfl⟩, ha.congr rfl rfl⟩
  split
  · exact ⟨_, _, rfl, h, ha⟩
  dsimp only
  split
  · exact ⟨_, _, rfl, h1, ha1⟩
  split
  · exact ⟨_, _, rfl, h1, ha1⟩
  rename_i tsval tsecr _ _ t2 hts
  obtain ⟨recent, last, age, hkeep⟩ := onRxTimestamp_only hts
  have h2 : t2.InRange := by
    rw [hkeep]
    exact h1.inRange.congr rfl rfl rfl rfl rfl rfl
  obtain ⟨t3, e3, h3, hcc3, hneg3⟩ := h2.sampleTimestamp now tsecr 0
  rw [e3]
  obtain ⟨rtt, least, rfl⟩ := sampleTimestamp_only e3
  subst hkeep
  exact ⟨_, true, rfl, ⟨h1.ring, h3⟩, ha1.congr hcc3 hneg3⟩

end

/-- The receive side after the acknowledgement part. -/
theorem rx_processAck {plan : Plan} (hrun : t.processAck M seg now = some (t', plan)) :
    t'.rx = t.rx ∧ t'.sack.enabled = t.sack.enabled := by
  have hfin : ∀ (t1 : TcpControlBlock) (prior : TcpState),
      (t1.finAcked prior now).rx = t1.rx ∧
        (t1.finAcked prior now).sack.enabled = t1.sack.enabled := by
    intro t1 prior
    unfold finAcked
    split <;> exact ⟨rfl, rfl⟩
  rcases rxView_processAck hrun with hv | ⟨t1, hv, rfl⟩
  · exact ⟨congrArg RxView.rx hv, congrArg RxView.sackEnabled hv⟩
  obtain ⟨h1, h2⟩ := hfin t1 t.state
  exact ⟨h1.trans (congrArg RxView.rx hv), h2.trans (congrArg RxView.sackEnabled hv)⟩

section

variable (h : t.Sound)
include h

theorem Sound.processChecked (ha : t.ArithOk) (hroom : RoomFor t seg) (M : CubicMath)
    (hnow : now ≤ 2 ^ 61) :
    ∃ t' plan n, t.processChecked M seg now = some (t', plan, n) ∧ t'.Sound := by
  obtain ⟨t1, plan, e1, h1⟩ := h.inRange.processAck ha M seg hnow
  obtain ⟨hrx, hsack⟩ := rx_processAck e1
  have hs1 : t1.Sound := ⟨hrx ▸ h.ring, h1⟩
  have hroom1 : RoomFor t1 seg := by
    unfold RoomFor
    rw [hrx, hsack]
    exact hroom
  unfold TcpControlBlock.processChecked
  simp only [e1, some_bind]
  split
  · exact hs1.receiveSegment hroom1 now plan
  · exact ⟨t1, plan, 0, rfl, hs1⟩

/-- **`process_data_datagram` returns.** -/
theorem Sound.processDataDatagram (ha : t.ArithOk) (hroom : RoomFor t seg) (M : CubicMath)
    (hnow : now ≤ 2 ^ 61) : ∃ t' n, t.processDataDatagram M seg now = some (t', n) ∧ t'.Sound := by
  unfold TcpControlBlock.processDataDatagram
  split
  · refine ⟨_, _, rfl, ?_⟩
    split
    · exact ⟨h.ring, h.inRange.congr rfl rfl rfl rfl rfl rfl⟩
    · exact h
  obtain ⟨t1, go, e1, h1, ha1⟩ := h.checkSegment ha seg now
  simp only [e1, some_bind]
  cases go with
  | false => exact ⟨t1, 0, rfl, h1⟩
  | true =>
    have hview := rxView_of_view (view_checkSegment e1)
    obtain ⟨hrx, -, -, hsack, -⟩ := RxView.mk.inj hview
    have hroom1 : RoomFor t1 seg := by
      unfold RoomFor
      rw [hrx, hsack]
      exact hroom
    obtain ⟨t2, plan, n, e2, h2⟩ := h1.processChecked ha1 hroom1 M hnow
    simp only [e2, Bool.not_true, Bool.false_eq_true, if_false]
    exact ⟨_, n, rfl, h2.sends (pushes_carryOut plan).sends⟩

theorem Sound.establish (ack : SeqNum) : (t.establish ack).Sound :=
  ⟨h.ring, h.inRange.congr rfl rfl rfl rfl rfl rfl⟩

theorem Sound.processSynReceivedAck (ha : t.ArithOk) (hroom : RoomFor t seg) (M : CubicMath)
    (hnow : now ≤ 2 ^ 61) : ∃ t', t.processSynReceivedAck M seg now = some t' ∧ t'.Sound := by
  unfold TcpControlBlock.processSynReceivedAck
  split
  · exact ⟨_, rfl, h.ring, h.inRange.congr rfl rfl rfl rfl rfl rfl⟩
  split
  · exact ⟨t, rfl, h⟩
  split
  · exact ⟨_, rfl, h.establish seg.ack⟩
  obtain ⟨t1, n, e1, h1⟩ := (h.establish seg.ack).processDataDatagram
    (ha.congr rfl rfl) (show RoomFor (t.establish seg.ack) seg from hroom) M hnow
  exact ⟨t1, congrArg (Option.map (·.1)) e1, h1⟩

/-- The SYN-ACK that completes an active open. -/
def completesHandshake (t : TcpControlBlock) (seg : Segment) : Bool :=
  t.state == .synSent && !seg.flags.rst && seg.flags.syn && seg.flags.ack &&
    t.isAcceptableAck seg.ack

/-- Any other SYN-ACK resets the connection or changes nothing. -/
theorem Sound.processSynAck (hsyn : (seg.flags.syn && seg.flags.ack) = true)
    (hhs : t.completesHandshake seg = false) (now : Instant) :
    ∃ t', t.processSynAck seg now = some t' ∧ t'.Sound := by
  unfold TcpControlBlock.processSynAck answerSynAck
  split
  · exact ⟨_, rfl, h.ring, { h.inRange with rtt := { h.inRange.rtt with } }⟩
  split
  · exact ⟨t, rfl, h⟩
  split
  · exact ⟨t, rfl, h⟩
  rename_i hrst hstate hack
  exfalso
  unfold completesHandshake at hhs
  rw [Bool.and_eq_true] at hsyn
  rw [not_not] at hstate
  simp [hrst, hstate, hsyn.1, hsyn.2] at hhs hack
  rw [hhs] at hack
  cases hack

theorem Sound.abortConnection (error : TcpError) : (t.abortConnection error).Sound := by
  unfold TcpControlBlock.abortConnection
  split
  · exact h
  · exact ⟨h.ring, { h.inRange with rtt := { h.inRange.rtt with }, pipePrev := nofun }⟩

/-- **A segment for a known connection is processed**, unless it completes an active open. -/
theorem Sound.processData (ha : t.ArithOk) (hroom : RoomFor t seg)
    (hhs : t.completesHandshake seg = false) (M : CubicMath) (hnow : now ≤ 2 ^ 61) :
    ∃ t', t.processData M seg now = some t' ∧ t'.Sound := by
  have hdata : ∃ t', (t.processDataDatagram M seg now).map (·.1) = some t' ∧ t'.Sound := by
    obtain ⟨t1, n, e1, h1⟩ := h.processDataDatagram ha hroom M hnow
    exact ⟨t1, congrArg (Option.map (·.1)) e1, h1⟩
  unfold TcpControlBlock.processData
  split
  · split
    · exact ⟨_, rfl, h.abortConnection _⟩
    split
    next hsyn =>
      exact h.processSynAck hsyn hhs now
    · exact ⟨t, rfl, h⟩
  · exact h.processSynReceivedAck ha hroom M hnow
  · split
    next hsyn =>
      exact h.processSynAck hsyn hhs now
    · exact hdata
  · exact hdata
  · exact hdata
  · exact hdata
  · exact hdata
  · exact hdata
  · refine ⟨_, rfl, ?_⟩
    split
    · exact ⟨h.ring, h.inRange.congr rfl rfl rfl rfl rfl rfl⟩
    · exact h
  · exact ⟨t, rfl, h⟩
  · exact ⟨t, rfl, h⟩

end

/-! ## Opening -/

theorem inRange_new (iss : SeqNum) (settings : TcpSessionSettings) (tsOffset : BitVec 32)
    (now : Instant) : (new iss settings tsOffset now).InRange := by
  have hnone : ∀ x : Nat, (none : Option Nat) = some x → x ≤ 2 ^ 61 := fun _ hx => by cases hx
  refine ⟨⟨⟨_, rfl, rfl⟩, ?_, ?_, ?_⟩, ⟨hnone, hnone⟩, ?_, ?_, ?_, ?_, Nat.le_refl _⟩
  · show initialCwnd < 2 ^ 32
    decide
  · show initialCwnd < 2 ^ 32
    decide
  · show initialSsthresh < 2 ^ 32
    decide
  · show 0 < 2 ^ 32
    decide
  · show 0 < 2 ^ 32
    decide
  · intro x hx
    cases hx
  · show 0 < 2 ^ 32
    decide

theorem sound_applyReceivePath (settings s : TcpSessionSettings) (iss : SeqNum)
    (tsOffset : BitVec 32) (now : Instant) :
    ∃ t, settings.applyReceivePath (new iss s tsOffset now) = some t ∧ t.Sound := by
  apply Sound.updateRcvWndFromBuffer
  have hrange := inRange_new iss s tsOffset now
  exact ⟨CountersOk.new (Nat.lt_of_lt_of_le Nat.one_pos (Nat.le_max_right _ _)), { hrange with }⟩

theorem Sound.applyPeerTcpOption (h : t.Sound) (seq : SeqNum) (now : Instant) (o : TcpOption) :
    (applyPeerTcpOption seq now t o).Sound := by
  cases o with
  | mss value => exact ⟨h.ring, { h.inRange with }⟩
  | windowScale shift => exact ⟨h.ring, { h.inRange with }⟩
  | timestamp tsval tsecr => exact ⟨h.ring, h.inRange.congr rfl rfl rfl rfl rfl rfl⟩
  | sackPermitted => exact ⟨h.ring, { h.inRange with }⟩
  | sack blocks => exact h
  | other => exact h

theorem Sound.applyPeerTcpOptions (h : t.Sound) (options : List TcpOption) (seq : SeqNum)
    (now : Instant) : (t.applyPeerTcpOptions options seq now).Sound := by
  have hfold : (options.foldl (TcpControlBlock.applyPeerTcpOption seq now) t).Sound := by
    induction options generalizing t with
    | nil => exact h
    | cons o options ih => exact ih (h.applyPeerTcpOption seq now o)
  refine ⟨hfold.ring, { hfold.inRange with effectiveMss := ?_ }⟩
  -- the segment size is computed anew, and never above the default
  unfold TcpControlBlock.applyPeerTcpOptions recomputeEffectiveMss mss
  dsimp only
  split <;> omega

theorem sound_processPassiveSyn (settings : TcpSessionSettings) (iss : SeqNum)
    (tsOffset : BitVec 32) (syn : Segment) (now : Instant) :
    ∃ t, processPassiveSyn settings iss tsOffset syn now = some t ∧ t.Sound := by
  obtain ⟨t, ht, h⟩ := sound_applyReceivePath settings settings iss tsOffset now
  have h1 : Sound { t with
      state := .synReceived, irs := syn.seq, rx := { t.rx with rcvNxt := syn.seq + 1 } } :=
    ⟨h.ring, h.inRange.congr rfl rfl rfl rfl rfl rfl⟩
  have h2 := h1.applyPeerTcpOptions syn.options syn.seq now
  unfold processPassiveSyn
  rw [bind_of_eq_some ht]
  exact ⟨_, rfl, h2.ring, h2.inRange.congr rfl rfl rfl rfl rfl rfl⟩

theorem sound_connect (settings : TcpSessionSettings) (iss : SeqNum) (tsOffset : BitVec 32)
    (now : Instant) : ∃ t, connect settings iss tsOffset now = some t ∧ t.Sound := by
  obtain ⟨t, ht, h⟩ := sound_applyReceivePath
    { settings with receiveBufferSize := clampTcpReceiveBufferBytes settings.receiveBufferSize }
    { settings with receiveBufferSize := clampTcpReceiveBufferBytes settings.receiveBufferSize }
    iss tsOffset now
  unfold connect
  simp only [ht, some_bind]
  exact ⟨_, rfl, h.ring, { h.inRange with rtt := { h.inRange.rtt with } }⟩

/-! ## The other activities -/

theorem Sound.tick (h : t.Sound) (now : Instant) : (t.tick now).1.Sound := by
  have hrx : (t.tickRetransmissionTimer now).1.rx = t.rx := by
    unfold tickRetransmissionTimer
    split
    · rfl
    split
    · rfl
    split
    · rfl
    split
    · rfl
    · exact congrArg (·.rx.rx) (view_onRto _)
  rcases t.tick_cases now with ⟨-, heq⟩ | hrest
  · rw [heq]
    exact h
  · exact Sound.sends ⟨hrx ▸ h.ring, h.inRange.tickRetransmissionTimer now⟩ hrest.sends

theorem Sound.receiveSync (h : t.Sound) (len : Nat) :
    ∃ t' result, t.receiveSync len = some (t', result) ∧ t'.Sound := by
  unfold TcpControlBlock.receiveSync
  split
  · exact ⟨t, _, rfl, h⟩
  obtain ⟨b, out, hread, hb⟩ := h.ring.read len
  simp only [hread, some_bind]
  have h1 : Sound { t with rx := { t.rx with receiveBuffer := b } } := h.setRx hb
  split
  · exact ⟨_, _, rfl, h1⟩
  obtain ⟨t2, e2, h2⟩ := h1.updateRcvWndFromBuffer
  rw [e2]
  exact ⟨t2, _, rfl, h2⟩

end TcpControlBlock

/-! ## Everything that can happen to a block -/

/-- What the application and the timer thread do to a block; a pass of the timer thread is split as
in `Endpoint`, and what is due may be done at any time. -/
inductive LocalOp where
  | sendData (data : List UInt8) (now : Instant)
  | close (now : Instant)
  | read (len : Nat)
  | abort (error : TcpError)
  | tick (now : Instant)
  | perform (now : Instant) (due : Due)

namespace TcpControlBlock

variable {t : TcpControlBlock}

def localOp (t : TcpControlBlock) : LocalOp → Option TcpControlBlock
  | .sendData data now =>
    match t.sendData data now with
    | .ok t => some t
    | .error _ => some t
  | .close now => some (t.closeConnection now)
  | .read len => (t.receiveSync len).map (·.1)
  | .abort error => some (t.abortConnection error)
  | .tick now => some (t.tick now).1
  | .perform now due => some (t.perform now due).1

/-- None of it fails, and a sound block stays sound. -/
theorem Sound.localOp (h : t.Sound) (op : LocalOp) :
    ∃ t', t.localOp op = some t' ∧ t'.Sound := by
  cases op with
  | sendData data now =>
    show ∃ t', (match t.sendData data now with
      | .ok t => some t
      | .error _ => some t) = some t' ∧ t'.Sound
    split
    next t1 hs =>
      exact ⟨t1, rfl, h.sends (pushes_sendData hs).sends⟩
    · exact ⟨t, rfl, h⟩
  | close now => exact ⟨_, rfl, h.sends sends_closeConnection⟩
  | read len =>
    obtain ⟨t1, result, e1, h1⟩ := h.receiveSync len
    refine ⟨t1, ?_, h1⟩
    show (t.receiveSync len).map (·.1) = some t1
    rw [e1]
    rfl
  | abort error => exact ⟨_, rfl, h.abortConnection error⟩
  | tick now => exact ⟨_, rfl, h.tick now⟩
  | perform now due => exact ⟨_, rfl, h.sends (pushes_perform _ _ due).sends⟩

end TcpControlBlock

end Moose.Tcp
