import Moose.Tcp.Frame
import Moose.Tcp.Window

/-!
# The stream a connection delivers

A peer sends a finite stream and ends it with a FIN. Its segments are cut from the stream and
arrive in any order, any number of times, with any other header fields; the application reads in
between. What it has read should be a prefix of the stream, and the end of the stream should be
reported only when every byte is in the ring.

Two things can go wrong. The ring takes bytes beyond its window (see `Window`), and the FIN of any
acceptable segment is taken at once, whether or not the bytes in front of it have arrived and even
when its own bytes could not be stored.
-/

set_option autoImplicit false

namespace Moose.Tcp

open List Option Lib Cells

/-! ## What a segment of the stream does to the window -/

/-- The room `process_data_datagram` sees for data at RCV.NXT, without what `write_at` would take
over unread bytes. -/
def Receiver.inOrderRoom (sack : Bool) (r : Receiver UInt8) : Nat :=
  if sack then r.receiveBuffer.capacity - r.receiveBuffer.size
  else r.receiveBuffer.capacity - max r.receiveBuffer.occupied r.receiveBuffer.size

section Segment

variable {s : Nat → UInt8} {base : SeqNum} {cap c pos lo hi : Nat} {P : Nat → Prop}
  {r r' : Receiver UInt8} {sack : Bool} {seg : Segment} {start len n : Nat}

/-- Data at RCV.NXT. -/
theorem ReceiverOk.storeInOrder (h : ReceiverOk s base cap P c pos lo hi r)
    (hu : cap ≤ usizeMax) (hseq : seg.seq = SeqNum.pos base pos)
    (hpay : seg.payload = slice s pos len) (hfit : sack = true → Fits r 0 len) :
    ∃ b n, r.storeInOrder sack seg = some (b, n) ∧ RingOk s cap c (pos + n) b ∧
      (∀ p, Kept s c r.receiveBuffer p → Kept s c b p) ∧ n ≤ len ∧
      (len ≤ r.inOrderRoom sack → n = len) := by
  have hcap : r.receiveBuffer.capacity = cap := h.ring.length_data
  unfold Receiver.storeInOrder Receiver.inOrderRoom
  rw [hcap, hseq, hpay, h.board.rcvNxt]
  cases sack with
  | false =>
    obtain ⟨b, hb, hring, hkeep⟩ := h.ring.write len
    exact ⟨b, _, hb, hring, hkeep, Nat.min_le_left _ _, fun hroom => Nat.min_eq_left hroom⟩
  | true =>
    obtain ⟨-, hfit⟩ := hfit rfl
    rw [hcap, Nat.sub_zero] at hfit
    obtain ⟨b, hb, hring, hkeep, -⟩ := h.ring.writeAt base hu 0 len (by omega) (by omega)
    rw [if_pos rfl, Nat.sub_zero] at hring
    rw [Nat.add_zero, Nat.sub_zero] at hb
    refine ⟨b, _, hb, hring, hkeep, Nat.min_le_left _ _, fun hroom => Nat.min_eq_left ?_⟩
    simp only [if_true] at hroom
    omega

/-- **The payload of a segment of the stream keeps the window**: RCV.NXT moves forward, over all
of the payload if it is at RCV.NXT and there is room. -/
theorem ReceiverOk.stored
    (h : ReceiverOk s base cap P c pos (pos - 2 ^ 30) (pos + 2 ^ 30) r) (hu : cap ≤ usizeMax)
    (hseq : seg.seq = SeqNum.pos base start) (hpay : seg.payload = slice s start len)
    (hahead : start + len ≤ pos + 2 ^ 30) (hbehind : pos ≤ start + 2 ^ 30)
    (hfit : sack = true → pos ≤ start → Fits r (start - pos) len)
    (hst : Stored sack r seg r' n) (hP : ∀ p, start ≤ p → p < start + n → P p) :
    ∃ pos', pos ≤ pos' ∧ pos' ≤ pos + 2 ^ 30 ∧
      ReceiverOk s base cap P c pos' (pos - 2 ^ 30) (pos + 2 ^ 30) r' ∧
      (start = pos → len ≤ r.inOrderRoom sack → start + len ≤ pos') := by
  have hnxt := h.board.rcvNxt
  have hinj : seg.seq = r.rcvNxt ↔ start = pos := by
    rw [hseq, hnxt]
    exact SeqNum.pos_inj base (by omega) (by omega)
  have hlen : seg.payload = [] ↔ len = 0 := by
    rw [hpay, ← length_eq_zero_iff, length_slice]
  cases hst with
  | ignored hcase =>
    refine ⟨pos, le_refl _, Nat.le_add_right _ _, h, ?_⟩
    intro hpos _
    rcases hcase with hnil | ⟨-, hne⟩
    · rw [hlen.mp hnil, hpos, Nat.add_zero]
    · exact absurd (hinj.mpr hpos) hne
  | outOfOrder hsack hne _ hwrite hrx =>
    have hstart : start ≠ pos := fun heq => hne (hinj.mpr heq)
    rcases Nat.lt_or_ge start pos with hlt | hge
    · -- an old start: `write_at` takes nothing
      have hdist : SeqNum.dist seg.seq r.rcvNxt < 0 := by
        rw [hseq, hnxt, SeqNum.dist_pos base (by omega) (by omega)]
        omega
      rw [Receiver.sackReceiveOutOfOrder, writeAt_behind hdist] at hrx
      cases hrx
      exact ⟨pos, le_refl _, Nat.le_add_right _ _, h, fun heq => absurd heq hstart⟩
    obtain ⟨hoff, hfits⟩ := hfit hsack hge
    have hcap : r.receiveBuffer.capacity = cap := h.ring.length_data
    rw [hcap] at hfits
    have hq : pos + (start - pos) = start := by omega
    obtain ⟨b, hb, -⟩ := h.ring.writeAt base hu (start - pos) len hoff (by omega)
    rw [hq, ← hnxt, ← hseq, ← hpay, hwrite, some.injEq, Prod.mk.injEq] at hb
    obtain ⟨r1, hr1, hok, -⟩ := h.sackReceiveOutOfOrder hu (by omega) (start - pos) len
      (by omega) hoff (by omega) (by omega) (by rw [hq, ← hb.2]; exact hP)
    rw [hq, ← hseq, ← hpay, hrx, some.injEq] at hr1
    rw [hr1]
    exact ⟨pos, le_refl _, Nat.le_add_right _ _, hok, fun heq => absurd heq hstart⟩
  | refused hat _ hstore =>
    obtain rfl := hinj.mp hat
    obtain ⟨b, m, hb, hring, hkeep, -, hall⟩ := h.storeInOrder hu hseq hpay
      fun hs => by simpa using hfit hs (le_refl _)
    rw [hstore, some.injEq, Prod.mk.injEq] at hb
    obtain ⟨rfl, rfl⟩ := hb
    refine ⟨start, le_refl _, Nat.le_add_right _ _, ?_, fun _ hroom => by rw [← hall hroom]; simp⟩
    exact ⟨hring, ⟨hnxt, fun k hk => (h.board.ranges k hk).imp fun p hp =>
      ⟨hkeep p hp.1, hp.2⟩⟩, h.seen⟩
  | inOrder hat _ _ hstore =>
    obtain rfl := hinj.mp hat
    obtain ⟨b, m, hb, hring, hkeep, hle, hall⟩ := h.storeInOrder hu hseq hpay
      fun hs => by simpa using hfit hs (le_refl _)
    rw [hstore, some.injEq, Prod.mk.injEq] at hb
    obtain ⟨rfl, rfl⟩ := hb
    have hok := h.inOrder hring hkeep hP
    cases sack with
    | false => exact ⟨_, Nat.le_add_right _ _, by omega, hok, fun _ hroom => by rw [hall hroom]⟩
    | true =>
      obtain ⟨pos', h1, h2, h3, -⟩ := hok.advance (by omega) (by omega) (by omega)
      exact ⟨pos', by omega, h2, h3, fun _ hroom => by rw [← hall hroom]; exact h1⟩

end Segment

/-! ## Runs -/

/-- A piece of the stream; a FIN sits on a piece that ends it. -/
structure Cut (stream : List UInt8) where
  start : Nat
  len : Nat
  fin : Bool
  le_length : start + len ≤ stream.length
  fin_at_end : fin = true → start + len = stream.length

/-- The segment that carries a piece, when position 0 has sequence number `base`. The header gives
everything else. -/
def Cut.segment {stream : List UInt8} (cut : Cut stream) (base : SeqNum) (header : Segment) :
    Segment :=
  { header with
    seq := SeqNum.pos base cut.start
    payload := (stream.drop cut.start).take cut.len
    flags := { header.flags with fin := cut.fin } }

/-- The receiving end of a connection. `pos` counts how far RCV.NXT has come, `returned` is what
`receive_sync` has returned and `placed` the positions that were put into the ring. -/
structure Inbound where
  t : TcpControlBlock
  pos : Nat
  returned : List UInt8
  placed : List Nat

inductive InboundEvent (stream : List UInt8) where
  | segment (cut : Cut stream) (header : Segment) (now : Instant)
  | read (len : Nat)

namespace Inbound

variable {stream : List UInt8}

def new (t : TcpControlBlock) : Inbound := ⟨t, 0, [], []⟩

/-- One event; the output is what a read returned. -/
def step (M : CubicMath) (base : SeqNum) (st : Inbound) :
    InboundEvent stream → Option (Inbound × List UInt8)
  | .segment cut header now => do
    let (t, n) ← st.t.processDataDatagram M (cut.segment base header) now
    some ({ st with
      t := t
      pos := st.pos + (t.rx.rcvNxt - st.t.rx.rcvNxt).toNat
      placed := st.placed ++ range' cut.start n }, [])
  | .read len => do
    let (t, result) ← st.t.receiveSync len
    some ({ st with t := t, returned := st.returned ++ result.bytes }, result.bytes)

/-- **Stream integrity**: the application has a prefix of the stream, and a connection in
CloseWait has every byte of it. -/
structure Safe (stream : List UInt8) (st : Inbound) : Prop where
  returned : st.returned <+: stream
  complete : st.t.state = .closeWait → ∀ p, p < stream.length → p ∈ st.placed

/-- A segment comes to an established connection, from a part of the stream that 32-bit sequence
numbers can tell from the rest. If it is acceptable, what is stored of it fits behind the unread
bytes, and a FIN comes with the next bytes expected and with room for them. -/
def StepOk (base : SeqNum) (st : Inbound) : InboundEvent stream → Prop
  | .segment cut _ _ =>
    st.t.state = .established ∧ NoStaleRange st.t.rx ∧
      cut.start + cut.len ≤ st.pos + 2 ^ 30 ∧ st.pos ≤ cut.start + 2 ^ 30 ∧
      (st.t.isSegmentAcceptable (SeqNum.pos base cut.start) cut.len = true →
        (st.t.sack.enabled = true → st.pos ≤ cut.start →
          Fits st.t.rx (cut.start - st.pos) cut.len) ∧
        (cut.fin = true →
          cut.start = st.pos ∧ cut.len ≤ st.t.rx.inOrderRoom st.t.sack.enabled))
  | .read _ => True

instance (base : SeqNum) (st : Inbound) : (e : InboundEvent stream) → Decidable (StepOk base st e)
  | .segment _ _ _ => inferInstanceAs (Decidable (_ ∧ _ ∧ _ ∧ _ ∧ (_ → (_ → _ → _) ∧ (_ → _))))
  | .read _ => inferInstanceAs (Decidable True)

/-- The stream as a function of the position. -/
def byteAt (stream : List UInt8) (p : Nat) : UInt8 := stream.getD p 0

theorem payload_eq_slice (cut : Cut stream) :
    (stream.drop cut.start).take cut.len = slice (byteAt stream) cut.start cut.len := by
  have hle := cut.le_length
  apply ext_getElem
  · simp only [length_take, length_drop, length_slice]
    omega
  intro i hi _
  simp only [length_take, length_drop] at hi
  simp only [slice, getElem_take, getElem_drop, getElem_map, getElem_range,
    byteAt]
  exact getElem_eq_getD 0

/-- The invariant of a guarded run. The window is that of an established connection; afterwards
only the ring is left, which reads still empty. -/
structure Inv (stream : List UInt8) (base : SeqNum) (cap : Nat) (st : Inbound) : Prop where
  live : st.t.state = .established →
    ReceiverOk (byteAt stream) base cap (· ∈ st.placed) st.returned.length st.pos
      (st.pos - 2 ^ 31) (st.pos + 2 ^ 30) st.t.rx
  ring : ∃ pos, RingOk (byteAt stream) cap st.returned.length pos st.t.rx.receiveBuffer ∧
    pos ≤ stream.length
  placed : ∀ p ∈ st.placed, p < stream.length
  complete : st.t.state = .closeWait → ∀ p, p < stream.length → p ∈ st.placed
  returned : st.returned = slice (byteAt stream) 0 st.returned.length

variable {M : CubicMath} {base : SeqNum} {cap : Nat} {st : Inbound}

theorem Inv.segment (h : Inv stream base cap st) (hu : cap ≤ usizeMax) {cut : Cut stream}
    {header : Segment} {now : Instant} (hok : StepOk base st (.segment cut header now))
    {t' : TcpControlBlock} {n : Nat}
    (hrun : st.t.processDataDatagram M (cut.segment base header) now = some (t', n)) :
    Inv stream base cap
      { st with
        t := t'
        pos := st.pos + (t'.rx.rcvNxt - st.t.rx.rcvNxt).toNat
        placed := st.placed ++ range' cut.start n } := by
  obtain ⟨hstate, hstale, hahead, hbehind, hacc⟩ := hok
  have hlive := (h.live hstate).near hstale
  rcases st.t.processDataDatagram_received hstate hrun with ⟨rfl, hview⟩ | ⟨haccept, v, hrec, hview⟩
  · have hrx : t'.rx = st.t.rx := by
      rcases hview with hv | hv
      · exact congrArg RxView.rx hv
      · exact congrArg RxView.rx hv
    have hclose : t'.state ≠ .closeWait := by
      rcases hview with hv | hv
      · rw [show t'.state = st.t.state from congrArg RxView.state hv, hstate]
        decide
      rw [show t'.state = .closed from congrArg RxView.state hv]
      decide
    rw [hrx, BitVec.sub_self, show (0#32).toNat = 0 from rfl, Nat.add_zero, range'_zero,
      append_nil]
    refine ⟨fun _ => ?_, ?_, h.placed, fun hc => absurd hc hclose, h.returned⟩
    · rw [hrx]
      exact h.live hstate
    rw [hrx]
    exact h.ring
  obtain ⟨rx, wnd, hstored, rfl, -⟩ := hrec
  have hpay := payload_eq_slice cut
  obtain ⟨hfit, hfin⟩ :=
    hacc (by rwa [← show ((cut.segment base header).payload).length = cut.len by
    rw [Cut.segment, hpay, length_slice]])
  have hlt : ∀ p ∈ st.placed ++ range' cut.start n, p < stream.length := by
    intro p hp
    rcases mem_append.mp hp with hp | hp
    · exact h.placed p hp
    have hn := hstored.le_length
    have hle := cut.le_length
    rw [mem_range'_1] at hp
    rw [show (cut.segment base header).payload = _ from hpay, length_slice] at hn
    omega
  obtain ⟨pos', h1, h2, hok, hall⟩ :=
    (hlive.weaken fun p hp => mem_append_left _ hp).stored hu rfl hpay hahead hbehind hfit
      hstored fun p h1 h2 => mem_append_right _ (mem_range'_1.mpr ⟨h1, h2⟩)
  have hle : pos' ≤ stream.length := by
    by_contra hshort
    exact absurd (hlt _ (hok.seen stream.length (by omega))) (Nat.lt_irrefl _)
  have hfin' : (cut.segment base header).flags.fin = cut.fin := rfl
  rw [hfin'] at hview
  cases hf : cut.fin with
  | false =>
    rw [hf, RxView.takeFin, if_neg (by simp)] at hview
    have hrx : t'.rx = rx := congrArg RxView.rx hview
    have hst : t'.state = .established := (congrArg RxView.state hview).trans hstate
    have hpos : st.pos + (t'.rx.rcvNxt - st.t.rx.rcvNxt).toNat = pos' := by
      rw [hrx, hok.board.rcvNxt, hlive.board.rcvNxt, SeqNum.toNat_pos_sub base h1 (by omega)]
      omega
    rw [hpos]
    refine ⟨fun _ => ?_, ⟨pos', ?_, hle⟩, hlt, fun hc => ?_, h.returned⟩
    · dsimp only
      rw [hrx]
      exact hok.mono (by omega) (by omega)
    · rw [hrx]
      exact hok.ring
    · rw [hst] at hc
      cases hc
  | true =>
    rw [hf, RxView.takeFin, if_pos rfl] at hview
    have hst : t'.state = .closeWait := congrArg RxView.state hview
    have hbuf : t'.rx.receiveBuffer = rx.receiveBuffer :=
      congrArg (fun v => v.rx.receiveBuffer) hview
    obtain ⟨hstart, hroom⟩ := hfin hf
    have hend := cut.fin_at_end hf
    refine ⟨fun hc => ?_, ⟨pos', ?_, hle⟩, hlt, fun _ p hp => ?_, h.returned⟩
    · rw [hst] at hc
      cases hc
    · rw [hbuf]
      exact hok.ring
    · exact hok.seen p (by omega)

/-- What a read returns is a slice of the window. -/
theorem Inv.read (h : Inv stream base cap st) {len : Nat} {t' : TcpControlBlock}
    {result : ReceiveResult} (hrun : st.t.receiveSync len = some (t', result)) :
    Inv stream base cap
      { st with
        t := t'
        returned := st.returned ++ result.bytes } := by
  rcases st.t.receiveSync_read hrun with ⟨rfl, hbytes⟩ | ⟨b, wnd, hread, hview, -⟩
  · rw [hbytes, append_nil]
    exact h
  have hst : t'.state = st.t.state := congrArg RxView.state hview
  have hrx : t'.rx = { st.t.rx with receiveBuffer := b } := congrArg RxView.rx hview
  obtain ⟨pos, hring, hpos⟩ := h.ring
  obtain ⟨b', hread', hring', -⟩ := hring.read len
  rw [hread, some.injEq, Prod.mk.injEq] at hread'
  obtain ⟨rfl, hbytes⟩ := hread'
  have hlen : (st.returned ++ result.bytes).length =
      st.returned.length + min len st.t.rx.receiveBuffer.size := by
    rw [length_append, hbytes, length_slice]
  refine ⟨fun hc => ?_, ⟨pos, ?_, hpos⟩, h.placed, fun hc => ?_, ?_⟩
  · obtain ⟨b', hread', hlive, -⟩ := (h.live (hst.symm.trans hc)).read len
    rw [hread, some.injEq, Prod.mk.injEq] at hread'
    rw [hlen, hrx, hread'.1]
    exact hlive
  · rw [hlen, hrx]
    exact hring'
  · exact h.complete (hst.symm.trans hc)
  · rw [hlen, hbytes]
    conv_lhs => rw [h.returned]
    simpa using slice_append (byteAt stream) 0 st.returned.length _

theorem step_inv (hu : cap ≤ usizeMax) {e : InboundEvent stream} {st' : Inbound} {o : List UInt8}
    (h : Inv stream base cap st) (hok : StepOk base st e)
    (hrun : step M base st e = some (st', o)) :
    Inv stream base cap st' := by
  cases e with
  | segment cut header now =>
    simp only [step, bind_eq_some, Prod.exists, some.injEq, Prod.mk.injEq] at hrun
    obtain ⟨t', n, hseg, rfl, -⟩ := hrun
    exact h.segment hu hok hseg
  | read len =>
    simp only [step, bind_eq_some, Prod.exists, some.injEq, Prod.mk.injEq] at hrun
    obtain ⟨t', result, hread, rfl, -⟩ := hrun
    exact h.read hread

/-- A connection whose handshake has just ended. -/
theorem inv_new {t : TcpControlBlock} (hstate : t.state = .established)
    (hrx : t.rx = ⟨base, .new cap, [], none⟩) : Inv stream base cap (new t) := by
  have hok := receiverOk_new (byteAt stream) base cap (· ∈ ([] : List Nat)) (0 - 2 ^ 31)
    (0 + 2 ^ 30)
  rw [← hrx] at hok
  refine ⟨fun _ => hok, ⟨0, hok.ring, Nat.zero_le _⟩, ?_, ?_, rfl⟩
  · intro p hp
    cases hp
  intro hc
  rw [show (new t).t.state = .established from hstate] at hc
  cases hc

theorem Inv.safe (h : Inv stream base cap st) : Safe stream st := by
  refine ⟨?_, h.complete⟩
  obtain ⟨pos, hring, hpos⟩ := h.ring
  have hlen : st.returned.length ≤ stream.length := by
    have := hring.size
    omega
  rw [h.returned, ← payload_eq_slice ⟨0, st.returned.length, false, by omega, by simp⟩,
    drop_zero]
  exact take_prefix _ _

/-- **The stream arrives intact** in every run whose segments all meet the condition. A run ends
where the driver panics. -/
theorem run_stream (M : CubicMath) (stream : List UInt8) (base : SeqNum) (cap : Nat)
    (hcap : cap ≤ usizeMax) (t : TcpControlBlock) (hstate : t.state = .established)
    (hrx : t.rx = ⟨base, .new cap, [], none⟩) (events : List (InboundEvent stream))
    (hok : Guarded (step M base) (StepOk base) (new t) events) (st : Inbound)
    (outs : List (List UInt8)) (hrun : run (step M base) (new t) events = some (st, outs)) :
    Safe stream st :=
  (run_forall (fun _ _ _ _ h hok hrun => step_inv hcap h hok hrun) (inv_new hstate hrx) hok
    hrun).safe

/-- Two pieces in the wrong order, a read, and the last piece with the FIN. -/
def reordered : List (InboundEvent [10, 20, 30, 40]) :=
  [.segment ⟨2, 1, false, by decide, by decide⟩ .ackOfSyn 0,
    .segment ⟨0, 2, false, by decide, by decide⟩ .ackOfSyn 1, .read 1,
    .segment ⟨3, 1, true, by decide, by decide⟩ .ackOfSyn 2, .read 10]

theorem run_stream_reordered :
    ∃ t st outs, TcpControlBlock.opened 16 [.sackPermitted] = some t ∧
      run (step CubicMath.integer 1001) (new t) reordered = some (st, outs) ∧
      Safe [10, 20, 30, 40] st := by
  obtain ⟨t, ht, hstate, hrx, hok, hsome⟩ : ∃ t,
    TcpControlBlock.opened 16 [.sackPermitted] = some t ∧
      t.state = .established ∧ t.rx = ⟨1001, .new 16, [], none⟩ ∧
      Guarded (step .integer 1001) (StepOk 1001) (new t) reordered ∧
      (run (step .integer 1001) (new t) reordered).isSome := by decide
  obtain ⟨⟨st, outs⟩, hrun⟩ := isSome_iff_exists.mp hsome
  exact ⟨t, st, outs, ht, hrun, run_stream _ _ 1001 16 (by decide) t hstate hrx _ hok st outs hrun⟩

/-- The second of two bytes comes alone and carries the FIN: the connection goes to CloseWait with
neither byte in the ring. And a segment that reaches past the window overwrites two unread bytes,
which the application then gets in their place. -/
theorem fin_before_data_and_overwritten_data :
    (∃ t st outs, TcpControlBlock.opened 16 [] = some t ∧
      run (step CubicMath.integer 1001) (new t)
        ([.segment ⟨1, 1, true, by decide, by decide⟩ .ackOfSyn 0] :
          List (InboundEvent [10, 20])) = some (st, outs) ∧
      ¬ Safe [10, 20] st) ∧
    ∃ t st outs, TcpControlBlock.opened 4 [.sackPermitted] = some t ∧
      run (step CubicMath.integer 1001) (new t)
        ([.segment ⟨0, 2, false, by decide, by decide⟩ .ackOfSyn 0,
          .segment ⟨3, 3, false, by decide, by decide⟩ .ackOfSyn 1, .read 4] :
          List (InboundEvent [10, 20, 30, 40, 50, 60])) = some (st, outs) ∧
      ¬ Safe [10, 20, 30, 40, 50, 60] st := by
  constructor
  · refine ⟨_, _, _, rfl, rfl, fun h => ?_⟩
    exact absurd (h.complete rfl 0 (by decide)) (by decide)
  refine ⟨_, _, _, rfl, rfl, fun h => ?_⟩
  exact absurd h.returned (by decide)

end Inbound
end Moose.Tcp
