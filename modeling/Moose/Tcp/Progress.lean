import Moose.Tcp.EcnResponse
import Moose.Tcp.Window

/-!
# Receive progress

Data at RCV.NXT should always be taken as long as the application has not let the ring fill up.
The window the acceptability test uses is `capacity - occupied`, and `occupied` also counts bytes
that wait behind a gap. Out-of-order data that ends in the last cell closes the window although
nothing can be read, and then the segment that would fill the gap is turned away.

The counters and the scoreboard are followed here without the contents of the ring.
-/

set_option autoImplicit false

namespace Moose.Tcp

open Option Lib TcpControlBlock SeqNum

/-! ## The counters -/

/-- The ring can take a byte unless it is full of readable bytes. -/
structure RoomOk (cap : Nat) (b : TcpReceiveBuffer UInt8) : Prop where
  length_data : b.data.length = cap
  head : b.head < cap
  size_le : b.size ≤ b.occupied
  occupied_le : b.occupied ≤ cap
  free : b.occupied < cap ∨ b.occupied = b.size

section Counters

variable {cap : Nat} {b : TcpReceiveBuffer UInt8}

theorem RoomOk.counts (h : RoomOk cap b) : b.size ≤ b.occupied ∧ b.occupied ≤ cap ∧
    (b.occupied < cap ∨ b.occupied = b.size) :=
  ⟨h.size_le, h.occupied_le, h.free⟩

theorem RoomOk.of_counts (hl : b.data.length = cap) (hhead : b.head < cap)
    (h : b.size ≤ b.occupied ∧ b.occupied ≤ cap ∧ (b.occupied < cap ∨ b.occupied = b.size)) :
    RoomOk cap b :=
  ⟨hl, hhead, h.1, h.2.1, h.2.2⟩

section

variable (h : RoomOk cap b)
include h

theorem RoomOk.freeSpace : b.freeSpace = some (cap - b.occupied) := by
  unfold TcpReceiveBuffer.freeSpace TcpReceiveBuffer.capacity
  rw [h.length_data, Nat.max_eq_left h.size_le, if_pos h.occupied_le]

theorem RoomOk.occupied_lt (hsize : b.size < cap) : b.occupied < cap := by
  rcases h.free with hf | hf
  · exact hf
  · omega

/-- A store at an offset inside the ring goes through. -/
theorem RoomOk.writeAt {rcvNxt seq : SeqNum} {off : Nat} (hdist : dist seq rcvNxt = off)
    (hoff : off < cap) {buf : List UInt8} (hne : buf ≠ []) : ∃ data, data.length = cap ∧
      b.writeAt rcvNxt seq buf =
        some (b.stored data off (min buf.length (cap - off)) (seq == rcvNxt),
          min buf.length (cap - off)) := by
  have hcap : b.capacity = cap := h.length_data
  have hlen : (buf.take (min buf.length (cap - off))).length = min buf.length (cap - off) := by
    simp
  obtain ⟨data, hd, hl, -⟩ := Cells.wrapStore_spec b.data ((b.head + off) % cap)
    (buf.take (min buf.length (cap - off)))
    (by rw [h.length_data]; exact Nat.mod_lt _ (by omega)) (by rw [hlen, h.length_data]; omega)
  refine ⟨data, hl.trans h.length_data, ?_⟩
  unfold TcpReceiveBuffer.writeAt
  rw [if_neg (by rw [List.isEmpty_iff]; exact hne), if_neg (by omega), hdist, hcap,
    Int.toNat_natCast]
  dsimp only
  rw [if_neg (by omega), hd]
  rfl

/-- Out-of-order data that ends before the last cell leaves one free. -/
theorem RoomOk.stored_outOfOrder {data : List UInt8} (hl : data.length = cap) {off n : Nat}
    (hend : off + n < cap) (hsize : b.size < cap) : RoomOk cap (b.stored data off n false) := by
  have hlt := h.occupied_lt hsize
  have hle := h.size_le
  unfold TcpReceiveBuffer.stored
  refine .of_counts hl h.head ?_
  simp only [Bool.false_eq_true, if_false]
  omega

theorem RoomOk.stored_inOrder (hu : cap ≤ usizeMax) {data : List UInt8} (hl : data.length = cap)
    {n : Nat} (hfit : b.size + n ≤ cap) : RoomOk cap (b.stored data 0 n true) := by
  have hcounts := h.counts
  have hcap : b.capacity = cap := h.length_data
  have hmin : min (b.size + n) usizeMax = b.size + n := Nat.min_eq_left (by omega)
  unfold TcpReceiveBuffer.stored
  simp only [if_true, Nat.zero_add, hmin, hcap]
  refine .of_counts hl ?_ ?_
  · exact Nat.mod_lt _ (by have := h.head; omega)
  dsimp only
  omega

theorem RoomOk.write (buf : List UInt8) :
    ∃ b', b.write buf = some (b', min buf.length (cap - b.occupied)) ∧ RoomOk cap b' ∧
      (min buf.length (cap - b.occupied) = 0 → b' = b) := by
  have hcap : b.capacity = cap := h.length_data
  have hcounts := h.counts
  have hhead := h.head
  unfold TcpReceiveBuffer.write
  simp only [h.freeSpace, bind_eq_bind, bind_some]
  generalize hn : min buf.length (cap - b.occupied) = n
  by_cases h0 : n = 0
  · rw [if_pos h0, h0]
    exact ⟨b, rfl, h, fun _ => rfl⟩
  rw [if_neg h0]
  have hlen : (buf.take n).length = n := by
    simp
    omega
  obtain ⟨data, hd, hl, -⟩ := Cells.wrapStore_spec b.data b.head (buf.take n)
    (by rw [h.length_data]; exact hhead) (by rw [hlen, h.length_data]; omega)
  rw [hd, bind_some, hcap]
  refine ⟨_, rfl, .of_counts (hl.trans h.length_data) ?_ ?_, fun hz => absurd hz h0⟩
  · exact Nat.mod_lt _ (by omega)
  dsimp only
  omega

theorem RoomOk.advanceContig (n : Nat) : RoomOk cap (b.advanceContig n) := by
  have hcap : b.capacity = cap := h.length_data
  have hcounts := h.counts
  unfold TcpReceiveBuffer.advanceContig
  dsimp only
  split
  · exact h
  rw [hcap]
  refine .of_counts h.length_data ?_ ?_
  · exact Nat.mod_lt _ (by omega)
  dsimp only
  omega

theorem RoomOk.read {len : Nat} {b' : TcpReceiveBuffer UInt8} {out : List UInt8}
    (hread : b.read len = some (b', out)) : RoomOk cap b' := by
  have hcounts := h.counts
  unfold TcpReceiveBuffer.read at hread
  dsimp only at hread
  split at hread
  · cases hread
    exact h
  simp only [map_eq_some_iff, Prod.mk.injEq] at hread
  obtain ⟨_, -, rfl, -⟩ := hread
  refine .of_counts h.length_data h.head ?_
  dsimp only
  omega

end

/-- A read that returns nothing changes nothing. -/
theorem read_nil {len : Nat} {b' : TcpReceiveBuffer UInt8} (h : b.read len = some (b', [])) :
    b' = b := by
  unfold TcpReceiveBuffer.read at h
  dsimp only at h
  split at h
  · cases h
    rfl
  rename_i hne
  simp only [map_eq_some_iff, Prod.mk.injEq] at h
  obtain ⟨out, hout, -, rfl⟩ := h
  exact absurd (Cells.length_of_wrapLoad hout).symm hne

end Counters

/-! ## The window test -/

theorem TcpControlBlock.isInReceiveWindow_iff {t : TcpControlBlock} (hwnd : t.rcvWnd < 2 ^ 32)
    (seq : SeqNum) :
    t.isInReceiveWindow seq = true ↔ (seq - t.rx.rcvNxt).toNat < t.rcvWnd := by
  have hend : (t.rx.rcvNxt + BitVec.ofNat 32 t.rcvWnd).toNat =
      (t.rx.rcvNxt.toNat + t.rcvWnd) % 2 ^ 32 := by
    rw [BitVec.toNat_add, BitVec.toNat_ofNat, Nat.add_mod_mod]
  have hsub := BitVec.toNat_sub seq t.rx.rcvNxt
  unfold isInReceiveWindow
  dsimp only
  rw [hend, hsub]
  split
  · rw [Bool.and_eq_true, decide_eq_true_iff, decide_eq_true_iff]
    omega
  rw [Bool.or_eq_true, decide_eq_true_iff, decide_eq_true_iff]
  omega

/-- Stored data lies within the length of two windows ahead of RCV.NXT. -/
theorem TcpControlBlock.dist_of_acceptable {t : TcpControlBlock} (hwnd : t.rcvWnd < 2 ^ 16)
    {seq : SeqNum} {len off : Nat} (hlen : len < 2 ^ 16) (hpos : 0 < len)
    (hdist : dist seq t.rx.rcvNxt = off)
    (hacc : t.isSegmentAcceptable seq len = true) : off < t.rcvWnd := by
  obtain ⟨hoff, hsmall⟩ := toNat_sub_of_dist hdist
  unfold isSegmentAcceptable at hacc
  rw [if_neg (by omega), Bool.or_eq_true, isInReceiveWindow_iff (by omega),
    isInReceiveWindow_iff (by omega), hoff] at hacc
  rcases hacc with hfirst | hlast
  · exact hfirst
  have hsum : (seq + BitVec.ofNat 32 (len - 1) - t.rx.rcvNxt).toNat = off + (len - 1) := by
    rw [← hoff] at hsmall ⊢
    bv_omega
  omega

/-! ## What a segment does to counters and scoreboard -/

section Segment

variable {cap pos : Nat} {base : SeqNum} {sack : Bool} {r r' : Receiver UInt8} {seg : Segment}
  {n : Nat}

theorem sackReceiveOutOfOrder_buffer {payload : List UInt8} {seq : SeqNum}
    {b : TcpReceiveBuffer UInt8} (hw : r.receiveBuffer.writeAt r.rcvNxt seq payload = some (b, n))
    (hrx : r.sackReceiveOutOfOrder seq payload = some r') :
    r'.receiveBuffer = b := by
  unfold Receiver.sackReceiveOutOfOrder at hrx
  rw [bind_of_eq_some hw] at hrx
  dsimp only at hrx
  split at hrx
  · cases hrx
    rfl
  cases hrx
  unfold Receiver.sackRxInsertRange
  split
  split <;> rfl

theorem RoomOk.advanceRcvNxt {b : TcpReceiveBuffer UInt8} (h : RoomOk cap b) :
    RoomOk cap (r.advanceRcvNxt sack b n).receiveBuffer := by
  unfold Receiver.advanceRcvNxt
  split
  · exact advanceLoop_induct (I := fun r => RoomOk cap r.receiveBuffer)
      (fun r i k hr _ _ => hr.advanceContig _) _ h
  · exact h

/-- Data at RCV.NXT is stored, some of it unless the ring is full of readable bytes. -/
theorem RoomOk.storeInOrder (h : RoomOk cap r.receiveBuffer) (hu : cap ≤ usizeMax)
    (hseq : seg.seq = r.rcvNxt) (hne : seg.payload ≠ [])
    (hfit : sack = true → r.receiveBuffer.size + seg.payload.length ≤ cap) :
    ∃ b n, r.storeInOrder sack seg = some (b, n) ∧ RoomOk cap b ∧
      (n = 0 → b.occupied = r.receiveBuffer.occupied) ∧
      (r.receiveBuffer.size < cap → n ≠ 0) := by
  have hlen : 0 < seg.payload.length := List.length_pos_iff.mpr hne
  cases sack with
  | false =>
    obtain ⟨b, hb, hroom, hsame⟩ := h.write seg.payload
    refine ⟨b, _, hb, hroom, fun h0 => by rw [hsame h0], fun hsize => ?_⟩
    have := h.occupied_lt hsize
    omega
  | true =>
    have hfits := hfit rfl
    have hdist : dist seg.seq r.rcvNxt = (0 : Nat) := dist_eq_zero.mpr hseq
    obtain ⟨data, hl, hw⟩ := h.writeAt hdist (by omega) hne
    rw [beq_iff_eq.mpr hseq, Nat.sub_zero] at hw
    refine ⟨_, _, hw, h.stored_inOrder hu hl (by omega), fun h0 => ?_, fun _ => by omega⟩
    omega

/-- The ring after a segment, when out-of-order data ends before the last cell and data in order
fits behind the unread bytes. -/
theorem RoomOk.stored (h : RoomOk cap r.receiveBuffer) (hu : cap ≤ usizeMax)
    (hgap : sack = true → seg.payload ≠ [] → ∀ off : Nat, 0 < off →
      dist seg.seq r.rcvNxt = off →
      off + seg.payload.length < cap ∧ r.receiveBuffer.size < cap)
    (hfit : sack = true → seg.payload ≠ [] → seg.seq = r.rcvNxt →
      r.receiveBuffer.size + seg.payload.length ≤ cap)
    (hst : Stored sack r seg r' n) :
    RoomOk cap r'.receiveBuffer ∧
      (n = 0 → r'.receiveBuffer.occupied = r.receiveBuffer.occupied) := by
  cases hst with
  | ignored _ => exact ⟨h, fun _ => rfl⟩
  | outOfOrder hsack hne hdata hwrite hrx =>
    rw [sackReceiveOutOfOrder_buffer hwrite hrx]
    rcases lt_or_ge (dist seg.seq r.rcvNxt) 0 with hneg | hpos
    · rw [writeAt_behind hneg] at hwrite
      cases hwrite
      exact ⟨h, fun _ => rfl⟩
    obtain ⟨off, hdist⟩ := Int.eq_ofNat_of_zero_le hpos
    have hoff : 0 < off := by
      by_contra h0
      exact hne (dist_eq_zero.mp (by omega))
    obtain ⟨hend, hsize⟩ := hgap hsack hdata off hoff hdist
    obtain ⟨data, hl, hw⟩ := h.writeAt hdist (by omega) hdata
    rw [beq_false_of_ne hne, hwrite] at hw
    cases hw
    have hlen : 0 < seg.payload.length := List.length_pos_iff.mpr hdata
    exact ⟨h.stored_outOfOrder hl (by omega) hsize, fun h0 => absurd h0 (by omega)⟩
  | refused hat hdata hstore =>
    obtain ⟨b, m, hb, hroom, hsame, -⟩ :=
      h.storeInOrder hu hat hdata fun (hs : sack = true) => hfit hs hdata hat
    rw [hstore] at hb
    cases hb
    exact ⟨hroom, hsame⟩
  | inOrder hat hdata hn hstore =>
    obtain ⟨b, m, hb, hroom, -, -⟩ :=
      h.storeInOrder hu hat hdata fun (hs : sack = true) => hfit hs hdata hat
    rw [hstore] at hb
    cases hb
    exact ⟨hroom.advanceRcvNxt, fun h0 => absurd h0 hn⟩

/-- RCV.NXT and the ranges after a segment. -/
theorem ScoreboardOk.stored {K : Nat → Prop} (hK : ∀ p, K p)
    (h : ScoreboardOk base K pos (pos - 2 ^ 30) (pos + 2 ^ 30) r)
    (hnear : seg.payload ≠ [] → ∀ off : Nat, dist seg.seq r.rcvNxt = off →
      off + seg.payload.length ≤ 2 ^ 30)
    (hst : Stored sack r seg r' n) :
    ∃ pos', pos ≤ pos' ∧ pos' ≤ pos + 2 ^ 30 ∧
      ScoreboardOk base K pos' (pos - 2 ^ 30) (pos + 2 ^ 30) r' ∧
      (seg.seq = r.rcvNxt → n ≠ 0 → pos < pos') := by
  have hle := hst.le_length
  have hstay : ScoreboardOk base K pos (pos - 2 ^ 30) (pos + 2 ^ 30) r' → n = 0 ∨
    seg.seq ≠ r.rcvNxt →
      ∃ pos', pos ≤ pos' ∧ pos' ≤ pos + 2 ^ 30 ∧
        ScoreboardOk base K pos' (pos - 2 ^ 30) (pos + 2 ^ 30) r' ∧
        (seg.seq = r.rcvNxt → n ≠ 0 → pos < pos') := by
    rintro hok hcase
    refine ⟨pos, le_refl _, Nat.le_add_right _ _, hok, fun hat hn => ?_⟩
    rcases hcase with h0 | hne
    · exact absurd h0 hn
    · exact absurd hat hne
  cases hst with
  | ignored _ => exact hstay h (.inl rfl)
  | outOfOrder hsack hne hdata hwrite hrx =>
    rename_i b
    refine hstay ?_ (.inr hne)
    unfold Receiver.sackReceiveOutOfOrder at hrx
    rw [bind_of_eq_some hwrite] at hrx
    dsimp only at hrx
    split at hrx
    · cases hrx
      exact ⟨h.rcvNxt, h.ranges⟩
    rename_i hn
    have hpos : 0 ≤ dist seg.seq r.rcvNxt := by
      by_contra hneg
      rw [writeAt_behind (by omega)] at hwrite
      cases hwrite
      exact hn rfl
    obtain ⟨off, hdist⟩ := Int.eq_ofNat_of_zero_le hpos
    have hend := hnear hdata off hdist
    have hseq : seg.seq = SeqNum.pos base (pos + off) := by
      rw [h.rcvNxt] at hdist
      exact eq_pos_of_dist base hdist
    obtain ⟨rs, recent, heq, hrs⟩ := sackRxInsertRange_spec
      (r := { r with receiveBuffer := b }) (by omega) h.ranges
      ⟨pos + off, pos + off + n, by omega, rfl, by omega, by omega, fun p _ _ => hK p⟩
    rw [hseq, pos_add, heq] at hrx
    cases hrx
    exact ⟨h.rcvNxt, hrs⟩
  | refused hat _ _ => exact hstay ⟨h.rcvNxt, h.ranges⟩ (.inl rfl)
  | inOrder hat hdata hn hstore =>
    have hlen : seg.payload.length ≤ 2 ^ 30 := by
      have := hnear hdata 0 (dist_eq_zero.mpr hat)
      omega
    rename_i b
    have hok : ScoreboardOk base K (pos + n) (pos - 2 ^ 30) (pos + 2 ^ 30)
        { r with receiveBuffer := b, rcvNxt := r.rcvNxt + BitVec.ofNat 32 n } :=
      ⟨by rw [h.rcvNxt, pos_add], h.ranges⟩
    cases sack with
    | false => exact ⟨pos + n, by omega, by omega, hok, fun _ _ => by omega⟩
    | true =>
      obtain ⟨pos', h1, h2, h3⟩ := hok.advance (by omega) (by omega) (by omega)
      exact ⟨pos', by omega, h2, h3, fun _ _ => by omega⟩

end Segment

/-! ## The receive side of an open connection -/

/-- Counters, window and scoreboard of a connection that neither side has closed. -/
structure ReceiveOk (cap : Nat) (v : RxView) : Prop where
  room : RoomOk cap v.rx.receiveBuffer
  maxRcvWnd : v.maxRcvWnd = cap % 2 ^ 32
  rcvWnd : v.rcvWnd = min (min (cap - v.rx.receiveBuffer.occupied) v.maxRcvWnd) 65535
  board : ∃ base pos,
    ScoreboardOk base (fun _ => True) pos (pos - 2 ^ 31) (pos + 2 ^ 30) v.rx

/-- A segment of the size an IP packet can have, with no stale range in the scoreboard. If SACK is
on and the segment is acceptable, its data fits behind the unread bytes, or ends before the last
cell if it comes out of order. -/
def FitsRing (t : TcpControlBlock) (seg : Segment) : Prop :=
  seg.payload.length < 2 ^ 16 ∧ NoStaleRange t.rx ∧
    (t.sack.enabled = true → t.isSegmentAcceptable seg.seq seg.payload.length = true →
      seg.payload ≠ [] →
      (seg.seq = t.rx.rcvNxt →
        t.rx.receiveBuffer.size + seg.payload.length ≤ t.rx.receiveBuffer.capacity) ∧
      (0 < SeqNum.dist seg.seq t.rx.rcvNxt →
        SeqNum.dist seg.seq t.rx.rcvNxt + seg.payload.length < t.rx.receiveBuffer.capacity))

instance (t : TcpControlBlock) (seg : Segment) : Decidable (FitsRing t seg) :=
  inferInstanceAs (Decidable (_ ∧ _ ∧ (_ → _ → _ → (_ → _) ∧ (_ → _))))

section Open

variable {cap : Nat} {M : CubicMath} {t t' : TcpControlBlock} {seg : Segment} {now : Instant}
  {n : Nat} {v : RxView}

theorem FitsRing.congr (h : FitsRing t seg) (hrx : t'.rx = t.rx) (hwnd : t'.rcvWnd = t.rcvWnd)
    (hsack : t'.sack.enabled = t.sack.enabled) : FitsRing t' seg := by
  have hacc : t'.isSegmentAcceptable seg.seq seg.payload.length =
      t.isSegmentAcceptable seg.seq seg.payload.length := by
    simp [isSegmentAcceptable, isInReceiveWindow, hrx, hwnd]
  unfold FitsRing
  rw [hrx, hsack, hacc]
  exact h

/-- **A received segment keeps the counters, the window and the scoreboard**, and RCV.NXT moves
forward over stored data. -/
theorem ReceiveOk.received (h : ReceiveOk cap t.rxView) (hu : cap ≤ usizeMax)
    (hfit : FitsRing t seg)
    (hacc : t.isSegmentAcceptable seg.seq seg.payload.length = true)
    (hrec : Received t.rxView seg v n) :
    ReceiveOk cap v ∧ (seg.seq = t.rx.rcvNxt → n ≠ 0 →
      0 < dist v.rx.rcvNxt t.rx.rcvNxt ∧
        0 < dist (v.rx.rcvNxt + 1) t.rx.rcvNxt) := by
  obtain ⟨hlen, hstale, hsackfit⟩ := hfit
  obtain ⟨rx, wnd, hst, rfl, hwnd⟩ := hrec
  obtain ⟨base, pos, hboard⟩ := h.board
  have hrcv : t.rcvWnd = min (min (cap - t.rx.receiveBuffer.occupied) t.maxRcvWnd) 65535 :=
    h.rcvWnd
  have hring : RoomOk cap t.rx.receiveBuffer := h.room
  have hcap : t.rx.receiveBuffer.capacity = cap := hring.length_data
  have hoff : seg.payload ≠ [] → ∀ off : Nat, dist seg.seq t.rx.rcvNxt = off →
      off < t.rcvWnd := by
    intro hdata off hdist
    exact dist_of_acceptable (by omega) hlen (List.length_pos_iff.mpr hdata) hdist
      hacc
  obtain ⟨hroom, hsame⟩ := hring.stored hu
    (by
      intro hsack hdata off hpos hdist
      have h1 := (hsackfit hsack hacc hdata).2 (by omega)
      have h2 := hoff hdata off hdist
      have h3 := hring.size_le
      rw [hcap] at h1
      omega)
    (by
      intro hsack hdata hat
      have h1 := (hsackfit hsack hacc hdata).1 hat
      rw [hcap] at h1
      exact h1)
    hst
  obtain ⟨pos', h1, h2, hboard', hadv⟩ := (hboard.near hstale).stored (fun _ => trivial)
    (by
      intro hdata off hdist
      have := hoff hdata off hdist
      omega)
    hst
  refine ⟨⟨hroom, h.maxRcvWnd, ?_, base, pos', hboard'.rcvNxt, ?_⟩, ?_⟩
  · rcases hwnd with ⟨hw, h0⟩ | ⟨free, hfree, hw⟩
    · rw [hw, hsame h0]
      exact h.rcvWnd
    rw [hroom.freeSpace, some.injEq] at hfree
    rw [hw, hfree]
  · intro k hk
    exact (hboard'.ranges k hk).mono (by omega) (by omega)
  · intro hat hn
    have hlt := hadv hat hn
    have hnxt : t.rx.rcvNxt = SeqNum.pos base pos := hboard.rcvNxt
    rw [hboard'.rcvNxt, hnxt, show (1 : SeqNum) = BitVec.ofNat 32 1 from rfl, pos_add,
      SeqNum.dist_pos base (by omega) (by omega), SeqNum.dist_pos base (by omega) (by omega)]
    omega

/-- A new RCV.NXT for a connection with an empty scoreboard. -/
theorem ReceiveOk.setRcvNxt {v : RxView} (h : ReceiveOk cap v) (hempty : v.rx.rxRanges = [])
    (nxt : SeqNum) (sack : Bool) (state : TcpState) :
    ReceiveOk cap
      { v with rx := { v.rx with rcvNxt := nxt }, sackEnabled := sack, state := state } := by
  refine ⟨h.room, h.maxRcvWnd, h.rcvWnd, nxt, 0, (pos_zero nxt).symm, ?_⟩
  intro k hk
  rw [hempty] at hk
  cases hk

theorem ReceiveOk.processDataDatagram (h : ReceiveOk cap t.rxView) (hu : cap ≤ usizeMax)
    (hstate : t.state = .established) (hfit : FitsRing t seg)
    (hrun : t.processDataDatagram M seg now = some (t', n)) (hopen : t'.state.isOpen = true) :
    ReceiveOk cap t'.rxView ∧ t'.state = .established := by
  rcases t.processDataDatagram_received hstate hrun with ⟨-, hv | hv⟩ | ⟨hacc, v, hrec, hv⟩
  · rw [hv]
    exact ⟨h, (congrArg RxView.state hv).trans hstate⟩
  · rw [show t'.state = .closed from congrArg RxView.state hv] at hopen
    cases hopen
  cases hf : seg.flags.fin with
  | true =>
    rw [hf, RxView.takeFin, if_pos rfl] at hv
    rw [show t'.state = .closeWait from congrArg RxView.state hv] at hopen
    cases hopen
  | false =>
    rw [hf, RxView.takeFin, if_neg (by simp)] at hv
    have hok := (h.received hu hfit hacc hrec).1
    rw [hv]
    refine ⟨hok, ?_⟩
    obtain ⟨rx, wnd, -, rfl, -⟩ := hrec
    exact (congrArg RxView.state hv).trans hstate

end Open

/-! ## Runs -/

namespace Progress

/-- The condition on a step: every segment fits the ring. -/
def StepOk (t : TcpControlBlock) : Event → Prop
  | .segment seg _ => FitsRing t seg
  | _ => True

instance (t : TcpControlBlock) : (e : Event) → Decidable (StepOk t e)
  | .segment seg _ => inferInstanceAs (Decidable (FitsRing t seg))
  | .sendData _ _ | .sendQueue _ | .timeout _ | .close _ | .read _ =>
    inferInstanceAs (Decidable True)

/-- The invariant of a guarded run. Nothing is out of order before the handshake has ended. -/
def Inv (cap : Nat) (t : TcpControlBlock) : Prop :=
  t.state.isOpen = true →
    ReceiveOk cap t.rxView ∧ (t.state ≠ .established → t.rx.rxRanges = [])

variable {cap : Nat} {M : CubicMath} {t t' : TcpControlBlock} {seg : Segment} {now : Instant}

theorem Inv.of_view (h : Inv cap t) (hv : t'.rxView = t.rxView) : Inv cap t' := by
  intro hopen
  obtain ⟨hrx, -, -, -, hstate⟩ := RxView.mk.inj hv
  rw [hstate] at hopen
  rw [hv, hstate, hrx]
  exact h hopen

theorem inv_of_closed (h : t.state.isOpen = false) : Inv cap t := by
  intro hopen
  rw [h] at hopen
  cases hopen

section

variable (h : Inv cap t)
include h

theorem Inv.processDataDatagram (hu : cap ≤ usizeMax) (hstate : t.state = .established)
    (hfit : FitsRing t seg) {n : Nat} (hrun : t.processDataDatagram M seg now = some (t', n)) :
    Inv cap t' := by
  intro hopen
  obtain ⟨hok, hst⟩ := (h (by rw [hstate]; rfl)).1.processDataDatagram hu hstate hfit hrun hopen
  exact ⟨hok, fun hne => absurd hst hne⟩

theorem Inv.processSynReceivedAck (hu : cap ≤ usizeMax) (hopen : t.state.isOpen = true)
    (hfit : FitsRing t seg) (hrun : t.processSynReceivedAck M seg now = some t') : Inv cap t' := by
  have hinv : Inv cap (t.establish seg.ack) := by
    intro _
    obtain ⟨hok, -⟩ := h hopen
    exact ⟨⟨hok.room, hok.maxRcvWnd, hok.rcvWnd, hok.board⟩, fun hne => absurd rfl hne⟩
  rcases processSynReceivedAck_cases hrun with rfl | rfl | ⟨-, -, rfl | ⟨n, hrun⟩⟩
  · exact h
  · exact inv_of_closed rfl
  · exact hinv
  · exact hinv.processDataDatagram hu rfl (hfit.congr rfl rfl rfl) hrun

/-- A segment, whatever the state it is dispatched on. -/
theorem Inv.processData (hu : cap ≤ usizeMax) (hfit : FitsRing t seg)
    (hrun : t.processData M seg now = some t') : Inv cap t' := by
  rcases processData_cases hrun with rfl | ⟨hs, rfl⟩ | ⟨-, -, rfl⟩ | ⟨hs, hrun⟩ |
    ⟨hs, timers, rfl⟩ | ⟨hsent, hreceived, n, hdata⟩
  · exact h
  · apply inv_of_closed
    unfold abortConnection
    rw [if_neg (by rw [hs]; decide)]
    rfl
  · exact inv_of_closed rfl
  · exact h.processSynReceivedAck hu (by rw [hs]; rfl) hfit hrun
  · apply inv_of_closed
    rw [show state { t with timers := timers } = t.state from rfl, hs]
    rfl
  · by_cases hs : t.state = .established
    · exact h.processDataDatagram hu hs hfit hdata
    have hlate : t.state.isOpen = false := by
      cases hstate : t.state with
      | synSent => exact absurd hstate hsent
      | synReceived => exact absurd hstate hreceived
      | established => exact absurd hstate hs
      | _ => rfl
    intro hopen
    rw [early_processDataDatagram TcpState.early_isOpen hdata hopen] at hlate
    cases hlate

theorem Inv.read {len : Nat} {result : ReceiveResult} (hrun : t.receiveSync len = some
    (t', result)) :
    Inv cap t' := by
  rcases receiveSync_read hrun with ⟨rfl, -⟩ | ⟨b, wnd, hread, hv, hwnd⟩
  · exact h
  have hstate : t'.state = t.state := congrArg RxView.state hv
  have hrx : t'.rx = { t.rx with receiveBuffer := b } := congrArg RxView.rx hv
  intro hopen
  rw [hstate] at hopen
  obtain ⟨hok, hempty⟩ := h hopen
  have hroom : RoomOk cap b := RoomOk.read hok.room hread
  rw [hv, hstate, hrx]
  refine ⟨⟨hroom, hok.maxRcvWnd, ?_, ?_⟩, hempty⟩
  · rcases hwnd with ⟨hw, hnone⟩ | ⟨free, hfree, hw⟩
    · rw [hnone] at hread
      rw [read_nil hread, hw]
      exact hok.rcvWnd
    rw [hroom.freeSpace, some.injEq] at hfree
    rw [hw, hfree]
    rfl
  · obtain ⟨base, pos, hboard⟩ := hok.board
    exact ⟨base, pos, hboard.rcvNxt, hboard.ranges⟩

theorem Inv.close : Inv cap (t.closeConnection now) := by
  unfold closeConnection
  split
  · exact inv_of_closed rfl
  · exact inv_of_closed rfl
  · exact inv_of_closed rfl
  · exact h

end

theorem step_inv (hu : cap ≤ usizeMax) {e : Event} {o : List UInt8} (h : Inv cap t)
    (hok : StepOk t e) (hrun : t.step M e = some (t', o)) : Inv cap t' := by
  cases e with
  | segment seg now =>
    simp only [step, map_eq_some_iff, Prod.mk.injEq] at hrun
    obtain ⟨t1, hrun, rfl, -⟩ := hrun
    exact h.processData hu hok hrun
  | sendData data now =>
    simp only [step] at hrun
    split at hrun
    next t1 hsend =>
      cases hrun
      exact h.of_view ((pushes_sendData hsend).rxView)
    · cases hrun
      exact h
  | sendQueue now =>
    cases hrun
    exact h.of_view pushes_processSendQueue.rxView
  | timeout now =>
    cases hrun
    rcases t.rxView_retransmissionTimeout now with hv | hclosed
    · exact h.of_view hv
    apply inv_of_closed
    rw [hclosed]
    rfl
  | close now =>
    cases hrun
    exact h.close
  | read len =>
    simp only [step, map_eq_some_iff, Prod.exists, Prod.mk.injEq] at hrun
    obtain ⟨t1, result, hread, rfl, -⟩ := hrun
    exact h.read hread

/-- The ring of a connection: `recv_buf_size`, or one byte. -/
def capacityOf (settings : TcpSessionSettings) : Nat := max settings.recvBufSize 1

theorem receiveOk_applyReceivePath {settings s : TcpSessionSettings} {iss : SeqNum}
    {tsOffset : BitVec 32}
    (h : settings.applyReceivePath (.new iss s tsOffset now) = some t) :
    ReceiveOk (capacityOf settings) t.rxView ∧ t.rx.rxRanges = [] := by
  have hcap : 0 < capacityOf settings := Nat.lt_of_lt_of_le Nat.one_pos (Nat.le_max_right _ _)
  have hroom : RoomOk (capacityOf settings) (.new (capacityOf settings)) := by
    refine ⟨?_, hcap, le_refl _, Nat.zero_le _, .inl hcap⟩
    simp [TcpReceiveBuffer.new]
  obtain ⟨free, hfree, hv⟩ := rxView_updateRcvWndFromBuffer h
  have hrx : t.rx = ⟨0, .new (capacityOf settings), [], none⟩ := congrArg RxView.rx hv
  replace hfree : (TcpReceiveBuffer.new (capacityOf settings)).freeSpace = some free := hfree
  rw [hroom.freeSpace, some.injEq] at hfree
  rw [hv, hrx]
  refine ⟨⟨hroom, rfl, ?_, 0, 0, rfl, ?_⟩, rfl⟩
  · rw [← hfree]
    rfl
  intro k hk
  cases hk

theorem inv_opens {settings : TcpSessionSettings} (h : TcpControlBlock.Opens settings t) :
    Inv (capacityOf settings) t := by
  intro _
  cases h with
  | active iss tsOffset now h =>
    simp only [connect, bind_eq_some, some.injEq] at h
    obtain ⟨t1, h1, rfl⟩ := h
    obtain ⟨hok, hempty⟩ := receiveOk_applyReceivePath h1
    exact ⟨⟨hok.room, hok.maxRcvWnd, hok.rcvWnd, hok.board⟩, fun _ => hempty⟩
  | passive iss tsOffset syn now h =>
    simp only [processPassiveSyn, bind_eq_some, some.injEq] at h
    obtain ⟨t1, h1, rfl⟩ := h
    obtain ⟨hok, hempty⟩ := receiveOk_applyReceivePath h1
    obtain ⟨sack, hv⟩ := rxView_applyPeerTcpOptions
      { t1 with state := .synReceived, irs := syn.seq, rx := { t1.rx with rcvNxt := syn.seq + 1 } }
      syn.options syn.seq now
    refine ⟨?_, fun _ => ?_⟩
    · show ReceiveOk _ (applyPeerTcpOptions _ _ _ _).rxView
      rw [hv]
      exact hok.setRcvNxt hempty (syn.seq + 1) sack .synReceived
    show (applyPeerTcpOptions _ _ _ _).rx.rxRanges = []
    rw [(RxView.mk.inj hv).1]
    exact hempty

/-! ## Data at RCV.NXT -/

/-- The timestamp of the segment lets it pass. -/
def stampOk (t : TcpControlBlock) (seg : Segment) (now : Instant) : Bool :=
  match findTimestamp seg.options with
  | none => !t.ts.enabled
  | some (tsval, _) => !t.pawsRejects seg now tsval

/-- A data segment at RCV.NXT that nothing but the receive window can turn away. It has the ACK bit
and no RST, its timestamp passes, its acknowledgement is acceptable, and the block is not at a point
where a sum of congestion control or of the RTT estimators overflows: segments that fail these are
dropped, or stop the driver, before the window is looked at. -/
structure Deliverable (t : TcpControlBlock) (seg : Segment) (now : Instant) : Prop where
  seq : seg.seq = t.rx.rcvNxt
  data : seg.payload ≠ []
  size : seg.payload.length < 2 ^ 16
  flags : seg.flags.ack = true ∧ seg.flags.rst = false
  stamp : stampOk t seg now = true
  ack : t.isAcceptableAck seg.ack = true
  arith : t.ArithOk
  rtt : t.rtt.srtt.getD 0 ≤ 2 ^ 61 ∧ t.rtt.rttvar.getD 0 ≤ 2 ^ 61
  clock : now ≤ 2 ^ 61

instance (t : TcpControlBlock) (seg : Segment) (now : Instant) :
    Decidable (Deliverable t seg now) :=
  decidable_of_iff (_ ∧ _ ∧ _ ∧ _ ∧ _ ∧ _ ∧ _ ∧ _ ∧ _)
    ⟨fun ⟨h1, h2, h3, h4, h5, h6, h7, h8, h9⟩ => ⟨h1, h2, h3, h4, h5, h6, h7, h8, h9⟩,
      fun ⟨h1, h2, h3, h4, h5, h6, h7, h8, h9⟩ => ⟨h1, h2, h3, h4, h5, h6, h7, h8, h9⟩⟩

theorem Deliverable.inRange (h : Deliverable t seg now) (hsized : t.Sized) : t.InRange := by
  refine { hsized with rtt := ⟨fun x hx => ?_, fun x hx => ?_⟩ }
  · have := h.rtt.1
    rwa [hx] at this
  · have := h.rtt.2
    rwa [hx] at this

/-- Such a segment passes the checks. -/
theorem Deliverable.checked (h : Deliverable t seg now) (hr : t.InRange) :
    ∃ t1, t.checkSegment seg now = some (t1, true) ∧ t1.InRange ∧ t1.ArithOk := by
  obtain ⟨echo, hecho⟩ := t.noteEcn_only seg
  have hstamp := h.stamp
  unfold checkSegment
  rw [h.flags.2, h.flags.1, if_neg (by decide), if_neg (by decide), hecho]
  unfold stampOk at hstamp
  cases hfind : findTimestamp seg.options with
  | none =>
    rw [hfind] at hstamp
    exact ⟨{ t with ecn := { t.ecn with echoPending := echo } },
      congrArg (fun go => some (_, go)) hstamp, hr.congr rfl rfl rfl rfl rfl rfl,
      h.arith.congr rfl rfl⟩
  | some ts =>
    rw [hfind] at hstamp
    have hpass : pawsRejects { t with ecn := { t.ecn with echoPending := echo } } seg now ts.1 =
        false := Bool.not_eq_true' _ ▸ hstamp
    dsimp only
    rw [onRxTimestamp_eq, hpass, if_neg (by decide)]
    split
    next hnone => split at hnone <;> cases hnone
    next t2 hts =>
      have hkept : t2.InRange ∧ t2.ArithOk := by
        split at hts <;> cases hts <;>
          exact ⟨hr.congr rfl rfl rfl rfl rfl rfl, h.arith.congr rfl rfl⟩
      obtain ⟨t3, e3, h3, hcc, hneg⟩ := hkept.1.sampleTimestamp now ts.2 0
      rw [e3]
      exact ⟨t3, rfl, h3, hkept.2.congr hcc hneg⟩

/-- The segment is acceptable, at least its first byte is stored, and RCV.NXT moves forward. -/
def Delivers (M : CubicMath) (t : TcpControlBlock) (seg : Segment) (now : Instant) : Prop :=
  t.isSegmentAcceptable seg.seq seg.payload.length = true ∧
    ∃ t' n, t.processDataDatagram M seg now = some (t', n) ∧ 0 < n ∧
      0 < SeqNum.dist t'.rx.rcvNxt t.rx.rcvNxt

theorem receivePayload_delivers (h : ReceiveOk cap t.rxView) (hu : cap ≤ usizeMax)
    (hsize : t.rx.receiveBuffer.size < cap) (hseq : seg.seq = t.rx.rcvNxt)
    (hdata : seg.payload ≠ [])
    (hfit : t.sack.enabled = true → t.rx.receiveBuffer.size + seg.payload.length ≤ cap) :
    ∃ t' a n, t.receivePayload seg = some (t', a, n) ∧ 0 < n := by
  have hroom : RoomOk cap t.rx.receiveBuffer := h.room
  obtain ⟨b, n, hstore, hb, -, hn⟩ := hroom.storeInOrder hu hseq hdata hfit
  have hadv : RoomOk cap (t.rx.advanceRcvNxt t.sack.enabled b n).receiveBuffer := hb.advanceRcvNxt
  have hupd : ∃ t1, ({ t with rx := t.rx.advanceRcvNxt t.sack.enabled b n } :
      TcpControlBlock).updateRcvWndFromBuffer = some t1 := by
    unfold updateRcvWndFromBuffer effectiveRcvWnd
    rw [hadv.freeSpace]
    exact ⟨_, rfl⟩
  obtain ⟨t1, hupd⟩ := hupd
  refine ⟨t1.oweAck, false, n, ?_, Nat.pos_of_ne_zero (hn hsize)⟩
  unfold receivePayload
  rw [if_neg (by rw [List.isEmpty_iff]; exact hdata), if_neg (by rw [not_not]; exact hseq),
    bind_of_eq_some hstore]
  dsimp only
  rw [if_neg (hn hsize), bind_of_eq_some hupd]

theorem receiveSegment_delivers (now : Instant) (h : ReceiveOk cap t.rxView) (hu : cap ≤ usizeMax)
    (hsize : t.rx.receiveBuffer.size < cap) (hseq : seg.seq = t.rx.rcvNxt)
    (hdata : seg.payload ≠ []) (hfit : FitsRing t seg)
    (hacc : t.isSegmentAcceptable seg.seq seg.payload.length = true) (plan : Plan) :
    ∃ t' plan' n, t.receiveSegment seg now plan = some (t', plan', n) ∧ 0 < n := by
  have hview : ((t.maybeUpdateSendWindow seg.seq seg.ack seg.window.toNat).noteArrival now).rxView =
      t.rxView := rxView_maybeUpdateSendWindow _ _ _
  obtain ⟨hrx, -, -, hsack, -⟩ := RxView.mk.inj hview
  have hcap : t.rx.receiveBuffer.capacity = cap := RoomOk.length_data h.room
  have hroom : t.sack.enabled = true → t.rx.receiveBuffer.size + seg.payload.length ≤ cap := by
    intro hs
    rw [← hcap]
    exact (hfit.2.2 hs hacc hdata).1 hseq
  obtain ⟨t1, a, n, hpay, hn⟩ := receivePayload_delivers (hview ▸ h) hu
    (by rw [hrx]; exact hsize) (by rw [hrx]; exact hseq) hdata (by rw [hrx, hsack]; exact hroom)
  unfold receiveSegment
  rw [hacc, Bool.not_true, if_neg (by simp)]
  simp only [hpay, some_bind]
  exact ⟨_, _, _, rfl, hn⟩

theorem not_isOldDuplicate (hseq : seg.seq = t.rx.rcvNxt) (hdata : seg.payload ≠ [])
    (hlen : seg.payload.length < 2 ^ 16) : t.isOldDuplicate seg = false := by
  have hpos : 0 < seg.payload.length := List.length_pos_iff.mpr hdata
  have hdist : dist (seg.seq + BitVec.ofNat 32 seg.payload.length) t.rx.rcvNxt =
      seg.payload.length := by
    rw [hseq, ← pos_zero t.rx.rcvNxt, pos_add, dist_pos _ (by omega) (by omega)]
    omega
  unfold isOldDuplicate
  rw [hdist, Bool.and_eq_false_iff]
  exact .inr (by rw [decide_eq_false_iff_not]; omega)

/-- **Data at RCV.NXT is taken** by an established connection whose ring is not full of readable
bytes. -/
theorem delivers (h : ReceiveOk cap t.rxView) (hu : cap ≤ usizeMax) (hwnd : cap % 2 ^ 32 ≠ 0)
    (hstate : t.state = .established) (hsize : t.rx.receiveBuffer.size < cap) (hsized : t.Sized)
    (hseg : Deliverable t seg now) (hfit : FitsRing t seg) : Delivers M t seg now := by
  have hroom : RoomOk cap t.rx.receiveBuffer := h.room
  have hrcv : t.rcvWnd = min (min (cap - t.rx.receiveBuffer.occupied) t.maxRcvWnd) 65535 :=
    h.rcvWnd
  have hmax : t.maxRcvWnd = cap % 2 ^ 32 := h.maxRcvWnd
  have hocc := hroom.occupied_lt hsize
  have hlen : 0 < seg.payload.length := List.length_pos_iff.mpr hseg.data
  have hacc : t.isSegmentAcceptable seg.seq seg.payload.length = true := by
    have hpos : 0 < t.rcvWnd := by omega
    rw [hseg.seq, isSegmentAcceptable, if_neg (by omega), Bool.or_eq_true,
      isInReceiveWindow_iff (by omega), BitVec.sub_self]
    exact .inl hpos
  obtain ⟨t1, hcheck, hrange, harith⟩ := hseg.checked (hseg.inRange hsized)
  obtain ⟨t2, plan, hproc, -⟩ := hrange.processAck harith M seg hseg.clock
  have hack : t1.isAcceptableAck seg.ack = true := by
    obtain ⟨echo, recent, last, age, rtt, least, rfl⟩ := checkSegment_only hcheck
    exact hseg.ack
  have hview1 := rxView_of_view (view_checkSegment hcheck)
  have hstate1 : t1.state = .established := (congrArg RxView.state hview1).trans hstate
  have hview2 : t2.rxView = t.rxView :=
    (rxView_processAck_established hstate1 hproc).trans hview1
  obtain ⟨hrx2, hwnd2, -, hsack2, -⟩ := RxView.mk.inj hview2
  obtain ⟨t3, plan3, n, hrec, hn⟩ := receiveSegment_delivers now (hview2 ▸ h) hu
    (by rw [hrx2]; exact hsize) (by rw [hrx2]; exact hseg.seq) hseg.data
    (hfit.congr hrx2 hwnd2 hsack2) (by rw [isSegmentAcceptable_congr hview2]; exact hacc)
    plan
  have hreach : reachesReceive seg true plan = true := by
    have hne : seg.payload.isEmpty = false := List.isEmpty_eq_false_iff.mpr hseg.data
    unfold reachesReceive
    rw [hne]
    rfl
  have hchecked : t1.processChecked M seg now = some (t3, plan3, n) := by
    unfold processChecked
    rw [bind_of_eq_some hproc, hack]
    dsimp only
    rw [hreach, if_pos rfl]
    exact hrec
  have hrun : t.processDataDatagram M seg now = some (t3.carryOut plan3 now, n) := by
    unfold processDataDatagram
    rw [not_isOldDuplicate hseg.seq hseg.data hseg.size, if_neg (by simp), bind_of_eq_some hcheck]
    dsimp only
    rw [Bool.not_true, if_neg (by simp), bind_of_eq_some hchecked]
  refine ⟨hacc, _, n, hrun, hn, ?_⟩
  rcases t.processDataDatagram_received hstate hrun with ⟨h0, -⟩ | ⟨-, v, hv, hview⟩
  · omega
  obtain ⟨-, hadv⟩ := h.received hu hfit hacc hv
  obtain ⟨h1, h2⟩ := hadv hseg.seq (by omega)
  rw [show (t3.carryOut plan3 now).rx = _ from congrArg RxView.rx hview]
  unfold RxView.takeFin
  split
  · exact h2
  · exact h1

theorem sized_step {e : Event} {o : List UInt8} (h : t.Sized)
    (hrun : t.step M e = some (t', o)) : t'.Sized := by
  have hcall : (Endpoint.ofOpen t).step M (.call e) = some (_, _) := bind_of_eq_some hrun
  exact h.moves (Endpoint.step_changes hcall)

/-- **Receive progress** in every state reached by a run whose segments all fit the ring. -/
theorem run_progress (M : CubicMath) (settings : TcpSessionSettings)
    (hcap : capacityOf settings ≤ usizeMax) (hwnd : capacityOf settings % 2 ^ 32 ≠ 0)
    (t : TcpControlBlock) (hopens : TcpControlBlock.Opens settings t) (events : List Event)
    (hok : Guarded (TcpControlBlock.step M) StepOk t events) (t' : TcpControlBlock)
    (outs : List (List UInt8)) (hrun : run (TcpControlBlock.step M) t events = some (t', outs))
    (hstate : t'.state = .established)
    (hroom : t'.rx.receiveBuffer.size < t'.rx.receiveBuffer.capacity) (seg : Segment)
    (now : Instant) (hseg : Deliverable t' seg now) (hfit : StepOk t' (.segment seg now)) :
    Delivers M t' seg now := by
  have hsized : t'.Sized :=
    run_forall (fun _ _ _ _ h _ hrun => sized_step h hrun) hopens.sized hok hrun
  have hinv : Inv (capacityOf settings) t' :=
    run_forall (fun _ _ _ _ h hok hrun => step_inv hcap h hok hrun) (inv_opens hopens) hok hrun
  obtain ⟨hrec, -⟩ := hinv (by rw [hstate]; rfl)
  refine delivers hrec hcap hwnd hstate ?_ hsized hseg hfit
  rw [← show t'.rx.receiveBuffer.capacity = capacityOf settings from RoomOk.length_data hrec.room]
  exact hroom

def dataAt (offset : Nat) (bytes : List UInt8) : Segment :=
  { Segment.ackOfSyn with seq := 1001 + BitVec.ofNat 32 offset, payload := bytes }

/-- A passive open with SACK and a ring of four bytes. -/
def sackOpen : Option TcpControlBlock :=
  processPassiveSyn (.plain 4) 100 0 (.peerSyn 65535 [.sackPermitted]) 0

/-- A lost byte comes after the two that follow it. -/
theorem run_progress_repair :
    ∃ t t' outs, sackOpen = some t ∧
      run (TcpControlBlock.step CubicMath.integer) t
        [.segment .ackOfSyn 0, .segment (dataAt 1 [2, 3]) 1] = some (t', outs) ∧
      Delivers CubicMath.integer t' (dataAt 0 [1]) 2 := by
  obtain ⟨t, ht, hok, t', outs, hrun, hstate, hroom, hseg, hfit⟩ : ∃ t, sackOpen = some t ∧
      Guarded (step .integer) StepOk t [.segment .ackOfSyn 0, .segment (dataAt 1 [2, 3]) 1] ∧
      ∃ t' outs, run (step .integer) t [.segment .ackOfSyn 0, .segment (dataAt 1 [2, 3]) 1] =
          some (t', outs) ∧
        t'.state = .established ∧ t'.rx.receiveBuffer.size < t'.rx.receiveBuffer.capacity ∧
        Deliverable t' (dataAt 0 [1]) 2 ∧ FitsRing t' (dataAt 0 [1]) := by decide
  exact ⟨t, t', outs, ht, hrun, run_progress .integer (.plain 4) (by decide) (by decide) t
    (.passive 100 0 _ 0 ht) _ hok t' outs hrun hstate hroom _ 2 hseg hfit⟩

/-- Three bytes behind a gap of one, all inside the window of four, close the window: nothing can
be read, and the missing byte is turned away. -/
theorem gap_closes_window :
    ∃ t t' outs, sackOpen = some t ∧
      run (TcpControlBlock.step CubicMath.integer) t
        [.segment .ackOfSyn 0, .segment (dataAt 1 [2, 3, 4]) 1] = some (t', outs) ∧
      t'.state = .established ∧ t'.rx.receiveBuffer.size < t'.rx.receiveBuffer.capacity ∧
      Deliverable t' (dataAt 0 [1]) 2 ∧ ¬ Delivers CubicMath.integer t' (dataAt 0 [1]) 2 := by
  obtain ⟨t, ht, t', outs, hrun, hstate, hroom, hseg, hacc⟩ : ∃ t, sackOpen = some t ∧
      ∃ t' outs, run (step .integer) t [.segment .ackOfSyn 0, .segment (dataAt 1 [2, 3, 4]) 1] =
          some (t', outs) ∧
        t'.state = .established ∧ t'.rx.receiveBuffer.size < t'.rx.receiveBuffer.capacity ∧
        Deliverable t' (dataAt 0 [1]) 2 ∧
        t'.isSegmentAcceptable (dataAt 0 [1]).seq 1 = false := by decide
  refine ⟨t, t', outs, ht, hrun, hstate, hroom, hseg, fun h => ?_⟩
  cases hacc.symm.trans h.1

end Progress

end Moose.Tcp
