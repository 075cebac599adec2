import Mathlib.Data.List.Flatten
import Moose.Hyperv.Packet
import Moose.Lib.Ring
import Moose.Lib.Run

/-!
# Sending through a VMBus channel

`VmBusChannel::send_raw` over the outgoing half of `ring_buffer.rs`. A packet is copied into the
ring in four pieces, each with its own wrap-around; only then does the write index move. The host
reads whole packets from the read index and moves it, at any point between two copies. The channel
is a queue of packets bounded by the ring: a packet is taken if and only if it is strictly smaller
than the free space, and the host gets the packets in order, as they were sent.

The length of the descriptor is computed in 16 bits, so a descriptor of 64 KiB or more panics
although a packet may have 512 KiB. It makes no difference: the message that announces the ring to
the host has room for 26 pages, the ring is smaller than 64 KiB, and such a packet is refused in any
case.
-/

set_option autoImplicit false

namespace Moose.Hyperv

open List Lib

/-- The outgoing ring: its data region and the two indices of the shared header. -/
structure HyperVSingleRingBuffer where
  data : List UInt8
  writeOffset : Nat
  readOffset : Nat

namespace HyperVSingleRingBuffer

def ringBufferDataSize (r : HyperVSingleRingBuffer) : Nat := r.data.length

def getAvailableWriteSpace (r : HyperVSingleRingBuffer) : Nat :=
  if r.readOffset ≤ r.writeOffset then
    r.ringBufferDataSize - (r.writeOffset - r.readOffset)
  else r.readOffset - r.writeOffset

/-- Both sides are cut to 32 bits. -/
def hasEnoughSpaceToSend (r : HyperVSingleRingBuffer) (len : Nat) : Bool :=
  len % 2 ^ 32 < r.getAvailableWriteSpace % 2 ^ 32

/-- Copies bytes to the given offset, round the end if need be, and returns the offset behind them.
A copy that leaves the ring is `none`. -/
def send (r : HyperVSingleRingBuffer) (bytes : List UInt8) (offset : Nat) :
    Option (HyperVSingleRingBuffer × Nat) := do
  let data ← Cells.wrapStore r.data offset bytes
  some ({ r with data := data }, (offset + bytes.length) % r.ringBufferDataSize)

end HyperVSingleRingBuffer

/-- What `create_gpadl` asserts: the page numbers fit into one message, behind a header of 28 bytes.
-/
def GpadlFits (pages : Nat) : Prop := 28 + pages * 8 < 240

/-- What `send_raw` is called with: a descriptor with the bytes of memory that follow it, and the
payload. The descriptor has the length it says, and the packet fits its 16-bit length field. -/
structure Outgoing where
  header : VmBusNormalPacketHeader
  tail : List UInt8
  payload : List UInt8
  header_len : 16 + tail.length = 8 * header.headerLenQword.toNat
  fits : 16 + tail.length + (payload.length + (8 - payload.length % 8) % 8) < 512 * 1024

namespace Outgoing

def paddingComplement (p : Outgoing) : Nat := (8 - p.payload.length % 8) % 8

/-- The padded length on the wire, the footer included. -/
def txLen (p : Outgoing) : Nat :=
  8 * p.header.headerLenQword.toNat + p.payload.length + p.paddingComplement + 8

def toPacket (p : Outgoing) (offset : Nat) : Packet where
  header := { p.header with packetLenQword := .ofNat ((p.txLen - 8) / 8) }
  tail := p.tail
  data := p.payload ++ replicate p.paddingComplement 0
  footer := { reserved := 0, firstByteOfPacket := .ofNat offset }

def segments (p : Outgoing) (offset : Nat) : List (List UInt8) :=
  let packet := p.toPacket offset
  [packet.header.encode ++ p.tail, p.payload, replicate p.paddingComplement 0,
    packet.footer.encode]

theorem packetLen_toPacket (p : Outgoing) (offset : Nat) :
    8 * (p.toPacket offset).header.packetLenQword.toNat = p.txLen - 8 := by
  have hfits : 8 * p.header.headerLenQword.toNat + (p.payload.length + p.paddingComplement) <
      512 * 1024 := by
    rw [← p.header_len]
    exact p.fits
  have hdvd : 8 ∣ p.payload.length + p.paddingComplement := by
    unfold paddingComplement
    omega
  have hlen : p.txLen - 8 = 8 * p.header.headerLenQword.toNat +
      (p.payload.length + p.paddingComplement) := by
    unfold txLen
    omega
  have hlt : (p.txLen - 8) / 8 < 2 ^ 16 := by omega
  simp only [toPacket, UInt16.toNat_ofNat', Nat.mod_eq_of_lt hlt]
  omega

theorem wellFormed_toPacket (p : Outgoing) (offset : Nat) : (p.toPacket offset).WellFormed where
  header_len := p.header_len
  packet_len := by
    rw [packetLen_toPacket]
    simp only [toPacket, length_append, length_replicate, p.header_len, txLen]
    omega

theorem length_wire_toPacket (p : Outgoing) (offset : Nat) :
    (p.toPacket offset).wire.length = p.txLen := by
  rw [(p.wellFormed_toPacket offset).length_wire, packetLen_toPacket]
  unfold txLen
  omega

end Outgoing

/-- How far a call of `send_raw` has come. -/
inductive Sender where
  | idle
  /-- The pieces still to be copied and the offset they go to. -/
  | sending (segments : List (List UInt8)) (startingOffset : Nat)

structure VmBusChannel where
  tx : HyperVSingleRingBuffer
  sender : Sender

namespace VmBusChannel

/-- `send_raw` up to its first copy. `none` is a panic. -/
def beginSend (s : VmBusChannel) (p : Outgoing) : Option VmBusChannel :=
  -- `header.header_len_qword * 8` is a 16-bit product
  if 2 ^ 16 ≤ p.header.headerLenQword.toNat * 8 then none
  else if s.tx.hasEnoughSpaceToSend p.txLen then
    some { s with sender := .sending (p.segments s.tx.writeOffset) s.tx.writeOffset }
  else none

/-- The host takes the packet at the read index apart. -/
def parse (s : VmBusChannel) : Option Packet := do
  let header := VmBusNormalPacketHeader.decode (← Cells.wrapLoad s.tx.data s.tx.readOffset 16)
  let packetLen := 8 * header.packetLenQword.toNat
  let wire ← Cells.wrapLoad s.tx.data s.tx.readOffset (packetLen + 8)
  some (Packet.ofWire header wire)

def advanceReadIndex (s : VmBusChannel) (header : VmBusNormalPacketHeader) : VmBusChannel :=
  { s with tx := { s.tx with
      readOffset := (s.tx.readOffset + (8 * header.packetLenQword.toNat + 8)) %
        s.tx.ringBufferDataSize } }

inductive Action where
  | sendRaw (p : Outgoing)
  /-- The call copies its next piece, or moves the write index and returns. -/
  | goOn
  /-- The host reads a packet, if there is one. -/
  | host

inductive Out where
  | accepted
  | panicked
  | busy
  | copied
  | returned
  | idle
  | received (p : Packet)
  | empty
  deriving DecidableEq

def step (s : VmBusChannel) : Action → Option (VmBusChannel × Out)
  | .sendRaw p =>
    match s.sender with
    | .sending _ _ => some (s, .busy)
    | .idle =>
      match s.beginSend p with
      | none => some (s, .panicked)
      | some s => some (s, .accepted)
  | .goOn =>
    match s.sender with
    | .idle => some (s, .idle)
    | .sending [] offset =>
      some ({ tx := { s.tx with writeOffset := offset }, sender := .idle }, .returned)
    | .sending (bytes :: rest) offset => do
      let (tx, offset) ← s.tx.send bytes offset
      some ({ tx := tx, sender := .sending rest offset }, .copied)
  | .host =>
    if s.tx.readOffset = s.tx.writeOffset then some (s, .empty)
    else do
      let packet ← s.parse
      some (s.advanceReadIndex packet.header, .received packet)

/-! ## The bounded queue -/

/-- The packets that are sent and not yet read, and the one that is being sent with the number of
its pieces still to be copied. -/
structure Fifo where
  queue : List Packet
  pending : Option (Packet × Nat)
  /-- The index the next packet starts at. -/
  start : Nat

namespace Fifo

def bytes (a : Fifo) : List UInt8 := a.queue.flatMap Packet.wire

/-- The calls of the queue in a ring of `n` bytes. -/
def Step (n : Nat) (a : Fifo) : Action → Out → Fifo → Prop
  | .sendRaw p, out, a' =>
    match a.pending with
    | some _ => out = .busy ∧ a' = a
    | none =>
      -- taken if and only if it is strictly below the free space
      if p.txLen < n - a.bytes.length then
        out = .accepted ∧ a' = { a with pending := some (p.toPacket a.start, 4) }
      else out = .panicked ∧ a' = a
  | .goOn, out, a' =>
    match a.pending with
    | none => out = .idle ∧ a' = a
    | some (p, 0) =>
      out = .returned ∧
        a' = ⟨a.queue ++ [p], none, (a.start + p.wire.length) % n⟩
    | some (p, k + 1) => out = .copied ∧ a' = { a with pending := some (p, k) }
  | .host, out, a' =>
    match a.queue with
    | [] => out = .empty ∧ a' = a
    | p :: rest => out = .received p ∧ a' = { a with queue := rest }

end Fifo

/-! ## The ring holds the queue -/

/-- The piece of the packet that is being sent which is already in the ring lies behind the packets
of the queue, and the rest of it has room. -/
def Sending (n p : Nat) (s : VmBusChannel) (a : Fifo) : Prop :=
  match s.sender, a.pending with
  | .idle, none => True
  | .sending segments offset, some (q, k) =>
    segments.length = k ∧ q.WellFormed ∧ a.bytes.length + q.wire.length < n ∧
      ∃ written, written ++ segments.flatten = q.wire ∧
        offset = (p + a.bytes.length + written.length) % n ∧
        Cells.Stores s.tx.data (p + a.bytes.length) written
  | _, _ => False

/-- The packet that is being sent stays where it is when packets in front of it are read. -/
theorem Sending.of_le {n p p' : Nat} {s s' : VmBusChannel} {a a' : Fifo} (h : Sending n p s a)
    (hs : s'.sender = s.sender) (hdata : s'.tx.data = s.tx.data) (hpending : a'.pending = a.pending)
    (hpos : p' + a'.bytes.length = p + a.bytes.length) (hle : a'.bytes.length ≤ a.bytes.length) :
    Sending n p' s' a' := by
  unfold Sending at h ⊢
  rw [hs, hdata, hpending, hpos]
  cases hsender : s.sender with
  | idle =>
    cases hp : a.pending with
    | none => trivial
    | some r => simp only [hsender, hp] at h
  | sending segments offset =>
    cases hp : a.pending with
    | none => simp only [hsender, hp] at h
    | some r =>
      simp only [hsender, hp] at h
      obtain ⟨hk, hr, hfits, hwritten⟩ := h
      exact ⟨hk, hr, by omega, hwritten⟩

/-- The ring of `n` bytes holds the packets of the queue from position `p` on, in front of the write
index, and never fills up. -/
structure Layout (n p : Nat) (s : VmBusChannel) (a : Fifo) : Prop where
  size : s.tx.data.length = n
  size_lt : n < 2 ^ 16
  read : s.tx.readOffset = p % n
  write : s.tx.writeOffset = (p + a.bytes.length) % n
  start : a.start = s.tx.writeOffset
  room : a.bytes.length < n
  stored : Cells.Stores s.tx.data p a.bytes
  wellFormed : ∀ q ∈ a.queue, q.WellFormed
  sending : Sending n p s a

variable {n p : Nat} {s : VmBusChannel} {a : Fifo}

section

variable (h : Layout n p s a)
include h

/-- Where the write index is, seen from the read index. -/
theorem Layout.write_eq : s.tx.writeOffset = if s.tx.readOffset + a.bytes.length < n then
      s.tx.readOffset + a.bytes.length else s.tx.readOffset + a.bytes.length - n := by
  have hpos : 0 < n := Nat.zero_lt_of_lt h.room
  rw [h.write, h.read, ← Nat.mod_add_mod]
  exact Cells.wrap_index (Nat.mod_lt _ hpos) h.room

theorem Layout.read_lt : s.tx.readOffset < n := by
  rw [h.read]
  exact Nat.mod_lt _ (Nat.zero_lt_of_lt h.room)

/-- The indices meet only when nothing is queued. -/
theorem Layout.empty_iff : s.tx.readOffset = s.tx.writeOffset ↔ a.queue = [] := by
  have hlen : s.tx.readOffset = s.tx.writeOffset ↔ a.bytes.length = 0 := by
    have hwrite := h.write_eq
    have hread := h.read_lt
    have hroom := h.room
    split at hwrite <;> omega
  rw [hlen]
  constructor
  · intro hzero
    cases hq : a.queue with
    | nil => rfl
    | cons q rest =>
      have := q.wire_pos
      simp only [Fifo.bytes, hq, flatMap_cons, length_append] at hzero
      omega
  · intro hq
    simp [Fifo.bytes, hq]

theorem Layout.available : s.tx.getAvailableWriteSpace = n - a.bytes.length := by
  have hwrite := h.write_eq
  have hroom := h.room
  unfold HyperVSingleRingBuffer.getAvailableWriteSpace
    HyperVSingleRingBuffer.ringBufferDataSize
  rw [h.size]
  split at hwrite <;> split <;> omega

theorem Layout.hasEnoughSpace_iff (q : Outgoing) :
    s.tx.hasEnoughSpaceToSend q.txLen = true ↔ q.txLen < n - a.bytes.length := by
  have htx : q.txLen < 2 ^ 32 := by
    have hfits := q.fits
    rw [q.header_len] at hfits
    unfold Outgoing.txLen Outgoing.paddingComplement
    omega
  have hsize := h.size_lt
  unfold HyperVSingleRingBuffer.hasEnoughSpaceToSend
  rw [h.available, Nat.mod_eq_of_lt htx, Nat.mod_eq_of_lt (by omega), decide_eq_true_eq]

/-! ## One step -/

/-- A call of `send_raw` starts with the whole packet still to be copied. -/
theorem Layout.accept (q : Outgoing) (hq : q.txLen < n - a.bytes.length) :
    Layout n p { s with sender := .sending (q.segments s.tx.writeOffset) s.tx.writeOffset }
      { a with pending := some (q.toPacket a.start, 4) } := by
  refine ⟨h.size, h.size_lt, h.read, h.write, h.start, h.room, h.stored, h.wellFormed,
    rfl, q.wellFormed_toPacket _, ?_, [], ?_, ?_, Cells.stores_nil _ _⟩
  · rw [q.length_wire_toPacket]
    show a.bytes.length + q.txLen < n
    omega
  · simp [Outgoing.segments, Packet.wire, Outgoing.toPacket, h.start]
  · exact h.write

/-- One piece more is copied. -/
theorem Layout.copy {bytes : List UInt8} {rest : List (List UInt8)} {offset k : Nat} {q : Packet}
    (hs : s.sender = .sending (bytes :: rest) offset) (ha : a.pending = some (q, k + 1)) :
    ∃ tx offset', s.tx.send bytes offset = some (tx, offset') ∧
      Layout n p ⟨tx, .sending rest offset'⟩ { a with pending := some (q, k) } := by
  have hsending := h.sending
  simp only [Sending, hs, ha] at hsending
  obtain ⟨hk, hq, hroom, written, hwire, hoffset, hwritten⟩ := hsending
  have hsize := h.size
  have hpos : 0 < n := Nat.zero_lt_of_lt h.room
  -- the piece fits behind what is there, without reaching round to the read index
  have hlen : written.length + (bytes.length + rest.flatten.length) = q.wire.length := by
    rw [← hwire]
    simp
  have hfits : p + a.bytes.length + written.length + bytes.length ≤ p + s.tx.data.length := by
    rw [hsize]
    omega
  obtain ⟨data, hdata, hl, hold, hnew⟩ :=
    Cells.Stores.wrapStore (by rw [hsize]; exact hpos)
      (Cells.stores_append.mpr ⟨h.stored, hwritten⟩) (by rw [length_append]; omega) hfits
  rw [hsize, ← hoffset] at hdata
  obtain ⟨hbytes, hwritten'⟩ := Cells.stores_append.mp hold
  refine ⟨{ s.tx with data := data }, (offset + bytes.length) % n, ?_, ?_⟩
  · simp only [HyperVSingleRingBuffer.send, hdata, HyperVSingleRingBuffer.ringBufferDataSize, hsize]
    rfl
  refine ⟨hl.trans hsize, h.size_lt, h.read, h.write, h.start, h.room, hbytes, h.wellFormed,
    Nat.succ.inj hk, hq, hroom, written ++ bytes, ?_, ?_, ?_⟩
  · rw [append_assoc]
    exact hwire
  · rw [hoffset, Nat.mod_add_mod, length_append]
    exact congrArg (· % n) (Nat.add_assoc _ _ _)
  · exact Cells.stores_append.mpr ⟨hwritten', hnew⟩

/-- When all pieces are copied, the write index moves and the packet is queued. -/
theorem Layout.commit {offset : Nat} {q : Packet} (hs : s.sender = .sending [] offset)
    (ha : a.pending = some (q, 0)) : Layout n p ⟨{ s.tx with writeOffset := offset }, .idle⟩
      ⟨a.queue ++ [q], none, (a.start + q.wire.length) % n⟩ := by
  have hsending := h.sending
  simp only [Sending, hs, ha, flatten_nil, append_nil] at hsending
  obtain ⟨-, hq, hroom, written, rfl, hoffset, hwritten⟩ := hsending
  have hbytes : (⟨a.queue ++ [q], none, (a.start + q.wire.length) % n⟩ : Fifo).bytes =
      a.bytes ++ q.wire := by
    simp [Fifo.bytes]
  have hwrite : offset = (p + (a.bytes ++ q.wire).length) % n := by
    rw [hoffset, length_append, Nat.add_assoc]
  refine ⟨h.size, h.size_lt, h.read, ?_, ?_, ?_, ?_, ?_, trivial⟩
  · rw [hbytes]
    exact hwrite
  · show (a.start + q.wire.length) % n = offset
    rw [h.start, h.write, Nat.mod_add_mod, hoffset]
  · rw [hbytes, length_append]
    exact hroom
  · rw [hbytes]
    exact Cells.stores_append.mpr ⟨h.stored, hwritten⟩
  · intro r hr
    rcases mem_append.mp hr with hr | hr
    · exact h.wellFormed r hr
    rw [mem_singleton.mp hr]
    exact hq

/-- The host gets the first packet of the queue. -/
theorem Layout.host {q : Packet} {rest : List Packet} (ha : a.queue = q :: rest) :
    s.parse = some q ∧
      Layout n (p + q.wire.length) (s.advanceReadIndex q.header) { a with queue := rest } := by
  have hsize := h.size
  have hpos : 0 < s.tx.data.length := by
    rw [hsize]
    exact Nat.zero_lt_of_lt h.room
  have hq : q.WellFormed := h.wellFormed q (by rw [ha]; exact mem_cons_self)
  have hbytes : a.bytes = q.wire ++ ({ a with queue := rest } : Fifo).bytes := by
    simp [Fifo.bytes, ha]
  have hlen : a.bytes.length =
      q.wire.length + ({ a with queue := rest } : Fifo).bytes.length := by
    rw [hbytes, length_append]
  have hroom := h.room
  have hload : ∀ k, k ≤ q.wire.length →
      Cells.wrapLoad s.tx.data s.tx.readOffset k = some (q.wire.take k) := by
    intro k hk
    rw [h.read, ← hsize, h.stored.wrapLoad hpos (by omega) (by omega), hbytes,
      take_append_of_le_length hk]
  have hstored := h.stored
  rw [hbytes] at hstored
  have hconsumed : 8 * q.header.packetLenQword.toNat + 8 = q.wire.length := hq.length_wire.symm
  constructor
  · have hheader : VmBusNormalPacketHeader.decode (q.wire.take 16) = q.header := by
      rw [Packet.wire, take_append_of_length q.header.length_encode,
        ← append_nil q.header.encode, VmBusNormalPacketHeader.decode_encode]
    have h16 : 16 ≤ q.wire.length := by
      rw [q.length_wire]
      omega
    unfold parse
    rw [hload 16 h16]
    simp [some_bind, hheader, hconsumed, hload _ le_rfl, hq.ofWire]
  have hsending := h.sending
  have hshift : p + q.wire.length + ({ a with queue := rest } : Fifo).bytes.length =
      p + a.bytes.length := by omega
  refine ⟨hsize, h.size_lt, ?_, ?_, h.start, by omega, (Cells.stores_append.mp hstored).2, ?_, ?_⟩
  · simp [advanceReadIndex, HyperVSingleRingBuffer.ringBufferDataSize, hsize, hconsumed, h.read]
  · rw [hshift]
    exact h.write
  · exact fun r hr => h.wellFormed r (by rw [ha]; exact mem_cons_of_mem q hr)
  · exact hsending.of_le rfl rfl rfl hshift (by omega)

end

/-! ## Runs -/

theorem step_layout (h : ∃ p, Layout n p s a) (c : Action) :
    ∃ s' out a', s.step c = some (s', out) ∧ a.Step n c out a' ∧ ∃ p, Layout n p s' a' := by
  obtain ⟨p, h⟩ := h
  have hsending := h.sending
  cases c with
  | sendRaw q =>
    cases hs : s.sender with
    | sending segments offset =>
      cases hp : a.pending with
      | none => simp only [Sending, hs, hp] at hsending
      | some r => exact ⟨s, .busy, a, by simp only [step, hs], by simp [Fifo.Step, hp], p, h⟩
    | idle =>
      cases hp : a.pending with
      | some r => simp only [Sending, hs, hp] at hsending
      | none =>
        by_cases hq : 2 ^ 16 ≤ q.header.headerLenQword.toNat * 8
        · -- the product overflows, but so long a descriptor would not have fitted
          have hfits : ¬ q.txLen < n - a.bytes.length := by
            have hsize := h.size_lt
            unfold Outgoing.txLen
            omega
          refine ⟨s, .panicked, a, ?_, ?_, p, h⟩
          · simp only [step, hs, beginSend, if_pos hq]
          · simp [Fifo.Step, hp, hfits]
        by_cases hfits : q.txLen < n - a.bytes.length
        · have hspace := (h.hasEnoughSpace_iff q).mpr hfits
          refine ⟨_, .accepted, _, ?_, ?_, p, h.accept q hfits⟩
          · simp only [step, hs, beginSend, if_neg hq, if_pos hspace]
          · simp [Fifo.Step, hp, hfits]
        have hspace : s.tx.hasEnoughSpaceToSend q.txLen ≠ true :=
          fun hspace => hfits ((h.hasEnoughSpace_iff q).mp hspace)
        refine ⟨s, .panicked, a, ?_, ?_, p, h⟩
        · simp [step, hs, beginSend, if_neg hspace]
        · simp [Fifo.Step, hp, hfits]
  | goOn =>
    cases hs : s.sender with
    | idle =>
      cases hp : a.pending with
      | some r => simp only [Sending, hs, hp] at hsending
      | none => exact ⟨s, .idle, a, by simp only [step, hs], by simp [Fifo.Step, hp], p, h⟩
    | sending segments offset =>
      cases hp : a.pending with
      | none => simp only [Sending, hs, hp] at hsending
      | some r =>
        obtain ⟨q, k⟩ := r
        have hk : segments.length = k := by
          simp only [Sending, hs, hp] at hsending
          exact hsending.1
        cases segments with
        | nil =>
          subst hk
          refine ⟨_, .returned, _, by simp only [step, hs], ?_, p, h.commit hs hp⟩
          simp [Fifo.Step, hp]
        | cons bytes rest =>
          subst hk
          obtain ⟨tx, offset', hsend, hlayout⟩ := h.copy hs hp
          refine ⟨_, .copied, _, ?_, ?_, p, hlayout⟩
          · simp only [step, hs, hsend]
            rfl
          · simp [Fifo.Step, hp]
  | host =>
    cases ha : a.queue with
    | nil =>
      refine ⟨s, .empty, a, ?_, by simp [Fifo.Step, ha], p, h⟩
      simp [step, if_pos (h.empty_iff.mpr ha)]
    | cons q rest =>
      have hne : ¬ s.tx.readOffset = s.tx.writeOffset := by
        rw [h.empty_iff, ha]
        exact cons_ne_nil q rest
      obtain ⟨hparse, hlayout⟩ := h.host ha
      refine ⟨_, .received q, _, ?_, by simp [Fifo.Step, ha], _, hlayout⟩
      simp only [step, if_neg hne, hparse]
      rfl

/-- What can be seen of a channel that stands for a queue: from the read index on the ring holds
the bytes of the queued packets, and the indices meet only when there are none. -/
structure Agrees (s : VmBusChannel) (a : Fifo) : Prop where
  unread : Cells.wrapLoad s.tx.data s.tx.readOffset a.bytes.length = some a.bytes
  empty_iff : s.tx.writeOffset = s.tx.readOffset ↔ a.queue = []

theorem Layout.agrees (h : Layout n p s a) : Agrees s a where
  unread := by
    have hsize := h.size
    have hroom := h.room
    rw [h.read, ← hsize, h.stored.wrapLoad (by omega) le_rfl (by omega), take_length]
  empty_iff := by
    rw [eq_comm]
    exact h.empty_iff

/-- An empty channel: nobody sends, and the indices are equal. The ring has a size that could be
announced to the host, with the other half and the two header pages. -/
structure Empty (s : VmBusChannel) : Prop where
  idle : s.sender = .idle
  indices : s.tx.writeOffset = s.tx.readOffset
  read_lt : s.tx.readOffset < s.tx.data.length
  size : ∃ txPages, GpadlFits (2 * (txPages + 1)) ∧ s.tx.data.length ≤ txPages * 4096

theorem Empty.size_lt (h : s.Empty) : s.tx.data.length < 2 ^ 16 := by
  obtain ⟨txPages, hfits, hsize⟩ := h.size
  unfold GpadlFits at hfits
  omega

theorem Empty.layout (h : s.Empty) :
    Layout s.tx.data.length s.tx.readOffset s ⟨[], none, s.tx.writeOffset⟩ := by
  have hmod : s.tx.readOffset % s.tx.data.length = s.tx.readOffset := Nat.mod_eq_of_lt h.read_lt
  refine ⟨rfl, h.size_lt, hmod.symm, h.indices.trans hmod.symm, rfl, ?_, Cells.stores_nil _ _,
    forall_mem_nil _, ?_⟩
  · exact Nat.zero_lt_of_lt h.read_lt
  · simp [Sending, h.idle]

/-- **The channel is a bounded queue of packets**: from an empty channel with a ring of any size
that can be announced to the host, every interleaving of the sender's steps with the host is one of
the queue, with the same results. -/
theorem run_fifo {s : VmBusChannel} (hs : s.Empty) (as : List Action) :
    ∃ s' outs a, run step s as = some (s', outs) ∧
      Trace (Fifo.Step s.tx.data.length) ⟨[], none, s.tx.writeOffset⟩ as outs a ∧ Agrees s' a := by
  have hstep : ∀ (t : VmBusChannel) (a : Fifo) (c : Action),
      (∃ p, Layout s.tx.data.length p t a) →
      ∃ t' out a', t.step c = some (t', out) ∧ a.Step s.tx.data.length c out a' ∧
        ∃ p, Layout s.tx.data.length p t' a' := fun _ _ c h => step_layout h c
  obtain ⟨s', outs, a, hrun, htrace, p, h⟩ := run_sim hstep as ⟨_, hs.layout⟩
  exact ⟨s', outs, a, hrun, htrace, h.agrees⟩

def threeBytes : Outgoing where
  header := ⟨6, 2, 0, 1, 42⟩
  tail := []
  payload := [1, 2, 3]
  header_len := rfl
  fits := by decide

/-- An empty ring of 40 bytes, its indices 8 bytes before the end. -/
def smallRing : VmBusChannel := ⟨⟨replicate 40 0, 32, 32⟩, .idle⟩

/-- A packet that wraps round the end is sent and read, and a second one is refused while the first
is in the ring. -/
def wrapAround : List Action :=
  [.sendRaw threeBytes, .goOn, .goOn, .goOn, .goOn, .goOn, .sendRaw threeBytes, .host]

theorem run_fifo_wrapAround : ∃ s' outs a,
    run step smallRing wrapAround = some (s', outs) ∧
      outs = [.accepted, .copied, .copied, .copied, .copied, .returned, .panicked,
        .received (threeBytes.toPacket 32)] ∧
      Trace (Fifo.Step smallRing.tx.data.length) ⟨[], none, smallRing.tx.writeOffset⟩ wrapAround
        outs a ∧ Agrees s' a := by
  have hempty : smallRing.Empty := ⟨rfl, rfl, by decide, 4, by unfold GpadlFits; decide, by decide⟩
  obtain ⟨s', outs, a, hrun, htrace, hagrees⟩ := run_fifo hempty wrapAround
  have heval : (run step smallRing wrapAround).map (·.2) =
    some [.accepted, .copied, .copied, .copied,
      .copied, .returned, .panicked, .received (threeBytes.toPacket 32)] := by decide
  rw [hrun] at heval
  exact ⟨s', outs, a, hrun, Option.some.inj heval, htrace, hagrees⟩
end VmBusChannel

end Moose.Hyperv
