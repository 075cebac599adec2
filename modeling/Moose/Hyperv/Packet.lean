import Moose.Lib.Bytes

/-!
# VMBus packets on the wire

A packet in a ring is a descriptor (16 bytes, longer for extended descriptors), the payload padded
with zeros to eight bytes, and a footer with the index of the packet's first byte. The descriptor
has its own length and the length of the packet without the footer, in units of eight bytes, so a
reader can take a packet apart again.
-/

set_option autoImplicit false

namespace Moose.Hyperv

open Lib

structure VmBusNormalPacketHeader where
  packetType : UInt16
  headerLenQword : UInt16
  packetLenQword : UInt16
  flags : UInt16
  xid : UInt64
  deriving DecidableEq

namespace VmBusNormalPacketHeader

/-- The packed struct as it lies in memory. -/
def encode (h : VmBusNormalPacketHeader) : List UInt8 :=
  toLe 2 h.packetType.toNat ++ (toLe 2 h.headerLenQword.toNat ++
    (toLe 2 h.packetLenQword.toNat ++ (toLe 2 h.flags.toNat ++ toLe 8 h.xid.toNat)))

def decode (bs : List UInt8) : VmBusNormalPacketHeader where
  packetType := .ofNat (ofLe (bs.take 2))
  headerLenQword := .ofNat (ofLe ((bs.drop 2).take 2))
  packetLenQword := .ofNat (ofLe (((bs.drop 2).drop 2).take 2))
  flags := .ofNat (ofLe ((((bs.drop 2).drop 2).drop 2).take 2))
  xid := .ofNat (ofLe (((((bs.drop 2).drop 2).drop 2).drop 2).take 8))

@[simp] theorem length_encode (h : VmBusNormalPacketHeader) : h.encode.length = 16 := by
  simp [encode]

theorem decode_encode (h : VmBusNormalPacketHeader) (rest : List UInt8) :
    decode (h.encode ++ rest) = h := by
  have h16 : ∀ x : UInt16, UInt16.ofNat (ofLe (toLe 2 x.toNat)) = x := by
    intro x
    rw [ofLe_toLe (by simpa using x.toNat_lt), UInt16.ofNat_toNat]
  have h64 : ∀ x : UInt64, UInt64.ofNat (ofLe (toLe 8 x.toNat)) = x := by
    intro x
    rw [ofLe_toLe (by simpa using x.toNat_lt), UInt64.ofNat_toNat]
  simp [decode, encode, h16, h64]

end VmBusNormalPacketHeader

structure VmBusPacketFooter where
  reserved : UInt32
  firstByteOfPacket : UInt32
  deriving DecidableEq

namespace VmBusPacketFooter

def encode (f : VmBusPacketFooter) : List UInt8 :=
  toLe 4 f.reserved.toNat ++ toLe 4 f.firstByteOfPacket.toNat

def decode (bs : List UInt8) : VmBusPacketFooter where
  reserved := .ofNat (ofLe (bs.take 4))
  firstByteOfPacket := .ofNat (ofLe ((bs.drop 4).take 4))

@[simp] theorem length_encode (f : VmBusPacketFooter) : f.encode.length = 8 := by
  simp [encode]

theorem decode_encode (f : VmBusPacketFooter) : decode f.encode = f := by
  have h32 : ∀ x : UInt32, UInt32.ofNat (ofLe (toLe 4 x.toNat)) = x := by
    intro x
    rw [ofLe_toLe (by simpa using x.toNat_lt), UInt32.ofNat_toNat]
  have hlast : (toLe 4 f.firstByteOfPacket.toNat).take 4 = toLe 4 f.firstByteOfPacket.toNat :=
    List.take_of_length_le (Nat.le_of_eq (length_toLe 4 _))
  simp [decode, encode, hlast, h32]

end VmBusPacketFooter

/-- A packet as a reader sees it: the descriptor, what follows in an extended descriptor, the
payload with its padding, and the footer. -/
structure Packet where
  header : VmBusNormalPacketHeader
  tail : List UInt8
  data : List UInt8
  footer : VmBusPacketFooter
  deriving DecidableEq

namespace Packet

def wire (p : Packet) : List UInt8 :=
  p.header.encode ++ (p.tail ++ (p.data ++ p.footer.encode))

/-- The two lengths of the descriptor are right. -/
structure WellFormed (p : Packet) : Prop where
  header_len : 16 + p.tail.length = 8 * p.header.headerLenQword.toNat
  packet_len : 16 + p.tail.length + p.data.length = 8 * p.header.packetLenQword.toNat

/-- Takes the bytes of a packet apart, with the lengths its descriptor has. -/
def ofWire (header : VmBusNormalPacketHeader) (wire : List UInt8) : Packet :=
  let headerLen := 8 * header.headerLenQword.toNat
  let packetLen := 8 * header.packetLenQword.toNat
  { header := header
    tail := (wire.drop 16).take (headerLen - 16)
    data := (wire.drop headerLen).take (packetLen - headerLen)
    footer := .decode (wire.drop packetLen) }

theorem length_wire (p : Packet) : p.wire.length = 16 + p.tail.length + p.data.length + 8 := by
  simp [wire]
  omega

theorem wire_pos (p : Packet) : 0 < p.wire.length := by
  rw [length_wire]
  omega

theorem WellFormed.length_wire {p : Packet} (h : p.WellFormed) :
    p.wire.length = 8 * p.header.packetLenQword.toNat + 8 := by
  rw [p.length_wire, h.packet_len]

/-- **A well-formed packet is read back as it was.** -/
theorem WellFormed.ofWire {p : Packet} (h : p.WellFormed) : ofWire p.header p.wire = p := by
  obtain ⟨hheader, hpacket⟩ := h
  cases p with
  | mk header tail data footer =>
    simp only [Packet.ofWire, wire, mk.injEq, true_and, ← hheader, ← hpacket]
    refine ⟨?_, ?_, ?_⟩
    · rw [drop_append_of_length header.length_encode, Nat.add_sub_cancel_left,
        take_append_of_length rfl]
    · rw [← List.append_assoc, drop_append_of_length (by simp), Nat.add_sub_cancel_left,
        take_append_of_length rfl]
    · rw [← List.append_assoc, ← List.append_assoc, drop_append_of_length (by simp; omega),
        VmBusPacketFooter.decode_encode]

end Packet

end Moose.Hyperv
