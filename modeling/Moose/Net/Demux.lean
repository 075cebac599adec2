import Moose.Net.Receive

/-!
# What a transport sees of a packet

`Ipv4Driver::process_data` as far as a transport: the bytes it hands over, compared with what the
lengths of the header say. The driver takes 20 bytes off for the header and hands over as many of
the others as the total length leaves after the header length. So a transport sees options as the
start of its payload and misses as much of the end, and nothing checks that the lengths fit.
-/

set_option autoImplicit false

namespace Moose.Net

open Lib Ipv4PacketHeader

open Tcp (CubicMath)
open NetworkSubsystem (ipPayload)

def IpProtocol.isTransport : IpProtocol → Bool
  | .udp | .icmp | .tcp => true
  | _ => false

/-- What is made of a packet: a panic, nothing, or bytes for a transport. -/
def demux (packet : List UInt8) : Option (Option (IpProtocol × List UInt8)) := do
  let (header, rest) ← consumeHeader Ipv4PacketHeader.size Ipv4PacketHeader.read packet
  if header.version ≠ 4 then some none
  else if header.fragmentOffset ≠ 0 then some none
  else some ((header.protocol.filter (·.isTransport)).map (·, ipPayload header rest))

/-- What the transport does with it. -/
def NetworkSubsystem.deliver (M : CubicMath) (s : NetworkSubsystem) (header : Ipv4PacketHeader)
    (a : Arrival) : Option (IpProtocol × List UInt8) → Option NetworkSubsystem
  | some (.udp, bytes) => s.udpProcessData header.senderIp bytes
  | some (.icmp, bytes) => s.icmpProcessData bytes header.senderIp a
  | some (.tcp, bytes) => s.tcpProcessData M header.senderIp header.targetIp bytes a header.tos
  | _ => some s

theorem NetworkSubsystem.ipv4ProcessData_eq (M : CubicMath) (s : NetworkSubsystem)
    (packet : List UInt8) (a : Arrival) :
    s.ipv4ProcessData M packet a =
      (demux packet).bind (s.deliver M (read packet) a) := by
  unfold ipv4ProcessData demux consumeHeader
  split
  · simp only [some_bind]
    split
    · rfl
    split
    · rfl
    cases (read packet).protocol with
    | none => rfl
    | some protocol => cases protocol <;> rfl
  · rfl

namespace Ipv4PacketHeader

/-- A fragment offset, or more fragments to come. -/
def isFragment (h : Ipv4PacketHeader) : Bool := h.flagsFragmentOffset % 0x4000 ≠ 0

/-- The lengths agree with each other and with what arrived. -/
def Consistent (h : Ipv4PacketHeader) (length : Nat) : Prop :=
  size ≤ h.headerLength ∧ h.headerLength ≤ h.totalLength ∧ h.totalLength ≤ length

/-- `process_data` finds a transport for the packet. -/
def forTransport (h : Ipv4PacketHeader) : Bool :=
  h.version = 4 && h.fragmentOffset = 0 && h.protocol.any (·.isTransport)

end Ipv4PacketHeader

/-- A transport sees the bytes between the header and the end of the packet. Fragments and packets
with wrong lengths are dropped. -/
def Demultiplexes (packet : List UInt8) : Prop :=
  let header := Ipv4PacketHeader.read packet
  (∀ protocol bytes, demux packet = some (some (protocol, bytes)) →
    bytes = (packet.take header.totalLength).drop header.headerLength) ∧
  (header.isFragment = true ∨ ¬header.Consistent packet.length → demux packet = some none)

variable {packet : List UInt8}

theorem demux_of_not_forTransport (hlen : size ≤ packet.length)
    (h : (read packet).forTransport = false) : demux packet = some none := by
  simp only [demux, consumeHeader_of_le hlen, some_bind]
  split
  · rfl
  split
  · rfl
  cases hp : (read packet).protocol with
  | none => rfl
  | some protocol => simp_all [forTransport, Option.filter]

theorem demux_of_forTransport (hlen : size ≤ packet.length)
    (h : (read packet).forTransport = true) :
    ∃ protocol, demux packet = some (some (protocol,
      ipPayload (read packet) (packet.drop size))) := by
  simp only [forTransport, Bool.and_eq_true, decide_eq_true_eq, Option.any_eq_true] at h
  obtain ⟨⟨hversion, hoffset⟩, protocol, hprotocol, htransport⟩ := h
  refine ⟨protocol, ?_⟩
  simp [demux, consumeHeader_of_le hlen, hversion, hoffset, hprotocol, Option.filter, htransport]

/-- The bytes behind the fixed header are those behind the options only if they agree. -/
theorem ipPayload_eq_iff {header : Ipv4PacketHeader} :
    ipPayload header (packet.drop size) =
        (packet.take header.totalLength).drop header.headerLength ↔
      ∀ i < header.totalLength - header.headerLength,
        packet[size + i]? = packet[header.headerLength + i]? := by
  rw [ipPayload, List.drop_take, List.ext_getElem?_iff]
  refine forall_congr' fun i => ?_
  simp only [List.getElem?_take, List.getElem?_drop]
  split <;> simp_all

/-- **Demultiplexing** is right for a packet with a whole header exactly if no transport gets it, or
if it is no fragment, its lengths agree, and nothing tells its options from its payload. -/
theorem demultiplexes_iff (packet : List UInt8) :
    Demultiplexes packet ↔ Ipv4PacketHeader.size ≤ packet.length ∧
      let header := Ipv4PacketHeader.read packet
      (header.forTransport = true →
        header.isFragment = false ∧ header.Consistent packet.length ∧
        ∀ i < header.totalLength - header.headerLength,
          packet[Ipv4PacketHeader.size + i]? = packet[header.headerLength + i]?) := by
  unfold Demultiplexes
  dsimp only
  by_cases hlen : size ≤ packet.length
  · cases hfor : (read packet).forTransport with
    | false => simp [demux_of_not_forTransport hlen hfor, hlen]
    | true =>
      obtain ⟨protocol, hdemux⟩ := demux_of_forTransport hlen hfor
      simp only [hdemux, ← ipPayload_eq_iff, hlen, true_and, forall_const]
      constructor
      · rintro ⟨hbytes, hdrop⟩
        have hwhole := mt hdrop (by simp)
        rw [not_or, not_not, Bool.not_eq_true] at hwhole
        exact ⟨hwhole.1, hwhole.2, hbytes _ _ rfl⟩
      rintro ⟨hfragment, hconsistent, hbytes⟩
      refine ⟨?_, ?_⟩
      · rintro _ _ ⟨rfl, rfl⟩
        exact hbytes
      · simp [hfragment, hconsistent]
  · have hdemux : demux packet = none := by
      simp [demux, consumeHeader, hlen]
    have hwrong : ¬(read packet).Consistent packet.length := by
      rintro ⟨h1, h2, h3⟩
      omega
    simp [hdemux, hwrong, hlen]

/-- A UDP packet with these lengths, flags and bytes behind the fixed header. -/
def udpPacket (ihl total flags : UInt8) (rest : List UInt8) : List UInt8 :=
  [0x40 + ihl, 0, 0, total, 0, 0, flags, 0, 64, 17, 0, 0, 10, 0, 0, 1, 10, 0, 0, 2] ++ rest

/-- Options are handed over as payload and the end of the payload is cut off; first fragments and
packets that say they are longer than the frame are not dropped. -/
theorem demux_not_demultiplexes :
    ¬Demultiplexes (udpPacket 6 32 0 [1, 1, 1, 0, 1, 2, 3, 4, 5, 6, 7, 8]) ∧
      ¬Demultiplexes (udpPacket 5 28 0x20 [1, 2, 3, 4, 5, 6, 7, 8]) ∧
      ¬Demultiplexes (udpPacket 5 36 0 [1, 2, 3, 4, 5, 6, 7, 8]) := by
  refine ⟨fun h => ?_, fun h => ?_, fun h => ?_⟩
  · exact absurd (h.1 .udp [1, 1, 1, 0, 1, 2, 3, 4] (by decide)) (by decide)
  · exact absurd (h.2 (.inl (by decide))) (by decide)
  · exact absurd (h.2 (.inr fun hc => absurd hc.2.2 (by decide))) (by decide)

end Moose.Net
