import Moose.Lib.Bytes
import Moose.Net.Tables

/-!
# Headers

What the receive path reads of a frame: `PacketBuffer::consume_header`, the header of each layer,
the options of TCP and its checksum. A payload is a list of bytes, and consuming a header leaves
what follows it.

`consume_header` unwraps the result of the read, so it panics on a payload that is shorter than the
header, whatever its callers do with its `Result`. A panic is `none`.
-/

set_option autoImplicit false

namespace Moose.Net

open Lib
open Tcp (SackBlock TcpOption Flags Segment)

/-- `SLOT_SIZE`: the longest frame that is queued. -/
def slotSize : Nat := 1522

def consumeHeader {H : Type} (size : Nat) (read : List UInt8 → H) (payload : List UInt8) :
    Option (H × List UInt8) :=
  if size ≤ payload.length then some (read payload, payload.drop size) else none

theorem consumeHeader_of_le {H : Type} {size : Nat} {read : List UInt8 → H}
    {payload : List UInt8} (h : size ≤ payload.length) :
    consumeHeader size read payload = some (read payload, payload.drop size) := if_pos h

def field (bytes : List UInt8) (offset len : Nat) : Nat := ofBe ((bytes.drop offset).take len)

def ipField (bytes : List UInt8) (offset : Nat) : Ipv4Addr := .ofNat 32 (field bytes offset 4)
def macField (bytes : List UInt8) (offset : Nat) : MacAddress := .ofNat 48 (field bytes offset 6)

/-! ## Ethernet -/

/-- The types that some layer looks at; the others keep their number. -/
inductive EtherType where
  | ipv4 | arp | stp
  | unhandled (value : Nat)
deriving DecidableEq

namespace EtherType

/-- The other values `try_from` knows. -/
def others : List Nat :=
  [0x0842, 0x2000, 0x8035, 0x809B, 0x80F3, 0x8100, 0x8102, 0x8103, 0x8137, 0x8204, 0x86DD, 0x8808,
    0x8809, 0x8819, 0x8847, 0x8848, 0x8863, 0x8864, 0x887B, 0x888E, 0x8892, 0x889A, 0x88A2, 0x88A4,
    0x88A8, 0x88AB, 0x88CC, 0x88CD, 0x88E1, 0x88E3, 0x88E5, 0x88E7, 0x88F7, 0x88F8, 0x88FB, 0x8902,
    0x8906, 0x8914, 0x8915, 0x891D, 0x893A, 0x892F, 0x9000, 0x9100, 0xF1C1]

def tryFrom (value : Nat) : Option EtherType :=
  if value = 0x0800 then some .ipv4
  else if value = 0x0806 then some .arp
  else if value ∈ others then some (.unhandled value)
  else none

end EtherType

structure EthernetFrameHeader where
  sourceMac : MacAddress
  etherType : Nat

namespace EthernetFrameHeader

def size : Nat := 14

def read (bytes : List UInt8) : EthernetFrameHeader := ⟨macField bytes 6, field bytes 12 2⟩

end EthernetFrameHeader

/-- The EtherType of the header, or of an LLC/SNAP payload. -/
def identifyProtocol (header : EthernetFrameHeader) (payload : List UInt8) : Option EtherType :=
  match EtherType.tryFrom header.etherType with
  | some t => some t
  | none =>
    match payload with
    | dsap :: ssap :: control :: _ =>
      if dsap = 0xAA ∧ ssap = 0xAA ∧ control = 0x03 ∧ 8 ≤ payload.length then
        EtherType.tryFrom (field payload 6 2)
      else if dsap = 0x42 ∧ ssap = 0x42 ∧ control = 0x03 then some .stp
      else none
    | _ => none

/-! ## ARP -/

inductive ArpOperation where
  | request | reply | rarpRequest | rarpReply

/-- `From<u16>`, which panics on any other value. -/
def ArpOperation.ofU16 : Nat → Option ArpOperation
  | 1 => some .request
  | 2 => some .reply
  | 3 => some .rarpRequest
  | 4 => some .rarpReply
  | _ => none

structure ArpFrameHeader where
  operation : Nat
  senderMac : MacAddress
  senderIp : Ipv4Addr

namespace ArpFrameHeader

def size : Nat := 28

def read (bytes : List UInt8) : ArpFrameHeader :=
  ⟨field bytes 6 2, macField bytes 8, ipField bytes 14⟩

end ArpFrameHeader

/-! ## IPv4 -/

inductive IpProtocol where
  | icmp | igmp | tcp | cbt | egp | igp | udp | eigrp | ospf
deriving DecidableEq

structure Ipv4PacketHeader where
  versionIhl : Nat
  tos : Nat
  totalLength : Nat
  flagsFragmentOffset : Nat
  protocolNumber : Nat
  senderIp : Ipv4Addr
  targetIp : Ipv4Addr

namespace Ipv4PacketHeader

def size : Nat := 20

def read (bytes : List UInt8) : Ipv4PacketHeader where
  versionIhl := field bytes 0 1
  tos := field bytes 1 1
  totalLength := field bytes 2 2
  flagsFragmentOffset := field bytes 6 2
  protocolNumber := field bytes 9 1
  senderIp := ipField bytes 12
  targetIp := ipField bytes 16

def version (h : Ipv4PacketHeader) : Nat := h.versionIhl / 16

def headerLength (h : Ipv4PacketHeader) : Nat := h.versionIhl % 16 * 4

def fragmentOffset (h : Ipv4PacketHeader) : Nat := h.flagsFragmentOffset % 0x2000

def protocol (h : Ipv4PacketHeader) : Option IpProtocol :=
  match h.protocolNumber with
  | 1 => some .icmp
  | 2 => some .igmp
  | 6 => some .tcp
  | 7 => some .cbt
  | 8 => some .egp
  | 9 => some .igp
  | 17 => some .udp
  | 88 => some .eigrp
  | 89 => some .ospf
  | _ => none

end Ipv4PacketHeader

/-! ## ICMP and UDP -/

inductive IcmpMessageType where
  | echoReply | destinationUnreachable | sourceQuench | redirect | echoRequest | timeExceeded
  | parameterProblem | timestampRequest | timestampReply | infoRequest | infoReply
deriving DecidableEq

structure IcmpPacketHeader where
  messageTypeNumber : Nat
  code : Nat

namespace IcmpPacketHeader

def size : Nat := 8

def read (bytes : List UInt8) : IcmpPacketHeader := ⟨field bytes 0 1, field bytes 1 1⟩

def messageType (h : IcmpPacketHeader) : Option IcmpMessageType :=
  match h.messageTypeNumber with
  | 0 => some .echoReply
  | 3 => some .destinationUnreachable
  | 4 => some .sourceQuench
  | 5 => some .redirect
  | 8 => some .echoRequest
  | 11 => some .timeExceeded
  | 12 => some .parameterProblem
  | 13 => some .timestampRequest
  | 14 => some .timestampReply
  | 15 => some .infoRequest
  | 16 => some .infoReply
  | _ => none

end IcmpPacketHeader

structure UdpDatagramHeader where
  sourcePort : Nat
  destinationPort : Nat

namespace UdpDatagramHeader

def size : Nat := 8

def read (bytes : List UInt8) : UdpDatagramHeader := ⟨field bytes 0 2, field bytes 2 2⟩

end UdpDatagramHeader

/-! ## TCP -/

structure ConnectionTuple where
  localIp : Ipv4Addr
  localPort : Nat
  remoteIp : Ipv4Addr
  remotePort : Nat
deriving DecidableEq

/-- The connection that an ICMP error quotes. Every read is checked, so there is no panic here and
`none` means that there is nothing to match. -/
def parseQuotedTcpTuple (payload : List UInt8) : Option ConnectionTuple :=
  if payload.length < Ipv4PacketHeader.size then none
  else
    let ip := Ipv4PacketHeader.read payload
    if payload.length < ip.headerLength + 4 ∨ ip.protocol ≠ some .tcp then none
    else
      some ⟨ip.senderIp, field payload ip.headerLength 2, ip.targetIp,
        field payload (ip.headerLength + 2) 2⟩

structure TcpDatagramHeader where
  sourcePort : Nat
  destPort : Nat
  sequenceNumber : SeqNum
  ackNumber : SeqNum
  offsetRes : Nat
  flags : Flags
  windowSize : BitVec 16
  checksum : Nat

namespace TcpDatagramHeader

def size : Nat := 20

def readFlags (bits : Nat) : Flags where
  fin := bits.testBit 0
  syn := bits.testBit 1
  rst := bits.testBit 2
  psh := bits.testBit 3
  ack := bits.testBit 4
  urg := bits.testBit 5
  ece := bits.testBit 6
  cwr := bits.testBit 7

def read (bytes : List UInt8) : TcpDatagramHeader where
  sourcePort := field bytes 0 2
  destPort := field bytes 2 2
  sequenceNumber := .ofNat 32 (field bytes 4 4)
  ackNumber := .ofNat 32 (field bytes 8 4)
  offsetRes := field bytes 12 1
  flags := readFlags (field bytes 13 1)
  windowSize := .ofNat 16 (field bytes 14 2)
  checksum := field bytes 16 2

def headerLenBytes (h : TcpDatagramHeader) : Nat := h.offsetRes / 16 * 4

end TcpDatagramHeader

def sackPairs : List UInt8 → List SackBlock
  | b0 :: b1 :: b2 :: b3 :: b4 :: b5 :: b6 :: b7 :: rest =>
    ⟨.ofNat 32 (ofBe [b0, b1, b2, b3]), .ofNat 32 (ofBe [b4, b5, b6, b7])⟩ :: sackPairs rest
  | _ => []

def parseOption (kind : UInt8) (data : List UInt8) : TcpOption :=
  if kind = 2 ∧ data.length = 2 then .mss (ofBe data)
  else if kind = 3 ∧ data.length = 1 then .windowScale (ofBe data)
  else if kind = 8 ∧ data.length = 8 then
    .timestamp (.ofNat 32 (field data 0 4)) (.ofNat 32 (field data 4 4))
  else if kind = 4 ∧ data.length = 0 then .sackPermitted
  else if kind = 5 ∧ data.length % 8 = 0 then .sack (sackPairs data)
  else .other

/-- `TcpOptionsParser`. Each round takes at least one byte off. Where the iterator stops at a
malformed option the list ends with `other`, which no handler looks at, so that it is empty only if
the area is. -/
def parseOptions : Nat → List UInt8 → List TcpOption
  | 0, _ => []
  | _ + 1, [] => []
  | fuel + 1, kind :: rest =>
    if kind = 0 then [.other]
    else if kind = 1 then .other :: parseOptions fuel rest
    else
      match rest with
      | [] => [.other]
      | len :: data =>
        if len.toNat < 2 ∨ data.length < len.toNat - 2 then [.other]
        else
          parseOption kind (data.take (len.toNat - 2)) ::
            parseOptions fuel (data.drop (len.toNat - 2))

/-- The sum of the 16-bit words; an odd byte at the end is the high half of one. -/
def sumWords : List UInt8 → Nat
  | hi :: lo :: rest => 256 * hi.toNat + lo.toNat + sumWords rest
  | [hi] => 256 * hi.toNat
  | [] => 0

/-- Carries are added back until none is left; for a 32-bit sum two rounds are enough. -/
def foldCarries : Nat → Nat → Nat
  | 0, sum => sum
  | fuel + 1, sum => if sum / 65536 = 0 then sum else foldCarries fuel (sum % 65536 + sum / 65536)

/-- `calculate_tcp_checksum` of a segment whose checksum field is zero. -/
def calculateTcpChecksum (src dst : Ipv4Addr) (segment : List UInt8) : Nat :=
  let words (ip : Ipv4Addr) := ip.toNat / 65536 + ip.toNat % 65536
  65535 - foldCarries 2 ((words src + words dst + 6 + segment.length % 65536 + sumWords segment) %
    2 ^ 32) % 65536

def clearChecksum (segment : List UInt8) : List UInt8 := (segment.set 16 0).set 17 0

/-- `frame[20..hdr_len]`, which panics if the header is said to be shorter than 20 bytes. -/
def optionBytes (h : TcpDatagramHeader) (segment : List UInt8) : Option (List UInt8) :=
  if TcpDatagramHeader.size ≤ h.headerLenBytes then
    some ((segment.take h.headerLenBytes).drop TcpDatagramHeader.size)
  else none

def readSegment (h : TcpDatagramHeader) (segment options : List UInt8) (tos : Nat) : Segment where
  seq := h.sequenceNumber
  ack := h.ackNumber
  flags := h.flags
  window := h.windowSize
  payload := segment.drop h.headerLenBytes
  options := parseOptions options.length options
  ce := tos % 4 == 3

end Moose.Net
