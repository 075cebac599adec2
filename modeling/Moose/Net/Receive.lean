import Mathlib.Logic.Function.Basic
import Moose.Net.Headers
import Moose.Tcp.Total

/-!
# The receive path

`process_data` of the Ethernet, ARP, IPv4, ICMP, UDP and TCP drivers, as the receive worker runs
them one after the other on a frame.

A step is `none` if it panics and also if it never returns. The worker waits forever in two places.
A reply to an address that is not in the ARP cache waits for an ARP reply that only the worker could
process. The SYN-ACK that completes an active open takes the lock of the block twice.

An error that a layer returns to the one below is only logged there, so it is not kept here.
-/

set_option autoImplicit false

namespace Moose
namespace Tcp
namespace TcpControlBlock

/-- The window field of an outgoing header; the shift is that of a 32-bit number. -/
def advertisedRcvWnd (t : TcpControlBlock) : Option Nat :=
  if t.neg.wndScaleEnabled && 0 < t.neg.rcvWscale then
    if t.neg.rcvWscale < 32 then some (min (t.rcvWnd >>> t.neg.rcvWscale) 65535) else none
  else some (min t.rcvWnd 65535)

/-- What a segment makes the driver send: nothing, a RST of its own, a segment of the block after
the lock is dropped, or one while it is held and interrupts are off. -/
inductive Reply where
  | none | rst | segment | locked
deriving DecidableEq

/-- `process_data_datagram` sends something. -/
def datagramReplies (M : CubicMath) (t : TcpControlBlock) (seg : Segment) (now : Instant) : Bool :=
  if t.isOldDuplicate seg then true
  else
    match t.checkSegment seg now with
    | some (t, true) =>
      match t.processChecked M seg now with
      | some (t, plan, _) => plan.sendAck || !(t.sentByCarryOut plan now).all.isEmpty
      | none => false
    | _ => false

def reply (M : CubicMath) (t : TcpControlBlock) (seg : Segment) (now : Instant) : Reply :=
  let ofDatagram (t : TcpControlBlock) :=
    if t.datagramReplies M seg now then Reply.segment else .none
  match t.state with
  | .synSent =>
    if !seg.flags.rst && seg.flags.syn && seg.flags.ack && !t.isAcceptableAck seg.ack then .rst
    else .none
  | .synReceived =>
    if seg.flags.rst ∨ !seg.flags.ack ∨ !t.isAcceptableAck seg.ack ∨
      (seg.payload.isEmpty && seg.options.isEmpty) then .none
    else ofDatagram (t.establish seg.ack)
  | .established =>
    if seg.flags.syn && seg.flags.ack then (if seg.flags.rst then .none else .locked)
    else ofDatagram t
  | .finWait1 | .finWait2 | .closeWait | .closing | .lastAck => ofDatagram t
  | .timeWait => if seg.flags.fin then .segment else .none
  | .closed | .listen => .none

end TcpControlBlock
end Tcp

namespace Net

open Tcp (Instant Segment TcpControlBlock TcpSessionSettings CubicMath LocalOp TcpError)
open Lib

/-! ## State -/

abbrev ArpKey := NetworkInterfaceId × Ipv4Addr
abbrev ArpCache := TtlCache ArpKey MacAddress 128 (Tcp.Duration.fromSecs 30)

structure ReceivedDatagram where
  srcAddr : Ipv4Addr
  srcPort : Nat
  data : List UInt8

structure UdpRecvBuffer where
  queue : List ReceivedDatagram
  capacity : Nat

def UdpRecvBuffer.push (b : UdpRecvBuffer) (dgram : ReceivedDatagram) : UdpRecvBuffer :=
  if b.capacity ≤ b.queue.length then b else { b with queue := b.queue ++ [dgram] }

/-- A socket with its options, and the queue of accepted connections if it listens. -/
structure TcpSocketState where
  opts : TcpSessionSettings
  listener : Option (Nat × List ConnectionTuple)

structure Tables where
  interfaces : NetworkInterfaceId → Option NetworkInterface
  routes : List RouteEntry
  arp : ArpCache
  waitQueue : List ArpKey
  udpBoundPorts : Nat → Option Nat
  udpSockets : Nat → Option UdpRecvBuffer
  tcpListeners : Nat → Option Nat
  tcpSockets : Nat → Option TcpSocketState

/-- A block and the interface of its socket. -/
structure Connection where
  tcb : TcpControlBlock
  nic : NetworkInterfaceId

structure NetworkSubsystem where
  tables : Tables
  connections : ConnectionTuple → Option Connection

/-- What goes with a frame: its interface, the clock, and what `RDRAND` gives for a new block. -/
structure Arrival where
  nic : NetworkInterfaceId
  now : Instant
  iss : SeqNum := 0
  tsOffset : BitVec 32 := 0

namespace NetworkSubsystem

variable (s : NetworkSubsystem)

def setArp (arp : ArpCache) : NetworkSubsystem :=
  { s with tables := { s.tables with arp := arp } }

def setConnection (tuple : ConnectionTuple) (c : Connection) : NetworkSubsystem :=
  { s with connections := Function.update s.connections tuple (some c) }

/-! ## Sending -/

/-- `send_packet` from the worker, with interrupts on. Without an interface or a route the packet is
dropped. If the next hop is not in the cache the worker waits for an answer it would have to process
itself. -/
def sendPacket (nic : NetworkInterfaceId) (dst : Ipv4Addr) (now : Instant) :
    Option NetworkSubsystem :=
  match s.tables.interfaces nic with
  | none => some s
  | some _ =>
    if dst = Ipv4Addr.broadcast then some s
    else
      match resolveNextHop s.tables.routes dst with
      | none => some s
      | some hop =>
        match s.tables.arp.lookup (nic, hop) now with
        | (arp, some _) => some (s.setArp arp)
        | (_, none) => none

/-! ## ARP -/

def learnFromIpRx (nic : NetworkInterfaceId) (ip : Ipv4Addr)
    (mac : MacAddress) (now : Instant) : NetworkSubsystem :=
  if ip = Ipv4Addr.unspecified ∨ ip = Ipv4Addr.broadcast then s
  else
    let arp := s.tables.arp.insert (nic, ip) mac now
    match resolveNextHop s.tables.routes ip with
    | some hop =>
      if hop ≠ ip ∧ hop ≠ Ipv4Addr.unspecified ∧ hop ≠ Ipv4Addr.broadcast then
        s.setArp (arp.insert (nic, hop) mac now)
      else s.setArp arp
    | none => s.setArp arp

/-- A request is answered on the link it came from, which needs no resolution and changes nothing
here. -/
def arpProcessData (payload : List UInt8) (a : Arrival) : Option NetworkSubsystem := do
  let (header, _) ← consumeHeader ArpFrameHeader.size ArpFrameHeader.read payload
  let operation ← ArpOperation.ofU16 header.operation
  let key := (a.nic, header.senderIp)
  match operation with
  | .request => some (s.setArp (s.tables.arp.insert key header.senderMac a.now))
  | .reply =>
    let s := s.setArp (s.tables.arp.insert key header.senderMac a.now)
    some { s with tables := { s.tables with waitQueue := s.tables.waitQueue.erase key } }
  | .rarpRequest | .rarpReply => some s

/-! ## UDP and ICMP -/

def udpProcessData (sender : Ipv4Addr) (payload : List UInt8) : Option NetworkSubsystem := do
  let (header, data) ← consumeHeader UdpDatagramHeader.size UdpDatagramHeader.read payload
  match s.tables.udpBoundPorts header.destinationPort with
  | none => some s
  | some handle =>
    match s.tables.udpSockets handle with
    | none => some s
    | some sock =>
      let sock := sock.push ⟨sender, header.sourcePort, data⟩
      some { s with tables := { s.tables with
        udpSockets := Function.update s.tables.udpSockets handle (some sock) } }

/-- Header and payload go back; a transmit buffer has room for `slotSize` bytes. -/
def sendEchoReply (payload : List UInt8) (sender : Ipv4Addr) (a : Arrival) :
    Option NetworkSubsystem :=
  if IcmpPacketHeader.size + payload.length ≤ slotSize then s.sendPacket a.nic sender a.now
  else none

/-- The error of a fatal code. -/
def unreachableError : Nat → Option TcpError
  | 0 | 1 | 2 => some .noRoute
  | 3 => some .connectionRefused
  | _ => none

def abortConnection (s : NetworkSubsystem) (tuple : ConnectionTuple) (error : TcpError) :
    NetworkSubsystem :=
  match s.connections tuple with
  | none => s
  | some c => s.setConnection tuple { c with tcb := c.tcb.abortConnection error }

def handleDestinationUnreachable (header : IcmpPacketHeader)
    (payload : List UInt8) : NetworkSubsystem :=
  match unreachableError header.code, parseQuotedTcpTuple payload with
  | some error, some tuple => s.abortConnection tuple error
  | _, _ => s

def icmpProcessData (payload : List UInt8) (sender : Ipv4Addr)
    (a : Arrival) : Option NetworkSubsystem := do
  let (header, rest) ← consumeHeader IcmpPacketHeader.size IcmpPacketHeader.read payload
  match header.messageType with
  | some .echoRequest => s.sendEchoReply rest sender a
  | some .destinationUnreachable => some (s.handleDestinationUnreachable header rest)
  | _ => some s

/-! ## TCP -/

/-- `listener_opts_for_port`. -/
def listenerOpts (port : Nat) : Option TcpSessionSettings := do
  let handle ← s.tables.tcpListeners port
  let sock ← s.tables.tcpSockets handle
  some sock.opts

/-- `enqueue_accepted_connection`; a full backlog drops it. -/
def enqueueAccepted (tuple : ConnectionTuple) : NetworkSubsystem :=
  match s.tables.tcpListeners tuple.localPort with
  | none => s
  | some handle =>
    match s.tables.tcpSockets handle with
    | some ⟨opts, some (backlog, pending)⟩ =>
      if backlog ≤ pending.length then s
      else
        { s with tables := { s.tables with
          tcpSockets := Function.update s.tables.tcpSockets handle
            (some ⟨opts, some (backlog, pending ++ [tuple])⟩) } }
    | _ => s

def processKnown (M : CubicMath) (s : NetworkSubsystem) (tuple : ConnectionTuple) (c : Connection)
    (seg : Segment) (now : Instant) : Option NetworkSubsystem := do
  let t ← c.tcb.processData M seg now
  let s := s.setConnection tuple { c with tcb := t }
  let s := if c.tcb.state = .synReceived ∧ t.state ≠ .synReceived ∧ t.state ≠ .closed then
    s.enqueueAccepted tuple else s
  match c.tcb.reply M seg now with
  | .none => some s
  | .rst => s.sendPacket c.nic tuple.remoteIp now
  | .segment => do
    let _ ← c.tcb.advertisedRcvWnd
    s.sendPacket c.nic tuple.remoteIp now
  | .locked => do
    let _ ← c.tcb.advertisedRcvWnd
    some s

/-- A segment without a connection: dropped, an open, or answered with a RST. -/
def processUnknown (tuple : ConnectionTuple) (seg : Segment)
    (a : Arrival) : Option NetworkSubsystem :=
  if seg.flags.rst then some s
  else if seg.flags.syn && !seg.flags.ack then
    match s.listenerOpts tuple.localPort with
    | none => s.sendPacket a.nic tuple.remoteIp a.now
    | some settings => do
      let t ← TcpControlBlock.processPassiveSyn settings a.iss a.tsOffset seg a.now
      let _ ← t.advertisedRcvWnd
      (s.setConnection tuple ⟨t, a.nic⟩).sendPacket a.nic tuple.remoteIp a.now
  else s.sendPacket a.nic tuple.remoteIp a.now

/-- The segment has a header and the right checksum; anything else is dropped. -/
def tcpAccepts (sender target : Ipv4Addr) (segment : List UInt8) : Bool :=
  let header := TcpDatagramHeader.read segment
  TcpDatagramHeader.size ≤ segment.length && header.headerLenBytes ≤ segment.length &&
    calculateTcpChecksum sender target (clearChecksum segment) == header.checksum

def tcpTuple (sender target : Ipv4Addr) (segment : List UInt8) : ConnectionTuple :=
  let header := TcpDatagramHeader.read segment
  ⟨target, header.destPort, sender, header.sourcePort⟩

def tcpProcessData (M : CubicMath) (s : NetworkSubsystem) (sender target : Ipv4Addr)
    (segment : List UInt8) (a : Arrival) (tos : Nat) : Option NetworkSubsystem :=
  match s.tables.interfaces a.nic with
  | none => some s
  | some _ =>
    if !tcpAccepts sender target segment then some s
    else do
      let header := TcpDatagramHeader.read segment
      let options ← optionBytes header segment
      let seg := readSegment header segment options tos
      let tuple := tcpTuple sender target segment
      match s.connections tuple with
      | some c => s.processKnown M tuple c seg a.now
      | none => s.processUnknown tuple seg a

/-! ## IPv4 and Ethernet -/

/-- The payload by the header's own account; its options are not skipped. -/
def ipPayload (header : Ipv4PacketHeader) (rest : List UInt8) : List UInt8 :=
  rest.take (header.totalLength - header.headerLength)

def ipv4ProcessData (M : CubicMath) (s : NetworkSubsystem) (payload : List UInt8) (a : Arrival) :
    Option NetworkSubsystem := do
  let (header, rest) ← consumeHeader Ipv4PacketHeader.size Ipv4PacketHeader.read payload
  if header.version ≠ 4 then some s
  else if header.fragmentOffset ≠ 0 then some s
  else
    match header.protocol with
    | some .udp => s.udpProcessData header.senderIp (ipPayload header rest)
    | some .icmp => s.icmpProcessData (ipPayload header rest) header.senderIp a
    | some .tcp =>
      s.tcpProcessData M header.senderIp header.targetIp (ipPayload header rest) a header.tos
    | _ => some s

/-- The sender of a packet with a whole IPv4 header is learned before anything is checked. -/
def learn (header : EthernetFrameHeader) (payload : List UInt8) (a : Arrival) : NetworkSubsystem :=
  if Ipv4PacketHeader.size ≤ payload.length then
    s.learnFromIpRx a.nic (Ipv4PacketHeader.read payload).senderIp header.sourceMac a.now
  else s

/-- **`EthernetDriver::process_data`** -/
def ethernetProcessData (M : CubicMath) (s : NetworkSubsystem) (frame : List UInt8) (a : Arrival) :
    Option NetworkSubsystem := do
  let (header, payload) ← consumeHeader EthernetFrameHeader.size EthernetFrameHeader.read frame
  match identifyProtocol header payload with
  | some .ipv4 => (s.learn header payload a).ipv4ProcessData M payload a
  | some .arp => s.arpProcessData payload a
  | _ => some s

end NetworkSubsystem

end Net
end Moose
