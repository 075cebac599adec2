import Mathlib.Data.List.AList
import Moose.Net.Headers

/-!
# The DHCP client

`driver/net/proto/dhcp.rs`: the sessions, the thread that handles incoming packets and the timer
threads of the leases. Both kinds of threads go from one lock to the next, so a step of the model is
what a thread does under one lock, and what it carries over is in `Handler` and `LeaseTimer`. How
long a thread sleeps is recorded, but any thread may take the next step.

What the client changes outside its sessions is here too: the addresses of the interfaces, the
routes and the servers of the resolver.
-/

set_option autoImplicit false

namespace Moose.Net

open Tcp (Duration Duration.fromSecs)

/-! ## Messages -/

inductive DhcpMessageType where
  | discover | offer | request | decline | ack | nak | release | inform
deriving DecidableEq

def DhcpMessageType.tryFrom (value : UInt8) : Option DhcpMessageType :=
  match value.toNat with
  | 1 => some .discover
  | 2 => some .offer
  | 3 => some .request
  | 4 => some .decline
  | 5 => some .ack
  | 6 => some .nak
  | 7 => some .release
  | 8 => some .inform
  | _ => none

inductive DhcpOptionCode where
  | pad | subnetMask | router | dnsServer | hostName | domainName | netBiosOverTcpIpNodeType
  | requestedIpAddress | ipAddressLeaseTime | optionOverload | messageType | serverIdentifier
  | parameterRequestList | message | maximumDhcpMessageSize | renewalTimeValue | rebindingTimeValue
  | vendorClassIdentifier | clientIdentifier | endOfOptions
deriving DecidableEq

structure DhcpOption where
  code : DhcpOptionCode
  data : List UInt8

/-- The fields of a reply that the client reads. -/
structure DhcpFixedHeader where
  xid : BitVec 32
  yourIpAddr : Ipv4Addr
  hardwareAddress : MacAddress

structure DhcpReply where
  header : DhcpFixedHeader
  options : List DhcpOption

def messageType (options : List DhcpOption) : Option DhcpMessageType :=
  (options.find? fun o => o.code = .messageType).bind fun o =>
    o.data.head?.bind DhcpMessageType.tryFrom

/-! ## Leases -/

structure DhcpLease where
  internetAddress : Ipv4Addr
  subnetMask : Ipv4Addr
  defaultGateway : Ipv4Addr
  dnsServers : List Ipv4Addr
  leaseTimeSeconds : BitVec 32
  renewalTimeSeconds : Option (BitVec 32)
  rebindingTimeSeconds : Option (BitVec 32)
  serverIdentifier : Option Ipv4Addr
deriving DecidableEq

/-- The addresses in the data of a `DnsServer` option; a rest of fewer than four bytes is dropped.
-/
def dnsChunks : List UInt8 → List Ipv4Addr
  | a :: b :: c :: d :: rest => ipField [a, b, c, d] 0 :: dnsChunks rest
  | _ => []

namespace DhcpLease

/-- What `parse_lease_from_options` starts from. -/
def defaults (address : Ipv4Addr) : DhcpLease where
  internetAddress := address
  subnetMask := 0xFFFFFF00
  defaultGateway := 0
  dnsServers := []
  leaseTimeSeconds := 3600
  renewalTimeSeconds := none
  rebindingTimeSeconds := none
  serverIdentifier := none

def applyOption (l : DhcpLease) (o : DhcpOption) : DhcpLease :=
  if o.code = .dnsServer then { l with dnsServers := dnsChunks o.data }
  else if o.data.length < 4 then l
  else
    match o.code with
    | .subnetMask => { l with subnetMask := ipField o.data 0 }
    | .router => { l with defaultGateway := ipField o.data 0 }
    | .ipAddressLeaseTime => { l with leaseTimeSeconds := .ofNat 32 (field o.data 0 4) }
    | .renewalTimeValue => { l with renewalTimeSeconds := some (.ofNat 32 (field o.data 0 4)) }
    | .rebindingTimeValue => { l with rebindingTimeSeconds := some (.ofNat 32 (field o.data 0 4)) }
    | .serverIdentifier => { l with serverIdentifier := some (ipField o.data 0) }
    | _ => l

/-- `parse_lease_from_options`. -/
def parse (reply : DhcpReply) : DhcpLease :=
  reply.options.foldl applyOption (defaults reply.header.yourIpAddr)

def defaultT1 (leaseTime : BitVec 32) : Nat := max 1 (leaseTime.toNat / 2)
def defaultT2 (leaseTime : BitVec 32) : Nat := max 1 (leaseTime.toNat * 7 / 8)

def leaseTime (l : DhcpLease) : Duration := .fromSecs l.leaseTimeSeconds.toNat

def t1 (l : DhcpLease) : Duration :=
  .fromSecs ((l.renewalTimeSeconds.map (·.toNat)).getD (defaultT1 l.leaseTimeSeconds))

def t2 (l : DhcpLease) : Duration :=
  .fromSecs ((l.rebindingTimeSeconds.map (·.toNat)).getD (defaultT2 l.leaseTimeSeconds))

def serverId (l : DhcpLease) : Ipv4Addr := l.serverIdentifier.getD l.defaultGateway

/-- `update_lease_timers` on the lease it finds in the session: the times and the server of `l` are
written out. -/
def withTimers (stored l : DhcpLease) : DhcpLease :=
  { stored with
    renewalTimeSeconds := some (.ofNat 32 (l.t1 / 1000000000))
    rebindingTimeSeconds := some (.ofNat 32 (l.t2 / 1000000000))
    serverIdentifier := some l.serverId }

/-- The lease `handle_ack` makes of the session's copy and the acknowledgement. -/
def refresh (l : DhcpLease) (reply : DhcpReply) : DhcpLease :=
  let ack := parse reply
  { l with
    subnetMask := ack.subnetMask
    defaultGateway := ack.defaultGateway
    dnsServers := ack.dnsServers
    leaseTimeSeconds := ack.leaseTimeSeconds
    renewalTimeSeconds := ack.renewalTimeSeconds
    rebindingTimeSeconds := ack.rebindingTimeSeconds
    serverIdentifier := ack.serverIdentifier.or l.serverIdentifier }

end DhcpLease

/-! ## Routes -/

def countOnes (x : BitVec 32) : Nat := (List.range 32).countP fun i => x.getLsbD i

theorem countOnes_le (x : BitVec 32) : countOnes x ≤ 32 := List.countP_le_length

namespace DhcpLease

def network (l : DhcpLease) : Ipv4Prefix :=
  ⟨l.internetAddress &&& l.subnetMask, countOnes l.subnetMask, countOnes_le _⟩

def host (l : DhcpLease) : Ipv4Prefix := ⟨l.internetAddress, 32, Nat.le_refl _⟩

def anywhere : Ipv4Prefix := ⟨Ipv4Addr.unspecified, 0, Nat.zero_le _⟩

def installRoutes (l : DhcpLease) (id : NetworkInterfaceId) (routes : List RouteEntry) :
    List RouteEntry :=
  let routes := insertForInterface routes l.network id .direct
  let routes := insertForInterface routes l.host id .direct
  insertForInterface routes anywhere id (.gateway l.defaultGateway)

end DhcpLease

/-! ## Sessions and threads -/

/-- The flags the copies of a session share are fields of `DhcpDriver`. -/
structure DhcpSession where
  interfaceId : NetworkInterfaceId
  macAddress : MacAddress
  lastMessage : DhcpMessageType
  transactionId : BitVec 32
  lease : Option DhcpLease
deriving DecidableEq

structure DnsResolverConfig where
  interfaceId : NetworkInterfaceId
  servers : List Ipv4Addr

/-- Where the thread that handles packets is, with the copy of the session it works on. -/
inductive Handler where
  | idle
  | received (reply : DhcpReply) (session : DhcpSession)
  /-- the acknowledged lease is in the session; its routes come next -/
  | stored (session : DhcpSession) (lease : DhcpLease)
  /-- the address of the interface comes next -/
  | routed (session : DhcpSession) (lease : DhcpLease)
  /-- the resolver comes next -/
  | addressed (session : DhcpSession) (lease : DhcpLease)
  /-- the timers of the session come next -/
  | configured (session : DhcpSession) (lease : DhcpLease)
  /-- the timer thread comes next -/
  | timed (session : DhcpSession) (lease : DhcpLease)

/-- Where the timer thread of a lease is, with its copies and the time it sleeps. -/
inductive LeaseTimer where
  | start
  | untilT1 (session : DhcpSession) (lease : DhcpLease) (sleep : Duration)
  | untilT2 (session : DhcpSession) (lease : DhcpLease) (sleep : Duration)
  | untilExpiry (sleep : Duration)

structure DhcpDriver where
  sessions : AList fun _ : MacAddress => DhcpSession
  xidCounter : BitVec 32
  acquisitionComplete : MacAddress → Bool
  timerSpawned : MacAddress → Bool
  addresses : NetworkInterfaceId → Option Ipv4Addr
  routes : List RouteEntry
  dns : Option DnsResolverConfig
  handler : Handler
  timers : NetworkInterfaceId → Option LeaseTimer

/-- What a step shows to the outside. -/
inductive DhcpOutput where
  | silent
  | discovered (mac : MacAddress) (xid : BitVec 32)
  | requested (mac : MacAddress) (xid : BitVec 32) (lease : DhcpLease)
  /-- the acknowledgement is accepted for a session with this lease -/
  | accepted (mac : MacAddress) (lease : DhcpLease) (reply : DhcpReply)
  | renewed (mac : MacAddress) (xid : BitVec 32) (lease : DhcpLease) (server : Ipv4Addr)
  | rebound (mac : MacAddress) (xid : BitVec 32) (lease : DhcpLease)

namespace DhcpDriver

/-- Nothing has been acquired yet. -/
def new (addresses : NetworkInterfaceId → Option Ipv4Addr) : DhcpDriver where
  sessions := ∅
  xidCounter := 0x12345678
  acquisitionComplete := fun _ => false
  timerSpawned := fun _ => false
  addresses := addresses
  routes := []
  dns := none
  handler := .idle
  timers := fun _ => none

def insert (s : DhcpDriver) (session : DhcpSession) : DhcpDriver :=
  { s with sessions := s.sessions.insert session.macAddress session }

variable (s : DhcpDriver)

/-- `begin_discovery_for_all_nics` for one interface that has a card; `sent` says whether the
Discover could be sent. -/
def beginLeaseAcquisition (id : NetworkInterfaceId) (mac : MacAddress)
    (sent : Bool) : DhcpDriver × DhcpOutput :=
  if (s.addresses id).isSome || (s.sessions.lookup mac).isSome then (s, .silent)
  else
    let xid := s.xidCounter
    let s := { s with xidCounter := s.xidCounter + 1 }
    -- a session whose Discover failed is removed again
    if sent then (s.insert ⟨id, mac, .discover, xid, none⟩, .discovered mac xid) else (s, .silent)

/-! ## Packets -/

/-- A packet for a known card is handled with the session as it is now. -/
def receive (reply : DhcpReply) : DhcpDriver :=
  match s.sessions.lookup reply.header.hardwareAddress with
  | none => s
  | some session => { s with handler := .received reply session }

def handleOffer (reply : DhcpReply) (session : DhcpSession) : DhcpDriver × DhcpOutput :=
  let s := { s with handler := .idle }
  if session.lastMessage ≠ .discover ∨ reply.header.xid ≠ session.transactionId then (s, .silent)
  else
    let lease := DhcpLease.parse reply
    (s.insert { session with lastMessage := .request, lease := some lease },
      .requested session.macAddress session.transactionId lease)

def handleAck (reply : DhcpReply) (session : DhcpSession) : DhcpDriver × DhcpOutput :=
  let s := { s with handler := .idle }
  if session.lastMessage ≠ .request ∨ reply.header.xid ≠ session.transactionId then (s, .silent)
  else
    match session.lease with
    | none => (s, .silent)
    | some old =>
      let lease := old.refresh reply
      ({ s.insert { session with lastMessage := .ack, lease := some lease } with
        handler := .stored session lease }, .accepted session.macAddress old reply)

/-- The resolver, and the flag behind the gate that a first acknowledgement opens. -/
def configureResolver (session : DhcpSession) (lease : DhcpLease) : DhcpDriver :=
  { s with
    dns := if lease.dnsServers = [] then s.dns else some ⟨session.interfaceId, lease.dnsServers⟩
    acquisitionComplete := Function.update s.acquisitionComplete session.macAddress true }

def updateLeaseTimers (mac : MacAddress) (lease : DhcpLease) : DhcpDriver :=
  match s.sessions.lookup mac with
  | none => s
  | some existing =>
    let stored := (existing.lease.getD lease).withTimers lease
    { s with sessions := s.sessions.insert mac { existing with lease := some stored } }

/-- The next step of the thread that handles packets. -/
def handle : DhcpDriver × DhcpOutput :=
  match s.handler with
  | .idle => (s, .silent)
  | .received reply session =>
    match messageType reply.options with
    | some .offer => s.handleOffer reply session
    | some .ack => s.handleAck reply session
    | _ => ({ s with handler := .idle }, .silent)
  | .stored session lease =>
    ({ s with
      routes := lease.installRoutes session.interfaceId s.routes
      handler := .routed session lease }, .silent)
  | .routed session lease =>
    ({ s with
      addresses := Function.update s.addresses session.interfaceId (some lease.internetAddress)
      handler := .addressed session lease }, .silent)
  | .addressed session lease =>
    ({ s.configureResolver session lease with handler := .configured session lease }, .silent)
  | .configured session lease =>
    -- `ensure_lease_timer`: a lease of no time has no timers
    if lease.leaseTime = 0 then ({ s with handler := .idle }, .silent)
    else
      ({ s.updateLeaseTimers session.macAddress lease with handler := .timed session lease },
        .silent)
  | .timed session _ =>
    let s := { s with handler := .idle }
    if s.timerSpawned session.macAddress then (s, .silent)
    else
      ({ s with
        timerSpawned := Function.update s.timerSpawned session.macAddress true
        timers := Function.update s.timers session.interfaceId (some .start) }, .silent)

/-! ## The timer of a lease -/

def setTimer (id : NetworkInterfaceId) (timer : LeaseTimer) : DhcpDriver :=
  { s with timers := Function.update s.timers id (some timer) }

/-- A new transaction for a request with the copies of the timer thread. -/
def restart (id : NetworkInterfaceId) (session : DhcpSession) (lease : DhcpLease) : DhcpDriver :=
  { s.insert ⟨id, session.macAddress, .request, s.xidCounter, some lease⟩ with
    xidCounter := s.xidCounter + 1 }

/-- The next step of `dhcp_lease_timer_worker`. -/
def tick (id : NetworkInterfaceId) : DhcpDriver × DhcpOutput :=
  match s.timers id with
  | none => (s, .silent)
  | some .start =>
    match s.sessions.entries.find? fun e => e.2.interfaceId = id with
    | none => (s, .silent)
    | some e =>
      match e.2.lease with
      | none => (s, .silent)
      | some lease => (s.setTimer id (.untilT1 e.2 lease lease.t1), .silent)
  | some (.untilT1 session lease _) =>
    ((s.restart id session lease).setTimer id (.untilT2 session lease (lease.t2 - lease.t1)),
      .renewed session.macAddress s.xidCounter lease lease.serverId)
  | some (.untilT2 session lease _) =>
    ((s.restart id session lease).setTimer id (.untilExpiry (lease.leaseTime - lease.t2)),
      .rebound session.macAddress s.xidCounter lease)
  | some (.untilExpiry _) => (s.setTimer id .start, .silent)

end DhcpDriver

/-! ## Runs -/

/-- Which thread goes on, and the packet that arrives for an idle one. -/
inductive DhcpEvent where
  | acquire (id : NetworkInterfaceId) (sent : Bool)
  | packet (reply : DhcpReply)
  | handler
  | timer (id : NetworkInterfaceId)

/-- `nics` gives the cards of the interfaces. New acquisitions and packets wait until the handler is
done. -/
def DhcpDriver.step (nics : NetworkInterfaceId → Option MacAddress) (s : DhcpDriver) :
    DhcpEvent → Option (DhcpDriver × DhcpOutput)
  | .acquire id sent =>
    match s.handler, nics id with
    | .idle, some mac => some (s.beginLeaseAcquisition id mac sent)
    | _, _ => some (s, .silent)
  | .packet reply =>
    match s.handler with
    | .idle => some (s.receive reply, .silent)
    | _ => some (s, .silent)
  | .handler => some s.handle
  | .timer id => some (s.tick id)

end Moose.Net
