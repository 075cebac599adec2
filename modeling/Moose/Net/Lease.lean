import Moose.Lib.Run
import Moose.Net.Dhcp

/-!
# One lease at a time

Which lease is in force is read off the outputs: it is the one of the last acknowledgement that was
accepted, with what the acknowledgement leaves out taken from the lease it confirms. The interface,
the session and the timer thread are compared with that lease.

The threads keep copies of the session over their locks and their sleeps, so this only holds while
acknowledgements are accepted with the copies up to date and say everything (`ackOk`).
-/

set_option autoImplicit false

namespace Moose.Net

open List Option Function AList Lib
open Tcp (Duration Duration.fromSecs)

/-! ## The lease of an acknowledgement -/

/-- The option sets the field of its code: only the list of name servers may be short. -/
def DhcpOption.sets (o : DhcpOption) (code : DhcpOptionCode) : Bool :=
  o.code = code && (o.code = .dnsServer || 4 ≤ o.data.length)

def DhcpReply.carries (reply : DhcpReply) (code : DhcpOptionCode) : Bool :=
  reply.options.any (·.sets code)

namespace DhcpLease

/-- What an acknowledgement confirms: its own values, and those of the lease it confirms where it
has none. -/
def confirm (l : DhcpLease) (reply : DhcpReply) : DhcpLease :=
  let ack := parse reply
  { internetAddress :=
      if reply.header.yourIpAddr = 0 then l.internetAddress else ack.internetAddress
    subnetMask := if reply.carries .subnetMask then ack.subnetMask else l.subnetMask
    defaultGateway := if reply.carries .router then ack.defaultGateway else l.defaultGateway
    dnsServers := if reply.carries .dnsServer then ack.dnsServers else l.dnsServers
    leaseTimeSeconds :=
      if reply.carries .ipAddressLeaseTime then ack.leaseTimeSeconds else l.leaseTimeSeconds
    renewalTimeSeconds := ack.renewalTimeSeconds.or l.renewalTimeSeconds
    rebindingTimeSeconds := ack.rebindingTimeSeconds.or l.rebindingTimeSeconds
    serverIdentifier := ack.serverIdentifier.or l.serverIdentifier }

/-- The acknowledgement has every field in which the lease it confirms differs from the defaults. -/
def Repeats (l : DhcpLease) (reply : DhcpReply) : Prop :=
  (reply.header.yourIpAddr = 0 ∨ reply.header.yourIpAddr = l.internetAddress) ∧
  (reply.carries .subnetMask = true ∨ l.subnetMask = 0xFFFFFF00) ∧
  (reply.carries .router = true ∨ l.defaultGateway = 0) ∧
  (reply.carries .dnsServer = true ∨ l.dnsServers = []) ∧
  (reply.carries .ipAddressLeaseTime = true ∨ l.leaseTimeSeconds = 3600) ∧
  ((parse reply).renewalTimeSeconds.isSome = true ∨
    l.renewalTimeSeconds.all (·.toNat = defaultT1 (l.confirm reply).leaseTimeSeconds) = true) ∧
  ((parse reply).rebindingTimeSeconds.isSome = true ∨
    l.rebindingTimeSeconds.all (·.toNat = defaultT2 (l.confirm reply).leaseTimeSeconds) = true)

instance (l : DhcpLease) (reply : DhcpReply) : Decidable (l.Repeats reply) :=
  inferInstanceAs (Decidable (_ ∧ _))

variable {l L stored : DhcpLease} {reply : DhcpReply}

/-- Every field is set by one option only. -/
theorem applyOption_other (l : DhcpLease) (o : DhcpOption) :
    (o.sets .subnetMask = false → (l.applyOption o).subnetMask = l.subnetMask) ∧
    (o.sets .router = false → (l.applyOption o).defaultGateway = l.defaultGateway) ∧
    (o.sets .dnsServer = false → (l.applyOption o).dnsServers = l.dnsServers) ∧
    (o.sets .ipAddressLeaseTime = false →
      (l.applyOption o).leaseTimeSeconds = l.leaseTimeSeconds) := by
  unfold applyOption DhcpOption.sets
  rcases o with ⟨code, data⟩
  by_cases hlen : data.length < 4
  · cases code <;> simp [hlen]
  · cases code <;> simp [hlen, Nat.not_lt.mp hlen]

variable {α : Type} {id : NetworkInterfaceId} {r : RouteEntry}

/-- A field that no option sets is as it was before the options. -/
theorem foldl_applyOption (field : DhcpLease → α) (sets : DhcpOption → Bool)
    (hfield : ∀ (l : DhcpLease) (o : DhcpOption), sets o = false →
      field (l.applyOption o) = field l)
    (options : List DhcpOption) (h : options.any sets = false) (l : DhcpLease) :
    field (options.foldl applyOption l) = field l := by
  induction options generalizing l with
  | nil => rfl
  | cons o options ih =>
    rw [any_cons, Bool.or_eq_false_iff] at h
    rw [foldl_cons, ih h.2, hfield l o h.1]

theorem parse_of_not_carries {code : DhcpOptionCode} (field : DhcpLease → α)
    (hfield : ∀ (l : DhcpLease) (o : DhcpOption), o.sets code = false →
      field (l.applyOption o) = field l) (h : ¬reply.carries code = true) :
    field (parse reply) = field (defaults reply.header.yourIpAddr) :=
  foldl_applyOption field (·.sets code) hfield reply.options (Bool.eq_false_iff.mpr h) _

theorem parse_internetAddress (reply : DhcpReply) :
    (parse reply).internetAddress = reply.header.yourIpAddr :=
  foldl_applyOption internetAddress (fun _ => false)
    (fun l o _ => by
      unfold applyOption
      repeat' split
      all_goals rfl) reply.options (by simp) _

/-! ## Times -/

theorem secs_fromSecs {n : Nat} (h : n < 2 ^ 32) :
    (BitVec.ofNat 32 (Duration.fromSecs n / 1000000000)).toNat = n := by
  rw [Duration.fromSecs, Nat.mul_div_cancel _ (by norm_num), BitVec.toNat_ofNat, Nat.mod_eq_of_lt h]

theorem getD_toNat_lt {o : Option (BitVec 32)} {d : Nat} (hd : d < 2 ^ 32) :
    (o.map (·.toNat)).getD d < 2 ^ 32 := by
  cases o with
  | some t => exact t.isLt
  | none => exact hd

theorem times_withTimers (stored l : DhcpLease) :
    (stored.withTimers l).t1 = l.t1 ∧ (stored.withTimers l).t2 = l.t2 := by
  have hlt := l.leaseTimeSeconds.isLt
  rw [t1, t2, withTimers, map_some, getD_some, map_some, getD_some, t1, t2]
  constructor <;> refine congrArg Duration.fromSecs (secs_fromSecs (getD_toNat_lt ?_))
  · rw [defaultT1]
    omega
  · rw [defaultT2]
    omega

/-- What leases that agree have in common. -/
structure Agrees (l L : DhcpLease) : Prop where
  internetAddress : l.internetAddress = L.internetAddress
  subnetMask : l.subnetMask = L.subnetMask
  defaultGateway : l.defaultGateway = L.defaultGateway
  dnsServers : l.dnsServers = L.dnsServers
  leaseTimeSeconds : l.leaseTimeSeconds = L.leaseTimeSeconds
  t1 : l.t1 = L.t1
  t2 : l.t2 = L.t2
  serverId : l.serverId = L.serverId

theorem Agrees.leaseTime (h : l.Agrees L) : l.leaseTime = L.leaseTime := by
  rw [DhcpLease.leaseTime, DhcpLease.leaseTime, h.leaseTimeSeconds]

/-- The timers of one lease may be written into another that agrees with it. -/
theorem Agrees.withTimers (hstored : stored.Agrees L) (h : l.Agrees L) :
    (stored.withTimers l).Agrees L where
  __ := hstored
  t1 := (times_withTimers stored l).1.trans h.t1
  t2 := (times_withTimers stored l).2.trans h.t2
  serverId := h.serverId

theorem eq_ite_of_default {c : Bool} {new old d : α} (h : c = true ∨ old = d)
    (hnew : ¬c = true → new = d) : new = if c then new else old := by
  split
  · rfl
  next hc =>
    rw [hnew hc, h.resolve_left hc]

/-- A time the acknowledgement does not give is the default for the lease time. -/
theorem getD_of_all_default {new old : Option (BitVec 32)} {d : Nat}
    (h : new.isSome = true ∨ old.all (·.toNat = d) = true) :
    (new.map (·.toNat)).getD d = ((new.or old).map (·.toNat)).getD d := by
  cases new with
  | some t => rfl
  | none =>
    cases old with
    | none => rfl
    | some t =>
      have hd : t.toNat = d := by simpa using h
      exact hd.symm

/-- `handle_ack` takes over a lease as an acknowledgement that repeats it confirms it. -/
theorem Repeats.refresh_agrees (h : l.Repeats reply) :
    (l.refresh reply).Agrees (l.confirm reply) := by
  obtain ⟨haddr, hmask, hgateway, hdns, htime, ht1, ht2⟩ := h
  have hsecs : (l.refresh reply).leaseTimeSeconds = (l.confirm reply).leaseTimeSeconds :=
    eq_ite_of_default htime
      (parse_of_not_carries leaseTimeSeconds fun l o => (applyOption_other l o).2.2.2)
  have hrouter : (l.refresh reply).defaultGateway = (l.confirm reply).defaultGateway :=
    eq_ite_of_default hgateway
      (parse_of_not_carries defaultGateway fun l o => (applyOption_other l o).2.1)
  refine ⟨?_, ?_, hrouter, ?_, hsecs, ?_, ?_, ?_⟩
  · unfold refresh confirm
    dsimp only
    rw [parse_internetAddress]
    split
    · rfl
    next hzero =>
      exact (haddr.resolve_left hzero).symm
  · exact eq_ite_of_default hmask
      (parse_of_not_carries subnetMask fun l o => (applyOption_other l o).1)
  · exact eq_ite_of_default hdns
      (parse_of_not_carries dnsServers fun l o => (applyOption_other l o).2.2.1)
  · rw [t1, t1, hsecs]
    exact congrArg Duration.fromSecs (getD_of_all_default ht1)
  · rw [t2, t2, hsecs]
    exact congrArg Duration.fromSecs (getD_of_all_default ht2)
  · rw [serverId, serverId, hrouter]
    rfl

/-! ## Routes -/

def subnets (l : DhcpLease) : List Ipv4Prefix := [l.network, l.host, anywhere]

theorem mem_installRoutes {routes : List RouteEntry} : r ∈ l.installRoutes id routes ↔
      r ∈ l.installRoutes id [] ∨ r ∈ routes ∧ ¬(r.interfaceId = id ∧ r.subnet ∈ l.subnets) := by
  simp only [installRoutes, mem_insertForInterface, subnets, mem_cons, not_mem_nil,
    false_and, or_false]
  grind

theorem of_mem_installRoutes (h : r ∈ l.installRoutes id []) :
    r.interfaceId = id ∧ r.subnet ∈ l.subnets := by
  simp only [installRoutes, mem_insertForInterface, not_mem_nil, false_and, or_false] at h
  rcases h with rfl | ⟨rfl | ⟨rfl, -⟩, -⟩ <;> simp [subnets]

theorem Agrees.subnets (h : l.Agrees L) : l.subnets = L.subnets := by
  simp [DhcpLease.subnets, network, host, h.internetAddress, h.subnetMask]

theorem Agrees.installRoutes (h : l.Agrees L) (id : NetworkInterfaceId)
    (routes : List RouteEntry) : l.installRoutes id routes = L.installRoutes id routes := by
  simp [DhcpLease.installRoutes, network, host, h.internetAddress, h.subnetMask, h.defaultGateway]

end DhcpLease

/-! ## The lease in force -/

/-- What the outputs so far say for each card: the lease in force and the transaction of the last
request. -/
structure LeaseRecord where
  lease : MacAddress → Option DhcpLease
  asked : MacAddress → Option (BitVec 32)

namespace LeaseRecord

def add (h : LeaseRecord) : DhcpOutput → LeaseRecord
  | .accepted mac l reply => { h with lease := update h.lease mac (some (l.confirm reply)) }
  | .requested mac xid _ | .renewed mac xid _ _ | .rebound mac xid _ =>
    { h with asked := update h.asked mac (some xid) }
  | .silent | .discovered _ _ => h

def ofOutputs (past : List DhcpOutput) : LeaseRecord :=
  past.foldl add ⟨fun _ => none, fun _ => none⟩

end LeaseRecord

/-- An acknowledgement is accepted for the outstanding transaction, and a timer acts on the lease in
force. -/
def DhcpOutput.Current (h : LeaseRecord) : DhcpOutput → Prop
  | .accepted mac _ reply => h.asked mac = some reply.header.xid
  | .renewed mac _ l server => ∃ L, h.lease mac = some L ∧ l.Agrees L ∧ server = L.serverId
  | .rebound mac _ l => ∃ L, h.lease mac = some L ∧ l.Agrees L
  | .silent | .discovered _ _ | .requested _ _ _ => True

/-- The routes of an interface are those of the lease. -/
def RoutesFor (routes : List RouteEntry) (id : NetworkInterfaceId) (L : DhcpLease) : Prop :=
  ∀ r, r.interfaceId = id → (r ∈ routes ↔ r ∈ L.installRoutes id [])

/-- The resolver does not ask the servers of another lease on the interface. -/
def ServersFor (dns : Option DnsResolverConfig) (id : NetworkInterfaceId) (L : DhcpLease) : Prop :=
  ∀ c, dns = some c → c.interfaceId = id → c.servers = L.dnsServers

structure DhcpDriver.Configured (s : DhcpDriver) (id : NetworkInterfaceId) (L : DhcpLease) :
    Prop where
  address : s.addresses id = some L.internetAddress
  routes : RoutesFor s.routes id L
  servers : ServersFor s.dns id L

/-- The handler is about to configure the interface of the card. -/
def Handler.configuring (mac : MacAddress) : Handler → Bool
  | .stored session _ | .routed session _ | .addressed session _ => session.macAddress = mac
  | _ => false

namespace DhcpDriver

/-- The card has a session for the interface, and a lease. -/
def Owns (h : LeaseRecord) (s : DhcpDriver) (id : NetworkInterfaceId) (mac : MacAddress)
    (L : DhcpLease) : Prop :=
  ∃ session, s.sessions.lookup mac = some session ∧ session.interfaceId = id ∧
    h.lease mac = some L

/-- The time a timer thread waits for is one of the lease in force, in each of its three sleeps. The
last one, in which it has no copy of the lease any more, still ends when that lease does. -/
def TimerOk (h : LeaseRecord) (s : DhcpDriver) (id : NetworkInterfaceId) : LeaseTimer → Prop
  | .untilT1 session l sleep =>
    ∃ L, s.Owns h id session.macAddress L ∧ l.Agrees L ∧ sleep = L.t1
  | .untilT2 session l sleep =>
    ∃ L, s.Owns h id session.macAddress L ∧ l.Agrees L ∧ sleep = L.t2 - L.t1
  | .untilExpiry sleep => ∃ mac L, s.Owns h id mac L ∧ sleep = L.leaseTime - L.t2
  | .start => True

def TimersOk (h : LeaseRecord) (s : DhcpDriver) (id : NetworkInterfaceId) : Prop :=
  ∀ timer, s.timers id = some timer → s.TimerOk h id timer

/-- The timer thread can go on when `lease` comes into force: it does not wait to act on a copy of
the older one, and if it waits for the end of that, it waits as long as it should for the new one.
-/
def timerAdmits (s : DhcpDriver) (id : NetworkInterfaceId) (lease : DhcpLease) : Bool :=
  match s.timers id with
  | some (.untilT1 _ _ _) | some (.untilT2 _ _ _) => false
  | some (.untilExpiry sleep) => sleep = lease.leaseTime - lease.t2
  | some .start | none => true

/-- If the handler is about to accept an acknowledgement: its copy of the session is still the
session, no timer waits for a time of the older lease, the acknowledgement repeats the lease, and
what the older lease left on the interface is replaced. -/
def ackOk (s : DhcpDriver) : DhcpEvent → Bool
  | .handler =>
    match s.handler with
    | .received reply session =>
      match messageType reply.options, session.lease with
      | some .ack, some l =>
        session.lastMessage = .request → reply.header.xid = session.transactionId →
          s.sessions.lookup session.macAddress = some session ∧
          s.timerAdmits session.interfaceId (l.refresh reply) = true ∧ l.Repeats reply ∧
          (s.acquisitionComplete session.macAddress = true →
            (DhcpLease.parse reply).subnetMask = l.subnetMask) ∧
          ((DhcpLease.parse reply).dnsServers = [] →
            s.dns.all (·.interfaceId ≠ session.interfaceId) = true)
      | _, _ => true
    | _ => true
  | _ => true

/-- **One lease at a time.** -/
structure Consistent (past : List DhcpOutput) (s : DhcpDriver) : Prop where
  /-- an interface that is not being configured is configured for the lease in force -/
  configured : ∀ id mac L, s.Owns (.ofOutputs past) id mac L → s.handler.configuring mac = false →
    s.Configured id L
  /-- the session keeps the lease in force -/
  held : ∀ mac L, (LeaseRecord.ofOutputs past).lease mac = some L →
    ∃ session l, s.sessions.lookup mac = some session ∧ session.lease = some l ∧ l.Agrees L
  /-- no timer waits for the times of another lease -/
  timers : ∀ id, s.TimersOk (.ofOutputs past) id
  /-- every acknowledgement was for the outstanding transaction, and every timer acted on the lease
  that was in force -/
  current : ∀ pre o post, past = pre ++ o :: post → o.Current (.ofOutputs pre)

/-! ## The invariant -/

/-- Nothing was configured on the interface. -/
structure Bare (s : DhcpDriver) (id : NetworkInterfaceId) : Prop where
  routes : ∀ r ∈ s.routes, r.interfaceId ≠ id
  servers : ∀ c, s.dns = some c → c.interfaceId ≠ id
  timers : s.timers id = none

/-- The handler has the lease in force, and what is still to be configured has nothing left over
from another. -/
def HandlerOk (h : LeaseRecord) (s : DhcpDriver) : Prop :=
  match s.handler with
  | .idle => True
  | .received _ session =>
    session.lastMessage = .discover → s.sessions.lookup session.macAddress = some session
  | .stored session l =>
    ∃ L, s.Owns h session.interfaceId session.macAddress L ∧ l.Agrees L ∧
      (∀ r ∈ s.routes, r.interfaceId = session.interfaceId → r.subnet ∈ l.subnets) ∧
      (l.dnsServers = [] → ∀ c, s.dns = some c → c.interfaceId ≠ session.interfaceId)
  | .routed session l =>
    ∃ L, s.Owns h session.interfaceId session.macAddress L ∧ l.Agrees L ∧
      RoutesFor s.routes session.interfaceId L ∧
      (l.dnsServers = [] → ∀ c, s.dns = some c → c.interfaceId ≠ session.interfaceId)
  | .addressed session l =>
    ∃ L, s.Owns h session.interfaceId session.macAddress L ∧ l.Agrees L ∧
      RoutesFor s.routes session.interfaceId L ∧
      s.addresses session.interfaceId = some L.internetAddress ∧
      (l.dnsServers = [] → ∀ c, s.dns = some c → c.interfaceId ≠ session.interfaceId)
  | .configured session l | .timed session l =>
    ∃ L, s.Owns h session.interfaceId session.macAddress L ∧ l.Agrees L

structure Inv (nics : NetworkInterfaceId → Option MacAddress) (h : LeaseRecord)
    (s : DhcpDriver) : Prop where
  keyed : ∀ mac session, s.sessions.lookup mac = some session →
    session.macAddress = mac ∧ nics session.interfaceId = some mac
  asked : ∀ mac session, s.sessions.lookup mac = some session → session.lastMessage = .request →
    h.asked mac = some session.transactionId
  fresh : ∀ mac session, s.sessions.lookup mac = some session → session.lastMessage = .discover →
    h.lease mac = none
  held : ∀ mac L, h.lease mac = some L →
    ∃ session l, s.sessions.lookup mac = some session ∧ session.lease = some l ∧ l.Agrees L
  handler : s.HandlerOk h
  timers : ∀ id, s.TimersOk h id
  bare : ∀ id, (∀ mac L, ¬s.Owns h id mac L) → s.Bare id
  configured : ∀ id mac L, s.Owns h id mac L → s.handler.configuring mac = false →
    s.Configured id L ∧ s.acquisitionComplete mac = true

variable {nics : NetworkInterfaceId → Option MacAddress} {h h' : LeaseRecord} {s : DhcpDriver}
  {id : NetworkInterfaceId} {mac : MacAddress} {L : DhcpLease}

theorem inv_new (addresses : NetworkInterfaceId → Option Ipv4Addr) :
    Inv nics (.ofOutputs []) (new addresses) := by
  have hempty : ∀ mac session, (new addresses).sessions.lookup mac ≠ some session := by
    intro mac session hlookup
    rw [show (new addresses).sessions = ∅ from rfl, lookup_empty] at hlookup
    cases hlookup
  exact {
    keyed := fun mac session hlookup => absurd hlookup (hempty mac session)
    asked := fun mac session hlookup => absurd hlookup (hempty mac session)
    fresh := fun mac session hlookup => absurd hlookup (hempty mac session)
    held := fun _ _ hL => nomatch hL
    handler := trivial
    timers := fun _ _ htimer => nomatch htimer
    bare := fun _ _ => ⟨fun _ hr => absurd hr not_mem_nil, fun _ hc => (nomatch hc), rfl⟩
    configured := fun _ mac _ ⟨session, hlookup, _⟩ => absurd hlookup (hempty mac session) }

/-- An interface has one card. -/
theorem Inv.owns_unique (hinv : Inv nics h s) {mac' : MacAddress} {L' : DhcpLease}
    (ho : s.Owns h id mac L) (ho' : s.Owns h id mac' L') : mac = mac' := by
  obtain ⟨session, hlookup, rfl, -⟩ := ho
  obtain ⟨session', hlookup', hid, -⟩ := ho'
  have hmac := (hinv.keyed _ _ hlookup).2
  rw [← hid, (hinv.keyed _ _ hlookup').2] at hmac
  exact (some.inj hmac).symm

theorem Inv.bare_of_unleased (hinv : Inv nics h s) (hnic : nics id = some mac)
    (hnone : h.lease mac = none) : s.Bare id := by
  refine hinv.bare id fun m L ho => ?_
  obtain ⟨session, hlookup, rfl, hL⟩ := ho
  cases hnic.symm.trans (hinv.keyed _ _ hlookup).2
  cases hnone.symm.trans hL

theorem TimerOk.mono {s' : DhcpDriver} {timer : LeaseTimer}
    (howns : ∀ m L, s.Owns h id m L → s'.Owns h' id m L) (hok : s.TimerOk h id timer) :
    s'.TimerOk h' id timer := by
  cases timer with
  | start => trivial
  | untilT1 session l sleep | untilT2 session l sleep =>
    obtain ⟨L, ho, hrest⟩ := hok
    exact ⟨L, howns _ L ho, hrest⟩
  | untilExpiry sleep =>
    obtain ⟨mac, L, ho, hsleep⟩ := hok
    exact ⟨mac, L, howns mac L ho, hsleep⟩

/-- The thread goes on under the new lease. -/
theorem timersOk_of_admits {l : DhcpLease} (hp : s.timerAdmits id l = true)
    (ho : s.Owns h id mac L) (hagrees : l.Agrees L) : s.TimersOk h id := by
  intro timer htimer
  rw [timerAdmits, htimer] at hp
  cases timer with
  | start => trivial
  | untilT1 session l sleep | untilT2 session l sleep => cases hp
  | untilExpiry sleep =>
    refine ⟨mac, L, ho, ?_⟩
    rw [of_decide_eq_true hp, hagrees.leaseTime, hagrees.t2]

theorem Bare.timersOk {s' : DhcpDriver} (hbare : s.Bare id) (htimers : s'.timers = s.timers) :
    s'.TimersOk h id := by
  intro timer htimer
  rw [htimers, hbare.timers] at htimer
  cases htimer

/-! ## Changes of a session -/

theorem lookup_insert_cases {session new : DhcpSession} {m : MacAddress}
    (hlookup : (s.sessions.insert new.macAddress new).lookup m = some session) :
    (m = new.macAddress ∧ session = new) ∨
      (m ≠ new.macAddress ∧ s.sessions.lookup m = some session) := by
  by_cases hm : m = new.macAddress
  · subst hm
    rw [lookup_insert] at hlookup
    exact .inl ⟨rfl, (some.inj hlookup).symm⟩
  · rw [lookup_insert_ne hm] at hlookup
    exact .inr ⟨hm, hlookup⟩

section

variable (hinv : Inv nics h s)
include hinv

/-- A session for the same interface takes the place of another, and the record changes for its card
only. What is said about the card itself is to be shown again. -/
theorem Inv.insert {new : DhcpSession} {x : Handler}
    (hlease : ∀ m, m ≠ new.macAddress → h'.lease m = h.lease m)
    (hasked : ∀ m, m ≠ new.macAddress → h'.asked m = h.asked m)
    (hnic : nics new.interfaceId = some new.macAddress)
    (hcur : ∀ cur, s.sessions.lookup new.macAddress = some cur → cur.interfaceId = new.interfaceId)
    (hkept : ∀ L, h.lease new.macAddress = some L → ∃ L', h'.lease new.macAddress = some L')
    (hrequest : new.lastMessage = .request → h'.asked new.macAddress = some new.transactionId)
    (hfresh : new.lastMessage = .discover → h'.lease new.macAddress = none)
    (hheld : ∀ L, h'.lease new.macAddress = some L → ∃ l, new.lease = some l ∧ l.Agrees L)
    (hhandler : HandlerOk h' { s.insert new with handler := x })
    (htimer : TimersOk h' (s.insert new) new.interfaceId)
    (hx : ∀ m, m ≠ new.macAddress → x.configuring m = false → s.handler.configuring m = false)
    (hconf : ∀ L, h'.lease new.macAddress = some L → x.configuring new.macAddress = false →
      s.Configured new.interfaceId L ∧ s.acquisitionComplete new.macAddress = true) :
    Inv nics h' { s.insert new with handler := x } := by
  -- the other cards own what they owned
  have howns : ∀ {id m L}, m ≠ new.macAddress → (s.Owns h id m L ↔ (s.insert new).Owns h' id m L) :=
    fun {id m L} hm => by
      simp [Owns, DhcpDriver.insert, lookup_insert_ne hm, hlease m hm]
  have hself : ∀ L, h'.lease new.macAddress = some L →
      (s.insert new).Owns h' new.interfaceId new.macAddress L :=
    fun L hL => ⟨new, lookup_insert _, rfl, hL⟩
  constructor
  case keyed =>
    intro m session hlookup
    rcases lookup_insert_cases hlookup with ⟨rfl, rfl⟩ | ⟨hm, hold⟩
    · exact ⟨rfl, hnic⟩
    · exact hinv.keyed m session hold
  case asked =>
    intro m session hlookup hmsg
    rcases lookup_insert_cases hlookup with ⟨rfl, rfl⟩ | ⟨hm, hold⟩
    · exact hrequest hmsg
    rw [hasked m hm]
    exact hinv.asked m session hold hmsg
  case fresh =>
    intro m session hlookup hmsg
    rcases lookup_insert_cases hlookup with ⟨rfl, rfl⟩ | ⟨hm, hold⟩
    · exact hfresh hmsg
    rw [hlease m hm]
    exact hinv.fresh m session hold hmsg
  case held =>
    intro m L hL
    by_cases hm : m = new.macAddress
    · subst hm
      obtain ⟨l, hl, hagrees⟩ := hheld L hL
      exact ⟨new, l, lookup_insert _, hl, hagrees⟩
    rw [hlease m hm] at hL
    obtain ⟨session, l, hlookup, hl, hagrees⟩ := hinv.held m L hL
    exact ⟨session, l, (lookup_insert_ne hm).trans hlookup, hl, hagrees⟩
  case handler => exact hhandler
  case timers =>
    intro id
    by_cases hid : id = new.interfaceId
    · subst hid
      exact htimer
    -- the thread of another interface has another card
    have hne : ∀ {m L}, s.Owns h id m L → m ≠ new.macAddress := by
      rintro m L ⟨session, hlookup, rfl, -⟩ rfl
      exact hid (hcur _ hlookup)
    exact fun timer htimer =>
      (hinv.timers id timer htimer).mono fun m L ho => (howns (hne ho)).mp ho
  case bare =>
    intro id hnone
    have hbare := hinv.bare id fun m L ho => by
      by_cases hm : m = new.macAddress
      · subst hm
        obtain ⟨session, hlookup, rfl, hL⟩ := ho
        obtain ⟨L', hL'⟩ := hkept L hL
        rw [hcur _ hlookup] at hnone
        exact hnone _ L' (hself L' hL')
      · exact hnone m L ((howns hm).mp ho)
    exact { hbare with }
  case configured =>
    intro id m L ho hbusy
    by_cases hm : m = new.macAddress
    · subst hm
      obtain ⟨session, hlookup, rfl, hL⟩ := ho
      have hnew : new = session :=
        some.inj ((lookup_insert s.sessions).symm.trans hlookup)
      subst hnew
      obtain ⟨hconf, hacq⟩ := hconf L hL hbusy
      exact ⟨{ hconf with }, hacq⟩
    · obtain ⟨hconf, hacq⟩ := hinv.configured id m L ((howns hm).mpr ho) (hx m hm hbusy)
      exact ⟨{ hconf with }, hacq⟩

/-- Another session for a card that has a lease, which agrees with the lease. -/
theorem Inv.replace (new : DhcpSession) (ho : s.Owns h new.interfaceId new.macAddress L)
    (hlease : h'.lease = h.lease) (hasked : ∀ m, m ≠ new.macAddress → h'.asked m = h.asked m)
    (hrequest : new.lastMessage = .request → h'.asked new.macAddress = some new.transactionId)
    (hmsg : new.lastMessage ≠ .discover) (hl : ∃ l, new.lease = some l ∧ l.Agrees L) :
    Inv nics h' (s.insert new) := by
  obtain ⟨cur, hcur, hid, hL⟩ := ho
  have howns : ∀ {id m L}, s.Owns h id m L → (s.insert new).Owns h' id m L := by
    rintro id m L' ⟨session, hlookup, rfl, hL'⟩
    by_cases hm : m = new.macAddress
    · subst hm
      cases hcur.symm.trans hlookup
      exact ⟨new, lookup_insert _, hid.symm, by rw [hlease]; exact hL'⟩
    · exact ⟨session, (lookup_insert_ne hm).trans hlookup, rfl, by rw [hlease]; exact hL'⟩
  refine hinv.insert (x := s.handler) (fun m _ => congrFun hlease m) hasked ?_ ?_ ?_ hrequest ?_ ?_
    ?_ ?_ (fun _ _ hb => hb) ?_
  · rw [← hid]
    exact (hinv.keyed _ _ hcur).2
  · intro cur' hcur'
    cases hcur.symm.trans hcur'
    exact hid
  · intro L' hL'
    exact ⟨L', by rw [hlease]; exact hL'⟩
  · exact fun hd => absurd hd hmsg
  · intro L' hL'
    rw [hlease, hL] at hL'
    cases hL'
    exact hl
  · have hold := hinv.handler
    unfold HandlerOk at hold ⊢
    cases hx : s.handler with
    | idle => trivial
    | received reply session =>
      rw [hx] at hold
      intro hdiscover
      -- a card that has a lease is past its Discover
      have hne : session.macAddress ≠ new.macAddress := by
        intro hm
        have hnone := hinv.fresh _ _ (hold hdiscover) hdiscover
        rw [hm, hL] at hnone
        cases hnone
      exact (lookup_insert_ne hne).trans (hold hdiscover)
    | stored session l | routed session l | addressed session l | configured session l
    | timed session l =>
      rw [hx] at hold
      obtain ⟨L', ho', hrest⟩ := hold
      exact ⟨L', howns ho', hrest⟩
  · exact fun timer htimer => (hinv.timers _ timer htimer).mono fun m L ho => howns ho
  · intro L' hL' hbusy
    rw [hlease] at hL'
    exact hinv.configured _ _ L' ⟨cur, hcur, hid, hL'⟩ hbusy

/-- The handler goes on, and nothing else changes. -/
theorem Inv.setHandler {x : Handler} (hx : HandlerOk h { s with handler := x })
    (hbusy : ∀ m, x.configuring m = false → s.handler.configuring m = false) :
    Inv nics h { s with handler := x } :=
  { hinv with
    handler := hx
    bare := fun id hnone => { hinv.bare id hnone with }
    configured := fun id m L ho hb =>
      have ⟨hconf, hacq⟩ := hinv.configured id m L ho (hbusy m hb)
      ⟨{ hconf with }, hacq⟩ }

theorem Inv.setXid (xid : BitVec 32) : Inv nics h { s with xidCounter := xid } :=
  { hinv with
    bare := fun id hnone => { hinv.bare id hnone with }
    configured := fun id m L ho hb =>
      have ⟨hconf, hacq⟩ := hinv.configured id m L ho hb
      ⟨{ hconf with }, hacq⟩ }

/-- The timer thread of an interface with a lease goes on. -/
theorem Inv.setTimer (timer : LeaseTimer) (ho : s.Owns h id mac L) (hok : s.TimerOk h id timer) :
    Inv nics h (s.setTimer id timer) where
  __ := hinv
  timers := by
    intro i timer' htimer
    by_cases hi : i = id
    · subst hi
      simp only [DhcpDriver.setTimer, update_self, some.injEq] at htimer
      subst htimer
      exact hok.mono fun _ _ ho => ho
    · simp only [DhcpDriver.setTimer, update_of_ne hi] at htimer
      exact (hinv.timers i timer' htimer).mono fun _ _ ho => ho
  bare := fun i hnone =>
    have hbare := hinv.bare i hnone
    have hi : i ≠ id := fun hi => hnone mac L (hi ▸ ho)
    { hbare with timers := (update_of_ne hi _ _).trans hbare.timers }
  configured := fun id m L ho hb =>
    have ⟨hconf, hacq⟩ := hinv.configured id m L ho hb
    ⟨{ hconf with }, hacq⟩

/-! ## Packets -/

theorem Inv.acquire (hidle : s.handler = .idle) (hnic : nics id = some mac) (sent : Bool) :
    Inv nics (h.add (s.beginLeaseAcquisition id mac sent).2)
      (s.beginLeaseAcquisition id mac sent).1 := by
  unfold beginLeaseAcquisition
  split
  · exact hinv
  rename_i hnew
  simp only [Bool.or_eq_true, isSome_iff_ne_none, not_or, not_not] at hnew
  have hnone : h.lease mac = none := by
    cases hL : h.lease mac with
    | none => rfl
    | some L =>
      obtain ⟨session, -, hlookup, -⟩ := hinv.held mac L hL
      cases hnew.2.symm.trans hlookup
  split
  · have hxid := hinv.setXid (s.xidCounter + 1)
    refine hxid.insert (x := s.handler) (fun _ _ => rfl) (fun _ _ => rfl) hnic ?_ ?_ nofun
      (fun _ => hnone) ?_ ?_ ?_ (fun _ _ hb => hb) ?_
    · exact fun cur hcur => nomatch hnew.2.symm.trans hcur
    · exact fun L hL => nomatch hnone.symm.trans hL
    · exact fun L hL => nomatch hnone.symm.trans hL
    · rw [hidle]
      trivial
    · -- a card without a lease has no timer thread
      exact (hinv.bare_of_unleased hnic hnone).timersOk rfl
    · exact fun L hL => nomatch hnone.symm.trans hL
  · exact hinv.setXid _

theorem Inv.receive (hidle : s.handler = .idle) (reply : DhcpReply) :
    Inv nics h (s.receive reply) := by
  unfold DhcpDriver.receive
  split
  · exact hinv
  rename_i session hlookup
  refine hinv.setHandler ?_ fun m _ => by rw [hidle]; rfl
  intro _
  rw [(hinv.keyed _ _ hlookup).1]
  exact hlookup

theorem Inv.idle (hbusy : ∀ m, s.handler.configuring m = false) :
    Inv nics h { s with handler := .idle } :=
  hinv.setHandler trivial fun m _ => hbusy m

end

variable {reply : DhcpReply} {session : DhcpSession} {l : DhcpLease} {o : DhcpOutput}

theorem Inv.handleOffer (hinv : Inv nics h s) (hstate : s.handler = .received reply session) :
    Inv nics (h.add (s.handleOffer reply session).2) (s.handleOffer reply session).1 := by
  have hbusy : ∀ m, s.handler.configuring m = false := fun m => by rw [hstate]; rfl
  unfold DhcpDriver.handleOffer
  split
  · exact hinv.idle hbusy
  rename_i hok
  simp only [ne_eq, not_or, not_not] at hok
  have hread := hinv.handler
  rw [HandlerOk, hstate] at hread
  have hlookup := hread hok.1
  have hnone := hinv.fresh _ _ hlookup hok.1
  refine hinv.insert (x := .idle) (fun _ _ => rfl) (fun m hm => update_of_ne hm _ _)
    (hinv.keyed _ _ hlookup).2 ?_ ?_ (fun _ => update_self _ _ _) nofun ?_ trivial ?_
    (fun m _ _ => hbusy m) ?_
  · intro cur hcur
    cases hlookup.symm.trans hcur
    rfl
  · exact fun L hL => nomatch hnone.symm.trans hL
  · exact fun L hL => nomatch hnone.symm.trans hL
  · exact (hinv.bare_of_unleased (hinv.keyed _ _ hlookup).2 hnone).timersOk rfl
  · exact fun L hL => nomatch hnone.symm.trans hL

section

variable (hinv : Inv nics h s)
include hinv

/-- An acknowledgement that is accepted brings its lease into force. -/
theorem Inv.handleAck (hstate : s.handler = .received reply session)
    (htype : messageType reply.options = some .ack) (hok : s.ackOk .handler = true) :
    Inv nics (h.add (s.handleAck reply session).2) (s.handleAck reply session).1 ∧
      (s.handleAck reply session).2.Current h := by
  have hbusy : ∀ m, s.handler.configuring m = false := fun m => by rw [hstate]; rfl
  unfold DhcpDriver.handleAck
  split
  · exact ⟨hinv.idle hbusy, trivial⟩
  rename_i hexpected
  simp only [ne_eq, not_or, not_not] at hexpected
  obtain ⟨hmsg, hxid⟩ := hexpected
  split
  · exact ⟨hinv.idle hbusy, trivial⟩
  rename_i old hold
  simp only [ackOk, hstate, htype, hold, decide_eq_true_eq, hmsg, hxid, true_imp_iff] at hok
  obtain ⟨hlookup, hadmits, hrepeats, hmask, hdns⟩ := hok
  refine ⟨?_, (hinv.asked _ _ hlookup hmsg).trans (congrArg some hxid.symm)⟩
  have hself : update h.lease session.macAddress (some (old.confirm reply))
      session.macAddress = some (old.confirm reply) := update_self _ _ _
  refine hinv.insert (x := .stored session (old.refresh reply))
    (fun m hm => update_of_ne hm _ _) (fun _ _ => rfl) (hinv.keyed _ _ hlookup).2
    ?_ ?_ nofun nofun ?_ ?_ (timersOk_of_admits (l := old.refresh reply) hadmits
      ⟨_, lookup_insert _, rfl, hself⟩ hrepeats.refresh_agrees) (fun m _ _ => hbusy m) ?_
  · intro cur hcur
    cases hlookup.symm.trans hcur
    rfl
  · exact fun _ _ => ⟨_, hself⟩
  · intro L hL
    cases hself.symm.trans hL
    exact ⟨_, rfl, hrepeats.refresh_agrees⟩
  · refine ⟨_, ⟨_, lookup_insert _, rfl, hself⟩, hrepeats.refresh_agrees, ?_, ?_⟩
    · -- only routes of the older lease are there, with the same address and mask
      intro r hr hrid
      cases hL : h.lease session.macAddress with
      | none =>
        have hbare := hinv.bare_of_unleased (hinv.keyed _ _ hlookup).2 hL
        exact absurd hrid (hbare.routes r hr)
      | some L =>
        obtain ⟨hconf, hacq⟩ := hinv.configured _ _ L ⟨_, hlookup, rfl, hL⟩ (hbusy _)
        obtain ⟨session', l', hlookup', hl', hagrees⟩ := hinv.held _ L hL
        cases hlookup.symm.trans hlookup'
        cases hold.symm.trans hl'
        have hsubnets : (old.refresh reply).subnets = old.subnets := by
          have : (old.refresh reply).subnetMask = old.subnetMask := hmask hacq
          simp only [DhcpLease.subnets, DhcpLease.network, DhcpLease.host, this]
          rfl
        rw [hsubnets, hagrees.subnets]
        exact (DhcpLease.of_mem_installRoutes ((hconf.routes r hrid).mp hr)).2
    · intro hnil c hc
      have hall := hdns hnil
      rw [show s.dns = some c from hc, all_some, decide_eq_true_eq] at hall
      exact hall
  · intro L hL hb
    simp [Handler.configuring] at hb

/-! ## Configuring the interface -/

theorem Inv.installRoutes (hstate : s.handler = .stored session l) : Inv nics h { s with
      routes := l.installRoutes session.interfaceId s.routes, handler := .routed session l } := by
  have hread := hinv.handler
  rw [HandlerOk, hstate] at hread
  obtain ⟨L, ho, hagrees, hsubnets, hdns⟩ := hread
  have hbusy : ∀ m, s.handler.configuring m = (Handler.routed session l).configuring m :=
    fun m => by rw [hstate]; rfl
  have hmem : ∀ r, r ∈ l.installRoutes session.interfaceId s.routes ↔ _ :=
    fun r => DhcpLease.mem_installRoutes
  refine { hinv with handler := ⟨L, ho, hagrees, ?_, hdns⟩, bare := ?_, configured := ?_ }
  · intro r hr
    rw [hmem, hagrees.installRoutes]
    refine or_iff_left_of_imp ?_
    rintro ⟨hold, hkept⟩
    exact absurd ⟨hr, hsubnets r hold hr⟩ hkept
  · intro i hnone
    have hbare := hinv.bare i hnone
    refine ⟨fun r hr => ?_, hbare.servers, hbare.timers⟩
    rcases (hmem r).mp hr with hnew | ⟨hold, -⟩
    · rw [(DhcpLease.of_mem_installRoutes hnew).1]
      rintro rfl
      exact hnone _ L ho
    · exact hbare.routes r hold
  intro i m L' ho' hb
  rw [← hbusy] at hb
  obtain ⟨hconf, hacq⟩ := hinv.configured i m L' ho' hb
  refine ⟨⟨hconf.address, fun r hr => ?_, hconf.servers⟩, hacq⟩
  -- the routes of another interface stay
  have hi : i ≠ session.interfaceId := by
    rintro rfl
    cases hinv.owns_unique ho ho'
    simp [hstate, Handler.configuring] at hb
  have hother : r ∉ l.installRoutes session.interfaceId [] := fun hnew =>
    hi (hr.symm.trans (DhcpLease.of_mem_installRoutes hnew).1)
  rw [← hconf.routes r hr]
  rw [hmem]
  constructor
  · rintro (hnew | ⟨hold, -⟩)
    · exact absurd hnew hother
    · exact hold
  · exact fun hold => .inr ⟨hold, fun hsame => hi (hr.symm.trans hsame.1)⟩

theorem Inv.updateInterfaceAddress (hstate : s.handler = .routed session l) : Inv nics h { s with
      addresses := update s.addresses session.interfaceId (some l.internetAddress)
      handler := .addressed session l } := by
  have hread := hinv.handler
  rw [HandlerOk, hstate] at hread
  obtain ⟨L, ho, hagrees, hroutes, hdns⟩ := hread
  have hbusy : ∀ m, s.handler.configuring m = (Handler.addressed session l).configuring m :=
    fun m => by rw [hstate]; rfl
  refine { hinv with
    handler := ⟨L, ho, hagrees, hroutes, ?_, hdns⟩
    bare := fun i hnone => { hinv.bare i hnone with }
    configured := ?_ }
  · rw [← hagrees.internetAddress]
    exact update_self _ _ _
  intro i m L' ho' hb
  rw [← hbusy] at hb
  obtain ⟨hconf, hacq⟩ := hinv.configured i m L' ho' hb
  have hi : i ≠ session.interfaceId := by
    rintro rfl
    cases hinv.owns_unique ho ho'
    simp [hstate, Handler.configuring] at hb
  exact ⟨⟨(update_of_ne hi _ _).trans hconf.address, hconf.routes, hconf.servers⟩, hacq⟩

theorem Inv.configureResolver (hstate : s.handler = .addressed session l) :
    Inv nics h { s.configureResolver session l with handler := .configured session l } := by
  have hread := hinv.handler
  rw [HandlerOk, hstate] at hread
  obtain ⟨L, ho, hagrees, hroutes, haddress, hdns⟩ := hread
  -- the new configuration is for this interface, the old one was not for it if it is kept
  have hservers : ∀ i c, (s.configureResolver session l).dns = some c → c.interfaceId = i →
      (i = session.interfaceId ∧ c.servers = L.dnsServers) ∨
        (i ≠ session.interfaceId ∧ s.dns = some c) := by
    rintro i c hc rfl
    unfold DhcpDriver.configureResolver at hc
    split at hc
    next hnil =>
      exact .inr ⟨hdns hnil c hc, hc⟩
    · cases hc
      exact .inl ⟨rfl, hagrees.dnsServers⟩
  refine { hinv with handler := ⟨L, ho, hagrees⟩, bare := ?_, configured := ?_ }
  · intro i hnone
    have hbare := hinv.bare i hnone
    refine ⟨hbare.routes, fun c hc hi => ?_, hbare.timers⟩
    rcases hservers i c hc hi with ⟨rfl, -⟩ | ⟨-, hold⟩
    · exact hnone _ L ho
    · exact hbare.servers c hold hi
  intro i m L' ho' _
  by_cases hi : i = session.interfaceId
  · subst hi
    cases hinv.owns_unique ho ho'
    obtain ⟨_, _, _, hL⟩ := ho
    obtain ⟨_, _, _, hL'⟩ := ho'
    cases hL.symm.trans hL'
    refine ⟨⟨haddress, hroutes, fun c hc hci => ?_⟩, update_self _ _ _⟩
    rcases hservers _ c hc hci with ⟨-, hc⟩ | ⟨hne, -⟩
    · exact hc
    · exact absurd rfl hne
  have hm : m ≠ session.macAddress := by
    rintro rfl
    obtain ⟨_, hlookup, hid, -⟩ := ho
    obtain ⟨_, hlookup', rfl, -⟩ := ho'
    cases hlookup.symm.trans hlookup'
    exact hi hid
  have hb : s.handler.configuring m = false := by
    rw [hstate]
    exact decide_eq_false fun heq => hm heq.symm
  obtain ⟨hconf, hacq⟩ := hinv.configured i m L' ho' hb
  refine ⟨⟨hconf.address, hconf.routes, fun c hc hci => ?_⟩,
    (update_of_ne hm _ _).trans hacq⟩
  rcases hservers i c hc hci with ⟨hsame, -⟩ | ⟨-, hold⟩
  · exact absurd hsame hi
  · exact hconf.servers c hold hci

theorem Inv.updateLeaseTimers (hstate : s.handler = .configured session l) :
    Inv nics h { s.updateLeaseTimers session.macAddress l with handler := .timed session l } := by
  have hread := hinv.handler
  rw [HandlerOk, hstate] at hread
  obtain ⟨L, ho, hagrees⟩ := hread
  obtain ⟨cur, hlookup, hid, hL⟩ := ho
  obtain ⟨cur', stored, hlookup', hstored, hsame⟩ := hinv.held _ L hL
  cases hlookup.symm.trans hlookup'
  have hmac := (hinv.keyed _ _ hlookup).1
  have hnew : Inv nics h (s.insert { cur with lease := some (stored.withTimers l) }) := by
    refine hinv.replace _ (L := L) ⟨cur, ?_, rfl, ?_⟩ rfl (fun _ _ => rfl) ?_ ?_
      ⟨_, rfl, hsame.withTimers hagrees⟩
    · rw [hmac]
      exact hlookup
    · rw [hmac]
      exact hL
    · intro hmsg
      have hasked := hinv.asked _ _ hlookup hmsg
      rwa [← hmac] at hasked
    · intro hdiscover
      have hnone := hinv.fresh _ _ hlookup hdiscover
      cases hnone.symm.trans hL
  have hbusy : ∀ m, s.handler.configuring m = false := fun m => by rw [hstate]; rfl
  have heq : s.updateLeaseTimers session.macAddress l =
      s.insert { cur with lease := some (stored.withTimers l) } := by
    simp [DhcpDriver.updateLeaseTimers, hlookup, hstored, DhcpDriver.insert, hmac]
  rw [heq]
  refine hnew.setHandler
    ⟨L, ⟨{ cur with lease := some (stored.withTimers l) }, ?_, hid, hL⟩, hagrees⟩ fun m _ => hbusy m
  rw [← hmac]
  exact lookup_insert _

/-- The thread that handles packets keeps the invariant. -/
theorem Inv.handle (hok : s.ackOk .handler = true) :
    Inv nics (h.add s.handle.2) s.handle.1 ∧ s.handle.2.Current h := by
  unfold DhcpDriver.handle
  split
  · exact ⟨hinv, trivial⟩
  next reply session hstate =>
    split
    · refine ⟨hinv.handleOffer hstate, ?_⟩
      unfold DhcpDriver.handleOffer
      split <;> trivial
    next htype =>
      exact hinv.handleAck hstate htype hok
    · exact ⟨hinv.idle fun m => by rw [hstate]; rfl, trivial⟩
  next session l hstate =>
    exact ⟨hinv.installRoutes hstate, trivial⟩
  next session l hstate =>
    exact ⟨hinv.updateInterfaceAddress hstate, trivial⟩
  next session l hstate =>
    exact ⟨hinv.configureResolver hstate, trivial⟩
  next session l hstate =>
    split
    · exact ⟨hinv.idle fun m => by rw [hstate]; rfl, trivial⟩
    · exact ⟨hinv.updateLeaseTimers hstate, trivial⟩
  rename_i session l hstate
  have hread := hinv.handler
  rw [HandlerOk, hstate] at hread
  obtain ⟨L, ho, -⟩ := hread
  have hidle : Inv nics h { s with handler := .idle } :=
    hinv.idle fun m => by rw [hstate]; rfl
  dsimp only
  split
  · exact ⟨hidle, trivial⟩
  -- the thread starts before the session
  have hspawn := hidle.setTimer .start ho trivial
  refine ⟨{ hspawn with
    bare := fun i hnone => { hspawn.bare i hnone with }
    configured := fun i m L' ho' hb => ?_ }, trivial⟩
  obtain ⟨hconf, hacq⟩ := hspawn.configured i m L' ho' hb
  exact ⟨{ hconf with }, hacq⟩

/-! ## The timer threads -/

/-- A timer thread that acts on the lease in force keeps the invariant. -/
theorem Inv.restart (ho : s.Owns h id session.macAddress L) (hagrees : l.Agrees L)
    (hadd : h.add o =
      { h with asked := update h.asked session.macAddress (some s.xidCounter) }) :
    Inv nics (h.add o) (s.restart id session l) ∧
      (s.restart id session l).Owns (h.add o) id session.macAddress L := by
  have hlease : (h.add o).lease = h.lease := by rw [hadd]
  constructor
  · refine (hinv.replace ⟨id, session.macAddress, .request, s.xidCounter, some l⟩ ho hlease ?_ ?_
      nofun ⟨l, rfl, hagrees⟩).setXid _
    · intro m hm
      rw [hadd]
      exact update_of_ne hm _ _
    intro _
    rw [hadd]
    exact update_self _ _ _
  · obtain ⟨cur, -, -, hL⟩ := ho
    exact ⟨_, lookup_insert _, rfl, by rw [hlease]; exact hL⟩

theorem Inv.tick (id : NetworkInterfaceId) :
    Inv nics (h.add (s.tick id).2) (s.tick id).1 ∧ (s.tick id).2.Current h := by
  have hread := hinv.timers id
  -- a thread that runs is there for an interface with a lease
  have hrun : s.timers id ≠ none → ∃ mac L, s.Owns h id mac L := by
    intro hne
    by_contra hnone
    simp only [not_exists] at hnone
    exact hne (hinv.bare id hnone).timers
  unfold DhcpDriver.tick
  cases htimer : s.timers id with
  | none => exact ⟨hinv, trivial⟩
  | some timer =>
    have hok := hread timer htimer
    obtain ⟨mac, L, ho⟩ := hrun (by rw [htimer]; nofun)
    cases timer with
    | start =>
      dsimp only
      split
      · exact ⟨hinv, trivial⟩
      rename_i e hfind
      split
      · exact ⟨hinv, trivial⟩
      rename_i l hl
      have hlookup : s.sessions.lookup e.1 = some e.2 :=
        mem_lookup_iff.mpr (mem_of_find?_eq_some hfind)
      have hid : e.2.interfaceId = id := by simpa using find?_some hfind
      -- the session it finds is that of the card
      obtain ⟨session, hlookup', hid', hL⟩ := ho
      have hmac : e.1 = mac := by
        have h1 := (hinv.keyed _ _ hlookup).2
        rw [hid, ← hid', (hinv.keyed _ _ hlookup').2] at h1
        exact (some.inj h1).symm
      subst hmac
      cases hlookup.symm.trans hlookup'
      obtain ⟨_, l', hheld, hl', hagrees⟩ := hinv.held _ L hL
      cases hlookup.symm.trans hheld
      cases hl.symm.trans hl'
      have hkey := (hinv.keyed _ _ hlookup).1
      have ho : s.Owns h id e.2.macAddress L := by
        rw [hkey]
        exact ⟨_, hlookup, hid, hL⟩
      exact ⟨hinv.setTimer _ ho ⟨L, ho, hagrees, hagrees.t1⟩, trivial⟩
    | untilT1 session l sleep =>
      obtain ⟨L, ho, hagrees, -⟩ := hok
      obtain ⟨hnext, ho'⟩ := hinv.restart ho hagrees
        (o := .renewed session.macAddress s.xidCounter l l.serverId) rfl
      have hwait : l.t2 - l.t1 = L.t2 - L.t1 := by rw [hagrees.t1, hagrees.t2]
      obtain ⟨-, -, -, hL⟩ := ho
      exact ⟨hnext.setTimer _ ho' ⟨L, ho', hagrees, hwait⟩, L, hL, hagrees, hagrees.serverId⟩
    | untilT2 session l sleep =>
      obtain ⟨L, ho, hagrees, -⟩ := hok
      obtain ⟨hnext, ho'⟩ := hinv.restart ho hagrees
        (o := .rebound session.macAddress s.xidCounter l) rfl
      obtain ⟨-, -, -, hL⟩ := ho
      have hwait : l.leaseTime - l.t2 = L.leaseTime - L.t2 := by
        rw [hagrees.leaseTime, hagrees.t2]
      exact ⟨hnext.setTimer _ ho' ⟨_, L, ho', hwait⟩, L, hL, hagrees⟩
    | untilExpiry sleep =>
      exact ⟨hinv.setTimer _ ho trivial, trivial⟩

/-! ## Runs -/

theorem step_inv {s' : DhcpDriver} {e : DhcpEvent} (hok : s.ackOk e = true)
    (hstep : s.step nics e = some (s', o)) : Inv nics (h.add o) s' ∧ o.Current h := by
  cases e with
  | acquire id sent =>
    simp only [step] at hstep
    split at hstep
    next mac hidle hnic =>
      have hnext := hinv.acquire hidle hnic sent
      have hcurrent : (s.beginLeaseAcquisition id mac sent).2.Current h := by
        unfold beginLeaseAcquisition
        split
        · trivial
        · split <;> trivial
      rw [some.inj hstep] at hnext hcurrent
      exact ⟨hnext, hcurrent⟩
    · cases hstep
      exact ⟨hinv, trivial⟩
  | packet reply =>
    simp only [step] at hstep
    split at hstep
    next hidle =>
      cases hstep
      exact ⟨hinv.receive hidle reply, trivial⟩
    · cases hstep
      exact ⟨hinv, trivial⟩
  | handler =>
    have hnext := hinv.handle hok
    rwa [some.inj hstep] at hnext
  | timer id =>
    have hnext := hinv.tick id
    rwa [some.inj hstep] at hnext

end

theorem current_concat {past : List DhcpOutput}
    (hpast : ∀ pre o post, past = pre ++ o :: post → o.Current (.ofOutputs pre))
    (ho : o.Current (.ofOutputs past)) :
    ∀ pre o' post, past ++ [o] = pre ++ o' :: post → o'.Current (.ofOutputs pre) := by
  intro pre o' post heq
  rcases eq_nil_or_concat' post with rfl | ⟨post, p, rfl⟩
  · obtain ⟨rfl, hlast⟩ := append_inj' heq rfl
    cases hlast
    exact ho
  · rw [← cons_append, ← append_assoc] at heq
    exact hpast pre o' post (append_inj' heq rfl).1

/-- **One lease at a time.** However packets, the handler and the timer threads follow each other,
as long as acknowledgements are accepted as `ackOk` says: the interfaces, the sessions and the
waiting timers are those of the lease in force, and no other was acted on. -/
theorem run_consistent (nics : NetworkInterfaceId → Option MacAddress)
    (addresses : NetworkInterfaceId → Option Ipv4Addr) (events : List DhcpEvent) (s : DhcpDriver)
    (out : List DhcpOutput)
    (hok : Guarded (step nics) (fun s e => s.ackOk e = true) (new addresses) events)
    (hrun : run (step nics) (new addresses) events = some (s, out)) : Consistent out s := by
  have hstep : ∀ (past : List DhcpOutput) (s : DhcpDriver) (e : DhcpEvent) (s' : DhcpDriver)
      (o : DhcpOutput),
      (Inv nics (.ofOutputs past) s ∧
        ∀ pre o post, past = pre ++ o :: post → o.Current (.ofOutputs pre)) →
      s.ackOk e = true → s.step nics e = some (s', o) →
      Inv nics (.ofOutputs (past ++ [o])) s' ∧
        ∀ pre o' post, past ++ [o] = pre ++ o' :: post → o'.Current (.ofOutputs pre) := by
    rintro past s e s' o ⟨hinv, hpast⟩ hok hstep
    obtain ⟨hinv', hcurrent⟩ := step_inv hinv hok hstep
    rw [LeaseRecord.ofOutputs, foldl_append]
    exact ⟨hinv', current_concat hpast hcurrent⟩
  have hnone : ∀ pre (o : DhcpOutput) post, [] = pre ++ o :: post → o.Current (.ofOutputs pre) :=
    fun pre o post heq =>
      absurd heq.symm (append_ne_nil_of_right_ne_nil pre (cons_ne_nil o post))
  obtain ⟨hinv, hcurrent⟩ := run_history hstep ⟨inv_new addresses, hnone⟩ hok hrun
  exact ⟨fun id mac L ho hb => (hinv.configured id mac L ho hb).1, hinv.held, hinv.timers, hcurrent⟩

def oneNic (id : NetworkInterfaceId) : Option MacAddress := if id = 1 then some 2 else none

/-- A message for the card, with the address 192.168.1.10. -/
def replyTo (xid : BitVec 32) (type : UInt8) (options : List DhcpOption) : DhcpReply :=
  ⟨⟨xid, 0xC0A8010A, 2⟩, ⟨.messageType, [type]⟩ :: options⟩

/-- An acknowledgement arrives and is handled to the end. -/
def acknowledged (xid : BitVec 32) (options : List DhcpOption) : List DhcpEvent :=
  .packet (replyTo xid 5 options) :: replicate 6 .handler

/-- The first lease: the offer has the gateway 192.168.1.1. -/
def acquired (options : List DhcpOption) : List DhcpEvent :=
  [.acquire 1 true, .packet (replyTo 0x12345678 2 [⟨.router, [192, 168, 1, 1]⟩]), .handler] ++
    acknowledged 0x12345678 options

/-- The gateway in the session and that of the lease in force. -/
def gateways (r : DhcpDriver × List DhcpOutput) : Option Ipv4Addr × Option Ipv4Addr :=
  (((r.1.sessions.lookup 2).bind (·.lease)).map (·.defaultGateway),
    ((LeaseRecord.ofOutputs r.2).lease 2).map (·.defaultGateway))

theorem Consistent.gateways_eq {r : DhcpDriver × List DhcpOutput} (hr : Consistent r.2 r.1)
    {stored inForce : Ipv4Addr} (hgateways : gateways r = (some stored, some inForce)) :
    stored = inForce := by
  simp only [gateways, Prod.mk.injEq, map_eq_some_iff] at hgateways
  obtain ⟨⟨l, hl, rfl⟩, L, hL, rfl⟩ := hgateways
  obtain ⟨session, l', hlookup, hl', hagrees⟩ := hr.held 2 L hL
  rw [hlookup, bind_some, hl'] at hl
  cases hl
  exact hagrees.defaultGateway

/-- A lease that is renewed in answer to its rebind request. -/
theorem run_consistent_renewal :
    ∃ s out, run (step oneNic) (new fun _ => none)
        (acquired [⟨.router, [192, 168, 1, 1]⟩] ++ [.timer 1, .timer 1, .timer 1] ++
          acknowledged 0x1234567A [⟨.router, [192, 168, 1, 2]⟩]) = some (s, out) ∧
      Consistent out s ∧ gateways (s, out) = (some 0xC0A80102, some 0xC0A80102) := by
  refine exists_some_imp (p := fun s out => gateways (s, out) = (some 0xC0A80102, some 0xC0A80102))
    (by decide +kernel) fun s out hrun hgateways => ?_
  exact ⟨run_consistent oneNic _ _ s out (by decide +kernel) hrun, hgateways⟩

/-- An acknowledgement that leaves out the gateway of its offer sets it to 0.0.0.0. And if the
renewal is acknowledged before T2, the thread of the timer brings back the older lease at T2. -/
theorem lease_not_consistent :
    (∃ s out, run (step oneNic) (new fun _ => none) (acquired []) = some (s, out) ∧
      ¬Consistent out s) ∧
    ∃ s out, run (step oneNic) (new fun _ => none)
        (acquired [⟨.router, [192, 168, 1, 1]⟩] ++ [.timer 1, .timer 1] ++
          acknowledged 0x12345679 [⟨.router, [192, 168, 1, 2]⟩] ++ [.timer 1]) = some (s, out) ∧
      ¬Consistent out s := by
  constructor
  · refine exists_some_imp (p := fun s out => gateways (s, out) = (some 0, some 0xC0A80101))
      (by decide +kernel) fun s out _ hgateways hc => ?_
    exact absurd (hc.gateways_eq (r := (s, out)) hgateways) (by decide)
  · refine exists_some_imp
      (p := fun s out => gateways (s, out) = (some 0xC0A80101, some 0xC0A80102))
      (by decide +kernel) fun s out _ hgateways hc => ?_
    exact absurd (hc.gateways_eq (r := (s, out)) hgateways) (by decide)

end DhcpDriver
end Moose.Net
