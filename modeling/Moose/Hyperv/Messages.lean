import Mathlib.Data.List.Basic
import Moose.Lib.Run

/-!
# Messages from the host

The host puts one message at a time into a slot of the message page and interrupts.
`handle_simp_irq` acts on it, zeroes the slot and writes the end-of-message register, whereupon the
host may deliver the next one. The interrupt also comes for other reasons, so a message that is left
in the slot is acted on again.

The state of the driver and the list of offers are behind spin locks, and threads hold them with
interrupts enabled. A handler that needs a lock which the interrupted thread holds spins for ever:
on this processor the thread does not go on before the handler returns. So the state says how the
two locks are held when the interrupt comes. The other locks of the driver are taken under that of
the state, and only there.

The lookup of a device by its identifiers is left out: an offer carries the result. A gate is the
flag it opens. `none` is a panic, or a lock that is never released.
-/

set_option autoImplicit false

namespace Moose.Hyperv

open Lib

/-! ## The code -/

/-- The devices that have a driver, and the others that have a name. -/
inductive Device where
  | socket
  | timeSync
  | other
deriving DecidableEq

/-- `VmBusOfferChannel`; `device` is what its identifiers are looked up to. -/
structure Offer where
  channelId : Nat
  device : Option Device
deriving DecidableEq

/-- `PendingSocketConnect`; `connected` if its socket is there. -/
structure PendingConnect where
  guestEndpoint : Nat
  hostService : Nat
  connected : Bool := false
  tlStatus : Option Nat := none
  gateOpen : Bool := false

/-- How the threads hold a `RwLock`. -/
inductive Hold where
  | free | read | write
deriving DecidableEq

/-- An interrupt handler gets the lock for reading. -/
def Hold.canRead (h : Hold) : Bool := h ≠ .write

/-- An interrupt handler gets the lock for writing. -/
def Hold.canWrite (h : Hold) : Bool := h = .free

/-- A driver that was registered; `ident` tells its `Arc` from the others, and a socket has a state
of its own with a lock. -/
structure Driver where
  ident : Nat
  device : Device
  lock : Hold := .free
deriving DecidableEq

/-- The part of `HyperVState` that messages work on, how the threads hold its lock and that of the
offers, the messages posted to the host and the arguments of the threads that were spawned. -/
structure HyperVState where
  stateLock : Hold := .free
  offersLock : Hold := .free
  vmbusConnectionId : Nat := 0
  gotVersionResponse : Bool := false
  allOffersDelivered : Bool := false
  offers : List Offer := []
  drivers : List Driver := []
  channelToDriverMap : Nat → Option Driver := fun _ => none
  pendingSocketConnects : List PendingConnect := []
  released : List Nat := []
  offerThreads : List Nat := []

/-- The types a guest receives; `other` are those it does not know. -/
inductive Message where
  | invalid
  | versionResponse (versionSupported : Bool) (newConnectionId : Nat)
  | offerChannel (offer : Offer)
  | allOffersDelivered
  | gpadlCreated (status : Nat)
  | openChannelResult (status : Nat)
  | rescindChannelOffer (channelId : Nat)
  | tlConnectResult (guestEndpointId hostServiceId status : Nat)
  | other
deriving DecidableEq

/-- Whether the message is acknowledged at the end, or the function has returned before. -/
inductive Ending where
  | acknowledged
  | returned

namespace HyperVState

def offerChannel (v : HyperVState) (offer : Offer) : HyperVState :=
  let v := { v with offers := v.offers ++ [offer] }
  if v.allOffersDelivered then { v with offerThreads := v.offerThreads ++ [v.offers.length - 1] }
  else v

/-- The driver, the offer and the channel itself are removed; the host may use the number again. -/
def withdraw (v : HyperVState) (channelId : Nat) : HyperVState :=
  { v with
    channelToDriverMap := Function.update v.channelToDriverMap channelId none
    drivers := v.drivers.filter fun d => some d ≠ v.channelToDriverMap channelId
    offers := v.offers.filter fun offer => offer.channelId ≠ channelId
    released := v.released ++ [channelId] }

/-- `posted` if the hypercall that posts a message succeeds. There has to be a driver, and one other
than the socket panics when its channel is rescinded. A socket is closed, for which its own state is
locked. -/
def rescindChannelOffer (posted : Bool) (v : HyperVState) (channelId : Nat) : Option HyperVState :=
  if posted then
    match v.channelToDriverMap channelId with
    | some ⟨_, .socket, .free⟩ => some (v.withdraw channelId)
    | _ => none
  else none

/-- The channel has a socket, and no thread is about to use it. -/
def hasSocket (v : HyperVState) (channelId : Nat) : Bool :=
  match v.channelToDriverMap channelId with
  | some d => d.device = .socket && d.lock = .free
  | none => false

def matchesConnect (guestEndpointId hostServiceId : Nat) (p : PendingConnect) : Bool :=
  p.guestEndpoint = guestEndpointId && p.hostService = hostServiceId

/-- The first pending connection that matches gets the status, unless it has its socket. -/
def storeStatus (guestEndpointId hostServiceId status : Nat) : List PendingConnect →
    List PendingConnect
  | [] => []
  | p :: ps =>
    if matchesConnect guestEndpointId hostServiceId p then
      (if p.connected then p else { p with tlStatus := some status, gateOpen := true }) :: ps
    else p :: storeStatus guestEndpointId hostServiceId status ps

def tlConnectResult (v : HyperVState) (guestEndpointId hostServiceId status : Nat) :
    HyperVState × Ending :=
  if v.pendingSocketConnects.any (matchesConnect guestEndpointId hostServiceId) then
    -- both exits out of the loop leave the function
    ({ v with pendingSocketConnects :=
        storeStatus guestEndpointId hostServiceId status v.pendingSocketConnects }, .returned)
  else (v, .acknowledged)

/-- The dispatch of `handle_simp_irq`. -/
def dispatch (posted : Bool) (v : HyperVState) : Message → Option (HyperVState × Ending)
  | .invalid => some (v, .returned)
  | .versionResponse versionSupported newConnectionId =>
    if versionSupported ∧ v.stateLock.canWrite then
      some ({ v with vmbusConnectionId := newConnectionId, gotVersionResponse := true },
        .acknowledged)
    else none
  | .offerChannel offer =>
    if v.stateLock.canRead ∧ v.offersLock.canWrite then some (v.offerChannel offer, .acknowledged)
    else none
  | .allOffersDelivered =>
    if v.stateLock.canRead then some ({ v with allOffersDelivered := true }, .acknowledged)
    else none
  | .gpadlCreated status => if status = 0 then some (v, .acknowledged) else none
  | .openChannelResult status => if status = 0 then some (v, .acknowledged) else none
  | .rescindChannelOffer channelId =>
    if v.stateLock.canWrite ∧ v.offersLock.canWrite then
      (v.rescindChannelOffer posted channelId).map (·, .acknowledged)
    else none
  | .tlConnectResult guestEndpointId hostServiceId status =>
    if v.stateLock.canRead then some (v.tlConnectResult guestEndpointId hostServiceId status)
    else none
  | .other => none

/-- The message is acknowledged: no assertion fails, no thread holds a lock in the way, a rescinded
channel has a socket, and nobody waits for the result of the connection. -/
def Acknowledges (posted : Bool) (v : HyperVState) : Message → Prop
  | .versionResponse versionSupported _ => versionSupported = true ∧ v.stateLock = .free
  | .offerChannel _ => v.stateLock ≠ .write ∧ v.offersLock = .free
  | .allOffersDelivered => v.stateLock ≠ .write
  | .gpadlCreated status | .openChannelResult status => status = 0
  | .rescindChannelOffer channelId => v.stateLock = .free ∧ v.offersLock = .free ∧
    posted = true ∧ v.hasSocket channelId = true
  | .tlConnectResult guestEndpointId hostServiceId _ => v.stateLock ≠ .write ∧
    v.pendingSocketConnects.any (matchesConnect guestEndpointId hostServiceId) = false
  | .invalid | .other => False

theorem rescindChannelOffer_isSome_iff (posted : Bool) (v : HyperVState) (channelId : Nat) :
    (∃ v', v.rescindChannelOffer posted channelId = some v') ↔
      posted = true ∧ v.hasSocket channelId = true := by
  unfold rescindChannelOffer hasSocket
  cases posted with
  | false => simp
  | true =>
    cases hd : v.channelToDriverMap channelId with
    | none => simp
    | some d =>
      obtain ⟨ident, device, lock⟩ := d
      cases device <;> cases lock <;> simp

/-- **When a message is acknowledged**, for every message and every state. -/
theorem dispatch_acknowledged_iff (posted : Bool) (v : HyperVState) (m : Message) :
    (∃ v', v.dispatch posted m = some (v', .acknowledged)) ↔ v.Acknowledges posted m := by
  cases m with
  | gpadlCreated status | openChannelResult status =>
    by_cases h : status = 0 <;> simp [dispatch, Acknowledges, h]
  | rescindChannelOffer channelId =>
    have hrescind := rescindChannelOffer_isSome_iff posted v channelId
    by_cases hfree : v.stateLock = .free ∧ v.offersLock = .free
    · simp only [dispatch, Acknowledges, Hold.canWrite, hfree, decide_true, and_self, if_true,
        true_and, ← hrescind]
      simp
    · simp [dispatch, Acknowledges, Hold.canWrite, hfree, ← and_assoc]
  | tlConnectResult guestEndpointId hostServiceId status =>
    simp only [dispatch, Acknowledges, tlConnectResult]
    by_cases hread : v.stateLock = .write
    · simp [Hold.canRead, hread]
    by_cases h : v.pendingSocketConnects.any (matchesConnect guestEndpointId hostServiceId) = true
    · rw [if_pos h, h]
      simp
    rw [if_neg h, Bool.eq_false_iff.mpr h]
    simp [Hold.canRead, hread]
  | _ => simp [dispatch, Acknowledges, Hold.canRead, Hold.canWrite]

end HyperVState

/-! ## The slot -/

/-- The driver, the slot and how often the end-of-message register was written. -/
structure Simp where
  vmbus : HyperVState
  slot : Message := .invalid
  eoms : Nat := 0

inductive SlotEvent where
  | deliver (m : Message)
  /-- An interrupt, for whatever reason. -/
  | irq (posted : Bool)
  /-- The rest of the kernel changes the state of the driver. -/
  | kernel (v : HyperVState)

namespace Simp

/-- `handle_simp_irq`. The output is the message that was acted on. -/
def handleSimpIrq (posted : Bool) (s : Simp) : Option (Simp × Option Message) :=
  (s.vmbus.dispatch posted s.slot).map fun r =>
    (match r.2 with
      | .acknowledged => { vmbus := r.1, slot := .invalid, eoms := s.eoms + 1 }
      | .returned => { s with vmbus := r.1 },
      if s.slot = .invalid then none else some s.slot)

/-- `handle_vmbus_irq`, which reads the address of the page from the state. -/
def handleVmbusIrq (posted : Bool) (s : Simp) : Option (Simp × Option Message) :=
  if s.vmbus.stateLock.canRead then s.handleSimpIrq posted else none

def step (s : Simp) : SlotEvent → Option (Simp × Option Message)
  | .deliver m => some ({ s with slot := m }, none)
  | .irq posted => s.handleVmbusIrq posted
  | .kernel v => some ({ s with vmbus := v }, none)

/-- The host delivers into an empty slot; an interrupt does not come while a thread holds the state
for writing, and finds the slot empty or with a message that is acknowledged. -/
def EventOk (s : Simp) : SlotEvent → Prop
  | .deliver m => s.slot = .invalid ∧ m ≠ .invalid ∧ m ≠ .other
  | .irq posted => s.vmbus.stateLock ≠ .write ∧
    (s.slot = .invalid ∨ s.vmbus.Acknowledges posted s.slot)
  | .kernel _ => True

instance (posted : Bool) (v : HyperVState) (m : Message) : Decidable (v.Acknowledges posted m) := by
  cases m <;> unfold HyperVState.Acknowledges <;> infer_instance

instance (s : Simp) (event : SlotEvent) : Decidable (s.EventOk event) := by
  cases event <;> unfold EventOk <;> infer_instance

def delivered : List SlotEvent → List Message
  | [] => []
  | .deliver m :: events => m :: delivered events
  | .irq _ :: events | .kernel _ :: events => delivered events

def waiting (s : Simp) : List Message := if s.slot = .invalid then [] else [s.slot]

/-- An interrupt acts on the message that waits, and clears the slot. -/
theorem handleVmbusIrq_spec {s : Simp} {posted : Bool} (h : s.EventOk (.irq posted)) :
    ∃ s' o, s.handleVmbusIrq posted = some (s', o) ∧ s'.slot = .invalid ∧
      o.toList = s.waiting ∧ s'.eoms = s.eoms + s.waiting.length := by
  obtain ⟨hread, h⟩ := h
  have hcan : s.vmbus.stateLock.canRead = true := decide_eq_true hread
  unfold handleVmbusIrq
  rw [if_pos hcan]
  unfold handleSimpIrq waiting
  rcases h with hslot | hack
  · obtain ⟨vmbus, slot, eoms⟩ := s
    cases hslot
    exact ⟨_, _, rfl, rfl, rfl, rfl⟩
  obtain ⟨v', hv'⟩ := (HyperVState.dispatch_acknowledged_iff _ _ _).mpr hack
  have hslot : s.slot ≠ .invalid := by
    intro heq
    rw [heq] at hack
    exact hack
  rw [hv']
  refine ⟨_, _, rfl, rfl, ?_, ?_⟩
  · simp [hslot]
  · simp [hslot]

/-- An offer, the end of the offers (while a thread reads the state) and the answer to a connection
nobody waits for, with interrupts between them that find nothing. -/
def someEvents : List SlotEvent :=
  [.irq true, .deliver (.offerChannel ⟨7, some .socket⟩), .irq true, .irq true,
    .deliver .allOffersDelivered, .kernel { stateLock := .read }, .irq true,
    .deliver (.tlConnectResult 1 2 0), .irq true,
    .deliver (.gpadlCreated 0)]

/-- The answer to a connection that is waited for stays in the slot. -/
def answeredConnect : List SlotEvent := [.deliver (.tlConnectResult 1 2 0), .irq true, .irq true]

end Simp
end Moose.Hyperv
