import Mathlib.Data.Set.Insert
import Moose.Lib.Run
import Moose.Lib.WordSet

/-!
# The local interrupt controllers of the guest

`device/interrupt/lapic.rs`. Each virtual processor has a request register and an in-service
register of 256 bits, eight words each. A vector is raised into the first, moved to the second when
it is injected, and leaves it with the end-of-interrupt write.

The legacy controller behind the pin LINT0 is a parameter, and so are the readings of the guest's
clock. `none` is a panic.

`Vectors` says what the two registers are for, as sets. The code does something else in two cases: a
vector that is raised while it is in service is taken out of service, and an interrupt that comes
through LINT0 never is in service. `run_refines_lapic` excludes both.
-/

set_option autoImplicit false

namespace Moose.Reindeer

open Option Lib

/-! ## The code -/

structure LocalApicState where
  id : BitVec 32
  baseAddress : Nat := 0xFEE00000
  spuriousVector : BitVec 64 := 0x10#64
  tpr : BitVec 64 := 0#64
  lvtError : BitVec 64 := 0x10000#64
  divideConfigRegister : BitVec 64 := 0#64
  timerOn : Bool := false
  initialCount : BitVec 32 := 0#32
  startGuestTsc : BitVec 64 := 0#64
  irr : WordSet 8 32 := fun _ => 0#32
  isr : WordSet 8 32 := fun _ => 0#32
  isEnabled : Bool := false
  dfr : BitVec 64 := 0xFFFFFFFF#64
  ldr : BitVec 64 := 0xFFFFFFFF#64
  lvtLint0 : BitVec 32 := 0x700#32
  lvtLint1 : BitVec 32 := 0x10000#32
  lvtTimer : BitVec 32 := 0x10000#32
  icrLow : BitVec 32 := 0#32
  icrHigh : BitVec 32 := 0#32

inductive DeliveredInterrupt where
  | extInt (irqLine vector : Nat)
  | lapic (vector : Nat)
  | lapicLvtLint0 (lint0Vector irqLine : Nat)
deriving DecidableEq

/-- `ProgrammableInterruptControllerDevice`: the line and the vector it would deliver, its
acknowledge cycle and its end of interrupt. -/
structure PicCode (P : Type) where
  peekPending : P → Option (Nat × Nat)
  acceptInterrupt : P → Option P
  handleEoi : P → P

def LocalApicState.initial (cpu : Nat) : LocalApicState := { id := BitVec.ofNat 32 cpu }

/-- `LVT_MASKED`, for the entries of the local vector table. -/
def masked (lvt : BitVec 32) : Bool := lvt.getLsbD 16

def deliveryMode (lvt : BitVec 32) : Nat := lvt.toNat / 2 ^ 8 % 8

def priorityClass (vector : Nat) : Nat := vector / 16

namespace LocalApicState

variable (s : LocalApicState)

def isrPrio : Nat := (s.isr.highest.map priorityClass).getD 0

/-- The higher one of the two task priorities, cut to eight bits. -/
def processorPrio (guestTpr : BitVec 64) : Nat :=
  max s.tpr.toNat guestTpr.toNat / 16 % 256

def findHighestPendingLapicIrq (processorPrio isrPrio : Nat) : Option Nat := do
  let pending ← s.irr.highest
  if priorityClass pending > processorPrio ∧ priorityClass pending > isrPrio then some pending
  else none

/-- The part of `get_pending_interrupt` for the pin of the legacy controller. -/
def pendingLint0 (pending : Option (Nat × Nat)) (processorPrio isrPrio : Nat) :
    Option DeliveredInterrupt :=
  if masked s.lvtLint0 then none
  else do
    let (irqLine, vector) ← pending
    if deliveryMode s.lvtLint0 = 7 then some (.extInt irqLine vector)
    else if deliveryMode s.lvtLint0 = 0 then
      let lint0Vector := s.lvtLint0.toNat % 256
      let lint0Prio := priorityClass lint0Vector
      if lint0Vector ≥ 16 ∧ lint0Prio > processorPrio ∧ lint0Prio > isrPrio then
        some (.lapicLvtLint0 lint0Vector irqLine)
      else none
    else none

def getPendingInterrupt (pending : Option (Nat × Nat)) (guestTpr : BitVec 64) :
    Option DeliveredInterrupt :=
  s.pendingLint0 pending (s.processorPrio guestTpr) s.isrPrio <|>
    (s.findHighestPendingLapicIrq (s.processorPrio guestTpr) s.isrPrio).map .lapic

def commitInterrupt (vector : Nat) : LocalApicState :=
  { s with irr := s.irr.erase vector, isr := s.isr.insert vector }

/-- The end of `set_irq`. A vector in service that is not requested is taken out of service. -/
def latch (vector : Nat) : LocalApicState :=
  let s := if s.isr.mem vector && !s.irr.mem vector then { s with isr := s.isr.erase vector } else s
  { s with irr := s.irr.insert vector }

/-- The write to the end-of-interrupt register, as far as this controller is concerned. -/
def endOfInterrupt : LocalApicState :=
  match s.isr.highest with
  | some vector => { s with isr := s.isr.erase vector }
  | none => s

end LocalApicState

/-- The controllers of all virtual processors and the legacy one. `firstKey` is what the iteration
over the keys of the map starts with. -/
structure LocalApicDevice (P : Type) where
  state : Nat → Option LocalApicState
  apicMap : Nat → Option Nat
  firstKey : Option Nat
  pic : P

namespace LocalApicDevice

variable {P : Type}

def update (d : LocalApicDevice P) (cpu : Nat) (s : LocalApicState) : LocalApicDevice P :=
  { d with state := Function.update d.state cpu (some s) }

variable (d : LocalApicDevice P)

@[simp] theorem update_state_self (cpu : Nat) (s : LocalApicState) :
    (d.update cpu s).state cpu = some s := Function.update_self ..

theorem update_state_of_ne {d : LocalApicDevice P} {cpu c : Nat} {s : LocalApicState}
    (h : c ≠ cpu) :
    (d.update cpu s).state c = d.state c := Function.update_of_ne h ..

def resolveDestination (apicId : Nat) : Option Nat :=
  d.apicMap apicId <|> (if (d.state apicId).isSome then some apicId else none) <|> d.firstKey

/-- Vectors below 16 are ignored; from 256 on there is no word for them. -/
def setIrq (apicId vector : Nat) : Option (LocalApicDevice P) :=
  match d.resolveDestination apicId with
  | none => some d
  | some cpu =>
    match d.state cpu with
    | none => some d
    | some s =>
      if vector < 16 then some d
      else if vector < 256 then some (d.update cpu (s.latch vector))
      else none

def injectIpi (apicId mode vector : Nat) : Option (LocalApicDevice P) :=
  if mode = 0 then (if vector ≥ 16 then d.setIrq apicId vector else some d) else none

/-- Only the shorthands "self" and "all including self" are implemented. -/
def dispatchIpi (apicId shorthand mode vector : Nat) : Option (LocalApicDevice P) :=
  if shorthand = 1 ∨ shorthand = 2 then d.injectIpi apicId mode vector else none

def commitDeliveredInterrupt (C : PicCode P) (d : LocalApicDevice P) (cpu : Nat) :
    DeliveredInterrupt → Option (LocalApicDevice P × Option Nat)
  | .extInt irqLine vector =>
    if irqLine < 16 then
      match C.acceptInterrupt d.pic with
      | none => some (d, none)
      | some pic => some ({ d with pic := pic }, some vector)
    else none
  | .lapicLvtLint0 lint0Vector irqLine =>
    if irqLine < 16 then
      match C.acceptInterrupt d.pic with
      | none => some (d, none)
      | some pic => some ({ d with pic := pic }, some lint0Vector)
    else none
  | .lapic vector => do
    let s ← d.state cpu
    some (d.update cpu (s.commitInterrupt vector), some vector)

/-- The timer fires, for a number of ticks since its start. -/
def timerFires (s : LocalApicState) (elapsed : Nat) : Bool :=
  s.timerOn && s.initialCount != 0#32 && s.startGuestTsc != 0#64 &&
    !(s.lvtTimer.toNat % 256 < 16 || masked s.lvtTimer) && s.initialCount.toNat ≤ elapsed

/-- A periodic timer starts again, a one-shot timer stops. -/
def rearm (s : LocalApicState) (now : BitVec 64) : LocalApicState :=
  if s.lvtTimer.getLsbD 17 then { s with startGuestTsc := now }
  else { s with initialCount := 0#32, timerOn := false }

def checkLapicTimer (cpu elapsed : Nat) (now : BitVec 64) : Option (LocalApicDevice P) := do
  let s ← d.state cpu
  if !s.timerOn || s.initialCount == 0#32 || s.startGuestTsc == 0#64 then some d
  else if s.lvtTimer.toNat % 256 < 16 || masked s.lvtTimer then
    some (d.update cpu { s with timerOn := false })
  else if s.initialCount.toNat ≤ elapsed then
    (d.update cpu (rearm s now)).setIrq cpu (s.lvtTimer.toNat % 256)
  else some d

end LocalApicDevice

inductive Register where
  | tpr | eoi | ldr | dfr | svr | esr | icrLow | icrHigh | lvtTimer | lvtLint0 | lvtLint1 | lvtError
  | initialCount | dcr

def Register.offset : Register → Nat
  | .tpr => 0x80
  | .eoi => 0xB0
  | .ldr => 0xD0
  | .dfr => 0xE0
  | .svr => 0xF0
  | .esr => 0x280
  | .icrLow => 0x300
  | .icrHigh => 0x310
  | .lvtTimer => 0x320
  | .lvtLint0 => 0x350
  | .lvtLint1 => 0x360
  | .lvtError => 0x370
  | .initialCount => 0x380
  | .dcr => 0x3E0

def Register.all : List Register :=
  [.tpr, .eoi, .ldr, .dfr, .svr, .esr, .icrLow, .icrHigh, .lvtTimer, .lvtLint0, .lvtLint1,
    .lvtError, .initialCount, .dcr]

def Register.ofOffset (offset : Nat) : Option Register :=
  Register.all.find? fun r => r.offset = offset

namespace LocalApicState

/-- An address below the base overflows, and one that is no register is a panic as well. -/
def registerAt (s : LocalApicState) (addr : Nat) : Option Register :=
  if s.baseAddress ≤ addr then Register.ofOffset (addr - s.baseAddress) else none

/-- The writes that only change a register or the timer. -/
def writePlain (s : LocalApicState) (value now : BitVec 64) : Register → LocalApicState
  | .svr => { s with spuriousVector := value, isEnabled := value.getLsbD 8 }
  | .icrHigh => { s with icrHigh := value.setWidth 32 }
  | .lvtError => { s with lvtError := value &&& 0x100FF#64 }
  | .dcr => { s with divideConfigRegister := value &&& 0xB#64 }
  | .initialCount =>
    { s with
      initialCount := value.setWidth 32
      startGuestTsc := now
      timerOn := value.setWidth 32 != 0#32 && !masked s.lvtTimer }
  | .lvtTimer =>
    let s := { s with lvtTimer := value.setWidth 32 }
    if value.getLsbD 16 || value.toNat % 256 < 16 then { s with timerOn := false }
    else if s.initialCount != 0#32 then { s with timerOn := true, startGuestTsc := now }
    else s
  | .ldr => { s with ldr := value }
  | .dfr => { s with dfr := value }
  | .lvtLint0 => { s with lvtLint0 := value.setWidth 32 &&& 0x117FF#32 }
  | .lvtLint1 => { s with lvtLint1 := value.setWidth 32 &&& 0x117FF#32 }
  | .esr | .tpr | .eoi | .icrLow => s

end LocalApicState

namespace LocalApicDevice

variable {P : Type}

def handleMmioWrite (C : PicCode P) (d : LocalApicDevice P) (cpu addr : Nat)
    (value now : BitVec 64) :
    Option (LocalApicDevice P) := do
  let s ← d.state cpu
  match ← s.registerAt addr with
  | .tpr => some (d.update cpu { s with tpr := value })
  | .eoi =>
    let d := d.update cpu s.endOfInterrupt
    if !masked s.lvtLint0 && deliveryMode s.lvtLint0 = 7 then
      some { d with pic := C.handleEoi d.pic }
    else some d
  | .icrLow =>
    let d := d.update cpu { s with icrLow := value.setWidth 32 &&& ~~~0x1000#32 }
    d.dispatchIpi s.id.toNat (value.toNat / 2 ^ 18 % 4) (value.toNat / 2 ^ 8 % 8)
      (value.toNat % 256)
  | r => some (d.update cpu (s.writePlain value now r))

/-! ## Runs -/

inductive Action (P : Type) where
  | setIrq (apicId vector : Nat)
  /-- `get_pending_interrupt`, and the commit if the guest can take an interrupt now. -/
  | deliver (cpu : Nat) (guestTpr : BitVec 64) (commit : Bool)
  | write (cpu addr : Nat) (value now : BitVec 64)
  | checkTimer (cpu elapsed : Nat) (now : BitVec 64)
  /-- The legacy controller changes. -/
  | pic (p : P)

/-- The output is the interrupt that is offered. -/
def step (C : PicCode P) (d : LocalApicDevice P) :
    Action P → Option (LocalApicDevice P × Option DeliveredInterrupt)
  | .setIrq apicId vector => (d.setIrq apicId vector).map (·, none)
  | .deliver cpu guestTpr commit => do
    let s ← d.state cpu
    match s.getPendingInterrupt (C.peekPending d.pic) guestTpr with
    | none => some (d, none)
    | some interrupt =>
      if commit then (d.commitDeliveredInterrupt C cpu interrupt).map (·.1, some interrupt)
      else some (d, some interrupt)
  | .write cpu addr value now => (d.handleMmioWrite C cpu addr value now).map (·, none)
  | .checkTimer cpu elapsed now => (d.checkLapicTimer cpu elapsed now).map (·, none)
  | .pic p => some ({ d with pic := p }, none)

/-- A vector that is in service is not raised, unless it has been already. -/
def raiseOk (d : LocalApicDevice P) (apicId vector : Nat) : Bool :=
  (d.resolveDestination apicId).all fun cpu => (d.state cpu).all fun s =>
    !s.isr.mem vector || s.irr.mem vector

def ok (C : PicCode P) (d : LocalApicDevice P) : Action P → Bool
  | .setIrq apicId vector => d.raiseOk apicId vector
  | .deliver cpu guestTpr _ => guestTpr.toNat < 256 && (d.state cpu).all fun s =>
      -- the interrupt is not that of the pin
      (s.pendingLint0 (C.peekPending d.pic) (s.processorPrio guestTpr) s.isrPrio).isNone
  | .write cpu addr value _ => (d.state cpu).all fun s =>
      addr != s.baseAddress + Register.icrLow.offset || d.raiseOk s.id.toNat (value.toNat % 256)
  | .checkTimer cpu elapsed _ => (d.state cpu).all fun s =>
      !timerFires s elapsed || d.raiseOk cpu (s.lvtTimer.toNat % 256)
  | .pic _ => true

end LocalApicDevice

/-! ## What the registers are for -/

/-- The vectors one controller has been asked for and has not delivered, those it has delivered and
that have not ended, and the class of its task priority. -/
structure Vectors where
  requested : Set Nat
  inService : Set Nat
  tprClass : Nat

namespace Vectors

/-- A vector may be offered: nothing higher is requested, and its class is above the task priority
and above everything in service. -/
def Offers (a : Vectors) (v : Nat) : Prop :=
  v ∈ a.requested ∧ (∀ u ∈ a.requested, u ≤ v) ∧ a.tprClass < priorityClass v ∧
    ∀ u ∈ a.inService, priorityClass u < priorityClass v

def raise (a : Vectors) (v : Nat) : Vectors := { a with requested := insert v a.requested }

def commit (a : Vectors) (v : Nat) : Vectors :=
  { a with requested := a.requested \ {v}, inService := insert v a.inService }

/-- The highest vector in service is ended, and no other. -/
def endHighest (a : Vectors) : Vectors :=
  { a with inService := {u | u ∈ a.inService ∧ ∃ v ∈ a.inService, u < v} }

end Vectors

/-- The controllers of all processors. `dest` says which one an identifier reaches, `idOf` the
identifier of each. -/
abbrev Controllers := Nat → Vectors

namespace Controllers

def on (a : Controllers) (cpu : Nat) (f : Vectors → Vectors) : Controllers :=
  Function.update a cpu (f (a cpu))

/-- Vectors below 16 are not delivered to anyone. -/
def raise (a : Controllers) (cpu : Option Nat) (v : Nat) : Controllers :=
  if v < 16 then a else cpu.elim a fun cpu => a.on cpu (·.raise v)

/-- What an action with its output does. The actions of the timer are not modelled here: it may
raise a vector. -/
def Step {P : Type} (dest : Nat → Option Nat) (idOf : Nat → Nat) (a : Controllers) :
    LocalApicDevice.Action P → Option DeliveredInterrupt → Controllers → Prop
  | .setIrq apicId v, none, a' => a' = a.raise (dest apicId) v
  | .deliver _ _ _, none, a' => a' = a
  | .deliver cpu _ commit, some (.lapic v), a' => (a cpu).Offers v ∧
      a' = if commit then a.on cpu (·.commit v) else a
  | .write cpu addr value _, none, a' =>
      a' = match Register.ofOffset (addr - 0xFEE00000) with
        | some .tpr => a.on cpu fun s => { s with tprClass := value.toNat / 16 % 16 }
        | some .eoi => a.on cpu Vectors.endHighest
        | some .icrLow => a.raise (dest (idOf cpu)) (value.toNat % 256)
        | _ => a
  | .checkTimer cpu _ _, none, a' => a' = a ∨ ∃ v, a' = a.raise (dest cpu) v
  | .pic _, none, a' => a' = a
  | _, _, _ => False

end Controllers

/-! ## One controller -/

structure LocalApicState.Agrees (s : LocalApicState) (a : Vectors) : Prop where
  irr : ∀ v, s.irr.mem v = true ↔ v ∈ a.requested
  isr : ∀ v, s.isr.mem v = true ↔ v ∈ a.inService
  tpr : s.tpr.toNat / 16 % 16 = a.tprClass

namespace LocalApicState

variable {s : LocalApicState} {a : Vectors} {v : Nat}

theorem Agrees.latch (h : s.Agrees a) (hv : v < 256)
    (hok : (!s.isr.mem v || s.irr.mem v) = true) : (s.latch v).Agrees (a.raise v) := by
  have hkeep : (s.isr.mem v && !s.irr.mem v) = false := by
    revert hok
    cases s.isr.mem v <;> cases s.irr.mem v <;> decide
  unfold LocalApicState.latch
  rw [hkeep, if_neg nofun]
  refine ⟨?_, h.isr, h.tpr⟩
  intro u
  rw [WordSet.mem_insert (by decide) hv, h.irr]
  exact Iff.rfl

theorem Agrees.commitInterrupt (h : s.Agrees a) (hv : v < 256) :
    (s.commitInterrupt v).Agrees (a.commit v) where
  irr u := by
    dsimp only [LocalApicState.commitInterrupt]
    rw [WordSet.mem_erase (by decide), h.irr]
    exact and_comm
  isr u := by
    dsimp only [LocalApicState.commitInterrupt]
    rw [WordSet.mem_insert (by decide) hv, h.isr]
    exact Iff.rfl
  tpr := h.tpr

theorem Agrees.endOfInterrupt (h : s.Agrees a) : s.endOfInterrupt.Agrees a.endHighest := by
  unfold LocalApicState.endOfInterrupt
  cases hhigh : s.isr.highest with
  | none =>
    have hempty := WordSet.highest_eq_none hhigh
    refine ⟨h.irr, ?_, h.tpr⟩
    intro u
    have hnot : u ∉ a.inService := by
      rw [← h.isr, hempty]
      exact nofun
    simp [hempty, Vectors.endHighest, hnot]
  | some w =>
    obtain ⟨hmem, hmax⟩ := WordSet.highest_eq_some (by decide) hhigh
    refine ⟨h.irr, ?_, h.tpr⟩
    intro u
    rw [WordSet.mem_erase (by decide), h.isr]
    constructor
    · rintro ⟨hne, hu⟩
      have hle := hmax u ((h.isr u).mpr hu)
      exact ⟨hu, w, (h.isr w).mp hmem, by omega⟩
    rintro ⟨hu, v, hv, hlt⟩
    have hle := hmax v ((h.isr v).mpr hv)
    exact ⟨by omega, hu⟩

/-- What is offered is what the specification allows. -/
theorem Agrees.offers (h : s.Agrees a) {guestTpr : BitVec 64} (hguest : guestTpr.toNat < 256)
    (hrun : s.findHighestPendingLapicIrq (s.processorPrio guestTpr) s.isrPrio = some v) :
    a.Offers v ∧ v < 256 := by
  obtain ⟨pending, hhigh, hrun⟩ := bind_eq_some.mp hrun
  split at hrun
  next hprio =>
    cases hrun
    obtain ⟨hmem, hmax⟩ := WordSet.highest_eq_some (by decide) hhigh
    refine ⟨⟨(h.irr v).mp hmem, fun u hu => hmax u ((h.irr u).mpr hu), ?_, ?_⟩,
      WordSet.lt_of_mem (by decide) hmem⟩
    · have htpr := h.tpr
      have hclass := hprio.1
      unfold processorPrio at hclass
      omega
    intro u hu
    have hclass := hprio.2
    unfold isrPrio at hclass
    cases hisr : s.isr.highest with
    | none =>
      have hnot := WordSet.highest_eq_none hisr u
      rw [(h.isr u).mpr hu] at hnot
      cases hnot
    | some w =>
      have hle := (WordSet.highest_eq_some (by decide) hisr).2 u ((h.isr u).mpr hu)
      rw [hisr] at hclass
      simp only [map_some, getD_some, priorityClass] at hclass ⊢
      omega
  · cases hrun

/-- What the controllers are identified by and what their sets are read from stays the same. -/
structure Same (s' s : LocalApicState) : Prop where
  baseAddress : s'.baseAddress = s.baseAddress
  id : s'.id = s.id
  irr : s'.irr = s.irr
  isr : s'.isr = s.isr
  tpr : s'.tpr = s.tpr

theorem same_writePlain (s : LocalApicState) (value now : BitVec 64) (r : Register) :
    (s.writePlain value now r).Same s := by
  cases r with
  | lvtTimer =>
    simp only [writePlain]
    split
    · exact ⟨rfl, rfl, rfl, rfl, rfl⟩
    · split <;> exact ⟨rfl, rfl, rfl, rfl, rfl⟩
  | _ => exact ⟨rfl, rfl, rfl, rfl, rfl⟩

theorem same_rearm (s : LocalApicState) (now : BitVec 64) :
    (LocalApicDevice.rearm s now).Same s := by
  unfold LocalApicDevice.rearm
  split <;> exact ⟨rfl, rfl, rfl, rfl, rfl⟩

end LocalApicState

/-! ## All of them -/

namespace LocalApicDevice

variable {P : Type} {C : PicCode P} {d d' : LocalApicDevice P} {a : Controllers}
  {dest : Nat → Option Nat} {idOf : Nat → Nat}

/-- The device holds the sets of every processor, and its identifiers stay as they are. -/
structure Represents (d : LocalApicDevice P) (dest : Nat → Option Nat) (idOf : Nat → Nat)
    (a : Controllers) : Prop where
  dest : ∀ apicId, d.resolveDestination apicId = dest apicId
  config : ∀ cpu s, d.state cpu = some s → s.baseAddress = 0xFEE00000 ∧ s.id.toNat = idOf cpu
  agrees : ∀ cpu s, d.state cpu = some s → s.Agrees (a cpu)

theorem resolveDestination_update {cpu : Nat} {s s' : LocalApicState} (hs : d.state cpu = some s)
    (apicId : Nat) :
    (d.update cpu s').resolveDestination apicId = d.resolveDestination apicId := by
  unfold resolveDestination
  by_cases heq : apicId = cpu
  · subst heq
    rw [update_state_self, hs]
    rfl
  · rw [update_state_of_ne heq]
    rfl

section

variable (h : d.Represents dest idOf a)
include h

/-- One controller changes, and its sets with it. -/
theorem Represents.update {cpu : Nat} {s t : LocalApicState} (hs : d.state cpu = some s)
    (hconfig : t.baseAddress = s.baseAddress ∧ t.id = s.id) {f : Vectors → Vectors}
    (hagrees : t.Agrees (f (a cpu))) : (d.update cpu t).Represents dest idOf (a.on cpu f) where
  dest apicId := (resolveDestination_update hs apicId).trans (h.dest apicId)
  config c u hu := by
    by_cases heq : c = cpu
    · subst heq
      cases (update_state_self ..).symm.trans hu
      rw [hconfig.1, hconfig.2]
      exact h.config c s hs
    · exact h.config c u ((update_state_of_ne heq).symm.trans hu)
  agrees c u hu := by
    by_cases heq : c = cpu
    · subst heq
      cases (update_state_self ..).symm.trans hu
      rw [Controllers.on, Function.update_self]
      exact hagrees
    · rw [Controllers.on, Function.update_of_ne heq]
      exact h.agrees c u ((update_state_of_ne heq).symm.trans hu)

/-- One controller changes, but not what the sets are read from. -/
theorem Represents.update_self {cpu : Nat} {s s' : LocalApicState} (hs : d.state cpu = some s)
    (hsame : s'.Same s) : (d.update cpu s').Represents dest idOf a := by
  have hagrees := h.agrees cpu s hs
  have hupdate := h.update (t := s') (f := id) hs ⟨hsame.baseAddress, hsame.id⟩
    ⟨by rw [hsame.irr]; exact hagrees.irr, by rw [hsame.isr]; exact hagrees.isr,
      by rw [hsame.tpr]; exact hagrees.tpr⟩
  rwa [Controllers.on, id, Function.update_eq_self] at hupdate

theorem Represents.withPic (p : P) :
    ({ d with pic := p } : LocalApicDevice P).Represents dest idOf a :=
  ⟨h.dest, h.config, h.agrees⟩

theorem Represents.setIrq {apicId v : Nat} (hok : d.raiseOk apicId v = true)
    (hrun : d.setIrq apicId v = some d') : d'.Represents dest idOf (a.raise (dest apicId) v) := by
  unfold LocalApicDevice.setIrq at hrun
  unfold raiseOk at hok
  unfold Controllers.raise
  rw [h.dest] at hrun hok
  cases hdest : dest apicId with
  | none =>
    rw [hdest] at hrun
    cases hrun
    simpa using h
  | some cpu =>
    rw [hdest] at hrun hok
    simp only [all_some, elim_some] at hrun hok ⊢
    cases hs : d.state cpu with
    | none =>
      rw [hs] at hrun
      cases hrun
      split
      · exact h
      refine { h with agrees := fun c t ht => ?_ }
      have hne : c ≠ cpu := by
        rintro rfl
        cases hs.symm.trans ht
      rw [Controllers.on, Function.update_of_ne hne]
      exact h.agrees c t ht
    | some s =>
      simp only [hs, all_some] at hrun hok
      by_cases hlow : v < 16
      · rw [if_pos hlow] at hrun ⊢
        cases hrun
        exact h
      rw [if_neg hlow] at hrun ⊢
      split at hrun
      next hv =>
        cases hrun
        refine h.update hs ?_ ((h.agrees cpu s hs).latch hv hok)
        unfold LocalApicState.latch
        split <;> exact ⟨rfl, rfl⟩
      · cases hrun

end

theorem raiseOk_update {cpu : Nat} {s s' : LocalApicState} (hs : d.state cpu = some s)
    (hsame : s'.Same s) (apicId v : Nat) :
    (d.update cpu s').raiseOk apicId v = d.raiseOk apicId v := by
  unfold raiseOk
  rw [resolveDestination_update hs]
  congr 1
  funext c
  by_cases heq : c = cpu
  · subst heq
    rw [update_state_self, hs, all_some, all_some, hsame.isr, hsame.irr]
  · rw [update_state_of_ne heq]

section

variable (h : d.Represents dest idOf a)
include h

theorem Represents.dispatchIpi {apicId shorthand mode v : Nat} (hok : d.raiseOk apicId v = true)
    (hrun : d.dispatchIpi apicId shorthand mode v = some d') :
    d'.Represents dest idOf (a.raise (dest apicId) v) := by
  unfold LocalApicDevice.dispatchIpi injectIpi at hrun
  split at hrun
  · split at hrun
    · split at hrun
      · exact h.setIrq hok hrun
      next hlow =>
        cases hrun
        rw [Controllers.raise, if_pos (Nat.lt_of_not_le hlow)]
        exact h
    · cases hrun
  · cases hrun

theorem Represents.handleMmioWrite {cpu addr : Nat} {value now : BitVec 64}
    (hok : d.ok C (.write cpu addr value now) = true)
    (hrun : d.handleMmioWrite C cpu addr value now = some d') :
    ∃ a', a.Step dest idOf (.write cpu addr value now : Action P) none a' ∧
      d'.Represents dest idOf a' := by
  obtain ⟨s, hs, hrun⟩ := bind_eq_some.mp hrun
  obtain ⟨r, hr, hrun⟩ := bind_eq_some.mp hrun
  obtain ⟨hbase, hid⟩ := h.config cpu s hs
  have hagrees := h.agrees cpu s hs
  unfold LocalApicState.registerAt at hr
  split at hr
  next hle =>
    rw [hbase] at hr hle
    have haddr := by simpa using List.find?_some hr
    refine ⟨_, rfl, ?_⟩
    rw [hr]
    cases r with
    | tpr =>
      cases hrun
      exact h.update (t := { s with tpr := value })
        (f := fun t => { t with tprClass := value.toNat / 16 % 16 }) hs ⟨rfl, rfl⟩
        ⟨hagrees.irr, hagrees.isr, rfl⟩
    | eoi =>
      have hupdate := h.update hs
        (by cases hv : s.isr.highest <;> simp [LocalApicState.endOfInterrupt, hv])
        hagrees.endOfInterrupt
      dsimp only at hrun
      split at hrun
      · cases hrun
        exact hupdate.withPic _
      cases hrun
      exact hupdate
    | icrLow =>
      simp only [ok, hs, all_some, hbase, hid] at hok
      have haddr' : (addr != 0xFEE00000 + Register.icrLow.offset) = false := by
        rw [haddr, bne_eq_false_iff_eq]
        omega
      rw [haddr', Bool.false_or] at hok
      have hsame : ({ s with icrLow := value.setWidth 32 &&& ~~~0x1000#32 } :
        LocalApicState).Same s :=
        ⟨rfl, rfl, rfl, rfl, rfl⟩
      rw [hid] at hrun
      refine (h.update_self hs hsame).dispatchIpi ?_ hrun
      rw [raiseOk_update hs hsame]
      exact hok
    | _ =>
      cases hrun
      exact h.update_self hs (s.same_writePlain value now _)
  · cases hr

theorem Represents.checkLapicTimer {cpu elapsed : Nat} {now : BitVec 64}
    (hok : d.ok C (.checkTimer cpu elapsed now) = true)
    (hrun : d.checkLapicTimer cpu elapsed now = some d') :
    ∃ a', a.Step dest idOf (.checkTimer cpu elapsed now : Action P) none a' ∧
      d'.Represents dest idOf a' := by
  obtain ⟨s, hs, hrun⟩ := bind_eq_some.mp hrun
  simp only [ok, hs, all_some] at hok
  by_cases hoff : (!s.timerOn || s.initialCount == 0#32 || s.startGuestTsc == 0#64) = true
  · rw [if_pos hoff] at hrun
    cases hrun
    exact ⟨a, .inl rfl, h⟩
  rw [if_neg hoff] at hrun
  by_cases hmasked : (decide (s.lvtTimer.toNat % 256 < 16) || masked s.lvtTimer) = true
  · rw [if_pos hmasked] at hrun
    cases hrun
    have hsame : ({ s with timerOn := false } : LocalApicState).Same s := ⟨rfl, rfl, rfl, rfl, rfl⟩
    exact ⟨a, .inl rfl, h.update_self hs hsame⟩
  rw [if_neg hmasked] at hrun
  by_cases hexpired : s.initialCount.toNat ≤ elapsed
  · rw [if_pos hexpired] at hrun
    have hfires : timerFires s elapsed = true := by
      simp only [Bool.not_eq_true, Bool.or_eq_false_iff, Bool.not_eq_false'] at hoff hmasked
      simp [timerFires, bne, hoff, hmasked, hexpired]
    rw [hfires, Bool.not_true, Bool.false_or] at hok
    refine ⟨_, .inr ⟨s.lvtTimer.toNat % 256, rfl⟩, ?_⟩
    refine (h.update_self hs (s.same_rearm now)).setIrq ?_ hrun
    rw [raiseOk_update hs (s.same_rearm now)]
    exact hok
  · rw [if_neg hexpired] at hrun
    cases hrun
    exact ⟨a, .inl rfl, h⟩

theorem Represents.deliver {cpu : Nat} {guestTpr : BitVec 64} {commit : Bool}
    {o : Option DeliveredInterrupt} (hok : d.ok C (.deliver cpu guestTpr commit) = true)
    (hrun : d.step C (.deliver cpu guestTpr commit) = some (d', o)) :
    ∃ a', a.Step dest idOf (.deliver cpu guestTpr commit : Action P) o a' ∧
      d'.Represents dest idOf a' := by
  obtain ⟨s, hs, hrun⟩ := bind_eq_some.mp hrun
  simp only [ok, hs, all_some, Bool.and_eq_true, decide_eq_true_eq,
    isNone_iff_eq_none] at hok
  obtain ⟨hguest, hlint0⟩ := hok
  have hagrees := h.agrees cpu s hs
  unfold LocalApicState.getPendingInterrupt at hrun
  rw [hlint0] at hrun
  cases hfind : s.findHighestPendingLapicIrq (s.processorPrio guestTpr) s.isrPrio with
  | none =>
    simp only [hfind, map_none] at hrun
    cases hrun
    exact ⟨a, rfl, h⟩
  | some v =>
    obtain ⟨hoffers, hv⟩ := hagrees.offers hguest hfind
    simp only [hfind, map_some] at hrun
    cases commit with
    | false =>
      cases hrun
      exact ⟨a, ⟨hoffers, rfl⟩, h⟩
    | true =>
      simp only [commitDeliveredInterrupt, hs] at hrun
      cases hrun
      exact ⟨_, ⟨hoffers, rfl⟩, h.update (t := s.commitInterrupt v) (f := (·.commit v)) hs
        ⟨rfl, rfl⟩
        (hagrees.commitInterrupt hv)⟩

/-- **One action** does to the sets what it should. -/
theorem Represents.step {action : Action P} {o : Option DeliveredInterrupt}
    (hok : d.ok C action = true) (hrun : d.step C action = some (d', o)) :
    ∃ a', a.Step dest idOf action o a' ∧ d'.Represents dest idOf a' := by
  cases action with
  | setIrq apicId v =>
    obtain ⟨d1, hset, heq⟩ := map_eq_some_iff.mp hrun
    cases heq
    exact ⟨_, rfl, h.setIrq hok hset⟩
  | deliver cpu guestTpr commit => exact h.deliver hok hrun
  | write cpu addr value now =>
    obtain ⟨d1, hwrite, heq⟩ := map_eq_some_iff.mp hrun
    cases heq
    exact h.handleMmioWrite hok hwrite
  | checkTimer cpu elapsed now =>
    obtain ⟨d1, hcheck, heq⟩ := map_eq_some_iff.mp hrun
    cases heq
    exact h.checkLapicTimer hok hcheck
  | pic p =>
    cases hrun
    exact ⟨a, rfl, h.withPic p⟩

end

/-- **The registers hold what they are for** along every run from the reset state in which no vector
is raised again while it is in service and no interrupt comes through the pin of the legacy
controller: requested vectors wait until they are delivered, what is offered is above the task
priority and above everything in service, and what was delivered is in service until an
end-of-interrupt write finds it the highest. -/
theorem run_refines_lapic (C : PicCode P) (d : LocalApicDevice P)
    (hreset : ∀ cpu s, d.state cpu = some s → s = .initial cpu) (actions : List (Action P))
    (hok : Guarded (step C) (fun d action => d.ok C action = true) d actions)
    (outputs : List (Option DeliveredInterrupt))
    (hrun : run (step C) d actions = some (d', outputs)) :
    ∃ a : Controllers, Trace (Controllers.Step d.resolveDestination (· % 2 ^ 32))
        (fun _ => ⟨∅, ∅, 0⟩) actions outputs a ∧
      ∀ cpu s, d'.state cpu = some s → s.Agrees (a cpu) := by
  have hinit : d.Represents d.resolveDestination (· % 2 ^ 32) fun _ => ⟨∅, ∅, 0⟩ := by
    refine ⟨fun _ => rfl, ?_, ?_⟩
    · intro cpu s hs
      rw [hreset cpu s hs]
      exact ⟨rfl, BitVec.toNat_ofNat ..⟩
    intro cpu s hs
    rw [hreset cpu s hs]
    exact ⟨fun v => by simp [LocalApicState.initial], fun v => by simp [LocalApicState.initial],
      by simp [LocalApicState.initial]⟩
  obtain ⟨a, htrace, hrep⟩ := run_sim_guarded
    (R := fun d' a => d'.Represents d.resolveDestination (· % 2 ^ 32) a)
    (fun _ _ _ _ _ h hok hs => Represents.step h hok hs) actions hok hinit hrun
  exact ⟨a, htrace, hrep.agrees⟩

/-- A legacy controller without interrupts, and one processor. -/
def quietPic : PicCode Unit := ⟨fun _ => none, fun _ => none, id⟩

def oneCpu : LocalApicDevice Unit where
  state := fun cpu => if cpu = 0 then some (.initial 0) else none
  apicMap := fun apicId => if apicId = 0 then some 0 else none
  firstKey := some 0
  pic := ()

theorem oneCpu_reset : ∀ cpu s, oneCpu.state cpu = some s → s = .initial cpu := by
  intro cpu s hs
  by_cases hcpu : cpu = 0
  · subst hcpu
    cases hs
    rfl
  · simp [oneCpu, hcpu] at hs

/-- A vector is delivered; a lower one has to wait for its end, and a higher one for the task
priority. -/
def nestedVectors : List (Action Unit) :=
  [.setIrq 0 0x51, .deliver 0 0#64 true, .setIrq 0 0x31, .deliver 0 0#64 true,
    .write 0 0xFEE00080 0x70#64 0#64, .setIrq 0 0x62, .deliver 0 0#64 true,
    .write 0 0xFEE00080 0x20#64 0#64, .deliver 0 0#64 true, .write 0 0xFEE000B0 0#64 0#64,
    .write 0 0xFEE000B0 0#64 0#64, .deliver 0 0#64 true]

def nestedOutputs : List (Option DeliveredInterrupt) :=
  [none, some (.lapic 0x51), none, none, none, none, none, none, some (.lapic 0x62), none, none,
    some (.lapic 0x31)]

theorem run_refines_lapic_nested :
    ∃ d' a, run (step quietPic) oneCpu nestedVectors = some (d', nestedOutputs) ∧
      Trace (Controllers.Step oneCpu.resolveDestination (· % 2 ^ 32)) (fun _ => ⟨∅, ∅, 0⟩)
        nestedVectors nestedOutputs a ∧ ∀ cpu s, d'.state cpu = some s → s.Agrees (a cpu) := by
  have houtputs : (run (step quietPic) oneCpu nestedVectors).map (·.2) = some nestedOutputs := by
    decide +kernel
  obtain ⟨⟨d', outputs⟩, hrun, rfl⟩ := map_eq_some_iff.mp houtputs
  obtain ⟨a, htrace, hagrees⟩ := run_refines_lapic quietPic oneCpu oneCpu_reset nestedVectors
    (by decide +kernel) _ hrun
  exact ⟨d', a, hrun, htrace, hagrees⟩

/-- A vector is raised again while it is in service. -/
def raisedInService : List (Action Unit) :=
  [.setIrq 0 0x30, .deliver 0 0#64 true, .setIrq 0 0x30]

/-- It was delivered and has not ended, but it is not in service any more. -/
theorem raised_in_service_lost :
    ∃ d' outputs, run (step quietPic) oneCpu raisedInService = some (d', outputs) ∧
      ¬ ∃ a, Trace (Controllers.Step oneCpu.resolveDestination (· % 2 ^ 32)) (fun _ => ⟨∅, ∅, 0⟩)
        raisedInService outputs a ∧ ∀ cpu s, d'.state cpu = some s → s.Agrees (a cpu) := by
  obtain ⟨d', _, hrun, rfl, s, hs, hisr⟩ : ∃ d' outputs,
      run (step quietPic) oneCpu raisedInService = some (d', outputs) ∧
        outputs = [none, some (.lapic 0x30), none] ∧
        ∃ s, d'.state 0 = some s ∧ s.isr.mem 0x30 = false := by decide +kernel
  refine ⟨d', _, hrun, ?_⟩
  rintro ⟨a, ⟨a1, h1, a2, ⟨-, h2⟩, a3, h3, h4⟩, hagrees⟩
  have hmem : 0x30 ∈ (a 0).inService := by
    rw [← h4, h3, h2]
    simp [Controllers.raise, Controllers.on, Vectors.raise, Vectors.commit,
      resolveDestination, oneCpu]
  rw [← (hagrees 0 s hs).isr] at hmem
  rw [hmem] at hisr
  cases hisr

end LocalApicDevice

end Moose.Reindeer
