import Moose.Hyperv.Messages

/-!
# Offers and the threads that process them

After the initial offers, every offer of a channel spawns a thread of its own, which finds the offer
by its position in a shared list. A rescinded channel is taken out of that list, and the positions
behind it move. The messages come in interrupts, between any two steps of the threads, and the
interrupt handler takes write locks that a thread may hold for reading: then it never returns. A
thread that registers a driver takes such a lock with interrupts off, and never gets it while
another thread has the state for reading.

`OfferSystem.run_offers` says what has to be excluded for the threads to do their work. `none` is a
panic, or a lock that is never released.
-/

set_option autoImplicit false

namespace Moose.Hyperv

open List Option Lib

/-! ## The code -/

/-- Where a thread is in `offer_thread`. -/
inductive OfferPlace where
  | start
  /-- It holds the read locks of the state and of the offers. -/
  | reading
  /-- It has looked up the offer and holds no lock. -/
  | fetched (offer : Option Offer)
  /-- In `process_offer`; for a socket with the read lock of the state. -/
  | processing (offer : Offer)
  | done
deriving DecidableEq

/-- A thread with its argument. The offer it was spawned for, and whether that has been rescinded
since, are kept for the specification only. -/
structure OfferThread where
  offerIndex : Nat
  own : Offer
  rescinded : Bool := false
  place : OfferPlace := .start

structure OfferSystem where
  vmbus : HyperVState
  threads : List OfferThread := []

/-- A call of `process_offer`: by which thread, with which offer, and whether the thread's own offer
had been rescinded. -/
structure ProcessCall where
  thread : Nat
  offer : Offer
  rescinded : Bool

inductive OfferEvent where
  | offerChannel (offer : Offer)
  | rescindChannelOffer (posted : Bool) (channelId : Nat)
  | thread (k : Nat)

namespace OfferPlace

def holdsOffers : OfferPlace → Bool
  | .reading => true
  | _ => false

def holdsState : OfferPlace → Bool
  | .reading => true
  | .processing offer => offer.device = some .socket
  | _ => false

/-- The next step takes the state for writing, with interrupts off. -/
def registers : OfferPlace → Bool
  | .processing offer => offer.device = some .socket || offer.device = some .timeSync
  | _ => false

/-- `process_offer` has not been called yet. -/
def isBefore : OfferPlace → Bool
  | .start | .reading | .fetched _ => true
  | .processing _ | .done => false

end OfferPlace

namespace HyperVState

/-- The end of `process_offer`: a driver is registered if there is one for the device. -/
def register (v : HyperVState) (offer : Offer) : HyperVState :=
  let insert (device : Device) : HyperVState :=
    -- an identity that no other driver has
    let driver := { ident := (v.drivers.map Driver.ident).foldr max 0 + 1, device := device }
    { v with
      channelToDriverMap := Function.update v.channelToDriverMap offer.channelId (some driver)
      drivers := v.drivers ++ [driver] }
  match offer.device with
  | some .socket => insert .socket
  | some .timeSync => insert .timeSync
  | some .other | none => v

end HyperVState

namespace OfferSystem

def spawned (v v' : HyperVState) (offer : Offer) : List OfferThread :=
  (v'.offerThreads.drop v.offerThreads.length).map fun i => { offerIndex := i, own := offer }

def offerChannel (s : OfferSystem) (offer : Offer) : Option OfferSystem :=
  if s.threads.any (·.place.holdsOffers) then none
  else some ⟨s.vmbus.offerChannel offer,
    s.threads ++ spawned s.vmbus (s.vmbus.offerChannel offer) offer⟩

def markRescinded (channelId : Nat) (t : OfferThread) : OfferThread :=
  if t.own.channelId = channelId then { t with rescinded := true } else t

def rescindChannelOffer (s : OfferSystem) (posted : Bool) (channelId : Nat) : Option OfferSystem :=
  if s.threads.any (·.place.holdsState) then none
  else (s.vmbus.rescindChannelOffer posted channelId).map fun v =>
    ⟨v, s.threads.map (markRescinded channelId)⟩

def moveTo (s : OfferSystem) (k : Nat) (t : OfferThread) (place : OfferPlace) : OfferSystem :=
  { s with threads := s.threads.set k { t with place := place } }

/-- A thread other than `k` holds the state. -/
def othersHoldState (s : OfferSystem) (k : Nat) : Bool :=
  (s.threads.eraseIdx k).any (·.place.holdsState)

/-- The next step of `offer_thread`. -/
def threadStep (s : OfferSystem) (k : Nat) : Option (OfferSystem × Option ProcessCall) := do
  let t ← s.threads[k]?
  match t.place with
  | .start => some (s.moveTo k t .reading, none)
  | .reading => some (s.moveTo k t (.fetched s.vmbus.offers[t.offerIndex]?), none)
  | .fetched none => none
  | .fetched (some offer) =>
    some (s.moveTo k t (.processing offer), some ⟨k, offer, t.rescinded⟩)
  | .processing offer =>
    if t.place.registers && s.othersHoldState k then none
    else some ({ s with vmbus := s.vmbus.register offer }.moveTo k t .done, none)
  | .done => none

def step (s : OfferSystem) : OfferEvent → Option (OfferSystem × Option ProcessCall)
  | .offerChannel offer => (s.offerChannel offer).map (·, none)
  | .rescindChannelOffer posted channelId => (s.rescindChannelOffer posted channelId).map (·, none)
  | .thread k => s.threadStep k

/-! ## What has to be excluded -/

/-- The thread does not depend on the channel that is rescinded: it has not looked for an offer at
or behind one that is removed, and does not hold the channel's offer. -/
def Unaffected (offers : List Offer) (channelId : Nat) (t : OfferThread) : Prop :=
  match t.place with
  | .start => ∀ offer ∈ offers.take (t.offerIndex + 1), offer.channelId ≠ channelId
  | .fetched (some offer) => offer.channelId ≠ channelId
  | _ => True

/-- No message comes while a thread holds a lock the handler needs; a channel is rescinded when it
has a socket and no thread that is still to process an offer depends on it. A thread registers its
driver while no other one holds the state: with interrupts off it would wait for ever. -/
def EventOk (s : OfferSystem) : OfferEvent → Prop
  | .offerChannel _ => ∀ t ∈ s.threads, t.place.holdsOffers = false
  | .rescindChannelOffer posted channelId =>
    posted = true ∧ s.vmbus.hasSocket channelId = true ∧
      ∀ t ∈ s.threads, t.place.holdsState = false ∧ Unaffected s.vmbus.offers channelId t
  | .thread k => ∃ t, s.threads[k]? = some t ∧ t.place ≠ .done ∧
    (t.place.registers = true → s.othersHoldState k = false)

/-! ## The invariant -/

/-- A thread that has not called `process_offer` yet finds its own offer, or has found it, and that
offer has not been rescinded. -/
def Good (offers : List Offer) (t : OfferThread) : Prop :=
  match t.place with
  | .start | .reading => offers[t.offerIndex]? = some t.own ∧ t.rescinded = false
  | .fetched offer => offer = some t.own ∧ t.rescinded = false
  | .processing _ | .done => True

structure Inv (s : OfferSystem) : Prop where
  delivered : s.vmbus.allOffersDelivered = true
  good : ∀ t ∈ s.threads, Good s.vmbus.offers t

/-- How often a thread has called `process_offer`, by its place. -/
def called (s : OfferSystem) (k : Nat) : Nat :=
  match s.threads[k]? with
  | some t => if t.place.isBefore then 0 else 1
  | none => 0

def offered : OfferEvent → List Offer
  | .offerChannel offer => [offer]
  | .rescindChannelOffer _ _ | .thread _ => []

structure Advances (s : OfferSystem) (event : OfferEvent) (s' : OfferSystem)
    (o : Option ProcessCall) :
    Prop where
  inv : s'.Inv
  owns : s'.threads.map OfferThread.own = s.threads.map OfferThread.own ++ offered event
  count : ∀ k, o.toList.countP (·.thread = k) + s.called k = s'.called k
  calls : ∀ call ∈ o, call.rescinded = false ∧
    (s.threads.map OfferThread.own)[call.thread]? = some call.offer

variable {s : OfferSystem}

theorem Good.append {offers : List Offer} {t : OfferThread} (h : Good offers t) (offer : Offer) :
    Good (offers ++ [offer]) t := by
  have hkeep : ∀ {i : Nat}, offers[i]? = some t.own → (offers ++ [offer])[i]? = some t.own := by
    intro i hi
    rw [List.getElem?_append_left (List.getElem?_eq_some_iff.mp hi).1, hi]
  unfold Good at h ⊢
  cases hp : t.place with
  | start | reading =>
    rw [hp] at h
    exact ⟨hkeep h.1, h.2⟩
  | fetched offer =>
    rw [hp] at h
    exact h
  | processing offer | done => trivial

/-- An offer spawns a thread that will find it. -/
theorem Inv.offerChannel (h : s.Inv) {offer : Offer} (hok : s.EventOk (.offerChannel offer)) :
    ∃ s', s.step (.offerChannel offer) = some (s', none) ∧
      s.Advances (.offerChannel offer) s' none := by
  have hfree : s.threads.any (·.place.holdsOffers) = false := by
    rw [List.any_eq_false]
    intro t ht
    rw [hok t ht]
    exact nofun
  have hvmbus : s.vmbus.offerChannel offer =
      { s.vmbus with
        offers := s.vmbus.offers ++ [offer]
        offerThreads := s.vmbus.offerThreads ++ [s.vmbus.offers.length] } := by
    unfold HyperVState.offerChannel
    simp [h.delivered]
  have hspawned : spawned s.vmbus (s.vmbus.offerChannel offer) offer =
      [{ offerIndex := s.vmbus.offers.length, own := offer }] := by
    rw [hvmbus]
    simp [spawned]
  have hstep : s.step (.offerChannel offer) = some
      (⟨s.vmbus.offerChannel offer,
        s.threads ++ [{ offerIndex := s.vmbus.offers.length, own := offer }]⟩, none) := by
    simp [OfferSystem.step, OfferSystem.offerChannel, hfree, hspawned]
  refine ⟨_, hstep, ⟨?_, ?_⟩, by simp [offered], ?_, by simp⟩
  · rw [hvmbus]
    exact h.delivered
  · intro t ht
    rw [hvmbus]
    rcases List.mem_append.mp ht with ht | ht
    · exact (h.good t ht).append offer
    cases List.mem_singleton.mp ht
    exact ⟨by simp, rfl⟩
  · intro k
    simp only [Option.toList_none, List.countP_nil, Nat.zero_add, called]
    rcases Nat.lt_trichotomy k s.threads.length with hlt | rfl | hgt
    · rw [List.getElem?_append_left hlt]
    · simp [OfferPlace.isBefore]
    · rw [List.getElem?_eq_none (Nat.le_of_lt hgt), List.getElem?_eq_none (by simp; omega)]

/-- Positions before everything that is removed stay. -/
theorem getElem?_filter_of_take {α : Type} {p : α → Bool} : ∀ {l : List α} {i : Nat},
    (∀ a ∈ l.take (i + 1), p a = true) → (l.filter p)[i]? = l[i]? := by
  intro l
  induction l with
  | nil => simp
  | cons a l ih =>
    intro i h
    have ha : p a = true := h a (by simp)
    rw [filter_cons_of_pos ha]
    cases i with
    | zero => rfl
    | succ i =>
      rw [getElem?_cons_succ, getElem?_cons_succ]
      exact ih fun b hb => h b (by rw [take_succ_cons]; exact mem_cons_of_mem a hb)

theorem markRescinded_keeps (channelId : Nat) (t : OfferThread) :
    (markRescinded channelId t).place = t.place ∧ (markRescinded channelId t).own = t.own ∧
      (markRescinded channelId t).offerIndex = t.offerIndex ∧
      (t.own.channelId ≠ channelId → (markRescinded channelId t).rescinded = t.rescinded) := by
  unfold markRescinded
  by_cases h : t.own.channelId = channelId
  · rw [if_pos h]
    exact ⟨rfl, rfl, rfl, fun hne => absurd h hne⟩
  rw [if_neg h]
  exact ⟨rfl, rfl, rfl, fun _ => rfl⟩

theorem Good.rescind {offers : List Offer} {channelId : Nat} {t : OfferThread} (h : Good offers t)
    (hfree : t.place.holdsState = false) (hun : Unaffected offers channelId t) :
    Good (offers.filter fun offer => offer.channelId ≠ channelId) (markRescinded channelId t) := by
  obtain ⟨hplace, hown, hindex, hflag⟩ := markRescinded_keeps channelId t
  unfold Good Unaffected at *
  rw [hplace, hown, hindex]
  cases hp : t.place with
  | start =>
    simp only [hp] at h hun ⊢
    have hmem : t.own ∈ offers.take (t.offerIndex + 1) := by
      obtain ⟨hlt, hget⟩ := List.getElem?_eq_some_iff.mp h.1
      exact List.mem_take_iff_getElem.mpr ⟨t.offerIndex, by omega, hget⟩
    rw [hflag (hun _ hmem)]
    refine ⟨?_, h.2⟩
    rw [getElem?_filter_of_take (fun offer hoffer => by simpa using hun offer hoffer), h.1]
  | reading =>
    rw [hp] at hfree
    cases hfree
  | fetched offer =>
    simp only [hp] at h hun ⊢
    rw [h.1] at hun
    rw [hflag hun]
    exact h
  | processing offer | done => trivial

theorem Inv.rescindChannelOffer (h : s.Inv) {posted : Bool} {channelId : Nat}
    (hok : s.EventOk (.rescindChannelOffer posted channelId)) :
    ∃ s', s.step (.rescindChannelOffer posted channelId) = some (s', none) ∧
      s.Advances (.rescindChannelOffer posted channelId) s' none := by
  obtain ⟨rfl, hdriver, hthreads⟩ := hok
  have hfree : s.threads.any (·.place.holdsState) = false := by
    rw [List.any_eq_false]
    intro t ht
    rw [(hthreads t ht).1]
    exact nofun
  have hvmbus : s.vmbus.rescindChannelOffer true channelId = some (s.vmbus.withdraw channelId) := by
    unfold HyperVState.hasSocket at hdriver
    cases hd : s.vmbus.channelToDriverMap channelId with
    | none => simp [hd] at hdriver
    | some d =>
      obtain ⟨ident, device, lock⟩ := d
      simp only [hd, Bool.and_eq_true, decide_eq_true_eq] at hdriver
      obtain ⟨rfl, rfl⟩ := hdriver
      simp [HyperVState.rescindChannelOffer, hd]
  have hstep : s.step (.rescindChannelOffer true channelId) = some
      (⟨s.vmbus.withdraw channelId, s.threads.map (markRescinded channelId)⟩, none) := by
    simp [OfferSystem.step, OfferSystem.rescindChannelOffer, hfree, hvmbus]
  refine ⟨_, hstep, ⟨h.delivered, ?_⟩, ?_, ?_, by simp⟩
  · intro t ht
    obtain ⟨u, hu, rfl⟩ := List.mem_map.mp ht
    exact (h.good u hu).rescind (hthreads u hu).1 (hthreads u hu).2
  · rw [offered, List.append_nil, List.map_map]
    exact List.map_congr_left fun t _ => (markRescinded_keeps channelId t).2.1
  intro k
  simp only [Option.toList_none, List.countP_nil, Nat.zero_add, called, List.getElem?_map]
  cases s.threads[k]? with
  | none => rfl
  | some t =>
    simp [(markRescinded_keeps channelId t).1]

/-- A thread moves on: the others keep what they have, and so does the list of own offers. -/
theorem advances_moveTo (place : OfferPlace) {v : HyperVState} {k : Nat} {t : OfferThread}
    (h : s.Inv) (ht : s.threads[k]? = some t) (hdelivered : v.allOffersDelivered = true)
    (hoffers : v.offers = s.vmbus.offers) (hgood : Good v.offers { t with place := place })
    {o : Option ProcessCall} (hcount : o.toList.length + (if t.place.isBefore then 0 else 1) =
      if place.isBefore then 0 else 1)
    (hcalls : ∀ call ∈ o, call.thread = k ∧ call.rescinded = false ∧ call.offer = t.own) :
    s.Advances (.thread k) ({ s with vmbus := v }.moveTo k t place) o := by
  obtain ⟨hk, hget⟩ := List.getElem?_eq_some_iff.mp ht
  have howns : (s.threads.set k { t with place := place }).map OfferThread.own =
      s.threads.map OfferThread.own := by
    apply List.ext_getElem
    · simp
    intro i h1 h2
    rw [List.getElem_map, List.getElem_map, List.getElem_set]
    split
    next heq =>
      subst heq
      rw [hget]
    · rfl
  refine ⟨⟨hdelivered, ?_⟩, ?_, ?_, ?_⟩
  · intro u hu
    rcases List.mem_or_eq_of_mem_set hu with hu | rfl
    · have := h.good u hu
      rw [← hoffers] at this
      exact this
    · exact hgood
  · rw [offered, List.append_nil]
    exact howns
  · intro j
    unfold called moveTo
    by_cases hj : j = k
    · subst hj
      have hall : o.toList.countP (·.thread = j) = o.toList.length := by
        rw [List.countP_eq_length]
        intro call hcall
        simpa using (hcalls call (Option.mem_toList.mp hcall)).1
      rw [hall, ht, List.getElem?_set_self hk]
      exact hcount
    · have hnone : o.toList.countP (·.thread = j) = 0 := by
        rw [List.countP_eq_zero]
        intro call hcall
        have := (hcalls call (Option.mem_toList.mp hcall)).1
        simp [this, Ne.symm hj]
      rw [hnone, Nat.zero_add, List.getElem?_set_ne (Ne.symm hj)]
  · intro call hcall
    obtain ⟨hthread, hrescinded, hoffer⟩ := hcalls call hcall
    refine ⟨hrescinded, ?_⟩
    rw [hthread, List.getElem?_map, ht, hoffer]
    rfl

theorem Inv.thread (h : s.Inv) {k : Nat} (hok : s.EventOk (.thread k)) :
    ∃ s' o, s.step (.thread k) = some (s', o) ∧ s.Advances (.thread k) s' o := by
  obtain ⟨t, ht, hdone, hregisters⟩ := hok
  have hgood := h.good t (mem_of_getElem? ht)
  simp only [OfferSystem.step, threadStep]
  rw [bind_of_eq_some ht]
  unfold Good at hgood
  cases hp : t.place with
  | start =>
    rw [hp] at hgood
    exact ⟨_, _, rfl, advances_moveTo .reading h ht h.delivered rfl hgood (by rw [hp]; rfl)
      (by simp)⟩
  | reading =>
    rw [hp] at hgood
    exact ⟨_, _, rfl, advances_moveTo (.fetched _) h ht h.delivered rfl hgood (by rw [hp]; rfl)
      (by simp)⟩
  | fetched offer =>
    rw [hp] at hgood
    obtain ⟨rfl, hrescinded⟩ := hgood
    refine ⟨_, _, rfl, advances_moveTo (.processing _) h ht h.delivered rfl trivial
      (by rw [hp]; rfl) ?_⟩
    rintro call ⟨⟩
    exact ⟨rfl, hrescinded, rfl⟩
  | processing offer =>
    have hregister : (s.vmbus.register offer).allOffersDelivered = true ∧
        (s.vmbus.register offer).offers = s.vmbus.offers := by
      unfold HyperVState.register
      cases offer.device with
      | none => exact ⟨h.delivered, rfl⟩
      | some device => cases device <;> exact ⟨h.delivered, rfl⟩
    have hfree : ¬ (OfferPlace.registers (.processing offer) && s.othersHoldState k) = true := by
      intro hboth
      obtain ⟨hr, hother⟩ := Bool.and_eq_true_iff.mp hboth
      rw [hregisters (by rw [hp, hr])] at hother
      cases hother
    simp only [if_neg hfree]
    exact ⟨_, _, rfl, advances_moveTo .done h ht hregister.1 hregister.2 trivial (by rw [hp]; rfl)
      (by simp)⟩
  | done => exact absurd hp hdone

theorem Inv.step (h : s.Inv) {event : OfferEvent} (hok : s.EventOk event) :
    ∃ s' o, s.step event = some (s', o) ∧ s.Advances event s' o := by
  cases event with
  | offerChannel offer =>
    obtain ⟨s', hstep, hadv⟩ := h.offerChannel hok
    exact ⟨s', none, hstep, hadv⟩
  | rescindChannelOffer posted channelId =>
    obtain ⟨s', hstep, hadv⟩ := h.rescindChannelOffer hok
    exact ⟨s', none, hstep, hadv⟩
  | thread k => exact h.thread hok

instance (offers : List Offer) (channelId : Nat) (t : OfferThread) :
    Decidable (Unaffected offers channelId t) := by
  unfold Unaffected
  split <;> infer_instance

instance (s : OfferSystem) (event : OfferEvent) : Decidable (s.EventOk event) :=
  match event with
  | .offerChannel _ => inferInstanceAs (Decidable (∀ t ∈ s.threads, _))
  | .rescindChannelOffer _ _ => inferInstanceAs (Decidable (_ ∧ _ ∧ ∀ t ∈ s.threads, _))
  | .thread k =>
    match h : s.threads[k]? with
    | none => isFalse (by simp [EventOk, h])
    | some t => decidable_of_iff
        (t.place ≠ .done ∧ (t.place.registers = true → s.othersHoldState k = false))
        (by simp [EventOk, h])

/-- Two offers, interleaved; the first channel is rescinded while the second thread works on its
offer, and a third one is offered. -/
def someOffers : List OfferEvent :=
  [.offerChannel ⟨1, some .socket⟩, .thread 0, .thread 0, .offerChannel ⟨2, some .timeSync⟩,
    .thread 0, .thread 0, .thread 1, .thread 1, .rescindChannelOffer true 1, .thread 1,
    .offerChannel ⟨3, none⟩, .thread 2, .thread 2, .thread 2]

/-- The first channel is rescinded before the second thread has looked up its offer. -/
def rescindedBeforeLookup : List OfferEvent :=
  [.offerChannel ⟨1, some .socket⟩, .thread 0, .thread 0, .thread 0, .thread 0,
    .offerChannel ⟨2, some .timeSync⟩, .rescindChannelOffer true 1, .thread 1, .thread 1]

end OfferSystem
end Moose.Hyperv
