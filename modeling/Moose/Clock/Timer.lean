import Mathlib.Data.Prod.Lex
import Moose.RbTree.Refine

/-!
# The timer queue and the one-shot deadline

`clock/timer.rs` with the timer interrupt handler of `local_apic.rs`. Timers wait in a red-black
tree ordered by expiry; the local APIC counts down to one of them. `add_timer` is meant to reprogram
the count when the new timer becomes the nearest one, but it compares the wrong way round: it
reprograms when the new timer is *later* than the nearest. So a queued timer can wait for a later
one. Cancelling never needs an earlier deadline; adding a timer and the interrupt leave the count
early enough under the conditions of `CallOk`.

The interrupt handler empties the queue of what has expired, and a periodic timer that has fallen
behind fires several times before it leaves the past. What it is queued for in the end is known
beforehand (`Timer.nextAfter`), so the condition on the interrupt is about the timers that are
queued when it comes.

Times are nanoseconds since boot. `none` is a panic, or a loop of the handler that does not end.
-/

set_option autoImplicit false

namespace Moose.Clock

open Option Lib RbTree

/-- Sort key: expiry, then order of registration. -/
structure TimerQueueKey where
  expiresAt : Nat
  order : Nat

instance : LinearOrder TimerQueueKey :=
  LinearOrder.lift' (fun k => toLex (k.expiresAt, k.order)) (by
    intro a b h
    cases a
    cases b
    simpa using h)

theorem TimerQueueKey.expiresAt_le {a b : TimerQueueKey} (h : a < b) :
    a.expiresAt ≤ b.expiresAt := by
  have h : toLex (a.expiresAt, a.order) < toLex (b.expiresAt, b.order) := h
  rcases (Prod.Lex.toLex_lt_toLex).mp h with h | h
  · exact h.le
  · exact h.1.le

/-- What is done when a timer fires; the callbacks are those of the kernel. -/
inductive TimerAction (Callback : Type) where
  | executeCallback (function : Callback)
  | reschedule
  | wakeUp (processId threadId : Nat)
  deriving DecidableEq

structure Timer (Callback : Type) where
  expiresAt : Nat
  isPeriodic : Bool
  interval : Option Nat
  action : TimerAction Callback
  deriving DecidableEq

/-- The first time after `now` a queued timer is due for: a periodic one counts on by its interval,
up to the end of the clock. -/
def Timer.nextAfter {Callback : Type} (t : Timer Callback) (now : Nat) : Option Nat :=
  if now < t.expiresAt then some t.expiresAt
  else if t.isPeriodic then
    t.interval.map fun interval =>
      Nat.min (t.expiresAt + ((now - t.expiresAt) / interval + 1) * interval) (2 ^ 64 - 1)
  else none

theorem Timer.nextAfter_of_lt {Callback : Type} {t : Timer Callback} {now : Nat}
    (h : now < t.expiresAt) : t.nextAfter now = some t.expiresAt := if_pos h

/-- Firing once does not change what a periodic timer is due for. -/
theorem Timer.nextAfter_reinserted {Callback : Type} {t : Timer Callback} {now interval : Nat}
    (hperiodic : t.isPeriodic = true) (hinterval : t.interval = some interval)
    (hexpired : t.expiresAt ≤ now) :
    ({ t with expiresAt := Nat.min (t.expiresAt + interval) (2 ^ 64 - 1) } :
      Timer Callback).nextAfter now = t.nextAfter now := by
  obtain ⟨expires, isPeriodic, interval', action⟩ := t
  obtain rfl : isPeriodic = true := hperiodic
  obtain rfl : interval' = some interval := hinterval
  have hexpired : expires ≤ now := hexpired
  simp only [nextAfter, if_neg (Nat.not_lt.mpr hexpired), if_true, Option.map_some]
  generalize 2 ^ 64 - 1 = last
  rcases Nat.eq_zero_or_pos interval with rfl | hpos
  · -- it stays where it is
    have hmin : Nat.min expires last ≤ now := (Nat.min_le_left _ _).trans hexpired
    simp only [Nat.add_zero, Nat.mul_zero, if_neg (Nat.not_lt.mpr hmin)]
    exact congrArg some (Nat.min_eq_left (Nat.min_le_right _ _))
  have hcount := Nat.div_add_mod (now - expires) interval
  have hrest := Nat.mod_lt (now - expires) hpos
  have hmul : ((now - expires) / interval + 1) * interval =
      interval * ((now - expires) / interval) + interval := by
    rw [Nat.add_mul, Nat.one_mul, Nat.mul_comm]
  rcases Nat.lt_or_ge last (expires + interval) with hlast | hlast
  · -- the clock ends before it
    have hmin : Nat.min (expires + interval) last = last := Nat.min_eq_right hlast.le
    have hthen : Nat.min (expires + ((now - expires) / interval + 1) * interval) last = last :=
      Nat.min_eq_right (by omega)
    have hstay : ∀ n, Nat.min (last + n) last = last := fun n => Nat.min_eq_right (by omega)
    rw [hmin, hthen, hstay, ite_self]
  have hmin : Nat.min (expires + interval) last = expires + interval := Nat.min_eq_left hlast
  rw [hmin]
  by_cases hnext : now < expires + interval
  · have hzero : (now - expires) / interval = 0 := Nat.div_eq_of_lt (by omega)
    rw [if_pos hnext, hzero, Nat.zero_add, Nat.one_mul, hmin]
  · have hsucc : (now - expires) / interval = (now - (expires + interval)) / interval + 1 := by
      rw [← Nat.sub_sub, Nat.div_eq_sub_div hpos (by omega)]
    have hsame : expires + interval + ((now - (expires + interval)) / interval + 1) * interval =
        expires + ((now - expires) / interval + 1) * interval := by
      rw [hsucc, Nat.add_assoc, Nat.succ_mul (_ + 1), Nat.add_comm interval]
    rw [if_neg hnext, hsame]

variable {Idx Callback : Type} [DecidableEq Idx]
variable {A : GenArena Idx (Node Idx TimerQueueKey (Timer Callback))}

structure HrTimer (A : GenArena Idx (Node Idx TimerQueueKey (Timer Callback))) where
  queue : RedBlackTree A
  nextOrder : Nat

namespace HrTimer

def new : HrTimer A := { queue := .new, nextOrder := 0 }

section

variable (h : HrTimer A)

def nextExpiry : Option (Option Nat) := do
  some ((← h.queue.min).map TimerQueueKey.expiresAt)

def insertTimer (timer : Timer Callback) : Option (HrTimer A × Idx) := do
  let (queue, handle) ← h.queue.insert ⟨timer.expiresAt, h.nextOrder⟩ timer
  some ({ queue := queue, nextOrder := (h.nextOrder + 1) % 2 ^ 64 }, handle)

def removeKey : Option TimerQueueKey → Option (HrTimer A × Bool)
  | none => some (h, false)
  | some key => do
    let (queue, old) ← h.queue.remove key
    some ({ h with queue := queue }, old.isSome)

def findFirstKeyAtExpiry (expires : Nat) : Option (Option TimerQueueKey) := do
  some (((← h.queue.forEachInOrder).map Prod.fst).find? fun key => key.expiresAt = expires)

def queueKeyOf (handle : Idx) : Option TimerQueueKey :=
  (h.queue.arenaGet handle).map fun node => node.key

def removeTimer (expires : Nat) : Option (HrTimer A × Bool) := do
  h.removeKey (← h.findFirstKeyAtExpiry expires)

def cancel (handle : Idx) : Option (HrTimer A × Bool) :=
  h.removeKey (h.queueKeyOf handle)

def reinsertPeriodic (fired : Timer Callback) : Option (HrTimer A) :=
  if fired.isPeriodic then
    match fired.interval with
    -- `debug_assert!(false, ..)`
    | none => none
    | some interval => do
      let nextExpires := Nat.min (fired.expiresAt + interval) (2 ^ 64 - 1)
      let (h, _) ← h.insertTimer { fired with expiresAt := nextExpires }
      some h
  else some h

def pollExpired (now : Nat) : Option (HrTimer A × Option (Timer Callback)) := do
  match ← h.queue.min with
  | none => some (h, none)
  | some key =>
    if key.expiresAt ≤ now then
      let (queue, timer) ← h.queue.remove key
      match timer with
      | none => some ({ h with queue := queue }, none)
      | some timer =>
        let h ← reinsertPeriodic { h with queue := queue } timer
        some (h, some timer)
    else some (h, none)

/-- The `while let` of the interrupt handler. It does not end if a periodic timer does not leave
the past. -/
def drain (now : Nat) : Nat → HrTimer A → Option (HrTimer A × List (Timer Callback))
  | 0, _ => none
  | fuel + 1, h => do
    match ← h.pollExpired now with
    | (h, none) => some (h, [])
    | (h, some timer) =>
      let (h, timers) ← drain now fuel h
      some (h, timer :: timers)

/-! ## The queue stands for a map -/

/-- The queue stands for the map `m`, in which every timer is under its own expiry. -/
def Holds (m : OrdMap Idx TimerQueueKey (Timer Callback)) : Prop :=
  (∃ T, Refines h.queue m T) ∧
    ∀ key entry, m key = some entry → entry.2.expiresAt = key.expiresAt

/-- Every queued timer has the property `P`. -/
def Forall (P : Timer Callback → Prop) : Prop :=
  match h.queue.forEachInOrder with
  | none => True
  | some L => ∀ entry ∈ L,
    match h.queue.get entry.1 with
    | some (some timer) => P timer
    | some none | none => True

end

variable {h h' : HrTimer A} {m : OrdMap Idx TimerQueueKey (Timer Callback)}

omit [DecidableEq Idx] in
theorem holds_new : (new : HrTimer A).Holds fun _ => none :=
  ⟨⟨.nil, new_refines⟩, fun _ _ hentry => by cases hentry⟩

section

variable (hm : h.Holds m)
include hm

theorem Holds.insertTimer {timer : Timer Callback} {i : Idx}
    (hs : h.insertTimer timer = some (h', i)) :
    h'.Holds (Function.update m ⟨timer.expiresAt, h.nextOrder⟩ (some (i, timer))) := by
  obtain ⟨⟨T, hmodels, hroot, rfl⟩, hkeyed⟩ := hm
  obtain ⟨queue, j, T', hins, hT', hmodels'⟩ :=
    hmodels.insert hroot ⟨timer.expiresAt, h.nextOrder⟩ timer
  simp only [HrTimer.insertTimer, hins] at hs
  cases hs
  refine ⟨⟨T', hmodels', hT'.root_black hroot, (toMap_inserted hT' hmodels.sorted).symm⟩, ?_⟩
  intro key entry hentry
  by_cases hkey : key = ⟨timer.expiresAt, h.nextOrder⟩
  · subst hkey
    rw [Function.update_self] at hentry
    cases hentry
    rfl
  · rw [Function.update_of_ne hkey] at hentry
    exact hkeyed key entry hentry

omit [DecidableEq Idx] hm in
/-- What is in a map without `key` was in the map. -/
theorem update_none_eq_some {β : Type} {m : TimerQueueKey → Option β} {key k : TimerQueueKey}
    {entry : β} (hentry : Function.update m key none k = some entry) : m k = some entry := by
  by_cases hkey : k = key
  · subst hkey
    rw [Function.update_self] at hentry
    cases hentry
  · rwa [Function.update_of_ne hkey] at hentry

theorem Holds.remove (key : TimerQueueKey) :
    ∃ queue, h.queue.remove key = some (queue, (m key).map Prod.snd) ∧
      Holds { h with queue := queue } (Function.update m key none) := by
  obtain ⟨queue, out, m', hstep, hmap, T', hT'⟩ := step_refines (.remove key) hm.1
  simp only [RbTree.step, bind_eq_some, some.injEq] at hstep
  obtain ⟨⟨t, old⟩, hrem, heq⟩ := hstep
  cases heq
  obtain ⟨rfl, rfl⟩ := hmap
  exact ⟨t, hrem, ⟨T', hT'⟩, fun k entry hentry => hm.2 k entry (update_none_eq_some hentry)⟩

theorem Holds.forall {P : Timer Callback → Prop} (hall : h.Forall P) {key : TimerQueueKey}
    {entry : Idx × Timer Callback} (hentry : m key = some entry) : P entry.2 := by
  obtain ⟨T, hT⟩ := hm.1
  obtain ⟨L, hL, -, hkeys, -⟩ := hT.answers.walk
  have hget := hT.answers.get key
  have hkey : key ∈ L.map Prod.fst := (hkeys key).mpr (hentry ▸ rfl)
  obtain ⟨e, he, rfl⟩ := List.mem_map.mp hkey
  simp only [Forall, hL] at hall
  have := hall e he
  rw [hget, hentry] at this
  exact this

/-- The least key belongs to an entry, and no entry expires before it. -/
theorem Holds.min : (h.queue.min = some none ∧ ∀ key, m key = none) ∨
      ∃ first entry, h.queue.min = some (some first) ∧ m first = some entry ∧
        ∀ key, (m key).isSome → first.expiresAt ≤ key.expiresAt := by
  obtain ⟨T, hT⟩ := hm.1
  obtain ⟨L, -, hsorted, hkeys, -, hmin, -⟩ := hT.answers.walk
  cases hL : L.map Prod.fst with
  | nil =>
    refine .inl ⟨by rw [hmin, hL, List.head?_nil], fun key => ?_⟩
    have : ¬ (m key).isSome := by
      rw [← hkeys, hL]
      exact List.not_mem_nil
    simpa using this
  | cons first rest =>
    rw [hL] at hsorted hkeys
    obtain ⟨entry, hentry⟩ := Option.isSome_iff_exists.mp ((hkeys first).mp List.mem_cons_self)
    refine .inr ⟨first, entry, by rw [hmin, hL, List.head?_cons], hentry, fun key hkey => ?_⟩
    rcases List.mem_cons.mp ((hkeys key).mpr hkey) with rfl | hkey
    · exact Nat.le_refl _
    · exact TimerQueueKey.expiresAt_le ((List.pairwise_cons.mp hsorted).1 key hkey)

/-- The nearest expiry belongs to an entry, and no entry expires before it. -/
theorem Holds.nextExpiry : (h.nextExpiry = some none ∧ ∀ key, m key = none) ∨
      ∃ next, h.nextExpiry = some (some next) ∧
        (∃ key, (m key).isSome ∧ key.expiresAt = next) ∧
        ∀ key, (m key).isSome → next ≤ key.expiresAt := by
  rcases hm.min with ⟨hmin, hempty⟩ | ⟨first, entry, hmin, hentry, hleast⟩
  · exact .inl ⟨by simp [HrTimer.nextExpiry, hmin], hempty⟩
  · exact .inr ⟨first.expiresAt, by simp [HrTimer.nextExpiry, hmin],
      ⟨first, hentry ▸ rfl, rfl⟩, hleast⟩

theorem Holds.removeKey {key : Option TimerQueueKey} {removed : Bool}
    (hs : h.removeKey key = some (h', removed)) :
    ∃ m', h'.Holds m' ∧ ∀ k, (m' k).isSome → (m k).isSome := by
  cases key with
  | none =>
    cases hs
    exact ⟨m, hm, fun _ hk => hk⟩
  | some key =>
    obtain ⟨queue, hrem, hm'⟩ := hm.remove key
    simp only [HrTimer.removeKey, hrem] at hs
    cases hs
    refine ⟨_, hm', fun k hk => ?_⟩
    obtain ⟨entry, hentry⟩ := Option.isSome_iff_exists.mp hk
    exact update_none_eq_some hentry ▸ rfl

end

/-! ## What the interrupt handler leaves -/

/-- Every timer of `m'` is one of `m`, as far as the time after `now` is concerned. -/
def Leaves (now : Nat) (m m' : OrdMap Idx TimerQueueKey (Timer Callback)) : Prop :=
  ∀ key' entry', m' key' = some entry' →
    ∃ key entry, m key = some entry ∧ entry.2.nextAfter now = entry'.2.nextAfter now

omit [DecidableEq Idx] in
theorem Leaves.refl (now : Nat) (m : OrdMap Idx TimerQueueKey (Timer Callback)) :
    Leaves now m m := fun key entry hentry => ⟨key, entry, hentry, rfl⟩

omit [DecidableEq Idx] in
theorem Leaves.trans {now : Nat} {m1 m2 m3 : OrdMap Idx TimerQueueKey (Timer Callback)}
    (h1 : Leaves now m1 m2) (h2 : Leaves now m2 m3) : Leaves now m1 m3 := by
  intro key3 entry3 hentry3
  obtain ⟨key2, entry2, hentry2, heq2⟩ := h2 key3 entry3 hentry3
  obtain ⟨key1, entry1, hentry1, heq1⟩ := h1 key2 entry2 hentry2
  exact ⟨key1, entry1, hentry1, heq1.trans heq2⟩

/-- A timer that has fired is queued again for the same time after `now`, or not at all. -/
theorem Holds.reinsertPeriodic {key : TimerQueueKey} {entry : Idx × Timer Callback} {now : Nat}
    (hm : h.Holds (Function.update m key none)) (hentry : m key = some entry)
    (hexpired : entry.2.expiresAt ≤ now) (hs : h.reinsertPeriodic entry.2 = some h') :
    ∃ m', h'.Holds m' ∧ Leaves now m m' := by
  have hrest : Leaves now m (Function.update m key none) :=
    fun key entry hentry => ⟨key, entry, update_none_eq_some hentry, rfl⟩
  unfold HrTimer.reinsertPeriodic at hs
  split at hs
  next hperiodic =>
    split at hs
    · cases hs
    next interval hinterval =>
    obtain ⟨⟨h1, i⟩, hins, hs⟩ := bind_eq_some.mp hs
    cases hs
    refine ⟨_, hm.insertTimer hins, ?_⟩
    intro key' entry' hentry'
    by_cases hkey : key' =
        ⟨Nat.min (entry.2.expiresAt + interval) (2 ^ 64 - 1), h.nextOrder⟩
    · subst hkey
      rw [Function.update_self] at hentry'
      cases hentry'
      exact ⟨key, entry, hentry, (Timer.nextAfter_reinserted hperiodic hinterval hexpired).symm⟩
    · rw [Function.update_of_ne hkey] at hentry'
      exact hrest key' entry' hentry'
  · cases hs
    exact ⟨_, hm, hrest⟩

/-- One round: nothing is due for another time than before, and when no timer fires all that is left
lies after `now`. -/
theorem Holds.pollExpired (hm : h.Holds m) {now : Nat} {timer : Option (Timer Callback)}
    (hs : h.pollExpired now = some (h', timer)) :
    ∃ m', h'.Holds m' ∧ Leaves now m m' ∧
      (timer = none → ∀ key, (m' key).isSome → now < key.expiresAt) := by
  unfold HrTimer.pollExpired at hs
  rcases hm.min with ⟨hmin, hempty⟩ | ⟨first, entry, hmin, hentry, hleast⟩
  · simp only [hmin, some_bind] at hs
    cases hs
    refine ⟨m, hm, Leaves.refl now m, fun _ key hkey => ?_⟩
    rw [hempty key] at hkey
    cases hkey
  simp only [hmin, some_bind] at hs
  split at hs
  next hexpired =>
    obtain ⟨queue, hrem, hm'⟩ := hm.remove first
    simp only [hrem, hentry, Option.map_some, some_bind] at hs
    obtain ⟨h1, hre, hs⟩ := bind_eq_some.mp hs
    cases hs
    rw [← hm.2 first entry hentry] at hexpired
    obtain ⟨m', hm', hleaves⟩ := hm'.reinsertPeriodic hentry hexpired hre
    exact ⟨m', hm', hleaves, nofun⟩
  next hlater =>
    cases hs
    exact ⟨m, hm, Leaves.refl now m, fun _ key hkey =>
      (Nat.not_le.mp hlater).trans_le (hleast key hkey)⟩

/-- **What `drain` leaves**: every timer left is queued for the first time after `now` that a timer
queued before was due for. -/
theorem Holds.drain {now : Nat} : ∀ {fuel : Nat} {h h' : HrTimer A}
    {m : OrdMap Idx TimerQueueKey (Timer Callback)} {fired : List (Timer Callback)}, h.Holds m →
      h.drain now fuel = some (h', fired) → ∃ m', h'.Holds m' ∧ Leaves now m m' ∧
        ∀ key, (m' key).isSome → now < key.expiresAt := by
  intro fuel
  induction fuel with
  | zero =>
    intro h h' m fired hm hs
    cases hs
  | succ fuel ih =>
    intro h h' m fired hm hs
    obtain ⟨⟨h1, timer⟩, hpoll, hs⟩ := bind_eq_some.mp hs
    obtain ⟨m1, hm1, hleaves, hnone⟩ := hm.pollExpired hpoll
    cases timer with
    | none =>
      cases hs
      exact ⟨m1, hm1, hleaves, hnone rfl⟩
    | some timer =>
      obtain ⟨⟨h2, timers⟩, hdrain, hs⟩ := bind_eq_some.mp hs
      cases hs
      obtain ⟨m', hm', hleaves', hafter⟩ := ih hm1 hdrain
      exact ⟨m', hm', hleaves.trans hleaves', hafter⟩

end HrTimer

/-- `ns_to_apic_ticks`, with the frequency of the timer in Hz. -/
def nsToApicTicks (lapicFrequency ns : Nat) : Nat := ns * lapicFrequency / 1000000000 % 2 ^ 32

/-- What `set_timer` last wrote, and the reading of the clock it was computed from. -/
structure OneShot where
  programmedAt : Nat
  initialCount : Nat
  deriving DecidableEq

/-- The deadline, in nanoseconds times the frequency. -/
def OneShot.deadline (lapicFrequency : Nat) (p : OneShot) : Nat :=
  p.programmedAt * lapicFrequency + p.initialCount * 1000000000

/-- The timers of one processor and its local APIC. -/
structure Cpu (A : GenArena Idx (Node Idx TimerQueueKey (Timer Callback))) where
  hrTimers : HrTimer A
  localApic : Option OneShot

namespace Cpu

variable (lapicFrequency : Nat)

def new : Cpu A := { hrTimers := .new, localApic := none }

/-- Counts down from `current` for `ns` nanoseconds. -/
def setTimer (s : Cpu A) (current ns : Nat) : Cpu A :=
  { s with localApic := some ⟨current, nsToApicTicks lapicFrequency ns⟩ }

/-- When `add_timer` reprograms: the comparison is with the nearest timer that is queued. -/
def reprograms (next : Option Nat) (expires : Nat) : Bool :=
  (next.map fun next => decide (next < expires)).getD false || next.isNone

/-- The first half of `add_timer`: programs the deadline of the new timer, if it decides to. -/
def program (s : Cpu A) (current expires : Nat) : Option (Cpu A) := do
  if reprograms (← s.hrTimers.nextExpiry) expires then
    -- `expires - current` overflows
    if expires < current then none
    else some (s.setTimer lapicFrequency current (expires - current))
  else some s

/-- `add_timer`, with the clock reading `current`. -/
def addTimer (s : Cpu A) (current : Nat) (timer : Timer Callback) : Option (Cpu A × Idx) :=
  if timer.isPeriodic && timer.interval.isNone then none
  else do
    let s ← s.program lapicFrequency current timer.expiresAt
    let (hrTimers, handle) ← s.hrTimers.insertTimer timer
    some ({ s with hrTimers := hrTimers }, handle)

def removeTimer (s : Cpu A) (expires : Nat) : Option (Cpu A × Bool) := do
  let (hrTimers, removed) ← s.hrTimers.removeTimer expires
  some ({ s with hrTimers := hrTimers }, removed)

def cancel (s : Cpu A) (handle : Idx) : Option (Cpu A × Bool) := do
  let (hrTimers, removed) ← s.hrTimers.cancel handle
  some ({ s with hrTimers := hrTimers }, removed)

/-- `timer_interrupt_handler`, with its two clock readings. The actions of the timers that fired
are returned; none of them touches the timers. -/
def timerInterruptHandler (s : Cpu A) (now current fuel : Nat) :
    Option (Cpu A × List (Timer Callback)) := do
  let (hrTimers, fired) ← s.hrTimers.drain now fuel
  let nextExpiration ← (← hrTimers.nextExpiry)
  some ({ s.setTimer lapicFrequency current (max (nextExpiration - current) 1) with
    hrTimers := hrTimers }, fired)

inductive Call (Idx Callback : Type) where
  | addTimer (current : Nat) (timer : Timer Callback)
  | removeTimer (expires : Nat)
  | cancel (handle : Idx)
  | interrupt (now current fuel : Nat)

inductive Out (Idx Callback : Type) where
  | handle (handle : Idx)
  | removed (removed : Bool)
  | fired (timers : List (Timer Callback))
  deriving DecidableEq

def step (s : Cpu A) : Call Idx Callback → Option (Cpu A × Out Idx Callback)
  | .addTimer current timer => do
    let (s, handle) ← s.addTimer lapicFrequency current timer
    some (s, .handle handle)
  | .removeTimer expires => do
    let (s, removed) ← s.removeTimer expires
    some (s, .removed removed)
  | .cancel handle => do
    let (s, removed) ← s.cancel handle
    some (s, .removed removed)
  | .interrupt now current fuel => do
    let (s, fired) ← s.timerInterruptHandler lapicFrequency now current fuel
    some (s, .fired fired)

/-- If a timer is queued, the count is running and ends no later than the nearest expiry. -/
def Armed (s : Cpu A) : Prop :=
  ∀ next, s.hrTimers.nextExpiry = some (some next) → ∃ p, s.localApic = some p ∧
    p.initialCount ≠ 0 ∧ p.deadline lapicFrequency ≤ next * lapicFrequency

/-! ## When the deadline stays early enough -/

/-- The first timer has to be at least one tick away, or the count would be zero. A later one must
not come after the nearest, because `add_timer` would then set the count to it; and as the count
stays otherwise, the deadline in force has to do for the new timer as well. -/
def AddOk (s : Cpu A) (current expires : Nat) : Prop :=
  match s.hrTimers.nextExpiry with
  | none => True
  | some none => nsToApicTicks lapicFrequency (expires - current) ≠ 0
  | some (some next) => expires ≤ next ∧
    match s.localApic with
    | none => True
    | some p => p.deadline lapicFrequency ≤ expires * lapicFrequency

/-- Every queued timer is next due, after the reading `now` that decides what has expired, at least
one tick after the reading `current` the count is computed from. A nearer one would get a count of
zero, or a deadline that has passed. -/
def InterruptOk (s : Cpu A) (now current : Nat) : Prop :=
  s.hrTimers.Forall fun timer => ∀ next ∈ timer.nextAfter now,
    current < next ∧ nsToApicTicks lapicFrequency (next - current) ≠ 0

def CallOk (s : Cpu A) : Call Idx Callback → Prop
  | .addTimer current timer => s.AddOk lapicFrequency current timer.expiresAt
  | .interrupt now current _ => s.InterruptOk lapicFrequency now current
  | .removeTimer _ | .cancel _ => True

/-! ## The invariant -/

/-- The count is running, and it ends before any entry of the map expires. -/
def Covers (lapic : Option OneShot) (m : OrdMap Idx TimerQueueKey (Timer Callback)) : Prop :=
  ∀ key, (m key).isSome → ∃ p, lapic = some p ∧ p.initialCount ≠ 0 ∧
    p.deadline lapicFrequency ≤ key.expiresAt * lapicFrequency

def Inv (s : Cpu A) : Prop := ∃ m, s.hrTimers.Holds m ∧ Covers lapicFrequency s.localApic m

variable {lapicFrequency}

omit [DecidableEq Idx] in
theorem Covers.mono {lapic : Option OneShot} {m m' : OrdMap Idx TimerQueueKey (Timer Callback)}
    (h : Covers lapicFrequency lapic m) (hm : ∀ key, (m' key).isSome → (m key).isSome) :
    Covers lapicFrequency lapic m' := fun key hkey => h key (hm key hkey)

variable {m : OrdMap Idx TimerQueueKey (Timer Callback)} {s s' : Cpu A} {current : Nat}

omit [DecidableEq Idx] in
/-- A new entry is covered if the deadline in force is early enough for it. -/
theorem Covers.update {p : OneShot}
    (h : Covers lapicFrequency (some p) m) {key : TimerQueueKey} {v : Option (Idx × Timer Callback)}
    (hp : p.initialCount ≠ 0) (hkey : p.deadline lapicFrequency ≤ key.expiresAt * lapicFrequency) :
    Covers lapicFrequency (some p) (Function.update m key v) := by
  intro k hk
  by_cases hkk : k = key
  · subst hkk
    exact ⟨p, rfl, hp, hkey⟩
  rw [Function.update_of_ne hkk] at hk
  exact h k hk

theorem Inv.armed (h : s.Inv lapicFrequency) : s.Armed lapicFrequency := by
  intro next hnext
  obtain ⟨m, hm, hcovers⟩ := h
  rcases hm.nextExpiry with ⟨hnone, -⟩ | ⟨next', hnext', ⟨key, hkey, rfl⟩, -⟩
  · rw [hnone] at hnext
    cases hnext
  rw [hnext'] at hnext
  cases hnext
  exact hcovers key hkey

omit [DecidableEq Idx] in
theorem inv_new : (new : Cpu A).Inv lapicFrequency :=
  ⟨_, HrTimer.holds_new, fun _ hkey => by cases hkey⟩

/-- The conversion rounds down, and what does not fit into the register only makes the count
shorter. -/
theorem deadline_le {current expires : Nat} (h : current ≤ expires) :
    OneShot.deadline lapicFrequency ⟨current, nsToApicTicks lapicFrequency (expires - current)⟩ ≤
      expires * lapicFrequency := by
  have hticks : nsToApicTicks lapicFrequency (expires - current) * 1000000000 ≤
      (expires - current) * lapicFrequency :=
    (Nat.mul_le_mul_right _ (Nat.mod_le _ _)).trans (Nat.div_mul_le_self _ _)
  calc current * lapicFrequency + nsToApicTicks lapicFrequency (expires - current) * 1000000000
      ≤ current * lapicFrequency + (expires - current) * lapicFrequency :=
        Nat.add_le_add_left hticks _
    _ = expires * lapicFrequency := by rw [← Nat.add_mul, Nat.add_sub_cancel' h]

omit [DecidableEq Idx] in
/-- A count programmed for the nearest entry covers all of them. -/
theorem covers_of_le {p : OneShot} {next : Nat}
    (hp : p.initialCount ≠ 0) (hnext : p.deadline lapicFrequency ≤ next * lapicFrequency)
    (hm : ∀ key, (m key).isSome → next ≤ key.expiresAt) : Covers lapicFrequency (some p) m :=
  fun key hkey => ⟨p, rfl, hp, hnext.trans (Nat.mul_le_mul_right _ (hm key hkey))⟩

section

variable (h : s.Inv lapicFrequency)
include h

/-- Whatever `add_timer` programs covers the queue as it is and the new timer. -/
theorem Inv.program {current expires : Nat} (hok : s.AddOk lapicFrequency current expires)
    (hs : s.program lapicFrequency current expires = some s') :
    s'.hrTimers = s.hrTimers ∧ ∃ m p, s.hrTimers.Holds m ∧ s'.localApic = some p ∧
      Covers lapicFrequency (some p) m ∧ p.initialCount ≠ 0 ∧
      p.deadline lapicFrequency ≤ expires * lapicFrequency := by
  obtain ⟨m, hm, hcovers⟩ := h
  unfold AddOk at hok
  rcases hm.nextExpiry with ⟨hnone, hempty⟩ | ⟨next, hnext, ⟨key, hkey, -⟩, -⟩
  · -- nothing is queued
    simp only [hnone] at hok
    simp only [Cpu.program, hnone, some_bind, reprograms,
      isNone_none, Bool.or_true, if_true] at hs
    split at hs
    · cases hs
    next hlt =>
    cases hs
    refine ⟨rfl, m, _, hm, rfl, fun key hkey => ?_, hok, deadline_le (Nat.not_lt.mp hlt)⟩
    rw [hempty key] at hkey
    cases hkey
  simp only [hnext] at hok
  simp only [Cpu.program, hnext, some_bind, reprograms,
    map_some, getD_some, isNone_some, Bool.or_false,
    decide_eq_true_eq] at hs
  -- the new timer is the nearest, and the count stays
  rw [if_neg (Nat.not_lt.mpr hok.1)] at hs
  cases hs
  obtain ⟨p, hp, hcount, -⟩ := hcovers key hkey
  simp only [hp] at hok
  rw [hp] at hcovers
  exact ⟨rfl, m, p, hm, hp, hcovers, hcount, hok.2⟩

theorem Inv.addTimer {timer : Timer Callback} {i : Idx}
    (hok : s.AddOk lapicFrequency current timer.expiresAt)
    (hs : s.addTimer lapicFrequency current timer = some (s', i)) : s'.Inv lapicFrequency := by
  unfold Cpu.addTimer at hs
  split at hs
  · cases hs
  obtain ⟨s1, hprog, hs⟩ := bind_eq_some.mp hs
  obtain ⟨⟨hrTimers, j⟩, hins, hs⟩ := bind_eq_some.mp hs
  cases hs
  obtain ⟨htimers, m, p, hm, hp, hcovers, hcount, hdeadline⟩ := h.program hok hprog
  rw [htimers] at hins
  refine ⟨_, hm.insertTimer hins, ?_⟩
  rw [hp]
  exact hcovers.update hcount hdeadline

/-- Taking timers away never needs an earlier deadline. -/
theorem Inv.removeKey {hrTimers : HrTimer A} {key : Option TimerQueueKey} {removed : Bool}
    (hs : s.hrTimers.removeKey key = some (hrTimers, removed)) :
    ({ s with hrTimers := hrTimers } : Cpu A).Inv lapicFrequency := by
  obtain ⟨m, hm, hcovers⟩ := h
  obtain ⟨m', hm', hsub⟩ := hm.removeKey hs
  exact ⟨m', hm', hcovers.mono hsub⟩

theorem Inv.timerInterruptHandler {now current fuel : Nat} {fired : List (Timer Callback)}
    (hok : s.InterruptOk lapicFrequency now current)
    (hs : s.timerInterruptHandler lapicFrequency now current fuel = some (s', fired)) :
    s'.Inv lapicFrequency := by
  obtain ⟨m, hm, -⟩ := h
  obtain ⟨⟨hrTimers, fired'⟩, hdrain, hs⟩ := bind_eq_some.mp hs
  obtain ⟨m', hm', hleaves, hafter⟩ := hm.drain hdrain
  rcases hm'.nextExpiry with ⟨hnone, -⟩ | ⟨next, hnext, ⟨key', hkey', rfl⟩, hmin⟩
  · simp [hnone] at hs
  simp only [hnext, some_bind] at hs
  cases hs
  -- the nearest timer that is left was queued before, for the same time after `now`
  obtain ⟨entry', hentry'⟩ := Option.isSome_iff_exists.mp hkey'
  obtain ⟨key, entry, hentry, hdue⟩ := hleaves key' entry' hentry'
  have hown := hm'.2 key' entry' hentry'
  have hlater : now < entry'.2.expiresAt := hown ▸ hafter key' hkey'
  rw [Timer.nextAfter_of_lt hlater, hown] at hdue
  obtain ⟨hlater, hticks⟩ := hm.forall hok hentry key'.expiresAt hdue
  have hdiff : max (key'.expiresAt - current) 1 = key'.expiresAt - current := by omega
  refine ⟨m', hm', ?_⟩
  simp only [setTimer, hdiff]
  exact covers_of_le hticks (deadline_le hlater.le) hmin

theorem Inv.step {c : Call Idx Callback} {out : Out Idx Callback} (hok : s.CallOk lapicFrequency c)
    (hs : s.step lapicFrequency c = some (s', out)) : s'.Inv lapicFrequency := by
  cases c with
  | addTimer current timer =>
    obtain ⟨⟨s1, i⟩, hadd, hs⟩ := bind_eq_some.mp hs
    cases hs
    exact h.addTimer hok hadd
  | removeTimer expires =>
    obtain ⟨⟨s1, removed⟩, hrem, hs⟩ := bind_eq_some.mp hs
    cases hs
    obtain ⟨⟨hrTimers, removed⟩, hrem, hs⟩ := bind_eq_some.mp hrem
    cases hs
    obtain ⟨key, -, hrem⟩ := bind_eq_some.mp hrem
    exact h.removeKey hrem
  | cancel handle =>
    obtain ⟨⟨s1, removed⟩, hrem, hs⟩ := bind_eq_some.mp hs
    cases hs
    obtain ⟨⟨hrTimers, removed⟩, hrem, hs⟩ := bind_eq_some.mp hrem
    cases hs
    exact h.removeKey hrem
  | interrupt now current fuel =>
    obtain ⟨⟨s1, fired⟩, hint, hs⟩ := bind_eq_some.mp hs
    cases hs
    exact h.timerInterruptHandler hok hint

end

/-- In every run whose calls meet the conditions, no queued timer waits for a later one. -/
theorem run_armed {calls : List (Call Idx Callback)} {s : Cpu A} {outs : List (Out Idx Callback)}
    (hok : Guarded (step lapicFrequency) (CallOk lapicFrequency) (new : Cpu A) calls)
    (hrun : run (step lapicFrequency) new calls = some (s, outs)) : s.Armed lapicFrequency := by
  have hall : ∀ (s : Cpu A) (c : Call Idx Callback) (s' : Cpu A) (out : Out Idx Callback),
      s.Inv lapicFrequency → s.CallOk lapicFrequency c →
        s.step lapicFrequency c = some (s', out) → s'.Inv lapicFrequency :=
    fun _ _ _ _ h hok hs => h.step hok hs
  exact (run_forall hall inv_new hok hrun).armed

instance (s : Cpu A) (current expires : Nat) :
    Decidable (s.AddOk lapicFrequency current expires) := by
  unfold AddOk
  cases s.hrTimers.nextExpiry with
  | none => exact isTrue trivial
  | some next =>
    cases next with
    | none => exact inferInstance
    | some next => cases s.localApic <;> exact inferInstance

instance (h : HrTimer A) (P : Timer Callback → Prop) [DecidablePred P] :
    Decidable (h.Forall P) := by
  unfold HrTimer.Forall
  cases h.queue.forEachInOrder with
  | none => exact isTrue trivial
  | some L =>
    refine @List.decidableBAll _ _ (fun entry => ?_) L
    cases h.queue.get entry.1 with
    | none => exact isTrue trivial
    | some timer => cases timer <;> exact inferInstance

instance (s : Cpu A) (now current : Nat) : Decidable (s.InterruptOk lapicFrequency now current) :=
  inferInstanceAs (Decidable (HrTimer.Forall _ _))

instance (s : Cpu A) : DecidablePred (s.CallOk lapicFrequency) := by
  intro c
  cases c <;> unfold CallOk <;> infer_instance

/-- Timers without callbacks. -/
abbrev PlainCpu := Cpu (listArena (Node Nat TimerQueueKey (Timer Empty)))

/-- The scheduler's periodic timer, with a tick every nanosecond. -/
def periodic : Timer Empty := ⟨100, true, some 100, .reschedule⟩

def wakeUpAt (expires : Nat) : Timer Empty := ⟨expires, false, none, .wakeUp 0 1⟩

/-- A thread sleeps until the moment the scheduler's timer expires; both fire. -/
def sleepToTick : List (Call Nat Empty) :=
  [.addTimer 0 periodic, .addTimer 10 (wakeUpAt 100), .interrupt 100 110 4]

theorem run_armed_sleepToTick : ∃ (s : PlainCpu) (outs : _),
    Guarded (step 1000000000) (CallOk 1000000000) (new : PlainCpu) sleepToTick ∧
      run (step 1000000000) new sleepToTick = some (s, outs) ∧
      s.hrTimers.nextExpiry = some (some 200) ∧ s.Armed 1000000000 := by
  obtain ⟨s, outs, hrun, hnext⟩ : ∃ s outs, run (step 1000000000) (new : PlainCpu) sleepToTick =
      some (s, outs) ∧ s.hrTimers.nextExpiry = some (some 200) := by decide
  have hok : Guarded (step 1000000000) (CallOk 1000000000) (new : PlainCpu) sleepToTick := by decide
  exact ⟨s, outs, hok, hrun, hnext, run_armed hok hrun⟩

/-- A thread sleeps until a moment before the scheduler's timer expires. -/
def shortSleep : List (Call Nat Empty) := [.addTimer 0 periodic, .addTimer 10 (wakeUpAt 50)]

theorem short_sleep_waits_for_tick : ∃ (s : PlainCpu) (outs : _),
    run (step 1000000000) new shortSleep = some (s, outs) ∧
      (s.hrTimers.nextExpiry = some (some 50) ∧ s.localApic = some ⟨0, 100⟩) ∧
      ¬ s.Armed 1000000000 := by
  refine exists_some_imp (p := fun s _ => s.hrTimers.nextExpiry = some (some 50) ∧
    s.localApic = some ⟨0, 100⟩) (by decide) fun s _ _ hend => ⟨hend, fun h => ?_⟩
  obtain ⟨hnext, hlapic⟩ := hend
  obtain ⟨p, hp, -, hdeadline⟩ := h 50 hnext
  obtain rfl := some.inj (hlapic.symm.trans hp)
  exact absurd hdeadline (by decide)

end Cpu

end Moose.Clock
