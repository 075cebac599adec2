import Moose.Lib.Lanes
import Moose.Lib.Run

/-!
# The scheduler

`subsystem/scheduler.rs` and `Thread::set_status`. The thread that runs is in `current`; the others
that may run wait in one queue for each priority. Whether the running thread goes back to its queue
at the next switch is decided by its `reschedule` flag, so status, flag, queues and `current` have
to be kept in step. They are as long as nothing schedules the thread that is running: `schedule`
looks for the thread in its queue only.

`set_status` reads the status, stores the new one and then schedules or unschedules, in three
separate accesses, and an interrupt may come between any two of them. A `Call` is a call that is not
cut in this way (made with interrupts off, as `block_on_event` and the handlers do, or simply not
interrupted); `Kernel` adds the calls of `set_status` that are under way, and takes them one access
at a time. A reschedule between the store of `Waiting` and the `unschedule` finds the flag still set
and puts a thread into its queue that waits, so this has to be excluded, too.

`none` is a panic, or a step that cannot be taken.
-/

set_option autoImplicit false

namespace Moose.Sched

open Function Lib

inductive Status where
  | running
  | stopped
  | waiting
  deriving DecidableEq

def prioritiesNum : Nat := 16

def level (priority : Nat) : Fin prioritiesNum :=
  ⟨min priority (prioritiesNum - 1), by unfold prioritiesNum; omega⟩

/-- The scheduler with the threads `τ` and the events `ε` of the kernel. -/
structure Scheduler (τ ε : Type) where
  current : Option τ
  queues : Lanes prioritiesNum τ
  status : τ → Status
  reschedule : τ → Bool
  waiting : ε → List τ

namespace Scheduler

variable {τ ε : Type} [DecidableEq τ] (priority : τ → Nat)

/-- `Scheduler::new`, with every thread as it is created. -/
def new : Scheduler τ ε where
  current := none
  queues := fun _ => []
  status := fun _ => .running
  reschedule := fun _ => true
  waiting := fun _ => []

def schedule (s : Scheduler τ ε) (t : τ) : Scheduler τ ε :=
  match s.status t with
  | .running =>
    let s := { s with reschedule := update s.reschedule t true }
    -- only the thread's own queue is searched, not `current`
    if t ∈ s.queues (level (priority t)) then s
    else { s with queues := s.queues.push (level (priority t)) t }
  | .stopped | .waiting => s

def unschedule (s : Scheduler τ ε) (t : τ) : Scheduler τ ε :=
  { s with
    reschedule := update s.reschedule t false
    queues := s.queues.remove (level (priority t)) t }

/-- The second half of `Thread::set_status`: what the status was decides. -/
def settle (s : Scheduler τ ε) (t : τ) (currentStatus newStatus : Status) : Scheduler τ ε :=
  match currentStatus, newStatus with
  | .running, .stopped | .running, .waiting => s.unschedule priority t
  | .running, .running => s
  | .stopped, .running | .waiting, .running => s.schedule priority t
  | .stopped, _ | .waiting, _ => s

def storeStatus (s : Scheduler τ ε) (t : τ) (newStatus : Status) : Scheduler τ ε :=
  { s with status := update s.status t newStatus }

/-- `Thread::set_status` -/
def setStatus (s : Scheduler τ ε) (t : τ) (newStatus : Status) : Scheduler τ ε :=
  (s.storeStatus t newStatus).settle priority t (s.status t) newStatus

/-- `Event::wait_on` -/
def waitOn [DecidableEq ε] (s : Scheduler τ ε) (e : ε) (t : τ) : Scheduler τ ε :=
  let s := s.setStatus priority t .waiting
  { s with waiting := update s.waiting e (s.waiting e ++ [t]) }

/-- Sets one thread after the other to running. -/
def wakeAll (s : Scheduler τ ε) (ts : List τ) : Scheduler τ ε :=
  ts.foldl (fun s t => s.setStatus priority t .running) s

/-- `Event::notify` -/
def notify [DecidableEq ε] (s : Scheduler τ ε) (e : ε) : Scheduler τ ε :=
  let s := s.wakeAll priority (s.waiting e)
  { s with waiting := update s.waiting e [] }

/-- `Event::clear_pending` -/
def clearPending [DecidableEq ε] (s : Scheduler τ ε) (e : ε) : Scheduler τ ε :=
  { s with waiting := update s.waiting e [] }

/-- The thread that ran goes back to its queue if its flag is set, and out of sight otherwise. -/
def putBack (s : Scheduler τ ε) : Scheduler τ ε :=
  match s.current with
  | none => s
  | some previous =>
    if s.reschedule previous then
      { s with current := none, queues := s.queues.push (level (priority previous)) previous }
    else { s with current := none }

/-- The front of the highest queue becomes current. -/
def electNext (s : Scheduler τ ε) : Scheduler τ ε :=
  match s.queues.pop with
  | some (next, queues) => { s with current := some next, queues := queues }
  | none => { s with current := none }

def scheduleNextThread (s : Scheduler τ ε) : Scheduler τ ε := (s.putBack priority).electNext

/-- `scheduler::run`: registers are saved to the current thread and restored from the next one, and
both have to exist. -/
def switch (s : Scheduler τ ε) : Option (Scheduler τ ε) :=
  if s.current = none then none
  else
    let s := s.scheduleNextThread priority
    if s.current = none then none else some s

/-- One round of the loop of `Scheduler::run`, which starts the first thread. -/
def boot (s : Scheduler τ ε) : Scheduler τ ε :=
  match s.queues.pop with
  | some (next, queues) => { s with current := some next, queues := queues }
  | none => s

/-- The timer interrupt: the expired `WakeUp` timers, and whether a `Reschedule` one expired. -/
def timerInterrupt (s : Scheduler τ ε) (woken : List τ) (needReschedule : Bool) :
    Option (Scheduler τ ε) :=
  let s := s.wakeAll priority woken
  if needReschedule then s.switch priority else some s

inductive Call (τ ε : Type) where
  | schedule (t : τ)
  | unschedule (t : τ)
  | setStatus (t : τ) (newStatus : Status)
  | waitOn (e : ε) (t : τ)
  | notify (e : ε)
  | clearPending (e : ε)
  | timerInterrupt (woken : List τ) (needReschedule : Bool)
  | switch
  | boot

def step [DecidableEq ε] (s : Scheduler τ ε) : Call τ ε → Option (Scheduler τ ε × Unit)
  | .schedule t => some (s.schedule priority t, ())
  | .unschedule t => some (s.unschedule priority t, ())
  | .setStatus t newStatus => some (s.setStatus priority t newStatus, ())
  | .waitOn e t => some (s.waitOn priority e t, ())
  | .notify e => some (s.notify priority e, ())
  | .clearPending e => some (s.clearPending e, ())
  | .timerInterrupt woken needReschedule =>
    (s.timerInterrupt priority woken needReschedule).map (·, ())
  | .switch => (s.switch priority).map (·, ())
  | .boot => some (s.boot, ())

/-- The running thread together with all queues. -/
def occupants (s : Scheduler τ ε) : List τ := s.current.toList ++ s.queues.all

/-- No thread occurs twice, and no thread that waits or is stopped is queued. -/
structure Unique (s : Scheduler τ ε) : Prop where
  nodup : s.occupants.Nodup
  running : ∀ t ∈ s.queues.all, s.status t = .running

/-- What the calls keep, one queue at a time. The flag of a thread may lag behind its status only
while a call of `set_status` is `midway`. -/
structure Inv (midway : τ → Prop) (s : Scheduler τ ε) : Prop where
  proper : s.queues.Proper (fun t => level (priority t))
  running : ∀ t i, t ∈ s.queues i → s.status t = .running
  flagged : ∀ t, s.reschedule t = true → s.status t = .running ∨ midway t
  current : ∀ t, s.current = some t → ∀ i, t ∉ s.queues i

/-- A thread that runs and is `midway` was woken in the meantime. -/
def SwitchOk (midway : τ → Prop) (s : Scheduler τ ε) : Prop :=
  ∀ t, s.current = some t → midway t → s.status t = .running

variable {priority} {midway : τ → Prop}

section

omit [DecidableEq τ]

variable {s : Scheduler τ ε}

theorem Inv.unique (h : s.Inv priority midway) : s.Unique where
  nodup := by
    unfold occupants
    cases hc : s.current with
    | none => exact h.proper.nodup_all
    | some t =>
      refine List.nodup_cons.mpr ⟨fun ht => ?_, h.proper.nodup_all⟩
      obtain ⟨i, hi⟩ := Lanes.mem_all.mp ht
      exact h.current t hc i hi
  running t ht := by
    obtain ⟨i, hi⟩ := Lanes.mem_all.mp ht
    exact h.running t i hi

theorem inv_new : (new : Scheduler τ ε).Inv priority midway where
  proper := Lanes.Proper.empty _
  running _ _ h := by cases h
  flagged _ _ := .inl rfl
  current _ h := by cases h

/-! ## Switching threads -/

theorem status_scheduleNextThread (s : Scheduler τ ε) :
    (s.scheduleNextThread priority).status = s.status := by
  unfold scheduleNextThread electNext Scheduler.putBack
  split <;> split <;> first | rfl | split <;> rfl

theorem waiting_scheduleNextThread (s : Scheduler τ ε) :
    (s.scheduleNextThread priority).waiting = s.waiting := by
  unfold scheduleNextThread electNext Scheduler.putBack
  split <;> split <;> first | rfl | split <;> rfl

theorem switch_eq_some {s s' : Scheduler τ ε} (hs : s.switch priority = some s') :
    s' = s.scheduleNextThread priority := by
  unfold Scheduler.switch at hs
  dsimp only at hs
  split at hs
  · cases hs
  split at hs
  · cases hs
  · exact (Option.some.inj hs).symm

theorem boot_keeps (s : Scheduler τ ε) : s.boot.status = s.status ∧ s.boot.waiting = s.waiting := by
  unfold Scheduler.boot
  cases s.queues.pop <;> exact ⟨rfl, rfl⟩

theorem Inv.withWaiting (h : s.Inv priority midway) (waiting : ε → List τ) :
    ({ s with waiting := waiting } : Scheduler τ ε).Inv priority midway :=
  ⟨h.proper, h.running, h.flagged, h.current⟩

/-- The running thread is in no queue, so it can be put into one. -/
theorem Inv.putBack (h : s.Inv priority midway) (hok : s.SwitchOk midway) :
    (s.putBack priority).Inv priority midway := by
  unfold Scheduler.putBack
  cases hc : s.current with
  | none => exact h
  | some previous =>
    dsimp only
    by_cases hf : s.reschedule previous = true
    · rw [if_pos hf]
      refine ⟨h.proper.push (h.current previous hc _), ?_, h.flagged, fun _ hu => by cases hu⟩
      intro u i hu
      rcases Lanes.mem_push.mp hu with hu | ⟨rfl, -⟩
      · exact h.running u i hu
      · exact (h.flagged u hf).elim id (hok u hc)
    · rw [if_neg hf]
      exact ⟨h.proper, h.running, h.flagged, fun _ hu => by cases hu⟩

/-- The thread that is taken from the queues is in none of them afterwards. -/
theorem Inv.elect (h : s.Inv priority midway) {next : τ}
    {queues : Lanes prioritiesNum τ} (hpop : s.queues.pop = some (next, queues)) :
    ({ s with current := some next, queues := queues } : Scheduler τ ε).Inv priority midway := by
  obtain ⟨hproper, -, hmem⟩ := h.proper.pop hpop
  refine ⟨hproper, fun u i hu => h.running u i ((hmem u i).mp hu).1, h.flagged, ?_⟩
  intro u hu i hi
  cases hu
  exact ((hmem next i).mp hi).2 rfl

theorem Inv.electNext (h : s.Inv priority midway) : s.electNext.Inv priority midway := by
  unfold Scheduler.electNext
  cases hpop : s.queues.pop with
  | none => exact ⟨h.proper, h.running, h.flagged, fun _ hu => by cases hu⟩
  | some r => exact h.elect hpop

theorem Inv.switch {s s' : Scheduler τ ε} (h : s.Inv priority midway) (hok : s.SwitchOk midway)
    (hs : s.switch priority = some s') : s'.Inv priority midway := by
  rw [switch_eq_some hs]
  exact (h.putBack hok).electNext

theorem Inv.boot (h : s.Inv priority midway) : s.boot.Inv priority midway := by
  unfold Scheduler.boot
  cases hpop : s.queues.pop with
  | none => exact h
  | some r => exact h.elect hpop

end

/-! ## Scheduling and statuses -/

/-- Setting `t` to running does not schedule the running thread. -/
def WakeOk (s : Scheduler τ ε) (t : τ) : Prop := s.current = some t → s.status t = .running

variable {s : Scheduler τ ε} {t : τ}

section

variable (h : s.Inv priority midway)
include h

/-- Scheduling `t` keeps the invariant if `t` is not the running thread. -/
theorem Inv.schedule (ht : s.current = some t → s.status t ≠ .running) :
    (s.schedule priority t).Inv priority midway := by
  unfold Scheduler.schedule
  cases hst : s.status t with
  | stopped => exact h
  | waiting => exact h
  | running =>
    have hflag : ∀ u, update s.reschedule t true u = true →
        s.status u = .running ∨ midway u := by
      intro u hu
      by_cases hut : u = t
      · exact .inl (hut ▸ hst)
      rw [update_of_ne hut] at hu
      exact h.flagged u hu
    by_cases hmem : t ∈ s.queues (level (priority t))
    · simp only [if_pos hmem]
      exact ⟨h.proper, h.running, hflag, h.current⟩
    simp only [if_neg hmem]
    refine ⟨h.proper.push hmem, ?_, hflag, ?_⟩
    · intro u i hu
      rcases Lanes.mem_push.mp hu with hu | ⟨rfl, -⟩
      · exact h.running u i hu
      · exact hst
    intro u hu i hi
    rcases Lanes.mem_push.mp hi with hi | ⟨rfl, -⟩
    · exact h.current u hu i hi
    · exact ht hu hst

theorem Inv.unschedule (t : τ) : (s.unschedule priority t).Inv priority midway where
  proper := h.proper.remove t
  running u i hu := h.running u i (h.proper.mem_remove.mp hu).1
  flagged u hu := by
    refine h.flagged u ?_
    by_cases hut : u = t
    · subst hut
      simp [Scheduler.unschedule] at hu
    · simpa [Scheduler.unschedule, update_of_ne hut] using hu
  current u hu i hi := h.current u hu i (h.proper.mem_remove.mp hi).1

/-- A thread that is not queued can have any status, if its flag is clear or may lag behind. -/
theorem Inv.storeStatus {st : Status} (hqueued : ∀ i, t ∉ s.queues i)
    (hflag : s.status t = .running → midway t) :
    (s.storeStatus t st).Inv priority midway where
  proper := h.proper
  running u i hu := by
    have hut : u ≠ t := by
      rintro rfl
      exact hqueued i hu
    exact (update_of_ne hut _ _).trans (h.running u i hu)
  flagged u hu := by
    by_cases hut : u = t
    · subst hut
      exact .inr ((h.flagged u hu).elim hflag id)
    exact (h.flagged u hu).imp_left (update_of_ne hut _ _).trans
  current := h.current

/-- Running is what a queued and a flagged thread should be. -/
theorem Inv.storeRunning (t : τ) : (s.storeStatus t .running).Inv priority midway where
  proper := h.proper
  running u i hu := by
    by_cases hut : u = t
    · exact hut ▸ update_self ..
    exact (update_of_ne hut _ _).trans (h.running u i hu)
  flagged u hu := by
    by_cases hut : u = t
    · exact .inl (hut ▸ update_self ..)
    exact (h.flagged u hu).imp_left (update_of_ne hut _ _).trans
  current := h.current

/-- Unscheduling a thread and then giving it a status is the same as the other way round. -/
theorem Inv.unscheduleWith (t : τ) (st : Status) :
    ((s.storeStatus t st).unschedule priority t).Inv priority midway where
  proper := h.proper.remove t
  running u i hu := by
    obtain ⟨hu, hut⟩ := h.proper.mem_remove.mp hu
    exact (update_of_ne hut _ _).trans (h.running u i hu)
  flagged u hu := by
    have hut : u ≠ t := by
      rintro rfl
      simp [Scheduler.unschedule] at hu
    have hflag : s.reschedule u = true := by
      simpa [Scheduler.unschedule, Scheduler.storeStatus, update_of_ne hut] using hu
    exact (h.flagged u hflag).imp_left (update_of_ne hut _ _).trans
  current u hu i hi := h.current u hu i (h.proper.mem_remove.mp hi).1

theorem Inv.setStatus {st : Status} (ht : st = .running → s.WakeOk t) :
    (s.setStatus priority t st).Inv priority midway := by
  unfold Scheduler.setStatus
  cases hst : s.status t with
  | running =>
    cases st with
    | running => exact h.storeRunning t
    | stopped => exact h.unscheduleWith t _
    | waiting => exact h.unscheduleWith t _
  | stopped | waiting =>
    have hne : s.status t ≠ .running := by simp [hst]
    have hstored : ∀ st, (s.storeStatus t st).Inv priority midway :=
      fun st => h.storeStatus (fun i hi => hne (h.running t i hi)) (absurd · hne)
    cases st with
    | running => exact (hstored _).schedule fun hc => absurd (ht rfl hc) hne
    | stopped | waiting => exact hstored _

end

/-- Scheduling moves threads between queues; statuses and waiting lists stay. -/
theorem schedule_keeps (s : Scheduler τ ε) (t : τ) :
    (s.schedule priority t).current = s.current ∧ (s.schedule priority t).status = s.status ∧
      (s.schedule priority t).waiting = s.waiting := by
  unfold Scheduler.schedule
  cases s.status t with
  | running =>
    dsimp only
    split <;> exact ⟨rfl, rfl, rfl⟩
  | stopped | waiting => exact ⟨rfl, rfl, rfl⟩

theorem current_setStatus (s : Scheduler τ ε) (t : τ) (st : Status) :
    (s.setStatus priority t st).current = s.current := by
  unfold Scheduler.setStatus Scheduler.settle
  cases s.status t <;> cases st <;> first | rfl | exact (schedule_keeps _ _).1

/-- Only the statuses of threads set to running change when threads are woken. -/
theorem status_wake (s : Scheduler τ ε) (t u : τ) :
    (s.setStatus priority t .running).status u = if u = t then .running else s.status u := by
  rw [← update_apply]
  unfold Scheduler.setStatus Scheduler.settle
  cases s.status t with
  | running => rfl
  | stopped | waiting =>
    exact congrFun (schedule_keeps _ _).2.1 u

theorem current_wakeAll (ts : List τ) (s : Scheduler τ ε) :
    (s.wakeAll priority ts).current = s.current := by
  induction ts generalizing s with
  | nil => rfl
  | cons t ts ih => exact (ih _).trans (current_setStatus s t _)

/-- Waking one thread after the other; a wake leaves the others as ready to be woken as before. -/
theorem Inv.wakeAll (ts : List τ) (h : s.Inv priority midway)
    (hts : ∀ t ∈ ts, s.WakeOk t) : (s.wakeAll priority ts).Inv priority midway := by
  induction ts generalizing s with
  | nil => exact h
  | cons t ts ih =>
    refine ih (h.setStatus fun _ => hts t List.mem_cons_self) ?_
    intro u hu hc
    rw [current_setStatus] at hc
    rw [status_wake]
    split
    · rfl
    · exact hts u (List.mem_cons_of_mem t hu) hc

/-- A wake makes no thread wait. -/
theorem running_wakeAll (ts : List τ) {s : Scheduler τ ε} (h : s.status t = .running) :
    (s.wakeAll priority ts).status t = .running := by
  induction ts generalizing s with
  | nil => exact h
  | cons u ts ih =>
    apply ih
    rw [status_wake, h, ite_self]

/-! ## Whole calls -/

variable [DecidableEq ε]

/-- The call does not schedule the thread that is running. `schedule` would put it into its queue,
and at the next switch its flag puts it there a second time. -/
def CallOk (s : Scheduler τ ε) : Call τ ε → Prop
  | .schedule t => s.current = some t → s.status t ≠ .running
  | .setStatus t newStatus => newStatus = .running → s.WakeOk t
  | .notify e => ∀ t ∈ s.waiting e, s.WakeOk t
  | .timerInterrupt woken _ => ∀ t ∈ woken, s.WakeOk t
  | .unschedule _ | .waitOn _ _ | .clearPending _ | .switch | .boot => True

/-- The call may take the processor from the thread that runs. -/
def Call.reschedules : Call τ ε → Bool
  | .switch => true
  | .timerInterrupt _ needReschedule => needReschedule
  | .schedule _ | .unschedule _ | .setStatus _ _ | .waitOn _ _ | .notify _ | .clearPending _
  | .boot => false

theorem Inv.step {s s' : Scheduler τ ε} {c : Call τ ε} (h : s.Inv priority midway)
    (hc : s.CallOk c) (hswitch : c.reschedules = true → s.SwitchOk midway)
    (hs : s.step priority c = some (s', ())) : s'.Inv priority midway := by
  cases c with
  | schedule t =>
    cases hs
    exact h.schedule hc
  | unschedule t =>
    cases hs
    exact h.unschedule t
  | setStatus t newStatus =>
    cases hs
    exact h.setStatus hc
  | waitOn e t =>
    cases hs
    exact (h.setStatus fun hw => by cases hw).withWaiting _
  | notify e =>
    cases hs
    exact (h.wakeAll _ hc).withWaiting _
  | clearPending e =>
    cases hs
    exact h.withWaiting _
  | timerInterrupt woken needReschedule =>
    have hwoken := h.wakeAll woken hc
    cases needReschedule with
    | false =>
      cases hs
      exact hwoken
    | true =>
      obtain ⟨s1, h1, hs1⟩ := Option.map_eq_some_iff.mp hs
      cases hs1
      refine hwoken.switch (fun t ht hmidway => running_wakeAll woken ?_) h1
      exact hswitch rfl t ((current_wakeAll woken s).symm.trans ht) hmidway
  | switch =>
    obtain ⟨s1, h1, hs1⟩ := Option.map_eq_some_iff.mp hs
    cases hs1
    exact h.switch (hswitch rfl) h1
  | boot =>
    cases hs
    exact h.boot

instance (s : Scheduler τ ε) (t : τ) : Decidable (s.WakeOk t) :=
  inferInstanceAs (Decidable (_ → _))

instance (s : Scheduler τ ε) : DecidablePred s.CallOk := by
  intro c
  cases c <;> unfold CallOk <;> infer_instance

end Scheduler

/-! ## Calls that are interrupted -/

/-- A call of `set_status` that has read the status. -/
structure SetStatus (τ : Type) where
  thread : τ
  currentStatus : Status
  newStatus : Status
  deriving DecidableEq

/-- The call will unschedule its thread. -/
def SetStatus.Unschedules {τ : Type} (c : SetStatus τ) : Prop :=
  c.currentStatus = .running ∧ c.newStatus ≠ .running

instance {τ : Type} (c : SetStatus τ) : Decidable c.Unschedules :=
  inferInstanceAs (Decidable (_ ∧ _))

/-- The scheduler, with the calls of `set_status` that were interrupted: before their store, or
between the store and the rest. -/
structure Kernel (τ ε : Type) where
  scheduler : Scheduler τ ε
  read : List (SetStatus τ)
  stored : List (SetStatus τ)

namespace Kernel

open Scheduler

variable {τ ε : Type} [DecidableEq τ] (priority : τ → Nat)

def new : Kernel τ ε where
  scheduler := .new
  read := []
  stored := []

/-- `wait_on` in pieces is `set_status` in pieces and then `push`, and `notify` in pieces is a
`set_status` for each thread and then `clear_pending`. -/
inductive Action (τ ε : Type) where
  | call (c : Call τ ε)
  | readStatus (t : τ) (newStatus : Status)
  | storeStatus (c : SetStatus τ)
  | settle (c : SetStatus τ)
  | push (e : ε) (t : τ)

def step [DecidableEq ε] (k : Kernel τ ε) : Action τ ε → Option (Kernel τ ε × Unit)
  | .call c => (k.scheduler.step priority c).map fun r => ({ k with scheduler := r.1 }, ())
  | .readStatus t newStatus =>
    some ({ k with read := ⟨t, k.scheduler.status t, newStatus⟩ :: k.read }, ())
  | .storeStatus c =>
    if c ∈ k.read then
      some (⟨k.scheduler.storeStatus c.thread c.newStatus, k.read.erase c, c :: k.stored⟩, ())
    else none
  | .settle c =>
    if c ∈ k.stored then
      some ({ k with
        scheduler := k.scheduler.settle priority c.thread c.currentStatus c.newStatus
        stored := k.stored.erase c }, ())
    else none
  | .push e t =>
    let waiting := update k.scheduler.waiting e (k.scheduler.waiting e ++ [t])
    some ({ k with scheduler := { k.scheduler with waiting := waiting } }, ())

/-- The thread is between the store of its new status and the `unschedule`. -/
def Midway (k : Kernel τ ε) (t : τ) : Prop := ∃ c ∈ k.stored, c.thread = t ∧ c.Unschedules

/-- No thread that runs is scheduled, at whichever access. Besides:
- the processor is not taken from a thread that has stored `Waiting` or `Stopped` and is not yet
  unscheduled, because its flag would put it into its queue;
- `Waiting` or `Stopped` is not stored into a thread that is queued (a thread that sets its own
  status is not), or by a call whose reading of the status is out of date, because such a call may
  leave out the `unschedule`. -/
def ActionOk (k : Kernel τ ε) : Action τ ε → Prop
  | .call c => k.scheduler.CallOk c ∧
      (c.reschedules = true → ∀ c ∈ k.stored, c.Unschedules →
        k.scheduler.current = some c.thread → k.scheduler.status c.thread = .running)
  | .storeStatus c => c.newStatus ≠ .running →
      (∀ i, c.thread ∉ k.scheduler.queues i) ∧ k.scheduler.status c.thread = c.currentStatus
  | .settle c => c.currentStatus ≠ .running → c.newStatus = .running →
      k.scheduler.current = some c.thread → k.scheduler.status c.thread ≠ .running
  | .readStatus _ _ | .push _ _ => True

def Inv (k : Kernel τ ε) : Prop := k.scheduler.Inv priority k.Midway

variable {priority} {k k' : Kernel τ ε}

theorem Inv.storeStatus {c : SetStatus τ} (h : k.Inv priority) (hok : k.ActionOk (.storeStatus c))
    (read : List (SetStatus τ)) :
    (⟨k.scheduler.storeStatus c.thread c.newStatus, read, c :: k.stored⟩ :
      Kernel τ ε).Inv priority := by
  have hmore : k.scheduler.Inv priority
      fun t => ∃ d ∈ c :: k.stored, d.thread = t ∧ d.Unschedules := by
    refine ⟨h.proper, h.running, fun t ht => (h.flagged t ht).imp_right ?_, h.current⟩
    rintro ⟨d, hd, hdt⟩
    exact ⟨d, List.mem_cons_of_mem c hd, hdt⟩
  by_cases hnew : c.newStatus = .running
  · have hstored := hmore.storeRunning c.thread
    rw [← hnew] at hstored
    exact hstored
  obtain ⟨hqueued, hread⟩ := hok hnew
  refine hmore.storeStatus hqueued fun hrunning => ⟨c, List.mem_cons_self, rfl, ?_, hnew⟩
  exact hread.symm.trans hrunning

/-- The call that ends was the reason for its own thread's flag only. -/
theorem Inv.settle {c : SetStatus τ} (h : k.Inv priority) (hok : k.ActionOk (.settle c)) :
    ({ k with
      scheduler := k.scheduler.settle priority c.thread c.currentStatus c.newStatus
      stored := k.stored.erase c } : Kernel τ ε).Inv priority := by
  have hless : ∀ {s : Scheduler τ ε}, s.Inv priority k.Midway →
      (c.Unschedules → s.reschedule c.thread = false) →
      s.Inv priority fun t => ∃ d ∈ k.stored.erase c, d.thread = t ∧ d.Unschedules := by
    intro s hs hclear
    refine ⟨hs.proper, hs.running, fun t ht => (hs.flagged t ht).imp_right ?_, hs.current⟩
    rintro ⟨d, hd, rfl, hun⟩
    refine ⟨d, (List.mem_erase_of_ne ?_).mpr hd, rfl, hun⟩
    rintro rfl
    exact absurd ((hclear hun).symm.trans ht) nofun
  obtain ⟨t, currentStatus, newStatus⟩ := c
  refine hless ?_ ?_
  · cases currentStatus <;> cases newStatus
    all_goals first | exact h | exact h.unschedule t | exact h.schedule (hok nofun rfl)
  · rintro ⟨rfl, hnew⟩
    cases newStatus with
    | running => exact absurd rfl hnew
    | stopped | waiting => exact update_self ..

variable [DecidableEq ε]

theorem Inv.step {a : Action τ ε} (h : k.Inv priority) (hok : k.ActionOk a)
    (hs : k.step priority a = some (k', ())) : k'.Inv priority := by
  cases a with
  | call c =>
    obtain ⟨r, hr, hk⟩ := Option.map_eq_some_iff.mp hs
    cases hk
    refine Scheduler.Inv.step h hok.1 (fun hc => ?_) hr
    rintro t ht ⟨d, hd, rfl, hun⟩
    exact hok.2 hc d hd hun ht
  | readStatus t newStatus =>
    cases hs
    exact h
  | storeStatus c =>
    obtain ⟨-, hs⟩ := Option.ite_none_right_eq_some.mp hs
    cases hs
    exact h.storeStatus hok _
  | settle c =>
    obtain ⟨-, hs⟩ := Option.ite_none_right_eq_some.mp hs
    cases hs
    exact h.settle hok
  | push e t =>
    cases hs
    exact h.withWaiting _

instance (k : Kernel τ ε) : DecidablePred k.ActionOk := by
  intro a
  cases a <;> unfold ActionOk <;> infer_instance

/-- Thread 1 begins to wait, and timers interrupt it between its store and its `unschedule`; it
gives up the processor when it is through. Thread 2 notifies, and thread 1 is queued again. -/
def handOver : List (Action Nat Unit) :=
  [.call (.schedule 1), .call (.schedule 2), .call .boot,
    .readStatus 1 .waiting, .storeStatus ⟨1, .running, .waiting⟩, .call (.timerInterrupt [2] false),
    .settle ⟨1, .running, .waiting⟩, .push () 1, .call .switch, .call (.notify ())]

/-- Thread 1 is notified after it began to wait and before it gives up the processor. -/
def notifiedBeforeYield : List (Action Nat Unit) :=
  [.call (.schedule 1), .call .boot, .call (.waitOn () 1), .call (.notify ())]

/-- The other defect: the time slice of thread 1 ends between the store and the `unschedule`, and
thread 1 is queued although it waits. -/
example : ∃ k outs, run (step fun _ => 8) new
    [.call (.schedule 1), .call (.schedule 2), .call .boot, .readStatus 1 .waiting,
      .storeStatus ⟨1, .running, .waiting⟩, .call (.timerInterrupt [] true)] =
        some ((k : Kernel Nat Unit), outs) ∧
      k.scheduler.queues (level 8) = [1] ∧ k.scheduler.status 1 = .waiting := by
  decide

end Kernel
end Moose.Sched
