import Mathlib.Data.Fintype.Basic
import Moose.Sched.Scheduler

/-!
# The one-shot gate

`OneshotGate::wait` and `OneshotGate::open`, one access to the shared state at a time. `wait` loads
the flag, sets the thread's own status to waiting and puts the thread on the event's list, in three
separate accesses; `open` stores the flag and wakes the threads of the list. A thread that loaded
`false` and is not yet on the list is in the window: if the flag is stored now, the thread goes to
sleep all the same, and the wakeup has passed it by. If the flag is never stored while a thread is
in the window, no wakeup is lost.

The steps of `open` may come between any two steps of the threads (an interrupt handler, or another
thread); the threads themselves take turns as the scheduler has it. The queue surgery of `schedule`
and `unschedule` is one step: it touches neither the flag nor a status nor the list. `none` is a
step that cannot be taken (a thread that does not run, a lock that is held) or a panic.
-/

set_option autoImplicit false

namespace Moose.Sched

open Option Function Lib

/-- Where a thread is in `OneshotGate::wait`. -/
inductive Place where
  /-- Outside; the next step is the call, which starts with the load of the fast path. -/
  | outside
  /-- The load of the loop. -/
  | head
  /-- `set_status(Waiting)`: the status is read, stored, and what it was decides. -/
  | readStatus
  | storeStatus (was : Status)
  | unschedule (was : Status)
  /-- `waiting_threads.lock().push(thread)` -/
  | lock
  | push
  | unlock
  | yield

/-- After the load of `false` in the loop and before the push. -/
def Place.inWindow : Place → Bool
  | .readStatus | .storeStatus _ | .unschedule _ | .lock | .push => true
  | .outside | .head | .unlock | .yield => false

/-- How far the call of `OneshotGate::open` has come. -/
inductive Opener (τ : Type) where
  | idle
  /-- The flag is stored; the list is locked next. -/
  | flagged
  /-- The threads of the list that are still to be woken. -/
  | notifying (rest : List τ)
  /-- `set_status(Running)` of one of them, in the same three accesses. -/
  | storeStatus (t : τ) (was : Status) (rest : List τ)
  | schedule (t : τ) (was : Status) (rest : List τ)
  | unlocking
  | done
  deriving DecidableEq

/-- The gate, with the scheduler its threads run on; the event's list is the scheduler's one. -/
structure Gate (τ : Type) where
  flag : Bool
  sched : Scheduler τ Unit
  /-- The lock of `waiting_threads`. -/
  locked : Bool
  place : τ → Place
  opener : Opener τ

namespace Gate

variable {τ : Type} [DecidableEq τ] (priority : τ → Nat)

def new : Gate τ where
  flag := false
  sched := .new
  locked := false
  place := fun _ => .outside
  opener := .idle

def waitingThreads (s : Gate τ) : List τ := s.sched.waiting ()

def moveTo (s : Gate τ) (t : τ) (p : Place) : Gate τ :=
  { s with place := update s.place t p }

def storeStatus (s : Gate τ) (t : τ) (st : Status) : Gate τ :=
  { s with sched := { s.sched with status := update s.sched.status t st } }

def storeList (s : Gate τ) (ts : List τ) : Gate τ :=
  { s with sched := { s.sched with waiting := fun _ => ts } }

/-- The next step of `wait` in a thread that runs. -/
def waitStep (s : Gate τ) (t : τ) : Option (Gate τ) :=
  match s.place t with
  | .outside => some (if s.flag then s else s.moveTo t .head)
  | .head => some (s.moveTo t (if s.flag then .outside else .readStatus))
  | .readStatus => some (s.moveTo t (.storeStatus (s.sched.status t)))
  | .storeStatus was => some ((s.storeStatus t .waiting).moveTo t (.unschedule was))
  | .unschedule was =>
    let sched := match was with
      | .running => s.sched.unschedule priority t
      | .stopped | .waiting => s.sched
    some ({ s with sched := sched }.moveTo t .lock)
  | .lock => if s.locked then none else some ({ s with locked := true }.moveTo t .push)
  | .push => some ((s.storeList (s.waitingThreads ++ [t])).moveTo t .unlock)
  | .unlock => some ({ s with locked := false }.moveTo t .yield)
  | .yield => (s.sched.switch priority).map fun sched => { s with sched := sched }.moveTo t .head

def openStep (s : Gate τ) : Option (Gate τ) :=
  match s.opener with
  | .idle => some { s with flag := true, opener := .flagged }
  | .flagged =>
    if s.locked then none
    else some { s with locked := true, opener := .notifying s.waitingThreads }
  | .notifying (t :: rest) => some { s with opener := .storeStatus t (s.sched.status t) rest }
  | .storeStatus t was rest =>
    some { s.storeStatus t .running with opener := .schedule t was rest }
  | .schedule t was rest =>
    let sched := match was with
      | .running => s.sched
      | .stopped | .waiting => s.sched.schedule priority t
    some { s with sched := sched, opener := .notifying rest }
  | .notifying [] => some { s.storeList [] with opener := .unlocking }
  | .unlocking => some { s with locked := false, opener := .done }
  | .done => none

inductive Action (τ : Type) where
  | spawn (t : τ)
  /-- The scheduler's loop starts the first thread. -/
  | boot
  /-- The timer interrupts, and another thread gets the processor. -/
  | preempt
  | waits (t : τ)
  | opens

def step (s : Gate τ) : Action τ → Option (Gate τ × Unit)
  | .spawn t => some ({ s with sched := s.sched.schedule priority t }, ())
  | .boot => some ({ s with sched := s.sched.boot }, ())
  | .preempt => (s.sched.switch priority).map fun sched => ({ s with sched := sched }, ())
  | .waits t => if s.sched.current = some t then (s.waitStep priority t).map (·, ()) else none
  | .opens => (s.openStep priority).map (·, ())

/-- The threads on the list that the call of `open` has still to wake. -/
def pending (s : Gate τ) : List τ :=
  match s.opener with
  | .idle | .flagged => s.waitingThreads
  | .notifying rest => rest
  | .storeStatus t _ rest => t :: rest
  | .schedule _ _ rest => rest
  | .unlocking | .done => []

/-- Once the flag is set, whoever waits is on the list of a notify that has still to wake it. -/
def NoLostWakeup (s : Gate τ) : Prop :=
  s.flag = true → ∀ t, s.sched.status t = .waiting → t ∈ s.pending

/-- The flag is not stored while a thread is between its load of `false` and its push. -/
def StepOk (s : Gate τ) : Action τ → Prop
  | .opens => s.opener = .idle → ∀ t, (s.place t).inWindow = false
  | .spawn _ | .boot | .preempt | .waits _ => True

/-! ## The invariant -/

structure Inv (s : Gate τ) : Prop where
  flag_iff : s.flag = true ↔ s.opener ≠ .idle
  /-- Nobody enters the window of an open gate. -/
  window : s.flag = true → ∀ t, (s.place t).inWindow = false
  waiting : ∀ t, s.sched.status t = .waiting → (s.place t).inWindow = true ∨ t ∈ s.pending

section

omit [DecidableEq τ]

variable {s : Gate τ}

theorem Inv.noLostWakeup (h : s.Inv) : s.NoLostWakeup := by
  intro hflag t ht
  rcases h.waiting t ht with hw | hp
  · rw [h.window hflag t] at hw
    cases hw
  · exact hp

theorem inv_new : (new : Gate τ).Inv where
  flag_iff := ⟨Bool.noConfusion, fun h => absurd rfl h⟩
  window h := by cases h
  waiting _ h := by cases h

/-- Moving threads between queues is invisible to the gate. -/
theorem Inv.withSched (h : s.Inv) {sched : Scheduler τ Unit}
    (hstatus : sched.status = s.sched.status) (hwaiting : sched.waiting = s.sched.waiting) :
    ({ s with sched := sched } : Gate τ).Inv where
  flag_iff := h.flag_iff
  window := h.window
  waiting t ht := by
    have hpending : ({ s with sched := sched } : Gate τ).pending = s.pending := by
      unfold pending waitingThreads
      rw [hwaiting]
    rw [hpending]
    exact h.waiting t ((congrFun hstatus t).symm.trans ht)

/-- So is the lock of the list. -/
theorem Inv.withLocked (h : s.Inv) (locked : Bool) : ({ s with locked := locked } : Gate τ).Inv :=
  ⟨h.flag_iff, h.window, h.waiting⟩

end

variable {s s' : Gate τ} {t : τ}

/-- A thread goes on. It may enter the window of a closed gate only, and when it leaves the window
it has to be on the list or not to wait. -/
theorem Inv.moveTo (h : s.Inv) {p : Place} (henter : s.flag = true → p.inWindow = false)
    (hleave : s.sched.status t = .waiting → p.inWindow = true ∨ t ∈ s.pending) :
    (s.moveTo t p).Inv where
  flag_iff := h.flag_iff
  window hflag u := by
    show (update s.place t p u).inWindow = false
    by_cases hu : u = t
    · subst hu
      rw [update_self]
      exact henter hflag
    · rw [update_of_ne hu]
      exact h.window hflag u
  waiting u hst := by
    show (update s.place t p u).inWindow = true ∨ u ∈ s.pending
    by_cases hu : u = t
    · subst hu
      rw [update_self]
      exact hleave hst
    · rw [update_of_ne hu]
      exact h.waiting u hst

/-- Going on within the window, or outside of it. -/
theorem Inv.moveOn (h : s.Inv) {p : Place}
    (hp : p.inWindow = (s.place t).inWindow) : (s.moveTo t p).Inv := by
  refine h.moveTo (fun hflag => hp.trans (h.window hflag t)) fun hst => ?_
  rw [hp]
  exact h.waiting t hst

/-- A thread in the window may go to sleep. -/
theorem Inv.storeWaiting (h : s.Inv) (ht : (s.place t).inWindow = true) :
    (s.storeStatus t .waiting).Inv where
  flag_iff := h.flag_iff
  window := h.window
  waiting u hst := by
    by_cases hu : u = t
    · subst hu
      exact .inl ht
    refine h.waiting u ?_
    simpa [storeStatus, update_of_ne hu] using hst

/-- In the window the gate is closed, so the list is the one `open` will find. -/
theorem Inv.pushed (h : s.Inv) (ht : (s.place t).inWindow = true) :
    (s.storeList (s.waitingThreads ++ [t])).Inv ∧
      t ∈ (s.storeList (s.waitingThreads ++ [t])).pending := by
  have hidle : s.opener = .idle := by
    by_contra hne
    rw [h.window (h.flag_iff.mpr hne) t] at ht
    cases ht
  have hpending : (s.storeList (s.waitingThreads ++ [t])).pending = s.pending ++ [t] := by
    unfold pending storeList
    simp only [hidle]
    rfl
  refine ⟨⟨h.flag_iff, h.window, ?_⟩, ?_⟩
  · intro u hst
    rw [hpending]
    exact (h.waiting u hst).imp_right (List.mem_append_left _)
  · rw [hpending]
    exact List.mem_append_right _ List.mem_cons_self

theorem Inv.waitStep (h : s.Inv) (hs : s.waitStep priority t = some s') : s'.Inv := by
  unfold Gate.waitStep at hs
  cases hp : s.place t with
  | outside =>
    simp only [hp, some.injEq] at hs
    subst hs
    split
    · exact h
    · exact h.moveOn (by rw [hp]; rfl)
  | head =>
    simp only [hp, some.injEq] at hs
    subst hs
    split
    · exact h.moveOn (by rw [hp]; rfl)
    · next hflag => exact h.moveTo (fun hf => absurd hf hflag) fun _ => .inl rfl
  | readStatus =>
    simp only [hp, some.injEq] at hs
    subst hs
    exact h.moveOn (by rw [hp]; rfl)
  | storeStatus was =>
    simp only [hp, some.injEq] at hs
    subst hs
    exact (h.storeWaiting (by rw [hp]; rfl)).moveOn (congrArg Place.inWindow hp).symm
  | unschedule was =>
    simp only [hp, some.injEq] at hs
    subst hs
    have hsched : ∀ sched : Scheduler τ Unit, sched.status = s.sched.status →
        sched.waiting = s.sched.waiting →
          (({ s with sched := sched } : Gate τ).moveTo t .lock).Inv :=
      fun sched hst hw => (h.withSched hst hw).moveOn (congrArg Place.inWindow hp).symm
    cases was with
    | running => exact hsched _ rfl rfl
    | stopped | waiting => exact hsched _ rfl rfl
  | lock =>
    simp only [hp] at hs
    split at hs
    · cases hs
    cases hs
    exact (h.withLocked true).moveOn (congrArg Place.inWindow hp).symm
  | push =>
    simp only [hp, some.injEq] at hs
    subst hs
    obtain ⟨hinv, hmem⟩ := h.pushed (t := t) (by rw [hp]; rfl)
    exact hinv.moveTo (fun _ => rfl) fun _ => .inr hmem
  | unlock =>
    simp only [hp, some.injEq] at hs
    subst hs
    exact (h.withLocked false).moveOn (congrArg Place.inWindow hp).symm
  | yield =>
    simp only [hp] at hs
    obtain ⟨sched, hswitch, rfl⟩ := map_eq_some_iff.mp hs
    rw [Scheduler.switch_eq_some hswitch]
    exact (h.withSched (Scheduler.status_scheduleNextThread _)
      (Scheduler.waiting_scheduleNextThread _)).moveOn (congrArg Place.inWindow hp).symm

omit [DecidableEq τ] in
/-- `open` goes on while the flag is set, and the threads still to be woken stay the same except for
those that no longer wait. -/
theorem Inv.opening (h : s.Inv) (hopener : s.opener ≠ .idle)
    (hflag : s'.flag = s.flag) (hplace : s'.place = s.place) (hopener' : s'.opener ≠ .idle)
    (hwaiting : ∀ t, s'.sched.status t = .waiting →
      s.sched.status t = .waiting ∧ (t ∈ s.pending → t ∈ s'.pending)) : s'.Inv where
  flag_iff := by
    rw [hflag]
    exact ⟨fun _ => hopener', fun _ => h.flag_iff.mpr hopener⟩
  window := by
    rw [hflag, hplace]
    exact h.window
  waiting t ht := by
    obtain ⟨hst, hp⟩ := hwaiting t ht
    rw [hplace]
    exact (h.waiting t hst).imp_right hp

theorem Inv.openStep (h : s.Inv) (hok : s.opener = .idle → ∀ t, (s.place t).inWindow = false)
    (hs : s.openStep priority = some s') : s'.Inv := by
  unfold Gate.openStep at hs
  cases ho : s.opener with
  | idle =>
    simp only [ho, some.injEq] at hs
    subst hs
    -- everyone who waits has left the window, so it is on the list
    refine ⟨⟨fun _ => by simp, fun _ => rfl⟩, fun _ => hok ho, fun t ht => ?_⟩
    have hpending : s.pending = s.waitingThreads := by simp only [pending, ho]
    have := h.waiting t ht
    rw [hpending] at this
    exact this
  | flagged =>
    simp only [ho] at hs
    split at hs
    · cases hs
    cases hs
    refine h.opening (by simp [ho]) rfl rfl (by simp) fun t ht => ⟨ht, fun hp => ?_⟩
    simpa only [pending, ho] using hp
  | notifying rest =>
    cases rest with
    | nil | cons =>
      simp only [ho, some.injEq] at hs
      subst hs
      refine h.opening (by simp [ho]) rfl rfl (by simp) fun u hu => ⟨hu, fun hp => ?_⟩
      simpa only [pending, ho] using hp
  | storeStatus t was rest =>
    simp only [ho, some.injEq] at hs
    subst hs
    refine h.opening (by simp [ho]) rfl rfl (by simp) fun u hu => ?_
    have hne : u ≠ t := by
      rintro rfl
      simp [Gate.storeStatus] at hu
    refine ⟨by simpa [Gate.storeStatus, update_of_ne hne] using hu, fun hp => ?_⟩
    simp only [pending, ho, List.mem_cons] at hp
    exact hp.resolve_left hne
  | schedule t was rest =>
    simp only [ho, some.injEq] at hs
    subst hs
    refine h.opening (by simp [ho]) rfl rfl (by simp) fun u hu => ⟨?_, fun hp => ?_⟩
    · cases was with
      | running => exact hu
      | stopped | waiting =>
        exact (congrFun (Scheduler.schedule_keeps s.sched t).2.1 u).symm.trans hu
    · simpa only [pending, ho] using hp
  | unlocking =>
    simp only [ho, some.injEq] at hs
    subst hs
    refine h.opening (by simp [ho]) rfl rfl (by simp) fun t ht => ⟨ht, fun hp => ?_⟩
    simpa only [pending, ho] using hp
  | done =>
    simp only [ho] at hs
    cases hs

variable {priority}

theorem Inv.step {a : Action τ} (h : s.Inv) (hok : s.StepOk a)
    (hs : s.step priority a = some (s', ())) : s'.Inv := by
  cases a with
  | spawn t =>
    cases hs
    exact h.withSched (Scheduler.schedule_keeps _ t).2.1 (Scheduler.schedule_keeps _ t).2.2
  | boot =>
    cases hs
    exact h.withSched (Scheduler.boot_keeps _).1 (Scheduler.boot_keeps _).2
  | preempt =>
    obtain ⟨sched, hswitch, hs⟩ := map_eq_some_iff.mp hs
    cases hs
    rw [Scheduler.switch_eq_some hswitch]
    exact h.withSched (Scheduler.status_scheduleNextThread _)
      (Scheduler.waiting_scheduleNextThread _)
  | waits t =>
    simp only [Gate.step] at hs
    split at hs
    · obtain ⟨s1, h1, hs⟩ := map_eq_some_iff.mp hs
      cases hs
      exact h.waitStep priority h1
    · cases hs
  | opens =>
    obtain ⟨s1, h1, hs⟩ := map_eq_some_iff.mp hs
    cases hs
    exact h.openStep priority hok h1

/-- In every interleaving in which the flag is not stored while a thread is between its load of
`false` and its push, no wakeup is lost. -/
theorem run_noLostWakeup {as : List (Action τ)} {s : Gate τ} {outs : List Unit}
    (hok : Guarded (step priority) StepOk new as)
    (hrun : run (step priority) new as = some (s, outs)) : s.NoLostWakeup := by
  have hall : ∀ (s : Gate τ) (a : Action τ) (s' : Gate τ) (o : Unit),
      s.Inv → s.StepOk a → s.step priority a = some (s', o) → s'.Inv :=
    fun _ _ _ _ h hok hs => h.step hok hs
  exact (run_forall hall inv_new hok hrun).noLostWakeup

instance [Fintype τ] (s : Gate τ) : DecidablePred s.StepOk := by
  intro a
  cases a <;> unfold StepOk <;> infer_instance

/-- Two threads of the middle priority; the first of them runs. -/
def started : List (Action (Fin 2)) := [.spawn 0, .spawn 1, .boot]

/-- The thread is asleep on the list when the gate is opened. -/
def openedAfterSleep : List (Action (Fin 2)) :=
  started ++ List.replicate 9 (.waits 0) ++ List.replicate 7 .opens

theorem run_noLostWakeup_openedAfterSleep : ∃ s outs,
    Guarded (step fun _ => 8) StepOk new openedAfterSleep ∧
      run (step fun _ => 8) new openedAfterSleep = some (s, outs) ∧
      (s.flag = true ∧ s.opener = .done ∧ s.sched.status 0 = .running) ∧ s.NoLostWakeup := by
  obtain ⟨s, outs, hrun, hend⟩ : ∃ s outs,
      run (step fun _ => 8) new openedAfterSleep = some (s, outs) ∧
        s.flag = true ∧ s.opener = .done ∧ s.sched.status 0 = .running := by decide
  have hok : Guarded (step fun _ => 8) StepOk new openedAfterSleep := by decide
  exact ⟨s, outs, hok, hrun, hend, run_noLostWakeup hok hrun⟩

/-- An interrupt opens the gate right after the thread's load of `false`. -/
def openedInWindow : List (Action (Fin 2)) :=
  started ++ List.replicate 2 (.waits 0) ++ List.replicate 4 .opens ++ List.replicate 7 (.waits 0)

/-- The gate is open, its notify is over, and the thread has given up the processor: it waits for
ever. -/
theorem opened_in_window_sleeps : ∃ s outs,
    run (step fun _ => 8) new openedInWindow = some (s, outs) ∧
      (s.flag = true ∧ s.sched.status 0 = .waiting ∧ s.opener = .done ∧
        s.sched.occupants = [1]) ∧ ¬ s.NoLostWakeup := by
  refine exists_some_imp (p := fun s _ => s.flag = true ∧ s.sched.status 0 = .waiting ∧
    s.opener = .done ∧ s.sched.occupants = [1]) (by decide) fun s _ _ hend => ⟨hend, fun h => ?_⟩
  obtain ⟨hflag, hst, hdone, -⟩ := hend
  have hpending : s.pending = [] := by simp only [pending, hdone]
  have hmem := h hflag 0 hst
  rw [hpending] at hmem
  cases hmem

end Gate
end Moose.Sched
