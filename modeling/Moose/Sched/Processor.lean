import Moose.Sched.Scheduler

/-!
# The processor under the scheduler

`scheduler::run` as the interrupt handlers call it, with the frame of the interrupted code: the
frame is saved to the thread that ran, the next thread is elected, and its registers and its page
table are loaded. Three of the four steps unwrap `current_thread`, and the election may leave it
empty. So there is no idle state: with every thread waiting the kernel panics. `Scheduler.Ready` is
what it needs to elect a thread at all, and `Scheduler.NextRuns` what it needs for that thread not
to be one that waits: the interrupt may find the running thread between the store of its new status
and its `unschedule`, with the flag still set.
-/

set_option autoImplicit false

namespace Moose.Sched

open Function Lib Scheduler

/-- The scheduler, the registers saved for each thread, and the page table that is active. -/
structure Processor (τ ε ρ π : Type) where
  scheduler : Scheduler τ ε
  registers : τ → ρ
  pageTable : π

namespace Processor

variable {τ ε ρ π : Type} (priority : τ → Nat) (pageTableOf : τ → π)

/-! ## The code -/

/-- The new contents of the frame. -/
def restoreRegisters (p : Processor τ ε ρ π) : Option ρ := do
  let t ← p.scheduler.current
  some (p.registers t)

def switchToCurrentThreadPageTable (p : Processor τ ε ρ π) : Option (Processor τ ε ρ π) := do
  let t ← p.scheduler.current
  some { p with pageTable := pageTableOf t }

variable [DecidableEq τ]

def saveRegisters (p : Processor τ ε ρ π) (frame : ρ) : Option (Processor τ ε ρ π) := do
  let t ← p.scheduler.current
  some { p with registers := update p.registers t frame }

/-- `scheduler::run`, which the yield interrupt calls, too. -/
def run (p : Processor τ ε ρ π) (frame : ρ) : Option (Processor τ ε ρ π × ρ) := do
  let p ← p.saveRegisters frame
  let p := { p with scheduler := p.scheduler.scheduleNextThread priority }
  let frame ← p.restoreRegisters
  let p ← p.switchToCurrentThreadPageTable pageTableOf
  some (p, frame)

/-- `timer_interrupt_handler`: the threads of the expired `WakeUp` timers, and whether a
`Reschedule` timer expired. -/
def timerInterruptHandler (p : Processor τ ε ρ π) (woken : List τ) (needReschedule : Bool)
    (frame : ρ) : Option (Processor τ ε ρ π × ρ) :=
  let p := { p with scheduler := p.scheduler.wakeAll priority woken }
  if needReschedule then p.run priority pageTableOf frame else some (p, frame)

/-- `Event::notify`, from an interrupt or another thread. -/
def notify [DecidableEq ε] (p : Processor τ ε ρ π) (e : ε) : Processor τ ε ρ π :=
  { p with scheduler := p.scheduler.notify priority e }

/-- A thread that may run has the processor, with its registers and its page table. -/
def Dispatched (p : Processor τ ε ρ π) (frame : ρ) : Prop :=
  ∃ t, p.scheduler.current = some t ∧ p.scheduler.status t = .running ∧ frame = p.registers t ∧
    p.pageTable = pageTableOf t

/-- Timers that expire can be handled, at once or after an event. -/
def Responsive [DecidableEq ε] (p : Processor τ ε ρ π) : Prop :=
  ∀ woken needReschedule frame,
    (p.timerInterruptHandler priority pageTableOf woken needReschedule frame).isSome = true ∧
    ∀ e, ((p.notify priority e).timerInterruptHandler priority pageTableOf woken needReschedule
      frame).isSome = true

/-- What is expected of `scheduler::run`: it returns with a thread to run, or with none and the
frame as it was, and the kernel stays responsive. -/
def Completes [DecidableEq ε] (p : Processor τ ε ρ π) (frame : ρ) : Prop :=
  ∃ p' frame', p.run priority pageTableOf frame = some (p', frame') ∧
    (p'.Dispatched pageTableOf frame' ∨ p'.scheduler.current = none ∧ frame' = frame) ∧
    p'.Responsive priority pageTableOf

end Processor

/-! ## When there is a next thread -/

namespace Scheduler

variable {τ ε : Type} {priority : τ → Nat} {midway : τ → Prop} {s s' : Scheduler τ ε}

/-- A thread runs, and it will be scheduled again or some other thread is queued. -/
def Ready (s : Scheduler τ ε) : Prop :=
  ∃ t, s.current = some t ∧ (s.reschedule t = true ∨ ∃ i, s.queues i ≠ [])

/-- If the running thread goes back to its queue, then it may run, or it is not elected again: some
thread of its own priority or a higher one is before it. -/
def NextRuns (priority : τ → Nat) (s : Scheduler τ ε) : Prop :=
  ∀ t, s.current = some t → s.reschedule t = true →
    s.status t = .running ∨ ∃ i, level (priority t) ≤ i ∧ s.queues i ≠ []

theorem putBack_queues_eq_nil (priority : τ → Nat) :
    (∀ i, (s.putBack priority).queues i = []) ↔
      (∀ t, s.current = some t → s.reschedule t = false) ∧ ∀ i, s.queues i = [] := by
  unfold putBack
  cases hc : s.current with
  | none => simp
  | some previous =>
    dsimp only
    cases hf : s.reschedule previous with
    | true =>
      rw [if_pos rfl]
      constructor
      · intro h
        have hmem : previous ∈ s.queues.push (level (priority previous)) previous
            (level (priority previous)) := Lanes.mem_push.mpr (.inr ⟨rfl, rfl⟩)
        rw [show s.queues.push (level (priority previous)) previous _ = [] from h _] at hmem
        cases hmem
      · rintro ⟨h, -⟩
        rw [h previous rfl] at hf
        cases hf
    | false =>
      rw [if_neg nofun]
      refine ⟨fun h => ⟨?_, h⟩, fun h => h.2⟩
      rintro t ⟨⟩
      exact hf

/-- The election comes to nothing exactly if there is nobody to elect. -/
theorem current_scheduleNextThread_eq_none :
    (s.scheduleNextThread priority).current = none ↔
      (∀ t, s.current = some t → s.reschedule t = false) ∧ ∀ i, s.queues i = [] := by
  rw [← putBack_queues_eq_nil priority, ← Lanes.pop_eq_none]
  unfold scheduleNextThread electNext
  cases (s.putBack priority).queues.pop with
  | none => simp
  | some r => simp

theorem ready_iff (priority : τ → Nat) :
    s.Ready ↔ s.current ≠ none ∧ (s.scheduleNextThread priority).current ≠ none := by
  rw [ne_eq, ne_eq, current_scheduleNextThread_eq_none]
  unfold Ready
  cases hc : s.current with
  | none => simp
  | some t =>
    simp only [Option.some.injEq, exists_eq_left', reduceCtorEq, not_false_eq_true, true_and,
      forall_eq', not_and_or, Bool.not_eq_false, not_forall]

/-- The queued threads will be scheduled again after they have run. -/
def Flagged (s : Scheduler τ ε) : Prop := ∀ t i, t ∈ s.queues i → s.reschedule t = true

theorem Flagged.putBack (h : s.Flagged) (priority : τ → Nat) : (s.putBack priority).Flagged := by
  unfold Scheduler.putBack
  cases s.current with
  | none => exact h
  | some previous =>
    dsimp only
    by_cases hf : s.reschedule previous = true
    · rw [if_pos hf]
      intro u i hu
      rcases Lanes.mem_push.mp hu with hu | ⟨rfl, -⟩
      · exact h u i hu
      · exact hf
    · rw [if_neg hf]
      exact h

/-- The thread that is elected was queued, and the others still are. -/
theorem Flagged.elect (h : s.Flagged) (hproper : s.queues.Proper fun t => level (priority t))
    {next : τ} {queues : Lanes prioritiesNum τ} (hpop : s.queues.pop = some (next, queues)) :
    ({ s with current := some next, queues := queues } : Scheduler τ ε).Flagged ∧
      s.reschedule next = true := by
  obtain ⟨-, ⟨i, hi⟩, hmem⟩ := hproper.pop hpop
  refine ⟨?_, h next i hi⟩
  intro u j hu
  exact h u j ((hmem u j).mp hu).1

theorem Inv.proper_putBack (h : s.Inv priority midway) :
    (s.putBack priority).queues.Proper fun t => level (priority t) := by
  unfold Scheduler.putBack
  cases hc : s.current with
  | none => exact h.proper
  | some previous =>
    dsimp only
    split
    · exact h.proper.push (h.current previous hc _)
    · exact h.proper

/-- The thread that is elected will be scheduled again. -/
theorem Flagged.scheduleNextThread (h : s.Flagged) (hinv : s.Inv priority midway) :
    (s.scheduleNextThread priority).Flagged ∧
      ∀ t, (s.scheduleNextThread priority).current = some t →
        (s.scheduleNextThread priority).reschedule t = true := by
  have hback := h.putBack priority
  unfold Scheduler.scheduleNextThread Scheduler.electNext
  cases hpop : (s.putBack priority).queues.pop with
  | none =>
    refine ⟨hback, ?_⟩
    intro t ht
    cases ht
  | some r =>
    obtain ⟨next, queues⟩ := r
    obtain ⟨hflagged, hnext⟩ := hback.elect hinv.proper_putBack hpop
    refine ⟨hflagged, ?_⟩
    rintro t ⟨⟩
    exact hnext

/-- The thread that ran is elected again only if nobody at its level or above is queued. -/
theorem mem_queues_of_pop {t next : τ} {queues : Lanes prioritiesNum τ}
    (hpop : (s.queues.push (level (priority t)) t).pop = some (next, queues)) :
    (∃ i, next ∈ s.queues i) ∨ next = t ∧ ∀ i, level (priority t) ≤ i → s.queues i = [] := by
  obtain ⟨i, rest, hfront, -, habove⟩ := Lanes.pop_eq_some hpop
  have hmem : next ∈ s.queues.push (level (priority t)) t i := by
    rw [hfront]
    exact List.mem_cons_self
  rcases Lanes.mem_push.mp hmem with hmem | ⟨rfl, rfl⟩
  · exact .inl ⟨i, hmem⟩
  rw [Lanes.push, update_self] at hfront
  cases hlane : s.queues (level (priority next)) with
  | cons head tail =>
    rw [hlane] at hfront
    cases hfront
    exact .inl ⟨_, hlane ▸ List.mem_cons_self⟩
  | nil =>
    refine .inr ⟨rfl, fun j hj => ?_⟩
    rcases hj.eq_or_lt with rfl | hj
    · exact hlane
    rw [← habove j hj, Lanes.push, update_of_ne hj.ne']

/-- With nobody at its level or above, the thread that ran is the one that is elected. -/
theorem pop_push_of_empty {t next : τ} {queues : Lanes prioritiesNum τ}
    (hempty : ∀ i, level (priority t) ≤ i → s.queues i = [])
    (hpop : (s.queues.push (level (priority t)) t).pop = some (next, queues)) : next = t := by
  obtain ⟨i, rest, hfront, -, habove⟩ := Lanes.pop_eq_some hpop
  rcases lt_trichotomy i (level (priority t)) with hi | rfl | hi
  · have hlane := habove _ hi
    rw [Lanes.push, update_self] at hlane
    exact absurd hlane (by simp)
  · rw [Lanes.push, update_self, hempty _ le_rfl] at hfront
    cases hfront
    rfl
  · rw [Lanes.push, update_of_ne hi.ne', hempty _ hi.le] at hfront
    cases hfront

theorem current_electNext {next : τ} :
    s.electNext.current = some next ↔ ∃ queues, s.queues.pop = some (next, queues) := by
  unfold electNext
  cases s.queues.pop with
  | none => simp
  | some r => simp [Prod.ext_iff]

theorem nextRuns_iff (hinv : s.Inv priority midway) :
    s.NextRuns priority ↔ ∀ next, (s.scheduleNextThread priority).current = some next →
      (s.scheduleNextThread priority).status next = .running := by
  rw [status_scheduleNextThread]
  unfold Scheduler.scheduleNextThread
  simp only [current_electNext, forall_exists_index]
  by_cases hback : ∃ t, s.current = some t ∧ s.reschedule t = true
  · obtain ⟨t, hc, hf⟩ := hback
    have hqueues : (s.putBack priority).queues = s.queues.push (level (priority t)) t := by
      simp only [Scheduler.putBack, hc, hf, if_true]
    rw [hqueues]
    constructor
    · intro hruns next queues hpop
      rcases mem_queues_of_pop hpop with ⟨i, hi⟩ | ⟨rfl, hempty⟩
      · exact hinv.running next i hi
      rcases hruns next hc hf with hrunning | ⟨i, hi, hne⟩
      · exact hrunning
      · exact absurd (hempty i hi) hne
    · intro hnext u hu _
      cases hc.symm.trans hu
      by_contra hnot
      rw [not_or, not_exists] at hnot
      have hempty : ∀ i, level (priority t) ≤ i → s.queues i = [] :=
        fun i hi => by_contra fun hne => hnot.2 i ⟨hi, hne⟩
      cases hpop : (s.queues.push (level (priority t)) t).pop with
      | none =>
        have hlane := Lanes.pop_eq_none.mp hpop (level (priority t))
        rw [Lanes.push, update_self] at hlane
        exact absurd hlane (by simp)
      | some r =>
        have hsame : r.1 = t := pop_push_of_empty hempty hpop
        exact hnot.1 (hsame ▸ hnext r.1 r.2 hpop)
  · have hqueues : (s.putBack priority).queues = s.queues := by
      unfold Scheduler.putBack
      cases hc : s.current with
      | none => rfl
      | some t =>
        dsimp only
        rw [if_neg fun hf => hback ⟨t, hc, hf⟩]
    rw [hqueues]
    refine ⟨fun _ next queues hpop => ?_, fun _ t hc hf => absurd ⟨t, hc, hf⟩ hback⟩
    obtain ⟨-, ⟨i, hi⟩, -⟩ := hinv.proper.pop hpop
    exact hinv.running next i hi

theorem Flagged.boot (h : s.Flagged) (hinv : s.Inv priority midway) : s.boot.Flagged := by
  unfold Scheduler.boot
  cases hpop : s.queues.pop with
  | none => exact h
  | some r => exact (h.elect hinv.proper hpop).1

variable [DecidableEq τ]

theorem Flagged.schedule (h : s.Flagged) (t : τ) : (s.schedule priority t).Flagged := by
  unfold Scheduler.schedule
  cases s.status t with
  | stopped => exact h
  | waiting => exact h
  | running =>
    have hflag : ∀ u i, u ∈ s.queues i → update s.reschedule t true u = true := by
      intro u i hu
      by_cases hut : u = t
      · rw [hut, update_self]
      rw [update_of_ne hut]
      exact h u i hu
    by_cases hmem : t ∈ s.queues (level (priority t))
    · simp only [if_pos hmem]
      exact hflag
    simp only [if_neg hmem]
    intro u i hu
    rcases Lanes.mem_push.mp hu with hu | ⟨rfl, -⟩
    · exact hflag u i hu
    · exact update_self ..

theorem Flagged.unschedule (h : s.Flagged)
    (hproper : s.queues.Proper fun t => level (priority t)) (t : τ) :
    (s.unschedule priority t).Flagged := by
  intro u i hu
  obtain ⟨hu, hut⟩ := hproper.mem_remove.mp hu
  exact (update_of_ne hut _ _).trans (h u i hu)

theorem Flagged.settle (h : s.Flagged)
    (hproper : s.queues.Proper fun t => level (priority t)) (t : τ)
    (currentStatus newStatus : Status) :
    (s.settle priority t currentStatus newStatus).Flagged := by
  unfold Scheduler.settle
  cases currentStatus with
  | running =>
    cases newStatus with
    | running => exact h
    | stopped | waiting => exact h.unschedule hproper t
  | stopped | waiting =>
    cases newStatus with
    | running => exact h.schedule t
    | stopped | waiting => exact h

theorem Flagged.setStatus (h : s.Flagged)
    (hproper : s.queues.Proper fun t => level (priority t)) (t : τ) (st : Status) :
    (s.setStatus priority t st).Flagged := by
  exact Flagged.settle (s := s.storeStatus t st) h hproper t _ st

/-- Waking a thread schedules it at most. -/
theorem wake_cases (priority : τ → Nat) (s : Scheduler τ ε) (t : τ) :
    s.setStatus priority t .running = s.storeStatus t .running ∨
      s.setStatus priority t .running = (s.storeStatus t .running).schedule priority t := by
  unfold setStatus settle
  cases s.status t with
  | running => exact .inl rfl
  | stopped | waiting => exact .inr rfl

theorem reschedule_schedule (t : τ) {u : τ} (h : s.reschedule u = true) :
    (s.schedule priority t).reschedule u = true := by
  unfold schedule
  cases s.status t with
  | stopped | waiting => exact h
  | running =>
    have hupdate : update s.reschedule t true u = true := by
      by_cases hut : u = t
      · rw [hut, update_self]
      · rw [update_of_ne hut, h]
    rw [apply_ite reschedule, ite_self]
    exact hupdate

/-- Waking threads neither takes a flag away nor needs the queues to be in order. -/
theorem wakeAll_flags (priority : τ → Nat) (ts : List τ) {s : Scheduler τ ε} {u : τ} :
    (s.reschedule u = true → (s.wakeAll priority ts).reschedule u = true) ∧
      (s.Flagged → (s.wakeAll priority ts).Flagged) := by
  induction ts generalizing s with
  | nil => exact ⟨id, id⟩
  | cons t ts ih =>
    obtain ⟨hflag, hflagged⟩ := ih (s := s.setStatus priority t .running)
    refine ⟨fun h => hflag ?_, fun h => hflagged ?_⟩
    · rcases wake_cases priority s t with heq | heq
      · rw [heq]
        exact h
      rw [heq]
      exact reschedule_schedule t h
    rcases wake_cases priority s t with heq | heq
    · rw [heq]
      exact h
    rw [heq]
    exact Flagged.schedule (s := s.storeStatus t .running) h t

variable [DecidableEq ε]

theorem Flagged.step {c : Call τ ε} (h : s.Flagged) (hinv : s.Inv priority midway)
    (hc : s.CallOk c) (hs : s.step priority c = some (s', ())) : s'.Flagged := by
  have hswitch : ∀ {s s' : Scheduler τ ε}, s.Flagged → s.Inv priority midway →
      (s.switch priority).map (·, ()) = some (s', ()) → s'.Flagged := by
    intro s s' h hinv hs
    obtain ⟨s1, h1, hs1⟩ := Option.map_eq_some_iff.mp hs
    cases hs1
    rw [switch_eq_some h1]
    exact (h.scheduleNextThread hinv).1
  cases c with
  | schedule t =>
    cases hs
    exact h.schedule t
  | unschedule t =>
    cases hs
    exact h.unschedule hinv.proper t
  | setStatus t newStatus =>
    cases hs
    exact h.setStatus hinv.proper t newStatus
  | waitOn e t =>
    cases hs
    exact h.setStatus hinv.proper t .waiting
  | notify e =>
    cases hs
    intro t i ht
    exact (wakeAll_flags _ _ (u := t)).2 h t i ht
  | clearPending e =>
    cases hs
    exact h
  | timerInterrupt woken needReschedule =>
    intro t
    have hwoken := (wakeAll_flags priority woken (u := t)).2 h
    cases needReschedule with
    | false =>
      cases hs
      exact hwoken t
    | true => exact hswitch hwoken (hinv.wakeAll woken hc) hs t
  | switch => exact hswitch h hinv hs
  | boot =>
    cases hs
    exact h.boot hinv

end Scheduler

theorem Kernel.step_flagged {τ ε : Type} [DecidableEq τ] [DecidableEq ε] {priority : τ → Nat}
    {k k' : Kernel τ ε} {a : Kernel.Action τ ε} (h : k.scheduler.Flagged) (hinv : k.Inv priority)
    (hok : k.ActionOk a) (hs : k.step priority a = some (k', ())) : k'.scheduler.Flagged := by
  cases a with
  | call c =>
    obtain ⟨r, hr, hk⟩ := Option.map_eq_some_iff.mp hs
    cases hk
    exact h.step hinv hok.1 hr
  | storeStatus c =>
    obtain ⟨-, hs⟩ := Option.ite_none_right_eq_some.mp hs
    cases hs
    exact h
  | settle c =>
    obtain ⟨-, hs⟩ := Option.ite_none_right_eq_some.mp hs
    cases hs
    exact h.settle hinv.proper _ _ _
  | readStatus t newStatus =>
    cases hs
    exact h
  | push e t =>
    cases hs
    exact h

/-- Both invariants along a run. -/
theorem Kernel.run_flagged {τ ε : Type} [DecidableEq τ] [DecidableEq ε] {priority : τ → Nat}
    {k : Kernel τ ε} {actions : List (Kernel.Action τ ε)} {outs : List Unit}
    (hok : Guarded (Kernel.step priority) Kernel.ActionOk .new actions)
    (hrun : run (Kernel.step priority) .new actions = some (k, outs)) :
    k.Inv priority ∧ k.scheduler.Flagged := by
  have hall : ∀ (k : Kernel τ ε) (a : Kernel.Action τ ε) (k' : Kernel τ ε) (o : Unit),
      k.Inv priority ∧ k.scheduler.Flagged → k.ActionOk a → k.step priority a = some (k', o) →
      k'.Inv priority ∧ k'.scheduler.Flagged :=
    fun _ _ _ _ h hok hs => ⟨h.1.step hok hs, Kernel.step_flagged h.2 h.1 hok hs⟩
  have hinit : (Kernel.new : Kernel τ ε).Inv priority ∧
      (Kernel.new : Kernel τ ε).scheduler.Flagged := ⟨inv_new, fun _ _ h => by cases h⟩
  exact run_forall hall hinit hok hrun

/-! ## Running the scheduler -/

namespace Processor

open Scheduler

variable {τ ε ρ π : Type} [DecidableEq τ] {priority : τ → Nat} {pageTableOf : τ → π}
  {p : Processor τ ε ρ π}

/-- **What `scheduler::run` does**: nothing but a panic without a thread before or after it. -/
theorem run_eq (p : Processor τ ε ρ π) (frame : ρ) :
    p.run priority pageTableOf frame =
      match p.scheduler.current, (p.scheduler.scheduleNextThread priority).current with
      | some previous, some next =>
        some (⟨p.scheduler.scheduleNextThread priority,
            update p.registers previous frame, pageTableOf next⟩,
          update p.registers previous frame next)
      | _, _ => none := by
  unfold Processor.run saveRegisters restoreRegisters switchToCurrentThreadPageTable
  cases hprevious : p.scheduler.current with
  | none => rfl
  | some previous =>
    cases hnext : (p.scheduler.scheduleNextThread priority).current with
    | none => simp [hnext]
    | some next => simp [hnext]

theorem run_isSome_iff (pageTableOf : τ → π) (p : Processor τ ε ρ π) (frame : ρ) :
    (p.run priority pageTableOf frame).isSome = true ↔ p.scheduler.Ready := by
  rw [run_eq, ready_iff priority]
  cases p.scheduler.current with
  | none => simp
  | some previous =>
    cases (p.scheduler.scheduleNextThread priority).current with
    | none => simp
    | some next => simp

/-- A thread that will be scheduled again is enough for any timer. -/
theorem responsive [DecidableEq ε] {t : τ} (hcurrent : p.scheduler.current = some t)
    (hflag : p.scheduler.reschedule t = true) : p.Responsive priority pageTableOf := by
  have hhandle : ∀ (p : Processor τ ε ρ π) woken needReschedule frame,
      p.scheduler.current = some t → p.scheduler.reschedule t = true →
      (p.timerInterruptHandler priority pageTableOf woken needReschedule frame).isSome = true := by
    intro p woken needReschedule frame hcurrent hflag
    unfold timerInterruptHandler
    cases needReschedule with
    | false => rfl
    | true =>
      rw [if_pos rfl, run_isSome_iff]
      exact ⟨t, (current_wakeAll woken _).trans hcurrent, .inl ((wakeAll_flags _ woken).1 hflag)⟩
  intro woken needReschedule frame
  refine ⟨hhandle p woken needReschedule frame hcurrent hflag, ?_⟩
  intro e
  apply hhandle
  · exact (current_wakeAll _ _).trans hcurrent
  · exact (wakeAll_flags _ _).1 hflag

variable [DecidableEq ε]

/-- The only thread waits for an event and yields: there is nobody to restore registers from. -/
def lastThreadWaits : List (Kernel.Action Nat Unit) :=
  [.call (.schedule 1), .call .boot, .call (.waitOn () 1)]

end Processor
end Moose.Sched
