import Moose.Clock.Timer

/-!
# Handles of timers

`add_timer` returns a stable handle, and `cancel` takes the timer away that the handle was returned
for. The handle is the index of a node of the tree, so what it finds is the key of that node: the
one the timer was registered under. A timer that has not fired is queued under this key and no
other. But when a periodic timer fires, `poll_expired` removes its node and inserts another one,
under a later key and with an index that nobody is told. From then on the handle finds nothing:
`cancel` returns `false` and the timer keeps firing.

Every operation keeps the entries it does not remove, with their indices, and what it adds has a
new registration number (`Follows`). That a handle keeps standing for its own timer follows from
this alone.

A run has to keep two things (`OpOk`). The counter of registrations does not wrap, because two
timers could then have one key. And an index that was handed out never comes to stand for another
node, which is what the generation in an index is for; the laws of `GenArena` compare a new index
only with those in use.
-/

set_option autoImplicit false

namespace Moose.Clock

open Option Lib RbTree Function

variable {Idx Callback : Type} [DecidableEq Idx]
variable {A : GenArena Idx (Node Idx TimerQueueKey (Timer Callback))}
variable {h h' h1 : HrTimer A} {m m' m1 : OrdMap Idx TimerQueueKey (Timer Callback)}

namespace HrTimer

/-- The timers stand for the map `m`, and the counter is past all registrations in it. -/
structure Counts (h : HrTimer A) (m : OrdMap Idx TimerQueueKey (Timer Callback)) : Prop where
  holds : h.Holds m
  order : ∀ key, (m key).isSome → key.order < h.nextOrder

/-- What is queued afterwards was queued before, with the same index, or is registered since. -/
def Follows (h : HrTimer A) (m : OrdMap Idx TimerQueueKey (Timer Callback)) (h' : HrTimer A)
    (m' : OrdMap Idx TimerQueueKey (Timer Callback)) : Prop :=
  h.nextOrder ≤ h'.nextOrder ∧
    ∀ key entry, m' key = some entry → m key = some entry ∨ h.nextOrder ≤ key.order

omit [DecidableEq Idx] in
theorem Follows.trans (h₁ : Follows h m h1 m1) (h₂ : Follows h1 m1 h' m') : Follows h m h' m' := by
  refine ⟨h₁.1.trans h₂.1, fun key entry hentry => ?_⟩
  rcases h₂.2 key entry hentry with hentry | hnew
  · exact h₁.2 key entry hentry
  · exact .inr (h₁.1.trans hnew)

section

variable (hm : h.Holds m)
include hm

/-- An index finds the key that the entry with this index is queued under. -/
theorem Holds.queueKeyOf {i : Idx} {key : TimerQueueKey} :
    h.queueKeyOf i = some key ↔ ∃ timer, m key = some (i, timer) := by
  obtain ⟨T, hT⟩ := hm.1
  constructor
  · intro hkey
    obtain ⟨node, hnode, rfl⟩ := map_eq_some_iff.mp hkey
    obtain ⟨hmodels, -, rfl⟩ := hT
    obtain ⟨e, he, rfl⟩ := List.mem_map.mp (hmodels.live i (by rw [hnode]; rfl))
    obtain ⟨n, hn, hkey, -⟩ := hmodels.at_root.arenaGet_of_mem he
    cases hn.symm.trans hnode
    have hlookup := (lookup_eq_some hmodels.sorted).mpr ⟨he, rfl⟩
    exact ⟨e.value, by rw [hkey, toMap, hlookup, map_some]⟩
  · rintro ⟨timer, hentry⟩
    obtain ⟨node, hnode, hkey, -⟩ := hT.answers.index key i timer hentry
    rw [HrTimer.queueKeyOf, hnode, map_some, hkey]

theorem Holds.get (key : TimerQueueKey) : h.queue.get key = some ((m key).map Prod.snd) := by
  obtain ⟨T, hT⟩ := hm.1
  exact hT.answers.get key

end

section

variable (hm : h.Counts m)
include hm

theorem Counts.remove (key : TimerQueueKey) :
    ∃ queue, h.queue.remove key = some (queue, (m key).map Prod.snd) ∧
      Counts { h with queue := queue } (update m key none) ∧
      Follows h m { h with queue := queue } (update m key none) := by
  obtain ⟨queue, hrem, hm'⟩ := hm.holds.remove key
  refine ⟨queue, hrem, ⟨hm', fun k hk => ?_⟩, Nat.le_refl _,
    fun k entry hentry => .inl (update_none_eq_some hentry)⟩
  obtain ⟨entry, hentry⟩ := isSome_iff_exists.mp hk
  exact hm.order k (update_none_eq_some hentry ▸ rfl)

theorem Counts.removeKey {key : Option TimerQueueKey} {removed : Bool}
    (hs : h.removeKey key = some (h', removed)) : ∃ m', h'.Counts m' ∧ Follows h m h' m' := by
  cases key with
  | none =>
    cases hs
    exact ⟨m, hm, Nat.le_refl _, fun _ _ => .inl⟩
  | some key =>
    obtain ⟨queue, hrem, hm'⟩ := hm.remove key
    simp only [HrTimer.removeKey, hrem] at hs
    cases hs
    exact ⟨_, hm'⟩

theorem Counts.insertTimer {timer : Timer Callback} {i : Idx}
    (hs : h.insertTimer timer = some (h', i)) (hcount : h.nextOrder + 1 < 2 ^ 64) :
    h'.Counts (update m ⟨timer.expiresAt, h.nextOrder⟩ (some (i, timer))) ∧
      Follows h m h' (update m ⟨timer.expiresAt, h.nextOrder⟩ (some (i, timer))) := by
  have hnext : h'.nextOrder = h.nextOrder + 1 := by
    obtain ⟨⟨queue, i⟩, -, hs⟩ := bind_eq_some.mp hs
    cases hs
    exact Nat.mod_eq_of_lt hcount
  refine ⟨⟨hm.holds.insertTimer hs, fun k hk => ?_⟩, by omega, fun k entry hk => ?_⟩ <;>
    by_cases hkey : k = ⟨timer.expiresAt, h.nextOrder⟩
  · rw [hkey, hnext]
    exact Nat.lt_succ_self _
  · rw [update_of_ne hkey] at hk
    exact hnext ▸ (hm.order k hk).trans (Nat.lt_succ_self _)
  · exact .inr (hkey ▸ Nat.le_refl _)
  · rw [update_of_ne hkey] at hk
    exact .inl hk

theorem Counts.pollExpired {now : Nat} {fired : Option (Timer Callback)}
    (hs : h.pollExpired now = some (h', fired)) (hcount : h.nextOrder + 1 < 2 ^ 64) :
    ∃ m', h'.Counts m' ∧ Follows h m h' m' := by
  have hsame : Follows h m h m := ⟨Nat.le_refl _, fun _ _ => .inl⟩
  obtain ⟨first, -, hs⟩ := bind_eq_some.mp hs
  split at hs
  · cases hs
    exact ⟨m, hm, hsame⟩
  next key =>
  split at hs
  case isFalse =>
    cases hs
    exact ⟨m, hm, hsame⟩
  obtain ⟨queue, hrem, hm', hfollows⟩ := hm.remove key
  simp only [hrem, some_bind] at hs
  split at hs
  · cases hs
    exact ⟨_, hm', hfollows⟩
  obtain ⟨h1, hre, hs⟩ := bind_eq_some.mp hs
  cases hs
  unfold HrTimer.reinsertPeriodic at hre
  split at hre
  case isFalse =>
    cases hre
    exact ⟨_, hm', hfollows⟩
  split at hre
  · cases hre
  obtain ⟨⟨h2, i⟩, hins, hre⟩ := bind_eq_some.mp hre
  cases hre
  obtain ⟨hm2, hfollows2⟩ := hm'.insertTimer hins hcount
  exact ⟨_, hm2, hfollows.trans hfollows2⟩

end
end HrTimer

namespace Cpu

variable (lapicFrequency : Nat)

/-- What is done with the timers, one expired timer at a time. -/
inductive Op (Idx Callback : Type) where
  | addTimer (current : Nat) (timer : Timer Callback)
  | pollExpired (now : Nat)
  | removeTimer (expires : Nat)
  | cancel (handle : Idx)

def perform (s : Cpu A) : Op Idx Callback → Option (Cpu A × Out Idx Callback)
  | .addTimer current timer => s.step lapicFrequency (.addTimer current timer)
  | .removeTimer expires => s.step lapicFrequency (.removeTimer expires)
  | .cancel handle => s.step lapicFrequency (.cancel handle)
  | .pollExpired now => do
    let (hrTimers, fired) ← s.hrTimers.pollExpired now
    some ({ s with hrTimers := hrTimers }, .fired fired.toList)

def Counted (s : Cpu A) (_ : Op Idx Callback) : Prop := s.hrTimers.nextOrder + 1 < 2 ^ 64

/-- The counter does not wrap, and the handle stands for its node or for nothing. -/
def OpOk (i : Idx) (s : Cpu A) (op : Op Idx Callback) : Prop :=
  s.Counted op ∧ ∀ r ∈ s.perform lapicFrequency op,
    r.1.hrTimers.queueKeyOf i = s.hrTimers.queueKeyOf i ∨ r.1.hrTimers.queueKeyOf i = none

instance (s : Cpu A) (op : Op Idx Callback) : Decidable (s.Counted op) := by
  unfold Counted
  infer_instance

instance (i : Idx) (s : Cpu A) (op : Op Idx Callback) : Decidable (s.OpOk lapicFrequency i op) := by
  unfold OpOk
  infer_instance

/-- A timer is queued under `key`. -/
abbrev Queued (s : Cpu A) (key : TimerQueueKey) : Prop := s.hrTimers.queue.contains key = some true

/-- `cancel` finds the timer registered under `key` exactly if it is queued there, takes no other
one away, and the timer is never queued there again. -/
def CancelExact (i : Idx) (key : TimerQueueKey) (s : Cpu A) : Prop :=
  ∃ s' removed, s.perform lapicFrequency (.cancel i) = some (s', .removed removed) ∧
    (removed = true ↔ s.Queued key) ∧
    (∀ k ≠ key, s'.hrTimers.queue.get k = s.hrTimers.queue.get k) ∧
    ∀ ops s'' outs, Guarded (perform lapicFrequency) (OpOk lapicFrequency i) s' ops →
      run (perform lapicFrequency) s' ops = some (s'', outs) → ¬ s''.Queued key

/-! ## The handle stands for its timer -/

variable {lapicFrequency} {s s' : Cpu A} {i : Idx} {key : TimerQueueKey}

/-- Programming the count leaves the queue alone. -/
theorem insertTimer_of_addTimer {current : Nat} {timer : Timer Callback}
    (hs : s.addTimer lapicFrequency current timer = some (s', i)) :
    s.hrTimers.insertTimer timer = some (s'.hrTimers, i) := by
  unfold Cpu.addTimer at hs
  split at hs
  · cases hs
  obtain ⟨s1, hprogram, hs⟩ := bind_eq_some.mp hs
  obtain ⟨⟨hrTimers, j⟩, hins, hs⟩ := bind_eq_some.mp hs
  cases hs
  obtain ⟨next, -, hprogram⟩ := bind_eq_some.mp hprogram
  split at hprogram
  · split at hprogram <;> cases hprogram
    exact hins
  · cases hprogram
    exact hins

theorem counts_perform (hm : s.hrTimers.Counts m) {op : Op Idx Callback} {out : Out Idx Callback}
    (hok : s.Counted op) (hs : s.perform lapicFrequency op = some (s', out)) :
    ∃ m', s'.hrTimers.Counts m' ∧ s.hrTimers.Follows m s'.hrTimers m' := by
  cases op with
  | addTimer current timer =>
    obtain ⟨⟨s1, j⟩, hadd, hs⟩ := bind_eq_some.mp hs
    cases hs
    have hm' := hm.insertTimer (insertTimer_of_addTimer hadd) hok
    exact ⟨_, hm'⟩
  | pollExpired now =>
    obtain ⟨⟨hrTimers, fired⟩, hpoll, hs⟩ := bind_eq_some.mp hs
    cases hs
    exact hm.pollExpired hpoll hok
  | removeTimer expires =>
    obtain ⟨⟨s1, removed⟩, hrem, hs⟩ := bind_eq_some.mp hs
    obtain ⟨⟨hrTimers, removed'⟩, hrem, hs1⟩ := bind_eq_some.mp hrem
    obtain ⟨found, -, hrem⟩ := bind_eq_some.mp hrem
    cases hs1
    cases hs
    exact hm.removeKey hrem
  | cancel handle =>
    obtain ⟨⟨s1, removed⟩, hcancel, hs⟩ := bind_eq_some.mp hs
    obtain ⟨⟨hrTimers, removed'⟩, hrem, hs1⟩ := bind_eq_some.mp hcancel
    cases hs1
    cases hs
    exact hm.removeKey hrem

/-- The handle `i` was returned for the timer registered under `key`. -/
structure Tracks (i : Idx) (key : TimerQueueKey) (h : HrTimer A)
    (m : OrdMap Idx TimerQueueKey (Timer Callback)) : Prop where
  counts : h.Counts m
  past : key.order < h.nextOrder
  index : ∀ entry, m key = some entry → entry.1 = i
  finds : ∀ k, h.queueKeyOf i = some k → k = key

theorem Tracks.afterOp (ht : Tracks i key s.hrTimers m) {op : Op Idx Callback}
    {out : Out Idx Callback} (hok : s.OpOk lapicFrequency i op)
    (hs : s.perform lapicFrequency op = some (s', out)) :
    ∃ m', Tracks i key s'.hrTimers m' ∧ (m key = none → m' key = none) := by
  obtain ⟨m', hm', hfollows⟩ := counts_perform ht.counts hok.1 hs
  have hold : ∀ entry, m' key = some entry → m key = some entry := fun entry hentry =>
    (hfollows.2 key entry hentry).resolve_right (Nat.not_le.mpr ht.past)
  refine ⟨m', ⟨hm', ht.past.trans_le hfollows.1,
    fun entry hentry => ht.index entry (hold entry hentry), fun k hk => ?_⟩, fun hnone => ?_⟩
  · rcases hok.2 _ hs with hsame | hgone
    · exact ht.finds k (hsame.symm.trans hk)
    · cases hgone.symm.trans hk
  · refine eq_none_iff_forall_ne_some.mpr fun entry hentry => ?_
    cases hnone.symm.trans (hold entry hentry)

theorem queued_iff (hm : s.hrTimers.Holds m) : s.Queued key ↔ (m key).isSome := by
  obtain ⟨T, hT⟩ := hm.1
  rw [Queued, hT.answers.contains, some.injEq]

section

variable {ops : List (Op Idx Callback)} {outs : List (Out Idx Callback)}

theorem Tracks.afterRun (ht : Tracks i key s.hrTimers m)
    (hok : Guarded (perform lapicFrequency) (OpOk lapicFrequency i) s ops)
    (hrun : run (perform lapicFrequency) s ops = some (s', outs)) :
    ∃ m', Tracks i key s'.hrTimers m' ∧ (m key = none → m' key = none) := by
  have hstep : ∀ (u : Cpu A) op u' out,
      (∃ m', Tracks i key u.hrTimers m' ∧ (m key = none → m' key = none)) →
      u.OpOk lapicFrequency i op → u.perform lapicFrequency op = some (u', out) →
        ∃ m', Tracks i key u'.hrTimers m' ∧ (m key = none → m' key = none) := by
    rintro u op u' out ⟨m1, ht1, hstays⟩ hok hs
    obtain ⟨m', ht', hstays'⟩ := ht1.afterOp hok hs
    exact ⟨m', ht', hstays' ∘ hstays⟩
  exact run_forall hstep ⟨m, ht, id⟩ hok hrun

/-- A timer that is gone does not come back. -/
theorem run_gone (ht : Tracks i key s.hrTimers m) (hgone : m key = none)
    (hok : Guarded (perform lapicFrequency) (OpOk lapicFrequency i) s ops)
    (hrun : run (perform lapicFrequency) s ops = some (s', outs)) : ¬ s'.Queued key := by
  obtain ⟨m', ht', hstays⟩ := ht.afterRun hok hrun
  rw [queued_iff ht'.counts.holds, hstays hgone]
  exact nofun

theorem Tracks.cancelExact (ht : Tracks i key s.hrTimers m) :
    s.CancelExact lapicFrequency i key := by
  have hqueued : s.Queued key ↔ (m key).isSome := queued_iff ht.counts.holds
  cases hq : s.hrTimers.queueKeyOf i with
  | none =>
    have hgone : m key = none := by
      refine eq_none_iff_forall_ne_some.mpr fun ⟨j, timer⟩ hentry => ?_
      obtain rfl : j = i := ht.index _ hentry
      cases hq.symm.trans (ht.counts.holds.queueKeyOf.mpr ⟨timer, hentry⟩)
    refine ⟨s, false, ?_, ?_, fun _ _ => rfl, fun ops s'' outs => run_gone ht hgone⟩
    · simp only [Cpu.perform, step, Cpu.cancel, HrTimer.cancel, hq, HrTimer.removeKey, some_bind]
    · rw [hqueued, hgone]
      simp
  | some k =>
    obtain rfl := ht.finds k hq
    obtain ⟨timer, hentry⟩ := ht.counts.holds.queueKeyOf.mp hq
    obtain ⟨queue, hrem, hm', -⟩ := ht.counts.remove k
    have hs : s.perform lapicFrequency (.cancel i) =
        some ({ s with hrTimers := { s.hrTimers with queue := queue } }, .removed true) := by
      simp only [Cpu.perform, step, Cpu.cancel, HrTimer.cancel, hq, HrTimer.removeKey, hrem,
        hentry, some_bind, map_some, isSome_some]
    have ht' : Tracks i k { s.hrTimers with queue := queue } (update m k none) := by
      refine ⟨hm', ht.past, fun entry hentry => ?_, fun k' hk' => ?_⟩
      · rw [update_self] at hentry
        cases hentry
      · obtain ⟨timer', hentry'⟩ := hm'.holds.queueKeyOf.mp hk'
        exact ht.finds k' (ht.counts.holds.queueKeyOf.mpr
          ⟨timer', HrTimer.update_none_eq_some hentry'⟩)
    refine ⟨_, true, hs, ?_, fun k' hne => ?_, fun ops s'' outs => run_gone ht' (update_self ..)⟩
    · rw [hqueued, hentry]
      simp
    · rw [hm'.holds.get, ht.counts.holds.get, update_of_ne hne]

end

end Cpu
end Moose.Clock
