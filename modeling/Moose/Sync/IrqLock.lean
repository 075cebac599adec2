import Mathlib.Data.List.Perm.Basic
import Moose.Lib.Run

/-!
# Locks that disable interrupts

`IrqGuardedMutex` and `IrqGuardedRwLock` of `subsystem/sync.rs` wrap a spin lock. A guard remembers
whether interrupts were enabled when it was taken and restores that when it is dropped. A handler
that takes a lock its own processor holds never returns, so interrupts must stay off while one is
held.

The order inside a guard matters: a mutex guard and a read guard drop their fields as declared, the
interrupt flag before the lock, while a write guard drops the lock first. And an outer guard may be
dropped before an inner one. Every call therefore yields the *moments* it goes through, the states
an interrupt could find. `run_safe_iff` says for which runs all of them are safe.
-/

set_option autoImplicit false

namespace Moose.Sync

open Lib

variable {L : Type}

/-- A spin lock that is held, and how. -/
inductive Hold (L : Type) where
  | mutex (l : L)
  | read (l : L)
  | write (l : L)
deriving DecidableEq

namespace Hold

/-- The second cannot be had while the first is held. -/
def blocks [DecidableEq L] : Hold L → Hold L → Bool
  | .mutex a, .mutex b => a = b
  | .read a, .write b => a = b
  | .write a, .read b => a = b
  | .write a, .write b => a = b
  | _, _ => false

def isWrite : Hold L → Bool
  | .write _ => true
  | _ => false

end Hold

/-- The spin guard inside, and `interrupts_were_enabled`. -/
structure Guard (L : Type) where
  hold : Hold L
  interruptsWereEnabled : Bool

/-- One processor: its interrupt flag, the spin locks its code holds and the guards it has. -/
structure Cpu (L : Type) where
  interrupts : Bool
  held : List (Hold L) := []
  guards : List (Guard L) := []

/-- The state after a call and the moments on the way there, the last one included. -/
abbrev Result (L : Type) := Cpu L × List (Cpu L)

namespace Cpu

/-! ## The code -/

def disableAndCapture (s : Cpu L) : Bool × Cpu L := (s.interrupts, { s with interrupts := false })

/-- The destructor of `IrqRestore`. -/
def restore (s : Cpu L) (interruptsWereEnabled : Bool) : Cpu L :=
  if interruptsWereEnabled then { s with interrupts := true } else s

def take (s : Cpu L) (h : Hold L) (interruptsWereEnabled : Bool) : Cpu L :=
  { s with held := h :: s.held, guards := ⟨h, interruptsWereEnabled⟩ :: s.guards }

section

variable [DecidableEq L]

section

variable (s : Cpu L)

/-- The lock is free as far as this code is concerned. -/
def available (h : Hold L) : Bool := !s.held.any (·.blocks h)

/-- Spins until the lock is free. If this code holds it itself, that is never (`none`), and
interrupts are off then. -/
def acquire (h : Hold L) : Option (Result L) :=
  let (interruptsWereEnabled, masked) := s.disableAndCapture
  let taken := masked.take h interruptsWereEnabled
  if s.available h then some (taken, [masked, taken]) else none

/-- `contended` if other processors are in the way. The flag is restored when there is no guard. -/
def tryAcquire (h : Hold L) (contended : Bool) : Result L :=
  let (interruptsWereEnabled, masked) := s.disableAndCapture
  let taken := masked.take h interruptsWereEnabled
  let restored := masked.restore interruptsWereEnabled
  if s.available h && !contended then (taken, [masked, taken]) else (restored, [masked, restored])

def lock (l : L) : Option (Result L) := s.acquire (.mutex l)

def tryLock (l : L) (contended : Bool) : Result L := s.tryAcquire (.mutex l) contended

def read (s : Cpu L) (l : L) : Option (Result L) := s.acquire (.read l)

def write (s : Cpu L) (l : L) : Option (Result L) := s.acquire (.write l)

def tryRead (l : L) (contended : Bool) : Result L := s.tryAcquire (.read l) contended

def tryWrite (l : L) (contended : Bool) : Result L := s.tryAcquire (.write l) contended

/-- The destructor of a spin guard. -/
def unlock (h : Hold L) : Cpu L := { s with held := s.held.erase h }

/-- Mutex guards and read guards have no destructor of their own: `irq_restore` is the first field.
-/
def dropFields (g : Guard L) : Result L :=
  let restored := s.restore g.interruptsWereEnabled
  let unlocked := restored.unlock g.hold
  (unlocked, [restored, unlocked])

def dropWriteGuard (g : Guard L) : Result L :=
  let unlocked := s.unlock g.hold
  let restored := unlocked.restore g.interruptsWereEnabled
  (restored, [unlocked, restored])

/-- A guard is dropped; `i` is its place among the guards, the latest first. -/
def drop (i : Nat) : Option (Result L) := do
  let g ← s.guards[i]?
  let s := { s with guards := s.guards.eraseIdx i }
  some (if g.hold.isWrite then s.dropWriteGuard g else s.dropFields g)

/-! ## Runs -/

end

inductive Call (L : Type) where
  | lock (l : L)
  | tryLock (l : L) (contended : Bool)
  | read (l : L)
  | write (l : L)
  | tryRead (l : L) (contended : Bool)
  | tryWrite (l : L) (contended : Bool)
  | drop (i : Nat)

def step (s : Cpu L) : Call L → Option (Result L)
  | .lock l => s.lock l
  | .tryLock l contended => some (s.tryLock l contended)
  | .read l => s.read l
  | .write l => s.write l
  | .tryRead l contended => some (s.tryRead l contended)
  | .tryWrite l contended => some (s.tryWrite l contended)
  | .drop i => s.drop i

end

/-- Interrupts are not enabled while a lock is held. -/
def Safe (s : Cpu L) : Prop := s.interrupts = true → s.held = []

/-- A guard that enables interrupts again is a write guard, and it is the only one. -/
def DropOk (s : Cpu L) : Call L → Prop
  | .drop i => ∀ g ∈ s.guards[i]?, g.interruptsWereEnabled = true →
      g.hold.isWrite = true ∧ s.guards.length = 1
  | _ => True

instance (s : Cpu L) : (call : Call L) → Decidable (s.DropOk call)
  | .drop i => inferInstanceAs (Decidable (∀ g ∈ s.guards[i]?, _))
  | .lock _ | .tryLock _ _ | .read _ | .write _ | .tryRead _ _ | .tryWrite _ _ => isTrue trivial

/-! ## The invariant -/

/-- The locks held are those of the guards, and with a guard around interrupts are off. -/
structure Inv (s : Cpu L) : Prop where
  held : s.held.Perm (s.guards.map Guard.hold)
  masked : s.interrupts = true → s.guards = []

variable {s s' : Cpu L} {moments : List (Cpu L)}

theorem safe_of_masked (h : s.interrupts = false) : s.Safe := by
  intro htrue
  rw [h] at htrue
  cases htrue

theorem forall_safe_pair : (∀ m ∈ [s, s'], m.Safe) ↔ s.Safe ∧ s'.Safe := by simp

theorem Inv.safe (h : s.Inv) : s.Safe := by
  intro hinterrupts
  have hperm := h.held
  rw [h.masked hinterrupts] at hperm
  exact hperm.eq_nil

theorem Inv.take (h : s.Inv) (hold : Hold L) (saved : Bool) :
    Inv ({ s with interrupts := false }.take hold saved) :=
  ⟨h.held.cons hold, fun htrue => by cases htrue⟩

theorem restore_masked (h : s.interrupts = false) (saved : Bool) :
    s.restore saved = { s with interrupts := saved } := by
  obtain ⟨interrupts, held, guards⟩ := s
  cases h
  cases saved
  · rfl
  · rfl

variable [DecidableEq L]

/-- Taking a lock is safe throughout. -/
theorem Inv.acquire (h : s.Inv) {hold : Hold L} (hrun : s.acquire hold = some (s', moments)) :
    (∀ m ∈ moments, m.Safe) ∧ s'.Inv := by
  simp only [Cpu.acquire, disableAndCapture] at hrun
  split at hrun
  · cases hrun
    exact ⟨forall_safe_pair.mpr ⟨safe_of_masked rfl, safe_of_masked rfl⟩, h.take hold _⟩
  · cases hrun

/-- So is an attempt to, whatever comes of it. -/
theorem Inv.tryAcquire (h : s.Inv) (hold : Hold L) (contended : Bool) :
    (∀ m ∈ (s.tryAcquire hold contended).2, m.Safe) ∧ (s.tryAcquire hold contended).1.Inv := by
  simp only [Cpu.tryAcquire, disableAndCapture]
  split
  · exact ⟨forall_safe_pair.mpr ⟨safe_of_masked rfl, safe_of_masked rfl⟩, h.take hold _⟩
  have hback : { s with interrupts := false }.restore s.interrupts = s := by
    cases s with | mk interrupts => cases interrupts <;> rfl
  rw [hback]
  exact ⟨forall_safe_pair.mpr ⟨safe_of_masked rfl, h.safe⟩, h⟩

/-- The flag comes first: dropping the fields is safe only if they leave interrupts off. -/
theorem dropFields_masked (h : s.interrupts = false) (hheld : s.held ≠ []) (g : Guard L) :
    (s.dropFields g).1 =
        { s with interrupts := g.interruptsWereEnabled, held := s.held.erase g.hold } ∧
      ((∀ m ∈ (s.dropFields g).2, m.Safe) ↔ g.interruptsWereEnabled = false) := by
  unfold dropFields unlock
  rw [restore_masked h]
  refine ⟨rfl, ?_⟩
  rw [forall_safe_pair]
  constructor
  · rintro ⟨hrestored, -⟩
    rw [← Bool.not_eq_true]
    intro htrue
    exact hheld (hrestored htrue)
  · intro hsaved
    exact ⟨safe_of_masked hsaved, safe_of_masked hsaved⟩

/-- The lock comes first: what matters is whether it was the last one. -/
theorem dropWriteGuard_masked (h : s.interrupts = false) (g : Guard L) :
    (s.dropWriteGuard g).1 =
        { s with interrupts := g.interruptsWereEnabled, held := s.held.erase g.hold } ∧
      ((∀ m ∈ (s.dropWriteGuard g).2, m.Safe) ↔
        (g.interruptsWereEnabled = true → s.held.erase g.hold = [])) := by
  have hunlocked : (s.unlock g.hold).interrupts = false := h
  dsimp only [dropWriteGuard]
  rw [restore_masked hunlocked]
  refine ⟨rfl, ?_⟩
  rw [forall_safe_pair]
  exact and_iff_right (safe_of_masked h)

/-- **Dropping a guard** is safe exactly if the condition is met, and then it keeps the invariant.
-/
theorem Inv.drop (h : s.Inv) {i : Nat} (hrun : s.drop i = some (s', moments)) :
    ((∀ m ∈ moments, m.Safe) ↔ s.DropOk (.drop i)) ∧ (s.DropOk (.drop i) → s'.Inv) := by
  obtain ⟨g, hg, hrun⟩ := bind_eq_some.mp hrun
  obtain ⟨hi, hget⟩ := List.getElem?_eq_some_iff.mp hg
  -- the other guards, and the other locks
  have hguards : s.guards.Perm (g :: s.guards.eraseIdx i) := by
    rw [← hget]
    exact (List.getElem_cons_eraseIdx_perm hi).symm
  have hheld : s.held.Perm (g.hold :: (s.guards.eraseIdx i).map Guard.hold) :=
    h.held.trans (hguards.map Guard.hold)
  have hrest : (s.held.erase g.hold).Perm ((s.guards.eraseIdx i).map Guard.hold) := by
    have := hheld.erase g.hold
    rwa [List.erase_cons_head] at this
  have hmasked : s.interrupts = false := by
    rw [← Bool.not_eq_true]
    intro htrue
    rw [h.masked htrue] at hi
    exact absurd hi (Nat.not_lt_zero i)
  have hlast : s.guards.length = 1 ↔ s.held.erase g.hold = [] := by
    rw [hguards.length_eq, ← List.length_eq_zero_iff, hrest.length_eq]
    simp
  have hok : s.DropOk (.drop i) ↔ (g.interruptsWereEnabled = true →
      g.hold.isWrite = true ∧ s.held.erase g.hold = []) := by
    simp [DropOk, hg, forall_eq', hlast]
  have hinv : s.DropOk (.drop i) → Inv { s with
      interrupts := g.interruptsWereEnabled, held := s.held.erase g.hold,
      guards := s.guards.eraseIdx i } := by
    intro hcond
    refine ⟨hrest, ?_⟩
    intro htrue
    have hnil := hrest
    rw [(hok.mp hcond htrue).2] at hnil
    exact List.map_eq_nil_iff.mp hnil.symm.eq_nil
  cases hwrite : g.hold.isWrite with
  | false =>
    have hne : s.held ≠ [] := by
      intro hnil
      rw [hnil] at hheld
      exact absurd hheld.symm.eq_nil (List.cons_ne_nil _ _)
    obtain ⟨hfinal, hsafe⟩ := dropFields_masked (s := { s with guards := s.guards.eraseIdx i })
      hmasked hne g
    simp only [hwrite, Bool.false_eq_true, if_false, Option.some.injEq] at hrun
    rw [hrun] at hfinal hsafe
    subst hfinal
    refine ⟨?_, hinv⟩
    rw [hsafe, hok, hwrite]
    simp
  | true =>
    obtain ⟨hfinal, hsafe⟩ := dropWriteGuard_masked (s := { s with guards := s.guards.eraseIdx i })
      hmasked g
    simp only [hwrite, if_true, Option.some.injEq] at hrun
    rw [hrun] at hfinal hsafe
    subst hfinal
    refine ⟨?_, hinv⟩
    rw [hsafe, hok, hwrite]
    simp

theorem Inv.step (h : s.Inv) {call : Call L} (hrun : s.step call = some (s', moments)) :
    ((∀ m ∈ moments, m.Safe) ↔ s.DropOk call) ∧ (s.DropOk call → s'.Inv) := by
  have hacquire : ∀ {hold : Hold L}, s.acquire hold = some (s', moments) →
      ((∀ m ∈ moments, m.Safe) ↔ True) ∧ (True → s'.Inv) := by
    intro hold hrun
    obtain ⟨hsafe, hinv⟩ := h.acquire hrun
    exact ⟨iff_true_intro hsafe, fun _ => hinv⟩
  have htry : ∀ {hold : Hold L} {contended : Bool},
      some (s.tryAcquire hold contended) = some (s', moments) →
      ((∀ m ∈ moments, m.Safe) ↔ True) ∧ (True → s'.Inv) := by
    intro hold contended hrun
    obtain ⟨hsafe, hinv⟩ := h.tryAcquire hold contended
    rw [Option.some.inj hrun] at hsafe hinv
    exact ⟨iff_true_intro hsafe, fun _ => hinv⟩
  cases call with
  | lock l => exact hacquire hrun
  | tryLock l contended => exact htry hrun
  | read l => exact hacquire hrun
  | write l => exact hacquire hrun
  | tryRead l contended => exact htry hrun
  | tryWrite l contended => exact htry hrun
  | drop i => exact h.drop hrun

/-- **Interrupts are never enabled while a lock is held** exactly in the runs in which a guard that
enables them again is a write guard and the last one. -/
theorem run_safe_iff (calls : List (Call L)) (s' : Cpu L) (moments : List (List (Cpu L)))
    (hrun : run step { interrupts := true } calls = some (s', moments)) :
    (∀ ms ∈ moments, ∀ m ∈ ms, m.Safe) ↔ Guarded step DropOk { interrupts := true } calls := by
  have hinit : Inv ({ interrupts := true } : Cpu L) := ⟨.nil, fun _ => rfl⟩
  exact run_outputs_iff (fun _ _ _ _ h hstep => Inv.step h hstep) hinit hrun

/-- A write guard around another lock, and an attempt that fails. -/
def nested : List (Call Nat) :=
  [.write 0, .lock 1, .tryLock 1 false, .drop 0, .drop 0, .tryRead 0 true]

theorem run_safe_iff_nested :
    ∃ s' moments, run step { interrupts := true } nested = some (s', moments) ∧
      ∀ ms ∈ moments, ∀ m ∈ ms, m.Safe := by
  refine exists_some_imp (p := fun _ _ => True) (by decide) fun s' moments hrun _ => ?_
  exact (run_safe_iff nested s' moments hrun).mpr (by decide)

/-- A mutex that is locked and unlocked: for a moment it is held with interrupts enabled. -/
theorem mutex_held_with_interrupts :
    ∃ s' moments, run step { interrupts := true } [Call.lock 0, .drop 0] = some (s', moments) ∧
      ∃ ms ∈ moments, ∃ m ∈ ms, m.interrupts = true ∧ m.held = [Hold.mutex 0] := by
  refine ⟨_, _, rfl, ?_⟩
  decide

end Cpu

end Moose.Sync
