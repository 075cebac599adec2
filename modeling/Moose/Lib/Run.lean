import Mathlib.Data.Option.Basic

/-!
# Runs of a partial machine

A machine takes a state and an input to a new state and an output, or fails (`none`: a panic).
`run` feeds it a list of inputs. Five rules package every induction over a run made in this
development:

* `run_inv` — an invariant that every step keeps, for inputs that meet a guard, holds at the end
  of every run whose steps all meet the guard, and such a run does not fail;
* `run_sim` — a machine that simulates an abstract transition system step by step has, for every
  run, an abstract run with the same inputs and outputs (`run_sim_guarded` if it may fail);
* `run_forall` — the same as `run_inv` for runs that may fail: whatever state is reached satisfies
  the invariant;
* `run_history` — the same for an invariant of the state and the outputs so far;
* `run_outputs_iff` — the outputs of a run are all good exactly if its steps all meet the guard.
-/

set_option autoImplicit false

namespace Moose.Lib

variable {σ ι ω α : Type}

variable {a : α} {s s' t : σ} {is : List ι} {os : List ω} {ok : σ → ι → Prop} {Inv : σ → Prop}
  {astep : α → ι → ω → α → Prop} {R : σ → α → Prop}

/-- Executes the first call of a `do` block whose result is known. -/
theorem bind_of_eq_some {x : Option α} {f : α → Option ω} (h : x = some a) : (x >>= f) = f a := by
  rw [h]
  rfl

/-- A `do` block after a call that returned. -/
theorem some_bind (a : α) (f : α → Option ω) : (some a >>= f) = f a := rfl

theorem bind_eq_some {x : Option α} {f : α → Option ω} {b : ω} :
    (x >>= f) = some b ↔ ∃ a, x = some a ∧ f a = some b :=
  Option.bind_eq_some_iff

/-- What a computation returns is found by running it. -/
instance decidableSome {x : Option α} {p : α → Prop} [DecidablePred p] :
    Decidable (∃ a, x = some a ∧ p a) :=
  decidable_of_iff (x.any fun a => p a) (by simp [Option.any_eq_true])

instance decidableSomePair {x : Option (σ × ω)} {p : σ → ω → Prop} [∀ s o, Decidable (p s o)] :
    Decidable (∃ s o, x = some (s, o) ∧ p s o) :=
  decidable_of_iff (∃ r, x = some r ∧ p r.1 r.2) Prod.exists

/-- What follows from the returned values holds of them too. -/
theorem exists_some_imp {x : Option (σ × ω)} {p q : σ → ω → Prop}
    (h : ∃ s o, x = some (s, o) ∧ p s o) (hpq : ∀ s o, x = some (s, o) → p s o → q s o) :
    ∃ s o, x = some (s, o) ∧ q s o := by
  obtain ⟨s, o, hx, hp⟩ := h
  exact ⟨s, o, hx, hpq s o hx hp⟩

/-- Feeds the inputs one after the other and collects the outputs. -/
def run (step : σ → ι → Option (σ × ω)) : σ → List ι → Option (σ × List ω)
  | s, [] => some (s, [])
  | s, i :: is => do
    let (s, o) ← step s i
    let (s, os) ← run step s is
    some (s, o :: os)

/-- Every step the run takes meets the guard, in the state it is taken in. -/
def Guarded (step : σ → ι → Option (σ × ω)) (ok : σ → ι → Prop) : σ → List ι → Prop
  | _, [] => True
  | s, i :: is => ok s i ∧ ∀ s' o, step s i = some (s', o) → Guarded step ok s' is

/-- A guard that can be evaluated can be evaluated along a run. -/
instance decidableGuarded (step : σ → ι → Option (σ × ω)) (ok : σ → ι → Prop)
    [∀ s i, Decidable (ok s i)] : (s : σ) → (is : List ι) → Decidable (Guarded step ok s is)
  | _, [] => isTrue trivial
  | s, i :: is =>
    match h : step s i with
    | none => decidable_of_iff (ok s i) (by simp [Guarded, h])
    | some (s', o) =>
      have := decidableGuarded step ok s' is
      decidable_of_iff (ok s i ∧ Guarded step ok s' is) (by simp [Guarded, h])

/-- A run of an abstract transition system, with the inputs and outputs it was given. -/
def Trace (astep : α → ι → ω → α → Prop) : α → List ι → List ω → α → Prop
  | a, [], [], b => a = b
  | a, i :: is, o :: os, b => ∃ c, astep a i o c ∧ Trace astep c is os b
  | _, _, _, _ => False

variable {step : σ → ι → Option (σ × ω)}

theorem run_cons {i : ι} {o : ω}
    (h : step s i = some (s', o)) (hr : run step s' is = some (t, os)) :
    run step s (i :: is) = some (t, o :: os) := by
  simp [run, h, hr]

theorem run_cons_inv {i : ι} (h : run step s (i :: is) = some (t, os)) :
    ∃ s' o os', step s i = some (s', o) ∧ run step s' is = some (t, os') ∧ os = o :: os' := by
  simp only [run, Option.bind_eq_bind, Option.bind_eq_some_iff, Option.some.injEq,
    Prod.mk.injEq, Prod.exists] at h
  obtain ⟨s', o, hs, t', os', hr, rfl, rfl⟩ := h
  exact ⟨s', o, os', hs, hr, rfl⟩

theorem run_append {s t u : σ} {is js : List ι} {os ps : List ω}
    (h : run step s is = some (t, os)) (hr : run step t js = some (u, ps)) :
    run step s (is ++ js) = some (u, os ++ ps) := by
  induction is generalizing s os with
  | nil =>
    cases h
    exact hr
  | cons i is ih =>
    obtain ⟨s1, o, os', h1, h2, rfl⟩ := run_cons_inv h
    exact run_cons h1 (ih h2)

theorem guarded_of_forall (h : ∀ s i, ok s i) : ∀ (is : List ι) (s : σ), Guarded step ok s is := by
  intro is
  induction is with
  | nil => intro s; trivial
  | cons i is ih => exact fun s => ⟨h s i, fun s' _ _ => ih s'⟩

theorem guarded_of_mem {ok : ι → Prop} :
    ∀ {is : List ι}, (∀ i ∈ is, ok i) → ∀ s : σ, Guarded step (fun _ => ok) s is := by
  intro is
  induction is with
  | nil => exact fun _ _ => trivial
  | cons i is ih =>
    intro h s
    exact ⟨h i List.mem_cons_self, fun s' _ _ =>
      ih (fun j hj => h j (List.mem_cons_of_mem i hj)) s'⟩

theorem run_inv (hstep : ∀ s i, Inv s → ok s i → ∃ s' o, step s i = some (s', o) ∧ Inv s') :
    ∀ {is : List ι} {s : σ}, Inv s → Guarded step ok s is →
      ∃ s' os, run step s is = some (s', os) ∧ Inv s' := by
  intro is
  induction is with
  | nil => exact fun {s} hs _ => ⟨s, [], rfl, hs⟩
  | cons i is ih =>
    intro s hs hg
    obtain ⟨s1, o, h1, hinv⟩ := hstep s i hs hg.1
    obtain ⟨s2, os, h2, hinv2⟩ := ih hinv (hg.2 s1 o h1)
    exact ⟨s2, o :: os, run_cons h1 h2, hinv2⟩

theorem run_forall (hstep : ∀ s i s' o, Inv s → ok s i → step s i = some (s', o) → Inv s') :
    ∀ {is : List ι} {s s' : σ} {os : List ω}, Inv s → Guarded step ok s is →
      run step s is = some (s', os) → Inv s' := by
  intro is
  induction is with
  | nil =>
    intro s s' os hs _ h
    cases h
    exact hs
  | cons i is ih =>
    intro s s' os hs hg h
    obtain ⟨s1, o, os', h1, h2, -⟩ := run_cons_inv h
    exact ih (hstep s i s1 o hs hg.1 h1) (hg.2 s1 o h1) h2

theorem run_history {Inv : List ω → σ → Prop}
    (hstep : ∀ past s i s' o, Inv past s → ok s i → step s i = some (s', o) → Inv (past ++ [o]) s')
    (hs : Inv [] s) (hg : Guarded step ok s is)
    (hrun : run step s is = some (s', os)) : Inv os s' := by
  have hpast : ∀ (is : List ι) (past : List ω) (s : σ) (os : List ω), Inv past s →
      Guarded step ok s is → run step s is = some (s', os) → Inv (past ++ os) s' := by
    intro is
    induction is with
    | nil =>
      intro past s os hs _ h
      cases h
      rwa [List.append_nil]
    | cons i is ih =>
      intro past s os hs hg h
      obtain ⟨s1, o, os', h1, h2, rfl⟩ := run_cons_inv h
      have hnext := ih (past ++ [o]) s1 os' (hstep past s i s1 o hs hg.1 h1) (hg.2 s1 o h1) h2
      rwa [List.append_assoc, List.singleton_append] at hnext
  exact hpast is [] s os hs hg hrun

/-- If a step's output is good exactly when the guard is met, and the guard keeps the invariant, the
outputs of a run are all good exactly when the run is guarded. -/
theorem run_outputs_iff {good : ω → Prop}
    (hstep : ∀ s i s' o, Inv s → step s i = some (s', o) → (good o ↔ ok s i) ∧ (ok s i → Inv s')) :
    ∀ {is : List ι} {s s' : σ} {os : List ω}, Inv s → run step s is = some (s', os) →
      ((∀ o ∈ os, good o) ↔ Guarded step ok s is) := by
  intro is
  induction is with
  | nil =>
    intro s s' os _ h
    cases h
    simp [Guarded]
  | cons i is ih =>
    intro s s' os hs h
    obtain ⟨s1, o, os', h1, h2, rfl⟩ := run_cons_inv h
    obtain ⟨hgood, hinv⟩ := hstep s i s1 o hs h1
    rw [List.forall_mem_cons, hgood, Guarded]
    refine and_congr_right fun hok => ?_
    rw [ih (hinv hok) h2]
    constructor
    · intro hg t o' ht
      rw [h1] at ht
      cases ht
      exact hg
    · exact fun hg => hg s1 o h1

/-- Simulation for the inputs that meet a condition. -/
theorem run_sim_of {ok : ι → Prop} (hstep : ∀ s a i, R s a → ok i →
      ∃ s' o a', step s i = some (s', o) ∧ astep a i o a' ∧ R s' a') :
    ∀ (is : List ι) {s : σ} {a : α}, (∀ i ∈ is, ok i) → R s a →
      ∃ s' os a', run step s is = some (s', os) ∧ Trace astep a is os a' ∧ R s' a' := by
  intro is
  induction is with
  | nil => exact fun {s a} _ hR => ⟨s, [], a, rfl, rfl, hR⟩
  | cons i is ih =>
    intro s a hok hR
    obtain ⟨s1, o, a1, h1, ha1, hR1⟩ := hstep s a i hR (hok i List.mem_cons_self)
    obtain ⟨s2, os, a2, h2, ha2, hR2⟩ := ih (fun j hj => hok j (List.mem_cons_of_mem i hj)) hR1
    exact ⟨s2, o :: os, a2, run_cons h1 h2, ⟨a1, ha1, ha2⟩, hR2⟩

/-- Simulation of a machine that may fail, for the guarded runs that do not. -/
theorem run_sim_guarded (hstep : ∀ s a i s' o, R s a → ok s i → step s i = some (s', o) →
      ∃ a', astep a i o a' ∧ R s' a') :
    ∀ (is : List ι) {s s' : σ} {os : List ω} {a : α}, Guarded step ok s is → R s a →
      run step s is = some (s', os) → ∃ a', Trace astep a is os a' ∧ R s' a' := by
  intro is
  induction is with
  | nil =>
    intro s s' os a _ hR h
    cases h
    exact ⟨a, rfl, hR⟩
  | cons i is ih =>
    intro s s' os a hok hR h
    obtain ⟨s1, o, os', h1, h2, rfl⟩ := run_cons_inv h
    obtain ⟨a1, ha1, hR1⟩ := hstep s a i s1 o hR hok.1 h1
    obtain ⟨a2, ha2, hR2⟩ := ih (hok.2 s1 o h1) hR1 h2
    exact ⟨a2, ⟨a1, ha1, ha2⟩, hR2⟩

/-- The same with a condition on the inputs alone. -/
theorem run_sim_partial {ok : ι → Prop}
    (hstep : ∀ s a i s' o, R s a → ok i → step s i = some (s', o) →
      ∃ a', astep a i o a' ∧ R s' a') (is : List ι)
    (hok : ∀ i ∈ is, ok i) (hR : R s a) (h : run step s is = some (s', os)) :
    ∃ a', Trace astep a is os a' ∧ R s' a' :=
  run_sim_guarded hstep is (guarded_of_mem hok s) hR h

theorem run_sim
    (hstep : ∀ s a i, R s a → ∃ s' o a', step s i = some (s', o) ∧ astep a i o a' ∧ R s' a')
    (is : List ι) (hR : R s a) :
    ∃ s' os a', run step s is = some (s', os) ∧ Trace astep a is os a' ∧ R s' a' :=
  run_sim_of (fun s a i hR (_ : True) => hstep s a i hR) is (fun _ _ => trivial) hR

end Moose.Lib
