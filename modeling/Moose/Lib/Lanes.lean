import Mathlib.Data.List.FinRange
import Mathlib.Data.List.Nodup
import Mathlib.Logic.Function.Basic

/-!
# Lanes

An array of FIFO queues, one for each priority. Elements are put at the end of a lane and taken from
the front of the highest lane that is not empty. A filling is `Proper` if every element is at most
once in the lane it belongs to, and in no other; then no element is there twice.
-/

set_option autoImplicit false

namespace Moose.Lib

open List Function

abbrev Lanes (n : Nat) (α : Type) := Fin n → List α

namespace Lanes

variable {n : Nat} {α : Type}

def push (q : Lanes n α) (i : Fin n) (a : α) : Lanes n α := update q i (q i ++ [a])

def remove [DecidableEq α] (q : Lanes n α) (i : Fin n) (a : α) : Lanes n α :=
  update q i ((q i).erase a)

/-- Takes the first element of the highest lane that has one. -/
def pop (q : Lanes n α) : Option (α × Lanes n α) :=
  (finRange n).reverse.findSome? fun i =>
    match q i with
    | [] => none
    | a :: rest => some (a, update q i rest)

def all (q : Lanes n α) : List α := (finRange n).flatMap q

theorem mem_all {q : Lanes n α} {a : α} : a ∈ q.all ↔ ∃ i, a ∈ q i := by
  simp [all, mem_flatMap]

theorem mem_push {q : Lanes n α} {i j : Fin n} {a b : α} :
    b ∈ q.push j a i ↔ b ∈ q i ∨ b = a ∧ i = j := by
  unfold push
  by_cases hi : i = j
  · subst hi
    simp
  rw [update_of_ne hi]
  simp [hi]

/-- What is popped was the front of its lane, and the lanes above it are empty. -/
theorem pop_eq_some {q q' : Lanes n α} {a : α} (h : q.pop = some (a, q')) :
    ∃ i rest, q i = a :: rest ∧ q' = update q i rest ∧ ∀ j, i < j → q j = [] := by
  obtain ⟨before, i, after, hlanes, hi, hbefore⟩ := findSome?_eq_some_iff.mp h
  have habove : ∀ j, i < j → q j = [] := by
    intro j hj
    have hsorted : (before ++ i :: after).Pairwise (· > ·) := by
      rw [← hlanes]
      exact pairwise_reverse.mpr (pairwise_lt_finRange n)
    have hmem : j ∈ before ++ i :: after := by
      rw [← hlanes]
      exact mem_reverse.mpr (mem_finRange j)
    have hnone : j ∈ before := by
      rcases mem_append.mp hmem with hmem | hmem
      · exact hmem
      rcases mem_cons.mp hmem with rfl | hmem
      · exact absurd hj (lt_irrefl j)
      · have := (pairwise_cons.mp (pairwise_append.mp hsorted).2.1).1 j hmem
        exact absurd hj (lt_asymm this)
    have hfront := hbefore j hnone
    cases hq : q j with
    | nil => rfl
    | cons b rest =>
      rw [hq] at hfront
      cases hfront
  cases hq : q i with
  | nil =>
    rw [hq] at hi
    cases hi
  | cons b rest =>
    rw [hq] at hi
    cases hi
    exact ⟨i, rest, hq, rfl, habove⟩

theorem pop_eq_none {q : Lanes n α} : q.pop = none ↔ ∀ i, q i = [] := by
  unfold pop
  rw [findSome?_eq_none_iff]
  constructor
  · intro h i
    have hi := h i (mem_reverse.mpr (mem_finRange i))
    cases hq : q i with
    | nil => rfl
    | cons a rest =>
      rw [hq] at hi
      cases hi
  · intro h i _
    rw [h i]

/-- Every element is in the lane it belongs to, once. -/
structure Proper (lane : α → Fin n) (q : Lanes n α) : Prop where
  nodup : ∀ i, (q i).Nodup
  lane_eq : ∀ {i a}, a ∈ q i → lane a = i

namespace Proper

variable {lane : α → Fin n} {q q' : Lanes n α} {a b : α}

theorem empty (lane : α → Fin n) : Proper lane (fun _ => ([] : List α)) where
  nodup _ := nodup_nil
  lane_eq h := by cases h

section

variable (h : q.Proper lane)
include h

theorem nodup_all : q.all.Nodup := by
  refine nodup_flatMap.mpr ⟨fun i _ => h.nodup i, ?_⟩
  refine (nodup_finRange n).imp ?_
  intro i j hij a hi hj
  exact hij ((h.lane_eq hi).symm.trans (h.lane_eq hj))

theorem push (ha : a ∉ q (lane a)) : (q.push (lane a) a).Proper lane where
  nodup i := by
    unfold Lanes.push
    by_cases hi : i = lane a
    · subst hi
      rw [update_self]
      exact nodup_append.mpr ⟨h.nodup _, nodup_singleton a, fun b hb c hc => by
        rw [mem_singleton] at hc
        rintro rfl
        exact ha (hc ▸ hb)⟩
    · rw [update_of_ne hi]
      exact h.nodup i
  lane_eq hb := by
    rcases mem_push.mp hb with hb | ⟨rfl, rfl⟩
    · exact h.lane_eq hb
    · rfl

theorem mem_remove [DecidableEq α] {i : Fin n} : b ∈ q.remove (lane a) a i ↔ b ∈ q i ∧ b ≠ a := by
  unfold remove
  by_cases hi : i = lane a
  · subst hi
    rw [update_self, (h.nodup _).mem_erase_iff, and_comm]
  rw [update_of_ne hi]
  refine ⟨fun hb => ⟨hb, ?_⟩, fun hb => hb.1⟩
  rintro rfl
  exact hi (h.lane_eq hb).symm

theorem remove [DecidableEq α] (a : α) : (q.remove (lane a) a).Proper lane where
  nodup i := by
    unfold Lanes.remove
    by_cases hi : i = lane a
    · subst hi
      rw [update_self]
      exact (h.nodup _).erase a
    · rw [update_of_ne hi]
      exact h.nodup i
  lane_eq hb := h.lane_eq (h.mem_remove.mp hb).1

/-- What is popped is gone, and the rest is still there. -/
theorem pop (hpop : q.pop = some (a, q')) :
    q'.Proper lane ∧ (∃ i, a ∈ q i) ∧ ∀ b i, b ∈ q' i ↔ b ∈ q i ∧ b ≠ a := by
  obtain ⟨i, rest, hi, rfl, -⟩ := pop_eq_some hpop
  have hnodup : a ∉ rest ∧ rest.Nodup := by
    have := h.nodup i
    rw [hi] at this
    exact nodup_cons.mp this
  have hmem : ∀ b j, b ∈ update q i rest j ↔ b ∈ q j ∧ b ≠ a := by
    intro b j
    by_cases hj : j = i
    · subst hj
      rw [update_self, hi, mem_cons]
      constructor
      · intro hb
        exact ⟨.inr hb, fun hba => hnodup.1 (hba ▸ hb)⟩
      rintro ⟨rfl | hb, hne⟩
      · exact absurd rfl hne
      · exact hb
    · rw [update_of_ne hj]
      refine ⟨fun hb => ⟨hb, ?_⟩, fun hb => hb.1⟩
      rintro rfl
      have hai : b ∈ q i := by
        rw [hi]
        exact mem_cons_self
      exact hj ((h.lane_eq hb).symm.trans (h.lane_eq hai))
  refine ⟨⟨fun j => ?_, fun hb => h.lane_eq ((hmem _ _).mp hb).1⟩, ⟨i, ?_⟩, hmem⟩
  · by_cases hj : j = i
    · subst hj
      rw [update_self]
      exact hnodup.2
    · rw [update_of_ne hj]
      exact h.nodup j
  · rw [hi]
    exact mem_cons_self

end

end Proper
end Lanes
end Moose.Lib
