import Mathlib.Data.List.Nodup
import Mathlib.Data.List.Perm.Subperm

/-!
# Chains of links

Elements that lead to one another until an end: `next a` is `none` if there is nothing at `a`,
`some none` if `a` is the last of its chain, and `some (some b)` if it leads to `b`. `follow` walks
from an element and collects what it passes; it may run out of fuel, or come to nothing.

A walk comes to an end exactly if it follows a chain (`Linked`), and then it returns that chain. The
reason is that a chain is determined by its first element (`Linked.unique`): if it passed an element
twice, the rest of it would be its own proper part. So it passes none twice, and the number of
elements is fuel enough (`Linked.length_le`).
-/

set_option autoImplicit false

namespace Moose.Lib.Links

open List

variable {α : Type}

def follow (next : α → Option (Option α)) : Nat → α → Option (List α)
  | 0, _ => none
  | fuel + 1, a =>
    match next a with
    | none => none
    | some none => some [a]
    | some (some b) => (follow next fuel b).map (a :: ·)

/-- Each element leads to the one after it, and the last is an end. -/
def Linked (next : α → Option (Option α)) : List α → Prop
  | [] => False
  | [a] => next a = some none
  | a :: b :: rest => next a = some (some b) ∧ Linked next (b :: rest)

variable {next next' : α → Option (Option α)} {a b : α} {l s t : List α} {fuel : Nat}

theorem Linked.ne_nil (h : Linked next l) : l ≠ [] := by
  rintro rfl
  exact h

theorem Linked.tail (h : Linked next (a :: b :: l)) : Linked next (b :: l) := h.2

theorem Linked.suffix (h : Linked next (s ++ a :: t)) : Linked next (a :: t) := by
  induction s with
  | nil => exact h
  | cons x s ih =>
    cases s with
    | nil => exact h.tail
    | cons y s => exact ih h.tail

/-- Something is at every element of a chain. -/
theorem Linked.next_ne_none (h : Linked next l) (ha : a ∈ l) : next a ≠ none := by
  obtain ⟨s, t, rfl⟩ := append_of_mem ha
  have hsuffix := h.suffix
  cases t with
  | nil =>
    rw [show next a = some none from hsuffix]
    exact Option.some_ne_none _
  | cons b t =>
    rw [hsuffix.1]
    exact Option.some_ne_none _

/-! ## The walk -/

theorem linked_of_follow : ∀ {fuel : Nat} {a : α} {l : List α}, follow next fuel a = some l →
    Linked next l ∧ l.head? = some a ∧ l.length ≤ fuel := by
  intro fuel
  induction fuel with
  | zero => exact fun h => nomatch h
  | succ fuel ih =>
    intro a l h
    rw [follow] at h
    split at h
    · cases h
    next hend =>
      cases h
      exact ⟨hend, rfl, Nat.le_add_left 1 fuel⟩
    next b hnext =>
      obtain ⟨m, hm, rfl⟩ := Option.map_eq_some_iff.mp h
      obtain ⟨hlinked, hhead, hlen⟩ := ih hm
      cases m with
      | nil => exact absurd rfl hlinked.ne_nil
      | cons c m =>
        cases hhead
        exact ⟨⟨hnext, hlinked⟩, rfl, Nat.succ_le_succ hlen⟩

theorem follow_of_linked : ∀ {l : List α} {a : α} {fuel : Nat}, Linked next (a :: l) →
    l.length < fuel → follow next fuel a = some (a :: l) := by
  intro l
  induction l with
  | nil =>
    intro a fuel h hfuel
    obtain ⟨fuel, rfl⟩ := Nat.exists_eq_succ_of_ne_zero (Nat.ne_zero_of_lt hfuel)
    rw [follow, show next a = some none from h]
  | cons b l ih =>
    intro a fuel h hfuel
    obtain ⟨fuel, rfl⟩ := Nat.exists_eq_succ_of_ne_zero (Nat.ne_zero_of_lt hfuel)
    have hrest : follow next fuel b = some (b :: l) := ih h.tail (Nat.lt_of_succ_lt_succ hfuel)
    rw [follow, h.1]
    dsimp only
    rw [hrest, Option.map_some]

/-- There is one chain from an element at most. -/
theorem Linked.unique (h : Linked next (a :: s)) (h' : Linked next (a :: t)) : s = t := by
  have hs := follow_of_linked h (Nat.lt_succ_of_le (Nat.le_max_left s.length t.length))
  have ht := follow_of_linked h' (Nat.lt_succ_of_le (Nat.le_max_right s.length t.length))
  exact (cons.inj (Option.some.inj (hs.symm.trans ht))).2

/-- A chain passes no element twice: what comes after the second time would be the whole chain. -/
theorem Linked.nodup : ∀ {l : List α}, Linked next l → l.Nodup := by
  intro l
  induction l with
  | nil => exact fun h => h.elim
  | cons a l ih =>
    intro h
    refine nodup_cons.mpr ⟨fun hmem => ?_, ?_⟩
    · obtain ⟨s, t, rfl⟩ := append_of_mem hmem
      have hagain : Linked next (a :: t) := Linked.suffix (s := a :: s) h
      have hlen := congrArg length (h.unique hagain)
      rw [length_append, length_cons] at hlen
      omega
    · cases l with
      | nil => exact nodup_nil
      | cons b l => exact ih h.tail

/-- A chain is no longer than a list of everything there is. -/
theorem Linked.length_le (h : Linked next l) {all : List α} (hall : ∀ a, next a ≠ none → a ∈ all) :
    l.length ≤ all.length :=
  (subperm_of_subset h.nodup fun a ha => hall a (h.next_ne_none ha)).length_le

/-- **A walk comes to an end exactly if it follows a chain**, and then it returns that chain. -/
theorem follow_eq_some_iff {all : List α} (hall : ∀ a, next a ≠ none → a ∈ all)
    (hfuel : all.length ≤ fuel) :
    follow next fuel a = some l ↔ Linked next l ∧ l.head? = some a := by
  constructor
  · intro h
    exact ⟨(linked_of_follow h).1, (linked_of_follow h).2.1⟩
  rintro ⟨hlinked, hhead⟩
  cases l with
  | nil => cases hhead
  | cons b l =>
    cases hhead
    exact follow_of_linked hlinked (Nat.le_trans (hlinked.length_le hall) hfuel)

end Moose.Lib.Links
