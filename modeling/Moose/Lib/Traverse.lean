import Mathlib.Data.List.Forall2

/-!
# Going through a list with a function that may fail

`mapM` over `Option` has a result exactly if the function has one at each element, and the results
are in order.
-/

set_option autoImplicit false

namespace Moose.Lib

variable {α β : Type} {f : α → Option β} {xs : List α} {ys : List β}

theorem mapM_eq_some_iff : xs.mapM f = some ys ↔ List.Forall₂ (fun x y => f x = some y) xs ys := by
  induction xs generalizing ys with
  | nil => simp [List.mapM_nil, eq_comm]
  | cons x xs ih =>
    rw [List.mapM_cons, List.forall₂_cons_left_iff]
    constructor
    · intro h
      obtain ⟨y, hy, h⟩ := Option.bind_eq_some_iff.mp h
      obtain ⟨rest, hrest, h⟩ := Option.bind_eq_some_iff.mp h
      exact ⟨y, rest, hy, ih.mp hrest, (Option.some.inj h).symm⟩
    · rintro ⟨y, rest, hy, hrest, rfl⟩
      rw [hy, ih.mpr hrest]
      rfl

theorem mapM_eq_map {g : α → β} (h : ∀ x ∈ xs, f x = some (g x)) : xs.mapM f = some (xs.map g) :=
  mapM_eq_some_iff.mpr (List.forall₂_map_right_iff.mpr (List.forall₂_same.mpr h))

theorem mapM_congr_mem {g : α → Option β} (h : ∀ x ∈ xs, f x = g x) : xs.mapM f = xs.mapM g := by
  induction xs with
  | nil => rfl
  | cons x xs ih =>
    obtain ⟨hx, hxs⟩ := List.forall_mem_cons.mp h
    rw [List.mapM_cons, List.mapM_cons, hx, ih hxs]

end Moose.Lib
