import Mathlib.Data.List.Nodup
import Mathlib.Data.List.Range

/-!
# Generational arenas

`RedBlackTree` keeps its nodes in a `generational_arena::Arena`, a crate that is not part of the
repository. The tree is modelled over any arena that behaves as the crate documents — the laws
are fields of `GenArena`, so they are stated once and every result below is about all such
arenas. An index of the crate carries the generation of its slot, so that a stale one misses; of
this the laws only say that a new index resolves to nothing before it is handed out. `listArena` is
an arena to evaluate the tree with.
-/

set_option autoImplicit false

namespace Moose.RbTree

open List

/-- An arena handing out indices of type `Idx` for values of type `α`. `set` is a write through
    `arena[idx]`; indexing itself is `get`, which panics on `none`. -/
structure GenArena (Idx α : Type) where
  /-- The arena's own state. -/
  Carrier : Type
  new : Carrier
  get : Carrier → Idx → Option α
  insert : Carrier → α → Idx × Carrier
  remove : Carrier → Idx → Option α × Carrier
  set : Carrier → Idx → α → Carrier
  get_new : ∀ i, get new i = none
  /-- An insertion hands out an index that resolves to nothing before it. -/
  insert_fresh : ∀ s x, get s (insert s x).1 = none
  get_insert_self : ∀ s x, get (insert s x).2 (insert s x).1 = some x
  get_insert_of_ne : ∀ s x j, j ≠ (insert s x).1 → get (insert s x).2 j = get s j
  remove_fst : ∀ s i, (remove s i).1 = get s i
  get_remove_self : ∀ s i, get (remove s i).2 i = none
  get_remove_of_ne : ∀ s i j, j ≠ i → get (remove s i).2 j = get s j
  get_set_self : ∀ s i x, (get s i).isSome → get (set s i x) i = some x
  get_set_of_ne : ∀ s i j x, j ≠ i → get (set s i x) j = get s j

/-- An arena that gives every value a place of its own: a removal leaves the place empty, and no
    index is handed out twice. -/
def listArena (α : Type) : GenArena Nat α where
  Carrier := List (Option α)
  new := []
  get s i := s[i]?.join
  insert s x := (s.length, s ++ [some x])
  remove s i := (s[i]?.join, s.set i none)
  set s i x := s.set i (some x)
  get_new _ := rfl
  insert_fresh s _ := by simp
  get_insert_self s x := by simp
  get_insert_of_ne s x j h := by
    rcases Nat.lt_or_gt_of_ne h with h | h
    · rw [getElem?_append_left h]
    · rw [getElem?_eq_none (by simpa using Nat.succ_le_of_lt h), getElem?_eq_none h.le]
  remove_fst _ _ := rfl
  get_remove_self s i := by
    by_cases h : i < s.length
    · rw [getElem?_set_self h, Option.join_some]
    · rw [getElem?_eq_none (by simpa using h), Option.join_none]
  get_remove_of_ne s i j h := by rw [getElem?_set_ne h.symm]
  get_set_self s i x h := by
    have hlt : i < s.length := by
      by_contra hge
      simp [getElem?_eq_none (Nat.not_lt.mp hge)] at h
    rw [getElem?_set_self hlt, Option.join_some]
  get_set_of_ne s i j x h := by rw [getElem?_set_ne h.symm]

end Moose.RbTree
