import Mathlib.Data.List.Basic

/-!
# Lists in blocks

A list cut into blocks of one length, and lists put together from pieces of one length: cutting at a
multiple of the length cuts between the pieces.
-/

set_option autoImplicit false

namespace Moose.Lib

open List

variable {α β : Type} {k n i : Nat} {f : β → List α} {xs : List β} {bytes : List α}

/-- The whole blocks of length `k`, in order. -/
def blocks (k : Nat) (bytes : List α) : List (List α) :=
  (range (bytes.length / k)).map fun i => (bytes.drop (k * i)).take k

theorem length_flatMap_pieces (h : ∀ x ∈ xs, (f x).length = k) :
    (xs.flatMap f).length = xs.length * k := by
  have hall : xs.map (fun x => (f x).length) = replicate xs.length k :=
    map_eq_replicate_iff.mpr h
  rw [length_flatMap, hall, sum_replicate_nat]

theorem drop_flatMap_pieces (h : ∀ x ∈ xs, (f x).length = k) (i : Nat) :
    (xs.flatMap f).drop (i * k) = (xs.drop i).flatMap f := by
  induction i generalizing xs with
  | zero => simp
  | succ i ih =>
    cases xs with
    | nil => simp
    | cons x xs =>
      have hx : (f x).length = k := h x mem_cons_self
      have hle : (f x).length ≤ (i + 1) * k := by rw [hx, Nat.add_mul]; omega
      have hsub : (i + 1) * k - (f x).length = i * k := by rw [hx, Nat.add_mul]; omega
      rw [flatMap_cons, drop_append, drop_eq_nil_of_le hle, hsub, nil_append,
        ih fun y hy => h y (mem_cons_of_mem x hy), drop_succ_cons]

theorem take_flatMap_pieces (h : ∀ x ∈ xs, (f x).length = k) (i : Nat) :
    (xs.flatMap f).take (i * k) = (xs.take i).flatMap f := by
  have hcut := take_append_drop (i * k) (xs.flatMap f)
  rw [drop_flatMap_pieces h] at hcut
  have hpieces : (xs.take i).flatMap f ++ (xs.drop i).flatMap f = xs.flatMap f := by
    rw [← flatMap_append, take_append_drop]
  exact append_cancel_right (hcut.trans hpieces.symm)

@[simp] theorem length_blocks (k : Nat) (bytes : List α) :
    (blocks k bytes).length = bytes.length / k := by
  simp [blocks]

/-- The first blocks, put together, with a last one that may be shorter. -/
theorem flatMap_range_take (bytes : List α) (k m : Nat) :
    ((range m).flatMap fun i => (bytes.drop (k * i)).take k) = bytes.take (m * k) := by
  induction m with
  | zero => simp
  | succ m ih =>
    rw [range_succ, flatMap_append, ih, Nat.add_mul, Nat.one_mul, take_add]
    simp [Nat.mul_comm]

/-- A list whose length is a multiple is made of its blocks. -/
theorem flatten_blocks (h : bytes.length = n * k) : (blocks k bytes).flatten = bytes := by
  have hcount : bytes.length / k * k = bytes.length := by
    rw [h]
    exact Nat.div_mul_cancel (Nat.dvd_mul_left k n)
  rw [blocks, ← flatMap_def, flatMap_range_take, hcount, take_length]

/-- The blocks of what is put together are the pieces. -/
theorem blocks_flatMap (hk : 0 < k) (h : ∀ x ∈ xs, (f x).length = k) :
    blocks k (xs.flatMap f) = xs.map f := by
  rw [blocks, length_flatMap_pieces h, Nat.mul_div_cancel _ hk]
  apply ext_getElem
  · simp
  intro i hi hi'
  have hlt : i < xs.length := by simpa using hi'
  have hcut : (xs.flatMap f).drop (k * i) = f xs[i] ++ (xs.drop (i + 1)).flatMap f := by
    rw [Nat.mul_comm, drop_flatMap_pieces h, drop_eq_getElem_cons hlt, flatMap_cons]
  have hx : (f xs[i]).length = k := h xs[i] (getElem_mem hlt)
  simp only [getElem_map, getElem_range, hcut]
  rw [take_append_of_le_length (Nat.le_of_eq hx.symm), take_of_length_le (Nat.le_of_eq hx)]

end Moose.Lib
