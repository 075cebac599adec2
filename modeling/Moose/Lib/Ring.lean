import Mathlib.Data.List.Basic
import Mathlib.Data.Nat.ModEq
import Mathlib.Data.Int.ModEq

/-!
# A window of a stream in a ring of cells

A ring of `cap` cells keeps a window of an endless stream `s`: position `p` lives in cell
`p % cap`. Two positions of one window of `cap` positions never share a cell, so a store
inside the window can only replace a byte by itself.

`wrapStore` and `wrapLoad` are the two-part copies such rings are programmed with. A copy
that leaves the cells is `none`.
-/

namespace Moose.Cells

open List Option

variable {α : Type*}

/-! ## Copies -/

def copyTo (cells : List α) (i : Nat) (xs : List α) : Option (List α) :=
  if i + xs.length ≤ cells.length then
    some (cells.take i ++ xs ++ cells.drop (i + xs.length))
  else none

def copyFrom (cells : List α) (i n : Nat) : Option (List α) :=
  if i + n ≤ cells.length then some ((cells.drop i).take n) else none

/-- Store `xs` from cell `i` on, continuing at cell 0 past the end of the ring. -/
def wrapStore (cells : List α) (i : Nat) (xs : List α) : Option (List α) := do
  let first := min xs.length (cells.length - i)
  let cells ← copyTo cells i (xs.take first)
  if first < xs.length then copyTo cells 0 (xs.drop first) else some cells

/-- Load `n` cells from cell `i` on, continuing at cell 0 past the end of the ring. -/
def wrapLoad (cells : List α) (i n : Nat) : Option (List α) := do
  let first := min n (cells.length - i)
  let xs ← copyFrom cells i first
  if first < n then (xs ++ ·) <$> copyFrom cells 0 (n - first) else some xs

theorem copyTo_spec (cells : List α) (i : Nat) (xs : List α) (h : i + xs.length ≤ cells.length) :
    ∃ d, copyTo cells i xs = some d ∧ d.length = cells.length ∧
      ∀ k, d[k]? = if i ≤ k ∧ k < i + xs.length then xs[k - i]? else cells[k]? := by
  refine ⟨_, if_pos h, by simp; omega, ?_⟩
  intro k
  have htake : (cells.take i).length = i := by simp; omega
  rcases Nat.lt_or_ge k i with hk | hk
  · rw [if_neg (by omega), append_assoc, getElem?_append_left (by omega),
      getElem?_take_of_lt hk]
  rcases Nat.lt_or_ge k (i + xs.length) with hk2 | hk2
  · rw [if_pos ⟨hk, hk2⟩, getElem?_append_left (by simp; omega),
      getElem?_append_right (by omega), htake]
  rw [if_neg (by omega), getElem?_append_right (by simp; omega), getElem?_drop]
  congr 1
  simp only [length_append, htake]
  omega

theorem copyFrom_spec (cells : List α) (i n : Nat) (h : i + n ≤ cells.length) :
    ∃ ys, copyFrom cells i n = some ys ∧ ys.length = n ∧
      ∀ k, k < n → ys[k]? = cells[i + k]? := by
  refine ⟨_, if_pos h, by simp; omega, ?_⟩
  intro k hk
  rw [getElem?_take_of_lt hk, getElem?_drop]

/-- The cell `j` steps after `i`, one wrap at most. -/
theorem wrap_index {i j cap : Nat} (hi : i < cap) (hj : j < cap) :
    (i + j) % cap = if i + j < cap then i + j else i + j - cap := by
  split
  next h =>
    exact Nat.mod_eq_of_lt h
  next h =>
    rw [Nat.mod_eq_sub_mod (by omega), Nat.mod_eq_of_lt (by omega)]

theorem wrapStore_spec (cells : List α) (i : Nat) (xs : List α) (hi : i < cells.length)
    (hn : xs.length ≤ cells.length) :
    ∃ d, wrapStore cells i xs = some d ∧ d.length = cells.length ∧
      (∀ j, j < xs.length → d[(i + j) % cells.length]? = xs[j]?) ∧
      (∀ k, (∀ j, j < xs.length → (i + j) % cells.length ≠ k) → d[k]? = cells[k]?) := by
  have hlen : (xs.take (min xs.length (cells.length - i))).length =
      min xs.length (cells.length - i) := by simp
  obtain ⟨d, hd, hdl, hdc⟩ :=
    copyTo_spec cells i (xs.take (min xs.length (cells.length - i))) (by omega)
  rw [hlen] at hdc
  simp only [wrapStore, hd, bind_eq_bind, bind_some]
  split
  · -- the store runs past the last cell
    rename_i hwrap
    have hrest : (xs.drop (min xs.length (cells.length - i))).length =
        xs.length - min xs.length (cells.length - i) := by simp
    obtain ⟨e, he, hel, hec⟩ :=
      copyTo_spec d 0 (xs.drop (min xs.length (cells.length - i))) (by omega)
    rw [hrest] at hec
    refine ⟨e, he, by omega, ?_, ?_⟩
    · intro j hj
      rw [wrap_index hi (by omega), hec]
      split
      · rw [if_neg (by omega), hdc, if_pos (by omega), getElem?_take_of_lt (by omega)]
        congr 1
        omega
      rw [if_pos (by omega), getElem?_drop]
      congr 1
      omega
    intro k hk
    have h0 : ¬ (0 ≤ k ∧ k < 0 + (xs.length - min xs.length (cells.length - i))) := by
      intro h
      apply hk (cells.length - i + k) (by omega)
      rw [show i + (cells.length - i + k) = cells.length + k by omega, Nat.add_mod_left,
        Nat.mod_eq_of_lt (by omega)]
    have h1 : ¬ (i ≤ k ∧ k < i + min xs.length (cells.length - i)) := by
      intro h
      apply hk (k - i) (by omega)
      rw [show i + (k - i) = k by omega, Nat.mod_eq_of_lt (by omega)]
    rw [hec, if_neg h0, hdc, if_neg h1]
  next hfits =>
    refine ⟨d, rfl, hdl, ?_, ?_⟩
    · intro j hj
      rw [Nat.mod_eq_of_lt (by omega), hdc, if_pos (by omega), getElem?_take_of_lt (by omega)]
      congr 1
      omega
    intro k hk
    rw [hdc, if_neg]
    intro h
    apply hk (k - i) (by omega)
    rw [show i + (k - i) = k by omega, Nat.mod_eq_of_lt (by omega)]

theorem wrapLoad_spec (cells : List α) (i n : Nat) (hi : i < cells.length)
    (hn : n ≤ cells.length) :
    ∃ ys, wrapLoad cells i n = some ys ∧ ys.length = n ∧
      ∀ j, j < n → ys[j]? = cells[(i + j) % cells.length]? := by
  obtain ⟨d, hd, hdl, hdc⟩ :=
    copyFrom_spec cells i (min n (cells.length - i)) (by omega)
  simp only [wrapLoad, hd, bind_eq_bind, bind_some]
  split
  · obtain ⟨e, he, hel, hec⟩ :=
      copyFrom_spec cells 0 (n - min n (cells.length - i)) (by omega)
    refine ⟨d ++ e, by rw [he]; rfl, by simp; omega, ?_⟩
    intro j hj
    rw [wrap_index hi (by omega)]
    split
    · rw [getElem?_append_left (by omega), hdc j (by omega)]
    rw [getElem?_append_right (by omega), hec _ (by omega)]
    congr 1
    omega
  · refine ⟨d, rfl, by omega, ?_⟩
    intro j hj
    rw [hdc j (by omega), Nat.mod_eq_of_lt (by omega)]

variable {cells ys xs : List α} {i n q p : Nat}

theorem length_of_copyFrom (h : copyFrom cells i n = some ys) : ys.length = n := by
  unfold copyFrom at h
  split at h
  · cases h
    simp
    omega
  · cases h

/-- A load that goes through has the length asked for. -/
theorem length_of_wrapLoad (h : wrapLoad cells i n = some ys) : ys.length = n := by
  simp only [wrapLoad, Option.bind_eq_bind, Option.bind_eq_some_iff] at h
  obtain ⟨xs, hx, h⟩ := h
  have hxs := length_of_copyFrom hx
  split at h
  · simp only [Option.map_eq_map, Option.map_eq_some_iff] at h
    obtain ⟨zs, hz, rfl⟩ := h
    have hzs := length_of_copyFrom hz
    rw [List.length_append]
    omega
  · cases h
    omega

/-! ## The window -/

def slice (s : Nat → α) (q n : Nat) : List α := (range n).map fun i => s (q + i)

@[simp] theorem length_slice (s : Nat → α) (q n : Nat) : (slice s q n).length = n := by
  simp [slice]

theorem getElem?_slice (s : Nat → α) (q : Nat) {n j : Nat} (hj : j < n) :
    (slice s q n)[j]? = some (s (q + j)) := by
  simp [slice, hj]

theorem slice_append (s : Nat → α) (q m n : Nat) :
    slice s q m ++ slice s (q + m) n = slice s q (m + n) := by
  simp [slice, range_add, Nat.add_assoc]

theorem take_slice (s : Nat → α) (q n m : Nat) :
    (slice s q n).take m = slice s q (min m n) := by
  simp [slice, ← map_take, take_range]

/-- Cell `p % cap` holds position `p` of the stream. -/
def Holds (cells : List α) (s : Nat → α) (p : Nat) : Prop :=
  cells[p % cells.length]? = some (s p)

/-- Two positions of one window never share a cell. -/
theorem cell_inj (cap : Nat) {c p q : Nat} (hp : c ≤ p) (hp2 : p < c + cap) (hq : c ≤ q)
    (hq2 : q < c + cap) (h : p % cap = q % cap) : p = q := by
  have hmod : p ≡ q [MOD cap] := h
  apply hmod.eq_of_abs_lt
  rw [abs_lt]
  omega

/-- **A store inside the window** `[c, c + cap)` puts its positions into the ring and
leaves every position of the window that the ring already holds. -/
theorem wrapStore_slice {s : Nat → α} {c q n : Nat} (hcap : 0 < cells.length)
    (hq : c ≤ q) (hn : q + n ≤ c + cells.length) :
    ∃ d, wrapStore cells (q % cells.length) (slice s q n) = some d ∧ d.length = cells.length ∧
      (∀ p, q ≤ p → p < q + n → Holds d s p) ∧
      (∀ p, c ≤ p → p < c + cells.length → Holds cells s p → Holds d s p) := by
  obtain ⟨d, hd, hl, hin, hout⟩ :=
    wrapStore_spec cells (q % cells.length) (slice s q n)
      (Nat.mod_lt _ hcap) (by simp; omega)
  simp only [length_slice, Nat.mod_add_mod] at hin hout
  have hnew : ∀ p, q ≤ p → p < q + n → Holds d s p := by
    intro p hqp hpn
    have h := hin (p - q) (by omega)
    rw [getElem?_slice s q (by omega), show q + (p - q) = p by omega] at h
    unfold Holds
    rw [hl]
    exact h
  refine ⟨d, hd, hl, hnew, ?_⟩
  intro p hcp hpc hold
  by_cases hmem : q ≤ p ∧ p < q + n
  · exact hnew p hmem.1 hmem.2
  unfold Holds
  rw [hl, hout]
  · exact hold
  intro j hj heq
  have := cell_inj cells.length (by omega) (by omega) hcp hpc heq
  omega

/-- A load of positions the ring holds returns that part of the stream. -/
theorem wrapLoad_slice {s : Nat → α} (hcap : 0 < cells.length)
    (hn : n ≤ cells.length) (hold : ∀ p, q ≤ p → p < q + n → Holds cells s p) :
    wrapLoad cells (q % cells.length) n = some (slice s q n) := by
  obtain ⟨ys, hy, hl, hin⟩ :=
    wrapLoad_spec cells (q % cells.length) n (Nat.mod_lt _ hcap) hn
  rw [hy]
  congr 1
  apply ext_getElem?
  intro j
  rcases Nat.lt_or_ge j n with hj | hj
  · rw [hin j hj, Nat.mod_add_mod, getElem?_slice s q hj]
    exact hold (q + j) (by omega) (by omega)
  · rw [getElem?_eq_none (by omega), getElem?_eq_none (by simpa using hj)]

/-! ## Lists in the ring -/

def Stores (cells : List α) (p : Nat) (xs : List α) : Prop :=
  ∀ j, j < xs.length → cells[(p + j) % cells.length]? = xs[j]?

theorem stores_nil (cells : List α) (p : Nat) : Stores cells p [] := by
  intro j hj
  exact absurd hj (Nat.not_lt_zero j)

theorem stores_append :
    Stores cells p (xs ++ ys) ↔ Stores cells p xs ∧ Stores cells (p + xs.length) ys := by
  constructor
  · intro h
    refine ⟨fun j hj => ?_, fun j hj => ?_⟩
    · rw [h j (by rw [length_append]; omega), getElem?_append_left hj]
    rw [Nat.add_assoc, h _ (by rw [length_append]; omega),
      getElem?_append_right (Nat.le_add_right _ _), Nat.add_sub_cancel_left]
  rintro ⟨hxs, hys⟩ j hj
  rw [length_append] at hj
  by_cases hlt : j < xs.length
  · rw [hxs j hlt, getElem?_append_left hlt]
  have h := hys (j - xs.length) (by omega)
  rw [show p + xs.length + (j - xs.length) = p + j by omega] at h
  rw [h, getElem?_append_right (Nat.not_lt.mp hlt)]

/-- **A store behind a list** that does not reach round to it: the ring then holds both. -/
theorem Stores.wrapStore (hcap : 0 < cells.length)
    (h : Stores cells p xs) (hq : p + xs.length ≤ q) (hn : q + ys.length ≤ p + cells.length) :
    ∃ d, wrapStore cells (q % cells.length) ys = some d ∧ d.length = cells.length ∧
      Stores d p xs ∧ Stores d q ys := by
  obtain ⟨d, hd, hl, hin, hout⟩ :=
    wrapStore_spec cells (q % cells.length) ys (Nat.mod_lt _ hcap) (by omega)
  simp only [Nat.mod_add_mod] at hin hout
  refine ⟨d, hd, hl, fun j hj => ?_, fun j hj => ?_⟩
  · rw [hl, hout, h j hj]
    intro i hi heq
    have := cell_inj cells.length (c := p) (by omega) (by omega) (by omega) (by omega) heq
    omega
  · rw [hl]
    exact hin j hj

/-- A load from the front of a list the ring holds. -/
theorem Stores.wrapLoad (hcap : 0 < cells.length)
    (h : Stores cells p xs) (hn : n ≤ xs.length) (hlen : xs.length ≤ cells.length) :
    wrapLoad cells (p % cells.length) n = some (xs.take n) := by
  obtain ⟨ys, hy, hl, hin⟩ :=
    wrapLoad_spec cells (p % cells.length) n (Nat.mod_lt _ hcap) (by omega)
  rw [hy]
  congr 1
  apply ext_getElem?
  intro j
  rcases Nat.lt_or_ge j n with hj | hj
  · rw [hin j hj, Nat.mod_add_mod, h j (by omega), getElem?_take_of_lt hj]
  · rw [getElem?_eq_none (by omega), getElem?_eq_none (by simp; omega)]

end Moose.Cells
