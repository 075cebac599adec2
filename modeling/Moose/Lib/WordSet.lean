import Mathlib.Data.List.FinRange
import Mathlib.Data.BitVec

/-!
# Sets of numbers as words

A set of numbers below `n * w` in `n` words of `w` bits, the number `v` being bit `v % w` of word
`v / w`. Besides membership, insertion and removal there is `highest`, which looks for the last word
that is not zero and takes its highest bit.
-/

set_option autoImplicit false

namespace Moose.Lib

open List

abbrev WordSet (n w : Nat) := Fin n → BitVec w

namespace WordSet

variable {n w : Nat}

def mem (s : WordSet n w) (v : Nat) : Bool :=
  if h : v / w < n then (s ⟨v / w, h⟩).getLsbD (v % w) else false

def insert (s : WordSet n w) (v : Nat) : WordSet n w :=
  fun i => if i.val = v / w then s i ||| BitVec.twoPow w (v % w) else s i

def erase (s : WordSet n w) (v : Nat) : WordSet n w :=
  fun i => if i.val = v / w then s i &&& ~~~BitVec.twoPow w (v % w) else s i

/-- The number of the highest bit of a word that is not zero. -/
def top (x : BitVec w) : Nat := Nat.log2 x.toNat

def highest (s : WordSet n w) : Option Nat :=
  (finRange n).reverse.findSome? fun i => if s i = 0#w then none else some (i.val * w + top (s i))

variable {s : WordSet n w} {u v : Nat}

@[simp] theorem mem_zero (v : Nat) : mem (fun _ => 0#w : WordSet n w) v = false := by
  unfold mem
  split
  · exact BitVec.getLsbD_zero
  · rfl

theorem lt_of_mem (hw : 0 < w) (h : s.mem v = true) : v < n * w := by
  unfold mem at h
  split at h
  next hlt =>
    exact (Nat.div_lt_iff_lt_mul hw).mp hlt
  · cases h

theorem eq_iff_div_mod (u v w : Nat) : u = v ↔ u / w = v / w ∧ v % w = u % w :=
  ⟨fun h => h ▸ ⟨rfl, rfl⟩, fun h => by
    rw [← Nat.div_add_mod u w, ← Nat.div_add_mod v w, h.1, h.2]⟩

theorem mem_insert (hw : 0 < w) (hv : v < n * w) :
    (s.insert v).mem u = true ↔ u = v ∨ s.mem u = true := by
  have hvlt : v / w < n := (Nat.div_lt_iff_lt_mul hw).mpr hv
  have huv := eq_iff_div_mod u v w
  unfold mem insert
  by_cases hu : u / w < n
  · simp only [dif_pos hu]
    by_cases heq : u / w = v / w
    · rw [if_pos heq, BitVec.getLsbD_or, BitVec.getLsbD_twoPow, huv]
      simp [heq, Nat.mod_lt v hw, or_comm]
    rw [if_neg heq, huv]
    simp [heq]
  · simp only [dif_neg hu, Bool.false_eq_true, or_false, false_iff]
    rintro rfl
    exact hu hvlt

theorem mem_erase (hw : 0 < w) : (s.erase v).mem u = true ↔ u ≠ v ∧ s.mem u = true := by
  have huv := eq_iff_div_mod u v w
  unfold mem erase
  by_cases hu : u / w < n
  · simp only [dif_pos hu]
    by_cases heq : u / w = v / w
    · rw [if_pos heq, BitVec.getLsbD_and, BitVec.getLsbD_not, BitVec.getLsbD_twoPow, ne_eq, huv]
      simp [heq, Nat.mod_lt v hw, Nat.mod_lt u hw, and_comm]
    rw [if_neg heq, ne_eq, huv]
    simp [heq]
  · simp [dif_neg hu, and_false]

theorem getLsbD_top {x : BitVec w} (hx : x ≠ 0#w) : x.getLsbD (top x) = true := by
  have hne : x.toNat ≠ 0 := by
    intro h
    exact hx (BitVec.eq_of_toNat_eq (by simpa using h))
  have hlow : 2 ^ top x ≤ x.toNat := Nat.log2_self_le hne
  have hhigh : x.toNat < 2 ^ (top x + 1) := Nat.lt_log2_self
  rw [Nat.pow_succ] at hhigh
  have hdiv : x.toNat / 2 ^ top x = 1 := Nat.div_eq_of_lt_le (by omega) (by omega)
  rw [← BitVec.testBit_toNat, Nat.testBit_eq_decide_div_mod_eq, hdiv]
  rfl

theorem le_top {x : BitVec w} {i : Nat} (hx : x.getLsbD i = true) : i ≤ top x := by
  have hle : 2 ^ i ≤ x.toNat := Nat.ge_two_pow_of_testBit hx
  have hne : x.toNat ≠ 0 := by
    have := Nat.two_pow_pos i
    omega
  exact (Nat.le_log2 hne).mpr hle

theorem top_lt {x : BitVec w} (hx : x ≠ 0#w) : top x < w := by
  apply Nat.lt_of_not_le
  intro hle
  have hfalse := BitVec.getLsbD_of_ge x (top x) hle
  rw [getLsbD_top hx] at hfalse
  cases hfalse

/-- A number in the set is in a word that is not zero. -/
theorem word_ne_zero (h : s.mem v = true) : ∃ hlt : v / w < n, s ⟨v / w, hlt⟩ ≠ 0#w := by
  unfold mem at h
  split at h
  next hlt =>
    refine ⟨hlt, ?_⟩
    intro hzero
    rw [hzero, BitVec.getLsbD_zero] at h
    cases h
  · cases h

/-- **The highest number**, if there is one. The words after the one it is found in are zero. -/
theorem highest_eq_some (hw : 0 < w) (h : s.highest = some v) :
    s.mem v = true ∧ ∀ u, s.mem u = true → u ≤ v := by
  obtain ⟨before, i, after, hsplit, hi, hbefore⟩ := findSome?_eq_some_iff.mp h
  have hne : s i ≠ 0#w := by
    intro hzero
    rw [if_pos hzero] at hi
    cases hi
  rw [if_neg hne, Option.some.injEq] at hi
  have htop := top_lt hne
  have hdiv : v / w = i.val := by
    rw [← hi, Nat.mul_comm, Nat.mul_add_div hw, Nat.div_eq_of_lt htop, Nat.add_zero]
  have hmod : v % w = top (s i) := by
    rw [← hi, Nat.mul_comm, Nat.mul_add_mod, Nat.mod_eq_of_lt htop]
  have hlater : ∀ j : Fin n, i < j → s j = 0#w := by
    intro j hj
    -- the words come in descending order, so `j` is among those passed over
    have hsorted : (before ++ i :: after).Pairwise (· > ·) := by
      rw [← hsplit, pairwise_reverse]
      exact pairwise_lt_finRange n
    have hmem : j ∈ before ++ i :: after := by
      rw [← hsplit]
      exact mem_reverse.mpr (mem_finRange j)
    rcases mem_append.mp hmem with hj' | hj'
    · have := hbefore j hj'
      by_contra hne
      rw [if_neg hne] at this
      cases this
    rcases mem_cons.mp hj' with rfl | hj'
    · exact absurd hj (lt_irrefl _)
    have := rel_of_pairwise_cons (pairwise_append.mp hsorted).2.1 hj'
    exact absurd hj (lt_asymm this)
  constructor
  · unfold mem
    rw [dif_pos (hdiv ▸ i.isLt), hmod]
    have : (⟨v / w, hdiv ▸ i.isLt⟩ : Fin n) = i := Fin.ext hdiv
    rw [this]
    exact getLsbD_top hne
  intro u hu
  obtain ⟨hlt, hune⟩ := word_ne_zero hu
  have hle : u / w ≤ i.val := by
    apply Nat.le_of_not_lt
    intro hgt
    exact hune (hlater ⟨u / w, hlt⟩ hgt)
  rcases Nat.lt_or_eq_of_le hle with hless | heq
  · have := (Nat.div_lt_iff_lt_mul hw).mp hless
    omega
  have hword : (⟨u / w, hlt⟩ : Fin n) = i := Fin.ext heq
  unfold mem at hu
  rw [dif_pos hlt, hword] at hu
  have hbit := le_top hu
  rw [← Nat.div_add_mod u w, heq, Nat.mul_comm]
  omega

theorem highest_eq_none (h : s.highest = none) (u : Nat) : s.mem u = false := by
  rw [← Bool.not_eq_true]
  intro hu
  obtain ⟨hlt, hne⟩ := word_ne_zero hu
  have hnone := findSome?_eq_none_iff.mp h ⟨u / w, hlt⟩
    (mem_reverse.mpr (mem_finRange _))
  rw [if_neg hne] at hnone
  cases hnone

end WordSet
end Moose.Lib
