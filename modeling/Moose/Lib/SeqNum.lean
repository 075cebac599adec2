import Mathlib.Data.UInt
import Mathlib.Tactic.Linarith

/-!
# 32-bit sequence numbers

A stream position `p` is sent as `pos base p`, its value modulo `2^32` from a base. Two
sequence numbers are compared by the sign of their 32-bit difference (`dist`). The
comparison is right as long as the two positions are less than `2^31` apart, and this is
the only way the numbers are read back.
-/

namespace Moose

open BitVec

abbrev SeqNum := BitVec 32

namespace SeqNum

/-- The sequence number of position `p` in a stream that starts at `base`. -/
def pos (base : SeqNum) (p : Nat) : SeqNum := base + BitVec.ofNat 32 p

/-- `a.wrapping_sub(b) as i32`. -/
def dist (a b : SeqNum) : Int := (a - b).toInt

theorem pos_add (base : SeqNum) (p n : Nat) :
    pos base p + BitVec.ofNat 32 n = pos base (p + n) := by
  simp [pos, ofNat_add, add_assoc]

theorem pos_zero (base : SeqNum) : pos base 0 = base := by
  simp [pos]

/-- Near positions are compared exactly. -/
theorem dist_pos (base : SeqNum) {p q : Nat} (hl : -2 ^ 31 ≤ (p : Int) - q)
    (hu : (p : Int) - q < 2 ^ 31) : dist (pos base p) (pos base q) = p - q := by
  have hsub : pos base p - pos base q = BitVec.ofNat 32 p - BitVec.ofNat 32 q := by
    unfold pos
    bv_omega
  have hmod : dist (pos base p) (pos base q) = ((p : Int) - q).bmod (2 ^ 32) := by
    rw [dist, hsub, BitVec.toInt_sub, BitVec.toInt_ofNat', BitVec.toInt_ofNat',
      Int.bmod_sub_bmod, Int.sub_bmod_bmod]
  rw [hmod]
  exact Int.bmod_eq_of_le (by norm_num; omega) (by norm_num; omega)

theorem pos_inj (base : SeqNum) {p q : Nat} (hl : -2 ^ 31 ≤ (p : Int) - q)
    (hu : (p : Int) - q < 2 ^ 31) : pos base p = pos base q ↔ p = q := by
  constructor
  · intro h
    have hd := dist_pos base hl hu
    rw [h, dist, BitVec.sub_self] at hd
    simp only [BitVec.toInt_zero] at hd
    omega
  · intro h
    rw [h]

/-- The length of a near range, read back from its two edges. -/
theorem toNat_pos_sub (base : SeqNum) {p q : Nat} (h : p ≤ q) (hu : q - p < 2 ^ 32) :
    (pos base q - pos base p).toNat = q - p := by
  have : pos base q = pos base p + BitVec.ofNat 32 (q - p) := by
    rw [pos_add]
    congr 1
    omega
  rw [this]
  bv_omega

/-- A number at a known distance ahead of a position is a position. -/
theorem eq_pos_of_dist (base : SeqNum) {a : SeqNum} {p n : Nat} (h : dist a (pos base p) = n) :
    a = pos base (p + n) := by
  have hsub : a - pos base p = BitVec.ofInt 32 n := by
    rw [← h, dist, BitVec.ofInt_toInt]
  rw [← pos_add, ← BitVec.ofInt_natCast, ← hsub, BitVec.add_comm, BitVec.sub_add_cancel]

/-- Every number is a position at or behind any other. -/
theorem eq_pos_toNat_sub (base a : SeqNum) (p : Nat) :
    a = pos base (p + (a - pos base p).toNat) := by
  rw [← pos_add, ofNat_toNat, setWidth_eq, add_comm, sub_add_cancel]

/-- A distance that is not negative is the unsigned difference, and less than `2^31`. -/
theorem toNat_sub_of_dist {a b : SeqNum} {n : Nat} (h : dist a b = n) :
    (a - b).toNat = n ∧ n < 2 ^ 31 := by
  unfold dist at h
  have := (a - b).isLt
  rw [toInt_eq_toNat_cond] at h
  split at h <;> omega

theorem dist_eq_zero {a b : SeqNum} : dist a b = 0 ↔ a = b := by
  constructor
  · intro h
    have hsub := (toNat_sub_of_dist (n := 0) h).1
    bv_omega
  rintro rfl
  rw [dist, sub_self]
  rfl

/-- A distance does not depend on where the numbers start. -/
@[simp] theorem dist_add_add (a b k : SeqNum) : dist (a + k) (b + k) = dist a b := by
  rw [dist, add_sub_add_right_eq_sub, dist]

end SeqNum
end Moose
