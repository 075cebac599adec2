import Mathlib.Data.Rat.Cast.Order
import Mathlib.Tactic.FieldSimp
import Mathlib.Tactic.Linarith
import Mathlib.Tactic.Qify

/-!
# Calibration of the TSC

`SystemClock::new` measures the frequency of the TSC, with the integer square root of
`common/src/statistics.rs` for the deviation of the samples, and keeps the nanoseconds per tick as a
fixed-point number. `none` is a panic. The multiplier is rounded once, at calibration, so the error
of a reading grows with the reading; that it is cut to whole nanoseconds adds less than one.
-/

set_option autoImplicit false

namespace Moose.Clock

/-! ## The square root -/

def sqrtLoop (n x y : Nat) : Option Nat :=
  if y < x then
    if y = 0 ∨ 2 ^ 64 ≤ n / y + y then none
    else sqrtLoop n y ((n / y + y) / 2)
  else some x
termination_by x

/-- `Number::sqrt` for `u64`. Without overflow checks the first sum would wrap to `0`, and the loop
would divide by it. -/
def sqrt (n : Nat) : Option Nat :=
  if n = 0 then some 0
  else if 2 ^ 64 ≤ n + 1 then none
  else sqrtLoop n n ((n + 1) / 2)

variable {n x f : Nat}

/-- The sums of the loop stay within the first one. -/
theorem sum_le (hpos : 0 < x) (hle : x ≤ n) : n / x + x ≤ n + 1 := by
  have hquot : 1 ≤ n / x := Nat.div_pos hle hpos
  have hprod : n / x * x ≤ n := Nat.div_mul_le_self n x
  nlinarith

/-- The mean of `x` and `n / x` is not below the root. -/
theorem lt_mean_succ_sq (hpos : 0 < x) :
    n < ((n / x + x) / 2 + 1) * ((n / x + x) / 2 + 1) := by
  have hquot : n < x * (n / x + 1) := Nat.lt_mul_div_succ n hpos
  have hmean : x + (n / x + 1) ≤ 2 * ((n / x + x) / 2 + 1) := by omega
  have hsq := (four_mul_le_sq_add x (n / x + 1)).trans (Nat.pow_le_pow_left hmean 2)
  linarith

/-- Every `x` of the loop is at or above the root, and the loop ends when it has reached it. -/
theorem sqrtLoop_floor (hn : n + 1 < 2 ^ 64) (x : Nat) (hpos : 0 < x) (hle : x ≤ n)
    (hroot : n < (x + 1) * (x + 1)) :
    ∃ r, sqrtLoop n x ((n / x + x) / 2) = some r ∧ r * r ≤ n ∧ n < (r + 1) * (r + 1) := by
  induction x using Nat.strong_induction_on with
  | _ x ih =>
    rw [sqrtLoop]
    split
    · rename_i hlt
      have hquot : 1 ≤ n / x := Nat.div_pos hle hpos
      have hnext : 0 < (n / x + x) / 2 := by omega
      have hsum := sum_le hnext (hlt.le.trans hle)
      rw [if_neg (by omega)]
      exact ih _ hlt hnext (hlt.le.trans hle) (lt_mean_succ_sq hpos)
    · have hquot : x ≤ n / x := by omega
      exact ⟨x, rfl, (Nat.le_div_iff_mul_le hpos).mp hquot, hroot⟩

/-- **The root is exact** for all but the largest number, for which the first sum overflows. -/
theorem sqrt_floor_iff (n : UInt64) :
    (∃ r, sqrt n.toNat = some r ∧ r * r ≤ n.toNat ∧ n.toNat < (r + 1) * (r + 1)) ↔
      n.toNat ≠ 2 ^ 64 - 1 := by
  have hlt := n.toNat_lt
  constructor
  · rintro ⟨r, hr, -⟩ hn
    simp [sqrt, hn] at hr
  · intro hn
    rcases Nat.eq_zero_or_pos n.toNat with hzero | hpos
    · exact ⟨0, by simp [sqrt, hzero], by simp [hzero]⟩
    · have hloop := sqrtLoop_floor (by omega) n.toNat hpos le_rfl (by nlinarith)
      rw [Nat.div_self hpos, Nat.add_comm 1] at hloop
      rwa [sqrt, if_neg hpos.ne', if_neg (by omega)]

theorem sqrt_overflows : sqrt (2 ^ 64 - 1) = none := by
  simp [sqrt]

/-! ## Nanoseconds -/

structure SystemClock where
  nsPerTscMult : Nat
  nsPerTscShift : Nat

namespace SystemClock

/-- The conversion `new` sets up for the measured frequency. -/
def new (tscFrequency : Nat) : Option SystemClock :=
  let scaled := 1000000000 * 2 ^ 32 + tscFrequency / 2
  if tscFrequency = 0 ∨ 2 ^ 64 ≤ scaled then none else some ⟨scaled / tscFrequency, 32⟩

/-- The nanoseconds before the cast to `u64`. -/
def nanoseconds (c : SystemClock) (tsc : Nat) : Nat := (tsc * c.nsPerTscMult) >>> c.nsPerTscShift

def tscToNs (c : SystemClock) (tsc : Nat) : Nat := c.nanoseconds tsc % 2 ^ 64

/-- The multiplier is the nearest fixed-point number. -/
theorem mult_error (hf : 0 < f) :
    |(((1000000000 * 2 ^ 32 + f / 2) / f : Nat) : ℚ) / 2 ^ 32 - 1000000000 / f| ≤ 1 / 2 ^ 33 := by
  have hdiv := Nat.div_add_mod (1000000000 * 2 ^ 32 + f / 2) f
  have hmod := Nat.mod_lt (1000000000 * 2 ^ 32 + f / 2) hf
  generalize (1000000000 * 2 ^ 32 + f / 2) / f = m at hdiv
  have hlow : 2 * (1000000000 * 2 ^ 32) ≤ 2 * (f * m) + f := by omega
  have hhigh : 2 * (f * m) ≤ 2 * (1000000000 * 2 ^ 32) + f := by omega
  qify at hf hlow hhigh
  have heq : (m : ℚ) / 2 ^ 32 - 1000000000 / f =
      (2 * (f * m) - 2 * (1000000000 * 2 ^ 32)) / (2 ^ 33 * f) := by
    field_simp
  rw [heq, abs_le, le_div_iff₀ (by positivity), div_le_iff₀ (by positivity)]
  constructor <;> linarith

/-- **Times are monotone**, and off by the rounding of the multiplier and the part of a nanosecond
that is cut off. -/
theorem new_accurate (f : Nat) (hf : 1 ≤ f) (hsize : f < 2 ^ 64) :
    ∃ c, new f = some c ∧ ∀ t t', t ≤ t' → c.nanoseconds t' < 2 ^ 64 →
      c.tscToNs t ≤ c.tscToNs t' ∧
      |(c.tscToNs t : ℚ) - t * 1000000000 / f| < t / 2 ^ 33 + 1 := by
  refine ⟨⟨(1000000000 * 2 ^ 32 + f / 2) / f, 32⟩, ?_, ?_⟩
  · exact if_neg (by omega)
  intro t t' ht hbound
  have herr := abs_le.mp (mult_error hf)
  unfold tscToNs nanoseconds at *
  simp only [Nat.shiftRight_eq_div_pow] at *
  generalize (1000000000 * 2 ^ 32 + f / 2) / f = m at *
  have hmono : t * m / 2 ^ 32 ≤ t' * m / 2 ^ 32 :=
    Nat.div_le_div_right (Nat.mul_le_mul_right m ht)
  rw [Nat.mod_eq_of_lt hbound, Nat.mod_eq_of_lt (hmono.trans_lt hbound)]
  refine ⟨hmono, ?_⟩
  have hlow : t * m / 2 ^ 32 * 2 ^ 32 ≤ t * m := Nat.div_mul_le_self _ _
  have hhigh : t * m < 2 ^ 32 * (t * m / 2 ^ 32 + 1) := Nat.lt_mul_div_succ _ (by norm_num)
  generalize t * m / 2 ^ 32 = ns at hlow hhigh
  qify at hlow hhigh
  have ht : (0 : ℚ) ≤ t := Nat.cast_nonneg t
  have hup := mul_le_mul_of_nonneg_left herr.2 ht
  have hdown := mul_le_mul_of_nonneg_left herr.1 ht
  rw [abs_lt, mul_div_assoc]
  constructor <;> linarith

theorem new_accurate_ghz : ∃ c, new 1000000000 = some c ∧ c.tscToNs 7 ≤ c.tscToNs 8 := by
  obtain ⟨c, hnew, hconv⟩ := new_accurate 1000000000 (by norm_num) (by norm_num)
  cases hnew
  exact ⟨_, rfl, (hconv 7 8 (by norm_num) (by decide)).1⟩

end SystemClock

end Moose.Clock
