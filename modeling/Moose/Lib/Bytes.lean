import Mathlib.Data.UInt

/-!
# Numbers as bytes

Little-endian encodings of a fixed width, and that reading one back gives the number. Network
formats are big-endian.
-/

set_option autoImplicit false

namespace Moose.Lib

/-- The lowest `n` bytes of a number, the lowest first. -/
def toLe : Nat → Nat → List UInt8
  | 0, _ => []
  | n + 1, x => UInt8.ofNat x :: toLe n (x / 256)

def ofLe : List UInt8 → Nat
  | [] => 0
  | b :: bs => b.toNat + 256 * ofLe bs

/-- Big-endian. -/
def ofBe (bs : List UInt8) : Nat := bs.foldl (fun acc b => 256 * acc + b.toNat) 0

@[simp] theorem length_toLe (n x : Nat) : (toLe n x).length = n := by
  induction n generalizing x with
  | zero => rfl
  | succ n ih => simp [toLe, ih]

theorem ofLe_toLe {n x : Nat} (h : x < 256 ^ n) : ofLe (toLe n x) = x := by
  induction n generalizing x with
  | zero =>
    rw [Nat.pow_zero] at h
    simp [toLe, ofLe, Nat.lt_one_iff.mp h]
  | succ n ih =>
    have hdiv : x / 256 < 256 ^ n := Nat.div_lt_of_lt_mul (by rwa [Nat.pow_succ'] at h)
    rw [toLe, ofLe, ih hdiv, UInt8.toNat_ofNat']
    exact Nat.mod_add_div x 256

/-- Takes a prefix of known length off a list. -/
theorem take_append_of_length {α : Type} {xs ys : List α} {n : Nat} (h : xs.length = n) :
    (xs ++ ys).take n = xs := by
  rw [← h]
  exact List.take_left

theorem drop_append_of_length {α : Type} {xs ys : List α} {n : Nat} (h : xs.length = n) :
    (xs ++ ys).drop n = ys := by
  rw [← h]
  exact List.drop_left

end Moose.Lib
