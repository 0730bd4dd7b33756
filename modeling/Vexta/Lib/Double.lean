import Mathlib.Algebra.Order.Ring.Nat
import Mathlib.Tactic.Ring
import Mathlib.Tactic.Positivity

/-! Quotients of natural numbers rounded to 53 bits, ties to even, with unlimited exponents. -/
namespace Lib
open Nat

/-- The natural number nearest to `a / b`, and the even one of two. -/
def roundEven (a b : ℕ) : ℕ :=
  if 2 * (a % b) < b then a / b
  else if b < 2 * (a % b) then a / b + 1
  else a / b + a / b % 2

/-- `a / b` to 53 significant bits from `2 ^ 52` on, and to a natural number below. -/
def roundDouble (a b : ℕ) : ℕ :=
  let e := Nat.log2 (a / b) - 52
  roundEven a (b * 2 ^ e) * 2 ^ e

section
variable {a a' b n : ℕ}

theorem roundEven_bounds (a b : ℕ) : a / b ≤ roundEven a b ∧ roundEven a b ≤ a / b + 1 := by
  unfold roundEven
  split_ifs
  · omega
  · omega
  · omega

theorem roundEven_mono (h : a ≤ a') : roundEven a b ≤ roundEven a' b := by
  have hquot : a / b ≤ a' / b := Nat.div_le_div_right h
  rcases hquot.lt_or_eq with hlt | heq
  · have hupper := (roundEven_bounds a b).2
    have hlower := (roundEven_bounds a' b).1
    omega
  · -- the same quotient, so that the remainders decide
    have ha := div_add_mod a b
    have ha' := div_add_mod a' b
    rw [heq] at ha
    have hrem : a % b ≤ a' % b := by omega
    unfold roundEven
    rw [heq]
    split_ifs
    all_goals omega

theorem le_roundEven (hb : 0 < b) (h : n * b ≤ a) : n ≤ roundEven a b :=
  le_trans ((le_div_iff_mul_le hb).mpr h) (roundEven_bounds a b).1

theorem roundEven_le (hb : 0 < b) (h : a < n * b) : roundEven a b ≤ n := by
  have hlt : a / b < n := (div_lt_iff_lt_mul hb).mpr h
  have hupper := (roundEven_bounds a b).2
  omega

def exponent (a b : ℕ) : ℕ := Nat.log2 (a / b) - 52

theorem lt_exponent (a b : ℕ) : a / b < 2 ^ 53 * 2 ^ exponent a b := by
  have hself : a / b < 2 ^ (Nat.log2 (a / b) + 1) := lt_log2_self
  have hexp : 2 ^ (Nat.log2 (a / b) + 1) ≤ 2 ^ 53 * 2 ^ exponent a b := by
    unfold exponent
    rw [← pow_add]
    exact Nat.pow_le_pow_right (by norm_num) (by omega)
  exact lt_of_lt_of_le hself hexp

theorem exponent_le (h : 0 < exponent a b) : 2 ^ 52 * 2 ^ exponent a b ≤ a / b := by
  unfold exponent at h ⊢
  have hne : a / b ≠ 0 := by
    intro hzero
    rw [hzero, log2_zero] at h
    omega
  have hself := log2_self_le hne
  rwa [← pow_add, show 52 + (Nat.log2 (a / b) - 52) = Nat.log2 (a / b) by omega]

theorem exponent_mono (h : a ≤ a') : exponent a b ≤ exponent a' b := by
  by_contra hgt
  have hlower := exponent_le (a := a) (b := b) (by omega)
  have hupper := lt_exponent a' b
  have hquot : a / b ≤ a' / b := Nat.div_le_div_right h
  have hpow : 2 ^ 53 * 2 ^ exponent a' b ≤ 2 ^ 52 * 2 ^ exponent a b := by
    rw [← pow_add, ← pow_add]
    exact Nat.pow_le_pow_right (by norm_num) (by omega)
  omega

theorem roundDouble_mono (hb : 0 < b) (h : a ≤ a') : roundDouble a b ≤ roundDouble a' b := by
  change roundEven a (b * 2 ^ exponent a b) * 2 ^ exponent a b ≤
    roundEven a' (b * 2 ^ exponent a' b) * 2 ^ exponent a' b
  have hpos : ∀ k : ℕ, 0 < b * 2 ^ k := fun k => Nat.mul_pos hb (Nat.two_pow_pos k)
  have hmono : exponent a b ≤ exponent a' b := exponent_mono h
  rcases hmono.lt_or_eq with hlt | heq
  · -- the larger quotient has a larger exponent, and a power of two lies between the results
    have hupper : roundEven a (b * 2 ^ exponent a b) ≤ 2 ^ 53 := by
      apply roundEven_le (hpos _)
      have hmul := (div_lt_iff_lt_mul hb).mp (lt_exponent a b)
      calc a < 2 ^ 53 * 2 ^ exponent a b * b := hmul
        _ = 2 ^ 53 * (b * 2 ^ exponent a b) := by ring
    have hlower : 2 ^ 52 ≤ roundEven a' (b * 2 ^ exponent a' b) := by
      apply le_roundEven (hpos _)
      have hmul := (le_div_iff_mul_le hb).mp (exponent_le (show 0 < exponent a' b by omega))
      calc 2 ^ 52 * (b * 2 ^ exponent a' b) = 2 ^ 52 * 2 ^ exponent a' b * b := by ring
        _ ≤ a' := hmul
    calc roundEven a (b * 2 ^ exponent a b) * 2 ^ exponent a b
        ≤ 2 ^ 53 * 2 ^ exponent a b := mul_le_mul_right _ hupper
      _ = 2 ^ 52 * 2 ^ (exponent a b + 1) := by ring
      _ ≤ 2 ^ 52 * 2 ^ exponent a' b :=
        Nat.mul_le_mul_left _ (Nat.pow_le_pow_right (by norm_num) hlt)
      _ ≤ roundEven a' (b * 2 ^ exponent a' b) * 2 ^ exponent a' b :=
        Nat.mul_le_mul_right _ hlower
  · rw [← heq]
    exact mul_le_mul_right _ (roundEven_mono h)

end
end Lib
