import Mathlib.Data.List.Basic
import Mathlib.Data.UInt
import Mathlib.Tactic.Common
import Mathlib.Tactic.Ring

/-! Byte strings and fixed-width little-endian numbers. -/
namespace Lib

abbrev Bytes := List UInt8

def le : ℕ → ℕ → Bytes
  | 0, _ => []
  | n + 1, x => UInt8.ofNat (x % 256) :: le n (x / 256)

@[simp] theorem length_le (n x : ℕ) : (le n x).length = n := by
  induction n generalizing x with
  | zero => rfl
  | succ n ih => simp [le, ih]

def ofLe : Bytes → ℕ
  | [] => 0
  | b :: bs => b.toNat + 256 * ofLe bs

theorem le_inj {n x y : ℕ} (hx : x < 256 ^ n) (hy : y < 256 ^ n) (h : le n x = le n y) :
    x = y := by
  induction n generalizing x y with
  | zero => simp at hx hy; omega
  | succ n ih =>
    simp only [le, List.cons.injEq] at h
    have hlow : x % 256 = y % 256 := by
      have hnat := congrArg UInt8.toNat h.1
      simpa using hnat
    have hhigh : x / 256 = y / 256 := by
      apply ih _ _ h.2
      · exact Nat.div_lt_of_lt_mul (by rw [← Nat.pow_succ']; exact hx)
      · exact Nat.div_lt_of_lt_mul (by rw [← Nat.pow_succ']; exact hy)
    omega

theorem ofLe_lt (b : Bytes) : ofLe b < 256 ^ b.length := by
  induction b with
  | nil => simp [ofLe]
  | cons x b ih =>
    have hx : x.toNat < 256 := x.toNat_lt
    simp only [ofLe, List.length_cons, pow_succ]
    omega

theorem le_ofLe (b : Bytes) : le b.length (ofLe b) = b := by
  induction b with
  | nil => rfl
  | cons x b ih =>
    have hx : x.toNat < 256 := x.toNat_lt
    have hlow : (ofLe (x :: b)) % 256 = x.toNat := by
      simp only [ofLe]
      omega
    have hhigh : (ofLe (x :: b)) / 256 = ofLe b := by
      simp only [ofLe]
      omega
    rw [List.length_cons, le, hlow, hhigh, ih, UInt8.ofNat_toNat]

theorem ofLe_append (a b : Bytes) : ofLe (a ++ b) = ofLe a + 256 ^ a.length * ofLe b := by
  induction a with
  | nil => simp [ofLe]
  | cons x a ih =>
    simp only [List.cons_append, ofLe, ih, List.length_cons]
    ring

theorem ofLe_le {n x : ℕ} (h : x < 256 ^ n) : ofLe (le n x) = x := by
  induction n generalizing x with
  | zero =>
    rw [pow_zero, Nat.lt_one_iff] at h
    rw [h]
    rfl
  | succ n ih =>
    have hdiv : x / 256 < 256 ^ n := by
      apply Nat.div_lt_of_lt_mul
      rwa [← pow_succ']
    have hbyte : (UInt8.ofNat (x % 256)).toNat = x % 256 := by
      simp
    simp only [le, ofLe, ih hdiv, hbyte]
    omega

end Lib
