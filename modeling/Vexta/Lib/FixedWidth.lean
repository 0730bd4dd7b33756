import Vexta.Lib.Approx
import Mathlib.Data.Int.Basic
import Mathlib.Tactic.Ring
import Mathlib.Tactic.Linarith

/-! Fixed-width arithmetic as the hardware does it, exact, or with a fault where a result does not
fit. A checked run that returns is exact. -/
namespace Lib
variable {ε : Type*}

/-- What becomes of a result that has to fit a machine width. -/
structure Arith (ε : Type*) where
  /-- A natural number stored in an unsigned integer of the given width. -/
  unsigned : ℕ → ℕ → Except ε ℕ
  /-- A signed value converted to an unsigned integer of the given width. -/
  narrow : ℕ → ℤ → Except ε ℕ
  /-- A signed value stored in a signed integer of the given width. -/
  signed : ℕ → ℤ → Except ε ℤ

namespace Arith

/-- Two's complement: high bits are dropped silently. -/
def machine : Arith ε where
  unsigned w x := .ok (x % 2 ^ w)
  narrow w x := .ok (x % 2 ^ w).toNat
  signed w x := .ok (Int.bmod x (2 ^ w))

def exact : Arith ε where
  unsigned _ x := .ok x
  narrow _ x := .ok x.toNat
  signed _ x := .ok x

def checked (e : ε) : Arith ε where
  unsigned w x := if x < 2 ^ w then .ok x else .error e
  narrow w x := if 0 ≤ x ∧ x < 2 ^ w then .ok x.toNat else .error e
  signed w x := if -2 ^ w ≤ 2 * x ∧ 2 * x < 2 ^ w then .ok x else .error e

structure Le (A B : Arith ε) : Prop where
  unsigned : ∀ w x, Approx (A.unsigned w x) (B.unsigned w x)
  narrow : ∀ w x, Approx (A.narrow w x) (B.narrow w x)
  signed : ∀ w x, Approx (A.signed w x) (B.signed w x)

theorem Le.refl (A : Arith ε) : Le A A where
  unsigned _ _ := Approx.refl _
  narrow _ _ := Approx.refl _
  signed _ _ := Approx.refl _

theorem checked_le_exact (e : ε) : Le (checked e) exact where
  unsigned w x := by
    intro a h
    simp only [checked] at h
    split_ifs at h
    simpa [exact] using h
  narrow w x := by
    intro a h
    simp only [checked] at h
    split_ifs at h
    simpa [exact] using h
  signed w x := by
    intro a h
    simp only [checked] at h
    split_ifs at h
    simpa [exact] using h

theorem checked_le_machine (e : ε) : Le (checked e) machine where
  unsigned w x := by
    intro a h
    simp only [checked] at h
    split_ifs at h with hx
    simp only [machine, Nat.mod_eq_of_lt hx]
    exact h
  narrow w x := by
    intro a h
    simp only [checked] at h
    split_ifs at h with hx
    simp only [machine, Int.emod_eq_of_lt hx.1 hx.2]
    exact h
  signed w x := by
    intro a h
    simp only [checked] at h
    split_ifs at h with hx
    have hp : ((2 ^ w : ℕ) : ℤ) = 2 ^ w := by push_cast; rfl
    have hb : Int.bmod x (2 ^ w) = x := by
      apply Int.bmod_eq_of_le_mul_two <;> rw [hp] <;> linarith [hx.1, hx.2]
    simp only [machine, hb]
    exact h

@[simp] theorem checked_unsigned {e : ε} {w x : ℕ} (h : x < 2 ^ w) :
    (checked e).unsigned w x = .ok x := if_pos h

@[simp] theorem checked_narrow {e : ε} {w : ℕ} {x : ℤ} (h0 : 0 ≤ x) (h : x < 2 ^ w) :
    (checked e).narrow w x = .ok x.toNat := if_pos ⟨h0, h⟩

@[simp] theorem checked_signed {e : ε} {w : ℕ} {x : ℤ} (h0 : -2 ^ w ≤ 2 * x)
    (h : 2 * x < 2 ^ w) : (checked e).signed w x = .ok x := if_pos ⟨h0, h⟩

end Arith
end Lib
