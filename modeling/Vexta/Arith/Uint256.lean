import Vexta.Basic
import Mathlib.Data.Nat.Bitwise
import Mathlib.Algebra.Order.Ring.Nat

/-! `arith_uint256` on the value of the limbs, and the compact encoding of targets. -/
namespace Vexta.Uint256
open Lib

variable (A : Arith Fault)

def mulU32 (x b32 : ℕ) : Except Fault ℕ := A.unsigned 256 (x * b32)

def mul (x b : ℕ) : Except Fault ℕ := A.unsigned 256 (x * b)

def div (x b : ℕ) : Except Fault ℕ :=
  if b = 0 then .error .divisionByZero else .ok (x / b)

def shl (x shift : ℕ) : Except Fault ℕ := A.unsigned 256 (x <<< shift)

def sub (x b : ℕ) : ℕ := (x + (2 ^ 256 - b)) % 2 ^ 256

theorem sub_eq {x b : ℕ} (hx : x < 2 ^ 256) (hb : b ≤ x) : sub x b = x - b := by
  unfold sub
  omega

def bits (x : ℕ) : ℕ := if x = 0 then 0 else x.log2 + 1

def getLow64 (x : ℕ) : ℕ := x % 2 ^ 64

structure Compact where
  target : ℕ
  negative : Bool
  overflow : Bool
  deriving DecidableEq, Repr

def setCompact (nCompact : ℕ) : Except Fault Compact := do
  let nSize := nCompact >>> 24
  let nWord₀ := nCompact &&& 0x007fffff
  let nWord := if nSize ≤ 3 then nWord₀ >>> (8 * (3 - nSize)) else nWord₀
  let target ← (if nSize ≤ 3 then .ok nWord else shl A nWord (8 * (nSize - 3)))
  .ok {
    target
    negative := nWord ≠ 0 ∧ nCompact &&& 0x00800000 ≠ 0
    overflow := nWord ≠ 0 ∧
      (34 < nSize ∨ (0xff < nWord ∧ 33 < nSize) ∨ (0xffff < nWord ∧ 32 < nSize)) }

def compactHead (x nSize : ℕ) : Except Fault ℕ :=
  if nSize ≤ 3 then do
    let shifted ← A.unsigned 64 (getLow64 x <<< (8 * (3 - nSize)))
    A.unsigned 32 shifted
  else A.unsigned 32 (getLow64 (x >>> (8 * (nSize - 3))))

def getCompact (fNegative : Bool) (x : ℕ) : Except Fault ℕ := do
  let nSize := (bits x + 7) / 8
  let nCompact ← compactHead A x nSize
  let signed := nCompact &&& 0x00800000 ≠ 0
  let nCompact := if signed then nCompact >>> 8 else nCompact
  let nSize := if signed then nSize + 1 else nSize
  if nCompact >>> 23 ≠ 0 then .error .assertion
  else if 256 ≤ nSize then .error .assertion
  else
    let nCompact := nCompact ||| (nSize <<< 24)
    .ok (if fNegative ∧ nCompact &&& 0x007fffff ≠ 0 then nCompact ||| 0x00800000 else nCompact)

variable {A B : Arith Fault}

theorem setCompact_mono (h : A.Le B) (c : ℕ) :
    Approx (setCompact A c) (setCompact B c) := by
  unfold setCompact shl
  refine .bind ?_ fun _ _ => .refl _
  exact .leave fun _ => h.unsigned 256 _

theorem compactHead_mono (h : A.Le B) (x nSize : ℕ) :
    Approx (compactHead A x nSize) (compactHead B x nSize) := by
  unfold compactHead
  refine .ite (fun _ => ?_) fun _ => h.unsigned 32 _
  exact .bind (h.unsigned 64 _) fun _ _ => h.unsigned 32 _

theorem getCompact_mono (h : A.Le B) (fNegative : Bool) (x : ℕ) :
    Approx (getCompact A fNegative x) (getCompact B fNegative x) := by
  unfold getCompact
  exact .bind (compactHead_mono h x _) fun _ _ => .refl _

def targetOf (nBits : ℕ) : ℕ :=
  match setCompact .machine nBits with
  | .ok c => c.target
  | .error _ => 0

end Vexta.Uint256
