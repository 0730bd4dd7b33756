import Vexta.Coins.View
import Vexta.Lib.Double

/-! Fee rates. Amounts are integers: the overflow of a signed amount is left out. -/
namespace Vexta
open Lib

/-- `std::ceil(x / 1000.0)` in doubles; the quotient is taken in units of `2 ^ -52`. -/
def ceilThousandth : ℤ → ℤ
  | .ofNat n => ((roundDouble (roundDouble n 1 * 2 ^ 52) 1000 + (2 ^ 52 - 1)) / 2 ^ 52 : ℕ)
  | .negSucc n => -((roundDouble (roundDouble (n + 1) 1 * 2 ^ 52) 1000 / 2 ^ 52 : ℕ) : ℤ)

structure CFeeRate where
  nSatoshisPerK : ℤ
  deriving DecidableEq, Repr

namespace CFeeRate

def getFee (rate : CFeeRate) (nSize : ℕ) : ℤ :=
  let nFee := ceilThousandth (rate.nSatoshisPerK * nSize)
  if nFee = 0 ∧ nSize ≠ 0 then
    if 0 < rate.nSatoshisPerK then 1
    else if rate.nSatoshisPerK < 0 then -1
    else 0
  else nFee

end CFeeRate

theorem ceilThousandth_mono {m n : ℕ} (h : m ≤ n) : ceilThousandth m ≤ ceilThousandth n := by
  have hnumber : roundDouble m 1 ≤ roundDouble n 1 := roundDouble_mono (by norm_num) h
  have hquotient := roundDouble_mono (b := 1000) (by norm_num)
    (Nat.mul_le_mul_right (2 ^ 52) hnumber)
  change ((_ : ℕ) : ℤ) ≤ ((_ : ℕ) : ℤ)
  exact Int.ofNat_le.mpr (Nat.div_le_div_right (Nat.add_le_add_right hquotient _))

theorem ceilThousandth_neg (n : ℕ) : ceilThousandth (Int.negSucc n) ≤ 0 :=
  neg_nonpos.mpr (Int.natCast_nonneg _)

theorem ceilThousandth_nonneg (n : ℕ) : 0 ≤ ceilThousandth n := Int.natCast_nonneg _

theorem ceilThousandth_le {x y : ℤ} (h : x ≤ y) : ceilThousandth x ≤ ceilThousandth y := by
  cases x with
  | ofNat m =>
    cases y with
    | ofNat n => exact ceilThousandth_mono (Int.ofNat_le.mp h)
    | negSucc n =>
      have hneg := Int.negSucc_lt_zero n
      have hnonneg : (0 : ℤ) ≤ Int.ofNat m := Int.natCast_nonneg m
      omega
  | negSucc m =>
    cases y with
    | ofNat n => exact le_trans (ceilThousandth_neg m) (ceilThousandth_nonneg n)
    | negSucc n =>
      have hle : n + 1 ≤ m + 1 := by omega
      have hnumber : roundDouble (n + 1) 1 ≤ roundDouble (m + 1) 1 :=
        roundDouble_mono (by norm_num) hle
      have hquotient := roundDouble_mono (b := 1000) (by norm_num)
        (Nat.mul_le_mul_right (2 ^ 52) hnumber)
      have hfloor := Int.ofNat_le.mpr (Nat.div_le_div_right (c := 2 ^ 52) hquotient)
      exact neg_le_neg hfloor

theorem CFeeRate.getFee_rate_mono {low high : CFeeRate}
    (h : low.nSatoshisPerK ≤ high.nSatoshisPerK) (nSize : ℕ) :
    low.getFee nSize ≤ high.getFee nSize := by
  have hmono := ceilThousandth_le (Int.mul_le_mul_of_nonneg_right h (Int.natCast_nonneg nSize))
  unfold CFeeRate.getFee
  dsimp only
  split_ifs
  all_goals omega

end Vexta
