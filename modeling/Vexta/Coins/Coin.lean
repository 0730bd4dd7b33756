import Vexta.Primitives.Transaction

/-! Amounts and unspent outputs. -/
namespace Vexta
open Lib

def coinUnits : ℤ := 100000000

def maxMoney : ℤ := 21000000000 * coinUnits

def moneyRange (nValue : ℤ) : Bool := decide (0 ≤ nValue ∧ nValue ≤ maxMoney)

namespace CTxOut

def value (out : CTxOut) : ℤ := out.nValue.toInt

def isNull (out : CTxOut) : Bool := out.nValue == -1

end CTxOut

structure Coin where
  out : CTxOut
  fCoinBase : Bool
  nHeight : ℕ
  deriving DecidableEq, Repr

def Coin.isSpent (coin : Coin) : Bool := coin.out.isNull

end Vexta
