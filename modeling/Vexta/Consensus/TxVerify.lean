import Vexta.Coins.Stack
import Vexta.Lib.Tally
import Vexta.Validation.MempoolScripts

/-! The rules for one transaction: without context, lock times, signature operations and amounts. -/
namespace Vexta
open Lib

def witnessScaleFactor : ℕ := 4
def maxBlockWeight : ℕ := 4000000
def maxBlockSigOpsCost : ℕ := 80000
def coinbaseMaturity : ℤ := 8
def coinbaseMaturity2 : ℤ := 100

def invalidTx {α : Type} (result : TxValidationResult) (reason : String) : Except TxFailure α :=
  .error (.invalid result reason none)

@[simp] theorem invalidTx_ne_ok {α : Type} {result : TxValidationResult} {reason : String} {a : α} :
    ¬ (invalidTx result reason : Except TxFailure α) = .ok a := nofun

def addAmounts (a b : ℤ) : Except TxFailure ℤ := liftTxFault (trap.signed 64 (a + b))

def checkOutputValue (nValueOut : ℤ) (txout : CTxOut) : Except TxFailure ℤ :=
  if txout.value < 0 then invalidTx .consensus "bad-txns-vout-negative"
  else if maxMoney < txout.value then invalidTx .consensus "bad-txns-vout-toolarge"
  else do
    let nValueOut ← addAmounts nValueOut txout.value
    if moneyRange nValueOut then .ok nValueOut
    else invalidTx .consensus "bad-txns-txouttotal-toolarge"

variable (tx : CTransaction)

def checkPrevouts : Except TxFailure Unit :=
  if tx.isCoinBase then
    if tx.vin.any fun txin => txin.scriptSig.length < 2 || 100 < txin.scriptSig.length then
      invalidTx .consensus "bad-cb-length"
    else .ok ()
  else if tx.vin.any fun txin => txin.prevout.isNull then
    invalidTx .consensus "bad-txns-prevout-null"
  else .ok ()

def checkTransaction : Except TxFailure Unit :=
  if tx.vin = [] then invalidTx .consensus "bad-txns-vin-empty"
  else if tx.vout = [] then invalidTx .consensus "bad-txns-vout-empty"
  else if maxBlockWeight < tx.serializeNoWitness.length * witnessScaleFactor then
    invalidTx .consensus "bad-txns-oversize"
  else do
    let _ ← tx.vout.foldlM checkOutputValue 0
    if ¬ (tx.vin.map CTxIn.prevout).Nodup then invalidTx .consensus "bad-txns-inputs-duplicate"
    else checkPrevouts tx

def isFinalTx (nBlockHeight nBlockTime : ℤ) : Bool :=
  let nLockTime : ℤ := tx.nLockTime.toNat
  if nLockTime = 0 then true
  else if nLockTime < if nLockTime < lockTimeThreshold then nBlockHeight else nBlockTime then true
  else tx.vin.all fun txin => txin.nSequence == 0xffffffff

structure LockTimeFlags where
  verifySequence : Bool
  medianTimePast : Bool
  deriving DecidableEq, Repr

namespace CTxIn

def sequenceDisabled (txin : CTxIn) : Bool := txin.nSequence.getLsbD 31

def sequenceIsTime (txin : CTxIn) : Bool := txin.nSequence.getLsbD 22

def sequenceValue (txin : CTxIn) : ℤ := (txin.nSequence &&& 0x0000ffff).toNat

end CTxIn

structure LockPair where
  height : ℤ
  time : ℤ
  deriving DecidableEq, Repr

/-- What one input demands, by the height of its coin and the median times. -/
def sequenceLock (medianTimeAt : ℤ → Except Fault ℤ) (locks : LockPair) (txin : CTxIn)
    (nCoinHeight : ℤ) : Except Fault LockPair :=
  if txin.sequenceIsTime then do
    -- the block before the one that holds the coin
    let nCoinTime ← medianTimeAt (max (nCoinHeight - 1) 0)
    .ok { locks with time := max locks.time (nCoinTime + txin.sequenceValue * 512 - 1) }
  else .ok { locks with height := max locks.height (nCoinHeight + txin.sequenceValue - 1) }

/-- The loop of `CalculateSequenceLocks`; it zeroes the height of an unlocked input. -/
def sequenceLocksLoop (medianTimeAt : ℤ → Except Fault ℤ) :
    List CTxIn → List ℤ → LockPair → Except Fault (LockPair × List ℤ)
  | [], prevHeights, locks => .ok (locks, prevHeights)
  | _ :: _, [], _ => .error .assertion
  | txin :: vin, nCoinHeight :: prevHeights, locks =>
    if txin.sequenceDisabled then do
      let (locks, prevHeights) ← sequenceLocksLoop medianTimeAt vin prevHeights locks
      .ok (locks, 0 :: prevHeights)
    else do
      let locks ← sequenceLock medianTimeAt locks txin nCoinHeight
      let (locks, prevHeights) ← sequenceLocksLoop medianTimeAt vin prevHeights locks
      .ok (locks, nCoinHeight :: prevHeights)

def calculateSequenceLocks (tx : CTransaction) (flags : LockTimeFlags) (prevHeights : List ℤ)
    (medianTimeAt : ℤ → Except Fault ℤ) : Except Fault (LockPair × List ℤ) :=
  if prevHeights.length ≠ tx.vin.length then .error .assertion
  else if 2 ≤ tx.nVersion.toNat ∧ flags.verifySequence then
    sequenceLocksLoop medianTimeAt tx.vin prevHeights ⟨-1, -1⟩
  else .ok (⟨-1, -1⟩, prevHeights)

def evaluateSequenceLocks (nHeight nBlockTime : ℤ) (locks : LockPair) : Bool :=
  ¬ (nHeight ≤ locks.height ∨ nBlockTime ≤ locks.time)

namespace CScript

def countSigOp (fAccurate : Bool) (count : ℕ × UInt8) (opcode : UInt8) : ℕ × UInt8 :=
  let (n, lastOpcode) := count
  if opcode = 0xac ∨ opcode = 0xad then (n + 1, opcode)
  else if opcode = 0xae ∨ opcode = 0xaf then
    if fAccurate ∧ op1 ≤ lastOpcode ∧ lastOpcode ≤ op16 then (n + decodeOpN lastOpcode, opcode)
    else (n + maxPubkeysPerMultisig, opcode)
  else (n, opcode)

def getSigOpCount (script : CScript) (fAccurate : Bool) : ℕ :=
  ((script.ops.filterMap fun i => i.ret.map Prod.fst).foldl (countSigOp fAccurate) (0, 0xff)).1

def lastPush (script : CScript) : Bytes :=
  ((script.ops.getLast?.bind GetOp.ret).map Prod.snd).getD []

def getSpentSigOpCount (scriptPubKey scriptSig : CScript) : ℕ :=
  if ¬ scriptPubKey.isPayToScriptHash then scriptPubKey.getSigOpCount true
  else if scriptSig.isPushOnly then getSigOpCount scriptSig.lastPush true
  else 0

end CScript

def witnessSigOps (witness : List Bytes) : Option (ℕ × Bytes) → ℕ
  | some (witversion, witprogram) =>
    if witversion = 0 then
      if witprogram.length = 20 then 1
      else if witprogram.length = 32 then
        match witness.getLast? with
        | some subscript => CScript.getSigOpCount subscript true
        | none => 0
      else 0
    else 0
  | none => 0

def countWitnessSigOps (scriptSig scriptPubKey : CScript) (witness : List Bytes) (flags : Flags) :
    ℕ :=
  if ¬ flags .witness then 0
  else if (scriptPubKey.isWitnessProgram).isSome then
    witnessSigOps witness scriptPubKey.isWitnessProgram
  else if scriptPubKey.isPayToScriptHash ∧ scriptSig.isPushOnly then
    witnessSigOps witness (CScript.isWitnessProgram scriptSig.lastPush)
  else 0

variable (tx : CTransaction)

def getLegacySigOpCount : ℕ :=
  (tx.vin.map fun txin => txin.scriptSig.getSigOpCount false).sum +
    (tx.vout.map fun txout => txout.scriptPubKey.getSigOpCount false).sum

variable (inputs : Contents)

def unspentCoin (txin : CTxIn) : Except Fault Coin :=
  match inputs txin.prevout with
  | some coin => .ok coin
  | none => .error .assertion

def inputSigOpCost (flags : Flags) (cost : ℕ) (txin : CTxIn) :
    Except Fault ℕ := do
  let coin ← unspentCoin inputs txin
  let scriptPubKey := coin.out.scriptPubKey
  let p2sh :=
    if flags .p2sh ∧ scriptPubKey.isPayToScriptHash then
      scriptPubKey.getSpentSigOpCount txin.scriptSig
    else 0
  .ok (cost + p2sh * witnessScaleFactor +
    countWitnessSigOps txin.scriptSig scriptPubKey txin.scriptWitness flags)

def getTransactionSigOpCost (flags : Flags) :
    Except Fault ℕ :=
  let cost := getLegacySigOpCount tx * witnessScaleFactor
  if tx.isCoinBase then .ok cost else tx.vin.foldlM (inputSigOpCost inputs flags) cost

def addValueOut (nValueOut : ℤ) (txout : CTxOut) : Except TxFailure ℤ :=
  if moneyRange txout.value ∧ moneyRange (nValueOut + txout.value) then
    .ok (nValueOut + txout.value)
  else .error (.fault .outOfRange)

def CTransaction.getValueOut : Except TxFailure ℤ := tx.vout.foldlM addValueOut 0

def Coin.maturity (coin : Coin) : ℤ :=
  if coin.nHeight < 145000 then coinbaseMaturity else coinbaseMaturity2

def checkTxInput (nSpendHeight nValueIn : ℤ) (txin : CTxIn) :
    Except TxFailure ℤ := do
  let coin ← liftTxFault (unspentCoin inputs txin)
  if coin.fCoinBase ∧ nSpendHeight - coin.nHeight < coin.maturity then
    invalidTx .prematureSpend "bad-txns-premature-spend-of-coinbase"
  else
    let nValueIn ← addAmounts nValueIn coin.out.value
    if moneyRange coin.out.value ∧ moneyRange nValueIn then .ok nValueIn
    else invalidTx .consensus "bad-txns-inputvalues-outofrange"

def haveInputs : Bool :=
  tx.isCoinBase || tx.vin.all fun txin => (inputs txin.prevout).isSome

def tallyFee (nValueIn valueOut : ℤ) : Except TxFailure ℤ :=
  if nValueIn < valueOut then invalidTx .consensus "bad-txns-in-belowout"
  else if moneyRange (nValueIn - valueOut) then .ok (nValueIn - valueOut)
  else invalidTx .consensus "bad-txns-fee-outofrange"

def checkTxInputs (nSpendHeight : ℤ) :
    Except TxFailure ℤ :=
  if ¬ haveInputs tx inputs then
    invalidTx .missingInputs "bad-txns-inputs-missingorspent"
  else do
    let nValueIn ← tx.vin.foldlM (checkTxInput inputs nSpendHeight) 0
    let valueOut ← tx.getValueOut
    tallyFee nValueIn valueOut

theorem liftTxFault_eq_ok {α : Type} {x : Except Fault α} {a : α} :
    liftTxFault x = .ok a ↔ x = .ok a := by
  cases x <;> simp [liftTxFault]

variable {b n t : ℤ} {tx : CTransaction} {inputs : Contents} {nSpendHeight : ℤ}

theorem addAmounts_eq_ok {a c : ℤ} (h : addAmounts a b = .ok c) : c = a + b := by
  unfold addAmounts trap Arith.checked at h
  rw [liftTxFault_eq_ok] at h
  dsimp only at h
  split_ifs at h
  exact (Except.ok.inj h).symm

theorem moneyRange_iff {a : ℤ} : moneyRange a = true ↔ 0 ≤ a ∧ a ≤ maxMoney := decide_eq_true_iff

theorem maxMoney_eq : maxMoney = 2100000000000000000 := by decide

theorem addAmounts_of_moneyRange {a : ℤ} (ha : moneyRange a = true) (hb : moneyRange b = true) :
    addAmounts a b = .ok (a + b) := by
  rw [moneyRange_iff, maxMoney_eq] at ha hb
  have hfits : -2 ^ 64 ≤ 2 * (a + b) ∧ 2 * (a + b) < 2 ^ 64 := by omega
  unfold addAmounts trap Arith.checked
  dsimp only
  rw [if_pos hfits]
  rfl

theorem moneyRange_zero : moneyRange 0 = true := by decide

def CTransaction.valueOut (tx : CTransaction) : ℤ := (tx.vout.map CTxOut.value).sum

theorem checkOutputValue_eq_ok {txout : CTxOut} (h : checkOutputValue n txout = .ok t) :
    t = n + txout.value ∧ moneyRange txout.value = true ∧ moneyRange t = true := by
  unfold checkOutputValue invalidTx at h
  split_ifs at h with hneg hlarge
  rw [bind_eq_ok] at h
  obtain ⟨total, htotal, h⟩ := h
  have hsum := addAmounts_eq_ok htotal
  split_ifs at h with hrange
  obtain rfl := Except.ok.inj h
  refine ⟨hsum, ?_, hrange⟩
  rw [moneyRange_iff]
  exact ⟨not_lt.mp hneg, not_lt.mp hlarge⟩

/-- What a transaction that passes `CheckTransaction` is. -/
structure CTransaction.Checked (tx : CTransaction) : Prop where
  vin : tx.vin ≠ []
  vout : tx.vout ≠ []
  size : tx.serializeNoWitness.length * witnessScaleFactor ≤ maxBlockWeight
  values : ∀ txout ∈ tx.vout, moneyRange txout.value = true
  total : moneyRange tx.valueOut = true
  prevouts : (tx.vin.map CTxIn.prevout).Nodup
  notNull : tx.isCoinBase = false → ∀ txin ∈ tx.vin, txin.prevout.isNull = false

theorem checkTransaction_eq_ok (h : checkTransaction tx = .ok ()) : tx.Checked := by
  unfold checkTransaction at h
  have hvin : tx.vin ≠ [] := by
    intro hc
    rw [if_pos hc] at h
    exact invalidTx_ne_ok h
  have hvout : tx.vout ≠ [] := by
    intro hc
    rw [if_neg hvin, if_pos hc] at h
    exact invalidTx_ne_ok h
  rw [if_neg hvin, if_neg hvout] at h
  have hsize : ¬ maxBlockWeight < tx.serializeNoWitness.length * witnessScaleFactor := by
    intro hc
    rw [if_pos hc] at h
    exact invalidTx_ne_ok h
  rw [if_neg hsize, bind_eq_ok] at h
  obtain ⟨total, htotal, h⟩ := h
  obtain ⟨hsum, hvalues, hrange⟩ := foldlM_sum CTxOut.value (fun txout => moneyRange txout.value)
    (fun total => moneyRange total) (fun _ _ _ => checkOutputValue_eq_ok) htotal
  have hnodup : ¬ ¬ (tx.vin.map CTxIn.prevout).Nodup := by
    intro hc
    rw [if_pos hc] at h
    exact invalidTx_ne_ok h
  rw [if_neg hnodup] at h
  refine ⟨hvin, hvout, Nat.le_of_not_lt hsize, hvalues, ?_, not_not.mp hnodup, ?_⟩
  · have htotal := hrange moneyRange_zero
    rwa [hsum, zero_add] at htotal
  · intro hcoinbase txin hmem
    rw [← Bool.not_eq_true]
    intro hnull
    have hany : (tx.vin.any fun txin => txin.prevout.isNull) = true :=
      List.any_eq_true.mpr ⟨txin, hmem, hnull⟩
    unfold checkPrevouts at h
    rw [if_neg (Bool.not_eq_true _ ▸ hcoinbase), if_pos hany] at h
    exact invalidTx_ne_ok h

theorem getValueOut_eq_ok {value : ℤ} (h : tx.getValueOut = .ok value) :
    value = tx.valueOut ∧ moneyRange value = true := by
  have hstep : ∀ s a t, addValueOut s a = .ok t → t = s + a.value ∧ True ∧ moneyRange t = true := by
    intro s a t hok
    unfold addValueOut at hok
    split_ifs at hok with hrange
    obtain rfl := Except.ok.inj hok
    exact ⟨rfl, trivial, hrange.2⟩
  obtain ⟨hsum, -, hrange⟩ :=
    foldlM_sum CTxOut.value (fun _ => True) (fun total => moneyRange total) hstep h
  exact ⟨by rw [hsum, zero_add]; rfl, hrange moneyRange_zero⟩

def CTxIn.valueIn (inputs : Contents) (txin : CTxIn) : ℤ :=
  ((inputs txin.prevout).map fun coin => coin.out.value).getD 0

def CTransaction.valueIn (inputs : Contents) (tx : CTransaction) : ℤ :=
  (tx.vin.map fun txin => txin.valueIn inputs).sum

def CTxIn.Spends (inputs : Contents) (nSpendHeight : ℤ) (txin : CTxIn) : Prop :=
  ∃ coin, inputs txin.prevout = some coin ∧ moneyRange coin.out.value = true ∧
    (coin.fCoinBase = true → coin.maturity ≤ nSpendHeight - coin.nHeight)

theorem checkTxInput_eq_ok {txin : CTxIn} (h : checkTxInput inputs nSpendHeight n txin = .ok t) :
    t = n + txin.valueIn inputs ∧ txin.Spends inputs nSpendHeight ∧ moneyRange t = true := by
  unfold checkTxInput invalidTx at h
  rw [bind_eq_ok] at h
  obtain ⟨coin, hcoin, h⟩ := h
  rw [liftTxFault_eq_ok] at hcoin
  unfold unspentCoin at hcoin
  cases hlookup : inputs txin.prevout with
  | none =>
    rw [hlookup] at hcoin
    cases hcoin
  | some found =>
    rw [hlookup] at hcoin
    obtain rfl := Except.ok.inj hcoin
    split_ifs at h with himmature
    rw [bind_eq_ok] at h
    obtain ⟨total, htotal, h⟩ := h
    have hsum := addAmounts_eq_ok htotal
    split_ifs at h with hrange
    obtain rfl := Except.ok.inj h
    refine ⟨?_, ⟨found, hlookup, hrange.1, fun hbase => ?_⟩, hrange.2⟩
    · rw [hsum, CTxIn.valueIn, hlookup]
      rfl
    · exact not_lt.mp fun hlt => himmature ⟨hbase, hlt⟩

/-- What `CheckTxInputs` knows of a transaction and its fee. -/
structure CTransaction.InputsChecked (tx : CTransaction) (inputs : Contents)
    (nSpendHeight txfee : ℤ) : Prop where
  spends : ∀ txin ∈ tx.vin, txin.Spends inputs nSpendHeight
  fee : txfee = tx.valueIn inputs - tx.valueOut
  feeRange : moneyRange txfee = true
  valueIn : moneyRange (tx.valueIn inputs) = true

theorem checkTxInputs_eq_ok {txfee : ℤ} (h : checkTxInputs tx inputs nSpendHeight = .ok txfee) :
    tx.InputsChecked inputs nSpendHeight txfee := by
  unfold checkTxInputs at h
  by_cases hhave : ¬ haveInputs tx inputs = true
  · cases (if_pos hhave).symm.trans h
  rw [if_neg hhave, bind_eq_ok] at h
  obtain ⟨nValueIn, hin, h⟩ := h
  rw [bind_eq_ok] at h
  obtain ⟨valueOut, hout, h⟩ := h
  obtain ⟨hsum, hspends, hrange⟩ := foldlM_sum (fun txin => CTxIn.valueIn inputs txin)
    (fun txin => CTxIn.Spends inputs nSpendHeight txin) (fun total => moneyRange total)
    (fun _ _ _ => checkTxInput_eq_ok) hin
  rw [zero_add] at hsum
  obtain ⟨houtSum, -⟩ := getValueOut_eq_ok hout
  unfold tallyFee invalidTx at h
  split_ifs at h with hbelow hfee
  obtain rfl := Except.ok.inj h
  refine ⟨hspends, ?_, hfee, ?_⟩
  · rw [hsum, houtSum]
    rfl
  · have hin := hrange moneyRange_zero
    rwa [hsum] at hin

end Vexta
