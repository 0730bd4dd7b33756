import Vexta.Coins.Coin
import Vexta.Script.NoFault
import Vexta.Validation.InputScripts
import Vexta.Wallet.IsMine

/-! `SignTransaction`, and the loop over the managers. A failed assertion ends the program. -/
namespace Vexta
open Lib

def sigHashDefault : BitVec 32 := 0
def sigHashAll : BitVec 32 := 1
def sigHashSingle : BitVec 32 := 3

abbrev CoinMap := COutPoint → Option Coin

def CoinMap.unspent (coins : CoinMap) (prevout : COutPoint) : Option CTxOut :=
  match coins prevout with
  | some coin => if coin.isSpent then none else some coin.out
  | none => none

structure SignState where
  tx : CTransaction
  inputErrors : Assoc ℕ String

def CTransaction.updateInput (tx : CTransaction) (i : ℕ) (scriptSig : CScript)
    (scriptWitness : List Bytes) : CTransaction :=
  { tx with vin := tx.vin.modify i fun txin => { txin with scriptSig, scriptWitness } }

namespace SignState

def fail (s : SignState) (i : ℕ) (error : String) : SignState :=
  { s with inputErrors := s.inputErrors.insert i error }

def succeed (s : SignState) (i : ℕ) : SignState :=
  { s with inputErrors := s.inputErrors.erase i }

end SignState

/-- `ProduceSignature` of an input with the elliptic-curve keys of a manager. -/
structure SigningProvider where
  produceSignature : CTransaction → ℕ → CTxOut → PrecomputedTransactionData → BitVec 32 →
    CScript × List Bytes

def scriptOutcome : Except Failure Unit → Except Fault (Option ScriptError)
  | .ok () => .ok none
  | .error (.script serror) => .ok (some serror)
  | .error (.fault fault) => .error fault

def assertNoError {α : Type} : Except Failure α → Except Fault α
  | .ok a => .ok a
  | .error (.script _) => .error .assertion
  | .error (.fault fault) => .error fault

def signingError (serror : ScriptError) : String :=
  if serror = .invalidStackOperation then
    "Unable to sign input, invalid stack size (possibly missing key)"
  else if serror = .sigNullFail then
    "CHECK(MULTI)SIG failing with non-zero signature (possibly need more signatures)"
  else scriptErrorString serror

section
variable (X : Crypto)

def signingData (tx : CTransaction) (coins : CoinMap) : Except Fault PrecomputedTransactionData :=
  match tx.vin.mapM fun txin => coins.unspent txin.prevout with
  | some spentOutputs => assertNoError (PrecomputedTransactionData.init X tx spentOutputs true)
  | none => assertNoError (PrecomputedTransactionData.init X tx [] true)

def inputComplete (tx : CTransaction) (i : ℕ) (txin : CTxIn) (out : CTxOut) :
    Except Fault Bool := do
  let serror ← scriptOutcome (verifyScript X
    (transactionSignatureChecker X tx .fail i out.nValue none) standardScriptVerifyFlags
    txin.scriptSig out.scriptPubKey txin.scriptWitness)
  .ok serror.isNone

variable (provider : SigningProvider)

/-- `ProduceSignature`. Other programs clear the script and keep the witness. -/
def produceSignature (tx : CTransaction) (i : ℕ) (txin : CTxIn)
    (out : CTxOut) (txdata : PrecomputedTransactionData) (nHashType : BitVec 32)
    (complete : Bool) : CScript × List Bytes :=
  if complete then (txin.scriptSig, txin.scriptWitness)
  else match (solver out.scriptPubKey).1 with
  | .witnessUnknown => ([], txin.scriptWitness)
  | .witnessV2Mldsa => ([], txin.scriptWitness)
  | .witnessV3Slhdsa => ([], txin.scriptWitness)
  | _ => provider.produceSignature tx i out txdata nHashType

def checkSigned (flags : Flags) (describe : ScriptError → String) (txConst : CTransaction)
    (txdata : PrecomputedTransactionData) (i : ℕ) (out : CTxOut) (scriptSig : CScript)
    (witness : List Bytes) (s : SignState) : Except Fault SignState := do
  let serror ← scriptOutcome (verifyScript X
    (transactionSignatureChecker X txConst .fail i out.nValue (some txdata)) flags scriptSig
    out.scriptPubKey witness)
  match serror with
  | none => .ok (s.succeed i)
  | some serror => .ok (s.fail i (describe serror))

def signKnownInput (txConst : CTransaction)
    (txdata : PrecomputedTransactionData) (nHashType : BitVec 32) (s : SignState) (i : ℕ)
    (txin : CTxIn) (out : CTxOut) : Except Fault SignState := do
  let fHashSingle : Bool := nHashType &&& ~~~ 0x80#32 = sigHashSingle
  let complete ← inputComplete X s.tx i txin out
  let (scriptSig, witness) :=
    if fHashSingle ∧ ¬ i < s.tx.vout.length then (txin.scriptSig, txin.scriptWitness)
    else produceSignature provider s.tx i txin out txdata nHashType complete
  let s := { s with tx := s.tx.updateInput i scriptSig witness }
  if out.value = maxMoney ∧ witness ≠ [] then .ok (s.fail i "Missing amount")
  else checkSigned X standardScriptVerifyFlags signingError txConst txdata i out scriptSig witness s

def signInput (coins : CoinMap) (txConst : CTransaction)
    (txdata : PrecomputedTransactionData) (nHashType : BitVec 32) (s : SignState) (i : ℕ) :
    Except Fault SignState :=
  match s.tx.vin[i]? with
  | none => .error .outOfRange
  | some txin =>
    match coins.unspent txin.prevout with
    | none => .ok (s.fail i "Input not found or already spent")
    | some out => signKnownInput X provider txConst txdata nHashType s i txin out

def signTransaction (coins : CoinMap) (nHashType : BitVec 32)
    (s : SignState) : Except Fault SignState := do
  let txdata ← signingData X s.tx coins
  (List.range s.tx.vin.length).foldlM (signInput X provider coins s.tx txdata nHashType) s

end

def TxoutType.pqType : TxoutType → Option PqType
  | .witnessV2Mldsa => some .mldsa
  | .witnessV3Slhdsa => some .slhdsa
  | _ => none

def pqrSigningFlags : Flags :=
  (standardScriptVerifyFlags.diff fun f => f = .discourageUpgradableWitnessProgram).union
    fun f => f = .pqr

section
variable (W : WalletCrypto)

def signPQOutput (w : CWallet) (txConst : CTransaction) (txdata : PrecomputedTransactionData)
    (s : SignState) (i : ℕ) (out : CTxOut) (outputType : PqType) (program : Bytes) :
    Except Fault SignState :=
  match w.getPQKey W (uint256OfBytes program) with
  | none => .ok (s.fail i "Post-quantum private key not available")
  | some key =>
    if key.type ≠ outputType then .ok (s.fail i "Post-quantum private key not available")
    else do
      let hash ← assertNoError (signatureHashPQR W.toCrypto txConst i outputType.version program
        out.nValue txdata)
      match W.pqSign outputType key.secret hash with
      | none => .ok (s.fail i "Post-quantum signing failed")
      | some signature =>
        if signature.length ≠ outputType.sigBytes then
          .ok (s.fail i "Post-quantum signing failed")
        else
          let witness := [signature, key.pubkey]
          let s := { s with tx := s.tx.updateInput i [] witness }
          checkSigned W.toCrypto pqrSigningFlags scriptErrorString txConst txdata i out [] witness s

def signPQInput (w : CWallet) (coins : CoinMap) (txConst : CTransaction)
    (txdata : PrecomputedTransactionData) (s : SignState) (i : ℕ) : Except Fault SignState :=
  match s.tx.vin[i]? with
  | none => .error .outOfRange
  | some txin =>
    match coins.unspent txin.prevout with
    | none => .ok s
    | some out =>
      let (type, solutions) := solver out.scriptPubKey
      match type.pqType with
      | none => .ok s
      | some outputType =>
        let program := solutions.headD []
        if solutions.length ≠ 1 ∨ program.length ≠ 32 then
          .ok (s.fail i "Invalid post-quantum witness program")
        else signPQOutput W w txConst txdata s i out outputType program

def CWallet.signWithManager (w : CWallet) (provider : SigningProvider) (coins : CoinMap)
    (sighash : BitVec 32) (s : SignState) : Except Fault SignState := do
  let effectiveSighash := if sighash = sigHashDefault then sigHashAll else sighash
  let s ← signTransaction W.toCrypto provider coins effectiveSighash s
  if effectiveSighash ≠ sigHashAll then .ok s
  else
    let txdata ← signingData W.toCrypto s.tx coins
    (List.range s.tx.vin.length).foldlM (signPQInput W w coins s.tx txdata) s

end
end Vexta
