import Vexta.Script.Verify

/-! Signature hashes and the transaction signature checker. -/
namespace Vexta
open Lib

section Hashes
variable (X : Crypto)

def sha256Uint256 (input : Uint256) : Uint256 := X.sha256 (le 32 input.toNat)

variable (txTo : CTransaction)

/-- The strings hashed by the three functions below. -/
def prevoutsBytes : Bytes :=
  txTo.vin.flatMap fun txin => txin.prevout.serialize

def sequencesBytes : Bytes :=
  txTo.vin.flatMap fun txin => le 4 txin.nSequence.toNat

def outputsBytes : Bytes := txTo.vout.flatMap CTxOut.serialize

def getPrevoutsSHA256 : Uint256 := X.sha256 (prevoutsBytes txTo)

def getSequencesSHA256 : Uint256 := X.sha256 (sequencesBytes txTo)

def getOutputsSHA256 : Uint256 := X.sha256 (outputsBytes txTo)

def getSpentAmountsSHA256 (outputsSpent : List CTxOut) : Uint256 :=
  X.sha256 (outputsSpent.flatMap fun txout => le 8 txout.nValue.toNat)

def getSpentScriptsSHA256 (outputsSpent : List CTxOut) : Uint256 :=
  X.sha256 (outputsSpent.flatMap fun txout => serializeVector txout.scriptPubKey)

end Hashes

/-- The hashes shared by the signatures of one transaction. -/
structure PrecomputedTransactionData where
  prevoutsSingleHash : Uint256
  sequencesSingleHash : Uint256
  outputsSingleHash : Uint256
  spentAmountsSingleHash : Uint256
  spentScriptsSingleHash : Uint256
  bip341TaprootReady : Bool
  hashPrevouts : Uint256
  hashSequence : Uint256
  hashOutputs : Uint256
  bip143SegwitReady : Bool
  spentOutputs : List CTxOut
  spentOutputsReady : Bool
  deriving DecidableEq, Repr

def looksTaproot (spentOutputs : List CTxOut) (inpos : ℕ) : Bool :=
  match spentOutputs[inpos]? with
  | some out => out.scriptPubKey.length == 34 && out.scriptPubKey.head? == some op1
  | none => false

/-- Whether some input looks like a taproot spend, or like none. -/
def usesWitness (txTo : CTransaction) (spentOutputs : List CTxOut) (taproot : Bool) : Bool :=
  txTo.vin.zipIdx.any fun (txin, inpos) =>
    !txin.scriptWitness.isEmpty && looksTaproot spentOutputs inpos == taproot

/-- `Init`, on data that was not initialized before. -/
def PrecomputedTransactionData.init (X : Crypto) (txTo : CTransaction)
    (spentOutputs : List CTxOut) (force : Bool) : Except Failure PrecomputedTransactionData :=
  if spentOutputs ≠ [] ∧ spentOutputs.length ≠ txTo.vin.length then assertFail
  else
    let usesBip143Segwit := force || usesWitness txTo spentOutputs false
    let usesBip341Taproot := force || usesWitness txTo spentOutputs true
    let shared := usesBip143Segwit || usesBip341Taproot
    let prevouts := if shared then getPrevoutsSHA256 X txTo else 0
    let sequences := if shared then getSequencesSHA256 X txTo else 0
    let outputs := if shared then getOutputsSHA256 X txTo else 0
    .ok {
      prevoutsSingleHash := prevouts
      sequencesSingleHash := sequences
      outputsSingleHash := outputs
      spentAmountsSingleHash :=
        if usesBip341Taproot then getSpentAmountsSHA256 X spentOutputs else 0
      spentScriptsSingleHash :=
        if usesBip341Taproot then getSpentScriptsSHA256 X spentOutputs else 0
      bip341TaprootReady := usesBip341Taproot
      hashPrevouts := if usesBip143Segwit then sha256Uint256 X prevouts else 0
      hashSequence := if usesBip143Segwit then sha256Uint256 X sequences else 0
      hashOutputs := if usesBip143Segwit then sha256Uint256 X outputs else 0
      bip143SegwitReady := usesBip143Segwit
      spentOutputs
      spentOutputsReady := !spentOutputs.isEmpty }

inductive MissingDataBehavior
  | assertFail
  | fail
  deriving DecidableEq, Repr

def handleMissingData : MissingDataBehavior → Except Failure Bool
  | .assertFail => Vexta.assertFail
  | .fail => .ok false

def assertInput (txTo : CTransaction) (nIn : ℕ) : Except Failure CTxIn :=
  match txTo.vin[nIn]? with
  | some txin => .ok txin
  | none => assertFail

section SigHash
variable (X : Crypto) (txTo : CTransaction) (nIn : ℕ)

def pqrScriptCode (witnessVersion : ℕ) (program : Bytes) : CScript :=
  (if witnessVersion = 2 then op2 else op3) :: CScript.pushVector program

/-- The bytes of a post-quantum signature: an epoch byte and the version 0 data, with the witness
script as script code. -/
def pqrPreimage (txin : CTxIn) (witnessVersion : ℕ) (program : Bytes) (amount : BitVec 64)
    (cache : PrecomputedTransactionData) : Bytes :=
  [0x00] ++ le 4 txTo.nVersion.toNat ++ le 32 cache.hashPrevouts.toNat ++
    le 32 cache.hashSequence.toNat ++ txin.prevout.serialize ++
    serializeVector (pqrScriptCode witnessVersion program) ++ le 8 amount.toNat ++
    le 4 txin.nSequence.toNat ++ le 32 cache.hashOutputs.toNat ++ le 4 txTo.nLockTime.toNat ++
    le 4 1

def signatureHashPQR (witnessVersion : ℕ) (program : Bytes) (amount : BitVec 64)
    (cache : PrecomputedTransactionData) : Except Failure Uint256 := do
  let txin ← assertInput txTo nIn
  if program.length ≠ 32 then assertFail
  else if ¬ (witnessVersion = 2 ∨ witnessVersion = 3) then assertFail
  else .ok (X.hash256 (pqrPreimage txTo txin witnessVersion program amount cache))

variable (nHashType : BitVec 32)

def sigHashBase : BitVec 32 := nHashType &&& 0x1f

def sigHashAnyoneCanPay : Bool := nHashType &&& 0x80 ≠ 0

def bip143Hashes (cache : Option PrecomputedTransactionData) :
    Uint256 × Uint256 × Uint256 :=
  let cached (f : PrecomputedTransactionData → Uint256) (single : Uint256) : Uint256 :=
    match cache with
    | some c => if c.bip143SegwitReady then f c else sha256Uint256 X single
    | none => sha256Uint256 X single
  let base := sigHashBase nHashType
  let anyone := sigHashAnyoneCanPay nHashType
  (if anyone then 0 else cached (·.hashPrevouts) (getPrevoutsSHA256 X txTo),
    if ¬ anyone ∧ base ≠ 3 ∧ base ≠ 2 then cached (·.hashSequence) (getSequencesSHA256 X txTo)
    else 0,
    if base ≠ 3 ∧ base ≠ 2 then cached (·.hashOutputs) (getOutputsSHA256 X txTo)
    else if base = 3 then
      match txTo.vout[nIn]? with
      | some out => X.hash256 out.serialize
      | none => 0
    else 0)

def bip143Preimage (txin : CTxIn) (scriptCode : CScript) (nHashType : BitVec 32)
    (amount : BitVec 64) (cache : Option PrecomputedTransactionData) : Bytes :=
  let (hashPrevouts, hashSequence, hashOutputs) := bip143Hashes X txTo nIn nHashType cache
  le 4 txTo.nVersion.toNat ++ le 32 hashPrevouts.toNat ++ le 32 hashSequence.toNat ++
    txin.prevout.serialize ++ serializeVector scriptCode ++ le 8 amount.toNat ++
    le 4 txin.nSequence.toNat ++ le 32 hashOutputs.toNat ++ le 4 txTo.nLockTime.toNat ++
    le 4 nHashType.toNat

/-- The pieces of a script code between separators. -/
def scriptCodePieces (itBegin : CScript) : List GetOp → Bytes
  | [] => itBegin
  | i :: ops =>
    match i.ret with
    | none => itBegin.take (itBegin.length - i.pc.length)
    | some (opcode, _) =>
      if Op.ofByte opcode = .codeSeparator then
        itBegin.take (itBegin.length - i.pc.length - 1) ++ scriptCodePieces i.pc ops
      else scriptCodePieces itBegin ops

variable (scriptCode : CScript)

def serializeScriptCode : Bytes :=
  let nCodeSeparators := scriptCode.ops.countP fun i =>
    match i.ret with
    | some (opcode, _) => Op.ofByte opcode == .codeSeparator
    | none => false
  writeCompactSize (scriptCode.length - nCodeSeparators) ++
    scriptCodePieces scriptCode scriptCode.ops

/-- A separator costs one byte of script code, a failed read the unread ones. -/
theorem scriptCodePieces_length {it itBegin : CScript} (h : it.length ≤ itBegin.length) :
    ∃ unread, (scriptCodePieces itBegin it.ops).length + (it.ops.countP fun i =>
      match i.ret with
      | some (opcode, _) => Op.ofByte opcode == .codeSeparator
      | none => false) + unread = itBegin.length ∧
      (unread = 0 ↔ ∀ i ∈ it.ops, i.ret = none → i.pc = []) := by
  induction hn : it.length using Nat.strong_induction_on generalizing it itBegin with
  | _ n ih =>
    subst hn
    cases it with
    | nil => exact ⟨0, by simp [scriptCodePieces]⟩
    | cons opcode pc =>
      have hlt := getScriptOp_pc_lt opcode pc
      rw [CScript.ops_cons]
      generalize getScriptOp (opcode :: pc) = i at hlt
      rcases i with ⟨_ | ⟨op, vch⟩, next⟩ <;> dsimp only at hlt
      · refine ⟨next.length, ?_⟩
        simp [scriptCodePieces]
        omega
      · by_cases hsep : Op.ofByte op = .codeSeparator
        · obtain ⟨unread, hlen, hiff⟩ := ih _ hlt (le_refl next.length) rfl
          refine ⟨unread, ?_, by simpa using hiff⟩
          simp [scriptCodePieces, hsep]
          omega
        · obtain ⟨unread, hlen, hiff⟩ := ih _ hlt (hlt.le.trans h) rfl
          refine ⟨unread, ?_, by simpa using hiff⟩
          simpa [scriptCodePieces, hsep] using hlen

def serializeInput (nHashType : BitVec 32) (nInput : ℕ) (txin : CTxIn) :
    Bytes :=
  let base := sigHashBase nHashType
  txin.prevout.serialize ++
    (if nInput ≠ nIn then serializeVector [] else serializeScriptCode scriptCode) ++
    (if nInput ≠ nIn ∧ (base = 3 ∨ base = 2) then le 4 0 else le 4 txin.nSequence.toNat)

def serializeOutput (nOutput : ℕ) (txout : CTxOut) : Bytes :=
  if sigHashBase nHashType = 3 ∧ nOutput ≠ nIn then CTxOut.null.serialize else txout.serialize

def legacyPreimage (txin : CTxIn) (scriptCode : CScript) (nHashType : BitVec 32) : Bytes :=
  let inputs := if sigHashAnyoneCanPay nHashType then [(txin, nIn)] else txTo.vin.zipIdx
  let base := sigHashBase nHashType
  let outputs :=
    if base = 2 then [] else if base = 3 then txTo.vout.zipIdx.take (nIn + 1)
    else txTo.vout.zipIdx
  le 4 txTo.nVersion.toNat ++ writeCompactSize inputs.length ++
    (inputs.flatMap fun (txin, nInput) => serializeInput nIn scriptCode nHashType nInput txin) ++
    writeCompactSize outputs.length ++
    (outputs.flatMap fun (txout, nOutput) => serializeOutput nIn nHashType nOutput txout) ++
    le 4 txTo.nLockTime.toNat ++ le 4 nHashType.toNat

def signatureHash (nHashType : BitVec 32) (amount : BitVec 64)
    (sigversion : SigVersion) (cache : Option PrecomputedTransactionData) :
    Except Failure Uint256 := do
  let txin ← assertInput txTo nIn
  if sigversion = .witnessV0 then
    .ok (X.hash256 (bip143Preimage X txTo nIn txin scriptCode nHashType amount cache))
  else if sigHashBase nHashType = 3 ∧ nIn ≥ txTo.vout.length then .ok 1
  else .ok (X.hash256 (legacyPreimage txTo nIn txin scriptCode nHashType))

def schnorrExtFlag : SigVersion → Except Failure UInt8
  | .taproot => .ok 0
  | .tapscript => .ok 1
  | _ => assertFail

def schnorrInputData (txin : CTxIn) (anyoneCanPay : Bool) (cache : PrecomputedTransactionData) :
    Except Failure Bytes :=
  if anyoneCanPay then
    match cache.spentOutputs[nIn]? with
    | some out => .ok (txin.prevout.serialize ++ out.serialize ++ le 4 txin.nSequence.toNat)
    | none => .error (.fault .outOfRange)
  else .ok (le 4 nIn)

def tapscriptData (sigversion : SigVersion) (execdata : ScriptExecutionData) :
    Except Failure Bytes :=
  if sigversion = .tapscript then
    match execdata.tapleafHash, execdata.codeseparatorPos with
    | some tapleafHash, some codeseparatorPos =>
      .ok (le 32 tapleafHash.toNat ++ [0] ++ le 4 codeseparatorPos.toNat)
    | _, _ => assertFail
  else .ok []

/-- What `SignatureHashSchnorr` writes behind the tag, or none on failure. -/
def schnorrMessage (execdata : ScriptExecutionData) (hashType : UInt8)
    (sigversion : SigVersion) (cache : PrecomputedTransactionData) (mdb : MissingDataBehavior) :
    Except Failure (Option Bytes) := do
  let extFlag ← schnorrExtFlag sigversion
  let txin ← assertInput txTo nIn
  if ¬ (cache.bip341TaprootReady ∧ cache.spentOutputsReady) then
    handleMissingData mdb >>= fun _ => .ok none
  else
    let outputType := if hashType = 0 then 1 else hashType &&& 3
    let anyoneCanPay : Bool := hashType &&& 0x80 = 0x80
    if ¬ (hashType ≤ 0x03 ∨ (0x81 ≤ hashType ∧ hashType ≤ 0x83)) then .ok none
    else match execdata.annexHash with
    | none => assertFail
    | some annex => do
      let input ← schnorrInputData nIn txin anyoneCanPay cache
      let single : Option Bytes :=
        if outputType = 3 then
          (txTo.vout[nIn]?).map fun out => X.sha256Bytes out.serialize
        else some []
      match single with
      | none => .ok none
      | some single => do
        let extension ← tapscriptData sigversion execdata
        .ok (some (
          [0, hashType] ++ le 4 txTo.nVersion.toNat ++ le 4 txTo.nLockTime.toNat ++
          (if anyoneCanPay then [] else
            le 32 cache.prevoutsSingleHash.toNat ++ le 32 cache.spentAmountsSingleHash.toNat ++
            le 32 cache.spentScriptsSingleHash.toNat ++ le 32 cache.sequencesSingleHash.toNat) ++
          (if outputType = 1 then le 32 cache.outputsSingleHash.toNat else []) ++
          [2 * extFlag + (if annex.isSome then 1 else 0)] ++ input ++
          (match annex with | some hash => le 32 hash.toNat | none => []) ++
          single ++ extension))

def signatureHashSchnorr (execdata : ScriptExecutionData) (hashType : UInt8)
    (sigversion : SigVersion) (cache : PrecomputedTransactionData) (mdb : MissingDataBehavior) :
    Except Failure (Option Uint256) :=
  Option.map (taggedSha256 X "TapSighash") <$>
    schnorrMessage X txTo nIn execdata hashType sigversion cache mdb

end SigHash

def pubKeyLen (chHeader : UInt8) : ℕ :=
  if chHeader = 2 ∨ chHeader = 3 then 33
  else if chHeader = 4 ∨ chHeader = 6 ∨ chHeader = 7 then 65
  else 0

def isValidPubKey (vchPubKey : Bytes) : Bool :=
  match vchPubKey.head? with
  | some header => pubKeyLen header != 0 && pubKeyLen header == vchPubKey.length
  | none => false

def pqPubkeyBytes (witnessVersion : ℕ) : ℕ := if witnessVersion = 2 then 1952 else 32
def pqSigBytes (witnessVersion : ℕ) : ℕ := if witnessVersion = 2 then 3309 else 7856

def Crypto.pqVerify (X : Crypto) (witnessVersion : ℕ) : Bytes → Uint256 → Bytes → Bool :=
  if witnessVersion = 2 then X.mldsa65Verify else X.sphincs128sVerify

section Checker
variable (X : Crypto) (txTo : CTransaction) (mdb : MissingDataBehavior) (nIn : ℕ)
  (amount : BitVec 64) (txdata : Option PrecomputedTransactionData)

def checkECDSASignature (vchSigIn vchPubKey : Bytes) (scriptCode : CScript)
    (sigversion : SigVersion) : Except Failure Bool :=
  if ¬ isValidPubKey vchPubKey then .ok false
  else match vchSigIn.getLast? with
  | none => .ok false
  | some back =>
    if sigversion = .witnessV0 ∧ amount.toInt < 0 then handleMissingData mdb
    else do
      let sighash ← signatureHash X txTo nIn scriptCode (BitVec.ofNat 32 back.toNat) amount
        sigversion txdata
      .ok (X.verify vchPubKey sighash vchSigIn.dropLast)

def checkSchnorrSignature (sig pubkey : Bytes) (sigversion : SigVersion)
    (execdata : ScriptExecutionData) : Except Failure Bool :=
  if ¬ (sigversion = .taproot ∨ sigversion = .tapscript) then assertFail
  else if pubkey.length ≠ 32 then assertFail
  else if sig.length ≠ 64 ∧ sig.length ≠ 65 then setError .schnorrSigSize
  else
    let hashtype := if sig.length = 65 then sig.getLastD 0 else 0
    if sig.length = 65 ∧ hashtype = 0 then setError .schnorrSigHashType
    else match txdata with
    | none => handleMissingData mdb
    | some txdata => do
      let sighash ← signatureHashSchnorr X txTo nIn execdata hashtype sigversion txdata mdb
      match sighash with
      | none => setError .schnorrSigHashType
      | some sighash =>
        if X.verifySchnorr pubkey sighash (sig.take 64) then .ok true else setError .schnorrSig

def checkPQRSignature (sig pubkey : Bytes) (witnessVersion : ℕ) (program : Bytes) :
    Except Failure Bool :=
  match txdata with
  | none => handleMissingData mdb
  | some txdata =>
    if ¬ txdata.bip143SegwitReady then handleMissingData mdb
    else if program.length ≠ 32 then .ok false
    else if witnessVersion ≠ 2 ∧ witnessVersion ≠ 3 then .ok false
    else if X.sha256Bytes pubkey ≠ program then .ok false
    else do
      let sighash ← signatureHashPQR X txTo nIn witnessVersion program amount txdata
      if pubkey.length ≠ pqPubkeyBytes witnessVersion then .ok false
      else if sig.length ≠ pqSigBytes witnessVersion then .ok false
      else .ok (X.pqVerify witnessVersion sig sighash pubkey)

def inputAt : Except Failure CTxIn :=
  match txTo.vin[nIn]? with
  | some txin => .ok txin
  | none => .error (.fault .outOfRange)

def lockTimeThreshold : ℤ := 500000000

def checkLockTime (nLockTime : ℤ) : Except Failure Bool :=
  let txLockTime : ℤ := txTo.nLockTime.toNat
  if ¬ ((txLockTime < lockTimeThreshold ∧ nLockTime < lockTimeThreshold) ∨
      (txLockTime ≥ lockTimeThreshold ∧ nLockTime ≥ lockTimeThreshold)) then .ok false
  else if nLockTime > txLockTime then .ok false
  else do
    let txin ← inputAt txTo nIn
    .ok (txin.nSequence != 0xffffffff)

def sequenceMasked (nSequence : ℤ) : ℤ := (BitVec.ofInt 64 nSequence &&& 0x40ffff#64).toInt

def checkSequence (nSequence : ℤ) : Except Failure Bool := do
  let txin ← inputAt txTo nIn
  let txToSequence : ℤ := txin.nSequence.toNat
  if txTo.nVersion.toNat < 2 then .ok false
  else if sequenceLocktimeDisabled txToSequence then .ok false
  else
    let txToSequenceMasked := sequenceMasked txToSequence
    let nSequenceMasked := sequenceMasked nSequence
    if ¬ ((txToSequenceMasked < 2 ^ 22 ∧ nSequenceMasked < 2 ^ 22) ∨
        (txToSequenceMasked ≥ 2 ^ 22 ∧ nSequenceMasked ≥ 2 ^ 22)) then .ok false
    else if nSequenceMasked > txToSequenceMasked then .ok false
    else .ok true

def transactionSignatureChecker : SignatureChecker where
  checkECDSASignature := checkECDSASignature X txTo mdb nIn amount txdata
  checkSchnorrSignature := checkSchnorrSignature X txTo mdb nIn txdata
  checkPQRSignature := checkPQRSignature X txTo mdb nIn amount txdata
  checkLockTime := checkLockTime txTo nIn
  checkSequence := checkSequence txTo nIn

end Checker
end Vexta
