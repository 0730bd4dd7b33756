import Vexta.Script.Pqr

/-! `Solver`, the standard forms of an output script, and the texts of script errors. -/
namespace Vexta
open Lib CScript

inductive TxoutType
  | nonstandard
  | pubkey
  | pubkeyhash
  | scripthash
  | multisig
  | nullData
  | witnessV0Scripthash
  | witnessV0Keyhash
  | witnessV1Taproot
  | witnessV2Mldsa
  | witnessV3Slhdsa
  | witnessUnknown
  deriving DecidableEq, Repr

def validSize (vch : Bytes) : Bool :=
  match vch.head? with
  | some header => pubKeyLen header == vch.length
  | none => false

def matchPubkeyOfSize (size : ℕ) (script : CScript) : Option Bytes :=
  if script.length = size + 2 ∧ script[0]? = some (UInt8.ofNat size) ∧
      script.getLast? = some 0xac then
    some ((script.drop 1).take size)
  else none

variable (script : CScript)

def matchPayToPubkey : Option Bytes :=
  match matchPubkeyOfSize 65 script with
  | some pubkey => if validSize pubkey then some pubkey else none
  | none =>
    match matchPubkeyOfSize 33 script with
    | some pubkey => if validSize pubkey then some pubkey else none
    | none => none

def matchPayToPubkeyHash : Option Bytes :=
  if script.length = 25 ∧ script[0]? = some 0x76 ∧ script[1]? = some 0xa9 ∧
      script[2]? = some 20 ∧ script[23]? = some 0x88 ∧ script[24]? = some 0xac then
    some ((script.drop 3).take 20)
  else none

def isValidMultisigKeyCount (nKeys : ℤ) : Bool := 0 < nKeys && nKeys ≤ maxPubkeysPerMultisig

def getMultisigKeyCount (opcode : UInt8) (data : Bytes) : Option ℤ :=
  if op1 ≤ opcode ∧ opcode ≤ op16 then
    let count : ℤ := decodeOpN opcode
    if isValidMultisigKeyCount count then some count else none
  else if 0 < opcode ∧ opcode ≤ opPushData4 then
    if ¬ checkMinimalPush data opcode then none
    else match readNum data true 4 with
      | .ok value =>
        if isValidMultisigKeyCount (getInt value) then some (getInt value) else none
      | .error _ => none
  else none

def multisigKeys : ℕ → CScript → List Bytes → Option (List Bytes × UInt8 × Bytes × CScript)
  | 0, _, _ => none
  | fuel + 1, it, pubkeys =>
    let i := getScriptOp it
    match i.ret with
    | none => none
    | some (opcode, data) =>
      if validSize data then multisigKeys fuel i.pc (pubkeys ++ [data])
      else some (pubkeys, opcode, data, i.pc)

def matchMultisig : Option (ℤ × List Bytes) :=
  if script.getLast? ≠ some 0xae then none
  else
    let first := getScriptOp script
    match first.ret with
    | none => none
    | some (opcode, data) =>
      match getMultisigKeyCount opcode data, multisigKeys (script.length + 1) first.pc [] with
      | some requiredSigs, some (pubkeys, opcode, data, it) =>
        match getMultisigKeyCount opcode data with
        | none => none
        | some numKeys =>
          if (pubkeys.length : ℤ) ≠ numKeys ∨ numKeys < requiredSigs then none
          else if it.length = 1 then some (requiredSigs, pubkeys)
          else none
      | _, _ => none

def solveWitnessProgram (witnessversion : ℕ) (witnessprogram : Bytes) : TxoutType × List Bytes :=
  if witnessversion = 0 ∧ witnessprogram.length = 20 then (.witnessV0Keyhash, [witnessprogram])
  else if witnessversion = 0 ∧ witnessprogram.length = 32 then
    (.witnessV0Scripthash, [witnessprogram])
  else if witnessversion = 1 ∧ witnessprogram.length = 32 then
    (.witnessV1Taproot, [witnessprogram])
  else if witnessversion = 2 ∧ witnessprogram.length = 32 then (.witnessV2Mldsa, [witnessprogram])
  else if witnessversion = 3 ∧ witnessprogram.length = 32 then (.witnessV3Slhdsa, [witnessprogram])
  else if witnessversion ≠ 0 then
    (.witnessUnknown, [[UInt8.ofNat witnessversion], witnessprogram])
  else (.nonstandard, [])

def solver (scriptPubKey : CScript) : TxoutType × List Bytes :=
  if isPayToScriptHash scriptPubKey then
    (.scripthash, [(scriptPubKey.drop 2).take 20])
  else match isWitnessProgram scriptPubKey with
  | some (witnessversion, witnessprogram) => solveWitnessProgram witnessversion witnessprogram
  | none =>
    if scriptPubKey.head? = some 0x6a ∧ isPushOnly (scriptPubKey.drop 1) then
      (.nullData, [])
    else match matchPayToPubkey scriptPubKey with
    | some data => (.pubkey, [data])
    | none =>
      match matchPayToPubkeyHash scriptPubKey with
      | some data => (.pubkeyhash, [data])
      | none =>
        match matchMultisig scriptPubKey with
        | some (required, keys) =>
          (.multisig, [UInt8.ofNat required.toNat] :: keys ++ [[UInt8.ofNat keys.length]])
        | none => (.nonstandard, [])

theorem solver_program {scriptPubKey : CScript} {version : ℕ} {program : Bytes}
    (h : isWitnessProgram scriptPubKey = some (version, program)) :
    solver scriptPubKey = solveWitnessProgram version program := by
  have hp2sh : ¬ isPayToScriptHash scriptPubKey = true := by
    intro hp2sh
    cases (isWitnessProgram_of_p2sh hp2sh).symm.trans h
  rw [solver, if_neg hp2sh, h]

def scriptErrorString : ScriptError → String
  | .ok => "No error"
  | .evalFalse =>
    "Script evaluated without error but finished with a false/empty top stack element"
  | .verify => "Script failed an OP_VERIFY operation"
  | .equalVerify => "Script failed an OP_EQUALVERIFY operation"
  | .checkMultiSigVerify => "Script failed an OP_CHECKMULTISIGVERIFY operation"
  | .checkSigVerify => "Script failed an OP_CHECKSIGVERIFY operation"
  | .numEqualVerify => "Script failed an OP_NUMEQUALVERIFY operation"
  | .scriptSize => "Script is too big"
  | .pushSize => "Push value size limit exceeded"
  | .opCount => "Operation limit exceeded"
  | .stackSize => "Stack size limit exceeded"
  | .sigCount => "Signature count negative or greater than pubkey count"
  | .pubkeyCount => "Pubkey count negative or limit exceeded"
  | .badOpcode => "Opcode missing or not understood"
  | .disabledOpcode => "Attempted to use a disabled opcode"
  | .invalidStackOperation => "Operation not valid with the current stack size"
  | .invalidAltStackOperation => "Operation not valid with the current altstack size"
  | .opReturn => "OP_RETURN was encountered"
  | .unbalancedConditional => "Invalid OP_IF construction"
  | .negativeLockTime => "Negative locktime"
  | .unsatisfiedLockTime => "Locktime requirement not satisfied"
  | .sigHashType => "Signature hash type missing or not understood"
  | .sigDer => "Non-canonical DER signature"
  | .minimalData => "Data push larger than necessary"
  | .sigPushOnly => "Only push operators allowed in signatures"
  | .sigHighS => "Non-canonical signature: S value is unnecessarily high"
  | .sigNullDummy => "Dummy CHECKMULTISIG argument must be zero"
  | .minimalIf => "OP_IF/NOTIF argument must be minimal"
  | .sigNullFail => "Signature must be zero for failed CHECK(MULTI)SIG operation"
  | .discourageUpgradableNops => "NOPx reserved for soft-fork upgrades"
  | .discourageUpgradableWitnessProgram => "Witness version reserved for soft-fork upgrades"
  | .discourageUpgradableTaprootVersion => "Taproot version reserved for soft-fork upgrades"
  | .discourageOpSuccess => "OP_SUCCESSx reserved for soft-fork upgrades"
  | .discourageUpgradablePubkeyType => "Public key version reserved for soft-fork upgrades"
  | .pubkeyType => "Public key is neither compressed or uncompressed"
  | .cleanStack => "Stack size must be exactly one after execution"
  | .witnessProgramWrongLength => "Witness program has incorrect length"
  | .witnessProgramWitnessEmpty => "Witness program was passed an empty witness"
  | .witnessProgramMismatch => "Witness program hash mismatch"
  | .witnessMalleated => "Witness requires empty scriptSig"
  | .witnessMalleatedP2sh => "Witness requires only-redeemscript scriptSig"
  | .witnessUnexpected => "Witness provided for non-witness script"
  | .witnessPubkeyType => "Using non-compressed keys in segwit"
  | .pqrSigVerify => "Post-quantum signature verification failed"
  | .schnorrSigSize => "Invalid Schnorr signature size"
  | .schnorrSigHashType => "Invalid Schnorr signature hash type"
  | .schnorrSig => "Invalid Schnorr signature"
  | .taprootWrongControlSize => "Invalid Taproot control block size"
  | .tapscriptValidationWeight => "Too much signature validation relative to witness weight"
  | .tapscriptCheckMultiSig => "OP_CHECKMULTISIG(VERIFY) is not available in tapscript"
  | .tapscriptMinimalIf => "OP_IF/NOTIF argument must be minimal in tapscript"
  | .opCodeSeparator => "Using OP_CODESEPARATOR in non-witness script"
  | .sigFindAndDelete => "Signature is found in scriptCode"
  | .unknownError => "unknown error"

end Vexta
