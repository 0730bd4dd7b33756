import Vexta.Script.Interpreter
import Vexta.Primitives.Transaction

/-! Witness programs and `VerifyScript`. -/
namespace Vexta
open Lib CScript

section Verify
variable (X : Crypto) (checker : SignatureChecker) (flags : Flags)

def findOpSuccess : List GetOp → Except Failure Bool
  | [] => .ok false
  | i :: ops =>
    match i.ret with
    | none => setError .badOpcode
    | some (opcode, _) => if isOpSuccess opcode then .ok true else findOpSuccess ops

variable (stack : List Bytes)

def runWitnessScript (script : CScript) (sigversion : SigVersion)
    (execdata : ScriptExecutionData) : Except Failure Unit :=
  if ∃ elem ∈ stack, elem.length > maxScriptElementSize then setError .pushSize
  else do
    let stack ← evalScript X checker flags sigversion stack script execdata
    match stack with
    | [top] => if castToBool top then .ok () else setError .evalFalse
    | _ => setError .cleanStack

def executeWitnessScript (script : CScript) (sigversion : SigVersion)
    (execdata : ScriptExecutionData) : Except Failure Unit :=
  if sigversion = .tapscript then do
    let success ← findOpSuccess script.ops
    if success then
      if flags .discourageOpSuccess then setError .discourageOpSuccess else .ok ()
    else if stack.length > maxStackSize then setError .stackSize
    else runWitnessScript X checker flags stack script sigversion execdata
  else runWitnessScript X checker flags stack script sigversion execdata

def ascii (s : String) : Bytes := s.toList.map fun c => UInt8.ofNat c.toNat

def taggedString (tag : String) (b : Bytes) : Bytes :=
  X.sha256Bytes (ascii tag) ++ X.sha256Bytes (ascii tag) ++ b

def taggedSha256 (tag : String) (b : Bytes) : Uint256 := X.sha256 (taggedString X tag b)

def computeTapleafHash (leafVersion : UInt8) (script : CScript) : Uint256 :=
  taggedSha256 X "TapLeaf" (leafVersion :: serializeVector script)

def merklePath (k : Uint256) : ℕ → Bytes → Uint256
  | 0, _ => k
  | pathLen + 1, nodes =>
    let kBytes := le 32 k.toNat
    let node := nodes.take 32
    let pair := if kBytes < node then kBytes ++ node else node ++ kBytes
    merklePath (taggedSha256 X "TapBranch" pair) pathLen (nodes.drop 32)

def computeTaprootMerkleRoot (control : Bytes) (tapleafHash : Uint256) : Uint256 :=
  merklePath X tapleafHash ((control.length - 33) / 32) (control.drop 33)

def verifyTaprootCommitment (control program : Bytes) (tapleafHash : Uint256) : Bool :=
  let merkleRoot := computeTaprootMerkleRoot X control tapleafHash
  X.checkTapTweak program ((control.drop 1).take 32) merkleRoot (control.headD 0 &&& 1 == 1)

variable (witness : List Bytes)

def witnessStackSize : ℕ :=
  (writeCompactSize witness.length).length +
    (witness.map fun elem => (serializeVector elem).length).sum

def verifyTaprootSpend (witness stack : List Bytes) (program : Bytes)
    (execdata : ScriptExecutionData) : Except Failure Unit :=
  match stack with
  | [] => assertFail
  | [sig] => do
    let valid ← checker.checkSchnorrSignature sig program .taproot execdata
    if valid then .ok () else setError .ok
  | control :: script :: stack =>
    if control.length < 33 ∨ control.length > 33 + 32 * 128 ∨ (control.length - 33) % 32 ≠ 0 then
      setError .taprootWrongControlSize
    else
      let leafVersion := control.headD 0 &&& 0xfe
      let tapleafHash := computeTapleafHash X leafVersion script
      if ¬ verifyTaprootCommitment X control program tapleafHash then
        setError .witnessProgramMismatch
      else if leafVersion = 0xc0 then
        executeWitnessScript X checker flags stack script .tapscript
          { execdata with
            tapleafHash := some tapleafHash
            validationWeightLeft := some (witnessStackSize witness + 50) }
      else if flags .discourageUpgradableTaprootVersion then
        setError .discourageUpgradableTaprootVersion
      else .ok ()

def popAnnex : List Bytes × ScriptExecutionData :=
  match stack with
  | annex :: rest@(_ :: _) =>
    if annex.head? = some 0x50 then
      (rest, { ScriptExecutionData.empty with
        annexHash := some (some (X.sha256 (serializeVector annex))) })
    else (stack, { ScriptExecutionData.empty with annexHash := some none })
  | _ => (stack, { ScriptExecutionData.empty with annexHash := some none })

def verifyWitnessV0 (program : Bytes) : Except Failure Unit :=
  if program.length = 32 then
    match stack with
    | [] => setError .witnessProgramWitnessEmpty
    | script :: stack =>
      if X.sha256Bytes script ≠ program then setError .witnessProgramMismatch
      else executeWitnessScript X checker flags stack script .witnessV0 .empty
  else if program.length = 20 then
    if stack.length ≠ 2 then setError .witnessProgramMismatch
    else
      -- OP_DUP OP_HASH160 <program> OP_EQUALVERIFY OP_CHECKSIG
      executeWitnessScript X checker flags stack
        (0x76 :: 0xa9 :: pushVector program ++ [0x88, 0xac]) .witnessV0 .empty
  else setError .witnessProgramWrongLength

def verifyWitnessPQR (witversion : ℕ) (program : Bytes) :
    Except Failure Unit :=
  if ¬ flags .pqr then
    if flags .discourageUpgradableWitnessProgram then
      setError .discourageUpgradableWitnessProgram
    else .ok ()
  else if program.length ≠ 32 then setError .witnessProgramWrongLength
  else match stack with
  | [pubkey, sig] => do
    let valid ← checker.checkPQRSignature sig pubkey witversion program
    if valid then .ok () else setError .pqrSigVerify
  | _ => setError .witnessProgramMismatch

/-- `VerifyWitnessProgram`. The last item of the witness is on top. -/
def verifyWitnessProgram (witversion : ℕ) (program : Bytes)
    (isP2sh : Bool) : Except Failure Unit :=
  let stack := witness.reverse
  if witversion = 0 then verifyWitnessV0 X checker flags stack program
  else if witversion = 1 ∧ program.length = 32 ∧ ¬ isP2sh then
    if ¬ flags .taproot then .ok ()
    else if stack.length = 0 then setError .witnessProgramWitnessEmpty
    else
      let (stack, execdata) := popAnnex X stack
      verifyTaprootSpend X checker flags witness stack program execdata
  else if (witversion = 2 ∨ witversion = 3) ∧ ¬ isP2sh then
    verifyWitnessPQR checker flags stack witversion program
  else if flags .discourageUpgradableWitnessProgram then
    setError .discourageUpgradableWitnessProgram
  else .ok ()

structure VerifyState where
  stack : List Bytes
  hadWitness : Bool
  deriving DecidableEq, Repr

def resizeOne : List Bytes := [stack.getLastD []]

def evalTrue (script : CScript) : Except Failure (List Bytes) := do
  let stack ← evalScript X checker flags .base stack script .empty
  match stack with
  | [] => setError .evalFalse
  | top :: _ => if castToBool top then .ok stack else setError .evalFalse

def verifyWitness (script : CScript) (isP2sh malleated : Bool)
    (s : VerifyState) : Except Failure VerifyState :=
  if flags .witness then
    match isWitnessProgram script with
    | none => .ok s
    | some (version, program) =>
      if malleated then
        setError (if isP2sh then .witnessMalleatedP2sh else .witnessMalleated)
      else do
        verifyWitnessProgram X checker flags witness version program isP2sh
        .ok ⟨resizeOne s.stack, true⟩
  else .ok s

variable (scriptSig scriptPubKey : CScript)

def verifyP2sh (witness stackCopy : List Bytes)
    (s : VerifyState) : Except Failure VerifyState :=
  if flags .p2sh ∧ isPayToScriptHash scriptPubKey then
    if ¬ isPushOnly scriptSig then setError .sigPushOnly
    else match stackCopy with
    | [] => assertFail
    | pubKey2 :: stack => do
      let stack ← evalTrue X checker flags stack pubKey2
      verifyWitness X checker flags witness pubKey2 true
        (scriptSig ≠ pushVector pubKey2) ⟨stack, s.hadWitness⟩
  else .ok s

def verifyEnd (s : VerifyState) : Except Failure Unit :=
  if flags .cleanStack ∧ ¬ (flags .p2sh ∧ flags .witness) then assertFail
  else if flags .cleanStack ∧ s.stack.length ≠ 1 then setError .cleanStack
  else if flags .witness ∧ ¬ flags .p2sh then assertFail
  else if flags .witness ∧ ¬ s.hadWitness ∧ witness ≠ [] then setError .witnessUnexpected
  else .ok ()

def verifyScript (witness : List Bytes) :
    Except Failure Unit :=
  if flags .sigPushOnly ∧ ¬ isPushOnly scriptSig then setError .sigPushOnly
  else do
    let stackCopy ← evalScript X checker flags .base [] scriptSig .empty
    let stack ← evalTrue X checker flags stackCopy scriptPubKey
    let s ← verifyWitness X checker flags witness scriptPubKey false (scriptSig.length ≠ 0)
      ⟨stack, false⟩
    let s ← verifyP2sh X checker flags scriptSig scriptPubKey witness stackCopy s
    verifyEnd flags witness s

end Verify
end Vexta
