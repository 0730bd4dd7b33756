import Vexta.Script.Script

/-! Encodings, the condition stack and `EvalScript`. The head of a stack is its top. -/
namespace Vexta
open Lib

inductive ScriptVerify
  | p2sh | strictEnc | derSig | lowS | nullDummy | sigPushOnly | minimalData
  | discourageUpgradableNops | cleanStack | checkLockTimeVerify | checkSequenceVerify | witness
  | discourageUpgradableWitnessProgram | minimalIf | nullFail | witnessPubkeyType
  | constScriptCode | taproot | discourageUpgradableTaprootVersion | discourageOpSuccess
  | discourageUpgradablePubkeyType | pqr
  deriving DecidableEq, Repr

abbrev Flags := ScriptVerify → Bool

inductive ScriptError
  | ok | unknownError | evalFalse | opReturn
  | scriptSize | pushSize | opCount | stackSize | sigCount | pubkeyCount
  | verify | equalVerify | checkMultiSigVerify | checkSigVerify | numEqualVerify
  | badOpcode | disabledOpcode | invalidStackOperation | invalidAltStackOperation
  | unbalancedConditional
  | negativeLockTime | unsatisfiedLockTime
  | sigHashType | sigDer | minimalData | sigPushOnly | sigHighS | sigNullDummy | pubkeyType
  | cleanStack | minimalIf | sigNullFail
  | discourageUpgradableNops | discourageUpgradableWitnessProgram
  | discourageUpgradableTaprootVersion | discourageOpSuccess | discourageUpgradablePubkeyType
  | witnessProgramWrongLength | witnessProgramWitnessEmpty | witnessProgramMismatch
  | witnessMalleated | witnessMalleatedP2sh | witnessUnexpected | witnessPubkeyType
  | pqrSigVerify
  | schnorrSigSize | schnorrSigHashType | schnorrSig | taprootWrongControlSize
  | tapscriptValidationWeight | tapscriptCheckMultiSig | tapscriptMinimalIf
  | opCodeSeparator | sigFindAndDelete
  deriving DecidableEq, Repr

/-- A script function reports an error, or the program stops. -/
inductive Failure
  | script (serror : ScriptError)
  | fault (fault : Fault)
  deriving DecidableEq, Repr

abbrev setError {α : Type} (serror : ScriptError) : Except Failure α := .error (.script serror)

abbrev assertFail {α : Type} : Except Failure α := .error (.fault .assertion)

def liftFault {α : Type} : Except Fault α → Except Failure α
  | .ok a => .ok a
  | .error e => .error (.fault e)

inductive SigVersion
  | base | witnessV0 | taproot | tapscript | pqr
  deriving DecidableEq, Repr

/-- `ScriptExecutionData`; a value is present once its `_init` flag is set. -/
structure ScriptExecutionData where
  tapleafHash : Option Uint256
  codeseparatorPos : Option (BitVec 32)
  annexHash : Option (Option Uint256)
  validationWeightLeft : Option ℤ
  deriving DecidableEq, Repr

def ScriptExecutionData.empty : ScriptExecutionData := ⟨none, none, none, none⟩

/-- Cryptographic functions, uninterpreted. Digests are little-endian. -/
structure Crypto where
  sha256 : Bytes → Uint256
  ripemd160 : Bytes → BitVec 160
  sha1 : Bytes → BitVec 160
  checkLowS : Bytes → Bool
  /-- `CPubKey::Verify` of a valid key, a hash and a signature. -/
  verify : Bytes → Uint256 → Bytes → Bool
  verifySchnorr : Bytes → Uint256 → Bytes → Bool
  /-- `XOnlyPubKey::CheckTapTweak`: output key, internal key, root and parity. -/
  checkTapTweak : Bytes → Bytes → Uint256 → Bool → Bool
  /-- `pq::MLDSA65::verify` of a signature, a hash and a key. -/
  mldsa65Verify : Bytes → Uint256 → Bytes → Bool
  sphincs128sVerify : Bytes → Uint256 → Bytes → Bool

/-- `BaseSignatureChecker`. A Schnorr check fails with its script error. -/
structure SignatureChecker where
  checkECDSASignature : Bytes → Bytes → CScript → SigVersion → Except Failure Bool
  checkSchnorrSignature : Bytes → Bytes → SigVersion → ScriptExecutionData → Except Failure Bool
  checkPQRSignature : Bytes → Bytes → ℕ → Bytes → Except Failure Bool
  checkLockTime : ℤ → Except Failure Bool
  checkSequence : ℤ → Except Failure Bool

namespace Crypto
variable (X : Crypto)

def sha256Bytes (b : Bytes) : Bytes := le 32 (X.sha256 b).toNat

def hash256 (b : Bytes) : Uint256 := X.sha256 (X.sha256Bytes b)

def hash160 (b : Bytes) : BitVec 160 := X.ripemd160 (X.sha256Bytes b)

end Crypto

variable (vchPubKey : Bytes)

def isCompressedOrUncompressedPubKey : Bool :=
  if vchPubKey.length < 33 then false
  else match vchPubKey.head? with
  | some 0x04 => vchPubKey.length == 65
  | some 0x02 => vchPubKey.length == 33
  | some 0x03 => vchPubKey.length == 33
  | _ => false

def isCompressedPubKey : Bool :=
  vchPubKey.length == 33 && (vchPubKey.head? == some 0x02 || vchPubKey.head? == some 0x03)

def isValidSignatureEncoding (sig : Bytes) : Bool :=
  let byte (i : ℕ) : UInt8 := sig.getD i 0
  if sig.length < 9 then false
  else if sig.length > 73 then false
  else if byte 0 ≠ 0x30 then false
  else if (byte 1).toNat ≠ sig.length - 3 then false
  else
    let lenR := (byte 3).toNat
    if 5 + lenR ≥ sig.length then false
    else
      let lenS := (byte (5 + lenR)).toNat
      if lenR + lenS + 7 ≠ sig.length then false
      else if byte 2 ≠ 0x02 then false
      else if lenR = 0 then false
      else if byte 4 &&& 0x80 ≠ 0 then false
      else if lenR > 1 ∧ byte 4 = 0 ∧ byte 5 &&& 0x80 = 0 then false
      else if byte (lenR + 4) ≠ 0x02 then false
      else if lenS = 0 then false
      else if byte (lenR + 6) &&& 0x80 ≠ 0 then false
      else if lenS > 1 ∧ byte (lenR + 6) = 0 ∧ byte (lenR + 7) &&& 0x80 = 0 then false
      else true

def isLowDERSignature (X : Crypto) (vchSig : Bytes) : Except Failure Unit :=
  if ¬ isValidSignatureEncoding vchSig then setError .sigDer
  else if ¬ X.checkLowS vchSig.dropLast then setError .sigHighS
  else .ok ()

def isDefinedHashtypeSignature (vchSig : Bytes) : Bool :=
  match vchSig.getLast? with
  | none => false
  | some back =>
    let nHashType := back &&& 0x7f
    1 ≤ nHashType && nHashType ≤ 3

def checkSignatureEncoding (X : Crypto) (vchSig : Bytes) (flags : Flags) :
    Except Failure Unit :=
  if vchSig.length = 0 then .ok ()
  else if (flags .derSig || flags .lowS || flags .strictEnc) ∧
      ¬ isValidSignatureEncoding vchSig then
    setError .sigDer
  else
    (if flags .lowS then isLowDERSignature X vchSig else .ok ()) >>= fun _ =>
      if flags .strictEnc ∧ ¬ isDefinedHashtypeSignature vchSig then setError .sigHashType
      else .ok ()

def checkPubKeyEncoding (flags : Flags) (sigversion : SigVersion) :
    Except Failure Unit :=
  if flags .strictEnc ∧ ¬ isCompressedOrUncompressedPubKey vchPubKey then setError .pubkeyType
  else if flags .witnessPubkeyType ∧ sigversion = .witnessV0 ∧ ¬ isCompressedPubKey vchPubKey then
    setError .witnessPubkeyType
  else .ok ()

def checkMinimalPush (data : Bytes) (opcode : UInt8) : Bool :=
  match data with
  | [] => opcode == 0
  | [b] =>
    if 1 ≤ b ∧ b ≤ 16 then false else if b = 0x81 then false else opcode.toNat == 1
  | data =>
    if data.length ≤ 75 then opcode.toNat == data.length
    else if data.length ≤ 255 then opcode == opPushData1
    else if data.length ≤ 65535 then opcode == opPushData2
    else true

/-- `FindAndDelete`: copies of `b` are skipped at instruction boundaries. -/
def findAndDeleteLoop (b : CScript) : ℕ → CScript → CScript × ℕ
  | 0, pc => (pc, 0)
  | fuel + 1, pc =>
    if b.isPrefixOf pc then
      let (result, nFound) := findAndDeleteLoop b fuel (pc.drop b.length)
      (result, nFound + 1)
    else
      let i := getScriptOp pc
      match i.ret with
      | none => (pc, 0)
      | some _ =>
        let (result, nFound) := findAndDeleteLoop b fuel i.pc
        (pc.take (pc.length - i.pc.length) ++ result, nFound)

def findAndDelete (script b : CScript) : CScript × ℕ :=
  if b.isEmpty then (script, 0) else findAndDeleteLoop b (script.length + 1) script

/-- `ConditionStack`: the size and the first false, or `NO_FALSE`. -/
structure ConditionStack where
  stackSize : ℕ
  firstFalsePos : ℕ
  deriving DecidableEq, Repr

namespace ConditionStack

def noFalse : ℕ := 2 ^ 32 - 1

def init : ConditionStack := ⟨0, noFalse⟩

variable (s : ConditionStack)

def empty : Bool := s.stackSize == 0

def allTrue : Bool := s.firstFalsePos == noFalse

def pushBack (f : Bool) : ConditionStack :=
  ⟨(s.stackSize + 1) % 2 ^ 32,
    if s.firstFalsePos = noFalse ∧ ¬ f then s.stackSize else s.firstFalsePos⟩

def popBack : Except Failure ConditionStack :=
  if s.stackSize = 0 then assertFail
  else .ok ⟨s.stackSize - 1,
    if s.firstFalsePos = s.stackSize - 1 then noFalse else s.firstFalsePos⟩

def toggleTop : Except Failure ConditionStack :=
  if s.stackSize = 0 then assertFail
  else if s.firstFalsePos = noFalse then .ok ⟨s.stackSize, s.stackSize - 1⟩
  else if s.firstFalsePos = s.stackSize - 1 then .ok ⟨s.stackSize, noFalse⟩
  else .ok s

end ConditionStack

/-- The variables of `EvalScript`; `codehash` is from `pbegincodehash` on. -/
structure ExecState where
  stack : List Bytes
  altstack : List Bytes
  vfExec : ConditionStack
  nOpCount : ℕ
  codehash : CScript
  opcodePos : ℕ
  execdata : ScriptExecutionData
  deriving DecidableEq, Repr

def vchFalse : Bytes := []
def vchTrue : Bytes := [1]

def vchBool (b : Bool) : Bytes := if b then vchTrue else vchFalse

def readNum (vch : Bytes) (fRequireMinimal : Bool) (nMaxNumSize : ℕ) : Except Failure ℤ :=
  if vch.length > nMaxNumSize then setError .unknownError
  else if fRequireMinimal ∧ nonMinimalNum vch then setError .unknownError
  else .ok (setVch vch)

def storeNum (value : ℤ) : Except Failure ℤ := liftFault (trap.signed 64 value)

def assertNum (value : ℤ) : Except Failure ℤ :=
  if -2 ^ 63 ≤ value ∧ value < 2 ^ 63 then .ok value else assertFail

def boolNum (b : Bool) : ℤ := if b then 1 else 0

def evalUnary (op : UnaryOp) (bn : ℤ) : Except Failure ℤ :=
  match op with
  | .add1 => assertNum (bn + 1)
  | .sub1 => assertNum (bn - 1)
  | .negate => assertNum (-bn)
  | .abs => if bn < 0 then assertNum (-bn) else .ok bn
  | .not => .ok (boolNum (bn = 0))
  | .notEqual0 => .ok (boolNum (bn ≠ 0))

def evalBinary (op : BinaryOp) (bn1 bn2 : ℤ) : Except Failure ℤ :=
  match op with
  | .add => storeNum (bn1 + bn2)
  | .sub => storeNum (bn1 - bn2)
  | .boolAnd => .ok (boolNum (bn1 ≠ 0 ∧ bn2 ≠ 0))
  | .boolOr => .ok (boolNum (bn1 ≠ 0 ∨ bn2 ≠ 0))
  | .numEqual => .ok (boolNum (bn1 = bn2))
  | .numEqualVerify => .ok (boolNum (bn1 = bn2))
  | .numNotEqual => .ok (boolNum (bn1 ≠ bn2))
  | .lessThan => .ok (boolNum (bn1 < bn2))
  | .greaterThan => .ok (boolNum (bn1 > bn2))
  | .lessThanOrEqual => .ok (boolNum (bn1 ≤ bn2))
  | .greaterThanOrEqual => .ok (boolNum (bn1 ≥ bn2))
  | .min => .ok (if bn1 < bn2 then bn1 else bn2)
  | .max => .ok (if bn1 > bn2 then bn1 else bn2)

def evalHash (X : Crypto) (op : HashOp) (vch : Bytes) : Bytes :=
  match op with
  | .ripemd160 => le 20 (X.ripemd160 vch).toNat
  | .sha1 => le 20 (X.sha1 vch).toNat
  | .sha256 => X.sha256Bytes vch
  | .hash160 => le 20 (X.hash160 vch).toNat
  | .hash256 => le 32 (X.hash256 vch).toNat

def evalStack (op : StackOp) (stack altstack : List Bytes) :
    Except Failure (List Bytes × List Bytes) :=
  match op, stack, altstack with
  | .toAltStack, x :: s, alt => .ok (s, x :: alt)
  | .fromAltStack, s, x :: alt => .ok (x :: s, alt)
  | .fromAltStack, _, [] => setError .invalidAltStackOperation
  | .drop2, _ :: _ :: s, alt => .ok (s, alt)
  | .dup2, x2 :: x1 :: s, alt => .ok (x2 :: x1 :: x2 :: x1 :: s, alt)
  | .dup3, x3 :: x2 :: x1 :: s, alt => .ok (x3 :: x2 :: x1 :: x3 :: x2 :: x1 :: s, alt)
  | .over2, x4 :: x3 :: x2 :: x1 :: s, alt => .ok (x2 :: x1 :: x4 :: x3 :: x2 :: x1 :: s, alt)
  | .rot2, x6 :: x5 :: x4 :: x3 :: x2 :: x1 :: s, alt =>
    .ok (x2 :: x1 :: x6 :: x5 :: x4 :: x3 :: s, alt)
  | .swap2, x4 :: x3 :: x2 :: x1 :: s, alt => .ok (x2 :: x1 :: x4 :: x3 :: s, alt)
  | .ifDup, x :: s, alt => .ok (if castToBool x then x :: x :: s else x :: s, alt)
  | .depth, s, alt => .ok (scriptNumSerialize s.length :: s, alt)
  | .drop, _ :: s, alt => .ok (s, alt)
  | .dup, x :: s, alt => .ok (x :: x :: s, alt)
  | .nip, x2 :: _ :: s, alt => .ok (x2 :: s, alt)
  | .over, x2 :: x1 :: s, alt => .ok (x1 :: x2 :: x1 :: s, alt)
  | .rot, x3 :: x2 :: x1 :: s, alt => .ok (x1 :: x3 :: x2 :: s, alt)
  | .swap, x2 :: x1 :: s, alt => .ok (x1 :: x2 :: s, alt)
  | .tuck, x2 :: x1 :: s, alt => .ok (x2 :: x1 :: x2 :: s, alt)
  | .size, x :: s, alt => .ok (scriptNumSerialize x.length :: x :: s, alt)
  | _, _, _ => setError .invalidStackOperation

def pushResult (stack : List Bytes) (vch : Bytes) (verify : Bool) (serror : ScriptError) :
    Except Failure (List Bytes) :=
  if verify then
    if castToBool vch then .ok stack else setError serror
  else .ok (vch :: stack)

section Eval
variable (X : Crypto) (checker : SignatureChecker) (flags : Flags) (sigversion : SigVersion)

def dropSignature (scriptCode : CScript) (vchSig : Bytes) : Except Failure CScript :=
  if sigversion = .base then
    let (scriptCode, found) := findAndDelete scriptCode (CScript.pushVector vchSig)
    if found > 0 ∧ flags .constScriptCode then setError .sigFindAndDelete else .ok scriptCode
  else .ok scriptCode

def evalChecksigPreTapscript (vchSig vchPubKey : Bytes) (codehash : CScript) :
    Except Failure Bool := do
  let scriptCode ← dropSignature flags sigversion codehash vchSig
  checkSignatureEncoding X vchSig flags
  checkPubKeyEncoding vchPubKey flags sigversion
  let fSuccess ← checker.checkECDSASignature vchSig vchPubKey scriptCode sigversion
  if ¬ fSuccess ∧ flags .nullFail ∧ vchSig.length ≠ 0 then setError .sigNullFail
  else .ok fSuccess

def chargeWeight (execdata : ScriptExecutionData) (success : Bool) :
    Except Failure ScriptExecutionData :=
  if success then
    match execdata.validationWeightLeft with
    | none => assertFail
    | some left =>
      if left - 50 < 0 then setError .tapscriptValidationWeight
      else .ok { execdata with validationWeightLeft := some (left - 50) }
  else .ok execdata

def evalChecksigTapscript (sig pubkey : Bytes) (execdata : ScriptExecutionData) :
    Except Failure (Bool × ScriptExecutionData) := do
  let success := !sig.isEmpty
  let execdata ← chargeWeight execdata success
  if pubkey.length = 0 then setError .pubkeyType
  else if pubkey.length = 32 then
    if success then
      let valid ← checker.checkSchnorrSignature sig pubkey sigversion execdata
      if valid then .ok (success, execdata) else setError .unknownError
    else .ok (success, execdata)
  else if flags .discourageUpgradablePubkeyType then setError .discourageUpgradablePubkeyType
  else .ok (success, execdata)

def evalChecksig (sig pubkey : Bytes) (codehash : CScript) (execdata : ScriptExecutionData) :
    Except Failure (Bool × ScriptExecutionData) :=
  match sigversion with
  | .base | .witnessV0 => do
    let success ← evalChecksigPreTapscript X checker flags sigversion sig pubkey codehash
    .ok (success, execdata)
  | .tapscript => evalChecksigTapscript checker flags sigversion sig pubkey execdata
  | .taproot | .pqr => assertFail

/-- The loop of `OP_CHECKMULTISIG`: a key is tried on the first signature. -/
def matchSignatures (scriptCode : CScript) : List Bytes → List Bytes → Except Failure Bool
  | [], _ => .ok true
  | _ :: _, [] => .ok false
  | vchSig :: sigs, vchPubKey :: keys => do
    checkSignatureEncoding X vchSig flags
    checkPubKeyEncoding vchPubKey flags sigversion
    let fOk ← checker.checkECDSASignature vchSig vchPubKey scriptCode sigversion
    let left := if fOk then sigs else vchSig :: sigs
    if left.length > keys.length then .ok false else matchSignatures scriptCode left keys

def cleanUpArguments (requireNull : Bool) : ℕ → ℕ → List Bytes → Except Failure (List Bytes)
  | 0, _, stack => .ok stack
  | _ + 1, _, [] => setError .unknownError
  | i + 1, ikey2, top :: stack =>
    if requireNull ∧ ikey2 = 0 ∧ top.length ≠ 0 then setError .sigNullFail
    else cleanUpArguments requireNull i (ikey2 - 1) stack

def evalCheckMultiSig (verify : Bool) (st : ExecState) : Except Failure ExecState :=
  let fRequireMinimal := flags .minimalData
  if sigversion = .tapscript then setError .tapscriptCheckMultiSig
  else match st.stack with
  | [] => setError .invalidStackOperation
  | keysCount :: args => do
    let nKeysCount := getInt (← readNum keysCount fRequireMinimal 4)
    if nKeysCount < 0 ∨ nKeysCount > maxPubkeysPerMultisig then setError .pubkeyCount
    else
      let nKeysCount := nKeysCount.toNat
      let nOpCount := st.nOpCount + nKeysCount
      if nOpCount > maxOpsPerScript then setError .opCount
      else match args.drop nKeysCount with
      | [] => setError .invalidStackOperation
      | sigsCount :: rest => do
        let nSigsCount := getInt (← readNum sigsCount fRequireMinimal 4)
        if nSigsCount < 0 ∨ nSigsCount > nKeysCount then setError .sigCount
        else
          let nSigsCount := nSigsCount.toNat
          if rest.length < nSigsCount + 1 then setError .invalidStackOperation
          else
            let sigs := rest.take nSigsCount
            let scriptCode ← sigs.foldlM (dropSignature flags sigversion) st.codehash
            let fSuccess ← matchSignatures X checker flags sigversion scriptCode sigs
              (args.take nKeysCount)
            let stack ← cleanUpArguments (!fSuccess && flags .nullFail)
              (nKeysCount + nSigsCount + 2) (nKeysCount + 2) st.stack
            match stack with
            | [] => setError .invalidStackOperation
            | dummy :: stack =>
              if flags .nullDummy ∧ dummy.length ≠ 0 then setError .sigNullDummy
              else
                let stack ← pushResult stack (vchBool fSuccess) verify .checkMultiSigVerify
                .ok { st with stack, nOpCount }

def nonMinimalIf (vch : Bytes) : Bool := vch ≠ [] && vch ≠ [1]

def evalCond (notIf fExec : Bool) (st : ExecState) : Except Failure ExecState :=
  if fExec then
    match st.stack with
    | [] => setError .unbalancedConditional
    | vch :: stack =>
      if sigversion = .tapscript ∧ nonMinimalIf vch then setError .tapscriptMinimalIf
      else if sigversion = .witnessV0 ∧ flags .minimalIf ∧ nonMinimalIf vch then
        setError .minimalIf
      else .ok { st with stack, vfExec := st.vfExec.pushBack (castToBool vch != notIf) }
  else .ok { st with vfExec := st.vfExec.pushBack false }

variable (st : ExecState)

def evalCheckLockTimeVerify : Except Failure ExecState :=
  if ¬ flags .checkLockTimeVerify then .ok st
  else match st.stack with
  | [] => setError .invalidStackOperation
  | top :: _ => do
    let nLockTime ← readNum top (flags .minimalData) 5
    if nLockTime < 0 then setError .negativeLockTime
    else do
      let satisfied ← checker.checkLockTime nLockTime
      if satisfied then .ok st else setError .unsatisfiedLockTime

def sequenceLocktimeDisabled (nSequence : ℤ) : Bool := (BitVec.ofInt 64 nSequence).getLsbD 31

def evalCheckSequenceVerify : Except Failure ExecState :=
  if ¬ flags .checkSequenceVerify then .ok st
  else match st.stack with
  | [] => setError .invalidStackOperation
  | top :: _ => do
    let nSequence ← readNum top (flags .minimalData) 5
    if nSequence < 0 then setError .negativeLockTime
    else if sequenceLocktimeDisabled nSequence then .ok st
    else do
      let satisfied ← checker.checkSequence nSequence
      if satisfied then .ok st else setError .unsatisfiedLockTime

def evalPick (roll : Bool) (st : ExecState) : Except Failure ExecState :=
  match st.stack with
  | top :: stack@(_ :: _) => do
    let n := getInt (← readNum top (flags .minimalData) 4)
    if n < 0 ∨ n ≥ stack.length then setError .invalidStackOperation
    else match stack[n.toNat]? with
    | none => setError .unknownError
    | some vch =>
      .ok { st with stack := vch :: if roll then stack.eraseIdx n.toNat else stack }
  | _ => setError .invalidStackOperation

def evalNumeric1 (op : UnaryOp) (st : ExecState) : Except Failure ExecState :=
  match st.stack with
  | [] => setError .invalidStackOperation
  | top :: stack => do
    let bn ← readNum top (flags .minimalData) 4
    let bn ← evalUnary op bn
    .ok { st with stack := scriptNumSerialize bn :: stack }

def evalNumeric2 (op : BinaryOp) (st : ExecState) : Except Failure ExecState :=
  match st.stack with
  | x2 :: x1 :: stack => do
    let bn1 ← readNum x1 (flags .minimalData) 4
    let bn2 ← readNum x2 (flags .minimalData) 4
    let bn ← evalBinary op bn1 bn2
    let stack ← pushResult stack (scriptNumSerialize bn) (op = .numEqualVerify) .numEqualVerify
    .ok { st with stack }
  | _ => setError .invalidStackOperation

def evalWithin : Except Failure ExecState :=
  match st.stack with
  | x3 :: x2 :: x1 :: stack => do
    let bn1 ← readNum x1 (flags .minimalData) 4
    let bn2 ← readNum x2 (flags .minimalData) 4
    let bn3 ← readNum x3 (flags .minimalData) 4
    .ok { st with stack := vchBool (bn2 ≤ bn1 ∧ bn1 < bn3) :: stack }
  | _ => setError .invalidStackOperation

def evalCheckSig (verify : Bool) (st : ExecState) : Except Failure ExecState :=
  match st.stack with
  | vchPubKey :: vchSig :: stack => do
    let (fSuccess, execdata) ←
      evalChecksig X checker flags sigversion vchSig vchPubKey st.codehash st.execdata
    let stack ← pushResult stack (vchBool fSuccess) verify .checkSigVerify
    .ok { st with stack, execdata }
  | _ => setError .invalidStackOperation

def evalCheckSigAdd : Except Failure ExecState :=
  if sigversion = .base ∨ sigversion = .witnessV0 then setError .badOpcode
  else match st.stack with
  | pubkey :: vchNum :: sig :: stack => do
    let num ← readNum vchNum (flags .minimalData) 4
    let (success, execdata) ←
      evalChecksig X checker flags sigversion sig pubkey st.codehash st.execdata
    let sum ← storeNum (num + boolNum success)
    .ok { st with stack := scriptNumSerialize sum :: stack, execdata }
  | _ => setError .invalidStackOperation

def evalOp (fExec : Bool) (pc : CScript) (op : Op) (st : ExecState) : Except Failure ExecState :=
  match op with
  | .number n => .ok { st with stack := scriptNumSerialize n :: st.stack }
  | .nop => .ok st
  | .checkLockTimeVerify => evalCheckLockTimeVerify checker flags st
  | .checkSequenceVerify => evalCheckSequenceVerify checker flags st
  | .upgradableNop =>
    if flags .discourageUpgradableNops then setError .discourageUpgradableNops else .ok st
  | .cond notIf => evalCond flags sigversion notIf fExec st
  | .else =>
    if st.vfExec.empty then setError .unbalancedConditional
    else do
      let vfExec ← st.vfExec.toggleTop
      .ok { st with vfExec }
  | .endIf =>
    if st.vfExec.empty then setError .unbalancedConditional
    else do
      let vfExec ← st.vfExec.popBack
      .ok { st with vfExec }
  | .verify =>
    match st.stack with
    | [] => setError .invalidStackOperation
    | top :: stack => if castToBool top then .ok { st with stack } else setError .verify
  | .ret => setError .opReturn
  | .stack op => do
    let (stack, altstack) ← evalStack op st.stack st.altstack
    .ok { st with stack, altstack }
  | .pick roll => evalPick flags roll st
  | .equal verify =>
    match st.stack with
    | x2 :: x1 :: stack => do
      let stack ← pushResult stack (vchBool (x1 = x2)) verify .equalVerify
      .ok { st with stack }
    | _ => setError .invalidStackOperation
  | .unary op => evalNumeric1 flags op st
  | .binary op => evalNumeric2 flags op st
  | .within => evalWithin flags st
  | .hash op =>
    match st.stack with
    | [] => setError .invalidStackOperation
    | vch :: stack => .ok { st with stack := evalHash X op vch :: stack }
  | .codeSeparator =>
    .ok { st with
      codehash := pc
      execdata := { st.execdata with codeseparatorPos := some (BitVec.ofNat 32 st.opcodePos) } }
  | .checkSig verify => evalCheckSig X checker flags sigversion verify st
  | .checkSigAdd => evalCheckSigAdd X checker flags sigversion st
  | .checkMultiSig verify => evalCheckMultiSig X checker flags sigversion verify st
  | .pushData | .disabled | .default => setError .badOpcode

def evalInstruction (fExec : Bool) (opcode : UInt8) (vchPushValue : Bytes) (pc : CScript)
    (st : ExecState) : Except Failure ExecState :=
  if fExec ∧ opcode ≤ opPushData4 then
    if flags .minimalData ∧ ¬ checkMinimalPush vchPushValue opcode then setError .minimalData
    else .ok { st with stack := vchPushValue :: st.stack }
  else if fExec ∨ (0x63 ≤ opcode ∧ opcode ≤ 0x68) then
    evalOp X checker flags sigversion fExec pc (Op.ofByte opcode) st
  else .ok st

def evalStep (i : GetOp) : Except Failure ExecState :=
  let fExec := st.vfExec.allTrue
  match i.ret with
  | none => setError .badOpcode
  | some (opcode, vchPushValue) =>
    let counted : Bool := (sigversion = .base ∨ sigversion = .witnessV0) ∧ op16 < opcode
    let nOpCount := if counted then st.nOpCount + 1 else st.nOpCount
    if vchPushValue.length > maxScriptElementSize then setError .pushSize
    else if counted ∧ nOpCount > maxOpsPerScript then setError .opCount
    else if Op.ofByte opcode = .disabled then setError .disabledOpcode
    else if Op.ofByte opcode = .codeSeparator ∧ sigversion = .base ∧ flags .constScriptCode then
      setError .opCodeSeparator
    else do
      let st ← evalInstruction X checker flags sigversion fExec opcode vchPushValue i.pc
        { st with nOpCount }
      if st.stack.length + st.altstack.length > maxStackSize then setError .stackSize
      else .ok { st with opcodePos := st.opcodePos + 1 }

def ExecState.init (stack : List Bytes) (script : CScript) (execdata : ScriptExecutionData) :
    ExecState :=
  ⟨stack, [], .init, 0, script, 0, { execdata with codeseparatorPos := some 0xffffffff#32 }⟩

def evalScript (stack : List Bytes) (script : CScript) (execdata : ScriptExecutionData) :
    Except Failure (List Bytes) :=
  if ¬ (sigversion = .base ∨ sigversion = .witnessV0 ∨ sigversion = .tapscript) then assertFail
  else if (sigversion = .base ∨ sigversion = .witnessV0) ∧ script.length > maxScriptSize then
    setError .scriptSize
  else do
    let st ← script.ops.foldlM (evalStep X checker flags sigversion)
      (.init stack script execdata)
    if ¬ st.vfExec.empty then setError .unbalancedConditional else .ok st.stack

end Eval
end Vexta
