import Vexta.Script.Interpreter

/-! The loop of `EvalScript` as the source writes it, on vectors read by position. -/
namespace Vexta
open Lib

/-- What the loop throws: a script number, `at` and `popstack`. -/
inductive Exception
  | scriptNum
  | outOfRange
  | emptyStack
  deriving DecidableEq, Repr

/-- An error, an exception, a bad iterator, or the end of the program. -/
inductive Stop
  | error (serror : ScriptError)
  | thrown (exception : Exception)
  | badIterator
  | fault (fault : Fault)
  deriving DecidableEq, Repr

namespace Raw

abbrev fail {α : Type} (serror : ScriptError) : Except Stop α := .error (.error serror)

def call {α : Type} : Except Failure α → Except Stop α
  | .ok a => .ok a
  | .error (.script serror) => .error (.error serror)
  | .error (.fault fault) => .error (.fault fault)

variable (stack : List Bytes)

def stackTop (i : ℕ) : Except Stop Bytes :=
  match i with
  | 0 => .error (.thrown .outOfRange)
  | i + 1 =>
    match stack[i]? with
    | some vch => .ok vch
    | none => .error (.thrown .outOfRange)

def popStack : List Bytes → Except Stop (List Bytes)
  | [] => .error (.thrown .emptyStack)
  | _ :: stack => .ok stack

def erase (first last : ℕ) : Except Stop (List Bytes) :=
  if stack.length < first ∨ first < last then .error .badIterator
  else .ok (stack.take last ++ stack.drop first)

def insert (i : ℕ) (vch : Bytes) : Except Stop (List Bytes) :=
  if stack.length < i then .error .badIterator else .ok (stack.take i ++ vch :: stack.drop i)

def swap (i j : ℕ) : Except Stop (List Bytes) := do
  let vch1 ← stackTop stack i
  let vch2 ← stackTop stack j
  .ok ((stack.set (i - 1) vch2).set (j - 1) vch1)

def need {α : Type} (n : ℕ) (stack : List Bytes) (x : Except Stop α) : Except Stop α :=
  if stack.length < n then fail .invalidStackOperation else x

def readNum (vch : Bytes) (fRequireMinimal : Bool) (nMaxNumSize : ℕ) : Except Stop ℤ :=
  if vch.length > nMaxNumSize then .error (.thrown .scriptNum)
  else if fRequireMinimal ∧ nonMinimalNum vch then .error (.thrown .scriptNum)
  else .ok (setVch vch)

def pushResult (vch : Bytes) (fSuccess verify : Bool) (serror : ScriptError) :
    Except Stop (List Bytes) :=
  let stack := vch :: stack
  if verify then if fSuccess then popStack stack else fail serror else .ok stack

def evalStack (op : StackOp) (stack altstack : List Bytes) :
    Except Stop (List Bytes × List Bytes) :=
  match op with
  | .toAltStack => need 1 stack (do
    let vch ← stackTop stack 1
    let stack ← popStack stack
    .ok (stack, vch :: altstack))
  | .fromAltStack =>
    if altstack.length < 1 then fail .invalidAltStackOperation
    else do
      let vch ← stackTop altstack 1
      let altstack ← popStack altstack
      .ok (vch :: stack, altstack)
  | .drop2 => need 2 stack (do
    let stack ← popStack stack
    let stack ← popStack stack
    .ok (stack, altstack))
  | .dup2 => need 2 stack (do
    let vch1 ← stackTop stack 2
    let vch2 ← stackTop stack 1
    .ok (vch2 :: vch1 :: stack, altstack))
  | .dup3 => need 3 stack (do
    let vch1 ← stackTop stack 3
    let vch2 ← stackTop stack 2
    let vch3 ← stackTop stack 1
    .ok (vch3 :: vch2 :: vch1 :: stack, altstack))
  | .over2 => need 4 stack (do
    let vch1 ← stackTop stack 4
    let vch2 ← stackTop stack 3
    .ok (vch2 :: vch1 :: stack, altstack))
  | .rot2 => need 6 stack (do
    let vch1 ← stackTop stack 6
    let vch2 ← stackTop stack 5
    let stack ← erase stack 6 4
    .ok (vch2 :: vch1 :: stack, altstack))
  | .swap2 => need 4 stack (do
    let stack ← swap stack 4 2
    let stack ← swap stack 3 1
    .ok (stack, altstack))
  | .ifDup => need 1 stack (do
    let vch ← stackTop stack 1
    .ok (if castToBool vch then vch :: stack else stack, altstack))
  | .depth => .ok (scriptNumSerialize stack.length :: stack, altstack)
  | .drop => need 1 stack (do
    let stack ← popStack stack
    .ok (stack, altstack))
  | .dup => need 1 stack (do
    let vch ← stackTop stack 1
    .ok (vch :: stack, altstack))
  | .nip => need 2 stack (do
    let stack ← erase stack 2 1
    .ok (stack, altstack))
  | .over => need 2 stack (do
    let vch ← stackTop stack 2
    .ok (vch :: stack, altstack))
  | .rot => need 3 stack (do
    let stack ← swap stack 3 2
    let stack ← swap stack 2 1
    .ok (stack, altstack))
  | .swap => need 2 stack (do
    let stack ← swap stack 2 1
    .ok (stack, altstack))
  | .tuck => need 2 stack (do
    let vch ← stackTop stack 1
    let stack ← insert stack 2 vch
    .ok (stack, altstack))
  | .size => need 1 stack (do
    let vch ← stackTop stack 1
    .ok (scriptNumSerialize vch.length :: stack, altstack))

section Eval
variable (X : Crypto) (checker : SignatureChecker) (flags : Flags) (sigversion : SigVersion)

def dropSignatures (stack : List Bytes) : ℕ → ℕ → CScript → Except Stop CScript
  | 0, _, scriptCode => .ok scriptCode
  | k + 1, isig, scriptCode => do
    let vchSig ← stackTop stack isig
    let scriptCode ← call (dropSignature flags sigversion scriptCode vchSig)
    dropSignatures stack k (isig + 1) scriptCode

/-- The matching loop, with the pairs put to the checker. -/
def matchLoop (stack : List Bytes) (scriptCode : CScript) :
    ℕ → ℕ → ℕ → ℕ → List (Bytes × Bytes) → Except Stop (Bool × List (Bytes × Bytes))
  | _, 0, _, _, calls => .ok (true, calls)
  | 0, _ + 1, _, _, _ => .error (.fault .outOfFuel)
  | nKeysCount + 1, nSigsCount + 1, ikey, isig, calls => do
    let vchSig ← stackTop stack isig
    let vchPubKey ← stackTop stack ikey
    call (checkSignatureEncoding X vchSig flags)
    call (checkPubKeyEncoding vchPubKey flags sigversion)
    let fOk ← call (checker.checkECDSASignature vchSig vchPubKey scriptCode sigversion)
    let nLeft := if fOk then nSigsCount else nSigsCount + 1
    let isig := if fOk then isig + 1 else isig
    let calls := calls ++ [(vchSig, vchPubKey)]
    if nLeft > nKeysCount then .ok (false, calls)
    else matchLoop stack scriptCode nKeysCount nLeft (ikey + 1) isig calls

def cleanUp (requireNull : Bool) : ℕ → ℕ → List Bytes → Except Stop (List Bytes)
  | 0, _, stack => .ok stack
  | i + 1, ikey2, stack => do
    let nonNull ← if requireNull ∧ ikey2 = 0 then do
        let vch ← stackTop stack 1
        .ok (decide (vch.length ≠ 0))
      else .ok false
    if nonNull then fail .sigNullFail
    else do
      let stack ← popStack stack
      cleanUp requireNull i (ikey2 - 1) stack

def popDummy (stack : List Bytes) : Except Stop (List Bytes) :=
  need 1 stack (do
    let nonNull ← if flags .nullDummy then do
        let vch ← stackTop stack 1
        .ok (decide (vch.length ≠ 0))
      else .ok false
    if nonNull then fail .sigNullDummy else popStack stack)

def evalMultiSig (verify : Bool) (nKeysCount : ℕ) (st : ExecState) :
    Except Stop (ExecState × List (Bytes × Bytes)) :=
  let ikey := 2
  let i := 2 + nKeysCount
  need i st.stack (do
    let count ← stackTop st.stack i
    let nSigsCount := getInt (← readNum count (flags .minimalData) 4)
    if nSigsCount < 0 ∨ nSigsCount > nKeysCount then fail .sigCount
    else
      let nSigsCount := nSigsCount.toNat
      let isig := i + 1
      let i := isig + nSigsCount
      need i st.stack (do
        let scriptCode ← dropSignatures flags sigversion st.stack nSigsCount isig st.codehash
        let (fSuccess, calls) ← matchLoop X checker flags sigversion st.stack scriptCode
          nKeysCount nSigsCount ikey isig []
        let stack ← cleanUp (!fSuccess && flags .nullFail) (i - 1) (nKeysCount + 2) st.stack
        let stack ← popDummy flags stack
        let stack ← pushResult stack (vchBool fSuccess) fSuccess verify .checkMultiSigVerify
        .ok ({ st with stack, nOpCount := st.nOpCount + nKeysCount }, calls)))

def evalCheckMultiSig (verify : Bool) (st : ExecState) :
    Except Stop (ExecState × List (Bytes × Bytes)) :=
  if sigversion = .tapscript then fail .tapscriptCheckMultiSig
  else need 1 st.stack (do
    let top ← stackTop st.stack 1
    let nKeysCount := getInt (← readNum top (flags .minimalData) 4)
    if nKeysCount < 0 ∨ nKeysCount > maxPubkeysPerMultisig then fail .pubkeyCount
    else if st.nOpCount + nKeysCount.toNat > maxOpsPerScript then fail .opCount
    else evalMultiSig X checker flags sigversion verify nKeysCount.toNat st)

def evalCond (notIf fExec : Bool) (st : ExecState) : Except Stop ExecState :=
  if fExec then
    if st.stack.length < 1 then fail .unbalancedConditional
    else do
      let vch ← stackTop st.stack 1
      if sigversion = .tapscript ∧ nonMinimalIf vch then fail .tapscriptMinimalIf
      else if sigversion = .witnessV0 ∧ flags .minimalIf ∧ nonMinimalIf vch then fail .minimalIf
      else do
        let stack ← popStack st.stack
        .ok { st with stack, vfExec := st.vfExec.pushBack (castToBool vch != notIf) }
  else .ok { st with vfExec := st.vfExec.pushBack false }

variable (st : ExecState)

def evalCheckLockTimeVerify : Except Stop ExecState :=
  if ¬ flags .checkLockTimeVerify then .ok st
  else need 1 st.stack (do
    let top ← stackTop st.stack 1
    let nLockTime ← readNum top (flags .minimalData) 5
    if nLockTime < 0 then fail .negativeLockTime
    else do
      let satisfied ← call (checker.checkLockTime nLockTime)
      if satisfied then .ok st else fail .unsatisfiedLockTime)

def evalCheckSequenceVerify : Except Stop ExecState :=
  if ¬ flags .checkSequenceVerify then .ok st
  else need 1 st.stack (do
    let top ← stackTop st.stack 1
    let nSequence ← readNum top (flags .minimalData) 5
    if nSequence < 0 then fail .negativeLockTime
    else if sequenceLocktimeDisabled nSequence then .ok st
    else do
      let satisfied ← call (checker.checkSequence nSequence)
      if satisfied then .ok st else fail .unsatisfiedLockTime)

def evalVerify : Except Stop ExecState :=
  need 1 st.stack (do
    let top ← stackTop st.stack 1
    if castToBool top then do
      let stack ← popStack st.stack
      .ok { st with stack }
    else fail .verify)

def evalPick (roll : Bool) (st : ExecState) : Except Stop ExecState :=
  need 2 st.stack (do
    let top ← stackTop st.stack 1
    let n := getInt (← readNum top (flags .minimalData) 4)
    let stack ← popStack st.stack
    if n < 0 ∨ n ≥ stack.length then fail .invalidStackOperation
    else do
      let vch ← stackTop stack (n.toNat + 1)
      let stack ← if roll then erase stack (n.toNat + 1) n.toNat else .ok stack
      .ok { st with stack := vch :: stack })

def evalEqual (verify : Bool) (st : ExecState) : Except Stop ExecState :=
  need 2 st.stack (do
    let vch1 ← stackTop st.stack 2
    let vch2 ← stackTop st.stack 1
    let stack ← popStack st.stack
    let stack ← popStack stack
    let stack ← pushResult stack (vchBool (vch1 = vch2)) (vch1 = vch2) verify .equalVerify
    .ok { st with stack })

def evalNumeric1 (op : UnaryOp) (st : ExecState) : Except Stop ExecState :=
  need 1 st.stack (do
    let top ← stackTop st.stack 1
    let bn ← readNum top (flags .minimalData) 4
    let bn ← call (evalUnary op bn)
    let stack ← popStack st.stack
    .ok { st with stack := scriptNumSerialize bn :: stack })

def evalNumeric2 (op : BinaryOp) (st : ExecState) : Except Stop ExecState :=
  need 2 st.stack (do
    let vch1 ← stackTop st.stack 2
    let bn1 ← readNum vch1 (flags .minimalData) 4
    let vch2 ← stackTop st.stack 1
    let bn2 ← readNum vch2 (flags .minimalData) 4
    let bn ← call (evalBinary op bn1 bn2)
    let stack ← popStack st.stack
    let stack ← popStack stack
    let stack := scriptNumSerialize bn :: stack
    if op = .numEqualVerify then do
      let top ← stackTop stack 1
      if castToBool top then do
        let stack ← popStack stack
        .ok { st with stack }
      else fail .numEqualVerify
    else .ok { st with stack })

def evalWithin : Except Stop ExecState :=
  need 3 st.stack (do
    let vch1 ← stackTop st.stack 3
    let bn1 ← readNum vch1 (flags .minimalData) 4
    let vch2 ← stackTop st.stack 2
    let bn2 ← readNum vch2 (flags .minimalData) 4
    let vch3 ← stackTop st.stack 1
    let bn3 ← readNum vch3 (flags .minimalData) 4
    let stack ← popStack st.stack
    let stack ← popStack stack
    let stack ← popStack stack
    .ok { st with stack := vchBool (bn2 ≤ bn1 ∧ bn1 < bn3) :: stack })

def evalHash (op : HashOp) (st : ExecState) : Except Stop ExecState :=
  need 1 st.stack (do
    let vch ← stackTop st.stack 1
    let stack ← popStack st.stack
    .ok { st with stack := Vexta.evalHash X op vch :: stack })

def evalCheckSig (verify : Bool) (st : ExecState) : Except Stop ExecState :=
  need 2 st.stack (do
    let vchSig ← stackTop st.stack 2
    let vchPubKey ← stackTop st.stack 1
    let (fSuccess, execdata) ← call
      (evalChecksig X checker flags sigversion vchSig vchPubKey st.codehash st.execdata)
    let stack ← popStack st.stack
    let stack ← popStack stack
    let stack ← pushResult stack (vchBool fSuccess) fSuccess verify .checkSigVerify
    .ok { st with stack, execdata })

def evalCheckSigAdd : Except Stop ExecState :=
  if sigversion = .base ∨ sigversion = .witnessV0 then fail .badOpcode
  else need 3 st.stack (do
    let sig ← stackTop st.stack 3
    let vchNum ← stackTop st.stack 2
    let num ← readNum vchNum (flags .minimalData) 4
    let pubkey ← stackTop st.stack 1
    let (success, execdata) ← call
      (evalChecksig X checker flags sigversion sig pubkey st.codehash st.execdata)
    let stack ← popStack st.stack
    let stack ← popStack stack
    let stack ← popStack stack
    let sum ← call (storeNum (num + boolNum success))
    .ok { st with stack := scriptNumSerialize sum :: stack, execdata })

def evalOp (fExec : Bool) (pc : CScript) (op : Op) (st : ExecState) : Except Stop ExecState :=
  match op with
  | .number n => .ok { st with stack := scriptNumSerialize n :: st.stack }
  | .nop => .ok st
  | .checkLockTimeVerify => evalCheckLockTimeVerify checker flags st
  | .checkSequenceVerify => evalCheckSequenceVerify checker flags st
  | .upgradableNop =>
    if flags .discourageUpgradableNops then fail .discourageUpgradableNops else .ok st
  | .cond notIf => evalCond flags sigversion notIf fExec st
  | .else =>
    if st.vfExec.empty then fail .unbalancedConditional
    else do
      let vfExec ← call st.vfExec.toggleTop
      .ok { st with vfExec }
  | .endIf =>
    if st.vfExec.empty then fail .unbalancedConditional
    else do
      let vfExec ← call st.vfExec.popBack
      .ok { st with vfExec }
  | .verify => evalVerify st
  | .ret => fail .opReturn
  | .stack op => do
    let (stack, altstack) ← evalStack op st.stack st.altstack
    .ok { st with stack, altstack }
  | .pick roll => evalPick flags roll st
  | .equal verify => evalEqual verify st
  | .unary op => evalNumeric1 flags op st
  | .binary op => evalNumeric2 flags op st
  | .within => evalWithin flags st
  | .hash op => evalHash X op st
  | .codeSeparator =>
    .ok { st with
      codehash := pc
      execdata := { st.execdata with codeseparatorPos := some (BitVec.ofNat 32 st.opcodePos) } }
  | .checkSig verify => evalCheckSig X checker flags sigversion verify st
  | .checkSigAdd => evalCheckSigAdd X checker flags sigversion st
  | .checkMultiSig verify => Prod.fst <$> evalCheckMultiSig X checker flags sigversion verify st
  | .pushData | .disabled | .default => fail .badOpcode

def evalInstruction (fExec : Bool) (opcode : UInt8) (vchPushValue : Bytes) (pc : CScript)
    (st : ExecState) : Except Stop ExecState :=
  if fExec ∧ opcode ≤ opPushData4 then
    if flags .minimalData ∧ ¬ checkMinimalPush vchPushValue opcode then fail .minimalData
    else .ok { st with stack := vchPushValue :: st.stack }
  else if fExec ∨ (0x63 ≤ opcode ∧ opcode ≤ 0x68) then
    evalOp X checker flags sigversion fExec pc (Op.ofByte opcode) st
  else .ok st

def evalStep (i : GetOp) : Except Stop ExecState :=
  let fExec := st.vfExec.allTrue
  match i.ret with
  | none => fail .badOpcode
  | some (opcode, vchPushValue) =>
    let counted : Bool := (sigversion = .base ∨ sigversion = .witnessV0) ∧ op16 < opcode
    let nOpCount := if counted then st.nOpCount + 1 else st.nOpCount
    if vchPushValue.length > maxScriptElementSize then fail .pushSize
    else if counted ∧ nOpCount > maxOpsPerScript then fail .opCount
    else if Op.ofByte opcode = .disabled then fail .disabledOpcode
    else if Op.ofByte opcode = .codeSeparator ∧ sigversion = .base ∧ flags .constScriptCode then
      fail .opCodeSeparator
    else do
      let st ← evalInstruction X checker flags sigversion fExec opcode vchPushValue i.pc
        { st with nOpCount }
      if st.stack.length + st.altstack.length > maxStackSize then fail .stackSize
      else .ok { st with opcodePos := st.opcodePos + 1 }

def evalLoop : ℕ → CScript → ExecState → Except Stop ExecState
  | _, [], st => .ok st
  | 0, _ :: _, _ => .error (.fault .outOfFuel)
  | fuel + 1, pc@(_ :: _), st => do
    let st ← evalStep X checker flags sigversion st (getScriptOp pc)
    evalLoop fuel (getScriptOp pc).pc st

def evalScript (stack : List Bytes) (script : CScript) (execdata : ScriptExecutionData) :
    Except Stop (List Bytes) :=
  if ¬ (sigversion = .base ∨ sigversion = .witnessV0 ∨ sigversion = .tapscript) then
    .error (.fault .assertion)
  else if (sigversion = .base ∨ sigversion = .witnessV0) ∧ script.length > maxScriptSize then
    fail .scriptSize
  else do
    let st ← evalLoop X checker flags sigversion script.length script
      (.init stack script execdata)
    if ¬ st.vfExec.empty then fail .unbalancedConditional else .ok st.stack

end Eval
end Raw
end Vexta
