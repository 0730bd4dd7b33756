import Vexta.Script.Verify

/-! Two checkers that agree on the signatures of a script's own version are interchangeable. -/
namespace Vexta
open Lib CScript

structure SignatureChecker.Agree (sigversion : SigVersion) (c c' : SignatureChecker) : Prop where
  ecdsa : ∀ vchSig vchPubKey scriptCode,
    c.checkECDSASignature vchSig vchPubKey scriptCode sigversion =
      c'.checkECDSASignature vchSig vchPubKey scriptCode sigversion
  schnorr : sigversion = .tapscript → ∀ sig pubkey execdata,
    c.checkSchnorrSignature sig pubkey sigversion execdata =
      c'.checkSchnorrSignature sig pubkey sigversion execdata
  lockTime : c.checkLockTime = c'.checkLockTime
  sequence : c.checkSequence = c'.checkSequence

section Interpreter
variable {X : Crypto} {c c' : SignatureChecker} {flags : Flags} {sigversion : SigVersion}

section
variable (h : SignatureChecker.Agree sigversion c c')
include h

theorem evalChecksig_agree :
    evalChecksig X c flags sigversion = evalChecksig X c' flags sigversion := by
  funext sig pubkey codehash execdata
  cases sigversion with
  | base => simp only [evalChecksig, evalChecksigPreTapscript, h.ecdsa]
  | witnessV0 => simp only [evalChecksig, evalChecksigPreTapscript, h.ecdsa]
  | tapscript => simp only [evalChecksig, evalChecksigTapscript, h.schnorr rfl]
  | taproot => rfl
  | pqr => rfl

theorem matchSignatures_agree (scriptCode : CScript)
    (sigs keys : List Bytes) :
    matchSignatures X c flags sigversion scriptCode sigs keys =
      matchSignatures X c' flags sigversion scriptCode sigs keys := by
  induction keys generalizing sigs with
  | nil => cases sigs <;> rfl
  | cons vchPubKey keys ih =>
    cases sigs with
    | nil => rfl
    | cons vchSig sigs => simp only [matchSignatures, h.ecdsa, ih]

theorem evalOp_agree (fExec : Bool) (pc : CScript)
    (op : Op) (st : ExecState) :
    evalOp X c flags sigversion fExec pc op st = evalOp X c' flags sigversion fExec pc op st := by
  cases op with
  | checkSig verify => simp only [evalOp, evalCheckSig, evalChecksig_agree h]
  | checkSigAdd => simp only [evalOp, evalCheckSigAdd, evalChecksig_agree h]
  | checkMultiSig verify => simp only [evalOp, evalCheckMultiSig, matchSignatures_agree h]
  | checkLockTimeVerify => simp only [evalOp, evalCheckLockTimeVerify, h.lockTime]
  | checkSequenceVerify => simp only [evalOp, evalCheckSequenceVerify, h.sequence]
  | _ => rfl

theorem evalScript_agree (stack : List Bytes)
    (script : CScript) (execdata : ScriptExecutionData) :
    evalScript X c flags sigversion stack script execdata =
      evalScript X c' flags sigversion stack script execdata := by
  have hstep : evalStep X c flags sigversion = evalStep X c' flags sigversion := by
    funext st i
    simp only [evalStep, evalInstruction, evalOp_agree h]
  simp only [evalScript, hstep]

theorem executeWitnessScript_agree
    (stack : List Bytes) (script : CScript) (execdata : ScriptExecutionData) :
    executeWitnessScript X c flags stack script sigversion execdata =
      executeWitnessScript X c' flags stack script sigversion execdata := by
  simp only [executeWitnessScript, runWitnessScript, evalScript_agree h]

end

end Interpreter

/-- Checks of the program's own version agree, unless the witness is empty. -/
structure SignatureChecker.AgreeFor (witness : List Bytes) (witversion : ℕ) (program : Bytes)
    (isP2sh : Bool) (c c' : SignatureChecker) : Prop where
  v0 : witness ≠ [] → witversion = 0 → Agree .witnessV0 c c'
  keyPath : witness ≠ [] → witversion = 1 → program.length = 32 → isP2sh = false →
    ∀ sig execdata, c.checkSchnorrSignature sig program .taproot execdata =
      c'.checkSchnorrSignature sig program .taproot execdata
  scriptPath : witness ≠ [] → witversion = 1 → program.length = 32 → isP2sh = false →
    Agree .tapscript c c'
  pqr : witness ≠ [] → witversion = 2 ∨ witversion = 3 → isP2sh = false →
    ∀ sig pubkey, c.checkPQRSignature sig pubkey witversion program =
      c'.checkPQRSignature sig pubkey witversion program

section Witness
variable {X : Crypto} {c c' : SignatureChecker} {flags : Flags} {witness : List Bytes}

theorem verifyWitnessV0_agree (h : witness ≠ [] → SignatureChecker.Agree .witnessV0 c c')
    (program : Bytes) :
    verifyWitnessV0 X c flags witness.reverse program =
      verifyWitnessV0 X c' flags witness.reverse program := by
  by_cases hempty : witness = []
  · subst hempty
    simp [verifyWitnessV0]
  · simp only [verifyWitnessV0, executeWitnessScript_agree (h hempty)]

theorem verifyWitnessProgram_agree {witversion : ℕ} {program : Bytes} {isP2sh : Bool}
    (h : SignatureChecker.AgreeFor witness witversion program isP2sh c c') :
    verifyWitnessProgram X c flags witness witversion program isP2sh =
      verifyWitnessProgram X c' flags witness witversion program isP2sh := by
  unfold verifyWitnessProgram
  by_cases hv0 : witversion = 0
  · simp only [if_pos hv0]
    exact verifyWitnessV0_agree (fun hne => h.v0 hne hv0) program
  by_cases htap : witversion = 1 ∧ program.length = 32 ∧ ¬ isP2sh
  · simp only [if_neg hv0, if_pos htap]
    obtain ⟨hv1, hlen, hbare⟩ := htap
    have hbare : isP2sh = false := by simpa using hbare
    by_cases hempty : witness = []
    · subst hempty
      rfl
    · have hkey := h.keyPath hempty hv1 hlen hbare
      have hscript := h.scriptPath hempty hv1 hlen hbare
      have hspend : ∀ stack execdata, verifyTaprootSpend X c flags witness stack program execdata =
          verifyTaprootSpend X c' flags witness stack program execdata := by
        intro stack execdata
        match stack with
        | [] => rfl
        | [sig] => simp only [verifyTaprootSpend, hkey sig execdata]
        | control :: script :: stack =>
          simp only [verifyTaprootSpend, executeWitnessScript_agree hscript]
      simp only [hspend]
  by_cases hpq : (witversion = 2 ∨ witversion = 3) ∧ ¬ isP2sh
  · simp only [if_neg hv0, if_neg htap, if_pos hpq]
    by_cases hempty : witness = []
    · subst hempty
      rfl
    · have hbare : isP2sh = false := by simpa using hpq.2
      simp only [verifyWitnessPQR, h.pqr hempty hpq.1 hbare]
  · simp only [if_neg hv0, if_neg htap, if_neg hpq]

theorem verifyWitness_agree {script : CScript} {isP2sh : Bool}
    (h : ∀ version program, isWitnessProgram script = some (version, program) →
      SignatureChecker.AgreeFor witness version program isP2sh c c') (malleated : Bool) (s : VerifyState) :
    verifyWitness X c flags witness script isP2sh malleated s =
      verifyWitness X c' flags witness script isP2sh malleated s := by
  unfold verifyWitness
  cases hprog : isWitnessProgram script with
  | none => rfl
  | some p => simp only [verifyWitnessProgram_agree (h p.1 p.2 hprog)]

/-- Checkers that agree on the programs asked for verify the same spends. -/
theorem verifyScript_agree {scriptSig scriptPubKey : CScript}
    (hbase : SignatureChecker.Agree .base c c')
    (hbare : ∀ version program, isWitnessProgram scriptPubKey = some (version, program) →
      SignatureChecker.AgreeFor witness version program false c c')
    (hp2sh : isPayToScriptHash scriptPubKey = true → ∀ version program,
      SignatureChecker.AgreeFor witness version program true c c') :
    verifyScript X c flags scriptSig scriptPubKey witness =
      verifyScript X c' flags scriptSig scriptPubKey witness := by
  have heval : ∀ stack script, evalTrue X c flags stack script =
      evalTrue X c' flags stack script := by
    intro stack script
    simp only [evalTrue, evalScript_agree hbase]
  have hnested : ∀ stackCopy s, verifyP2sh X c flags scriptSig scriptPubKey witness stackCopy s =
      verifyP2sh X c' flags scriptSig scriptPubKey witness stackCopy s := by
    intro stackCopy s
    unfold verifyP2sh
    by_cases hspk : isPayToScriptHash scriptPubKey = true
    · have hwitness : ∀ script malleated s,
          verifyWitness X c flags witness script true malleated s =
            verifyWitness X c' flags witness script true malleated s :=
        fun script => verifyWitness_agree fun version program _ => hp2sh hspk version program
      simp only [heval, hwitness]
    · simp only [hspk, Bool.false_eq_true, and_false, if_false]
  simp only [verifyScript, evalScript_agree hbase, heval, verifyWitness_agree hbare, hnested]

end Witness
end Vexta
