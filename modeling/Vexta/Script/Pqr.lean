import Vexta.Script.Agree
import Vexta.Script.SoftFork
import Vexta.Script.SigHash

/-! When `VerifyScript` accepts the spending of a quantum-resistant program. -/
namespace Vexta
open Lib List PrecomputedTransactionData CScript

variable {version : ℕ}

theorem isWitnessProgram_eq_some {script : CScript} {program : Bytes}
    (h : isWitnessProgram script = some (version, program)) :
    ∃ v size : UInt8, script = v :: size :: program ∧ version = decodeOpN v ∧
      (v = 0 ∨ op1 ≤ v ∧ v ≤ op16) ∧ size.toNat = program.length ∧
      2 ≤ program.length ∧ program.length ≤ 40 := by
  match script with
  | [] => simp [isWitnessProgram] at h
  | [_] => simp [isWitnessProgram] at h
  | v :: size :: rest =>
    simp only [isWitnessProgram] at h
    split_ifs at h with hlen hv hsize
    simp only [Option.some.injEq, Prod.mk.injEq] at h
    obtain ⟨hversion, hprogram⟩ := h
    subst hprogram
    refine ⟨v, size, rfl, hversion.symm, ?_, by omega, by omega, by omega⟩
    by_cases h0 : v = 0
    · exact .inl h0
    · right
      simp only [not_and, not_or, UInt8.not_lt] at hv
      exact hv h0

theorem opcode_of_version {v : UInt8} (hversion : version = decodeOpN v)
    (hv : v = 0 ∨ op1 ≤ v ∧ v ≤ op16) (hpq : version = 2 ∨ version = 3) :
    v = op2 ∧ version = 2 ∨ v = op3 ∧ version = 3 := by
  unfold decodeOpN at hversion
  split_ifs at hversion with h0
  · omega
  · have hval : v.toNat = 0x52 ∧ version = 2 ∨ v.toNat = 0x53 ∧ version = 3 := by
      have hlow : 0x51 ≤ v.toNat := by
        have hle := (hv.resolve_left h0).1
        simpa [UInt8.le_iff_toNat_le, op1] using hle
      omega
    refine hval.imp (.imp_left fun h => ?_) (.imp_left fun h => ?_)
    · exact UInt8.toNat_inj.mp h
    · exact UInt8.toNat_inj.mp h

section Eval
variable {X : Crypto} {checker : SignatureChecker} {flags : Flags}

variable {v size : UInt8} {program : Bytes}

theorem ops_program (hv : ¬ v ≤ opPushData4) (hsize : size.toNat = program.length)
    (hlo : 2 ≤ program.length) (hhi : program.length ≤ 40) :
    ops (v :: size :: program) =
      [⟨some (v, []), size :: program⟩, ⟨some (size, program), []⟩] := by
  have hpush : size ≤ opPushData4 := by
    rw [UInt8.le_iff_toNat_le, hsize]
    exact le_trans hhi (by decide)
  have hdirect : size < opPushData1 := by
    rw [UInt8.lt_iff_toNat_lt, hsize]
    exact lt_of_le_of_lt hhi (by decide)
  have hwidth : pushSizeBytes size = 0 := by
    have hne : ∀ c : UInt8, 40 < c.toNat → size ≠ c := by
      rintro c hc rfl
      omega
    unfold pushSizeBytes
    rw [if_neg (hne _ (by decide)), if_neg (hne _ (by decide)), if_neg (hne _ (by decide))]
  have hfirst : getScriptOp (v :: size :: program) = ⟨some (v, []), size :: program⟩ := by
    simp only [getScriptOp, hv, if_false]
  have hsecond : getScriptOp (size :: program) = ⟨some (size, program), []⟩ := by
    simp [getScriptOp, hpush, hwidth, hdirect, hsize]
  rw [ops_cons, hfirst]
  simp only
  rw [ops_cons, hsecond]
  simp only [ops_nil]

variable {n : ℤ}

theorem evalStep_number (hop : Op.ofByte v = .number n) (hv : ¬ v ≤ opPushData4) (hv16 : v ≤ op16)
    (rest : CScript) (script : CScript) (execdata : ScriptExecutionData) :
    evalStep X checker flags .base (.init [] script execdata) ⟨some (v, []), rest⟩ =
      .ok { ExecState.init [scriptNumSerialize n] script execdata with opcodePos := 1 } := by
  have hcount : ¬ op16 < v := UInt8.not_lt.mpr hv16
  simp [evalStep, evalInstruction, evalOp, hop, hv, hcount, ExecState.init, ConditionStack.init,
    ConditionStack.allTrue, maxStackSize, maxScriptElementSize]

theorem evalStep_push (hsize : size.toNat = program.length) (hlo : 2 ≤ program.length)
    (hhi : program.length ≤ 40) (top : Bytes) (script : CScript) (execdata : ScriptExecutionData)
    (pos : ℕ) :
    evalStep X checker flags .base
        { ExecState.init [top] script execdata with opcodePos := pos } ⟨some (size, program), []⟩ =
      .ok { ExecState.init [program, top] script execdata with opcodePos := pos + 1 } := by
  have hpush : size ≤ opPushData4 := by
    rw [UInt8.le_iff_toNat_le, hsize]
    exact le_trans hhi (by decide)
  have hcount : ¬ op16 < size := by
    rw [UInt8.lt_iff_toNat_lt, hsize, not_lt]
    exact le_trans hhi (by decide)
  have hlen : ¬ maxScriptElementSize < program.length := by
    unfold maxScriptElementSize
    omega
  have hop : Op.ofByte size = .pushData := if_pos hpush
  have hminimal : checkMinimalPush program size = true := by
    match program with
    | [] => simp at hlo
    | [_] => simp at hlo
    | _ :: _ :: _ =>
      simp only [checkMinimalPush]
      rw [if_pos (by omega), hsize]
      simp
  simp [evalStep, evalInstruction, hop, hpush, hcount, hlen, hminimal, ExecState.init,
    ConditionStack.init, ConditionStack.allTrue, maxStackSize]

theorem evalScript_program (hop : Op.ofByte v = .number n) (hv : ¬ v ≤ opPushData4)
    (hv16 : v ≤ op16) (hsize : size.toNat = program.length) (hlo : 2 ≤ program.length)
    (hhi : program.length ≤ 40) (execdata : ScriptExecutionData) :
    evalScript X checker flags .base [] (v :: size :: program) execdata =
      .ok [program, scriptNumSerialize n] := by
  have hshort : ¬ (v :: size :: program).length > maxScriptSize := by
    simp only [length_cons, maxScriptSize]
    omega
  unfold evalScript
  rw [if_neg (by simp), if_neg fun h => hshort h.2, ops_program hv hsize hlo hhi]
  simp only [foldlM_cons, foldlM_nil]
  rw [evalStep_number hop hv hv16, ok_bind, evalStep_push hsize hlo hhi]
  rfl

theorem verifyScript_program_iff {scriptSig scriptPubKey : CScript} {witness : List Bytes}
    {version : ℕ} (hp2sh : flags .p2sh = true) (hw : flags .witness = true)
    (hprog : isWitnessProgram scriptPubKey = some (version, program))
    (hpq : version = 2 ∨ version = 3) :
    verifyScript X checker flags scriptSig scriptPubKey witness = .ok () ↔
      scriptSig = [] ∧ castToBool program = true ∧
        verifyWitnessPQR checker flags witness.reverse version program = .ok () := by
  obtain ⟨v, size, rfl, hversion, hv, hsize, hlo, hhi⟩ := isWitnessProgram_eq_some hprog
  have hopcode : ¬ v ≤ opPushData4 ∧ v ≤ op16 ∧ v ≠ 0xa9 ∧
      Op.ofByte v = .number version := by
    rcases opcode_of_version hversion hv hpq with ⟨rfl, rfl⟩ | ⟨rfl, rfl⟩ <;> decide
  obtain ⟨hv0, hv16, hne, hop⟩ := hopcode
  have hpqr : verifyWitnessProgram X checker flags witness version program false =
      verifyWitnessPQR checker flags witness.reverse version program := by
    have h0 : version ≠ 0 := by omega
    have h1 : version ≠ 1 := by omega
    simp [verifyWitnessProgram, h0, h1, hpq]
  have hbare : ∀ s : VerifyState, verifyP2sh X checker flags scriptSig (v :: size :: program)
      witness [] s = .ok s := by
    intro s
    have hnot : isPayToScriptHash (v :: size :: program) = false := by
      simp [isPayToScriptHash, hne]
    simp [verifyP2sh, hnot]
  by_cases hsig : scriptSig = []
  · subst hsig
    have hempty : evalScript X checker flags .base [] [] .empty = .ok [] := rfl
    have hpush : isPushOnly [] = true := rfl
    unfold verifyScript
    rw [if_neg fun h => h.2 hpush, hempty, ok_bind]
    unfold evalTrue
    rw [evalScript_program hop hv0 hv16 hsize hlo hhi, ok_bind]
    by_cases htrue : castToBool program = true
    · simp only [htrue, if_true, ok_bind, verifyWitness, hw, hprog, hpqr]
      cases hres : verifyWitnessPQR checker flags witness.reverse version program with
      | error e => simp [Bind.bind, Except.bind]
      | ok u => simp [hbare, verifyEnd, hp2sh, hw, resizeOne]
    · simp [htrue]
  · have hmalleated : scriptSig.length ≠ 0 := by simpa using hsig
    simp only [hsig, false_and, iff_false]
    intro h
    unfold verifyScript at h
    split_ifs at h
    obtain ⟨stackCopy, _, h⟩ := bind_eq_ok.mp h
    obtain ⟨stack, _, h⟩ := bind_eq_ok.mp h
    obtain ⟨s, hs, _⟩ := bind_eq_ok.mp h
    simp [verifyWitness, hw, hprog, hmalleated] at hs

end Eval

section Checker
variable {X : Crypto} {txTo : CTransaction} {nIn : ℕ} {txin : CTxIn} {spentOutputs : List CTxOut}
  {force : Bool} {txdata : PrecomputedTransactionData}

/-- A witness that is no taproot spend makes `Init` hash version 0. -/
theorem bip143Ready_of_witness
    (hinit : init X txTo spentOutputs force = .ok txdata)
    (hin : txTo.vin[nIn]? = some txin) (hwitness : txin.scriptWitness ≠ [])
    (hspent : looksTaproot spentOutputs nIn = false) : txdata.bip143SegwitReady = true := by
  have huses : usesWitness txTo spentOutputs false = true := by
    unfold usesWitness
    rw [any_eq_true]
    refine ⟨(txin, nIn), mem_zipIdx_iff_getElem?.mpr hin, ?_⟩
    simp [hwitness, hspent]
  unfold init at hinit
  split_ifs at hinit
  rw [← Except.ok.inj hinit]
  simp [huses]

variable {version : ℕ} {program : Bytes}

theorem signatureHashPQR_eq (amount : BitVec 64) (hin : txTo.vin[nIn]? = some txin)
    (hprogram : program.length = 32) (hpq : version = 2 ∨ version = 3) :
    signatureHashPQR X txTo nIn version program amount txdata =
      .ok (X.hash256 (pqrPreimage txTo txin version program amount txdata)) := by
  simp [signatureHashPQR, assertInput, hin, hprogram, hpq]

theorem checkPQRSignature_eq_true {sig pubkey : Bytes} {amount : BitVec 64}
    {mdb : MissingDataBehavior} (hready : txdata.bip143SegwitReady = true)
    (hprogram : program.length = 32) (hpq : version = 2 ∨ version = 3) :
    checkPQRSignature X txTo mdb nIn amount (some txdata) sig pubkey version program = .ok true ↔
      X.sha256Bytes pubkey = program ∧ pubkey.length = pqPubkeyBytes version ∧
        sig.length = pqSigBytes version ∧
        ∃ sighash, signatureHashPQR X txTo nIn version program amount txdata = .ok sighash ∧
          X.pqVerify version sig sighash pubkey = true := by
  have hversion : ¬ (version ≠ 2 ∧ version ≠ 3) := by omega
  unfold checkPQRSignature
  simp only [hready, not_true_eq_false, if_false, hprogram, ne_eq, hversion]
  by_cases hhash : X.sha256Bytes pubkey = program
  · by_cases hkey : pubkey.length = pqPubkeyBytes version
    · by_cases hsig : sig.length = pqSigBytes version
      · simp [hhash, hkey, hsig, bind_eq_ok]
      · simp [hhash, hkey, hsig, bind_eq_ok]
    · simp [hhash, hkey, bind_eq_ok]
  · simp [hhash]

end Checker

def SignatureChecker.withPQR (checker : SignatureChecker)
    (f : Bytes → Bytes → ℕ → Bytes → Except Failure Bool) : SignatureChecker :=
  { checker with checkPQRSignature := f }

theorem isWitnessProgram_of_p2sh {script : CScript}
    (h : isPayToScriptHash script = true) : isWitnessProgram script = none := by
  match script with
  | [] => rfl
  | [_] => rfl
  | v :: size :: rest =>
    simp only [isPayToScriptHash, Bool.and_eq_true, beq_iff_eq] at h
    have hv : v = 0xa9 := by simpa using h.1.1.2
    subst hv
    simp only [isWitnessProgram]
    split_ifs with _ hnot hsize
    · rfl
    · rfl
    · exact absurd (by decide) hnot
    · rfl

variable {scriptPubKey : CScript}

variable {X : Crypto} {flags : Flags} {scriptSig : CScript} {witness : List Bytes} {nIn version : ℕ}
  {program : Bytes}

theorem verifyScript_nested {checker : SignatureChecker}
    {f : Bytes → Bytes → ℕ → Bytes → Except Failure Bool}
    (h : isPayToScriptHash scriptPubKey = true) :
    verifyScript X (checker.withPQR f) flags scriptSig scriptPubKey witness =
      verifyScript X checker flags scriptSig scriptPubKey witness := by
  have hagree : ∀ sigversion, SignatureChecker.Agree sigversion (checker.withPQR f) checker :=
    fun _ => ⟨fun _ _ _ => rfl, fun _ _ _ _ => rfl, rfl, rfl⟩
  apply verifyScript_agree (hagree _)
  · intro version program hprog
    simp [isWitnessProgram_of_p2sh h] at hprog
  · intro _ version program
    exact ⟨fun _ _ => hagree _, fun _ _ _ _ _ _ => rfl, fun _ _ _ _ => hagree _, nofun⟩

theorem looksTaproot_program {spentOutputs : List CTxOut}
    (hspent : ∀ out, spentOutputs[nIn]? = some out → out.scriptPubKey = scriptPubKey)
    (hprog : isWitnessProgram scriptPubKey = some (version, program))
    (hpq : version = 2 ∨ version = 3) : looksTaproot spentOutputs nIn = false := by
  unfold looksTaproot
  cases hout : spentOutputs[nIn]? with
  | none => rfl
  | some out =>
    obtain ⟨v, size, hscript, hversion, hv, _⟩ := isWitnessProgram_eq_some hprog
    have hne : v ≠ op1 := by
      rcases opcode_of_version hversion hv hpq with ⟨rfl, _⟩ | ⟨rfl, _⟩ <;> decide
    simp [hspent out hout, hscript, hne]

theorem verifyScript_pqrProgram_iff (hp2sh : flags .p2sh = true) (hw : flags .witness = true)
    (hpqr : flags .pqr = true) {txTo : CTransaction} {amount : BitVec 64}
    {mdb : MissingDataBehavior} {txdata : PrecomputedTransactionData}
    (hready : witness ≠ [] → txdata.bip143SegwitReady = true)
    (hprog : isWitnessProgram scriptPubKey = some (version, program))
    (hpq : version = 2 ∨ version = 3) :
    verifyScript X (transactionSignatureChecker X txTo mdb nIn amount (some txdata)) flags
        scriptSig scriptPubKey witness = .ok () ↔
      scriptSig = [] ∧ program.length = 32 ∧ castToBool program = true ∧
        ∃ sig pubkey sighash, witness = [sig, pubkey] ∧
          sig.length = pqSigBytes version ∧ pubkey.length = pqPubkeyBytes version ∧
          X.sha256Bytes pubkey = program ∧
          signatureHashPQR X txTo nIn version program amount txdata = .ok sighash ∧
          X.pqVerify version sig sighash pubkey = true := by
  rw [verifyScript_program_iff hp2sh hw hprog hpq]
  unfold verifyWitnessPQR
  simp only [hpqr, not_true_eq_false, if_false]
  by_cases hlen : program.length = 32
  · simp only [hlen, ne_eq, not_true_eq_false, if_false]
    constructor
    · rintro ⟨hsig, htrue, h⟩
      refine ⟨hsig, trivial, htrue, ?_⟩
      split at h
      · next pubkey sig hstack =>
        have hwitness : witness = [sig, pubkey] := by
          rw [← reverse_reverse witness, hstack]
          rfl
        obtain ⟨valid, hvalid, h⟩ := bind_eq_ok.mp h
        split_ifs at h with hv
        subst hv
        obtain ⟨hhash, hkey, hsize, sighash, hsighash, hverify⟩ :=
          (checkPQRSignature_eq_true (hready (by simp [hwitness])) hlen hpq).mp hvalid
        exact ⟨sig, pubkey, sighash, hwitness, hsize, hkey, hhash, hsighash, hverify⟩
      · cases h
    · rintro ⟨hsig, _, htrue, sig, pubkey, sighash, hwitness, hsize, hkey, hhash, hsighash,
        hverify⟩
      refine ⟨hsig, htrue, ?_⟩
      have hvalid : checkPQRSignature X txTo mdb nIn amount (some txdata) sig pubkey version
          program = .ok true :=
        (checkPQRSignature_eq_true (hready (by simp [hwitness])) hlen hpq).mpr
          ⟨hhash, hkey, hsize, sighash, hsighash, hverify⟩
      simp [hwitness, transactionSignatureChecker, hvalid]
  · simp [hlen]

/-- `VerifyScript` accepts the spend of a quantum-resistant program exactly when the signature
script is empty, the program has 32 bytes and counts as true, and the witness is a valid signature
and a key of the scheme's sizes that hashes to the program; nested in pay-to-script-hash, no
signature is checked. -/
theorem verifyScript_pqr_iff (X : Crypto) (flags : Flags) (hp2sh : flags .p2sh = true)
    (hw : flags .witness = true) (hpqr : flags .pqr = true) :
    (∀ (txTo : CTransaction) (nIn : ℕ) (txin : CTxIn) (amount : BitVec 64)
      (mdb : MissingDataBehavior) (spentOutputs : List CTxOut) (force : Bool)
      (txdata : PrecomputedTransactionData) (scriptPubKey : CScript) (version : ℕ)
      (program : Bytes),
      txTo.vin[nIn]? = some txin →
      init X txTo spentOutputs force = .ok txdata →
      (∀ out, spentOutputs[nIn]? = some out → out.scriptPubKey = scriptPubKey) →
      isWitnessProgram scriptPubKey = some (version, program) →
      version = 2 ∨ version = 3 →
      (verifyScript X (transactionSignatureChecker X txTo mdb nIn amount (some txdata)) flags
          txin.scriptSig scriptPubKey txin.scriptWitness = .ok () ↔
        txin.scriptSig = [] ∧ program.length = 32 ∧ castToBool program = true ∧
          ∃ sig pubkey sighash, txin.scriptWitness = [sig, pubkey] ∧
            sig.length = pqSigBytes version ∧ pubkey.length = pqPubkeyBytes version ∧
            X.sha256Bytes pubkey = program ∧
            signatureHashPQR X txTo nIn version program amount txdata = .ok sighash ∧
            X.pqVerify version sig sighash pubkey = true)) ∧
    (∀ (checker : SignatureChecker) (f : Bytes → Bytes → ℕ → Bytes → Except Failure Bool)
      (scriptSig scriptPubKey : CScript) (witness : List Bytes),
      isPayToScriptHash scriptPubKey = true →
      verifyScript X (checker.withPQR f) flags scriptSig scriptPubKey witness =
        verifyScript X checker flags scriptSig scriptPubKey witness) := by
  refine ⟨?_, fun checker f scriptSig scriptPubKey witness h => verifyScript_nested h⟩
  intro txTo nIn txin amount mdb spentOutputs force txdata scriptPubKey version program hin hinit
    hspent hprog hpq
  have hready : txin.scriptWitness ≠ [] → txdata.bip143SegwitReady = true := fun hne =>
    bip143Ready_of_witness hinit hin hne (looksTaproot_program hspent hprog hpq)
  exact verifyScript_pqrProgram_iff hp2sh hw hpqr hready hprog hpq

def pqrFlags : Flags := fun f => f = .p2sh ∨ f = .witness ∨ f = .pqr

def pqrTx (witness : List Bytes) : CTransaction := ⟨[⟨⟨0, 0⟩, [], 0, witness⟩], [], 2, 0⟩

def pqrScript (program : Bytes) : CScript := op3 :: UInt8.ofNat program.length :: program

/-- A spend of version 3, with a hash function whose only value is 1. -/
theorem verifyScript_pqr_iff_spend :
    let X := { acceptingCrypto with sha256 := fun _ => 1 }
    let tx := pqrTx [List.replicate 7856 0, List.replicate 32 0]
    ∃ txdata, init X tx [] false = .ok txdata ∧
      verifyScript X (transactionSignatureChecker X tx .assertFail 0 0 (some txdata)) pqrFlags
        [] (pqrScript (le 32 1)) [List.replicate 7856 0, List.replicate 32 0] = .ok () := by
  intro X tx
  have hinit : init X tx [] false = .ok _ := rfl
  refine ⟨_, hinit, ?_⟩
  have hiff := (verifyScript_pqr_iff X pqrFlags rfl rfl rfl).1 tx 0 _ 0 .assertFail [] false _
    (pqrScript (le 32 1)) 3 (le 32 1) rfl hinit (by simp) (by decide) (by decide)
  refine hiff.mpr ⟨rfl, by simp, by decide, List.replicate 7856 0, List.replicate 32 0, _, rfl,
    ?_, ?_, rfl, signatureHashPQR_eq 0 rfl (by simp) (by decide), rfl⟩
  · rw [length_replicate]
    rfl
  · rw [length_replicate]
    rfl

/-- With post-quantum verification on, a program that has not 32 bytes is rejected though no flag
discourages upgradable programs. So is one of 32 bytes that count as false. -/
theorem verifyScript_pqr_rejected :
    let short := pqrTx []
    let zero := pqrTx [List.replicate 7856 0, List.replicate 32 0]
    pqrFlags .discourageUpgradableWitnessProgram = false ∧
    (∃ txdata, init acceptingCrypto short [] false = .ok txdata ∧
      verifyScript acceptingCrypto
        (transactionSignatureChecker acceptingCrypto short .assertFail 0 0 (some txdata)) pqrFlags
        [] (pqrScript [1, 1]) [] = .error (.script .witnessProgramWrongLength)) ∧
    acceptingCrypto.sha256Bytes (List.replicate 32 0) = le 32 0 ∧
    (∃ txdata, init acceptingCrypto zero [] false = .ok txdata ∧
      verifyScript acceptingCrypto
        (transactionSignatureChecker acceptingCrypto zero .assertFail 0 0 (some txdata)) pqrFlags
        [] (pqrScript (le 32 0)) [List.replicate 7856 0, List.replicate 32 0] =
          .error (.script .evalFalse)) := by
  intro short zero
  refine ⟨rfl, ⟨_, rfl, ?_⟩, rfl, ⟨_, rfl, ?_⟩⟩
  · decide +kernel
  · decide +kernel

end Vexta
