import Vexta.Script.Pqr

/-! `CheckInputScripts`: the scripts of all inputs, run with the hashes that `Init` computed. -/
namespace Vexta
open Lib List PrecomputedTransactionData SignatureChecker

/-- The values of `TxValidationResult` that are reported. -/
inductive TxValidationResult
  | consensus
  | notStandard
  | missingInputs
  | prematureSpend
  | witnessStripped
  deriving DecidableEq, Repr

/-- How a check of a transaction fails. A script error stands for its text. -/
inductive TxFailure
  | invalid (result : TxValidationResult) (reason : String) (serror : Option ScriptError)
  | fault (fault : Fault)
  deriving DecidableEq, Repr

def CTransaction.getHash (X : Crypto) (tx : CTransaction) : Uint256 :=
  X.hash256 tx.serializeNoWitness

def CTransaction.getWitnessHash (X : Crypto) (tx : CTransaction) : Uint256 :=
  X.hash256 tx.serialize

def mandatoryScriptVerifyFlags : Flags := fun f => f = .p2sh

def standardScriptVerifyFlags : Flags
  | .p2sh | .derSig | .strictEnc | .minimalData | .nullDummy | .discourageUpgradableNops
  | .cleanStack | .minimalIf | .nullFail | .checkLockTimeVerify | .checkSequenceVerify | .lowS
  | .witness | .discourageUpgradableWitnessProgram | .witnessPubkeyType | .constScriptCode
  | .taproot | .discourageUpgradableTaprootVersion | .discourageOpSuccess
  | .discourageUpgradablePubkeyType => true
  | .sigPushOnly | .pqr => false

def Flags.diff (F G : Flags) : Flags := fun f => F f && !G f

def Flags.union (F G : Flags) : Flags := fun f => F f || G f

def standardNotMandatoryVerifyFlags : Flags :=
  standardScriptVerifyFlags.diff mandatoryScriptVerifyFlags

def ScriptVerify.all : List ScriptVerify :=
  [.p2sh, .strictEnc, .derSig, .lowS, .nullDummy, .sigPushOnly, .minimalData,
    .discourageUpgradableNops, .cleanStack, .checkLockTimeVerify, .checkSequenceVerify, .witness,
    .discourageUpgradableWitnessProgram, .minimalIf, .nullFail, .witnessPubkeyType,
    .constScriptCode, .taproot, .discourageUpgradableTaprootVersion, .discourageOpSuccess,
    .discourageUpgradablePubkeyType, .pqr]

def Flags.meets (F G : Flags) : Bool := ScriptVerify.all.any fun f => F f && G f

abbrev CoinOutputs := COutPoint → Option CTxOut

structure CScriptCheck where
  txOut : CTxOut
  nIn : ℕ
  flags : Flags

/-- Checkers by the position of the input, its amount and the shared hashes. -/
abbrev CheckerOf := ℕ → BitVec 64 → PrecomputedTransactionData → SignatureChecker

/-- `CachingTransactionSignatureChecker` without its cache. -/
def cachingSignatureChecker (X : Crypto) (tx : CTransaction) : CheckerOf :=
  fun nIn amount txdata => transactionSignatureChecker X tx .assertFail nIn amount (some txdata)

section
variable (X : Crypto) (checkerOf : CheckerOf) (tx : CTransaction)

variable (txdata : PrecomputedTransactionData)

def CScriptCheck.run (check : CScriptCheck) :
    Except Failure Unit := do
  let txin ← inputAt tx check.nIn
  verifyScript X (checkerOf check.nIn check.txOut.nValue txdata) check.flags txin.scriptSig
    check.txOut.scriptPubKey txin.scriptWitness

def spentOutputs (inputs : CoinOutputs) : Except Failure (List CTxOut) :=
  tx.vin.mapM fun txin => match inputs txin.prevout with
    | some out => .ok out
    | none => assertFail

def inputScriptData (inputs : CoinOutputs) (txdata : Option PrecomputedTransactionData) :
    Except Failure PrecomputedTransactionData :=
  match txdata with
  | some txdata => .ok txdata
  | none => do
    let outputs ← spentOutputs tx inputs
    init X tx outputs false

def inputScriptChecks (flags : Flags) (txdata : PrecomputedTransactionData) :
    Except Failure (List CScriptCheck) :=
  if txdata.spentOutputs.length ≠ tx.vin.length then assertFail
  else .ok (txdata.spentOutputs.zipIdx.map fun (txOut, nIn) => { txOut, nIn, flags })

def runInputCheck (check : CScriptCheck) :
    Except TxFailure Unit :=
  let mandatory (serror : ScriptError) : Except TxFailure Unit :=
    .error (.invalid .consensus "mandatory-script-verify-flag-failed" serror)
  match check.run X checkerOf tx txdata with
  | .ok () => .ok ()
  | .error (.fault fault) => .error (.fault fault)
  | .error (.script serror) =>
    if check.flags.meets standardNotMandatoryVerifyFlags then
      let check2 := { check with flags := check.flags.diff standardNotMandatoryVerifyFlags }
      match check2.run X checkerOf tx txdata with
      | .ok () => .error (.invalid .notStandard "non-mandatory-script-verify-flag" serror)
      | .error (.fault fault) => .error (.fault fault)
      | .error (.script _) => mandatory serror
    else mandatory serror

def liftFailure {α : Type} : Except Failure α → Except TxFailure α
  | .ok a => .ok a
  | .error (.fault fault) => .error (.fault fault)
  | .error (.script serror) => .error (.invalid .consensus "" serror)

def pushInputChecks (cached : Bool) (inputs : CoinOutputs) (flags : Flags)
    (txdata : Option PrecomputedTransactionData) :
    Except TxFailure (List CScriptCheck × Option PrecomputedTransactionData) :=
  if tx.isCoinBase then .ok ([], txdata)
  else if cached then .ok ([], txdata)
  else do
    let data ← liftFailure (inputScriptData X tx inputs txdata)
    let checks ← liftFailure (inputScriptChecks tx flags data)
    .ok (checks, some data)

/-- `CheckInputScripts` with inline checks; `cached` is the answer of the cache. -/
def checkInputScripts (cached : Bool) (inputs : CoinOutputs) (flags : Flags)
    (txdata : Option PrecomputedTransactionData) :
    Except TxFailure (Option PrecomputedTransactionData) := do
  let (checks, txdata) ← pushInputChecks X tx cached inputs flags txdata
  match txdata with
  | none => .ok none
  | some data => do
    checks.forM (runInputCheck X checkerOf tx data)
    .ok (some data)

end

/-- The fields behind the two marks hold the transaction's hashes. -/
structure PrecomputedTransactionData.Computed (X : Crypto) (tx : CTransaction)
    (outputs : List CTxOut) (data : PrecomputedTransactionData) : Prop where
  spentOutputs : data.spentOutputs = outputs
  spentOutputsReady : data.spentOutputsReady = !outputs.isEmpty
  hashPrevouts : data.bip143SegwitReady = true →
    data.hashPrevouts = sha256Uint256 X (getPrevoutsSHA256 X tx)
  hashSequence : data.bip143SegwitReady = true →
    data.hashSequence = sha256Uint256 X (getSequencesSHA256 X tx)
  hashOutputs : data.bip143SegwitReady = true →
    data.hashOutputs = sha256Uint256 X (getOutputsSHA256 X tx)
  singlePrevouts : data.bip341TaprootReady = true →
    data.prevoutsSingleHash = getPrevoutsSHA256 X tx
  singleSequences : data.bip341TaprootReady = true →
    data.sequencesSingleHash = getSequencesSHA256 X tx
  singleOutputs : data.bip341TaprootReady = true →
    data.outputsSingleHash = getOutputsSHA256 X tx
  amounts : data.bip341TaprootReady = true →
    data.spentAmountsSingleHash = getSpentAmountsSHA256 X outputs
  scripts : data.bip341TaprootReady = true →
    data.spentScriptsSingleHash = getSpentScriptsSHA256 X outputs

section Init
variable {X : Crypto} {tx : CTransaction} {outputs : List CTxOut} {force : Bool}
  {data : PrecomputedTransactionData}

theorem init_computed (h : init X tx outputs force = .ok data) :
    data.Computed X tx outputs := by
  unfold init at h
  split_ifs at h
  rw [← Except.ok.inj h]
  constructor
  · rfl
  · rfl
  all_goals
    intro hready
    simp only at hready
    simp only [hready, Bool.true_or, Bool.or_true, if_true]

theorem init_forced (h : init X tx outputs true = .ok data) :
    data.bip143SegwitReady = true ∧ data.bip341TaprootReady = true := by
  unfold init at h
  split_ifs at h
  rw [← Except.ok.inj h]
  exact ⟨rfl, rfl⟩

theorem bip341Ready_of_witness {nIn : ℕ} {txin : CTxIn}
    (hinit : init X tx outputs force = .ok data)
    (hin : tx.vin[nIn]? = some txin) (hwitness : txin.scriptWitness ≠ [])
    (hspent : looksTaproot outputs nIn = true) : data.bip341TaprootReady = true := by
  have huses : usesWitness tx outputs true = true := by
    unfold usesWitness
    rw [any_eq_true]
    refine ⟨(txin, nIn), mem_zipIdx_iff_getElem?.mpr hin, ?_⟩
    simp [hwitness, hspent]
  unfold init at hinit
  split_ifs at hinit
  rw [← Except.ok.inj hinit]
  simp [huses]

end Init

section LooksTaproot
variable {outputs : List CTxOut} {nIn : ℕ} {out : CTxOut}

theorem looksTaproot_of_program {version : ℕ} {program : Bytes} (hout : outputs[nIn]? = some out)
    (hprog : CScript.isWitnessProgram out.scriptPubKey = some (version, program)) :
    looksTaproot outputs nIn = decide (version = 1 ∧ program.length = 32) := by
  obtain ⟨v, size, hscript, hversion, hv, _⟩ := isWitnessProgram_eq_some hprog
  have hop : v = op1 ↔ version = 1 := by
    rw [hversion]
    unfold CScript.decodeOpN
    split_ifs with h0
    · subst h0
      decide
    · rw [← UInt8.toNat_inj]
      have hlow : 0x51 ≤ v.toNat := by
        have hle := (hv.resolve_left h0).1
        simpa [UInt8.le_iff_toNat_le, op1] using hle
      change v.toNat = 0x51 ↔ _
      omega
  unfold looksTaproot
  rw [hout]
  simp only [hscript, length_cons, List.head?_cons, Option.some_beq_some]
  rw [Bool.eq_iff_iff]
  simp only [Bool.and_eq_true, beq_iff_eq, decide_eq_true_eq, hop]
  omega

theorem looksTaproot_of_p2sh (hout : outputs[nIn]? = some out)
    (hp2sh : CScript.isPayToScriptHash out.scriptPubKey = true) :
    looksTaproot outputs nIn = false := by
  have hlen : out.scriptPubKey.length = 23 := by
    simp only [CScript.isPayToScriptHash, Bool.and_eq_true, beq_iff_eq] at hp2sh
    exact hp2sh.1.1.1
  unfold looksTaproot
  simp [hout, hlen]

end LooksTaproot

theorem verifyScript_ready {X : Crypto} {tx : CTransaction} {outputs : List CTxOut}
    {data : PrecomputedTransactionData} {nIn : ℕ} {txin : CTxIn} {out : CTxOut}
    {c c' : SignatureChecker} {flags : Flags}
    (hinit : init X tx outputs false = .ok data)
    (hin : tx.vin[nIn]? = some txin) (hout : outputs[nIn]? = some out)
    (hbase : SignatureChecker.Agree .base c c')
    (hv0 : data.bip143SegwitReady = true → SignatureChecker.Agree .witnessV0 c c')
    (hkey : data.bip341TaprootReady = true → data.spentOutputsReady = true →
      ∀ sig program execdata, c.checkSchnorrSignature sig program .taproot execdata =
        c'.checkSchnorrSignature sig program .taproot execdata)
    (hscript : data.bip341TaprootReady = true → data.spentOutputsReady = true →
      SignatureChecker.Agree .tapscript c c')
    (hpqr : data.bip143SegwitReady = true → c.checkPQRSignature = c'.checkPQRSignature) :
    verifyScript X c flags txin.scriptSig out.scriptPubKey txin.scriptWitness =
      verifyScript X c' flags txin.scriptSig out.scriptPubKey txin.scriptWitness := by
  have hspent : data.spentOutputsReady = true := by
    rw [(init_computed hinit).spentOutputsReady]
    have hne : outputs ≠ [] := by
      rintro rfl
      simp at hout
    simp [hne]
  apply verifyScript_agree hbase
  · intro version program hprog
    have htaproot := looksTaproot_of_program hout hprog
    constructor
    · intro hne hversion
      exact hv0 (bip143Ready_of_witness hinit hin hne (by simp [htaproot, hversion]))
    · intro hne hversion hlen _ sig execdata
      have hready := bip341Ready_of_witness hinit hin hne (by simp [htaproot, hversion, hlen])
      exact hkey hready hspent sig program execdata
    · intro hne hversion hlen _
      have hready := bip341Ready_of_witness hinit hin hne (by simp [htaproot, hversion, hlen])
      exact hscript hready hspent
    · intro hne hversion _ sig pubkey
      have hother : version ≠ 1 := by omega
      have hready := bip143Ready_of_witness hinit hin hne (by simp [htaproot, hother])
      rw [hpqr hready]
  · intro hp2sh version program
    have hnot := looksTaproot_of_p2sh hout hp2sh
    constructor
    · intro hne _
      exact hv0 (bip143Ready_of_witness hinit hin hne hnot)
    -- a nested program of another version is not looked at
    all_goals
      intros
      simp_all

/-- Answers `missing` where the hashes it reads are not marked as computed. -/
def SignatureChecker.orMissing (checker : SignatureChecker) (v0Ready pqrReady schnorrReady : Bool)
    (missing : Except Failure Bool) : SignatureChecker :=
  { checker with
    checkECDSASignature := fun vchSig vchPubKey scriptCode sigversion =>
      if sigversion = .witnessV0 ∧ ¬ v0Ready then missing
      else checker.checkECDSASignature vchSig vchPubKey scriptCode sigversion
    checkSchnorrSignature := fun sig pubkey sigversion execdata =>
      if ¬ schnorrReady then missing
      else checker.checkSchnorrSignature sig pubkey sigversion execdata
    checkPQRSignature := fun sig pubkey witnessVersion program =>
      if ¬ pqrReady then missing
      else checker.checkPQRSignature sig pubkey witnessVersion program }

/-- The checkers with `missing` for missing data or a negative amount. -/
def CheckerOf.orMissing (checkerOf : CheckerOf) (needAmount : Bool)
    (missing : Except Failure Bool) : CheckerOf :=
  fun nIn amount txdata => (checkerOf nIn amount txdata).orMissing
    (txdata.bip143SegwitReady && (!needAmount || decide (0 ≤ amount.toInt)))
    txdata.bip143SegwitReady (txdata.bip341TaprootReady && txdata.spentOutputsReady) missing

section OrMissing
variable {checker : SignatureChecker} {v0Ready pqrReady schnorrReady : Bool}
  {missing : Except Failure Bool}

theorem agree_orMissing {sigversion : SigVersion} (hv0 : sigversion = .witnessV0 → v0Ready = true)
    (hscript : sigversion = .tapscript → schnorrReady = true) :
    SignatureChecker.Agree sigversion
      (checker.orMissing v0Ready pqrReady schnorrReady missing) checker where
  ecdsa vchSig vchPubKey scriptCode := by
    have hready : ¬ (sigversion = .witnessV0 ∧ ¬ v0Ready) := fun h => h.2 (hv0 h.1)
    simp only [orMissing, if_neg hready]
  schnorr h sig pubkey execdata := by
    simp [orMissing, hscript h]
  lockTime := rfl
  sequence := rfl

end OrMissing

section Forced
variable {X : Crypto} {tx : CTransaction} {outputs : List CTxOut} {nIn : ℕ} {amount : BitVec 64}
  {data forced : PrecomputedTransactionData}

variable {sigversion : SigVersion}

section
variable (hdata : data.Computed X tx outputs)
include hdata

theorem signatureHash_computed (scriptCode : CScript)
    (nHashType : BitVec 32) :
    signatureHash X tx nIn scriptCode nHashType amount sigversion (some data) =
      signatureHash X tx nIn scriptCode nHashType amount sigversion none := by
  have hhashes : bip143Hashes X tx nIn nHashType (some data) =
      bip143Hashes X tx nIn nHashType none := by
    cases hready : data.bip143SegwitReady with
    | false => simp [bip143Hashes, hready]
    | true => simp only [bip143Hashes, hready, if_true, hdata.hashPrevouts hready,
        hdata.hashSequence hready, hdata.hashOutputs hready]
  simp only [signatureHash, bip143Preimage, hhashes]

theorem checkSchnorrSignature_computed
    (hforced : forced.Computed X tx outputs) (hready : data.bip341TaprootReady = true)
    (hready' : forced.bip341TaprootReady = true) (mdb : MissingDataBehavior) :
    checkSchnorrSignature X tx mdb nIn (some data) =
      checkSchnorrSignature X tx mdb nIn (some forced) := by
  funext sig pubkey sigversion execdata
  simp only [checkSchnorrSignature, signatureHashSchnorr, schnorrMessage, schnorrInputData,
    hready, hready', hdata.spentOutputs, hdata.spentOutputsReady, hforced.spentOutputs,
    hforced.spentOutputsReady, hdata.singlePrevouts hready, hdata.singleSequences hready,
    hdata.singleOutputs hready, hdata.amounts hready, hdata.scripts hready,
    hforced.singlePrevouts hready', hforced.singleSequences hready',
    hforced.singleOutputs hready', hforced.amounts hready', hforced.scripts hready']

theorem checkPQRSignature_computed
    (hforced : forced.Computed X tx outputs) (hready : data.bip143SegwitReady = true)
    (hready' : forced.bip143SegwitReady = true) (mdb : MissingDataBehavior) :
    checkPQRSignature X tx mdb nIn amount (some data) =
      checkPQRSignature X tx mdb nIn amount (some forced) := by
  funext sig pubkey witnessVersion program
  simp only [checkPQRSignature, signatureHashPQR, pqrPreimage, hready, hready',
    hdata.hashPrevouts hready, hdata.hashSequence hready, hdata.hashOutputs hready,
    hforced.hashPrevouts hready', hforced.hashSequence hready', hforced.hashOutputs hready']

theorem agree_forced (hforced : forced.Computed X tx outputs)
    (hall : forced.bip143SegwitReady = true ∧ forced.bip341TaprootReady = true)
    (hscript : sigversion = .tapscript → data.bip341TaprootReady = true) :
    SignatureChecker.Agree sigversion (cachingSignatureChecker X tx nIn amount data)
      (cachingSignatureChecker X tx nIn amount forced) where
  ecdsa vchSig vchPubKey scriptCode := by
    simp only [cachingSignatureChecker, transactionSignatureChecker, checkECDSASignature,
      signatureHash_computed hdata, signatureHash_computed hforced]
  schnorr h sig pubkey execdata := by
    simp only [cachingSignatureChecker, transactionSignatureChecker,
      checkSchnorrSignature_computed hdata hforced (hscript h) hall.2]
  lockTime := rfl
  sequence := rfl

end

end Forced

section Run
variable {X : Crypto} {tx : CTransaction} {outputs : List CTxOut}
  {data : PrecomputedTransactionData} {check : CScriptCheck}

theorem CScriptCheck.run_orMissing
    (hinit : init X tx outputs false = .ok data)
    (hout : outputs[check.nIn]? = some check.txOut) {needAmount : Bool}
    (hamount : needAmount = true → 0 ≤ check.txOut.nValue.toInt)
    (missing : Except Failure Bool) :
    check.run X ((cachingSignatureChecker X tx).orMissing needAmount missing) tx data =
      check.run X (cachingSignatureChecker X tx) tx data := by
  unfold CScriptCheck.run inputAt
  cases hin : tx.vin[check.nIn]? with
  | none => simp only [error_bind]
  | some txin =>
    have hvalue : (!needAmount || decide (0 ≤ check.txOut.nValue.toInt)) = true := by
      cases needAmount with
      | false => rfl
      | true => simpa using hamount rfl
    simp only [ok_bind]
    apply verifyScript_ready hinit hin hout
    · exact agree_orMissing (fun h => by cases h) (fun h => by cases h)
    · intro hready
      exact agree_orMissing (fun _ => by rw [hready, hvalue]; rfl) (fun h => by cases h)
    · intro hready hspent sig program execdata
      simp [CheckerOf.orMissing, orMissing, hready, hspent]
    · intro hready hspent
      exact agree_orMissing (fun h => by cases h) (fun _ => by rw [hready, hspent]; rfl)
    · intro hready
      funext sig pubkey witnessVersion program
      simp [CheckerOf.orMissing, orMissing, hready]

theorem CScriptCheck.run_forced {forced : PrecomputedTransactionData}
    (hinit : init X tx outputs false = .ok data)
    (hforced : init X tx outputs true = .ok forced)
    (hout : outputs[check.nIn]? = some check.txOut) :
    check.run X (cachingSignatureChecker X tx) tx data =
      check.run X (cachingSignatureChecker X tx) tx forced := by
  have hdata := init_computed hinit
  have hfull := init_computed hforced
  have hall := init_forced hforced
  unfold CScriptCheck.run inputAt
  cases hin : tx.vin[check.nIn]? with
  | none => simp only [error_bind]
  | some txin =>
    simp only [ok_bind]
    apply verifyScript_ready hinit hin hout
    · exact agree_forced hdata hfull hall (fun h => by cases h)
    · exact fun _ => agree_forced hdata hfull hall (fun h => by cases h)
    · intro hready _ sig program execdata
      simp only [cachingSignatureChecker, transactionSignatureChecker,
        checkSchnorrSignature_computed hdata hfull hready hall.2]
    · intro hready _
      exact agree_forced hdata hfull hall (fun _ => hready)
    · intro hready
      simp only [cachingSignatureChecker, transactionSignatureChecker,
        checkPQRSignature_computed hdata hfull hready hall.1]

end Run

variable {tx : CTransaction} {inputs : CoinOutputs} {data : PrecomputedTransactionData}

theorem spentOutputs_eq_ok {outputs : List CTxOut} (h : spentOutputs tx inputs = .ok outputs) :
    List.Forall₂ (fun txin out => inputs txin.prevout = some out) tx.vin outputs := by
  unfold spentOutputs at h
  generalize tx.vin = vin at h
  induction vin generalizing outputs with
  | nil =>
    cases h
    exact List.Forall₂.nil
  | cons txin vin ih =>
    rw [mapM_cons, bind_eq_ok] at h
    obtain ⟨out, hout, h⟩ := h
    rw [bind_eq_ok] at h
    obtain ⟨rest, hrest, h⟩ := h
    cases h
    refine List.Forall₂.cons ?_ (ih hrest)
    cases hin : inputs txin.prevout with
    | none => simp [hin, assertFail] at hout
    | some o => simpa [hin] using hout

variable {X : Crypto} {flags : Flags} {checks : List CScriptCheck}

theorem inputScriptData_eq_ok (h : inputScriptData X tx inputs none = .ok data) :
    ∃ outputs, spentOutputs tx inputs = .ok outputs ∧
      init X tx outputs false = .ok data := bind_eq_ok.mp h

theorem mem_inputScriptChecks {check : CScriptCheck}
    (h : inputScriptChecks tx flags data = .ok checks) (hmem : check ∈ checks) :
    data.spentOutputs[check.nIn]? = some check.txOut := by
  unfold inputScriptChecks at h
  split_ifs at h
  rw [← Except.ok.inj h, mem_map] at hmem
  obtain ⟨⟨txOut, nIn⟩, hmem, rfl⟩ := hmem
  exact mem_zipIdx_iff_getElem?.mp hmem

theorem pushInputChecks_eq_ok {cached : Bool} {txdata : Option PrecomputedTransactionData}
    (hdata : ∀ data, txdata = some data → inputScriptData X tx inputs none = .ok data)
    (h : pushInputChecks X tx cached inputs flags txdata = .ok (checks, some data)) :
    ∃ outputs, spentOutputs tx inputs = .ok outputs ∧
      init X tx outputs false = .ok data ∧
      ∀ check ∈ checks, outputs[check.nIn]? = some check.txOut := by
  have hlift : ∀ {α : Type} {x : Except Failure α} {a : α}, liftFailure x = .ok a → x = .ok a := by
    intro α x a hx
    rcases x with (serror | fault) | b
    · cases hx
    · cases hx
    · exact congrArg Except.ok (Except.ok.inj hx)
  have hnone : ∀ {data}, txdata = some data → ([] : List CScriptCheck) = checks →
      ∃ outputs, spentOutputs tx inputs = .ok outputs ∧
        init X tx outputs false = .ok data ∧
        ∀ check ∈ checks, outputs[check.nIn]? = some check.txOut := by
    intro data htx hempty
    obtain ⟨outputs, houtputs, hinit⟩ := inputScriptData_eq_ok (hdata data htx)
    exact ⟨outputs, houtputs, hinit, fun check hmem => by simp [← hempty] at hmem⟩
  unfold pushInputChecks at h
  split_ifs at h with hcoinbase hcached
  · obtain ⟨hchecks, htx⟩ := Prod.mk.inj (Except.ok.inj h)
    exact hnone htx hchecks
  · obtain ⟨hchecks, htx⟩ := Prod.mk.inj (Except.ok.inj h)
    exact hnone htx hchecks
  · rw [bind_eq_ok] at h
    obtain ⟨data', hd, h⟩ := h
    rw [bind_eq_ok] at h
    obtain ⟨checks', hc, h⟩ := h
    obtain ⟨rfl, hsome⟩ := Prod.mk.inj (Except.ok.inj h)
    cases hsome
    have hmade : inputScriptData X tx inputs none = .ok data := by
      cases htx : txdata with
      | none =>
        rw [htx] at hd
        exact hlift hd
      | some d =>
        rw [htx] at hd
        have heq : d = data := Except.ok.inj (hlift hd)
        exact hdata data (heq ▸ htx)
    obtain ⟨outputs, houtputs, hinit⟩ := inputScriptData_eq_ok hmade
    refine ⟨outputs, houtputs, hinit, fun check hmem => ?_⟩
    rw [← (init_computed hinit).spentOutputs]
    exact mem_inputScriptChecks (hlift hc) hmem

private theorem forM_congr {α ε : Type} {f g : α → Except ε PUnit} {l : List α}
    (h : ∀ a ∈ l, f a = g a) : l.forM f = l.forM g := by
  induction l with
  | nil => rfl
  | cons a l ih =>
    change (f a >>= fun _ => l.forM f) = (g a >>= fun _ => l.forM g)
    rw [h a mem_cons_self, ih fun b hb => h b (mem_cons_of_mem a hb)]

/-- Whatever the witnesses, no script check of `CheckInputScripts` asks for a hash that was not
computed: the outcome is the same for every answer missing data could give, and as with every hash
computed. -/
theorem checkInputScripts_ready (X : Crypto) (tx : CTransaction) (inputs : CoinOutputs)
    (flags : Flags) (cached : Bool) (txdata : Option PrecomputedTransactionData)
    (hdata : ∀ data, txdata = some data → inputScriptData X tx inputs none = .ok data)
    (needAmount : Bool)
    (hamount : needAmount = true → ∀ txin ∈ tx.vin, ∀ out, inputs txin.prevout = some out →
      0 ≤ out.nValue.toInt)
    (missing : Except Failure Bool) :
    checkInputScripts X ((cachingSignatureChecker X tx).orMissing needAmount missing) tx cached
        inputs flags txdata =
      checkInputScripts X (cachingSignatureChecker X tx) tx cached inputs flags txdata ∧
    ∀ checks data, pushInputChecks X tx cached inputs flags txdata = .ok (checks, some data) →
      ∀ check ∈ checks,
        check.run X ((cachingSignatureChecker X tx).orMissing needAmount missing) tx data =
          check.run X (cachingSignatureChecker X tx) tx data ∧
        ∀ outputs forced, spentOutputs tx inputs = .ok outputs →
          init X tx outputs true = .ok forced →
          check.run X (cachingSignatureChecker X tx) tx data =
            check.run X (cachingSignatureChecker X tx) tx forced := by
  have hvalue : ∀ {outputs : List CTxOut} {nIn : ℕ} {out : CTxOut},
      spentOutputs tx inputs = .ok outputs → outputs[nIn]? = some out → needAmount = true →
      0 ≤ out.nValue.toInt := by
    intro outputs nIn out houtputs hout hneed
    have hall := forall₂_iff_get.mp (spentOutputs_eq_ok houtputs)
    obtain ⟨hlt, hget⟩ := List.getElem?_eq_some_iff.mp hout
    have hin := hall.2 nIn (hall.1 ▸ hlt) hlt
    simp only [get_eq_getElem, hget] at hin
    exact hamount hneed _ (getElem_mem _) out hin
  constructor
  · unfold checkInputScripts
    cases hpush : pushInputChecks X tx cached inputs flags txdata with
    | error e => simp only [error_bind]
    | ok result =>
      obtain ⟨checks, txdata'⟩ := result
      simp only [ok_bind]
      cases txdata' with
      | none => rfl
      | some data =>
        obtain ⟨outputs, houtputs, hinit, hchecks⟩ := pushInputChecks_eq_ok hdata hpush
        have hrun : ∀ check : CScriptCheck, outputs[check.nIn]? = some check.txOut →
            check.run X ((cachingSignatureChecker X tx).orMissing needAmount missing) tx data =
              check.run X (cachingSignatureChecker X tx) tx data := fun check hout =>
          CScriptCheck.run_orMissing hinit hout (hvalue houtputs hout) missing
        have hall : ∀ check ∈ checks,
            runInputCheck X ((cachingSignatureChecker X tx).orMissing needAmount missing) tx data
                check =
              runInputCheck X (cachingSignatureChecker X tx) tx data check := by
          intro check hmem
          have hout := hchecks check hmem
          have hsecond := hrun { check with
            flags := check.flags.diff standardNotMandatoryVerifyFlags } hout
          simp only [runInputCheck, hrun check hout, hsecond]
        simp only [forM_congr hall]
  · intro checks data hpush check hmem
    obtain ⟨outputs, houtputs, hinit, hchecks⟩ := pushInputChecks_eq_ok hdata hpush
    have hout := hchecks check hmem
    refine ⟨CScriptCheck.run_orMissing hinit hout (hvalue houtputs hout) missing, ?_⟩
    intro outputs' forced houtputs' hforced
    have heq : outputs = outputs' := Except.ok.inj (houtputs.symm.trans houtputs')
    subst heq
    exact CScriptCheck.run_forced hinit hforced hout

def taprootCoin : CoinOutputs := fun _ => some ⟨5, op1 :: 32 :: List.replicate 32 1, by decide⟩

/-- A taproot spend by key passes whatever missing data would answer. -/
theorem checkInputScripts_ready_keyPath :
    let X := acceptingCrypto
    let tx := pqrTx [List.replicate 64 0]
    let missing : Except Failure Bool := .error (.fault .unassigned)
    (checkInputScripts X ((cachingSignatureChecker X tx).orMissing true missing) tx false
      taprootCoin standardScriptVerifyFlags none).isOk = true := by
  intro X tx missing
  have hvalue : ∀ txin ∈ tx.vin, ∀ out, taprootCoin txin.prevout = some out →
      0 ≤ out.nValue.toInt := by
    intro txin _ out hout
    cases hout
    decide
  have hready := (checkInputScripts_ready X tx taprootCoin standardScriptVerifyFlags false none
    (fun data h => by cases h) true (fun _ => hvalue) missing).1
  rw [hready]
  decide +kernel

/-- The hashes `Init` caches change no signature hash. The legacy form writes as many bytes of the
script code as it announces just where the reader stops at the end of the script. -/
theorem signatureHash_cached_iff {X : Crypto} {tx : CTransaction} {outputs : List CTxOut}
    {force : Bool} {data : PrecomputedTransactionData} (hinit : init X tx outputs force = .ok data)
    (nIn : ℕ) (scriptCode : CScript) (nHashType : BitVec 32) (amount : BitVec 64)
    (sigversion : SigVersion) :
    signatureHash X tx nIn scriptCode nHashType amount sigversion (some data) =
      signatureHash X tx nIn scriptCode nHashType amount sigversion none ∧
    ∃ announced written, serializeScriptCode scriptCode = writeCompactSize announced ++ written ∧
      written = scriptCodePieces scriptCode scriptCode.ops ∧
      (written.length = announced ↔ ∀ i ∈ scriptCode.ops, i.ret = none → i.pc = []) := by
  refine ⟨signatureHash_computed (init_computed hinit) _ _, _, _, rfl, rfl, ?_⟩
  obtain ⟨unread, hlen, hiff⟩ := scriptCodePieces_length (le_refl scriptCode.length)
  rw [← hiff]
  omega

theorem signatureHash_cached_pqr : ∃ data,
    init acceptingCrypto (pqrTx [[1]]) [] true = .ok data ∧
      signatureHash acceptingCrypto (pqrTx [[1]]) 0 [0xab] 1 0 .witnessV0 (some data) =
        signatureHash acceptingCrypto (pqrTx [[1]]) 0 [0xab] 1 0 .witnessV0 none := by
  obtain ⟨data, hinit⟩ : ∃ data, init acceptingCrypto (pqrTx [[1]]) [] true = .ok data :=
    ⟨_, rfl⟩
  exact ⟨data, hinit, (signatureHash_cached_iff hinit 0 [0xab] 1 0 .witnessV0).1⟩

/-- A push of five bytes with one behind it: two announced, one written. -/
theorem serializeScriptCode_short :
    serializeScriptCode [0x05, 0x01] = writeCompactSize 2 ++ [0x05] := by decide

end Vexta
