import Vexta.Lib.Outcome
import Vexta.Script.Bounds

/-! `VerifyScript` accepts or names a script error; no assertion of the interpreter fails. -/
namespace Vexta
open Lib List Option ConditionStack CScript

def Failure.Reported : Failure → Prop
  | .script _ => True
  | .fault _ => False

abbrev Returns {α : Type} (Q : α → Prop) (x : Except Failure α) : Prop := Sat Failure.Reported Q x

@[simp] theorem Failure.reported_script (serror : ScriptError) : (Failure.script serror).Reported :=
  trivial

@[simp] theorem Failure.not_reported_fault (fault : Fault) : ¬ (Failure.fault fault).Reported :=
  not_false

def ScriptExecutionData.Ready (sigversion : SigVersion) (execdata : ScriptExecutionData) : Prop :=
  sigversion = .tapscript → execdata.tapleafHash.isSome ∧ execdata.codeseparatorPos.isSome ∧
    execdata.annexHash.isSome ∧ execdata.validationWeightLeft.isSome

structure SignatureChecker.Answers (c : SignatureChecker) : Prop where
  ecdsa : ∀ vchSig vchPubKey scriptCode sigversion,
    Returns (fun _ => True) (c.checkECDSASignature vchSig vchPubKey scriptCode sigversion)
  keyPath : ∀ sig pubkey execdata, pubkey.length = 32 → execdata.annexHash.isSome = true →
    Returns (fun _ => True) (c.checkSchnorrSignature sig pubkey .taproot execdata)
  scriptPath : ∀ sig pubkey execdata, pubkey.length = 32 → execdata.Ready .tapscript →
    Returns (fun _ => True) (c.checkSchnorrSignature sig pubkey .tapscript execdata)
  pqr : ∀ sig pubkey witversion program,
    Returns (fun _ => True) (c.checkPQRSignature sig pubkey witversion program)
  lockTime : ∀ nLockTime, Returns (fun _ => True) (c.checkLockTime nLockTime)
  sequence : ∀ nSequence, Returns (fun _ => True) (c.checkSequence nSequence)

section Checker
variable {X : Crypto} {txTo : CTransaction} {nIn : ℕ} {amount : BitVec 64}
  {txdata : Option PrecomputedTransactionData}

/-- The data lists the output that the input spends, if any. -/
def PrecomputedTransactionData.Covers (txdata : PrecomputedTransactionData) (nIn : ℕ) : Prop :=
  txdata.spentOutputsReady = true → nIn < txdata.spentOutputs.length

@[simp] theorem handleMissingData_fail : handleMissingData .fail = .ok false := rfl

theorem assertInput_eq (h : nIn < txTo.vin.length) :
    assertInput txTo nIn = .ok (txTo.vin.get ⟨nIn, h⟩) := by
  simp [assertInput, h]

theorem inputAt_eq (h : nIn < txTo.vin.length) :
    inputAt txTo nIn = .ok (txTo.vin.get ⟨nIn, h⟩) := by
  simp [inputAt, h]

variable {sigversion : SigVersion} {execdata : ScriptExecutionData}

section
variable (hin : nIn < txTo.vin.length)
include hin

theorem schnorrMessage_returns
    (hversion : sigversion = .taproot ∨ sigversion = .tapscript)
    (hannex : execdata.annexHash.isSome = true) (hready : execdata.Ready sigversion)
    {cache : PrecomputedTransactionData} (hcache : cache.Covers nIn) (hashType : UInt8) :
    Returns (fun _ => True)
      (schnorrMessage X txTo nIn execdata hashType sigversion cache .fail) := by
  have hflag : ∃ flag, schnorrExtFlag sigversion = .ok flag := by
    rcases hversion with rfl | rfl <;> exact ⟨_, rfl⟩
  obtain ⟨flag, hflag⟩ := hflag
  obtain ⟨annex, hannex⟩ := isSome_iff_exists.mp hannex
  have hext : ∃ extension, tapscriptData sigversion execdata = .ok extension := by
    unfold tapscriptData
    split_ifs with htap
    · obtain ⟨hleaf, hpos, -⟩ := hready htap
      obtain ⟨leaf, hleaf⟩ := isSome_iff_exists.mp hleaf
      obtain ⟨pos, hpos⟩ := isSome_iff_exists.mp hpos
      rw [hleaf, hpos]
      exact ⟨_, rfl⟩
    · exact ⟨_, rfl⟩
  obtain ⟨extension, hext⟩ := hext
  unfold schnorrMessage
  rw [hflag, assertInput_eq hin, hannex, ok_bind, ok_bind]
  by_cases hdata : cache.bip341TaprootReady = true ∧ cache.spentOutputsReady = true
  · have hinput : ∃ input, schnorrInputData nIn (txTo.vin.get ⟨nIn, hin⟩)
        (decide (hashType &&& 0x80 = 0x80)) cache = .ok input := by
      unfold schnorrInputData
      split_ifs
      · rw [List.getElem?_eq_getElem (hcache hdata.2)]
        exact ⟨_, rfl⟩
      · exact ⟨_, rfl⟩
    obtain ⟨input, hinput⟩ := hinput
    rw [if_neg (not_not.mpr hdata)]
    simp only [hinput, hext, ok_bind]
    split
    · simp
    · split <;> simp
  · rw [if_pos hdata]
    simp

theorem checkSchnorrSignature_returns
    (hdata : ∀ cache, txdata = some cache → cache.Covers nIn) {sig pubkey : Bytes}
    (hlen : pubkey.length = 32) (hversion : sigversion = .taproot ∨ sigversion = .tapscript)
    (hannex : execdata.annexHash.isSome = true) (hready : execdata.Ready sigversion) :
    Returns (fun _ => True)
      (checkSchnorrSignature X txTo .fail nIn txdata sig pubkey sigversion execdata) := by
  unfold checkSchnorrSignature
  rw [if_neg (not_not.mpr hversion), if_neg (not_not.mpr hlen)]
  by_cases hsize : sig.length ≠ 64 ∧ sig.length ≠ 65
  · rw [if_pos hsize]
    simp
  rw [if_neg hsize]
  dsimp only
  generalize (if sig.length = 65 then sig.getLastD 0 else 0 : UInt8) = hashtype
  split
  · simp
  cases txdata with
  | none => simp
  | some cache =>
    have hmessage := schnorrMessage_returns (X := X) hin hversion hannex hready (hdata cache rfl)
    refine .bind (.map (P := fun _ => True) (hmessage _) fun _ _ => trivial) ?_
    intro sighash _
    cases sighash with
    | none => simp
    | some sighash =>
      dsimp only
      split <;> simp

theorem checkLockTime_returns (nLockTime : ℤ) :
    Returns (fun _ => True) (checkLockTime txTo nIn nLockTime) := by
  simp only [checkLockTime, inputAt_eq hin, ok_bind, apply_ite (Returns _), Sat.ok_iff,
    ite_self]

theorem checkSequence_returns (nSequence : ℤ) :
    Returns (fun _ => True) (checkSequence txTo nIn nSequence) := by
  simp only [checkSequence, inputAt_eq hin, ok_bind, apply_ite (Returns _), Sat.ok_iff,
    ite_self]

theorem transactionSignatureChecker_answers
    (hdata : ∀ cache, txdata = some cache → cache.Covers nIn) :
    (transactionSignatureChecker X txTo .fail nIn amount txdata).Answers where
  ecdsa vchSig vchPubKey scriptCode sigversion := by
    change Returns _ (checkECDSASignature X txTo .fail nIn amount txdata vchSig vchPubKey scriptCode
      sigversion)
    unfold checkECDSASignature signatureHash
    rw [assertInput_eq hin]
    split
    · simp
    · cases vchSig.getLast? with
      | none => simp
      | some back =>
        simp only [ok_bind]
        split_ifs <;> simp
  keyPath sig pubkey execdata hlen hannex :=
    checkSchnorrSignature_returns hin hdata hlen (.inl rfl) hannex fun h => by cases h
  scriptPath sig pubkey execdata hlen hready :=
    checkSchnorrSignature_returns hin hdata hlen (.inr rfl) (hready rfl).2.2.1 hready
  pqr sig pubkey witversion program := by
    change Returns _ (checkPQRSignature X txTo .fail nIn amount txdata sig pubkey witversion program)
    unfold checkPQRSignature signatureHashPQR
    cases txdata with
    | none => simp
    | some cache =>
      simp only [assertInput_eq hin, ok_bind]
      split_ifs <;> first | (simp; done) | (exfalso; omega)
  lockTime nLockTime := by
    simpa only [transactionSignatureChecker] using checkLockTime_returns hin nLockTime
  sequence nSequence := by
    simpa only [transactionSignatureChecker] using checkSequence_returns hin nSequence

end

end Checker

/-- The checker answers scripts of the version on data with `P`, which they keep. -/
structure SignatureChecker.Serves (c : SignatureChecker) (sigversion : SigVersion)
    (P : ScriptExecutionData → Prop) : Prop where
  ecdsa : ∀ vchSig vchPubKey scriptCode,
    Returns (fun _ => True) (c.checkECDSASignature vchSig vchPubKey scriptCode sigversion)
  schnorr : sigversion = .tapscript → ∀ sig pubkey execdata, pubkey.length = 32 → P execdata →
    Returns (fun _ => True) (c.checkSchnorrSignature sig pubkey .tapscript execdata)
  lockTime : ∀ nLockTime, Returns (fun _ => True) (c.checkLockTime nLockTime)
  sequence : ∀ nSequence, Returns (fun _ => True) (c.checkSequence nSequence)
  weight : sigversion = .tapscript → ∀ execdata, P execdata →
    execdata.validationWeightLeft.isSome = true
  charged : ∀ execdata left, P execdata → P { execdata with validationWeightLeft := some left }
  separated : ∀ execdata pos, P execdata → P { execdata with codeseparatorPos := some pos }

theorem SignatureChecker.Answers.serves {c : SignatureChecker} (hc : c.Answers)
    (sigversion : SigVersion) : c.Serves sigversion (·.Ready sigversion) where
  ecdsa vchSig vchPubKey scriptCode := hc.ecdsa vchSig vchPubKey scriptCode sigversion
  schnorr htap sig pubkey execdata hlen hready :=
    hc.scriptPath sig pubkey execdata hlen (htap ▸ hready)
  lockTime := hc.lockTime
  sequence := hc.sequence
  weight htap _ hready := (hready htap).2.2.2
  charged _ _ hready htap :=
    ⟨(hready htap).1, (hready htap).2.1, (hready htap).2.2.1, rfl⟩
  separated _ _ hready htap :=
    ⟨(hready htap).1, rfl, (hready htap).2.2.1, (hready htap).2.2.2⟩

section Interpreter
variable {X : Crypto} {c : SignatureChecker} {flags : Flags} {sigversion : SigVersion}
  {P : ScriptExecutionData → Prop}

theorem checkSignatureEncoding_returns (vchSig : Bytes) :
    Returns (fun _ => True) (checkSignatureEncoding X vchSig flags) := by
  unfold checkSignatureEncoding isLowDERSignature
  split
  · simp
  · split
    · simp
    · refine .bind (Q := fun _ => True) ?_ fun _ _ => ?_
      · split_ifs <;> simp
      · split <;> simp

theorem checkPubKeyEncoding_returns (vchPubKey : Bytes) :
    Returns (fun _ => True) (checkPubKeyEncoding vchPubKey flags sigversion) := by
  unfold checkPubKeyEncoding
  split_ifs <;> simp

theorem dropSignature_returns (scriptCode : CScript) (vchSig : Bytes) :
    Returns (fun _ => True) (dropSignature flags sigversion scriptCode vchSig) := by
  unfold dropSignature
  dsimp only
  split_ifs <;> simp

theorem pushResult_returns {stack m : List Bytes} {vch : Bytes} (hvch : vch.length ≤ 32)
    (hstack : FromOrShort stack m) (verify : Bool) (serror : ScriptError) :
    Returns (FromOrShort · m) (pushResult stack vch verify serror) := by
  unfold pushResult
  split_ifs
  · exact Sat.ok_iff.mpr hstack
  · simp
  · exact Sat.ok_iff.mpr (hstack.push hvch)

theorem natAbs_setVch_lt (vch : Bytes) : (setVch vch).natAbs < 256 ^ vch.length := by
  have hlt : ofLe vch < 256 ^ vch.length := ofLe_lt vch
  unfold setVch
  cases vch.getLast? with
  | none => simp
  | some back =>
    dsimp only
    split_ifs
    · have hmod := Nat.mod_le (ofLe vch) (2 ^ (8 * vch.length - 1))
      omega
    · omega

theorem readNum_returns (vch : Bytes) (fRequireMinimal : Bool) (nMaxNumSize : ℕ) :
    Returns (fun value => value = setVch vch ∧ value.natAbs < 256 ^ nMaxNumSize)
      (readNum vch fRequireMinimal nMaxNumSize) := by
  unfold readNum
  split_ifs with hsize
  · simp
  · simp
  · refine Sat.ok_iff.mpr ⟨rfl, ?_⟩
    calc (setVch vch).natAbs < 256 ^ vch.length := natAbs_setVch_lt vch
      _ ≤ 256 ^ nMaxNumSize := Nat.pow_le_pow_right (by norm_num) (by omega)

theorem storeNum_returns {value : ℤ} (h : value.natAbs < 2 ^ 63) :
    Returns (fun _ => True) (storeNum value) := by
  have hrange : -2 ^ 64 ≤ 2 * value ∧ 2 * value < 2 ^ 64 := by omega
  have hstore : trap.signed 64 value = .ok value := if_pos hrange
  simp [storeNum, hstore, liftFault]

theorem evalUnary_returns (op : UnaryOp) {bn : ℤ} (h : bn.natAbs < 256 ^ 4) :
    Returns (fun _ => True) (evalUnary op bn) := by
  have hassert : ∀ value : ℤ, value.natAbs < 2 ^ 63 → Returns (fun _ => True) (assertNum value) := by
    intro value hvalue
    unfold assertNum
    rw [if_pos (by omega)]
    simp
  cases op with
  | add1 => exact hassert _ (by omega)
  | sub1 => exact hassert _ (by omega)
  | negate => exact hassert _ (by omega)
  | abs =>
    simp only [evalUnary]
    split_ifs
    · exact hassert _ (by omega)
    · simp
  | not => simp [evalUnary]
  | notEqual0 => simp [evalUnary]

theorem evalBinary_returns (op : BinaryOp) {bn1 bn2 : ℤ} (h1 : bn1.natAbs < 256 ^ 4)
    (h2 : bn2.natAbs < 256 ^ 4) : Returns (fun _ => True) (evalBinary op bn1 bn2) := by
  cases op with
  | add => exact storeNum_returns (by omega)
  | sub => exact storeNum_returns (by omega)
  | _ => simp [evalBinary]

theorem evalStack_returns (op : StackOp) (stack altstack : List Bytes) :
    Returns (fun r => FromOrShort (r.1 ++ r.2) (stack ++ altstack)) (evalStack op stack altstack) := by
  refine ⟨fun r h => evalStack_fromOrShort h, fun e h => ?_⟩
  unfold evalStack at h
  split at h <;> cases h
  · exact trivial
  · exact trivial

def SigVersion.RunsScripts (sigversion : SigVersion) : Prop :=
  sigversion = .base ∨ sigversion = .witnessV0 ∨ sigversion = .tapscript

variable {execdata : ScriptExecutionData} {st : ExecState}

theorem evalChecksig_returns (hc : c.Serves sigversion P) (hversion : sigversion.RunsScripts)
    (sig pubkey : Bytes) (codehash : CScript) (hready : P execdata) :
    Returns (fun r => P r.2)
      (evalChecksig X c flags sigversion sig pubkey codehash execdata) := by
  have hpre : Returns (fun _ => True)
      (evalChecksigPreTapscript X c flags sigversion sig pubkey codehash) := by
    unfold evalChecksigPreTapscript
    refine .bind (dropSignature_returns _ _) fun scriptCode _ => ?_
    refine .bind (checkSignatureEncoding_returns _) fun _ _ => ?_
    refine .bind (checkPubKeyEncoding_returns _) fun _ _ => ?_
    refine .bind (hc.ecdsa _ _ _) fun fSuccess _ => ?_
    split <;> simp
  rcases hversion with rfl | rfl | rfl
  · exact Sat.bind hpre fun success _ => Sat.ok_iff.mpr hready
  · exact Sat.bind hpre fun success _ => Sat.ok_iff.mpr hready
  · have hcharge : Returns P (chargeWeight execdata !sig.isEmpty) := by
      obtain ⟨left, hleft⟩ := isSome_iff_exists.mp (hc.weight rfl execdata hready)
      unfold chargeWeight
      rw [hleft]
      dsimp only
      split_ifs
      · simp
      · exact Sat.ok_iff.mpr (hc.charged execdata _ hready)
      · exact Sat.ok_iff.mpr hready
    unfold evalChecksig evalChecksigTapscript
    refine .bind hcharge fun execdata hready => ?_
    by_cases hlen : pubkey.length = 32
    · rw [if_neg (by omega), if_pos hlen]
      split
      · refine .bind (hc.schnorr rfl _ _ _ hlen hready) fun valid _ => ?_
        split
        · exact Sat.ok_iff.mpr hready
        · simp
      · exact Sat.ok_iff.mpr hready
    · rw [if_neg hlen]
      split_ifs
      · simp
      · simp
      · exact Sat.ok_iff.mpr hready

theorem matchSignatures_returns (hc : c.Serves sigversion P) (scriptCode : CScript) (sigs keys : List Bytes) :
    Returns (fun _ => True) (matchSignatures X c flags sigversion scriptCode sigs keys) := by
  induction keys generalizing sigs with
  | nil => cases sigs <;> simp [matchSignatures]
  | cons vchPubKey keys ih =>
    cases sigs with
    | nil => simp [matchSignatures]
    | cons vchSig sigs =>
      unfold matchSignatures
      refine .bind (checkSignatureEncoding_returns _) fun _ _ => ?_
      refine .bind (checkPubKeyEncoding_returns _) fun _ _ => ?_
      refine .bind (hc.ecdsa _ _ _) fun fOk _ => ?_
      dsimp only
      generalize (if fOk then sigs else vchSig :: sigs) = left
      split
      · simp
      · exact ih left

theorem cleanUpArguments_returns (requireNull : Bool) (i ikey2 : ℕ) (stack : List Bytes) :
    Returns (· ⊆ stack) (cleanUpArguments requireNull i ikey2 stack) := by
  induction i generalizing ikey2 stack with
  | zero => exact Sat.ok_iff.mpr (.refl _)
  | succ i ih =>
    cases stack with
    | nil => simp [cleanUpArguments]
    | cons top stack =>
      unfold cleanUpArguments
      split
      · simp
      · exact (ih _ _).mono fun _ h => subset_cons_of_subset top h

abbrev Continues (P : ScriptExecutionData → Prop) (op : Op) (st : ExecState)
    (x : Except Failure ExecState) : Prop :=
  Returns (fun st' => st.Kept op st' ∧ P st'.execdata) x

theorem length_vchBool_le_max (b : Bool) : (vchBool b).length ≤ 32 :=
  (length_vchBool_le b).trans (by decide)

theorem evalCheckMultiSig_returns (hc : c.Serves sigversion P) (verify : Bool)
    (hready : P st.execdata) :
    Continues P (.checkMultiSig verify) st (evalCheckMultiSig X c flags sigversion verify st) := by
  unfold evalCheckMultiSig
  dsimp only
  split
  · simp
  cases hstack : st.stack with
  | nil => simp
  | cons keysCount args =>
    refine .bind (readNum_returns _ _ _) fun nKeysCount hcount => ?_
    split
    · simp
    split
    · simp
    rename_i hops
    cases args.drop (getInt nKeysCount).toNat with
    | nil => simp
    | cons sigsCount rest =>
      refine .bind (readNum_returns _ _ _) fun nSigsCount _ => ?_
      split
      · simp
      split
      · simp
      have hdrop : ∀ (sigs : List Bytes), Returns (fun _ => True)
          (sigs.foldlM (dropSignature flags sigversion) st.codehash) := fun sigs =>
        Sat.foldlM (fun scriptCode vchSig _ _ => dropSignature_returns scriptCode vchSig) trivial
      refine .bind (hdrop _) fun scriptCode _ => ?_
      refine .bind (matchSignatures_returns hc _ _ _) fun fSuccess _ => ?_
      refine .bind (cleanUpArguments_returns _ _ _ _) fun stack hclean => ?_
      cases stack with
      | nil => simp
      | cons dummy stack =>
        dsimp only
        split
        · simp
        have hsub : FromOrShort stack st.stack := by
          rw [hstack]
          exact .of_subset (subset_of_cons_subset hclean)
        have hkeys : (Op.checkMultiSig verify).keys st.stack = (getInt nKeysCount).toNat := by
          rw [hstack, hcount.1]
          rfl
        refine .bind (pushResult_returns (length_vchBool_le_max fSuccess) hsub _ _)
          fun stack' hpush => Sat.ok_iff.mpr ⟨?_, hready⟩
        constructor
        · exact fun vch hvch => (hpush vch hvch).imp_left (mem_append_left _)
        · exact .of_subset (subset_append_right _ _)
        · rw [hkeys]
        · exact fun _ => Nat.not_lt.mp hops

theorem evalOp_returns (hc : c.Serves sigversion P) (hversion : sigversion.RunsScripts)
    (fExec : Bool) (pc : CScript) (op : Op) (hready : P st.execdata) :
    Continues P op st (evalOp X c flags sigversion fExec pc op st) := by
  have hnum := fun vch req n => readNum_returns vch req n
  have hshort : ∀ value, (scriptNumSerialize value).length ≤ 32 := fun value =>
    (length_scriptNumSerialize_le value).trans (by decide)
  have hbelow : ∀ (above : List Bytes) {stack}, st.stack = above ++ stack →
      FromOrShort stack st.stack := fun above _ hstack => hstack ▸ .below above
  cases op with
  | pushData => simp [evalOp]
  | number n => exact Sat.ok_iff.mpr ⟨.of_stack rfl (.push (hshort n) (hbelow [] rfl)), hready⟩
  | nop => exact Sat.ok_iff.mpr ⟨.same rfl, hready⟩
  | checkLockTimeVerify =>
    simp only [evalOp, evalCheckLockTimeVerify]
    split
    · exact Sat.ok_iff.mpr ⟨.same rfl, hready⟩
    split
    · simp
    refine .bind (hnum _ _ _) fun nLockTime _ => ?_
    split
    · simp
    refine .bind (hc.lockTime nLockTime) fun satisfied _ => ?_
    split
    · exact Sat.ok_iff.mpr ⟨.same rfl, hready⟩
    · simp
  | checkSequenceVerify =>
    simp only [evalOp, evalCheckSequenceVerify]
    split
    · exact Sat.ok_iff.mpr ⟨.same rfl, hready⟩
    split
    · simp
    refine .bind (hnum _ _ _) fun nSequence _ => ?_
    split
    · simp
    split
    · exact Sat.ok_iff.mpr ⟨.same rfl, hready⟩
    refine .bind (hc.sequence nSequence) fun satisfied _ => ?_
    split
    · exact Sat.ok_iff.mpr ⟨.same rfl, hready⟩
    · simp
  | upgradableNop =>
    simp only [evalOp]
    split
    · simp
    · exact Sat.ok_iff.mpr ⟨.same rfl, hready⟩
  | cond notIf =>
    simp only [evalOp, evalCond]
    split
    · cases hstack : st.stack with
      | nil => simp
      | cons vch stack =>
        dsimp only
        split_ifs
        · simp
        · simp
        · exact Sat.ok_iff.mpr ⟨.of_stack rfl (hbelow [vch] hstack), hready⟩
    · exact Sat.ok_iff.mpr ⟨.same rfl, hready⟩
  | «else» =>
    simp only [evalOp, empty, toggleTop]
    by_cases hsize : st.vfExec.stackSize = 0
    · simp [hsize]
    · simp only [hsize, beq_iff_eq, if_false]
      refine Sat.bind (Q := fun _ => True) ?_ fun _ _ => Sat.ok_iff.mpr ⟨.same rfl, hready⟩
      split_ifs <;> simp
  | endIf =>
    simp only [evalOp, empty, popBack]
    by_cases hsize : st.vfExec.stackSize = 0
    · simp [hsize]
    · simp only [hsize, beq_iff_eq, if_false]
      exact Sat.ok_iff.mpr ⟨.same rfl, hready⟩
  | verify =>
    simp only [evalOp]
    cases hstack : st.stack with
    | nil => simp
    | cons top stack =>
      dsimp only
      split
      · exact Sat.ok_iff.mpr ⟨.of_stack rfl (hbelow [top] hstack), hready⟩
      · simp
  | ret => simp [evalOp]
  | stack op =>
    refine .bind (evalStack_returns op st.stack st.altstack) fun result hfrom =>
      Sat.ok_iff.mpr ⟨?_, hready⟩
    constructor
    · exact fun vch hvch => hfrom vch (mem_append_left _ hvch)
    · exact fun vch hvch => hfrom vch (mem_append_right _ hvch)
    · rfl
    · exact id
  | pick roll =>
    simp only [evalOp, evalPick]
    split
    · rename_i top x stack hstack
      refine .bind (hnum _ _ _) fun n _ => ?_
      split
      · simp
      cases hget : (x :: stack)[(getInt n).toNat]? with
      | none => simp
      | some vch =>
        refine Sat.ok_iff.mpr ⟨.of_stack rfl fun v hv => .inl ?_, hready⟩
        rw [hstack]
        apply mem_cons_of_mem
        rcases mem_cons.mp hv with rfl | hv
        · exact mem_of_getElem? hget
        · split_ifs at hv
          · exact mem_of_mem_eraseIdx hv
          · exact hv
    · simp
  | equal verify =>
    simp only [evalOp]
    split
    · rename_i x2 x1 stack hstack
      refine .bind (pushResult_returns (length_vchBool_le_max _) (hbelow [x2, x1] hstack) _ _)
        fun _ hpush => Sat.ok_iff.mpr ⟨.of_stack rfl hpush, hready⟩
    · simp
  | unary op =>
    simp only [evalOp, evalNumeric1]
    cases hstack : st.stack with
    | nil => simp
    | cons top stack =>
      refine .bind (hnum _ _ _) fun bn hbn => ?_
      refine .bind (evalUnary_returns op hbn.2) fun bn' _ => ?_
      exact Sat.ok_iff.mpr ⟨.of_stack rfl (.push (hshort _) (hbelow [top] hstack)), hready⟩
  | binary op =>
    simp only [evalOp, evalNumeric2]
    split
    · rename_i x2 x1 stack hstack
      refine .bind (hnum _ _ _) fun bn1 hbn1 => ?_
      refine .bind (hnum _ _ _) fun bn2 hbn2 => ?_
      refine .bind (evalBinary_returns op hbn1.2 hbn2.2) fun bn _ => ?_
      refine .bind (pushResult_returns (hshort _) (hbelow [x2, x1] hstack) _ _)
        fun _ hpush => Sat.ok_iff.mpr ⟨.of_stack rfl hpush, hready⟩
    · simp
  | within =>
    simp only [evalOp, evalWithin]
    split
    · rename_i x3 x2 x1 stack hstack
      refine .bind (hnum _ _ _) fun bn1 _ => ?_
      refine .bind (hnum _ _ _) fun bn2 _ => ?_
      refine .bind (hnum _ _ _) fun bn3 _ => ?_
      exact Sat.ok_iff.mpr
        ⟨.of_stack rfl (.push (length_vchBool_le_max _) (hbelow [x3, x2, x1] hstack)), hready⟩
    · simp
  | hash op =>
    simp only [evalOp]
    cases hstack : st.stack with
    | nil => simp
    | cons vch stack =>
      exact Sat.ok_iff.mpr
        ⟨.of_stack rfl (.push (length_evalHash_le X op vch) (hbelow [vch] hstack)), hready⟩
  | codeSeparator => exact Sat.ok_iff.mpr ⟨.same rfl, hc.separated _ _ hready⟩
  | checkSig verify =>
    simp only [evalOp, evalCheckSig]
    split
    · rename_i vchPubKey vchSig stack hstack
      refine .bind (evalChecksig_returns hc hversion _ _ _ hready) fun r hr => ?_
      refine .bind (pushResult_returns (length_vchBool_le_max _)
        (hbelow [vchPubKey, vchSig] hstack) _ _)
        fun _ hpush => Sat.ok_iff.mpr ⟨.of_stack rfl hpush, hr⟩
    · simp
  | checkSigAdd =>
    simp only [evalOp, evalCheckSigAdd]
    split
    · simp
    split
    · rename_i pubkey vchNum sig stack hstack
      refine .bind (hnum _ _ _) fun num hbound => ?_
      refine .bind (evalChecksig_returns hc hversion _ _ _ hready) fun r hr => ?_
      have hsum : (num + boolNum r.1).natAbs < 2 ^ 63 := by
        unfold boolNum
        split_ifs <;> omega
      refine .bind (storeNum_returns hsum) fun sum _ => ?_
      exact Sat.ok_iff.mpr
        ⟨.of_stack rfl (.push (hshort _) (hbelow [pubkey, vchNum, sig] hstack)), hr⟩
    · simp
  | checkMultiSig verify => exact evalCheckMultiSig_returns hc verify hready
  | disabled => simp [evalOp]
  | default => simp [evalOp]

structure ExecState.Moved (fExec : Bool) (opcode : UInt8) (vchPushValue : Bytes)
    (st st' : ExecState) : Prop where
  elements : ∀ vch ∈ st'.stack ++ st'.altstack,
    vch ∈ st.stack ++ st.altstack ∨ vch = vchPushValue ∨ vch.length ≤ 32
  nOpCount : st'.nOpCount = st.nOpCount + if fExec then (Op.ofByte opcode).keys st.stack else 0
  limit : st.nOpCount ≤ maxOpsPerScript → st'.nOpCount ≤ maxOpsPerScript

theorem evalInstruction_returns (hc : c.Serves sigversion P) (hversion : sigversion.RunsScripts)
    (fExec : Bool) (opcode : UInt8) (vchPushValue : Bytes) (pc : CScript)
    (hready : P st.execdata) :
    Returns (fun st' => st.Moved fExec opcode vchPushValue st' ∧ P st'.execdata)
      (evalInstruction X c flags sigversion fExec opcode vchPushValue pc st) := by
  unfold evalInstruction
  by_cases hpush : fExec = true ∧ opcode ≤ opPushData4
  · have hop : Op.ofByte opcode = .pushData := if_pos hpush.2
    rw [if_pos hpush]
    split
    · simp
    refine Sat.ok_iff.mpr ⟨⟨fun vch hvch => ?_, ?_, id⟩, hready⟩
    · rcases mem_cons.mp hvch with rfl | hold
      · exact .inr (.inl rfl)
      · exact .inl hold
    · rw [hop]
      split_ifs <;> rfl
  rw [if_neg hpush]
  by_cases hrun : fExec = true ∨ (0x63 ≤ opcode ∧ opcode ≤ 0x68)
  · rw [if_pos hrun]
    refine (evalOp_returns hc hversion _ _ _ hready).mono fun st' hst' => ⟨?_, hst'.2⟩
    have hkept := hst'.1
    refine ⟨fun vch hvch => ?_, ?_, hkept.limit⟩
    · have hfrom : vch ∈ st.stack ++ st.altstack ∨ vch.length ≤ 32 := by
        rcases mem_append.mp hvch with hvch | hvch
        · exact hkept.stack vch hvch
        · exact hkept.altstack vch hvch
      exact hfrom.imp_right .inr
    · rw [hkept.nOpCount]
      rcases hrun with hexec | hcond
      · rw [if_pos hexec]
      · rw [keys_conditional hcond, ite_self]
  · rw [if_neg hrun]
    have hno : ¬ fExec = true := fun hexec => hrun (.inl hexec)
    refine Sat.ok_iff.mpr ⟨⟨fun vch hvch => .inl hvch, ?_, id⟩, hready⟩
    rw [if_neg hno, Nat.add_zero]

theorem evalStep_returns (hc : c.Serves sigversion P) (hversion : sigversion.RunsScripts)
    (hready : P st.execdata) (i : GetOp) :
    Returns (fun st' => (∀ cost, st.Bounded cost → st'.Bounded (cost + opCost sigversion st i)) ∧
      P st'.execdata) (evalStep X c flags sigversion st i) := by
  unfold evalStep opCost
  cases i.ret with
  | none => simp
  | some read =>
    obtain ⟨opcode, vchPushValue⟩ := read
    dsimp only
    generalize hcounted : decide ((sigversion = .base ∨ sigversion = .witnessV0) ∧
      op16 < opcode) = counted
    have hcount : (if (sigversion = .base ∨ sigversion = .witnessV0) ∧ op16 < opcode then 1
        else 0) = if counted = true then 1 else 0 := by
      rw [← hcounted]
      simp only [decide_eq_true_eq]
    have hadd : (if counted = true then st.nOpCount + 1 else st.nOpCount) =
        st.nOpCount + if counted = true then 1 else 0 := by
      split_ifs <;> rfl
    rw [hadd, hcount]
    generalize hone : (if counted = true then 1 else 0) = one
    refine .guard trivial fun hsize => .guard trivial fun hops => ?_
    refine .guard trivial fun _ => .guard trivial fun _ => ?_
    refine .bind (evalInstruction_returns hc hversion _ _ _ _ hready) fun st' hst' => ?_
    refine Sat.guard trivial fun hfull => Sat.ok_iff.mpr ⟨fun cost hst => ?_, hst'.2⟩
    have hmoved := hst'.1
    have hlimit : st.nOpCount + one ≤ maxOpsPerScript := by
      by_cases hc : counted = true
      · exact Nat.not_lt.mp fun hgt => hops ⟨hc, hgt⟩
      · rw [if_neg hc] at hone
        rw [← hone, hst.nOpCount]
        exact hst.limit
    have hcost : cost + (one +
        if st.vfExec.allTrue = true then (Op.ofByte opcode).keys st.stack else 0) =
          st'.nOpCount := by
      rw [hmoved.nOpCount, ← hst.nOpCount, ← Nat.add_assoc]
    constructor
    · exact Nat.not_lt.mp hfull
    · intro vch hvch
      rcases hmoved.elements vch hvch with hold | rfl | hshort
      · exact hst.elements vch hold
      · exact Nat.not_lt.mp hsize
      · exact hshort.trans (by decide)
    · exact hcost.symm
    · rw [hcost]
      exact hmoved.limit hlimit

def ScriptExecutionData.Loaded (sigversion : SigVersion) (execdata : ScriptExecutionData) : Prop :=
  sigversion = .tapscript → execdata.tapleafHash.isSome ∧ execdata.annexHash.isSome ∧
    execdata.validationWeightLeft.isSome

theorem evalScript_serves (hc : c.Serves sigversion P) (hversion : sigversion.RunsScripts)
    {stack : List Bytes} {script : CScript}
    (hinit : P (ExecState.init stack script execdata).execdata) :
    Returns (fun _ => True) (evalScript X c flags sigversion stack script execdata) := by
  have hversion' : sigversion = .base ∨ sigversion = .witnessV0 ∨ sigversion = .tapscript := hversion
  unfold evalScript
  rw [if_neg (not_not.mpr hversion')]
  split
  · simp
  refine .bind (.foldlM (I := fun st => P st.execdata) (fun st i _ hst =>
    (evalStep_returns hc hversion hst i).mono fun _ h => h.2) hinit) ?_
  intro st _
  split <;> simp

theorem evalScript_returns (hc : c.Answers) (hversion : sigversion.RunsScripts) (stack : List Bytes)
    (script : CScript) (hloaded : execdata.Loaded sigversion) :
    Returns (fun _ => True) (evalScript X c flags sigversion stack script execdata) := by
  refine evalScript_serves (hc.serves sigversion) hversion fun htap => ?_
  obtain ⟨hleaf, hannex, hweight⟩ := hloaded htap
  exact ⟨hleaf, rfl, hannex, hweight⟩

theorem executeWitnessScript_returns (hc : c.Answers) (hversion : sigversion.RunsScripts)
    (stack : List Bytes) (script : CScript) (hloaded : execdata.Loaded sigversion) :
    Returns (fun _ => True)
      (executeWitnessScript X c flags stack script sigversion execdata) := by
  have hfind : ∀ ops : List GetOp, Returns (fun _ => True) (findOpSuccess ops) := by
    intro ops
    induction ops with
    | nil => simp [findOpSuccess]
    | cons i ops ih =>
      unfold findOpSuccess
      split
      · simp
      · split
        · simp
        · exact ih
  have hrun : Returns (fun _ => True)
      (runWitnessScript X c flags stack script sigversion execdata) := by
    unfold runWitnessScript
    split
    · simp
    refine .bind (evalScript_returns hc hversion stack script hloaded) fun stack _ => ?_
    split
    · split <;> simp
    · simp
  unfold executeWitnessScript
  split
  · refine .bind (hfind _) fun success _ => ?_
    split_ifs
    · simp
    · simp
    · simp
    · exact hrun
  · exact hrun

end Interpreter

section Verify
variable {X : Crypto} {c : SignatureChecker} {flags : Flags}

variable {stack : List Bytes}

theorem verifyTaprootSpend_returns (hc : c.Answers) (witness : List Bytes) (hstack : stack ≠ [])
    {program : Bytes} (hlen : program.length = 32) {execdata : ScriptExecutionData}
    (hannex : execdata.annexHash.isSome = true) :
    Returns (fun _ => True)
      (verifyTaprootSpend X c flags witness stack program execdata) := by
  match stack with
  | [] => exact absurd rfl hstack
  | [sig] =>
    refine .bind (hc.keyPath sig program execdata hlen hannex) fun valid _ => ?_
    split <;> simp
  | control :: script :: stack =>
    simp only [verifyTaprootSpend]
    split
    · simp
    split
    · simp
    split
    · exact executeWitnessScript_returns hc (.inr (.inr rfl)) _ _ fun _ => ⟨rfl, hannex, rfl⟩
    split <;> simp

theorem popAnnex_spec (h : stack ≠ []) :
    (popAnnex X stack).1 ≠ [] ∧ (popAnnex X stack).2.annexHash.isSome = true := by
  unfold popAnnex
  split
  · split <;> simp
  · exact ⟨h, rfl⟩

theorem verifyWitnessProgram_returns (hc : c.Answers) (witness : List Bytes) (witversion : ℕ)
    (program : Bytes) (isP2sh : Bool) :
    Returns (fun _ => True)
      (verifyWitnessProgram X c flags witness witversion program isP2sh) := by
  have hv0 : ∀ stack script, Returns (fun _ => True)
      (executeWitnessScript X c flags stack script .witnessV0 .empty) := fun stack script =>
    executeWitnessScript_returns hc (.inr (.inl rfl)) stack script fun h => by cases h
  unfold verifyWitnessProgram
  dsimp only
  split
  · unfold verifyWitnessV0
    split
    · cases witness.reverse with
      | nil => simp
      | cons script stack =>
        dsimp only
        split
        · simp
        · exact hv0 _ _
    split
    · split
      · simp
      · exact hv0 _ _
    · simp
  split
  · split
    · simp
    split
    · simp
    · rename_i htap _ hne
      have hstack : witness.reverse ≠ [] := fun h => hne (by rw [h]; rfl)
      obtain ⟨hrest, hannex⟩ := popAnnex_spec (X := X) hstack
      exact verifyTaprootSpend_returns hc witness hrest htap.2.1 hannex
  split
  · unfold verifyWitnessPQR
    split
    · split <;> simp
    split
    · simp
    split
    · refine .bind (hc.pqr _ _ _ _) fun valid _ => ?_
      split <;> simp
    · simp
  split <;> simp

theorem verifyWitness_returns (hc : c.Answers) (witness : List Bytes) (script : CScript)
    (isP2sh malleated : Bool) (s : VerifyState) :
    Returns (fun _ => True) (verifyWitness X c flags witness script isP2sh malleated s) := by
  unfold verifyWitness
  split
  · split
    · simp
    · split
      · simp
      · exact .bind (verifyWitnessProgram_returns hc _ _ _ _) fun _ _ => by simp
  · simp

theorem evalTrue_returns (hc : c.Answers) (stack : List Bytes) (script : CScript) :
    Returns (fun _ => True) (evalTrue X c flags stack script) := by
  unfold evalTrue
  refine .bind (evalScript_returns hc (.inl rfl) stack script fun h => by cases h) fun stack _ => ?_
  cases stack with
  | nil => simp
  | cons top stack =>
    dsimp only
    split <;> simp

theorem evalTrue_p2sh_nil {script : CScript} (h : isPayToScriptHash script = true) :
    ∃ serror, evalTrue X c flags [] script = setError serror := by
  have hhead : script[0]? = some 0xa9 := by
    simp only [isPayToScriptHash, Bool.and_eq_true, beq_iff_eq] at h
    exact h.1.1.2
  have hsize : script.length ≤ maxScriptSize := by
    simp only [isPayToScriptHash, Bool.and_eq_true, beq_iff_eq] at h
    rw [h.1.1.1]
    decide
  cases script with
  | nil => cases hhead
  | cons opcode pc =>
    obtain rfl : opcode = 0xa9 := by simpa using hhead
    have hop : getScriptOp (0xa9 :: pc) = ⟨some (0xa9, []), pc⟩ := rfl
    refine ⟨.invalidStackOperation, ?_⟩
    unfold evalTrue evalScript
    rw [if_neg (by simp), if_neg (by omega), ops_cons, hop]
    rfl

theorem evalTrue_redeem (hc : c.Answers) (stack : List Bytes) (script : CScript) :
    Returns (fun _ => isPayToScriptHash script = true → stack ≠ [])
      (evalTrue X c flags stack script) := by
  cases stack with
  | cons top stack => exact (evalTrue_returns hc _ script).mono fun _ _ _ => by simp
  | nil =>
    by_cases hspk : isPayToScriptHash script = true
    · obtain ⟨serror, heq⟩ : ∃ serror, evalTrue X c flags [] script = setError serror :=
        evalTrue_p2sh_nil hspk
      rw [heq]
      simp
    · exact (evalTrue_returns hc [] script).mono fun _ _ h => absurd h hspk

theorem verifyP2sh_returns (hc : c.Answers) (scriptSig scriptPubKey : CScript)
    (witness : List Bytes) {stackCopy : List Bytes}
    (hcopy : isPayToScriptHash scriptPubKey = true → stackCopy ≠ []) (s : VerifyState) :
    Returns (fun _ => True)
      (verifyP2sh X c flags scriptSig scriptPubKey witness stackCopy s) := by
  unfold verifyP2sh
  split
  · rename_i hp2sh
    split
    · simp
    cases stackCopy with
    | nil => exact absurd rfl (hcopy hp2sh.2)
    | cons pubKey2 stack =>
      exact .bind (evalTrue_returns hc stack pubKey2) fun _ _ =>
        verifyWitness_returns hc _ _ _ _ _
  · simp

structure Flags.Coherent (flags : Flags) : Prop where
  cleanStack : flags .cleanStack = true → flags .p2sh = true ∧ flags .witness = true
  witness : flags .witness = true → flags .p2sh = true

theorem verifyScript_returns (hc : c.Answers) (hflags : flags.Coherent)
    (scriptSig scriptPubKey : CScript) (witness : List Bytes) :
    Returns (fun _ => True) (verifyScript X c flags scriptSig scriptPubKey witness) := by
  have hend : ∀ s, Returns (fun _ => True) (verifyEnd flags witness s) := by
    intro s
    unfold verifyEnd
    rw [if_neg fun h => h.2 (hflags.cleanStack h.1)]
    split
    · simp
    rw [if_neg fun h => h.2 (hflags.witness h.1)]
    split <;> simp
  unfold verifyScript
  split
  · simp
  refine .bind (evalScript_returns hc (.inl rfl) [] scriptSig fun h => by cases h) ?_
  intro stackCopy _
  refine .bind (evalTrue_redeem hc stackCopy scriptPubKey) fun stack hcopy => ?_
  refine .bind (verifyWitness_returns hc _ _ _ _ _) fun s _ => ?_
  exact .bind (verifyP2sh_returns hc _ _ _ hcopy _) fun s _ => hend s

end Verify
end Vexta
