import Vexta.Script.Verify

/-! Every flag only adds rules: what verifies under a flag set verifies under smaller ones. -/
namespace Vexta
open Lib

def Flags.Sub (F G : Flags) : Prop := ∀ f, F f = true → G f = true

/-- Inclusion apart from post-quantum verification. -/
def Flags.SubBase (F G : Flags) : Prop := ∀ f, f ≠ .pqr → F f = true → G f = true

theorem Flags.Sub.base {F G : Flags} (h : F.Sub G) : F.SubBase G := fun f _ => h f

section Interpreter
variable {X : Crypto} {checker : SignatureChecker} {F G : Flags} {sigversion : SigVersion}

theorem readNum_approx {vch : Bytes} {a b : Bool} (hab : a = true → b = true) (n : ℕ) :
    Approx (readNum vch b n) (readNum vch a n) := by
  unfold readNum
  apply Approx.leave
  intro _
  exact .guard (.imp_left hab) fun _ => .refl _

variable (hF : F.SubBase G)
include hF

theorem checkSignatureEncoding_approx (vchSig : Bytes) :
    Approx (checkSignatureEncoding X vchSig G) (checkSignatureEncoding X vchSig F) := by
  have hany : (F .derSig || F .lowS || F .strictEnc) = true →
      (G .derSig || G .lowS || G .strictEnc) = true := by
    simp only [Bool.or_eq_true]
    exact .imp (.imp (hF _ (by decide)) (hF _ (by decide))) (hF _ (by decide))
  unfold checkSignatureEncoding
  apply Approx.leave
  intro _
  apply Approx.guard (.imp_left hany)
  intro _
  apply Approx.bind (.check (hF _ (by decide)))
  intro _ _
  exact .guard (.imp_left (hF _ (by decide))) fun _ => .refl _

theorem checkPubKeyEncoding_approx (vchPubKey : Bytes) :
    Approx (checkPubKeyEncoding vchPubKey G sigversion)
      (checkPubKeyEncoding vchPubKey F sigversion) := by
  unfold checkPubKeyEncoding
  apply Approx.guard (.imp_left (hF _ (by decide)))
  intro _
  exact .guard (.imp_left (hF _ (by decide))) fun _ => .refl _

theorem dropSignature_approx (scriptCode : CScript) (vchSig : Bytes) :
    Approx (dropSignature G sigversion scriptCode vchSig)
      (dropSignature F sigversion scriptCode vchSig) := by
  unfold dropSignature
  apply Approx.ite
  · intro _
    exact .guard (.imp_right (hF _ (by decide))) fun _ => .refl _
  · intro _
    exact .refl _

theorem evalChecksigPreTapscript_approx (vchSig vchPubKey : Bytes)
    (codehash : CScript) :
    Approx (evalChecksigPreTapscript X checker G sigversion vchSig vchPubKey codehash)
      (evalChecksigPreTapscript X checker F sigversion vchSig vchPubKey codehash) := by
  unfold evalChecksigPreTapscript
  apply Approx.bind (dropSignature_approx hF codehash vchSig)
  intro scriptCode _
  apply Approx.bind (checkSignatureEncoding_approx hF vchSig)
  intro _ _
  apply Approx.bind (checkPubKeyEncoding_approx hF vchPubKey)
  intro _ _
  apply Approx.bind (.refl _)
  intro fSuccess _
  exact .guard (.imp_right (.imp_left (hF _ (by decide)))) fun _ => .refl _

theorem evalChecksigTapscript_approx (sig pubkey : Bytes)
    (execdata : ScriptExecutionData) :
    Approx (evalChecksigTapscript checker G sigversion sig pubkey execdata)
      (evalChecksigTapscript checker F sigversion sig pubkey execdata) := by
  unfold evalChecksigTapscript
  apply Approx.bind (.refl _)
  intro execdata _
  apply Approx.leave
  intro _
  apply Approx.leave
  intro _
  exact .guard (hF _ (by decide)) fun _ => .refl _

theorem evalChecksig_approx (sig pubkey : Bytes) (codehash : CScript)
    (execdata : ScriptExecutionData) :
    Approx (evalChecksig X checker G sigversion sig pubkey codehash execdata)
      (evalChecksig X checker F sigversion sig pubkey codehash execdata) := by
  cases sigversion with
  | base => exact .bind_left (evalChecksigPreTapscript_approx hF sig pubkey codehash)
  | witnessV0 => exact .bind_left (evalChecksigPreTapscript_approx hF sig pubkey codehash)
  | tapscript => exact evalChecksigTapscript_approx hF sig pubkey execdata
  | taproot => exact .refl _
  | pqr => exact .refl _

theorem matchSignatures_approx (scriptCode : CScript) (sigs keys : List Bytes) :
    Approx (matchSignatures X checker G sigversion scriptCode sigs keys)
      (matchSignatures X checker F sigversion scriptCode sigs keys) := by
  induction keys generalizing sigs with
  | nil => cases sigs <;> exact .refl _
  | cons vchPubKey keys ih =>
    cases sigs with
    | nil => exact .refl _
    | cons vchSig sigs =>
      apply Approx.bind (checkSignatureEncoding_approx hF vchSig)
      intro _ _
      apply Approx.bind (checkPubKeyEncoding_approx hF vchPubKey)
      intro _ _
      apply Approx.bind (.refl _)
      intro fOk _
      apply Approx.leave
      intro _
      exact ih _

omit hF in
theorem cleanUpArguments_approx {a b : Bool} (hab : a = true → b = true) (i ikey2 : ℕ)
    (stack : List Bytes) :
    Approx (cleanUpArguments b i ikey2 stack) (cleanUpArguments a i ikey2 stack) := by
  induction i generalizing ikey2 stack with
  | zero => exact .refl _
  | succ i ih =>
    cases stack with
    | nil => exact .refl _
    | cons top stack =>
      exact .guard (.imp_left hab) fun _ => ih (ikey2 - 1) stack

theorem evalCheckMultiSig_approx (verify : Bool) (st : ExecState) :
    Approx (evalCheckMultiSig X checker G sigversion verify st)
      (evalCheckMultiSig X checker F sigversion verify st) := by
  unfold evalCheckMultiSig
  apply Approx.leave
  intro _
  cases hstack : st.stack with
  | nil => exact .refl _
  | cons keysCount args =>
    apply Approx.bind (readNum_approx (hF _ (by decide)) 4)
    intro keys _
    apply Approx.leave
    intro _
    apply Approx.leave
    intro _
    dsimp only
    cases args.drop (getInt keys).toNat with
    | nil => exact .refl _
    | cons sigsCount rest =>
      apply Approx.bind (readNum_approx (hF _ (by decide)) 4)
      intro sigs _
      apply Approx.leave
      intro _
      apply Approx.leave
      intro _
      apply Approx.bind (.foldlM (dropSignature_approx hF) _ _)
      intro scriptCode _
      apply Approx.bind (matchSignatures_approx hF scriptCode _ _)
      intro fSuccess _
      have hnull : (!fSuccess && F .nullFail) = true → (!fSuccess && G .nullFail) = true := by
        simp only [Bool.and_eq_true]
        exact .imp_right (hF _ (by decide))
      apply Approx.bind (cleanUpArguments_approx hnull _ _ _)
      intro stack _
      cases stack with
      | nil => exact .refl _
      | cons dummy stack =>
        exact .guard (.imp_left (hF _ (by decide))) fun _ => .refl _

theorem evalCond_approx (notIf fExec : Bool) (st : ExecState) :
    Approx (evalCond G sigversion notIf fExec st) (evalCond F sigversion notIf fExec st) := by
  unfold evalCond
  apply Approx.ite
  · intro _
    cases st.stack with
    | nil => exact .refl _
    | cons vch stack =>
      apply Approx.leave
      intro _
      exact .guard (.imp_right (.imp_left (hF _ (by decide)))) fun _ => .refl _
  · intro _
    exact .refl _

omit hF in
theorem evalCheckLockTimeVerify_eq_ok {st st' : ExecState}
    (h : evalCheckLockTimeVerify checker F st = .ok st') : st' = st := by
  unfold evalCheckLockTimeVerify at h
  split_ifs at h
  · cases hstack : st.stack with
    | nil => simp [hstack] at h
    | cons top stack =>
      simp only [hstack, bind_eq_ok] at h
      obtain ⟨nLockTime, _, h⟩ := h
      split_ifs at h
      obtain ⟨satisfied, _, h⟩ := bind_eq_ok.mp h
      split_ifs at h
      exact (Except.ok.inj h).symm
  · exact (Except.ok.inj h).symm

theorem evalCheckLockTimeVerify_approx (st : ExecState) :
    Approx (evalCheckLockTimeVerify checker G st) (evalCheckLockTimeVerify checker F st) := by
  by_cases hflag : F .checkLockTimeVerify = true
  · unfold evalCheckLockTimeVerify
    rw [if_neg (not_not.mpr hflag), if_neg (not_not.mpr (hF _ (by decide) hflag))]
    cases st.stack with
    | nil => exact .refl _
    | cons top stack => exact .bind_left (readNum_approx (hF _ (by decide)) 5)
  · intro st' h
    rw [evalCheckLockTimeVerify_eq_ok h]
    exact if_pos hflag

omit hF in
theorem evalCheckSequenceVerify_eq_ok {st st' : ExecState}
    (h : evalCheckSequenceVerify checker F st = .ok st') : st' = st := by
  unfold evalCheckSequenceVerify at h
  split_ifs at h
  · cases hstack : st.stack with
    | nil => simp [hstack] at h
    | cons top stack =>
      simp only [hstack, bind_eq_ok] at h
      obtain ⟨nSequence, _, h⟩ := h
      split_ifs at h
      · exact (Except.ok.inj h).symm
      · obtain ⟨satisfied, _, h⟩ := bind_eq_ok.mp h
        split_ifs at h
        exact (Except.ok.inj h).symm
  · exact (Except.ok.inj h).symm

theorem evalCheckSequenceVerify_approx (st : ExecState) :
    Approx (evalCheckSequenceVerify checker G st) (evalCheckSequenceVerify checker F st) := by
  by_cases hflag : F .checkSequenceVerify = true
  · unfold evalCheckSequenceVerify
    rw [if_neg (not_not.mpr hflag), if_neg (not_not.mpr (hF _ (by decide) hflag))]
    cases st.stack with
    | nil => exact .refl _
    | cons top stack => exact .bind_left (readNum_approx (hF _ (by decide)) 5)
  · intro st' h
    rw [evalCheckSequenceVerify_eq_ok h]
    exact if_pos hflag

theorem evalPick_approx (roll : Bool) (st : ExecState) :
    Approx (evalPick G roll st) (evalPick F roll st) := by
  unfold evalPick
  split
  · exact .bind_left (readNum_approx (hF _ (by decide)) 4)
  · exact .refl _

theorem evalNumeric1_approx (op : UnaryOp) (st : ExecState) :
    Approx (evalNumeric1 G op st) (evalNumeric1 F op st) := by
  unfold evalNumeric1
  split
  · exact .refl _
  · exact .bind_left (readNum_approx (hF _ (by decide)) 4)

theorem evalNumeric2_approx (op : BinaryOp) (st : ExecState) :
    Approx (evalNumeric2 G op st) (evalNumeric2 F op st) := by
  unfold evalNumeric2
  split
  · apply Approx.bind (readNum_approx (hF _ (by decide)) 4)
    intro bn1 _
    exact .bind_left (readNum_approx (hF _ (by decide)) 4)
  · exact .refl _

theorem evalWithin_approx (st : ExecState) :
    Approx (evalWithin G st) (evalWithin F st) := by
  unfold evalWithin
  split
  · apply Approx.bind (readNum_approx (hF _ (by decide)) 4)
    intro bn1 _
    apply Approx.bind (readNum_approx (hF _ (by decide)) 4)
    intro bn2 _
    exact .bind_left (readNum_approx (hF _ (by decide)) 4)
  · exact .refl _

theorem evalCheckSig_approx (verify : Bool) (st : ExecState) :
    Approx (evalCheckSig X checker G sigversion verify st)
      (evalCheckSig X checker F sigversion verify st) := by
  unfold evalCheckSig
  split
  · exact .bind_left (evalChecksig_approx hF _ _ _ _)
  · exact .refl _

theorem evalCheckSigAdd_approx (st : ExecState) :
    Approx (evalCheckSigAdd X checker G sigversion st)
      (evalCheckSigAdd X checker F sigversion st) := by
  unfold evalCheckSigAdd
  apply Approx.leave
  intro _
  split
  · apply Approx.bind (readNum_approx (hF _ (by decide)) 4)
    intro num _
    exact .bind_left (evalChecksig_approx hF _ _ _ _)
  · exact .refl _

theorem evalOp_approx (fExec : Bool) (pc : CScript) (op : Op) (st : ExecState) :
    Approx (evalOp X checker G sigversion fExec pc op st)
      (evalOp X checker F sigversion fExec pc op st) := by
  cases op with
  | checkLockTimeVerify => exact evalCheckLockTimeVerify_approx hF st
  | checkSequenceVerify => exact evalCheckSequenceVerify_approx hF st
  | upgradableNop => exact .guard (hF _ (by decide)) fun _ => .refl _
  | cond notIf => exact evalCond_approx hF notIf fExec st
  | pick roll => exact evalPick_approx hF roll st
  | unary op => exact evalNumeric1_approx hF op st
  | binary op => exact evalNumeric2_approx hF op st
  | within => exact evalWithin_approx hF st
  | checkSig verify => exact evalCheckSig_approx hF verify st
  | checkSigAdd => exact evalCheckSigAdd_approx hF st
  | checkMultiSig verify => exact evalCheckMultiSig_approx hF verify st
  | _ => exact .refl _

theorem evalInstruction_approx (fExec : Bool) (opcode : UInt8)
    (vchPushValue : Bytes) (pc : CScript) (st : ExecState) :
    Approx (evalInstruction X checker G sigversion fExec opcode vchPushValue pc st)
      (evalInstruction X checker F sigversion fExec opcode vchPushValue pc st) := by
  unfold evalInstruction
  apply Approx.ite
  · intro _
    exact .guard (.imp_left (hF _ (by decide))) fun _ => .refl _
  · intro _
    apply Approx.ite
    · intro _
      exact evalOp_approx hF fExec pc _ st
    · intro _
      exact .refl _

theorem evalStep_approx (st : ExecState) (i : GetOp) :
    Approx (evalStep X checker G sigversion st i) (evalStep X checker F sigversion st i) := by
  unfold evalStep
  cases i.ret with
  | none => exact .refl _
  | some r =>
    apply Approx.leave
    intro _
    apply Approx.leave
    intro _
    apply Approx.leave
    intro _
    apply Approx.guard (.imp_right (.imp_right (hF _ (by decide))))
    intro _
    exact .bind_left (evalInstruction_approx hF _ _ _ _ _)

theorem evalScript_approx (stack : List Bytes) (script : CScript)
    (execdata : ScriptExecutionData) :
    Approx (evalScript X checker G sigversion stack script execdata)
      (evalScript X checker F sigversion stack script execdata) := by
  unfold evalScript
  apply Approx.leave
  intro _
  apply Approx.leave
  intro _
  exact .bind_left (.foldlM (evalStep_approx hF) _ _)

end Interpreter

section Witness
variable {X : Crypto} {checker : SignatureChecker} {F G : Flags} (hF : F.SubBase G)
include hF

theorem runWitnessScript_approx (stack : List Bytes) (script : CScript)
    (sigversion : SigVersion) (execdata : ScriptExecutionData) :
    Approx (runWitnessScript X checker G stack script sigversion execdata)
      (runWitnessScript X checker F stack script sigversion execdata) := by
  unfold runWitnessScript
  apply Approx.leave
  intro _
  exact .bind_left (evalScript_approx hF stack script execdata)

theorem executeWitnessScript_approx (stack : List Bytes) (script : CScript)
    (sigversion : SigVersion) (execdata : ScriptExecutionData) :
    Approx (executeWitnessScript X checker G stack script sigversion execdata)
      (executeWitnessScript X checker F stack script sigversion execdata) := by
  have hrun : Approx (runWitnessScript X checker G stack script sigversion execdata)
      (runWitnessScript X checker F stack script sigversion execdata) :=
    runWitnessScript_approx hF stack script sigversion execdata
  unfold executeWitnessScript
  apply Approx.ite
  · intro _
    apply Approx.bind (.refl _)
    intro success _
    apply Approx.ite
    · intro _
      exact .guard (hF _ (by decide)) fun _ => .refl _
    · intro _
      exact .guard id fun _ => hrun
  · intro _
    exact hrun

theorem verifyTaprootSpend_approx (witness stack : List Bytes) (program : Bytes)
    (execdata : ScriptExecutionData) :
    Approx (verifyTaprootSpend X checker G witness stack program execdata)
      (verifyTaprootSpend X checker F witness stack program execdata) := by
  unfold verifyTaprootSpend
  split
  · exact .refl _
  · exact .refl _
  · apply Approx.guard id
    intro _
    apply Approx.guard id
    intro _
    apply Approx.ite
    · intro _
      exact executeWitnessScript_approx hF _ _ _ _
    · intro _
      exact .guard (hF _ (by decide)) fun _ => .refl _

theorem verifyWitnessV0_approx (stack : List Bytes) (program : Bytes) :
    Approx (verifyWitnessV0 X checker G stack program)
      (verifyWitnessV0 X checker F stack program) := by
  unfold verifyWitnessV0
  apply Approx.ite
  · intro _
    split
    · exact .refl _
    · exact .guard id fun _ => executeWitnessScript_approx hF _ _ _ _
  · intro _
    apply Approx.ite
    · intro _
      exact .guard id fun _ => executeWitnessScript_approx hF _ _ _ _
    · intro _
      exact .refl _

/-- Where post-quantum verification may be switched on. -/
def AllowsPqr (F G : Flags) : Prop :=
  G .pqr = true → F .pqr = false → F .discourageUpgradableWitnessProgram = false

/-- Only the larger set has the flag and the smaller accepts every program, or the other way with
all rejected. -/
structure PqrOrdered (F G : Flags) : Prop where
  allows : AllowsPqr F G
  discourages : F .pqr = true → G .pqr = false → G .discourageUpgradableWitnessProgram = true

omit hF in
theorem Flags.Sub.pqrOrdered {F G : Flags} (h : F.Sub G) (hallows : AllowsPqr F G) :
    PqrOrdered F G where
  allows := hallows
  discourages hF hG := by
    have hon := h _ hF
    simp [hG] at hon

theorem verifyWitnessPQR_approx (hpqr : PqrOrdered F G) (stack : List Bytes)
    (witversion : ℕ) (program : Bytes) :
    Approx (verifyWitnessPQR checker G stack witversion program)
      (verifyWitnessPQR checker F stack witversion program) := by
  unfold verifyWitnessPQR
  cases hFpqr : F .pqr with
  | true =>
    cases hGpqr : G .pqr with
    | true => exact .refl _
    | false =>
      -- not yet switched on: the larger set rejects the program
      have hdiscourage := hpqr.discourages hFpqr hGpqr
      simp only [hdiscourage, Bool.false_eq_true, not_false_eq_true, if_true]
      exact .error _ _
  | false =>
    cases hGpqr : G .pqr with
    | true =>
      -- switched on: without the flag every spend is accepted
      have hdiscourage := hpqr.allows hGpqr hFpqr
      simp only [hdiscourage, Bool.false_eq_true, not_false_eq_true, if_true, if_false]
      intro a _
      rfl
    | false =>
      simp only [Bool.false_eq_true, not_false_eq_true, if_true]
      exact .guard (hF _ (by decide)) fun _ => .refl _

theorem verifyWitnessProgram_approx (hpqr : PqrOrdered F G)
    (witness : List Bytes) (witversion : ℕ) (program : Bytes) (isP2sh : Bool) :
    Approx (verifyWitnessProgram X checker G witness witversion program isP2sh)
      (verifyWitnessProgram X checker F witness witversion program isP2sh) := by
  unfold verifyWitnessProgram
  apply Approx.ite
  · intro _
    exact verifyWitnessV0_approx hF _ program
  intro _
  apply Approx.ite
  · intro _
    by_cases htaproot : F .taproot = true
    · simp only [htaproot, hF _ (by decide) htaproot, not_true_eq_false, if_false]
      exact .guard id fun _ => verifyTaprootSpend_approx hF _ _ _ _
    · simp only [htaproot]
      intro a _
      rfl
  intro _
  apply Approx.ite
  · intro _
    exact verifyWitnessPQR_approx hF hpqr _ witversion program
  · intro _
    exact .guard (hF _ (by decide)) fun _ => .refl _

end Witness

structure Flags.Legal (F : Flags) : Prop where
  witness_p2sh : F .witness = true → F .p2sh = true
  cleanStack_p2sh : F .cleanStack = true → F .p2sh = true
  cleanStack_witness : F .cleanStack = true → F .witness = true

section Verify
variable {X : Crypto} {checker : SignatureChecker} {F G : Flags} (hF : F.SubBase G)
include hF

theorem evalTrue_approx (stack : List Bytes) (script : CScript) :
    Approx (evalTrue X checker G stack script) (evalTrue X checker F stack script) :=
  Approx.bind_left (evalScript_approx hF stack script .empty)

theorem verifyWitness_approx (hpqr : PqrOrdered F G) (hw : F .witness = true)
    (witness : List Bytes) (script : CScript) (isP2sh malleated : Bool) (s : VerifyState) :
    Approx (verifyWitness X checker G witness script isP2sh malleated s)
      (verifyWitness X checker F witness script isP2sh malleated s) := by
  unfold verifyWitness
  rw [if_pos hw, if_pos (hF _ (by decide) hw)]
  split
  · exact .refl _
  · apply Approx.guard id
    intro _
    exact .bind_left (verifyWitnessProgram_approx hF hpqr witness _ _ isP2sh)

theorem verifyP2sh_approx (hpqr : PqrOrdered F G) (hlegal : F.Legal)
    (hw : F .witness = true) (scriptSig scriptPubKey : CScript) (witness stackCopy : List Bytes)
    (s : VerifyState) :
    Approx (verifyP2sh X checker G scriptSig scriptPubKey witness stackCopy s)
      (verifyP2sh X checker F scriptSig scriptPubKey witness stackCopy s) := by
  have hFp2sh : F .p2sh = true := hlegal.witness_p2sh hw
  have hGp2sh : G .p2sh = true := hF _ (by decide) hFp2sh
  unfold verifyP2sh
  simp only [hFp2sh, hGp2sh, true_and]
  apply Approx.ite
  · intro _
    apply Approx.guard id
    intro _
    split
    · exact .refl _
    · apply Approx.bind (evalTrue_approx hF _ _)
      intro stack _
      exact verifyWitness_approx hF hpqr hw witness _ true _ _
  · intro _
    exact .refl _

theorem exists_verifyP2sh (hw : F .witness = false)
    {scriptSig scriptPubKey : CScript} {witness stackCopy : List Bytes} {s r : VerifyState}
    (h : verifyP2sh X checker G scriptSig scriptPubKey witness stackCopy s = .ok r)
    (s' : VerifyState) :
    ∃ r', verifyP2sh X checker F scriptSig scriptPubKey witness stackCopy s' = .ok r' := by
  unfold verifyP2sh
  by_cases hp : F .p2sh = true ∧ CScript.isPayToScriptHash scriptPubKey = true
  · rw [if_pos hp]
    unfold verifyP2sh at h
    rw [if_pos ⟨hF _ (by decide) hp.1, hp.2⟩] at h
    split_ifs at h with hpush
    rw [if_neg (not_not.mpr hpush)]
    cases stackCopy with
    | nil => cases h
    | cons pubKey2 stack =>
      obtain ⟨stack', hstack, _⟩ := bind_eq_ok.mp h
      have heval := evalTrue_approx hF stack pubKey2 _ hstack
      refine ⟨⟨stack', s'.hadWitness⟩, ?_⟩
      simp only [heval, ok_bind, verifyWitness, hw, Bool.false_eq_true, if_false]
  · exact ⟨s', if_neg hp⟩

theorem verifyEnd_approx (hlegal : F.Legal) (witness : List Bytes)
    (s : VerifyState) : Approx (verifyEnd G witness s) (verifyEnd F witness s) := by
  unfold verifyEnd
  apply Approx.guard
  · rintro ⟨hclean, hnot⟩
    exact absurd ⟨hlegal.cleanStack_p2sh hclean, hlegal.cleanStack_witness hclean⟩ hnot
  intro _
  apply Approx.guard (.imp_left (hF _ (by decide)))
  intro _
  apply Approx.guard
  · rintro ⟨hw, hnot⟩
    exact absurd (hlegal.witness_p2sh hw) hnot
  intro _
  exact .guard (.imp_left (hF _ (by decide))) fun _ => .refl _

theorem verifyScript_approx_witness (hpqr : PqrOrdered F G) (hlegal : F.Legal)
    (hw : F .witness = true) (scriptSig scriptPubKey : CScript) (witness : List Bytes) :
    Approx (verifyScript X checker G scriptSig scriptPubKey witness)
      (verifyScript X checker F scriptSig scriptPubKey witness) := by
  unfold verifyScript
  apply Approx.guard (.imp_left (hF _ (by decide)))
  intro _
  apply Approx.bind (evalScript_approx hF _ _ _)
  intro stackCopy _
  apply Approx.bind (evalTrue_approx hF _ _)
  intro stack _
  apply Approx.bind (verifyWitness_approx hF hpqr hw witness _ _ _ _)
  intro s _
  apply Approx.bind (verifyP2sh_approx hF hpqr hlegal hw _ _ _ _ _)
  intro s _
  exact verifyEnd_approx hF hlegal witness s

theorem verifyScript_approx_legacy (hlegal : F.Legal) (hw : F .witness = false)
    (scriptSig scriptPubKey : CScript) (witness : List Bytes) :
    Approx (verifyScript X checker G scriptSig scriptPubKey witness)
      (verifyScript X checker F scriptSig scriptPubKey witness) := by
  have hclean : F .cleanStack = false := by
    by_contra hc
    have hon := hlegal.cleanStack_witness (by simpa using hc)
    simp [hw] at hon
  unfold verifyScript
  apply Approx.guard (.imp_left (hF _ (by decide)))
  intro _
  apply Approx.bind (evalScript_approx hF _ _ _)
  intro stackCopy _
  apply Approx.bind (evalTrue_approx hF _ _)
  intro stack _ a h
  obtain ⟨s, _, h⟩ := bind_eq_ok.mp h
  obtain ⟨r, hp2sh, _⟩ := bind_eq_ok.mp h
  obtain ⟨r', hr'⟩ := exists_verifyP2sh hF hw hp2sh ⟨stack, false⟩
  simp only [verifyWitness, hw, Bool.false_eq_true, if_false, ok_bind, hr', verifyEnd,
    hclean, false_and]

theorem verifyScript_approx (hpqr : PqrOrdered F G) (hlegal : F.Legal)
    (scriptSig scriptPubKey : CScript) (witness : List Bytes) :
    Approx (verifyScript X checker G scriptSig scriptPubKey witness)
      (verifyScript X checker F scriptSig scriptPubKey witness) := by
  by_cases hw : F .witness = true
  · exact verifyScript_approx_witness hF hpqr hlegal hw scriptSig scriptPubKey witness
  · have hw : F .witness = false := by simpa using hw
    exact verifyScript_approx_legacy hF hlegal hw scriptSig scriptPubKey witness

end Verify

/-- What `GetBlockScriptFlags` asks: exception and deployments. -/
structure Deployments where
  bip16Exempt : Bool
  segwitEnabled : Bool
  derSig : Bool
  cltv : Bool
  csv : Bool
  taproot : Bool
  pqr : Bool
  segwit : Bool
  deriving DecidableEq, Repr

variable (d : Deployments)

def getBlockScriptFlags : Flags
  | .p2sh => !d.bip16Exempt
  | .witness => !d.bip16Exempt && d.segwitEnabled
  | .derSig => d.derSig
  | .checkLockTimeVerify => d.cltv
  | .checkSequenceVerify => d.csv
  | .taproot => d.taproot
  | .pqr => d.pqr
  | .nullDummy => d.segwit
  | _ => false

theorem getBlockScriptFlags_legal : (getBlockScriptFlags d).Legal where
  witness_p2sh h := by
    simp only [getBlockScriptFlags, Bool.and_eq_true] at h ⊢
    exact h.1
  cleanStack_p2sh h := by cases h
  cleanStack_witness h := by cases h

theorem getBlockScriptFlags_pqr_sub :
    (getBlockScriptFlags { d with pqr := false }).Sub
      (getBlockScriptFlags { d with pqr := true }) := by
  intro f hf
  cases f <;> first | exact hf | rfl

/-- Verification is monotone in the flags, and activating post-quantum verification is a soft fork.
-/
theorem verifyScript_softFork (X : Crypto) (checker : SignatureChecker)
    (scriptSig scriptPubKey : CScript) (witness : List Bytes) :
    (∀ F G : Flags, F.Legal → G.Legal → F.Sub G →
      (G .pqr = true → F .pqr = false → F .discourageUpgradableWitnessProgram = false) →
      verifyScript X checker G scriptSig scriptPubKey witness = .ok () →
      verifyScript X checker F scriptSig scriptPubKey witness = .ok ()) ∧
    (∀ d : Deployments,
      verifyScript X checker (getBlockScriptFlags { d with pqr := true }) scriptSig scriptPubKey
        witness = .ok () →
      verifyScript X checker (getBlockScriptFlags { d with pqr := false }) scriptSig scriptPubKey
        witness = .ok ()) := by
  constructor
  · intro F G hlegal _ hF hpqr h
    exact verifyScript_approx hF.base (hF.pqrOrdered hpqr) hlegal _ _ _ () h
  · intro d h
    have hsub := getBlockScriptFlags_pqr_sub d
    have hpqr : AllowsPqr (getBlockScriptFlags { d with pqr := false })
        (getBlockScriptFlags { d with pqr := true }) := fun _ _ => rfl
    exact verifyScript_approx hsub.base (hsub.pqrOrdered hpqr) (getBlockScriptFlags_legal _)
      _ _ _ () h

def acceptingCrypto : Crypto where
  sha256 _ := 0
  ripemd160 _ := 0
  sha1 _ := 0
  checkLowS _ := true
  verify _ _ _ := true
  verifySchnorr _ _ _ := true
  checkTapTweak _ _ _ _ := true
  mldsa65Verify _ _ _ := true
  sphincs128sVerify _ _ _ := true

def acceptingChecker : SignatureChecker where
  checkECDSASignature _ _ _ _ := .ok true
  checkSchnorrSignature _ _ _ _ := .ok true
  checkPQRSignature _ _ _ _ := .ok true
  checkLockTime _ := .ok true
  checkSequence _ := .ok true

/-- A post-quantum spend under all flags, and under the two oldest. -/
theorem verifyScript_softFork_spend :
    let spk : CScript := op2 :: 32 :: List.replicate 32 1
    let old : Flags := fun f => f = .p2sh ∨ f = .witness
    verifyScript acceptingCrypto acceptingChecker (fun _ => true) [] spk [[1], [2]] = .ok () ∧
      verifyScript acceptingCrypto acceptingChecker old [] spk [[1], [2]] = .ok () := by
  intro spk old
  have hall : verifyScript acceptingCrypto acceptingChecker (fun _ => true) [] spk [[1], [2]] =
      .ok () := by decide +kernel
  have hlegal : old.Legal := ⟨by decide, by decide, by decide⟩
  refine ⟨hall, (verifyScript_softFork acceptingCrypto acceptingChecker [] spk [[1], [2]]).1 old _
    hlegal ⟨fun _ => rfl, fun _ => rfl, fun _ => rfl⟩ (fun _ _ => rfl) (fun _ _ => rfl) hall⟩

end Vexta
