import Vexta.Wallet.Sign

/-! What the passes of `SignTransaction` do to each input. -/
namespace Vexta
open Lib List Option CTransaction PrecomputedTransactionData SignState

def CTransaction.core (tx : CTransaction) : CTransaction :=
  { tx with vin := tx.vin.map fun txin => { txin with scriptSig := [], scriptWitness := [] } }

section Core
variable {tx tx' : CTransaction}

theorem core_length (h : tx'.core = tx.core) : tx'.vin.length = tx.vin.length := by
  have hvin := congrArg (fun t => t.vin.length) h
  simpa [core] using hvin

variable {i : ℕ} {txin : CTxIn}

theorem core_input (h : tx'.core = tx.core) (hin : tx.vin[i]? = some txin) :
    ∃ txin', tx'.vin[i]? = some txin' ∧ txin'.prevout = txin.prevout ∧
      txin'.nSequence = txin.nSequence := by
  have hvin := congrArg (fun t => t.vin[i]?) h
  simp only [core, List.getElem?_map, hin, map_some, map_eq_some_iff] at hvin
  obtain ⟨txin', hin', heq⟩ := hvin
  injection heq with hprevout _ hsequence _
  exact ⟨txin', hin', hprevout, hsequence⟩

theorem prevoutsBytes_core (tx : CTransaction) : prevoutsBytes tx.core = prevoutsBytes tx := by
  simp [prevoutsBytes, core, flatMap_map]

theorem sequencesBytes_core (tx : CTransaction) : sequencesBytes tx.core = sequencesBytes tx := by
  simp [sequencesBytes, core, flatMap_map]

def spentOutput (coins : CoinMap) (tx : CTransaction) (i : ℕ) : Option CTxOut :=
  (tx.vin[i]?).bind fun txin => coins.unspent txin.prevout

theorem spentOutput_congr (h : tx'.core = tx.core) (coins : CoinMap) (i : ℕ) :
    spentOutput coins tx' i = spentOutput coins tx i := by
  unfold spentOutput
  cases hin : tx.vin[i]? with
  | some txin =>
    obtain ⟨txin', hin', hprevout, -⟩ := core_input h hin
    simp [hin', hprevout]
  | none =>
    have hlen := core_length h
    rw [List.getElem?_eq_none_iff] at hin
    rw [List.getElem?_eq_none_iff.mpr (by omega)]

@[simp] theorem updateInput_core (i : ℕ) (scriptSig : CScript) (witness : List Bytes) :
    (tx.updateInput i scriptSig witness).core = tx.core := by
  unfold updateInput core
  congr 1
  apply ext_getElem?
  intro j
  simp only [List.getElem?_map, List.getElem?_modify]
  cases tx.vin[j]? with
  | none => simp
  | some txin => by_cases hij : i = j <;> simp [hij]

theorem updateInput_of_ne {j : ℕ} (h : j ≠ i) (scriptSig : CScript) (witness : List Bytes) :
    (tx.updateInput i scriptSig witness).vin[j]? = tx.vin[j]? := by
  simp only [updateInput, List.getElem?_modify, h.symm, if_false]
  simp

theorem updateInput_self (h : tx.vin[i]? = some txin) (scriptSig : CScript) (witness : List Bytes) :
    (tx.updateInput i scriptSig witness).vin[i]? =
      some { txin with scriptSig, scriptWitness := witness } := by
  simp [updateInput, h]

end Core

def SigningData (X : Crypto) (tx : CTransaction) (txdata : PrecomputedTransactionData) : Prop :=
  ∃ outputs, init X tx outputs true = .ok txdata

section Data
variable {X : Crypto} {tx : CTransaction} {txdata : PrecomputedTransactionData}

theorem init_eq_ok (X : Crypto) (tx : CTransaction) {outputs : List CTxOut}
    (h : outputs = [] ∨ outputs.length = tx.vin.length) (force : Bool) :
    ∃ txdata, init X tx outputs force = .ok txdata := by
  have hlen : ¬ (outputs ≠ [] ∧ outputs.length ≠ tx.vin.length) := by
    rintro ⟨hne, hlen⟩
    exact h.elim hne hlen
  unfold init
  rw [if_neg hlen]
  exact ⟨_, rfl⟩

theorem mapM_length {α β : Type} {f : α → Option β} {l : List α} {l' : List β}
    (h : l.mapM f = some l') : l'.length = l.length := by
  induction l generalizing l' with
  | nil =>
    obtain rfl : [] = l' := by simpa using h
    rfl
  | cons a l ih =>
    simp only [mapM_cons, Option.bind_eq_bind, Option.bind_eq_some_iff, Option.pure_def,
      Option.some.injEq] at h
    obtain ⟨b, -, bs, hbs, rfl⟩ := h
    rw [length_cons, length_cons, ih hbs]

theorem signingData_ok (X : Crypto) (tx : CTransaction) (coins : CoinMap) :
    ∃ txdata, signingData X tx coins = .ok txdata ∧ SigningData X tx txdata := by
  unfold signingData
  cases houts : tx.vin.mapM fun txin => coins.unspent txin.prevout with
  | none =>
    obtain ⟨txdata, hinit⟩ := init_eq_ok X tx (.inl rfl) true
    simp only [hinit]
    exact ⟨txdata, rfl, [], hinit⟩
  | some outputs =>
    obtain ⟨txdata, hinit⟩ := init_eq_ok X tx (.inr (mapM_length houts)) true
    simp only [hinit]
    exact ⟨txdata, rfl, outputs, hinit⟩

theorem SigningData.ready (h : SigningData X tx txdata) : txdata.bip143SegwitReady = true := by
  obtain ⟨outputs, hinit⟩ := h
  exact (init_forced hinit).1

theorem SigningData.covers (h : SigningData X tx txdata) {i : ℕ} (hi : i < tx.vin.length) :
    txdata.Covers i := by
  obtain ⟨outputs, hinit⟩ := h
  have hcomputed := init_computed hinit
  intro hready
  rw [hcomputed.spentOutputsReady, Bool.not_eq_true', isEmpty_eq_false_iff] at hready
  unfold init at hinit
  split_ifs at hinit with hlen
  rw [hcomputed.spentOutputs]
  by_contra hlt
  exact hlen ⟨hready, by omega⟩

end Data

structure PQOutput (out : CTxOut) (type : PqType) (program : Bytes) : Prop where
  isProgram : CScript.isWitnessProgram out.scriptPubKey = some (type.version, program)
  length : program.length = 32

theorem PqType.version_cases (type : PqType) : type.version = 2 ∨ type.version = 3 := by
  cases type
  · exact .inl rfl
  · exact .inr rfl

variable {out : CTxOut} {type : PqType} {program : Bytes}

theorem PQOutput.solver (h : PQOutput out type program) :
    (solver out.scriptPubKey).1.pqType = some type ∧ (solver out.scriptPubKey).2 = [program] := by
  rw [solver_program h.isProgram]
  cases type <;> simp [solveWitnessProgram, PqType.version, h.length, TxoutType.pqType]

theorem pqOutput_of_solver (h : (solver out.scriptPubKey).1.pqType = some type) :
    ∃ program, PQOutput out type program := by
  unfold solver at h
  by_cases hp2sh : CScript.isPayToScriptHash out.scriptPubKey = true
  · rw [if_pos hp2sh] at h
    cases h
  rw [if_neg hp2sh] at h
  cases hprog : CScript.isWitnessProgram out.scriptPubKey with
  | some p =>
    obtain ⟨version, program⟩ := p
    rw [hprog] at h
    simp only [solveWitnessProgram] at h
    refine ⟨program, ?_, ?_⟩
    · split_ifs at h <;> cases h
      all_goals simp_all [PqType.version]
    · split_ifs at h <;> cases h
      all_goals simp_all
  | none =>
    rw [hprog] at h
    dsimp only at h
    repeat' split at h
    all_goals cases h

theorem PQOutput.not_standard {X : Crypto} {c : SignatureChecker} (h : PQOutput out type program)
    (scriptSig : CScript) (witness : List Bytes) :
    verifyScript X c standardScriptVerifyFlags scriptSig out.scriptPubKey witness ≠ .ok () := by
  intro hok
  obtain ⟨-, -, hpqr⟩ :=
    (verifyScript_program_iff rfl rfl h.isProgram type.version_cases).mp hok
  cases hpqr

structure SignFrame (i : ℕ) (s s' : SignState) : Prop where
  core : s'.tx.core = s.tx.core
  input : ∀ j, j ≠ i → s'.tx.vin[j]? = s.tx.vin[j]?
  errors : ∀ j, j ≠ i → s'.inputErrors.lookup j = s.inputErrors.lookup j

namespace SignState
variable {s : SignState} {i : ℕ}

@[simp] theorem fail_tx (e : String) : (s.fail i e).tx = s.tx := rfl

@[simp] theorem succeed_tx : (s.succeed i).tx = s.tx := rfl

@[simp] theorem fail_lookup (e : String) : (s.fail i e).inputErrors.lookup i = some e :=
  AList.lookup_insert _

@[simp] theorem succeed_lookup : (s.succeed i).inputErrors.lookup i = none := AList.lookup_erase _ _

theorem fail_frame (e : String) : SignFrame i s (s.fail i e) where
  core := rfl
  input _ _ := rfl
  errors _ hj := AList.lookup_insert_ne hj

theorem succeed_frame : SignFrame i s (s.succeed i) where
  core := rfl
  input _ _ := rfl
  errors _ hj := AList.lookup_erase_ne hj

theorem update_frame (scriptSig : CScript) (witness : List Bytes) :
    SignFrame i s { s with tx := s.tx.updateInput i scriptSig witness } where
  core := updateInput_core i scriptSig witness
  input _ hj := updateInput_of_ne hj scriptSig witness
  errors _ _ := rfl

end SignState

theorem SignFrame.refl (i : ℕ) (s : SignState) : SignFrame i s s :=
  ⟨rfl, fun _ _ => rfl, fun _ _ => rfl⟩

variable {i : ℕ} {s t : SignState}

theorem SignFrame.trans {u : SignState} (h : SignFrame i s t) (h' : SignFrame i t u) :
    SignFrame i s u where
  core := h'.core.trans h.core
  input j hj := (h'.input j hj).trans (h.input j hj)
  errors j hj := (h'.errors j hj).trans (h.errors j hj)

structure SameAt (i : ℕ) (s s' : SignState) : Prop where
  core : s'.tx.core = s.tx.core
  input : s'.tx.vin[i]? = s.tx.vin[i]?
  error : s'.inputErrors.lookup i = s.inputErrors.lookup i

theorem SameAt.refl (i : ℕ) (s : SignState) : SameAt i s s := ⟨rfl, rfl, rfl⟩

theorem SameAt.step {j : ℕ} {t' : SignState} (h : SameAt i s t) (hframe : SignFrame j t t')
    (hne : i ≠ j) : SameAt i s t' where
  core := hframe.core.trans h.core
  input := (hframe.input i hne).trans h.input
  error := (hframe.errors i hne).trans h.error

abbrev Yields {α : Type} (Q : α → Prop) (x : Except Fault α) : Prop := Sat (fun _ => False) Q x

theorem turns_yield {R : ℕ → SignState → SignState → Prop}
    {f : SignState → ℕ → Except Fault SignState} {n : ℕ}
    (hturn : ∀ t i, i < n → t.tx.core = s.tx.core →
      Yields (fun t' => SignFrame i t t' ∧ R i t t') (f t i)) :
    Yields (fun s' => s'.tx.core = s.tx.core ∧ (∀ i, n ≤ i → SameAt i s s') ∧
        ∀ i, i < n → ∃ t t', SameAt i s t ∧ R i t t' ∧ SameAt i t' s')
      ((List.range n).foldlM f s) := by
  induction n with
  | zero => exact Sat.ok_iff.mpr ⟨rfl, fun i _ => .refl i s, fun i hi => absurd hi (by omega)⟩
  | succ n ih =>
    rw [range_succ, foldlM_append]
    refine .bind (ih fun t i hi => hturn t i (by omega)) ?_
    rintro t ⟨hcore, hlater, hdone⟩
    rw [foldlM_cons]
    refine .bind (hturn t n (by omega) hcore) ?_
    rintro t' ⟨hframe, hR⟩
    refine Sat.ok_iff.mpr ⟨hframe.core.trans hcore, fun i hi => ?_, fun i hi => ?_⟩
    · exact (hlater i (by omega)).step hframe (by omega)
    · by_cases hin : i = n
      · subst hin
        exact ⟨t, t', hlater i le_rfl, hR, .refl i t'⟩
      · obtain ⟨u, u', hu, hRu, hu'⟩ := hdone i (by omega)
        exact ⟨u, u', hu, hRu, hu'.step hframe hin⟩

theorem standardFlags_coherent : standardScriptVerifyFlags.Coherent :=
  ⟨fun _ => ⟨rfl, rfl⟩, fun _ => rfl⟩

theorem pqrSigningFlags_coherent : pqrSigningFlags.Coherent :=
  ⟨fun _ => ⟨rfl, rfl⟩, fun _ => rfl⟩

section Turn
variable {X : Crypto} {txConst : CTransaction} {txdata : PrecomputedTransactionData} {i : ℕ}

variable {flags : Flags} {s : SignState}

theorem scriptOutcome_yields {c : SignatureChecker} (hc : c.Answers) (hflags : flags.Coherent)
    (scriptSig scriptPubKey : CScript) (witness : List Bytes) :
    Yields (fun serror => serror = none ↔
        verifyScript X c flags scriptSig scriptPubKey witness = .ok ())
      (scriptOutcome (verifyScript X c flags scriptSig scriptPubKey witness)) := by
  have hreturns := verifyScript_returns (X := X) hc hflags scriptSig scriptPubKey witness
  generalize verifyScript X c flags scriptSig scriptPubKey witness = x at hreturns ⊢
  rcases x with (serror | fault) | u
  · simp [scriptOutcome]
  · simp at hreturns
  · simp [scriptOutcome]

theorem checkSigned_yields (hflags : flags.Coherent) (hdata : SigningData X txConst txdata)
    (hi : i < txConst.vin.length) (describe : ScriptError → String) (out : CTxOut)
    (scriptSig : CScript) (witness : List Bytes) (s : SignState) :
    Yields (fun s' => SignFrame i s s' ∧ s'.tx = s.tx ∧ (s'.inputErrors.lookup i = none ↔
        verifyScript X (transactionSignatureChecker X txConst .fail i out.nValue (some txdata)) flags
          scriptSig out.scriptPubKey witness = .ok ()))
      (checkSigned X flags describe txConst txdata i out scriptSig witness s) := by
  have hanswers : (transactionSignatureChecker X txConst .fail i out.nValue
      (some txdata)).Answers := by
    apply transactionSignatureChecker_answers hi
    intro cache hcache
    rw [← Option.some.inj hcache]
    exact hdata.covers hi
  unfold checkSigned
  refine .bind (scriptOutcome_yields hanswers hflags _ _ _) fun serror hserror => ?_
  cases serror with
  | none => exact Sat.ok_iff.mpr ⟨succeed_frame, rfl, by simp [hserror.mp rfl]⟩
  | some serror =>
    refine Sat.ok_iff.mpr ⟨fail_frame _, rfl, ?_⟩
    rw [← hserror]
    simp

structure LeftUnsigned (i : ℕ) (s s' : SignState) : Prop where
  error : s'.inputErrors.lookup i ≠ none
  witness : (s'.tx.vin[i]?).map (·.scriptWitness) = (s.tx.vin[i]?).map (·.scriptWitness)

theorem inputComplete_yields {tx : CTransaction} (hi : i < tx.vin.length) (txin : CTxIn)
    (out : CTxOut) :
    Yields (fun complete => ∀ type program, PQOutput out type program → complete = false)
      (inputComplete X tx i txin out) := by
  have hanswers : (transactionSignatureChecker X tx .fail i out.nValue none).Answers :=
    transactionSignatureChecker_answers hi fun cache hcache => by cases hcache
  refine .bind (scriptOutcome_yields hanswers standardFlags_coherent _ _ _) ?_
  intro serror hserror
  refine Sat.ok_iff.mpr fun type program hpq => ?_
  cases serror with
  | none => exact absurd (hserror.mp rfl) (hpq.not_standard _ _)
  | some serror => rfl

theorem signKnownInput_yields (provider : SigningProvider) (nHashType : BitVec 32)
    (hdata : SigningData X txConst txdata) (hcore : s.tx.core = txConst.core) {txin : CTxIn}
    (hin : s.tx.vin[i]? = some txin) (out : CTxOut) :
    Yields (fun s' => SignFrame i s s' ∧
        ∀ type program, PQOutput out type program → LeftUnsigned i s s')
      (signKnownInput X provider txConst txdata nHashType s i txin out) := by
  have hi : i < s.tx.vin.length := (List.getElem?_eq_some_iff.mp hin).1
  have hconst : i < txConst.vin.length := core_length hcore ▸ hi
  unfold signKnownInput
  refine .bind (inputComplete_yields hi txin out) fun complete hcomplete => ?_
  dsimp only
  generalize hpair : (if (decide (nHashType &&& ~~~0x80#32 = sigHashSingle)) = true ∧
      ¬ i < s.tx.vout.length then (txin.scriptSig, txin.scriptWitness)
    else produceSignature provider s.tx i txin out txdata nHashType complete) = pair
  obtain ⟨scriptSig, witness⟩ := pair
  have hkept : ∀ type program, PQOutput out type program → witness = txin.scriptWitness := by
    intro type program hpq
    have hsecond : _ = witness := congrArg Prod.snd hpair
    rw [← hsecond]
    split_ifs
    · rfl
    · unfold produceSignature
      rw [hcomplete type program hpq]
      have htype := hpq.solver.1
      generalize (solver out.scriptPubKey).1 = t at htype ⊢
      cases t <;> first | rfl | cases htype
  have hinput := updateInput_self hin scriptSig witness
  have hwitness : ∀ type program, PQOutput out type program → ∀ s' : SignState,
      s'.tx = s.tx.updateInput i scriptSig witness →
        (s'.tx.vin[i]?).map (·.scriptWitness) = (s.tx.vin[i]?).map (·.scriptWitness) := by
    intro type program hpq s' htx
    rw [htx, hinput, hin, hkept type program hpq]
    rfl
  have hupdate := update_frame (s := s) (i := i) scriptSig witness
  split_ifs
  · refine Sat.ok_iff.mpr ⟨hupdate.trans (fail_frame _), fun type program hpq => ⟨?_, ?_⟩⟩
    · simp
    · exact hwitness type program hpq _ rfl
  · refine (checkSigned_yields standardFlags_coherent hdata hconst signingError out scriptSig witness
      _).mono ?_
    rintro s' ⟨hframe, htx, hnone⟩
    refine ⟨hupdate.trans hframe, fun type program hpq => ⟨?_, hwitness type program hpq s' htx⟩⟩
    intro hlookup
    exact hpq.not_standard _ _ (hnone.mp hlookup)

theorem signInput_yields (provider : SigningProvider) (coins : CoinMap) (nHashType : BitVec 32)
    (hdata : SigningData X txConst txdata) (hcore : s.tx.core = txConst.core)
    (hi : i < s.tx.vin.length) :
    Yields (fun s' => SignFrame i s s' ∧ ∀ out type program,
        spentOutput coins s.tx i = some out → PQOutput out type program → LeftUnsigned i s s')
      (signInput X provider coins txConst txdata nHashType s i) := by
  have hin := List.getElem?_eq_getElem hi
  unfold signInput spentOutput
  rw [hin]
  dsimp only [bind_some]
  cases coins.unspent s.tx.vin[i].prevout with
  | none =>
    refine Sat.ok_iff.mpr ⟨fail_frame _, fun out type program hout _ => ?_⟩
    cases hout
  | some out =>
    refine (signKnownInput_yields provider nHashType hdata hcore hin out).mono ?_
    rintro s' ⟨hframe, hpq⟩
    refine ⟨hframe, fun out' type program hout => ?_⟩
    rw [← Option.some.inj hout]
    exact hpq type program

end Turn

structure SignedPass (coins : CoinMap) (s s' : SignState) : Prop where
  core : s'.tx.core = s.tx.core
  errors : ∀ i, s.tx.vin.length ≤ i → s'.inputErrors.lookup i = s.inputErrors.lookup i
  unsigned : ∀ i out type program, spentOutput coins s.tx i = some out →
    PQOutput out type program → LeftUnsigned i s s'

section Pass
variable {X : Crypto}

theorem spentOutput_lt {coins : CoinMap} {tx : CTransaction} {i : ℕ} {out : CTxOut}
    (h : spentOutput coins tx i = some out) : i < tx.vin.length := by
  by_contra hlen
  rw [spentOutput, List.getElem?_eq_none_iff.mpr (by omega)] at h
  cases h

theorem signTransaction_yields (X : Crypto) (provider : SigningProvider) (coins : CoinMap)
    (nHashType : BitVec 32) (s : SignState) :
    Yields (SignedPass coins s) (signTransaction X provider coins nHashType s) := by
  obtain ⟨txdata, hinit, hdata⟩ := signingData_ok X s.tx coins
  unfold signTransaction
  rw [hinit, ok_bind]
  have hturn := fun (t : SignState) i (hi : i < s.tx.vin.length) (ht : t.tx.core = s.tx.core) =>
    signInput_yields provider coins nHashType hdata ht (core_length ht ▸ hi)
  refine (turns_yield hturn).mono ?_
  rintro s' ⟨hcore, hlater, hdone⟩
  refine ⟨hcore, fun i hi => (hlater i hi).error, fun i out type program hout hpq => ?_⟩
  obtain ⟨t, t', ht, hleft, ht'⟩ := hdone i (spentOutput_lt hout)
  have hthis := hleft out type program ((spentOutput_congr ht.core coins i).trans hout) hpq
  constructor
  · rw [ht'.error]
    exact hthis.error
  · rw [ht'.input, hthis.witness, ht.input]

end Pass

structure PQKeyData.Generated (W : WalletCrypto) (keyId : Uint256) (data : PQKeyData) : Prop where
  keygen : ∃ seed, W.keygenFromSeed data.type seed = some (data.pubkey, data.secret)
  id : W.sha256 data.pubkey = keyId

/-- Signing with a generated key gives a valid signature of the scheme's size. -/
def SigningCorrect (W : WalletCrypto) : Prop :=
  ∀ type seed pubkey secret, W.keygenFromSeed type seed = some (pubkey, secret) → ∀ hash,
    ∃ signature, W.pqSign type secret hash = some signature ∧
      signature.length = type.sigBytes ∧ W.pqVerify type.version signature hash pubkey = true

variable {X : Crypto}

theorem sha256Bytes_of_keyId {pubkey program : Bytes} (hlen : program.length = 32)
    (h : X.sha256 pubkey = uint256OfBytes program) : X.sha256Bytes pubkey = program := by
  have hlt : ofLe program < 2 ^ 256 := by
    calc ofLe program < 256 ^ program.length := ofLe_lt program
      _ = 2 ^ 256 := by rw [hlen]; norm_num
  rw [Crypto.sha256Bytes, h, uint256OfBytes, BitVec.toNat_ofNat, Nat.mod_eq_of_lt hlt, ← hlen,
    le_ofLe]

theorem signatureHashPQR_core {tx tx' : CTransaction} {outs outs' : List CTxOut}
    {txdata txdata' : PrecomputedTransactionData} (h : tx'.core = tx.core)
    (hdata : txdata.Computed X tx outs) (hready : txdata.bip143SegwitReady = true)
    (hdata' : txdata'.Computed X tx' outs') (hready' : txdata'.bip143SegwitReady = true)
    (i version : ℕ) (program : Bytes) (amount : BitVec 64) :
    signatureHashPQR X tx' i version program amount txdata' =
      signatureHashPQR X tx i version program amount txdata := by
  obtain ⟨hvout, hversion, hlock⟩ : tx'.vout = tx.vout ∧ tx'.nVersion = tx.nVersion ∧
      tx'.nLockTime = tx.nLockTime := by
    injection h with _ hvout hversion hlock
    exact ⟨hvout, hversion, hlock⟩
  have hprevouts : prevoutsBytes tx' = prevoutsBytes tx := by
    rw [← prevoutsBytes_core tx', h, prevoutsBytes_core]
  have hsequences : sequencesBytes tx' = sequencesBytes tx := by
    rw [← sequencesBytes_core tx', h, sequencesBytes_core]
  unfold signatureHashPQR assertInput
  cases hin : tx.vin[i]? with
  | none =>
    rw [List.getElem?_eq_none_iff, ← core_length h, ← List.getElem?_eq_none_iff] at hin
    rw [hin]
    rfl
  | some txin =>
    obtain ⟨txin', hin', hprevout, hsequence⟩ := core_input h hin
    rw [hin']
    have hpreimage : pqrPreimage tx' txin' version program amount txdata' =
        pqrPreimage tx txin version program amount txdata := by
      simp only [pqrPreimage, hversion, hlock, hprevout, hsequence, hdata.hashPrevouts hready,
        hdata.hashSequence hready, hdata.hashOutputs hready, hdata'.hashPrevouts hready',
        hdata'.hashSequence hready', hdata'.hashOutputs hready', getPrevoutsSHA256,
        getSequencesSHA256, getOutputsSHA256, hprevouts, hsequences, outputsBytes, hvout]
    simp only [ok_bind, hpreimage]

structure PQSigned (W : WalletCrypto) (tx : CTransaction) (txdata : PrecomputedTransactionData)
    (i : ℕ) (out : CTxOut) (type : PqType) (program : Bytes) (txin : CTxIn) : Prop where
  scriptSig : txin.scriptSig = []
  witness : ∃ sig pubkey sighash, txin.scriptWitness = [sig, pubkey] ∧
    sig.length = type.sigBytes ∧ pubkey.length = type.pubkeyBytes ∧
    W.sha256Bytes pubkey = program ∧
    signatureHashPQR W.toCrypto tx i type.version program out.nValue txdata = .ok sighash ∧
    W.pqVerify type.version sig sighash pubkey = true

/-- The turn of the second loop, by the output of the input and its key. -/
structure PQTurn (W : WalletCrypto) (w : CWallet) (coins : CoinMap) (tx : CTransaction)
    (txdata : PrecomputedTransactionData) (i : ℕ) (s s' : SignState) : Prop where
  other : (∀ out, spentOutput coins s.tx i = some out →
    (solver out.scriptPubKey).1.pqType = none) → SameAt i s s'
  missing : ∀ out type program, spentOutput coins s.tx i = some out →
    PQOutput out type program →
    (∀ key, w.getPQKey W (uint256OfBytes program) = some key → key.type ≠ type) →
      s'.tx.vin[i]? = s.tx.vin[i]? ∧ s'.inputErrors.lookup i ≠ none
  signed : SigningCorrect W → ∀ out type program key, spentOutput coins s.tx i = some out →
    PQOutput out type program → w.getPQKey W (uint256OfBytes program) = some key →
    key.type = type → key.Generated W (uint256OfBytes program) →
      ∃ txin, s'.tx.vin[i]? = some txin ∧ PQSigned W tx txdata i out type program txin ∧
        (s'.inputErrors.lookup i = none ↔ castToBool program = true)

section PQTurns
variable {W : WalletCrypto} {w : CWallet} {coins : CoinMap} {txConst : CTransaction}
  {txdata : PrecomputedTransactionData} {s : SignState} {i : ℕ}

theorem signPQOutput_yields (w : CWallet) (hdata : SigningData W.toCrypto txConst txdata)
    (hcore : s.tx.core = txConst.core) {txin : CTxIn} (hin : s.tx.vin[i]? = some txin)
    {out : CTxOut} {type : PqType} {program : Bytes} (hpq : PQOutput out type program) :
    Yields (fun s' => SignFrame i s s' ∧
        ((∀ key, w.getPQKey W (uint256OfBytes program) = some key → key.type ≠ type) →
          s'.tx = s.tx ∧ s'.inputErrors.lookup i ≠ none) ∧
        (SigningCorrect W → ∀ key, w.getPQKey W (uint256OfBytes program) = some key →
          key.type = type → key.Generated W (uint256OfBytes program) →
          ∃ txin, s'.tx.vin[i]? = some txin ∧ PQSigned W txConst txdata i out type program txin ∧
            (s'.inputErrors.lookup i = none ↔ castToBool program = true)))
      (signPQOutput W w txConst txdata s i out type program) := by
  have hi : i < txConst.vin.length := by
    rw [← core_length hcore]
    exact (List.getElem?_eq_some_iff.mp hin).1
  have hconst := List.getElem?_eq_getElem hi
  have hhash : signatureHashPQR W.toCrypto txConst i type.version program out.nValue txdata = _ :=
    signatureHashPQR_eq out.nValue hconst hpq.length type.version_cases
  have hfail : ∀ e, SignFrame i s (s.fail i e) ∧ (s.fail i e).tx = s.tx ∧
      (s.fail i e).inputErrors.lookup i ≠ none := fun e => ⟨fail_frame e, rfl, by simp⟩
  unfold signPQOutput
  cases hkey : w.getPQKey W (uint256OfBytes program) with
  | none =>
    refine Sat.ok_iff.mpr ⟨(hfail _).1, fun _ => (hfail _).2, fun _ key h => ?_⟩
    cases h
  | some key =>
    dsimp only
    by_cases htype : key.type = type
    · rw [if_neg (not_not.mpr htype), hhash]
      have hheld : ¬ ∀ key', some key = some key' → key'.type ≠ type :=
        fun h => h key rfl htype
      generalize W.hash256 _ = sighash at hhash
      change Yields _ (Except.ok sighash >>= _)
      rw [ok_bind]
      have hgood : SigningCorrect W → key.Generated W (uint256OfBytes program) →
          ∃ signature, W.pqSign type key.secret sighash = some signature ∧
            signature.length = type.sigBytes ∧
            W.pqVerify type.version signature sighash key.pubkey = true := by
        rintro hcorrect ⟨⟨seed, hseed⟩, -⟩
        rw [htype] at hseed
        exact hcorrect type seed key.pubkey key.secret hseed sighash
      cases hsign : W.pqSign type key.secret sighash with
      | none =>
        refine Sat.ok_iff.mpr ⟨(hfail _).1, fun h => absurd h hheld, fun hcorrect key' hk _ hgen => ?_⟩
        rw [← Option.some.inj hk] at hgen
        obtain ⟨signature, hsome, -⟩ := hgood hcorrect hgen
        cases hsign.symm.trans hsome
      | some signature =>
        dsimp only
        by_cases hsize : signature.length = type.sigBytes
        · rw [if_neg (not_not.mpr hsize)]
          have hupdate := update_frame (s := s) (i := i) [] [signature, key.pubkey]
          refine (checkSigned_yields pqrSigningFlags_coherent hdata hi scriptErrorString out []
            [signature, key.pubkey] _).mono ?_
          rintro s' ⟨hframe, htx, hnone⟩
          refine ⟨hupdate.trans hframe, fun h => absurd h hheld, fun hcorrect key' hk _ hgen => ?_⟩
          rw [← Option.some.inj hk] at hgen
          obtain ⟨signature', hsome, -, hverify⟩ := hgood hcorrect hgen
          obtain rfl : signature = signature' := Option.some.inj (hsign.symm.trans hsome)
          obtain ⟨seed, hseed⟩ := hgen.keygen
          have hsigned : PQSigned W txConst txdata i out type program
              { txin with scriptSig := [], scriptWitness := [signature, key.pubkey] } :=
            ⟨rfl, signature, key.pubkey, sighash, rfl, hsize, htype ▸ (W.keygen_sizes hseed).1,
              sha256Bytes_of_keyId hpq.length hgen.id, hhash, hverify⟩
          refine ⟨_, by rw [htx]; exact updateInput_self hin _ _, hsigned, ?_⟩
          rw [hnone, verifyScript_pqrProgram_iff rfl rfl rfl (fun _ => hdata.ready) hpq.isProgram
            type.version_cases]
          constructor
          · rintro ⟨-, -, htrue, -⟩
            exact htrue
          · intro htrue
            exact ⟨rfl, hpq.length, htrue, hsigned.witness⟩
        · rw [if_pos hsize]
          refine Sat.ok_iff.mpr ⟨(hfail _).1, fun h => absurd h hheld, fun hcorrect key' hk _ hgen => ?_⟩
          rw [← Option.some.inj hk] at hgen
          obtain ⟨signature', hsome, hlen, -⟩ := hgood hcorrect hgen
          rw [hsign, Option.some.injEq] at hsome
          exact absurd (hsome ▸ hlen) hsize
    · rw [if_pos htype]
      refine Sat.ok_iff.mpr ⟨(hfail _).1, fun _ => (hfail _).2, fun _ key' h htype' => ?_⟩
      rw [← Option.some.inj h] at htype'
      exact absurd htype' htype

theorem signPQInput_yields (w : CWallet) (coins : CoinMap)
    (hdata : SigningData W.toCrypto txConst txdata) (hcore : s.tx.core = txConst.core)
    (hi : i < s.tx.vin.length) :
    Yields (fun s' => SignFrame i s s' ∧ PQTurn W w coins txConst txdata i s s')
      (signPQInput W w coins txConst txdata s i) := by
  have hin := List.getElem?_eq_getElem hi
  have hout : spentOutput coins s.tx i = coins.unspent s.tx.vin[i].prevout := by
    simp [spentOutput, hin]
  unfold signPQInput
  rw [hin]
  dsimp only
  cases hcoin : coins.unspent s.tx.vin[i].prevout with
  | none =>
    rw [hcoin] at hout
    refine Sat.ok_iff.mpr ⟨.refl i s, fun _ => .refl i s, ?_, ?_⟩
    · intro out type program hsome
      cases hout.symm.trans hsome
    · intro _ out type program key hsome
      cases hout.symm.trans hsome
  | some out =>
    rw [hcoin] at hout
    dsimp only
    cases htype : (solver out.scriptPubKey).1.pqType with
    | none =>
      refine Sat.ok_iff.mpr ⟨.refl i s, fun _ => .refl i s, ?_, ?_⟩
      · intro out' type program hsome hpq
        obtain rfl : out = out' := Option.some.inj (hout.symm.trans hsome)
        cases hpq.solver.1.symm.trans htype
      · intro _ out' type program key hsome hpq
        obtain rfl : out = out' := Option.some.inj (hout.symm.trans hsome)
        cases hpq.solver.1.symm.trans htype
    | some type =>
      obtain ⟨program, hpq⟩ := pqOutput_of_solver htype
      have hsolutions := hpq.solver.2
      dsimp only
      rw [hsolutions]
      rw [if_neg (by simp [hpq.length])]
      refine (signPQOutput_yields w hdata hcore hin hpq).mono ?_
      rintro s' ⟨hframe, hmissing, hsigned⟩
      -- the output has no other program
      have hunique : ∀ {out' type' program'}, spentOutput coins s.tx i = some out' →
          PQOutput out' type' program' → out' = out ∧ type' = type ∧ program' = program := by
        intro out' type' program' hsome hpq'
        obtain rfl : out = out' := Option.some.inj (hout.symm.trans hsome)
        have htype' := hpq'.solver.1
        have hsolutions' := hpq'.solver.2
        rw [htype] at htype'
        rw [hsolutions] at hsolutions'
        exact ⟨rfl, (Option.some.inj htype').symm, (List.cons.inj hsolutions').1.symm⟩
      refine ⟨hframe, fun hother => ?_, ?_, ?_⟩
      · cases (hother out hout).symm.trans htype
      · intro out' type' program' hsome hpq' hkey
        obtain ⟨rfl, rfl, rfl⟩ := hunique hsome hpq'
        obtain ⟨htx, herror⟩ := hmissing hkey
        exact ⟨by rw [htx], herror⟩
      · intro hcorrect out' type' program' key hsome hpq'
        obtain ⟨rfl, rfl, rfl⟩ := hunique hsome hpq'
        exact hsigned hcorrect key

theorem PQTurn.congr {tx : CTransaction} {t t' s' : SignState} (h : PQTurn W w coins tx txdata i t t')
    (hs : SameAt i s t) (hs' : SameAt i t' s') : PQTurn W w coins tx txdata i s s' := by
  have hout := spentOutput_congr hs.core coins i
  constructor
  · intro hother
    have hsame := h.other fun out hsome => hother out (hout ▸ hsome)
    exact ⟨hs'.core.trans (hsame.core.trans hs.core), hs'.input.trans (hsame.input.trans hs.input),
      hs'.error.trans (hsame.error.trans hs.error)⟩
  · intro out type program hsome hpq hkey
    obtain ⟨hinput, herror⟩ := h.missing out type program (hout.trans hsome) hpq hkey
    exact ⟨hs'.input.trans (hinput.trans hs.input), by rw [hs'.error]; exact herror⟩
  · intro hcorrect out type program key hsome hpq hkey htype hgen
    obtain ⟨txin, hinput, hsigned, herror⟩ :=
      h.signed hcorrect out type program key (hout.trans hsome) hpq hkey htype hgen
    exact ⟨txin, hs'.input.trans hinput, hsigned, by rw [hs'.error]; exact herror⟩

end PQTurns

/-- `SignTransaction`: the elliptic-curve pass `s₁`, then the post-quantum one. -/
structure ManagerPass (W : WalletCrypto) (w : CWallet) (coins : CoinMap)
    (s s₁ s' : SignState) (txdata : PrecomputedTransactionData) : Prop where
  first : SignedPass coins s s₁
  data : SigningData W.toCrypto s₁.tx txdata
  core : s'.tx.core = s.tx.core
  errors : ∀ i, s.tx.vin.length ≤ i → s'.inputErrors.lookup i = s.inputErrors.lookup i
  turns : ∀ i, i < s.tx.vin.length → PQTurn W w coins s₁.tx txdata i s₁ s'

theorem signWithManager_default (W : WalletCrypto) (w : CWallet) (provider : SigningProvider)
    (coins : CoinMap) (s : SignState) :
    ∃ s₁ s' txdata, signTransaction W.toCrypto provider coins sigHashAll s = .ok s₁ ∧
      w.signWithManager W provider coins sigHashDefault s = .ok s' ∧
      ManagerPass W w coins s s₁ s' txdata := by
  obtain ⟨s₁, hfirst, hpass⟩ :=
    (signTransaction_yields W.toCrypto provider coins sigHashAll s).exists_ok
  obtain ⟨txdata, hinit, hdata⟩ := signingData_ok W.toCrypto s₁.tx coins
  have hlen := core_length hpass.core
  have hturn := fun (t : SignState) i (hi : i < s₁.tx.vin.length) (ht : t.tx.core = s₁.tx.core) =>
    signPQInput_yields w coins hdata ht (core_length ht ▸ hi)
  obtain ⟨s', hrun, hcore, hlater, hdone⟩ := (turns_yield hturn).exists_ok
  refine ⟨s₁, s', txdata, hfirst, ?_, hpass, hdata, hcore.trans hpass.core, fun i hi => ?_,
    fun i hi => ?_⟩
  · unfold CWallet.signWithManager
    simp only [if_true, hfirst, ok_bind, hinit, ne_eq, not_true_eq_false, if_false]
    exact hrun
  · exact (hlater i (by omega)).error.trans (hpass.errors i hi)
  · obtain ⟨t, t', ht, hR, ht'⟩ := hdone i (by omega)
    exact hR.congr ht ht'

end Vexta
