import Vexta.Coins.Coin
import Vexta.Deployment.BlockFlags
import Vexta.Validation.ScriptCache

/-! The script checks of mempool acceptance: the policy flags, then those of the tip. -/
namespace Vexta
open Lib Bool CScriptCheck TimedTree

structure CTxMemPool (X : Crypto) where
  get : Uint256 → Option CTransaction
  keyed : ∀ {hash tx}, get hash = some tx → tx.getHash X = hash

/-- `CCoinsViewMemPool`: a pool transaction hides the coins below it. -/
def CTxMemPool.view {X : Crypto} (pool : CTxMemPool X) (coinsTip : CoinOutputs) : CoinOutputs :=
  fun outpoint => match pool.get outpoint.hash with
    | some ptx => (ptx.vout[outpoint.n.toNat]?).filter fun out => !out.isNull
    | none => coinsTip outpoint

structure AcceptContext (X : Crypto) where
  deployments : DeploymentParams
  heap : Heap
  tip : Option Uint256
  pool : CTxMemPool X
  coinsTip : CoinOutputs
  /-- The answer of the script execution cache for a transaction and flags. -/
  scriptCache : CTransaction → Flags → Bool

def AcceptContext.view {X : Crypto} (C : AcceptContext X) : CoinOutputs := C.pool.view C.coinsTip

section
variable {X : Crypto} (C : AcceptContext X) (tx : CTransaction)

/-- A call of `CheckInputScripts` by mempool acceptance. -/
def AcceptContext.checkScripts (flags : Flags) (txdata : Option PrecomputedTransactionData) :
    Except TxFailure (Option PrecomputedTransactionData) :=
  checkInputScripts X (cachingSignatureChecker X tx) tx (C.scriptCache tx flags) C.view flags
    txdata

/-- What `PolicyScriptChecks` reports; a witness may be stripped. -/
def gradePolicyFailure (flags : Flags) (failure : TxFailure) : TxFailure :=
  match failure with
  | .fault fault => .fault fault
  | .invalid result reason serror =>
    let witnessFlags : Flags := fun f => f = .witness ∨ f = .cleanStack
    let cleanFlags : Flags := fun f => f = .cleanStack
    if tx.hasWitness then .invalid result reason serror
    else match C.checkScripts tx (flags.diff witnessFlags) none with
      | .error (.fault fault) => .fault fault
      | .error (.invalid ..) => .invalid result reason serror
      | .ok txdata => match C.checkScripts tx (flags.diff cleanFlags) txdata with
        | .error (.fault fault) => .fault fault
        | .error (.invalid ..) => .invalid .witnessStripped reason serror
        | .ok _ => .invalid result reason serror

variable (caches : VersionBitsCache)

def policyScriptFlags : Except Fault (Flags × VersionBitsCache) :=
  match C.tip with
  | none => .ok (standardScriptVerifyFlags, caches)
  | some tip => do
    let index ← C.heap.deref tip
    let (active, caches) ←
      deploymentActiveAt C.deployments C.heap (index.pos tip) .pqr caches
    .ok (standardScriptVerifyFlags.union fun f => f = .pqr ∧ active, caches)

def liftTxFault {α : Type} : Except Fault α → Except TxFailure α
  | .ok a => .ok a
  | .error fault => .error (.fault fault)

def policyScriptChecks :
    Except TxFailure (Option PrecomputedTransactionData × VersionBitsCache) := do
  let (flags, caches) ← liftTxFault (policyScriptFlags C caches)
  match C.checkScripts tx flags none with
  | .error failure => .error (gradePolicyFailure C tx flags failure)
  | .ok txdata => .ok (txdata, caches)

def checkPoolCoin (txin : CTxIn) : Except TxFailure Bool :=
  match C.view txin.prevout with
  | none => .ok false
  | some out =>
    match C.pool.get txin.prevout.hash with
    | some txFrom =>
      if txFrom.getHash X ≠ txin.prevout.hash then .error (.fault .assertion)
      else match txFrom.vout[txin.prevout.n.toNat]? with
        | none => .error (.fault .assertion)
        | some out' => if out' ≠ out then .error (.fault .assertion) else .ok true
    | none =>
      match C.coinsTip txin.prevout with
      | none => .error (.fault .assertion)
      | some out' => if out' ≠ out then .error (.fault .assertion) else .ok true

def checkPoolCoins : List CTxIn → Except TxFailure Bool
  | [] => .ok true
  | txin :: vin => do
    if ← checkPoolCoin C txin then checkPoolCoins vin else .ok false

def checkInputsFromMempoolAndCache (flags : Flags)
    (txdata : Option PrecomputedTransactionData) : Except TxFailure Bool :=
  if tx.isCoinBase then .error (.fault .assertion)
  else do
    if ← checkPoolCoins C tx.vin then do
      let _ ← C.checkScripts tx flags txdata
      .ok true
    else .ok false

inductive ConsensusScriptResult
  | passed
  /-- `BUG! PLEASE REPORT THIS! CheckInputScripts failed against latest-block but not STANDARD
  flags`. -/
  | bug
  deriving DecidableEq, Repr

def consensusScriptChecks
    (txdata : Option PrecomputedTransactionData) :
    Except Fault (ConsensusScriptResult × VersionBitsCache) := do
  let tip ← derefPtr C.tip
  let index ← C.heap.deref tip
  let (flags, caches) ← blockScriptFlags C.deployments C.heap (index.pos tip) caches
  match checkInputsFromMempoolAndCache C tx flags txdata with
  | .ok true => .ok (.passed, caches)
  | .ok false => .ok (.bug, caches)
  | .error (.invalid ..) => .ok (.bug, caches)
  | .error (.fault fault) => .error fault

end

/-- Every input passes `VerifyScript` under `flags`, with `Init` data. -/
def ScriptsPass (X : Crypto) (tx : CTransaction) (inputs : CoinOutputs) (flags : Flags) : Prop :=
  ∃ data, inputScriptData X tx inputs none = .ok data ∧
    data.spentOutputs.length = tx.vin.length ∧
    ∀ nIn txOut, data.spentOutputs[nIn]? = some txOut →
      run X (cachingSignatureChecker X tx) tx data { txOut, nIn, flags } = .ok ()

section Pass
variable {X : Crypto} {tx : CTransaction} {inputs : CoinOutputs} {flags : Flags}

variable {checkerOf : CheckerOf} {data : PrecomputedTransactionData}

theorem runInputCheck_eq_ok {check : CScriptCheck} :
    runInputCheck X checkerOf tx data check = .ok () ↔
      check.run X checkerOf tx data = .ok () := by
  unfold runInputCheck
  rcases hrun : check.run X checkerOf tx data with (serror | fault) | u
  · simp only
    split_ifs
    · split <;> simp
    · simp
  · simp
  · simp

theorem liftFailure_eq_ok {α : Type} {x : Except Failure α} {a : α} :
    liftFailure x = .ok a ↔ x = .ok a := by
  rcases x with (serror | fault) | b
  · simp [liftFailure]
  · simp [liftFailure]
  · simp [liftFailure]

theorem forM_inputScriptChecks {checks : List CScriptCheck}
    (h : inputScriptChecks tx flags data = .ok checks) :
    checks.forM (runInputCheck X checkerOf tx data) = .ok () ↔
      ∀ nIn txOut, data.spentOutputs[nIn]? = some txOut →
        run X checkerOf tx data { txOut, nIn, flags } = .ok () := by
  unfold inputScriptChecks at h
  split_ifs at h
  rw [← Except.ok.inj h, forM_eq_ok]
  simp only [List.forall_mem_map, runInputCheck_eq_ok]
  constructor
  · intro hall nIn txOut hout
    exact hall (txOut, nIn) (List.mem_zipIdx_iff_getElem?.mpr hout)
  · rintro hall ⟨txOut, nIn⟩ hmem
    exact hall nIn txOut (List.mem_zipIdx_iff_getElem?.mp hmem)

theorem scriptsPass_of_checked (hcoinbase : tx.isCoinBase = false)
    {txdata' : Option PrecomputedTransactionData}
    (h : checkInputScripts X (cachingSignatureChecker X tx) tx false inputs flags none =
      .ok txdata') :
    ScriptsPass X tx inputs flags ∧
      ∀ data, txdata' = some data → inputScriptData X tx inputs none = .ok data := by
  unfold checkInputScripts pushInputChecks at h
  simp only [hcoinbase, false_eq_true, if_false] at h
  obtain ⟨⟨checks, txdata⟩, hpush, h⟩ := bind_eq_ok.mp h
  obtain ⟨data, hdata, hpush⟩ := bind_eq_ok.mp hpush
  obtain ⟨checks', hchecks, hpush⟩ := bind_eq_ok.mp hpush
  cases hpush
  obtain ⟨u, hrun, h⟩ := bind_eq_ok.mp h
  have hdata := liftFailure_eq_ok.mp hdata
  have hchecks := liftFailure_eq_ok.mp hchecks
  have hpass := (forM_inputScriptChecks hchecks).mp hrun
  have hlength : data.spentOutputs.length = tx.vin.length := by
    by_contra hne
    simp [inputScriptChecks, hne, assertFail] at hchecks
  constructor
  · exact ⟨data, hdata, hlength, hpass⟩
  · intro d hd
    have heq : data = d := Option.some.inj ((Except.ok.inj h).trans hd)
    rw [← heq]
    exact hdata

theorem checkInputScripts_of_pass (hcoinbase : tx.isCoinBase = false)
    (hpass : ScriptsPass X tx inputs flags) (cached : Bool)
    {txdata : Option PrecomputedTransactionData}
    (hdata : ∀ data, txdata = some data → inputScriptData X tx inputs none = .ok data) :
    ∃ txdata', checkInputScripts X (cachingSignatureChecker X tx) tx cached inputs flags txdata =
      .ok txdata' := by
  obtain ⟨data, hinit, hlength, hall⟩ := hpass
  have hmade : inputScriptData X tx inputs txdata = .ok data := by
    cases txdata with
    | none => exact hinit
    | some d => exact (hdata d rfl).symm.trans hinit
  cases cached with
  | true =>
    unfold checkInputScripts pushInputChecks
    simp only [hcoinbase, false_eq_true, if_false, if_true, ok_bind]
    cases txdata with
    | none => exact ⟨none, rfl⟩
    | some d => exact ⟨some d, rfl⟩
  | false =>
    have hchecks : ∃ checks, inputScriptChecks tx flags data = .ok checks :=
      ⟨_, if_neg (not_not.mpr hlength)⟩
    obtain ⟨checks, hchecks⟩ := hchecks
    have hrun := (forM_inputScriptChecks hchecks).mpr hall
    unfold checkInputScripts pushInputChecks
    simp only [hcoinbase, false_eq_true, if_false, liftFailure_eq_ok.mpr hmade,
      liftFailure_eq_ok.mpr hchecks, ok_bind, hrun]
    exact ⟨some data, rfl⟩

theorem ScriptsPass.mono {F G : Flags} (hF : F.SubBase G) (hpqr : PqrOrdered F G)
    (hlegal : F.Legal) (h : ScriptsPass X tx inputs G) : ScriptsPass X tx inputs F := by
  obtain ⟨data, hdata, hlength, hall⟩ := h
  have hrun : ∀ nIn txOut, data.spentOutputs[nIn]? = some txOut →
      run X (cachingSignatureChecker X tx) tx data
        { txOut, nIn, flags := F } = .ok () := by
    intro nIn txOut hout
    have hG := hall nIn txOut hout
    obtain ⟨txin, hin, hG⟩ := bind_eq_ok.mp hG
    have hverify := verifyScript_approx hF hpqr hlegal _ _ _ () hG
    unfold run
    simp only at hin hverify ⊢
    rw [hin]
    exact hverify
  exact ⟨data, hdata, hlength, hrun⟩

end Pass

def policyFlags (active : Bool) : Flags :=
  standardScriptVerifyFlags.union fun f => f = .pqr ∧ active

theorem getBlockScriptFlags_subBase (d : Deployments) (active : Bool) :
    (getBlockScriptFlags d).SubBase (policyFlags active) := by
  intro f hne hf
  cases f <;> first | rfl | exact absurd rfl hne | cases hf

/-- Block and policy flags differ in post-quantum verification only where one treats all programs
alike. -/
theorem getBlockScriptFlags_pqrOrdered (d : Deployments) (active : Bool) :
    PqrOrdered (getBlockScriptFlags d) (policyFlags active) where
  allows _ _ := rfl
  discourages _ _ := rfl

theorem ScriptsPass.block {X : Crypto} {tx : CTransaction} {inputs : CoinOutputs} {active : Bool}
    (h : ScriptsPass X tx inputs (policyFlags active)) (d : Deployments) :
    ScriptsPass X tx inputs (getBlockScriptFlags d) :=
  h.mono (getBlockScriptFlags_subBase d active) (getBlockScriptFlags_pqrOrdered d active)
    (getBlockScriptFlags_legal d)

/-- The scripts of a call that a cache of earlier calls answers pass. -/
theorem ScriptCacheReached.scriptsPass {X : Crypto} {nonce sigNonce : Uint256} {S : Set Bytes}
    {c : HashCache} (hreached : ScriptCacheReached X nonce sigNonce S c)
    (hfree : CollisionFree X S) (call : InputScriptsCall X) (hdata : call.txdata = none)
    (hstrings : ∀ s ∈ call.strings nonce, s ∈ S) (hcoinbase : call.tx.isCoinBase = false)
    (hcached : (HashCache.contains c (call.entry nonce) false).1 = true) :
    ScriptsPass X call.tx call.inputs call.flags := by
  obtain ⟨data, hrun⟩ := hreached.passed hfree call hstrings hcoinbase hcached
  rw [InputScriptsCall.run, hdata] at hrun
  exact (scriptsPass_of_checked hcoinbase hrun).1

/-- A node that accepts transactions: its tip is in its tree, deployment caches hold states of the
tree, and the script cache is one that earlier calls reached. -/
structure AcceptState (X : Crypto) extends AcceptContext X where
  tree : TimedTree
  heap_eq : heap = tree.heap
  tipHash : Uint256
  tipIndex : IndexNode
  tip_eq : tip = some tipHash
  tipIndex_eq : tree.heap tipHash = some tipIndex
  caches : VersionBitsCache
  caches_sound : tree.CachesSound deployments caches
  cache : HashCache
  nonce : Uint256
  sigNonce : Uint256
  strings : Set Bytes
  free : CollisionFree X strings
  reached : ScriptCacheReached X nonce sigNonce strings cache
  hit : ∀ {tx flags}, scriptCache tx flags = true → tx.isCoinBase = false →
    (∀ txin ∈ tx.vin, (toAcceptContext.view txin.prevout).isSome) →
    ∃ call : InputScriptsCall X, call.tx = tx ∧ call.inputs = toAcceptContext.view ∧
      call.flags = flags ∧ call.txdata = none ∧ (∀ s ∈ call.strings nonce, s ∈ strings) ∧
      (HashCache.contains cache (call.entry nonce) false).1 = true

theorem AcceptState.scriptCache_sound {X : Crypto} (S : AcceptState X) {tx : CTransaction}
    {flags : Flags} (h : S.scriptCache tx flags = true) (hcoinbase : tx.isCoinBase = false)
    (hcoins : ∀ txin ∈ tx.vin, (S.view txin.prevout).isSome) : ScriptsPass X tx S.view flags := by
  obtain ⟨call, rfl, hview, rfl, hdata, hstrings, hcached⟩ := S.hit h hcoinbase hcoins
  rw [← hview]
  exact S.reached.scriptsPass S.free call hdata hstrings hcoinbase hcached

/-- What `PreChecks` has found out about a transaction. -/
structure PreChecked {X : Crypto} (S : AcceptState X) (tx : CTransaction) : Prop where
  notCoinBase : tx.isCoinBase = false
  haveCoins : ∀ txin ∈ tx.vin, (S.view txin.prevout).isSome

section Accept
variable {X : Crypto} {S : AcceptState X} {tx : CTransaction}

theorem AcceptState.valid_pprev (S : AcceptState X) : S.tree.Valid S.tipIndex.pprev := by
  intro p hp
  obtain ⟨prev, hprev, -⟩ := S.tree.linked.parent S.tipIndex_eq hp
  exact ⟨prev, hprev⟩

theorem AcceptState.policyScriptFlags_eq (S : AcceptState X) :
    policyScriptFlags S.toAcceptContext S.caches =
      .ok (policyFlags (S.tree.pqrActive S.deployments S.tipIndex.pprev), S.caches) := by
  have hactive : deploymentActiveAt S.deployments S.tree.heap (S.tipIndex.pos S.tipHash) .pqr
      S.caches = .ok (S.tree.pqrActive S.deployments S.tipIndex.pprev, S.caches) :=
    deploymentActiveAt_pqr S.valid_pprev
  unfold policyScriptFlags
  simp only [S.tip_eq, S.heap_eq, Heap.deref_eq S.tipIndex_eq, hactive, ok_bind]
  rfl

variable {txdata : Option PrecomputedTransactionData}

theorem policyScriptChecks_eq_ok (hpre : PreChecked S tx) {caches : VersionBitsCache}
    (h : policyScriptChecks S.toAcceptContext tx S.caches = .ok (txdata, caches)) :
    caches = S.caches ∧
    (∃ active, ScriptsPass X tx S.view (policyFlags active)) ∧
    ∀ data, txdata = some data → inputScriptData X tx S.view none = .ok data := by
  unfold policyScriptChecks at h
  simp only [S.policyScriptFlags_eq, liftTxFault, ok_bind] at h
  generalize hflags : S.tree.pqrActive S.deployments S.tipIndex.pprev = active at h
  cases hcheck : S.checkScripts tx (policyFlags active) none with
  | error failure =>
    rw [hcheck] at h
    cases h
  | ok result =>
    rw [hcheck] at h
    obtain ⟨rfl, rfl⟩ := Prod.mk.inj (Except.ok.inj h)
    cases hcached : S.scriptCache tx (policyFlags active) with
    | true =>
      -- a cached result leaves the data uncomputed
      have hnone : result = none := by
        simp only [AcceptContext.checkScripts, checkInputScripts, pushInputChecks, hcached,
          hpre.notCoinBase, false_eq_true, if_false, if_true, ok_bind] at hcheck
        exact (Except.ok.inj hcheck).symm
      have hpass := S.scriptCache_sound hcached hpre.notCoinBase hpre.haveCoins
      exact ⟨rfl, ⟨active, hpass⟩, fun data hdata => by rw [hnone] at hdata; cases hdata⟩
    | false =>
      rw [AcceptContext.checkScripts, hcached] at hcheck
      have hpass := scriptsPass_of_checked hpre.notCoinBase hcheck
      exact ⟨rfl, ⟨active, hpass.1⟩, hpass.2⟩

theorem checkPoolCoin_eq (txin : CTxIn) (h : (S.view txin.prevout).isSome) :
    checkPoolCoin S.toAcceptContext txin = .ok true := by
  obtain ⟨out, hout⟩ := Option.isSome_iff_exists.mp h
  unfold checkPoolCoin
  rw [hout]
  simp only [AcceptContext.view, CTxMemPool.view] at hout
  cases hpool : S.pool.get txin.prevout.hash with
  | none =>
    rw [hpool] at hout
    simp [hout]
  | some txFrom =>
    rw [hpool] at hout
    have hvout :=
      (Option.filter_eq_some_iff.mp hout).1
    simp [S.pool.keyed hpool, hvout]

theorem checkPoolCoins_eq (vin : List CTxIn)
    (h : ∀ txin ∈ vin, (S.view txin.prevout).isSome) :
    checkPoolCoins S.toAcceptContext vin = .ok true := by
  induction vin with
  | nil => rfl
  | cons txin vin ih =>
    have hcoin := checkPoolCoin_eq txin (h txin List.mem_cons_self)
    simp only [checkPoolCoins, hcoin, ok_bind, if_true]
    exact ih fun i hi => h i (List.mem_cons_of_mem txin hi)

theorem checkInputsFromMempoolAndCache_eq (hpre : PreChecked S tx) {flags : Flags}
    (hpass : ScriptsPass X tx S.view flags)
    (hdata : ∀ data, txdata = some data → inputScriptData X tx S.view none = .ok data) :
    checkInputsFromMempoolAndCache S.toAcceptContext tx flags txdata = .ok true := by
  obtain ⟨txdata', hcheck⟩ :=
    checkInputScripts_of_pass hpre.notCoinBase hpass (S.scriptCache tx flags) hdata
  unfold checkInputsFromMempoolAndCache
  simp only [hpre.notCoinBase, false_eq_true, if_false,
    checkPoolCoins_eq tx.vin hpre.haveCoins, ok_bind, if_true, AcceptContext.checkScripts,
    hcheck]

end Accept

/-- A transaction that passes the policy checks passes those against the flags of the tip, so that
no bug is reported, and its scripts pass under the flags of every block on top of the tip. -/
theorem policyScriptChecks_consensus (X : Crypto) (S : AcceptState X) (tx : CTransaction)
    (hpre : PreChecked S tx) (txdata : Option PrecomputedTransactionData)
    (caches : VersionBitsCache)
    (h : policyScriptChecks S.toAcceptContext tx S.caches = .ok (txdata, caches)) :
    (∃ caches', consensusScriptChecks S.toAcceptContext tx caches txdata =
      .ok (.passed, caches')) ∧
    ∀ phashBlock, ∃ flags caches',
      blockScriptFlags S.deployments S.heap (S.tipIndex.childPos S.tipHash phashBlock) caches =
        .ok (flags, caches') ∧
      (flags .pqr = true ↔
        (S.deployments.vDeployments .pqr).minActivationHeight ≤ S.tipIndex.nHeight + 1) ∧
      ScriptsPass X tx S.view flags := by
  obtain ⟨rfl, ⟨active, hpass⟩, hdata⟩ := policyScriptChecks_eq_ok hpre h
  constructor
  · have hvalid : S.tree.Valid (S.tipIndex.pos S.tipHash).pprev := S.valid_pprev
    obtain ⟨d, caches', hflags, -, -⟩ := blockScriptFlags_eq S.caches_sound hvalid
    have hcheck := checkInputsFromMempoolAndCache_eq hpre (hpass.block d) hdata
    unfold consensusScriptChecks
    simp only [S.tip_eq, derefPtr, ok_bind, S.heap_eq, Heap.deref_eq S.tipIndex_eq, hflags,
      hcheck]
    exact ⟨caches', rfl⟩
  · intro phashBlock
    have hvalid : S.tree.Valid (S.tipIndex.childPos S.tipHash phashBlock).pprev := by
      rintro p ⟨⟩
      exact ⟨S.tipIndex, S.tipIndex_eq⟩
    obtain ⟨d, caches', hflags, hpqr, -⟩ := blockScriptFlags_eq S.caches_sound hvalid
    have hheight :=
      nextHeight_some S.tipIndex_eq
    refine ⟨getBlockScriptFlags d, caches', ?_, ?_, hpass.block d⟩
    · rw [S.heap_eq]
      exact hflags
    · change d.pqr = true ↔ _
      rw [hpqr]
      change decide (_ ≤ ((S.tree.nextHeight (some S.tipHash) : ℕ) : ℤ)) = true ↔ _
      rw [hheight, decide_eq_true_eq]
      simp

/-- A taproot coin; post-quantum verification starts with the next block. -/
def genesisAcceptState (X : Crypto) : AcceptState X where
  deployments := {
    bip16Exception := 0
    bip66Height := 0
    bip65Height := 0
    csvHeight := 0
    segwitHeight := 0
    nMinerConfirmationWindow := ⟨1, by decide⟩
    nRuleChangeActivationThreshold := 1
    vDeployments := fun
      | .pqr => ⟨3, BIP9Deployment.neverActive, 0, 1⟩
      | _ => ⟨2, BIP9Deployment.alwaysActive, 0, 0⟩ }
  heap := (root 7 Network.main.genesis).heap
  tip := some 7
  pool := ⟨fun _ => none, fun h => by cases h⟩
  coinsTip := taprootCoin
  scriptCache _ _ := false
  tree := .root 7 Network.main.genesis
  heap_eq := rfl
  tipHash := 7
  tipIndex := _
  tip_eq := rfl
  tipIndex_eq := rfl
  caches _ := ∅
  caches_sound _ _ _ h := by cases h
  cache := HashCache.setup 2 1
  nonce := 0
  sigNonce := 0
  strings := ∅
  free := ⟨Set.injOn_empty _, fun _ h => h.elim⟩
  reached := .setup 2 1
  hit h := by cases h

/-- A taproot spend by key, policy checked one block before the activation. -/
theorem policyScriptChecks_consensus_keyPath :
    let S := genesisAcceptState acceptingCrypto
    let tx := pqrTx [List.replicate 64 0]
    ∃ txdata caches, policyScriptChecks S.toAcceptContext tx S.caches = .ok (txdata, caches) ∧
      ∃ flags, flags .pqr = true ∧ ScriptsPass acceptingCrypto tx S.view flags := by
  intro S tx
  have hpre : PreChecked S tx := ⟨rfl, fun _ _ => rfl⟩
  have hok : (policyScriptChecks S.toAcceptContext tx S.caches).isOk = true := by
    decide +kernel
  cases h : policyScriptChecks S.toAcceptContext tx S.caches with
  | error failure =>
    rw [h] at hok
    cases hok
  | ok result =>
    have hnext := (policyScriptChecks_consensus acceptingCrypto S tx hpre result.1 result.2 h).2
    obtain ⟨flags, caches, -, hpqr, hpass⟩ := hnext none
    exact ⟨result.1, result.2, rfl, flags, hpqr.mpr (by decide), hpass⟩

end Vexta
