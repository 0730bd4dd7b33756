import Vexta.Connect.Effect

/-! `CheckBlock` and `ConnectBlock`. -/
namespace Vexta
open Lib

/-- How the validation of a block fails. -/
inductive BlockFailure
  | rejected (rejection : Rejection)
  | mutated (reason : String)
  | consensus (reason : String)
  | transaction (failure : TxFailure)
  | script (failure : TxFailure)
  | coins (failure : CoinsFailure)
  | fault (fault : Fault)
  deriving DecidableEq, Repr

namespace BlockFailure

variable {α : Type}

def liftFault : Except Fault α → Except BlockFailure α
  | .ok a => .ok a
  | .error e => .error (.fault e)

def liftTx : Except TxFailure α → Except BlockFailure α
  | .ok a => .ok a
  | .error e => .error (.transaction e)

def liftScript : Except TxFailure α → Except BlockFailure α
  | .ok a => .ok a
  | .error e => .error (.script e)

def liftCoins : Except CoinsFailure α → Except BlockFailure α
  | .ok a => .ok a
  | .error e => .error (.coins e)

def liftRejection : Except Fault (Option Rejection) → Except BlockFailure Unit
  | .ok none => .ok ()
  | .ok (some rejection) => .error (.rejected rejection)
  | .error e => .error (.fault e)

end BlockFailure

/-- Parameters, the block index, assumed-valid blocks, the script cache. -/
structure ConnectContext where
  crypto : Crypto
  hashes : HeaderHashes
  network : Network
  deployments : DeploymentParams
  bip34Height : ℤ
  bip34Hash : Uint256
  heap : Heap
  caches : VersionBitsCache
  checkSignetBlockSolution : CBlock → Bool
  assumedValid : Uint256 → Bool
  scriptsCached : CTransaction → Flags → Bool

def Network.signetBlocks : Network → Bool
  | .signet _ => true
  | _ => false

def Network.nSubsidyHalvingInterval : Network → ℕ
  | .main => 210000
  | .test => 210000
  | .signet _ => 210000
  | .regtest _ => 210000

def getBlockSubsidy (nHeight nSubsidyHalvingInterval : ℕ) : ℤ :=
  let halvings := nHeight / nSubsidyHalvingInterval
  if 64 ≤ halvings then 0 else 50 * coinUnits / 2 ^ halvings

section
variable (X : Crypto)

def merkleLevel : List Uint256 → List Uint256
  | [] => []
  | [a] => [X.hash256 (le 32 a.toNat ++ le 32 a.toNat)]
  | a :: b :: rest => X.hash256 (le 32 a.toNat ++ le 32 b.toNat) :: merkleLevel rest

def merkleMutated : List Uint256 → Bool
  | a :: b :: rest => a == b || merkleMutated rest
  | _ => false

def merkleLoop : ℕ → List Uint256 → Bool → Uint256 × Bool
  | _, [], mutation => (0, mutation)
  | _, [a], mutation => (a, mutation)
  | 0, a :: _ :: _, mutation => (a, mutation)
  | fuel + 1, hashes@(_ :: _ :: _), mutation =>
    merkleLoop fuel (merkleLevel X hashes) (mutation || merkleMutated hashes)

def blockMerkleRoot (vtx : List CTransaction) : Uint256 × Bool :=
  merkleLoop X vtx.length (vtx.map (CTransaction.getHash X)) false

end

section
variable (C : ConnectContext) (block : CBlock)

def checkBlockMerkleRoot : Except BlockFailure Unit :=
  let (hashMerkleRoot2, mutated) := blockMerkleRoot C.crypto block.vtx
  if block.header.hashMerkleRoot ≠ hashMerkleRoot2 then .error (.mutated "bad-txnmrklroot")
  else if mutated then .error (.mutated "bad-txns-duplicate")
  else .ok ()

def CBlock.strippedSize : ℕ :=
  80 + (writeCompactSize block.vtx.length).length +
    (block.vtx.map fun tx => tx.serializeNoWitness.length).sum

def checkBlockLayout : Except BlockFailure Unit :=
  match block.vtx with
  | [] => .error (.consensus "bad-blk-length")
  | coinbase :: rest =>
    if maxBlockWeight < block.vtx.length * witnessScaleFactor ∨
        maxBlockWeight < block.strippedSize * witnessScaleFactor then
      .error (.consensus "bad-blk-length")
    else if ¬ coinbase.isCoinBase then .error (.consensus "bad-cb-missing")
    else if rest.any CTransaction.isCoinBase then .error (.consensus "bad-cb-multiple")
    else .ok ()

def checkBlockSigOps : Except BlockFailure Unit :=
  if maxBlockSigOpsCost < (block.vtx.map getLegacySigOpCount).sum * witnessScaleFactor then
    .error (.consensus "bad-blk-sigops")
  else .ok ()

def checkBlock : Except BlockFailure Unit := do
  BlockFailure.liftRejection (checkBlockHeader C.hashes C.network.params block.header true)
  if C.network.signetBlocks ∧ ¬ C.checkSignetBlockSolution block then
    .error (.consensus "bad-signet-blksig")
  else do
    checkBlockMerkleRoot C block
    checkBlockLayout block
    block.vtx.forM fun tx => BlockFailure.liftTx (checkTransaction tx)
    checkBlockSigOps block

structure BlockRules where
  nHeight : ℕ
  flags : Flags
  lockTimeFlags : LockTimeFlags
  medianTimeAt : ℤ → Except Fault ℤ
  nBlockTime : ℤ
  fScriptChecks : Bool

def medianTimeAt (H : Heap) (pindex : Uint256) (height : ℤ) : Except Fault ℤ := do
  let ancestor ← getAncestor H pindex height
  let p ← derefPtr ancestor
  getMedianTimePast H p

def prevHeight (inputs : Contents) (txin : CTxIn) : ℤ := ((inputs txin.prevout).map Coin.nHeight).getD 0

variable (rules : BlockRules) (tx : CTransaction)

def sequenceLocks (inputs : Contents) :
    Except Fault Bool := do
  let (locks, _) ← calculateSequenceLocks tx rules.lockTimeFlags (tx.vin.map (prevHeight inputs))
    rules.medianTimeAt
  .ok (evaluateSequenceLocks rules.nHeight rules.nBlockTime locks)

def connectInputs (nFees : ℤ) (inputs : Contents) :
    Except BlockFailure ℤ :=
  if tx.isCoinBase then .ok nFees
  else do
    let txfee ← BlockFailure.liftTx (checkTxInputs tx inputs rules.nHeight)
    let nFees ← BlockFailure.liftTx (addAmounts nFees txfee)
    if ¬ moneyRange nFees then .error (.consensus "bad-txns-accumulated-fee-outofrange")
    else do
      let final ← BlockFailure.liftFault (sequenceLocks rules tx inputs)
      if final then .ok nFees else .error (.consensus "bad-txns-nonfinal")

def connectSigOps (nSigOpsCost : ℕ) (inputs : Contents) :
    Except BlockFailure ℕ := do
  let cost ← BlockFailure.liftFault (getTransactionSigOpCost tx inputs rules.flags)
  if maxBlockSigOpsCost < nSigOpsCost + cost then .error (.consensus "bad-blk-sigops")
  else .ok (nSigOpsCost + cost)

def connectScripts (inputs : Contents) :
    Except BlockFailure Unit :=
  if tx.isCoinBase ∨ ¬ rules.fScriptChecks then .ok ()
  else do
    let _ ← BlockFailure.liftScript (checkInputScripts C.crypto
      (cachingSignatureChecker C.crypto tx) tx (C.scriptsCached tx rules.flags)
      (fun outpoint => (inputs outpoint).map Coin.out) rules.flags none)
    .ok ()

structure Connecting where
  nFees : ℤ
  nSigOpsCost : ℕ
  vtxundo : List CTxUndo
  view : CoinsView

def connectTx (s : Connecting) (tx : CTransaction) :
    Except BlockFailure Connecting := do
  let nFees ← connectInputs rules tx s.nFees s.view.contents
  let nSigOpsCost ← connectSigOps rules tx s.nSigOpsCost s.view.contents
  connectScripts C rules tx s.view.contents
  let (txundo, view) ← BlockFailure.liftCoins (updateCoins C.crypto tx s.view rules.nHeight)
  .ok ⟨nFees, nSigOpsCost, s.vtxundo ++ [txundo], view⟩

def bip34ImpliesBip30Limit : ℕ := 1983702

def enforceBip30 (pprev : Uint256) (nHeight : ℕ) : Except Fault Bool := do
  let pindexBip34height ← getAncestor C.heap pprev C.bip34Height
  .ok (decide (pindexBip34height ≠ some C.bip34Hash ∨ bip34ImpliesBip30Limit ≤ nHeight))

def checkBip30 (pprev : Uint256) (nHeight : ℕ) (view : CoinsView) :
    Except BlockFailure Unit := do
  let enforce ← BlockFailure.liftFault (enforceBip30 C pprev nHeight)
  if enforce ∧ block.vtx.any fun tx =>
      (tx.created C.crypto nHeight).any fun output => view.haveCoin output.1 then
    .error (.consensus "bad-txns-BIP30")
  else .ok ()

variable (pindex : Uint256)

def blockRules (index : IndexNode) (pprev : Uint256) : Except Fault BlockRules := do
  let (flags, _) ← blockScriptFlags C.deployments C.heap (index.pos pindex) C.caches
  let nBlockTime ← getMedianTimePast C.heap pprev
  .ok {
    nHeight := index.nHeight
    flags
    lockTimeFlags := ⟨decide (C.deployments.csvHeight ≤ index.nHeight), false⟩
    medianTimeAt := medianTimeAt C.heap pindex
    nBlockTime
    fScriptChecks := !C.assumedValid pindex }

def checkCoinbaseAmount (nHeight : ℕ) (nFees : ℤ) : Except BlockFailure Unit := do
  let blockReward ← BlockFailure.liftTx
    (addAmounts nFees (getBlockSubsidy nHeight C.network.nSubsidyHalvingInterval))
  match block.vtx with
  | [] => .error (.fault .outOfRange)
  | coinbase :: _ => do
    let value ← BlockFailure.liftTx coinbase.getValueOut
    if blockReward < value then .error (.consensus "bad-cb-amount") else .ok ()

def connectTransactions (index : IndexNode) (pprev : Uint256)
    (view : CoinsView) : Except BlockFailure Connecting := do
  checkBip30 C block pprev index.nHeight view
  let rules ← BlockFailure.liftFault (blockRules C pindex index pprev)
  let s ← block.vtx.foldlM (connectTx C rules) ⟨0, 0, [], view⟩
  checkCoinbaseAmount C block index.nHeight s.nFees
  .ok s

def connectWork (pprev : Option Uint256) : Except BlockFailure Unit :=
  if block.header.getHash C.hashes ≠ C.network.params.hashGenesisBlock ∧
      block.header.getAlgo = .randomX then do
    let pprev ← BlockFailure.liftFault (derefPtr pprev)
    BlockFailure.liftRejection
      (checkContextualRandomXProofOfWork C.hashes C.network.params C.heap block.header pprev true)
  else .ok ()

def connectBlock (view : CoinsView) :
    Except BlockFailure (CBlockUndo × CoinsView) := do
  let index ← BlockFailure.liftFault (C.heap.deref pindex)
  if pindex ≠ block.header.getHash C.hashes then .error (.fault .assertion)
  else do
    checkBlock C block
    connectWork C block index.pprev
    if index.pprev.getD 0 ≠ view.bestBlock then .error (.fault .assertion)
    else if pindex = C.network.params.hashGenesisBlock then .ok ([], view.setBestBlock pindex)
    else do
      let pprev ← BlockFailure.liftFault (derefPtr index.pprev)
      let s ← connectTransactions C block pindex index pprev view
      .ok (s.vtxundo.tail, s.view.setBestBlock pindex)

end
end Vexta
