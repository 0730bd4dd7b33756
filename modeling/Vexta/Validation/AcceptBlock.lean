import Vexta.Connect.Block
import Vexta.Primitives.ReadBlock
import Vexta.Validation.DataRun

/-! The checks that depend on a block's place in the tree, and `AcceptBlock`. -/
namespace Vexta
open Lib

def pushInt64 (n : ℤ) : CScript :=
  if n = -1 ∨ (1 ≤ n ∧ n ≤ 16) then [UInt8.ofNat (n + 0x50).toNat]
  else if n = 0 then [0]
  else UInt8.ofNat (scriptNumSerialize n).length :: scriptNumSerialize n

def isWitnessCommitment (script : CScript) : Bool :=
  decide (38 ≤ script.length) && script.take 6 == [0x6a, 0x24, 0xaa, 0x21, 0xa9, 0xed]

def witnessCommitment (block : CBlock) : Option CScript :=
  match block.vtx with
  | [] => none
  | coinbase :: _ =>
    ((coinbase.vout.map CTxOut.scriptPubKey).filter isWitnessCommitment).getLast?

def blockWitnessMerkleRoot (X : Crypto) (vtx : List CTransaction) : Uint256 :=
  (merkleLoop X vtx.length (0 :: vtx.tail.map (CTransaction.getWitnessHash X)) false).1

def getBlockWeight (block : CBlock) : ℕ :=
  block.strippedSize * (witnessScaleFactor - 1) + block.serialize.length

section
variable (C : ConnectContext) (block : CBlock)

def coinbaseInput : Except BlockFailure CTxIn :=
  match block.vtx with
  | [] => .error (.fault .outOfRange)
  | coinbase :: _ =>
    match coinbase.vin with
    | [] => .error (.fault .outOfRange)
    | txin :: _ => .ok txin

def lockTimeCutoff (H : Heap) (block : CBlock) (pindexPrev : Option Uint256) (nHeight : ℤ) :
    Except BlockFailure ℤ :=
  if C.deployments.csvHeight ≤ nHeight then
    match pindexPrev with
    | none => .error (.fault .assertion)
    | some prev => BlockFailure.liftFault (getMedianTimePast H prev)
  else .ok block.header.nTime.toNat

def checkCoinbaseHeight (nHeight : ℤ) : Except BlockFailure Unit :=
  if C.bip34Height ≤ nHeight then do
    let txin ← coinbaseInput block
    if pushInt64 nHeight <+: txin.scriptSig then .ok () else .error (.consensus "bad-cb-height")
  else .ok ()

def checkWitnessCommitment (nHeight : ℤ) : Except BlockFailure Bool :=
  if C.network.params.segwitHeight ≤ nHeight then
    match witnessCommitment block with
    | none => .ok false
    | some script => do
      let txin ← coinbaseInput block
      match txin.scriptWitness with
      | [nonce] =>
        if nonce.length ≠ 32 then .error (.mutated "bad-witness-nonce-size")
        else
          let hashWitness := C.crypto.hash256
            (le 32 (blockWitnessMerkleRoot C.crypto block.vtx).toNat ++ nonce)
          if le 32 hashWitness.toNat ≠ (script.drop 6).take 32 then
            .error (.mutated "bad-witness-merkle-match")
          else .ok true
      | _ => .error (.mutated "bad-witness-nonce-size")
  else .ok false

def checkUnexpectedWitness (fHaveWitness : Bool) : Except BlockFailure Unit :=
  if ¬ fHaveWitness ∧ block.vtx.any CTransaction.hasWitness then
    .error (.mutated "unexpected-witness")
  else .ok ()

def checkBlockWeight : Except BlockFailure Unit :=
  if maxBlockWeight < getBlockWeight block then .error (.consensus "bad-blk-weight") else .ok ()

def nextHeight (H : Heap) : Option Uint256 → Except Fault ℤ
  | none => .ok 0
  | some prev => (fun index : IndexNode => (index.nHeight : ℤ) + 1) <$> H.deref prev

def contextualCheckBlock (H : Heap) (block : CBlock) (pindexPrev : Option Uint256) :
    Except BlockFailure Unit := do
  let nHeight ← BlockFailure.liftFault (nextHeight H pindexPrev)
  let nLockTimeCutoff ← lockTimeCutoff C H block pindexPrev nHeight
  if block.vtx.any fun tx => !isFinalTx tx nHeight nLockTimeCutoff then
    .error (.consensus "bad-txns-nonfinal")
  else do
    checkCoinbaseHeight C block nHeight
    let fHaveWitness ← checkWitnessCommitment C block nHeight
    checkUnexpectedWitness block fHaveWitness
    checkBlockWeight block

end

/-- What acceptance during a reindex depends on. The clock is read once. -/
structure ReindexContext where
  connect : ConnectContext
  fCheckpointsEnabled : Bool
  nAdjustedTime : ℤ

namespace ReindexContext
variable (R : ReindexContext)

def config : NodeConfig := ⟨R.connect.hashes, R.connect.network, R.fCheckpointsEnabled⟩

def hashOf (block : CBlock) : Uint256 := block.header.getHash R.connect.hashes

def genesisHash : Uint256 := R.connect.network.params.hashGenesisBlock

/-- `AcceptBlock` returns true, or false with a state. -/
inductive AcceptResult
  | accepted
  | invalid
  | error
  deriving DecidableEq

def checkBlockInTree (H : Heap) (block : CBlock) (pprev : Option Uint256) :
    Except BlockFailure Unit := do
  checkBlock R.connect block
  contextualCheckBlock R.connect H block pprev

/-- `AcceptBlock` of a requested block with a known position. -/
def acceptBlock (chain : ChainState) (block : CBlock) (dbp : FlatFilePos) :
    Except Fault (AcceptResult × ChainState) := do
  let (header, blockman) ← acceptBlockHeader R.config chain.blockman block.header R.nAdjustedTime
  let chain := { chain with blockman }
  match header with
  | .error (.error _) => .ok (.error, chain)
  | .error (.invalid _ _) => .ok (.invalid, chain)
  | .ok pindex => do
    let index ← derefPtr (blockman.blockIndex.lookup pindex)
    if index.nStatus.haveData then .ok (.accepted, chain)
    else
      match R.checkBlockInTree blockman.heap block index.pprev with
      | .error (.fault fault) => .error fault
      | .error (.mutated _) => .ok (.invalid, chain)
      | .error (.rejected (.error _)) => .ok (.error, chain)
      | .error _ =>
        .ok (.invalid, { chain with blockman := { blockman with
          blockIndex := blockman.blockIndex.modify pindex fun index =>
            { index with nStatus := { index.nStatus with failedValid := true } } } })
      | .ok () => do
        let chain ← receivedBlockTransactions R.connect.network.params chain pindex
          block.vtx.length dbp
        .ok (.accepted, chain)

end ReindexContext
end Vexta
