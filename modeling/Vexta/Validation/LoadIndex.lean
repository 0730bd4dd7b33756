import Vexta.Validation.BlockManager

/-! The block index on disk, and its rebuilding at start-up. -/
namespace Vexta
open Lib Uint256

/-- `CDiskBlockIndex`: the fields that are written. -/
structure CDiskBlockIndex where
  nHeight : ℕ
  nStatus : BlockStatus
  nTx : ℕ
  nFile : ℕ
  nDataPos : ℕ
  nUndoPos : ℕ
  nVersion : BitVec 32
  hashPrev : Uint256
  hashMerkleRoot : Uint256
  nTime : BitVec 32
  nBits : BitVec 32
  nNonce : BitVec 32

namespace CDiskBlockIndex

/-- What is read back of a written index; positions only if in use. -/
def ofIndex (index : CBlockIndex) : CDiskBlockIndex where
  nHeight := index.nHeight
  nStatus := index.nStatus
  nTx := index.nTx
  nFile := if index.nStatus.haveData || index.nStatus.haveUndo then index.nFile else 0
  nDataPos := if index.nStatus.haveData then index.nDataPos else 0
  nUndoPos := if index.nStatus.haveUndo then index.nUndoPos else 0
  nVersion := index.nVersion
  hashPrev := index.pprev.getD 0
  hashMerkleRoot := index.hashMerkleRoot
  nTime := index.nTime
  nBits := index.nBits
  nNonce := index.nNonce

def getBlockHash (X : HeaderHashes) (disk : CDiskBlockIndex) : Uint256 :=
  CBlockHeader.getHash X
    { nVersion := disk.nVersion
      hashPrevBlock := disk.hashPrev
      hashMerkleRoot := disk.hashMerkleRoot
      nTime := disk.nTime
      nBits := disk.nBits
      nNonce := disk.nNonce }

end CDiskBlockIndex

def CBlockIndex.null : CBlockIndex :=
  .ofHeader
    { nVersion := 0, hashPrevBlock := 0, hashMerkleRoot := 0, nTime := 0, nBits := 0, nNonce := 0 }

variable (blocks : BlockMap)

def insertBlockIndex (hash : Uint256) : Option Uint256 × BlockMap :=
  if hash = 0 then (none, blocks)
  else match blocks.lookup hash with
    | some _ => (some hash, blocks)
    | none => (some hash, blocks.insert hash .null)

def readFields (pprev : Option Uint256) (disk : CDiskBlockIndex) (index : CBlockIndex) :
    CBlockIndex :=
  { index with
    pprev := pprev
    nHeight := disk.nHeight
    nFile := disk.nFile
    nDataPos := disk.nDataPos
    nUndoPos := disk.nUndoPos
    nVersion := disk.nVersion
    hashMerkleRoot := disk.hashMerkleRoot
    nTime := disk.nTime
    nBits := disk.nBits
    nNonce := disk.nNonce
    nStatus := disk.nStatus
    nTx := disk.nTx }

def loadDiskIndex (X : HeaderHashes) (blocks : BlockMap) (disk : CDiskBlockIndex) :
    Except Fault BlockMap := do
  let new := insertBlockIndex blocks (disk.getBlockHash X)
  let prev := insertBlockIndex new.2 disk.hashPrev
  let pindexNew ← derefPtr new.1
  .ok (prev.2.modify pindexNew (readFields prev.1 disk))

variable (addr : Uint256 → ℕ)

def HeightOrder (p q : Uint256) : Prop :=
  let height := fun p => (blocks.lookup p).elim 0 fun index => index.nHeight
  height p < height q ∨ height p = height q ∧ addr p ≤ addr q

instance (blocks : BlockMap) (addr : Uint256 → ℕ) : DecidableRel (HeightOrder blocks addr) :=
  fun _ _ => inferInstanceAs (Decidable (_ < _ ∨ _ = _ ∧ _ ≤ _))

def workLess (a : Uint256) (pa : CBlockIndex) (b : Uint256)
    (pb : CBlockIndex) : Bool :=
  if pb.nChainWork < pa.nChainWork then false
  else if pa.nChainWork < pb.nChainWork then true
  else if pa.nSequenceId < pb.nSequenceId then false
  else if pb.nSequenceId < pa.nSequenceId then true
  else addr b < addr a

def loadBestHeader (blocks : BlockMap) (bestHeader : Option Uint256)
    (pindex : Uint256) (index : CBlockIndex) : Except Fault (Option Uint256) :=
  if index.nStatus.isValid BlockStatus.validTree then
    match bestHeader with
    | none => .ok (some pindex)
    | some best => do
      let bestIndex ← derefPtr (blocks.lookup best)
      .ok (some (if workLess addr best bestIndex pindex index then pindex else best))
  else .ok bestHeader

def prevIndex : Option Uint256 → Except Fault (Option CBlockIndex)
  | none => .ok none
  | some pprev => some <$> derefPtr (blocks.lookup pprev)

def loadChainTx (prev : Option CBlockIndex) (index : CBlockIndex) : ℕ × Bool :=
  if 0 < index.nTx then
    match prev with
    | some prev =>
      if prev.haveTxsDownloaded then ((prev.nChainTx + index.nTx) % 2 ^ 32, false)
      else (0, true)
    | none => (index.nTx, false)
  else (index.nChainTx, false)

def loadStatus (prev : Option CBlockIndex) (nStatus : BlockStatus) : BlockStatus :=
  match prev with
  | none => nStatus
  | some prev =>
    if ¬ nStatus.failed ∧ prev.nStatus.failed then { nStatus with failedChild := true }
    else nStatus

/-- One iteration of `LoadBlockIndex`, seen by later ones only. -/
def loadIndex (params : Params) (addr : Uint256 → ℕ) (blockman : BlockManager)
    (pindex : Uint256) : Except Fault BlockManager := do
  let index ← derefPtr (blockman.blockIndex.lookup pindex)
  let lastAlgoBlocks ← copyLastAlgoBlocks blockman.heap pindex index.toIndexNode
  let nChainWork ← computeChainWork params blockman.heap index.toIndexNode
  let nTimeMax ← computeTimeMax blockman.heap index.toIndexNode
  let prev ← prevIndex blockman.blockIndex index.pprev
  let (nChainTx, waits) := loadChainTx prev index
  let nStatus := loadStatus prev index.nStatus
  let pskip ← buildSkip blockman.heap index.pprev index.nHeight
  let loaded : CBlockIndex :=
    { index with lastAlgoBlocks, nChainWork, nTimeMax, nChainTx, nStatus, pskip }
  let bestHeader ←
    loadBestHeader addr blockman.blockIndex blockman.bestHeader pindex loaded
  .ok { blockman with
    blockIndex := blockman.blockIndex.insert pindex loaded
    blocksUnlinked := match index.pprev with
      | some pprev =>
        if waits then blockman.blocksUnlinked ++ [(pprev, pindex)] else blockman.blocksUnlinked
      | none => blockman.blocksUnlinked
    bestHeader }

def loadBlockIndex (X : HeaderHashes) (params : Params) (addr : Uint256 → ℕ)
    (records : List CDiskBlockIndex) : Except Fault BlockManager := do
  let blocks ← records.foldlM (loadDiskIndex X) ∅
  let vSortedByHeight := blocks.keys.insertionSort (HeightOrder blocks addr)
  vSortedByHeight.foldlM (loadIndex params addr) { BlockManager.empty with blockIndex := blocks }

end Vexta
