import Vexta.Validation.AcceptBlock

/-! `LoadExternalBlockFile`: blocks are searched for, and wait for their parents. -/
namespace Vexta
open Lib

def maxBlockSerializedSize : ℕ := 4000000

def Network.messageStart (X : Crypto) : Network → Bytes
  | .main => [0x56, 0x54, 0x58, 0x31]
  | .test => [0x56, 0x54, 0x58, 0x54]
  | .signet challenge => (le 32 (X.hash256 (serializeVector challenge)).toNat).take 4
  | .regtest _ => [0x56, 0x54, 0x58, 0x52]

inductive SearchStep
  | stop
  | again (nRewind : ℕ)
  | found (nBlockPos : ℕ) (block : CBlock) (nRewind : ℕ)

def findByte (file : Bytes) (ch : UInt8) (pos : ℕ) : Option ℕ :=
  ((file.drop pos).findIdx? (· == ch)).map (pos + ·)

/-- The block announced at a position. The end of the file ends the loop. -/
def searchBlock (file : Bytes) (nBlockPos nSize nRewind : ℕ) : SearchStep :=
  match readBlock ((file.drop nBlockPos).take nSize) with
  | .ok (block, rest) => .found nBlockPos block (min (nBlockPos + nSize) file.length - rest.length)
  | .error .endOfData => if file.length < nBlockPos + nSize then .stop else .again nRewind
  | .error .malformed => .again nRewind

def searchStep (messageStart file : Bytes) (nRewind : ℕ) : SearchStep :=
  match findByte file (messageStart.headD 0) nRewind with
  | none => .stop
  | some pos =>
    if file.length < pos + 4 then .stop
    else if (file.drop pos).take 4 ≠ messageStart then .again (pos + 1)
    else if file.length < pos + 8 then .stop
    else
      let nSize := ofLe ((file.drop (pos + 4)).take 4)
      if nSize < 80 ∨ maxBlockSerializedSize < nSize then .again (pos + 1)
      else searchBlock file (pos + 8) nSize (pos + 1)

def searchRounds (messageStart file : Bytes) : ℕ → ℕ → List (ℕ × CBlock)
  | 0, _ => []
  | fuel + 1, nRewind =>
    match searchStep messageStart file nRewind with
    | .stop => []
    | .again nRewind => searchRounds messageStart file fuel nRewind
    | .found nBlockPos block nRewind =>
      (nBlockPos, block) :: searchRounds messageStart file fuel nRewind

def searchFile (messageStart file : Bytes) : List (ℕ × CBlock) :=
  searchRounds messageStart file (file.length + 1) 0

structure Reindex where
  chain : ChainState
  unknownParent : List (Uint256 × FlatFilePos)

namespace ReindexContext
variable (R : ReindexContext)

def checkReadWork (block : CBlock) : Except Fault Bool :=
  if R.hashOf block = R.genesisHash ∨ block.header.getAlgo = .sha256d then
    checkProofOfWork (R.hashOf block) block.header.nBits R.connect.network.params
  else .ok (decide (block.header.getAlgo = .randomX))

variable (files : List Bytes)

def readBlockFromDisk (pos : FlatFilePos) : Except Fault (Option CBlock) :=
  match files[pos.nFile]? with
  | none => .ok none
  | some file =>
    match readBlock (file.drop pos.nPos) with
    | .error _ => .ok none
    | .ok (block, _) => do
      let work ← R.checkReadWork block
      .ok (if work ∧ ¬ (R.connect.network.signetBlocks ∧
        ¬ R.connect.checkSignetBlockSolution block) then some block else none)

def releaseChild (s : ChainState × List Uint256)
    (entry : Uint256 × FlatFilePos) : Except Fault (ChainState × List Uint256) := do
  let block? ← R.readBlockFromDisk files entry.2
  match block? with
  | none => .ok s
  | some block => do
    let (result, chain) ← R.acceptBlock s.1 block entry.2
    .ok (chain, if result = .accepted then s.2 ++ [R.hashOf block] else s.2)

def releaseQueue (files : List Bytes) : ℕ → Reindex → List Uint256 → Except Fault Reindex
  | _, s, [] => .ok s
  | 0, _, _ :: _ => .error .outOfFuel
  | fuel + 1, s, head :: queue => do
    let children := s.unknownParent.filter fun entry => entry.1 = head
    let (chain, released) ← children.foldlM (R.releaseChild files) (s.chain, [])
    releaseQueue files fuel ⟨chain, s.unknownParent.filter fun entry => entry.1 ≠ head⟩
      (queue ++ released)

def activateGenesis (chain : ChainState) : ChainState :=
  { chain with blockman := { chain.blockman with
    blockIndex := chain.blockman.blockIndex.modify R.genesisHash fun index =>
      { index with nStatus := index.nStatus.raiseValidity BlockStatus.validScripts } } }

def processBlock (chain : ChainState) (block : CBlock) (dbp : FlatFilePos) :
    Except Fault (AcceptResult × ChainState) :=
  match chain.blockman.blockIndex.lookup (R.hashOf block) with
  | some index =>
    if index.nStatus.haveData then .ok (.accepted, chain) else R.acceptBlock chain block dbp
  | none => R.acceptBlock chain block dbp

def loadBlock (s : Reindex) (block : CBlock) (dbp : FlatFilePos) :
    Except Fault (Bool × Reindex) :=
  if R.hashOf block ≠ R.genesisHash ∧
      s.chain.blockman.blockIndex.lookup block.header.hashPrevBlock = none then
    .ok (true, { s with unknownParent := s.unknownParent ++ [(block.header.hashPrevBlock, dbp)] })
  else do
    let (result, chain) ← R.processBlock s.chain block dbp
    if result = .error then .ok (false, { s with chain })
    else do
      let chain := if R.hashOf block = R.genesisHash then R.activateGenesis chain else chain
      let s ← R.releaseQueue files (s.unknownParent.length + 1) ⟨chain, s.unknownParent⟩
        [R.hashOf block]
      .ok (true, s)

def loadBlocks (files : List Bytes) (nFile : ℕ) : List (ℕ × CBlock) → Reindex →
    Except Fault Reindex
  | [], s => .ok s
  | (nBlockPos, block) :: rest, s => do
    -- the position is an unsigned number of 32 bits
    let (goOn, s) ← R.loadBlock files s block ⟨nFile, nBlockPos % 2 ^ 32⟩
    if goOn then loadBlocks files nFile rest s else .ok s

def loadExternalBlockFile (s : Reindex) (nFile : ℕ) (file : Bytes) :
    Except Fault Reindex :=
  R.loadBlocks files nFile (searchFile (R.connect.network.messageStart R.connect.crypto) file) s

def reindex : Except Fault Reindex :=
  files.zipIdx.foldlM (fun s p => R.loadExternalBlockFile files s p.2 p.1)
    ⟨⟨BlockManager.empty, 1⟩, []⟩

end ReindexContext
end Vexta
