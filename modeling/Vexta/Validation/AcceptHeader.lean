import Vexta.Validation.BlockManager

/-! Header acceptance: the two checks and the insertion into the tree. -/
namespace Vexta
open Lib Uint256

/-- The values of `BlockValidationResult` header validation sets. -/
inductive BlockValidationResult
  | invalidHeader
  | cachedInvalid
  | missingPrev
  | invalidPrev
  | checkpoint
  | timeFuture
  deriving DecidableEq, Repr

/-- What a failed check leaves: `state.Invalid` or `state.Error`. -/
inductive Rejection
  | invalid (result : BlockValidationResult) (reason : String)
  | error (reason : String)
  deriving DecidableEq, Repr

def maxFutureBlockTime : ℤ := 2 * 60 * 60

def versionBitsTopBits : ℤ := 0x20000000

def checkProofOfWork (hash : Uint256) (nBits : BitVec 32) (params : Params) :
    Except Fault Bool := do
  let bnTarget ← setCompact .machine nBits.toNat
  if bnTarget.negative ∨ bnTarget.target = 0 ∨ bnTarget.overflow ∨
      params.powLimit.toNat < bnTarget.target then .ok false
  else if bnTarget.target < hash.toNat then .ok false
  else .ok true

def getRandomXSeedHeight (blockHeight : ℤ) (params : Params) : Except Fault ℤ :=
  if blockHeight ≤ 0 then .ok 0
  else do
    let epochLength ← readParam params.randomXSeedEpochLength
    let seedLag ← readParam params.randomXSeedLag
    if epochLength ≤ 0 ∨ seedLag < 0 then .ok 0
    else
      let epochStart := blockHeight.tdiv epochLength * epochLength
      .ok (if epochStart ≤ seedLag then 0 else epochStart - seedLag)

def getRandomXSeed (H : Heap) (pindexPrev : Uint256) (blockHeight : ℤ) (params : Params) :
    Except Fault (Option Uint256) := do
  let prev ← H.deref pindexPrev
  let seedHeight ← getRandomXSeedHeight blockHeight params
  if (prev.nHeight : ℤ) < seedHeight then .ok none
  else getAncestor H pindexPrev seedHeight

section
variable (X : HeaderHashes) (params : Params) (H : Heap) (block : CBlockHeader)

variable (pindexPrev : Uint256)

def checkRandomXProofOfWork :
    Except Fault (Option Rejection) := do
  let prev ← H.deref pindexPrev
  let seed? ← getRandomXSeed H pindexPrev (prev.nHeight + 1) params
  match seed? with
  | none => .ok (some (.error "failed to resolve RandomX seed"))
  | some seed =>
    match block.getRandomXPoWHash X seed with
    | none => .ok (some (.error "failed to calculate RandomX proof of work hash"))
    | some powHash => do
      let passed ← checkProofOfWork powHash block.nBits params
      .ok (if passed then none else some (.invalid .invalidHeader "high-hash"))

variable (fCheckPOW : Bool)

def checkContextualRandomXProofOfWork : Except Fault (Option Rejection) :=
  if block.getAlgo ≠ .randomX then .error .assertion
  else do
    let prev ← H.deref pindexPrev
    let randomXActivationHeight ← readParam params.randomXActivationHeight
    if (prev.nHeight : ℤ) + 1 < randomXActivationHeight then
      .ok (some (.invalid .invalidHeader "algo-inactive"))
    else do
      let required ← getNextWorkRequired .machine params H (some pindexPrev) .randomX
      if block.nBits.toNat ≠ required then
        .ok (some (.invalid .invalidHeader "bad-diffbits"))
      else if ¬ fCheckPOW then .ok none
      else checkRandomXProofOfWork X params H block pindexPrev

def checkBlockHeader :
    Except Fault (Option Rejection) :=
  let checkHash : Except Fault (Option Rejection) := do
    let passed ← checkProofOfWork (block.getHash X) block.nBits params
    .ok (if passed then none else some (.invalid .invalidHeader "high-hash"))
  if ¬ fCheckPOW then .ok none
  else if block.getHash X = params.hashGenesisBlock then checkHash
  else
    match block.getAlgo with
    | .sha256d => checkHash
    | .randomX => .ok none
    | .unknown => .ok (some (.invalid .invalidHeader "unknown-pow-algo"))

def checkContextualWork :
    Except Fault (Option Rejection) :=
  match block.getAlgo with
  | .randomX => checkContextualRandomXProofOfWork X params H block pindexPrev fCheckPOW
  | .sha256d => do
    let required ← getNextWorkRequired .machine params H (some pindexPrev) .sha256d
    .ok (if block.nBits.toNat ≠ required then some (.invalid .invalidHeader "bad-diffbits")
      else none)
  | .unknown => .ok (some (.invalid .invalidHeader "unknown-pow-algo"))

variable (checkpoints : List (ℤ × Uint256))

def getLastCheckpoint : Option IndexNode :=
  checkpoints.reverse.findSome? fun checkpoint => H checkpoint.2

def checkContextualTime (fCheckpointsEnabled : Bool)
    (block : CBlockHeader) (pindexPrev : Uint256) (nAdjustedTime : ℤ) :
    Except Fault (Option Rejection) := do
  let prev ← H.deref pindexPrev
  let forked : Bool := match getLastCheckpoint H checkpoints with
    | some pcheckpoint => prev.nHeight + 1 < pcheckpoint.nHeight
    | none => false
  if fCheckpointsEnabled ∧ forked then
    .ok (some (.invalid .checkpoint "bad-fork-prior-to-checkpoint"))
  else do
    let medianTimePast ← getMedianTimePast H pindexPrev
    if (block.nTime.toNat : ℤ) ≤ medianTimePast then
      .ok (some (.invalid .invalidHeader "time-too-old"))
    else if nAdjustedTime + maxFutureBlockTime < block.nTime.toNat then
      .ok (some (.invalid .timeFuture "time-too-new"))
    else if block.nVersion.toInt < versionBitsTopBits ∧
        params.segwitHeight ≤ (prev.nHeight : ℤ) + 1 then
      .ok (some (.invalid .invalidHeader ("bad-version(0x" ++ block.nVersion.toHex ++ ")")))
    else .ok none

def contextualCheckBlockHeader (fCheckpointsEnabled : Bool)
    (block : CBlockHeader) (pindexPrev : Uint256) (nAdjustedTime : ℤ) (fCheckPOW : Bool) :
    Except Fault (Option Rejection) := do
  let work ← checkContextualWork X params H block pindexPrev fCheckPOW
  match work with
  | some rejection => .ok (some rejection)
  | none =>
    checkContextualTime params H checkpoints fCheckpointsEnabled block pindexPrev nAdjustedTime

def findFailedAncestor (pindexPrev : Uint256) : List Uint256 → Except Fault (Option Uint256)
  | [] => .ok none
  | failedit :: rest => do
    let index ← H.deref failedit
    let ancestor ← getAncestor H pindexPrev index.nHeight
    if ancestor = some failedit then .ok (some failedit)
    else findFailedAncestor pindexPrev rest

end

def markFailedChild (failedit : Uint256) : ℕ → BlockMap → Uint256 → Except Fault BlockMap
  | 0, _, _ => .error .outOfFuel
  | fuel + 1, blocks, invalidWalk =>
    if invalidWalk = failedit then .ok blocks
    else do
      let index ← blocks.heap.deref invalidWalk
      let marked := blocks.modify invalidWalk fun index =>
        { index with nStatus := { index.nStatus with failedChild := true } }
      let pprev ← derefPtr index.pprev
      markFailedChild failedit fuel marked pprev

/-- The settings of header acceptance that a run does not change. -/
structure NodeConfig where
  hashes : HeaderHashes
  network : Network
  fCheckpointsEnabled : Bool

/-- `AcceptBlockHeader` looks for a failed ancestor and marks the way. -/
def rejectFailedAncestor (blockman : BlockManager) (pindexPrev : Uint256) :
    Except Fault (Option BlockMap) := do
  let prev ← derefPtr (blockman.blockIndex.lookup pindexPrev)
  if prev.nStatus.isValid BlockStatus.validScripts then .ok none
  else do
    let failed? ← findFailedAncestor blockman.heap pindexPrev blockman.failedBlocks
    match failed? with
    | none => .ok none
    | some failedit => do
      let index ← derefPtr (blockman.blockIndex.lookup failedit)
      if ¬ index.nStatus.failedValid then .error .assertion
      else some <$>
        markFailedChild failedit (prev.nHeight + 1) blockman.blockIndex pindexPrev

/-- `AcceptBlockHeader`: the index or the rejection, and the block manager. -/
def acceptBlockHeader (config : NodeConfig) (blockman : BlockManager) (block : CBlockHeader)
    (nAdjustedTime : ℤ) : Except Fault (Except Rejection Uint256 × BlockManager) :=
  let params := config.network.params
  let hash := block.getHash config.hashes
  let add : Except Fault (Except Rejection Uint256 × BlockManager) := do
    let added ← addToBlockIndex config.hashes params blockman block
    .ok (.ok added.1, added.2)
  if hash = params.hashGenesisBlock then add
  else
    match blockman.blockIndex.lookup hash with
    | some index =>
      .ok (if index.nStatus.failed then .error (.invalid .cachedInvalid "duplicate")
        else .ok hash, blockman)
    | none => do
      let checked ← checkBlockHeader config.hashes params block true
      match checked with
      | some rejection => .ok (.error rejection, blockman)
      | none =>
        match blockman.blockIndex.lookup block.hashPrevBlock with
        | none => .ok (.error (.invalid .missingPrev "prev-blk-not-found"), blockman)
        | some prev =>
          if prev.nStatus.failed then
            .ok (.error (.invalid .invalidPrev "bad-prevblk"), blockman)
          else do
            let contextual ← contextualCheckBlockHeader config.hashes params blockman.heap
              config.network.checkpoints config.fCheckpointsEnabled block block.hashPrevBlock
              nAdjustedTime true
            match contextual with
            | some rejection => .ok (.error rejection, blockman)
            | none => do
              let marked ← rejectFailedAncestor blockman block.hashPrevBlock
              match marked with
              | some blocks =>
                .ok (.error (.invalid .invalidPrev "bad-prevblk"),
                  { blockman with blockIndex := blocks })
              | none => add

end Vexta
