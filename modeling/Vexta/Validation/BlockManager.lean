import Vexta.Chain.Proof
import Vexta.Lib.Assoc

/-! The block manager: the map of block indices and the insertion of a header. -/
namespace Vexta
open Lib Uint256 Option

structure BlockStatus where
  valid : ℕ
  haveData : Bool
  haveUndo : Bool
  failedValid : Bool
  failedChild : Bool
  optWitness : Bool
  deriving DecidableEq, Repr

namespace BlockStatus

def validTree : ℕ := 2
def validTransactions : ℕ := 3
def validScripts : ℕ := 5

variable (status : BlockStatus)

def failed : Bool := status.failedValid || status.failedChild

def isValid (nUpTo : ℕ) : Bool :=
  if status.failed then false else nUpTo ≤ status.valid

def raiseValidity (nUpTo : ℕ) : BlockStatus :=
  if status.failed then status
  else if status.valid < nUpTo then { status with valid := nUpTo } else status

end BlockStatus

structure CBlockIndex extends IndexNode where
  nFile : ℕ
  nDataPos : ℕ
  nUndoPos : ℕ
  nTx : ℕ
  nChainTx : ℕ
  nStatus : BlockStatus
  nSequenceId : ℤ
  deriving DecidableEq, Repr

namespace CBlockIndex

def ofHeader (block : CBlockHeader) : CBlockIndex where
  pprev := none
  pskip := none
  nHeight := 0
  nChainWork := 0
  nVersion := block.nVersion
  hashMerkleRoot := block.hashMerkleRoot
  nTime := block.nTime
  nBits := block.nBits
  nNonce := block.nNonce
  nTimeMax := 0
  lastAlgoBlocks := ⟨none, none⟩
  nFile := 0
  nDataPos := 0
  nUndoPos := 0
  nTx := 0
  nChainTx := 0
  nStatus := ⟨0, false, false, false, false, false⟩
  nSequenceId := 0

def haveTxsDownloaded (index : CBlockIndex) : Bool := index.nChainTx ≠ 0

end CBlockIndex

def IndexNode.getBlockHeader (index : IndexNode) : CBlockHeader where
  nVersion := index.nVersion
  hashPrevBlock := index.pprev.getD 0
  hashMerkleRoot := index.hashMerkleRoot
  nTime := index.nTime
  nBits := index.nBits
  nNonce := index.nNonce

abbrev BlockMap := AList fun _ : Uint256 => CBlockIndex

namespace BlockMap

variable (blocks : BlockMap)

def heap : Heap := fun p => (blocks.lookup p).map CBlockIndex.toIndexNode

def modify (p : Uint256) (f : CBlockIndex → CBlockIndex) : BlockMap :=
  match blocks.lookup p with
  | some index => blocks.insert p (f index)
  | none => blocks

theorem heap_eq_some {blocks : BlockMap} {p : Uint256} {node : IndexNode} :
    blocks.heap p = some node ↔
      ∃ index, blocks.lookup p = some index ∧ index.toIndexNode = node := by
  unfold heap
  simp [map_eq_some_iff]

theorem heap_insert (p : Uint256) (index : CBlockIndex) (q : Uint256) :
    BlockMap.heap (blocks.insert p index) q =
      if q = p then some index.toIndexNode else blocks.heap q := by
  unfold heap
  split_ifs with h
  · rw [h, AList.lookup_insert]
    rfl
  · rw [AList.lookup_insert_ne h]

theorem lookup_modify (p : Uint256) (f : CBlockIndex → CBlockIndex)
    (q : Uint256) :
    (blocks.modify p f).lookup q =
      if q = p then (blocks.lookup p).map f else blocks.lookup q := by
  unfold modify
  cases hp : blocks.lookup p with
  | none =>
    split_ifs with h
    · rw [h, hp]
      rfl
    · rfl
  | some index =>
    split_ifs with h
    · rw [h, AList.lookup_insert]
      rfl
    · rw [AList.lookup_insert_ne h]

def SameUnder {β : Type} (view : CBlockIndex → β) (blocks blocks' : BlockMap) : Prop :=
  ∀ p, (blocks'.lookup p).map view = (blocks.lookup p).map view

namespace SameUnder
variable {β γ : Type} {view : CBlockIndex → β} {b₁ b₂ b₃ : BlockMap}

theorem refl (view : CBlockIndex → β) (blocks : BlockMap) : SameUnder view blocks blocks :=
  fun _ => rfl

theorem trans (h₁ : SameUnder view b₁ b₂) (h₂ : SameUnder view b₂ b₃) : SameUnder view b₁ b₃ :=
  fun p => (h₂ p).trans (h₁ p)

theorem comp (h : SameUnder view b₁ b₂) (g : β → γ) : SameUnder (g ∘ view) b₁ b₂ := by
  intro p
  rw [← map_map, ← map_map, h p]

theorem modify (blocks : BlockMap) (p : Uint256) {f : CBlockIndex → CBlockIndex}
    (hf : ∀ index, view (f index) = view index) : SameUnder view blocks (blocks.modify p f) := by
  intro q
  rw [lookup_modify]
  split_ifs with h
  · rw [h]
    cases blocks.lookup p with
    | none => rfl
    | some index => exact congrArg some (hf index)
  · rfl

theorem heap_eq (h : SameUnder CBlockIndex.toIndexNode b₁ b₂) : b₂.heap = b₁.heap := funext h

theorem exists_of_lookup (h : SameUnder view b₁ b₂) {p : Uint256} {index : CBlockIndex}
    (hp : b₂.lookup p = some index) :
    ∃ old, b₁.lookup p = some old ∧ view index = view old := by
  have hview := h p
  rw [hp, map_some] at hview
  obtain ⟨old, hold, heq⟩ := map_eq_some_iff.mp hview.symm
  exact ⟨old, hold, heq.symm⟩

end SameUnder

theorem heap_modify (blocks : BlockMap) (p : Uint256) {f : CBlockIndex → CBlockIndex}
    (hf : ∀ index, (f index).toIndexNode = index.toIndexNode) :
    (blocks.modify p f).heap = blocks.heap :=
  (SameUnder.modify blocks p hf).heap_eq

end BlockMap

/-- `BlockManager` with `pindexBestHeader`; parents have waiting children. -/
structure BlockManager where
  blockIndex : BlockMap
  failedBlocks : List Uint256
  blocksUnlinked : List (Uint256 × Uint256)
  bestHeader : Option Uint256

namespace BlockManager

def empty : BlockManager := ⟨∅, [], [], none⟩

def heap (blockman : BlockManager) : Heap := blockman.blockIndex.heap

end BlockManager

def buildSkip (H : Heap) (pprev : Option Uint256) (nHeight : ℕ) :
    Except Fault (Option Uint256) :=
  match pprev with
  | none => .ok none
  | some pprev => getAncestor H pprev (getSkipHeight nHeight)

def fromPrev {α : Type} (H : Heap) (pprev : Option Uint256) (default : α) (f : IndexNode → α) :
    Except Fault α :=
  match pprev with
  | none => .ok default
  | some pprev => f <$> H.deref pprev

def copyLastAlgoBlocks (H : Heap) (hash : Uint256) (index : IndexNode) :
    Except Fault LastAlgoBlocks := do
  let blocks ← fromPrev H index.pprev index.lastAlgoBlocks IndexNode.lastAlgoBlocks
  .ok (blocks.set hash index.getAlgo)

def computeTimeMax (H : Heap) (index : IndexNode) : Except Fault ℕ :=
  fromPrev H index.pprev index.nTime.toNat fun prev => max prev.nTimeMax index.nTime.toNat

def computeChainWork (params : Params) (H : Heap) (index : IndexNode) : Except Fault ℕ := do
  let base ← fromPrev H index.pprev 0 IndexNode.nChainWork
  let proof ← getBlockProof .machine params H index
  .ok ((base + proof) % 2 ^ 256)

def linkIndex (params : Params) (H : Heap) (hash : Uint256) (block : CBlockHeader) :
    Except Fault IndexNode := do
  let fresh := (CBlockIndex.ofHeader block).toIndexNode
  let index : IndexNode := match H block.hashPrevBlock with
    | none => fresh
    | some prev =>
      { fresh with pprev := some block.hashPrevBlock, nHeight := prev.nHeight + 1 }
  let pskip ← buildSkip H index.pprev index.nHeight
  let lastAlgoBlocks ← copyLastAlgoBlocks H hash index
  let nTimeMax ← computeTimeMax H index
  let nChainWork ← computeChainWork params H index
  .ok { index with pskip, lastAlgoBlocks, nTimeMax, nChainWork }

def updateBestHeader (H : Heap) (bestHeader : Option Uint256) (hash : Uint256)
    (nChainWork : ℕ) : Except Fault (Option Uint256) :=
  match bestHeader with
  | none => .ok (some hash)
  | some best => do
    let index ← H.deref best
    .ok (some (if index.nChainWork < nChainWork then hash else best))

/-- `AddToBlockIndex`. The new index is in the map already. -/
def addToBlockIndex (X : HeaderHashes) (params : Params) (blockman : BlockManager)
    (block : CBlockHeader) : Except Fault (Uint256 × BlockManager) :=
  let hash := block.getHash X
  match blockman.blockIndex.lookup hash with
  | some _ => .ok (hash, blockman)
  | none => do
    let fresh := CBlockIndex.ofHeader block
    let inserted : BlockMap := blockman.blockIndex.insert hash fresh
    let H := if block.hashPrevBlock = hash then inserted.heap else blockman.heap
    let node ← linkIndex params H hash block
    let nStatus := fresh.nStatus.raiseValidity BlockStatus.validTree
    let bestHeader ← updateBestHeader H blockman.bestHeader hash node.nChainWork
    .ok (hash, { blockman with
      blockIndex := inserted.insert hash { fresh with toIndexNode := node, nStatus }
      bestHeader })

end Vexta
