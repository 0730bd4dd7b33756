import Vexta.Validation.HeaderRun

/-! Block data arrives in any order. -/
namespace Vexta
open Lib Uint256

structure FlatFilePos where
  nFile : ℕ
  nPos : ℕ

structure ChainState where
  blockman : BlockManager
  nBlockSequenceId : ℤ

def prevChainTx (blocks : BlockMap) : Option Uint256 → Except Fault ℕ
  | none => .ok 0
  | some pprev => CBlockIndex.nChainTx <$> derefPtr (blocks.lookup pprev)

def linkQueue : ℕ → ChainState → List Uint256 → Except Fault ChainState
  | _, state, [] => .ok state
  | 0, _, _ :: _ => .error .outOfFuel
  | fuel + 1, state, pindex :: queue => do
    let index ← derefPtr (state.blockman.blockIndex.lookup pindex)
    let base ← prevChainTx state.blockman.blockIndex index.pprev
    let blocks := state.blockman.blockIndex.modify pindex fun index =>
      { index with
        nChainTx := (base + index.nTx) % 2 ^ 32
        nSequenceId := state.nBlockSequenceId }
    let ready := state.blockman.blocksUnlinked.filter fun entry => entry.1 = pindex
    let waiting := state.blockman.blocksUnlinked.filter fun entry => ¬ entry.1 = pindex
    linkQueue fuel
      ⟨{ state.blockman with blockIndex := blocks, blocksUnlinked := waiting },
        state.nBlockSequenceId + 1⟩
      (queue ++ ready.map Prod.snd)

def markReceived (params : Params) (nTx : ℕ) (pos : FlatFilePos) (index : CBlockIndex) :
    CBlockIndex :=
  let nStatus := { index.nStatus with
    haveData := true
    optWitness := index.nStatus.optWitness || decide (params.segwitHeight ≤ index.nHeight) }
  { index with
    nTx := nTx % 2 ^ 32
    nChainTx := 0
    nFile := pos.nFile
    nDataPos := pos.nPos
    nUndoPos := 0
    nStatus := nStatus.raiseValidity BlockStatus.validTransactions }

def receivedBlockTransactions (params : Params) (state : ChainState) (pindexNew : Uint256)
    (nTx : ℕ) (pos : FlatFilePos) : Except Fault ChainState := do
  let index ← derefPtr (state.blockman.blockIndex.lookup pindexNew)
  let blocks := state.blockman.blockIndex.modify pindexNew (markReceived params nTx pos)
  let unlinked := state.blockman.blocksUnlinked
  let received := { state with blockman := { state.blockman with blockIndex := blocks } }
  match index.pprev with
  | none => linkQueue (unlinked.length + 1) received [pindexNew]
  | some pprev => do
    let prev ← derefPtr (blocks.lookup pprev)
    if prev.haveTxsDownloaded then linkQueue (unlinked.length + 1) received [pindexNew]
    else if prev.nStatus.isValid BlockStatus.validTree then
      .ok { received with blockman :=
        { received.blockman with blocksUnlinked := unlinked ++ [(pprev, pindexNew)] } }
    else .ok received

end Vexta
