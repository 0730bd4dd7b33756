import Vexta.Coins.CoinsView
import Vexta.Consensus.TxVerify
import Vexta.Lib.Writes

/-! The effect of a transaction on the coins, the undo data it leaves, and its undoing. -/
namespace Vexta
open Lib

structure CBlock where
  header : CBlockHeader
  vtx : List CTransaction

abbrev CTxUndo := List Coin

abbrev CBlockUndo := List CTxUndo

inductive CoinsFailure
  | coins (error : CoinsError)
  | fault (fault : Fault)
  | disconnectFailed
  deriving DecidableEq, Repr

def liftCoins {α : Type} : Except CoinsError α → Except CoinsFailure α
  | .ok a => .ok a
  | .error e => .error (.coins e)

section
variable (X : Crypto) (tx : CTransaction)

def CTransaction.created (nHeight : ℕ) : List (COutPoint × Coin) :=
  tx.vout.zipIdx.map fun (txout, i) =>
    (⟨tx.getHash X, BitVec.ofNat 32 i⟩, ⟨txout, tx.isCoinBase, nHeight⟩)

variable (view : CoinsView)

def addCoins (tx : CTransaction) (nHeight : ℕ) (checkForOverwrite : Bool) :
    Except CoinsError CoinsView :=
  (tx.created X nHeight).foldlM (fun view (outpoint, coin) =>
    view.addCoin outpoint coin
      (if checkForOverwrite then view.haveCoin outpoint else tx.isCoinBase)) view

def spendInputs : CoinsView → List COutPoint → Except Fault (CTxUndo × CoinsView)
  | view, [] => .ok ([], view)
  | view, prevout :: prevouts =>
    match view.contents prevout with
    | none => .error .assertion
    | some coin => do
      let (txundo, view) ← spendInputs (view.spendCoin prevout) prevouts
      .ok (coin :: txundo, view)

def CTransaction.prevouts : List COutPoint :=
  if tx.isCoinBase then [] else tx.vin.map CTxIn.prevout

def updateCoins (nHeight : ℕ) :
    Except CoinsFailure (CTxUndo × CoinsView) :=
  match spendInputs view tx.prevouts with
  | .error fault => .error (.fault fault)
  | .ok (txundo, view) => do
    let view ← liftCoins (addCoins X view tx nHeight false)
    .ok (txundo, view)

def maxOutputsPerBlock : ℕ := maxBlockWeight / 36

def accessByTxid (txid : Uint256) : Option Coin :=
  (List.range maxOutputsPerBlock).findSome? fun n => view.contents ⟨txid, BitVec.ofNat 32 n⟩

def undoMetadata (out : COutPoint) (undo : Coin) : Option Coin :=
  if undo.nHeight = 0 then
    (accessByTxid view out.hash).map fun alternate =>
      { undo with nHeight := alternate.nHeight, fCoinBase := alternate.fCoinBase }
  else some undo

structure Disconnecting where
  fClean : Bool
  view : CoinsView
  deriving DecidableEq

def applyTxInUndo (s : Disconnecting) (input : COutPoint × Coin) :
    Except CoinsFailure Disconnecting :=
  let (out, undo) := input
  let fClean := !s.view.haveCoin out
  match undoMetadata s.view out undo with
  | none => .error .disconnectFailed
  | some undo => do
    let view ← liftCoins (s.view.addCoin out undo (!fClean))
    .ok ⟨s.fClean && fClean, view⟩

def removeOutput (s : Disconnecting) (output : COutPoint × Coin) : Disconnecting :=
  let (out, coin) := output
  if coin.out.scriptPubKey.isUnspendable then s
  else ⟨s.fClean && decide (s.view.contents out = some coin), s.view.spendCoin out⟩

def disconnectTx (nHeight : ℕ) (s : Disconnecting) (entry : CTransaction × Option CTxUndo) :
    Except CoinsFailure Disconnecting :=
  let (tx, txundo) := entry
  let s := (tx.created X nHeight).foldl removeOutput s
  match txundo with
  | none => .ok s
  | some vprevout =>
    if vprevout.length ≠ tx.vin.length then .error .disconnectFailed
    else ((tx.vin.map CTxIn.prevout).zip vprevout).reverse.foldlM applyTxInUndo s

/-- `DisconnectBlock`, of a block at a height over its parent. -/
def disconnectBlock (block : CBlock) (nHeight : ℕ) (pprev : Option Uint256) (blockUndo : CBlockUndo)
    (view : CoinsView) : Except CoinsFailure Disconnecting :=
  match pprev with
  -- genesis has no undo data to read
  | none => .error .disconnectFailed
  | some pprev =>
    if blockUndo.length + 1 ≠ block.vtx.length then .error .disconnectFailed
    else do
      let s ← (block.vtx.zip (none :: blockUndo.map some)).reverse.foldlM (disconnectTx X nHeight)
        ⟨true, view⟩
      .ok { s with view := s.view.setBestBlock pprev }

def rollforwardTx (nHeight : ℕ) (view : CoinsView) (tx : CTransaction) :
    Except CoinsError CoinsView :=
  addCoins X (tx.prevouts.foldl CoinsView.spendCoin view) tx nHeight true

end
end Vexta
