import Vexta.Connect.Update
import Vexta.Lib.Worklist

/-! The states of wallet transactions, as notifications and abandoning change them. -/
namespace Vexta
open Lib Option AList

inductive TxStatus
  | unconfirmed
  | confirmed
  | conflicted
  | abandoned
  deriving DecidableEq, Repr

structure Confirmation where
  status : TxStatus
  blockHeight : ℤ
  hashBlock : Uint256
  nIndex : ℕ
  deriving DecidableEq, Repr

def Confirmation.unconfirmed : Confirmation := ⟨.unconfirmed, 0, 0, 0⟩

def Confirmation.abandoned : Confirmation := ⟨.abandoned, 0, 0, 0⟩

structure CWalletTx where
  tx : CTransaction
  confirm : Confirmation
  fInMempool : Bool
  deriving DecidableEq

inductive MemPoolRemovalReason
  | expiry
  | sizeLimit
  | reorg
  | block
  | conflict
  | replaced
  deriving DecidableEq, Repr

def CTransaction.spent (tx : CTransaction) : List COutPoint :=
  if tx.isCoinBase then [] else tx.vin.map CTxIn.prevout

structure WalletTxs (X : Crypto) where
  mapWallet : Assoc Uint256 CWalletTx
  mapTxSpends : List (COutPoint × Uint256)
  lastBlockProcessedHeight : ℤ
  lastBlockProcessed : Uint256
  keyed : ∀ hash wtx, mapWallet.lookup hash = some wtx → wtx.tx.getHash X = hash
  spends : ∀ outpoint hash, (outpoint, hash) ∈ mapTxSpends ↔
    ∃ wtx, mapWallet.lookup hash = some wtx ∧ outpoint ∈ wtx.tx.spent

def SameTxs (m m' : Assoc Uint256 CWalletTx) : Prop :=
  ∀ hash, (m'.lookup hash).map CWalletTx.tx = (m.lookup hash).map CWalletTx.tx

variable {m m' : Assoc Uint256 CWalletTx} {hash : Uint256} {wtx : CWalletTx}
  {judge : CWalletTx → Verdict Confirmation Fault}

theorem SameTxs.some (h : SameTxs m m') (hlookup : m'.lookup hash = some wtx) :
    ∃ wtx', m.lookup hash = some wtx' ∧ wtx'.tx = wtx.tx := by
  have hsame := h hash
  rw [hlookup, map_some] at hsame
  exact map_eq_some_iff.mp hsame.symm

theorem SameTxs.symm (h : SameTxs m m') : SameTxs m' m :=
  fun hash => (h hash).symm

theorem sameTxs_insert {wtx' : CWalletTx} (hlookup : m.lookup hash = some wtx)
    (htx : wtx'.tx = wtx.tx) : SameTxs m (m.insert hash wtx') := by
  intro other
  by_cases heq : other = hash
  · rw [heq, lookup_insert, hlookup, map_some, map_some, htx]
  · rw [lookup_insert_ne heq]

def onConfirm (judge : CWalletTx → Verdict Confirmation Fault) (wtx : CWalletTx) :
    Verdict CWalletTx Fault := (judge wtx).map fun confirm => { wtx with confirm }

theorem onConfirm_value_tx (judge : CWalletTx → Verdict Confirmation Fault) (wtx : CWalletTx) :
    ((onConfirm judge wtx).value wtx).tx = wtx.tx := by
  unfold onConfirm
  cases judge wtx <;> rfl

theorem sameTxs_worklist {successors : Uint256 → List Uint256}
    (h : worklist (onConfirm judge) .assertion .outOfFuel successors (m.keys.length + 1) [hash] []
      m = .ok m') : SameTxs m m' := by
  have hdone := worklist_done (onConfirm judge) .assertion .outOfFuel successors m hash
  rw [h] at hdone
  intro other
  by_cases hreached : Reaches (onConfirm judge) successors m hash other
  · rw [(hdone.2 other).1 hreached, map_map]
    congr 1
    funext wtx
    exact onConfirm_value_tx judge wtx
  · rw [(hdone.2 other).2 hreached]

namespace WalletTxs
variable {X : Crypto} (w : WalletTxs X)

def withMap (m : Assoc Uint256 CWalletTx) (h : SameTxs w.mapWallet m) :
    WalletTxs X :=
  { w with
    mapWallet := m
    keyed := by
      intro hash wtx hlookup
      obtain ⟨wtx', hlookup', htx⟩ := h.some hlookup
      rw [← htx]
      exact w.keyed hash wtx' hlookup'
    spends := by
      intro outpoint hash
      rw [w.spends]
      constructor
      · rintro ⟨wtx, hlookup, hmem⟩
        obtain ⟨wtx', hlookup', htx⟩ := h.symm.some hlookup
        exact ⟨wtx', hlookup', htx ▸ hmem⟩
      · rintro ⟨wtx, hlookup, hmem⟩
        obtain ⟨wtx', hlookup', htx⟩ := h.some hlookup
        exact ⟨wtx', hlookup', htx ▸ hmem⟩ }

def update (hash : Uint256) (confirm : Confirmation → Confirmation)
    (fInMempool : Bool → Bool) : WalletTxs X :=
  match h : w.mapWallet.lookup hash with
  | none => w
  | some wtx =>
    w.withMap (w.mapWallet.insert hash
      { wtx with confirm := confirm wtx.confirm, fInMempool := fInMempool wtx.fInMempool })
      (sameTxs_insert h rfl)

variable (tx : CTransaction)

def insert (confirm : Confirmation)
    (hnew : w.mapWallet.lookup (tx.getHash X) = none) : WalletTxs X :=
  { w with
    mapWallet := w.mapWallet.insert (tx.getHash X) ⟨tx, confirm, false⟩
    mapTxSpends := w.mapTxSpends ++ tx.spent.map fun outpoint => (outpoint, tx.getHash X)
    keyed := by
      intro hash wtx hlookup
      by_cases heq : hash = tx.getHash X
      · rw [heq, lookup_insert] at hlookup
        cases hlookup
        exact heq.symm
      · rw [lookup_insert_ne heq] at hlookup
        exact w.keyed hash wtx hlookup
    spends := by
      intro outpoint hash
      rw [List.mem_append, w.spends]
      by_cases heq : hash = tx.getHash X
      · subst heq
        rw [lookup_insert, hnew]
        simp
      · rw [lookup_insert_ne heq]
        simp [Ne.symm heq] }

def getDepthInMainChain (wtx : CWalletTx) : ℤ :=
  if wtx.confirm.status = .unconfirmed ∨ wtx.confirm.status = .abandoned then 0
  else (w.lastBlockProcessedHeight - wtx.confirm.blockHeight + 1) *
    if wtx.confirm.status = .conflicted then -1 else 1

def spenders (now : Uint256) : List Uint256 :=
  (w.mapTxSpends.filter fun spend => spend.1.hash == now).map Prod.snd

/-- `MarkConflicted` and `AbandonTransaction` over spenders. -/
def spread (judge : CWalletTx → Verdict Confirmation Fault) (hashTx : Uint256) :
    Except Fault (WalletTxs X) :=
  match h : worklist (onConfirm judge) .assertion .outOfFuel w.spenders
      (w.mapWallet.keys.length + 1) [hashTx] [] w.mapWallet with
  | .ok m => .ok (w.withMap m (sameTxs_worklist h))
  | .error e => .error e

def markConflicted (hashBlock : Uint256) (conflictingHeight : ℤ)
    (hashTx : Uint256) : Except Fault (WalletTxs X) :=
  let conflictconfirms := (w.lastBlockProcessedHeight - conflictingHeight + 1) * -1
  if 0 ≤ conflictconfirms then .ok w
  else w.spread (fun wtx =>
    if conflictconfirms < w.getDepthInMainChain wtx then
      .change ⟨.conflicted, conflictingHeight, hashBlock, 0⟩
    else .leave) hashTx

def abandonTransaction (hashTx : Uint256) : Except Fault (Bool × WalletTxs X) :=
  match w.mapWallet.lookup hashTx with
  | none => .error .assertion
  | some origtx =>
    if w.getDepthInMainChain origtx ≠ 0 ∨ origtx.fInMempool then .ok (false, w)
    else (fun w => (true, w)) <$> w.spread (fun wtx =>
      if 0 < w.getDepthInMainChain wtx then .fail .assertion
      else if w.getDepthInMainChain wtx = 0 ∧ wtx.confirm.status ≠ .abandoned then
        if wtx.fInMempool then .fail .assertion else .change .abandoned
      else .leave) hashTx

/-- `AddToWallet`. A transaction whose status stays has to keep its block. -/
def addToWallet (confirm : Confirmation) :
    Except Fault (WalletTxs X) :=
  match h : w.mapWallet.lookup (tx.getHash X) with
  | none => .ok (w.insert tx confirm h)
  | some wtx =>
    if confirm.status ≠ wtx.confirm.status then
      .ok (w.update (tx.getHash X) (fun _ => confirm) id)
    else if confirm = wtx.confirm then .ok w
    else .error .assertion

def submitMemoryPoolAndRelay (hash : Uint256) (accepted : Bool) : WalletTxs X :=
  match w.mapWallet.lookup hash with
  | none => w
  | some wtx =>
    if wtx.confirm.status = .abandoned ∨ wtx.tx.isCoinBase ∨ w.getDepthInMainChain wtx ≠ 0 then w
    else w.update hash id fun fInMempool => fInMempool || accepted

def commitTransaction (accepted : Bool) :
    Except Fault (WalletTxs X) :=
  (fun w => w.submitMemoryPoolAndRelay (tx.getHash X) accepted) <$> w.addToWallet tx .unconfirmed

def markReplaced (originalHash : Uint256) (isInMempool : Bool) :
    Except Fault (WalletTxs X) :=
  if (w.mapWallet.lookup originalHash).isSome then
    .ok (w.update originalHash id fun _ => isInMempool)
  else .error .assertion

section
variable (mine : WalletTxs X → CTransaction → Bool) (w : WalletTxs X)

def spendersOf (outpoint : COutPoint) : List Uint256 :=
  (w.mapTxSpends.filter fun spend => spend.1 == outpoint).map Prod.snd

variable (tx : CTransaction)

def conflictsWith : List Uint256 :=
  (tx.vin.flatMap fun txin => w.spendersOf txin.prevout).filter fun hash => hash != tx.getHash X

def markConflicts (confirm : Confirmation) :
    Except Fault (WalletTxs X) :=
  if confirm.hashBlock ≠ 0 then
    (w.conflictsWith tx).foldlM (fun w hash =>
      w.markConflicted confirm.hashBlock confirm.blockHeight hash) w
  else .ok w

/-- `SyncTransaction`. `mine` tells the wallet's own transactions. -/
def syncTransaction (confirm : Confirmation) :
    Except Fault (WalletTxs X) := do
  let w ← w.markConflicts tx confirm
  if (w.mapWallet.lookup (tx.getHash X)).isSome ∨ mine w tx then w.addToWallet tx confirm
  else .ok w

def transactionAddedToMempool :
    Except Fault (WalletTxs X) := do
  let w ← w.syncTransaction mine tx .unconfirmed
  .ok (w.update (tx.getHash X) id fun _ => true)

def transactionRemovedFromMempool
    (reason : MemPoolRemovalReason) : Except Fault (WalletTxs X) :=
  let w := w.update (tx.getHash X) id fun _ => false
  if reason = .conflict then w.syncTransaction mine tx .unconfirmed else .ok w

def blockConnected (Y : HeaderHashes) (w : WalletTxs X) (block : CBlock) (height : ℤ) :
    Except Fault (WalletTxs X) :=
  let blockHash := block.header.getHash Y
  let w := { w with lastBlockProcessedHeight := height, lastBlockProcessed := blockHash }
  block.vtx.zipIdx.foldlM (fun w (tx, index) => do
    let w ← w.syncTransaction mine tx ⟨.confirmed, height, blockHash, index⟩
    w.transactionRemovedFromMempool mine tx .block) w

def blockDisconnected (block : CBlock) (height : ℤ) :
    Except Fault (WalletTxs X) :=
  let w := { w with
    lastBlockProcessedHeight := height - 1
    lastBlockProcessed := block.header.hashPrevBlock }
  block.vtx.foldlM (fun w tx => w.syncTransaction mine tx .unconfirmed) w

end

def heightOf (Y : HeaderHashes) (hash : Uint256) : List CBlock → Option ℕ
  | [] => none
  | block :: rest =>
    if block.header.getHash Y = hash then some rest.length else heightOf Y hash rest

variable (Y : HeaderHashes) (chain : List CBlock)

def reload (confirm : Confirmation) : Confirmation :=
  match heightOf Y confirm.hashBlock chain with
  | some height => { confirm with blockHeight := height }
  | none =>
    if confirm.status = .conflicted ∨ confirm.status = .confirmed then .unconfirmed else confirm

variable (w : WalletTxs X)

def markFromParents (hash : Uint256) (vin : List CTxIn) :
    Except Fault (WalletTxs X) :=
  vin.foldlM (fun w txin =>
    match w.mapWallet.lookup txin.prevout.hash with
    | none => .ok w
    | some prevtx =>
      if prevtx.confirm.status = .conflicted then
        w.markConflicted prevtx.confirm.hashBlock prevtx.confirm.blockHeight hash
      else .ok w) w

def loadToWallet (wtx : CWalletTx) :
    Except Fault (WalletTxs X) :=
  match h : w.mapWallet.lookup (wtx.tx.getHash X) with
  | none =>
    (w.insert wtx.tx (reload Y chain wtx.confirm) h).markFromParents (wtx.tx.getHash X) wtx.tx.vin
  | some _ => .ok w

def new (height : ℤ) (hashBlock : Uint256) : WalletTxs X where
  mapWallet := ∅
  mapTxSpends := []
  lastBlockProcessedHeight := height
  lastBlockProcessed := hashBlock
  keyed := by simp
  spends := by simp

def restart :
    Except Fault (WalletTxs X) :=
  (fun loaded => { loaded with
    lastBlockProcessedHeight := chain.length - 1
    lastBlockProcessed := w.lastBlockProcessed }) <$>
    (w.mapWallet.entries.map Sigma.snd).foldlM (loadToWallet Y chain) (new (-1) 0)

end WalletTxs

/-- What the node tells the wallet, and what the user does. -/
inductive WalletTxEvent
  | commitTransaction (tx : CTransaction) (accepted : Bool)
  | submitMemoryPoolAndRelay (hash : Uint256) (accepted : Bool)
  | markReplaced (originalHash : Uint256) (isInMempool : Bool)
  | transactionAddedToMempool (tx : CTransaction)
  | transactionRemovedFromMempool (tx : CTransaction) (reason : MemPoolRemovalReason)
  | blockConnected (block : CBlock)
  | blockDisconnected
  | abandonTransaction (hashTx : Uint256)

/-- A wallet with the chain of the blocks it was told of, from the tip on. -/
structure FollowedChain (X : Crypto) where
  wallet : WalletTxs X
  chain : List CBlock

namespace FollowedChain
variable {X : Crypto} (mine : WalletTxs X → CTransaction → Bool) (Y : HeaderHashes)

/-- Blocks are connected to the tip and disconnected from it; genesis stays. -/
def step (n : FollowedChain X) : WalletTxEvent → Except Fault (FollowedChain X)
  | .commitTransaction tx accepted =>
    (fun w => ⟨w, n.chain⟩) <$> n.wallet.commitTransaction tx accepted
  | .submitMemoryPoolAndRelay hash accepted =>
    .ok ⟨n.wallet.submitMemoryPoolAndRelay hash accepted, n.chain⟩
  | .markReplaced originalHash isInMempool =>
    (fun w => ⟨w, n.chain⟩) <$> n.wallet.markReplaced originalHash isInMempool
  | .transactionAddedToMempool tx =>
    (fun w => ⟨w, n.chain⟩) <$> n.wallet.transactionAddedToMempool mine tx
  | .transactionRemovedFromMempool tx reason =>
    (fun w => ⟨w, n.chain⟩) <$> n.wallet.transactionRemovedFromMempool mine tx reason
  | .blockConnected block =>
    (fun w => ⟨w, block :: n.chain⟩) <$> n.wallet.blockConnected mine Y block n.chain.length
  | .blockDisconnected =>
    match n.chain with
    | block :: prev :: rest =>
      (fun w => ⟨w, prev :: rest⟩) <$> n.wallet.blockDisconnected mine block (rest.length + 1)
    | _ => .error .outOfRange
  | .abandonTransaction hashTx => (fun r => ⟨r.2, n.chain⟩) <$> n.wallet.abandonTransaction hashTx

def run (n : FollowedChain X) (events : List WalletTxEvent) : Except Fault (FollowedChain X) :=
  events.foldlM (step mine Y) n

def start (chain : List CBlock) : FollowedChain X :=
  ⟨.new (chain.length - 1) ((chain.head?.map fun block => block.header.getHash Y).getD 0), chain⟩

end FollowedChain

namespace SampleWallet

def crypto : Crypto :=
  { acceptingCrypto with
    sha256 := fun b => BitVec.ofNat 256 (b.foldl (fun acc x => 257 * acc + x.toNat + 1) 1) }

def hashes : HeaderHashes where
  sha256 b := BitVec.ofNat 256 (if b.length = 80 then b.getD 76 0 else b.headD 0).toNat
  randomX _ _ := none

def spend (prevout : COutPoint) (nLockTime : BitVec 32) : CTransaction :=
  ⟨[⟨prevout, [], 0xffffffff, []⟩], [⟨1, [0x51], CScript.short_true⟩], 2, nLockTime⟩

def block (nNonce : BitVec 32) (hashPrevBlock : Uint256) (vtx : List CTransaction) : CBlock :=
  ⟨⟨0x200, hashPrevBlock, 0, 0, 0, nNonce⟩, spend ⟨0, 0xffffffff⟩ nNonce :: vtx⟩

def genesis : CBlock := block 1 0 []

end SampleWallet
end Vexta
