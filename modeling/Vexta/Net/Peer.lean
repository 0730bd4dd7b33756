import Vexta.Validation.MempoolScripts
import Vexta.Lib.Outcome

/-! Inventories, peers and the state of message processing. -/
namespace Vexta
open Lib

structure CInv where
  type : BitVec 32
  hash : Uint256
  deriving DecidableEq, Repr

def msgWitnessFlag : BitVec 32 := 0x40000000
def msgTx : BitVec 32 := 1
def msgBlock : BitVec 32 := 2
def msgFilteredBlock : BitVec 32 := 3
def msgCmpctBlock : BitVec 32 := 4
def msgDandelionTx : BitVec 32 := 5
def msgWtx : BitVec 32 := 6
def msgWitnessBlock : BitVec 32 := msgBlock ||| msgWitnessFlag
def msgWitnessTx : BitVec 32 := msgTx ||| msgWitnessFlag
def msgDandelionWitnessTx : BitVec 32 := msgDandelionTx ||| msgWitnessFlag

structure GenTxid where
  isWtxid : Bool
  hash : Uint256
  deriving DecidableEq, Repr

namespace CInv

variable (inv : CInv)

def isMsgTx : Bool := inv.type == msgTx
def isMsgBlk : Bool := inv.type == msgBlock
def isMsgWtx : Bool := inv.type == msgWtx

def isGenTxMsg : Bool :=
  inv.type == msgTx || inv.type == msgWtx || inv.type == msgWitnessTx

def isGenBlkMsg : Bool :=
  inv.type == msgBlock || inv.type == msgFilteredBlock || inv.type == msgCmpctBlock ||
    inv.type == msgWitnessBlock

def isDandelionMsg : Bool :=
  inv.type == msgDandelionTx || inv.type == msgDandelionWitnessTx

def mismatches (wtxidRelay : Bool) : Bool :=
  if wtxidRelay then inv.isMsgTx else inv.isMsgWtx

def toGenTxid : GenTxid := ⟨inv.isMsgWtx, inv.hash⟩

end CInv

def dandelionDiscoveryHash : Uint256 := BitVec.allOnes 256

abbrev NodeId := ℕ

structure CBloomFilter where
  vData : Bytes
  nHashFuncs : ℕ
  deriving DecidableEq, Repr

def CBloomFilter.isWithinSizeConstraints (filter : CBloomFilter) : Bool :=
  decide (filter.vData.length ≤ 36000 ∧ filter.nHashFuncs ≤ 50)

inductive NetMessage
  | inv (vInv : List CInv)
  | getData (vInv : List CInv)
  | tx (tx : CTransaction)
  | dandelionTx (tx : CTransaction)
  | mempool
  | filterLoad (filter : CBloomFilter)
  | filterAdd (vData : Bytes)
  | filterClear
  | feeFilter (newFeeFilter : ℤ)

/-- `CNode::TxRelay`. The filter is the list of what was put into it. -/
structure TxRelay where
  fRelayTxes : Bool
  pfilter : Option CBloomFilter
  filterInventoryKnown : List Uint256
  setInventoryTxToSend : List Uint256
  setInventoryTxToSendOther : List CInv
  setDandelionInventoryKnown : List Uint256
  vInventoryDandelionTxToSend : List Uint256
  fSendMempool : Bool
  lastMempoolReq : ℤ
  nNextInvSend : ℤ
  minFeeFilter : ℤ
  deriving DecidableEq, Repr

def TxRelay.new : TxRelay := ⟨false, none, [], [], [], [], [], false, 0, 0, 0⟩

inductive ConnectionType
  | inbound
  | outboundFullRelay
  | manual
  | feeler
  | blockRelay
  | addrFetch
  deriving DecidableEq, Repr

structure NetPermissionFlags where
  relay : Bool
  forceRelay : Bool
  noBan : Bool
  mempool : Bool
  deriving DecidableEq, Repr

/-- The parts of `CNode`, `CNodeState` and `Peer` used. Block-relay-only peers have no relay state.
-/
structure CNode where
  connType : ConnectionType
  permissions : NetPermissionFlags
  nodeBloom : Bool
  fSuccessfullyConnected : Bool
  fSupportsDandelion : Bool
  fDisconnect : Bool
  fPauseSend : Bool
  misbehavior : ℕ
  wtxidRelay : Bool
  txRelay : Option TxRelay
  recentlyAnnouncedInvs : List Uint256
  getdataRequests : List CInv
  continuationBlock : Uint256
  orphanWorkSet : List Uint256
  vProcessMsg : List NetMessage
  txRelay_iff : txRelay.isNone = true ↔ connType = .blockRelay

inductive NetFault
  | nullTxRelay
  deriving DecidableEq, Repr

namespace CNode

variable (node : CNode)

def deref : Except NetFault TxRelay :=
  match node.txRelay with
  | some relay => .ok relay
  | none => .error .nullTxRelay

def mapRelay (f : TxRelay → TxRelay) : CNode :=
  { node with
    txRelay := node.txRelay.map f
    txRelay_iff := by rw [Option.isNone_map]; exact node.txRelay_iff }

def misbehaving (score : ℕ) : CNode :=
  { node with misbehavior := node.misbehavior + score }

def addKnownTx (hash : Uint256) : CNode :=
  node.mapRelay fun relay => { relay with filterInventoryKnown := hash :: relay.filterInventoryKnown }

def pushTxInventory (hash : Uint256) : CNode :=
  node.mapRelay fun relay =>
    if hash ∈ relay.filterInventoryKnown then relay
    else { relay with setInventoryTxToSend := hash :: relay.setInventoryTxToSend }

def pushOtherInventory (inv : CInv) : CNode :=
  node.mapRelay fun relay =>
    if inv.hash ∈ relay.filterInventoryKnown then relay
    else { relay with setInventoryTxToSendOther := inv :: relay.setInventoryTxToSendOther }

end CNode

structure PoolEntry where
  tx : CTransaction
  time : ℤ
  fee : ℤ
  vsize : ℕ
  parents : List Uint256

structure TxPool (X : Crypto) where
  mapTx : Assoc Uint256 PoolEntry
  keyed : ∀ hash entry, mapTx.lookup hash = some entry → entry.tx.getHash X = hash

namespace TxPool
variable {X : Crypto}

def empty : TxPool X := ⟨∅, fun _ _ h => by cases h⟩

variable (pool : TxPool X)

def get (hash : Uint256) : Option CTransaction :=
  (pool.mapTx.lookup hash).map PoolEntry.tx

def insert (entry : PoolEntry) : TxPool X where
  mapTx := pool.mapTx.insert (entry.tx.getHash X) entry
  keyed := by
    intro hash found h
    by_cases heq : hash = entry.tx.getHash X
    · rw [heq, AList.lookup_insert] at h
      cases h
      exact heq.symm
    · rw [AList.lookup_insert_ne heq] at h
      exact pool.keyed hash found h

def contains (hash : Uint256) : Bool := (pool.mapTx.lookup hash).isSome

def info (gtxid : GenTxid) : Option PoolEntry :=
  if gtxid.isWtxid then
    (pool.mapTx.entries.find? fun e => e.2.tx.getWitnessHash X == gtxid.hash).map (·.2)
  else pool.mapTx.lookup gtxid.hash

end TxPool

/-- The results of `AcceptToMemoryPool` that are told apart. -/
inductive AcceptResult
  | valid
  | consensus
  | missingInputs
  | witnessStripped
  | inputsNotStandard
  | policy
  deriving DecidableEq, Repr

/-- Nothing, a disconnection, or the block, filtered or compact. -/
inductive BlockAnswer
  | ignored
  | disconnect
  | found (compact witness : Bool) (matched : CBloomFilter → List CTransaction)

/-- The chain, acceptance of at most one transaction, and the filters. -/
structure NetEnv (X : Crypto) where
  acceptToMemoryPool : TxPool X → CTransaction → ℤ → AcceptResult × TxPool X
  accept_only : ∀ pool tx now hash, (acceptToMemoryPool pool tx now).2.contains hash = true →
    pool.contains hash = true ∨ hash = tx.getHash X
  dandelion : Bool
  confirmed : CTransaction → Bool
  initialBlockDownload : Bool
  ignoreIncomingTxs : Bool
  outboundTargetReached : Bool
  tip : Uint256
  wantsBlock : Uint256 → Bool
  blockAnswer : NodeId → CInv → BlockAnswer
  bloomInsert : CBloomFilter → Bytes → CBloomFilter
  bloomMatch : CBloomFilter → CTransaction → Bool × CBloomFilter
  relayOrder : TxPool X → List Uint256 → List Uint256
  feeAt : ℤ → ℕ → ℤ

inductive Sent
  | inv (vInv : List CInv)
  | getData (inv : CInv)
  | getHeaders (hash : Uint256)
  | tx (tx : CTransaction)
  | dandelionTx (tx : CTransaction)
  | notFound (vInv : List CInv)
  | block (hash : Uint256) (witness : Bool)
  | cmpctBlock (hash : Uint256)
  | merkleBlock (hash : Uint256)
  deriving DecidableEq

structure OrphanTx where
  tx : CTransaction
  fromPeer : NodeId

/-- `PeerManagerImpl` and the parts of `CConnman` it uses. -/
structure PeerManager (X : Crypto) where
  nodes : NodeId → CNode
  mempool : TxPool X
  stempool : TxPool X
  mDandelionEmbargo : Assoc Uint256 ℤ
  vDandelionInbound : List NodeId
  mDandelionRoutes : Assoc NodeId NodeId
  localDandelionDestination : Option NodeId
  mapRelay : Assoc Uint256 CTransaction
  relayExpiration : List (ℤ × Uint256)
  orphans : Assoc Uint256 OrphanTx
  recentRejects : List Uint256
  hashRecentRejectsChainTip : Uint256
  recentConfirmedTransactions : List Uint256
  txRequest : List (NodeId × GenTxid)

end Vexta
