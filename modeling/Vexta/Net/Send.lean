import Vexta.Net.Process

/-! The sending of inventories, the broadcast of local transactions, and runs of the node. -/
namespace Vexta
open Lib

def inventoryBroadcastMax : ℕ := 35

def relayTxCacheTime : ℤ := 900000000

structure InvBatch where
  vInv : List CInv
  sent : List Sent

def InvBatch.push (batch : InvBatch) (inv : CInv) : InvBatch :=
  let vInv := batch.vInv ++ [inv]
  if vInv.length = maxInvSz then ⟨[], batch.sent ++ [.inv vInv]⟩ else ⟨vInv, batch.sent⟩

/-- `SendMessages`: the node, recent announcements and the relay state. -/
structure Sending (X : Crypto) where
  s : PeerManager X
  recentlyAnnouncedInvs : List Uint256
  relay : TxRelay
  batch : InvBatch

variable {X : Crypto}

namespace Sending

def sendDandelion (fSupportsDandelion : Bool) (g : Sending X) (hash : Uint256) : Sending X :=
  let known := hash :: g.relay.setDandelionInventoryKnown
  let type := if ¬ fSupportsDandelion ∧ hash ≠ dandelionDiscoveryHash then msgTx else msgDandelionTx
  { g with
    relay := { g.relay with setDandelionInventoryKnown := known }
    batch := g.batch.push ⟨type, hash⟩ }

variable (E : NetEnv X)

def passes (relay : TxRelay) (entry : PoolEntry) : Bool × TxRelay :=
  if entry.fee < E.feeAt relay.minFeeFilter entry.vsize then (false, relay)
  else
    match relay.pfilter with
    | none => (true, relay)
    | some filter =>
      let (relevant, filter) := E.bloomMatch filter entry.tx
      (relevant, { relay with pfilter := some filter })

variable (wtxidRelay : Bool)

def sendMempoolTx (g : Sending X) (entry : PoolEntry) :
    Sending X :=
  let hash := if wtxidRelay then entry.tx.getWitnessHash X else entry.tx.getHash X
  let toSend := g.relay.setInventoryTxToSend.filter fun other => other != hash
  let (pass, relay) := passes E { g.relay with setInventoryTxToSend := toSend } entry
  if pass then
    { g with
      relay := { relay with filterInventoryKnown := hash :: relay.filterInventoryKnown }
      batch := g.batch.push ⟨if wtxidRelay then msgWtx else msgTx, hash⟩ }
  else { g with relay }

def expireRelay (now : ℤ) : List (ℤ × Uint256) → Assoc Uint256 CTransaction →
    List (ℤ × Uint256) × Assoc Uint256 CTransaction
  | [], mapRelay => ([], mapRelay)
  | (time, hash) :: rest, mapRelay =>
    if time < now then expireRelay now rest (mapRelay.erase hash) else ((time, hash) :: rest, mapRelay)

def emplaceRelay (now : ℤ) (hash : Uint256) (tx : CTransaction) (s : PeerManager X) :
    PeerManager X :=
  if (s.mapRelay.lookup hash).isSome then s
  else
    { s with
      mapRelay := s.mapRelay.insert hash tx
      relayExpiration := s.relayExpiration ++ [(now + relayTxCacheTime, hash)] }

def announce (now : ℤ) (g : Sending X) (hash : Uint256) (tx : CTransaction) :
    Sending X :=
  let (relayExpiration, mapRelay) := expireRelay now g.s.relayExpiration g.s.mapRelay
  let s := emplaceRelay now (tx.getHash X) tx { g.s with relayExpiration, mapRelay }
  let known := hash :: g.relay.filterInventoryKnown
  { s := emplaceRelay now (tx.getWitnessHash X) ((s.mapRelay.lookup (tx.getHash X)).getD tx) s
    recentlyAnnouncedInvs := hash :: g.recentlyAnnouncedInvs
    relay := { g.relay with
      filterInventoryKnown := if hash ≠ tx.getHash X then tx.getHash X :: known else known }
    batch := g.batch.push ⟨if wtxidRelay then msgWtx else msgTx, hash⟩ }

def relayLoop (E : NetEnv X) (wtxidRelay : Bool) (now : ℤ) :
    List Uint256 → ℕ → Sending X → ℕ × Sending X
  | [], left, g => (left, g)
  | _ :: _, 0, g => (0, g)
  | hash :: rest, left + 1, g =>
    let toSend := g.relay.setInventoryTxToSend.filter fun other => other != hash
    let g := { g with relay := { g.relay with setInventoryTxToSend := toSend } }
    if hash ∈ g.relay.filterInventoryKnown then relayLoop E wtxidRelay now rest (left + 1) g
    else
      match g.s.mempool.info ⟨wtxidRelay, hash⟩ with
      | none => relayLoop E wtxidRelay now rest (left + 1) g
      | some entry =>
        let (pass, relay) := passes E g.relay entry
        if pass then
          relayLoop E wtxidRelay now rest left
            ({ g with relay }.announce wtxidRelay now hash entry.tx)
        else relayLoop E wtxidRelay now rest (left + 1) { g with relay }

def otherLoop : List CInv → ℕ → Sending X → Sending X
  | [], _, g => { g with relay := { g.relay with setInventoryTxToSendOther := [] } }
  | inv :: rest, 0, g => { g with relay := { g.relay with setInventoryTxToSendOther := inv :: rest } }
  | inv :: rest, left + 1, g =>
    if inv.hash ∈ g.relay.filterInventoryKnown then otherLoop rest (left + 1) g
    else
      otherLoop rest left
        { g with
          relay := { g.relay with
            filterInventoryKnown := inv.hash :: g.relay.filterInventoryKnown }
          batch := g.batch.push inv }

def trickle (now : ℤ) (g : Sending X) : Sending X :=
  let g := if g.relay.fRelayTxes then g
    else { g with relay := { g.relay with
      setInventoryTxToSend := []
      vInventoryDandelionTxToSend := [] } }
  let g := if g.relay.fSendMempool then
      let g := g.s.mempool.mapTx.entries.foldl (fun g e => g.sendMempoolTx E wtxidRelay e.2)
        { g with relay := { g.relay with fSendMempool := false } }
      { g with relay := { g.relay with lastMempoolReq := seconds now } }
    else g
  let order := E.relayOrder g.s.mempool g.relay.setInventoryTxToSend
  let (left, g) := relayLoop E wtxidRelay now order inventoryBroadcastMax g
  otherLoop g.relay.setInventoryTxToSendOther left g

def reschedule (due : Bool) (chance : Chance) (g : Sending X) : Sending X :=
  if due then { g with relay := { g.relay with nNextInvSend := chance.nextInvSend } } else g

def sendAll (node : CNode) (now : ℤ) (chance : Chance) (g : Sending X) :
    Sending X :=
  let g := g.relay.vInventoryDandelionTxToSend.foldl (sendDandelion node.fSupportsDandelion) g
  let g := { g with relay := { g.relay with vInventoryDandelionTxToSend := [] } }
  let due := decide (g.relay.nNextInvSend < now)
  let g := g.reschedule due chance
  if node.permissions.noBan || due then g.trickle E node.wtxidRelay now else g

end Sending

namespace PeerManager

def sendMessages (E : NetEnv X) (s : PeerManager X) (p : NodeId) (now : ℤ) (chance : Chance) :
    Except NetFault (PeerManager X × List Sent) :=
  let node := s.nodes p
  if ¬ node.fSuccessfullyConnected ∨ node.fDisconnect then .ok (s, [])
  else if node.txRelay.isSome then do
    let relay ← node.deref
    let g := Sending.sendAll E node now chance ⟨s, node.recentlyAnnouncedInvs, relay, ⟨[], []⟩⟩
    .ok (g.s.setNode p { node.mapRelay (fun _ => g.relay) with
        recentlyAnnouncedInvs := g.recentlyAnnouncedInvs },
      g.batch.sent ++ if g.batch.vInv.isEmpty then [] else [.inv g.batch.vInv])
  else .ok (s, [])

def localDandelionDestinationPushInventory (s : PeerManager X) (inv : CInv) (chance : Chance) :
    Bool × PeerManager X :=
  let s := match s.localDandelionDestination with
    | some _ => s
    | none => { s with localDandelionDestination := chance.destination }
  match s.localDandelionDestination with
  | some q => (true, s.modifyNode q fun node => node.pushOtherInventory inv)
  | none => (false, s)

def broadcastRelay (E : NetEnv X) (s : PeerManager X) (tx : CTransaction) (wtxid : Uint256)
    (now : ℤ) (chance : Chance) : PeerManager X :=
  let txid := tx.getHash X
  if E.dandelion then
    let s := s.insertDandelionEmbargo txid (embargoEnd now chance)
    match s.localDandelionDestinationPushInventory ⟨msgDandelionTx, txid⟩ chance with
    | (true, s) => s
    | (false, s) =>
      let s := s.removeDandelionEmbargo txid
      let (result, s) := s.acceptMempool E tx now
      if result = .valid then s.relayTransaction txid wtxid else s
  else s.relayTransaction txid wtxid

def broadcastTransaction (E : NetEnv X) (s : PeerManager X) (tx : CTransaction) (now : ℤ)
    (feeAccepted relay : Bool) (chance : Chance) : PeerManager X :=
  if E.confirmed tx then s
  else
    match s.mempool.get (tx.getHash X) with
    | some mempoolTx =>
      if relay then s.broadcastRelay E tx (mempoolTx.getWitnessHash X) now chance else s
    | none =>
      if ¬ feeAccepted then s
      else
        let (result, s) := if E.dandelion then s.acceptStempool E tx now
          else s.acceptMempool E tx now
        if result = .valid ∧ relay then s.broadcastRelay E tx (tx.getWitnessHash X) now chance
        else s

end PeerManager

def CNode.new (connType : ConnectionType) (permissions : NetPermissionFlags) (nodeBloom : Bool) :
    CNode where
  connType := connType
  permissions := permissions
  nodeBloom := nodeBloom
  fSuccessfullyConnected := false
  fSupportsDandelion := false
  fDisconnect := false
  fPauseSend := false
  misbehavior := 0
  wtxidRelay := false
  txRelay := if connType = .blockRelay then none else some .new
  recentlyAnnouncedInvs := []
  getdataRequests := []
  continuationBlock := 0
  orphanWorkSet := []
  vProcessMsg := []
  txRelay_iff := by split_ifs with h <;> simp [h]

/-- Blocks, evictions and the wallet change the pools; routes are redrawn. -/
inductive NetEvent (X : Crypto)
  | connect (p : NodeId) (connType : ConnectionType) (permissions : NetPermissionFlags)
    (nodeBloom : Bool)
  | handshake (p : NodeId) (wtxidRelay fRelayTxes : Bool)
  | disconnect (p : NodeId)
  | pauseSend (p : NodeId) (fPauseSend : Bool)
  | receive (p : NodeId) (msg : NetMessage)
  | process (p : NodeId) (now : ℤ) (chance : Chance)
  | send (p : NodeId) (now : ℤ) (chance : Chance)
  | broadcast (tx : CTransaction) (now : ℤ) (feeAccepted relay : Bool) (chance : Chance)
  | pools (mempool stempool : TxPool X) (confirmed : List Uint256)
  | routes (inbound : List NodeId) (routes : Assoc NodeId NodeId) (destination : Option NodeId)

namespace PeerManager

/-- One event, with the messages to the served peer. -/
def step (E : NetEnv X) (s : PeerManager X) : NetEvent X →
    Except NetFault (PeerManager X × List Sent)
  | .connect p connType permissions nodeBloom =>
    .ok (s.setNode p (CNode.new connType permissions nodeBloom), [])
  | .handshake p wtxidRelay fRelayTxes =>
    .ok (s.modifyNode p fun node =>
      { node.mapRelay fun relay => { relay with fRelayTxes } with
        fSuccessfullyConnected := true
        wtxidRelay }, [])
  | .disconnect p => .ok (s.modifyNode p fun node => { node with fDisconnect := true }, [])
  | .pauseSend p fPauseSend => .ok (s.modifyNode p fun node => { node with fPauseSend }, [])
  | .receive p msg =>
    .ok (s.modifyNode p fun node => { node with vProcessMsg := node.vProcessMsg ++ [msg] }, [])
  | .process p now chance => s.processMessages E p now chance
  | .send p now chance => s.sendMessages E p now chance
  | .broadcast tx now feeAccepted relay chance =>
    .ok (s.broadcastTransaction E tx now feeAccepted relay chance, [])
  | .pools mempool stempool confirmed =>
    .ok ({ s with mempool, stempool, recentConfirmedTransactions := confirmed }, [])
  | .routes inbound routes destination =>
    .ok ({ s with
      vDandelionInbound := inbound
      mDandelionRoutes := routes
      localDandelionDestination := destination }, [])

def run (E : NetEnv X) (s : PeerManager X) :
    List (NetEvent X) → Except NetFault (PeerManager X × List Sent)
  | [] => .ok (s, [])
  | event :: events => do
    let (s, sent) ← s.step E event
    let (s, more) ← run E s events
    .ok (s, sent ++ more)

def start (mempool : TxPool X) : PeerManager X where
  nodes := fun _ => CNode.new .inbound ⟨false, false, false, false⟩ false
  mempool := mempool
  stempool := .empty
  mDandelionEmbargo := ∅
  vDandelionInbound := []
  mDandelionRoutes := ∅
  localDandelionDestination := none
  mapRelay := ∅
  relayExpiration := []
  orphans := ∅
  recentRejects := []
  hashRecentRejectsChainTip := 0
  recentConfirmedTransactions := []
  txRequest := []

end PeerManager

def acceptNew (pool : TxPool X) (tx : CTransaction) (now : ℤ) : AcceptResult × TxPool X :=
  if pool.contains (tx.getHash X) then (.policy, pool)
  else (.valid, pool.insert ⟨tx, seconds now, 0, 100, []⟩)

theorem acceptNew_only (pool : TxPool X) (tx : CTransaction) (now : ℤ) (hash : Uint256)
    (h : (acceptNew pool tx now).2.contains hash = true) :
    pool.contains hash = true ∨ hash = tx.getHash X := by
  unfold acceptNew at h
  split_ifs at h with hnew
  · exact .inl h
  · by_cases heq : hash = tx.getHash X
    · exact .inr heq
    · left
      rwa [TxPool.contains, TxPool.insert, AList.lookup_insert_ne heq] at h

def acceptingEnv (X : Crypto) : NetEnv X where
  acceptToMemoryPool := acceptNew
  accept_only := acceptNew_only
  dandelion := true
  confirmed := fun _ => false
  initialBlockDownload := false
  ignoreIncomingTxs := false
  outboundTargetReached := false
  tip := 0
  wantsBlock := fun _ => false
  blockAnswer := fun _ _ => .ignored
  bloomInsert := fun filter _ => filter
  bloomMatch := fun filter _ => (true, filter)
  relayOrder := fun _ hashes => hashes
  feeAt := fun _ _ => 0

def sampleChance : Chance := ⟨false, 20000000, none, fun _ => true, 0⟩

end Vexta
