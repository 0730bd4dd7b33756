import Vexta.Net.Peer

/-! The handlers for inventories, transactions and filters. Times are in microseconds. -/
namespace Vexta
open Lib

def maxInvSz : ℕ := 50000

def maxPeerTxAnnouncements : ℕ := 5000

def unconditionalRelayDelay : ℤ := 120

def dandelionEmbargoMinimum : ℤ := 10000000

def milliseconds (now : ℤ) : ℤ := now / 1000 * 1000

def seconds (now : ℤ) : ℤ := now / 1000000

def maxStandardTxWeight : ℕ := 400000

def CTransaction.weight (tx : CTransaction) : ℕ :=
  tx.serializeNoWitness.length * 3 + tx.serialize.length

/-- Whether to fluff, the embargo, the destination, the orphans to keep and the next time to send.
-/
structure Chance where
  willFluff : Bool
  delay : ℕ
  destination : Option NodeId
  keepsOrphan : Uint256 → Bool
  nextInvSend : ℤ

def CNode.takesMessage (node : CNode) : Bool :=
  !node.fDisconnect && node.getdataRequests.isEmpty && node.orphanWorkSet.isEmpty &&
    !node.fPauseSend

def CNode.mempoolReq (node : CNode) : ℤ := (node.txRelay.map TxRelay.lastMempoolReq).getD 0

variable {X : Crypto}

namespace PeerManager

variable (s : PeerManager X)

def setNode (p : NodeId) (node : CNode) : PeerManager X :=
  { s with nodes := Function.update s.nodes p node }

def modifyNode (p : NodeId) (f : CNode → CNode) : PeerManager X :=
  s.setNode p (f (s.nodes p))

def relayTransaction (txid wtxid : Uint256) : PeerManager X :=
  { s with
    nodes := fun q =>
      let node := s.nodes q
      if node.fSuccessfullyConnected ∧ ¬ node.fDisconnect then
        node.pushTxInventory (if node.wtxidRelay then wtxid else txid)
      else node }

variable (E : NetEnv X) (s : PeerManager X)

def acceptMempool (tx : CTransaction) (now : ℤ) :
    AcceptResult × PeerManager X :=
  let (result, mempool) := E.acceptToMemoryPool s.mempool tx now
  (result, { s with mempool })

def acceptStempool (tx : CTransaction) (now : ℤ) :
    AcceptResult × PeerManager X :=
  let (result, stempool) := E.acceptToMemoryPool s.stempool tx now
  (result, { s with stempool })

def insertDandelionEmbargo (hash : Uint256) (embargo : ℤ) : PeerManager X :=
  if (s.mDandelionEmbargo.lookup hash).isSome then s
  else { s with mDandelionEmbargo := s.mDandelionEmbargo.insert hash embargo }

def removeDandelionEmbargo (hash : Uint256) : PeerManager X :=
  { s with mDandelionEmbargo := s.mDandelionEmbargo.erase hash }

def isTxDandelionEmbargoed (hash : Uint256) (now : ℤ) : Bool :=
  match s.mDandelionEmbargo.lookup hash with
  | none => false
  | some embargo => decide (now < embargo)

def checkEmbargo (now : ℤ) (s : PeerManager X)
    (entry : Sigma fun _ : Uint256 => ℤ) : PeerManager X :=
  if s.mempool.contains entry.1 then s.removeDandelionEmbargo entry.1
  else if entry.2 < milliseconds now then
    match s.stempool.get entry.1 with
    | some tx =>
      let (_, s) := s.acceptMempool E tx now
      (s.relayTransaction (tx.getHash X) (tx.getWitnessHash X)).removeDandelionEmbargo entry.1
    | none => s.removeDandelionEmbargo entry.1
  else s

def checkDandelionEmbargoes (now : ℤ) : PeerManager X :=
  s.mDandelionEmbargo.entries.foldl (checkEmbargo E now) s

def haveOrphan (gtxid : GenTxid) : Bool :=
  if gtxid.isWtxid then s.orphans.entries.any fun e => e.2.tx.getWitnessHash X == gtxid.hash
  else (s.orphans.lookup gtxid.hash).isSome

def alreadyHaveTx (gtxid : GenTxid) : Bool × PeerManager X :=
  let s := if E.tip ≠ s.hashRecentRejectsChainTip then
    { s with hashRecentRejectsChainTip := E.tip, recentRejects := [] } else s
  (s.haveOrphan gtxid || decide (gtxid.hash ∈ s.recentConfirmedTransactions) ||
    decide (gtxid.hash ∈ s.recentRejects) || (s.mempool.info gtxid).isSome, s)

variable (p : NodeId) (gtxid : GenTxid)

def receivedInv : PeerManager X :=
  if s.txRequest.any fun request => request.1 == p && request.2.hash == gtxid.hash then s
  else { s with txRequest := (p, gtxid) :: s.txRequest }

def addTxAnnouncement : PeerManager X :=
  if ¬ (s.nodes p).permissions.relay ∧
      maxPeerTxAnnouncements ≤ s.txRequest.countP (fun request => request.1 == p) then s
  else s.receivedInv p gtxid

def receivedResponse (hash : Uint256) : PeerManager X :=
  { s with txRequest := s.txRequest.filter fun request =>
      !(request.1 == p && request.2.hash == hash) }

def forgetTxHash (hash : Uint256) : PeerManager X :=
  { s with txRequest := s.txRequest.filter fun request => request.2.hash != hash }

structure InvLoop (X : Crypto) where
  s : PeerManager X
  sent : List Sent
  bestBlock : Option Uint256
  returned : Bool

def invDandelion (l : InvLoop X) (inv : CInv) :
    Except NetFault (InvLoop X) := do
  let relay ← (l.s.nodes p).deref
  let s := l.s.setNode p ((l.s.nodes p).mapRelay fun _ =>
    { relay with setDandelionInventoryKnown := inv.hash :: relay.setDandelionInventoryKnown })
  let ask := decide ((¬ E.initialBlockDownload ∧ p ∈ s.vDandelionInbound) ∨
    inv.hash ≠ dandelionDiscoveryHash)
  .ok { l with s, sent := if ask then l.sent ++ [.getData inv] else l.sent }

def invTx (fBlocksOnly : Bool) (l : InvLoop X) (inv : CInv) :
    InvLoop X :=
  let (fAlreadyHave, s) := l.s.alreadyHaveTx E inv.toGenTxid
  let s := s.modifyNode p fun node => node.addKnownTx inv.hash
  if fBlocksOnly then
    { l with
      s := s.modifyNode p fun node => { node with fDisconnect := true }
      returned := true }
  else if ¬ fAlreadyHave ∧ ¬ E.initialBlockDownload then
    { l with s := s.addTxAnnouncement p inv.toGenTxid }
  else { l with s }

def invItem (fBlocksOnly : Bool) (l : InvLoop X) (inv : CInv) :
    Except NetFault (InvLoop X) :=
  if l.returned then .ok l
  else if inv.mismatches (l.s.nodes p).wtxidRelay then .ok l
  else if inv.isDandelionMsg then invDandelion E p l inv
  else if inv.isMsgBlk then
    .ok { l with bestBlock := if E.wantsBlock inv.hash then some inv.hash else l.bestBlock }
  else if inv.isGenTxMsg then .ok (invTx E p fBlocksOnly l inv)
  -- the second branch for Dandelion inventories cannot be reached; other types are ignored
  else .ok l

def processInv (vInv : List CInv) :
    Except NetFault (PeerManager X × List Sent) :=
  if maxInvSz < vInv.length then .ok (s.modifyNode p fun node => node.misbehaving 20, [])
  else do
    let node := s.nodes p
    let fBlocksOnly := (E.ignoreIncomingTxs || node.txRelay.isNone) && !node.permissions.relay
    let l ← vInv.foldlM (invItem E p fBlocksOnly) ⟨s, [], none, false⟩
    .ok (l.s, l.sent ++ if l.returned then [] else (l.bestBlock.map Sent.getHeaders).toList)

def findTxForGetData (mempoolReq now : ℤ) :
    Option CTransaction :=
  let txinfo := s.mempool.info gtxid
  let recent := gtxid.hash ∈ (s.nodes p).recentlyAnnouncedInvs
  match txinfo with
  | some entry =>
    if (mempoolReq ≠ 0 ∧ entry.time ≤ mempoolReq) ∨
        entry.time ≤ seconds now - unconditionalRelayDelay ∨ recent then some entry.tx
    else none
  | none => if recent then s.mapRelay.lookup gtxid.hash else none

def announceParents (relay : TxRelay) (tx : CTransaction)
    (now : ℤ) : PeerManager X :=
  match s.mempool.mapTx.lookup (tx.getHash X) with
  | none => s
  | some entry =>
    let recent := entry.parents.filter fun parent =>
      (s.mempool.mapTx.lookup parent).any fun entry =>
        decide (seconds now - unconditionalRelayDelay < entry.time)
    let unknown := recent.filter fun parent => decide (parent ∉ relay.filterInventoryKnown)
    s.modifyNode p fun node =>
      { node with recentlyAnnouncedInvs := unknown ++ node.recentlyAnnouncedInvs }

variable (now : ℤ) (inv : CInv)

def getDataDandelion :
    Except NetFault (Option Sent) :=
  if s.isTxDandelionEmbargoed inv.hash now then .ok none
  else
    match s.stempool.info ⟨false, inv.hash⟩ with
    | none => .ok none
    | some entry => do
      let relay ← (s.nodes p).deref
      if inv.hash ∈ relay.setDandelionInventoryKnown then
        .ok (some (.dandelionTx
          (if inv.type = msgDandelionTx then entry.tx.stripWitness else entry.tx)))
      else .ok none

def getDataCopy (relay : TxRelay) (inv : CInv)
    (tx : CTransaction) : CTransaction × Bool :=
  if ¬ (s.nodes p).fSupportsDandelion ∧ p ∉ s.vDandelionInbound ∧
      inv.hash ∈ relay.setDandelionInventoryKnown then
    match s.stempool.info ⟨false, inv.hash⟩ with
    | some entry => (entry.tx, true)
    | none => (tx, false)
  else (tx, true)

def getDataTx :
    Except NetFault (PeerManager X × Option Sent) := do
  match s.findTxForGetData p inv.toGenTxid (s.nodes p).mempoolReq now with
  | none => .ok (s, none)
  | some tx =>
    let relay ← (s.nodes p).deref
    let (tx, push) := s.getDataCopy p relay inv tx
    .ok (s.announceParents p relay tx now,
      if push then some (.tx (if inv.isMsgTx then tx.stripWitness else tx)) else none)

def getDataItem :
    Except NetFault (PeerManager X × Option Sent) :=
  if inv.isDandelionMsg then (fun sent => (s, sent)) <$> s.getDataDandelion p now inv
  else s.getDataTx p now inv

structure GetDataLoop (X : Crypto) where
  s : PeerManager X
  sent : List Sent
  vNotFound : List CInv
  queue : List CInv

def getDataLoop (p : NodeId) (now : ℤ) : List CInv → PeerManager X →
    Except NetFault (GetDataLoop X)
  | [], s => .ok ⟨s, [], [], []⟩
  | inv :: queue, s =>
    if ¬ (inv.isGenTxMsg || inv.isDandelionMsg) ∨ (s.nodes p).fPauseSend then
      .ok ⟨s, [], [], inv :: queue⟩
    else if (s.nodes p).txRelay.isNone then getDataLoop p now queue s
    else do
      let (s, sent) ← s.getDataItem p now inv
      let l ← getDataLoop p now queue s
      .ok { l with
        sent := sent.toList ++ l.sent
        vNotFound := if sent.isNone then inv :: l.vNotFound else l.vNotFound }

def blockReply (node : CNode) (inv : CInv) (compact witness : Bool)
    (matched : CBloomFilter → List CTransaction) : Except NetFault (List Sent) :=
  if inv.type = msgBlock then .ok [.block inv.hash false]
  else if inv.type = msgWitnessBlock then .ok [.block inv.hash true]
  else if inv.type = msgFilteredBlock then
    if node.txRelay.isSome then do
      let relay ← node.deref
      match relay.pfilter with
      | some filter =>
        .ok (.merkleBlock inv.hash :: (matched filter).map fun tx => .tx tx.stripWitness)
      | none => .ok []
    else .ok []
  else if compact then .ok [.cmpctBlock inv.hash]
  else .ok [.block inv.hash witness]

def processGetBlockData :
    Except NetFault (PeerManager X × List Sent) :=
  match E.blockAnswer p inv with
  | .ignored => .ok (s, [])
  | .disconnect => .ok (s.modifyNode p fun node => { node with fDisconnect := true }, [])
  | .found compact witness matched => do
    let sent ← blockReply (s.nodes p) inv compact witness matched
    if inv.hash = (s.nodes p).continuationBlock then
      .ok (s.modifyNode p fun node => { node with continuationBlock := 0 },
        sent ++ [.inv [⟨msgBlock, E.tip⟩]])
    else .ok (s, sent)

def getDataBlock :
    List CInv → Except NetFault (PeerManager X × List Sent × List CInv)
  | [] => .ok (s, [], [])
  | inv :: queue =>
    if (s.nodes p).fPauseSend then .ok (s, [], inv :: queue)
    else if inv.isGenBlkMsg then do
      let (s, sent) ← s.processGetBlockData E p inv
      .ok (s, sent, queue)
    else .ok (s, [], queue)

def notFoundMessage (vNotFound : List CInv) : List Sent :=
  if vNotFound.isEmpty then [] else [.notFound vNotFound]

def processGetData :
    Except NetFault (PeerManager X × List Sent) := do
  let l ← getDataLoop p now (s.nodes p).getdataRequests s
  let (s, blocks, queue) ← l.s.getDataBlock E p l.queue
  .ok (s.modifyNode p fun node => { node with getdataRequests := queue },
    l.sent ++ blocks ++ notFoundMessage l.vNotFound)

variable (tx : CTransaction)

def addChildrenToWorkSet (workSet : List Uint256) :
    List Uint256 :=
  let children := s.orphans.entries.filter fun e => e.2.tx.vin.any fun txin =>
    txin.prevout.hash == tx.getHash X && decide (txin.prevout.n.toNat < tx.vout.length)
  children.foldl (fun workSet e => if e.1 ∈ workSet then workSet else workSet ++ [e.1]) workSet

def maybePunishNodeForTx (result : AcceptResult) :
    PeerManager X :=
  if result = .consensus then s.modifyNode p fun node => node.misbehaving 100 else s

def rejectTx (result : AcceptResult) : PeerManager X :=
  if result = .witnessStripped then s
  else
    let s := { s with recentRejects := tx.getWitnessHash X :: s.recentRejects }
    if result = .inputsNotStandard ∧ tx.getWitnessHash X ≠ tx.getHash X then
      { s with recentRejects := tx.getHash X :: s.recentRejects }
    else s

/-- `ProcessOrphanTx`: until one orphan is accepted or refused for good. -/
def processOrphanTx (E : NetEnv X) (p : NodeId) (now : ℤ) : List Uint256 → PeerManager X →
    PeerManager X
  | [], s => s.modifyNode p fun node => { node with orphanWorkSet := [] }
  | orphanHash :: workSet, s =>
    match s.orphans.lookup orphanHash with
    | none => processOrphanTx E p now workSet s
    | some ⟨tx, fromPeer⟩ =>
      let (result, s) := s.acceptMempool E tx now
      match result with
      | .missingInputs => processOrphanTx E p now workSet s
      | .valid =>
        let s := s.relayTransaction orphanHash (tx.getWitnessHash X)
        let workSet := s.addChildrenToWorkSet tx workSet
        { s with orphans := s.orphans.erase orphanHash }.modifyNode p fun node =>
          { node with orphanWorkSet := workSet }
      | result =>
        let s := (s.maybePunishNodeForTx fromPeer result).rejectTx tx result
        { s with orphans := s.orphans.erase orphanHash }.modifyNode p fun node =>
          { node with orphanWorkSet := workSet }

def addOrphan (p : NodeId) (chance : Chance) :
    PeerManager X :=
  let s := if (s.orphans.lookup (tx.getHash X)).isSome ∨ maxStandardTxWeight < tx.weight then s
    else { s with orphans := s.orphans.insert (tx.getHash X) ⟨tx, p⟩ }
  { s with orphans := s.orphans.entries.foldl (fun orphans e =>
      if chance.keepsOrphan e.1 then orphans else orphans.erase e.1) s.orphans }

variable (now : ℤ)

def txAccepted :
    PeerManager X :=
  let (_, s) := s.acceptStempool E tx now
  let s := if s.isTxDandelionEmbargoed (tx.getHash X) now then
    s.removeDandelionEmbargo (tx.getHash X) else s
  let s := (s.forgetTxHash (tx.getHash X)).forgetTxHash (tx.getWitnessHash X)
  let s := s.relayTransaction (tx.getHash X) (tx.getWitnessHash X)
  processOrphanTx E p now (s.addChildrenToWorkSet tx (s.nodes p).orphanWorkSet) s

variable (chance : Chance)

def txMissingInputs : PeerManager X :=
  let uniqueParents := (tx.vin.map fun txin => txin.prevout.hash).dedup
  let s := if uniqueParents.any fun parent => decide (parent ∈ s.recentRejects) then
      { s with recentRejects := tx.getHash X :: tx.getWitnessHash X :: s.recentRejects }
    else
      (uniqueParents.foldl (fun s parent =>
        let s := s.modifyNode p fun node => node.addKnownTx parent
        let (fAlreadyHave, s) := s.alreadyHaveTx E ⟨false, parent⟩
        if fAlreadyHave then s else s.addTxAnnouncement p ⟨false, parent⟩) s).addOrphan tx p chance
  (s.forgetTxHash (tx.getHash X)).forgetTxHash (tx.getWitnessHash X)

def txRefused (result : AcceptResult) :
    PeerManager X :=
  let s := s.rejectTx tx result
  let s := if result = .witnessStripped then s else s.forgetTxHash (tx.getWitnessHash X)
  let s := if result = .inputsNotStandard ∧ tx.getWitnessHash X ≠ tx.getHash X then
    s.forgetTxHash (tx.getHash X) else s
  s.maybePunishNodeForTx p result

def noteTx : PeerManager X :=
  let wtxidRelay := (s.nodes p).wtxidRelay
  let txid := tx.getHash X
  let wtxid := tx.getWitnessHash X
  let s := s.modifyNode p fun node => node.addKnownTx (if wtxidRelay then wtxid else txid)
  let s := if wtxidRelay ∧ txid ≠ wtxid then s.modifyNode p fun node => node.addKnownTx txid else s
  let s := s.receivedResponse p txid
  if tx.hasWitness then s.receivedResponse p wtxid else s

def processTx : PeerManager X :=
  let node := s.nodes p
  if (E.ignoreIncomingTxs ∧ ¬ node.permissions.relay) ∨ node.txRelay.isNone then
    s.modifyNode p fun node => { node with fDisconnect := true }
  else
    let (fAlreadyHave, s) := (s.noteTx p tx).alreadyHaveTx E ⟨true, tx.getWitnessHash X⟩
    if fAlreadyHave then
      if node.permissions.forceRelay ∧ s.mempool.contains (tx.getHash X) then
        s.relayTransaction (tx.getHash X) (tx.getWitnessHash X)
      else s
    else
      let (result, s) := s.acceptMempool E tx now
      match result with
      | .valid => s.txAccepted E p tx now
      | .missingInputs => s.txMissingInputs E p tx chance
      | result => s.txRefused p tx result

def getDandelionDestination :
    Option NodeId × PeerManager X :=
  match s.mDandelionRoutes.lookup p with
  | some destination => (some destination, s)
  | none =>
    match chance.destination with
    | some destination =>
      (some destination, { s with mDandelionRoutes := s.mDandelionRoutes.insert p destination })
    | none => (none, s)

def relayDandelionTransaction : PeerManager X :=
  if chance.willFluff then
    -- the caller has found the transaction in the stem pool
    let ptx := (s.stempool.get (tx.getHash X)).getD tx
    let (_, s) := s.acceptMempool E ptx now
    s.relayTransaction (tx.getHash X) (tx.getWitnessHash X)
  else
    let (destination, s) := s.getDandelionDestination p chance
    match destination with
    | some q => s.modifyNode q fun node => node.pushOtherInventory ⟨msgDandelionTx, tx.getHash X⟩
    | none => s

def embargoEnd : ℤ :=
  dandelionEmbargoMinimum + (milliseconds now + chance.delay)

def acceptStem : PeerManager X :=
  if s.stempool.contains (tx.getHash X) then s
  else
    let (result, s) := s.acceptStempool E tx now
    if result = .valid then s.insertDandelionEmbargo (tx.getHash X) (embargoEnd now chance) else s

def processDandelionTx : PeerManager X :=
  if p ∈ s.vDandelionInbound then
    let s := s.acceptStem E tx now chance
    if s.stempool.contains (tx.getHash X) then s.relayDandelionTransaction E p tx now chance else s
  else s

variable (node : CNode)

def processMempool : Except NetFault CNode :=
  let refuse := if node.permissions.noBan then node else { node with fDisconnect := true }
  if ¬ node.nodeBloom ∧ ¬ node.permissions.mempool then .ok refuse
  else if E.outboundTargetReached ∧ ¬ node.permissions.mempool then .ok refuse
  else if node.txRelay.isSome then do
    let relay ← node.deref
    .ok (node.mapRelay fun _ => { relay with fSendMempool := true })
  else .ok node

def processFilterLoad (filter : CBloomFilter) : Except NetFault CNode :=
  if ¬ node.nodeBloom then .ok { node with fDisconnect := true }
  else if ¬ filter.isWithinSizeConstraints then .ok (node.misbehaving 100)
  else if node.txRelay.isSome then do
    let relay ← node.deref
    .ok (node.mapRelay fun _ => { relay with pfilter := some filter, fRelayTxes := true })
  else .ok node

def processFilterAdd (vData : Bytes) : Except NetFault CNode :=
  if ¬ node.nodeBloom then .ok { node with fDisconnect := true }
  else if maxScriptElementSize < vData.length then .ok (node.misbehaving 100)
  else if node.txRelay.isSome then do
    let relay ← node.deref
    match relay.pfilter with
    | some filter =>
      .ok (node.mapRelay fun _ => { relay with pfilter := some (E.bloomInsert filter vData) })
    | none => .ok (node.misbehaving 100)
  else .ok node

def processFilterClear : Except NetFault CNode :=
  if ¬ node.nodeBloom then .ok { node with fDisconnect := true }
  else if node.txRelay.isNone then .ok node
  else do
    let relay ← node.deref
    .ok (node.mapRelay fun _ => { relay with pfilter := none, fRelayTxes := true })

def processFeeFilter (newFeeFilter : ℤ) : Except NetFault CNode :=
  if moneyRange newFeeFilter ∧ node.txRelay.isSome then do
    let relay ← node.deref
    .ok (node.mapRelay fun _ => { relay with minFeeFilter := newFeeFilter })
  else .ok node

def queueGetData (vInv : List CInv) : PeerManager X :=
  s.modifyNode p fun node => { node with getdataRequests := node.getdataRequests ++ vInv }

def handleNode (handler : CNode → Except NetFault CNode) :
    Except NetFault (PeerManager X × List Sent) := do
  let node ← handler (s.nodes p)
  .ok (s.setNode p node, [])

def processMessage
    (msg : NetMessage) : Except NetFault (PeerManager X × List Sent) :=
  let s := s.checkDandelionEmbargoes E now
  if ¬ (s.nodes p).fSuccessfullyConnected then .ok (s, [])
  else
    match msg with
    | .inv vInv => s.processInv E p vInv
    | .getData vInv =>
      if maxInvSz < vInv.length then .ok (s.modifyNode p fun node => node.misbehaving 20, [])
      else (s.queueGetData p vInv).processGetData E p now
    | .tx tx => .ok (s.processTx E p tx now chance, [])
    | .mempool => s.handleNode p (processMempool E)
    | .filterLoad filter => s.handleNode p fun node => processFilterLoad node filter
    -- the embargoes are checked a second time before the handlers that follow
    | .filterAdd vData =>
      (s.checkDandelionEmbargoes E now).handleNode p fun node => processFilterAdd E node vData
    | .filterClear => (s.checkDandelionEmbargoes E now).handleNode p processFilterClear
    | .feeFilter newFeeFilter =>
      (s.checkDandelionEmbargoes E now).handleNode p fun node => processFeeFilter node newFeeFilter
    | .dandelionTx tx =>
      .ok ((s.checkDandelionEmbargoes E now).processDandelionTx E p tx now chance, [])

def processPending :
    Except NetFault (PeerManager X × List Sent) := do
  let (s, sent) ← if (s.nodes p).getdataRequests.isEmpty then .ok (s, [])
    else s.processGetData E p now
  if (s.nodes p).orphanWorkSet.isEmpty then .ok (s, sent)
  else .ok (processOrphanTx E p now (s.nodes p).orphanWorkSet s, sent)

def processMessages :
    Except NetFault (PeerManager X × List Sent) := do
  let (s, sent) ← s.processPending E p now
  if (s.nodes p).takesMessage then
    match (s.nodes p).vProcessMsg with
    | [] => .ok (s, sent)
    | msg :: rest =>
      let s := s.modifyNode p fun node => { node with vProcessMsg := rest }
      let (s, more) ← s.processMessage E p now chance msg
      .ok (s, sent ++ more)
  else .ok (s, sent)

end PeerManager
end Vexta
