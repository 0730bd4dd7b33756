import Vexta.Net.Send

/-! Where message processing follows a null transaction relay pointer. -/
namespace Vexta
open Lib List Option Bool CNode

variable {X : Crypto}

namespace CNode

variable {node : CNode}

theorem deref_ok (h : node.txRelay.isSome) :
    ∃ relay, node.txRelay = some relay ∧ node.deref = .ok relay := by
  obtain ⟨relay, hrelay⟩ := isSome_iff_exists.mp h
  exact ⟨relay, hrelay, by rw [deref, hrelay]⟩

theorem txRelay_of_deref {relay : TxRelay} (h : node.deref = .ok relay) :
    node.txRelay = some relay := by
  unfold deref at h
  cases hrelay : node.txRelay with
  | none =>
    rw [hrelay] at h
    cases h
  | some relay' =>
    rw [hrelay] at h
    cases h
    rfl

theorem deref_blockRelay (h : node.connType = .blockRelay) : node.deref = .error .nullTxRelay := by
  rw [deref, isNone_iff_eq_none.mp (node.txRelay_iff.mpr h)]

theorem isSome_of_ne_blockRelay (h : node.connType ≠ .blockRelay) : node.txRelay.isSome := by
  rw [isSome_iff_ne_none]
  intro hnone
  exact h (node.txRelay_iff.mp (by rw [hnone]; rfl))

/-- What messages for filters and fees do: the relay state may change, except Dandelion inventories.
-/
structure Filtered (node node' : CNode) : Prop where
  connType : node'.connType = node.connType
  messages : node'.vProcessMsg = node.vProcessMsg
  relay : node'.txRelay = node.txRelay ∨ ∃ relay relay', node.txRelay = some relay ∧
    node'.txRelay = some relay' ∧
    relay'.vInventoryDandelionTxToSend = relay.vInventoryDandelionTxToSend ∧
    relay'.setDandelionInventoryKnown = relay.setDandelionInventoryKnown

theorem Filtered.of_eq {node' : CNode} (hconn : node'.connType = node.connType)
    (hmsgs : node'.vProcessMsg = node.vProcessMsg) (hrelay : node'.txRelay = node.txRelay) :
    node.Filtered node' := ⟨hconn, hmsgs, .inl hrelay⟩

end CNode

theorem CInv.isGenTxMsg_of_isMsgBlk {inv : CInv} (h : inv.isMsgBlk = true) :
    inv.isGenTxMsg = false := by
  have htype : inv.type = msgBlock := by simpa [CInv.isMsgBlk] using h
  rw [CInv.isGenTxMsg, htype]
  decide

namespace PeerManager

variable (s : PeerManager X)

@[simp] theorem setNode_self (p : NodeId) (node : CNode) :
    (s.setNode p node).nodes p = node := Function.update_self ..

theorem setNode_ne {p q : NodeId} (hq : q ≠ p) (node : CNode) :
    (s.setNode p node).nodes q = s.nodes q := Function.update_of_ne hq ..

theorem modifyNode_ne {p q : NodeId} (hq : q ≠ p) (f : CNode → CNode) :
    (s.modifyNode p f).nodes q = s.nodes q := setNode_ne s hq _

@[simp] theorem modifyNode_self (p : NodeId) (f : CNode → CNode) :
    (s.modifyNode p f).nodes p = f (s.nodes p) := Function.update_self ..

theorem getDataItem_ok {p : NodeId} (now : ℤ) (inv : CInv)
    (h : (s.nodes p).txRelay.isSome) : ∃ r, s.getDataItem p now inv = .ok r := by
  obtain ⟨relay, -, hderef⟩ := deref_ok h
  unfold getDataItem
  split_ifs
  · unfold getDataDandelion
    rw [hderef]
    by_cases hembargo : s.isTxDandelionEmbargoed inv.hash now
    · rw [if_pos hembargo]
      exact ⟨_, rfl⟩
    · rw [if_neg hembargo]
      cases s.stempool.info ⟨false, inv.hash⟩ with
      | none => exact ⟨_, rfl⟩
      | some entry =>
        dsimp only
        rw [ok_bind]
        by_cases hknown : inv.hash ∈ relay.setDandelionInventoryKnown
        · rw [if_pos hknown]
          exact ⟨_, rfl⟩
        · rw [if_neg hknown]
          exact ⟨_, rfl⟩
  · unfold getDataTx
    dsimp only
    split
    · exact ⟨_, rfl⟩
    · rw [hderef, ok_bind]
      exact ⟨_, rfl⟩

theorem getDataLoop_ok (p : NodeId) (now : ℤ) (queue : List CInv) (s : PeerManager X) :
    ∃ l, getDataLoop p now queue s = .ok l := by
  induction queue generalizing s with
  | nil => exact ⟨_, rfl⟩
  | cons inv queue ih =>
    rw [getDataLoop]
    split_ifs with hstop hnone
    · exact ⟨_, rfl⟩
    · exact ih s
    · have hsome : (s.nodes p).txRelay.isSome := by
        rwa [not_eq_true, isNone_eq_false_iff] at hnone
      obtain ⟨⟨s', sent⟩, hitem⟩ := s.getDataItem_ok now inv hsome
      obtain ⟨l, hl⟩ := ih s'
      rw [hitem, ok_bind]
      dsimp only
      rw [hl, ok_bind]
      exact ⟨_, rfl⟩

theorem blockReply_ok (node : CNode) (inv : CInv) (compact witness : Bool)
    (matched : CBloomFilter → List CTransaction) :
    ∃ sent, blockReply node inv compact witness matched = .ok sent := by
  unfold blockReply
  split_ifs with _ _ _ hsome
  all_goals try exact ⟨_, rfl⟩
  obtain ⟨relay, -, hderef⟩ := deref_ok hsome
  rw [hderef, ok_bind]
  split <;> exact ⟨_, rfl⟩

variable (E : NetEnv X) (s : PeerManager X) (p : NodeId)

theorem processGetBlockData_ok (inv : CInv) :
    ∃ r, s.processGetBlockData E p inv = .ok r := by
  unfold processGetBlockData
  split
  · exact ⟨_, rfl⟩
  · exact ⟨_, rfl⟩
  next compact witness matched _ =>
    obtain ⟨sent, hsent⟩ := blockReply_ok (s.nodes p) inv compact witness matched
    rw [hsent, ok_bind]
    split_ifs <;> exact ⟨_, rfl⟩

theorem getDataBlock_ok (queue : List CInv) :
    ∃ r, s.getDataBlock E p queue = .ok r := by
  cases queue with
  | nil => exact ⟨_, rfl⟩
  | cons inv queue =>
    rw [getDataBlock]
    split_ifs
    · exact ⟨_, rfl⟩
    · obtain ⟨r, hr⟩ := s.processGetBlockData_ok E p inv
      rw [hr, ok_bind]
      exact ⟨_, rfl⟩
    · exact ⟨_, rfl⟩

theorem processGetData_ok (now : ℤ) :
    ∃ r, s.processGetData E p now = .ok r := by
  obtain ⟨l, hl⟩ := getDataLoop_ok p now (s.nodes p).getdataRequests s
  obtain ⟨r, hr⟩ := l.s.getDataBlock_ok E p l.queue
  rw [processGetData, hl, ok_bind, hr, ok_bind]
  exact ⟨_, rfl⟩

theorem processPending_ok (now : ℤ) :
    ∃ r, s.processPending E p now = .ok r := by
  have hdone : ∀ r : PeerManager X × List Sent, ∃ r',
      (if (r.1.nodes p).orphanWorkSet.isEmpty then .ok (r.1, r.2)
        else .ok (processOrphanTx E p now (r.1.nodes p).orphanWorkSet r.1, r.2) :
        Except NetFault (PeerManager X × List Sent)) = .ok r' := by
    intro r
    split_ifs <;> exact ⟨_, rfl⟩
  unfold processPending
  split_ifs
  · exact hdone (s, [])
  · obtain ⟨r, hr⟩ := s.processGetData_ok E p now
    rw [hr, ok_bind]
    exact hdone r

theorem handleNode_ok {handler : CNode → Except NetFault CNode}
    (h : ∃ node, handler (s.nodes p) = .ok node ∧ (s.nodes p).Filtered node) :
    ∃ r, s.handleNode p handler = .ok r := by
  obtain ⟨node, hnode, -⟩ := h
  rw [handleNode, hnode, ok_bind]
  exact ⟨_, rfl⟩

theorem deref_filtered {node : CNode} {f : TxRelay → TxRelay} (hsome : node.txRelay.isSome)
    (hf : ∀ relay, (f relay).vInventoryDandelionTxToSend = relay.vInventoryDandelionTxToSend ∧
      (f relay).setDandelionInventoryKnown = relay.setDandelionInventoryKnown) :
    ∃ node', (node.deref >>= fun relay => .ok (node.mapRelay fun _ => f relay)) = .ok node' ∧
      node.Filtered node' := by
  obtain ⟨relay, hrelay, hderef⟩ := deref_ok hsome
  rw [hderef, ok_bind]
  refine ⟨_, rfl, rfl, rfl, .inr ⟨relay, f relay, hrelay, ?_, hf relay⟩⟩
  change node.txRelay.map (fun _ => f relay) = _
  rw [hrelay]
  rfl

variable (node : CNode)

theorem processMempool_spec :
    ∃ node', processMempool E node = .ok node' ∧ node.Filtered node' := by
  unfold processMempool
  dsimp only
  by_cases hsome : node.txRelay.isSome
  · rw [if_pos hsome]
    have hset :=
      deref_filtered (f := fun relay => { relay with fSendMempool := true }) hsome
        fun _ => ⟨rfl, rfl⟩
    split_ifs
    all_goals first | exact hset | exact ⟨_, rfl, .of_eq rfl rfl rfl⟩
  · rw [if_neg hsome]
    split_ifs <;> exact ⟨_, rfl, .of_eq rfl rfl rfl⟩

theorem processFilterLoad_spec (filter : CBloomFilter) :
    ∃ node', processFilterLoad node filter = .ok node' ∧ node.Filtered node' := by
  unfold processFilterLoad
  split_ifs with _ _ hsome
  · exact deref_filtered hsome fun _ => ⟨rfl, rfl⟩
  · exact ⟨_, rfl, .of_eq rfl rfl rfl⟩
  · exact ⟨_, rfl, .of_eq rfl rfl rfl⟩
  · exact ⟨_, rfl, .of_eq rfl rfl rfl⟩

theorem processFilterAdd_spec (vData : Bytes) :
    ∃ node', processFilterAdd E node vData = .ok node' ∧ node.Filtered node' := by
  unfold processFilterAdd
  split_ifs with _ _ hsome
  · exact ⟨_, rfl, .of_eq rfl rfl rfl⟩
  · obtain ⟨relay, hrelay, hderef⟩ := deref_ok hsome
    rw [hderef, ok_bind]
    cases relay.pfilter with
    | none => exact ⟨_, rfl, .of_eq rfl rfl rfl⟩
    | some filter =>
      have hset := deref_filtered
        (f := fun relay => { relay with pfilter := some (E.bloomInsert filter vData) }) hsome
        fun _ => ⟨rfl, rfl⟩
      rwa [hderef, ok_bind] at hset
  · exact ⟨_, rfl, .of_eq rfl rfl rfl⟩
  · exact ⟨_, rfl, .of_eq rfl rfl rfl⟩

theorem processFilterClear_spec :
    ∃ node', processFilterClear node = .ok node' ∧ node.Filtered node' := by
  unfold processFilterClear
  split_ifs with _ hnone
  · exact ⟨_, rfl, .of_eq rfl rfl rfl⟩
  · apply deref_filtered
    · rwa [not_eq_true, isNone_eq_false_iff] at hnone
    · exact fun _ => ⟨rfl, rfl⟩
  · exact ⟨_, rfl, .of_eq rfl rfl rfl⟩

theorem processFeeFilter_spec (newFeeFilter : ℤ) :
    ∃ node', processFeeFilter node newFeeFilter = .ok node' ∧ node.Filtered node' := by
  unfold processFeeFilter
  split_ifs with h
  · exact deref_filtered h.2 fun _ => ⟨rfl, rfl⟩
  · exact ⟨_, rfl, .of_eq rfl rfl rfl⟩

theorem sendMessages_ok (now : ℤ)
    (chance : Chance) : ∃ r, s.sendMessages E p now chance = .ok r := by
  unfold sendMessages
  dsimp only
  split_ifs with _ hsome
  all_goals try exact ⟨_, rfl⟩
  obtain ⟨relay, -, hderef⟩ := deref_ok hsome
  rw [hderef, ok_bind]
  exact ⟨_, rfl⟩

def reachesDandelion (wtxidRelay fBlocksOnly : Bool) : List CInv → Bool
  | [] => false
  | inv :: vInv =>
    if inv.mismatches wtxidRelay then
      reachesDandelion wtxidRelay fBlocksOnly vInv
    else if inv.isDandelionMsg then true
    else if inv.isGenTxMsg && fBlocksOnly then false
    else reachesDandelion wtxidRelay fBlocksOnly vInv

variable {l : InvLoop X} (E : NetEnv X)

theorem foldlM_invItem_returned (p : NodeId) (fBlocksOnly : Bool) (h : l.returned)
    (vInv : List CInv) : vInv.foldlM (invItem E p fBlocksOnly) l = .ok l := by
  induction vInv with
  | nil => rfl
  | cons inv vInv ih =>
    rw [foldlM_cons, invItem, if_pos h, ok_bind, ih]

structure Kind where
  connType : ConnectionType
  wtxidRelay : Bool
  permissions : NetPermissionFlags
  fSuccessfullyConnected : Bool

def kindOf (node : CNode) : Kind :=
  ⟨node.connType, node.wtxidRelay, node.permissions, node.fSuccessfullyConnected⟩

variable (s : PeerManager X)

theorem relayTransaction_node (txid wtxid : Uint256) (q : NodeId) :
    (s.relayTransaction txid wtxid).nodes q = s.nodes q ∨
      ∃ hash, (s.relayTransaction txid wtxid).nodes q = (s.nodes q).pushTxInventory hash := by
  unfold relayTransaction
  dsimp only
  split_ifs
  · exact .inr ⟨_, rfl⟩
  · exact .inr ⟨_, rfl⟩
  · exact .inl rfl

theorem checkDandelionEmbargoes_congr {β : Type} {f : CNode → β}
    (hf : ∀ node hash, f (node.pushTxInventory hash) = f node) (E : NetEnv X) (s : PeerManager X)
    (now : ℤ) (q : NodeId) : f ((s.checkDandelionEmbargoes E now).nodes q) = f (s.nodes q) := by
  unfold checkDandelionEmbargoes
  generalize s.mDandelionEmbargo.entries = entries
  induction entries generalizing s with
  | nil => rfl
  | cons entry entries ih =>
    rw [foldl_cons, ih]
    unfold checkEmbargo
    split_ifs
    · rfl
    · cases s.stempool.get entry.1 with
      | none => rfl
      | some tx =>
        rcases relayTransaction_node (s.acceptMempool E tx now).2 (tx.getHash X)
          (tx.getWitnessHash X) q with heq | ⟨hash, heq⟩
        · exact congrArg f heq
        · exact (congrArg f heq).trans (hf _ _)
    · rfl

theorem checkDandelionEmbargoes_kind (now : ℤ) (q : NodeId) :
    kindOf ((s.checkDandelionEmbargoes E now).nodes q) = kindOf (s.nodes q) :=
  checkDandelionEmbargoes_congr (fun _ _ => rfl) E s now q

theorem alreadyHaveTx_nodes (gtxid : GenTxid) :
    (s.alreadyHaveTx E gtxid).2.nodes = s.nodes := by
  unfold alreadyHaveTx
  dsimp only
  split_ifs <;> rfl

variable (p : NodeId)

theorem addTxAnnouncement_nodes (gtxid : GenTxid) :
    (s.addTxAnnouncement p gtxid).nodes = s.nodes := by
  unfold addTxAnnouncement receivedInv
  split_ifs <;> rfl

variable (fBlocksOnly : Bool)

theorem invTx_kind (l : InvLoop X) (inv : CInv) :
    kindOf ((invTx E p fBlocksOnly l inv).s.nodes p) = kindOf (l.s.nodes p) := by
  unfold invTx
  dsimp only
  split_ifs
  · simp only [modifyNode_self, alreadyHaveTx_nodes]
    rfl
  · simp only [addTxAnnouncement_nodes, modifyNode_self, alreadyHaveTx_nodes]
    rfl
  · simp only [modifyNode_self, alreadyHaveTx_nodes]
    rfl

theorem invTx_returned (inv : CInv)
    (hl : l.returned = false) : (invTx E p fBlocksOnly l inv).returned = fBlocksOnly := by
  unfold invTx
  dsimp only
  split_ifs with hblocks
  · exact hblocks.symm
  · exact hl.trans (eq_false_of_not_eq_true hblocks).symm
  · exact hl.trans (eq_false_of_not_eq_true hblocks).symm

theorem invItem_cases (inv : CInv)
    (hl : l.returned = false) (hinv : inv.isDandelionMsg = false) :
    ∃ l', invItem E p fBlocksOnly l inv = .ok l' ∧
      kindOf (l'.s.nodes p) = kindOf (l.s.nodes p) ∧
      l'.returned = (!inv.mismatches (l.s.nodes p).wtxidRelay &&
        (inv.isGenTxMsg && fBlocksOnly)) := by
  unfold invItem
  rw [hl, hinv]
  cases inv.mismatches (l.s.nodes p).wtxidRelay with
  | true => exact ⟨l, rfl, rfl, hl⟩
  | false =>
    by_cases hblk : inv.isMsgBlk = true
    · rw [hblk, CInv.isGenTxMsg_of_isMsgBlk hblk]
      exact ⟨_, rfl, rfl, rfl⟩
    · rw [eq_false_of_not_eq_true hblk]
      cases inv.isGenTxMsg with
      | true => exact ⟨_, rfl, invTx_kind .., invTx_returned E p fBlocksOnly inv hl⟩
      | false => exact ⟨_, rfl, rfl, hl⟩

theorem invItem_dandelion {inv : CInv}
    (hl : l.returned = false) (hinv : inv.isDandelionMsg = true)
    (hrelay : (l.s.nodes p).connType ≠ .blockRelay) :
    ∃ l', invItem E p fBlocksOnly l inv = .ok l' ∧
      kindOf (l'.s.nodes p) = kindOf (l.s.nodes p) ∧ l'.returned = false := by
  obtain ⟨relay, -, hderef⟩ := deref_ok (isSome_of_ne_blockRelay hrelay)
  unfold invItem
  rw [hl, hinv]
  cases inv.mismatches (l.s.nodes p).wtxidRelay with
  | true => exact ⟨l, rfl, rfl, hl⟩
  | false =>
    rw [if_neg Bool.false_ne_true, if_neg Bool.false_ne_true, if_pos rfl, invDandelion, hderef,
      ok_bind]
    refine ⟨_, rfl, ?_, hl⟩
    rw [setNode_self]
    rfl

theorem foldlM_invItem_ok_iff (vInv : List CInv)
    (l : InvLoop X) (hl : l.returned = false) :
    (∃ l', vInv.foldlM (invItem E p fBlocksOnly) l = .ok l') ↔
      ¬ ((l.s.nodes p).connType = .blockRelay ∧
        reachesDandelion (l.s.nodes p).wtxidRelay fBlocksOnly vInv = true) := by
  induction vInv generalizing l with
  | nil =>
    constructor
    · rintro - ⟨-, h⟩
      cases h
    · intro _
      exact ⟨l, rfl⟩
  | cons inv vInv ih =>
    -- the loop goes on from a state with the same peer
    have hgo : ∀ l' : InvLoop X, invItem E p fBlocksOnly l inv = .ok l' →
        kindOf (l'.s.nodes p) = kindOf (l.s.nodes p) → l'.returned = false →
        ((∃ l'', (inv :: vInv).foldlM (invItem E p fBlocksOnly) l = .ok l'') ↔
          ¬ ((l.s.nodes p).connType = .blockRelay ∧
            reachesDandelion (l.s.nodes p).wtxidRelay fBlocksOnly vInv = true)) := by
      intro l' hstep hkind hl'
      have hconn : (l'.s.nodes p).connType = (l.s.nodes p).connType := congrArg Kind.connType hkind
      have hwtxid : (l'.s.nodes p).wtxidRelay = (l.s.nodes p).wtxidRelay :=
        congrArg Kind.wtxidRelay hkind
      rw [foldlM_cons, hstep, ok_bind, ih l' hl', hconn, hwtxid]
    rw [reachesDandelion]
    cases hdandelion : inv.isDandelionMsg with
    | false =>
      obtain ⟨l', hstep, hkind, hret⟩ := invItem_cases E p fBlocksOnly inv hl hdandelion
      cases hl' : l'.returned with
      | false =>
        rw [hgo l' hstep hkind hl']
        rw [hl'] at hret
        cases hskip : inv.mismatches (l.s.nodes p).wtxidRelay with
        | true => rfl
        | false =>
          rw [hskip, Bool.not_false, Bool.true_and] at hret
          rw [← hret]
          rfl
      | true =>
        rw [foldlM_cons, hstep, ok_bind, foldlM_invItem_returned E p fBlocksOnly hl' vInv]
        rw [hl'] at hret
        cases hskip : inv.mismatches (l.s.nodes p).wtxidRelay with
        | true =>
          rw [hskip] at hret
          cases hret
        | false =>
          rw [hskip, Bool.not_false, Bool.true_and] at hret
          rw [← hret]
          constructor
          · rintro - ⟨-, h⟩
            cases h
          · intro _
            exact ⟨l', rfl⟩
    | true =>
      by_cases hskip : inv.mismatches (l.s.nodes p).wtxidRelay = true
      · have hstep : invItem E p fBlocksOnly l inv = .ok l := by
          unfold invItem
          rw [if_neg (by rw [hl]; decide), if_pos hskip]
        rw [hgo l hstep rfl hl, if_pos hskip]
      rw [if_neg hskip, if_pos rfl]
      by_cases hconn : (l.s.nodes p).connType = .blockRelay
      · have hstep : invItem E p fBlocksOnly l inv = .error .nullTxRelay := by
          unfold invItem
          rw [if_neg (by rw [hl]; decide), if_neg hskip, if_pos hdandelion, invDandelion,
            deref_blockRelay hconn, error_bind]
        rw [foldlM_cons, hstep, error_bind]
        constructor
        · rintro ⟨l', hl'⟩
          cases hl'
        · intro h
          exact absurd ⟨hconn, rfl⟩ h
      · obtain ⟨l', hstep, hkind, hl'⟩ := invItem_dandelion E p fBlocksOnly hl hdandelion hconn
        rw [hgo l' hstep hkind hl']
        constructor
        · intro _ h
          exact hconn h.1
        · intro _ h
          exact hconn h.1

def followsNull (node : CNode) : NetMessage → Bool
  | .inv vInv =>
    node.fSuccessfullyConnected && decide (node.connType = .blockRelay) &&
      decide (vInv.length ≤ maxInvSz) &&
      reachesDandelion node.wtxidRelay (!node.permissions.relay) vInv
  | _ => false

theorem followsNull_congr {node node' : CNode} (h : kindOf node' = kindOf node)
    (msg : NetMessage) : followsNull node' msg = followsNull node msg := by
  obtain ⟨hconn, hwtxid, hperm, hdone⟩ := Kind.mk.inj h
  cases msg with
  | inv vInv => simp only [followsNull, hconn, hwtxid, hperm, hdone]
  | _ => rfl

theorem processInv_ok_iff (vInv : List CInv)
    (h : (s.nodes p).fSuccessfullyConnected = true) :
    (∃ r, s.processInv E p vInv = .ok r) ↔ followsNull (s.nodes p) (.inv vInv) = false := by
  unfold processInv
  by_cases hlen : maxInvSz < vInv.length
  · rw [if_pos hlen]
    have hfalse : followsNull (s.nodes p) (.inv vInv) = false := by
      simp [followsNull, Nat.not_le.mpr hlen]
    exact ⟨fun _ => hfalse, fun _ => ⟨_, rfl⟩⟩
  rw [if_neg hlen]
  dsimp only
  have hloop := foldlM_invItem_ok_iff E p
    ((E.ignoreIncomingTxs || (s.nodes p).txRelay.isNone) && !(s.nodes p).permissions.relay) vInv
    ⟨s, [], none, false⟩ rfl
  have hiff : followsNull (s.nodes p) (.inv vInv) = false ↔
      ¬ ((s.nodes p).connType = .blockRelay ∧ reachesDandelion (s.nodes p).wtxidRelay
        ((E.ignoreIncomingTxs || (s.nodes p).txRelay.isNone) && !(s.nodes p).permissions.relay)
        vInv = true) := by
    by_cases hconn : (s.nodes p).connType = .blockRelay
    · rw [(s.nodes p).txRelay_iff.mpr hconn, Bool.or_true, Bool.true_and]
      simp [followsNull, h, hconn, Nat.not_lt.mp hlen]
    · simp [followsNull, hconn]
  rw [hiff, ← hloop]
  constructor
  · rintro ⟨r, hr⟩
    obtain ⟨l', hl', -⟩ := bind_eq_ok.mp hr
    exact ⟨l', hl'⟩
  · rintro ⟨l', hl'⟩
    rw [hl', ok_bind]
    exact ⟨_, rfl⟩

theorem processMessage_ok_iff (now : ℤ)
    (chance : Chance) (msg : NetMessage) :
    (∃ r, s.processMessage E p now chance msg = .ok r) ↔ followsNull (s.nodes p) msg = false := by
  have hkind := s.checkDandelionEmbargoes_kind E now p
  unfold processMessage
  dsimp only
  rw [← followsNull_congr hkind msg]
  generalize s.checkDandelionEmbargoes E now = s'
  by_cases hdone : (s'.nodes p).fSuccessfullyConnected = true
  swap
  · rw [if_pos hdone]
    have hfalse : followsNull (s'.nodes p) msg = false := by
      cases msg with
      | inv vInv => simp [followsNull, hdone]
      | _ => rfl
    exact ⟨fun _ => hfalse, fun _ => ⟨_, rfl⟩⟩
  rw [if_neg (not_not.mpr hdone)]
  -- only the handler for inventories can fault
  cases msg with
  | inv vInv => exact s'.processInv_ok_iff E p vInv hdone
  | getData vInv =>
    refine ⟨fun _ => rfl, fun _ => ?_⟩
    dsimp only
    split_ifs
    · exact ⟨_, rfl⟩
    · exact processGetData_ok ..
  | tx tx => exact ⟨fun _ => rfl, fun _ => ⟨_, rfl⟩⟩
  | dandelionTx tx => exact ⟨fun _ => rfl, fun _ => ⟨_, rfl⟩⟩
  | mempool => exact ⟨fun _ => rfl, fun _ => handleNode_ok _ p (processMempool_spec E _)⟩
  | filterLoad filter => exact ⟨fun _ => rfl, fun _ => handleNode_ok _ p (processFilterLoad_spec _ _)⟩
  | filterAdd vData => exact ⟨fun _ => rfl, fun _ => handleNode_ok _ p (processFilterAdd_spec E _ _)⟩
  | filterClear => exact ⟨fun _ => rfl, fun _ => handleNode_ok _ p (processFilterClear_spec _)⟩
  | feeFilter fee => exact ⟨fun _ => rfl, fun _ => handleNode_ok _ p (processFeeFilter_spec _ _)⟩

variable (event : NetEvent X)

def FollowsNull : Prop :=
  ∃ p now chance s₁ sent msg rest, event = .process p now chance ∧
    s.processPending E p now = .ok (s₁, sent) ∧ (s₁.nodes p).takesMessage = true ∧
    (s₁.nodes p).vProcessMsg = msg :: rest ∧ followsNull (s₁.nodes p) msg = true

theorem processMessages_ok_iff (now : ℤ)
    (chance : Chance) :
    (∃ r, s.processMessages E p now chance = .ok r) ↔
      ¬ FollowsNull E s (.process p now chance) := by
  obtain ⟨⟨s₁, sent⟩, hpending⟩ := s.processPending_ok E p now
  have hiff : FollowsNull E s (.process p now chance) ↔ (s₁.nodes p).takesMessage = true ∧
      ∃ msg rest, (s₁.nodes p).vProcessMsg = msg :: rest ∧
        followsNull (s₁.nodes p) msg = true := by
    constructor
    · rintro ⟨p', now', chance', s₁', sent', msg, rest, hevent, hpending', htakes, hmsg, hnull⟩
      cases hevent
      rw [hpending] at hpending'
      cases hpending'
      exact ⟨htakes, msg, rest, hmsg, hnull⟩
    · rintro ⟨htakes, msg, rest, hmsg, hnull⟩
      exact ⟨p, now, chance, s₁, sent, msg, rest, rfl, hpending, htakes, hmsg, hnull⟩
  rw [hiff, processMessages, hpending, ok_bind]
  dsimp only
  by_cases htakes : (s₁.nodes p).takesMessage = true
  swap
  · rw [if_neg htakes]
    exact ⟨fun _ h => htakes h.1, fun _ => ⟨_, rfl⟩⟩
  rw [if_pos htakes]
  cases hmsg : (s₁.nodes p).vProcessMsg with
  | nil =>
    constructor
    · rintro - ⟨-, msg, rest, h, -⟩
      cases h
    · intro _
      exact ⟨_, rfl⟩
  | cons msg rest =>
    dsimp only
    set s₂ := s₁.modifyNode p fun node => { node with vProcessMsg := rest } with hs₂
    have hkind : kindOf (s₂.nodes p) = kindOf (s₁.nodes p) := by
      rw [hs₂, modifyNode_self]
      rfl
    have hnull := s₂.processMessage_ok_iff E p now chance msg
    rw [followsNull_congr hkind msg] at hnull
    constructor
    · rintro ⟨r, hr⟩ ⟨-, msg', rest', hcons, hfollows⟩
      cases hcons
      obtain ⟨r', hr', -⟩ := bind_eq_ok.mp hr
      rw [hnull.mp ⟨r', hr'⟩] at hfollows
      cases hfollows
    · intro h
      have hfalse : followsNull (s₁.nodes p) msg = false := by
        rw [← not_eq_true]
        intro hfollows
        exact h ⟨htakes, msg, rest, rfl, hfollows⟩
      obtain ⟨r, hr⟩ := hnull.mpr hfalse
      rw [hr, ok_bind]
      exact ⟨_, rfl⟩

theorem step_ok_iff :
    (∃ r, s.step E event = .ok r) ↔ ¬ FollowsNull E s event := by
  cases event with
  | process p now chance => exact s.processMessages_ok_iff E p now chance
  | _ =>
    constructor
    · rintro - ⟨_, _, _, _, _, _, _, h, -⟩
      cases h
    · intro _
      first
        | exact ⟨_, rfl⟩
        | exact sendMessages_ok ..

theorem forall_run_cons
    (events : List (NetEvent X)) (P : PeerManager X → NetEvent X → Prop) :
    (∀ before event' after s' sent, event :: events = before ++ event' :: after →
      s.run E before = .ok (s', sent) → P s' event') ↔
    P s event ∧ ∀ s₁ sent₁, s.step E event = .ok (s₁, sent₁) →
      ∀ before event' after s' sent, events = before ++ event' :: after →
        s₁.run E before = .ok (s', sent) → P s' event' := by
  constructor
  · intro h
    refine ⟨h [] event events s [] rfl rfl, fun s₁ sent₁ hstep => ?_⟩
    intro before event' after s' sent hsplit hrun
    refine h (event :: before) event' after s' (sent₁ ++ sent) (by rw [hsplit]; rfl) ?_
    rw [run, hstep, ok_bind]
    dsimp only
    rw [hrun, ok_bind]
  · rintro ⟨hfirst, hrest⟩ before event' after s' sent hsplit hrun
    cases before with
    | nil =>
      cases hsplit
      cases hrun
      exact hfirst
    | cons first before =>
      cases hsplit
      obtain ⟨⟨s₁, sent₁⟩, hstep, hmore⟩ := bind_eq_ok.mp hrun
      obtain ⟨⟨s₂, sent₂⟩, hrun', hend⟩ := bind_eq_ok.mp hmore
      cases hend
      exact hrest s₁ sent₁ hstep before event' after _ sent₂ rfl hrun'

/-- A run follows no null pointer just when it never takes, from a block-relay-only peer, an
inventory message that reaches a Dandelion inventory. -/
theorem run_ok_iff (events : List (NetEvent X)) :
    (∃ r, s.run E events = .ok r) ↔
      ∀ before event after s' sent, events = before ++ event :: after →
        s.run E before = .ok (s', sent) → ¬ FollowsNull E s' event := by
  induction events generalizing s with
  | nil =>
    constructor
    · rintro - before event after s' sent h
      exact absurd h.symm (append_ne_nil_of_right_ne_nil _ (cons_ne_nil _ _))
    · intro _
      exact ⟨_, rfl⟩
  | cons event events ih =>
    rw [forall_run_cons, ← step_ok_iff]
    constructor
    · rintro ⟨r, hr⟩
      obtain ⟨⟨s₁, sent₁⟩, hstep, hrest⟩ := bind_eq_ok.mp hr
      obtain ⟨r₁, hr₁, -⟩ := bind_eq_ok.mp hrest
      refine ⟨⟨_, hstep⟩, fun s₂ sent₂ hstep' => ?_⟩
      cases hstep.symm.trans hstep'
      exact (ih s₁).mp ⟨r₁, hr₁⟩
    · rintro ⟨⟨⟨s₁, sent₁⟩, hstep⟩, hrest⟩
      obtain ⟨r₁, hr₁⟩ := (ih s₁).mpr (hrest s₁ sent₁ hstep)
      rw [run, hstep, ok_bind]
      dsimp only
      rw [hr₁, ok_bind]
      exact ⟨_, rfl⟩

/-- A block-relay-only peer announces a Dandelion transaction. -/
theorem run_blockRelay_faults :
    (start TxPool.empty : PeerManager acceptingCrypto).run (acceptingEnv acceptingCrypto)
      [.connect 0 .blockRelay ⟨false, false, false, false⟩ false, .handshake 0 false false,
        .receive 0 (.inv [⟨msgDandelionTx, 5⟩]), .process 0 0 sampleChance] =
      .error .nullTxRelay := rfl

end PeerManager
end Vexta
