import Vexta.Net.NullRelay

/-! What a peer learns of a stem transaction: the node with and without it. -/
namespace Vexta
open Lib List AList

variable {X : Crypto}

def TxPool.erase (pool : TxPool X) (hash : Uint256) : TxPool X where
  mapTx := pool.mapTx.erase hash
  keyed := by
    intro hash' entry h
    by_cases heq : hash' = hash
    · rw [heq, lookup_erase] at h
      cases h
    · rw [lookup_erase_ne heq] at h
      exact pool.keyed hash' entry h

theorem TxPool.info_txid (pool : TxPool X) (hash : Uint256) :
    pool.info ⟨false, hash⟩ = pool.mapTx.lookup hash := rfl

namespace PeerManager

def forget (h : Uint256) (s : PeerManager X) : PeerManager X :=
  { s with
    stempool := s.stempool.erase h
    mDandelionEmbargo := s.mDandelionEmbargo.erase h }

def forgetFst {α : Type} (h : Uint256) (r : PeerManager X × α) : PeerManager X × α :=
  (r.1.forget h, r.2)

theorem forget_nodes {h : Uint256} {s : PeerManager X} : (s.forget h).nodes = s.nodes := rfl

section forget
variable (E : NetEnv X) (h : Uint256) (s : PeerManager X) (p : NodeId) (now : ℤ)

theorem forget_modifyNode (f : CNode → CNode) :
    (s.forget h).modifyNode p f = (s.modifyNode p f).forget h := rfl

theorem forget_acceptMempool (tx : CTransaction) :
    (s.forget h).acceptMempool E tx now =
      ((s.acceptMempool E tx now).1, (s.acceptMempool E tx now).2.forget h) := rfl

theorem forget_alreadyHaveTx (gtxid : GenTxid) :
    (s.forget h).alreadyHaveTx E gtxid =
      ((s.alreadyHaveTx E gtxid).1, (s.alreadyHaveTx E gtxid).2.forget h) := by
  unfold alreadyHaveTx
  by_cases htip : E.tip ≠ s.hashRecentRejectsChainTip
  · have htip' : E.tip ≠ (s.forget h).hashRecentRejectsChainTip := htip
    rw [if_pos htip, if_pos htip']
    rfl
  · have htip' : ¬ E.tip ≠ (s.forget h).hashRecentRejectsChainTip := htip
    rw [if_neg htip, if_neg htip']
    rfl

theorem forget_addTxAnnouncement (gtxid : GenTxid) :
    (s.forget h).addTxAnnouncement p gtxid = (s.addTxAnnouncement p gtxid).forget h := by
  unfold addTxAnnouncement receivedInv
  rw [apply_ite (forget h), apply_ite (forget h)]
  rfl

theorem forget_maybePunishNodeForTx (result : AcceptResult) :
    (s.forget h).maybePunishNodeForTx p result = (s.maybePunishNodeForTx p result).forget h := by
  unfold maybePunishNodeForTx
  rw [apply_ite (forget h)]
  rfl

theorem forget_rejectTx (tx : CTransaction) (result : AcceptResult) :
    (s.forget h).rejectTx tx result = (s.rejectTx tx result).forget h := by
  unfold rejectTx
  dsimp only
  rw [apply_ite (forget h), apply_ite (forget h)]
  rfl

theorem forget_processOrphanTx (workSet : List Uint256) :
    processOrphanTx E p now workSet (s.forget h) =
      (processOrphanTx E p now workSet s).forget h := by
  induction workSet generalizing s with
  | nil => rfl
  | cons orphanHash workSet ih =>
    have horphans : (s.forget h).orphans = s.orphans := rfl
    rw [processOrphanTx, processOrphanTx, horphans]
    cases s.orphans.lookup orphanHash with
    | none => exact ih s
    | some orphan =>
      obtain ⟨tx, fromPeer⟩ := orphan
      dsimp only
      rw [forget_acceptMempool]
      generalize s.acceptMempool E tx now = r
      obtain ⟨result, s'⟩ := r
      cases result with
      | valid => rfl
      | missingInputs => exact ih s'
      | _ =>
        dsimp only
        rw [forget_maybePunishNodeForTx, forget_rejectTx]
        rfl

def forgetInv (l : InvLoop X) : InvLoop X := { l with s := l.s.forget h }

theorem forget_invTx (fBlocksOnly : Bool) (l : InvLoop X) (inv : CInv) :
    invTx E p fBlocksOnly (forgetInv h l) inv = forgetInv h (invTx E p fBlocksOnly l inv) := by
  unfold invTx forgetInv
  dsimp only
  rw [forget_alreadyHaveTx]
  dsimp only
  split_ifs
  · rfl
  · rw [forget_modifyNode, forget_addTxAnnouncement]
  · rfl

theorem forget_invItem (fBlocksOnly : Bool) (l : InvLoop X) (inv : CInv) :
    invItem E p fBlocksOnly (forgetInv h l) inv =
      forgetInv h <$> invItem E p fBlocksOnly l inv := by
  have hnodes : (forgetInv h l).s.nodes = l.s.nodes := rfl
  have hreturned : (forgetInv h l).returned = l.returned := rfl
  have hdandelion : invDandelion E p (forgetInv h l) inv =
      forgetInv h <$> invDandelion E p l inv := by
    unfold invDandelion
    rw [hnodes]
    cases (l.s.nodes p).deref <;> rfl
  unfold invItem
  rw [hnodes, hreturned, hdandelion, forget_invTx]
  split_ifs <;> rfl

theorem forget_processInv (vInv : List CInv) :
    (s.forget h).processInv E p vInv = forgetFst h <$> s.processInv E p vInv := by
  have hloop : ∀ (fBlocksOnly : Bool) (l : InvLoop X),
      vInv.foldlM (invItem E p fBlocksOnly) (forgetInv h l) =
        forgetInv h <$> vInv.foldlM (invItem E p fBlocksOnly) l := by
    intro fBlocksOnly
    induction vInv with
    | nil => exact fun _ => rfl
    | cons inv vInv ih =>
      intro l
      rw [foldlM_cons, foldlM_cons, forget_invItem]
      cases invItem E p fBlocksOnly l inv with
      | error fault => rfl
      | ok l' => exact ih l'
  unfold processInv
  split_ifs
  · rfl
  · have hnodes : (s.forget h).nodes = s.nodes := rfl
    have hstart := hloop ((E.ignoreIncomingTxs || (s.nodes p).txRelay.isNone) &&
      !(s.nodes p).permissions.relay) ⟨s, [], none, false⟩
    dsimp only [forgetInv] at hstart ⊢
    rw [hnodes, hstart]
    generalize vInv.foldlM (invItem E p ((E.ignoreIncomingTxs || (s.nodes p).txRelay.isNone) &&
      !(s.nodes p).permissions.relay)) ⟨s, [], none, false⟩ = r
    cases r <;> rfl

theorem forget_removeDandelionEmbargo (hash : Uint256) :
    (s.forget h).removeDandelionEmbargo hash = (s.removeDandelionEmbargo hash).forget h := by
  unfold removeDandelionEmbargo forget
  dsimp only
  rw [erase_erase]

theorem forget_removeDandelionEmbargo_self :
    (s.removeDandelionEmbargo h).forget h = s.forget h := by
  have herase : (s.mDandelionEmbargo.erase h).erase h = s.mDandelionEmbargo.erase h := by
    apply AList.ext
    exact kerase_of_notMem_keys (notMem_keys_kerase h s.mDandelionEmbargo.nodupKeys)
  unfold removeDandelionEmbargo forget
  dsimp only
  rw [herase]

theorem forget_checkEmbargo {entry : Sigma fun _ : Uint256 => ℤ} (hne : entry.1 ≠ h) :
    checkEmbargo E now (s.forget h) entry = (checkEmbargo E now s entry).forget h := by
  have hstem : (s.forget h).stempool.get entry.1 = s.stempool.get entry.1 := by
    unfold TxPool.get forget TxPool.erase
    dsimp only
    rw [lookup_erase_ne hne]
  have hpool : (s.forget h).mempool = s.mempool := rfl
  unfold checkEmbargo
  rw [hstem, hpool]
  split_ifs
  · exact forget_removeDandelionEmbargo h s entry.1
  · cases s.stempool.get entry.1 with
    | none => exact forget_removeDandelionEmbargo h s entry.1
    | some tx =>
      exact forget_removeDandelionEmbargo h ((s.acceptMempool E tx now).2.relayTransaction _ _) entry.1
  · rfl

theorem forget_checkEmbargo_self {embargo : ℤ} (hnow : ¬ embargo < milliseconds now) :
    (checkEmbargo E now s ⟨h, embargo⟩).forget h = s.forget h := by
  unfold checkEmbargo
  split_ifs
  · exact forget_removeDandelionEmbargo_self h s
  · rfl

theorem forget_checkDandelionEmbargoes
    (hnow : ∀ embargo, s.mDandelionEmbargo.lookup h = some embargo → ¬ embargo < milliseconds now) :
    (s.forget h).checkDandelionEmbargoes E now = (s.checkDandelionEmbargoes E now).forget h := by
  have hloop : ∀ (entries : List (Sigma fun _ : Uint256 => ℤ)) (s : PeerManager X),
      entries.NodupKeys → (∀ embargo, ⟨h, embargo⟩ ∈ entries → ¬ embargo < milliseconds now) →
      (entries.kerase h).foldl (checkEmbargo E now) (s.forget h) =
        (entries.foldl (checkEmbargo E now) s).forget h := by
    intro entries
    induction entries with
    | nil => exact fun _ _ _ => rfl
    | cons entry entries ih =>
      intro s hnodup hembargo
      have hrest : ∀ embargo, ⟨h, embargo⟩ ∈ entries → ¬ embargo < milliseconds now :=
        fun embargo hmem => hembargo embargo (mem_cons_of_mem _ hmem)
      obtain ⟨hnot, hnodup'⟩ := nodupKeys_cons.mp hnodup
      by_cases heq : h = entry.1
      · have hkerase : entries.kerase h = entries :=
          kerase_of_notMem_keys (by rw [heq]; exact hnot)
        have hself : (checkEmbargo E now s entry).forget h = s.forget h := by
          obtain ⟨hash, embargo⟩ := entry
          cases heq
          exact forget_checkEmbargo_self E _ s now (hembargo embargo mem_cons_self)
        rw [kerase_cons_eq heq, foldl_cons, ← ih _ hnodup' hrest, hself, hkerase]
      · rw [kerase_cons_ne heq, foldl_cons, foldl_cons,
          forget_checkEmbargo E h s now (Ne.symm heq)]
        exact ih _ hnodup' hrest
  exact hloop s.mDandelionEmbargo.entries s s.mDandelionEmbargo.nodupKeys
    fun embargo hmem => hnow embargo (mem_lookup_iff.mpr hmem)

end forget

/-- Answered from the stem pool: the peer announced the transaction, and asks for it as a Dandelion
one after its embargo or as an ordinary one still relayed. -/
structure UsesStem (h : Uint256) (s : PeerManager X) (p : NodeId) (now : ℤ) (inv : CInv) :
    Prop where
  hash : inv.hash = h
  known : ∃ relay, (s.nodes p).txRelay = some relay ∧ h ∈ relay.setDandelionInventoryKnown
  dandelion : inv.isDandelionMsg = true → s.isTxDandelionEmbargoed h now = false
  ordinary : inv.isDandelionMsg = false → (s.nodes p).fSupportsDandelion = false ∧
    p ∉ s.vDandelionInbound ∧
    (s.findTxForGetData p inv.toGenTxid (s.nodes p).mempoolReq now).isSome

section requests
variable {h : Uint256} {s : PeerManager X} {p : NodeId} {now : ℤ} {inv : CInv} {relay : TxRelay}

theorem getDataDandelion_eq (hrelay : (s.nodes p).txRelay = some relay) :
    s.getDataDandelion p now inv = .ok (if s.isTxDandelionEmbargoed inv.hash now then none
      else (s.stempool.mapTx.lookup inv.hash).bind fun entry =>
        if inv.hash ∈ relay.setDandelionInventoryKnown then
          some (.dandelionTx (if inv.type = msgDandelionTx then entry.tx.stripWitness else entry.tx))
        else none) := by
  have hderef : (s.nodes p).deref = .ok relay := by rw [CNode.deref, hrelay]
  unfold getDataDandelion
  rw [hderef, TxPool.info_txid]
  by_cases hembargo : s.isTxDandelionEmbargoed inv.hash now = true
  · rw [if_pos hembargo, if_pos hembargo]
  · rw [if_neg hembargo, if_neg hembargo]
    cases s.stempool.mapTx.lookup inv.hash with
    | none => rfl
    | some entry =>
      dsimp only [Option.bind_some]
      rw [ok_bind]
      by_cases hknown : inv.hash ∈ relay.setDandelionInventoryKnown
      · rw [if_pos hknown, if_pos hknown]
      · rw [if_neg hknown, if_neg hknown]

theorem forget_isTxDandelionEmbargoed (hne : inv.hash ≠ h) :
    (s.forget h).isTxDandelionEmbargoed inv.hash now = s.isTxDandelionEmbargoed inv.hash now := by
  unfold isTxDandelionEmbargoed forget
  dsimp only
  rw [lookup_erase_ne hne]

theorem forget_lookup_ne (hne : inv.hash ≠ h) :
    (s.forget h).stempool.mapTx.lookup inv.hash = s.stempool.mapTx.lookup inv.hash :=
  lookup_erase_ne hne

theorem forget_lookup_self : (s.forget h).stempool.mapTx.lookup h = none :=
  lookup_erase h s.stempool.mapTx

theorem forget_announceParents (tx : CTransaction) :
    (s.forget h).announceParents p relay tx now = (s.announceParents p relay tx now).forget h := by
  have hpool : (s.forget h).mempool = s.mempool := rfl
  unfold announceParents
  rw [hpool]
  cases s.mempool.mapTx.lookup (tx.getHash X) <;> rfl

theorem getDataTx_eq (hrelay : (s.nodes p).txRelay = some relay) :
    s.getDataTx p now inv =
      .ok (match s.findTxForGetData p inv.toGenTxid (s.nodes p).mempoolReq now with
        | none => (s, none)
        | some tx => (s.announceParents p relay (s.getDataCopy p relay inv tx).1 now,
          if (s.getDataCopy p relay inv tx).2 then
            some (.tx (if inv.isMsgTx then (s.getDataCopy p relay inv tx).1.stripWitness
              else (s.getDataCopy p relay inv tx).1))
          else none)) := by
  have hderef : (s.nodes p).deref = .ok relay := by rw [CNode.deref, hrelay]
  unfold getDataTx
  rw [hderef]
  cases s.findTxForGetData p inv.toGenTxid (s.nodes p).mempoolReq now <;> rfl

theorem forget_getDataTx (hrelay : (s.nodes p).txRelay = some relay)
    (huse : inv.hash = h → ¬ ((s.nodes p).fSupportsDandelion = false ∧ p ∉ s.vDandelionInbound ∧
      h ∈ relay.setDandelionInventoryKnown ∧
      (s.findTxForGetData p inv.toGenTxid (s.nodes p).mempoolReq now).isSome)) :
    (s.forget h).getDataTx p now inv = forgetFst h <$> s.getDataTx p now inv := by
  have hrelay' : ((s.forget h).nodes p).txRelay = some relay := hrelay
  have hfind : (s.forget h).findTxForGetData p inv.toGenTxid ((s.forget h).nodes p).mempoolReq now =
      s.findTxForGetData p inv.toGenTxid (s.nodes p).mempoolReq now := rfl
  rw [getDataTx_eq hrelay, getDataTx_eq hrelay', hfind]
  cases hfound : s.findTxForGetData p inv.toGenTxid (s.nodes p).mempoolReq now with
  | none => rfl
  | some tx =>
    have hcopy : (s.forget h).getDataCopy p relay inv tx = s.getDataCopy p relay inv tx := by
      unfold getDataCopy
      by_cases hne : inv.hash ≠ h
      · rw [TxPool.info_txid, TxPool.info_txid, forget_lookup_ne hne]
        rfl
      have heq : inv.hash = h := not_not.mp hne
      have hstem : ¬ (¬ (s.nodes p).fSupportsDandelion = true ∧ p ∉ s.vDandelionInbound ∧
          inv.hash ∈ relay.setDandelionInventoryKnown) := by
        intro ⟨hsupports, hinbound, hknown⟩
        rw [hfound] at huse
        exact huse heq ⟨Bool.eq_false_of_not_eq_true hsupports, hinbound, heq ▸ hknown, rfl⟩
      rw [if_neg hstem]
      exact if_neg hstem
    dsimp only
    rw [hcopy, forget_announceParents]
    rfl

theorem forget_getDataItem (hrelay : (s.nodes p).txRelay = some relay)
    (huse : ¬ UsesStem h s p now inv) :
    (s.forget h).getDataItem p now inv = forgetFst h <$> s.getDataItem p now inv := by
  unfold getDataItem
  cases htype : inv.isDandelionMsg with
  | true =>
    have hrelay' : ((s.forget h).nodes p).txRelay = some relay := hrelay
    rw [if_pos rfl, if_pos rfl, getDataDandelion_eq hrelay, getDataDandelion_eq hrelay']
    by_cases hne : inv.hash ≠ h
    · rw [forget_isTxDandelionEmbargoed hne, forget_lookup_ne hne]
      rfl
    -- without the transaction there is nothing to send; with it, nothing is sent either
    have heq : inv.hash = h := not_not.mp hne
    have hnone : (if s.isTxDandelionEmbargoed h now = true then none
        else (s.stempool.mapTx.lookup h).bind fun entry =>
          if h ∈ relay.setDandelionInventoryKnown then
            some (Sent.dandelionTx
              (if inv.type = msgDandelionTx then entry.tx.stripWitness else entry.tx))
          else none) = none := by
      by_cases hembargo : s.isTxDandelionEmbargoed h now = true
      · rw [if_pos hembargo]
      · have hknown : h ∉ relay.setDandelionInventoryKnown := by
          intro hknown
          apply huse
          constructor
          · exact heq
          · exact ⟨relay, hrelay, hknown⟩
          · exact fun _ => Bool.eq_false_of_not_eq_true hembargo
          · intro hfalse
            cases htype.symm.trans hfalse
        rw [if_neg hembargo]
        cases s.stempool.mapTx.lookup h with
        | none => rfl
        | some entry => exact if_neg hknown
    rw [heq, forget_lookup_self, Option.bind_none, ite_self, hnone]
    rfl
  | false =>
    rw [if_neg Bool.false_ne_true, if_neg Bool.false_ne_true]
    apply forget_getDataTx hrelay
    intro heq ⟨hsupports, hinbound, hknown, hfound⟩
    apply huse
    constructor
    · exact heq
    · exact ⟨relay, hrelay, hknown⟩
    · intro htrue
      cases htype.symm.trans htrue
    · exact fun _ => ⟨hsupports, hinbound, hfound⟩

end requests
end PeerManager
end Vexta
