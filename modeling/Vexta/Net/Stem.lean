import Vexta.Net.Session

/-! The answer to a peer that asks for a stem transaction it was told of. -/
namespace Vexta
open Lib List Sending CNode

variable {X : Crypto}

namespace PeerManager

def NodesKept (s s' : PeerManager X) : Prop := ∀ q, CNode.Kept True (s.nodes q) (s'.nodes q)

namespace NodesKept
variable {s s' s'' : PeerManager X}

theorem refl (s : PeerManager X) : NodesKept s s := fun _ => .refl _

theorem trans (h : NodesKept s s') (h' : NodesKept s' s'') : NodesKept s s'' :=
  fun q => (h q).trans (h' q)

theorem of_eq (h : s'.nodes = s.nodes) : NodesKept s s' := fun q => by
  rw [h]
  exact .refl _

theorem ite {c : Prop} [Decidable c] (h : c → NodesKept s s') (h' : ¬ c → NodesKept s s'') :
    NodesKept s (if c then s' else s'') := by
  split_ifs with hc
  · exact h hc
  · exact h' hc

theorem of_quiet (h : Quiet True s s') : NodesKept s s' := h.nodes

theorem of_served (h : Served True s s') : NodesKept s s' := h.quiet.nodes

theorem modifyNode (s : PeerManager X) (p : NodeId) {f : CNode → CNode}
    (hkept : ∀ node, CNode.Kept True node (f node)) : NodesKept s (s.modifyNode p f) :=
  kept_setNode s p (hkept _)

theorem insertDandelionEmbargo (s : PeerManager X) (hash : Uint256) (embargo : ℤ) :
    NodesKept s (s.insertDandelionEmbargo hash embargo) := by
  unfold PeerManager.insertDandelionEmbargo
  split_ifs <;> exact of_eq rfl

theorem forgetTxHash (s : PeerManager X) (hash : Uint256) : NodesKept s (s.forgetTxHash hash) :=
  of_eq rfl

variable (E : NetEnv X)

theorem txAccepted (s : PeerManager X) (p : NodeId) (tx : CTransaction) (now : ℤ) :
    NodesKept s (s.txAccepted E p tx now) := by
  have hembargo : ∀ s : PeerManager X, NodesKept s
      (if s.isTxDandelionEmbargoed (tx.getHash X) now then s.removeDandelionEmbargo (tx.getHash X)
        else s) := by
    intro s
    split_ifs
    · exact of_eq rfl
    · exact refl s
  have hstem : NodesKept s (s.acceptStempool E tx now).2 := of_eq rfl
  have hforget := (hstem.trans (hembargo _)).trans
    ((forgetTxHash _ (tx.getHash X)).trans (forgetTxHash _ (tx.getWitnessHash X)))
  exact (hforget.trans (of_quiet (.relayTransaction _ _ _))).trans
    (of_served (.processOrphanTx E p now _ _))

theorem txMissingInputs (s : PeerManager X) (p : NodeId) (tx : CTransaction)
    (chance : Chance) : NodesKept s (s.txMissingInputs E p tx chance) := by
  have hloop : ∀ {step : PeerManager X → Uint256 → PeerManager X},
      (∀ s parent, NodesKept s (step s parent)) →
        ∀ (parents : List Uint256) (s : PeerManager X), NodesKept s (parents.foldl step s) := by
    intro step hstep parents
    induction parents with
    | nil => exact refl
    | cons parent parents ih => exact fun s => (hstep s parent).trans (ih _)
  have horphan : ∀ s : PeerManager X, NodesKept s (s.addOrphan tx p chance) := by
    intro s
    unfold addOrphan
    dsimp only
    split_ifs <;> exact of_eq rfl
  unfold PeerManager.txMissingInputs
  dsimp only
  refine trans ?_ ((forgetTxHash _ _).trans (forgetTxHash _ _))
  split_ifs
  · exact of_eq rfl
  · refine (hloop (fun s parent => ?_) _ s).trans (horphan _)
    have hknown := modifyNode s p fun node => .addKnownTx node parent
    have hhave := hknown.trans (of_served (.alreadyHaveTx E _ ⟨false, parent⟩))
    split_ifs
    · exact hhave
    · exact hhave.trans (of_served (.addTxAnnouncement _ p _))

theorem txRefused (s : PeerManager X) (p : NodeId) (tx : CTransaction) (result : AcceptResult) :
    NodesKept s (s.txRefused p tx result) := by
  unfold PeerManager.txRefused
  dsimp only
  refine trans (trans (of_served (.rejectTx s tx result)) ?_) (of_served (.maybePunishNodeForTx _ p _))
  split_ifs <;> exact of_eq rfl

theorem noteTx (s : PeerManager X) (p : NodeId) (tx : CTransaction) :
    NodesKept s (s.noteTx p tx) := by
  have hadd : ∀ (s : PeerManager X) (hash : Uint256),
      NodesKept s (s.modifyNode p fun node => node.addKnownTx hash) :=
    fun s hash => modifyNode s p fun node => .addKnownTx node hash
  have hanswer : ∀ (s : PeerManager X) (hash : Uint256), NodesKept s (s.receivedResponse p hash) :=
    fun s hash => of_eq rfl
  unfold PeerManager.noteTx
  dsimp only
  have hknown : ∀ hash hash', NodesKept s
      (if (s.nodes p).wtxidRelay ∧ tx.getHash X ≠ tx.getWitnessHash X then
        (s.modifyNode p fun node => node.addKnownTx hash).modifyNode p fun node =>
          node.addKnownTx hash'
      else s.modifyNode p fun node => node.addKnownTx hash) :=
    fun hash hash' => ite (fun _ => (hadd s hash).trans (hadd _ hash')) fun _ => hadd s hash
  exact ite (fun _ => ((hknown _ _).trans (hanswer _ _)).trans (hanswer _ _))
    fun _ => (hknown _ _).trans (hanswer _ _)

theorem processTx (s : PeerManager X) (p : NodeId) (tx : CTransaction) (now : ℤ)
    (chance : Chance) : NodesKept s (s.processTx E p tx now chance) := by
  have hnote := noteTx s p tx
  have hhave : NodesKept s ((s.noteTx p tx).alreadyHaveTx E ⟨true, tx.getWitnessHash X⟩).2 :=
    hnote.trans (of_served (.alreadyHaveTx E _ _))
  unfold PeerManager.processTx
  dsimp only
  generalize (s.noteTx p tx).alreadyHaveTx E ⟨true, tx.getWitnessHash X⟩ = r at hhave ⊢
  obtain ⟨fAlreadyHave, s'⟩ := r
  dsimp only at hhave ⊢
  split_ifs
  · exact modifyNode s p fun _ => .of_txRelay rfl rfl rfl
  · exact hhave.trans (of_quiet (.relayTransaction _ _ _))
  · exact hhave
  · have haccept :=
      hhave.trans (of_served (.acceptMempool E s' tx now))
    generalize s'.acceptMempool E tx now = r at haccept ⊢
    obtain ⟨result, s''⟩ := r
    cases result with
    | valid => exact haccept.trans (txAccepted E _ p tx now)
    | missingInputs => exact haccept.trans (txMissingInputs E _ p tx chance)
    | _ => exact haccept.trans (txRefused _ p tx _)

theorem relayDandelionTransaction (s : PeerManager X) (p : NodeId)
    (tx : CTransaction) (now : ℤ) (chance : Chance) :
    NodesKept s (s.relayDandelionTransaction E p tx now chance) := by
  unfold PeerManager.relayDandelionTransaction
  dsimp only
  split_ifs
  · exact (of_served (.acceptMempool E s _ now)).trans (of_quiet (.relayTransaction _ _ _))
  · have hroute : NodesKept s (s.getDandelionDestination p chance).2 := by
      unfold getDandelionDestination
      cases s.mDandelionRoutes.lookup p with
      | some q => exact refl s
      | none =>
        cases chance.destination with
        | some q => exact of_eq rfl
        | none => exact refl s
    generalize s.getDandelionDestination p chance = r at hroute ⊢
    obtain ⟨destination, s'⟩ := r
    cases destination with
    | some q => exact hroute.trans (modifyNode _ q fun node => .pushOtherInventory node _)
    | none => exact hroute

theorem processDandelionTx (s : PeerManager X) (p : NodeId) (tx : CTransaction)
    (now : ℤ) (chance : Chance) : NodesKept s (s.processDandelionTx E p tx now chance) := by
  have hstem : NodesKept s (s.acceptStem E tx now chance) := by
    have haccept : NodesKept s (s.acceptStempool E tx now).2 := of_eq rfl
    unfold acceptStem
    dsimp only
    split_ifs
    · exact refl s
    · exact haccept.trans (insertDandelionEmbargo _ _ _)
    · exact haccept
  unfold PeerManager.processDandelionTx
  dsimp only
  split_ifs
  · exact hstem.trans (relayDandelionTransaction E _ p tx now chance)
  · exact hstem
  · exact refl s

theorem broadcastRelay (s : PeerManager X) (tx : CTransaction) (wtxid : Uint256)
    (now : ℤ) (chance : Chance) : NodesKept s (s.broadcastRelay E tx wtxid now chance) := by
  unfold PeerManager.broadcastRelay
  dsimp only
  split_ifs
  · have hembargo := insertDandelionEmbargo s (tx.getHash X) (embargoEnd now chance)
    generalize s.insertDandelionEmbargo (tx.getHash X) (embargoEnd now chance) = s₁ at hembargo ⊢
    have hpush : NodesKept s₁ (s₁.localDandelionDestinationPushInventory
        ⟨msgDandelionTx, tx.getHash X⟩ chance).2 := by
      unfold localDandelionDestinationPushInventory
      dsimp only
      cases hlocal : s₁.localDandelionDestination with
      | some q =>
        simp only [hlocal]
        exact modifyNode s₁ q fun node => .pushOtherInventory node _
      | none =>
        have hnew : NodesKept s₁ { s₁ with localDandelionDestination := chance.destination } :=
          of_eq rfl
        cases chance.destination with
        | some q => exact hnew.trans (modifyNode _ q fun node => .pushOtherInventory node _)
        | none => exact hnew
    generalize s₁.localDandelionDestinationPushInventory _ chance = r at hpush ⊢
    obtain ⟨pushed, s₂⟩ := r
    cases pushed with
    | true => exact hembargo.trans hpush
    | false =>
      have hremove : NodesKept s (s₂.removeDandelionEmbargo (tx.getHash X)) :=
        (hembargo.trans hpush).trans (of_quiet (.removeDandelionEmbargo s₂ _))
      have haccept := hremove.trans (of_served (.acceptMempool E _ tx now))
      dsimp only
      split_ifs
      · exact haccept.trans (of_quiet (.relayTransaction _ _ _))
      · exact haccept
  · exact of_quiet (.relayTransaction s _ _)

theorem broadcastTransaction (s : PeerManager X) (tx : CTransaction) (now : ℤ)
    (feeAccepted relay : Bool) (chance : Chance) :
    NodesKept s (s.broadcastTransaction E tx now feeAccepted relay chance) := by
  unfold PeerManager.broadcastTransaction
  refine ite (fun _ => refl s) fun _ => ?_
  cases s.mempool.get (tx.getHash X) with
  | some mempoolTx =>
    exact ite (fun _ => broadcastRelay E s tx _ now chance) fun _ => refl s
  | none =>
    refine ite (fun _ => refl s) fun _ => ?_
    have haccept : NodesKept s (if E.dandelion then s.acceptStempool E tx now
        else s.acceptMempool E tx now).2 := by
      split_ifs
      · exact of_eq rfl
      · exact of_served (.acceptMempool E s tx now)
    generalize (if E.dandelion = true then s.acceptStempool E tx now
      else s.acceptMempool E tx now) = r at haccept ⊢
    obtain ⟨result, s'⟩ := r
    exact ite (fun _ => haccept.trans (broadcastRelay E s' tx _ now chance)) fun _ => haccept

theorem handleNode {handler : CNode → Except NetFault CNode} {p : NodeId} {sent : List Sent}
    (hspec : ∃ node, handler (s.nodes p) = .ok node ∧ (s.nodes p).Filtered node)
    (heq : s.handleNode p handler = .ok (s', sent)) : NodesKept s s' := by
  obtain ⟨node, hnode, hfiltered⟩ := hspec
  obtain ⟨node', hnode', hend⟩ := bind_eq_ok.mp heq
  cases hnode.symm.trans hnode'
  cases hend
  apply kept_setNode s p
  rcases hfiltered.relay with hsame | ⟨relay, relay', hrelay, hrelay', hsend, hknown⟩
  · exact .of_txRelay hfiltered.connType hfiltered.messages hsame
  · refine ⟨hfiltered.connType, hfiltered.messages, ?_, fun _ => ?_⟩
    · rw [dandelionToSend, dandelionToSend, hrelay, hrelay']
      exact hsend
    · rw [dandelionKnown, dandelionKnown, hrelay, hrelay']
      exact hknown

end NodesKept
end PeerManager

namespace Sending
variable {relay : TxRelay} {s : PeerManager X} {g : Sending X}

/-- Waiting inventories come from an earlier relay state; the rest is the same. -/
structure Drains (relay : TxRelay) (s : PeerManager X) (g : Sending X) : Prop where
  txs : g.relay.setInventoryTxToSend ⊆ relay.setInventoryTxToSend
  other : g.relay.setInventoryTxToSendOther ⊆ relay.setInventoryTxToSendOther
  dandelion : g.relay.vInventoryDandelionTxToSend.length ≤ relay.vInventoryDandelionTxToSend.length
  known : relay.vInventoryDandelionTxToSend = [] →
    g.relay.setDandelionInventoryKnown = relay.setDandelionInventoryKnown
  nodes : g.s.nodes = s.nodes
  txRequest : g.s.txRequest = s.txRequest
  embargo : g.s.mDandelionEmbargo = s.mDandelionEmbargo
  orphans : g.s.orphans = s.orphans

theorem Drains.toSend (hg : Drains relay s g) (hnone : relay.vInventoryDandelionTxToSend = []) :
    g.relay.vInventoryDandelionTxToSend = [] := by
  have hlength := hg.dandelion
  rw [hnone] at hlength
  exact eq_nil_of_length_eq_zero (Nat.le_zero.mp hlength)

theorem Drains.passes {E : NetEnv X} {entry : PoolEntry} {r : Bool × TxRelay}
    (hg : Drains relay s g) (heq : passes E g.relay entry = r) :
    Drains relay s { g with relay := r.2 } := by
  rw [← heq]
  unfold Sending.passes
  split_ifs
  · exact hg
  · cases g.relay.pfilter with
    | none => exact hg
    | some filter => exact { hg with txs := hg.txs }

theorem Drains.take (hg : Drains relay s g) (hash : Uint256) :
    Drains relay s { g with relay := { g.relay with
      setInventoryTxToSend := g.relay.setInventoryTxToSend.filter fun other => other != hash } } :=
  { hg with txs := List.Subset.trans (filter_subset_self _) hg.txs }

variable (E : NetEnv X) (wtxidRelay : Bool)

theorem Drains.sendMempoolTx (hg : Drains relay s g)
    (entry : PoolEntry) : Drains relay s (g.sendMempoolTx E wtxidRelay entry) := by
  unfold Sending.sendMempoolTx
  dsimp only
  generalize hpasses : Sending.passes E _ entry = r
  have hkept := (hg.take _).passes hpasses
  obtain ⟨pass, relay'⟩ := r
  dsimp only at hkept ⊢
  split_ifs
  all_goals exact { hkept with txs := hkept.txs }

variable (now : ℤ)

theorem Drains.emplaceRelay (hash : Uint256) (tx : CTransaction)
    (hg : Drains relay s g) : Drains relay s { g with s := emplaceRelay now hash tx g.s } := by
  unfold Sending.emplaceRelay
  split_ifs
  · exact hg
  · exact { hg with txs := hg.txs }

theorem Drains.announce (hg : Drains relay s g) (hash : Uint256)
    (tx : CTransaction) : Drains relay s (g.announce wtxidRelay now hash tx) := by
  have hstart : ∀ relayExpiration mapRelay announced filterInventoryKnown batch,
      Drains relay s ⟨{ g.s with relayExpiration, mapRelay }, announced,
        { g.relay with filterInventoryKnown }, batch⟩ :=
    fun _ _ _ _ _ => { hg with txs := hg.txs }
  exact ((hstart _ _ _ _ _).emplaceRelay now _ _).emplaceRelay now _ _

theorem Drains.relayLoop (hashes : List Uint256)
    (left : ℕ) (hg : Drains relay s g) :
    Drains relay s (relayLoop E wtxidRelay now hashes left g).2 := by
  induction hashes generalizing left g with
  | nil =>
    rw [relayLoop]
    exact hg
  | cons hash hashes ih =>
    cases left with
    | zero =>
      rw [relayLoop]
      exact hg
    | succ left =>
      rw [relayLoop]
      dsimp only
      have htake := hg.take hash
      split_ifs
      · exact ih _ htake
      · cases g.s.mempool.info ⟨wtxidRelay, hash⟩ with
        | none => exact ih _ htake
        | some entry =>
          dsimp only
          generalize hpasses : Sending.passes E _ entry = r
          have hpassed := htake.passes hpasses
          obtain ⟨pass, relay'⟩ := r
          dsimp only at hpassed ⊢
          split_ifs
          · exact ih _ (hpassed.announce wtxidRelay now hash entry.tx)
          · exact ih _ hpassed

theorem Drains.otherLoop (invs : List CInv) (left : ℕ)
    (hinvs : invs ⊆ relay.setInventoryTxToSendOther) (hg : Drains relay s g) :
    Drains relay s (otherLoop invs left g) := by
  have hrest : ∀ {invs : List CInv} {g : Sending X}, invs ⊆ relay.setInventoryTxToSendOther →
      Drains relay s g →
      Drains relay s { g with relay := { g.relay with setInventoryTxToSendOther := invs } } :=
    fun hinvs hg => { hg with other := hinvs }
  induction invs generalizing left g with
  | nil =>
    rw [otherLoop]
    exact hrest hinvs hg
  | cons inv invs ih =>
    have htail : invs ⊆ relay.setInventoryTxToSendOther :=
      fun x hx => hinvs (mem_cons_of_mem inv hx)
    cases left with
    | zero =>
      rw [otherLoop]
      exact hrest hinvs hg
    | succ left =>
      rw [otherLoop]
      split_ifs
      · exact ih _ htail hg
      · exact ih _ htail ({ hg with txs := hg.txs })

theorem Drains.trickle (hg : Drains relay s g) :
    Drains relay s (g.trickle E wtxidRelay now) := by
  have hmempool : ∀ (entries : List (Sigma fun _ : Uint256 => PoolEntry)) (g : Sending X),
      Drains relay s g → Drains relay s
        (entries.foldl (fun g e => g.sendMempoolTx E wtxidRelay e.2) g) := by
    intro entries
    induction entries with
    | nil => exact fun _ h => h
    | cons entry entries ih => exact fun g h => ih _ (h.sendMempoolTx E wtxidRelay entry.2)
  have hfirst : ∀ g : Sending X, Drains relay s g → Drains relay s
      (if g.relay.fRelayTxes then g
        else { g with relay := { g.relay with
          setInventoryTxToSend := []
          vInventoryDandelionTxToSend := [] } }) := by
    intro g hg
    split_ifs
    · exact hg
    · exact { hg with txs := nil_subset _, dandelion := Nat.zero_le _ }
  have hsecond : ∀ g : Sending X, Drains relay s g → Drains relay s
      (if g.relay.fSendMempool then
        let g := g.s.mempool.mapTx.entries.foldl (fun g e => g.sendMempoolTx E wtxidRelay e.2)
          { g with relay := { g.relay with fSendMempool := false } }
        { g with relay := { g.relay with lastMempoolReq := seconds now } }
      else g) := by
    intro g hg
    split_ifs
    · have hall := hmempool g.s.mempool.mapTx.entries
        { g with relay := { g.relay with fSendMempool := false } } { hg with txs := hg.txs }
      exact { hall with txs := hall.txs }
    · exact hg
  have hloop := (hsecond _ (hfirst g hg)).relayLoop E wtxidRelay now
  exact (hloop _ _).otherLoop _ _ (hloop _ _).other

theorem Drains.sendDandelion (supports : Bool) (hg : Drains relay s g) :
    Drains relay s (g.relay.vInventoryDandelionTxToSend.foldl (sendDandelion supports) g) := by
  by_cases hnone : relay.vInventoryDandelionTxToSend = []
  · rw [hg.toSend hnone]
    exact hg
  · generalize g.relay.vInventoryDandelionTxToSend = hashes
    induction hashes generalizing g with
    | nil => exact hg
    | cons hash hashes ih =>
      exact ih { hg with known := fun h => absurd h hnone }

theorem Drains.sendAll (node : CNode) (now : ℤ) (chance : Chance)
    (hg : Drains relay s g) : Drains relay s (g.sendAll E node now chance) := by
  have hdue : ∀ (due : Bool) (g : Sending X), Drains relay s g →
      Drains relay s (g.reschedule due chance) := by
    intro due g hg
    unfold reschedule
    split_ifs
    · exact { hg with txs := hg.txs }
    · exact hg
  unfold Sending.sendAll
  dsimp only
  have hall := hg.sendDandelion node.fSupportsDandelion
  generalize g.relay.vInventoryDandelionTxToSend.foldl
    (Sending.sendDandelion node.fSupportsDandelion) g = g' at hall ⊢
  have hstart := hdue (decide (g'.relay.nNextInvSend < now))
    { g' with relay := { g'.relay with vInventoryDandelionTxToSend := [] } }
    { hall with dandelion := Nat.zero_le _ }
  split_ifs
  · exact hstart.trickle E _ now
  · exact hstart

end Sending

namespace PeerManager

variable {E : NetEnv X} {s s' : PeerManager X} {p : NodeId} {now : ℤ} {chance : Chance}
  {sent : List Sent} {l l' : InvLoop X} {vInv : List CInv} {events : List (NetEvent X)}

theorem sendMessages_cases (heq : s.sendMessages E p now chance = .ok (s', sent)) :
    s' = s ∨ ∃ (relay : TxRelay) (g : Sending X), (s.nodes p).txRelay = some relay ∧
      Sending.Drains relay s g ∧
      s' = g.s.setNode p { (s.nodes p).mapRelay (fun _ => g.relay) with
        recentlyAnnouncedInvs := g.recentlyAnnouncedInvs } := by
  unfold sendMessages at heq
  dsimp only at heq
  split_ifs at heq
  · cases heq
    exact .inl rfl
  · obtain ⟨relay, hderef, hend⟩ := bind_eq_ok.mp heq
    cases hend
    refine .inr ⟨relay, _, txRelay_of_deref hderef, ?_, rfl⟩
    exact Sending.Drains.sendAll E _ now chance
      ⟨.refl _, .refl _, le_refl _, fun _ => rfl, rfl, rfl, rfl, rfl⟩
  · cases heq
    exact .inl rfl

theorem NodesKept.sendMessages (hnone : (s.nodes p).dandelionToSend = [])
    (heq : s.sendMessages E p now chance = .ok (s', sent)) : NodesKept s s' := by
  rcases sendMessages_cases heq with rfl | ⟨relay, g, hrelay, hall, rfl⟩
  · exact refl _
  have htoSend : relay.vInventoryDandelionTxToSend = [] := by
    rw [dandelionToSend, hrelay] at hnone
    exact hnone
  have hrelayed : CNode.Kept True (s.nodes p) ((s.nodes p).mapRelay fun _ => g.relay) := by
    apply CNode.Kept.mapRelay
    · intro relay' hrelay'
      rw [hrelay] at hrelay'
      cases hrelay'
      exact (hall.toSend htoSend).trans htoSend.symm
    · intro _ relay' hrelay'
      rw [hrelay] at hrelay'
      cases hrelay'
      exact hall.known htoSend
  have hkept : CNode.Kept True (g.s.nodes p) { (s.nodes p).mapRelay (fun _ => g.relay) with
      recentlyAnnouncedInvs := g.recentlyAnnouncedInvs } := by
    rw [hall.nodes]
    exact hrelayed.trans (.of_txRelay rfl rfl rfl)
  intro q
  have hsame : g.s.nodes q = s.nodes q := congrFun hall.nodes q
  rw [← hsame]
  exact kept_setNode g.s p hkept q

def readHashes (wtxidRelay fBlocksOnly : Bool) : List CInv → List Uint256
  | [] => []
  | inv :: vInv =>
    if inv.mismatches wtxidRelay then readHashes wtxidRelay fBlocksOnly vInv
    else if inv.isDandelionMsg then inv.hash :: readHashes wtxidRelay fBlocksOnly vInv
    else if inv.isGenTxMsg && fBlocksOnly then []
    else readHashes wtxidRelay fBlocksOnly vInv

theorem mem_dandelionKnown {node : CNode} {h : Uint256} : h ∈ node.dandelionKnown ↔
    ∃ relay, node.txRelay = some relay ∧ h ∈ relay.setDandelionInventoryKnown := by
  unfold dandelionKnown
  cases hrelay : node.txRelay with
  | none => simp
  | some relay => simp

theorem invDandelion_known {inv : CInv} (heq : invDandelion E p l inv = .ok l') :
    (l'.s.nodes p).dandelionKnown = inv.hash :: (l.s.nodes p).dandelionKnown := by
  obtain ⟨relay, hderef, hend⟩ := bind_eq_ok.mp heq
  have hrelay := txRelay_of_deref hderef
  cases hend
  unfold CNode.dandelionKnown
  rw [setNode_self, CNode.mapRelay]
  dsimp only
  rw [hrelay]
  rfl

theorem foldlM_invItem_known {fBlocksOnly : Bool} (hl : l.returned = false)
    (heq : vInv.foldlM (invItem E p fBlocksOnly) l = .ok l') (h : Uint256) :
    h ∈ (l'.s.nodes p).dandelionKnown ↔
      h ∈ readHashes (l.s.nodes p).wtxidRelay fBlocksOnly vInv ∨
        h ∈ (l.s.nodes p).dandelionKnown := by
  induction vInv generalizing l with
  | nil =>
    cases heq
    simp [readHashes]
  | cons inv vInv ih =>
    rw [foldlM_cons] at heq
    obtain ⟨l₁, hstep, hrest⟩ := bind_eq_ok.mp heq
    rw [readHashes]
    unfold invItem at hstep
    rw [if_neg (by rw [hl]; exact Bool.false_ne_true)] at hstep
    by_cases hskip : inv.mismatches (l.s.nodes p).wtxidRelay = true
    · rw [if_pos hskip] at hstep ⊢
      cases hstep
      exact ih hl hrest
    rw [if_neg hskip] at hstep ⊢
    by_cases hdandelion : inv.isDandelionMsg = true
    · rw [if_pos hdandelion] at hstep ⊢
      have hknown := invDandelion_known hstep
      obtain ⟨relay, -, hend⟩ := bind_eq_ok.mp hstep
      have hkind : (l₁.s.nodes p).wtxidRelay = (l.s.nodes p).wtxidRelay := by
        cases hend
        rw [setNode_self]
        rfl
      have hl₁ : l₁.returned = false := by
        cases hend
        exact hl
      rw [ih hl₁ hrest, hkind, hknown, mem_cons, mem_cons]
      tauto
    rw [if_neg hdandelion] at hstep ⊢
    by_cases hblk : inv.isMsgBlk = true
    · rw [if_pos hblk] at hstep
      rw [CInv.isGenTxMsg_of_isMsgBlk hblk]
      cases hstep
      exact ih (l := { l with
        bestBlock := if E.wantsBlock inv.hash then some inv.hash else l.bestBlock }) hl hrest
    rw [if_neg hblk] at hstep
    by_cases htx : inv.isGenTxMsg = true
    · cases (if_pos htx).symm.trans hstep
      have hkept :=
        ((.invTx E p fBlocksOnly l inv : Served True _ _).quiet.nodes p).known trivial
      have hkind : ((invTx E p fBlocksOnly l inv).s.nodes p).wtxidRelay =
          (l.s.nodes p).wtxidRelay := congrArg Kind.wtxidRelay (invTx_kind E p fBlocksOnly l inv)
      have hreturned := invTx_returned E p fBlocksOnly inv hl
      cases fBlocksOnly with
      | true =>
        -- the loop ends here
        cases (foldlM_invItem_returned E p true hreturned vInv).symm.trans hrest
        rw [hkept, htx]
        simp
      | false =>
        rw [ih hreturned hrest, hkept, hkind, htx]
        rfl
    · rw [if_neg htx] at hstep
      rw [Bool.eq_false_of_not_eq_true htx]
      cases hstep
      exact ih hl hrest

theorem foldlM_invItem_other {q : NodeId} (hq : q ≠ p) {fBlocksOnly : Bool}
    (heq : vInv.foldlM (invItem E p fBlocksOnly) l = .ok l') : l'.s.nodes q = l.s.nodes q := by
  refine foldlM_induction (P := fun l' => l'.s.nodes q = l.s.nodes q) ?_ rfl heq
  intro l₁ inv l₂ _ hl₁ hstep
  rw [← hl₁]
  unfold invItem at hstep
  split_ifs at hstep
  any_goals
    cases hstep
    rfl
  · obtain ⟨relay, -, hend⟩ := bind_eq_ok.mp hstep
    cases hend
    exact setNode_ne _ hq _
  · cases hstep
    unfold invTx
    dsimp only
    split_ifs
    · rw [modifyNode_ne _ hq, modifyNode_ne _ hq, alreadyHaveTx_nodes]
    · rw [addTxAnnouncement_nodes, modifyNode_ne _ hq, alreadyHaveTx_nodes]
    · rw [modifyNode_ne _ hq, alreadyHaveTx_nodes]

def Connects (p : NodeId) : NetEvent X → Prop
  | .connect q _ _ _ => q = p
  | _ => False

theorem processInv_known (heq : s.processInv E p vInv = .ok (s', sent)) (q : NodeId) (h : Uint256) :
    h ∈ (s'.nodes q).dandelionKnown ↔ (q = p ∧ vInv.length ≤ maxInvSz ∧
      h ∈ readHashes (s.nodes p).wtxidRelay
        ((E.ignoreIncomingTxs || (s.nodes p).txRelay.isNone) && !(s.nodes p).permissions.relay)
        vInv) ∨ h ∈ (s.nodes q).dandelionKnown := by
  unfold processInv at heq
  by_cases hlen : maxInvSz < vInv.length
  · cases (if_pos hlen).symm.trans heq
    have hkept : NodesKept s (s.modifyNode p fun node => node.misbehaving 20) :=
      .modifyNode s p fun _ => .of_txRelay rfl rfl rfl
    have hmany := Nat.not_le.mpr hlen
    rw [(hkept q).known trivial]
    tauto
  rw [if_neg hlen] at heq
  obtain ⟨l, hl, hend⟩ := bind_eq_ok.mp heq
  cases hend
  by_cases hq : q = p
  · have hfew := Nat.not_lt.mp hlen
    rw [hq, foldlM_invItem_known rfl hl h]
    tauto
  · rw [foldlM_invItem_other hq hl]
    tauto

def readsOf (E : NetEnv X) (node : CNode) : NetMessage → List Uint256
  | .inv vInv =>
    if node.fSuccessfullyConnected = true ∧ vInv.length ≤ maxInvSz then
      readHashes node.wtxidRelay
        ((E.ignoreIncomingTxs || node.txRelay.isNone) && !node.permissions.relay) vInv
    else []
  | _ => []

theorem readsOf_congr (E : NetEnv X) {node node' : CNode} (h : kindOf node' = kindOf node)
    (msg : NetMessage) : readsOf E node' msg = readsOf E node msg := by
  obtain ⟨hconn, hwtxid, hperm, hdone⟩ := Kind.mk.inj h
  have hnone : node'.txRelay.isNone = node.txRelay.isNone := by
    rw [Bool.eq_iff_iff, node'.txRelay_iff, node.txRelay_iff, hconn]
  cases msg with
  | inv vInv => simp only [readsOf, hwtxid, hperm, hdone, hnone]
  | _ => rfl

/-- Dandelion inventories of one peer grow by what is read. -/
structure Reads (p : NodeId) (hashes : List Uint256) (s s' : PeerManager X) : Prop where
  toSend : ∀ q, (s'.nodes q).dandelionToSend = (s.nodes q).dandelionToSend
  known : ∀ q h, h ∈ (s'.nodes q).dandelionKnown ↔
    (q = p ∧ h ∈ hashes) ∨ h ∈ (s.nodes q).dandelionKnown

theorem NodesKept.reads (h : NodesKept s s') (p : NodeId) :
    Reads p [] s s' where
  toSend := fun q => (h q).toSend
  known := by
    intro q hash
    rw [(h q).known trivial]
    simp

theorem Reads.of_nil {hashes : List Uint256} {s'' : PeerManager X} (h : Reads p [] s s')
    (h' : Reads p hashes s' s'') : Reads p hashes s s'' where
  toSend := fun q => (h'.toSend q).trans (h.toSend q)
  known := by
    intro q hash
    rw [h'.known q hash, h.known q hash]
    simp

theorem modifyNode_reads (s : PeerManager X) (p q : NodeId) {f : CNode → CNode}
    (hf : ∀ node, (f node).txRelay = node.txRelay) : Reads q [] s (s.modifyNode p f) := by
  have hnode : ∀ r, ((s.modifyNode p f).nodes r).txRelay = (s.nodes r).txRelay := by
    intro r
    by_cases hr : r = p
    · rw [hr, modifyNode_self, hf]
    · rw [modifyNode_ne s hr]
  constructor
  · intro r
    unfold dandelionToSend
    rw [hnode r]
  · intro r h
    unfold dandelionKnown
    rw [hnode r]
    simp

theorem processMessage_reads {msg : NetMessage}
    (heq : s.processMessage E p now chance msg = .ok (s', sent)) :
    Reads p (readsOf E (s.nodes p) msg) s s' := by
  have hcheck : NodesKept s (s.checkDandelionEmbargoes E now) :=
    .of_served (.checkDandelionEmbargoes E s now)
  rw [← readsOf_congr E (s.checkDandelionEmbargoes_kind E now p) msg]
  refine .of_nil (hcheck.reads p) ?_
  unfold processMessage at heq
  dsimp only at heq
  generalize s.checkDandelionEmbargoes E now = s₀ at heq ⊢
  by_cases hdone : (s₀.nodes p).fSuccessfullyConnected = true
  swap
  · have hnone : readsOf E (s₀.nodes p) msg = [] := by
      cases msg with
      | inv vInv => exact if_neg fun h => hdone h.1
      | _ => rfl
    rw [if_pos hdone] at heq
    rw [hnone]
    cases heq
    exact (NodesKept.refl _).reads p
  rw [if_neg (not_not.mpr hdone)] at heq
  have hagain : NodesKept s₀ (s₀.checkDandelionEmbargoes E now) :=
    .of_served (.checkDandelionEmbargoes E s₀ now)
  cases msg with
  | inv vInv =>
    refine ⟨fun q => ((Served.processInv heq).quiet.nodes q).toSend, ?_⟩
    intro q h
    rw [processInv_known heq q h, readsOf]
    by_cases hlen : vInv.length ≤ maxInvSz
    · rw [if_pos ⟨hdone, hlen⟩]
      tauto
    · rw [if_neg fun h => hlen h.2]
      simp [hlen]
  | getData vInv =>
    refine NodesKept.reads ?_ p
    dsimp only at heq
    split_ifs at heq
    · cases heq
      exact .modifyNode s₀ p fun _ => .of_txRelay rfl rfl rfl
    · have hqueue : NodesKept s₀ (s₀.queueGetData p vInv) :=
        .modifyNode s₀ p fun _ => .of_txRelay rfl rfl rfl
      exact hqueue.trans (.of_served (.processGetData heq))
  | tx tx =>
    cases heq
    exact (NodesKept.processTx E s₀ p tx now chance).reads p
  | dandelionTx tx =>
    cases heq
    exact (hagain.trans (.processDandelionTx E _ p tx now chance)).reads p
  | mempool => exact (NodesKept.handleNode (processMempool_spec E _) heq).reads p
  | filterLoad filter => exact (NodesKept.handleNode (processFilterLoad_spec _ _) heq).reads p
  | filterAdd vData =>
    exact (hagain.trans (.handleNode (processFilterAdd_spec E _ _) heq)).reads p
  | filterClear => exact (hagain.trans (.handleNode (processFilterClear_spec _) heq)).reads p
  | feeFilter fee => exact (hagain.trans (.handleNode (processFeeFilter_spec _ _) heq)).reads p

def ReadsInv (E : NetEnv X) (s : PeerManager X) (event : NetEvent X) (p : NodeId) (h : Uint256) :
    Prop :=
  ∃ now chance s₁ sent msg rest, event = .process p now chance ∧
    s.processPending E p now = .ok (s₁, sent) ∧ (s₁.nodes p).takesMessage = true ∧
    (s₁.nodes p).vProcessMsg = msg :: rest ∧ h ∈ readsOf E (s₁.nodes p) msg

theorem processMessages_reads (heq : s.processMessages E p now chance = .ok (s', sent)) :
    (∀ q, (s'.nodes q).dandelionToSend = (s.nodes q).dandelionToSend) ∧
      ∀ q h, h ∈ (s'.nodes q).dandelionKnown ↔
        ReadsInv E s (.process p now chance) q h ∨ h ∈ (s.nodes q).dandelionKnown := by
  obtain ⟨⟨s₁, sent₁⟩, hpending, hrest⟩ := bind_eq_ok.mp heq
  have hkept : NodesKept s s₁ := .of_served (.processPending hpending)
  -- what the turn reads, by the message that is taken
  have hall : ∀ hashes, Reads p hashes s₁ s' →
      (∀ h, h ∈ hashes ↔ (s₁.nodes p).takesMessage = true ∧ ∃ msg rest,
        (s₁.nodes p).vProcessMsg = msg :: rest ∧ h ∈ readsOf E (s₁.nodes p) msg) →
      (∀ q, (s'.nodes q).dandelionToSend = (s.nodes q).dandelionToSend) ∧
        ∀ q h, h ∈ (s'.nodes q).dandelionKnown ↔
          ReadsInv E s (.process p now chance) q h ∨ h ∈ (s.nodes q).dandelionKnown := by
    intro hashes hreads hhashes
    have hreads' := Reads.of_nil (hkept.reads p) hreads
    refine ⟨hreads'.toSend, fun q h => ?_⟩
    rw [hreads'.known q h, hhashes h]
    refine or_congr_left ⟨?_, ?_⟩
    · rintro ⟨rfl, htakes, msg, rest, hmsgs, hmem⟩
      exact ⟨now, chance, s₁, sent₁, msg, rest, rfl, hpending, htakes, hmsgs, hmem⟩
    · rintro ⟨now', chance', s₂, sent₂, msg, rest, hevent, hpending', htakes, hmsgs, hmem⟩
      cases hevent
      cases hpending.symm.trans hpending'
      exact ⟨rfl, htakes, msg, rest, hmsgs, hmem⟩
  dsimp only at hrest
  by_cases htakes : (s₁.nodes p).takesMessage = true
  swap
  · cases (if_neg htakes).symm.trans hrest
    exact hall [] ((NodesKept.refl _).reads p) fun h => by simp [htakes]
  rw [if_pos htakes] at hrest
  cases hmsgs : (s₁.nodes p).vProcessMsg with
  | nil =>
    rw [hmsgs] at hrest
    cases hrest
    exact hall [] ((NodesKept.refl _).reads p) fun h => by simp [hmsgs]
  | cons msg rest =>
    rw [hmsgs] at hrest
    obtain ⟨⟨s₂, sent₂⟩, hmessage, hend⟩ := bind_eq_ok.mp hrest
    cases hend
    have hpop : Reads p [] s₁ (s₁.modifyNode p fun node => { node with vProcessMsg := rest }) :=
      modifyNode_reads s₁ p p fun _ => rfl
    have hkind : kindOf ((s₁.modifyNode p fun node => { node with vProcessMsg := rest }).nodes p) =
        kindOf (s₁.nodes p) := by
      rw [modifyNode_self]
      rfl
    have hreads := Reads.of_nil hpop (processMessage_reads hmessage)
    rw [readsOf_congr E hkind] at hreads
    apply hall _ hreads
    intro h
    constructor
    · intro hmem
      exact ⟨htakes, msg, rest, hmsgs, hmem⟩
    · rintro ⟨-, msg', rest', hcons, hmem⟩
      cases hmsgs.symm.trans hcons
      exact hmem

theorem step_reads {event : NetEvent X} (hsend : ∀ q, (s.nodes q).dandelionToSend = [])
    (heq : s.step E event = .ok (s', sent)) :
    (∀ q, (s'.nodes q).dandelionToSend = []) ∧
      ∀ q h, h ∈ (s'.nodes q).dandelionKnown ↔ ReadsInv E s event q h ∨
        (h ∈ (s.nodes q).dandelionKnown ∧ ¬ Connects q event) := by
  -- an event that is no turn of the message loop reads nothing
  have hquiet : (∀ q now chance, event ≠ .process q now chance) → (∀ q, ¬ Connects q event) →
      ∀ p, Reads p [] s s' → (∀ q, (s'.nodes q).dandelionToSend = []) ∧
        ∀ q h, h ∈ (s'.nodes q).dandelionKnown ↔ ReadsInv E s event q h ∨
          (h ∈ (s.nodes q).dandelionKnown ∧ ¬ Connects q event) := by
    intro hprocess hconnects p hreads
    refine ⟨fun q => (hreads.toSend q).trans (hsend q), fun q h => ?_⟩
    have hno : ¬ ReadsInv E s event q h := fun ⟨now, chance, _, _, _, _, hevent, _⟩ =>
      hprocess q now chance hevent
    simp [hreads.known q h, hno, hconnects q]
  cases event with
  | process p now chance =>
    obtain ⟨hsend', hknown⟩ := processMessages_reads heq
    refine ⟨fun q => (hsend' q).trans (hsend q), fun q h => ?_⟩
    rw [hknown q h]
    have hnot : ¬ Connects q (NetEvent.process p now chance : NetEvent X) := fun h => h
    tauto
  | connect p connType permissions nodeBloom =>
    cases heq
    have hnew : (new connType permissions nodeBloom).dandelionKnown = [] ∧
        (new connType permissions nodeBloom).dandelionToSend = [] := by
      unfold new dandelionKnown dandelionToSend
      dsimp only
      split_ifs <;> exact ⟨rfl, rfl⟩
    have hno : ∀ q h, ¬ ReadsInv E s (.connect p connType permissions nodeBloom) q h := by
      rintro q h ⟨_, _, _, _, _, _, hevent, -⟩
      cases hevent
    constructor
    · intro q
      by_cases hq : q = p
      · rw [hq, setNode_self]
        exact hnew.2
      · rw [setNode_ne s hq]
        exact hsend q
    · intro q h
      by_cases hq : q = p
      · rw [hq, setNode_self, hnew.1]
        simp [hno, Connects]
      · rw [setNode_ne s hq]
        simp [hno, Connects, Ne.symm hq]
  | handshake p wtxidRelay fRelayTxes =>
    cases heq
    refine hquiet nofun nofun p (NodesKept.reads ?_ p)
    refine .modifyNode s p fun node => ?_
    have hmap : CNode.Kept True node (node.mapRelay fun relay => { relay with fRelayTxes }) :=
      .mapRelay (fun _ _ => rfl) fun _ _ _ => rfl
    exact hmap.trans (.of_txRelay rfl rfl rfl)
  | disconnect p =>
    cases heq
    exact hquiet nofun nofun p
      (modifyNode_reads s p p fun _ => rfl)
  | pauseSend p fPauseSend =>
    cases heq
    exact hquiet nofun nofun p
      (modifyNode_reads s p p fun _ => rfl)
  | receive p msg =>
    cases heq
    exact hquiet nofun nofun p
      (modifyNode_reads s p p fun _ => rfl)
  | send p now chance =>
    exact hquiet nofun nofun p
      ((NodesKept.sendMessages (hsend p) heq).reads p)
  | broadcast tx now feeAccepted relay chance =>
    cases heq
    exact hquiet nofun nofun 0
      ((NodesKept.broadcastTransaction E s tx now feeAccepted relay chance).reads 0)
  | pools mempool stempool confirmed =>
    cases heq
    refine hquiet nofun nofun 0 (NodesKept.reads ?_ 0)
    exact NodesKept.of_eq rfl
  | routes inbound routes destination =>
    cases heq
    refine hquiet nofun nofun 0 (NodesKept.reads ?_ 0)
    exact NodesKept.of_eq rfl

/-- The peer has announced it as a Dandelion inventory since it connected. -/
def AnnouncedBy (E : NetEnv X) (s : PeerManager X) (events : List (NetEvent X)) (p : NodeId)
    (h : Uint256) : Prop :=
  ∃ before event after s' sent, events = before ++ event :: after ∧
    s.run E before = .ok (s', sent) ∧ ReadsInv E s' event p h ∧ ∀ later ∈ after, ¬ Connects p later

theorem announcedBy_cons {s₁ : PeerManager X} {event : NetEvent X}
    (hstep : s.step E event = .ok (s₁, sent)) (p : NodeId) (h : Uint256) :
    AnnouncedBy E s (event :: events) p h ↔
      (ReadsInv E s event p h ∧ ∀ later ∈ events, ¬ Connects p later) ∨
        AnnouncedBy E s₁ events p h := by
  constructor
  · rintro ⟨before, event', after, s', sent', hsplit, hrun, hreads, hafter⟩
    cases before with
    | nil =>
      cases hsplit
      cases hrun
      exact .inl ⟨hreads, hafter⟩
    | cons first before =>
      cases hsplit
      rw [run, hstep, ok_bind] at hrun
      obtain ⟨⟨s₂, sent₂⟩, hrun', hend⟩ := bind_eq_ok.mp hrun
      cases hend
      exact .inr ⟨before, event', after, _, _, rfl, hrun', hreads, hafter⟩
  · rintro (⟨hreads, hafter⟩ | ⟨before, event', after, s', sent', hsplit, hrun, hreads, hafter⟩)
    · exact ⟨[], event, events, s, [], rfl, rfl, hreads, hafter⟩
    · refine ⟨event :: before, event', after, s', sent ++ sent', by rw [hsplit]; rfl, ?_, hreads,
        hafter⟩
      rw [run, hstep, ok_bind]
      dsimp only
      rw [hrun, ok_bind]

theorem run_reads (hsend : ∀ q, (s.nodes q).dandelionToSend = [])
    (hrun : s.run E events = .ok (s', sent)) (q : NodeId) (h : Uint256) :
    h ∈ (s'.nodes q).dandelionKnown ↔ AnnouncedBy E s events q h ∨
      (h ∈ (s.nodes q).dandelionKnown ∧ ∀ event ∈ events, ¬ Connects q event) := by
  induction events generalizing s sent with
  | nil =>
    cases hrun
    have hno : ¬ AnnouncedBy E s' [] q h := by
      rintro ⟨before, event, after, _, _, hsplit, -⟩
      exact absurd hsplit.symm (append_ne_nil_of_right_ne_nil _ (cons_ne_nil _ _))
    simp [hno]
  | cons event events ih =>
    obtain ⟨⟨s₁, sent₁⟩, hstep, hrest⟩ := bind_eq_ok.mp hrun
    obtain ⟨⟨s₂, sent₂⟩, hrun', hend⟩ := bind_eq_ok.mp hrest
    cases hend
    obtain ⟨hsend₁, hknown₁⟩ := step_reads hsend hstep
    rw [ih hsend₁ hrun', announcedBy_cons hstep, hknown₁ q h]
    simp only [mem_cons, forall_eq_or_imp]
    tauto

/-- A state after a run in which requests of a peer are answered. -/
inductive Answering (E : NetEnv X) (s₀ : PeerManager X) (events : List (NetEvent X)) (p : NodeId)
    (now : ℤ) : PeerManager X → Prop
  | pending {s : PeerManager X} {sent} : s₀.run E events = .ok (s, sent) → Answering E s₀ events p now s
  | message {s : PeerManager X} {sent s₁ sent₁ vInv rest} : s₀.run E events = .ok (s, sent) →
      s.processPending E p now = .ok (s₁, sent₁) → (s₁.nodes p).takesMessage = true →
      (s₁.nodes p).vProcessMsg = .getData vInv :: rest →
      Answering E s₀ events p now (((s₁.modifyNode p fun node =>
        { node with vProcessMsg := rest }).checkDandelionEmbargoes E now).queueGetData p vInv)
  | next {s : PeerManager X} {hashes} : Answering E s₀ events p now s →
      Answering E s₀ events p now (s.announced p hashes)

theorem Answering.known {s₀ : PeerManager X} (hs : Answering E s₀ events p now s)
    (hsend : ∀ q, (s₀.nodes q).dandelionToSend = []) (hnone : ∀ q, (s₀.nodes q).dandelionKnown = [])
    (h : Uint256) : h ∈ (s.nodes p).dandelionKnown ↔ AnnouncedBy E s₀ events p h := by
  have hrun : ∀ {s sent}, s₀.run E events = .ok (s, sent) →
      (h ∈ (s.nodes p).dandelionKnown ↔ AnnouncedBy E s₀ events p h) := by
    intro s sent hrun
    rw [run_reads hsend hrun p h, hnone p]
    simp
  induction hs with
  | pending heq => exact hrun heq
  | @message s sent s₁ sent₁ vInv rest heq hpending _ _ =>
    have hpend : NodesKept s s₁ := .of_served (.processPending hpending)
    have hpop := modifyNode_reads s₁ p p (f := fun node => { node with vProcessMsg := rest })
      fun _ => rfl
    have hcheck : ∀ s : PeerManager X, NodesKept s (s.checkDandelionEmbargoes E now) :=
      fun s => .of_served (.checkDandelionEmbargoes E s now)
    have hqueue : ∀ s : PeerManager X, Reads p [] s (s.queueGetData p vInv) :=
      fun s => modifyNode_reads s p p fun _ => rfl
    have hall := Reads.of_nil (hpend.reads p) (.of_nil hpop
      (.of_nil ((hcheck _).reads p) (hqueue _)))
    rw [hall.known p h, ← hrun heq]
    simp
  | @next s hashes _ ih =>
    have hannounced := modifyNode_reads s p p (f := fun node =>
      { node with recentlyAnnouncedInvs := hashes ++ node.recentlyAnnouncedInvs }) fun _ => rfl
    have hsame : h ∈ ((s.announced p hashes).nodes p).dandelionKnown ↔
        h ∈ (s.nodes p).dandelionKnown := (hannounced.known p h).trans (by simp)
    exact hsame.trans ih

end PeerManager

theorem CTransaction.stripWitness_eq_iff (tx : CTransaction) :
    tx.stripWitness = tx ↔ tx.hasWitness = false := by
  have hvin : tx.stripWitness = tx ↔
      tx.vin.map (fun txin => { txin with scriptWitness := [] }) = tx.vin := by
    constructor
    · exact congrArg CTransaction.vin
    · intro h
      unfold stripWitness
      rw [h]
  rw [hvin, hasWitness, any_eq_false]
  nth_rewrite 2 [← map_id tx.vin]
  rw [map_inj_left]
  constructor
  · intro h txin hmem
    have hnil : [] = txin.scriptWitness := congrArg CTxIn.scriptWitness (h txin hmem)
    rw [← hnil]
    decide
  · intro h txin hmem
    have hnil : txin.scriptWitness = [] := by simpa using h txin hmem
    rw [← hnil]
    rfl

namespace PeerManager

/-- The peer gets a stem transaction it asks for, as the stem pool has it, just when its embargo is
over, the peer has announced it itself, and it has no witness. -/
theorem getDataItem_stem_iff {E : NetEnv X} {mempool : TxPool X} {events : List (NetEvent X)}
    {p : NodeId} {now : ℤ} {s : PeerManager X} {h : Uint256} {entry : PoolEntry}
    (hs : Answering E (start mempool) events p now s) (hrelay : (s.nodes p).txRelay.isSome)
    (hstem : s.stempool.mapTx.lookup h = some entry) :
    s.getDataItem p now ⟨msgDandelionTx, h⟩ = .ok (s, some (.dandelionTx entry.tx)) ↔
      s.isTxDandelionEmbargoed h now = false ∧ AnnouncedBy E (start mempool) events p h ∧
        entry.tx.hasWitness = false := by
  obtain ⟨relay, hrelay⟩ := Option.isSome_iff_exists.mp hrelay
  have hknown := hs.known (fun _ => rfl) (fun _ => rfl) h
  rw [mem_dandelionKnown, hrelay] at hknown
  have hmem : h ∈ relay.setDandelionInventoryKnown ↔ AnnouncedBy E (start mempool) events p h := by
    rw [← hknown]
    simp
  have htype : (CInv.mk msgDandelionTx h).isDandelionMsg = true := rfl
  rw [← hmem, ← CTransaction.stripWitness_eq_iff, getDataItem, if_pos htype,
    getDataDandelion_eq hrelay, hstem, Option.bind_some, if_pos rfl]
  cases s.isTxDandelionEmbargoed h now with
  | true => simp
  | false =>
    by_cases hread : h ∈ relay.setDandelionInventoryKnown
    · simp [hread]
    · simp [hread]

def stemRun : List (NetEvent acceptingCrypto) :=
  [.connect 0 .outboundFullRelay ⟨false, false, false, false⟩ false, .handshake 0 false true,
    .routes [] ∅ (some 0), .broadcast sampleTx 0 true true sampleChance, .send 0 1 sampleChance,
    .receive 0 (.getData [⟨msgDandelionTx, sampleHash⟩]), .process 0 2 sampleChance]

theorem stemRun_notFound : ∃ s, (start .empty).run (acceptingEnv acceptingCrypto) stemRun =
      .ok (s, [.inv [⟨msgDandelionTx, sampleHash⟩], .notFound [⟨msgDandelionTx, sampleHash⟩]]) ∧
    s.stempool.contains sampleHash = true ∧ s.mempool.contains sampleHash = false :=
  ⟨_, rfl, rfl, rfl⟩

/-- The destination announces it too, and asks for it after its embargo. -/
theorem getDataItem_stem_announced :
    ∃ s, Answering (acceptingEnv acceptingCrypto) (start .empty) (stemRun ++ probe.take 2) 0
        30000000 s ∧
      s.getDataItem 0 30000000 ⟨msgDandelionTx, sampleHash⟩ =
        .ok (s, some (.dandelionTx sampleTx)) := by
  have hrun : ∃ s sent, (start .empty).run (acceptingEnv acceptingCrypto)
        (stemRun ++ probe.take 2) = .ok (s, sent) ∧ (s.nodes 0).txRelay.isSome ∧
      s.stempool.mapTx.lookup sampleHash = some ⟨sampleTx, 0, 0, 100, []⟩ ∧
      s.isTxDandelionEmbargoed sampleHash 30000000 = false := ⟨_, _, rfl, rfl, rfl, rfl⟩
  have hannounced : AnnouncedBy (acceptingEnv acceptingCrypto) (start .empty)
      (stemRun ++ probe.take 2) 0 sampleHash := by
    refine ⟨stemRun ++ probe.take 1, .process 0 3 sampleChance, [], _, _, rfl, rfl, ?_, ?_⟩
    · exact ⟨3, sampleChance, _, _, .inv [⟨msgDandelionTx, sampleHash⟩], [], rfl, rfl, rfl, rfl,
        mem_cons_self⟩
    · intro later hlater
      cases hlater
  obtain ⟨s, sent, heq, hrelay, hstem, hembargo⟩ := hrun
  have hs : Answering (acceptingEnv acceptingCrypto) (start .empty) (stemRun ++ probe.take 2) 0
      30000000 s := .pending heq
  exact ⟨s, hs, (getDataItem_stem_iff hs hrelay hstem).mpr ⟨hembargo, hannounced, rfl⟩⟩

end PeerManager
end Vexta
