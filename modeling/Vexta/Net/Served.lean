import Mathlib.Data.Finset.Card
import Vexta.Net.Reveal

/-! What the reading of inventories and requests leaves of the node. -/
namespace Vexta
open Lib List PeerManager CNode

variable {X : Crypto}

def NetMessage.isInventory : NetMessage → Bool
  | .inv _ => true
  | .getData _ => true
  | _ => false

def CNode.toSend (node : CNode) : ℕ :=
  match node.txRelay with
  | none => 0
  | some relay => relay.setInventoryTxToSend.toFinset.card +
      relay.setInventoryTxToSendOther.toFinset.card + relay.vInventoryDandelionTxToSend.length

structure Footprint where
  known : ℕ
  announced : ℕ
  requests : ℕ
  toSend : ℕ

structure Footprint.Within (f limit : Footprint) : Prop where
  known : f.known ≤ limit.known
  announced : f.announced ≤ limit.announced
  requests : f.requests ≤ limit.requests
  toSend : f.toSend ≤ limit.toSend

def Footprint.total (f : Footprint) : ℕ := f.known + f.announced + f.requests + f.toSend

namespace CNode

def dandelionKnown (node : CNode) : List Uint256 :=
  (node.txRelay.map TxRelay.setDandelionInventoryKnown).getD []

def dandelionToSend (node : CNode) : List Uint256 :=
  (node.txRelay.map TxRelay.vInventoryDandelionTxToSend).getD []

end CNode

namespace PeerManager

def footprint (s : PeerManager X) (p : NodeId) : Footprint where
  known := (s.nodes p).dandelionKnown.toFinset.card
  announced := s.txRequest.countP fun request => request.1 == p
  requests := (s.nodes p).getdataRequests.length
  toSend := (s.nodes p).toSend

/-- The limits of the code, and for what waits the embargoes and orphans. -/
def limits (s : PeerManager X) (p : NodeId) (known : ℕ) : Footprint where
  known := known
  announced := max maxPeerTxAnnouncements (s.footprint p).announced
  requests := max maxInvSz (s.footprint p).requests
  toSend := (s.footprint p).toSend + s.mDandelionEmbargo.keys.length + s.orphans.keys.length

end PeerManager

namespace CNode

/-- Kind, waiting messages and Dandelion inventories stay, maybe the known ones. -/
structure Kept (known : Prop) (node node' : CNode) : Prop where
  connType : node'.connType = node.connType
  messages : node'.vProcessMsg = node.vProcessMsg
  toSend : node'.dandelionToSend = node.dandelionToSend
  known : known → node'.dandelionKnown = node.dandelionKnown

namespace Kept
variable {known : Prop} {node node' node'' : CNode}

theorem refl (node : CNode) : Kept known node node := ⟨rfl, rfl, rfl, fun _ => rfl⟩

theorem trans (h : Kept known node node') (h' : Kept known node' node'') :
    Kept known node node'' where
  connType := h'.connType.trans h.connType
  messages := h'.messages.trans h.messages
  toSend := h'.toSend.trans h.toSend
  known := fun hknown => (h'.known hknown).trans (h.known hknown)

theorem of_txRelay (hconn : node'.connType = node.connType)
    (hmsgs : node'.vProcessMsg = node.vProcessMsg) (hrelay : node'.txRelay = node.txRelay) :
    Kept known node node' where
  connType := hconn
  messages := hmsgs
  toSend := by rw [dandelionToSend, hrelay, dandelionToSend]
  known := fun _ => by rw [dandelionKnown, hrelay, dandelionKnown]

theorem mapRelay {f : TxRelay → TxRelay}
    (hsend : ∀ relay, node.txRelay = some relay →
      (f relay).vInventoryDandelionTxToSend = relay.vInventoryDandelionTxToSend)
    (hknown : known → ∀ relay, node.txRelay = some relay →
      (f relay).setDandelionInventoryKnown = relay.setDandelionInventoryKnown) :
    Kept known node (node.mapRelay f) := by
  refine ⟨rfl, rfl, ?_, fun h => ?_⟩
  · unfold dandelionToSend CNode.mapRelay
    dsimp only
    cases hrelay : node.txRelay with
    | none => rfl
    | some relay => exact hsend relay hrelay
  · unfold dandelionKnown CNode.mapRelay
    dsimp only
    cases hrelay : node.txRelay with
    | none => rfl
    | some relay => exact hknown h relay hrelay

theorem addKnownTx (node : CNode) (hash : Uint256) : Kept known node (node.addKnownTx hash) :=
  mapRelay (fun _ _ => rfl) fun _ _ _ => rfl

theorem pushTxInventory (node : CNode) (hash : Uint256) :
    Kept known node (node.pushTxInventory hash) := by
  apply mapRelay
  · intro relay _
    split_ifs <;> rfl
  · intro _ relay _
    split_ifs <;> rfl

theorem pushOtherInventory (node : CNode) (inv : CInv) :
    Kept known node (node.pushOtherInventory inv) := by
  apply mapRelay
  · intro relay _
    split_ifs <;> rfl
  · intro _ relay _
    split_ifs <;> rfl

end Kept
end CNode

structure CNode.Lighter (node node' : CNode) : Prop where
  permissions : node'.permissions = node.permissions
  requests : node'.getdataRequests.length ≤ node.getdataRequests.length
  toSend : node'.toSend ≤ node.toSend

namespace CNode.Lighter
variable {node node' node'' : CNode}

theorem refl (node : CNode) : Lighter node node := ⟨rfl, le_refl _, le_refl _⟩

theorem of_txRelay (hperm : node'.permissions = node.permissions)
    (hrequests : node'.getdataRequests = node.getdataRequests)
    (hrelay : node'.txRelay = node.txRelay) : Lighter node node' where
  permissions := hperm
  requests := by rw [hrequests]
  toSend := by rw [CNode.toSend, hrelay, ← CNode.toSend]

theorem mapRelay {f : TxRelay → TxRelay}
    (htx : ∀ relay, node.txRelay = some relay →
      (f relay).setInventoryTxToSend ⊆ relay.setInventoryTxToSend)
    (hother : ∀ relay, node.txRelay = some relay →
      (f relay).setInventoryTxToSendOther ⊆ relay.setInventoryTxToSendOther)
    (hdandelion : ∀ relay, node.txRelay = some relay →
      (f relay).vInventoryDandelionTxToSend.length ≤ relay.vInventoryDandelionTxToSend.length) :
    Lighter node (node.mapRelay f) := by
  refine ⟨rfl, le_refl _, ?_⟩
  unfold CNode.toSend CNode.mapRelay
  dsimp only
  cases hrelay : node.txRelay with
  | none => exact le_refl _
  | some relay =>
    have h₁ :=
      Finset.card_le_card fun x hx =>
        mem_toFinset.mpr (htx relay hrelay (mem_toFinset.mp hx))
    have h₂ :=
      Finset.card_le_card fun x hx =>
        mem_toFinset.mpr (hother relay hrelay (mem_toFinset.mp hx))
    have h₃ := hdandelion relay hrelay
    rw [Option.map_some]
    dsimp only
    omega

theorem addKnownTx (node : CNode) (hash : Uint256) : Lighter node (node.addKnownTx hash) :=
  mapRelay (fun _ _ => .refl _) (fun _ _ => .refl _) fun _ _ => le_refl _

end CNode.Lighter

theorem CNode.toSend_pushTxInventory (node : CNode) (hash : Uint256) :
    (node.pushTxInventory hash).toSend ≤ node.toSend + 1 := by
  unfold pushTxInventory mapRelay toSend
  dsimp only
  cases node.txRelay with
  | none => exact Nat.zero_le _
  | some relay =>
    rw [Option.map_some]
    dsimp only
    split_ifs
    · omega
    · dsimp only
      rw [toFinset_cons]
      have hcard := Finset.card_insert_le hash relay.setInventoryTxToSend.toFinset
      omega

structure CNode.Calm (known : Prop) (node node' : CNode) : Prop where
  kept : Kept known node node'
  lighter : Lighter node node'

namespace CNode.Calm
variable {known : Prop} {node node' : CNode}

theorem refl (node : CNode) : Calm known node node := ⟨.refl node, .refl node⟩

theorem of_txRelay (hconn : node'.connType = node.connType)
    (hmsgs : node'.vProcessMsg = node.vProcessMsg) (hperm : node'.permissions = node.permissions)
    (hrequests : node'.getdataRequests = node.getdataRequests)
    (hrelay : node'.txRelay = node.txRelay) : Calm known node node' :=
  ⟨.of_txRelay hconn hmsgs hrelay, .of_txRelay hperm hrequests hrelay⟩

theorem addKnownTx (node : CNode) (hash : Uint256) : Calm known node (node.addKnownTx hash) :=
  ⟨.addKnownTx node hash, .addKnownTx node hash⟩

end CNode.Calm

namespace PeerManager

structure Quiet (known : Prop) (s s' : PeerManager X) : Prop where
  stempool : s'.stempool = s.stempool
  embargo : ∀ h embargo, s'.mDandelionEmbargo.lookup h = some embargo →
    s.mDandelionEmbargo.lookup h = some embargo
  nodes : ∀ q, CNode.Kept known (s.nodes q) (s'.nodes q)

theorem kept_setNode {known : Prop} (s : PeerManager X) (p : NodeId) {node : CNode}
    (hkept : CNode.Kept known (s.nodes p) node) (q : NodeId) :
    CNode.Kept known (s.nodes q) ((s.setNode p node).nodes q) := by
  by_cases hq : q = p
  · rw [hq, setNode_self]
    exact hkept
  · rw [setNode_ne s hq]
    exact .refl _

namespace Quiet
variable {known : Prop} {s s' s'' : PeerManager X}

theorem refl (s : PeerManager X) : Quiet known s s := ⟨rfl, fun _ _ h => h, fun _ => .refl _⟩

theorem trans (h : Quiet known s s') (h' : Quiet known s' s'') : Quiet known s s'' where
  stempool := h'.stempool.trans h.stempool
  embargo := fun hash embargo hlookup => h.embargo hash embargo (h'.embargo hash embargo hlookup)
  nodes := fun q => (h.nodes q).trans (h'.nodes q)

theorem of_nodes (hstem : s'.stempool = s.stempool)
    (hembargo : s'.mDandelionEmbargo = s.mDandelionEmbargo)
    (hnodes : ∀ q, CNode.Kept known (s.nodes q) (s'.nodes q)) : Quiet known s s' where
  stempool := hstem
  embargo := by
    rw [hembargo]
    exact fun _ _ h => h
  nodes := hnodes

theorem of_eq (hstem : s'.stempool = s.stempool)
    (hembargo : s'.mDandelionEmbargo = s.mDandelionEmbargo) (hnodes : s'.nodes = s.nodes) :
    Quiet known s s' :=
  of_nodes hstem hembargo fun q => by rw [hnodes]; exact .refl _

theorem setNode (s : PeerManager X) (p : NodeId) {node : CNode}
    (hkept : CNode.Kept known (s.nodes p) node) : Quiet known s (s.setNode p node) :=
  of_nodes rfl rfl (kept_setNode s p hkept)

theorem modifyNode (s : PeerManager X) (p : NodeId) {f : CNode → CNode}
    (hkept : ∀ node, CNode.Kept known node (f node)) : Quiet known s (s.modifyNode p f) :=
  setNode s p (hkept _)

theorem relayTransaction (s : PeerManager X) (txid wtxid : Uint256) :
    Quiet known s (s.relayTransaction txid wtxid) := by
  refine of_nodes rfl rfl ?_
  intro q
  rcases s.relayTransaction_node txid wtxid q with heq | ⟨hash, heq⟩
  · rw [heq]
    exact .refl _
  · rw [heq]
    exact .pushTxInventory _ _

theorem removeDandelionEmbargo (s : PeerManager X) (hash : Uint256) :
    Quiet known s (s.removeDandelionEmbargo hash) where
  stempool := rfl
  embargo := fun _ _ hlookup => Assoc.lookup_of_erase hlookup
  nodes := fun _ => .refl _

end Quiet

def waiting (s : PeerManager X) (p : NodeId) : ℕ :=
  (s.nodes p).toSend + s.mDandelionEmbargo.keys.length + s.orphans.keys.length

/-- The containers stay within the limits, apart from Dandelion inventories. -/
structure Contained (p : NodeId) (s s' : PeerManager X) : Prop where
  permissions : (s'.nodes p).permissions = (s.nodes p).permissions
  announced : (s.nodes p).permissions.relay = false →
    (s'.footprint p).announced ≤ max maxPeerTxAnnouncements (s.footprint p).announced
  requests : (s'.footprint p).requests ≤ max maxInvSz (s.footprint p).requests
  waiting : s'.waiting p ≤ s.waiting p

namespace Contained
variable {p : NodeId} {s s' s'' : PeerManager X}

theorem trans (h : Contained p s s') (h' : Contained p s' s'') : Contained p s s'' where
  permissions := h'.permissions.trans h.permissions
  announced := fun hrelay => by
    have h₁ := h.announced hrelay
    rw [← h.permissions] at hrelay
    have h₂ := h'.announced hrelay
    omega
  requests := by
    have h₁ := h.requests
    have h₂ := h'.requests
    omega
  waiting := h'.waiting.trans h.waiting

theorem of_nodes (hnode : CNode.Lighter (s.nodes p) (s'.nodes p))
    (hrequest : s'.txRequest = s.txRequest) (hembargo : s'.mDandelionEmbargo = s.mDandelionEmbargo)
    (horphans : s'.orphans = s.orphans) : Contained p s s' where
  permissions := hnode.permissions
  announced := fun _ => by
    unfold footprint
    rw [hrequest]
    exact le_max_right _ _
  requests := hnode.requests.trans (le_max_right _ _)
  waiting := by
    unfold PeerManager.waiting
    rw [hembargo, horphans]
    have h := hnode.toSend
    omega

theorem of_eq (hnodes : s'.nodes = s.nodes) (hrequest : s'.txRequest = s.txRequest)
    (hembargo : s'.mDandelionEmbargo = s.mDandelionEmbargo) (horphans : s'.orphans = s.orphans) :
    Contained p s s' :=
  of_nodes (by rw [hnodes]; exact .refl _) hrequest hembargo horphans

theorem refl (s : PeerManager X) : Contained p s s := of_eq rfl rfl rfl rfl

theorem modifyNode (s : PeerManager X) (q : NodeId) {f : CNode → CNode}
    (hf : CNode.Lighter (s.nodes q) (f (s.nodes q))) : Contained p s (s.modifyNode q f) := by
  refine of_nodes ?_ rfl rfl rfl
  by_cases hq : p = q
  · rw [hq, modifyNode_self]
    exact hf
  · rw [modifyNode_ne s hq]
    exact .refl _

end Contained

theorem relayTransaction_light (s : PeerManager X) (txid wtxid : Uint256) (q : NodeId) :
    ((s.relayTransaction txid wtxid).nodes q).permissions = (s.nodes q).permissions ∧
      ((s.relayTransaction txid wtxid).nodes q).getdataRequests = (s.nodes q).getdataRequests ∧
      ((s.relayTransaction txid wtxid).nodes q).toSend ≤ (s.nodes q).toSend + 1 := by
  rcases s.relayTransaction_node txid wtxid q with heq | ⟨hash, heq⟩
  · rw [heq]
    exact ⟨rfl, rfl, Nat.le_succ _⟩
  · rw [heq]
    exact ⟨rfl, rfl, toSend_pushTxInventory _ _⟩

theorem length_keys_erase {β : Type} {m : Assoc Uint256 β} {hash : Uint256} (h : hash ∈ m) :
    (m.erase hash).keys.length + 1 = m.keys.length := by
  rw [AList.keys_erase, length_erase_of_mem h]
  have hpos : 0 < m.keys.length := length_pos_of_mem h
  omega

namespace Contained
variable {p : NodeId} {s s' : PeerManager X}

theorem removeDandelionEmbargo (s : PeerManager X) {hash : Uint256}
    (h : hash ∈ s.mDandelionEmbargo) : Contained p s (s.removeDandelionEmbargo hash) where
  permissions := rfl
  announced := fun _ => le_max_right _ _
  requests := le_max_right _ _
  waiting := by
    have hlength := length_keys_erase h
    unfold PeerManager.waiting PeerManager.removeDandelionEmbargo
    dsimp only
    omega

theorem of_relay (s : PeerManager X) (txid wtxid : Uint256)
    (hnode : s'.nodes p = (s.relayTransaction txid wtxid).nodes p)
    (hrequest : s'.txRequest = s.txRequest)
    (hless : s'.mDandelionEmbargo.keys.length + s'.orphans.keys.length + 1 ≤
      s.mDandelionEmbargo.keys.length + s.orphans.keys.length) : Contained p s s' := by
  obtain ⟨hpermissions, hrequests, hsend⟩ := s.relayTransaction_light txid wtxid p
  rw [← hnode] at hpermissions hrequests hsend
  refine ⟨hpermissions, fun _ => ?_, ?_, ?_⟩
  · unfold footprint
    rw [hrequest]
    exact le_max_right _ _
  · unfold footprint
    rw [hrequests]
    exact le_max_right _ _
  · unfold PeerManager.waiting
    omega

theorem relay_removeEmbargo (s : PeerManager X) {hash : Uint256} (txid wtxid : Uint256)
    (h : hash ∈ s.mDandelionEmbargo) :
    Contained p s ((s.relayTransaction txid wtxid).removeDandelionEmbargo hash) := by
  have hlength := length_keys_erase h
  refine of_relay s txid wtxid ?_ rfl ?_
  · rfl
  change (s.mDandelionEmbargo.erase hash).keys.length + s.orphans.keys.length + 1 ≤ _
  omega

end Contained

theorem checkEmbargo_mem (E : NetEnv X) (now : ℤ) (s : PeerManager X)
    {entry : Sigma fun _ : Uint256 => ℤ} {hash : Uint256} (hne : hash ≠ entry.1)
    (h : hash ∈ s.mDandelionEmbargo) :
    hash ∈ (checkEmbargo E now s entry).mDandelionEmbargo := by
  have herase := AList.mem_erase.mpr ⟨hne, h⟩
  unfold checkEmbargo
  split_ifs
  · exact herase
  · cases s.stempool.get entry.1 <;> exact herase
  · exact h

structure Served (known : Prop) (s s' : PeerManager X) : Prop where
  quiet : Quiet known s s'
  contained : ∀ p, Contained p s s'

namespace Served
variable {known : Prop} {s s' s'' : PeerManager X} {p : NodeId}

theorem trans (h : Served known s s') (h' : Served known s' s'') : Served known s s'' :=
  ⟨h.quiet.trans h'.quiet, fun p => (h.contained p).trans (h'.contained p)⟩

theorem of_eq (hstem : s'.stempool = s.stempool) (hnodes : s'.nodes = s.nodes)
    (hrequest : s'.txRequest = s.txRequest) (hembargo : s'.mDandelionEmbargo = s.mDandelionEmbargo)
    (horphans : s'.orphans = s.orphans) : Served known s s' :=
  ⟨.of_eq hstem hembargo hnodes, fun _ => .of_eq hnodes hrequest hembargo horphans⟩

theorem refl (s : PeerManager X) : Served known s s := of_eq rfl rfl rfl rfl rfl

theorem modifyNode (s : PeerManager X) (p : NodeId) {f : CNode → CNode}
    (hf : CNode.Calm known (s.nodes p) (f (s.nodes p))) : Served known s (s.modifyNode p f) :=
  ⟨.setNode s p hf.kept, fun _ => .modifyNode s p hf.lighter⟩

theorem acceptMempool (E : NetEnv X) (s : PeerManager X) (tx : CTransaction) (now : ℤ) :
    Served known s (s.acceptMempool E tx now).2 := of_eq rfl rfl rfl rfl rfl

theorem checkEmbargo (E : NetEnv X) (now : ℤ) (s : PeerManager X)
    {entry : Sigma fun _ : Uint256 => ℤ} (h : entry.1 ∈ s.mDandelionEmbargo) :
    Served known s (checkEmbargo E now s entry) := by
  have hremove : Served known s (s.removeDandelionEmbargo entry.1) :=
    ⟨.removeDandelionEmbargo s _, fun _ => .removeDandelionEmbargo s h⟩
  unfold PeerManager.checkEmbargo
  split_ifs
  · exact hremove
  · cases s.stempool.get entry.1 with
    | none => exact hremove
    | some tx =>
      exact (acceptMempool E s tx now).trans ⟨(Quiet.relayTransaction _ _ _).trans
        (.removeDandelionEmbargo _ _), fun _ => .relay_removeEmbargo _ _ _ h⟩
  · exact refl s

theorem checkDandelionEmbargoes (E : NetEnv X) (s : PeerManager X) (now : ℤ) :
    Served known s (s.checkDandelionEmbargoes E now) := by
  have hloop : ∀ (entries : List (Sigma fun _ : Uint256 => ℤ)) (s : PeerManager X),
      entries.NodupKeys → (∀ entry ∈ entries, entry.1 ∈ s.mDandelionEmbargo) →
      Served known s (entries.foldl (PeerManager.checkEmbargo E now) s) := by
    intro entries
    induction entries with
    | nil => exact fun s _ _ => refl s
    | cons entry entries ih =>
      intro s hnodup hmem
      obtain ⟨hhead, htail⟩ := nodupKeys_cons.mp hnodup
      have hfirst := hmem entry mem_cons_self
      refine (checkEmbargo E now s hfirst).trans (ih _ htail fun other hother => ?_)
      have hne : other.1 ≠ entry.1 := fun heq =>
        hhead (heq ▸ mem_keys_of_mem hother)
      exact checkEmbargo_mem E now s hne (hmem other (mem_cons_of_mem entry hother))
  exact hloop _ s s.mDandelionEmbargo.nodupKeys fun entry hentry => mem_keys_of_mem hentry

theorem setWorkSet (s : PeerManager X) (p : NodeId) (workSet : List Uint256) :
    Served known s (s.modifyNode p fun node => { node with orphanWorkSet := workSet }) :=
  modifyNode s p (.of_txRelay rfl rfl rfl rfl rfl)

variable {hash : Uint256}

theorem eraseOrphan (s : PeerManager X) (h : hash ∈ s.orphans) :
    Served known s { s with orphans := s.orphans.erase hash } := by
  refine ⟨.of_eq rfl rfl rfl, fun _ => ⟨rfl, fun _ => le_max_right _ _, le_max_right _ _, ?_⟩⟩
  have hlength := length_keys_erase h
  unfold waiting
  dsimp only
  omega

theorem relay_eraseOrphan (s : PeerManager X) (txid wtxid : Uint256) (h : hash ∈ s.orphans) :
    Served known s { s.relayTransaction txid wtxid with orphans := s.orphans.erase hash } := by
  refine ⟨(Quiet.relayTransaction s txid wtxid).trans (.of_eq rfl rfl rfl), fun p => ?_⟩
  have hlength := length_keys_erase h
  refine .of_relay s txid wtxid ?_ rfl ?_
  · rfl
  change s.mDandelionEmbargo.keys.length + (s.orphans.erase hash).keys.length + 1 ≤ _
  omega

theorem maybePunishNodeForTx (s : PeerManager X) (p : NodeId) (result : AcceptResult) :
    Served known s (s.maybePunishNodeForTx p result) := by
  unfold PeerManager.maybePunishNodeForTx
  split_ifs
  · exact modifyNode s p (.of_txRelay rfl rfl rfl rfl rfl)
  · exact refl s

theorem rejectTx (s : PeerManager X) (tx : CTransaction) (result : AcceptResult) :
    Served known s (s.rejectTx tx result) := by
  unfold PeerManager.rejectTx
  dsimp only
  split_ifs <;> exact of_eq rfl rfl rfl rfl rfl

theorem refuseOrphan (s : PeerManager X) (tx : CTransaction) (fromPeer : NodeId)
    (result : AcceptResult) (h : hash ∈ s.orphans) :
    Served known s { (s.maybePunishNodeForTx fromPeer result).rejectTx tx result with
      orphans := ((s.maybePunishNodeForTx fromPeer result).rejectTx tx result).orphans.erase
        hash } := by
  have hmem : hash ∈ ((s.maybePunishNodeForTx fromPeer result).rejectTx tx result).orphans := by
    unfold PeerManager.rejectTx PeerManager.maybePunishNodeForTx
    dsimp only
    split_ifs <;> exact h
  exact ((maybePunishNodeForTx s fromPeer result).trans (rejectTx _ tx result)).trans
    (eraseOrphan _ hmem)

theorem processOrphanTx (E : NetEnv X) (p : NodeId) (now : ℤ) (workSet : List Uint256)
    (s : PeerManager X) : Served known s (processOrphanTx E p now workSet s) := by
  induction workSet generalizing s with
  | nil => exact setWorkSet s p _
  | cons orphanHash workSet ih =>
    rw [PeerManager.processOrphanTx]
    cases horphan : s.orphans.lookup orphanHash with
    | none => exact ih s
    | some orphan =>
      obtain ⟨tx, fromPeer⟩ := orphan
      have haccept : Served known s (s.acceptMempool E tx now).2 := acceptMempool E s tx now
      have hmem : orphanHash ∈ (s.acceptMempool E tx now).2.orphans := by
        apply AList.lookup_isSome.mp
        change (s.orphans.lookup orphanHash).isSome
        rw [horphan]
        rfl
      dsimp only
      generalize s.acceptMempool E tx now = r at haccept hmem
      obtain ⟨result, s'⟩ := r
      cases result with
      | valid => exact (haccept.trans (relay_eraseOrphan s' _ _ hmem)).trans (setWorkSet _ p _)
      | missingInputs => exact haccept.trans (ih s')
      | _ => exact (haccept.trans (refuseOrphan s' tx fromPeer _ hmem)).trans (setWorkSet _ p _)

theorem alreadyHaveTx (E : NetEnv X) (s : PeerManager X) (gtxid : GenTxid) :
    Served known s (s.alreadyHaveTx E gtxid).2 := by
  unfold PeerManager.alreadyHaveTx
  dsimp only
  split_ifs <;> exact of_eq rfl rfl rfl rfl rfl

theorem receivedInv (s : PeerManager X) (p : NodeId) (gtxid : GenTxid)
    (h : (s.nodes p).permissions.relay = false →
      (s.footprint p).announced < maxPeerTxAnnouncements) :
    Served known s (s.receivedInv p gtxid) := by
  unfold PeerManager.receivedInv
  split_ifs
  · exact refl s
  · refine ⟨.of_eq rfl rfl rfl, fun q => ⟨rfl, fun hrelay => ?_, le_max_right _ _, le_refl _⟩⟩
    unfold footprint at h ⊢
    dsimp only at h ⊢
    rw [countP_cons]
    by_cases hq : p = q
    · have hroom := h (hq ▸ hrelay)
      rw [if_pos (beq_iff_eq.mpr hq), ← hq]
      omega
    · rw [if_neg fun heq => hq (beq_iff_eq.mp heq)]
      exact le_max_right _ _

theorem addTxAnnouncement (s : PeerManager X) (p : NodeId) (gtxid : GenTxid) :
    Served known s (s.addTxAnnouncement p gtxid) := by
  unfold PeerManager.addTxAnnouncement
  split_ifs with hfull
  · exact refl s
  · apply receivedInv
    intro hrelay
    by_contra hroom
    exact hfull ⟨by rw [hrelay]; exact Bool.false_ne_true, Nat.not_lt.mp hroom⟩

theorem invTx (E : NetEnv X) (p : NodeId) (fBlocksOnly : Bool) (l : InvLoop X) (inv : CInv) :
    Served known l.s (invTx E p fBlocksOnly l inv).s := by
  have hknown : Served known l.s ((l.s.alreadyHaveTx E inv.toGenTxid).2.modifyNode p fun node =>
      node.addKnownTx inv.hash) :=
    (alreadyHaveTx E l.s _).trans (modifyNode _ p (.addKnownTx _ _))
  unfold PeerManager.invTx
  dsimp only
  split_ifs
  · exact hknown.trans (modifyNode _ p (f := fun node => { node with fDisconnect := true })
      (.of_txRelay rfl rfl rfl rfl rfl))
  · exact hknown.trans (addTxAnnouncement _ p _)
  · exact hknown

theorem invItem {E : NetEnv X} {fBlocksOnly : Bool} {l l' : InvLoop X} {inv : CInv}
    (heq : invItem E p fBlocksOnly l inv = .ok l') : Served False l.s l'.s := by
  unfold PeerManager.invItem at heq
  split_ifs at heq
  · cases heq
    exact refl _
  · cases heq
    exact refl _
  · obtain ⟨relay, hderef, hrest⟩ := bind_eq_ok.mp heq
    cases hrest
    have hrelay : ∀ relay', (l.s.nodes p).txRelay = some relay' → relay' = relay := by
      intro relay' hrelay'
      rw [txRelay_of_deref hderef] at hrelay'
      exact (Option.some.inj hrelay').symm
    exact modifyNode l.s p (f := fun node => node.mapRelay fun _ => { relay with
      setDandelionInventoryKnown := inv.hash :: relay.setDandelionInventoryKnown })
      ⟨.mapRelay (fun relay' h => by rw [hrelay relay' h]) fun h => h.elim,
        .mapRelay (fun relay' h => by rw [hrelay relay' h]; exact .refl _)
          (fun relay' h => by rw [hrelay relay' h]; exact .refl _)
          fun relay' h => by rw [hrelay relay' h]⟩
  · cases heq
    exact refl _
  · cases heq
    exact refl _
  · cases heq
    exact invTx E p fBlocksOnly l inv
  · cases heq
    exact refl _

theorem processInv {E : NetEnv X} {vInv : List CInv} {sent : List Sent}
    (heq : s.processInv E p vInv = .ok (s', sent)) : Served False s s' := by
  unfold PeerManager.processInv at heq
  split_ifs at heq
  · cases heq
    exact modifyNode s p (.of_txRelay rfl rfl rfl rfl rfl)
  · obtain ⟨l, hl, hrest⟩ := bind_eq_ok.mp heq
    cases hrest
    exact foldlM_induction (P := fun l => Served False s l.s)
      (fun l inv l' _ hl hstep => trans hl (invItem hstep)) (refl s) hl

end Served

section requests
variable {known : Prop} {p : NodeId} {s s' : PeerManager X}

theorem getDataLoop_contained {now : ℤ} {queue : List CInv} {l : GetDataLoop X}
    (heq : getDataLoop p now queue s = .ok l) :
    (∃ hashes, l.s = s.announced p hashes) ∧ l.queue.length ≤ queue.length := by
  cases hrelay : (s.nodes p).txRelay with
  | some relay =>
    obtain ⟨l', hl', hspec⟩ := getDataLoop_spec now hrelay queue
    rw [heq] at hl'
    cases hl'
    have hlength := hspec.length
    exact ⟨hspec.announced, by omega⟩
  | none =>
    have hsame : ∀ queue, ∃ rest, getDataLoop p now queue s = .ok ⟨s, [], [], rest⟩ ∧
        rest.length ≤ queue.length := by
      intro queue
      induction queue with
      | nil => exact ⟨[], rfl, le_refl _⟩
      | cons inv queue ih =>
        rw [getDataLoop]
        split_ifs with hstop hnone
        · exact ⟨_, rfl, le_refl _⟩
        · obtain ⟨rest, hrest, hlength⟩ := ih
          exact ⟨rest, hrest, hlength.trans (Nat.le_succ _)⟩
        · rw [hrelay] at hnone
          exact absurd rfl hnone
    obtain ⟨rest, hrest, hlength⟩ := hsame queue
    cases heq.symm.trans hrest
    exact ⟨⟨[], announced_nil.symm⟩, hlength⟩

theorem processGetBlockData_served {E : NetEnv X} {inv : CInv} {sent : List Sent}
    (heq : s.processGetBlockData E p inv = .ok (s', sent)) : Served known s s' := by
  unfold processGetBlockData at heq
  have hdisconnect : Served known s
      (s.modifyNode p fun node => { node with fDisconnect := true }) :=
    .modifyNode s p (.of_txRelay rfl rfl rfl rfl rfl)
  cases hanswer : E.blockAnswer p inv with
  | ignored =>
    rw [hanswer] at heq
    cases heq
    exact .refl s
  | disconnect =>
    rw [hanswer] at heq
    cases heq
    exact hdisconnect
  | found compact witness matched =>
    rw [hanswer] at heq
    obtain ⟨reply, -, hreply⟩ := bind_eq_ok.mp heq
    split_ifs at hreply
    · cases hreply
      exact .modifyNode s p (.of_txRelay rfl rfl rfl rfl rfl)
    · cases hreply
      exact .refl s

theorem getDataBlock_served {E : NetEnv X} {queue rest : List CInv} {sent : List Sent}
    (heq : s.getDataBlock E p queue = .ok (s', sent, rest)) :
    Served known s s' ∧ rest.length ≤ queue.length := by
  cases queue with
  | nil =>
    cases heq
    exact ⟨.refl s, le_refl _⟩
  | cons inv queue =>
    rw [getDataBlock] at heq
    split_ifs at heq
    · cases heq
      exact ⟨.refl s, le_refl _⟩
    · obtain ⟨⟨s₁, sent₁⟩, hblock, hrest⟩ := bind_eq_ok.mp heq
      cases hrest
      exact ⟨processGetBlockData_served hblock, Nat.le_succ _⟩
    · cases heq
      exact ⟨.refl s, Nat.le_succ _⟩

end requests

namespace Served
variable {known : Prop} {s s' : PeerManager X} {p : NodeId}

variable {E : NetEnv X} {now : ℤ} {sent : List Sent}

theorem processGetData (heq : s.processGetData E p now = .ok (s', sent)) : Served known s s' := by
  obtain ⟨l, hl, hrest⟩ := bind_eq_ok.mp heq
  obtain ⟨⟨s₁, blocks, queue⟩, hblock, hend⟩ := bind_eq_ok.mp hrest
  obtain ⟨⟨hashes, hs⟩, hloop⟩ := getDataLoop_contained hl
  obtain ⟨hserved, hqueue⟩ : Served known l.s s₁ ∧ _ := getDataBlock_served hblock
  cases hend
  have hfirst : Served known s s₁ := by
    rw [hs] at hserved
    exact trans (modifyNode s p (.of_txRelay rfl rfl rfl rfl rfl)) hserved
  refine ⟨hfirst.quiet.trans (.modifyNode s₁ p fun _ => .of_txRelay rfl rfl rfl), fun q => ?_⟩
  have hq := hfirst.contained q
  by_cases hpeer : q = p
  · -- the requests that are left are some of those there were
    subst hpeer
    refine ⟨?_, hq.announced, ?_, ?_⟩
    · rw [modifyNode_self]
      exact hq.permissions
    · unfold footprint
      rw [modifyNode_self]
      dsimp only
      omega
    · have hwaiting := hq.waiting
      unfold waiting at hwaiting ⊢
      rw [modifyNode_self]
      exact hwaiting
  · refine hq.trans (.of_nodes ?_ rfl rfl rfl)
    rw [modifyNode_ne s₁ hpeer]
    exact .refl _

theorem processPending (heq : s.processPending E p now = .ok (s', sent)) : Served known s s' := by
  have horphans : ∀ (s₁ : PeerManager X) (sent₁ : List Sent), Served known s s₁ →
      (if (s₁.nodes p).orphanWorkSet.isEmpty then .ok (s₁, sent₁)
        else .ok (PeerManager.processOrphanTx E p now (s₁.nodes p).orphanWorkSet s₁, sent₁) :
        Except NetFault (PeerManager X × List Sent)) = .ok (s', sent) → Served known s s' := by
    intro s₁ sent₁ hfirst hrest
    split_ifs at hrest
    · cases hrest
      exact hfirst
    · cases hrest
      exact hfirst.trans (processOrphanTx E p now _ s₁)
  unfold PeerManager.processPending at heq
  by_cases hempty : (s.nodes p).getdataRequests.isEmpty = true
  · rw [if_pos hempty] at heq
    exact horphans s [] (refl s) heq
  · rw [if_neg hempty] at heq
    obtain ⟨⟨s₁, sent₁⟩, hdata, hrest⟩ := bind_eq_ok.mp heq
    exact horphans s₁ sent₁ (processGetData hdata) hrest

theorem queueGetData (s : PeerManager X) (p : NodeId) {vInv : List CInv}
    (hlen : ¬ maxInvSz < vInv.length) (hempty : (s.nodes p).getdataRequests = []) :
    Contained p s (s.queueGetData p vInv) := by
  have hnode : (s.queueGetData p vInv).nodes p = { s.nodes p with
      getdataRequests := (s.nodes p).getdataRequests ++ vInv } := modifyNode_self ..
  refine ⟨?_, fun _ => le_max_right _ _, ?_, ?_⟩
  · rw [hnode]
  · unfold footprint
    rw [hnode, hempty]
    dsimp only
    rw [nil_append]
    omega
  · unfold waiting
    rw [hnode]
    exact le_refl _

theorem processMessage {chance : Chance} {msg : NetMessage} (hmsg : msg.isInventory = true)
    (heq : s.processMessage E p now chance msg = .ok (s', sent)) :
    Quiet False s s' ∧ ((s.nodes p).getdataRequests = [] → Contained p s s') := by
  have hcheck : Served False s (s.checkDandelionEmbargoes E now) := checkDandelionEmbargoes E s now
  have hrequests := checkDandelionEmbargoes_congr (f := getdataRequests) (fun _ _ => rfl) E s
    now p
  unfold PeerManager.processMessage at heq
  dsimp only at heq
  generalize s.checkDandelionEmbargoes E now = s₀ at heq hcheck hrequests
  have hall : ∀ {s₁}, Served False s₀ s₁ →
      Quiet False s s₁ ∧ ((s.nodes p).getdataRequests = [] → Contained p s s₁) :=
    fun h => ⟨(hcheck.trans h).quiet, fun _ => (hcheck.trans h).contained p⟩
  by_cases hdone : (s₀.nodes p).fSuccessfullyConnected = true
  swap
  · cases (if_pos hdone).symm.trans heq
    exact hall (refl _)
  rw [if_neg (not_not.mpr hdone)] at heq
  cases msg with
  | inv vInv => exact hall (processInv heq)
  | getData vInv =>
    dsimp only at heq
    split_ifs at heq with hlen
    · cases heq
      exact hall (modifyNode _ p (.of_txRelay rfl rfl rfl rfl rfl))
    · have hqueue : Quiet False s₀ (s₀.queueGetData p vInv) :=
        .modifyNode s₀ p fun _ => .of_txRelay rfl rfl rfl
      have hrest : Served False _ s' := processGetData heq
      refine ⟨(hcheck.quiet.trans hqueue).trans hrest.quiet, fun hempty => ?_⟩
      exact ((hcheck.contained p).trans (queueGetData s₀ p hlen (hrequests.trans hempty))).trans
        (hrest.contained p)
  | _ => cases hmsg

end Served
end PeerManager
end Vexta
