import Mathlib.Data.Set.Card
import Vexta.Net.Stem

/-! What a node keeps for a peer while it reads inventories and requests of that peer. -/
namespace Vexta
open Lib List CNode

variable {X : Crypto}

namespace PeerManager
namespace Contained
variable {p : NodeId} {s s' s'' : PeerManager X}

theorem processMessages {E : NetEnv X} {now : ℤ} {chance : Chance} {sent : List Sent}
    (hmsgs : ∀ msg ∈ (s.nodes p).vProcessMsg, msg.isInventory = true)
    (heq : s.processMessages E p now chance = .ok (s', sent)) :
    Contained p s s' ∧ ∀ msg ∈ (s'.nodes p).vProcessMsg, msg.isInventory = true := by
  obtain ⟨⟨s₁, sent₁⟩, hpending, hrest⟩ := bind_eq_ok.mp heq
  have hserved : Served False s s₁ := .processPending hpending
  have hfirst := hserved.contained p
  have hkept := (hserved.quiet.nodes p).messages
  rw [← hkept] at hmsgs
  dsimp only at hrest
  by_cases htakes : (s₁.nodes p).takesMessage = true
  swap
  · cases (if_neg htakes).symm.trans hrest
    exact ⟨hfirst, hmsgs⟩
  rw [if_pos htakes] at hrest
  cases hmsg : (s₁.nodes p).vProcessMsg with
  | nil =>
    rw [hmsg] at hrest
    cases hrest
    exact ⟨hfirst, hmsgs⟩
  | cons msg rest =>
    rw [hmsg] at hrest
    obtain ⟨⟨s₂, sent₂⟩, hmessage, hend⟩ := bind_eq_ok.mp hrest
    cases hend
    rw [hmsg] at hmsgs
    have hinventory : msg.isInventory = true := hmsgs msg mem_cons_self
    have hempty : (s₁.nodes p).getdataRequests = [] := by
      unfold takesMessage at htakes
      simp only [Bool.and_eq_true, List.isEmpty_iff] at htakes
      exact htakes.1.1.2
    have hpop : Contained p s₁ (s₁.modifyNode p fun node => { node with vProcessMsg := rest }) :=
      modifyNode s₁ p (.of_txRelay rfl rfl rfl)
    obtain ⟨hquiet, hcontained⟩ := Served.processMessage hinventory hmessage
    constructor
    · refine (hfirst.trans hpop).trans (hcontained ?_)
      rw [modifyNode_self]
      exact hempty
    · rw [(hquiet.nodes p).messages, modifyNode_self]
      exact fun msg' hmem => hmsgs msg' (mem_cons_of_mem msg hmem)

end Contained

variable {E : NetEnv X} {p : NodeId} {s s' : PeerManager X}

variable {sent : List Sent} {events : List (NetEvent X)}

theorem Contained.sendMessages {now : ℤ} {chance : Chance}
    (heq : s.sendMessages E p now chance = .ok (s', sent)) : Contained p s s' := by
  rcases sendMessages_cases heq with rfl | ⟨relay, g, hrelay, hall, rfl⟩
  · exact refl _
  have hrelay' : ∀ relay', (s.nodes p).txRelay = some relay' → relay' = relay := by
    intro relay' h
    rw [hrelay] at h
    exact (Option.some.inj h).symm
  have hlighter : CNode.Lighter (s.nodes p) { (s.nodes p).mapRelay (fun _ => g.relay) with
      recentlyAnnouncedInvs := g.recentlyAnnouncedInvs } := by
    have hmap : CNode.Lighter (s.nodes p) ((s.nodes p).mapRelay fun _ => g.relay) :=
      .mapRelay (fun relay h => by rw [hrelay' relay h]; exact hall.txs)
        (fun relay h => by rw [hrelay' relay h]; exact hall.other)
        (fun relay h => by rw [hrelay' relay h]; exact hall.dandelion)
    exact ⟨hmap.permissions, hmap.requests, hmap.toSend⟩
  refine of_nodes ?_ hall.txRequest hall.embargo hall.orphans
  rw [setNode_self]
  exact hlighter

def InventoryEvent (p : NodeId) : NetEvent X → Prop
  | .receive q msg => q = p ∧ msg.isInventory = true
  | .process q _ _ => q = p
  | .send q _ _ => q = p
  | .pauseSend q _ => q = p
  | _ => False

theorem step_contained {event : NetEvent X} (hevent : InventoryEvent p event)
    (hmsgs : ∀ msg ∈ (s.nodes p).vProcessMsg, msg.isInventory = true)
    (hsend : ∀ q, (s.nodes q).dandelionToSend = []) (heq : s.step E event = .ok (s', sent)) :
    Contained p s s' ∧ ∀ msg ∈ (s'.nodes p).vProcessMsg, msg.isInventory = true := by
  cases event with
  | receive q msg =>
    obtain ⟨rfl, hmsg⟩ := hevent
    cases heq
    refine ⟨.modifyNode s q (.of_txRelay rfl rfl rfl), fun msg' hmem => ?_⟩
    rw [modifyNode_self] at hmem
    rcases mem_append.mp hmem with hold | hnew
    · exact hmsgs msg' hold
    · rw [mem_singleton.mp hnew]
      exact hmsg
  | process q now chance =>
    obtain rfl : q = p := hevent
    exact Contained.processMessages hmsgs heq
  | send q now chance =>
    obtain rfl : q = p := hevent
    refine ⟨.sendMessages heq, ?_⟩
    rw [(NodesKept.sendMessages (hsend q) heq q).messages]
    exact hmsgs
  | pauseSend q fPauseSend =>
    obtain rfl : q = p := hevent
    cases heq
    refine ⟨.modifyNode s q (.of_txRelay rfl rfl rfl), ?_⟩
    rw [modifyNode_self]
    exact hmsgs
  | _ => exact hevent.elim

theorem run_contained (hevents : ∀ event ∈ events, InventoryEvent p event)
    (hmsgs : ∀ msg ∈ (s.nodes p).vProcessMsg, msg.isInventory = true)
    (hsend : ∀ q, (s.nodes q).dandelionToSend = []) (hrun : s.run E events = .ok (s', sent)) :
    Contained p s s' := by
  induction events generalizing s sent with
  | nil =>
    cases hrun
    exact .refl _
  | cons event events ih =>
    obtain ⟨⟨s₁, sent₁⟩, hstep, hrest⟩ := bind_eq_ok.mp hrun
    obtain ⟨⟨s₂, sent₂⟩, hrun', hend⟩ := bind_eq_ok.mp hrest
    cases hend
    obtain ⟨hcontained, hmsgs₁⟩ :=
      step_contained (hevents event mem_cons_self) hmsgs hsend hstep
    exact hcontained.trans (ih (fun e he => hevents e (mem_cons_of_mem event he)) hmsgs₁
      (step_reads hsend hstep).1 hrun')

theorem run_toSend (hsend : ∀ q, (s.nodes q).dandelionToSend = [])
    (hrun : s.run E events = .ok (s', sent)) : ∀ q, (s'.nodes q).dandelionToSend = [] := by
  induction events generalizing s sent with
  | nil =>
    cases hrun
    exact hsend
  | cons event events ih =>
    obtain ⟨⟨s₁, sent₁⟩, hstep, hrest⟩ := bind_eq_ok.mp hrun
    obtain ⟨⟨s₂, sent₂⟩, hrun', hend⟩ := bind_eq_ok.mp hrest
    cases hend
    exact ih (step_reads hsend hstep).1 hrun'

def dandelionHashes (E : NetEnv X) (s : PeerManager X) (p : NodeId) (events : List (NetEvent X)) :
    Set Uint256 :=
  { h | h ∈ (s.nodes p).dandelionKnown ∨ AnnouncedBy E s events p h }

/-- Along the messages of a peer without the relay permission every container of inventories stays
within its limit when the peer names not too many Dandelion hashes; no peer may name more. -/
theorem footprint_within_of_hashes {mempool : TxPool X} {before events : List (NetEvent X)}
    {sent₀ sent : List Sent} (known : ℕ) (hs : (start mempool).run E before = .ok (s, sent₀))
    (hmsgs : ∀ msg ∈ (s.nodes p).vProcessMsg, msg.isInventory = true)
    (hevents : ∀ event ∈ events, InventoryEvent p event)
    (hrun : s.run E events = .ok (s', sent)) :
    ((s.nodes p).permissions.relay = false → (dandelionHashes E s p events).ncard ≤ known →
      (s'.footprint p).Within (s.limits p known)) ∧
    ((s'.footprint p).Within (s.limits p known) →
      (dandelionHashes E s p events).ncard ≤ known) := by
  have hsend : ∀ q, (s.nodes q).dandelionToSend = [] := run_toSend (fun _ => rfl) hs
  have hcontained := run_contained hevents hmsgs hsend hrun
  have hno : ∀ event ∈ events, ¬ Connects p event := by
    intro event hmem
    have hevent := hevents event hmem
    cases event <;> first | exact hevent.elim | exact fun h => h
  have hhashes : dandelionHashes E s p events = ↑(s'.nodes p).dandelionKnown.toFinset := by
    ext h
    rw [coe_toFinset, Set.mem_ofPred_eq, run_reads hsend hrun p h]
    unfold dandelionHashes
    rw [Set.mem_ofPred_eq]
    tauto
  rw [hhashes, Set.ncard_coe_finset]
  refine ⟨fun hrelay hknown => ⟨hknown, hcontained.announced hrelay, hcontained.requests, ?_⟩,
    fun hwithin => hwithin.known⟩
  have hwaiting := hcontained.waiting
  unfold waiting at hwaiting
  change (s'.nodes p).toSend ≤ (s.nodes p).toSend + s.mDandelionEmbargo.keys.length +
    s.orphans.keys.length
  omega

def announcements (p : NodeId) (chance : Chance) : List Uint256 → List (NetEvent X)
  | [] => []
  | h :: hashes => .receive p (.inv [⟨msgDandelionTx, h⟩]) :: .process p 0 chance ::
      announcements p chance hashes

theorem announcements_events (p : NodeId) (chance : Chance) (hashes : List Uint256) :
    ∀ event ∈ (announcements p chance hashes : List (NetEvent X)), InventoryEvent p event := by
  induction hashes with
  | nil =>
    intro event hmem
    cases hmem
  | cons h hashes ih =>
    intro event hmem
    rcases mem_cons.mp hmem with rfl | hmem
    · exact ⟨rfl, rfl⟩
    rcases mem_cons.mp hmem with rfl | hmem
    · exact rfl
    · exact ih event hmem

theorem exists_hashes {n : ℕ} (hn : n ≤ 2 ^ 256) :
    ∃ hashes : List Uint256, hashes.toFinset.card = n := by
  refine ⟨(List.range n).map (BitVec.ofNat 256), ?_⟩
  have hinj : ∀ a ∈ List.range n, ∀ b ∈ List.range n,
      BitVec.ofNat 256 a = BitVec.ofNat 256 b → a = b := by
    intro a ha b hb hab
    rw [mem_range] at ha hb
    have hval := congrArg BitVec.toNat hab
    rw [BitVec.toNat_ofNat, BitVec.toNat_ofNat, Nat.mod_eq_of_lt (by omega),
      Nat.mod_eq_of_lt (by omega)] at hval
    exact hval
  rw [toFinset_card_of_nodup (nodup_range.map_on hinj), length_map,
    length_range]

def joining : List (NetEvent acceptingCrypto) :=
  [.connect 0 .inbound ⟨false, false, false, false⟩ false, .handshake 0 true true]

def joined : PeerManager acceptingCrypto :=
  ((start .empty).setNode 0 (new .inbound ⟨false, false, false, false⟩ false)).modifyNode 0
    fun node =>
      { node.mapRelay fun relay => { relay with fRelayTxes := true } with
        fSuccessfullyConnected := true
        wtxidRelay := true }

theorem run_joining : (start .empty).run (acceptingEnv acceptingCrypto) joining =
    .ok (joined, []) := rfl

/-- The node after the peer has announced the hashes. -/
def reading (known : List Uint256) (nodes : NodeId → CNode) : PeerManager acceptingCrypto :=
  { joined with nodes := Function.update nodes 0 ((joined.nodes 0).mapRelay fun relay =>
      { relay with setDandelionInventoryKnown := known }) }

theorem run_announcements (hashes known : List Uint256) (nodes : NodeId → CNode) :
    ∃ nodes' sent, (reading known nodes).run (acceptingEnv acceptingCrypto)
      (announcements 0 sampleChance hashes) =
        .ok (reading (hashes.reverse ++ known) nodes', sent) := by
  induction hashes generalizing known nodes with
  | nil => exact ⟨nodes, [], rfl⟩
  | cons h hashes ih =>
    have hstep : ∃ s₁ nodes₁ sent₁,
        (reading known nodes).step (acceptingEnv acceptingCrypto)
          (.receive 0 (.inv [⟨msgDandelionTx, h⟩])) = .ok (s₁, []) ∧
        s₁.step (acceptingEnv acceptingCrypto) (.process 0 0 sampleChance) =
          .ok (reading (h :: known) nodes₁, sent₁) := ⟨_, _, _, rfl, rfl⟩
    obtain ⟨s₁, nodes₁, sent₁, hreceive, hprocess⟩ := hstep
    obtain ⟨nodes₂, sent₂, hrun⟩ := ih (h :: known) nodes₁
    refine ⟨nodes₂, [] ++ (sent₁ ++ sent₂), ?_⟩
    rw [announcements, run, hreceive, ok_bind]
    dsimp only
    rw [run, hprocess, ok_bind]
    dsimp only
    rw [hrun, ok_bind, ok_bind, reverse_cons, append_assoc, singleton_append]

/-- No bound below the number of all hashes holds for a peer. -/
theorem footprint_unbounded : ¬ ∃ bound < 2 ^ 256, ∀ events s' sent,
    (∀ event ∈ events, InventoryEvent 0 event) →
    joined.run (acceptingEnv acceptingCrypto) events = .ok (s', sent) →
    (s'.footprint 0).total ≤ bound := by
  rintro ⟨bound, hbound, hall⟩
  obtain ⟨hashes, hcard⟩ := exists_hashes (Nat.succ_le_of_lt hbound)
  obtain ⟨nodes, hstart⟩ : ∃ nodes, joined = reading [] nodes := ⟨_, rfl⟩
  obtain ⟨nodes', sent, hrun⟩ := run_announcements hashes [] nodes
  rw [← hstart] at hrun
  have htotal := hall _ _ sent (announcements_events 0 sampleChance hashes) hrun
  have hsize : ((reading (hashes.reverse ++ []) nodes').footprint 0).known = bound + 1 := by
    change (hashes.reverse ++ []).toFinset.card = _
    rw [append_nil, toFinset_reverse]
    exact hcard
  unfold Footprint.total at htotal
  omega

/-- A peer names two Dandelion hashes, one of them twice, within a limit of two. -/
theorem footprint_within_two : ∃ s' sent, joined.run (acceptingEnv acceptingCrypto)
      (announcements 0 sampleChance [5, 6, 5]) = .ok (s', sent) ∧
    (s'.footprint 0).Within (joined.limits 0 2) ∧
    (dandelionHashes (acceptingEnv acceptingCrypto) joined 0
      (announcements 0 sampleChance [5, 6, 5])).ncard ≤ 2 := by
  have hrun : ∃ s' sent, joined.run (acceptingEnv acceptingCrypto)
      (announcements 0 sampleChance [5, 6, 5]) = .ok (s', sent) ∧
      s'.footprint 0 = ⟨2, 0, 0, 0⟩ := ⟨_, _, rfl, rfl⟩
  obtain ⟨s', sent, hrun, hfootprint⟩ := hrun
  have hwithin := footprint_within_of_hashes 2 run_joining (fun msg hmem => by cases hmem)
    (announcements_events 0 sampleChance [5, 6, 5]) hrun
  have hcard := hwithin.2 (by
    rw [hfootprint]
    exact ⟨le_refl _, Nat.zero_le _, Nat.zero_le _, Nat.zero_le _⟩)
  exact ⟨s', sent, hrun, hwithin.1 rfl hcard, hcard⟩

end PeerManager
end Vexta
