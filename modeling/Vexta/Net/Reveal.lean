import Vexta.Net.Hidden

/-! When the answers of a node to a peer depend on a transaction of the stem pool. -/
namespace Vexta
open Lib List Option Bool

variable {X : Crypto}

def Sent.isNotFound : Sent → Bool
  | .notFound _ => true
  | _ => false

namespace PeerManager

def announced (p : NodeId) (hashes : List Uint256) (s : PeerManager X) : PeerManager X :=
  s.modifyNode p fun node =>
    { node with recentlyAnnouncedInvs := hashes ++ node.recentlyAnnouncedInvs }

section loop
variable {h : Uint256} {s : PeerManager X} {p : NodeId} {now : ℤ} {inv : CInv} {relay : TxRelay}

theorem announced_nil : s.announced p [] = s := by
  have hnodes := Function.update_eq_self p s.nodes
  change { s with nodes := Function.update s.nodes p (s.nodes p) } = s
  rw [hnodes]

theorem announced_announced (hashes hashes' : List Uint256) :
    (s.announced p hashes).announced p hashes' = s.announced p (hashes' ++ hashes) := by
  unfold announced modifyNode setNode
  dsimp only
  rw [Function.update_self, Function.update_idem, append_assoc]

theorem announced_node (hashes : List Uint256) : (s.announced p hashes).nodes p =
    { s.nodes p with recentlyAnnouncedInvs := hashes ++ (s.nodes p).recentlyAnnouncedInvs } :=
  modifyNode_self ..

theorem announceParents_announced (s : PeerManager X) (p : NodeId) (relay : TxRelay)
    (tx : CTransaction) (now : ℤ) :
    ∃ hashes, s.announceParents p relay tx now = s.announced p hashes := by
  unfold announceParents
  cases s.mempool.mapTx.lookup (tx.getHash X) with
  | none => exact ⟨[], announced_nil.symm⟩
  | some entry => exact ⟨_, rfl⟩

theorem getDataItem_announced (now : ℤ) (inv : CInv)
    (hrelay : (s.nodes p).txRelay = some relay) :
    ∃ hashes sent, s.getDataItem p now inv = .ok (s.announced p hashes, sent) ∧
      ∀ x ∈ sent, x.isNotFound = false := by
  unfold getDataItem
  split_ifs
  · rw [getDataDandelion_eq hrelay]
    refine ⟨[], _, by rw [announced_nil]; rfl, ?_⟩
    intro x hx
    by_cases hembargo : s.isTxDandelionEmbargoed inv.hash now = true
    · cases (if_pos hembargo).symm.trans hx
    · rw [if_neg hembargo] at hx
      obtain ⟨entry, -, hx'⟩ := bind_eq_some_iff.mp hx
      by_cases hknown : inv.hash ∈ relay.setDandelionInventoryKnown
      · rw [if_pos hknown] at hx'
        cases hx'
        rfl
      · rw [if_neg hknown] at hx'
        cases hx'
  · rw [getDataTx_eq hrelay]
    cases s.findTxForGetData p inv.toGenTxid (s.nodes p).mempoolReq now with
    | none =>
      refine ⟨[], none, by rw [announced_nil], ?_⟩
      intro x hx
      cases hx
    | some tx =>
      dsimp only
      obtain ⟨hashes, hparents⟩ :=
        s.announceParents_announced p relay (s.getDataCopy p relay inv tx).1 now
      rw [hparents]
      refine ⟨hashes, _, rfl, ?_⟩
      intro x hx
      split_ifs at hx <;> cases hx <;> rfl

structure LoopSpec (s : PeerManager X) (p : NodeId) (queue : List CInv) (l : GetDataLoop X) :
    Prop where
  announced : ∃ hashes, l.s = s.announced p hashes
  sent : ∀ x ∈ l.sent, x.isNotFound = false
  length : l.sent.length + l.vNotFound.length + l.queue.length = queue.length
  queue : l.queue = if (s.nodes p).fPauseSend then queue
    else queue.dropWhile fun inv => inv.isGenTxMsg || inv.isDandelionMsg

theorem getDataLoop_spec (now : ℤ) (hrelay : (s.nodes p).txRelay = some relay)
    (queue : List CInv) :
    ∃ l, getDataLoop p now queue s = .ok l ∧ LoopSpec s p queue l := by
  induction queue generalizing s with
  | nil =>
    refine ⟨_, rfl, ⟨[], announced_nil.symm⟩, fun x hx => (by cases hx), rfl, ?_⟩
    split_ifs <;> rfl
  | cons inv queue ih =>
    rw [getDataLoop]
    by_cases hstop : ¬ (inv.isGenTxMsg || inv.isDandelionMsg) = true ∨ (s.nodes p).fPauseSend = true
    · rw [if_pos hstop]
      refine ⟨_, rfl, ⟨[], announced_nil.symm⟩, fun x hx => (by cases hx), Nat.zero_add _, ?_⟩
      by_cases hpause : (s.nodes p).fPauseSend = true
      · rw [if_pos hpause]
      · rw [if_neg hpause, dropWhile_cons, if_neg (hstop.resolve_right hpause)]
    have hsome : ¬ (s.nodes p).txRelay.isNone = true := by
      rw [hrelay]
      exact false_ne_true
    obtain ⟨hgoes, hpause⟩ := not_or.mp hstop
    obtain ⟨hashes, sent, hitem, hsent⟩ := getDataItem_announced now inv hrelay
    obtain ⟨l, hl, ⟨hashes', hl'⟩, hsent', hlength, hqueue⟩ :=
      ih (s := s.announced p hashes) (by rw [announced_node]; exact hrelay)
    rw [if_neg hstop, if_neg hsome, hitem, ok_bind]
    dsimp only
    rw [hl, ok_bind]
    refine ⟨_, rfl, ?_, ?_, ?_, ?_⟩
    · exact ⟨hashes' ++ hashes, by rw [← announced_announced]; exact hl'⟩
    · intro x hx
      rcases mem_append.mp hx with hx | hx
      · exact hsent x (mem_toList.mp hx)
      · exact hsent' x hx
    · cases sent <;> simp <;> omega
    · rw [announced_node] at hqueue
      rw [if_neg hpause] at hqueue ⊢
      rw [dropWhile_cons, if_pos (not_not.mp hgoes)]
      exact hqueue

theorem findTxForGetData_announced {gtxid : GenTxid} {mempoolReq : ℤ}
    (hfound : (s.findTxForGetData p gtxid mempoolReq now).isSome) (hashes : List Uint256) :
    ((s.announced p hashes).findTxForGetData p gtxid mempoolReq now).isSome := by
  have hpool : (s.announced p hashes).mempool = s.mempool := rfl
  have hmap : (s.announced p hashes).mapRelay = s.mapRelay := rfl
  have hrecent : gtxid.hash ∈ (s.nodes p).recentlyAnnouncedInvs →
      gtxid.hash ∈ ((s.announced p hashes).nodes p).recentlyAnnouncedInvs := by
    intro hmem
    rw [announced_node]
    exact mem_append_right _ hmem
  unfold findTxForGetData at hfound ⊢
  dsimp only at hfound ⊢
  rw [hpool, hmap]
  cases hinfo : s.mempool.info gtxid with
  | none =>
    rw [hinfo] at hfound
    dsimp only at hfound ⊢
    by_cases hmem : gtxid.hash ∈ (s.nodes p).recentlyAnnouncedInvs
    · rw [if_pos hmem] at hfound
      rw [if_pos (hrecent hmem)]
      exact hfound
    · rw [if_neg hmem] at hfound
      cases hfound
  | some entry =>
    rw [hinfo] at hfound
    dsimp only at hfound ⊢
    by_cases hserve : (mempoolReq ≠ 0 ∧ entry.time ≤ mempoolReq) ∨
        entry.time ≤ seconds now - unconditionalRelayDelay ∨
        gtxid.hash ∈ (s.nodes p).recentlyAnnouncedInvs
    · rw [if_pos (hserve.imp_right (.imp_right hrecent))]
      rfl
    · rw [if_neg hserve] at hfound
      cases hfound

theorem UsesStem.announced (huse : UsesStem h s p now inv) (hashes : List Uint256) :
    UsesStem h (s.announced p hashes) p now inv := by
  have hnode := announced_node (s := s) (p := p) hashes
  constructor
  · exact huse.hash
  · rw [hnode]
    exact huse.known
  · exact huse.dandelion
  · intro htype
    obtain ⟨hsupports, hinbound, hfound⟩ := huse.ordinary htype
    have hreq : ((s.announced p hashes).nodes p).mempoolReq = (s.nodes p).mempoolReq := by
      rw [hnode]
      rfl
    rw [hreq, hnode]
    exact ⟨hsupports, hinbound, findTxForGetData_announced hfound hashes⟩

theorem UsesStem.sends (huse : UsesStem h s p now inv)
    (hstem : (s.stempool.mapTx.lookup h).isSome) :
    ∃ s' x, s.getDataItem p now inv = .ok (s', some x) := by
  obtain ⟨relay, hrelay, hknown⟩ := huse.known
  obtain ⟨entry, hentry⟩ := isSome_iff_exists.mp hstem
  unfold getDataItem
  cases htype : inv.isDandelionMsg with
  | true =>
    rw [if_pos rfl, getDataDandelion_eq hrelay, huse.hash, huse.dandelion htype, hentry,
      if_neg Bool.false_ne_true, bind_some, if_pos hknown]
    exact ⟨_, _, rfl⟩
  | false =>
    obtain ⟨hsupports, hinbound, hfound⟩ := huse.ordinary htype
    obtain ⟨tx, htx⟩ := isSome_iff_exists.mp hfound
    have hcopy : s.getDataCopy p relay inv tx = (entry.tx, true) := by
      unfold getDataCopy
      rw [if_pos ⟨by rw [hsupports]; exact Bool.false_ne_true, hinbound, huse.hash ▸ hknown⟩,
        TxPool.info_txid, huse.hash, hentry]
    rw [if_neg Bool.false_ne_true, getDataTx_eq hrelay, htx]
    dsimp only
    rw [hcopy]
    exact ⟨_, _, rfl⟩

theorem UsesStem.notFound (huse : UsesStem h s p now inv) :
    ∃ s', (s.forget h).getDataItem p now inv = .ok (s', none) := by
  obtain ⟨relay, hrelay, hknown⟩ := huse.known
  have hrelay' : ((s.forget h).nodes p).txRelay = some relay := hrelay
  unfold getDataItem
  cases htype : inv.isDandelionMsg with
  | true =>
    rw [if_pos rfl, getDataDandelion_eq hrelay', huse.hash, forget_lookup_self, bind_none,
      ite_self]
    exact ⟨_, rfl⟩
  | false =>
    obtain ⟨hsupports, hinbound, hfound⟩ := huse.ordinary htype
    obtain ⟨tx, htx⟩ := isSome_iff_exists.mp hfound
    have htx' : (s.forget h).findTxForGetData p inv.toGenTxid ((s.forget h).nodes p).mempoolReq now =
        some tx := htx
    have hcopy : (s.forget h).getDataCopy p relay inv tx = (tx, false) := by
      unfold getDataCopy
      rw [if_pos ⟨(by
          change ¬ (s.nodes p).fSupportsDandelion = true
          rw [hsupports]
          exact Bool.false_ne_true), hinbound, huse.hash ▸ hknown⟩,
        TxPool.info_txid, huse.hash, forget_lookup_self]
    rw [if_neg Bool.false_ne_true, getDataTx_eq hrelay', htx']
    dsimp only
    rw [hcopy]
    exact ⟨_, rfl⟩

variable {queue : List CInv}

theorem UsesStem.notMem_vNotFound (huse : UsesStem h s p now inv)
    (hstem : (s.stempool.mapTx.lookup h).isSome) {l : GetDataLoop X}
    (hl : getDataLoop p now queue s = .ok l) : inv ∉ l.vNotFound := by
  obtain ⟨relay, hrelay, hknown⟩ := huse.known
  induction queue generalizing s l with
  | nil =>
    cases hl
    exact not_mem_nil
  | cons inv' queue ih =>
    rw [getDataLoop] at hl
    have hsome : ¬ (s.nodes p).txRelay.isNone = true := by
      rw [hrelay]
      exact false_ne_true
    split_ifs at hl with hstop
    · cases hl
      exact not_mem_nil
    · obtain ⟨hashes, sent, hitem, -⟩ := getDataItem_announced now inv' hrelay
      rw [hitem, ok_bind] at hl
      obtain ⟨l', hl', heq⟩ := bind_eq_ok.mp hl
      cases heq
      have hrest := ih (huse.announced hashes) hstem hl' (by rw [announced_node]; exact hrelay)
      cases sent with
      | some x => exact hrest
      | none =>
        intro hmem
        rcases mem_cons.mp hmem with heq | hmem
        · cases heq
          obtain ⟨s', x, hsends⟩ := huse.sends hstem
          cases hitem.symm.trans hsends
        · exact hrest hmem

def LoopReveals (h : Uint256) (p : NodeId) (now : ℤ) : List CInv → PeerManager X → Prop
  | [], _ => False
  | inv :: queue, s =>
    (inv.isGenTxMsg || inv.isDandelionMsg) = true ∧ (s.nodes p).fPauseSend = false ∧
      (s.nodes p).txRelay.isSome ∧ (UsesStem h s p now inv ∨
        ∃ s' sent, s.getDataItem p now inv = .ok (s', sent) ∧ LoopReveals h p now queue s')

theorem LoopReveals.isSome (hrev : LoopReveals h p now queue s) : (s.nodes p).txRelay.isSome := by
  cases queue with
  | nil => cases hrev
  | cons inv queue => exact hrev.2.2.1

def forgetLoop (h : Uint256) (l : GetDataLoop X) : GetDataLoop X := { l with s := l.s.forget h }

theorem forget_getDataLoop (hrev : ¬ LoopReveals h p now queue s) :
    getDataLoop p now queue (s.forget h) = forgetLoop h <$> getDataLoop p now queue s := by
  induction queue generalizing s with
  | nil => rfl
  | cons inv queue ih =>
    rw [getDataLoop, getDataLoop, forget_nodes]
    split_ifs with hstop hnone
    · rfl
    · apply ih
      intro hrev'
      have hsome := hrev'.isSome
      rw [isNone_iff_eq_none.mp hnone] at hsome
      cases hsome
    · have hsome : (s.nodes p).txRelay.isSome := by
        rwa [not_eq_true, isNone_eq_false_iff] at hnone
      obtain ⟨relay, hrelay⟩ := isSome_iff_exists.mp hsome
      obtain ⟨hgoes, hpause⟩ := not_or.mp hstop
      have hnext : ¬ (UsesStem h s p now inv ∨ ∃ s' sent,
          s.getDataItem p now inv = .ok (s', sent) ∧ LoopReveals h p now queue s') := by
        intro hnext
        exact hrev ⟨not_not.mp hgoes, eq_false_of_not_eq_true hpause, hsome, hnext⟩
      obtain ⟨huse, hrest⟩ := not_or.mp hnext
      obtain ⟨hashes, sent, hitem, -⟩ := getDataItem_announced now inv hrelay
      have hloop := ih fun hrev' => hrest ⟨_, sent, hitem, hrev'⟩
      rw [forget_getDataItem hrelay huse, hitem, ok_bind]
      change (getDataLoop p now queue ((s.announced p hashes).forget h) >>= _) = _
      rw [hloop]
      dsimp only
      cases getDataLoop p now queue (s.announced p hashes) <;> rfl

theorem getDataLoop_reveals (hrev : LoopReveals h p now queue s)
    (hstem : (s.stempool.mapTx.lookup h).isSome) :
    ∃ l l' before inv after after', getDataLoop p now queue s = .ok l ∧
      getDataLoop p now queue (s.forget h) = .ok l' ∧ l.vNotFound = before ++ after ∧
      l'.vNotFound = before ++ inv :: after' ∧ inv ∉ after := by
  induction queue generalizing s with
  | nil => cases hrev
  | cons inv queue ih =>
    obtain ⟨hgoes, hpause, hsome, hnext⟩ := hrev
    obtain ⟨relay, hrelay⟩ := isSome_iff_exists.mp hsome
    have hstop : ¬ (¬ (inv.isGenTxMsg || inv.isDandelionMsg) = true ∨
        (s.nodes p).fPauseSend = true) := by
      rw [hgoes, hpause]
      decide
    have hnone : ¬ (s.nodes p).txRelay.isNone = true := by
      rw [hrelay]
      exact false_ne_true
    obtain ⟨hashes, sent, hitem, -⟩ := getDataItem_announced now inv hrelay
    have hrelay₁ : ((s.announced p hashes).nodes p).txRelay = some relay := by
      rw [announced_node]
      exact hrelay
    rw [getDataLoop, getDataLoop, forget_nodes, if_neg hstop, if_neg hstop, if_neg hnone, if_neg hnone,
      hitem, ok_bind]
    by_cases huse : UsesStem h s p now inv
    · -- the two runs part here
      obtain ⟨s₁, x, hsends⟩ := huse.sends hstem
      cases hitem.symm.trans hsends
      obtain ⟨l, hl, -⟩ := getDataLoop_spec now hrelay₁ queue
      have hnever := (huse.announced hashes).notMem_vNotFound hstem hl
      obtain ⟨s₂, hnotFound⟩ := huse.notFound
      have hrelay₂ : (s₂.nodes p).txRelay = some relay := by
        obtain ⟨hashes', sent', hitem', -⟩ := getDataItem_announced (s := s.forget h) now inv hrelay
        rw [hnotFound] at hitem'
        cases hitem'
        rw [announced_node]
        exact hrelay
      obtain ⟨l', hl', -⟩ := getDataLoop_spec now hrelay₂ queue
      rw [hnotFound, ok_bind]
      dsimp only
      rw [hl, hl', ok_bind, ok_bind]
      exact ⟨_, _, [], inv, l.vNotFound, l'.vNotFound, rfl, rfl, rfl, rfl, hnever⟩
    · obtain ⟨s', sent', hitem', hrev'⟩ := hnext.resolve_left huse
      rw [hitem] at hitem'
      cases hitem'
      obtain ⟨l, l', before, inv', after, after', hl, hl', hafter, hafter', hnever⟩ := ih hrev' hstem
      rw [forget_getDataItem hrelay huse, hitem]
      change ∃ l l' before inv after after', (getDataLoop p now queue (s.announced p hashes) >>= _) =
        .ok l ∧ (getDataLoop p now queue ((s.announced p hashes).forget h) >>= _) = .ok l' ∧ _
      rw [hl, hl', ok_bind, ok_bind]
      dsimp only [forgetFst]
      cases sent with
      | some x =>
        exact ⟨_, _, before, inv', after, after', rfl, rfl, hafter, hafter', hnever⟩
      | none =>
        refine ⟨_, _, inv :: before, inv', after, after', rfl, rfl, ?_, ?_, hnever⟩
        · exact congrArg (List.cons inv) hafter
        · exact congrArg (List.cons inv) hafter'

end loop

def Diverges (sent sent' : List Sent) : Prop := ∀ more more', sent ++ more ≠ sent' ++ more'

variable {sent sent' : List Sent}

theorem Diverges.append (hdiv : Diverges sent sent') (more more' : List Sent) :
    Diverges (sent ++ more) (sent' ++ more') := by
  intro rest rest' heq
  rw [append_assoc, append_assoc] at heq
  exact hdiv _ _ heq

theorem Diverges.append_left (hdiv : Diverges sent sent') (before : List Sent) :
    Diverges (before ++ sent) (before ++ sent') := by
  intro rest rest' heq
  rw [append_assoc, append_assoc] at heq
  exact hdiv _ _ (append_cancel_left heq)

theorem diverges_of_vNotFound {vNotFound vNotFound' : List CInv}
    (hsent : ∀ x ∈ sent, x.isNotFound = false) (hsent' : ∀ x ∈ sent', x.isNotFound = false)
    (hne : vNotFound ≠ vNotFound') (hcons : vNotFound' ≠ [])
    (hlength : vNotFound = [] → sent'.length < sent.length) :
    Diverges (sent ++ notFoundMessage vNotFound) (sent' ++ notFoundMessage vNotFound') := by
  have hmessage' : notFoundMessage vNotFound' = [.notFound vNotFound'] := by
    cases vNotFound' with
    | nil => exact absurd rfl hcons
    | cons inv rest => rfl
  intro more more' heq
  rw [hmessage', append_assoc, append_assoc, singleton_append] at heq
  rcases append_eq_append_iff.mp heq with ⟨extra, hextra, htail⟩ | ⟨extra, hextra, htail⟩
  · cases hnil : vNotFound with
    | nil =>
      have hshort := hlength hnil
      rw [hextra, length_append] at hshort
      omega
    | cons inv rest =>
      have hmessage : notFoundMessage vNotFound = [.notFound vNotFound] := by
        rw [hnil]
        rfl
      rw [hmessage, singleton_append] at htail
      cases extra with
      | nil =>
        cases htail
        exact hne rfl
      | cons x extra =>
        cases htail
        have hx := hsent' (.notFound vNotFound) (by rw [hextra]; simp)
        cases hx
  · cases extra with
    | nil =>
      cases hnil : vNotFound with
      | nil =>
        have hshort := hlength hnil
        rw [hextra, append_nil] at hshort
        omega
      | cons inv rest =>
        have hmessage : notFoundMessage vNotFound = [.notFound vNotFound] := by
          rw [hnil]
          rfl
        rw [hmessage] at htail
        cases htail
        exact hne rfl
    | cons x extra =>
      cases htail
      have hx := hsent (.notFound vNotFound') (by rw [hextra]; simp)
      cases hx

section answers
variable (E : NetEnv X) {h : Uint256} {s : PeerManager X} {p : NodeId} {now : ℤ}

variable {sent : List Sent}

theorem blockReply_sent {node : CNode} {inv : CInv} {compact witness : Bool}
    {matched : CBloomFilter → List CTransaction}
    (heq : blockReply node inv compact witness matched = .ok sent) :
    ∀ x ∈ sent, x.isNotFound = false := by
  unfold blockReply at heq
  have hone : ∀ y : Sent, y.isNotFound = false → Except.ok [y] = (.ok sent : Except NetFault _) →
      ∀ x ∈ sent, x.isNotFound = false := by
    intro y hy heq x hx
    cases heq
    rw [mem_singleton.mp hx]
    exact hy
  split_ifs at heq with _ _ _ hsome
  · exact hone _ rfl heq
  · exact hone _ rfl heq
  · obtain ⟨relay, -, hderef⟩ := CNode.deref_ok hsome
    rw [hderef, ok_bind] at heq
    cases hfilter : relay.pfilter with
    | none =>
      rw [hfilter] at heq
      cases heq
      intro x hx
      cases hx
    | some filter =>
      rw [hfilter] at heq
      cases heq
      intro x hx
      rcases mem_cons.mp hx with rfl | hx
      · rfl
      · obtain ⟨tx, -, rfl⟩ := mem_map.mp hx
        rfl
  · cases heq
    intro x hx
    cases hx
  · exact hone _ rfl heq
  · exact hone _ rfl heq

theorem processGetBlockData_sent {inv : CInv} {s' : PeerManager X}
    (heq : s.processGetBlockData E p inv = .ok (s', sent)) : ∀ x ∈ sent, x.isNotFound = false := by
  unfold processGetBlockData at heq
  cases hanswer : E.blockAnswer p inv with
  | ignored =>
    rw [hanswer] at heq
    cases heq
    intro x hx
    cases hx
  | disconnect =>
    rw [hanswer] at heq
    cases heq
    intro x hx
    cases hx
  | found compact witness matched =>
    rw [hanswer] at heq
    obtain ⟨reply, hreply, hrest⟩ := bind_eq_ok.mp heq
    have hclean := blockReply_sent hreply
    split_ifs at hrest
    · cases hrest
      intro x hx
      rcases mem_append.mp hx with hx | hx
      · exact hclean x hx
      · rw [mem_singleton.mp hx]
        rfl
    · cases hrest
      exact hclean

theorem getDataBlock_sent {queue rest : List CInv} {s' : PeerManager X}
    (heq : s.getDataBlock E p queue = .ok (s', sent, rest)) : ∀ x ∈ sent, x.isNotFound = false := by
  cases queue with
  | nil =>
    cases heq
    intro x hx
    cases hx
  | cons inv queue =>
    rw [getDataBlock] at heq
    split_ifs at heq
    · cases heq
      intro x hx
      cases hx
    · obtain ⟨⟨s₁, sent₁⟩, hblock, hrest⟩ := bind_eq_ok.mp heq
      cases hrest
      exact processGetBlockData_sent E hblock
    · cases heq
      intro x hx
      cases hx

theorem forget_processGetBlockData (inv : CInv) :
    (s.forget h).processGetBlockData E p inv =
      forgetFst h <$> s.processGetBlockData E p inv := by
  unfold processGetBlockData
  rw [forget_nodes]
  cases E.blockAnswer p inv with
  | ignored => rfl
  | disconnect => rfl
  | found compact witness matched =>
    dsimp only
    cases blockReply (s.nodes p) inv compact witness matched with
    | error fault => rfl
    | ok sent =>
      rw [ok_bind, ok_bind]
      split_ifs <;> rfl

theorem forget_getDataBlock (queue : List CInv) :
    (s.forget h).getDataBlock E p queue = forgetFst h <$> s.getDataBlock E p queue := by
  cases queue with
  | nil => rfl
  | cons inv queue =>
    rw [getDataBlock, getDataBlock, forget_nodes, forget_processGetBlockData]
    split_ifs
    · rfl
    · cases s.processGetBlockData E p inv <;> rfl
    · rfl

theorem getDataBlock_announced (hashes : List Uint256) (queue : List CInv) :
    Prod.snd <$> (s.announced p hashes).getDataBlock E p queue =
      Prod.snd <$> s.getDataBlock E p queue := by
  cases queue with
  | nil => rfl
  | cons inv queue =>
    rw [getDataBlock, getDataBlock, announced_node]
    dsimp only
    split_ifs
    · rfl
    · have hdata : Prod.snd <$> (s.announced p hashes).processGetBlockData E p inv =
          Prod.snd <$> s.processGetBlockData E p inv := by
        unfold processGetBlockData
        rw [announced_node]
        cases E.blockAnswer p inv with
        | ignored => rfl
        | disconnect => rfl
        | found compact witness matched =>
          have hreply : blockReply { s.nodes p with
              recentlyAnnouncedInvs := hashes ++ (s.nodes p).recentlyAnnouncedInvs } inv compact
              witness matched = blockReply (s.nodes p) inv compact witness matched := rfl
          dsimp only
          rw [hreply]
          cases blockReply (s.nodes p) inv compact witness matched with
          | error fault => rfl
          | ok sent =>
            rw [ok_bind, ok_bind]
            split_ifs <;> rfl
      obtain ⟨⟨s₁, sent₁⟩, hblock₁⟩ := (s.announced p hashes).processGetBlockData_ok E p inv
      obtain ⟨⟨s₂, sent₂⟩, hblock₂⟩ := s.processGetBlockData_ok E p inv
      rw [hblock₁, hblock₂] at hdata ⊢
      have hsent : sent₁ = sent₂ := Except.ok.inj hdata
      rw [hsent]
      rfl
    · rfl

theorem forget_processGetData (hrev : ¬ LoopReveals h p now (s.nodes p).getdataRequests s) :
    (s.forget h).processGetData E p now = forgetFst h <$> s.processGetData E p now := by
  unfold processGetData
  rw [forget_nodes, forget_getDataLoop hrev]
  cases getDataLoop p now (s.nodes p).getdataRequests s with
  | error fault => rfl
  | ok l =>
    change ((l.s.forget h).getDataBlock E p l.queue >>= _) = _
    rw [forget_getDataBlock, ok_bind]
    cases l.s.getDataBlock E p l.queue <;> rfl

theorem processGetData_reveals (hrev : LoopReveals h p now (s.nodes p).getdataRequests s)
    (hstem : (s.stempool.mapTx.lookup h).isSome) :
    ∃ r r', s.processGetData E p now = .ok r ∧ (s.forget h).processGetData E p now = .ok r' ∧
      Diverges r.2 r'.2 := by
  obtain ⟨relay, hrelay⟩ := isSome_iff_exists.mp hrev.isSome
  have hrelay' : ((s.forget h).nodes p).txRelay = some relay := hrelay
  obtain ⟨l, l', before, inv, after, after', hl, hl', hafter, hafter', hnever⟩ :=
    getDataLoop_reveals hrev hstem
  obtain ⟨l₁, hl₁, hspec⟩ := getDataLoop_spec now hrelay (s.nodes p).getdataRequests
  obtain ⟨l₂, hl₂, hspec'⟩ := getDataLoop_spec now hrelay' (s.nodes p).getdataRequests
  rw [hl] at hl₁
  rw [hl'] at hl₂
  cases hl₁
  cases hl₂
  obtain ⟨hashes, hs⟩ := hspec.announced
  obtain ⟨hashes', hs'⟩ := hspec'.announced
  have hqueue : l'.queue = l.queue := hspec'.queue.trans hspec.queue.symm
  -- the same block is sent, if one is asked for
  obtain ⟨⟨s₁, blocks, queue₁⟩, hblock⟩ := l.s.getDataBlock_ok E p l.queue
  obtain ⟨⟨s₂, blocks', queue₂⟩, hblock'⟩ := l'.s.getDataBlock_ok E p l'.queue
  have hsame : (blocks, queue₁) = (blocks', queue₂) := by
    have h₁ := getDataBlock_announced E (s := s) (p := p) hashes l.queue
    have h₂ := getDataBlock_announced E (s := s.forget h) (p := p) hashes' l.queue
    rw [← hs, hblock] at h₁
    rw [← hs', ← hqueue, hblock', hqueue, forget_getDataBlock] at h₂
    obtain ⟨⟨s₀, rest₀⟩, hbase⟩ := s.getDataBlock_ok E p l.queue
    rw [hbase] at h₁ h₂
    exact (Except.ok.inj h₁).trans (Except.ok.inj h₂).symm
  cases hsame
  refine ⟨_, _, by rw [processGetData, hl, ok_bind, hblock]; rfl,
    by rw [processGetData, forget_nodes, hl', ok_bind, hblock']; rfl, ?_⟩
  have hclean := getDataBlock_sent E hblock
  have hlength := hspec.length
  have hlength' := hspec'.length
  rw [hqueue] at hlength'
  have hlonger : l'.vNotFound.length = before.length + after'.length + 1 := by
    rw [hafter', length_append, length_cons]
    omega
  apply diverges_of_vNotFound
  · intro x hx
    exact (mem_append.mp hx).elim (hspec.sent x) (hclean x)
  · intro x hx
    exact (mem_append.mp hx).elim (hspec'.sent x) (hclean x)
  · intro heq
    rw [hafter, hafter'] at heq
    rw [append_cancel_left heq] at hnever
    exact hnever mem_cons_self
  · rw [hafter']
    exact append_ne_nil_of_right_ne_nil _ (cons_ne_nil _ _)
  · intro hnil
    rw [hnil, length_nil] at hlength
    rw [length_append, length_append]
    omega

theorem forget_processPending (hrev : ¬ LoopReveals h p now (s.nodes p).getdataRequests s) :
    (s.forget h).processPending E p now = forgetFst h <$> s.processPending E p now := by
  have horphans : ∀ (s : PeerManager X) (sent : List Sent),
      (if ((s.forget h).nodes p).orphanWorkSet.isEmpty then .ok (s.forget h, sent)
        else .ok (processOrphanTx E p now ((s.forget h).nodes p).orphanWorkSet (s.forget h), sent) :
        Except NetFault (PeerManager X × List Sent)) =
      forgetFst h <$> (if (s.nodes p).orphanWorkSet.isEmpty then .ok (s, sent)
        else .ok (processOrphanTx E p now (s.nodes p).orphanWorkSet s, sent)) := by
    intro s sent
    rw [forget_nodes, forget_processOrphanTx]
    split_ifs <;> rfl
  unfold processPending
  rw [forget_nodes, forget_processGetData E hrev]
  split_ifs
  · exact horphans s []
  · cases s.processGetData E p now with
    | error fault => rfl
    | ok r => exact horphans r.1 r.2

theorem processPending_reveals (hrev : LoopReveals h p now (s.nodes p).getdataRequests s)
    (hstem : (s.stempool.mapTx.lookup h).isSome) :
    ∃ r r', s.processPending E p now = .ok r ∧ (s.forget h).processPending E p now = .ok r' ∧
      Diverges r.2 r'.2 := by
  obtain ⟨r, r', hr, hr', hdiv⟩ := processGetData_reveals E hrev hstem
  have hqueue : ¬ (s.nodes p).getdataRequests.isEmpty = true := by
    intro hempty
    rw [isEmpty_iff.mp hempty] at hrev
    exact hrev
  have horphans : ∀ r : PeerManager X × List Sent, ∃ s',
      (if (r.1.nodes p).orphanWorkSet.isEmpty then .ok (r.1, r.2)
        else .ok (processOrphanTx E p now (r.1.nodes p).orphanWorkSet r.1, r.2) :
        Except NetFault (PeerManager X × List Sent)) = .ok (s', r.2) := by
    intro r
    split_ifs <;> exact ⟨_, rfl⟩
  obtain ⟨s₁, h₁⟩ := horphans r
  obtain ⟨s₂, h₂⟩ := horphans r'
  refine ⟨(s₁, r.2), (s₂, r'.2), ?_, ?_, hdiv⟩
  · rw [processPending, if_neg hqueue, hr, ok_bind]
    exact h₁
  · have hqueue' : ¬ ((s.forget h).nodes p).getdataRequests.isEmpty = true := hqueue
    rw [processPending, if_neg hqueue', hr', ok_bind]
    exact h₂

end answers
end PeerManager
end Vexta
