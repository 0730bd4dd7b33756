import Vexta.Validation.AcceptBlock

/-! A block that is valid after its ancestors is accepted in every tree that has them. -/
namespace Vexta
open Lib Uint256 List Option Heap BlockMap CBlockIndex Heap

theorem liftFault_mono {α : Type} {x y : Except Fault α} (h : Approx x y) :
    Approx (BlockFailure.liftFault x) (BlockFailure.liftFault y) := by
  intro a ha
  cases hx : x with
  | error e =>
    rw [hx] at ha
    cases ha
  | ok b =>
    rw [hx] at ha
    rw [h b hx]
    exact ha

section Mono
variable {H H' : Heap} (hle : H.Le H')
include hle

variable {block : CBlockHeader}

theorem linkIndex_mono (params : Params) (hash : Uint256) {prev : IndexNode}
    (hprev : H block.hashPrevBlock = some prev) :
    Approx (linkIndex params H hash block) (linkIndex params H' hash block) := by
  unfold linkIndex
  simp only [hprev, hle _ _ hprev]
  refine .bind (getAncestor_mono hle _ _) fun pskip _ => ?_
  refine .bind ?_ fun lastAlgoBlocks _ => ?_
  · exact .bind_left (fromPrev_mono hle _ _ _)
  · refine .bind (fromPrev_mono hle _ _ _) fun nTimeMax _ => ?_
    exact .bind_left (computeChainWork_mono hle params _)

theorem checkContextualWork_mono (X : HeaderHashes) (params : Params) (block : CBlockHeader)
    (pindexPrev : Uint256) :
    Approx (checkContextualWork X params H block pindexPrev true)
      (checkContextualWork X params H' block pindexPrev true) := by
  unfold checkContextualWork
  cases block.getAlgo with
  | unknown => exact .refl _
  | sha256d =>
    exact .bind_left (getNextWorkRequired_mono params (Arith.Le.refl _) hle _ _)
  | randomX =>
    unfold checkContextualRandomXProofOfWork
    refine .leave fun _ => ?_
    refine .bind (deref_mono hle _) fun prev _ => ?_
    refine .bind_right fun height => ?_
    refine .leave fun _ => ?_
    refine .bind (getNextWorkRequired_mono params (Arith.Le.refl _) hle _ _) fun bits _ => ?_
    refine .leave fun _ => ?_
    refine .leave fun _ => ?_
    unfold checkRandomXProofOfWork
    refine .bind (deref_mono hle _) fun prev _ => ?_
    exact .bind_left (getRandomXSeed_mono hle _ _ _)

theorem contextualCheckBlockHeader_mono {X : HeaderHashes} {params : Params}
    {checkpoints : List (ℤ × Uint256)} {fCheckpointsEnabled : Bool} {pindexPrev : Uint256}
    {nAdjustedTime : ℤ}
    (hcheckpoints : ∀ node, getLastCheckpoint H' checkpoints = some node → node.nHeight = 0)
    (h : contextualCheckBlockHeader X params H checkpoints fCheckpointsEnabled block pindexPrev
      nAdjustedTime true = .ok none) :
    contextualCheckBlockHeader X params H' checkpoints fCheckpointsEnabled block pindexPrev
      nAdjustedTime true = .ok none := by
  unfold contextualCheckBlockHeader at h ⊢
  obtain ⟨work, hwork, h⟩ := bind_eq_ok.mp h
  cases work with
  | some rejection => cases h
  | none =>
    rw [checkContextualWork_mono hle X params block pindexPrev _ hwork, ok_bind]
    dsimp only at h ⊢
    unfold checkContextualTime at h ⊢
    obtain ⟨prev, hprev, h⟩ := bind_eq_ok.mp h
    obtain ⟨-, h⟩ := check_eq_none.mp h
    obtain ⟨t, ht, h⟩ := bind_eq_ok.mp h
    rw [deref_mono hle _ _ hprev, ok_bind]
    apply check_eq_none.mpr
    constructor
    · rintro ⟨-, hforked⟩
      cases hlast : getLastCheckpoint H' checkpoints with
      | none => simp [hlast] at hforked
      | some node => simp [hlast, hcheckpoints node hlast] at hforked
    · rw [getMedianTimePast_mono hle _ _ ht, ok_bind]
      exact h

theorem nextHeight_mono (pindexPrev : Option Uint256) :
    Approx (nextHeight H pindexPrev) (nextHeight H' pindexPrev) := by
  cases pindexPrev with
  | none => exact .refl _
  | some prev => exact .map _ (deref_mono hle prev)

theorem contextualCheckBlock_mono (C : ConnectContext) (block : CBlock)
    (pindexPrev : Option Uint256) :
    Approx (contextualCheckBlock C H block pindexPrev)
      (contextualCheckBlock C H' block pindexPrev) := by
  unfold contextualCheckBlock
  refine .bind (liftFault_mono (nextHeight_mono hle pindexPrev)) fun nHeight _ => ?_
  refine .bind ?_ fun cutoff _ => .refl _
  unfold lockTimeCutoff
  refine .ite (fun _ => ?_) fun _ => .refl _
  cases pindexPrev with
  | none => exact .refl _
  | some prev => exact liftFault_mono (getMedianTimePast_mono hle prev)

theorem ReindexContext.checkBlockInTree_mono (R : ReindexContext) (block : CBlock)
    (pprev : Option Uint256) :
    Approx (R.checkBlockInTree H block pprev) (R.checkBlockInTree H' block pprev) :=
  Approx.bind_right fun _ => contextualCheckBlock_mono hle R.connect block pprev

end Mono

theorem Heap.le_insert_insert {H H' : Heap} (hle : H.Le H') {p : Uint256} (node : IndexNode) :
    (H.insert p node).Le (H'.insert p node) := by
  intro q index hq
  rcases insert_eq_some.mp hq with ⟨rfl, rfl⟩ | ⟨hne, hq⟩
  · exact insert_eq_some.mpr (.inl ⟨rfl, rfl⟩)
  · exact insert_eq_some.mpr (.inr ⟨hne, hle q index hq⟩)

def Heap.empty : Heap := fun _ => none

namespace ReindexContext
variable (R : ReindexContext) (blocks : List CBlock)

/-- A valid block with the tree of its ancestors: genesis, or one that passes `AcceptBlock` after
its valid parent. -/
inductive ValidBlock : CBlock → Heap → Prop
  | genesis {block : CBlock} {node : IndexNode} (hmem : block ∈ blocks)
      (hheader : block.header = R.connect.network.genesis)
      (hhash : R.hashOf block = R.genesisHash)
      (hlink : linkIndex R.connect.network.params empty (R.hashOf block) block.header =
        .ok node)
      (hchecks : R.checkBlockInTree (empty.insert (R.hashOf block) node) block none = .ok ()) :
      ValidBlock block (empty.insert (R.hashOf block) node)
  | child {block prev : CBlock} {H : Heap} {node : IndexNode} (hmem : block ∈ blocks)
      (hprev : ValidBlock prev H) (hparent : block.header.hashPrevBlock = R.hashOf prev)
      (hne : R.hashOf block ≠ R.genesisHash) (hnew : H (R.hashOf block) = none)
      (hfree : checkBlockHeader R.connect.hashes R.connect.network.params block.header true =
        .ok none)
      (hcontext : contextualCheckBlockHeader R.connect.hashes R.connect.network.params H
        R.connect.network.checkpoints R.fCheckpointsEnabled block.header block.header.hashPrevBlock
        R.nAdjustedTime true = .ok none)
      (hlink : linkIndex R.connect.network.params H (R.hashOf block) block.header = .ok node)
      (hchecks : R.checkBlockInTree (H.insert (R.hashOf block) node) block
        (some block.header.hashPrevBlock) = .ok ()) :
      ValidBlock block (H.insert (R.hashOf block) node)

variable {R blocks} {block : CBlock} {H : Heap}

theorem ValidBlock.mem (h : R.ValidBlock blocks block H) : block ∈ blocks := by
  cases h with
  | genesis hmem => exact hmem
  | child hmem => exact hmem

theorem ValidBlock.exists_node (h : R.ValidBlock blocks block H) :
    ∃ node, H (R.hashOf block) = some node := by
  cases h with
  | genesis => exact ⟨_, insert_eq_some.mpr (.inl ⟨rfl, rfl⟩)⟩
  | child => exact ⟨_, insert_eq_some.mpr (.inl ⟨rfl, rfl⟩)⟩

variable {node : IndexNode}

theorem linkIndex_none {params : Params} {hash : Uint256} {header : CBlockHeader}
    (h : linkIndex params empty hash header = .ok node) :
    node.pprev = none ∧ node.nHeight = 0 := by
  obtain ⟨hnode, -⟩ := linkIndex_root rfl h
  rw [hnode]
  exact ⟨rfl, rfl⟩

theorem ValidBlock.closed (h : R.ValidBlock blocks block H) {p q : Uint256} (hp : H p = some node)
    (hq : node.pprev = some q) : (H q).isSome := by
  induction h generalizing p node with
  | @genesis block node' hmem hheader hhash hlink hchecks =>
    rcases insert_eq_some.mp hp with ⟨-, rfl⟩ | ⟨-, hp⟩
    · cases ((linkIndex_none hlink).1).symm.trans hq
    · cases hp
  | @child block prev H node' hmem hprev hparent hne hnew hfree hcontext hlink hchecks ih =>
    have hkept := le_insert hnew node'
    rcases insert_eq_some.mp hp with ⟨-, rfl⟩ | ⟨-, hp⟩
    · obtain ⟨prevNode, hprevNode⟩ := hprev.exists_node
      rw [← hparent] at hprevNode
      cases ((linkIndex_eq_ok hprevNode hlink).pprev).symm.trans hq
      rw [hkept _ _ hprevNode]
      rfl
    · obtain ⟨index, hindex⟩ := isSome_iff_exists.mp (ih hp hq)
      rw [hkept _ _ hindex]
      rfl

theorem ValidBlock.genesis_height (h : R.ValidBlock blocks block H)
    (hhash : R.hashOf block = R.genesisHash) (hnode : H R.genesisHash = some node) :
    node.nHeight = 0 := by
  cases h with
  | genesis _ _ _ hlink =>
    rcases insert_eq_some.mp hnode with ⟨-, rfl⟩ | ⟨-, hp⟩
    · exact (linkIndex_none hlink).2
    · cases hp
  | child _ _ _ hne => exact absurd hhash hne

theorem ValidBlock.checked (h : R.ValidBlock blocks block H) :
    ∃ pprev, R.checkBlockInTree H block pprev = .ok () := by
  cases h with
  | genesis _ _ _ _ hchecks => exact ⟨none, hchecks⟩
  | child _ _ _ _ _ _ _ _ hchecks => exact ⟨_, hchecks⟩

def Distinct (R : ReindexContext) (blocks : List CBlock) : Prop := (blocks.map R.hashOf).Nodup

instance : Decidable (R.Distinct blocks) :=
  inferInstanceAs (Decidable (blocks.map R.hashOf).Nodup)

theorem Distinct.inj {b b' : CBlock} (h : R.Distinct blocks) (hb : b ∈ blocks) (hb' : b' ∈ blocks)
    (heq : R.hashOf b = R.hashOf b') : b = b' :=
  inj_on_of_nodup_map h hb hb' heq

theorem ValidBlock.heap_unique (hdistinct : R.Distinct blocks) {H' : Heap}
    (h : R.ValidBlock blocks block H) (h' : R.ValidBlock blocks block H') : H = H' := by
  induction h generalizing H' with
  | genesis _ _ hhash hlink _ =>
    cases h' with
    | genesis _ _ _ hlink' _ =>
      rw [hlink] at hlink'
      cases hlink'
      rfl
    | child _ _ _ hne => exact absurd hhash hne
  | @child block prev H node hmem hprev hparent hne hnew _ _ hlink _ ih =>
    cases h' with
    | genesis _ _ hhash => exact absurd hhash hne
    | @child _ prev' H₁ node₁ _ hprev' hparent' _ _ _ _ hlink' _ =>
      have heq : prev' = prev :=
        hdistinct.inj hprev'.mem hprev.mem (hparent'.symm.trans hparent)
      subst heq
      obtain rfl := ih hprev'
      rw [hlink] at hlink'
      cases hlink'
      rfl

/-- Every index is of a block of `found`, with data, position and all ancestors. -/
structure Holds (R : ReindexContext) (blocks : List CBlock) (found : List (FlatFilePos × CBlock))
    (chain : ChainState) : Prop where
  failedBlocks : chain.blockman.failedBlocks = []
  bestHeader : ∀ p, chain.blockman.bestHeader = some p → (chain.blockman.heap p).isSome
  unlinked : ∀ e ∈ chain.blockman.blocksUnlinked, (chain.blockman.heap e.2).isSome
  stored : ∀ hash index, chain.blockman.blockIndex.lookup hash = some index →
    ∃ pos block H, (pos, block) ∈ found ∧ R.hashOf block = hash ∧ R.ValidBlock blocks block H ∧
      H.Le chain.blockman.heap ∧ index.nStatus.failed = false ∧ index.nStatus.haveData = true ∧
      index.nFile = pos.nFile ∧ index.nDataPos = pos.nPos

variable {found : List (FlatFilePos × CBlock)} {chain : ChainState}

variable {p : Uint256} {node : IndexNode}

theorem lookup_isSome_iff {blocks : BlockMap} :
    (blocks.lookup p).isSome ↔ (blocks.heap p).isSome := by
  unfold BlockMap.heap
  rw [isSome_map]

theorem Holds.closed (h : Holds R blocks found chain) {q : Uint256}
    (hp : chain.blockman.heap p = some node) (hq : node.pprev = some q) :
    (chain.blockman.heap q).isSome := by
  obtain ⟨index, hindex, rfl⟩ := heap_eq_some.mp hp
  obtain ⟨pos, block, H, -, rfl, hvalid, hle, -⟩ := h.stored p index hindex
  obtain ⟨node', hnode'⟩ := hvalid.exists_node
  have hsame := hle _ _ hnode'
  cases hp.symm.trans hsame
  obtain ⟨parent, hparent⟩ := isSome_iff_exists.mp (hvalid.closed hnode' hq)
  rw [hle _ _ hparent]
  rfl

theorem Holds.genesis_height (h : Holds R blocks found chain)
    (hnode : chain.blockman.heap R.genesisHash = some node) : node.nHeight = 0 := by
  obtain ⟨index, hindex, rfl⟩ := heap_eq_some.mp hnode
  obtain ⟨pos, block, H, -, hhash, hvalid, hle, -⟩ := h.stored _ index hindex
  obtain ⟨node', hnode'⟩ := hvalid.exists_node
  have hsame := hle _ _ hnode'
  rw [hhash, hnode] at hsame
  cases hsame
  rw [hhash] at hnode'
  exact hvalid.genesis_height hhash hnode'

theorem Holds.checkpoints (h : Holds R blocks found chain)
    (hnode : getLastCheckpoint chain.blockman.heap R.connect.network.checkpoints = some node) :
    node.nHeight = 0 := by
  have hgenesis : chain.blockman.heap R.genesisHash = some node := by
    unfold getLastCheckpoint at hnode
    unfold genesisHash
    cases hnetwork : R.connect.network with
    | signet challenge =>
      rw [hnetwork] at hnode
      cases hnode
    | main => simpa [hnetwork, Network.checkpoints] using hnode
    | test => simpa [hnetwork, Network.checkpoints] using hnode
    | regtest args => simpa [hnetwork, Network.checkpoints] using hnode
  exact h.genesis_height hgenesis

theorem linkQueue_total (fuel : ℕ) (state : ChainState) (queue : List Uint256)
    (hfuel : queue.length + state.blockman.blocksUnlinked.length ≤ fuel)
    (hqueue : ∀ p ∈ queue, (state.blockman.heap p).isSome)
    (hunlinked : ∀ e ∈ state.blockman.blocksUnlinked, (state.blockman.heap e.2).isSome)
    (hclosed : ∀ p q node, state.blockman.heap p = some node → node.pprev = some q →
      (state.blockman.heap q).isSome) :
    ∃ state', linkQueue fuel state queue = .ok state' ∧
      state'.blockman.failedBlocks = state.blockman.failedBlocks ∧
      state'.blockman.bestHeader = state.blockman.bestHeader ∧
      state'.blockman.blocksUnlinked ⊆ state.blockman.blocksUnlinked := by
  fun_induction linkQueue fuel state queue with
  | case1 _ state => exact ⟨state, rfl, rfl, rfl, .refl _⟩
  | case2 => simp at hfuel
  | case3 fuel state p queue ih =>
    obtain ⟨index, hindex⟩ := isSome_iff_exists.mp
      (lookup_isSome_iff.mpr (hqueue p mem_cons_self))
    obtain ⟨base, hbase⟩ : ∃ base,
        prevChainTx state.blockman.blockIndex index.pprev = .ok base := by
      cases hpprev : index.pprev with
      | none => exact ⟨0, rfl⟩
      | some q =>
        have hsome := hclosed p q index.toIndexNode
          (heap_eq_some.mpr ⟨index, hindex, rfl⟩) hpprev
        obtain ⟨prev, hprev⟩ := isSome_iff_exists.mp (lookup_isSome_iff.mpr hsome)
        refine ⟨prev.nChainTx, ?_⟩
        unfold prevChainTx
        dsimp only
        rw [hprev]
        rfl
    rw [hindex, derefPtr, ok_bind, hbase, ok_bind]
    have hheap : (state.blockman.blockIndex.modify p fun index =>
        { index with
          nChainTx := (base + index.nTx) % 2 ^ 32
          nSequenceId := state.nBlockSequenceId }).heap = state.blockman.heap :=
      heap_modify _ p fun _ => rfl
    have hsplit := state.blockman.blocksUnlinked.length_eq_length_filter_add
      fun entry => decide (entry.1 = p)
    specialize ih base
    simp only [BlockManager.heap, hheap] at ih
    obtain ⟨state', hrun, hfailed, hbest, hsub⟩ := ih
      (by
        simp only [length_append, length_map, length_cons, decide_not] at hfuel ⊢
        omega)
      (by
        intro q hq
        rcases mem_append.mp hq with hq | hq
        · exact hqueue q (mem_cons_of_mem p hq)
        · obtain ⟨e, he, rfl⟩ := mem_map.mp hq
          exact hunlinked e (mem_of_mem_filter he))
      (fun e he => hunlinked e (mem_of_mem_filter he)) hclosed
    exact ⟨state', hrun, hfailed, hbest, fun e he => mem_of_mem_filter (hsub he)⟩

theorem receivedBlockTransactions_total (params : Params) {state : ChainState} {index : CBlockIndex}
    (nTx : ℕ) (pos : FlatFilePos) (hp : state.blockman.blockIndex.lookup p = some index)
    (hunlinked : ∀ e ∈ state.blockman.blocksUnlinked, (state.blockman.heap e.2).isSome)
    (hclosed : ∀ p q node, state.blockman.heap p = some node → node.pprev = some q →
      (state.blockman.heap q).isSome) :
    ∃ state', receivedBlockTransactions params state p nTx pos = .ok state' ∧
      BlockMap.SameUnder eraseLink
        (state.blockman.blockIndex.modify p (markReceived params nTx pos))
        state'.blockman.blockIndex ∧
      state'.blockman.failedBlocks = state.blockman.failedBlocks ∧
      state'.blockman.bestHeader = state.blockman.bestHeader ∧
      ∀ e ∈ state'.blockman.blocksUnlinked, e ∈ state.blockman.blocksUnlinked ∨ e.2 = p := by
  have hheap : (state.blockman.blockIndex.modify p (markReceived params nTx pos)).heap =
      state.blockman.heap := heap_modify _ p fun _ => rfl
  have hself : (state.blockman.heap p).isSome := by
    apply lookup_isSome_iff.mp
    rw [hp]
    rfl
  -- the loop starts with this block alone
  obtain ⟨linked, hlinked, hfailed, hbest, hsub⟩ := linkQueue_total
    (state.blockman.blocksUnlinked.length + 1)
    { state with blockman := { state.blockman with
      blockIndex := state.blockman.blockIndex.modify p (markReceived params nTx pos) } }
    [p] (by simp [Nat.add_comm])
    (by
      intro q hq
      rw [mem_singleton] at hq
      unfold BlockManager.heap
      rw [hq, hheap]
      exact hself)
    (by
      unfold BlockManager.heap
      rw [hheap]
      exact hunlinked)
    (by
      unfold BlockManager.heap
      rw [hheap]
      exact hclosed)
  unfold receivedBlockTransactions
  rw [hp, derefPtr, ok_bind]
  cases hpprev : index.pprev with
  | none => exact ⟨linked, hlinked, linkQueue_same hlinked, hfailed, hbest, fun e he => .inl (hsub he)⟩
  | some q =>
    have hq : (state.blockman.heap q).isSome :=
      hclosed p q index.toIndexNode (heap_eq_some.mpr ⟨index, hp, rfl⟩) hpprev
    rw [← hheap] at hq
    obtain ⟨prev, hprev⟩ := isSome_iff_exists.mp (lookup_isSome_iff.mpr hq)
    dsimp only
    rw [hprev, derefPtr, ok_bind]
    split_ifs with htxs hvalid
    · exact ⟨linked, hlinked, linkQueue_same hlinked, hfailed, hbest, fun e he => .inl (hsub he)⟩
    · refine ⟨_, rfl, .refl _ _, rfl, rfl, fun e he => ?_⟩
      rcases mem_append.mp he with he | he
      · exact .inl he
      · rw [mem_singleton] at he
        exact .inr (congrArg Prod.snd he)
    · exact ⟨_, rfl, .refl _ _, rfl, rfl, fun e he => .inl he⟩

theorem addToBlockIndex_ok {X : HeaderHashes} (params : Params) {blockman : BlockManager}
    {block : CBlockHeader} (hnew : blockman.blockIndex.lookup (block.getHash X) = none)
    (hself : block.hashPrevBlock ≠ block.getHash X)
    (hlink : linkIndex params blockman.heap (block.getHash X) block = .ok node)
    (hbest : ∀ p, blockman.bestHeader = some p → (blockman.heap p).isSome) :
    ∃ bestHeader, addToBlockIndex X params blockman block = .ok (block.getHash X,
        { blockman with
          blockIndex := blockman.blockIndex.addIndex (block.getHash X) block node
          bestHeader }) ∧
      ∀ p, bestHeader = some p → p = block.getHash X ∨ (blockman.heap p).isSome := by
  unfold addToBlockIndex
  simp only [hnew, if_neg hself, hlink, ok_bind]
  unfold updateBestHeader
  cases hb : blockman.bestHeader with
  | none =>
    refine ⟨some (block.getHash X), rfl, ?_⟩
    rintro p ⟨⟩
    exact .inl rfl
  | some best =>
    have hsome := hbest best hb
    obtain ⟨index, hindex⟩ := isSome_iff_exists.mp hsome
    simp only [deref_eq hindex, ok_bind]
    refine ⟨_, rfl, ?_⟩
    split_ifs with hwork
    · rintro p ⟨⟩
      exact .inl rfl
    · rintro p ⟨⟩
      exact .inr hsome

section
variable {config : NodeConfig} {blockman added : BlockManager} {block : CBlockHeader}
  {nAdjustedTime : ℤ}

theorem acceptBlockHeader_genesis
    (hgenesis : block.getHash config.hashes = config.network.params.hashGenesisBlock)
    (hadd : addToBlockIndex config.hashes config.network.params blockman block = .ok (p, added)) :
    acceptBlockHeader config blockman block nAdjustedTime = .ok (.ok p, added) := by
  unfold acceptBlockHeader
  dsimp only
  rw [if_pos hgenesis, hadd]
  rfl

theorem acceptBlockHeader_admitted {prev : CBlockIndex}
    (hne : block.getHash config.hashes ≠ config.network.params.hashGenesisBlock)
    (hnew : blockman.blockIndex.lookup (block.getHash config.hashes) = none)
    (hfree : checkBlockHeader config.hashes config.network.params block true = .ok none)
    (hprev : blockman.blockIndex.lookup block.hashPrevBlock = some prev)
    (hfailed : prev.nStatus.failed = false)
    (hcontext : contextualCheckBlockHeader config.hashes config.network.params blockman.heap
      config.network.checkpoints config.fCheckpointsEnabled block block.hashPrevBlock nAdjustedTime
      true = .ok none) (hancestor : rejectFailedAncestor blockman block.hashPrevBlock = .ok none)
    (hadd : addToBlockIndex config.hashes config.network.params blockman block = .ok (p, added)) :
    acceptBlockHeader config blockman block nAdjustedTime = .ok (.ok p, added) := by
  unfold acceptBlockHeader
  simp only [if_neg hne, hnew, hfree, ok_bind, hprev, hfailed, Bool.false_eq_true,
    if_false, hcontext, hancestor, hadd]

end

theorem ValidBlock.root (h : R.ValidBlock blocks block H) : (H R.genesisHash).isSome := by
  induction h with
  | genesis _ _ hhash =>
    rw [Heap.insert, if_pos hhash.symm]
    rfl
  | child _ _ _ hne _ _ _ _ _ ih =>
    rw [Heap.insert, if_neg (Ne.symm hne)]
    exact ih

theorem Holds.heap_eq_none (h : Holds R blocks found chain)
    (hgenesis : chain.blockman.blockIndex.lookup R.genesisHash = none) :
    chain.blockman.heap = empty := by
  funext p
  cases hp : chain.blockman.heap p with
  | none => rfl
  | some node =>
    obtain ⟨index, hindex, -⟩ := heap_eq_some.mp hp
    obtain ⟨pos, block, H, -, -, hvalid, hle, -⟩ := h.stored p index hindex
    obtain ⟨root, hroot⟩ := isSome_iff_exists.mp hvalid.root
    obtain ⟨index', hindex', -⟩ := heap_eq_some.mp (hle _ _ hroot)
    rw [hgenesis] at hindex'
    cases hindex'

variable {index : CBlockIndex} {pos : FlatFilePos}

theorem Holds.heap_le (hdistinct : R.Distinct blocks) (h : Holds R blocks found chain)
    (hvalid : R.ValidBlock blocks block H)
    (hindex : chain.blockman.blockIndex.lookup (R.hashOf block) = some index) :
    H.Le chain.blockman.heap := by
  obtain ⟨pos, block', H', -, hhash, hvalid', hle, -⟩ := h.stored _ index hindex
  obtain rfl := hdistinct.inj hvalid'.mem hvalid.mem hhash
  rw [hvalid.heap_unique hdistinct hvalid']
  exact hle

theorem Holds.acceptBlockHeader (hdistinct : R.Distinct blocks) (h : Holds R blocks found chain)
    (hvalid : R.ValidBlock blocks block H)
    (hnew : chain.blockman.blockIndex.lookup (R.hashOf block) = none)
    (hparent : R.hashOf block ≠ R.genesisHash →
      (chain.blockman.heap block.header.hashPrevBlock).isSome) :
    ∃ node bestHeader,
      Vexta.acceptBlockHeader R.config chain.blockman block.header R.nAdjustedTime =
        .ok (.ok (R.hashOf block), { chain.blockman with
          blockIndex := chain.blockman.blockIndex.addIndex (R.hashOf block) block.header node
          bestHeader }) ∧
      (∀ p, bestHeader = some p → p = R.hashOf block ∨ (chain.blockman.heap p).isSome) ∧
      H.Le (chain.blockman.heap.insert (R.hashOf block) node) ∧
      (∀ q, node.pprev = some q → (chain.blockman.heap q).isSome) ∧
      R.checkBlockInTree (chain.blockman.heap.insert (R.hashOf block) node) block node.pprev =
        .ok () := by
  cases hvalid with
  | @genesis _ node _ hheader hhash hlink hchecks =>
    have hnone : chain.blockman.heap = empty := h.heap_eq_none (hhash ▸ hnew)
    have hprev : block.header.hashPrevBlock = 0 := by
      rw [hheader]
      cases R.connect.network <;> rfl
    have hself : block.header.hashPrevBlock ≠ R.hashOf block := by
      rw [hprev, hhash]
      exact (genesisHash_ne_zero _).symm
    obtain ⟨bestHeader, hadd, hbest⟩ := addToBlockIndex_ok R.connect.network.params
      hnew hself (hnone ▸ hlink) h.bestHeader
    refine ⟨node, bestHeader, ?_, hbest, ?_, ?_, ?_⟩
    · exact acceptBlockHeader_genesis hhash hadd
    · rw [hnone]
      exact fun _ _ hp => hp
    · intro q hq
      cases ((linkIndex_none hlink).1).symm.trans hq
    · rw [hnone, (linkIndex_none hlink).1]
      exact hchecks
  | @child _ prev H₀ node _ hprev hparentHash hne hfresh hfree hcontext hlink hchecks =>
    obtain ⟨parent, hparentIndex⟩ := isSome_iff_exists.mp
      (lookup_isSome_iff.mpr (hparent hne))
    have hle : H₀.Le chain.blockman.heap := by
      rw [hparentHash] at hparentIndex
      exact h.heap_le hdistinct hprev hparentIndex
    obtain ⟨prevNode, hprevNode⟩ := hprev.exists_node
    rw [← hparentHash] at hprevNode
    have hself : block.header.hashPrevBlock ≠ R.hashOf block := by
      intro heq
      rw [heq, hfresh] at hprevNode
      cases hprevNode
    have hlink' := linkIndex_mono hle _ _ hprevNode _ hlink
    have hpprev := (linkIndex_eq_ok hprevNode hlink).pprev
    have hcontext' := contextualCheckBlockHeader_mono hle (fun _ hlast => h.checkpoints hlast)
      hcontext
    obtain ⟨-, -, -, -, -, -, -, hfailed, -⟩ := h.stored _ parent hparentIndex
    obtain ⟨bestHeader, hadd, hbest⟩ := addToBlockIndex_ok R.connect.network.params
      hnew hself hlink' h.bestHeader
    have hancestor : rejectFailedAncestor chain.blockman block.header.hashPrevBlock = .ok none := by
      unfold rejectFailedAncestor
      rw [hparentIndex, derefPtr, ok_bind, h.failedBlocks]
      split_ifs
      · rfl
      · rfl
    refine ⟨node, bestHeader, ?_, hbest, le_insert_insert hle node, ?_, ?_⟩
    · exact acceptBlockHeader_admitted hne hnew hfree hparentIndex hfailed hcontext' hancestor hadd
    · intro q hq
      cases hpprev.symm.trans hq
      exact hparent hne
    · rw [hpprev]
      exact R.checkBlockInTree_mono (le_insert_insert hle node) block _ _ hchecks

theorem BlockStatus.raiseValidity_failed (status : BlockStatus) (nUpTo : ℕ) :
    (status.raiseValidity nUpTo).failed = status.failed := by
  unfold BlockStatus.raiseValidity
  split_ifs
  · rfl
  · rfl
  · rfl

theorem BlockStatus.raiseValidity_haveData (status : BlockStatus) (nUpTo : ℕ) :
    (status.raiseValidity nUpTo).haveData = status.haveData := by
  unfold BlockStatus.raiseValidity
  split_ifs
  · rfl
  · rfl
  · rfl

theorem heap_of_eraseLink {b₁ b₂ : BlockMap} (h : b₁.SameUnder eraseLink b₂) :
    b₂.heap = b₁.heap :=
  BlockMap.SameUnder.heap_eq (h.comp toIndexNode)

theorem acceptBlock_eq_accepted {blockman : BlockManager} {chain' : ChainState}
    (hheader : acceptBlockHeader R.config chain.blockman block.header R.nAdjustedTime =
      .ok (.ok p, blockman)) (hindex : blockman.blockIndex.lookup p = some index)
    (hdata : index.nStatus.haveData = false)
    (hchecks : R.checkBlockInTree blockman.heap block index.pprev = .ok ())
    (hreceived : receivedBlockTransactions R.connect.network.params { chain with blockman } p
      block.vtx.length pos = .ok chain') :
    R.acceptBlock chain block pos = .ok (.accepted, chain') := by
  unfold acceptBlock
  simp only [hheader, ok_bind, hindex, derefPtr, hdata, Bool.false_eq_true, if_false,
    hchecks, hreceived]

theorem Holds.acceptBlock (hdistinct : R.Distinct blocks) (h : Holds R blocks found chain)
    (hmem : (pos, block) ∈ found) (hvalid : R.ValidBlock blocks block H)
    (hnew : chain.blockman.blockIndex.lookup (R.hashOf block) = none)
    (hparent : R.hashOf block ≠ R.genesisHash →
      (chain.blockman.heap block.header.hashPrevBlock).isSome) :
    ∃ chain', R.acceptBlock chain block pos = .ok (.accepted, chain') ∧
      Holds R blocks found chain' ∧
      ∀ p, (chain'.blockman.heap p).isSome ↔
        p = R.hashOf block ∨ (chain.blockman.heap p).isSome := by
  obtain ⟨node, bestHeader, hheader, hbest, hle, hpprev, hchecks⟩ :=
    h.acceptBlockHeader hdistinct hvalid hnew hparent
  let added : ChainState := { chain with blockman := { chain.blockman with
    blockIndex := chain.blockman.blockIndex.addIndex (R.hashOf block) block.header node
    bestHeader } }
  have hheap : added.blockman.heap = chain.blockman.heap.insert (R.hashOf block) node :=
    heap_addIndex _ _ _ _
  have hlookup : added.blockman.blockIndex.lookup (R.hashOf block) =
      some (addedIndex block.header node) := AList.lookup_insert _
  have hgrown : chain.blockman.heap.Le added.blockman.heap := by
    rw [hheap]
    refine le_insert ?_ node
    exact map_eq_none_iff.mpr hnew
  have hkept : ∀ p, (chain.blockman.heap p).isSome → (added.blockman.heap p).isSome := by
    intro p hp
    obtain ⟨index, hindex⟩ := isSome_iff_exists.mp hp
    rw [hgrown _ _ hindex]
    rfl
  obtain ⟨chain', hreceived, hsame, hfailed, hbestHeader, hunlinked⟩ :=
    receivedBlockTransactions_total R.connect.network.params block.vtx.length pos
      hlookup (fun e he => hkept _ (h.unlinked e he)) (by
        intro p q node' hp hq
        rw [hheap] at hp
        rcases insert_eq_some.mp hp with ⟨-, rfl⟩ | ⟨-, hp⟩
        · exact hkept q (hpprev q hq)
        · exact hkept q (h.closed hp hq))
  have hheap' : chain'.blockman.heap = added.blockman.heap :=
    (heap_of_eraseLink hsame).trans (heap_modify _ _ fun _ => rfl)
  have hkeys : ∀ p, (chain'.blockman.heap p).isSome ↔
      p = R.hashOf block ∨ (chain.blockman.heap p).isSome := by
    intro p
    rw [hheap', hheap, Heap.insert]
    split_ifs with hp
    · simp [hp]
    · simp [hp]
  refine ⟨chain', ?_, ⟨?_, ?_, ?_, ?_⟩, hkeys⟩
  · refine acceptBlock_eq_accepted hheader hlookup ?_ ?_ hreceived
    · rfl
    · change R.checkBlockInTree added.blockman.heap block node.pprev = .ok ()
      rw [hheap]
      exact hchecks
  · rw [hfailed]
    exact h.failedBlocks
  · intro p hp
    rw [hbestHeader] at hp
    exact (hkeys p).mpr (hbest p hp)
  · intro e he
    rcases hunlinked e he with he | he
    · exact (hkeys _).mpr (.inr (h.unlinked e he))
    · exact (hkeys _).mpr (.inl he)
  · intro hash index hindex
    obtain ⟨old, hold, heq⟩ := hsame.exists_of_lookup hindex
    rw [lookup_modify] at hold
    have hstatus := congrArg nStatus heq
    have hfile := congrArg nFile heq
    have hdata := congrArg nDataPos heq
    dsimp only [eraseLink] at hstatus hfile hdata
    rw [hstatus, hfile, hdata]
    split_ifs at hold with hhash
    · rw [hlookup] at hold
      cases hold
      refine ⟨pos, block, H, hmem, hhash.symm, hvalid, ?_, ?_, ?_, rfl, rfl⟩
      · rw [hheap', hheap]
        exact hle
      · exact BlockStatus.raiseValidity_failed _ _
      · exact BlockStatus.raiseValidity_haveData _ _
    · have hstored : chain.blockman.blockIndex.lookup hash = some old := by
        rw [← hold]
        change _ = AList.lookup hash ((chain.blockman.blockIndex.insert _ _).insert _ _)
        rw [AList.lookup_insert_ne hhash, AList.lookup_insert_ne hhash]
      obtain ⟨pos', block', H', hmem', hhash', hvalid', hle', hrest⟩ := h.stored _ _ hstored
      refine ⟨pos', block', H', hmem', hhash', hvalid', ?_, hrest⟩
      rw [hheap']
      exact fun p node hp => hgrown p node (hle' p node hp)

end ReindexContext
end Vexta
