import Vexta.Pow.Frame
import Vexta.Validation.DataRun
import Vexta.Validation.LoadGuts

/-! The second pass of a restart rebuilds the tree. -/
namespace Vexta
open Lib Uint256 List Option Heap BlockMap CBlockIndex BlockMap IndexNode TxView Heap

def IndexNode.stripped (node : IndexNode) : IndexNode :=
  { node with pskip := none, nChainWork := 0, nTimeMax := 0, lastAlgoBlocks := ⟨none, none⟩ }

theorem CBlockIndex.toIndexNode_loaded (index : CBlockIndex) :
    index.loaded.toIndexNode = index.toIndexNode.stripped := rfl

theorem LastAlgoBlocks.ext_get {a b : LastAlgoBlocks}
    (h : ∀ algo, algo ≠ .unknown → a.get algo = b.get algo) : a = b := by
  have h₁ := h .sha256d (by decide)
  have h₂ := h .randomX (by decide)
  cases a
  cases b
  simp only [get] at h₁ h₂
  rw [h₁, h₂]

section
variable {params : Params} {H Hd K : Heap} (hH : Coherent params H) (hd : Linked Hd)
  (hle : Hd.Le H) (hleK : Hd.Le K) {p : Uint256} {node : IndexNode} (hp : H p = some node)
  (hpar : ∀ q, node.pprev = some q → ∃ prev, Hd q = some prev)

include hle hleK hpar in
theorem fromPrev_reload {α : Type} (default : α) (f : IndexNode → α) :
    fromPrev K node.pprev default f = fromPrev H node.pprev default f := by
  cases hq : node.pprev with
  | none => rfl
  | some q =>
    obtain ⟨prev, hprev⟩ := hpar q hq
    unfold fromPrev
    dsimp only
    rw [← deref_frame hle hprev, ← deref_frame hleK hprev]

include hH hle hleK hp hpar in
theorem computeTimeMax_reload : computeTimeMax K node.stripped = .ok node.nTimeMax := by
  have hreload := fromPrev_reload hle hleK hpar node.nTime.toNat
    fun prev => max prev.nTimeMax node.nTime.toNat
  exact hreload.trans (hH.timeMax hp)

include hH hd hle hleK hp hpar in
theorem computeChainWork_reload :
    computeChainWork params K node.stripped = .ok node.nChainWork := by
  have hstrip : computeChainWork params K node.stripped = computeChainWork params K node := rfl
  have hwork := hH.chainWork hp
  unfold computeChainWork at hwork
  rw [hstrip]
  unfold computeChainWork
  rw [fromPrev_reload hle hleK hpar, ← getBlockProof_frame hd hleK .machine params hpar,
    getBlockProof_frame hd hle .machine params hpar]
  exact hwork

include hH hd hle hleK hp hpar in
theorem buildSkip_reload (hroot : node.pprev = none → node.pskip = none) :
    buildSkip K node.pprev node.nHeight = .ok node.pskip := by
  cases hq : node.pprev with
  | none =>
    rw [hroot hq]
    rfl
  | some q =>
    obtain ⟨prev, hprev⟩ := hpar q hq
    unfold buildSkip
    dsimp only
    rw [← getAncestor_frame hd hleK hprev, getAncestor_frame hd hle hprev]
    exact hH.skip hp hq

include hH hle hleK hp hpar in
theorem copyLastAlgoBlocks_reload :
    copyLastAlgoBlocks K p node.stripped = .ok node.lastAlgoBlocks := by
  have hget : ∀ blocks : LastAlgoBlocks, (∀ algo, algo ≠ .unknown → blocks.get algo =
      node.pprev.bind fun q => (H q).bind fun prev => prev.lastAlgoBlocks.get algo) →
      blocks.set p node.getAlgo = node.lastAlgoBlocks := by
    intro blocks hblocks
    apply LastAlgoBlocks.ext_get
    intro algo ha
    rw [LastAlgoBlocks.get_set _ _ _ ha, hH.lastAlgo hp algo ha, hblocks algo ha]
  unfold copyLastAlgoBlocks
  change (fromPrev K node.pprev ⟨none, none⟩ lastAlgoBlocks >>= _) = _
  rw [fromPrev_reload hle hleK hpar]
  cases hq : node.pprev with
  | none =>
    have hroot := hget ⟨none, none⟩ (by intro algo ha; rw [hq]; cases algo <;> rfl)
    exact congrArg Except.ok hroot
  | some q =>
    obtain ⟨prev, hprev⟩ := hpar q hq
    have hchild := hget prev.lastAlgoBlocks (by
      intro algo ha
      rw [hq, bind_some, hle q prev hprev]
      rfl)
    unfold fromPrev
    dsimp only
    rw [deref_eq (hle q prev hprev)]
    exact congrArg Except.ok hchild

include hH hd hle hp hpar in
theorem Linked.extend (hnew : Hd p = none) : Linked (Hd.insert p node) := by
  refine hd.insertNode hnew ?_ (hH.root hp) ?_
  · intro q hq
    obtain ⟨prev, hprev⟩ := hpar q hq
    obtain ⟨prev', hprev', hheight⟩ := hH.parent hp hq
    cases (hle q prev hprev).symm.trans hprev'
    refine ⟨prev, hprev, hheight, ?_⟩
    rw [getAncestor_frame hd hle hprev]
    exact hH.skip hp hq
  · intro algo ha
    rw [hH.lastAlgo hp algo ha]
    cases hq : node.pprev with
    | none => rfl
    | some q =>
      obtain ⟨prev, hprev⟩ := hpar q hq
      rw [bind_some, bind_some, hle q prev hprev, hprev]

end

def Heap.restrict (H : Heap) (done : List Uint256) : Heap := fun p => if p ∈ done then H p else none

theorem Heap.restrict_le (H : Heap) (done : List Uint256) : (H.restrict done).Le H := by
  intro p node hp
  unfold restrict at hp
  split_ifs at hp
  exact hp

theorem Heap.restrict_cons {H : Heap} {done : List Uint256} {p : Uint256} {node : IndexNode}
    (hp : H p = some node) : H.restrict (p :: done) = (H.restrict done).insert p node := by
  funext x
  unfold restrict insert
  by_cases hx : x = p
  · rw [if_pos (by simp [hx]), if_pos hx, hx, hp]
  · simp [hx]

structure RebuildInv (blocks : BlockMap) (done : List Uint256) (blockman : BlockManager) :
    Prop where
  linked : Linked (blocks.heap.restrict done)
  built : ∀ p ∈ done, ∃ index loaded, blocks.lookup p = some index ∧
    blockman.blockIndex.lookup p = some loaded ∧ loaded.toIndexNode = index.toIndexNode ∧
    loaded.nTx = index.nTx ∧
    loaded.nChainTx = loaded.txNode.linked blockman.blockIndex.txView.chainTx
  rest : ∀ p, p ∉ done →
    blockman.blockIndex.lookup p = (blocks.lookup p).map loaded
  waits : ∀ q p, (q, p) ∈ blockman.blocksUnlinked ↔ p ∈ done ∧
    ∃ n, blockman.blockIndex.txView p = some n ∧ n.nTx ≠ 0 ∧ n.pprev = some q ∧
      blockman.blockIndex.txView.chainTx q = 0
  best : ∀ b, blockman.bestHeader = some b → b ∈ done

theorem RebuildInv.exists_restrict {blocks : BlockMap} {done : List Uint256}
    {blockman : BlockManager} (h : RebuildInv blocks done blockman) {q : Uint256} (hq : q ∈ done) :
    ∃ prev, blocks.heap.restrict done q = some prev := by
  obtain ⟨index, -, hindex, -⟩ := h.built q hq
  exact ⟨index.toIndexNode, (if_pos hq).trans (heap_eq_some.mpr ⟨index, hindex, rfl⟩)⟩

section
variable {params : Params} {blocks : BlockMap} {done : List Uint256}
  {blockman : BlockManager}

theorem RebuildInv.heap_le (h : RebuildInv blocks done blockman) :
    (blocks.heap.restrict done).Le blockman.heap := by
  intro p node hp
  unfold restrict at hp
  split_ifs at hp with hdone
  obtain ⟨index, loaded, hindex, hloaded, hnode, -⟩ := h.built p hdone
  obtain ⟨index', hindex', rfl⟩ := heap_eq_some.mp hp
  cases hindex.symm.trans hindex'
  exact heap_eq_some.mpr ⟨loaded, hloaded, hnode⟩

variable {index : CBlockIndex} {p : Uint256}

theorem loadChainTx_eq {base : Uint256 → ℕ} {prev : Option CBlockIndex} (hzero : index.nChainTx = 0)
    (hprev : index.pprev.map base = prev.map nChainTx) :
    (loadChainTx prev index).1 = index.txNode.linked base ∧
      ((loadChainTx prev index).2 = true ↔
        index.nTx ≠ 0 ∧ ∃ q, index.pprev = some q ∧ base q = 0) := by
  unfold loadChainTx TxNode.linked txNode
  dsimp only
  by_cases htx : index.nTx = 0
  · simp [htx, hzero]
  · rw [if_pos (Nat.pos_of_ne_zero htx), if_neg htx]
    cases hq : index.pprev with
    | none =>
      rw [hq] at hprev
      have hnone : prev = none := map_eq_none_iff.mp hprev.symm
      simp [hnone]
    | some q =>
      rw [hq] at hprev
      obtain ⟨prev', hsome, hcount⟩ := map_eq_some_iff.mp hprev.symm
      by_cases hbase : base q = 0
      · have htxs : prev'.haveTxsDownloaded = false := by
          unfold haveTxsDownloaded
          simp [hcount, hbase]
        simp [hsome, htxs, hbase, htx]
      · have htxs : prev'.haveTxsDownloaded = true := by
          unfold haveTxsDownloaded
          simp [hcount, hbase]
        simp [hsome, htxs, hbase, hcount]

theorem exists_loadBestHeader (addr : Uint256 → ℕ) (p : Uint256) (index : CBlockIndex)
    {best : Option Uint256} {read : BlockMap} (hbest : ∀ b, best = some b → ∃ index, read.lookup b = some index) :
    ∃ best', loadBestHeader addr read best p index = .ok best' ∧
      ∀ b, best' = some b → b = p ∨ best = some b := by
  unfold loadBestHeader
  split_ifs with hvalid
  · cases best with
    | none => exact ⟨some p, rfl, fun b hb => .inl (Option.some.inj hb).symm⟩
    | some b =>
      obtain ⟨bestIndex, hindex⟩ := hbest b rfl
      refine ⟨_, by dsimp only; rw [hindex]; rfl, ?_⟩
      intro x hx
      split_ifs at hx
      · exact .inl (Option.some.inj hx).symm
      · exact .inr hx
  · exact ⟨best, rfl, fun b hb => .inr hb⟩

structure Rebuilt (index loaded : CBlockIndex) (base : Uint256 → ℕ) : Prop where
  node : loaded.toIndexNode = index.toIndexNode
  nTx : loaded.nTx = index.nTx
  chainTx : loaded.nChainTx = loaded.txNode.linked base

theorem exists_loadIndex (addr : Uint256 → ℕ) (hH : Coherent params blocks.heap)
    (h : RebuildInv blocks done blockman) (hp : blocks.lookup p = some index) (hnew : p ∉ done)
    (hroot : index.pprev = none → index.pskip = none) (hpar : ∀ q, index.pprev = some q → q ∈ done)
    :
    ∃ loaded best, Rebuilt index loaded blockman.blockIndex.txView.chainTx ∧
      (∀ b, best = some b → b ∈ p :: done) ∧
      loadIndex params addr blockman p = .ok { blockman with
        blockIndex := blockman.blockIndex.insert p loaded
        blocksUnlinked := match index.pprev with
          | some q => if index.nTx ≠ 0 ∧ blockman.blockIndex.txView.chainTx q = 0
            then blockman.blocksUnlinked ++ [(q, p)] else blockman.blocksUnlinked
          | none => blockman.blocksUnlinked
        bestHeader := best } := by
  have hnode := heap_eq_some.mpr ⟨index, hp, rfl⟩
  have hload : blockman.blockIndex.lookup p = some index.loaded := by
    rw [h.rest p hnew, hp]
    rfl
  have hdone := fun q hq => h.exists_restrict (hpar q hq)
  have hle := blocks.heap.restrict_le done
  have hleK := h.heap_le
  have hlast := copyLastAlgoBlocks_reload hH hle hleK hnode hdone
  have hwork := computeChainWork_reload hH h.linked hle hleK hnode hdone
  have htime := computeTimeMax_reload hH hle hleK hnode hdone
  have hskip := buildSkip_reload hH h.linked hle hleK hnode hdone hroot
  obtain ⟨prev, hprev, hcount⟩ : ∃ prev, prevIndex blockman.blockIndex index.pprev = .ok prev ∧
      index.pprev.map blockman.blockIndex.txView.chainTx = prev.map nChainTx := by
    cases hq : index.pprev with
    | none => exact ⟨none, rfl, rfl⟩
    | some q =>
      obtain ⟨-, loaded, -, hloaded, -⟩ := h.built q (hpar q hq)
      refine ⟨some loaded, by rw [prevIndex, hloaded]; rfl, ?_⟩
      rw [map_some, chainTx_eq (txView_eq_some hloaded)]
      rfl
  have hbest : ∀ b, blockman.bestHeader = some b →
      ∃ index, blockman.blockIndex.lookup b = some index := by
    intro b hb
    obtain ⟨-, loaded, -, hloaded, -⟩ := h.built b (h.best b hb)
    exact ⟨loaded, hloaded⟩
  have hfresh : index.loaded.nChainTx = 0 := rfl
  obtain ⟨hchain, hwaits⟩ := loadChainTx_eq hfresh hcount
  obtain ⟨loaded, hloaded⟩ : ∃ loaded : CBlockIndex, loaded =
    { index.loaded with
      toIndexNode := index.toIndexNode
      nChainTx := (loadChainTx prev index.loaded).1
      nStatus := loadStatus prev index.loaded.nStatus } := ⟨_, rfl⟩
  obtain ⟨best, hbest', hmem⟩ := exists_loadBestHeader addr p loaded hbest
  refine ⟨loaded, best, ?_, ?_, ?_⟩
  · constructor
    · rw [hloaded]
    · rw [hloaded]
      rfl
    · rw [hloaded]
      exact hchain
  · intro b hb
    rcases hmem b hb with rfl | hold
    · exact mem_cons_self
    · exact mem_cons_of_mem _ (h.best b hold)
  · unfold loadIndex
    rw [hload, derefPtr, ok_bind, toIndexNode_loaded, hlast, ok_bind,
      hwork, ok_bind, htime, ok_bind]
    change (prevIndex blockman.blockIndex index.pprev >>= _) = _
    rw [hprev, ok_bind]
    dsimp only
    change (buildSkip blockman.heap index.pprev index.nHeight >>= _) = _
    rw [hskip, ok_bind]
    change (loadBestHeader addr blockman.blockIndex blockman.bestHeader p
      { index.loaded with
        toIndexNode := index.toIndexNode
        nChainTx := (loadChainTx prev index.loaded).1
        nStatus := loadStatus prev index.loaded.nStatus } >>= _) = _
    rw [← hloaded, hbest', ok_bind]
    have hflag : ∀ q, index.pprev = some q → ((loadChainTx prev index.loaded).2 = true ↔
        index.nTx ≠ 0 ∧ blockman.blockIndex.txView.chainTx q = 0) := by
      intro q hq
      have hsome : index.loaded.pprev = some q := hq
      rw [hwaits, hsome]
      simp [show index.loaded.nTx = index.nTx from rfl]
    rw [hloaded]
    change Except.ok { blockman with
      blockIndex := _
      blocksUnlinked := match index.pprev with
        | some q => if (loadChainTx prev index.loaded).2 = true then _ else _
        | none => _
      bestHeader := _ } = _
    cases hq : index.pprev with
    | none => rfl
    | some q =>
      simp only [hflag q hq]
      rfl

variable {q : Uint256}

theorem RebuildInv.parent_mem (h : RebuildInv blocks done blockman)
    (hp : blocks.lookup p = some index) (hdone : p ∈ done) (hq : index.pprev = some q) :
    q ∈ done := by
  have hnode : blocks.heap.restrict done p = some index.toIndexNode := by
    unfold restrict
    rw [if_pos hdone]
    exact heap_eq_some.mpr ⟨index, hp, rfl⟩
  obtain ⟨prev, hprev, -⟩ := h.linked.parent hnode hq
  unfold restrict at hprev
  by_contra hnot
  cases (if_neg hnot).symm.trans hprev

theorem RebuildInv.pprev_mem (h : RebuildInv blocks done blockman) {n : TxNode}
    (hp : blockman.blockIndex.txView p = some n) (hdone : p ∈ done) (hq : n.pprev = some q) :
    q ∈ done := by
  obtain ⟨index, loaded, hindex, hloaded, hnode, -⟩ := h.built p hdone
  cases (txView_eq_some hloaded).symm.trans hp
  have hq' : index.pprev = some q := by rw [← hnode]; exact hq
  exact h.parent_mem hindex hdone hq'

private theorem RebuildInv.waits_insert (h : RebuildInv blocks done blockman) {loaded : CBlockIndex}
    (hnew : p ∉ done) (hrebuilt : Rebuilt index loaded blockman.blockIndex.txView.chainTx)
    (hpar : ∀ q, index.pprev = some q → q ∈ done) (q x : Uint256) :
    ((q, x) ∈ blockman.blocksUnlinked ∨ x = p ∧ index.nTx ≠ 0 ∧ index.pprev = some q ∧
        blockman.blockIndex.txView.chainTx q = 0) ↔
      x ∈ p :: done ∧ ∃ n, txView (blockman.blockIndex.insert p loaded) x = some n ∧
        n.nTx ≠ 0 ∧ n.pprev = some q ∧
        (txView (blockman.blockIndex.insert p loaded)).chainTx q = 0 := by
  have hpprev : loaded.pprev = index.pprev := congrArg pprev hrebuilt.node
  have hkeep : ∀ r ∈ done, (blockman.blockIndex.txView.set p loaded.txNode).chainTx r =
      blockman.blockIndex.txView.chainTx r := by
    intro r hr
    have hne : r ≠ p := fun heq => hnew (heq ▸ hr)
    rw [chainTx_set, if_neg hne]
  rw [txView_insert]
  constructor
  · rintro (hmem | ⟨rfl, htx, hq, hzero⟩)
    · obtain ⟨hdone, n, hn, htx, hq, hzero⟩ := (h.waits q x).mp hmem
      have hne : x ≠ p := fun heq => hnew (heq ▸ hdone)
      rw [← hkeep q (h.pprev_mem hn hdone hq)] at hzero
      exact ⟨mem_cons_of_mem _ hdone, n, set_eq_some.mpr (.inr ⟨hne, hn⟩), htx, hq,
        hzero⟩
    · rw [← hkeep q (hpar q hq)] at hzero
      rw [← hrebuilt.nTx] at htx
      rw [← hpprev] at hq
      exact ⟨mem_cons_self, _, set_eq_some.mpr (.inl ⟨rfl, rfl⟩), htx, hq, hzero⟩
  · rintro ⟨hdone, n, hn, htx, hq, hzero⟩
    rcases set_eq_some.mp hn with ⟨rfl, rfl⟩ | ⟨hne, hn⟩
    · have hq' : index.pprev = some q := hpprev ▸ hq
      rw [hkeep q (hpar q hq')] at hzero
      have htx' : index.nTx ≠ 0 := by rw [← hrebuilt.nTx]; exact htx
      exact .inr ⟨rfl, htx', hq', hzero⟩
    · have hdone := (mem_cons.mp hdone).resolve_left hne
      rw [hkeep q (h.pprev_mem hn hdone hq)] at hzero
      exact .inl ((h.waits q x).mpr ⟨hdone, n, hn, htx, hq, hzero⟩)

theorem loadIndex_rebuildInv (addr : Uint256 → ℕ) (hH : Coherent params blocks.heap)
    (h : RebuildInv blocks done blockman) (hp : blocks.lookup p = some index) (hnew : p ∉ done)
    (hroot : index.pprev = none → index.pskip = none) (hpar : ∀ q, index.pprev = some q → q ∈ done)
    :
    ∃ blockman', loadIndex params addr blockman p = .ok blockman' ∧
      RebuildInv blocks (p :: done) blockman' := by
  obtain ⟨loaded, best, hrebuilt, hbest, hrun⟩ :=
    exists_loadIndex addr hH h hp hnew hroot hpar
  refine ⟨_, hrun, ?_⟩
  have hnode := heap_eq_some.mpr ⟨index, hp, rfl⟩
  have hpprev : loaded.pprev = index.pprev := congrArg pprev hrebuilt.node
  -- Counts of rebuilt indices, the parents among them, do not change.
  have hkeep : ∀ q ∈ done, (txView (blockman.blockIndex.insert p loaded)).chainTx q =
      blockman.blockIndex.txView.chainTx q := by
    intro q hq
    have hne : q ≠ p := fun heq => hnew (heq ▸ hq)
    rw [txView_insert, chainTx_set, if_neg hne]
  exact {
    linked := by
      rw [restrict_cons hnode]
      refine .extend hH h.linked (blocks.heap.restrict_le done) hnode ?_ ?_
      · exact fun q hq => h.exists_restrict (hpar q hq)
      · exact if_neg hnew
    built := by
      intro x hx
      by_cases hxp : x = p
      · refine ⟨index, loaded, hxp ▸ hp, by rw [hxp]; exact AList.lookup_insert _,
          hrebuilt.node, hrebuilt.nTx, ?_⟩
        rw [hrebuilt.chainTx]
        apply TxNode.linked_congr rfl rfl
        intro q hq
        exact (hkeep q (hpar q (hpprev ▸ hq))).symm
      · have hdone := (mem_cons.mp hx).resolve_left hxp
        obtain ⟨index', loaded', hindex', hloaded', hsame, htx, hchain⟩ := h.built x hdone
        refine ⟨index', loaded', hindex', ?_, hsame, htx, ?_⟩
        · rw [← hloaded']
          exact AList.lookup_insert_ne hxp
        · rw [hchain]
          apply TxNode.linked_congr rfl rfl
          intro q hq
          have hq' : index'.pprev = some q := by rw [← hsame]; exact hq
          exact (hkeep q (h.parent_mem hindex' hdone hq')).symm
    rest := by
      intro x hx
      rw [mem_cons, not_or] at hx
      rw [← h.rest x hx.2]
      exact AList.lookup_insert_ne hx.1
    waits := by
      intro q x
      rw [← h.waits_insert hnew hrebuilt hpar q x]
      dsimp only
      cases hq : index.pprev with
      | none => simp
      | some r =>
        dsimp only
        split_ifs with hwait
        · rw [mem_append, mem_singleton, Prod.mk.injEq, some_inj]
          constructor
          · rintro (hmem | ⟨rfl, rfl⟩)
            · exact .inl hmem
            · exact .inr ⟨rfl, hwait.1, rfl, hwait.2⟩
          · rintro (hmem | ⟨hx, -, hr, -⟩)
            · exact .inl hmem
            · exact .inr ⟨hr.symm, hx⟩
        · constructor
          · exact .inl
          · rintro (hmem | ⟨-, htx, hr, hzero⟩)
            · exact hmem
            · cases hr
              exact absurd ⟨htx, hzero⟩ hwait
    best := hbest }

theorem loadIndex_foldlM (addr : Uint256 → ℕ) (hH : Coherent params blocks.heap)
    (hroot : ∀ {p index}, blocks.lookup p = some index → index.pprev = none → index.pskip = none)
    {order : List Uint256}
    (hkeys : ∀ {p index}, blocks.lookup p = some index → p ∈ done ∨ p ∈ order)
    (hmem : ∀ p ∈ order, p ∉ done ∧ ∃ index, blocks.lookup p = some index)
    (hnodup : order.Nodup)
    (hsorted : order.Pairwise fun p q => ∀ {i j}, blocks.lookup p = some i →
      blocks.lookup q = some j → i.nHeight ≤ j.nHeight)
    (h : RebuildInv blocks done blockman) :
    ∃ blockman', order.foldlM (loadIndex params addr) blockman = .ok blockman' ∧
      RebuildInv blocks (order.reverse ++ done) blockman' := by
  induction order generalizing done blockman with
  | nil => exact ⟨blockman, rfl, h⟩
  | cons p order ih =>
    obtain ⟨hnew, index, hp⟩ := hmem p mem_cons_self
    obtain ⟨hnot, hnodup⟩ := nodup_cons.mp hnodup
    obtain ⟨hfirst, hsorted⟩ := pairwise_cons.mp hsorted
    have hpar : ∀ q, index.pprev = some q → q ∈ done := by
      intro q hq
      obtain ⟨prev, hprev, hheight⟩ :=
        hH.parent (heap_eq_some.mpr ⟨index, hp, rfl⟩) hq
      obtain ⟨prev', hprev', rfl⟩ := heap_eq_some.mp hprev
      rcases hkeys hprev' with hdone | horder
      · exact hdone
      · rcases mem_cons.mp horder with rfl | horder
        · cases hp.symm.trans hprev'
          omega
        · have hle := hfirst q horder hp hprev'
          omega
    obtain ⟨blockman', hload, hinv⟩ := loadIndex_rebuildInv addr hH h hp hnew (hroot hp) hpar
    have hkeys' : ∀ {x i}, blocks.lookup x = some i → x ∈ p :: done ∨ x ∈ order := by
      intro x i hx
      rcases hkeys hx with hdone | horder
      · exact .inl (mem_cons_of_mem _ hdone)
      · rcases mem_cons.mp horder with rfl | horder
        · exact .inl mem_cons_self
        · exact .inr horder
    have hmem' : ∀ x ∈ order, x ∉ p :: done ∧ ∃ i, blocks.lookup x = some i := by
      intro x hx
      obtain ⟨hxdone, hxindex⟩ := hmem x (mem_cons_of_mem _ hx)
      refine ⟨?_, hxindex⟩
      rw [mem_cons, not_or]
      exact ⟨fun heq => hnot (heq ▸ hx), hxdone⟩
    obtain ⟨blockman'', hfold, hfinal⟩ := ih hkeys' hmem' hnodup hsorted hinv
    refine ⟨blockman'', ?_, by simpa using hfinal⟩
    rw [foldlM_cons, hload, ok_bind]
    exact hfold

variable (hall : ∀ {p index}, blocks.lookup p = some index → p ∈ done)
include hall

theorem RebuildInv.heap_eq (h : RebuildInv blocks done blockman) :
    blockman.heap = blocks.heap := by
  funext p
  cases hp : blocks.lookup p with
  | some index =>
    obtain ⟨index', loaded, hindex', hloaded, hnode, -⟩ := h.built p (hall hp)
    cases hp.symm.trans hindex'
    rw [heap_eq_some.mpr ⟨index, hp, rfl⟩]
    exact heap_eq_some.mpr ⟨loaded, hloaded, hnode⟩
  | none =>
    have hnot : p ∉ done := by
      intro hdone
      obtain ⟨index, -, hindex, -⟩ := h.built p hdone
      cases hp.symm.trans hindex
    have hrest := h.rest p hnot
    rw [hp] at hrest
    unfold BlockManager.heap heap
    rw [hrest, hp]
    rfl

variable {txCount total : Uint256 → ℕ} {unlinked : List (Uint256 × Uint256)}

/-- The counts are those of linking: the same rule for both. -/
theorem RebuildInv.txView_eq (h : RebuildInv blocks done blockman) (hH : Linked blocks.heap)
    (hinv : DataInv txCount total blocks.txView unlinked []) :
    blockman.blockIndex.txView = blocks.txView := by
  -- The rule for one index, with the counts of its parent already known to agree.
  have hrule : ∀ {p index}, blocks.lookup p = some index →
      (∀ q, index.pprev = some q →
        blockman.blockIndex.txView.chainTx q = blocks.txView.chainTx q) →
      blockman.blockIndex.txView p = blocks.txView p := by
    intro p index hp hpar
    obtain ⟨index', loaded, hindex', hloaded, hnode, htx, hchain⟩ := h.built p (hall hp)
    cases hp.symm.trans hindex'
    have hpprev : loaded.pprev = index.pprev := congrArg pprev hnode
    have hlinked : index.nChainTx = index.txNode.linked blocks.txView.chainTx := by
      rcases hinv.linked (txView_eq_some hp) with hlink | ⟨hmem, -⟩
      · exact hlink
      · cases hmem
    have hcount : loaded.nChainTx = index.nChainTx := by
      rw [hchain, hlinked]
      exact TxNode.linked_congr hpprev htx hpar
    rw [txView_eq_some hp, txView_eq_some hloaded]
    unfold txNode
    rw [hpprev, htx, hcount]
  have hsame : ∀ p, hH.forest.Mem p → ∀ index, blocks.lookup p = some index →
      blockman.blockIndex.txView p = blocks.txView p := by
    intro p hmem
    refine hH.forest.induction ?_ ?_ hmem
    · intro p hmem hroot index hp
      rw [hH.forest_parent (heap_eq_some.mpr ⟨index, hp, rfl⟩)] at hroot
      refine hrule hp fun q hq => ?_
      cases hroot.symm.trans hq
    · intro p q hmem hpar ih index hp
      rw [hH.forest_parent (heap_eq_some.mpr ⟨index, hp, rfl⟩)] at hpar
      refine hrule hp fun r hr => ?_
      cases hpar.symm.trans hr
      obtain ⟨prev, hprev, -⟩ := hH.parent (heap_eq_some.mpr ⟨index, hp, rfl⟩) hpar
      obtain ⟨prev', hprev', -⟩ := heap_eq_some.mp hprev
      unfold chainTx
      rw [ih prev' hprev']
  funext p
  cases hp : blocks.lookup p with
  | some index =>
    exact hsame p (hH.mem_of_eq (heap_eq_some.mpr ⟨index, hp, rfl⟩)) index hp
  | none =>
    have hheap := congrFun (h.heap_eq hall) p
    have hnone : blocks.heap p = none := by
      unfold heap
      rw [hp]
      rfl
    rw [hnone] at hheap
    unfold BlockManager.heap heap at hheap
    unfold txView
    rw [hp, map_eq_none_iff.mp hheap]

theorem RebuildInv.waits_iff (h : RebuildInv blocks done blockman) (hH : Linked blocks.heap)
    (hinv : DataInv txCount total blocks.txView unlinked []) (q p : Uint256) :
    (q, p) ∈ blockman.blocksUnlinked ↔ (q, p) ∈ unlinked := by
  rw [h.waits, hinv.waits, h.txView_eq hall hH hinv]
  constructor
  · exact fun hwait => hwait.2
  · rintro ⟨n, hn, hwait⟩
    obtain ⟨index, hp, -⟩ := map_eq_some_iff.mp hn
    exact ⟨hall hp, n, hn, hwait⟩

end
end Vexta
