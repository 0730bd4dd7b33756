import Vexta.Chain.MedianTime
import Vexta.Validation.ChainWork
import Vexta.Validation.Reload

/-! What every run leaves in the block index: pointers by algorithm and counts of transactions. -/
namespace Vexta
open Lib Heap Option BlockMap

def nearestAlgo (H : Heap) (algo : Algo) : ℕ → Uint256 → Option Uint256
  | 0, _ => none
  | n + 1, p => (H p).bind fun index =>
    if index.getAlgo = algo then some p else index.pprev.bind (nearestAlgo H algo n)

theorem Linked.lastAlgo_eq {H : Heap} (hH : Linked H) {p : Uint256} {index : IndexNode}
    (hp : H p = some index) {algo : Algo} (ha : algo ≠ .unknown) :
    index.lastAlgoBlocks.get algo = nearestAlgo H algo (index.nHeight + 1) p ∧
      lastAlgoWalk H algo 2 (some p) = .ok (nearestAlgo H algo (index.nHeight + 1) p) ∧
      getLastBlockIndexForAlgoFast H p algo = .ok (nearestAlgo H algo (index.nHeight + 1) p) := by
  have hnearest : ∀ index, H p = some index →
      index.lastAlgoBlocks.get algo = nearestAlgo H algo (index.nHeight + 1) p := by
    refine hH.forest.induction ?_ ?_ (hH.mem_of_eq hp)
    · intro p _ hroot index hp
      rw [hH.forest_parent hp] at hroot
      rw [hH.lastAlgo hp algo ha, nearestAlgo, hp]
      simp only [bind_some, hroot, bind_none]
    · intro p q _ hpar ih index hp
      rw [hH.forest_parent hp] at hpar
      obtain ⟨prev, hprev, hheight⟩ := hH.parent hp hpar
      rw [hH.lastAlgo hp algo ha, nearestAlgo, hp, hheight]
      simp only [bind_some, hpar, hprev, ih prev hprev]
  have hwalk : ∀ n, lastAlgoWalk H algo (n + 2) (some p) =
      .ok (index.lastAlgoBlocks.get algo) := by
    intro n
    simp only [lastAlgoWalk, deref_eq hp, ok_bind]
    have hself := hH.lastAlgo hp algo ha
    split_ifs at hself ⊢ with halgo
    · rw [hself]
    · rcases hH.lastAlgo_above ha (hH.mem_of_eq hp) index hp with hnone | ⟨q, last, hq, hlast, h, -⟩
      · rw [hnone]
        rfl
      · rw [hq, lastAlgoWalk, deref_eq hlast, ok_bind, if_pos h]
  rw [← hnearest index hp]
  refine ⟨rfl, hwalk 0, ?_⟩
  rw [getLastBlockIndexForAlgoFast, if_neg ha, deref_eq hp, ok_bind]
  exact hwalk index.nHeight

def BlockManager.AlgoNearest (blockman : BlockManager) : Prop :=
  ∀ {p index}, blockman.blockIndex.lookup p = some index → ∀ algo, algo ≠ .unknown →
    ∃ nearest, nearest = nearestAlgo blockman.heap algo (index.nHeight + 1) p ∧
      index.lastAlgoBlocks.get algo = nearest ∧
      getLastBlockIndexForAlgoFast blockman.heap p algo = .ok nearest ∧
      lastAlgoWalk blockman.heap algo 2 (some p) = .ok nearest

theorem BlockManager.algoNearest {blockman : BlockManager} (h : Linked blockman.heap) :
    blockman.AlgoNearest := by
  intro p index hp algo ha
  obtain ⟨hlast, htwo, hfast⟩ := h.lastAlgo_eq (heap_eq_some.mpr ⟨index, hp, rfl⟩) ha
  exact ⟨_, rfl, hlast, hfast, htwo⟩

/-- After any run, and after a reload, the pointer of every index for an algorithm is the first
block of the algorithm along `pprev`, found by the fast search over at most one pointer. -/
theorem lastAlgoBlocks_nearest (config : NodeConfig) (hg : GenesisAsserted config)
    (txCount : Uint256 → ℕ) (hcount : ∀ p, txCount p < 2 ^ 32) (pos : FlatFilePos)
    (events : List BlockEvent) {state : ChainState} {clean : Bool}
    (hrun : runBlocks config txCount pos events = .ok (state, clean)) :
    state.blockman.AlgoNearest ∧
      (state.blockman.blockIndex.lookup 0 = none → ∀ (addr : Uint256 → ℕ)
        (entries : List (Sigma fun _ : Uint256 => CBlockIndex)),
        entries.Perm state.blockman.blockIndex.entries →
        ∃ loaded, loadBlockIndex config.hashes config.network.params addr
            (entries.map fun entry => .ofIndex entry.2) = .ok loaded ∧ loaded.AlgoNearest) := by
  have hinv := runBlocks_runInv hg hcount hrun
  refine ⟨BlockManager.algoNearest hinv.tree.toLinked, fun hnull addr entries hentries => ?_⟩
  obtain ⟨loaded, done, hload, hfinal, hall⟩ := exists_rebuilt hinv hg hnull addr hentries
  refine ⟨loaded, hload, BlockManager.algoNearest ?_⟩
  rw [hfinal.heap_eq hall]
  exact hinv.tree.toLinked

theorem lastAlgoBlocks_nearest_example : ∃ state loaded, reloadRun false = .ok (state, true) ∧
    loadBlockIndex reloadHashes mainParams BitVec.toNat
      (state.blockman.blockIndex.entries.map fun entry => .ofIndex entry.2) = .ok loaded ∧
    state.blockman.AlgoNearest ∧ loaded.AlgoNearest := by
  obtain ⟨state, hrun, -, hentries⟩ := exists_reloadRun
  obtain ⟨hnearest, hreload⟩ := lastAlgoBlocks_nearest reloadConfig reloadConfig_genesis
    (fun _ => 1) (fun _ => by decide) _ _ hrun
  obtain ⟨loaded, hload, hloaded⟩ := hreload (reload_lookup_zero hentries) BitVec.toNat _ (.refl _)
  exact ⟨state, loaded, hrun, hload, hnearest, hloaded⟩

def BlockMap.DataAbove (blocks : BlockMap) (p : Uint256) : Prop :=
  ∀ n q index, stepBack blocks.heap n (some p) = .ok (some q) → blocks.lookup q = some index →
    index.nStatus.haveData

theorem BlockMap.dataAbove_iff {blocks : BlockMap} {p : Uint256} {index : CBlockIndex}
    (hp : blocks.lookup p = some index) : blocks.DataAbove p ↔
      index.nStatus.haveData ∧ ∀ q, index.pprev = some q → blocks.DataAbove q := by
  have hstep : ∀ n, stepBack blocks.heap (n + 1) (some p) = stepBack blocks.heap n index.pprev := by
    intro n
    rw [stepBack, deref_eq (heap_eq_some.mpr ⟨index, hp, rfl⟩), ok_bind]
  constructor
  · intro h
    refine ⟨h 0 p index rfl hp, ?_⟩
    intro q hq n r node hr
    exact h (n + 1) r node (by rw [hstep, hq, hr])
  · rintro ⟨hown, hpar⟩ n q node hq hnode
    cases n with
    | zero =>
      cases hq
      cases hp.symm.trans hnode
      exact hown
    | succ n =>
      rw [hstep] at hq
      cases hprev : index.pprev with
      | none =>
        rw [hprev] at hq
        cases n <;> cases hq
      | some r =>
        rw [hprev] at hq
        exact hpar r hprev n q node hq hnode

/-- After a clean run an index has a count exactly if it and its ancestors have data: that of the
transactions of the chain. A block with data and no count waits for its parent. -/
theorem runBlocks_chainTx (config : NodeConfig) (hg : GenesisAsserted config)
    (txCount total : Uint256 → ℕ) (pos : FlatFilePos) (events : List BlockEvent)
    {state : ChainState} (hrun : runBlocks config txCount pos events = .ok (state, true))
    (htotal : IsChainTotal txCount total fun p => (state.blockman.heap p).map IndexNode.pprev)
    {p : Uint256} {index : CBlockIndex} (hp : state.blockman.blockIndex.lookup p = some index) :
    (index.nChainTx ≠ 0 ↔ state.blockman.blockIndex.DataAbove p) ∧
      (index.nChainTx ≠ 0 → index.nChainTx = total p % 2 ^ 32) ∧
      (index.nStatus.haveData → index.nChainTx = 0 →
        ∃ q, index.pprev = some q ∧ (q, p) ∈ state.blockman.blocksUnlinked) := by
  have hinv := runBlocks_runInv hg (fun p => (htotal.count p).2) hrun
  have hdata := hinv.data rfl total htotal
  have hlinked := hinv.tree.toLinked
  have hown : ∀ {p index}, state.blockman.blockIndex.lookup p = some index →
      (index.nTx ≠ 0 ↔ index.nStatus.haveData) := by
    intro p index hp
    have hnTx := (hinv.index p index hp).nTx
    have hone := (htotal.count p).1
    grind
  have hparent : ∀ {p index}, state.blockman.blockIndex.lookup p = some index → ∀ {q},
      index.pprev = some q → ∃ prev, state.blockman.blockIndex.lookup q = some prev := by
    intro p index hp q hq
    obtain ⟨node, hnode, -⟩ := hlinked.parent (heap_eq_some.mpr ⟨index, hp, rfl⟩) hq
    obtain ⟨prev, hprev, -⟩ := heap_eq_some.mp hnode
    exact ⟨prev, hprev⟩
  have hcount : ∀ index, state.blockman.blockIndex.lookup p = some index →
      (index.nChainTx ≠ 0 ↔ state.blockman.blockIndex.DataAbove p) := by
    refine hlinked.forest.induction ?_ ?_ (hlinked.mem_of_eq (heap_eq_some.mpr ⟨index, hp, rfl⟩))
    · intro p _ hroot index hp
      rw [hlinked.forest_parent (heap_eq_some.mpr ⟨index, hp, rfl⟩)] at hroot
      refine (hdata.nChainTx_ne_zero_iff (txView_eq_some hp)).trans ?_
      rw [dataAbove_iff hp]
      refine and_congr (hown hp) (forall_congr' fun q => imp_congr_right ?_)
      intro hq
      cases hroot.symm.trans hq
    · intro p r _ hpar ih index hp
      rw [hlinked.forest_parent (heap_eq_some.mpr ⟨index, hp, rfl⟩)] at hpar
      refine (hdata.nChainTx_ne_zero_iff (txView_eq_some hp)).trans ?_
      rw [dataAbove_iff hp]
      refine and_congr (hown hp) (forall_congr' fun q => imp_congr_right ?_)
      intro hq
      cases hpar.symm.trans hq
      obtain ⟨prev, hprev⟩ := hparent hp hpar
      rw [TxView.chainTx_eq (txView_eq_some hprev)]
      exact ih prev hprev
  refine ⟨hcount index hp, hdata.sum (txView_eq_some hp), ?_⟩
  intro hhave hzero
  by_contra hwait
  refine (hdata.nChainTx_ne_zero_iff (txView_eq_some hp)).mpr ⟨(hown hp).mpr hhave, ?_⟩ hzero
  intro q hq hnone
  exact hwait ⟨q, hq, hdata.waits.mpr ⟨_, txView_eq_some hp, (hown hp).mpr hhave, hq, hnone⟩⟩

theorem runBlocks_chainTx_example : ∃ state, reloadRun false = .ok (state, true) ∧
    ∀ index, state.blockman.blockIndex.lookup 2 = some index →
      (index.nChainTx ≠ 0 ↔ state.blockman.blockIndex.DataAbove 2) := by
  obtain ⟨state, hrun, -, hentries⟩ := exists_reloadRun
  refine ⟨state, hrun, ?_⟩
  intro index hp
  exact (runBlocks_chainTx reloadConfig reloadConfig_genesis (fun _ => 1) reloadTotal _ _ hrun
    (reloadTotal_isChainTotal hentries) hp).1

/-- The data of a child of a failed parent waits nowhere, and a chain of `2 ^ 32` transactions has
no count. -/
theorem runBlocks_chainTx_lost :
    (reloadRun true).toOption.map (fun run =>
      ((run.1.blockman.blockIndex.lookup 2).map fun index =>
        (index.nStatus.haveData, index.nChainTx, index.pprev), run.1.blockman.blocksUnlinked)) =
      some (some (true, 0, some 1), []) ∧
    ((runBlocks reloadConfig (fun p => if p = 1 then 2 ^ 32 - 1 else 1) ⟨0, 8⟩
      [.header exampleHeader 1782771600, .data 1 ⟨0, 300⟩]).toOption.bind fun run =>
        (run.1.blockman.blockIndex.lookup 1).map fun index =>
          (index.nStatus.haveData, index.nTx, index.nChainTx)) =
      some (true, 2 ^ 32 - 1, 0) := by
  constructor <;> decide +kernel

section
variable (config : NodeConfig) (hg : GenesisAsserted config) (events : List HeaderEvent)
  {blockman : BlockManager} (hrun : runHeaders config events = .ok blockman) {p : Uint256}
  {index : CBlockIndex} (hp : blockman.blockIndex.lookup p = some index)
include hg hrun hp

/-- After any run, the median time past does not fall from a block to its descendants. -/
theorem runHeaders_medianTime {n : ℕ} {q : Uint256}
    (hq : stepBack blockman.heap n (some p) = .ok (some q)) :
    ∃ before after, getMedianTimePast blockman.heap q = .ok before ∧
      getMedianTimePast blockman.heap p = .ok after ∧ before ≤ after := by
  have hinv := runHeaders_treeInv hg hrun
  have hnode : blockman.heap p = some index.toIndexNode := heap_eq_some.mpr ⟨index, hp, rfl⟩
  let T : TimedTree :=
    { heap := blockman.heap
      linked := hinv.toLinked
      later := by
        intro p index q hp hprev
        have hne : p ≠ config.network.params.hashGenesisBlock := by
          rintro rfl
          obtain ⟨work, hroot⟩ := hinv.genesis
          cases hp.symm.trans hroot
          cases hprev
        obtain ⟨q', hq', hchecked⟩ := hinv.checked hp hne
        cases hprev.symm.trans hq'
        exact hchecked.time }
  have habove : T.linked.forest.Above q p :=
    ⟨n, Except.ok.inj ((T.linked.exists_stepBack n hnode).symm.trans hq)⟩
  obtain ⟨node, hq⟩ := T.linked.forest_mem.mp
    (T.linked.forest.above_mem (T.linked.mem_of_eq hnode) habove).1
  exact ⟨_, _, T.getMedianTimePast_eq_medianTime hq, T.getMedianTimePast_eq_medianTime hnode,
    T.medianTime_le_of_above hnode habove⟩

/-- After any run on the main network, the bits of the next block are computed without a fault, for
each algorithm and on top of every index. Their target is within the limit. -/
theorem runHeaders_nextWork (hmain : config.network = .main) {algo : Algo} (ha : algo ≠ .unknown) :
    ∃ bits t, getNextWorkRequired .machine mainParams blockman.heap (some p) algo = .ok bits ∧
      bits < 2 ^ 32 ∧ Uint256.setCompact .machine bits = .ok ⟨t, false, false⟩ ∧
      t ≤ mainParams.powLimit.toNat ∧ (6500 ≤ index.nHeight + 1 → 1 ≤ t) := by
  have hinv := runHeaders_treeInv hg hrun
  rw [hmain] at hinv
  have hmachine := Arith.checked_le_machine Fault.lostBits
  have hnode : blockman.heap p = some index.toIndexNode := heap_eq_some.mpr ⟨index, hp, rfl⟩
  obtain ⟨bits, t, hwork, hlt, hset, hle, hpos, -⟩ :=
    exists_getNextWorkRequired hinv.toLinked hnode (hinv.chainInRange p) ha
  exact ⟨bits, t, getNextWorkRequired_mono mainParams hmachine (Heap.Le.refl _) _ _ bits hwork, hlt,
    Uint256.setCompact_mono hmachine bits _ hset, hle, hpos⟩

end

theorem runHeaders_medianTime_example : ∃ blockman before after,
    runHeaders exampleConfig [.header exampleHeader 1782771000] = .ok blockman ∧
      getMedianTimePast blockman.heap mainParams.hashGenesisBlock = .ok before ∧
      getMedianTimePast blockman.heap 1 = .ok after ∧ before ≤ after := by
  obtain ⟨blockman, index, hrun, hindex, -, hprev⟩ := exists_exampleRun
  have hnode : blockman.heap 1 = some index.toIndexNode := heap_eq_some.mpr ⟨index, hindex, rfl⟩
  have hback : stepBack blockman.heap 1 (some 1) = .ok (some mainParams.hashGenesisBlock) := by
    unfold stepBack
    rw [deref_eq hnode, ok_bind, hprev]
    rfl
  obtain ⟨before, after, hbefore, hafter, hle⟩ :=
    runHeaders_medianTime exampleConfig exampleConfig_genesis _ hrun hindex hback
  exact ⟨blockman, before, after, hrun, hbefore, hafter, hle⟩

theorem runHeaders_nextWork_example : ∃ blockman bits,
    runHeaders exampleConfig [.header exampleHeader 1782771000] = .ok blockman ∧
      getNextWorkRequired .machine mainParams blockman.heap (some 1) .randomX = .ok bits := by
  obtain ⟨blockman, index, hrun, hindex, -⟩ := exists_exampleRun
  obtain ⟨bits, -, hbits, -⟩ := runHeaders_nextWork exampleConfig exampleConfig_genesis _ hrun
    hindex rfl (show Algo.randomX ≠ .unknown from nofun)
  exact ⟨blockman, bits, hrun, hbits⟩

end Vexta
