import Vexta.Validation.Rebuild

/-! A restart gives back the block index that was written. -/
namespace Vexta
open Lib Uint256 List BlockMap CBlockIndex

instance (blocks : BlockMap) (addr : Uint256 → ℕ) : Std.Total (HeightOrder blocks addr) where
  total p q := by
    unfold HeightOrder
    dsimp only
    omega

instance (blocks : BlockMap) (addr : Uint256 → ℕ) : IsTrans Uint256 (HeightOrder blocks addr) where
  trans p q r := by
    unfold HeightOrder
    dsimp only
    omega

variable {config : NodeConfig} {txCount : Uint256 → ℕ} {run : ChainState × Bool}
  {blocks read : BlockMap}

theorem RunInv.writable (hinv : RunInv config txCount run) (hg : GenesisAsserted config)
    (hnull : run.1.blockman.blockIndex.lookup 0 = none) :
    Writable config.hashes run.1.blockman.blockIndex where
  hash := by
    intro p index hp
    have hnode := heap_eq_some.mpr ⟨index, hp, rfl⟩
    by_cases hgen : p = config.network.params.hashGenesisBlock
    · obtain ⟨work, hwork⟩ := hinv.tree.genesis
      rw [hgen] at hnode ⊢
      have heq := Option.some.inj (hnode.symm.trans hwork)
      have hheader : (rootNode config.network.params.hashGenesisBlock config.network.genesis
          work).getBlockHeader = config.network.genesis := by
        cases config.network <;> rfl
      rw [heq, hheader]
      exact hg
    · obtain ⟨q, -, hchecked⟩ := hinv.tree.checked hnode hgen
      exact hchecked.hash
  parent := by
    intro p index q hp hq
    obtain ⟨prev, hprev, -⟩ := hinv.tree.parent (heap_eq_some.mpr ⟨index, hp, rfl⟩) hq
    obtain ⟨prev', hprev', -⟩ := heap_eq_some.mp hprev
    exact ⟨prev', hprev'⟩
  nonzero := hnull

theorem RunInv.pskip_root (hinv : RunInv config txCount run) {p : Uint256} {index : CBlockIndex}
    (hp : run.1.blockman.blockIndex.lookup p = some index) (hroot : index.pprev = none) :
    index.pskip = none := by
  have hnode := heap_eq_some.mpr ⟨index, hp, rfl⟩
  by_cases hgen : p = config.network.params.hashGenesisBlock
  · obtain ⟨work, hwork⟩ := hinv.tree.genesis
    rw [hgen] at hnode
    have heq := Option.some.inj (hnode.symm.trans hwork)
    rw [heq]
    rfl
  · obtain ⟨q, hq, -⟩ := hinv.tree.checked hnode hgen
    cases hroot.symm.trans hq

theorem pairwise_height (addr : Uint256 → ℕ)
    (hread : ∀ p, read.lookup p = (blocks.lookup p).map loaded) :
    (read.keys.insertionSort (HeightOrder read addr)).Pairwise fun p q =>
      ∀ {i j}, blocks.lookup p = some i → blocks.lookup q = some j → i.nHeight ≤ j.nHeight := by
  refine (pairwise_insertionSort (HeightOrder read addr) read.keys).imp ?_
  intro p q hle i j hp hq
  unfold HeightOrder at hle
  simp only [hread, hp, hq, Option.map_some, Option.elim_some] at hle
  have hi : i.loaded.nHeight = i.nHeight := rfl
  have hj : j.loaded.nHeight = j.nHeight := rfl
  omega

theorem rebuildInv_start (hread : ∀ p, read.lookup p = (blocks.lookup p).map loaded) :
    RebuildInv blocks [] { BlockManager.empty with blockIndex := read } where
  linked := by
    have hnone : blocks.heap.restrict [] = fun _ => none := by
      funext p
      simp [Heap.restrict]
    rw [hnone]
    exact ⟨nofun, nofun, nofun, nofun⟩
  built := nofun
  rest p _ := hread p
  waits := by
    intro q p
    constructor
    · nofun
    · nofun
  best := nofun

theorem exists_rebuilt (hinv : RunInv config txCount run) (hg : GenesisAsserted config)
    (hnull : run.1.blockman.blockIndex.lookup 0 = none) (addr : Uint256 → ℕ)
    {entries : List (Sigma fun _ : Uint256 => CBlockIndex)}
    (hentries : entries.Perm run.1.blockman.blockIndex.entries) :
    ∃ loaded done, loadBlockIndex config.hashes config.network.params addr
        (entries.map fun entry => .ofIndex entry.2) = .ok loaded ∧
      RebuildInv run.1.blockman.blockIndex done loaded ∧
      ∀ {p index}, run.1.blockman.blockIndex.lookup p = some index → p ∈ done := by
  obtain ⟨read, hguts, hread⟩ :=
    exists_loadBlockIndexGuts (hinv.writable hg hnull) hentries
  have hperm := perm_insertionSort (HeightOrder read addr) read.keys
  have hkeys : ∀ p, p ∈ read.keys.insertionSort (HeightOrder read addr) ↔
      ∃ index, run.1.blockman.blockIndex.lookup p = some index := by
    intro p
    rw [hperm.mem_iff, ← AList.mem_keys, ← AList.lookup_isSome, hread, Option.isSome_map]
    exact Option.isSome_iff_exists
  obtain ⟨loaded, hfold, hfinal⟩ := loadIndex_foldlM addr hinv.tree.toCoherent
    (fun hp => hinv.pskip_root hp) (fun hp => .inr ((hkeys _).mpr ⟨_, hp⟩))
    (fun p hp => ⟨not_mem_nil, (hkeys p).mp hp⟩)
    (hperm.nodup_iff.mpr read.keys_nodup) (pairwise_height addr hread) (rebuildInv_start hread)
  refine ⟨loaded, _, ?_, hfinal, ?_⟩
  · unfold loadBlockIndex
    rw [hguts, ok_bind]
    exact hfold
  · intro p index hp
    simpa using (hkeys p).mpr ⟨index, hp⟩

/-- After any run, all indices are written and loaded again, in any order and with new addresses.
Every index comes back with its `nChainWork`, `lastAlgoBlocks`, `pskip` and `nTimeMax`. If no data
came for the child of a failed parent, and no chain has a multiple of `2 ^ 32` transactions, also
with its `nChainTx`, and the same blocks wait. -/
theorem loadBlockIndex_rebuilds (config : NodeConfig) (hg : GenesisAsserted config)
    (txCount : Uint256 → ℕ) (hcount : ∀ p, 1 ≤ txCount p ∧ txCount p < 2 ^ 32)
    (pos : FlatFilePos) (events : List BlockEvent) {state : ChainState} {clean : Bool}
    (hrun : runBlocks config txCount pos events = .ok (state, clean))
    (hnull : state.blockman.blockIndex.lookup 0 = none) (addr : Uint256 → ℕ)
    {entries : List (Sigma fun _ : Uint256 => CBlockIndex)}
    (hentries : entries.Perm state.blockman.blockIndex.entries) :
    ∃ loaded, loadBlockIndex config.hashes config.network.params addr
        (entries.map fun entry => .ofIndex entry.2) = .ok loaded ∧
      (∀ p, (loaded.blockIndex.lookup p).map toIndexNode =
        (state.blockman.blockIndex.lookup p).map toIndexNode) ∧
      (clean = true → ∀ total, IsChainTotal txCount total
          (fun p => (state.blockman.heap p).map IndexNode.pprev) →
        (∀ p, (loaded.blockIndex.lookup p).map nChainTx =
          (state.blockman.blockIndex.lookup p).map nChainTx) ∧
        ∀ q p, (q, p) ∈ loaded.blocksUnlinked ↔ (q, p) ∈ state.blockman.blocksUnlinked) := by
  have hinv := runBlocks_runInv hg (fun p => (hcount p).2) hrun
  obtain ⟨loaded, done, hload, hfinal, hall⟩ := exists_rebuilt hinv hg hnull addr hentries
  refine ⟨loaded, hload, ?_, ?_⟩
  · exact congrFun (hfinal.heap_eq hall)
  · intro hclean total htotals
    have hdata := hinv.data hclean total htotals
    constructor
    · intro p
      have hview := congrFun (hfinal.txView_eq hall hinv.tree.toLinked hdata) p
      have hmap := congrArg (Option.map TxNode.nChainTx) hview
      unfold BlockMap.txView at hmap
      rw [Option.map_map, Option.map_map] at hmap
      exact hmap
    · exact hfinal.waits_iff hall hinv.tree.toLinked hdata

def exampleChild : CBlockHeader := { exampleHeader with hashPrevBlock := 1, nTime := 1782771600 }

def reloadHashes : HeaderHashes where
  sha256 bytes :=
    if bytes = Network.main.genesis.serialize then 0
    else if bytes = le 32 0 then mainParams.hashGenesisBlock
    else if bytes = exampleHeader.serialize then 1
    else if bytes = le 32 1 then 1
    else 2
  randomX _ _ := none

def reloadConfig : NodeConfig := ⟨reloadHashes, .main, true⟩

theorem reloadConfig_genesis : GenesisAsserted reloadConfig := by
  unfold GenesisAsserted
  decide +kernel

def reloadEvents (failed : Bool) : List BlockEvent :=
  [.header exampleHeader 1782771600, .header exampleChild 1782771600] ++
    (if failed then [.status 1 ⟨2, false, false, true, false, false⟩] else []) ++
    [.data 2 ⟨0, 300⟩]

def reloadRun (failed : Bool) : Except Fault (ChainState × Bool) :=
  runBlocks reloadConfig (fun _ => 1) ⟨0, 8⟩ (reloadEvents failed)

theorem exists_reloadRun : ∃ state,
    reloadRun false = .ok (state, true) ∧ state.blockman.blocksUnlinked = [(1, 2)] ∧
      state.blockman.blockIndex.entries.map (fun entry => (entry.1, entry.2.pprev)) =
        [(2, some 1), (1, some mainParams.hashGenesisBlock),
          (mainParams.hashGenesisBlock, none)] := by
  have hrun : (reloadRun false).toOption.map (fun run => (run.2, run.1.blockman.blocksUnlinked,
      run.1.blockman.blockIndex.entries.map fun entry => (entry.1, entry.2.pprev))) =
      some (true, [(1, 2)], [(2, some 1), (1, some mainParams.hashGenesisBlock),
        (mainParams.hashGenesisBlock, none)]) := by
    decide +kernel
  cases hres : reloadRun false with
  | error e => rw [hres] at hrun; cases hrun
  | ok run =>
    obtain ⟨state, clean⟩ := run
    rw [hres] at hrun
    simp only [Except.toOption, Option.map_some, Option.some_inj, Prod.mk.injEq] at hrun
    obtain ⟨rfl, hunlinked, hentries⟩ := hrun
    exact ⟨state, rfl, hunlinked, hentries⟩

def reloadTotal (p : Uint256) : ℕ :=
  if p = mainParams.hashGenesisBlock then 1 else if p = 1 then 2 else 3

section
variable {blocks : BlockMap}
  (hentries : blocks.entries.map (fun entry => (entry.1, entry.2.pprev)) =
    [(2, some 1), (1, some mainParams.hashGenesisBlock), (mainParams.hashGenesisBlock, none)])
include hentries

theorem reload_lookup_zero : blocks.lookup 0 = none := by
  have hkeys : blocks.keys = [2, 1, mainParams.hashGenesisBlock] := by
    have hmap := congrArg (List.map Prod.fst) hentries
    rw [map_map] at hmap
    exact hmap
  rw [AList.lookup_eq_none, AList.mem_keys, hkeys]
  decide

theorem reloadTotal_isChainTotal :
    IsChainTotal (fun _ => 1) reloadTotal fun p => (blocks.heap p).map IndexNode.pprev := by
  have hcases : ∀ {p parent}, (blocks.heap p).map IndexNode.pprev = some parent →
      reloadTotal p = 1 + parent.elim 0 reloadTotal ∧ reloadTotal p % 2 ^ 32 ≠ 0 := by
    intro p parent hp
    obtain ⟨node, hnode, rfl⟩ := Option.map_eq_some_iff.mp hp
    obtain ⟨index, hindex, rfl⟩ := heap_eq_some.mp hnode
    have hmem : (p, index.pprev) ∈
        blocks.entries.map fun entry => (entry.1, entry.2.pprev) :=
      mem_map.mpr ⟨⟨p, index⟩, AList.mem_lookup_iff.mp hindex, rfl⟩
    rw [hentries] at hmem
    simp only [mem_cons, Prod.mk.injEq, not_mem_nil, or_false] at hmem
    rcases hmem with ⟨rfl, hq⟩ | ⟨rfl, hq⟩ | ⟨rfl, hq⟩ <;> rw [hq] <;> decide
  exact {
    count := fun _ => by decide
    sum := fun hp => (hcases hp).1
    nonzero := fun hp => (hcases hp).2 }

end

theorem loadBlockIndex_rebuilds_example : ∃ state loaded, reloadRun false = .ok (state, true) ∧
    loadBlockIndex reloadHashes mainParams BitVec.toNat
      (state.blockman.blockIndex.entries.map fun entry => .ofIndex entry.2) = .ok loaded ∧
    (∀ p, (loaded.blockIndex.lookup p).map nChainTx =
      (state.blockman.blockIndex.lookup p).map nChainTx) ∧
    (1, 2) ∈ loaded.blocksUnlinked := by
  obtain ⟨state, hrun, hunlinked, hentries⟩ := exists_reloadRun
  obtain ⟨loaded, hload, -, hdata⟩ := loadBlockIndex_rebuilds reloadConfig reloadConfig_genesis
    (fun _ => 1) (fun _ => by decide) _ _ hrun (reload_lookup_zero hentries) BitVec.toNat
    (List.Perm.refl _)
  obtain ⟨hchain, hwaits⟩ := hdata rfl reloadTotal (reloadTotal_isChainTotal hentries)
  have hmem : ((1 : Uint256), (2 : Uint256)) ∈ state.blockman.blocksUnlinked := by
    rw [hunlinked]
    decide
  exact ⟨state, loaded, hrun, hload, hchain, (hwaits 1 2).mpr hmem⟩

/-- Block 2 does not wait for block 1 after the run and does so after a reload. -/
def WaitsLater (run : Except Fault (ChainState × Bool)) (clean : Bool) : Prop :=
  ∃ state loaded, run = .ok (state, clean) ∧ state.blockman.blockIndex.lookup 0 = none ∧
    loadBlockIndex reloadHashes mainParams BitVec.toNat
      (state.blockman.blockIndex.entries.map fun entry => .ofIndex entry.2) = .ok loaded ∧
    (1, 2) ∉ state.blockman.blocksUnlinked ∧ (1, 2) ∈ loaded.blocksUnlinked

theorem waitsLater_of_eval {run : Except Fault (ChainState × Bool)} {clean : Bool}
    (h : (run.toOption.bind fun r => (loadBlockIndex reloadHashes mainParams BitVec.toNat
      (r.1.blockman.blockIndex.entries.map fun entry => .ofIndex entry.2)).toOption.map fun loaded =>
        (r.2, (r.1.blockman.blockIndex.lookup 0).isNone, r.1.blockman.blocksUnlinked,
          loaded.blocksUnlinked)) = some (clean, true, [], [(1, 2)])) : WaitsLater run clean := by
  obtain ⟨⟨state, clean'⟩, hrun, hmap⟩ := Option.bind_eq_some_iff.mp h
  obtain ⟨loaded, hload, heq⟩ := Option.map_eq_some_iff.mp hmap
  clear hmap
  simp only [Prod.mk.injEq, Option.isNone_iff_eq_none] at heq
  obtain ⟨rfl, hnull, hbefore, hafter⟩ := heq
  refine ⟨state, loaded, ?_, hnull, ?_, by simp [hbefore], by simp [hafter]⟩
  · cases run with
    | error e => cases hrun
    | ok r => exact congrArg Except.ok (Option.some.inj hrun)
  · dsimp only at hload
    generalize loadBlockIndex _ _ _ _ = result at hload ⊢
    cases result with
    | error e => cases hload
    | ok r => exact congrArg Except.ok (Option.some.inj hload)

/-- The chain up to the parent has `2 ^ 32` transactions; the data of the child comes first. -/
def wrappingRun : Except Fault (ChainState × Bool) :=
  runBlocks reloadConfig (fun p => if p = 1 then 2 ^ 32 - 1 else 1) ⟨0, 8⟩
    [.header exampleHeader 1782771600, .header exampleChild 1782771600, .data 2 ⟨0, 300⟩,
      .data 1 ⟨0, 600⟩]

/-- A block whose data arrives while its parent is marked as failed, or whose parent's counter wraps
to zero, waits only after a restart. -/
theorem loadBlockIndex_waits_later : GenesisAsserted reloadConfig ∧
    WaitsLater (reloadRun true) false ∧ WaitsLater wrappingRun true := by
  refine ⟨reloadConfig_genesis, waitsLater_of_eval ?_, waitsLater_of_eval ?_⟩
  · decide +kernel
  · decide +kernel

end Vexta
