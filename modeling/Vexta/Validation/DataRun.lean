import Vexta.Validation.BlockData
import Vexta.Validation.TxLink

/-! Runs of header acceptance and data arrival. -/
namespace Vexta
open Lib Uint256 Option BlockMap AList CBlockIndex BlockStatus BlockMap.SameUnder BlockManager IndexNode

def CBlockIndex.txNode (index : CBlockIndex) : TxNode := ⟨index.pprev, index.nTx, index.nChainTx⟩

def CBlockIndex.eraseLink (index : CBlockIndex) : CBlockIndex :=
  { index with nChainTx := 0, nSequenceId := 0 }

namespace BlockMap

def txView (blocks : BlockMap) : TxView := fun p => (blocks.lookup p).map txNode

variable {blocks : BlockMap} {p : Uint256} {index : CBlockIndex}

theorem txView_eq_some (h : blocks.lookup p = some index) :
    blocks.txView p = some index.txNode := by
  rw [txView, h]
  rfl

theorem txView_insert (blocks : BlockMap) (p : Uint256) (index : CBlockIndex) :
    BlockMap.txView (blocks.insert p index) = blocks.txView.set p index.txNode := by
  funext q
  unfold txView TxView.set
  split_ifs with h
  · rw [h, lookup_insert]
    rfl
  · rw [lookup_insert_ne h]

theorem txView_modify (h : blocks.lookup p = some index) (f : CBlockIndex → CBlockIndex) :
    (blocks.modify p f).txView = blocks.txView.set p (f index).txNode := by
  unfold modify
  rw [h]
  exact txView_insert blocks p (f index)

theorem pprev_txView (blocks : BlockMap) :
    (fun p => (blocks.txView p).map TxNode.pprev) = fun p => (blocks.heap p).map pprev := by
  funext p
  unfold txView heap
  rw [map_map, map_map]
  rfl

end BlockMap

theorem prevChainTx_eq_ok {blocks : BlockMap} {pprev : Option Uint256} {base : ℕ}
    (h : prevChainTx blocks pprev = .ok base) : base = pprev.elim 0 blocks.txView.chainTx := by
  cases pprev with
  | none =>
    cases h
    rfl
  | some q =>
    obtain ⟨index, hindex, rfl⟩ := map_eq_ok.mp h
    have hq := derefPtr_eq_ok.mp hindex
    rw [elim_some, TxView.chainTx_eq (txView_eq_some hq)]
    rfl

theorem linkQueue_same {fuel : ℕ} {state state' : ChainState} {queue : List Uint256}
    (h : linkQueue fuel state queue = .ok state') :
    state.blockman.blockIndex.SameUnder eraseLink state'.blockman.blockIndex := by
  fun_induction linkQueue fuel state queue with
  | case1 => cases h; exact refl _ _
  | case2 => cases h
  | case3 fuel state p queue ih =>
    obtain ⟨index, -, h⟩ := bind_eq_ok.mp h
    obtain ⟨base, -, h⟩ := bind_eq_ok.mp h
    refine trans ?_ (ih base h)
    exact modify _ p fun _ => rfl

section
variable {txCount total : Uint256 → ℕ}

abbrev ChainState.DataInv (txCount total : Uint256 → ℕ) (state : ChainState)
    (queue : List Uint256) : Prop :=
  Vexta.DataInv txCount total state.blockman.blockIndex.txView state.blockman.blocksUnlinked queue

theorem linkQueue_dataInv {fuel : ℕ} {state state' : ChainState} {queue : List Uint256}
    (hinv : state.DataInv txCount total queue) (h : linkQueue fuel state queue = .ok state') :
    state'.DataInv txCount total [] := by
  fun_induction linkQueue fuel state queue with
  | case1 => cases h; exact hinv
  | case2 => cases h
  | case3 fuel state p queue ih =>
    obtain ⟨index, hindex, h⟩ := bind_eq_ok.mp h
    obtain ⟨base, hbase, h⟩ := bind_eq_ok.mp h
    have hp := derefPtr_eq_ok.mp hindex
    refine ih base ?_ h
    have hlink := Vexta.DataInv.link hinv (txView_eq_some hp)
    unfold ChainState.DataInv
    dsimp only
    rw [txView_modify hp, prevChainTx_eq_ok hbase]
    exact hlink

end

/-- `ReceivedBlockTransactions` links a block or lets it wait, or neither. -/
inductive DataOutcome (state : ChainState) (blocks : BlockMap) (p : Uint256)
    (pprev : Option Uint256) : ChainState → Prop
  | linked (fuel : ℕ) (state' : ChainState)
      (hready : ∀ q, pprev = some q → blocks.txView.chainTx q ≠ 0)
      (h : linkQueue fuel { state with blockman := { state.blockman with blockIndex := blocks } }
        [p] = .ok state') : DataOutcome state blocks p pprev state'
  | waits (q : Uint256) (hq : pprev = some q) (hwait : blocks.txView.chainTx q = 0) :
      DataOutcome state blocks p pprev { state with blockman := { state.blockman with
        blockIndex := blocks
        blocksUnlinked := state.blockman.blocksUnlinked ++ [(q, p)] } }
  | dropped (q : Uint256) (prev : CBlockIndex) (hq : pprev = some q)
      (hprev : blocks.lookup q = some prev) (hwait : prev.haveTxsDownloaded = false)
      (hfailed : prev.nStatus.isValid validTree = false) :
      DataOutcome state blocks p pprev
        { state with blockman := { state.blockman with blockIndex := blocks } }

theorem receivedBlockTransactions_outcome {params : Params} {state state' : ChainState}
    {p : Uint256} {index : CBlockIndex} {nTx : ℕ} {pos : FlatFilePos}
    (hp : state.blockman.blockIndex.lookup p = some index)
    (h : receivedBlockTransactions params state p nTx pos = .ok state') :
    DataOutcome state (state.blockman.blockIndex.modify p (markReceived params nTx pos)) p
      index.pprev state' := by
  unfold receivedBlockTransactions at h
  rw [hp, derefPtr, ok_bind] at h
  cases hq : index.pprev with
  | none =>
    rw [hq] at h
    refine .linked _ _ ?_ h
    rintro r ⟨⟩
  | some q =>
    rw [hq] at h
    dsimp only at h
    obtain ⟨prev, hprev, h⟩ := bind_eq_ok.mp h
    have hprev := derefPtr_eq_ok.mp hprev
    have hcount := TxView.chainTx_eq (txView_eq_some hprev)
    cases htxs : prev.haveTxsDownloaded with
    | true =>
      rw [htxs, if_pos rfl] at h
      refine .linked _ _ ?_ h
      rintro r ⟨⟩
      rw [hcount]
      exact of_decide_eq_true htxs
    | false =>
      rw [htxs, if_neg Bool.false_ne_true] at h
      cases hvalid : prev.nStatus.isValid validTree with
      | true =>
        rw [hvalid, if_pos rfl] at h
        cases h
        refine .waits q rfl ?_
        rw [hcount]
        exact not_not.mp (of_decide_eq_false htxs)
      | false =>
        rw [hvalid, if_neg Bool.false_ne_true] at h
        cases h
        exact .dropped q prev rfl hprev htxs hvalid

structure GoodIndex (txCount : Uint256 → ℕ) (p : Uint256) (index : CBlockIndex) : Prop where
  level : validTree ≤ index.nStatus.valid
  nTx : index.nTx = if index.nStatus.haveData then txCount p else 0

def IndexInv (txCount : Uint256 → ℕ) (blocks : BlockMap) : Prop :=
  ∀ p index, blocks.lookup p = some index → GoodIndex txCount p index

section
variable {txCount total : Uint256 → ℕ} {blocks blocks' : BlockMap}

theorem IndexInv.of_same (h : IndexInv txCount blocks)
    (hsame : blocks.SameUnder
      (fun index => (index.nStatus.valid, index.nStatus.haveData, index.nTx)) blocks') :
    IndexInv txCount blocks' := by
  intro p index hp
  obtain ⟨old, hold, heq⟩ := hsame.exists_of_lookup hp
  have hgood := h p old hold
  simp only [Prod.mk.injEq] at heq
  obtain ⟨hvalid, hdata, htx⟩ := heq
  constructor
  · rw [hvalid]
    exact hgood.level
  · rw [hdata, htx]
    exact hgood.nTx

variable {p : Uint256} {index : CBlockIndex}

theorem IndexInv.insert (h : IndexInv txCount blocks) (hindex : GoodIndex txCount p index) :
    IndexInv txCount (blocks.insert p index) := by
  intro q index' hq
  rcases Assoc.lookup_insert_cases hq with ⟨rfl, rfl⟩ | hq
  · exact hindex
  · exact h q index' hq

theorem IndexInv.modify (h : IndexInv txCount blocks) (p : Uint256)
    {f : CBlockIndex → CBlockIndex}
    (hf : ∀ index, GoodIndex txCount p index → GoodIndex txCount p (f index)) :
    IndexInv txCount (blocks.modify p f) := by
  unfold BlockMap.modify
  cases hp : blocks.lookup p with
  | none => exact h
  | some index => exact h.insert (hf index (h p index hp))

theorem BlockStatus.raiseValidity_valid (status : BlockStatus) (nUpTo : ℕ) :
    status.valid ≤ (status.raiseValidity nUpTo).valid := by
  unfold raiseValidity
  split_ifs with hfailed hlt
  · exact Nat.le_refl _
  · exact Nat.le_of_lt hlt
  · exact Nat.le_refl _

theorem BlockStatus.raiseValidity_haveData (status : BlockStatus) (nUpTo : ℕ) :
    (status.raiseValidity nUpTo).haveData = status.haveData := by
  unfold raiseValidity
  split_ifs <;> rfl

variable {params : Params} {pos : FlatFilePos}

theorem GoodIndex.markReceived (hcount : txCount p < 2 ^ 32) (h : GoodIndex txCount p index) :
    GoodIndex txCount p (markReceived params (txCount p) pos index) where
  level := by
    unfold Vexta.markReceived
    dsimp only
    refine h.level.trans (Nat.le_trans ?_ (raiseValidity_valid _ _))
    exact Nat.le_refl _
  nTx := by
    unfold Vexta.markReceived
    dsimp only
    rw [raiseValidity_haveData, if_pos rfl, Nat.mod_eq_of_lt hcount]

theorem goodIndex_addedIndex (p : Uint256) (block : CBlockHeader) (node : IndexNode) :
    GoodIndex txCount p (addedIndex block node) where
  level := Nat.le_refl 2
  nTx := rfl

theorem IndexInv.addIndex (h : IndexInv txCount blocks) (p : Uint256) (block : CBlockHeader)
    (node : IndexNode) : IndexInv txCount (blocks.addIndex p block node) := by
  intro q index hq
  unfold BlockMap.addIndex at hq
  rw [insert_insert] at hq
  exact h.insert (goodIndex_addedIndex p block node) q index hq

theorem DataInv.addIndex {unlinked : List (Uint256 × Uint256)} {block : CBlockHeader}
    {node : IndexNode} (hnew : blocks.lookup p = none)
    (htotals : IsChainTotal txCount total fun x =>
      ((blocks.addIndex p block node).heap x).map pprev)
    (h : DataInv txCount total blocks.txView unlinked []) :
    DataInv txCount total (blocks.addIndex p block node).txView unlinked [] := by
  rw [← pprev_txView] at htotals
  have hview : (blocks.addIndex p block node).txView =
      blocks.txView.set p (addedIndex block node).txNode := by
    unfold BlockMap.addIndex
    rw [txView_insert, txView_insert]
    funext x
    unfold TxView.set
    split_ifs <;> rfl
  rw [hview] at htotals ⊢
  have hnone : blocks.txView p = none := by rw [BlockMap.txView, hnew]; rfl
  refine h.set ?_ htotals ?_ rfl (.inl rfl) nofun ?_
  · intro n hn
    cases hnone.symm.trans hn
  · intro hdata
    exact absurd rfl hdata
  · intro q x
    constructor
    · exact .inl
    · rintro (hmem | ⟨-, hdata, -⟩)
      · exact hmem
      · exact absurd rfl hdata

theorem DataOutcome.dataInv {state state' : ChainState}
    (hp : state.blockman.blockIndex.lookup p = some index) (hindex : index.nTx = 0)
    (hinv : state.DataInv txCount total [])
    (hclean : ∀ q prev, index.pprev = some q → state.blockman.blockIndex.lookup q = some prev →
      prev.haveTxsDownloaded = false → prev.nStatus.isValid validTree = true)
    (h : DataOutcome state
      (state.blockman.blockIndex.modify p (markReceived params (txCount p) pos)) p index.pprev
      state') : state'.DataInv txCount total [] := by
  obtain ⟨hpos, hlt⟩ := hinv.totals.count p
  have hview := txView_modify hp (markReceived params (txCount p) pos)
  have hnode : (markReceived params (txCount p) pos index).txNode =
      ⟨index.pprev, txCount p, 0⟩ := by
    unfold markReceived txNode
    dsimp only
    rw [Nat.mod_eq_of_lt hlt]
  rw [hnode] at hview
  have hself := txView_eq_some hp
  have hold : ∀ n, state.blockman.blockIndex.txView p = some n → n.nTx = 0 := by
    intro n hn
    cases hself.symm.trans hn
    exact hindex
  have htotals : IsChainTotal txCount total fun x =>
      (state.blockman.blockIndex.txView.set p ⟨index.pprev, txCount p, 0⟩ x).map
        TxNode.pprev := by
    rw [TxView.pprev_set (m := ⟨index.pprev, txCount p, 0⟩) hself rfl]
    exact hinv.totals
  have hcount : (state.blockman.blockIndex.modify p
      (markReceived params (txCount p) pos)).txView.chainTx =
      state.blockman.blockIndex.txView.chainTx := by
    rw [hview]
    exact hinv.chainTx_set hold rfl
  cases h with
  | linked fuel state' hready h =>
    refine linkQueue_dataInv ?_ h
    unfold ChainState.DataInv
    dsimp only
    rw [hview]
    refine hinv.set hold htotals (fun _ => rfl) rfl (.inr List.mem_cons_self) ?_ ?_
    · intro x hx
      have hpar : ∀ q, index.pprev = some q →
          state.blockman.blockIndex.txView.chainTx q ≠ 0 := by
        intro q hq
        rw [← hcount]
        exact hready q hq
      exact ⟨List.mem_singleton.mp hx, by dsimp only; omega, hpar⟩
    · intro q x
      constructor
      · exact .inl
      · rintro (hmem | ⟨-, -, hpar, hzero⟩)
        · exact hmem
        · rw [← hcount] at hzero
          exact absurd hzero (hready q hpar)
  | waits q hq hwait =>
    rw [hcount] at hwait
    unfold ChainState.DataInv
    dsimp only
    rw [hview]
    refine hinv.set hold htotals (fun _ => rfl) rfl (.inl ?_) nofun ?_
    · unfold TxNode.linked
      simp [hq, hwait]
    · intro r x
      rw [List.mem_append, List.mem_singleton, Prod.mk.injEq]
      constructor
      · rintro (hmem | ⟨rfl, rfl⟩)
        · exact .inl hmem
        · exact .inr ⟨rfl, by dsimp only; omega, hq, hwait⟩
      · rintro (hmem | ⟨rfl, -, hpar, -⟩)
        · exact .inl hmem
        · exact .inr ⟨Option.some.inj (hpar.symm.trans hq), rfl⟩
  | dropped q prev hq hprev hwait hfailed =>
    have hne : q ≠ p := by
      rintro rfl
      exact hinv.pprev_ne hself hq
    rw [lookup_modify, if_neg hne] at hprev
    have hvalid := hclean q prev hq hprev hwait
    cases hfailed.symm.trans hvalid

end

/-- A header or block data arrives, flags or failed blocks change. -/
inductive BlockEvent
  | header (block : CBlockHeader) (nAdjustedTime : ℤ)
  | data (p : Uint256) (pos : FlatFilePos)
  | status (p : Uint256) (nStatus : BlockStatus)
  | failed (failedBlocks : List Uint256)

def updateStatus (nStatus : BlockStatus) (index : CBlockIndex) : CBlockIndex :=
  { index with nStatus := { nStatus with
      valid := max index.nStatus.valid nStatus.valid
      haveData := index.nStatus.haveData } }

variable (config : NodeConfig) (txCount : Uint256 → ℕ)

/-- A hash fixes the number of transactions. Data is not received twice. -/
def BlockEvent.apply (state : ChainState) :
    BlockEvent → Except Fault ChainState
  | .header block nAdjustedTime => do
    let accepted ← acceptBlockHeader config state.blockman block nAdjustedTime
    .ok { state with blockman := accepted.2 }
  | .data p pos =>
    match state.blockman.blockIndex.lookup p with
    | none => .ok state
    | some index =>
      if index.nStatus.haveData then .ok state
      else receivedBlockTransactions config.network.params state p (txCount p) pos
  | .status p nStatus =>
    .ok { state with blockman := { state.blockman with
      blockIndex := state.blockman.blockIndex.modify p (updateStatus nStatus) } }
  | .failed failedBlocks =>
    .ok { state with blockman := { state.blockman with failedBlocks := failedBlocks } }

/-- Anything but data for a child of a failed parent without a count. -/
def BlockEvent.clean (state : ChainState) : BlockEvent → Bool
  | .data p _ =>
    match state.blockman.blockIndex.lookup p with
    | none => true
    | some index =>
      match index.pprev.bind fun q => state.blockman.blockIndex.lookup q with
      | none => true
      | some prev =>
        index.nStatus.haveData || prev.haveTxsDownloaded || !prev.nStatus.failed
  | _ => true

def loadGenesisBlock (pos : FlatFilePos) :
    Except Fault ChainState := do
  let blockman ← loadGenesisHeader config
  let hash := config.network.genesis.getHash config.hashes
  receivedBlockTransactions config.network.params ⟨blockman, 1⟩ hash (txCount hash) pos

def runBlocks (pos : FlatFilePos)
    (events : List BlockEvent) : Except Fault (ChainState × Bool) := do
  let state ← loadGenesisBlock config txCount pos
  events.foldlM (fun run event => do
    let state ← event.apply config txCount run.1
    .ok (state, run.2 && event.clean run.1)) (state, true)

structure RunInv (config : NodeConfig) (txCount : Uint256 → ℕ) (run : ChainState × Bool) :
    Prop where
  tree : TreeInv config.hashes config.network run.1.blockman.heap
  index : IndexInv txCount run.1.blockman.blockIndex
  data : run.2 = true → ∀ total, IsChainTotal txCount total
    (fun p => (run.1.blockman.heap p).map pprev) → run.1.DataInv txCount total []

section
variable {config : NodeConfig} {txCount : Uint256 → ℕ} {state state' : ChainState} {clean : Bool}

variable {p : Uint256} {pprev : Option Uint256} {pos : FlatFilePos}

theorem DataOutcome.same {blocks : BlockMap} (h : DataOutcome state blocks p pprev state') :
    blocks.SameUnder eraseLink state'.blockman.blockIndex := by
  cases h with
  | linked fuel state' hready h => exact linkQueue_same h
  | waits q hq hwait => exact refl _ _
  | dropped q prev hq hprev hwait hfailed => exact refl _ _

variable {params : Params}

theorem DataOutcome.heap_eq {nTx : ℕ}
    (h : DataOutcome state (state.blockman.blockIndex.modify p (markReceived params nTx pos)) p
      pprev state') : state'.blockman.heap = state.blockman.heap := by
  have hlink := (h.same.comp toIndexNode).heap_eq
  have hmark := state.blockman.blockIndex.heap_modify p
    (f := markReceived params nTx pos) fun _ => rfl
  exact hlink.trans hmark

theorem DataOutcome.indexInv (hcount : txCount p < 2 ^ 32)
    (hinv : IndexInv txCount state.blockman.blockIndex) (h : DataOutcome state
      (state.blockman.blockIndex.modify p (markReceived params (txCount p) pos)) p pprev state') :
    IndexInv txCount state'.blockman.blockIndex := by
  have hmark : IndexInv txCount
      (state.blockman.blockIndex.modify p (markReceived params (txCount p) pos)) :=
    hinv.modify p fun index hgood => hgood.markReceived hcount
  exact hmark.of_same
    (h.same.comp fun index => (index.nStatus.valid, index.nStatus.haveData, index.nTx))

private theorem RunInv.data_congr (hinv : RunInv config txCount (state, clean))
    (hheap : state'.blockman.heap = state.blockman.heap)
    (hview : state'.blockman.blockIndex.txView = state.blockman.blockIndex.txView)
    (hunlinked : state'.blockman.blocksUnlinked = state.blockman.blocksUnlinked) :
    clean = true → ∀ total, IsChainTotal txCount total
      (fun p => (state'.blockman.heap p).map IndexNode.pprev) →
      state'.DataInv txCount total [] := by
  intro hclean total htotals
  rw [hheap] at htotals
  unfold ChainState.DataInv
  rw [hview, hunlinked]
  exact hinv.data hclean total htotals

private theorem RunInv.and (hinv : RunInv config txCount (state, clean)) (c : Bool) :
    RunInv config txCount (state, clean && c) :=
  ⟨hinv.tree, hinv.index, fun h => hinv.data (Bool.and_eq_true_iff.mp h).1⟩

private theorem runInv_header (hinv : RunInv config txCount (state, clean))
    {block : CBlockHeader} {blockman : BlockManager}
    (h : HeaderOutcome config state.blockman block blockman) :
    RunInv config txCount ({ state with blockman }, clean) where
  tree := h.treeInv hinv.tree
  index := by
    cases h with
    | unchanged => exact hinv.index
    | marked blocks hsame =>
      exact hinv.index.of_same
        (hsame.comp fun index => (index.nStatus.valid, index.nStatus.haveData, index.nTx))
    | added prev node bestHeader hcheck hlink =>
      exact hinv.index.addIndex _ block node
  data := by
    intro hclean total htotals
    cases h with
    | unchanged => exact hinv.data hclean total htotals
    | marked blocks hsame =>
      refine hinv.data_congr ?_ ?_ ?_ hclean total htotals
      · exact (hsame.comp toIndexNode).heap_eq
      · exact funext (hsame.comp txNode)
      · rfl
    | added prev node bestHeader hcheck hlink =>
      have hnew :=
        map_eq_none_iff.mp hcheck.new
      refine .addIndex hnew htotals (hinv.data hclean total (htotals.mono ?_))
      intro p parent hp
      obtain ⟨index, hindex, hparent⟩ := map_eq_some_iff.mp hp
      refine map_eq_some_iff.mpr ⟨index, ?_, hparent⟩
      unfold BlockManager.heap
      dsimp only
      rw [heap_addIndex]
      exact Heap.le_insert hcheck.new node _ _ hindex

private theorem runInv_data (hcount : ∀ p, txCount p < 2 ^ 32)
    (hinv : RunInv config txCount (state, clean)) {index : CBlockIndex}
    (hp : state.blockman.blockIndex.lookup p = some index) (hdata : index.nStatus.haveData = false)
    (h : DataOutcome state (state.blockman.blockIndex.modify p
      (markReceived config.network.params (txCount p) pos)) p index.pprev state') :
    RunInv config txCount (state', clean && (BlockEvent.data p pos).clean state) where
  tree := by
    dsimp only
    rw [h.heap_eq]
    exact hinv.tree
  index := h.indexInv (hcount p) hinv.index
  data := by
    intro hclean total htotals
    obtain ⟨hclean, hevent⟩ := Bool.and_eq_true_iff.mp hclean
    dsimp only at htotals
    rw [h.heap_eq] at htotals
    have hzero : index.nTx = 0 := by
      rw [(hinv.index p index hp).nTx, hdata]
      rfl
    refine h.dataInv hp hzero (hinv.data hclean total htotals) ?_
    intro q prev hq hprev htxs
    have hnot : prev.nStatus.failed = false := by
      unfold BlockEvent.clean at hevent
      simpa [hp, hq, hprev, hdata, htxs] using hevent
    have hlevel := (hinv.index q prev hprev).level
    unfold isValid
    rw [hnot, if_neg Bool.false_ne_true]
    exact decide_eq_true hlevel

theorem BlockEvent.runInv (hcount : ∀ p, txCount p < 2 ^ 32) {event : BlockEvent}
    (hinv : RunInv config txCount (state, clean))
    (h : event.apply config txCount state = .ok state') :
    RunInv config txCount (state', clean && event.clean state) := by
  cases event with
  | header block nAdjustedTime =>
    obtain ⟨⟨result, blockman⟩, hrun, heq⟩ := bind_eq_ok.mp h
    cases heq
    obtain ⟨work, hwork⟩ := hinv.tree.genesis
    have houtcome := acceptBlockHeader_outcome (by rw [hwork]; rfl) hrun
    exact (runInv_header hinv houtcome).and _
  | data p pos =>
    unfold BlockEvent.apply at h
    cases hp : state.blockman.blockIndex.lookup p with
    | none =>
      simp only [hp] at h
      cases h
      exact hinv.and _
    | some index =>
      simp only [hp] at h
      cases hdata : index.nStatus.haveData with
      | true =>
        rw [hdata, if_pos rfl] at h
        cases h
        exact hinv.and _
      | false =>
        rw [hdata, if_neg Bool.false_ne_true] at h
        exact runInv_data hcount hinv hp hdata (receivedBlockTransactions_outcome hp h)
  | status p nStatus =>
    cases h
    have hheap : (state.blockman.blockIndex.modify p (updateStatus nStatus)).heap =
        state.blockman.heap := state.blockman.blockIndex.heap_modify p fun _ => rfl
    have hview : state.blockman.blockIndex.SameUnder txNode
        (state.blockman.blockIndex.modify p (updateStatus nStatus)) := .modify _ p fun _ => rfl
    apply RunInv.and
    exact {
      tree := by
        unfold BlockManager.heap
        dsimp only
        rw [hheap]
        exact hinv.tree
      index := by
        refine hinv.index.modify p fun index hgood => ?_
        exact ⟨hgood.level.trans (Nat.le_max_left _ _), hgood.nTx⟩
      data := hinv.data_congr hheap (funext hview) rfl }
  | failed failedBlocks =>
    cases h
    apply RunInv.and
    exact ⟨hinv.tree, hinv.index, hinv.data⟩

theorem loadGenesisBlock_runInv (hg : GenesisAsserted config) (hcount : ∀ p, txCount p < 2 ^ 32)
    (h : loadGenesisBlock config txCount pos = .ok state) :
    RunInv config txCount (state, true) := by
  obtain ⟨blockman, hload, h⟩ := bind_eq_ok.mp h
  have htree := loadGenesisHeader_treeInv hg hload
  obtain ⟨work, bestHeader, -, rfl⟩ := loadGenesisHeader_eq hg hload
  set node := rootNode config.network.params.hashGenesisBlock config.network.genesis work
  have hempty : IndexInv txCount empty.blockIndex := by
    intro p index hp
    cases hp
  have hstart : RunInv config txCount (⟨{ empty with
      blockIndex := empty.blockIndex.addIndex
        config.network.params.hashGenesisBlock config.network.genesis node
      bestHeader }, 1⟩, true) := {
    tree := htree
    index := hempty.addIndex _ _ _
    data := by
      intro _ total htotals
      refine .addIndex (lookup_empty _) htotals ?_
      exact {
        totals := htotals.mono nofun
        count := nofun
        linked := nofun
        sum := nofun
        ready := nofun
        waits := by
          intro q p
          constructor
          · nofun
          · nofun } }
  rw [show config.network.genesis.getHash config.hashes = _ from hg] at h
  have hp : (empty.blockIndex.addIndex config.network.params.hashGenesisBlock
      config.network.genesis node).lookup config.network.params.hashGenesisBlock =
      some (addedIndex config.network.genesis node) := lookup_insert _
  have hrun := runInv_data hcount hstart hp rfl (receivedBlockTransactions_outcome hp h)
  have hclean : ∀ s : ChainState, s.blockman.blockIndex.lookup
      config.network.params.hashGenesisBlock = some (addedIndex config.network.genesis node) →
      (BlockEvent.data config.network.params.hashGenesisBlock pos).clean s = true := by
    intro s hs
    unfold BlockEvent.clean
    simp only [hs]
    rfl
  rw [hclean _ hp] at hrun
  exact hrun

theorem runBlocks_runInv (hg : GenesisAsserted config) (hcount : ∀ p, txCount p < 2 ^ 32)
    {events : List BlockEvent} {run : ChainState × Bool}
    (h : runBlocks config txCount pos events = .ok run) : RunInv config txCount run := by
  obtain ⟨start, hstart, hrun⟩ := bind_eq_ok.mp h
  refine foldlM_induction (P := RunInv config txCount) ?_
    (loadGenesisBlock_runInv hg hcount hstart) hrun
  rintro ⟨state, clean⟩ event ⟨state', clean'⟩ _ hinv hstep
  obtain ⟨next, hnext, heq⟩ := bind_eq_ok.mp hstep
  cases heq
  exact BlockEvent.runInv hcount hinv hnext

end
end Vexta
