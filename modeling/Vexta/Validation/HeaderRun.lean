import Vexta.Pow.Networks
import Vexta.Validation.HeaderTree

/-! Runs of header acceptance. -/
namespace Vexta
open Lib Uint256 Heap BlockManager CBlockIndex

def CBlockIndex.eraseFailed (index : CBlockIndex) : CBlockIndex :=
  { index with nStatus := { index.nStatus with failedValid := false, failedChild := false } }

variable {p : Uint256} {blockman : BlockManager}

variable {blocks : BlockMap} {config : NodeConfig} {blockman' : BlockManager} {block : CBlockHeader}
  {params : Params} {H H' : Heap}

theorem markFailedChild_same {failedit : Uint256} {fuel : ℕ} {blocks' : BlockMap}
    (h : markFailedChild failedit fuel blocks p = .ok blocks') :
    blocks.SameUnder eraseFailed blocks' := by
  induction fuel generalizing blocks p with
  | zero => cases h
  | succ fuel ih =>
    unfold markFailedChild at h
    split_ifs at h with hp
    · cases h
      exact BlockMap.SameUnder.refl _ _
    · obtain ⟨index, -, h⟩ := bind_eq_ok.mp h
      obtain ⟨pprev, -, h⟩ := bind_eq_ok.mp h
      have hmark : blocks.SameUnder eraseFailed (blocks.modify p fun index =>
          { index with nStatus := { index.nStatus with failedChild := true } }) :=
        .modify blocks p fun _ => rfl
      exact hmark.trans (ih h)

theorem rejectFailedAncestor_same (h : rejectFailedAncestor blockman p = .ok (some blocks)) :
    blockman.blockIndex.SameUnder eraseFailed blocks := by
  unfold rejectFailedAncestor at h
  obtain ⟨prev, -, h⟩ := bind_eq_ok.mp h
  split_ifs at h with hvalid
  · cases h
  · obtain ⟨failed?, -, h⟩ := bind_eq_ok.mp h
    cases failed? with
    | none => cases h
    | some failedit =>
      obtain ⟨index, -, h⟩ := bind_eq_ok.mp h
      split_ifs at h with hassert
      obtain ⟨blocks', hwalk, heq⟩ := map_eq_ok.mp h
      cases heq
      exact markFailedChild_same hwalk

/-- The checks a header has passed when it is added below `prev`. -/
structure Admitted (config : NodeConfig) (H : Heap) (block : CBlockHeader) (prev : IndexNode) :
    Prop where
  notGenesis : block.getHash config.hashes ≠ config.network.params.hashGenesisBlock
  new : H (block.getHash config.hashes) = none
  prev : H block.hashPrevBlock = some prev
  free : checkBlockHeader config.hashes config.network.params block true = .ok none
  contextual : ∃ nAdjustedTime, contextualCheckBlockHeader config.hashes config.network.params H
    config.network.checkpoints config.fCheckpointsEnabled block block.hashPrevBlock nAdjustedTime
    true = .ok none

def addedIndex (block : CBlockHeader) (node : IndexNode) : CBlockIndex :=
  { ofHeader block with
    toIndexNode := node
    nStatus := (ofHeader block).nStatus.raiseValidity BlockStatus.validTree }

def BlockMap.addIndex (blocks : BlockMap) (hash : Uint256) (block : CBlockHeader)
    (node : IndexNode) : BlockMap :=
  (blocks.insert hash (ofHeader block)).insert hash (addedIndex block node)

theorem BlockMap.heap_addIndex (blocks : BlockMap) (hash : Uint256) (block : CBlockHeader)
    (node : IndexNode) : (blocks.addIndex hash block node).heap = blocks.heap.insert hash node := by
  funext q
  unfold addIndex Heap.insert
  rw [heap_insert, heap_insert]
  split_ifs with hq
  · rfl
  · rfl

inductive HeaderOutcome (config : NodeConfig) (blockman : BlockManager) (block : CBlockHeader) :
    BlockManager → Prop
  | unchanged : HeaderOutcome config blockman block blockman
  | marked (blocks : BlockMap) (h : blockman.blockIndex.SameUnder eraseFailed blocks) :
      HeaderOutcome config blockman block { blockman with blockIndex := blocks }
  | added (prev node : IndexNode) (bestHeader : Option Uint256)
      (hcheck : Admitted config blockman.heap block prev)
      (hlink : LinkedUnder config.network.params blockman.heap (block.getHash config.hashes) block
        prev node) :
      HeaderOutcome config blockman block
        { blockman with
          blockIndex := blockman.blockIndex.addIndex (block.getHash config.hashes) block node
          bestHeader := bestHeader }

theorem addToBlockIndex_outcome {prev : IndexNode}
    (hcheck : Admitted config blockman.heap block prev)
    (h : addToBlockIndex config.hashes config.network.params blockman block =
      .ok (p, blockman')) : HeaderOutcome config blockman block blockman' := by
  have hne : block.hashPrevBlock ≠ block.getHash config.hashes := by
    intro heq
    have hprev := hcheck.prev
    rw [heq, hcheck.new] at hprev
    cases hprev
  have hnone : blockman.blockIndex.lookup (block.getHash config.hashes) = none := by
    have hnew := hcheck.new
    unfold heap BlockMap.heap at hnew
    exact Option.map_eq_none_iff.mp hnew
  unfold addToBlockIndex at h
  simp only [hnone, if_neg hne] at h
  obtain ⟨node, hnode, h⟩ := bind_eq_ok.mp h
  obtain ⟨bestHeader, -, h⟩ := bind_eq_ok.mp h
  cases h
  exact .added prev node bestHeader hcheck (linkIndex_eq_ok hcheck.prev hnode)

theorem acceptBlockHeader_outcome {nAdjustedTime : ℤ} {result : Except Rejection Uint256}
    (hgenesis : (blockman.heap config.network.params.hashGenesisBlock).isSome)
    (h : acceptBlockHeader config blockman block nAdjustedTime = .ok (result, blockman')) :
    HeaderOutcome config blockman block blockman' := by
  unfold acceptBlockHeader at h
  dsimp only at h
  split_ifs at h with hg
  · obtain ⟨added, hadded, h⟩ := bind_eq_ok.mp h
    cases h
    have hsome : (blockman.blockIndex.lookup (block.getHash config.hashes)).isSome := by
      rw [hg]
      simpa [heap, BlockMap.heap] using hgenesis
    obtain ⟨index, hindex⟩ := Option.isSome_iff_exists.mp hsome
    unfold addToBlockIndex at hadded
    simp only [hindex] at hadded
    cases hadded
    exact .unchanged
  · cases hself : blockman.blockIndex.lookup (block.getHash config.hashes) with
    | some index =>
      simp only [hself] at h
      cases h
      exact .unchanged
    | none =>
      simp only [hself] at h
      obtain ⟨checked, hfree, h⟩ := bind_eq_ok.mp h
      cases checked with
      | some rejection => cases h; exact .unchanged
      | none =>
        cases hprev : blockman.blockIndex.lookup block.hashPrevBlock with
        | none => simp only [hprev] at h; cases h; exact .unchanged
        | some prev =>
          simp only [hprev] at h
          split_ifs at h with hfailed
          · cases h
            exact .unchanged
          · obtain ⟨contextual, hcontext, h⟩ := bind_eq_ok.mp h
            cases contextual with
            | some rejection => cases h; exact .unchanged
            | none =>
              obtain ⟨marked, hmarked, h⟩ := bind_eq_ok.mp h
              cases marked with
              | some blocks =>
                cases h
                exact .marked blocks (rejectFailedAncestor_same hmarked)
              | none =>
                obtain ⟨added, hadded, h⟩ := bind_eq_ok.mp h
                cases h
                have hcheck : Admitted config blockman.heap block prev.toIndexNode := {
                  notGenesis := hg
                  new := by simp [heap, BlockMap.heap, hself]
                  prev := by simp [heap, BlockMap.heap, hprev]
                  free := hfree
                  contextual := ⟨nAdjustedTime, hcontext⟩ }
                exact addToBlockIndex_outcome hcheck hadded

def CheckedTarget (params : Params) (nBits : BitVec 32) : Prop :=
  setCompact .machine nBits.toNat = .ok ⟨targetOf nBits.toNat, false, false⟩ ∧
    1 ≤ targetOf nBits.toNat ∧ targetOf nBits.toNat ≤ params.powLimit.toNat

theorem checkProofOfWork_eq_true {hash : Uint256} {nBits : BitVec 32}
    (h : checkProofOfWork hash nBits params = .ok true) :
    CheckedTarget params nBits ∧ hash.toNat ≤ targetOf nBits.toNat := by
  unfold checkProofOfWork at h
  obtain ⟨bnTarget, htarget, h⟩ := bind_eq_ok.mp h
  have heq : targetOf nBits.toNat = bnTarget.target := by
    unfold targetOf
    rw [htarget]
  unfold CheckedTarget
  rw [heq, htarget]
  split_ifs at h with hrange hhash
  · cases h
  · cases h
  · push Not at hrange
    obtain ⟨hneg, hzero, hover, hle⟩ := hrange
    have hflags : bnTarget = ⟨bnTarget.target, false, false⟩ := by
      cases bnTarget
      simp_all
    exact ⟨⟨congrArg Except.ok hflags, Nat.pos_of_ne_zero hzero, hle⟩, Nat.le_of_not_lt hhash⟩

def IsPowHash (X : HeaderHashes) (params : Params) (H : Heap) (node : IndexNode) (q : Uint256)
    (powHash : Uint256) : Prop :=
  match node.getAlgo with
  | .sha256d => powHash = node.getBlockHeader.getHash X
  | .randomX => ∃ seed, getRandomXSeed H q node.nHeight params = .ok (some seed) ∧
      node.getBlockHeader.getRandomXPoWHash X seed = some powHash
  | .unknown => False

/-- All that header acceptance checks of an index below `q`. -/
structure HeaderChecked (X : HeaderHashes) (params : Params) (H : Heap) (p : Uint256)
    (node : IndexNode) (q : Uint256) : Prop where
  hash : node.getBlockHeader.getHash X = p
  algo : node.getAlgo ≠ .unknown
  work : getNextWorkRequired .machine params H (some q) node.getAlgo = .ok node.nBits.toNat
  active : node.getAlgo = .randomX →
    ∃ height, params.randomXActivationHeight = some height ∧ height ≤ node.nHeight
  time : ∃ t, getMedianTimePast H q = .ok t ∧ t < node.nTime.toNat
  target : CheckedTarget params node.nBits
  pow : ∃ powHash, IsPowHash X params H node q powHash ∧
    powHash.toNat ≤ targetOf node.nBits.toNat

theorem getRandomXSeed_mono (h : H.Le H') (p : Uint256) (blockHeight : ℤ) (params : Params) :
    Approx (getRandomXSeed H p blockHeight params) (getRandomXSeed H' p blockHeight params) := by
  unfold getRandomXSeed
  refine .bind (deref_mono h p) fun prev _ => ?_
  refine .bind_right fun seedHeight => ?_
  exact .leave fun _ => getAncestor_mono h _ _

theorem HeaderChecked.mono {X : HeaderHashes} (hle : H.Le H') {q : Uint256} {node : IndexNode}
    (h : HeaderChecked X params H p node q) :
    HeaderChecked X params H' p node q where
  hash := h.hash
  algo := h.algo
  work := getNextWorkRequired_mono params (Arith.Le.refl _) hle _ _ _ h.work
  active := h.active
  time := by
    obtain ⟨t, ht, hlt⟩ := h.time
    exact ⟨t, getMedianTimePast_mono hle q t ht, hlt⟩
  target := h.target
  pow := by
    obtain ⟨powHash, hpow, hle'⟩ := h.pow
    refine ⟨powHash, ?_, hle'⟩
    unfold IsPowHash at hpow ⊢
    cases halgo : node.getAlgo with
    | unknown => simp only [halgo] at hpow
    | sha256d => simpa only [halgo] using hpow
    | randomX =>
      simp only [halgo] at hpow ⊢
      obtain ⟨seed, hseed, hhash⟩ := hpow
      exact ⟨seed, getRandomXSeed_mono hle _ _ _ _ hseed, hhash⟩

section
variable {config : NodeConfig} {H : Heap} {block : CBlockHeader} {prev node : IndexNode}

variable {params : Params}

variable {q : Uint256} {X : HeaderHashes}

private theorem checkContextualTime_none {checkpoints : List (ℤ × Uint256)}
    {fCheckpointsEnabled : Bool} {nAdjustedTime : ℤ}
    (h : checkContextualTime params H checkpoints fCheckpointsEnabled block q nAdjustedTime =
      .ok none) : ∃ t, getMedianTimePast H q = .ok t ∧ t < block.nTime.toNat := by
  unfold checkContextualTime at h
  obtain ⟨prev', -, h⟩ := bind_eq_ok.mp h
  obtain ⟨-, h⟩ := check_eq_none.mp h
  obtain ⟨t, ht, h⟩ := bind_eq_ok.mp h
  obtain ⟨hold, -⟩ := check_eq_none.mp h
  exact ⟨t, ht, Int.lt_of_not_ge hold⟩

private theorem checkBlockHeader_sha256d (hg : block.getHash X ≠ params.hashGenesisBlock)
    (halgo : block.getAlgo = .sha256d) (h : checkBlockHeader X params block true = .ok none) :
    checkProofOfWork (block.getHash X) block.nBits params = .ok true := by
  unfold checkBlockHeader at h
  simp only [not_true_eq_false, if_false, if_neg hg, halgo] at h
  obtain ⟨passed, hpassed, h⟩ := bind_eq_ok.mp h
  cases passed with
  | true => exact hpassed
  | false => cases h

private theorem checkContextualRandomX_none (hprev : H q = some prev)
    (h : checkContextualRandomXProofOfWork X params H block q true = .ok none) :
    (∃ height, params.randomXActivationHeight = some height ∧
        height ≤ (prev.nHeight : ℤ) + 1) ∧
      getNextWorkRequired .machine params H (some q) .randomX = .ok block.nBits.toNat ∧
      ∃ seed powHash, getRandomXSeed H q (prev.nHeight + 1) params = .ok (some seed) ∧
        block.getRandomXPoWHash X seed = some powHash ∧
        checkProofOfWork powHash block.nBits params = .ok true := by
  unfold checkContextualRandomXProofOfWork at h
  by_cases hassert : block.getAlgo ≠ .randomX
  · cases (if_pos hassert).symm.trans h
  · rw [if_neg hassert, deref_eq hprev, ok_bind] at h
    obtain ⟨height, hheight, h⟩ := bind_eq_ok.mp h
    obtain ⟨hactive, h⟩ := check_eq_none.mp h
    obtain ⟨required, hrequired, h⟩ := bind_eq_ok.mp h
    obtain ⟨hbits, h⟩ := check_eq_none.mp h
    rw [not_ne_iff] at hbits
    rw [if_neg (by decide)] at h
    have hread : params.randomXActivationHeight = some height := by
      cases hparam : params.randomXActivationHeight with
      | none => simp [readParam, hparam] at hheight
      | some x => simpa [readParam, hparam] using hheight
    refine ⟨⟨height, hread, by omega⟩, by rw [hrequired, hbits], ?_⟩
    unfold checkRandomXProofOfWork at h
    rw [deref_eq hprev, ok_bind] at h
    obtain ⟨seed?, hseed, h⟩ := bind_eq_ok.mp h
    cases seed? with
    | none => cases h
    | some seed =>
      cases hhash : block.getRandomXPoWHash X seed with
      | none => simp [hhash] at h
      | some powHash =>
        simp only [hhash] at h
        obtain ⟨passed, hpassed, h⟩ := bind_eq_ok.mp h
        cases passed with
        | true => exact ⟨seed, powHash, hseed, hhash, hpassed⟩
        | false => cases h

theorem Admitted.checked (hcheck : Admitted config H block prev)
    (hlink : LinkedUnder config.network.params H (block.getHash config.hashes) block prev node) :
    HeaderChecked config.hashes config.network.params H (block.getHash config.hashes) node
      block.hashPrevBlock := by
  obtain ⟨nAdjustedTime, hcontext⟩ := hcheck.contextual
  unfold contextualCheckBlockHeader at hcontext
  obtain ⟨work, hwork, hcontext⟩ := bind_eq_ok.mp hcontext
  cases work with
  | some rejection => cases hcontext
  | none =>
    have hheader := hlink.header
    have hversion : node.getAlgo = block.getAlgo :=
      congrArg algoOfVersion (congrArg CBlockHeader.nVersion hheader)
    have hnBits : node.nBits = block.nBits := congrArg CBlockHeader.nBits hheader
    have hnTime : node.nTime = block.nTime := congrArg CBlockHeader.nTime hheader
    have htime := checkContextualTime_none hcontext
    have hheight : (node.nHeight : ℤ) = (prev.nHeight : ℤ) + 1 := by rw [hlink.height]; push_cast; rfl
    cases halgo : block.getAlgo with
    | unknown =>
      unfold checkContextualWork at hwork
      simp [halgo] at hwork
    | sha256d =>
      have hpow := checkProofOfWork_eq_true
        (checkBlockHeader_sha256d hcheck.notGenesis halgo hcheck.free)
      unfold checkContextualWork at hwork
      simp only [halgo] at hwork
      obtain ⟨required, hrequired, hwork⟩ := bind_eq_ok.mp hwork
      have hbits : block.nBits.toNat = required := by
        by_contra hne
        simp [hne] at hwork
      exact {
        hash := by rw [hheader]
        algo := by rw [hversion, halgo]; decide
        work := by rw [hversion, halgo, hrequired, hnBits, hbits]
        active := by rw [hversion, halgo]; nofun
        time := by rw [hnTime]; exact htime
        target := by rw [hnBits]; exact hpow.1
        pow := by
          refine ⟨block.getHash config.hashes, ?_, by rw [hnBits]; exact hpow.2⟩
          unfold IsPowHash
          rw [hversion, halgo, hheader] }
    | randomX =>
      unfold checkContextualWork at hwork
      simp only [halgo] at hwork
      obtain ⟨⟨height, hparam, hactive⟩, hrequired, seed, powHash, hseed, hhash, hpassed⟩ :=
        checkContextualRandomX_none hcheck.prev hwork
      have hpow := checkProofOfWork_eq_true hpassed
      exact {
        hash := by rw [hheader]
        algo := by rw [hversion, halgo]; decide
        work := by rw [hversion, halgo, hnBits]; exact hrequired
        active := fun _ => ⟨height, hparam, by omega⟩
        time := by rw [hnTime]; exact htime
        target := by rw [hnBits]; exact hpow.1
        pow := by
          refine ⟨powHash, ?_, by rw [hnBits]; exact hpow.2⟩
          unfold IsPowHash
          rw [hversion, halgo, hheader, hheight]
          exact ⟨seed, hseed, hhash⟩ }

end
/-- The invariant of a tree grown from the genesis block. -/
structure TreeInv (X : HeaderHashes) (network : Network) (H : Heap) : Prop
    extends Coherent network.params H where
  genesis : ∃ work, H network.params.hashGenesisBlock =
    some (rootNode network.params.hashGenesisBlock network.genesis work)
  checked : ∀ {p node}, H p = some node → p ≠ network.params.hashGenesisBlock →
    ∃ q, node.pprev = some q ∧ HeaderChecked X network.params H p node q

variable {config : NodeConfig} {blockman : BlockManager}

variable {H : Heap} {block : CBlockHeader} {prev : IndexNode} {blockman' : BlockManager}

theorem TreeInv.insert {node : IndexNode} (hH : TreeInv config.hashes config.network H)
    (hcheck : Admitted config H block prev)
    (hlink : LinkedUnder config.network.params H (block.getHash config.hashes) block prev node) :
    TreeInv config.hashes config.network (H.insert (block.getHash config.hashes) node) where
  toCoherent := hH.toCoherent.insert hcheck.new hcheck.prev hlink
  genesis := by
    obtain ⟨work, hwork⟩ := hH.genesis
    exact ⟨work, le_insert hcheck.new node _ _ hwork⟩
  checked := by
    intro p index hp hne
    have hle := le_insert hcheck.new node
    rcases insert_eq_some.mp hp with ⟨rfl, rfl⟩ | ⟨-, hp⟩
    · exact ⟨block.hashPrevBlock, hlink.pprev, (hcheck.checked hlink).mono hle⟩
    · obtain ⟨q, hq, hchecked⟩ := hH.checked hp hne
      exact ⟨q, hq, hchecked.mono hle⟩

/-- A header, or a change of validity flags or failed blocks. -/
inductive HeaderEvent
  | header (block : CBlockHeader) (nAdjustedTime : ℤ)
  | status (p : Uint256) (nStatus : BlockStatus)
  | failed (failedBlocks : List Uint256)

def HeaderEvent.apply (config : NodeConfig) (blockman : BlockManager) :
    HeaderEvent → Except Fault BlockManager
  | .header block nAdjustedTime =>
    Prod.snd <$> acceptBlockHeader config blockman block nAdjustedTime
  | .status p nStatus =>
    .ok { blockman with
      blockIndex := blockman.blockIndex.modify p fun index => { index with nStatus := nStatus } }
  | .failed failedBlocks => .ok { blockman with failedBlocks := failedBlocks }

def loadGenesisHeader (config : NodeConfig) : Except Fault BlockManager :=
  Prod.snd <$> addToBlockIndex config.hashes config.network.params .empty config.network.genesis

def runHeaders (config : NodeConfig) (events : List HeaderEvent) : Except Fault BlockManager := do
  let blockman ← loadGenesisHeader config
  events.foldlM (fun blockman event => event.apply config blockman) blockman

def GenesisAsserted (config : NodeConfig) : Prop :=
  config.network.genesis.getHash config.hashes = config.network.params.hashGenesisBlock

theorem HeaderOutcome.treeInv (h : HeaderOutcome config blockman block blockman')
    (hinv : TreeInv config.hashes config.network blockman.heap) :
    TreeInv config.hashes config.network blockman'.heap := by
  cases h with
  | unchanged => exact hinv
  | marked blocks hsame =>
    have hheap := (hsame.comp toIndexNode).heap_eq
    unfold heap
    rw [hheap]
    exact hinv
  | added prev node bestHeader hcheck hlink =>
    unfold heap
    dsimp only
    rw [BlockMap.heap_addIndex]
    exact hinv.insert hcheck hlink

theorem HeaderEvent.treeInv {event : HeaderEvent}
    (hinv : TreeInv config.hashes config.network blockman.heap)
    (h : event.apply config blockman = .ok blockman') :
    TreeInv config.hashes config.network blockman'.heap := by
  cases event with
  | header block nAdjustedTime =>
    obtain ⟨⟨result, blockman''⟩, hrun, rfl⟩ := map_eq_ok.mp h
    obtain ⟨work, hwork⟩ := hinv.genesis
    have houtcome := acceptBlockHeader_outcome (by rw [hwork]; rfl) hrun
    exact houtcome.treeInv hinv
  | status p nStatus =>
    cases h
    have hheap := blockman.blockIndex.heap_modify p
      (f := fun index => { index with nStatus := nStatus }) fun _ => rfl
    unfold heap
    rw [hheap]
    exact hinv
  | failed failedBlocks =>
    cases h
    exact hinv

theorem genesisHash_ne_zero (network : Network) : network.params.hashGenesisBlock ≠ 0 := by
  cases network with
  | main => change mainParams.hashGenesisBlock ≠ 0; decide
  | test => change testNetParams.hashGenesisBlock ≠ 0; decide
  | signet challenge => change sigNetParams.hashGenesisBlock ≠ 0; decide
  | regtest args =>
    change (0x3b5c0230bafd65f3dabcda2a30f33cdef0c3cda635e7440bda6909bb581462b7 : Uint256) ≠ 0
    decide

theorem loadGenesisHeader_eq (hg : GenesisAsserted config)
    (h : loadGenesisHeader config = .ok blockman) :
    ∃ work bestHeader,
      computeChainWork config.network.params empty.heap
        (rootNode config.network.params.hashGenesisBlock config.network.genesis work) = .ok work ∧
      blockman = { empty with
        blockIndex := empty.blockIndex.addIndex
          config.network.params.hashGenesisBlock config.network.genesis
          (rootNode config.network.params.hashGenesisBlock config.network.genesis work)
        bestHeader } := by
  obtain ⟨⟨p, blockman'⟩, hrun, rfl⟩ := map_eq_ok.mp h
  have hprev : config.network.genesis.hashPrevBlock = 0 := by cases config.network <;> rfl
  have hne : config.network.genesis.hashPrevBlock ≠ config.network.params.hashGenesisBlock := by
    rw [hprev]
    exact (genesisHash_ne_zero config.network).symm
  have hlookup : empty.blockIndex.lookup
      config.network.params.hashGenesisBlock = none := AList.lookup_empty _
  unfold addToBlockIndex at hrun
  rw [show config.network.genesis.getHash config.hashes = _ from hg] at hrun
  simp only [hlookup, if_neg hne] at hrun
  obtain ⟨node, hnode, hrun⟩ := bind_eq_ok.mp hrun
  obtain ⟨bestHeader, -, hrun⟩ := bind_eq_ok.mp hrun
  cases hrun
  have hroot : empty.heap config.network.genesis.hashPrevBlock = none := rfl
  obtain ⟨heq, hwork⟩ := linkIndex_root hroot hnode
  refine ⟨node.nChainWork, bestHeader, ?_, ?_⟩
  · rw [← heq]
    exact hwork
  · rw [← heq]
    rfl

theorem loadGenesisHeader_treeInv (hg : GenesisAsserted config)
    (h : loadGenesisHeader config = .ok blockman) :
    TreeInv config.hashes config.network blockman.heap := by
  obtain ⟨work, bestHeader, hwork, rfl⟩ := loadGenesisHeader_eq hg h
  have hheap : empty.heap.insert config.network.params.hashGenesisBlock
      (rootNode config.network.params.hashGenesisBlock config.network.genesis work) =
      rootHeap config.network.params.hashGenesisBlock
        (rootNode config.network.params.hashGenesisBlock config.network.genesis work) := rfl
  unfold heap
  dsimp only
  rw [BlockMap.heap_addIndex]
  change TreeInv _ _ (empty.heap.insert _ _)
  rw [hheap]
  exact {
    toCoherent := coherent_root hwork
    genesis := ⟨work, by simp [rootHeap]⟩
    checked := by
      intro p index hp hne
      obtain ⟨rfl, -⟩ := rootHeap_eq_some.mp hp
      exact absurd rfl hne }

theorem runHeaders_treeInv (hg : GenesisAsserted config) {events : List HeaderEvent}
    (h : runHeaders config events = .ok blockman) :
    TreeInv config.hashes config.network blockman.heap := by
  obtain ⟨start, hstart, hrun⟩ := bind_eq_ok.mp h
  refine foldlM_induction (P := fun b => TreeInv config.hashes config.network b.heap) ?_
    (loadGenesisHeader_treeInv hg hstart) hrun
  intro b event b' _ hb hstep
  exact HeaderEvent.treeInv hb hstep

theorem getRandomXSeed_ancestor (hH : Linked H) {params : Params} {q seed : Uint256}
    (hprev : H q = some prev) {blockHeight : ℤ}
    (h : getRandomXSeed H q blockHeight params = .ok (some seed)) :
    ∃ seedHeight : ℤ, getRandomXSeedHeight blockHeight params = .ok seedHeight ∧
      hH.forest.ancestorAt seedHeight.toNat q = some seed ∧ 0 ≤ seedHeight := by
  unfold getRandomXSeed at h
  rw [deref_eq hprev, ok_bind] at h
  obtain ⟨seedHeight, hheight, h⟩ := bind_eq_ok.mp h
  refine ⟨seedHeight, hheight, ?_⟩
  split_ifs at h with hlow
  · cases h
  · have hpos : 0 ≤ seedHeight := by
      by_contra hneg
      unfold getAncestor at h
      rw [deref_eq hprev, ok_bind, if_pos (by omega)] at h
      cases h
    have hcast := Int.toNat_of_nonneg hpos
    rw [← hcast, hH.getAncestor_eq hprev] at h
    exact ⟨Except.ok.inj h, hpos⟩

/-- After every run of header acceptance on the main network, every index but genesis has a known
algorithm, the bits required by its parent, RandomX only from the activation on, a time above the
median time past of its parent, and a proof-of-work hash at most its target, keyed for RandomX by
the hash of an ancestor. -/
theorem runHeaders_checked (config : NodeConfig) (hmain : config.network = .main)
    (hg : GenesisAsserted config) (events : List HeaderEvent) {blockman : BlockManager}
    (hrun : runHeaders config events = .ok blockman) {p : Uint256} {index : CBlockIndex}
    (hp : blockman.blockIndex.lookup p = some index) (hne : p ≠ mainParams.hashGenesisBlock) :
    ∃ q, index.pprev = some q ∧ (index.getAlgo = .sha256d ∨ index.getAlgo = .randomX) ∧
      getNextWorkRequired .machine mainParams blockman.heap (some q) index.getAlgo =
        .ok index.nBits.toNat ∧
      (index.getAlgo = .randomX → 8099 ≤ index.nHeight) ∧
      (∃ t, getMedianTimePast blockman.heap q = .ok t ∧ t < index.nTime.toNat) ∧
      CheckedTarget mainParams index.nBits ∧ index.getBlockHeader.getHash config.hashes = p ∧
      (index.getAlgo = .sha256d → p.toNat ≤ targetOf index.nBits.toNat) ∧
      (index.getAlgo = .randomX → ∃ seedHeight n seed node powHash,
        getRandomXSeedHeight index.nHeight mainParams = .ok seedHeight ∧
        up (fun r => (blockman.heap r).bind IndexNode.pprev) n q = some seed ∧
        blockman.heap seed = some node ∧ (node.nHeight : ℤ) = seedHeight ∧
        index.getBlockHeader.getRandomXPoWHash config.hashes seed = some powHash ∧
        powHash.toNat ≤ targetOf index.nBits.toNat) := by
  have hinv := runHeaders_treeInv hg hrun
  have hparams : config.network.params = mainParams := by rw [hmain]; rfl
  have hnode :=
    BlockMap.heap_eq_some.mpr ⟨index, hp, rfl⟩
  obtain ⟨q, hq, hchecked⟩ := hinv.checked hnode (by rw [hparams]; exact hne)
  obtain ⟨prev, hprev, hheight⟩ := hinv.parent hnode hq
  rw [hparams] at hchecked
  obtain ⟨powHash, hpow, hle⟩ := hchecked.pow
  refine ⟨q, hq, ?_, hchecked.work, ?_, hchecked.time, hchecked.target, hchecked.hash, ?_, ?_⟩
  · cases halgo : index.getAlgo with
    | unknown => exact absurd halgo hchecked.algo
    | sha256d => exact .inl rfl
    | randomX => exact .inr rfl
  · intro halgo
    obtain ⟨height, hparam, hactive⟩ := hchecked.active halgo
    cases hparam
    exact_mod_cast hactive
  · intro halgo
    unfold IsPowHash at hpow
    simp only [halgo] at hpow
    rw [hchecked.hash] at hpow
    rw [← hpow]
    exact hle
  · intro halgo
    unfold IsPowHash at hpow
    simp only [halgo] at hpow
    obtain ⟨seed, hseed, hhash⟩ := hpow
    obtain ⟨seedHeight, hseedHeight, hancestor, hpos⟩ :=
      getRandomXSeed_ancestor hinv.toLinked hprev hseed
    have hmem := hinv.toLinked.mem_of_eq hprev
    have hle' : seedHeight.toNat ≤ hinv.toLinked.forest.height q := by
      by_contra hlt
      rw [Forest.ancestorAt, if_neg hlt] at hancestor
      cases hancestor
    obtain ⟨seed', hseed', hseedmem, hseedh⟩ := hinv.toLinked.forest.exists_ancestorAt hmem hle'
    rw [hancestor] at hseed'
    cases hseed'
    obtain ⟨n, hn⟩ := hinv.toLinked.forest.ancestorAt_above hancestor
    obtain ⟨node, hnode'⟩ := hinv.toLinked.forest_mem.mp hseedmem
    rw [hinv.toLinked.forest_height hnode'] at hseedh
    exact ⟨seedHeight, n, seed, node, powHash, hseedHeight, hn, hnode', by omega, hhash, hle⟩

def exampleHashes : HeaderHashes where
  sha256 bytes :=
    if bytes = Network.main.genesis.serialize then 0
    else if bytes = le 32 0 then mainParams.hashGenesisBlock
    else 1
  randomX _ _ := none

def exampleConfig : NodeConfig := ⟨exampleHashes, .main, true⟩

def exampleHeader : CBlockHeader where
  nVersion := 0x20000200
  hashPrevBlock := mainParams.hashGenesisBlock
  hashMerkleRoot := 0
  nTime := 1782771000
  nBits := 0x1e0fffff
  nNonce := 0

theorem exampleConfig_genesis : GenesisAsserted exampleConfig := by
  unfold GenesisAsserted
  decide +kernel

theorem exists_exampleRun : ∃ blockman index,
    runHeaders exampleConfig [.header exampleHeader 1782771000] = .ok blockman ∧
      blockman.blockIndex.lookup 1 = some index ∧ index.nHeight = 1 ∧
      index.pprev = some mainParams.hashGenesisBlock := by
  have hheight : (((runHeaders exampleConfig [.header exampleHeader 1782771000]).toOption.bind
      fun blockman => blockman.blockIndex.lookup 1).map fun index =>
        (index.nHeight, index.pprev)) = some (1, some mainParams.hashGenesisBlock) := by
    decide +kernel
  cases hrun : runHeaders exampleConfig [.header exampleHeader 1782771000] with
  | error e => rw [hrun] at hheight; cases hheight
  | ok blockman =>
    rw [hrun] at hheight
    obtain ⟨index, hindex, hone⟩ := Option.map_eq_some_iff.mp hheight
    exact ⟨blockman, index, rfl, hindex, Prod.mk.inj hone⟩

theorem runHeaders_checked_example : ∃ blockman index q,
    runHeaders exampleConfig [.header exampleHeader 1782771000] = .ok blockman ∧
      blockman.blockIndex.lookup 1 = some index ∧ index.pprev = some q ∧
      getNextWorkRequired .machine mainParams blockman.heap (some q) index.getAlgo =
        .ok index.nBits.toNat := by
  obtain ⟨blockman, index, hrun, hindex, -⟩ := exists_exampleRun
  obtain ⟨q, hq, -, hwork, -⟩ := runHeaders_checked exampleConfig rfl exampleConfig_genesis _ hrun
    hindex (by decide)
  exact ⟨blockman, index, q, hrun, hindex, hq, hwork⟩

end Vexta
