import Vexta.Connect.Supply

/-! Chains of blocks, each connected to the coins the previous one left. -/
namespace Vexta
open Lib

structure GenesisTree (N : Network) extends BlockTree where
  genesis : ∃ index, heap N.params.hashGenesisBlock = some index ∧ index.pprev = none

structure ConnectCall where
  context : ConnectContext
  block : CBlock
  pindex : Uint256

namespace ConnectCall

structure On {N : Network} (T : GenesisTree N) (call : ConnectCall) : Prop where
  network : call.context.network = N
  heap : call.context.heap.Le T.heap
  notGenesis : call.pindex ≠ N.params.hashGenesisBlock

def nHeight (call : ConnectCall) : ℕ :=
  ((call.context.heap call.pindex).map IndexNode.nHeight).getD 0

def subsidy (N : Network) (call : ConnectCall) : ℤ :=
  getBlockSubsidy call.nHeight N.nSubsidyHalvingInterval

/-- Outputs, and after any number of transactions coins and fees. -/
structure AmountsInRange (call : ConnectCall) (view : CoinsView) : Prop where
  outputs : ∀ tx ∈ call.block.vtx, moneyRange tx.valueOut = true
  loop : ∀ rules done s, done <+: call.block.vtx →
    done.foldlM (connectTx call.context rules) ⟨0, 0, [], view⟩ = .ok s → s.InRange ∧
      ∀ tx txfee, checkTxInputs tx s.view.contents rules.nHeight = .ok txfee →
        moneyRange txfee = true

end ConnectCall

/-- The blocks after genesis were connected one after the other. -/
inductive ConnectedChain {N : Network} (T : GenesisTree N) : List ConnectCall → CoinsView → Prop
  | genesis {C : ConnectContext} {block : CBlock} {blockUndo : CBlockUndo} {view : CoinsView}
      (network : C.network = N)
      (connected : connectBlock C block N.params.hashGenesisBlock .empty = .ok (blockUndo, view)) :
      ConnectedChain T [] view
  | next {calls : List ConnectCall} {call : ConnectCall} {blockUndo : CBlockUndo}
      {view view' : CoinsView} (chain : ConnectedChain T calls view) (on : call.On T)
      (connected : connectBlock call.context call.block call.pindex view = .ok (blockUndo, view')) :
      ConnectedChain T (calls ++ [call]) view'

section
variable {N : Network} {T : GenesisTree N} {calls : List ConnectCall} {call : ConnectCall}
  {view view' : CoinsView} {blockUndo : CBlockUndo}

theorem ConnectCall.On.accepted (on : call.On T)
    (connected : connectBlock call.context call.block call.pindex view = .ok (blockUndo, view')) :
    BlockAccepted call.context call.block call.pindex view blockUndo view' := by
  rcases connectBlock_eq_ok connected with ⟨heq, -⟩ | ⟨-, haccepted⟩
  · rw [on.network] at heq
    exact absurd heq on.notGenesis
  · exact haccepted

theorem ConnectCall.On.bestBlock (on : call.On T)
    (connected : connectBlock call.context call.block call.pindex view = .ok (blockUndo, view'))
    {prev : IndexNode} (hprev : T.heap view.bestBlock = some prev) :
    view'.bestBlock = call.pindex ∧ ∃ index, call.context.heap call.pindex = some index ∧
      T.heap call.pindex = some index ∧ index.nHeight = prev.nHeight + 1 := by
  obtain ⟨index, pprev, hindex, hpprev, hbest, s, -, -, rfl⟩ := (on.accepted connected).index
  have htree := on.heap call.pindex index hindex
  obtain ⟨parent, hparent, hnext⟩ := T.linked.parent htree hpprev
  rw [hbest, hprev] at hparent
  obtain rfl := Option.some.inj hparent
  exact ⟨rfl, index, hindex, htree, hnext⟩

structure ChainSupply (T : GenesisTree N) (calls : List ConnectCall) (view : CoinsView) : Prop where
  bestBlock : ∃ index, T.heap view.bestBlock = some index ∧ index.nHeight = calls.length
  coins : view.InRange
  total : view.totalValue ≤ (calls.map (ConnectCall.subsidy N)).sum
  subsidies : (calls.map (ConnectCall.subsidy N)).sum =
    subsidiesTo N.nSubsidyHalvingInterval calls.length

theorem ChainSupply.start : ChainSupply T [] (CoinsView.empty.setBestBlock N.params.hashGenesisBlock)
    where
  bestBlock := by
    obtain ⟨index, hindex, hroot⟩ := T.genesis
    exact ⟨index, hindex, T.linked.root hindex hroot⟩
  coins _ _ hcoin := by cases hcoin
  total := le_refl 0
  subsidies := rfl

theorem ChainSupply.next (h : ChainSupply T calls view) (on : call.On T)
    (connected : connectBlock call.context call.block call.pindex view = .ok (blockUndo, view')) :
    ChainSupply T (calls ++ [call]) view' := by
  obtain ⟨prev, hprev, hlength⟩ := h.bestBlock
  obtain ⟨hbest, index, hindex, htree, hheight⟩ := on.bestBlock connected hprev
  obtain ⟨hcoins, htotal⟩ := (on.accepted connected).supply hindex h.coins
  rw [on.network] at htotal
  have hsubsidy : call.subsidy N = getBlockSubsidy index.nHeight N.nSubsidyHalvingInterval := by
    unfold ConnectCall.subsidy ConnectCall.nHeight
    rw [hindex]
    rfl
  have hsum : ((calls ++ [call]).map (ConnectCall.subsidy N)).sum =
      (calls.map (ConnectCall.subsidy N)).sum + call.subsidy N := by
    rw [List.map_append, List.sum_append, List.map_singleton, List.sum_singleton]
  have hlast : (calls ++ [call]).length = calls.length + 1 := List.length_append
  constructor
  · refine ⟨index, hbest ▸ htree, ?_⟩
    rw [hheight, hlength, hlast]
  · exact hcoins
  · have hbefore := h.total
    rw [hsum, hsubsidy]
    omega
  · rw [hsum, h.subsidies, hlast, subsidiesTo_succ, hsubsidy, hheight, hlength]

theorem ConnectedChain.supply (h : ConnectedChain T calls view) : ChainSupply T calls view := by
  induction h with
  | genesis network connected =>
    rcases connectBlock_eq_ok connected with ⟨-, -, -, rfl⟩ | ⟨hne, -⟩
    · exact .start
    · rw [network] at hne
      exact absurd rfl hne
  | next chain on connected ih => exact ih.next on connected

theorem ConnectCall.amountsInRange (hview : view.InRange)
    (connected : connectBlock call.context call.block call.pindex view = .ok (blockUndo, view')) :
    call.AmountsInRange view := by
  have hchecked : call.block.Checked := by
    rcases connectBlock_eq_ok connected with ⟨-, hchecked, -⟩ | ⟨-, haccepted⟩
    · exact hchecked
    · exact haccepted.checked
  constructor
  · exact fun tx htx => (hchecked.transactions tx htx).total
  · intro rules done s hdone hloop
    have htxs : ∀ tx ∈ done, tx.Checked := fun tx htx =>
      hchecked.transactions tx (hdone.subset htx)
    have hrange := (connectTxs_supply htxs (Connecting.inRange_start hview) hloop).1
    exact ⟨hrange, fun tx txfee hfee => (checkTxInputs_eq_ok hfee).feeRange⟩

/-- Along a chain from genesis the coins are worth at most the subsidies, which are at most
`MAX_MONEY`; amounts stay in range, and no block overflows a sum. -/
theorem connectedChain_supply (h : ConnectedChain T calls view) :
    view.totalValue ≤ (calls.map (ConnectCall.subsidy N)).sum ∧
      (calls.map (ConnectCall.subsidy N)).sum ≤ maxMoney ∧
      (∀ outpoint coin, view.contents outpoint = some coin → moneyRange coin.out.value = true) ∧
      ∀ next : ConnectCall,
        connectBlock next.context next.block next.pindex view ≠
            .error (.transaction (.fault .lostBits)) ∧
          ∀ accepted, connectBlock next.context next.block next.pindex view = .ok accepted →
            next.AmountsInRange view := by
  have hsupply := h.supply
  refine ⟨hsupply.total, ?_, hsupply.coins, fun next => ⟨fun hoverflow => ?_, ?_⟩⟩
  · rw [hsupply.subsidies]
    exact subsidiesTo_network_le N calls.length
  · exact (sat_connectBlock next.context next.block next.pindex hsupply.coins).error _ hoverflow rfl
  · exact fun accepted haccepted => ConnectCall.amountsInRange hsupply.coins haccepted

end

namespace SampleChain

def hashes : HeaderHashes where
  sha256 b :=
    if b.length = 80 then BitVec.ofNat 256 (b.getD 76 0).toNat
    else if b.headD 0 = 5 then (regTestParams ⟨true, none, none⟩).hashGenesisBlock
    else BitVec.ofNat 256 (b.headD 0).toNat
  randomX _ _ := none

def crypto : Crypto :=
  { acceptingCrypto with
    sha256 := fun b => BitVec.ofNat 256 (b.foldl (fun n x => 256 * n + x.toNat) 1) }

def network : Network := .regtest ⟨true, none, none⟩

def genesisHash : Uint256 := network.params.hashGenesisBlock

def deployments : DeploymentParams where
  bip16Exception := 0
  bip66Height := 0
  bip65Height := 0
  csvHeight := 0
  segwitHeight := 0
  nMinerConfirmationWindow := ⟨144, by decide⟩
  nRuleChangeActivationThreshold := 108
  vDeployments _ := ⟨2, BIP9Deployment.neverActive, 0, 0⟩

def block (nNonce : BitVec 32) (hashPrevBlock : Uint256) (vtx : List CTransaction) : CBlock where
  header := {
    nVersion := 0x200
    hashPrevBlock
    hashMerkleRoot := (blockMerkleRoot crypto vtx).1
    nTime := 1783555201
    nBits := 0x207fffff
    nNonce }
  vtx := vtx

def output (nValue : BitVec 64) : CTxOut := ⟨nValue, [0x51], CScript.short_true⟩

def coinbase (nLockTime : BitVec 32) (vout : List CTxOut) : CTransaction where
  vin := [⟨⟨0, 0xffffffff⟩, [1, 1], 0xffffffff, []⟩]
  vout := vout
  nVersion := 1
  nLockTime := nLockTime

def genesis : CBlock := block 5 0 [coinbase 0 [output 5000000000]]

def root : BlockTree := BlockTree.root genesisHash genesis.header 0

def extend (H : Heap) (hash : Uint256) (block : CBlockHeader) : Heap :=
  match linkIndex network.params H hash block with
  | .ok node => H.insert hash node
  | .error _ => H

theorem linked_extend {H : Heap} {hash : Uint256} {block : CBlockHeader} (hH : Linked H)
    (hnew : H hash = none) (hprev : (H block.hashPrevBlock).isSome) :
    Linked (extend H hash block) := by
  obtain ⟨prev, hprev⟩ := Option.isSome_iff_exists.mp hprev
  unfold extend
  cases hlink : linkIndex network.params H hash block with
  | ok node => exact hH.insert hnew hprev (linkIndex_eq_ok hprev hlink)
  | error fault => exact hH

def context (heap : Heap) : ConnectContext where
  crypto := crypto
  hashes := hashes
  network := network
  deployments := deployments
  bip34Height := 500
  bip34Hash := 0
  heap := heap
  caches _ := ∅
  checkSignetBlockSolution _ := true
  assumedValid _ := false
  scriptsCached _ _ := false

def first : CBlock := block 1 genesisHash [coinbase 1 [output 5000000000]]

def tree : GenesisTree network where
  heap := extend root.heap 1 first.header
  linked := linked_extend root.linked (by decide +kernel) (by decide +kernel)
  genesis := ⟨rootNode genesisHash genesis.header 0, by decide +kernel, rfl⟩

def start : CoinsView := CoinsView.empty.setBestBlock genesisHash

theorem connected_genesis :
    connectBlock (context tree.heap) genesis genesisHash .empty = .ok ([], start) := by
  decide +kernel

end SampleChain

open SampleChain in
theorem connectedChain_supply_first :
    ∃ view, ConnectedChain tree [⟨context tree.heap, first, 1⟩] view ∧
      view.totalValue = 5000000000 ∧ view.totalValue ≤ getBlockSubsidy 1 210000 := by
  have hfirst : ((connectBlock (context tree.heap) first 1 start).map fun accepted =>
      (accepted.1, accepted.2.totalValue)) = .ok ([], 5000000000) := by decide +kernel
  obtain ⟨⟨blockUndo, view⟩, hconnected, hvalue⟩ := map_eq_ok.mp hfirst
  have on : ConnectCall.On tree ⟨context tree.heap, first, 1⟩ :=
    ⟨rfl, Heap.Le.refl _, by decide +kernel⟩
  have hchain : ConnectedChain tree [⟨context tree.heap, first, 1⟩] view :=
    (ConnectedChain.genesis rfl connected_genesis).next on hconnected
  have hsubsidy : ([⟨context tree.heap, first, 1⟩].map (ConnectCall.subsidy network)).sum =
      getBlockSubsidy 1 210000 := by decide +kernel
  have hbound := (connectedChain_supply hchain).1
  rw [hsubsidy] at hbound
  exact ⟨view, hchain, congrArg Prod.snd hvalue, hbound⟩

end Vexta
