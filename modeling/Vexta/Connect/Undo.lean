import Vexta.Connect.Chain

/-! Disconnecting a block undoes its connection. -/
namespace Vexta
open Lib List Writes

def connectWrites (prevouts : List COutPoint) (outputs : List (COutPoint × Coin)) :
    Writes COutPoint Coin := spendWrites prevouts ++ createWrites outputs

def disconnectWrites (inputs outputs : List (COutPoint × Coin)) : Writes COutPoint Coin :=
  removeWrites outputs ++ restoreWrites inputs

section Writes
variable {m : Contents} {prevouts : List COutPoint} {inputs outputs : List (COutPoint × Coin)}
  {outpoint : COutPoint}

theorem apply_spendWrites (h : outpoint ∈ prevouts) :
    apply m (spendWrites prevouts) outpoint = none := by
  apply apply_of_const
  · rw [keys_spendWrites]
    exact h
  · intro w hw _
    obtain ⟨prevout, -, rfl⟩ := mem_map.mp hw
    rfl

theorem apply_removeWrites (h : outpoint ∈ (spendable outputs).map Prod.fst) :
    apply m (removeWrites outputs) outpoint = none := by
  apply apply_of_const
  · rw [keys_removeWrites]
    exact h
  · intro w hw _
    obtain ⟨output, -, rfl⟩ := mem_map.mp hw
    rfl

theorem apply_createWrites (hnodup : (outputs.map Prod.fst).Nodup) {output : COutPoint × Coin}
    (h : output ∈ spendable outputs) :
    apply m (createWrites outputs) output.1 = some output.2 := by
  apply apply_of_mem
  · rw [keys_createWrites]
    exact nodup_spendable hnodup
  · exact mem_map_of_mem h

theorem removed_input (h : outpoint ∈ prevouts) :
    apply (apply m (connectWrites prevouts outputs)) (removeWrites outputs) outpoint =
      none := by
  by_cases hout : outpoint ∈ (spendable outputs).map Prod.fst
  · exact apply_removeWrites hout
  · have hremove : outpoint ∉ (removeWrites outputs).map Prod.fst := by rwa [keys_removeWrites]
    have hcreate : outpoint ∉ (createWrites outputs).map Prod.fst := by rwa [keys_createWrites]
    rw [apply_of_not_mem hremove, connectWrites, apply_append,
      apply_of_not_mem hcreate, apply_spendWrites h]

theorem apply_disconnectWrites (hnodup : (inputs.map Prod.fst).Nodup)
    (hinputs : ∀ input ∈ inputs, m input.1 = some input.2)
    (hmem : ∀ prevout, prevout ∈ prevouts ↔ prevout ∈ inputs.map Prod.fst)
    (hnew : ∀ output ∈ spendable outputs,
      apply m (spendWrites prevouts) output.1 = none) :
    apply (apply m (connectWrites prevouts outputs))
      (disconnectWrites inputs outputs) = m := by
  funext k
  rw [disconnectWrites, apply_append]
  by_cases hin : k ∈ inputs.map Prod.fst
  · -- an input: the last write restores its coin
    obtain ⟨input, hinput, rfl⟩ := mem_map.mp hin
    rw [hinputs input hinput]
    apply apply_of_mem
    · rwa [keys_restoreWrites]
    · exact mem_map_of_mem hinput
  have hrestore : k ∉ (restoreWrites inputs).map Prod.fst := by rwa [keys_restoreWrites]
  have hspend : k ∉ (spendWrites prevouts).map Prod.fst := by
    rw [keys_spendWrites, hmem]
    exact hin
  rw [apply_of_not_mem hrestore]
  by_cases hout : k ∈ (spendable outputs).map Prod.fst
  · -- an output: it was not there before
    obtain ⟨output, houtput, rfl⟩ := mem_map.mp hout
    have habsent := hnew output houtput
    rw [apply_of_not_mem hspend] at habsent
    rw [apply_removeWrites hout, habsent]
  · have hremove : k ∉ (removeWrites outputs).map Prod.fst := by rwa [keys_removeWrites]
    have hcreate : k ∉ (createWrites outputs).map Prod.fst := by rwa [keys_createWrites]
    rw [apply_of_not_mem hremove, connectWrites, apply_append,
      apply_of_not_mem hcreate, apply_of_not_mem hspend]

end Writes

def CoinsView.Undoable (view : CoinsView) : Prop :=
  ∀ outpoint coin, view.contents outpoint = some coin → coin.Undoable

section
variable {X : Crypto} {tx : CTransaction} {nHeight : ℕ} {view view' : CoinsView} {txundo : CTxUndo}

theorem Updated.contents (h : Updated X tx nHeight view txundo view') :
    view'.contents =
      apply view.contents (connectWrites tx.prevouts (tx.created X nHeight)) := by
  obtain ⟨middle, hspent, hadd⟩ := h.spent
  rw [addCoins_false] at hadd
  have hadded := foldlM_addCoin_eq_ok (fun _ _ => tx.isCoinBase) hadd
  rw [hadded.contents, hspent.contents, connectWrites, apply_append]

theorem CTransaction.mem_created {output : COutPoint × Coin}
    (h : output ∈ tx.created X nHeight) :
    output.1.hash = tx.getHash X ∧ output.2.nHeight = nHeight ∧
      output.2.fCoinBase = tx.isCoinBase ∧ output.2.out ∈ tx.vout := by
  unfold created at h
  obtain ⟨⟨txout, i⟩, hmem, rfl⟩ := mem_map.mp h
  exact ⟨rfl, rfl, rfl, fst_mem_of_mem_zipIdx hmem⟩

theorem Updated.undoable (h : Updated X tx nHeight view txundo view') (hchecked : tx.Checked)
    (hheight : nHeight ≠ 0) (hview : view.Undoable) : view'.Undoable := by
  intro outpoint coin hcoin
  have hunspent := view'.unspent outpoint coin hcoin
  rw [h.contents, connectWrites, apply_append] at hcoin
  by_cases hout : outpoint ∈ (spendable (tx.created X nHeight)).map Prod.fst
  · obtain ⟨output, houtput, rfl⟩ := mem_map.mp hout
    rw [apply_createWrites (hchecked.nodup_created X nHeight) houtput] at hcoin
    obtain rfl := Option.some.inj hcoin
    obtain ⟨hmem, hspendable⟩ := mem_spendable.mp houtput
    have hcreated := (CTransaction.mem_created hmem).2.1
    exact ⟨hcreated ▸ hheight, hunspent, hspendable⟩
  · have hcreate : outpoint ∉ (createWrites (tx.created X nHeight)).map Prod.fst := by
      rwa [keys_createWrites]
    rw [apply_of_not_mem hcreate] at hcoin
    exact hview outpoint coin (apply_spendWrites_eq_some hcoin)

theorem Updated.absent (h : Updated X tx nHeight view txundo view') (hchecked : tx.Checked)
    (hbase : tx.isCoinBase = false) :
    ∀ output ∈ spendable (tx.created X nHeight),
      apply view.contents (spendWrites tx.prevouts) output.1 = none := by
  obtain ⟨middle, hspent, hadd⟩ := h.spent
  rw [addCoins_false, hbase] at hadd
  have habsent := foldlM_addCoin_absent hadd (hchecked.nodup_created X nHeight)
  rwa [hspent.contents] at habsent

end

def undoneInputs (prevouts : List COutPoint) (txundo : CTxUndo) : List (COutPoint × Coin) :=
  (prevouts.zip txundo).reverse

section
variable {view : CoinsView} {prevouts : List COutPoint} {txundo : CTxUndo} {view' : CoinsView}

theorem keys_undoneInputs (hlength : txundo.length = prevouts.length) :
    (undoneInputs prevouts txundo).map Prod.fst = prevouts.reverse := by
  rw [undoneInputs, map_reverse, map_fst_zip]
  exact hlength.ge

theorem SpentInputs.undone (h : SpentInputs view prevouts txundo view') (hnodup : prevouts.Nodup) :
    ∀ input ∈ undoneInputs prevouts txundo, view.contents input.1 = some input.2 := by
  have hcoins := h.coins hnodup
  rw [← forall₂_eq_eq_eq, forall₂_map_left_iff, forall₂_map_right_iff] at hcoins
  intro input hinput
  rw [undoneInputs, mem_reverse] at hinput
  exact (forall₂_iff_zip.mp hcoins).2 hinput

end

structure Restored (view : CoinsView) (s s' : Disconnecting) : Prop where
  contents : s'.view.contents = view.contents
  bestBlock : s'.view.bestBlock = s.view.bestBlock
  fClean : s'.fClean = s.fClean

section
variable {X : Crypto} {tx : CTransaction} {nHeight : ℕ} {view view' : CoinsView} {txundo : CTxUndo}
  {s : Disconnecting}

theorem removeOutputs_fClean (h : Updated X tx nHeight view txundo view') (hchecked : tx.Checked)
    (hs : s.view.contents = view'.contents) :
    ((tx.created X nHeight).foldl removeOutput s).fClean = s.fClean := by
  have hnodup := hchecked.nodup_created X nHeight
  apply foldl_removeOutput_clean hnodup
  intro output houtput
  rw [hs, h.contents, connectWrites, apply_append]
  exact apply_createWrites hnodup houtput

theorem disconnectTx_restores (h : Updated X tx nHeight view txundo view') (hchecked : tx.Checked)
    (hbase : tx.isCoinBase = false) (hview : view.Undoable)
    (hs : s.view.contents = view'.contents) :
    ∃ s', disconnectTx X nHeight s (tx, some txundo) = .ok s' ∧ Restored view s s' := by
  obtain ⟨middle, hspent, -⟩ := h.spent
  have hnodup := tx.nodup_prevouts hchecked
  have hprevouts : tx.vin.map CTxIn.prevout = tx.prevouts := by
    unfold CTransaction.prevouts
    rw [if_neg (by rw [hbase]; exact Bool.false_ne_true)]
  have hlength : txundo.length = tx.vin.length := by
    rw [hspent.length, ← hprevouts, length_map]
  have hkeys := keys_undoneInputs hspent.length
  have hundone := hspent.undone hnodup
  have hinputs : ∀ input ∈ undoneInputs tx.prevouts txundo, input.2.Undoable :=
    fun input hinput => hview input.1 input.2 (hundone input hinput)
  obtain ⟨hremoved, hremovedBest⟩ := foldl_removeOutput (tx.created X nHeight) s
  obtain ⟨s', hs', hcontents, hbest, hclean⟩ :=
    exists_foldlM_applyTxInUndo ((tx.created X nHeight).foldl removeOutput s) hinputs
  rw [hs, h.contents] at hremoved
  refine ⟨s', ?_, ?_, ?_, ?_⟩
  · unfold disconnectTx
    dsimp only
    rw [if_neg (not_not.mpr hlength), hprevouts]
    exact hs'
  · rw [hcontents, hremoved, ← apply_append]
    refine apply_disconnectWrites ?_ hundone ?_ (h.absent hchecked hbase)
    · rw [hkeys]
      exact nodup_reverse.mpr hnodup
    · intro prevout
      rw [hkeys, mem_reverse]
  · rw [hbest, hremovedBest]
  · rw [hclean, removeOutputs_fClean h hchecked hs]
    · rw [hkeys]
      exact nodup_reverse.mpr hnodup
    · intro input hinput
      have hkey : input.1 ∈ tx.prevouts := by
        rw [← mem_reverse, ← hkeys]
        exact mem_map_of_mem hinput
      rw [hremoved]
      exact removed_input hkey

theorem disconnectTx_coinbase_restores (h : Updated X tx nHeight view txundo view')
    (hchecked : tx.Checked) (hbase : tx.isCoinBase = true)
    (hnew : ∀ output ∈ spendable (tx.created X nHeight), view.contents output.1 = none)
    (hs : s.view.contents = view'.contents) :
    ∃ s', disconnectTx X nHeight s (tx, none) = .ok s' ∧ Restored view s s' := by
  have hprevouts : tx.prevouts = [] := by
    unfold CTransaction.prevouts
    rw [if_pos hbase]
  obtain ⟨hremoved, hremovedBest⟩ := foldl_removeOutput (tx.created X nHeight) s
  rw [hs, h.contents, hprevouts] at hremoved
  refine ⟨_, rfl, ?_, hremovedBest, removeOutputs_fClean h hchecked hs⟩
  have hback : apply (apply view.contents (connectWrites [] (tx.created X nHeight)))
      (disconnectWrites [] (tx.created X nHeight)) = view.contents :=
    apply_disconnectWrites nodup_nil nofun (fun _ => .rfl) hnew
  rw [disconnectWrites, restoreWrites, map_nil, append_nil] at hback
  rw [hremoved, hback]

end

section
variable {C : ConnectContext} {rules : BlockRules} {s s' : Connecting} {d : Disconnecting}

theorem disconnectTxs_restores {txs : List CTransaction} (hchecked : ∀ tx ∈ txs, tx.Checked)
    (hbase : ∀ tx ∈ txs, tx.isCoinBase = false) (hheight : rules.nHeight ≠ 0)
    (hview : s.view.Undoable) (hloop : txs.foldlM (connectTx C rules) s = .ok s')
    (hd : d.view.contents = s'.view.contents) :
    ∃ undos, s'.vtxundo = s.vtxundo ++ undos ∧ undos.length = txs.length ∧
      ∃ d', (txs.zip (undos.map some)).reverse.foldlM (disconnectTx C.crypto rules.nHeight) d =
        .ok d' ∧ Restored s.view d d' := by
  induction txs generalizing s with
  | nil =>
    cases hloop
    exact ⟨[], (append_nil _).symm, rfl, d, rfl, hd, rfl, rfl⟩
  | cons tx txs ih =>
    rw [foldlM_cons, bind_eq_ok] at hloop
    obtain ⟨middle, hmiddle, hloop⟩ := hloop
    rw [forall_mem_cons] at hchecked hbase
    obtain ⟨txundo, hupdate, hundo⟩ := (connectTx_eq_ok hmiddle).updated
    have hupdated := updateCoins_eq_ok hupdate
    have hnext := hupdated.undoable hchecked.1 hheight hview
    obtain ⟨undos, hundos, hlength, d', hd', hrest⟩ := ih hchecked.2 hbase.2 hnext hloop
    obtain ⟨last, hlast, hrestored⟩ :=
      disconnectTx_restores hupdated hchecked.1 hbase.1 hview hrest.contents
    refine ⟨txundo :: undos, ?_, congrArg Nat.succ hlength, last, ?_, ?_⟩
    · rw [hundos, hundo, append_assoc, singleton_append]
    · rw [map_cons, zip_cons_cons, reverse_cons, foldlM_append, hd',
        ok_bind, foldlM_cons, hlast, ok_bind]
      rfl
    · exact ⟨hrestored.contents, hrestored.bestBlock.trans hrest.bestBlock,
        hrestored.fClean.trans hrest.fClean⟩

end

section
variable {C : ConnectContext} {block : CBlock} {pindex : Uint256} {view view' v : CoinsView}
  {blockUndo : CBlockUndo} {index : IndexNode}
  (h : BlockAccepted C block pindex view blockUndo view') (hindex : C.heap pindex = some index)
  (hheight : index.nHeight ≠ 0) (hview : view.Undoable)
  (hnew : ∀ tx ∈ block.vtx, tx.isCoinBase = true →
    ∀ output ∈ spendable (tx.created C.crypto index.nHeight), view.contents output.1 = none)
include h hindex hheight hview hnew

theorem BlockAccepted.disconnect_of (hv : v.contents = view'.contents) :
    ∃ s, disconnectBlock C.crypto block index.nHeight index.pprev blockUndo v = .ok s ∧
      s.fClean = true ∧ s.view.contents = view.contents ∧ s.view.bestBlock = view.bestBlock := by
  obtain ⟨found, pprev, hfound, hpprev, hbest, last, hlast, rfl, rfl⟩ := h.index
  obtain rfl : index = found := Option.some.inj (hindex.symm.trans hfound)
  obtain ⟨rules, hrules, hloop⟩ := (connectTransactions_eq_ok hlast).loop
  obtain ⟨coinbase, rest, hvtx, hbase, hrest⟩ := h.checked.coinbase
  have hchecked := h.checked.transactions
  rw [hvtx, forall_mem_cons] at hchecked hnew
  rw [hvtx, foldlM_cons, bind_eq_ok] at hloop
  obtain ⟨first, hfirst, hloop⟩ := hloop
  obtain ⟨txundo, hupdate, hundo⟩ := (connectTx_eq_ok hfirst).updated
  have hupdated := updateCoins_eq_ok hupdate
  rw [← hrules] at hheight hnew
  have hfirstView := hupdated.undoable hchecked.1 hheight hview
  obtain ⟨undos, hundos, hlength, d, hd, hmiddle⟩ := disconnectTxs_restores
    (d := ⟨true, v⟩) hchecked.2 hrest hheight hfirstView hloop hv
  obtain ⟨s, hs, hrestored⟩ := disconnectTx_coinbase_restores hupdated hchecked.1 hbase
    (hnew.1 hbase) hmiddle.contents
  have htail : last.vtxundo.tail = undos := by
    rw [hundos, hundo]
    rfl
  refine ⟨{ s with view := s.view.setBestBlock pprev }, ?_, ?_, hrestored.contents, hbest⟩
  · unfold disconnectBlock
    rw [htail, hvtx, hpprev]
    dsimp only
    rw [if_neg (by rw [hlength, length_cons]; exact not_not.mpr rfl)]
    rw [zip_cons_cons, reverse_cons, foldlM_append, ← hrules, hd, ok_bind, foldlM_cons, hs, ok_bind]
    rfl
  · exact hrestored.fClean.trans hmiddle.fClean

theorem BlockAccepted.disconnect :
    ∃ s, disconnectBlock C.crypto block index.nHeight index.pprev blockUndo view' = .ok s ∧
      s.fClean = true ∧ s.view.contents = view.contents ∧ s.view.bestBlock = view.bestBlock :=
  h.disconnect_of hindex hheight hview hnew rfl

end

/-- Connecting a block other than genesis and disconnecting it is clean and restores coins and best
block, if the coins were created above genesis by spendable outputs and the coinbase overwrites
none. -/
theorem disconnectBlock_connectBlock {C : ConnectContext} {block : CBlock} {pindex : Uint256}
    {view view' : CoinsView} {blockUndo : CBlockUndo} {index : IndexNode} (hlinked : Linked C.heap)
    (hindex : C.heap pindex = some index)
    (hconnect : connectBlock C block pindex view = .ok (blockUndo, view'))
    (hgenesis : pindex ≠ C.network.params.hashGenesisBlock)
    (hcoins : ∀ outpoint coin, view.contents outpoint = some coin →
      coin.nHeight ≠ 0 ∧ coin.out.scriptPubKey.isUnspendable = false)
    (hnew : ∀ tx ∈ block.vtx, tx.isCoinBase = true →
      ∀ output ∈ spendable (tx.created C.crypto index.nHeight), view.contents output.1 = none) :
    ∃ s, disconnectBlock C.crypto block index.nHeight index.pprev blockUndo view' = .ok s ∧
      s.fClean = true ∧ s.view.contents = view.contents ∧ s.view.bestBlock = view.bestBlock := by
  rcases connectBlock_eq_ok hconnect with ⟨heq, -⟩ | ⟨-, haccepted⟩
  · exact absurd heq hgenesis
  have hheight : index.nHeight ≠ 0 := by
    obtain ⟨found, pprev, hfound, hpprev, -⟩ := haccepted.index
    obtain rfl : index = found := Option.some.inj (hindex.symm.trans hfound)
    obtain ⟨prev, -, hnext⟩ := hlinked.parent hfound hpprev
    omega
  have hview : view.Undoable := by
    intro outpoint coin hcoin
    obtain ⟨hpositive, hspendable⟩ := hcoins outpoint coin hcoin
    exact ⟨hpositive, view.unspent outpoint coin hcoin, hspendable⟩
  exact haccepted.disconnect hindex hheight hview hnew

namespace SampleChain

def viewOf (coins : List (COutPoint × Coin)) (h : ∀ entry ∈ coins, entry.2.isSpent = false) :
    CoinsView where
  coins := coins.foldr (fun entry m => m.insert entry.1 entry.2) ∅
  bestBlock := genesisHash
  unspent := by
    induction coins with
    | nil => exact fun _ _ hcoin => by cases hcoin
    | cons entry coins ih =>
      rw [forall_mem_cons] at h
      intro outpoint coin hcoin
      rw [foldr_cons] at hcoin
      by_cases hkey : outpoint = entry.1
      · rw [hkey, AList.lookup_insert] at hcoin
        obtain rfl := Option.some.inj hcoin
        exact h.1
      · rw [AList.lookup_insert_ne hkey] at hcoin
        exact ih h.2 outpoint coin hcoin

variable (prevout : COutPoint)

def spend : CTransaction where
  vin := [⟨prevout, [], 0xffffffff, []⟩]
  vout := [output 1000]
  nVersion := 1
  nLockTime := 0

def spending : CBlock :=
  block 1 genesisHash [coinbase 1 [output 0], spend prevout]

def spendingContext : ConnectContext :=
  context (extend root.heap 1 (spending prevout).header)

def connectDisconnect (C : ConnectContext) (block : CBlock) (index : IndexNode) (pindex : Uint256)
    (view : CoinsView) (outpoint : COutPoint) : Option (Bool × Option Coin) := do
  let (blockUndo, view) ← (connectBlock C block pindex view).toOption
  let s ← (disconnectBlock C.crypto block index.nHeight index.pprev blockUndo view).toOption
  some (s.fClean, s.view.contents outpoint)

def firstNode : IndexNode :=
  { rootNode 1 first.header 0 with pprev := some genesisHash, nHeight := 1 }

def early : Coin := ⟨output 2000, false, 0⟩
def late : Coin := ⟨output 2000, false, 7⟩
def dead : Coin := ⟨⟨2000, [0x6a], by decide⟩, false, 7⟩

def earlyView : CoinsView := viewOf [(⟨9, 1⟩, early), (⟨9, 0⟩, late)] (by decide)
def deadView : CoinsView := viewOf [(⟨9, 0⟩, dead)] (by decide)

def bip34Hash : Uint256 := 0xadd8ca420f557f62377ec2be6e6f47b96cf2e68160d58aeb7b73433de834cca0

def second : CBlock :=
  let block := block 2 bip34Hash [coinbase 1 [output 0]]
  { block with header := { block.header with nBits := 0x1e0ffff0 } }

def secondContext : ConnectContext :=
  { context (extend (extend root.heap bip34Hash first.header) 2 second.header) with
    network := .main
    bip34Height := 1
    bip34Hash := bip34Hash }

def secondNode : IndexNode :=
  { rootNode 2 second.header 0 with pprev := some bip34Hash, nHeight := 2 }

def duplicate : COutPoint := ⟨(coinbase 1 [output 0]).getHash crypto, 0⟩

def duplicateView : CoinsView :=
  (viewOf [(duplicate, late)] (by decide)).setBestBlock bip34Hash

def lateView : CoinsView := viewOf [(⟨9, 0⟩, late)] (by decide)

end SampleChain

open SampleChain in
/-- Genesis cannot be disconnected; a coin of height zero gets the height of another output; an
unspendable coin is not restored; and without the search for existing outputs, a coinbase takes a
coin it overwrites along. -/
theorem disconnectBlock_not_restoring :
    (connectBlock (context tree.heap) genesis genesisHash .empty = .ok ([], start) ∧
      disconnectBlock crypto genesis 0 none [] start = .error .disconnectFailed) ∧
    (connectDisconnect (spendingContext ⟨9, 1⟩) (spending ⟨9, 1⟩) firstNode 1 earlyView ⟨9, 1⟩ =
        some (true, some { early with nHeight := 7 }) ∧
      earlyView.contents ⟨9, 1⟩ = some early) ∧
    (connectDisconnect { spendingContext ⟨9, 0⟩ with assumedValid := fun _ => true }
        (spending ⟨9, 0⟩) firstNode 1 deadView ⟨9, 0⟩ = some (true, none) ∧
      deadView.contents ⟨9, 0⟩ = some dead) ∧
    (connectDisconnect secondContext second secondNode 2 duplicateView duplicate =
        some (true, none) ∧
      duplicateView.contents duplicate = some late) := by
  decide +kernel

open SampleChain in
theorem disconnectBlock_connectBlock_spending :
    connectDisconnect (spendingContext ⟨9, 0⟩) (spending ⟨9, 0⟩) firstNode 1 lateView ⟨9, 0⟩ =
        some (true, some late) ∧
      ∃ blockUndo view', connectBlock (spendingContext ⟨9, 0⟩) (spending ⟨9, 0⟩) 1 lateView =
          .ok (blockUndo, view') ∧
        ∃ s, disconnectBlock crypto (spending ⟨9, 0⟩) 1 (some genesisHash) blockUndo view' = .ok s ∧
          s.fClean = true ∧ s.view.contents = lateView.contents ∧
          s.view.bestBlock = lateView.bestBlock := by
  have hrun : connectDisconnect (spendingContext ⟨9, 0⟩) (spending ⟨9, 0⟩) firstNode 1 lateView
      ⟨9, 0⟩ = some (true, some late) := by decide +kernel
  have hindex : (((spendingContext ⟨9, 0⟩).heap 1).map fun index => (index.nHeight, index.pprev)) =
      some (1, some genesisHash) := by decide +kernel
  obtain ⟨index, hfound, hfields⟩ := Option.map_eq_some_iff.mp hindex
  have hlinked : Linked (spendingContext ⟨9, 0⟩).heap := by
    show Linked (extend root.heap 1 (spending ⟨9, 0⟩).header)
    exact linked_extend root.linked (by decide +kernel) (by decide +kernel)
  have hgenesis : (1 : Uint256) ≠ (spendingContext ⟨9, 0⟩).network.params.hashGenesisBlock := by
    decide +kernel
  refine ⟨hrun, ?_⟩
  cases hconnect : connectBlock (spendingContext ⟨9, 0⟩) (spending ⟨9, 0⟩) 1 lateView with
  | error failure =>
    unfold connectDisconnect at hrun
    rw [hconnect] at hrun
    cases hrun
  | ok accepted =>
    have hcoins : ∀ outpoint coin, lateView.contents outpoint = some coin →
        coin.nHeight ≠ 0 ∧ coin.out.scriptPubKey.isUnspendable = false := by
      intro outpoint coin hcoin
      by_cases hkey : outpoint = ⟨9, 0⟩
      · have hlate : lateView.contents ⟨9, 0⟩ = some late := by decide +kernel
        rw [hkey, hlate] at hcoin
        obtain rfl := Option.some.inj hcoin
        decide
      · have hnone : lateView.contents outpoint = none := AList.lookup_insert_ne hkey
        cases hnone.symm.trans hcoin
    have hnew : ∀ tx ∈ (spending ⟨9, 0⟩).vtx, tx.isCoinBase = true →
        ∀ output ∈ spendable (tx.created (spendingContext ⟨9, 0⟩).crypto index.nHeight),
          lateView.contents output.1 = none := by
      rw [(Prod.mk.inj hfields).1]
      decide +kernel
    have hback := disconnectBlock_connectBlock hlinked hfound hconnect hgenesis hcoins hnew
    rw [(Prod.mk.inj hfields).1, (Prod.mk.inj hfields).2] at hback
    exact ⟨accepted.1, accepted.2, rfl, hback⟩

end Vexta
