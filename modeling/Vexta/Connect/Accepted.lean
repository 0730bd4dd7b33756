import Vexta.Connect.Block

/-! What is known of a block that `ConnectBlock` accepts. -/
namespace Vexta
open Lib List BlockFailure

namespace BlockFailure
variable {α : Type} {a : α}

theorem liftFault_eq_ok {x : Except Fault α} : liftFault x = .ok a ↔ x = .ok a := by
  cases x <;> simp [liftFault]

theorem liftTx_eq_ok {x : Except TxFailure α} : liftTx x = .ok a ↔ x = .ok a := by
  cases x <;> simp [liftTx]

theorem liftCoins_eq_ok {x : Except CoinsFailure α} : liftCoins x = .ok a ↔ x = .ok a := by
  cases x <;> simp [liftCoins]

end BlockFailure

theorem liftCoins_eq_ok {α : Type} {x : Except CoinsError α} {a : α} :
    liftCoins x = .ok a ↔ x = .ok a := by
  cases x <;> simp [liftCoins]

structure CBlock.Checked (block : CBlock) : Prop where
  coinbase : ∃ coinbase rest, block.vtx = coinbase :: rest ∧ coinbase.isCoinBase = true ∧
    ∀ tx ∈ rest, tx.isCoinBase = false
  transactions : ∀ tx ∈ block.vtx, tx.Checked

variable {block : CBlock} {C : ConnectContext} {tx : CTransaction} {nHeight : ℕ} {view : CoinsView}

theorem checkBlockLayout_eq_ok (h : checkBlockLayout block = .ok ()) :
    ∃ coinbase rest, block.vtx = coinbase :: rest ∧ coinbase.isCoinBase = true ∧
      ∀ tx ∈ rest, tx.isCoinBase = false := by
  unfold checkBlockLayout at h
  cases hvtx : block.vtx with
  | nil =>
    rw [hvtx] at h
    cases h
  | cons coinbase rest =>
    rw [hvtx] at h
    dsimp only at h
    split_ifs at h with hsize hfirst hothers
    refine ⟨coinbase, rest, rfl, hfirst, fun tx htx => ?_⟩
    rw [← Bool.not_eq_true]
    exact fun htrue => hothers (any_eq_true.mpr ⟨tx, htx, htrue⟩)

theorem checkBlock_eq_ok (h : checkBlock C block = .ok ()) : block.Checked := by
  unfold checkBlock at h
  rw [bind_eq_ok] at h
  obtain ⟨_, -, h⟩ := h
  split_ifs at h
  rw [bind_eq_ok] at h
  obtain ⟨_, -, h⟩ := h
  rw [bind_eq_ok] at h
  obtain ⟨_, hlayout, h⟩ := h
  rw [bind_eq_ok] at h
  obtain ⟨_, htxs, -⟩ := h
  refine ⟨checkBlockLayout_eq_ok hlayout, fun tx htx => ?_⟩
  exact checkTransaction_eq_ok (liftTx_eq_ok.mp (forM_eq_ok.mp htxs tx htx))

theorem CTransaction.length_vout_le (tx : CTransaction) :
    tx.vout.length ≤ tx.serializeNoWitness.length := by
  have hone : ∀ out : CTxOut, 1 ≤ out.serialize.length := fun out =>
    length_pos_iff.mpr out.serialize_ne_nil
  have hall : ∀ outs : List CTxOut, outs.length ≤ (outs.flatMap CTxOut.serialize).length := by
    intro outs
    induction outs with
    | nil => exact Nat.le_refl 0
    | cons out outs ih =>
      have hout := hone out
      rw [flatMap_cons, length_append, length_cons]
      omega
  have hvout := hall tx.vout
  unfold CTransaction.serializeNoWitness
  simp only [length_append]
  omega

theorem CTransaction.Checked.length_vout (h : tx.Checked) : tx.vout.length < 2 ^ 32 := by
  have hsize := h.size
  have hlength := tx.length_vout_le
  unfold witnessScaleFactor maxBlockWeight at hsize
  omega

theorem CTransaction.Checked.nodup_created (h : tx.Checked) (X : Crypto) (nHeight : ℕ) :
    ((tx.created X nHeight).map Prod.fst).Nodup := by
  have hlength := h.length_vout
  have hkeys : (tx.created X nHeight).map Prod.fst =
      (List.range tx.vout.length).map fun i => ⟨tx.getHash X, BitVec.ofNat 32 i⟩ := by
    unfold created
    rw [map_map, range_eq_range', ← zipIdx_map_snd 0 tx.vout, map_map]
    rfl
  rw [hkeys]
  refine nodup_range.map_on fun i hi j hj heq => ?_
  rw [mem_range] at hi hj
  have hn := congrArg BitVec.toNat (congrArg COutPoint.n heq)
  simp only [BitVec.toNat_ofNat] at hn
  rwa [Nat.mod_eq_of_lt (lt_trans hi hlength), Nat.mod_eq_of_lt (lt_trans hj hlength)] at hn

theorem CTransaction.nodup_prevouts (h : tx.Checked) : tx.prevouts.Nodup := by
  unfold prevouts
  split_ifs
  · exact nodup_nil
  · exact h.prevouts

structure Updated (X : Crypto) (tx : CTransaction) (nHeight : ℕ) (view : CoinsView)
    (txundo : CTxUndo) (view' : CoinsView) : Prop where
  spent : ∃ middle, SpentInputs view tx.prevouts txundo middle ∧
    addCoins X middle tx nHeight false = .ok view'

variable {view' : CoinsView} {rules : BlockRules} {nFees : ℤ} {s : Connecting}
  {pindex pprev : Uint256}

theorem updateCoins_eq_ok {X : Crypto} {txundo : CTxUndo}
    (h : updateCoins X tx view nHeight = .ok (txundo, view')) :
    Updated X tx nHeight view txundo view' := by
  unfold updateCoins at h
  cases hspend : spendInputs view tx.prevouts with
  | error fault =>
    rw [hspend] at h
    cases h
  | ok spent =>
    obtain ⟨undo, middle⟩ := spent
    rw [hspend] at h
    dsimp only at h
    rw [bind_eq_ok] at h
    obtain ⟨last, hadd, h⟩ := h
    cases h
    exact ⟨middle, spendInputs_eq_ok hspend, liftCoins_eq_ok.mp hadd⟩

structure TxConnected (X : Crypto) (nHeight : ℕ) (s : Connecting) (tx : CTransaction)
    (s' : Connecting) : Prop where
  updated : ∃ txundo, updateCoins X tx s.view nHeight = .ok (txundo, s'.view) ∧
    s'.vtxundo = s.vtxundo ++ [txundo]
  coinbase : tx.isCoinBase = true → s'.nFees = s.nFees
  fees : tx.isCoinBase = false → ∃ txfee, tx.InputsChecked s.view.contents nHeight txfee ∧
    s'.nFees = s.nFees + txfee ∧ moneyRange s'.nFees = true

theorem connectInputs_eq_ok {nFees' : ℤ} {inputs : Contents}
    (h : connectInputs rules tx nFees inputs = .ok nFees') :
    (tx.isCoinBase = true → nFees' = nFees) ∧
      (tx.isCoinBase = false → ∃ txfee, tx.InputsChecked inputs rules.nHeight txfee ∧
        nFees' = nFees + txfee ∧ moneyRange nFees' = true) := by
  unfold connectInputs at h
  by_cases hbase : tx.isCoinBase = true
  · rw [if_pos hbase] at h
    refine ⟨fun _ => (Except.ok.inj h).symm, fun hno => ?_⟩
    cases hbase.symm.trans hno
  · rw [if_neg hbase, bind_eq_ok] at h
    obtain ⟨txfee, hfee, h⟩ := h
    rw [bind_eq_ok] at h
    obtain ⟨total, htotal, h⟩ := h
    have hsum := addAmounts_eq_ok (liftTx_eq_ok.mp htotal)
    split_ifs at h with hrange
    rw [bind_eq_ok] at h
    obtain ⟨final, -, h⟩ := h
    split_ifs at h
    obtain rfl := Except.ok.inj h
    refine ⟨fun hyes => absurd hyes hbase, fun _ => ⟨txfee, ?_, hsum, hrange⟩⟩
    exact checkTxInputs_eq_ok (liftTx_eq_ok.mp hfee)

theorem connectTx_eq_ok {s' : Connecting} (h : connectTx C rules s tx = .ok s') :
    TxConnected C.crypto rules.nHeight s tx s' := by
  unfold connectTx at h
  rw [bind_eq_ok] at h
  obtain ⟨nFees, hfees, h⟩ := h
  rw [bind_eq_ok] at h
  obtain ⟨nSigOpsCost, -, h⟩ := h
  rw [bind_eq_ok] at h
  obtain ⟨_, -, h⟩ := h
  rw [bind_eq_ok] at h
  obtain ⟨⟨txundo, view⟩, hupdate, h⟩ := h
  obtain rfl := Except.ok.inj h
  obtain ⟨hbase, hothers⟩ := connectInputs_eq_ok hfees
  exact ⟨⟨txundo, BlockFailure.liftCoins_eq_ok.mp hupdate, rfl⟩, hbase, hothers⟩

/-- What is known of an accepted block other than genesis. -/
structure BlockAccepted (C : ConnectContext) (block : CBlock) (pindex : Uint256) (view : CoinsView)
    (blockUndo : CBlockUndo) (view' : CoinsView) : Prop where
  checked : block.Checked
  index : ∃ index pprev, C.heap pindex = some index ∧ index.pprev = some pprev ∧
    pprev = view.bestBlock ∧ ∃ s, connectTransactions C block pindex index pprev view = .ok s ∧
      blockUndo = s.vtxundo.tail ∧ view' = s.view.setBestBlock pindex

theorem connectBlock_eq_ok {blockUndo : CBlockUndo}
    (h : connectBlock C block pindex view = .ok (blockUndo, view')) :
    (pindex = C.network.params.hashGenesisBlock ∧ block.Checked ∧ blockUndo = [] ∧
        view' = view.setBestBlock pindex) ∨
      (pindex ≠ C.network.params.hashGenesisBlock ∧
        BlockAccepted C block pindex view blockUndo view') := by
  unfold connectBlock at h
  rw [bind_eq_ok] at h
  obtain ⟨index, hindex, h⟩ := h
  rw [liftFault_eq_ok, Heap.deref_eq_ok] at hindex
  by_cases hhash : pindex ≠ block.header.getHash C.hashes
  · cases (if_pos hhash).symm.trans h
  rw [if_neg hhash, bind_eq_ok] at h
  obtain ⟨_, hchecked, h⟩ := h
  rw [bind_eq_ok] at h
  obtain ⟨_, -, h⟩ := h
  by_cases hbest : index.pprev.getD 0 ≠ view.bestBlock
  · cases (if_pos hbest).symm.trans h
  rw [if_neg hbest] at h
  by_cases hgenesis : pindex = C.network.params.hashGenesisBlock
  · cases (if_pos hgenesis).symm.trans h
    exact .inl ⟨hgenesis, checkBlock_eq_ok hchecked, rfl, rfl⟩
  · rw [if_neg hgenesis, bind_eq_ok] at h
    obtain ⟨pprev, hpprev, h⟩ := h
    rw [liftFault_eq_ok, derefPtr_eq_ok] at hpprev
    rw [bind_eq_ok] at h
    obtain ⟨s, hs, h⟩ := h
    cases h
    refine .inr ⟨hgenesis, checkBlock_eq_ok hchecked, index, pprev, hindex, hpprev, ?_, s, hs,
      rfl, rfl⟩
    rw [hpprev] at hbest
    exact not_not.mp hbest

/-- The loop over the transactions, and the checks around it. -/
structure TransactionsConnected (C : ConnectContext) (block : CBlock) (nHeight : ℕ)
    (view : CoinsView) (s : Connecting) : Prop where
  loop : ∃ rules, rules.nHeight = nHeight ∧
    block.vtx.foldlM (connectTx C rules) ⟨0, 0, [], view⟩ = .ok s
  amount : ∀ coinbase rest, block.vtx = coinbase :: rest → coinbase.valueOut ≤
    s.nFees + getBlockSubsidy nHeight C.network.nSubsidyHalvingInterval

theorem checkCoinbaseAmount_eq_ok (h : checkCoinbaseAmount C block nHeight nFees = .ok ())
    {coinbase : CTransaction} {rest : List CTransaction} (hvtx : block.vtx = coinbase :: rest) :
    coinbase.valueOut ≤ nFees + getBlockSubsidy nHeight C.network.nSubsidyHalvingInterval := by
  unfold checkCoinbaseAmount at h
  rw [bind_eq_ok] at h
  obtain ⟨blockReward, hreward, h⟩ := h
  have hsum := addAmounts_eq_ok (liftTx_eq_ok.mp hreward)
  rw [hvtx] at h
  dsimp only at h
  rw [bind_eq_ok] at h
  obtain ⟨value, hvalue, h⟩ := h
  obtain ⟨hout, -⟩ := getValueOut_eq_ok (liftTx_eq_ok.mp hvalue)
  split_ifs at h with hmuch
  rw [← hsum, ← hout]
  exact not_lt.mp hmuch

theorem connectTransactions_eq_ok {index : IndexNode}
    (h : connectTransactions C block pindex index pprev view = .ok s) :
    TransactionsConnected C block index.nHeight view s := by
  unfold connectTransactions at h
  rw [bind_eq_ok] at h
  obtain ⟨_, -, h⟩ := h
  rw [bind_eq_ok] at h
  obtain ⟨rules, hrules, h⟩ := h
  rw [bind_eq_ok] at h
  obtain ⟨last, hloop, h⟩ := h
  rw [bind_eq_ok] at h
  obtain ⟨_, hamount, h⟩ := h
  obtain rfl := Except.ok.inj h
  refine ⟨⟨rules, ?_, hloop⟩,
    fun coinbase rest hvtx => checkCoinbaseAmount_eq_ok hamount hvtx⟩
  rw [liftFault_eq_ok] at hrules
  unfold blockRules at hrules
  rw [bind_eq_ok] at hrules
  obtain ⟨flags, -, hrules⟩ := hrules
  rw [bind_eq_ok] at hrules
  obtain ⟨nBlockTime, -, hrules⟩ := hrules
  obtain rfl := Except.ok.inj hrules
  rfl

end Vexta
