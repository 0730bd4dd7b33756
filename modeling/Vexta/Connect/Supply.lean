import Vexta.Connect.Accepted

/-! The money supply. -/
namespace Vexta
open Lib List CTransaction

theorem getBlockSubsidy_nonneg (nHeight interval : ℕ) : 0 ≤ getBlockSubsidy nHeight interval := by
  unfold getBlockSubsidy coinUnits
  dsimp only
  split_ifs
  · exact le_refl 0
  · exact Int.ediv_nonneg (by norm_num) (by positivity)

theorem getBlockSubsidy_le (nHeight interval : ℕ) :
    getBlockSubsidy nHeight interval ≤ 50 * coinUnits := by
  unfold getBlockSubsidy coinUnits
  dsimp only
  split_ifs
  · norm_num
  · exact Int.ediv_le_self _ (by norm_num)

theorem getBlockSubsidy_eq_zero {nHeight interval : ℕ} (hpos : 0 < interval)
    (h : 64 * interval ≤ nHeight) : getBlockSubsidy nHeight interval = 0 := by
  have hhalvings : 64 ≤ nHeight / interval := (Nat.le_div_iff_mul_le hpos).mpr h
  exact if_pos hhalvings

def subsidiesTo (interval n : ℕ) : ℤ :=
  ((List.range n).map fun i => getBlockSubsidy (i + 1) interval).sum

theorem subsidiesTo_succ (interval n : ℕ) :
    subsidiesTo interval (n + 1) = subsidiesTo interval n + getBlockSubsidy (n + 1) interval := by
  unfold subsidiesTo
  rw [range_succ, map_append, sum_append]
  simp

theorem subsidiesTo_le {interval : ℕ} (hpos : 0 < interval) (n : ℕ) :
    subsidiesTo interval n ≤ min n (64 * interval) * (50 * coinUnits) := by
  induction n with
  | zero => simp [subsidiesTo]
  | succ n ih =>
    rw [subsidiesTo_succ]
    have hone := getBlockSubsidy_le (n + 1) interval
    have hunits : 50 * coinUnits = 5000000000 := by decide
    rw [hunits] at hone ih ⊢
    by_cases hlate : 64 * interval ≤ n + 1
    · rw [getBlockSubsidy_eq_zero hpos hlate]
      omega
    · omega

theorem subsidiesTo_network_le (N : Network) (n : ℕ) :
    subsidiesTo N.nSubsidyHalvingInterval n ≤ maxMoney := by
  have hinterval : N.nSubsidyHalvingInterval = 210000 := by cases N <;> rfl
  have hbound := subsidiesTo_le (by rw [hinterval]; norm_num : 0 < N.nSubsidyHalvingInterval) n
  have hunits : 50 * coinUnits = 5000000000 := by decide
  rw [hunits, hinterval] at hbound
  rw [hinterval, maxMoney_eq]
  omega

def CoinsView.InRange (view : CoinsView) : Prop :=
  ∀ outpoint coin, view.contents outpoint = some coin → moneyRange coin.out.value = true

section
variable {view view' : CoinsView} {outputs : List (COutPoint × Coin)}

theorem CoinsView.InRange.valueAt_nonneg (h : view.InRange) (outpoint : COutPoint) :
    0 ≤ view.valueAt outpoint := by
  unfold CoinsView.valueAt
  cases hcoin : view.contents outpoint with
  | none => exact le_refl 0
  | some coin => exact (moneyRange_iff.mp (h outpoint coin hcoin)).1

theorem CoinsView.InRange.foldlM_addCoin (h : view.InRange)
    (overwrite : CoinsView → COutPoint → Bool)
    (hvalues : ∀ output ∈ outputs, moneyRange output.2.out.value = true)
    (hadd : outputs.foldlM (fun view output =>
      view.addCoin output.1 output.2 (overwrite view output.1)) view = .ok view') :
    view'.InRange ∧
      view'.totalValue ≤ view.totalValue + (outputs.map fun output => output.2.out.value).sum := by
  induction outputs generalizing view with
  | nil =>
    cases hadd
    exact ⟨h, by simp⟩
  | cons output outputs ih =>
    rw [foldlM_cons, bind_eq_ok] at hadd
    obtain ⟨middle, hmiddle, hadd⟩ := hadd
    have hadded := CoinsView.addCoin_eq_ok hmiddle
    rw [forall_mem_cons] at hvalues
    have hrange : middle.InRange := by
      intro o coin hcoin
      rw [hadded.contents, Contents.add] at hcoin
      split_ifs at hcoin
      · exact h o coin hcoin
      · by_cases ho : o = output.1
        · rw [ho, Function.update_self] at hcoin
          obtain rfl := Option.some.inj hcoin
          exact hvalues.1
        · rw [Function.update_of_ne ho] at hcoin
          exact h o coin hcoin
    obtain ⟨hlast, htotal⟩ := ih hrange hvalues.2 hadd
    refine ⟨hlast, ?_⟩
    have hone := hadded.total (moneyRange_iff.mp hvalues.1).1 (h.valueAt_nonneg output.1)
    rw [map_cons, sum_cons]
    omega

theorem apply_spendWrites_eq_some {m : Contents} {prevouts : List COutPoint} {outpoint : COutPoint}
    {coin : Coin} (h : Writes.apply m (spendWrites prevouts) outpoint = some coin) :
    m outpoint = some coin := by
  by_cases hmem : outpoint ∈ prevouts
  · have hnone : Writes.apply m (spendWrites prevouts) outpoint = none := by
      refine Writes.apply_of_const ?_ fun w hw _ => ?_
      · rw [keys_spendWrites]
        exact hmem
      · obtain ⟨prevout, -, rfl⟩ := mem_map.mp hw
        rfl
    cases hnone.symm.trans h
  · rwa [Writes.apply_of_not_mem (by rwa [keys_spendWrites])] at h

theorem SpentInputs.inRange {prevouts : List COutPoint} {txundo : CTxUndo}
    (h : SpentInputs view prevouts txundo view') (hview : view.InRange) : view'.InRange := by
  intro outpoint coin hcoin
  rw [h.contents] at hcoin
  exact hview outpoint coin (apply_spendWrites_eq_some hcoin)

end

section
variable {X : Crypto} {tx : CTransaction} {nHeight : ℕ} {view view' : CoinsView} {txundo : CTxUndo}

theorem CTransaction.sum_created (X : Crypto) (tx : CTransaction) (nHeight : ℕ) :
    ((tx.created X nHeight).map fun output => output.2.out.value).sum = tx.valueOut := by
  have hvalues : (tx.created X nHeight).map (fun output => output.2.out.value) =
      (tx.vout.zipIdx.map Prod.fst).map CTxOut.value := by
    unfold created
    rw [map_map, map_map]
    rfl
  rw [hvalues, zipIdx_map_fst]
  rfl

theorem CTransaction.Checked.created_inRange (h : tx.Checked) {output : COutPoint × Coin}
    (houtput : output ∈ tx.created X nHeight) : moneyRange output.2.out.value = true := by
  unfold created at houtput
  obtain ⟨⟨txout, i⟩, hmem, rfl⟩ := mem_map.mp houtput
  exact h.values txout (fst_mem_of_mem_zipIdx hmem)

theorem Updated.total (h : Updated X tx nHeight view txundo view') (hchecked : tx.Checked)
    (hview : view.InRange) :
    view'.InRange ∧ view'.totalValue ≤
      view.totalValue - (txundo.map fun coin => coin.out.value).sum + tx.valueOut := by
  obtain ⟨middle, hspent, hadd⟩ := h.spent
  have hmiddle := hspent.inRange hview
  rw [addCoins_false] at hadd
  obtain ⟨hlast, htotal⟩ := hmiddle.foldlM_addCoin (fun _ _ => tx.isCoinBase)
    (fun _ => hchecked.created_inRange) hadd
  rw [hspent.total, tx.sum_created] at htotal
  exact ⟨hlast, htotal⟩

theorem Updated.sum_undo (h : Updated X tx nHeight view txundo view') (hchecked : tx.Checked)
    (hbase : tx.isCoinBase = false) :
    (txundo.map fun coin => coin.out.value).sum = tx.valueIn view.contents := by
  obtain ⟨middle, hspent, -⟩ := h.spent
  have hcoins := hspent.coins (tx.nodup_prevouts hchecked)
  have hprevouts : tx.prevouts = tx.vin.map CTxIn.prevout := by
    unfold prevouts
    rw [if_neg (by rw [hbase]; exact Bool.false_ne_true)]
  rw [hprevouts] at hcoins
  have hvalues := congrArg
    (List.map fun found : Option Coin => (found.map fun coin => coin.out.value).getD 0) hcoins
  simp only [map_map] at hvalues
  unfold valueIn
  exact congrArg List.sum hvalues.symm

end

structure Connecting.InRange (s : Connecting) : Prop where
  fees : moneyRange s.nFees = true
  coins : s.view.InRange

def CTransaction.minted (tx : CTransaction) : ℤ := if tx.isCoinBase then tx.valueOut else 0

section
variable {X : Crypto} {C : ConnectContext} {rules : BlockRules} {nHeight : ℕ} {s s' : Connecting}
  {tx : CTransaction}

theorem TxConnected.supply (h : TxConnected X nHeight s tx s') (hchecked : tx.Checked)
    (hs : s.InRange) : s'.InRange ∧
      s'.view.totalValue + s'.nFees ≤ s.view.totalValue + s.nFees + tx.minted := by
  obtain ⟨txundo, hupdate, -⟩ := h.updated
  have hupdated := updateCoins_eq_ok hupdate
  obtain ⟨hrange, htotal⟩ := hupdated.total hchecked hs.coins
  unfold minted
  cases hbase : tx.isCoinBase with
  | true =>
    have hfees := h.coinbase hbase
    have hundo : txundo = [] := by
      obtain ⟨middle, hspent, -⟩ := hupdated.spent
      have hlength := hspent.length
      unfold prevouts at hlength
      rw [if_pos hbase] at hlength
      exact length_eq_zero_iff.mp hlength
    rw [hundo, map_nil, sum_nil, sub_zero] at htotal
    rw [hfees, if_pos rfl]
    exact ⟨⟨hfees ▸ hs.fees, hrange⟩, by omega⟩
  | false =>
    obtain ⟨txfee, hinputs, hfees, hfeeRange⟩ := h.fees hbase
    rw [hupdated.sum_undo hchecked hbase] at htotal
    have hfee := hinputs.fee
    rw [if_neg Bool.false_ne_true]
    exact ⟨⟨hfeeRange, hrange⟩, by omega⟩

theorem connectTxs_supply {txs : List CTransaction} (hchecked : ∀ tx ∈ txs, tx.Checked)
    (hs : s.InRange) (h : txs.foldlM (connectTx C rules) s = .ok s') : s'.InRange ∧
      s'.view.totalValue + s'.nFees ≤
        s.view.totalValue + s.nFees + (txs.map minted).sum := by
  induction txs generalizing s with
  | nil =>
    cases h
    exact ⟨hs, by simp⟩
  | cons tx txs ih =>
    rw [foldlM_cons, bind_eq_ok] at h
    obtain ⟨middle, hmiddle, h⟩ := h
    rw [forall_mem_cons] at hchecked
    obtain ⟨hrange, hstep⟩ := (connectTx_eq_ok hmiddle).supply hchecked.1 hs
    obtain ⟨hlast, htotal⟩ := ih hchecked.2 hrange h
    refine ⟨hlast, ?_⟩
    rw [map_cons, sum_cons]
    omega

end

theorem sum_minted {coinbase : CTransaction} {rest : List CTransaction}
    (hbase : coinbase.isCoinBase = true) (hrest : ∀ tx ∈ rest, tx.isCoinBase = false) :
    ((coinbase :: rest).map minted).sum = coinbase.valueOut := by
  have hzero : ∀ tx ∈ rest, tx.minted = 0 := by
    intro tx htx
    unfold minted
    rw [if_neg (by rw [hrest tx htx]; exact Bool.false_ne_true)]
  have hsum : (rest.map minted).sum = 0 := by
    refine sum_eq_zero fun value hvalue => ?_
    obtain ⟨tx, htx, rfl⟩ := mem_map.mp hvalue
    exact hzero tx htx
  rw [map_cons, sum_cons, hsum, add_zero]
  exact if_pos hbase

theorem Connecting.inRange_start {view : CoinsView} (h : view.InRange) :
    Connecting.InRange ⟨0, 0, [], view⟩ := ⟨moneyRange_zero, h⟩

theorem BlockAccepted.supply {C : ConnectContext} {block : CBlock} {pindex : Uint256}
    {view view' : CoinsView} {blockUndo : CBlockUndo} {index : IndexNode}
    (h : BlockAccepted C block pindex view blockUndo view') (hindex : C.heap pindex = some index)
    (hview : view.InRange) :
    view'.InRange ∧ view'.totalValue ≤
      view.totalValue + getBlockSubsidy index.nHeight C.network.nSubsidyHalvingInterval := by
  obtain ⟨found, pprev, hfound, -, -, s, hs, -, rfl⟩ := h.index
  obtain rfl : index = found := Option.some.inj (hindex.symm.trans hfound)
  have hconnected := connectTransactions_eq_ok hs
  obtain ⟨rules, -, hloop⟩ := hconnected.loop
  obtain ⟨coinbase, rest, hvtx, hbase, hrest⟩ := h.checked.coinbase
  have hamount := hconnected.amount coinbase rest hvtx
  obtain ⟨hrange, htotal⟩ :=
    connectTxs_supply h.checked.transactions (Connecting.inRange_start hview) hloop
  rw [hvtx, sum_minted hbase hrest] at htotal
  refine ⟨hrange.coins, ?_⟩
  change s.view.totalValue ≤ _
  dsimp only at htotal
  omega

def TxFailure.NoOverflow (failure : TxFailure) : Prop := failure ≠ .fault .lostBits

def BlockFailure.NoOverflow (failure : BlockFailure) : Prop :=
  failure ≠ .transaction (.fault .lostBits)

section
variable {α : Type} {a b : ℤ} {result : TxValidationResult} {reason : String}

theorem sat_invalidTx {Q : α → Prop} :
    Sat TxFailure.NoOverflow Q (invalidTx result reason : Except TxFailure α) :=
  Sat.error_iff.mpr nofun

theorem sat_addAmounts (ha : moneyRange a = true) (hb : moneyRange b = true) :
    Sat TxFailure.NoOverflow (fun c => c = a + b) (addAmounts a b) := by
  rw [addAmounts_of_moneyRange ha hb]
  exact Sat.ok_iff.mpr rfl

theorem sat_checkOutputValue (ha : moneyRange a = true) (txout : CTxOut) :
    Sat TxFailure.NoOverflow (fun c => moneyRange c = true) (checkOutputValue a txout) := by
  unfold checkOutputValue
  refine .guard nofun fun hneg => .guard nofun fun hlarge => ?_
  have hvalue : moneyRange txout.value = true :=
    moneyRange_iff.mpr ⟨not_lt.mp hneg, not_lt.mp hlarge⟩
  refine (sat_addAmounts ha hvalue).bind fun c _ => ?_
  exact Sat.ite (fun hrange => Sat.ok_iff.mpr hrange) fun _ => sat_invalidTx

theorem sat_checkTransaction (tx : CTransaction) :
    Sat TxFailure.NoOverflow (fun _ => True) (checkTransaction tx) := by
  have hvalues : Sat TxFailure.NoOverflow (fun c => moneyRange c = true)
      (tx.vout.foldlM checkOutputValue 0) :=
    Sat.foldlM (fun _ txout _ hs => sat_checkOutputValue hs txout) moneyRange_zero
  have hprevouts : Sat TxFailure.NoOverflow (fun _ => True) (checkPrevouts tx) := by
    unfold checkPrevouts
    apply Sat.ite
    · exact fun _ => Sat.guard nofun fun _ => Sat.ok_iff.mpr trivial
    · exact fun _ => Sat.guard nofun fun _ => Sat.ok_iff.mpr trivial
  unfold checkTransaction
  refine .guard nofun fun _ => .guard nofun fun _ => .guard nofun fun _ => ?_
  exact hvalues.bind fun _ _ => .guard nofun fun _ => hprevouts

theorem sat_getValueOut (tx : CTransaction) :
    Sat TxFailure.NoOverflow (fun c => moneyRange c = true) tx.getValueOut := by
  refine .foldlM (fun s txout _ _ => ?_) moneyRange_zero
  unfold addValueOut
  apply Sat.ite
  · exact fun hrange => Sat.ok_iff.mpr hrange.2
  · exact fun _ => Sat.error_iff.mpr nofun

theorem sat_checkTxInput {view : CoinsView} (hview : view.InRange) (ha : moneyRange a = true)
    (nSpendHeight : ℤ) (txin : CTxIn) :
    Sat TxFailure.NoOverflow (fun c => moneyRange c = true)
      (checkTxInput view.contents nSpendHeight a txin) := by
  unfold checkTxInput unspentCoin
  cases hcoin : view.contents txin.prevout with
  | none => exact Sat.error_iff.mpr nofun
  | some coin =>
    refine .guard nofun fun _ => (sat_addAmounts ha (hview _ coin hcoin)).bind fun c _ => ?_
    exact Sat.ite (fun hrange => Sat.ok_iff.mpr hrange.2) fun _ => sat_invalidTx

theorem sat_checkTxInputs {view : CoinsView} (hview : view.InRange) (tx : CTransaction)
    (nSpendHeight : ℤ) :
    Sat TxFailure.NoOverflow (fun txfee => moneyRange txfee = true)
      (checkTxInputs tx view.contents nSpendHeight) := by
  have hin : Sat TxFailure.NoOverflow (fun c => moneyRange c = true)
      (tx.vin.foldlM (checkTxInput view.contents nSpendHeight) 0) :=
    Sat.foldlM (fun _ txin _ hs => sat_checkTxInput hview hs nSpendHeight txin) moneyRange_zero
  unfold checkTxInputs tallyFee
  refine .guard nofun fun _ => hin.bind fun nValueIn _ => ?_
  refine (sat_getValueOut tx).bind fun valueOut _ => .guard nofun fun _ => ?_
  exact Sat.ite (fun hfee => Sat.ok_iff.mpr hfee) fun _ => sat_invalidTx

end

namespace BlockFailure
variable {α : Type} {Q : α → Prop}

theorem sat_liftTx {x : Except TxFailure α} (h : Sat TxFailure.NoOverflow Q x) :
    Sat NoOverflow Q (liftTx x) := by
  cases x with
  | ok a => exact Sat.ok_iff.mpr (Sat.ok_iff.mp h)
  | error e =>
    refine Sat.error_iff.mpr fun heq => ?_
    exact Sat.error_iff.mp h (transaction.inj heq)

theorem sat_liftFault (x : Except Fault α) :
    Sat NoOverflow (fun _ => True) (liftFault x) := by
  cases x with
  | ok a => exact Sat.ok_iff.mpr trivial
  | error e => exact Sat.error_iff.mpr nofun

theorem sat_liftScript (x : Except TxFailure α) :
    Sat NoOverflow (fun _ => True) (liftScript x) := by
  cases x with
  | ok a => exact Sat.ok_iff.mpr trivial
  | error e => exact Sat.error_iff.mpr nofun

theorem sat_liftCoins (x : Except CoinsFailure α) :
    Sat NoOverflow (fun _ => True) (liftCoins x) := by
  cases x with
  | ok a => exact Sat.ok_iff.mpr trivial
  | error e => exact Sat.error_iff.mpr nofun

theorem sat_liftRejection (x : Except Fault (Option Rejection)) :
    Sat NoOverflow (fun _ => True) (liftRejection x) := by
  cases x with
  | ok rejection =>
    cases rejection with
    | none => exact Sat.ok_iff.mpr trivial
    | some rejection => exact Sat.error_iff.mpr nofun
  | error e => exact Sat.error_iff.mpr nofun

end BlockFailure
open BlockFailure

section
variable (C : ConnectContext) {s : Connecting} {tx : CTransaction} {view : CoinsView}

theorem sat_connectInputs (rules : BlockRules) (hs : s.InRange) :
    Sat NoOverflow (fun _ => True) (connectInputs rules tx s.nFees s.view.contents) := by
  unfold connectInputs
  apply Sat.ite
  · exact fun _ => Sat.ok_iff.mpr trivial
  intro _
  refine (sat_liftTx (sat_checkTxInputs hs.coins tx rules.nHeight)).bind fun txfee hfee => ?_
  refine (sat_liftTx (sat_addAmounts hs.fees hfee)).bind fun nFees _ => ?_
  refine .guard nofun fun _ => (sat_liftFault _).bind fun final _ => ?_
  exact Sat.ite (fun _ => Sat.ok_iff.mpr trivial) fun _ => Sat.error_iff.mpr nofun

theorem sat_connectTx (rules : BlockRules) (hs : s.InRange) (hchecked : tx.Checked) :
    Sat NoOverflow Connecting.InRange (connectTx C rules s tx) := by
  have hsigOps : Sat NoOverflow (fun _ => True)
      (connectSigOps rules tx s.nSigOpsCost s.view.contents) := by
    unfold connectSigOps
    refine (sat_liftFault _).bind fun cost _ => ?_
    exact Sat.guard nofun fun _ => Sat.ok_iff.mpr trivial
  have hscripts : Sat NoOverflow (fun _ => True) (connectScripts C rules tx s.view.contents) := by
    unfold connectScripts
    refine Sat.ite (fun _ => Sat.ok_iff.mpr trivial) fun _ => ?_
    exact (sat_liftScript _).bind fun _ _ => Sat.ok_iff.mpr trivial
  have herror : Sat NoOverflow (fun _ => True) (connectTx C rules s tx) := by
    unfold connectTx
    refine (sat_connectInputs rules hs).bind fun nFees _ => hsigOps.bind fun nSigOpsCost _ => ?_
    refine hscripts.bind fun _ _ => (sat_liftCoins _).bind fun _ _ => ?_
    exact Sat.ok_iff.mpr trivial
  exact ⟨fun s' h => ((connectTx_eq_ok h).supply hchecked hs).1, herror.error⟩

theorem sat_checkBlock (block : CBlock) : Sat NoOverflow (fun _ => True) (checkBlock C block) := by
  have hmerkle : Sat NoOverflow (fun _ => True) (checkBlockMerkleRoot C block) :=
    Sat.guard nofun fun _ => Sat.guard nofun fun _ => Sat.ok_iff.mpr trivial
  have hlayout : Sat NoOverflow (fun _ => True) (checkBlockLayout block) := by
    unfold checkBlockLayout
    cases block.vtx with
    | nil => exact Sat.error_iff.mpr nofun
    | cons coinbase rest =>
      refine .guard nofun fun _ => .guard nofun fun _ => ?_
      exact Sat.guard nofun fun _ => Sat.ok_iff.mpr trivial
  have htxs : Sat NoOverflow (fun _ => True)
      (block.vtx.forM fun tx => liftTx (checkTransaction tx)) := by
    induction block.vtx with
    | nil => exact Sat.ok_iff.mpr trivial
    | cons tx vtx ih => exact (sat_liftTx (sat_checkTransaction tx)).bind fun _ _ => ih
  have hsigOps : Sat NoOverflow (fun _ => True) (checkBlockSigOps block) :=
    Sat.guard nofun fun _ => Sat.ok_iff.mpr trivial
  unfold checkBlock
  refine (sat_liftRejection _).bind fun _ _ => .guard nofun fun _ => ?_
  exact hmerkle.bind fun _ _ => hlayout.bind fun _ _ => htxs.bind fun _ _ => hsigOps

theorem getBlockSubsidy_moneyRange (nHeight interval : ℕ) :
    moneyRange (getBlockSubsidy nHeight interval) = true := by
  have hle := getBlockSubsidy_le nHeight interval
  have hunits : 50 * coinUnits = 5000000000 := by decide
  rw [hunits] at hle
  rw [moneyRange_iff, maxMoney_eq]
  exact ⟨getBlockSubsidy_nonneg nHeight interval, by omega⟩

theorem sat_checkCoinbaseAmount (block : CBlock) (nHeight : ℕ) (hs : s.InRange) :
    Sat NoOverflow (fun _ => True) (checkCoinbaseAmount C block nHeight s.nFees) := by
  have hreward := sat_addAmounts hs.fees
    (getBlockSubsidy_moneyRange nHeight C.network.nSubsidyHalvingInterval)
  unfold checkCoinbaseAmount
  refine (sat_liftTx hreward).bind fun blockReward _ => ?_
  cases block.vtx with
  | nil => exact Sat.error_iff.mpr nofun
  | cons coinbase rest =>
    refine (sat_liftTx (sat_getValueOut coinbase)).bind fun value _ => ?_
    exact Sat.guard nofun fun _ => Sat.ok_iff.mpr trivial

theorem sat_connectTransactions {block : CBlock} (hblock : block.Checked) (pindex : Uint256)
    (index : IndexNode) (pprev : Uint256) (hview : view.InRange) :
    Sat NoOverflow (fun _ => True) (connectTransactions C block pindex index pprev view) := by
  have hbip30 : Sat NoOverflow (fun _ => True) (checkBip30 C block pprev index.nHeight view) :=
    (sat_liftFault _).bind fun _ _ => Sat.guard nofun fun _ => Sat.ok_iff.mpr trivial
  unfold connectTransactions
  refine hbip30.bind fun _ _ => (sat_liftFault _).bind fun rules _ => ?_
  have hloop :=
    Sat.foldlM (fun s tx htx hs => sat_connectTx C rules hs (hblock.transactions tx htx))
      (Connecting.inRange_start hview)
  refine hloop.bind fun s hs => (sat_checkCoinbaseAmount C block index.nHeight hs).bind fun _ _ => ?_
  exact Sat.ok_iff.mpr trivial

theorem sat_connectBlock (block : CBlock) (pindex : Uint256) (hview : view.InRange) :
    Sat NoOverflow (fun _ => True) (connectBlock C block pindex view) := by
  have hwork : ∀ pprev, Sat NoOverflow (fun _ => True) (connectWork C block pprev) := by
    intro pprev
    unfold connectWork
    refine Sat.ite (fun _ => ?_) fun _ => Sat.ok_iff.mpr trivial
    exact (sat_liftFault _).bind fun _ _ => sat_liftRejection _
  unfold connectBlock
  refine (sat_liftFault _).bind fun index _ => .guard nofun fun _ => ?_
  refine (sat_checkBlock C block).bind_eq fun _ hchecked => (hwork index.pprev).bind fun _ _ => ?_
  refine Sat.guard nofun fun _ => Sat.ite (fun _ => Sat.ok_iff.mpr trivial) fun _ => ?_
  refine (sat_liftFault _).bind fun pprev _ => ?_
  refine (sat_connectTransactions C (checkBlock_eq_ok hchecked) pindex index pprev hview).bind ?_
  exact fun _ _ => Sat.ok_iff.mpr trivial

end

end Vexta
