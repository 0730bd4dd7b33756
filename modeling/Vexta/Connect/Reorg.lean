import Vexta.Connect.Undo

/-! The coins along any sequence of connected and disconnected blocks. -/
namespace Vexta
open Lib List Writes

theorem connectTxs_contents {C : ConnectContext} {rules : BlockRules} {s s' : Connecting}
    {txs : List CTransaction} (hchecked : ∀ tx ∈ txs, tx.Checked) (hheight : rules.nHeight ≠ 0)
    (hview : s.view.Undoable) (h : txs.foldlM (connectTx C rules) s = .ok s') :
    s'.view.Undoable ∧ s'.view.contents = apply s.view.contents
      (txs.flatMap fun tx => connectWrites tx.prevouts (tx.created C.crypto rules.nHeight)) := by
  induction txs generalizing s with
  | nil =>
    cases h
    exact ⟨hview, rfl⟩
  | cons tx txs ih =>
    rw [foldlM_cons, bind_eq_ok] at h
    obtain ⟨middle, hmiddle, h⟩ := h
    rw [forall_mem_cons] at hchecked
    obtain ⟨txundo, hupdate, -⟩ := (connectTx_eq_ok hmiddle).updated
    have hupdated := updateCoins_eq_ok hupdate
    obtain ⟨hlast, hcontents⟩ := ih hchecked.2 (hupdated.undoable hchecked.1 hheight hview) h
    refine ⟨hlast, ?_⟩
    rw [hcontents, hupdated.contents, flatMap_cons, apply_append]

namespace ConnectCall

def writes (call : ConnectCall) : Writes COutPoint Coin :=
  call.block.vtx.flatMap fun tx =>
    connectWrites tx.prevouts (tx.created call.context.crypto call.nHeight)

/-- The coinbase overwrites no coin. -/
def Fresh (call : ConnectCall) (view : CoinsView) : Prop :=
  ∀ tx ∈ call.block.vtx, tx.isCoinBase = true →
    ∀ output ∈ spendable (tx.created call.context.crypto call.nHeight),
      view.contents output.1 = none

/-- The part of `DisconnectTip` that changes the coins. -/
def disconnectTip (call : ConnectCall) (blockUndo : CBlockUndo) (view : CoinsView) :
    Except CoinsFailure CoinsView := do
  if view.bestBlock ≠ call.pindex then .error (.fault .assertion)
  let index ← (call.context.heap call.pindex).elim (.error (.fault .nullPointer)) .ok
  let s ← disconnectBlock call.context.crypto call.block index.nHeight index.pprev blockUndo view
  if s.fClean then .ok s.view else .error .disconnectFailed

/-- `RollforwardBlock` of a block read from disk. -/
def rollforwardBlock (view : CoinsView) (call : ConnectCall) :
    Except CoinsError CoinsView :=
  call.block.vtx.foldlM (rollforwardTx call.context.crypto call.nHeight) view

end ConnectCall

section
variable {N : Network} {T : GenesisTree N} {base view view' : CoinsView}
  {blocks : List (ConnectCall × CBlockUndo)} {call : ConnectCall} {blockUndo : CBlockUndo}

theorem ConnectCall.On.found (on : call.On T)
    (connected : connectBlock call.context call.block call.pindex view = .ok (blockUndo, view')) :
    ∃ index, call.context.heap call.pindex = some index ∧ call.nHeight = index.nHeight ∧
      index.nHeight ≠ 0 ∧ view'.bestBlock = call.pindex := by
  obtain ⟨index, pprev, hindex, hpprev, -, s, -, -, rfl⟩ := (on.accepted connected).index
  obtain ⟨parent, -, hnext⟩ := T.linked.parent (on.heap call.pindex index hindex) hpprev
  refine ⟨index, hindex, ?_, by omega, rfl⟩
  rw [ConnectCall.nHeight, hindex]
  rfl

theorem ConnectCall.On.effect (on : call.On T) (hview : view.Undoable)
    (connected : connectBlock call.context call.block call.pindex view = .ok (blockUndo, view')) :
    view'.Undoable ∧ view'.contents = apply view.contents call.writes := by
  obtain ⟨index, hindex, hheight, hpositive, -⟩ := on.found connected
  have haccepted := on.accepted connected
  obtain ⟨found, pprev, hfound, -, -, last, hlast, -, rfl⟩ := haccepted.index
  obtain rfl : index = found := Option.some.inj (hindex.symm.trans hfound)
  obtain ⟨rules, hrules, hloop⟩ := (connectTransactions_eq_ok hlast).loop
  have hchecked := haccepted.checked.transactions
  have heffect := connectTxs_contents hchecked (hrules ▸ hpositive) hview hloop
  rw [hrules, ← hheight] at heffect
  exact heffect

/-- Blocks connected to and disconnected from `base`, the tip first, with their undo data. -/
inductive TipRun (T : GenesisTree N) (base : CoinsView) :
    List (ConnectCall × CBlockUndo) → CoinsView → Prop
  | start : TipRun T base [] base
  | connectTip {blocks : _} {view view' : CoinsView} {call : ConnectCall} {blockUndo : _}
      (run : TipRun T base blocks view) (on : call.On T) (fresh : call.Fresh view)
      (connected : connectBlock call.context call.block call.pindex view =
        .ok (blockUndo, view')) : TipRun T base ((call, blockUndo) :: blocks) view'
  | disconnectTip {blocks : _} {view view' : CoinsView} {call : ConnectCall} {blockUndo : _}
      (run : TipRun T base ((call, blockUndo) :: blocks) view)
      (disconnected : call.disconnectTip blockUndo view = .ok view') : TipRun T base blocks view'

/-- The view shows the coins that the blocks left when they were connected one after the other. -/
inductive Stacked (T : GenesisTree N) (base : CoinsView) :
    List (ConnectCall × CBlockUndo) → CoinsView → Prop
  | base {view : CoinsView} (hview : view.contents = base.contents) : Stacked T base [] view
  | block {blocks : _} {view before after : CoinsView} {call : ConnectCall} {blockUndo : _}
      (below : Stacked T base blocks before) (hbefore : before.Undoable) (on : call.On T)
      (fresh : call.Fresh before) (connected : connectBlock call.context call.block call.pindex
        before = .ok (blockUndo, after)) (hview : view.contents = after.contents)
      (hbest : view.bestBlock = after.bestBlock) :
      Stacked T base ((call, blockUndo) :: blocks) view

theorem Stacked.congr (h : Stacked T base blocks view) (hview : view'.contents = view.contents)
    (hbest : view'.bestBlock = view.bestBlock) : Stacked T base blocks view' := by
  cases h with
  | base h => exact .base (hview.trans h)
  | block below hbefore on fresh connected h h' =>
    exact .block below hbefore on fresh connected (hview.trans h) (hbest.trans h')

theorem Stacked.coins (hbase : base.Undoable) (h : Stacked T base blocks view) :
    view.Undoable ∧ view.contents = apply base.contents
      ((blocks.reverse.map Prod.fst).flatMap ConnectCall.writes) := by
  induction h with
  | base hview => exact ⟨fun o c hc => hbase o c (hview ▸ hc), hview⟩
  | block below hbefore on fresh connected hview hbest ih =>
    obtain ⟨hafter, hcontents⟩ := on.effect hbefore connected
    refine ⟨fun o c hc => hafter o c (hview ▸ hc), ?_⟩
    rw [hview, hcontents, ih.2, reverse_cons, map_append, flatMap_append, apply_append]
    simp

theorem Stacked.disconnectTip (h : Stacked T base ((call, blockUndo) :: blocks) view) :
    ∃ view', call.disconnectTip blockUndo view = .ok view' ∧ Stacked T base blocks view' := by
  cases h with
  | block below hbefore on fresh connected hview hbest =>
  obtain ⟨index, hindex, hheight, hpositive, hpindex⟩ := on.found connected
  unfold ConnectCall.Fresh at fresh
  rw [hheight] at fresh
  obtain ⟨s, hs, hclean, hcontents, hrestored⟩ :=
    (on.accepted connected).disconnect_of hindex hpositive hbefore fresh hview
  refine ⟨s.view, ?_, below.congr hcontents hrestored⟩
  unfold ConnectCall.disconnectTip
  rw [if_neg (not_not.mpr (hbest.trans hpindex)), hindex]
  simp [hs, hclean, ok_bind]

theorem TipRun.stacked (hbase : base.Undoable) (run : TipRun T base blocks view) :
    Stacked T base blocks view := by
  induction run with
  | start => exact .base rfl
  | connectTip run on fresh connected ih =>
    exact .block ih (ih.coins hbase).1 on fresh connected rfl rfl
  | disconnectTip run disconnected ih =>
    obtain ⟨view', hview', hstacked⟩ := ih.disconnectTip
    cases disconnected.symm.trans hview'
    exact hstacked

theorem CTransaction.Checked.unspent {X : Crypto} {nHeight : ℕ} {tx : CTransaction}
    (h : tx.Checked) : ∀ output ∈ tx.created X nHeight, output.2.isSpent = false := by
  intro output houtput
  have hrange := h.values _ (CTransaction.mem_created houtput).2.2.2
  rw [← Bool.not_eq_true]
  intro hspent
  have hvalue : output.2.out.nValue = -1 := eq_of_beq hspent
  rw [CTxOut.value, hvalue] at hrange
  exact absurd hrange (by decide)

theorem contents_foldl_spendCoin (prevouts : List COutPoint) (view : CoinsView) :
    (prevouts.foldl CoinsView.spendCoin view).contents =
      apply view.contents (spendWrites prevouts) := by
  induction prevouts generalizing view with
  | nil => rfl
  | cons prevout prevouts ih =>
    rw [foldl_cons, ih, CoinsView.contents_spendCoin]
    rfl

/-- Additions that look whether they overwrite do not fail. -/
theorem exists_foldlM_addCoin {outputs : List (COutPoint × Coin)} (view : CoinsView)
    (h : ∀ output ∈ outputs, output.2.isSpent = false) :
    ∃ view', outputs.foldlM (fun view output =>
      view.addCoin output.1 output.2 (view.haveCoin output.1)) view = .ok view' := by
  induction outputs generalizing view with
  | nil => exact ⟨view, rfl⟩
  | cons output outputs ih =>
    rw [forall_mem_cons] at h
    have hok : ∃ view', view.addCoin output.1 output.2 (view.haveCoin output.1) = .ok view' :=
      CoinsView.exists_addCoin h.1 CoinsView.haveCoin_eq_false.mp
    obtain ⟨view', hview'⟩ := hok
    rw [foldlM_cons, hview']
    exact ih view' h.2

theorem rollforwardTx_does {X : Crypto} {nHeight : ℕ} {tx : CTransaction} (h : tx.Checked) :
    Does CoinsView.contents (rollforwardTx X nHeight · tx)
      (connectWrites tx.prevouts (tx.created X nHeight)) := by
  intro view
  obtain ⟨view', hview'⟩ :=
    exists_foldlM_addCoin (tx.prevouts.foldl CoinsView.spendCoin view) h.unspent
  refine ⟨view', hview', ?_⟩
  rw [(foldlM_addCoin_eq_ok CoinsView.haveCoin hview').contents, contents_foldl_spendCoin,
    connectWrites, apply_append]

theorem Stacked.rollforward (h : Stacked T base blocks view) :
    Does CoinsView.contents ((blocks.reverse.map Prod.fst).foldlM ConnectCall.rollforwardBlock ·)
      ((blocks.reverse.map Prod.fst).flatMap ConnectCall.writes) := by
  refine Does.foldlM fun call hcall => Does.foldlM fun tx htx => rollforwardTx_does ?_
  induction h with
  | base => cases hcall
  | block below hbefore on fresh connected hview hbest ih =>
    rw [reverse_cons, map_append, mem_append] at hcall
    rcases hcall with hcall | hcall
    · exact ih hcall
    · cases mem_singleton.mp hcall
      exact (on.accepted connected).checked.transactions tx htx

/-- Whatever blocks were connected and disconnected before, the coins are what the blocks of the
active chain write, one after the other, and the tip can be disconnected without a fault and
cleanly. -/
theorem tipRun_coins (hbase : base.Undoable) (run : TipRun T base blocks view) :
    view.contents = apply base.contents ((blocks.reverse.map Prod.fst).flatMap ConnectCall.writes) ∧
      ∀ block ∈ blocks.head?, ∃ view', block.1.disconnectTip block.2 view = .ok view' := by
  have hstacked := run.stacked hbase
  refine ⟨(hstacked.coins hbase).2, fun block hblock => ?_⟩
  obtain ⟨rest, rfl⟩ := head?_eq_some_iff.mp hblock
  obtain ⟨view', hview', -⟩ := hstacked.disconnectTip
  exact ⟨view', hview'⟩

/-- Over coins that hold any part of the effects of the blocks of the active chain, as an
interrupted flush leaves them, rolling the blocks forward gives the coins of the tip. -/
theorem rollforwardBlock_recovers (hbase : base.Undoable) (run : TipRun T base blocks view)
    {flushed : CoinsView} (hflushed : ∀ outpoint,
      outpoint ∉ ((blocks.reverse.map Prod.fst).flatMap ConnectCall.writes).map Prod.fst →
        flushed.contents outpoint = base.contents outpoint) :
    ∃ last, (blocks.reverse.map Prod.fst).foldlM ConnectCall.rollforwardBlock flushed =
      .ok last ∧ last.contents = view.contents := by
  have hstacked := run.stacked hbase
  obtain ⟨last, hlast, hcontents⟩ := hstacked.rollforward flushed
  refine ⟨last, hlast, ?_⟩
  rw [hcontents, (hstacked.coins hbase).2]
  exact apply_congr hflushed

end

namespace SampleChain

def firstCall : ConnectCall := ⟨context tree.heap, first, 1⟩

theorem exists_tipRun : ∃ blockUndo view, TipRun tree start [(firstCall, blockUndo)] view := by
  have hfirst : ((connectBlock (context tree.heap) first 1 start).map fun _ => ()) = .ok () := by
    decide +kernel
  obtain ⟨⟨blockUndo, view⟩, hconnected, -⟩ := map_eq_ok.mp hfirst
  have on : firstCall.On tree := ⟨rfl, Heap.Le.refl _, by decide +kernel⟩
  exact ⟨blockUndo, view, .connectTip .start on (fun _ _ _ _ _ => rfl) hconnected⟩

end SampleChain

open SampleChain in
theorem tipRun_coins_first : ∃ blockUndo view view',
    TipRun tree start [(firstCall, blockUndo)] view ∧
      firstCall.disconnectTip blockUndo view = .ok view' ∧
      TipRun tree start [] view' ∧ view'.contents = start.contents := by
  have hbase : start.Undoable := fun _ _ h => by cases h
  obtain ⟨blockUndo, view, hrun⟩ := exists_tipRun
  obtain ⟨view', hview'⟩ := (tipRun_coins hbase hrun).2 _ rfl
  have hback : TipRun tree start [] view' := .disconnectTip hrun hview'
  exact ⟨blockUndo, view, view', hrun, hview', hback, (tipRun_coins hbase hback).1⟩

open SampleChain in
/-- The flush wrote the coins of the block but not the new tip. -/
theorem rollforwardBlock_recovers_first :
    ∃ blockUndo view, TipRun tree start [(firstCall, blockUndo)] view ∧
      ∃ last, [firstCall].foldlM ConnectCall.rollforwardBlock view = .ok last ∧
        last.contents = view.contents := by
  have hbase : start.Undoable := fun _ _ h => by cases h
  obtain ⟨blockUndo, view, hrun⟩ := exists_tipRun
  refine ⟨blockUndo, view, hrun, rollforwardBlock_recovers hbase hrun fun outpoint hnot => ?_⟩
  rw [((hrun.stacked hbase).coins hbase).2, apply_of_not_mem hnot]

end Vexta
