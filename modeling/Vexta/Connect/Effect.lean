import Vexta.Connect.Update

/-! What connecting and disconnecting transactions writes to the coins. -/
namespace Vexta
open Lib List CoinsView Writes

def spendWrites (prevouts : List COutPoint) : Writes COutPoint Coin :=
  prevouts.map fun prevout => (prevout, none)

variable (outputs : List (COutPoint × Coin))

def spendable : List (COutPoint × Coin) :=
  outputs.filter fun output => !output.2.out.scriptPubKey.isUnspendable

def createWrites : Writes COutPoint Coin :=
  (spendable outputs).map fun output => (output.1, some output.2)

def removeWrites : Writes COutPoint Coin :=
  (spendable outputs).map fun output => (output.1, none)

def restoreWrites (inputs : List (COutPoint × Coin)) : Writes COutPoint Coin :=
  inputs.map fun input => (input.1, some input.2)

section Keys
variable {prevouts : List COutPoint} {outputs : List (COutPoint × Coin)} {outpoint : COutPoint}

theorem keys_spendWrites (prevouts : List COutPoint) :
    (spendWrites prevouts).map Prod.fst = prevouts := by
  rw [spendWrites, map_map]
  exact map_id prevouts

theorem keys_createWrites (outputs : List (COutPoint × Coin)) :
    (createWrites outputs).map Prod.fst = (spendable outputs).map Prod.fst := by
  rw [createWrites, map_map]
  rfl

theorem keys_removeWrites (outputs : List (COutPoint × Coin)) :
    (removeWrites outputs).map Prod.fst = (spendable outputs).map Prod.fst := by
  rw [removeWrites, map_map]
  rfl

theorem keys_restoreWrites (inputs : List (COutPoint × Coin)) :
    (restoreWrites inputs).map Prod.fst = inputs.map Prod.fst := by
  rw [restoreWrites, map_map]
  rfl

theorem mem_spendable {output : COutPoint × Coin} :
    output ∈ spendable outputs ↔
      output ∈ outputs ∧ output.2.out.scriptPubKey.isUnspendable = false := by
  rw [spendable, mem_filter, Bool.not_eq_true']

theorem spendable_cons (output : COutPoint × Coin) (outputs : List (COutPoint × Coin)) :
    spendable (output :: outputs) = if output.2.out.scriptPubKey.isUnspendable then
      spendable outputs else output :: spendable outputs := by
  rw [spendable, filter_cons]
  cases output.2.out.scriptPubKey.isUnspendable <;> rfl

theorem nodup_spendable (h : (outputs.map Prod.fst).Nodup) :
    ((spendable outputs).map Prod.fst).Nodup :=
  h.sublist (filter_sublist.map Prod.fst)

end Keys

structure SpentInputs (view : CoinsView) (prevouts : List COutPoint) (txundo : CTxUndo)
    (view' : CoinsView) : Prop where
  contents : view'.contents = apply view.contents (spendWrites prevouts)
  bestBlock : view'.bestBlock = view.bestBlock
  length : txundo.length = prevouts.length
  coins : prevouts.Nodup → prevouts.map view.contents = txundo.map some
  total : view'.totalValue = view.totalValue - (txundo.map fun coin => coin.out.value).sum

variable {view view' : CoinsView} {outputs : List (COutPoint × Coin)}

theorem spendInputs_eq_ok {prevouts : List COutPoint} {txundo : CTxUndo}
    (h : spendInputs view prevouts = .ok (txundo, view')) :
    SpentInputs view prevouts txundo view' := by
  induction prevouts generalizing view txundo with
  | nil =>
    cases h
    exact ⟨rfl, rfl, rfl, fun _ => rfl, by simp⟩
  | cons prevout prevouts ih =>
    unfold spendInputs at h
    cases hcoin : view.contents prevout with
    | none =>
      rw [hcoin] at h
      cases h
    | some coin =>
      rw [hcoin] at h
      dsimp only at h
      rw [bind_eq_ok] at h
      obtain ⟨⟨rest, last⟩, hrest, h⟩ := h
      cases h
      have hspent := ih hrest
      refine ⟨?_, hspent.bestBlock, ?_, ?_, ?_⟩
      · rw [hspent.contents, contents_spendCoin]
        rfl
      · rw [length_cons, length_cons, hspent.length]
      · intro hnodup
        rw [nodup_cons] at hnodup
        rw [map_cons, map_cons, hcoin, ← hspent.coins hnodup.2]
        refine congrArg (some coin :: ·) (map_congr_left fun o ho => ?_)
        have hne : o ≠ prevout := fun heq => hnodup.1 (heq ▸ ho)
        rw [contents_spendCoin, Function.update_of_ne hne]
      · have hvalue : view.valueAt prevout = coin.out.value := by
          rw [valueAt, hcoin]
          rfl
        rw [hspent.total, totalValue_spendCoin, hvalue, map_cons, sum_cons]
        exact sub_sub _ _ _

structure AddedAll (view : CoinsView) (outputs : List (COutPoint × Coin)) (view' : CoinsView) :
    Prop where
  contents : view'.contents = apply view.contents (createWrites outputs)
  bestBlock : view'.bestBlock = view.bestBlock
  unspent : ∀ output ∈ outputs, output.2.isSpent = false

theorem addCoins_false (X : Crypto) (view : CoinsView) (tx : CTransaction) (nHeight : ℕ) :
    addCoins X view tx nHeight false = (tx.created X nHeight).foldlM (fun view output =>
      view.addCoin output.1 output.2 tx.isCoinBase) view := rfl

theorem contents_add_apply (m : Contents) (output : COutPoint × Coin)
    (outputs : List (COutPoint × Coin)) :
    apply (m.add output.1 output.2) (createWrites outputs) =
      apply m (createWrites (output :: outputs)) := by
  unfold createWrites Contents.add
  rw [spendable_cons]
  split_ifs
  · rfl
  · rfl

theorem foldlM_addCoin_eq_ok (overwrite : CoinsView → COutPoint → Bool)
    (h : outputs.foldlM (fun view output =>
      view.addCoin output.1 output.2 (overwrite view output.1)) view = .ok view') :
    AddedAll view outputs view' := by
  induction outputs generalizing view with
  | nil =>
    cases h
    exact ⟨rfl, rfl, fun _ hmem => by cases hmem⟩
  | cons output outputs ih =>
    rw [foldlM_cons, bind_eq_ok] at h
    obtain ⟨middle, hmiddle, h⟩ := h
    have hadded := addCoin_eq_ok hmiddle
    have hrest := ih h
    refine ⟨?_, hrest.bestBlock.trans hadded.bestBlock,
      forall_mem_cons.mpr ⟨hadded.unspent, hrest.unspent⟩⟩
    rw [hrest.contents, hadded.contents, contents_add_apply]

theorem foldlM_addCoin_absent
    (h : outputs.foldlM (fun view output => view.addCoin output.1 output.2 false) view =
      .ok view') (hnodup : (outputs.map Prod.fst).Nodup) :
    ∀ output ∈ spendable outputs, view.contents output.1 = none := by
  induction outputs generalizing view with
  | nil => exact fun _ hmem => by cases hmem
  | cons first outputs ih =>
    rw [map_cons, nodup_cons] at hnodup
    rw [foldlM_cons, bind_eq_ok] at h
    obtain ⟨middle, hmiddle, h⟩ := h
    have hadded := addCoin_eq_ok hmiddle
    intro output houtput
    obtain ⟨hmem, hspendable⟩ := mem_spendable.mp houtput
    rcases mem_cons.mp hmem with rfl | hmem
    · exact hadded.absent rfl hspendable
    · have hne : output.1 ≠ first.1 :=
        fun heq => hnodup.1 (heq ▸ mem_map_of_mem hmem)
      have hlater := ih h hnodup.2 output (mem_spendable.mpr ⟨hmem, hspendable⟩)
      rw [hadded.contents, Contents.add] at hlater
      split_ifs at hlater
      · exact hlater
      · rwa [Function.update_of_ne hne] at hlater

theorem foldl_removeOutput (outputs : List (COutPoint × Coin)) (s : Disconnecting) :
    (outputs.foldl removeOutput s).view.contents =
        apply s.view.contents (removeWrites outputs) ∧
      (outputs.foldl removeOutput s).view.bestBlock = s.view.bestBlock := by
  induction outputs generalizing s with
  | nil => exact ⟨rfl, rfl⟩
  | cons output outputs ih =>
    rw [foldl_cons]
    obtain ⟨hcontents, hbest⟩ := ih (removeOutput s output)
    rw [hcontents, hbest]
    unfold removeOutput removeWrites
    rw [spendable_cons]
    dsimp only
    split_ifs
    · exact ⟨rfl, rfl⟩
    · refine ⟨?_, rfl⟩
      dsimp only
      rw [contents_spendCoin]
      rfl

theorem foldl_removeOutput_clean {s : Disconnecting} (hnodup : (outputs.map Prod.fst).Nodup)
    (h : ∀ output ∈ spendable outputs, s.view.contents output.1 = some output.2) :
    (outputs.foldl removeOutput s).fClean = s.fClean := by
  induction outputs generalizing s with
  | nil => rfl
  | cons first outputs ih =>
    rw [map_cons, nodup_cons] at hnodup
    rw [foldl_cons]
    by_cases hunspendable : first.2.out.scriptPubKey.isUnspendable = true
    · have hskip : removeOutput s first = s := if_pos hunspendable
      rw [hskip]
      refine ih hnodup.2 fun output houtput => h output ?_
      rw [spendable_cons, if_pos hunspendable]
      exact houtput
    · have hhere : s.view.contents first.1 = some first.2 := by
        refine h first ?_
        rw [spendable_cons, if_neg hunspendable]
        exact mem_cons_self
      have hremoved : removeOutput s first =
          ⟨s.fClean && decide (s.view.contents first.1 = some first.2),
            s.view.spendCoin first.1⟩ := if_neg hunspendable
      rw [ih hnodup.2, hremoved, hhere]
      · simp
      · intro output houtput
        have hne : output.1 ≠ first.1 := by
          intro heq
          exact hnodup.1 (heq ▸ mem_map_of_mem (mem_spendable.mp houtput).1)
        rw [hremoved, contents_spendCoin, Function.update_of_ne hne]
        refine h output ?_
        rw [spendable_cons, if_neg hunspendable]
        exact mem_cons_of_mem _ houtput

structure Coin.Undoable (coin : Coin) : Prop where
  height : coin.nHeight ≠ 0
  unspent : coin.isSpent = false
  spendable : coin.out.scriptPubKey.isUnspendable = false

theorem exists_foldlM_applyTxInUndo {inputs : List (COutPoint × Coin)} (s : Disconnecting)
    (h : ∀ input ∈ inputs, input.2.Undoable) :
    ∃ s', inputs.foldlM applyTxInUndo s = .ok s' ∧
      s'.view.contents = apply s.view.contents (restoreWrites inputs) ∧
      s'.view.bestBlock = s.view.bestBlock ∧
      ((inputs.map Prod.fst).Nodup → (∀ input ∈ inputs, s.view.contents input.1 = none) →
        s'.fClean = s.fClean) := by
  induction inputs generalizing s with
  | nil => exact ⟨s, rfl, rfl, rfl, fun _ _ => rfl⟩
  | cons input inputs ih =>
    obtain ⟨out, undo⟩ := input
    rw [forall_mem_cons] at h
    have hundo : undo.Undoable := h.1
    have hover : (! !s.view.haveCoin out) = false → s.view.contents out = none := by
      rw [Bool.not_not]
      exact haveCoin_eq_false.mp
    obtain ⟨view, hview⟩ := exists_addCoin hundo.unspent hover
    have hadded := addCoin_eq_ok hview
    have hstep : applyTxInUndo s (out, undo) = .ok ⟨s.fClean && !s.view.haveCoin out, view⟩ := by
      unfold applyTxInUndo undoMetadata
      dsimp only
      rw [if_neg hundo.height]
      dsimp only
      rw [hview]
      rfl
    have hcontents : view.contents = Function.update s.view.contents out (some undo) := by
      rw [hadded.contents, Contents.add, if_neg (by rw [hundo.spendable]; exact Bool.false_ne_true)]
    obtain ⟨s', hs', hend, hbest, hclean⟩ := ih ⟨s.fClean && !s.view.haveCoin out, view⟩ h.2
    refine ⟨s', ?_, ?_, hbest.trans hadded.bestBlock, ?_⟩
    · rw [foldlM_cons, hstep, ok_bind]
      exact hs'
    · rw [hend]
      dsimp only
      rw [hcontents]
      rfl
    · intro hnodup habsent
      rw [map_cons, nodup_cons] at hnodup
      rw [forall_mem_cons] at habsent
      have hrest : ∀ input ∈ inputs, view.contents input.1 = none := by
        intro input hinput
        have hne : input.1 ≠ out := by
          intro heq
          have hkey : input.1 ∈ inputs.map Prod.fst := mem_map_of_mem hinput
          exact hnodup.1 (heq ▸ hkey)
        rw [hcontents, Function.update_of_ne hne]
        exact habsent.2 input hinput
      have hnone : s.view.haveCoin out = false := haveCoin_eq_false.mpr habsent.1
      rw [hclean hnodup.2 hrest]
      dsimp only
      rw [hnone]
      simp

end Vexta
