import Vexta.Coins.StackRun
import Vexta.Lib.Tally

/-! A coins view as the map it shows; every operation on the map is one on the topmost cache. -/
namespace Vexta
open Lib Bool AList

structure CoinsView where
  coins : Assoc COutPoint Coin
  bestBlock : Uint256
  unspent : ∀ outpoint coin, coins.lookup outpoint = some coin → coin.isSpent = false

namespace CoinsView

instance : DecidableEq CoinsView := fun view view' =>
  decidable_of_iff (view.coins.entries = view'.coins.entries ∧ view.bestBlock = view'.bestBlock) (by
    obtain ⟨coins, bestBlock, -⟩ := view
    obtain ⟨coins', bestBlock', -⟩ := view'
    rw [mk.injEq, AList.ext_iff])

def empty : CoinsView where
  coins := ∅
  bestBlock := 0
  unspent _ _ h := by cases h

variable (view : CoinsView)

def contents : Contents := fun outpoint => view.coins.lookup outpoint

variable (outpoint : COutPoint)

def haveCoin : Bool := (view.contents outpoint).isSome

def setBestBlock (hashBlock : Uint256) : CoinsView :=
  { view with bestBlock := hashBlock }

def spendCoin : CoinsView where
  coins := view.coins.erase outpoint
  bestBlock := view.bestBlock
  unspent o coin h := by
    by_cases ho : o = outpoint
    · rw [ho, lookup_erase] at h
      cases h
    · rw [lookup_erase_ne ho] at h
      exact view.unspent o coin h

private theorem unspent_insert {coin : Coin}
    (hcoin : coin.isSpent = false) (o : COutPoint) (found : Coin)
    (h : (view.coins.insert outpoint coin).lookup o = some found) : found.isSpent = false := by
  by_cases ho : o = outpoint
  · rw [ho, lookup_insert] at h
    obtain rfl := Option.some.inj h
    exact hcoin
  · rw [lookup_insert_ne ho] at h
    exact view.unspent o found h

def addCoin (coin : Coin) (possibleOverwrite : Bool) :
    Except CoinsError CoinsView :=
  if hspent : coin.isSpent = true then .error .spentCoin
  else if coin.out.scriptPubKey.isUnspendable then .ok view
  else if possibleOverwrite = false ∧ view.haveCoin outpoint then .error .overwrite
  else .ok {
    coins := view.coins.insert outpoint coin
    bestBlock := view.bestBlock
    unspent := unspent_insert view outpoint (not_eq_true _ ▸ hspent) }

def totalValue : ℤ := Assoc.total (fun _ coin => coin.out.value) view.coins

def valueAt : ℤ :=
  ((view.contents outpoint).map fun coin => coin.out.value).getD 0

section
variable {view view' : CoinsView} {outpoint : COutPoint} {coin : Coin} {possibleOverwrite : Bool}

@[simp] theorem contents_spendCoin (view : CoinsView) (outpoint : COutPoint) :
    (view.spendCoin outpoint).contents = Function.update view.contents outpoint none := by
  funext o
  by_cases ho : o = outpoint
  · subst ho
    rw [Function.update_self]
    exact lookup_erase o view.coins
  · rw [Function.update_of_ne ho]
    exact lookup_erase_ne ho

theorem haveCoin_eq_false : view.haveCoin outpoint = false ↔ view.contents outpoint = none := by
  unfold haveCoin
  cases view.contents outpoint <;> simp

structure Added (view : CoinsView) (outpoint : COutPoint) (coin : Coin) (possibleOverwrite : Bool)
    (view' : CoinsView) : Prop where
  unspent : coin.isSpent = false
  contents : view'.contents = view.contents.add outpoint coin
  bestBlock : view'.bestBlock = view.bestBlock
  absent : possibleOverwrite = false → coin.out.scriptPubKey.isUnspendable = false →
    view.contents outpoint = none
  total : 0 ≤ coin.out.value → 0 ≤ view.valueAt outpoint →
    view'.totalValue ≤ view.totalValue + coin.out.value

theorem addCoin_eq_ok (h : view.addCoin outpoint coin possibleOverwrite = .ok view') :
    view.Added outpoint coin possibleOverwrite view' := by
  unfold addCoin at h
  split_ifs at h with hspent hunspendable hover
  · obtain rfl := Except.ok.inj h
    refine ⟨not_eq_true _ ▸ hspent, ?_, rfl, fun _ hno => ?_, ?_⟩
    · rw [Contents.add, if_pos hunspendable]
    · cases hunspendable.symm.trans hno
    · intro hvalue _
      omega
  · obtain rfl := Except.ok.inj h
    refine ⟨not_eq_true _ ▸ hspent, ?_, rfl, fun hno _ => ?_, ?_⟩
    · rw [Contents.add, if_neg hunspendable]
      funext o
      by_cases ho : o = outpoint
      · subst ho
        rw [Function.update_self]
        exact lookup_insert view.coins
      · rw [Function.update_of_ne ho]
        exact lookup_insert_ne ho
    · rw [← haveCoin_eq_false, ← not_eq_true]
      exact fun hhave => hover ⟨hno, hhave⟩
    · intro _ hbefore
      unfold totalValue
      exact Assoc.total_insert_le view.coins outpoint coin hbefore

theorem exists_addCoin (hcoin : coin.isSpent = false)
    (habsent : possibleOverwrite = false → view.contents outpoint = none) :
    ∃ view', view.addCoin outpoint coin possibleOverwrite = .ok view' := by
  have hover : ¬ (possibleOverwrite = false ∧ view.haveCoin outpoint = true) := by
    rintro ⟨hno, hhave⟩
    cases (haveCoin_eq_false.mpr (habsent hno)).symm.trans hhave
  unfold addCoin
  rw [dif_neg (by rw [hcoin]; exact false_ne_true)]
  by_cases hunspendable : coin.out.scriptPubKey.isUnspendable = true
  · rw [if_pos hunspendable]
    exact ⟨view, rfl⟩
  · rw [if_neg hunspendable, if_neg hover]
    exact ⟨_, rfl⟩

theorem totalValue_spendCoin (view : CoinsView) (outpoint : COutPoint) :
    (view.spendCoin outpoint).totalValue = view.totalValue - view.valueAt outpoint :=
  Assoc.total_erase view.coins outpoint

end

end CoinsView
end Vexta
