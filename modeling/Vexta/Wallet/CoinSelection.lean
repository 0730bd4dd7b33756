import Vexta.Consensus.TxVerify
import Vexta.Lib.BitSearch
import Vexta.Wallet.FeeRate

/-! Coin selection: groups of outputs, the branch-and-bound search and the knapsack solver. -/
namespace Vexta
open Lib

def minChange : ℤ := 1000000

/-- `CInputCoin`. An unknown size of the signed input is negative. -/
structure CInputCoin where
  outpoint : COutPoint
  txout : CTxOut
  inputBytes : ℤ
  deriving DecidableEq, Repr

structure CoinSelectionParams where
  effectiveFeerate : CFeeRate
  longTermFeerate : CFeeRate
  subtractFeeOutputs : Bool
  avoidPartialSpends : Bool

structure CoinEligibilityFilter where
  confMine : ℤ
  confTheirs : ℤ
  maxAncestors : ℕ
  maxDescendants : ℕ
  includePartialGroups : Bool

/-- The selected coins in order; the order of the set is lost in a shuffle. -/
abbrev CoinSet := List CInputCoin

namespace CoinSet

def insert (coins : CoinSet) (coin : CInputCoin) : CoinSet :=
  if coins.any fun other => other.outpoint == coin.outpoint then coins else coins ++ [coin]

def insertAll (coins : CoinSet) (new : List CInputCoin) : CoinSet := new.foldl insert coins

end CoinSet

structure OutputGroup where
  outputs : List CInputCoin
  fromMe : Bool
  value : ℤ
  depth : ℤ
  ancestors : ℕ
  descendants : ℕ
  effectiveValue : ℤ
  fee : ℤ
  longTermFee : ℤ
  deriving DecidableEq

namespace OutputGroup

def empty : OutputGroup := ⟨[], true, 0, 999, 0, 0, 0, 0, 0⟩

def coinFee (rate : CFeeRate) (coin : CInputCoin) : ℤ :=
  if coin.inputBytes < 0 then 0 else rate.getFee coin.inputBytes.toNat

def insert (params : CoinSelectionParams) (group : OutputGroup) (coin : CInputCoin) (depth : ℤ)
    (fromMe : Bool) (ancestors descendants : ℕ) (positiveOnly : Bool) : OutputGroup :=
  let coinFee := OutputGroup.coinFee params.effectiveFeerate coin
  let ev := coin.txout.value - coinFee
  if positiveOnly ∧ ev ≤ 0 then group
  else {
    outputs := group.outputs ++ [coin]
    fromMe := group.fromMe && fromMe
    value := group.value + coin.txout.value
    depth := min group.depth depth
    ancestors := group.ancestors + ancestors
    descendants := max group.descendants descendants
    effectiveValue := group.effectiveValue + ev
    fee := group.fee + coinFee
    longTermFee := group.longTermFee + OutputGroup.coinFee params.longTermFeerate coin }

def eligibleForSpending (group : OutputGroup) (filter : CoinEligibilityFilter) : Bool :=
  decide ((if group.fromMe then filter.confMine else filter.confTheirs) ≤ group.depth) &&
    decide (group.ancestors ≤ filter.maxAncestors) &&
    decide (group.descendants ≤ filter.maxDescendants)

def getSelectionAmount (params : CoinSelectionParams) (group : OutputGroup) : ℤ :=
  if params.subtractFeeOutputs then group.value else group.effectiveValue

end OutputGroup

structure COutput where
  outpoint : COutPoint
  txout : CTxOut
  nDepth : ℤ
  inputBytes : ℤ
  spendable : Bool
  fromMe : Bool
  ancestors : ℕ
  descendants : ℕ

def COutput.getInputCoin (output : COutput) : CInputCoin :=
  ⟨output.outpoint, output.txout, output.inputBytes⟩

def outputGroupMaxEntries : ℕ := 100

section
variable (params : CoinSelectionParams) (filter : CoinEligibilityFilter) (positiveOnly : Bool)

def insertOutput (group : OutputGroup) (output : COutput) : OutputGroup :=
  group.insert params output.getInputCoin output.nDepth output.fromMe output.ancestors
    output.descendants positiveOnly

def groupEligible (group : OutputGroup) : Bool :=
  !(positiveOnly && decide (group.getSelectionAmount params ≤ 0)) && !group.outputs.isEmpty &&
    group.eligibleForSpending filter

def insertIntoGroups (output : COutput) : List OutputGroup → List OutputGroup
  | [] => [insertOutput params positiveOnly .empty output]
  | group :: groups =>
    if outputGroupMaxEntries ≤ group.outputs.length then
      insertOutput params positiveOnly .empty output :: group :: groups
    else insertOutput params positiveOnly group output :: groups

def insertByScript (output : COutput) :
    List (CScript × List OutputGroup) → List (CScript × List OutputGroup)
  | [] => [(output.txout.scriptPubKey, insertIntoGroups params positiveOnly output [])]
  | (script, groups) :: rest =>
    if script = output.txout.scriptPubKey then
      (script, insertIntoGroups params positiveOnly output groups) :: rest
    else (script, groups) :: insertByScript output rest

def groupsOfScript (groups : List OutputGroup) : List OutputGroup :=
  if 1 < groups.length ∧ ¬ filter.includePartialGroups then groups.tail else groups

def groupOutputs (outputs : List COutput) : List OutputGroup :=
  let spendable := outputs.filter COutput.spendable
  if ¬ params.avoidPartialSpends then
    (spendable.map (insertOutput params positiveOnly .empty)).filter
      (groupEligible params filter positiveOnly)
  else
    let groups := spendable.foldl
      (fun groups output => insertByScript params positiveOnly output groups) []
    (groups.flatMap fun entry => groupsOfScript filter entry.2).filter
      (groupEligible params filter positiveOnly)

end

/-- `std::sort` by `descending`, open for groups of one amount. -/
structure DescendingSort (params : CoinSelectionParams) where
  sort : List OutputGroup → List OutputGroup
  sort_perm : ∀ groups, (sort groups).Perm groups
  sort_pairwise : ∀ groups, (sort groups).Pairwise fun a b =>
    b.getSelectionAmount params ≤ a.getSelectionAmount params

def totalTries : ℕ := 100000

def poolAt (pool : List OutputGroup) (i : ℕ) : Except Fault OutputGroup :=
  match pool[i]? with
  | some group => .ok group
  | none => .error .outOfRange

/-- The last choice is first in `currSelection`; `bestSelection` is in pool order. -/
structure BnbState where
  currValue : ℤ
  currSelection : List Bool
  currAvailableValue : ℤ
  currWaste : ℤ
  bestSelection : List Bool
  bestWaste : ℤ

section
variable (params : CoinSelectionParams) (pool : List OutputGroup)
  (selectionTarget costOfChange : ℤ)

def bnbWalkBack : List Bool → ℤ → Except Fault (List Bool × ℤ)
  | false :: selection, available => do
    let utxo ← poolAt pool selection.length
    bnbWalkBack selection (available + utxo.getSelectionAmount params)
  | selection, available => .ok (selection, available)

variable (s : BnbState)

def bnbBacktrack : Except Fault (Bool × BnbState) := do
  let (selection, available) ← bnbWalkBack params pool s.currSelection s.currAvailableValue
  match selection with
  | [] => .ok (false, { s with currSelection := [], currAvailableValue := available })
  | _ :: rest => do
    let utxo ← poolAt pool rest.length
    .ok (true, { s with
      currSelection := false :: rest
      currAvailableValue := available
      currValue := s.currValue - utxo.getSelectionAmount params
      currWaste := s.currWaste - (utxo.fee - utxo.longTermFee) })

def sameAsOmitted (utxo : OutputGroup) : List Bool → Except Fault Bool
  | false :: rest => do
    let previous ← poolAt pool rest.length
    .ok (decide (utxo.getSelectionAmount params = previous.getSelectionAmount params) &&
      decide (utxo.fee = previous.fee))
  | _ => .ok false

def bnbForward : Except Fault BnbState := do
  let utxo ← poolAt pool s.currSelection.length
  let available := s.currAvailableValue - utxo.getSelectionAmount params
  let omitted ← sameAsOmitted params pool utxo s.currSelection
  if omitted then
    .ok { s with currAvailableValue := available, currSelection := false :: s.currSelection }
  else
    .ok { s with
      currAvailableValue := available
      currSelection := true :: s.currSelection
      currValue := s.currValue + utxo.getSelectionAmount params
      currWaste := s.currWaste + (utxo.fee - utxo.longTermFee) }

def bnbCut : Except Fault Bool :=
  if s.currValue + s.currAvailableValue < selectionTarget ∨
      selectionTarget + costOfChange < s.currValue then .ok true
  else if s.bestWaste < s.currWaste then do
    let utxo ← poolAt pool 0
    .ok (0 < utxo.fee - utxo.longTermFee)
  else .ok false

def bnbRecord : BnbState :=
  let waste := s.currWaste + (s.currValue - selectionTarget)
  if waste ≤ s.bestWaste then
    { s with
      bestSelection := s.currSelection.reverse ++
        List.replicate (pool.length - s.currSelection.length) false
      bestWaste := waste }
  else s

def bnbStep : Except Fault (Bool × BnbState) := do
  let cut ← bnbCut pool selectionTarget costOfChange s
  if cut then bnbBacktrack params pool s
  else if selectionTarget ≤ s.currValue then
    let waste := s.currWaste + (s.currValue - selectionTarget)
    let recorded := bnbRecord pool selectionTarget s
    if waste ≤ s.bestWaste ∧ waste = 0 then .ok (false, recorded)
    else bnbBacktrack params pool recorded
  else do
    let s ← bnbForward params pool s
    .ok (true, s)

def bnbLoop : ℕ → BnbState → Except Fault (Bool × BnbState)
  | 0, s => .ok (true, s)
  | tries + 1, s => do
    let (goOn, s) ← bnbStep params pool selectionTarget costOfChange s
    if goOn then bnbLoop tries s else .ok (false, s)

def bnbStart (available : ℤ) : BnbState := ⟨0, [], available, 0, [], maxMoney⟩

/-- What `SelectCoinsBnB` chooses, and whether its tries are used up. -/
def selectGroupsBnB (order : DescendingSort params) :
    Except Fault (Bool × Option (List OutputGroup)) :=
  let amounts := pool.map (OutputGroup.getSelectionAmount params)
  if amounts.any fun amount => decide (amount ≤ 0) then .error .assertion
  else if amounts.sum < selectionTarget then .ok (false, none)
  else do
    let sorted := order.sort pool
    let (usedUp, s) ← bnbLoop params sorted selectionTarget costOfChange totalTries
      (bnbStart amounts.sum)
    if s.bestSelection.isEmpty then .ok (usedUp, none)
    else .ok (usedUp, some (picked sorted s.bestSelection))

def takeGroups (groups : List OutputGroup) : CoinSet × ℤ :=
  groups.foldl (fun s group => (s.1.insertAll group.outputs, s.2 + group.value)) ([], 0)

def selectCoinsBnB (order : DescendingSort params) : Except Fault (Option (CoinSet × ℤ)) := do
  let (_, groups) ← selectGroupsBnB params pool selectionTarget costOfChange order
  .ok (groups.map takeGroups)

end

/-- Left to chance: approximation bits and shuffles. -/
structure SpendChance where
  randbool : Bool → ℕ → ℕ → Bool
  shuffle : {α : Type} → List α → List α
  shuffle_perm : ∀ {α : Type} (l : List α), (shuffle l).Perm l

structure SubsetState where
  included : List Bool
  nTotal : ℤ
  reachedTarget : Bool
  best : List Bool
  nBest : ℤ

section
variable (params : CoinSelectionParams)

def subsetTurn (nTargetValue : ℤ) (take : ℕ → Bool → Bool) (s : SubsetState)
    (entry : OutputGroup × ℕ) : SubsetState :=
  let amount := entry.1.getSelectionAmount params
  if take entry.2 (s.included.getD entry.2 false) then
    let included := s.included.set entry.2 true
    let nTotal := s.nTotal + amount
    if nTargetValue ≤ nTotal then
      let s := if nTotal < s.nBest then { s with best := included, nBest := nTotal } else s
      { s with
        reachedTarget := true
        included := included.set entry.2 false
        nTotal := nTotal - amount }
    else { s with included, nTotal }
  else s

def subsetRound (groups : List OutputGroup) (nTargetValue : ℤ) (bits : ℕ → Bool)
    (best : List Bool) (nBest : ℤ) : List Bool × ℤ :=
  let entries := groups.zipIdx
  let s := entries.foldl (subsetTurn params nTargetValue fun i _ => bits i)
    ⟨List.replicate groups.length false, 0, false, best, nBest⟩
  let s := if s.reachedTarget then s
    else entries.foldl (subsetTurn params nTargetValue fun _ included => !included) s
  (s.best, s.nBest)

def approximateBestSubset (bits : ℕ → ℕ → Bool) (groups : List OutputGroup) (nTargetValue : ℤ) :
    ℕ → List Bool → ℤ → List Bool × ℤ
  | 0, best, nBest => (best, nBest)
  | rounds + 1, best, nBest =>
    if nBest = nTargetValue then (best, nBest)
    else
      let (best, nBest) := subsetRound params groups nTargetValue (bits rounds) best nBest
      approximateBestSubset bits groups nTargetValue rounds best nBest

/-- The first loop: a group that matches, or those below and the lowest above. -/
inductive Applicable
  | exact (group : OutputGroup)
  | sorted (groups : List OutputGroup) (lowestLarger : Option OutputGroup)

def sortApplicable (nTargetValue : ℤ) :
    List OutputGroup → List OutputGroup → Option OutputGroup → Applicable
  | [], groups, lowestLarger => .sorted groups lowestLarger
  | group :: rest, groups, lowestLarger =>
    let amount := group.getSelectionAmount params
    if amount = nTargetValue then .exact group
    else if amount < nTargetValue + minChange then
      sortApplicable nTargetValue rest (groups ++ [group]) lowestLarger
    else
      match lowestLarger with
      | none => sortApplicable nTargetValue rest groups (some group)
      | some lowest =>
        sortApplicable nTargetValue rest groups
          (some (if amount < lowest.getSelectionAmount params then group else lowest))

def bestSubset (chance : SpendChance) (groups : List OutputGroup) (nTotalLower nTargetValue : ℤ) :
    List Bool × ℤ :=
  let all := List.replicate groups.length true
  let first := approximateBestSubset params (chance.randbool false) groups nTargetValue 1000 all
    nTotalLower
  if first.2 ≠ nTargetValue ∧ nTargetValue + minChange ≤ nTotalLower then
    approximateBestSubset params (chance.randbool true) groups (nTargetValue + minChange) 1000 all
      nTotalLower
  else first

def knapsackGroups (order : DescendingSort params) (chance : SpendChance) (nTargetValue : ℤ)
    (groups : List OutputGroup) : Option (List OutputGroup) :=
  match sortApplicable params nTargetValue (chance.shuffle groups) [] none with
  | .exact group => some [group]
  | .sorted applicable lowestLarger =>
    let nTotalLower := (applicable.map (OutputGroup.getSelectionAmount params)).sum
    if nTotalLower = nTargetValue then some applicable
    else if nTotalLower < nTargetValue then lowestLarger.map fun group => [group]
    else
      let sorted := order.sort applicable
      let (best, nBest) := bestSubset params chance sorted nTotalLower nTargetValue
      match lowestLarger with
      | none => some (picked sorted best)
      | some lowest =>
        if (nBest ≠ nTargetValue ∧ nBest < nTargetValue + minChange) ∨
            lowest.getSelectionAmount params ≤ nBest then some [lowest]
        else some (picked sorted best)

def knapsackSolver (order : DescendingSort params) (chance : SpendChance) (nTargetValue : ℤ)
    (groups : List OutputGroup) : Option (CoinSet × ℤ) :=
  (knapsackGroups params order chance nTargetValue groups).map takeGroups

end
end Vexta
