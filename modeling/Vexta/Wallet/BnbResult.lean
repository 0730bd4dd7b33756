import Mathlib.Data.List.Sort
import Vexta.Wallet.Bnb

/-! What `SelectCoinsBnB` returns: a selection in the range, and how little it wastes. -/
namespace Vexta
open Lib List OutputGroup BnbRange

def DescendingSort.range {params : CoinSelectionParams} (order : DescendingSort params)
    (pool : List OutputGroup) (target cost : ℤ) : BnbRange :=
  ⟨params, order.sort pool, target, cost⟩

section
variable {params : CoinSelectionParams} {pool : List OutputGroup} {target cost : ℤ}
  (order : DescendingSort params)

theorem exists_picked_sort {gs : List OutputGroup} (h : gs.Subperm pool) :
    ∃ bits : List Bool, bits.length = (order.sort pool).length ∧
      (picked (order.sort pool) bits).Perm gs := by
  obtain ⟨hs, hperm, hsub⟩ := h.trans (order.sort_perm pool).symm.subperm
  obtain ⟨bits, hlen, hpicked⟩ := exists_picked hsub
  exact ⟨bits, hlen, hpicked ▸ hperm⟩

theorem picked_sort_subperm (bits : List Bool) : (picked (order.sort pool) bits).Subperm pool :=
  picked_sublist.subperm.trans (order.sort_perm pool).subperm

theorem sort_pos (hpos : ∀ g ∈ pool, 0 < g.getSelectionAmount params) :
    ∀ g ∈ order.sort pool, 0 < g.getSelectionAmount params :=
  fun g hg => hpos g ((order.sort_perm pool).mem_iff.mp hg)

theorem pos_of_selectGroupsBnB {r : Bool × Option (List OutputGroup)}
    (h : selectGroupsBnB params pool target cost order = .ok r) :
    ∀ g ∈ pool, 0 < g.getSelectionAmount params := by
  intro g hg
  by_contra hle
  have hassert : ((pool.map (getSelectionAmount params)).any
      fun amount => decide (amount ≤ 0)) = true := by
    rw [any_map, any_eq_true]
    exact ⟨g, hg, decide_eq_true (by omega)⟩
  unfold selectGroupsBnB at h
  dsimp only at h
  rw [if_pos hassert] at h
  cases h

theorem selectGroupsBnB_search {G : List Bool → ℤ → List Bool → Prop}
    (hpos : ∀ g ∈ pool, 0 < g.getSelectionAmount params) (htarget : 0 < target)
    (hG : (order.range pool target cost).Accounts G) :
    (total (getSelectionAmount params) pool < target ∧
      selectGroupsBnB params pool target cost order = .ok (false, none)) ∨
    ∃ usedUp s, target ≤ total (getSelectionAmount params) pool ∧
      bnbLoop params (order.sort pool) target cost totalTries
        (bnbStart (total (getSelectionAmount params) (order.sort pool))) = .ok (usedUp, s) ∧
      selectGroupsBnB params pool target cost order =
        (if s.bestSelection.isEmpty then .ok (usedUp, none)
          else .ok (usedUp, some (picked (order.sort pool) s.bestSelection))) ∧
      (order.range pool target cost).After G usedUp s := by
  have hassert : ¬ ((pool.map (getSelectionAmount params)).any
      fun amount => decide (amount ≤ 0)) = true := by
    simp only [any_map, any_eq_true, Function.comp_apply, decide_eq_true_eq]
    intro ⟨g, hg, hle⟩
    have hg' := hpos g hg
    omega
  have hsum : (pool.map (getSelectionAmount params)).sum =
      (order.range pool target cost).amount (order.sort pool) :=
    (total_perm _ (order.sort_perm pool)).symm
  unfold selectGroupsBnB
  dsimp only
  rw [if_neg hassert]
  by_cases hreach : (pool.map (getSelectionAmount params)).sum < target
  · exact .inl ⟨hreach, if_pos hreach⟩
  · obtain ⟨usedUp, s, hrun, hafter⟩ := bnbLoop_spec (sort_pos order hpos) hG htarget
      totalTries searching_start
    refine .inr ⟨usedUp, s, not_lt.mp hreach, hrun, ?_, hafter⟩
    rw [if_neg hreach, hsum]
    exact congrArg (· >>= _) hrun

def amountsAndFees (params : CoinSelectionParams) (groups : List OutputGroup) : ℤ :=
  total (fun g => g.getSelectionAmount params + max g.fee 0 + max (-g.longTermFee) 0) groups

theorem waste_le_amountsAndFees (params : CoinSelectionParams)
    (groups : List OutputGroup) :
    total waste groups + total (getSelectionAmount params) groups ≤
      amountsAndFees params groups := by
  unfold amountsAndFees
  induction groups with
  | nil => simp
  | cons g groups ih =>
    rw [total_cons, total_cons, total_cons]
    have hwaste : g.waste = g.fee - g.longTermFee := rfl
    omega

theorem accounts_found_sort (hpos : ∀ g ∈ pool, 0 < g.getSelectionAmount params)
    (hmoney : amountsAndFees params pool ≤ maxMoney) (htarget : 0 < target) :
    (order.range pool target cost).Accounts fun best _ _ => best ≠ [] := by
  apply accounts_found htarget
  intro gs hsub
  have hpos' := sort_pos order hpos
  have hamount := total_sublist _ hsub fun g hg => (hpos' g hg).le
  have hfees : amountsAndFees params gs ≤ amountsAndFees params (order.sort pool) := by
    apply (total_sublist _ hsub _).2
    intro g hg
    have hg' := hpos' g hg
    omega
  have hsame : amountsAndFees params (order.sort pool) = amountsAndFees params pool :=
    total_perm _ (order.sort_perm pool)
  have hwaste := waste_le_amountsAndFees params gs
  exact ⟨le_trans (le_trans hwaste hfees) (hsame.trans_le hmoney), hamount.1⟩

inductive OutputGroup.Built (params : CoinSelectionParams) : OutputGroup → Prop
  | empty : Built params .empty
  | insert {group : OutputGroup} (coin : CInputCoin) (depth : ℤ) (fromMe : Bool)
      (ancestors descendants : ℕ) (positiveOnly : Bool) : Built params group →
      Built params (group.insert params coin depth fromMe ancestors descendants positiveOnly)

theorem OutputGroup.Built.waste_nonneg {group : OutputGroup} (h : group.Built params)
    (hrate : params.longTermFeerate.nSatoshisPerK ≤ params.effectiveFeerate.nSatoshisPerK) :
    0 ≤ group.waste := by
  induction h with
  | empty => exact le_refl 0
  | insert coin depth fromMe ancestors descendants positiveOnly _ ih =>
    have hfee : coinFee params.longTermFeerate coin ≤ coinFee params.effectiveFeerate coin := by
      unfold coinFee
      split_ifs
      · exact le_refl 0
      · exact CFeeRate.getFee_rate_mono hrate _
    unfold OutputGroup.waste at ih ⊢
    unfold OutputGroup.insert
    dsimp only
    split_ifs
    · exact ih
    · dsimp only
      omega

end

def insertionOrder (params : CoinSelectionParams) : DescendingSort params where
  sort := List.insertionSort fun a b => b.getSelectionAmount params ≤ a.getSelectionAmount params
  sort_perm := perm_insertionSort _
  sort_pairwise := by
    have : Std.Total fun a b : OutputGroup =>
        b.getSelectionAmount params ≤ a.getSelectionAmount params := ⟨fun a b => le_total _ _⟩
    have : IsTrans OutputGroup fun a b =>
        b.getSelectionAmount params ≤ a.getSelectionAmount params := ⟨fun a b c h h' => h'.trans h⟩
    exact pairwise_insertionSort _

namespace SamplePool

def params : CoinSelectionParams :=
  ⟨⟨500⟩, ⟨340⟩, false, false⟩

def order : DescendingSort params := insertionOrder params

def group (index : BitVec 32) (inputBytes : ℤ) : OutputGroup :=
  empty.insert params ⟨⟨0, index⟩, ⟨10074, [], CScript.short_nil⟩, inputBytes⟩ 1 true 0 0 true

def pool : List OutputGroup := [group 0 147, group 1 148]

def range : BnbRange := order.range pool 10000 100

theorem built : ∀ g ∈ pool, g.Built params := by
  intro g hg
  simp only [pool, mem_cons, not_mem_nil, or_false] at hg
  rcases hg with rfl | rfl
  · exact .insert _ _ _ _ _ _ .empty
  · exact .insert _ _ _ _ _ _ .empty

theorem run : selectGroupsBnB params pool 10000 100 order = .ok (false, some [group 0 147]) := by
  decide +kernel

theorem second_within : [group 1 148].Subperm pool ∧ range.Within [group 1 148] ∧
    range.wasteOf [group 1 148] < range.wasteOf [group 0 147] := by
  have hlow : range.target ≤ range.amount [group 1 148] := by decide +kernel
  have hhigh : range.amount [group 1 148] ≤ range.target + range.cost := by decide +kernel
  exact ⟨(sublist_cons_self _ _).subperm, ⟨hlow, hhigh⟩, by decide +kernel⟩

end SamplePool

end Vexta
