import Vexta.Wallet.BnbResult

/-! The knapsack solver: what it chooses reaches the target, and when it wrongly gives up. -/
namespace Vexta
open Lib List OutputGroup

theorem total_picked_set (f : OutputGroup → ℤ) {groups : List OutputGroup} {bits : List Bool}
    {i : ℕ} {g : OutputGroup} (hg : groups[i]? = some g) (hfalse : bits[i]? = some false) :
    total f (picked groups (bits.set i true)) = total f (picked groups bits) + f g := by
  induction groups generalizing bits i with
  | nil => simp at hg
  | cons x groups ih =>
    cases bits with
    | nil => simp at hfalse
    | cons c bits =>
      cases i with
      | zero =>
        have hx : x = g := by simpa using hg
        have hc : c = false := by simpa using hfalse
        subst hx hc
        simp [add_comm]
      | succ i =>
        have hrest := ih (by simpa using hg) (by simpa using hfalse)
        cases c with
        | false => simpa using hrest
        | true =>
          simp only [set_cons_succ, picked_cons_true, total_cons, hrest]
          omega

section
variable {params : CoinSelectionParams} {groups : List OutputGroup} {target : ℤ}

structure SubsetState.Sums (params : CoinSelectionParams) (groups : List OutputGroup) (target : ℤ)
    (s : SubsetState) : Prop where
  length : s.included.length = groups.length
  nTotal : s.nTotal = total (getSelectionAmount params) (picked groups s.included)
  nBest : s.nBest = total (getSelectionAmount params) (picked groups s.best)
  reached : target ≤ s.nBest

variable {s : SubsetState} {best : List Bool} {nBest : ℤ}

theorem SubsetState.Sums.turn {i : ℕ} {g : OutputGroup} {take : ℕ → Bool → Bool}
    (h : s.Sums params groups target) (hg : groups[i]? = some g)
    (hnew : take i (s.included.getD i false) = true → s.included.getD i false = false) :
    (subsetTurn params target take s (g, i)).Sums params groups target ∧
      ((subsetTurn params target take s (g, i)).included = s.included ∨
        (subsetTurn params target take s (g, i)).included = s.included.set i true) := by
  unfold subsetTurn
  dsimp only
  by_cases htake : take i (s.included.getD i false) = true
  swap
  · rw [if_neg htake]
    exact ⟨h, .inl rfl⟩
  rw [if_pos htake]
  have hlt : i < s.included.length := h.length ▸ (List.getElem?_eq_some_iff.mp hg).1
  have hget : s.included[i] = false := by
    have hgetD := hnew htake
    rw [getD_eq_getElem?_getD, List.getElem?_eq_getElem hlt] at hgetD
    exact hgetD
  have hfalse : s.included[i]? = some false :=
    (List.getElem?_eq_getElem hlt).trans (congrArg some hget)
  have hsum : s.nTotal + g.getSelectionAmount params =
      total (getSelectionAmount params) (picked groups (s.included.set i true)) := by
    rw [total_picked_set _ hg hfalse, h.nTotal]
  have hback : (s.included.set i true).set i false = s.included := by
    rw [set_set]
    exact (congrArg (s.included.set i) hget.symm).trans (set_getElem_self hlt)
  by_cases hreach : target ≤ s.nTotal + g.getSelectionAmount params
  · rw [if_pos hreach, hback, add_sub_cancel_right]
    refine ⟨?_, .inl rfl⟩
    split_ifs with hless
    · exact ⟨h.length, h.nTotal, hsum, hreach⟩
    · exact ⟨h.length, h.nTotal, h.nBest, h.reached⟩
  · rw [if_neg hreach]
    exact ⟨⟨by rw [length_set, h.length], hsum, h.nBest, h.reached⟩, .inr rfl⟩

theorem SubsetState.Sums.pass (take : ℕ → Bool → Bool) (J : ℕ → List Bool → Prop)
    (hnew : ∀ i included, J i included → take i (included.getD i false) = true →
      included.getD i false = false)
    (hkeep : ∀ i included, J i included → J (i + 1) included ∧ J (i + 1) (included.set i true))
    {rest : List OutputGroup} {k : ℕ} (hrest : rest = groups.drop k)
    (h : s.Sums params groups target) (hJ : J k s.included) :
    ((rest.zipIdx k).foldl (subsetTurn params target take) s).Sums params groups target := by
  induction rest generalizing k s with
  | nil => exact h
  | cons g rest ih =>
    have hg : groups[k]? = some g := by
      rw [← List.head?_drop, ← hrest]
      rfl
    have htail : rest = groups.drop (k + 1) := by
      rw [← tail_drop, ← hrest]
      rfl
    obtain ⟨hturn, hincluded⟩ := h.turn hg (hnew k s.included hJ)
    have hJ' : J (k + 1) (subsetTurn params target take s (g, k)).included := by
      rcases hincluded with hsame | hset
      · rw [hsame]
        exact (hkeep k _ hJ).1
      · rw [hset]
        exact (hkeep k _ hJ).2
    rw [zipIdx_cons, foldl_cons]
    exact ih htail hturn hJ'

theorem SubsetState.Sums.firstPass (bits : ℕ → Bool) (h : s.Sums params groups target)
    (hclear : ∀ j, s.included.getD j false = false) :
    (groups.zipIdx.foldl (subsetTurn params target fun i _ => bits i) s).Sums
      params groups target := by
  have hall : groups = groups.drop 0 := rfl
  apply h.pass _ (fun k included => ∀ j, k ≤ j → included.getD j false = false) _ _ hall
  · exact fun j _ => hclear j
  · exact fun i _ hJ _ => hJ i le_rfl
  · intro i included hJ
    refine ⟨fun j hj => hJ j (by omega), fun j hj => ?_⟩
    have hne : i ≠ j := by omega
    rw [getD_eq_getElem?_getD, List.getElem?_set_ne hne, ← getD_eq_getElem?_getD]
    exact hJ j (by omega)

theorem SubsetState.Sums.secondPass (h : s.Sums params groups target) :
    (groups.zipIdx.foldl (subsetTurn params target fun _ included => !included) s).Sums
      params groups target := by
  have hall : groups = groups.drop 0 := rfl
  apply h.pass _ (fun _ _ => True) _ _ hall trivial
  · exact fun i _ _ htake => by simpa using htake
  · exact fun _ _ _ => ⟨trivial, trivial⟩

def BestSum (params : CoinSelectionParams) (groups : List OutputGroup) (target : ℤ)
    (r : List Bool × ℤ) : Prop :=
  r.2 = total (getSelectionAmount params) (picked groups r.1) ∧ target ≤ r.2

theorem subsetRound_best (bits : ℕ → Bool) (h : BestSum params groups target (best, nBest)) :
    BestSum params groups target (subsetRound params groups target bits best nBest) := by
  have hstart : (⟨List.replicate groups.length false, 0, false, best, nBest⟩ : SubsetState).Sums
      params groups target := by
    refine ⟨length_replicate, ?_, h.1, h.2⟩
    rw [picked_replicate_false]
    rfl
  have hfirst := hstart.firstPass bits fun j => by
    rw [getD_eq_getElem?_getD, List.getElem?_replicate]
    split_ifs
    · rfl
    · rfl
  unfold subsetRound
  dsimp only
  split_ifs
  · exact ⟨hfirst.nBest, hfirst.reached⟩
  · exact ⟨hfirst.secondPass.nBest, hfirst.secondPass.reached⟩

theorem approximateBestSubset_best (bits : ℕ → ℕ → Bool) (rounds : ℕ)
    (h : BestSum params groups target (best, nBest)) :
    BestSum params groups target
      (approximateBestSubset params bits groups target rounds best nBest) := by
  induction rounds generalizing best nBest with
  | zero => exact h
  | succ rounds ih =>
    unfold approximateBestSubset
    split_ifs
    · exact h
    · exact ih (subsetRound_best (bits rounds) h)

theorem bestSubset_best (chance : SpendChance)
    (hreach : target ≤ total (getSelectionAmount params) groups) :
    BestSum params groups target (bestSubset params chance groups
      (total (getSelectionAmount params) groups) target) := by
  have hall : ∀ t, t ≤ total (getSelectionAmount params) groups →
      BestSum params groups t (List.replicate groups.length true,
        total (getSelectionAmount params) groups) := by
    intro t ht
    refine ⟨?_, ht⟩
    rw [picked_replicate_true]
  unfold bestSubset
  dsimp only
  split_ifs with hagain
  · have hsecond := approximateBestSubset_best (chance.randbool true) 1000 (hall _ hagain.2)
    have hchange : (0 : ℤ) ≤ minChange := by decide
    exact ⟨hsecond.1, by have hle := hsecond.2; omega⟩
  · exact approximateBestSubset_best (chance.randbool false) 1000 (hall _ hreach)

/-- A match, or the groups below the target and one that is not. -/
def SortSpec (params : CoinSelectionParams) (target : ℤ) (l acc : List OutputGroup)
    (lowest : Option OutputGroup) (r : Applicable) : Prop :=
  (∃ g ∈ l, r = .exact g ∧ g.getSelectionAmount params = target) ∨
  ∃ found, r = .sorted
      (acc ++ l.filter fun g => decide (g.getSelectionAmount params < target + minChange)) found ∧
    (∀ g ∈ l, g.getSelectionAmount params ≠ target) ∧
    (∀ g, found = some g → lowest = some g ∨
      g ∈ l ∧ target + minChange ≤ g.getSelectionAmount params) ∧
    (found = none → lowest = none ∧ ∀ g ∈ l, g.getSelectionAmount params < target + minChange)

variable (params target) in
theorem sortApplicable_spec (l acc : List OutputGroup) (lowest : Option OutputGroup) :
    SortSpec params target l acc lowest (sortApplicable params target l acc lowest) := by
  induction l generalizing acc lowest with
  | nil => exact .inr ⟨lowest, by simp [sortApplicable], by simp, fun _ h => .inl h, by simp⟩
  | cons g l ih =>
    unfold sortApplicable
    dsimp only
    by_cases hexact : g.getSelectionAmount params = target
    · rw [if_pos hexact]
      exact .inl ⟨g, mem_cons_self, rfl, hexact⟩
    rw [if_neg hexact]
    by_cases hless : g.getSelectionAmount params < target + minChange
    · rw [if_pos hless]
      rcases ih (acc ++ [g]) lowest with ⟨x, hx, hrun, heq⟩ | ⟨found, hrun, hne, hsome, hnone⟩
      · exact .inl ⟨x, mem_cons_of_mem g hx, hrun, heq⟩
      · refine .inr ⟨found, ?_, forall_mem_cons.mpr ⟨hexact, hne⟩, ?_, ?_⟩
        · rw [hrun]
          simp [hless]
        · exact fun x hx => (hsome x hx).imp_right fun h => ⟨mem_cons_of_mem g h.1, h.2⟩
        · exact fun hx => ⟨(hnone hx).1, forall_mem_cons.mpr ⟨hless, (hnone hx).2⟩⟩
    rw [if_neg hless]
    -- the lowest of the larger ones, which is there from now on
    have hmore : ∀ new, (lowest = some new ∨ new = g) → SortSpec params target (g :: l) acc lowest
        (sortApplicable params target l acc (some new)) := by
      intro new hnew
      rcases ih acc (some new) with ⟨x, hx, hrun, heq⟩ | ⟨found, hrun, hne, hsome, hnone⟩
      · exact .inl ⟨x, mem_cons_of_mem g hx, hrun, heq⟩
      · refine .inr ⟨found, ?_, forall_mem_cons.mpr ⟨hexact, hne⟩, ?_, ?_⟩
        · rw [hrun]
          simp [hless]
        · intro x hx
          rcases hsome x hx with hnew' | ⟨hmem, hle⟩
          · cases hnew'
            rcases hnew with hlowest | rfl
            · exact .inl hlowest
            · exact .inr ⟨mem_cons_self, not_lt.mp hless⟩
          · exact .inr ⟨mem_cons_of_mem g hmem, hle⟩
        · exact fun hx => absurd (hnone hx).1 (by simp)
    cases lowest with
    | none => exact hmore g (.inr rfl)
    | some low =>
      by_cases hlower : g.getSelectionAmount params < low.getSelectionAmount params
      · dsimp only
        rw [if_pos hlower]
        exact hmore g (.inr rfl)
      · dsimp only
        rw [if_neg hlower]
        exact hmore low (.inl rfl)

theorem knapsackGroups_spec (order : DescendingSort params) (chance : SpendChance) :
    (∃ chosen, knapsackGroups params order chance target groups = some chosen ∧
      chosen.Subperm groups ∧ target ≤ total (getSelectionAmount params) chosen ∧
      ((∃ g ∈ groups, g.getSelectionAmount params = target ∨
          target + minChange ≤ g.getSelectionAmount params) ∨
        target ≤ total (getSelectionAmount params) groups)) ∨
    (knapsackGroups params order chance target groups = none ∧
      (∀ g ∈ groups, g.getSelectionAmount params ≠ target ∧
        g.getSelectionAmount params < target + minChange) ∧
      total (getSelectionAmount params) groups < target) := by
  have hperm := chance.shuffle_perm groups
  have hchange : (0 : ℤ) ≤ minChange := by decide
  have hone : ∀ g ∈ chance.shuffle groups, [g].Subperm groups :=
    fun g hg => singleton_subperm_iff.mpr (hperm.mem_iff.mp hg)
  unfold knapsackGroups
  rcases sortApplicable_spec params target (chance.shuffle groups) [] none
    with ⟨g, hg, hrun, heq⟩ | ⟨found, hrun, hne, hsome, hnone⟩
  · rw [hrun]
    exact .inl ⟨[g], rfl, hone g hg, by simp [heq], .inl ⟨g, hperm.mem_iff.mp hg, .inl heq⟩⟩
  rw [hrun, nil_append]
  generalize happ : (chance.shuffle groups).filter
    (fun g => decide (g.getSelectionAmount params < target + minChange)) = applicable
  have hsub : applicable.Subperm groups :=
    (happ ▸ filter_sublist).subperm.trans hperm.subperm
  -- without a larger group all groups are applicable
  have hall : found = none →
      total (getSelectionAmount params) applicable =
        total (getSelectionAmount params) groups := by
    intro hfound
    rw [← happ, filter_eq_self.mpr fun g hg => decide_eq_true ((hnone hfound).2 g hg)]
    exact total_perm _ hperm
  have hlarger : ∀ g, found = some g → g ∈ chance.shuffle groups ∧
      target + minChange ≤ g.getSelectionAmount params :=
    fun g hfound => (hsome g hfound).resolve_left (by simp)
  have hreason : target ≤ total (getSelectionAmount params) applicable →
      (∃ g ∈ groups, g.getSelectionAmount params = target ∨
        target + minChange ≤ g.getSelectionAmount params) ∨
        target ≤ total (getSelectionAmount params) groups := by
    intro hreach
    cases found with
    | none => exact .inr (hall rfl ▸ hreach)
    | some g => exact .inl ⟨g, hperm.mem_iff.mp (hlarger g rfl).1, .inr (hlarger g rfl).2⟩
  have hlargest : ∀ g, found = some g → [g].Subperm groups ∧
      target ≤ total (getSelectionAmount params) [g] ∧
      ((∃ g ∈ groups, g.getSelectionAmount params = target ∨
        target + minChange ≤ g.getSelectionAmount params) ∨
        target ≤ total (getSelectionAmount params) groups) := by
    intro g hfound
    obtain ⟨hmem, hle⟩ := hlarger g hfound
    refine ⟨hone g hmem, ?_, .inl ⟨g, hperm.mem_iff.mp hmem, .inr hle⟩⟩
    rw [total_cons, total_nil]
    omega
  have hsum : (applicable.map (getSelectionAmount params)).sum =
      total (getSelectionAmount params) applicable := rfl
  dsimp only
  rw [hsum]
  by_cases hequal : total (getSelectionAmount params) applicable = target
  · rw [if_pos hequal]
    exact .inl ⟨applicable, rfl, hsub, hequal.ge, hreason hequal.ge⟩
  rw [if_neg hequal]
  by_cases hless : total (getSelectionAmount params) applicable < target
  · rw [if_pos hless]
    cases found with
    | none =>
      refine .inr ⟨rfl, fun g hg => ?_, hall rfl ▸ hless⟩
      have hmem := hperm.mem_iff.mpr hg
      exact ⟨hne g hmem, (hnone rfl).2 g hmem⟩
    | some g => exact .inl ⟨[g], rfl, hlargest g rfl⟩
  rw [if_neg hless]
  have hsorted := order.sort_perm applicable
  have hreach : target ≤ total (getSelectionAmount params) applicable := by omega
  have hbest := bestSubset_best chance ((total_perm _ hsorted).symm ▸ hreach)
  rw [total_perm _ hsorted] at hbest
  generalize bestSubset params chance (order.sort applicable) _ target = r at hbest
  obtain ⟨best, nBest⟩ := r
  have hpicked : (picked (order.sort applicable) best).Subperm groups ∧
      target ≤ total (getSelectionAmount params)
        (picked (order.sort applicable) best) ∧ _ :=
    ⟨(picked_sublist.subperm.trans hsorted.subperm).trans hsub, hbest.1 ▸ hbest.2, hreason hreach⟩
  cases found with
  | none => exact .inl ⟨_, rfl, hpicked⟩
  | some g =>
    dsimp only
    split_ifs
    · exact .inl ⟨_, rfl, hlargest g rfl⟩
    · exact .inl ⟨_, rfl, hpicked⟩

theorem takeGroups_value (l : List OutputGroup) :
    (takeGroups l).2 = total value l := by
  have hfold : ∀ (l : List OutputGroup) (s : CoinSet × ℤ),
      (l.foldl (fun s group => (s.1.insertAll group.outputs, s.2 + group.value)) s).2 =
        s.2 + total value l := by
    intro l
    induction l with
    | nil => simp
    | cons g l ih =>
      intro s
      rw [foldl_cons, ih, total_cons, add_assoc]
  exact (hfold l ([], 0)).trans (zero_add _)

theorem subset_below_iff :
    (∀ sub : List OutputGroup, sub.Subperm groups →
      total (getSelectionAmount params) sub < target) ↔
    total (fun g => max (g.getSelectionAmount params) 0) groups < target := by
  have hpositive : ∀ l : List OutputGroup, total (getSelectionAmount params)
      (l.filter fun g => decide (0 < g.getSelectionAmount params)) =
      total (fun g => max (g.getSelectionAmount params) 0) l := by
    intro l
    induction l with
    | nil => rfl
    | cons g l ih =>
      rw [total_cons, ← ih, filter_cons]
      by_cases hpos : 0 < g.getSelectionAmount params
      · rw [if_pos (decide_eq_true hpos), total_cons]
        omega
      · rw [if_neg (by simpa using hpos)]
        omega
  constructor
  · intro h
    rw [← hpositive]
    exact h _ filter_sublist.subperm
  · intro h sub hsub
    obtain ⟨l, hperm, hsublist⟩ := hsub
    have hle := (total_sublist (fun g => max (g.getSelectionAmount params) 0) hsublist
      fun g _ => le_max_right _ _).2
    have hmax : ∀ l : List OutputGroup, total (getSelectionAmount params) l ≤
        total (fun g => max (g.getSelectionAmount params) 0) l :=
      fun l => sum_le_sum fun g _ => le_max_left _ _
    rw [← total_perm _ hperm]
    exact lt_of_le_of_lt ((hmax l).trans hle) h

end

namespace SampleKnapsack

def params : CoinSelectionParams :=
  ⟨⟨1000000⟩, ⟨10000⟩, false, false⟩

def output (index : BitVec 32) (nValue : BitVec 64) : COutput :=
  ⟨⟨0, index⟩, ⟨nValue, [], CScript.short_nil⟩, 6, 148, true, true, 0, 0⟩

def groups : List OutputGroup :=
  groupOutputs params ⟨1, 6, 0, 0, false⟩ false
    [output 0 600000, output 1 600000, output 2 10]

def chance : SpendChance where
  randbool := fun _ _ _ => true
  shuffle := id
  shuffle_perm := List.Perm.refl

end SampleKnapsack

end Vexta
