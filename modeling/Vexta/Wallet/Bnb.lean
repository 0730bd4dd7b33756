import Mathlib.Algebra.Order.BigOperators.Group.List
import Vexta.Wallet.CoinSelection

/-! The branch-and-bound search: what its state stands for, and what it has passed when it ends. -/
namespace Vexta
open Lib List OutputGroup

def OutputGroup.waste (group : OutputGroup) : ℤ := group.fee - group.longTermFee

def total (f : OutputGroup → ℤ) (groups : List OutputGroup) : ℤ := (groups.map f).sum

section
variable (f : OutputGroup → ℤ) {gs hs : List OutputGroup}

@[simp] theorem total_nil : total f [] = 0 := rfl

@[simp] theorem total_cons (g : OutputGroup) : total f (g :: gs) = f g + total f gs := by
  simp [total]

@[simp] theorem total_append : total f (gs ++ hs) = total f gs + total f hs := by
  simp [total]

theorem total_perm (h : gs.Perm hs) : total f gs = total f hs := (h.map f).sum_eq

theorem total_sublist (h : gs.Sublist hs) (hf : ∀ g ∈ hs, 0 ≤ f g) :
    0 ≤ total f gs ∧ total f gs ≤ total f hs := by
  have hmap : ∀ x ∈ hs.map f, 0 ≤ x := by simpa using hf
  constructor
  · exact sum_nonneg fun x hx => hmap x ((h.map f).subset hx)
  · exact (h.map f).sum_le_sum hmap

theorem total_drop {pool : List OutputGroup} {i : ℕ} {g : OutputGroup} (h : pool[i]? = some g) :
    total f (pool.drop i) = f g + total f (pool.drop (i + 1)) := by
  obtain ⟨hlt, hg⟩ := List.getElem?_eq_some_iff.mp h
  rw [drop_eq_getElem_cons hlt, hg, total_cons]

end

/-- The pool searched, with the totals that need no change. -/
structure BnbRange where
  params : CoinSelectionParams
  pool : List OutputGroup
  target : ℤ
  cost : ℤ

namespace BnbRange
variable (R : BnbRange) (groups : List OutputGroup)

def amount : ℤ :=
  total (getSelectionAmount R.params) groups

def Within : Prop :=
  R.target ≤ R.amount groups ∧ R.amount groups ≤ R.target + R.cost

def wasteOf : ℤ :=
  total waste groups + (R.amount groups - R.target)

def key (group : OutputGroup) : ℤ × ℤ := (group.getSelectionAmount R.params, group.fee)

def chosen (stack : List Bool) : List OutputGroup := picked R.pool stack.reverse

structure Tracks (s : BnbState) : Prop where
  length_le : s.currSelection.length ≤ R.pool.length
  value : s.currValue = R.amount (R.chosen s.currSelection)
  available : s.currAvailableValue = R.amount (R.pool.drop s.currSelection.length)
  waste : s.currWaste = total waste (R.chosen s.currSelection)

def BestFits (s : BnbState) : Prop :=
  (s.bestSelection = [] ∧ s.bestWaste = maxMoney) ∨
    (s.bestSelection ≠ [] ∧ s.bestSelection.length = R.pool.length ∧
      Canonical R.key R.pool s.bestSelection ∧ R.Within (picked R.pool s.bestSelection) ∧
      s.bestWaste = R.wasteOf (picked R.pool s.bestSelection))

structure Moved (s s' : BnbState) : Prop where
  tracks : R.Tracks s'
  canonical : Canonical R.key R.pool s.currSelection.reverse →
    Canonical R.key R.pool s'.currSelection.reverse
  bestSelection : s'.bestSelection = s.bestSelection
  bestWaste : s'.bestWaste = s.bestWaste

variable {R}

variable {g : OutputGroup} {stack : List Bool} {s : BnbState} {b : List Bool}

theorem poolAt_of_getElem? {pool : List OutputGroup} {i : ℕ} (h : pool[i]? = some g) :
    poolAt pool i = .ok g := by
  unfold poolAt
  rw [h]

theorem chosen_false (stack : List Bool) : R.chosen (false :: stack) = R.chosen stack := by
  unfold chosen
  rw [reverse_cons, picked_append]
  cases R.pool.drop stack.reverse.length with
  | nil => simp
  | cons g gs => simp

theorem chosen_true (h : R.pool[stack.length]? = some g) :
    R.chosen (true :: stack) = R.chosen stack ++ [g] := by
  obtain ⟨hlt, hg⟩ := List.getElem?_eq_some_iff.mp h
  unfold chosen
  rw [reverse_cons, picked_append, length_reverse, drop_eq_getElem_cons hlt, hg]
  simp

theorem chosen_sublist (stack : List Bool) : (R.chosen stack).Sublist R.pool := picked_sublist

theorem Moved.bestFits {s' : BnbState} (h : R.Moved s s') (hbest : R.BestFits s) :
    R.BestFits s' := by
  unfold BestFits at hbest ⊢
  rw [h.bestSelection, h.bestWaste]
  exact hbest

structure WalkedBack (R : BnbRange) (stack rest : List Bool) : Prop where
  length_le : rest.length ≤ R.pool.length
  chosen_eq : R.chosen rest = R.chosen stack
  front : rest.reverse <+: stack.reverse
  head : rest.head? ≠ some false
  closed : ∀ P, Closed R.pool.length P stack → Closed R.pool.length P rest

theorem bnbWalkBack_spec (hle : stack.length ≤ R.pool.length) :
    ∃ rest, bnbWalkBack R.params R.pool stack (R.amount (R.pool.drop stack.length)) =
      .ok (rest, R.amount (R.pool.drop rest.length)) ∧ R.WalkedBack stack rest := by
  induction stack with
  | nil => exact ⟨[], rfl, hle, rfl, prefix_rfl, by simp, fun _ h => h⟩
  | cons c stack ih =>
    cases c with
    | true => exact ⟨true :: stack, rfl, hle, rfl, prefix_rfl, by simp, fun _ h => h⟩
    | false =>
      rw [length_cons] at hle
      have hget :=
        List.getElem?_eq_getElem hle
      have hdrop := total_drop (getSelectionAmount R.params) hget
      obtain ⟨rest, hrun, hwalked⟩ := ih (by omega)
      refine ⟨rest, ?_, hwalked.length_le, ?_, ?_, hwalked.head, ?_⟩
      · unfold bnbWalkBack
        rw [poolAt_of_getElem? hget, ok_bind, length_cons, add_comm]
        unfold amount at hrun ⊢
        rw [← hdrop]
        exact hrun
      · rw [hwalked.chosen_eq, chosen_false]
      · rw [reverse_cons]
        exact hwalked.front.trans (prefix_append _ _)
      · exact fun P h => hwalked.closed P (h.back hle)

theorem bnbBacktrack_spec (h : R.Tracks s) :
    ∃ goOn s', bnbBacktrack R.params R.pool s = .ok (goOn, s') ∧ R.Moved s s' ∧
      ∀ P, Closed R.pool.length P s.currSelection →
        if goOn then Searched R.pool.length P s'.currSelection else Closed R.pool.length P [] := by
  obtain ⟨rest, hrun, hwalked⟩ := bnbWalkBack_spec h.length_le
  have hchosen := hwalked.chosen_eq
  unfold bnbBacktrack
  rw [h.available, hrun, ok_bind]
  cases rest with
  | nil =>
    refine ⟨false, _, rfl, ⟨⟨Nat.zero_le _, ?_, rfl, ?_⟩, fun _ => .nil, rfl, rfl⟩,
      hwalked.closed⟩
    · exact h.value.trans (congrArg R.amount hchosen.symm)
    · exact h.waste.trans (congrArg _ hchosen.symm)
  | cons c rest =>
    have hc : c = true := by
      have hhead := hwalked.head
      cases c with
      | true => rfl
      | false => exact absurd rfl hhead
    subst hc
    have hlt : rest.length < R.pool.length := hwalked.length_le
    have hget := List.getElem?_eq_getElem hlt
    rw [chosen_true hget] at hchosen
    dsimp only
    rw [poolAt_of_getElem? hget, ok_bind]
    refine ⟨true, _, rfl, ⟨⟨hlt, ?_, rfl, ?_⟩, ?_, rfl, rfl⟩, ?_⟩
    · change s.currValue - _ = R.amount (R.chosen (false :: rest))
      rw [chosen_false, h.value, ← hchosen]
      simp [amount]
    · change s.currWaste - _ = total _ (R.chosen (false :: rest))
      rw [chosen_false, h.waste, ← hchosen]
      simp [waste]
    · intro hcanon
      have hfront := hwalked.front
      change Canonical _ _ (false :: rest).reverse
      rw [reverse_cons] at hfront ⊢
      have hrest :=
        (prefix_append _ _).trans hfront
      exact (hcanon.of_prefix hrest).concat_false
    · exact fun P hclosed => (hwalked.closed P hclosed).flip

def OmittedBefore (R : BnbRange) (g : OutputGroup) (stack : List Bool) : Prop :=
  ∃ rest previous, stack = false :: rest ∧ R.pool[rest.length]? = some previous ∧
    R.key g = R.key previous

theorem sameAsOmitted_spec (g : OutputGroup) (hle : stack.length ≤ R.pool.length) :
    ∃ same, sameAsOmitted R.params R.pool g stack = .ok same ∧
      (same = true ↔ R.OmittedBefore g stack) := by
  cases stack with
  | nil => exact ⟨false, rfl, by simp [OmittedBefore]⟩
  | cons c rest =>
    cases c with
    | true => exact ⟨false, rfl, by simp [OmittedBefore]⟩
    | false =>
      have hget := List.getElem?_eq_getElem hle
      unfold sameAsOmitted
      dsimp only
      rw [poolAt_of_getElem? hget, ok_bind]
      refine ⟨_, rfl, ?_⟩
      rw [Bool.and_eq_true, decide_eq_true_iff, decide_eq_true_iff]
      constructor
      · intro ⟨hamount, hfee⟩
        exact ⟨rest, _, rfl, hget, Prod.ext hamount hfee⟩
      · intro ⟨rest', previous, hstack, hprevious, hkey⟩
        cases hstack
        cases hget.symm.trans hprevious
        exact ⟨congrArg Prod.fst hkey, congrArg Prod.snd hkey⟩

theorem OmittedBefore.not_canonical (h : R.OmittedBefore g stack)
    (hg : R.pool[stack.length]? = some g) (hfollows : Follows (true :: stack) b) :
    ¬ Canonical R.key R.pool b := by
  obtain ⟨rest, previous, rfl, hprevious, hkey⟩ := h
  intro hcanon
  exact hcanon rest.length previous g hprevious hg hkey.symm hfollows.1.2 hfollows.2

theorem canonical_take (h : ¬ R.OmittedBefore g stack) (hg : R.pool[stack.length]? = some g)
    (hcanon : Canonical R.key R.pool stack.reverse) :
    Canonical R.key R.pool (true :: stack).reverse := by
  rw [reverse_cons]
  apply hcanon.concat_true
  intro i x y hi hx hy hkey hfalse
  apply h
  cases stack with
  | nil => simp at hi
  | cons c rest =>
    have hlen : i = rest.length := by simpa using hi
    subst hlen
    rw [length_cons, hy] at hg
    cases hg
    rw [reverse_cons, List.getElem?_append_right (by simp)] at hfalse
    have hc : c = false := by simpa using hfalse
    exact ⟨rest, x, by rw [hc], hx, hkey.symm⟩

theorem bnbForward_spec (h : R.Tracks s) (hlt : s.currSelection.length < R.pool.length) :
    ∃ s', bnbForward R.params R.pool s = .ok s' ∧ R.Moved s s' ∧
      ∀ P, (∀ b, ¬ Canonical R.key R.pool b → P b) →
        Searched R.pool.length P s.currSelection → Searched R.pool.length P s'.currSelection := by
  have hget :=
    List.getElem?_eq_getElem hlt
  have havailable : s.currAvailableValue - R.pool[s.currSelection.length].getSelectionAmount
      R.params = R.amount (R.pool.drop (s.currSelection.length + 1)) := by
    rw [h.available]
    unfold amount
    rw [total_drop _ hget, add_sub_cancel_left]
  obtain ⟨same, hrun, hsame⟩ := sameAsOmitted_spec R.pool[s.currSelection.length] h.length_le
  unfold bnbForward
  rw [poolAt_of_getElem? hget, ok_bind, hrun, ok_bind]
  cases same with
  | true =>
    have homitted := hsame.mp rfl
    refine ⟨_, rfl, ⟨⟨hlt, ?_, havailable, ?_⟩, ?_, rfl, rfl⟩, ?_⟩
    · exact h.value.trans (congrArg R.amount (chosen_false _).symm)
    · exact h.waste.trans (congrArg _ (chosen_false _).symm)
    · intro hcanon
      change Canonical _ _ (false :: s.currSelection).reverse
      rw [reverse_cons]
      exact hcanon.concat_false
    · intro P hP hsearched
      exact hsearched.skip fun b _ hfollows => hP b (homitted.not_canonical hget hfollows)
  | false =>
    have homitted : ¬ R.OmittedBefore _ s.currSelection :=
      fun hbefore => Bool.false_ne_true (hsame.mpr hbefore)
    refine ⟨_, rfl, ⟨⟨hlt, ?_, havailable, ?_⟩, canonical_take homitted hget, rfl, rfl⟩, ?_⟩
    · change s.currValue + _ = R.amount (R.chosen (true :: s.currSelection))
      rw [chosen_true hget, h.value]
      simp [amount]
    · change s.currWaste + _ = total _ (R.chosen (true :: s.currSelection))
      rw [chosen_true hget, h.waste]
      simp [waste]
    · exact fun P _ hsearched => hsearched.take

theorem picked_of_follows (h : Follows stack b) :
    ∃ more, picked R.pool b = R.chosen stack ++ more ∧
      more.Sublist (R.pool.drop stack.length) := by
  obtain ⟨rest, rfl⟩ := follows_iff.mp h
  refine ⟨picked (R.pool.drop stack.reverse.length) rest, picked_append rest, ?_⟩
  rw [length_reverse]
  exact picked_sublist

theorem total_of_follows (f : OutputGroup → ℤ) (hf : ∀ g ∈ R.pool, 0 ≤ f g) (h : Follows stack b) :
    total f (R.chosen stack) ≤ total f (picked R.pool b) ∧
      total f (picked R.pool b) ≤
        total f (R.chosen stack) + total f (R.pool.drop stack.length) := by
  obtain ⟨more, hpicked, hsub⟩ := picked_of_follows (R := R) h
  have hmore := total_sublist f hsub fun g hg => hf g (mem_of_mem_drop hg)
  rw [hpicked, total_append]
  omega

def Cut (R : BnbRange) (s : BnbState) : Prop :=
  s.currValue + s.currAvailableValue < R.target ∨ R.target + R.cost < s.currValue ∨
    (s.bestWaste < s.currWaste ∧ ∃ g, R.pool[0]? = some g ∧ 0 < g.waste)

theorem bnbCut_spec (hne : s.bestWaste < s.currWaste → R.pool ≠ []) :
    ∃ cut, bnbCut R.pool R.target R.cost s = .ok cut ∧ (cut = true ↔ R.Cut s) := by
  unfold bnbCut Cut
  by_cases hrange : s.currValue + s.currAvailableValue < R.target ∨
      R.target + R.cost < s.currValue
  · rw [if_pos hrange]
    refine ⟨true, rfl, ?_⟩
    rcases hrange with hlow | hhigh
    · simp [hlow]
    · simp [hhigh]
  · rw [if_neg hrange]
    obtain ⟨hlow, hhigh⟩ := not_or.mp hrange
    by_cases hwaste : s.bestWaste < s.currWaste
    · rw [if_pos hwaste]
      cases hpool : R.pool with
      | nil => exact absurd hpool (hne hwaste)
      | cons g gs =>
        refine ⟨decide (0 < g.waste), rfl, ?_⟩
        simp [hlow, hhigh, hwaste]
    · rw [if_neg hwaste]
      exact ⟨false, rfl, by simp [hlow, hhigh, hwaste]⟩

theorem Tracks.ne_nil (h : R.Tracks s) (htarget : 0 < R.target) (hlow : R.target ≤ s.currValue) :
    s.currSelection ≠ [] := by
  intro hnil
  have hzero := h.value
  rw [hnil] at hzero
  simp [chosen, amount] at hzero
  omega

section record
variable {s : BnbState}

theorem bnbRecord_cases (s : BnbState) :
    (s.currWaste + (s.currValue - R.target) ≤ s.bestWaste ∧ bnbRecord R.pool R.target s = { s with
      bestSelection := s.currSelection.reverse ++
        List.replicate (R.pool.length - s.currSelection.length) false
      bestWaste := s.currWaste + (s.currValue - R.target) }) ∨
    (s.bestWaste < s.currWaste + (s.currValue - R.target) ∧ bnbRecord R.pool R.target s = s) := by
  unfold bnbRecord
  dsimp only
  split_ifs with hwaste
  · exact .inl ⟨hwaste, rfl⟩
  · exact .inr ⟨by omega, rfl⟩

theorem bnbRecord_currSelection : (bnbRecord R.pool R.target s).currSelection = s.currSelection := by
  rcases bnbRecord_cases (R := R) s with ⟨-, hrecord⟩ | ⟨-, hrecord⟩
  · rw [hrecord]
  · rw [hrecord]

theorem bnbRecord_tracks (h : R.Tracks s) : R.Tracks (bnbRecord R.pool R.target s) := by
  rcases bnbRecord_cases (R := R) s with ⟨-, hrecord⟩ | ⟨-, hrecord⟩
  · rw [hrecord]
    exact ⟨h.length_le, h.value, h.available, h.waste⟩
  · rw [hrecord]
    exact h

theorem bnbRecord_bestFits (h : R.Tracks s)
    (hcanon : Canonical R.key R.pool s.currSelection.reverse) (hbest : R.BestFits s)
    (htarget : 0 < R.target) (hlow : R.target ≤ s.currValue)
    (hhigh : s.currValue ≤ R.target + R.cost) : R.BestFits (bnbRecord R.pool R.target s) := by
  rcases bnbRecord_cases (R := R) s with ⟨-, hrecord⟩ | ⟨-, hrecord⟩
  · have hpicked : picked R.pool (s.currSelection.reverse ++
        List.replicate (R.pool.length - s.currSelection.length) false) =
        R.chosen s.currSelection := by
      rw [picked_append, picked_replicate_false, append_nil]
      rfl
    have hne := h.ne_nil htarget hlow
    have hle := h.length_le
    rw [hrecord]
    refine .inr ⟨by simp [hne], ?_, hcanon.append_false _, ?_, ?_⟩
    · simp only [length_append, length_reverse, length_replicate]
      omega
    · dsimp only
      rw [hpicked, Within, ← h.value]
      exact ⟨hlow, hhigh⟩
    · dsimp only
      rw [hpicked, wasteOf, ← h.value, ← h.waste]
  · rw [hrecord]
    exact hbest

end record

/-- Why `G` holds of every selection passed in the range: cut for waste, below a selection in the
range, or the best wastes nothing. -/
structure Accounts (R : BnbRange) (G : List Bool → ℤ → List Bool → Prop) : Prop where
  cut : ∀ s b g, R.Tracks s → R.BestFits s → s.bestWaste < s.currWaste → R.pool[0]? = some g →
    0 < g.waste → Follows s.currSelection b → R.Within (picked R.pool b) →
    G s.bestSelection s.bestWaste b
  reached : ∀ s b, R.Tracks s → R.BestFits s → R.target ≤ s.currValue →
    Follows s.currSelection b → R.Within (picked R.pool b) →
    G (bnbRecord R.pool R.target s).bestSelection (bnbRecord R.pool R.target s).bestWaste b
  kept : ∀ s b, R.Tracks s → R.target ≤ s.currValue → G s.bestSelection s.bestWaste b →
    G (bnbRecord R.pool R.target s).bestSelection (bnbRecord R.pool R.target s).bestWaste b
  perfect : ∀ (s : BnbState) b, s.bestSelection ≠ [] → s.bestWaste = 0 →
    R.Within (picked R.pool b) → G s.bestSelection s.bestWaste b

def Accounted (R : BnbRange) (G : List Bool → ℤ → List Bool → Prop) (s : BnbState)
    (b : List Bool) : Prop :=
  Canonical R.key R.pool b → R.Within (picked R.pool b) → G s.bestSelection s.bestWaste b

structure Searching (R : BnbRange) (G : List Bool → ℤ → List Bool → Prop) (s : BnbState) :
    Prop where
  tracks : R.Tracks s
  canonical : Canonical R.key R.pool s.currSelection.reverse
  best : R.BestFits s
  searched : Searched R.pool.length (R.Accounted G s) s.currSelection

structure Ended (R : BnbRange) (G : List Bool → ℤ → List Bool → Prop) (s : BnbState) : Prop where
  tracks : R.Tracks s
  best : R.BestFits s
  all : ∀ b, b.length = R.pool.length → R.Accounted G s b

def After (R : BnbRange) (G : List Bool → ℤ → List Bool → Prop) (goOn : Bool) (s : BnbState) :
    Prop :=
  if goOn then R.Searching G s else R.Ended G s

section rounds
variable {G : List Bool → ℤ → List Bool → Prop} {s : BnbState}

theorem Moved.accounted {s' : BnbState} (h : R.Moved s s') :
    R.Accounted G s' = R.Accounted G s := by
  unfold Accounted
  rw [h.bestSelection, h.bestWaste]

theorem After.tracks {goOn : Bool} (h : R.After G goOn s) : R.Tracks s := by
  cases goOn with
  | true => exact Searching.tracks h
  | false => exact Ended.tracks h

theorem After.best {goOn : Bool} (h : R.After G goOn s) : R.BestFits s := by
  cases goOn with
  | true => exact Searching.best h
  | false => exact Ended.best h

theorem searching_start : R.Searching G (bnbStart (R.amount R.pool)) where
  tracks := ⟨Nat.zero_le _, by simp [bnbStart, chosen, amount], rfl, by simp [bnbStart, chosen]⟩
  canonical := Canonical.nil
  best := .inl ⟨rfl, rfl⟩
  searched := Searched.nil

theorem Searching.backtrack (h : R.Searching G s)
    (hbelow : ∀ b, b.length = R.pool.length → Follows s.currSelection b → R.Accounted G s b) :
    ∃ goOn s', bnbBacktrack R.params R.pool s = .ok (goOn, s') ∧ R.After G goOn s' := by
  obtain ⟨goOn, s', hrun, hmoved, hclosed⟩ := bnbBacktrack_spec h.tracks
  have hsearch := hclosed (R.Accounted G s) ⟨h.searched, hbelow⟩
  rw [← hmoved.accounted] at hsearch
  refine ⟨goOn, s', hrun, ?_⟩
  cases goOn with
  | true => exact ⟨hmoved.tracks, hmoved.canonical h.canonical, hmoved.bestFits h.best, hsearch⟩
  | false =>
    have hall := hsearch
    exact ⟨hmoved.tracks, hmoved.bestFits h.best, fun b hlen => hall.all hlen⟩

theorem Searching.nonempty (h : R.Searching G s) (htarget : 0 < R.target)
    (hwaste : s.bestWaste < s.currWaste) : R.pool ≠ [] := by
  intro hnil
  have hzero : s.currWaste = 0 := by
    rw [h.tracks.waste, chosen, hnil]
    simp
  rcases h.best with ⟨-, hmax⟩ | ⟨-, -, -, ⟨hlow, -⟩, -⟩
  · have hmoney : (0 : ℤ) ≤ maxMoney := by decide
    omega
  · rw [hnil] at hlow
    simp [amount] at hlow
    omega

theorem Searching.record (h : R.Searching G s) (hG : R.Accounts G) (htarget : 0 < R.target)
    (hlow : R.target ≤ s.currValue) (hhigh : s.currValue ≤ R.target + R.cost) :
    R.Searching G (bnbRecord R.pool R.target s) where
  tracks := bnbRecord_tracks h.tracks
  canonical := by
    rw [bnbRecord_currSelection]
    exact h.canonical
  best := bnbRecord_bestFits h.tracks h.canonical h.best htarget hlow hhigh
  searched := by
    rw [bnbRecord_currSelection]
    exact h.searched.mono fun b haccounted hcanon hwithin =>
      hG.kept s b h.tracks hlow (haccounted hcanon hwithin)

theorem bnbStep_spec (hpos : ∀ g ∈ R.pool, 0 < g.getSelectionAmount R.params)
    (hG : R.Accounts G) (htarget : 0 < R.target) (h : R.Searching G s) :
    ∃ goOn s', bnbStep R.params R.pool R.target R.cost s = .ok (goOn, s') ∧
      R.After G goOn s' := by
  obtain ⟨cut, hrun, hcut⟩ := bnbCut_spec (h.nonempty htarget)
  unfold bnbStep
  rw [hrun, ok_bind]
  by_cases hc : cut = true
  · rw [if_pos hc]
    apply h.backtrack
    intro b _ hfollows _ hwithin
    obtain ⟨hlow, hhigh⟩ := total_of_follows _ (fun g hg => (hpos g hg).le) hfollows
    have hvalue : s.currValue = total _ _ := h.tracks.value
    have havailable : s.currAvailableValue = total _ _ := h.tracks.available
    obtain ⟨hreach, hover⟩ := id hwithin
    unfold amount at hreach hover
    rcases hcut.mp hc with hless | hmore | ⟨hwaste, g, hg, hpositive⟩
    · omega
    · omega
    · exact hG.cut s b g h.tracks h.best hwaste hg hpositive hfollows hwithin
  rw [if_neg hc]
  have hnocut : ¬ R.Cut s := fun hcutting => hc (hcut.mpr hcutting)
  obtain ⟨hless, hrest⟩ := not_or.mp hnocut
  obtain ⟨hmore, -⟩ := not_or.mp hrest
  by_cases hreached : R.target ≤ s.currValue
  · rw [if_pos hreached]
    have hinv := h.record hG htarget hreached (by omega)
    dsimp only
    by_cases hzero : s.currWaste + (s.currValue - R.target) ≤ s.bestWaste ∧
        s.currWaste + (s.currValue - R.target) = 0
    · rw [if_pos hzero]
      refine ⟨false, _, rfl, hinv.tracks, hinv.best, ?_⟩
      intro b _ _ hwithin
      have hrecorded : (bnbRecord R.pool R.target s).bestWaste = 0 := by
        rcases bnbRecord_cases (R := R) s with ⟨-, hrecord⟩ | ⟨hlt, -⟩
        · rw [hrecord]
          exact hzero.2
        · omega
      apply hG.perfect _ b _ hrecorded hwithin
      rcases hinv.best with ⟨-, hmax⟩ | ⟨hne, -⟩
      · have hmoney : (0 : ℤ) < maxMoney := by decide
        omega
      · exact hne
    · rw [if_neg hzero]
      apply hinv.backtrack
      intro b _ hfollows _ hwithin
      rw [bnbRecord_currSelection] at hfollows
      exact hG.reached s b h.tracks h.best hreached hfollows hwithin
  · rw [if_neg hreached]
    have hlt : s.currSelection.length < R.pool.length := by
      by_contra hge
      have hend : s.currAvailableValue = total _ _ := h.tracks.available
      rw [drop_eq_nil_of_le (by omega), total_nil] at hend
      omega
    obtain ⟨s', hforward, hmoved, hsearched⟩ := bnbForward_spec h.tracks hlt
    rw [hforward, ok_bind]
    refine ⟨true, s', rfl, hmoved.tracks, hmoved.canonical h.canonical, hmoved.bestFits h.best, ?_⟩
    rw [hmoved.accounted]
    exact hsearched _ (fun b hnot hcanon => absurd hcanon hnot) h.searched

theorem bnbLoop_spec (hpos : ∀ g ∈ R.pool, 0 < g.getSelectionAmount R.params)
    (hG : R.Accounts G) (htarget : 0 < R.target) (tries : ℕ) (h : R.Searching G s) :
    ∃ usedUp s', bnbLoop R.params R.pool R.target R.cost tries s = .ok (usedUp, s') ∧
      R.After G usedUp s' := by
  induction tries generalizing s with
  | zero => exact ⟨true, s, rfl, h⟩
  | succ tries ih =>
    obtain ⟨goOn, s', hrun, hafter⟩ := bnbStep_spec hpos hG htarget h
    unfold bnbLoop
    rw [hrun, ok_bind]
    cases goOn with
    | true => exact ih hafter
    | false => exact ⟨false, s', rfl, hafter⟩

theorem bnbLoop_goesOn {tries m : ℕ} {s s' : BnbState} (hm : m ≤ tries)
    (h : bnbLoop R.params R.pool R.target R.cost tries s = .ok (true, s')) :
    ∃ t, bnbLoop R.params R.pool R.target R.cost m s = .ok (true, t) := by
  induction m generalizing tries s with
  | zero => exact ⟨s, rfl⟩
  | succ m ih =>
    obtain ⟨n, rfl⟩ : ∃ n, tries = n + 1 := ⟨tries - 1, by omega⟩
    obtain ⟨⟨goOn, s₁⟩, hstep, hrest⟩ := bind_eq_ok.mp h
    unfold bnbLoop
    rw [hstep, ok_bind]
    cases goOn with
    | true => exact ih (by omega) hrest
    | false => cases hrest

end rounds

theorem accounts_found (htarget : 0 < R.target)
    (hmoney : ∀ gs : List OutputGroup, gs.Sublist R.pool →
      total waste gs + R.amount gs ≤ maxMoney ∧ 0 ≤ R.amount gs) :
    R.Accounts fun best _ _ => best ≠ [] := by
  have hkept : ∀ s, R.Tracks s → R.target ≤ s.currValue → s.bestSelection ≠ [] →
      (bnbRecord R.pool R.target s).bestSelection ≠ [] := by
    intro s htracks hlow hne
    rcases bnbRecord_cases (R := R) s with ⟨-, hrecord⟩ | ⟨-, hrecord⟩
    · rw [hrecord]
      simp [htracks.ne_nil htarget hlow]
    · rw [hrecord]
      exact hne
  constructor
  · intro s b g htracks hbest hwaste _ _ _ _
    rcases hbest with ⟨-, hmax⟩ | ⟨hne, -⟩
    · have hsum := hmoney _ (chosen_sublist s.currSelection)
      rw [← htracks.waste] at hsum
      omega
    · exact hne
  · intro s b htracks hbest hlow _ _
    rcases hbest with ⟨-, hmax⟩ | ⟨hne, -⟩
    · have hsum := hmoney _ (chosen_sublist s.currSelection)
      rw [← htracks.waste, ← htracks.value] at hsum
      rcases bnbRecord_cases (R := R) s with ⟨-, hrecord⟩ | ⟨hlt, -⟩
      · rw [hrecord]
        simp [htracks.ne_nil htarget hlow]
      · omega
    · exact hkept s htracks hlow hne
  · exact fun s _ htracks hlow hne => hkept s htracks hlow hne
  · exact fun _ _ hne _ _ => hne

theorem accounts_least (hpos : ∀ g ∈ R.pool, 0 < g.getSelectionAmount R.params)
    (hwaste : ∀ g ∈ R.pool, 0 ≤ g.waste) :
    R.Accounts fun _ bestWaste b => bestWaste ≤ R.wasteOf (picked R.pool b) := by
  constructor
  · intro s b g htracks _ hmore _ _ hfollows hwithin
    have hle := (total_of_follows waste hwaste hfollows).1
    rw [← htracks.waste] at hle
    have hreach := hwithin.1
    unfold wasteOf
    omega
  · intro s b htracks _ _ hfollows _
    have hle := (total_of_follows waste hwaste hfollows).1
    have hvalue : R.amount _ ≤ R.amount _ :=
      (total_of_follows _ (fun g hg => (hpos g hg).le) hfollows).1
    rw [← htracks.waste] at hle
    rw [← htracks.value] at hvalue
    unfold wasteOf
    rcases bnbRecord_cases (R := R) s with ⟨-, hrecord⟩ | ⟨hlt, hrecord⟩
    · rw [hrecord]
      dsimp only
      omega
    · rw [hrecord]
      omega
  · intro s b _ _ hle
    rcases bnbRecord_cases (R := R) s with ⟨hless, hrecord⟩ | ⟨-, hrecord⟩
    · rw [hrecord]
      exact le_trans hless hle
    · rw [hrecord]
      exact hle
  · intro s b _ hzero hwithin
    have hsub : (picked R.pool b).Sublist R.pool := picked_sublist
    have hnonneg := (total_sublist waste hsub hwaste).1
    have hreach := hwithin.1
    unfold wasteOf
    omega

end BnbRange
end Vexta
