import Vexta.Chain.Active
import Vexta.Validation.HeaderRun

/-! The search for the earliest block of the active chain that is late and high enough. -/
namespace Vexta
open Lib Heap Option List Forest

def lowerBound {ε : Type} (less : ℕ → Except ε Bool) (first len : ℕ) : Except ε ℕ :=
  if h : len = 0 then .ok first
  else less (first + len / 2) >>= fun below =>
    if below then lowerBound less (first + len / 2 + 1) (len - len / 2 - 1)
    else lowerBound less first (len / 2)
termination_by len

theorem exists_lowerBound {ε : Type} {less : ℕ → Except ε Bool} {P : ℕ → Prop} (first len : ℕ)
    (hless : ∀ i, first ≤ i → i < first + len → ∃ b, less i = .ok b ∧ (b = true ↔ P i))
    (hmono : ∀ i j, first ≤ i → i ≤ j → j < first + len → P j → P i) :
    ∃ m, lowerBound less first len = .ok m ∧ first ≤ m ∧ m ≤ first + len ∧
      (∀ i, first ≤ i → i < m → P i) ∧ ∀ i, m ≤ i → i < first + len → ¬ P i := by
  induction len using Nat.strong_induction_on generalizing first with
  | h len ih =>
    rw [lowerBound]
    split_ifs with hzero
    · exact ⟨first, rfl, by omega, by omega, fun i _ _ => by omega, fun i _ _ => by omega⟩
    obtain ⟨b, hb, hP⟩ := hless (first + len / 2) (by omega) (by omega)
    rw [hb, ok_bind]
    cases b with
    | true =>
      obtain ⟨m, hm, hlo, hhi, hbelow, habove⟩ := ih (len - len / 2 - 1) (by omega)
        (first + len / 2 + 1) (fun i _ _ => hless i (by omega) (by omega))
        fun i j _ hij _ => hmono i j (by omega) hij (by omega)
      refine ⟨m, hm, by omega, by omega, fun i hi him => ?_, fun i hi hil => habove i hi (by omega)⟩
      by_cases hle : i ≤ first + len / 2
      · exact hmono i _ hi hle (by omega) (hP.mp rfl)
      · exact hbelow i (by omega) him
    | false =>
      obtain ⟨m, hm, hlo, hhi, hbelow, habove⟩ := ih (len / 2) (by omega) first
        (fun i hi hil => hless i hi (by omega)) fun i j hi hij hj => hmono i j hi hij (by omega)
      refine ⟨m, hm, hlo, by omega, hbelow, fun i hi hil hPi => ?_⟩
      by_cases hlt : i < first + len / 2
      · exact habove i hi hlt hPi
      · cases hP.mpr (hmono _ i (by omega) (by omega) hil hPi)

namespace CChain
variable (H : Heap) (chain : CChain)

def earlier (nTime height : ℤ) (i : ℕ) : Except Fault Bool := do
  let p ← derefPtr chain[i]?.join
  let index ← H.deref p
  .ok (index.nTimeMax < nTime || index.nHeight < height)

def findEarliestAtLeast (nTime height : ℤ) : Except Fault (Option Uint256) := do
  let lower ← lowerBound (earlier H chain nTime height) 0 chain.length
  .ok (if lower = chain.length then none else chain[lower]?.join)

end CChain

namespace Coherent
variable {params : Params} {H : Heap} (hH : Coherent params H) {p : Uint256} {index : IndexNode}

def Late (t : ℤ) (p : Uint256) : Prop :=
  ∃ q node, hH.forest.Above q p ∧ H q = some node ∧ t ≤ node.getBlockTime

theorem late_iff (t : ℤ) (hp : H p = some index) : hH.Late t p ↔
    t ≤ index.getBlockTime ∨ ∃ q, index.pprev = some q ∧ hH.Late t q := by
  rw [← hH.forest_parent hp]
  constructor
  · rintro ⟨q, node, habove, hq, h⟩
    rcases hH.forest.above_iff.mp habove with rfl | ⟨b, hb, habove⟩
    · cases hp.symm.trans hq
      exact .inl h
    · exact .inr ⟨b, hb, q, node, habove, hq, h⟩
  · rintro (h | ⟨b, hb, q, node, habove, hq, h⟩)
    · exact ⟨p, index, hH.forest.above_refl p, hp, h⟩
    · exact ⟨q, node, hH.forest.above_trans habove (hH.forest.above_parent hb), hq, h⟩

theorem le_nTimeMax_iff (t : ℤ) (hp : H p = some index) : t ≤ index.nTimeMax ↔ hH.Late t p := by
  have hall : ∀ index, H p = some index → (t ≤ index.nTimeMax ↔ hH.Late t p) := by
    refine hH.forest.induction ?_ ?_ (hH.mem_of_eq hp)
    · intro p _ hroot index hp
      have htime := hH.timeMax hp
      rw [hH.forest_parent hp] at hroot
      rw [computeTimeMax, hroot] at htime
      rw [hH.late_iff t hp, ← Except.ok.inj htime, hroot]
      simp [IndexNode.getBlockTime]
    · intro p q _ hpar ih index hp
      have htime := hH.timeMax hp
      rw [hH.forest_parent hp] at hpar
      obtain ⟨prev, hprev, -⟩ := hH.parent hp hpar
      rw [computeTimeMax, hpar, fromPrev, deref_eq hprev] at htime
      rw [hH.late_iff t hp, ← Except.ok.inj htime, Nat.cast_max, le_max_iff, ih prev hprev, hpar]
      simp [IndexNode.getBlockTime, or_comm]
  exact hall index hp

/-- High enough, and the greatest time up to it is late enough. -/
def Fits (chain : CChain) (nTime height : ℤ) (p : Uint256) : Prop :=
  some p ∈ chain ∧ height ≤ hH.forest.height p ∧ hH.Late nTime p

section
variable {tip : Option Uint256} (htip : ∀ q ∈ tip, hH.forest.Mem q)
include htip

theorem exists_earlier (nTime height : ℤ) {i : ℕ} (hi : i < (hH.forest.wayTo tip).length) :
    ∃ p b, (hH.forest.wayTo tip)[i]?.join = some p ∧ hH.forest.height p = i ∧
      CChain.earlier H (hH.forest.wayTo tip) nTime height i = .ok b ∧
      (b = true ↔ ¬ hH.Fits (hH.forest.wayTo tip) nTime height p) := by
  cases tip with
  | none => simp [wayTo] at hi
  | some t =>
    have hle : i ≤ hH.forest.height t := by simpa [wayTo, Nat.lt_succ_iff] using hi
    obtain ⟨p, hp, hmem, hheight⟩ := hH.forest.exists_ancestorAt (htip t rfl) hle
    obtain ⟨index, hindex⟩ := hH.forest_mem.mp hmem
    have hget : (hH.forest.wayTo (some t))[i]?.join = some p := by rw [join_wayTo, bind_some, hp]
    have hin :=
      (hH.forest.mem_wayTo htip).mpr ⟨t, rfl, hH.forest.ancestorAt_above hp⟩
    refine ⟨p, index.nTimeMax < nTime || index.nHeight < height, hget, hheight, ?_, ?_⟩
    · rw [CChain.earlier, hget]
      simp only [derefPtr, deref_eq hindex, ok_bind]
    · rw [Fits, ← hH.le_nTimeMax_iff nTime hindex, hH.forest_height hindex]
      grind

theorem Fits.of_le {nTime height : ℤ} {i j : ℕ} {p q : Uint256} (hij : i ≤ j)
    (hp : (hH.forest.wayTo tip)[i]?.join = some p) (hq : (hH.forest.wayTo tip)[j]?.join = some q)
    (h : hH.Fits (hH.forest.wayTo tip) nTime height p) :
    hH.Fits (hH.forest.wayTo tip) nTime height q := by
  rw [join_wayTo] at hp hq
  obtain ⟨t, rfl, -⟩ := bind_eq_some_iff.mp hp
  rw [bind_some] at hp hq
  have hqt := hH.forest.ancestorAt_above hq
  have hqh := (hH.forest.height_ancestorAt (htip t rfl) hq).2
  rw [← hH.forest.ancestorAt_above_eq (htip t rfl) hqt (by omega)] at hp
  have hpq := hH.forest.ancestorAt_above hp
  obtain ⟨-, hheight, r, node, hr, hlate⟩ := h
  have hle := (hH.forest.above_mem (hH.forest.above_mem (htip t rfl) hqt).1 hpq).2
  exact ⟨(hH.forest.mem_wayTo htip).mpr ⟨t, rfl, hqt⟩, by omega, r, node,
    hH.forest.above_trans hr hpq, hlate⟩

theorem join_of_mem (hp : some p ∈ hH.forest.wayTo tip) :
    hH.forest.height p < (hH.forest.wayTo tip).length ∧
      (hH.forest.wayTo tip)[hH.forest.height p]?.join = some p := by
  obtain ⟨t, rfl, habove⟩ := (hH.forest.mem_wayTo htip).mp hp
  refine ⟨?_, ?_⟩
  · simpa [wayTo, Nat.lt_succ_iff] using (hH.forest.above_mem (htip t rfl) habove).2
  · rw [join_wayTo, bind_some]
    exact (hH.forest.above_iff_ancestorAt (htip t rfl)).mp habove

theorem exists_findEarliestAtLeast (nTime height : ℤ) :
    ∃ r, CChain.findEarliestAtLeast H (hH.forest.wayTo tip) nTime height = .ok r ∧
      (∀ p ∈ r, hH.Fits (hH.forest.wayTo tip) nTime height p ∧
        ∀ q, hH.Fits (hH.forest.wayTo tip) nTime height q →
          hH.forest.height p ≤ hH.forest.height q) ∧
      (r = none ↔ ∀ p, ¬ hH.Fits (hH.forest.wayTo tip) nTime height p) := by
  have hless : ∀ i, 0 ≤ i → i < 0 + (hH.forest.wayTo tip).length →
      ∃ b, CChain.earlier H (hH.forest.wayTo tip) nTime height i = .ok b ∧ (b = true ↔
        ∀ p, (hH.forest.wayTo tip)[i]?.join = some p →
          ¬ hH.Fits (hH.forest.wayTo tip) nTime height p) := by
    intro i _ hi
    obtain ⟨p, b, hp, -, hb, hfits⟩ := hH.exists_earlier htip nTime height (i := i) (by omega)
    refine ⟨b, hb, hfits.trans ⟨fun h q hq => ?_, fun h => h p hp⟩⟩
    cases hp.symm.trans hq
    exact h
  obtain ⟨m, hm, -, hlen, hbelow, habove⟩ := exists_lowerBound 0 _ hless (by
    intro i j _ hij hj hP p hp hfits
    obtain ⟨q, -, hq, -⟩ := hH.exists_earlier htip nTime height (i := j) (by omega)
    exact hP q hq (hfits.of_le hH htip hij hp hq))
  have hmin : ∀ q, hH.Fits (hH.forest.wayTo tip) nTime height q → m ≤ hH.forest.height q := by
    intro q hq
    by_contra hlt
    exact hbelow _ (Nat.zero_le _) (Nat.lt_of_not_le hlt) q (hH.join_of_mem htip hq.1).2 hq
  refine ⟨_, by rw [CChain.findEarliestAtLeast, hm, ok_bind], ?_⟩
  split_ifs with hend
  · refine ⟨fun p hp => (by cases hp), fun _ p hp => ?_, fun _ => rfl⟩
    have hlt := (hH.join_of_mem htip hp.1).1
    have hle := hmin p hp
    omega
  · obtain ⟨p, b, hp, hheight, -, -⟩ := hH.exists_earlier htip nTime height (i := m) (by omega)
    have hfits : hH.Fits (hH.forest.wayTo tip) nTime height p := by
      by_contra hfits
      refine habove m le_rfl (by omega) fun q hq => ?_
      cases hp.symm.trans hq
      exact hfits
    rw [hp]
    refine ⟨fun q hq => ?_, fun h => (by cases h), fun h => absurd hfits (h p)⟩
    cases some.inj hq
    exact ⟨hfits, fun q hq => hheight ▸ hmin q hq⟩

end
end Coherent

/-- After any run and calls of `SetTip`, `FindEarliestAtLeast` finds the lowest block of the chain
that fits, or reports none. -/
theorem findEarliestAtLeast_lowest (config : NodeConfig) (hg : GenesisAsserted config)
    (events : List HeaderEvent) {blockman : BlockManager}
    (hrun : runHeaders config events = .ok blockman) (tips : List (Option Uint256))
    (htips : ∀ tip ∈ tips, ∀ q ∈ tip, (blockman.heap q).isSome) (nTime height : ℤ) :
    ∃ (hH : Coherent config.network.params blockman.heap) (chain : CChain)
      (r : Option Uint256), tips.foldlM (CChain.setTip blockman.heap) [] = .ok chain ∧
      chain.findEarliestAtLeast blockman.heap nTime height = .ok r ∧
      (∀ p ∈ r, hH.Fits chain nTime height p ∧
        ∀ q, hH.Fits chain nTime height q → hH.forest.height p ≤ hH.forest.height q) ∧
      (r = none ↔ ∀ p, ¬ hH.Fits chain nTime height p) := by
  have hH := (runHeaders_treeInv hg hrun).toCoherent
  obtain ⟨tip, htip, hchain⟩ := hH.setTips_eq htips
  obtain ⟨r, hr, hlowest⟩ := hH.exists_findEarliestAtLeast htip nTime height
  exact ⟨hH, _, r, hchain, hr, hlowest⟩

theorem findEarliestAtLeast_lowest_example : ∃ (blockman : BlockManager) (chain : CChain)
    (r : Option Uint256),
    runHeaders exampleConfig [.header exampleHeader 1782771000] = .ok blockman ∧
      chain.findEarliestAtLeast blockman.heap 0 1 = .ok r := by
  obtain ⟨blockman, index, hrun, hindex, -⟩ := exists_exampleRun
  have htips : ∀ tip ∈ [some (1 : Uint256)], ∀ q ∈ tip, (blockman.heap q).isSome := by
    rintro tip htip q hq
    cases List.mem_singleton.mp htip
    cases hq
    exact isSome_iff_exists.mpr ⟨_, BlockMap.heap_eq_some.mpr ⟨index, hindex, rfl⟩⟩
  obtain ⟨-, chain, r, -, hr, -⟩ := findEarliestAtLeast_lowest exampleConfig
    exampleConfig_genesis _ hrun [some 1] htips 0 1
  exact ⟨blockman, chain, r, hrun, hr⟩

end Vexta
