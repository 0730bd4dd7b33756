import Vexta.Chain.Line
import Vexta.Validation.AcceptHeader

/-! The RandomX seed of a block: an ancestor that changes once in an epoch. -/
namespace Vexta
open Lib Heap

section
variable {params : Params} {epochLength seedLag : ℤ}
  (hepoch : params.randomXSeedEpochLength = some epochLength)
  (hlag : params.randomXSeedLag = some seedLag) (hlength : 0 < epochLength) (hseedLag : 1 ≤ seedLag)
include hepoch hlag hlength hseedLag

theorem getRandomXSeedHeight_eq (blockHeight : ℤ) : getRandomXSeedHeight blockHeight params =
    .ok (max 0 (blockHeight / epochLength * epochLength - seedLag)) := by
  have hstart := Int.ediv_mul_le blockHeight hlength.ne'
  unfold getRandomXSeedHeight
  split_ifs with hneg
  · rw [max_eq_left (by omega)]
  · simp only [hepoch, hlag, readParam_some, ok_bind]
    rw [if_neg (by omega), Int.tdiv_eq_ediv_of_nonneg (by omega)]
    congr 1
    split_ifs <;> omega

variable (T : BlockTree) {q : Uint256} {prev : IndexNode}

theorem getRandomXSeed_eq (hq : T.heap q = some prev) : ∃ s : ℕ, s ≤ prev.nHeight ∧
    s = max 0 (((prev.nHeight : ℤ) + 1) / epochLength * epochLength - seedLag) ∧
    getRandomXSeed T.heap q (prev.nHeight + 1) params = .ok (T.linked.forest.ancestorAt s q) := by
  have hstart := Int.ediv_mul_le ((prev.nHeight : ℤ) + 1) hlength.ne'
  obtain ⟨s, hs⟩ := Int.eq_ofNat_of_zero_le
    (le_max_left 0 (((prev.nHeight : ℤ) + 1) / epochLength * epochLength - seedLag))
  refine ⟨s, by omega, hs.symm, ?_⟩
  unfold getRandomXSeed
  rw [deref_eq hq, ok_bind, getRandomXSeedHeight_eq hepoch hlag hlength hseedLag, ok_bind, hs,
    if_neg (by omega), T.linked.getAncestor_eq hq]

end

/-- The seed of a block is an ancestor below it. Blocks of one chain and epoch have one seed, as
have branches that agree up to the seed height, which never falls. -/
theorem getRandomXSeed_epochs (params : Params) {epochLength seedLag : ℤ}
    (hepoch : params.randomXSeedEpochLength = some epochLength)
    (hlag : params.randomXSeedLag = some seedLag) (hlength : 0 < epochLength)
    (hseedLag : 1 ≤ seedLag) :
    (∀ (T : BlockTree) {q prev}, T.heap q = some prev → ∃ seed node,
      getRandomXSeed T.heap q (prev.nHeight + 1) params = .ok (some seed) ∧
      T.linked.forest.Above seed q ∧ T.heap seed = some node ∧ node.nHeight < prev.nHeight + 1) ∧
    (∀ (T : BlockTree) {q q' prev prev'}, T.heap q = some prev → T.heap q' = some prev' →
      T.linked.forest.Above q q' →
      ((prev.nHeight : ℤ) + 1) / epochLength = ((prev'.nHeight : ℤ) + 1) / epochLength →
      getRandomXSeed T.heap q (prev.nHeight + 1) params =
        getRandomXSeed T.heap q' (prev'.nHeight + 1) params) ∧
    (∀ (T T' : BlockTree) {q q' prev prev'}, T.heap q = some prev → T'.heap q' = some prev' →
      prev.nHeight = prev'.nHeight →
      (∀ s : ℕ, getRandomXSeedHeight (prev.nHeight + 1) params = .ok (s : ℤ) → ∀ k ≤ s,
        T.linked.forest.ancestorAt k q = T'.linked.forest.ancestorAt k q') →
      getRandomXSeed T.heap q (prev.nHeight + 1) params =
        getRandomXSeed T'.heap q' (prev'.nHeight + 1) params) ∧
    ∀ {h h' : ℤ}, h ≤ h' → ∃ s s', getRandomXSeedHeight h params = .ok s ∧
      getRandomXSeedHeight h' params = .ok s' ∧ s ≤ s' := by
  have heq := getRandomXSeedHeight_eq hepoch hlag hlength hseedLag
  refine ⟨?_, ?_, ?_, ?_⟩
  · intro T q prev hq
    obtain ⟨s, hs, -, hseed⟩ := getRandomXSeed_eq hepoch hlag hlength hseedLag T hq
    obtain ⟨seed, hat, hmem, hheight⟩ := T.linked.forest.exists_ancestorAt (T.linked.mem_of_eq hq)
      (k := s) (by rw [T.linked.forest_height hq]; exact hs)
    obtain ⟨node, hnode⟩ := T.linked.forest_mem.mp hmem
    rw [T.linked.forest_height hnode] at hheight
    exact ⟨seed, node, by rw [hseed, hat], T.linked.forest.ancestorAt_above hat, hnode, by omega⟩
  · intro T q q' prev prev' hq hq' habove hsame
    obtain ⟨s, hs, heights, hseed⟩ := getRandomXSeed_eq hepoch hlag hlength hseedLag T hq
    obtain ⟨s', -, heights', hseed'⟩ := getRandomXSeed_eq hepoch hlag hlength hseedLag T hq'
    rw [hsame, ← heights'] at heights
    cases Int.ofNat.inj heights
    rw [hseed, hseed', T.linked.forest.ancestorAt_above_eq (T.linked.mem_of_eq hq') habove]
    rw [T.linked.forest_height hq]
    exact hs
  · intro T T' q q' prev prev' hq hq' hheight hagree
    obtain ⟨s, -, heights, hseed⟩ := getRandomXSeed_eq hepoch hlag hlength hseedLag T hq
    obtain ⟨s', -, heights', hseed'⟩ := getRandomXSeed_eq hepoch hlag hlength hseedLag T' hq'
    rw [hheight, ← heights'] at heights
    cases Int.ofNat.inj heights
    rw [hseed, hseed', hagree s (by rw [heq, hheight, heights']) s le_rfl]
  · intro h h' hle
    refine ⟨_, _, heq h, heq h', ?_⟩
    have hdiv := Int.ediv_le_ediv hlength hle
    have hmul := Int.mul_le_mul_of_nonneg_right hdiv hlength.le
    omega

theorem getRandomXSeed_epochs_main : getRandomXSeedHeight 9001 mainParams = .ok 8128 ∧ ∃ seed node,
    getRandomXSeed (lineHeap 1782770400 0x1e0fffff 9000) 9000 9001 mainParams = .ok (some seed) ∧
    lineHeap 1782770400 0x1e0fffff 9000 seed = some node ∧ node.nHeight < 9001 := by
  obtain ⟨seed, node, hseed, -, hnode, hlt⟩ := (getRandomXSeed_epochs mainParams rfl rfl
    (by norm_num) (by norm_num)).1 (lineTree 1782770400 0x1e0fffff 9000 (by decide))
    (lineHeap_ofNat (by decide) le_rfl)
  exact ⟨by decide, seed, node, hseed, hnode, hlt⟩

end Vexta
