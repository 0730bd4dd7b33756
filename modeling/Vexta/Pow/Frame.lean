import Vexta.Chain.Linked
import Vexta.Chain.Proof

/-! Retargeting and chain work read nothing outside the tree of the parent. -/
namespace Vexta
open Lib Uint256 Heap

section
variable {H H' : Heap} (hH : Linked H) (hle : H.Le H') {p : Uint256} {index : IndexNode}
  (hp : H p = some index)
include hle hp

theorem deref_frame : H.deref p = H'.deref p := by
  rw [deref_eq hp, deref_eq (hle p index hp)]

include hH

theorem getAncestor_frame (height : ℤ) : getAncestor H p height = getAncestor H' p height := by
  by_cases hneg : height < 0
  · have hk := Linked.getAncestor_of_neg hp hneg
    exact hk.trans (getAncestor_mono hle p height _ hk).symm
  · obtain ⟨k, rfl⟩ := Int.eq_ofNat_of_zero_le (Int.le_of_not_gt hneg)
    have hk := hH.getAncestor_eq hp k
    have hk' := getAncestor_mono hle p k _ hk
    exact hk.trans hk'.symm

theorem getMedianTimePast_frame : getMedianTimePast H p = getMedianTimePast H' p := by
  obtain ⟨t, ht, -⟩ := hH.exists_getMedianTimePast hp
  have ht' := getMedianTimePast_mono hle p t ht
  exact ht.trans ht'.symm

theorem stepBack_frame (n : ℕ) : stepBack H n (some p) = stepBack H' n (some p) := by
  have hn := hH.exists_stepBack n hp
  have hn' := stepBack_mono hle n (some p) _ hn
  exact hn.trans hn'.symm

theorem getLastBlockIndexForAlgoFast_frame (algo : Algo) :
    getLastBlockIndexForAlgoFast H p algo = getLastBlockIndexForAlgoFast H' p algo := by
  by_cases ha : algo = .unknown
  · unfold getLastBlockIndexForAlgoFast
    rw [if_pos ha, if_pos ha]
  · have hmono := getLastBlockIndexForAlgoFast_mono hle p algo
    rcases hH.exists_getLastBlockIndexForAlgoFast ha hp with hnone | ⟨q, last, hq, -⟩
    · exact hnone.trans (hmono _ hnone).symm
    · exact hq.trans (hmono _ hq).symm

theorem countFastIntervals_frame (fastThreshold : ℤ) (n : ℕ) :
    countFastIntervals H fastThreshold n (some p) =
      countFastIntervals H' fastThreshold n (some p) := by
  induction n generalizing p index with
  | zero => rfl
  | succ n ih =>
    unfold countFastIntervals
    rw [← deref_frame hle hp, deref_eq hp, ok_bind, ok_bind]
    cases hq : index.pprev with
    | none => rfl
    | some q =>
      obtain ⟨prev, hprev, -⟩ := hH.parent hp hq
      dsimp only
      rw [deref_frame hle hprev, ih hprev]

variable (A : Arith Fault) (params : Params)

theorem calculateASERT_frame : calculateASERT A params H p = calculateASERT A params H' p := by
  unfold calculateASERT
  rw [← deref_frame hle hp, deref_eq hp, ok_bind, ok_bind]
  cases readParam params.asertActivationHeight with
  | error e => rfl
  | ok height =>
    rw [ok_bind, ok_bind, ← getAncestor_frame hH hle hp]
    cases hanchor : getAncestor H p (height - 1) with
    | error e => rfl
    | ok anchor? =>
      cases anchor? with
      | none => rfl
      | some a =>
        obtain ⟨anchor, ha⟩ := hH.exists_of_getAncestor hp hanchor
        rw [ok_bind, ok_bind]
        dsimp only
        rw [← deref_frame hle ha, deref_eq ha, ok_bind, ok_bind]
        cases hq : anchor.pprev with
        | none => rfl
        | some q =>
          obtain ⟨prev, hprev, -⟩ := hH.parent ha hq
          dsimp only [derefPtr]
          rw [ok_bind, ok_bind, deref_frame hle hprev]

theorem applyFastRiseProtection_frame (asertBits : ℕ) :
    applyFastRiseProtection A params H p asertBits =
      applyFastRiseProtection A params H' p asertBits := by
  have htrigger : shouldTriggerFastRise params H p = shouldTriggerFastRise params H' p := by
    unfold shouldTriggerFastRise
    cases readParam params.nPowTargetSpacing with
    | error e => rfl
    | ok spacing =>
      rw [ok_bind, ok_bind, countFastIntervals_frame hH hle hp]
  unfold applyFastRiseProtection
  rw [deref_frame hle hp, htrigger]

theorem windowTimespan_frame {q : Uint256} {first : IndexNode} (hq : H q = some first) :
    windowTimespan A params H p q = windowTimespan A params H' p q := by
  unfold windowTimespan
  rw [getMedianTimePast_frame hH hle hp, getMedianTimePast_frame hH hle hq]

theorem windowRetarget_frame : windowRetarget A params H p = windowRetarget A params H' p := by
  unfold windowRetarget
  rw [← deref_frame hle hp, deref_eq hp, ok_bind, ok_bind]
  cases readParam params.difficultyAveragingWindow with
  | error e => rfl
  | ok window =>
    rw [ok_bind, ok_bind, ← stepBack_frame hH hle hp, hH.exists_stepBack _ hp,
      ok_bind, ok_bind]
    cases hq : up hH.forest.parent window.toNat p with
    | none => rfl
    | some q =>
      obtain ⟨first, hfirst⟩ := hH.forest_mem.mp
        (hH.forest.above_mem (hH.mem_of_eq hp) ⟨_, hq⟩).1
      dsimp only
      rw [windowTimespan_frame hH hle hp A params hfirst]

theorem multiAlgoRetarget_frame {q : Uint256} {first : IndexNode} (hq : H q = some first)
    (prevAlgo : IndexNode) (averagingBlocks : ℤ) :
    multiAlgoRetarget A params H p q prevAlgo averagingBlocks =
      multiAlgoRetarget A params H' p q prevAlgo averagingBlocks := by
  unfold multiAlgoRetarget
  rw [deref_frame hle hp, getMedianTimePast_frame hH hle hp, getMedianTimePast_frame hH hle hq]

theorem calculateMultiAlgo_frame (algo : Algo) :
    calculateMultiAlgoWorkRequired A params H (some p) algo =
      calculateMultiAlgoWorkRequired A params H' (some p) algo := by
  unfold calculateMultiAlgoWorkRequired
  dsimp only
  rw [← getLastBlockIndexForAlgoFast_frame hH hle hp]
  cases hlast : getLastBlockIndexForAlgoFast H p algo with
  | error e => rfl
  | ok last? =>
    rw [ok_bind, ok_bind]
    cases last? with
    | none => rfl
    | some q =>
      obtain ⟨prevAlgo, hprev⟩ := hH.exists_of_getLastBlockIndexForAlgoFast hp hlast
      dsimp only
      rw [← deref_frame hle hprev, deref_eq hprev, ok_bind, ok_bind]
      cases noRetargeting params with
      | error e => rfl
      | ok fixed =>
        rw [ok_bind, ok_bind]
        cases readParam params.difficultyAveragingWindow with
        | error e => rfl
        | ok window =>
          rw [ok_bind, ok_bind]
          cases A.signed 64 (window * numAlgos) with
          | error e => rfl
          | ok averagingBlocks =>
            rw [ok_bind, ok_bind, ← stepBack_frame hH hle hp,
              hH.exists_stepBack _ hp, ok_bind, ok_bind]
            cases hr : up hH.forest.parent averagingBlocks.toNat p with
            | none => rfl
            | some r =>
              obtain ⟨first, hfirst⟩ := hH.forest_mem.mp
                (hH.forest.above_mem (hH.mem_of_eq hp) ⟨_, hr⟩).1
              dsimp only
              rw [multiAlgoRetarget_frame hH hle hp A params hfirst]

theorem getNextWorkRequired_frame (algo : Algo) :
    getNextWorkRequired A params H (some p) algo =
      getNextWorkRequired A params H' (some p) algo := by
  unfold getNextWorkRequired
  dsimp only
  rw [deref_frame hle hp, calculateMultiAlgo_frame hH hle hp, calculateASERT_frame hH hle hp,
    windowRetarget_frame hH hle hp]
  simp only [applyFastRiseProtection_frame hH hle hp]

theorem averageTarget_frame (algos : List Algo) (average : ℕ) :
    averageTarget A params H p algos average = averageTarget A params H' p algos average := by
  induction algos generalizing average with
  | nil => rfl
  | cons algo rest ih =>
    unfold averageTarget
    rw [getNextWorkRequired_frame hH hle hp]
    simp only [ih]

omit hp in
theorem getBlockProof_frame {block : IndexNode}
    (hprev : ∀ q, block.pprev = some q → ∃ prev, H q = some prev) :
    getBlockProof A params H block = getBlockProof A params H' block := by
  unfold getBlockProof normalizedWork
  cases hq : block.pprev with
  | none => rfl
  | some q =>
    obtain ⟨prev, hprev⟩ := hprev q hq
    dsimp only
    rw [averageTarget_frame hH hle hprev]

end
end Vexta
