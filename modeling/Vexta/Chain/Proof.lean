import Vexta.Arith.Root
import Vexta.Pow.NextWork

/-! The chain work of a block. -/
namespace Vexta
open Lib Uint256 Nat Arith

variable (A : Arith Fault) (params : Params) (H : Heap)

def proofOfTarget (bnTarget : ℕ) : Except Fault ℕ := do
  let next ← A.unsigned 256 (bnTarget + 1)
  let quotient ← div (2 ^ 256 - 1 - bnTarget) next
  A.unsigned 256 (quotient + 1)

def getBlockProofBase (nBits : ℕ) : Except Fault ℕ := do
  let bnTarget ← setCompact A nBits
  if bnTarget.negative ∨ bnTarget.overflow ∨ bnTarget.target = 0 then .ok 0
  else proofOfTarget A bnTarget.target

def scaleMultiAlgoChainwork (work numerator denominator : ℕ) : Except Fault ℕ :=
  if work = 0 ∨ numerator = 0 ∨ denominator = 0 then .ok 0
  else if numerator = denominator then .ok work
  else do
    let quotient ← div work denominator
    let product ← mulU32 A quotient denominator
    let remainder := sub work product
    let bound ← div (2 ^ 256 - 1) numerator
    if bound < quotient then .ok 0
    else do
      let quotient ← mulU32 A quotient numerator
      let remainder ← mulU32 A remainder numerator
      let remainder ← div remainder denominator
      if sub (2 ^ 256 - 1) remainder < quotient then .ok 0
      else A.unsigned 256 (quotient + remainder)

inductive ProofExit
  | unknownAlgo
  | badTarget
  | zeroRoot
  | zeroMean
  deriving DecidableEq, Repr

def averageTarget (pprev : Uint256) : List Algo → ℕ → Except Fault (Except ProofExit ℕ)
  | [], average => .ok (.ok average)
  | algo :: rest, average => do
    let nBits ← getNextWorkRequired A params H (some pprev) algo
    let target ← setCompact A nBits
    if target.negative ∨ target.overflow ∨ target.target = 0 ∨
        params.powLimit.toNat < target.target then .ok (.error .badTarget)
    else do
      let root ← approxNthRoot A numAlgos target.target
      if root = 0 then .ok (.error .zeroRoot)
      else do
        let average ← mul A average root
        averageTarget pprev rest average

def normalizedWork (pprev : Uint256) (blockAlgo : Algo) :
    Except Fault (Except ProofExit ℕ) :=
  if blockAlgo = .unknown then .ok (.error .unknownAlgo)
  else do
    let average ← averageTarget A params H pprev [.sha256d, .randomX] 1
    match average with
    | .error proofExit => .ok (.error proofExit)
    | .ok average =>
      if average = 0 then .ok (.error .zeroMean) else .ok <$> proofOfTarget A average

def getBlockProof (block : IndexNode) : Except Fault ℕ := do
  let randomXActivationHeight ← readParam params.randomXActivationHeight
  if (block.nHeight : ℤ) < randomXActivationHeight then getBlockProofBase A block.nBits.toNat
  else
    match block.pprev with
    | none => getBlockProofBase A block.nBits.toNat
    | some pprev => do
      let work ← normalizedWork A params H pprev block.getAlgo
      match work with
      | .error _ => .ok 0
      | .ok work =>
        scaleMultiAlgoChainwork A work params.multiAlgoChainworkScaleNumerator
          params.multiAlgoChainworkScaleDenominator

section Mono
variable {A} {B : Arith Fault} {H} {H' : Heap} (hA : A.Le B)
include hA

theorem proofOfTarget_mono (t : ℕ) : Approx (proofOfTarget A t) (proofOfTarget B t) := by
  unfold proofOfTarget
  refine .bind (hA.unsigned 256 _) fun next _ => ?_
  exact .bind_right fun quotient => hA.unsigned 256 _

theorem getBlockProofBase_mono (nBits : ℕ) :
    Approx (getBlockProofBase A nBits) (getBlockProofBase B nBits) := by
  unfold getBlockProofBase
  refine .bind (setCompact_mono hA _) fun bnTarget _ => ?_
  exact .leave fun _ => proofOfTarget_mono hA _

theorem scaleMultiAlgoChainwork_mono (work numerator denominator : ℕ) :
    Approx (scaleMultiAlgoChainwork A work numerator denominator)
      (scaleMultiAlgoChainwork B work numerator denominator) := by
  unfold scaleMultiAlgoChainwork
  refine .leave fun _ => ?_
  refine .leave fun _ => ?_
  refine .bind_right fun quotient => ?_
  refine .bind (hA.unsigned 256 _) fun product _ => ?_
  refine .bind_right fun bound => ?_
  refine .leave fun _ => ?_
  refine .bind (hA.unsigned 256 _) fun quotient _ => ?_
  refine .bind (hA.unsigned 256 _) fun remainder _ => ?_
  refine .bind_right fun remainder => ?_
  exact .leave fun _ => hA.unsigned 256 _

variable (hH : H.Le H')
include hH

theorem averageTarget_mono (p : Uint256) (algos : List Algo) (average : ℕ) :
    Approx (averageTarget A params H p algos average)
      (averageTarget B params H' p algos average) := by
  induction algos generalizing average with
  | nil => exact .refl _
  | cons algo rest ih =>
    unfold averageTarget
    refine .bind (getNextWorkRequired_mono params hA hH _ _) fun nBits _ => ?_
    refine .bind (setCompact_mono hA _) fun target _ => ?_
    refine .leave fun _ => ?_
    refine .bind (approxNthRoot_mono hA _ _) fun root _ => ?_
    refine .leave fun _ => ?_
    exact .bind (hA.unsigned 256 _) fun average _ => ih average

theorem normalizedWork_mono (p : Uint256) (algo : Algo) :
    Approx (normalizedWork A params H p algo) (normalizedWork B params H' p algo) := by
  unfold normalizedWork
  refine .leave fun _ => ?_
  refine .bind (averageTarget_mono params hA hH _ _ _) fun average _ => ?_
  cases average with
  | error proofExit => exact .refl _
  | ok average =>
    exact .leave fun _ => .map _ (proofOfTarget_mono hA _)

theorem getBlockProof_mono (block : IndexNode) :
    Approx (getBlockProof A params H block) (getBlockProof B params H' block) := by
  unfold getBlockProof
  refine .bind_right fun height => ?_
  refine .ite (fun _ => getBlockProofBase_mono hA _) fun _ => ?_
  cases block.pprev with
  | none => exact getBlockProofBase_mono hA _
  | some p =>
    refine .bind (normalizedWork_mono params hA hH _ _) fun work _ => ?_
    cases work with
    | error proofExit => exact .refl _
    | ok work => exact scaleMultiAlgoChainwork_mono hA _ _ _

end Mono

theorem proofOfTarget_eq {t : ℕ} (h0 : 0 < t) (ht : t < 2 ^ 256 - 1) :
    proofOfTarget trap t = .ok (2 ^ 256 / (t + 1)) := by
  have hsplit : 2 ^ 256 = (2 ^ 256 - 1 - t) + (t + 1) := by omega
  have hdiv : 2 ^ 256 / (t + 1) = (2 ^ 256 - 1 - t) / (t + 1) + 1 := by
    conv_lhs => rw [hsplit]
    exact add_div_right _ (by omega)
  have hlt : (2 ^ 256 - 1 - t) / (t + 1) + 1 < 2 ^ 256 := by
    have hle : (2 ^ 256 - 1 - t) / (t + 1) ≤ 2 ^ 256 - 1 - t := div_le_self _ _
    omega
  unfold proofOfTarget Uint256.div
  rw [checked_unsigned (by omega), ok_bind, if_neg (by omega), ok_bind,
    checked_unsigned hlt, hdiv]

theorem scaleMultiAlgoChainwork_eq {work numerator denominator : ℕ} (hw : work < 2 ^ 256)
    (hn : 0 < numerator) (hn' : numerator < 2 ^ 32) (hd : 0 < denominator)
    (hd' : denominator < 2 ^ 32) : scaleMultiAlgoChainwork trap work numerator denominator =
      .ok (if work * numerator / denominator < 2 ^ 256 then work * numerator / denominator
        else 0) := by
  unfold scaleMultiAlgoChainwork
  by_cases hzero : work = 0
  · rw [if_pos (.inl hzero), hzero]
    simp
  rw [if_neg (by omega)]
  by_cases heq : numerator = denominator
  · rw [if_pos heq, heq, Nat.mul_div_cancel _ hd, if_pos hw]
  · obtain ⟨q, hq⟩ : ∃ q, q = work / denominator := ⟨_, rfl⟩
    obtain ⟨r, hr⟩ : ∃ r, r = work % denominator := ⟨_, rfl⟩
    have hwork : q * denominator + r = work := by
      rw [hq, hr, mul_comm]
      exact div_add_mod _ _
    have hrlt : r < denominator := by
      rw [hr]
      exact mod_lt _ hd
    have hrn : r * numerator < 2 ^ 64 := by
      calc
        r * numerator < 2 ^ 32 * 2 ^ 32 :=
          mul_lt_mul'' (hrlt.trans hd') hn'
        _ = 2 ^ 64 := by norm_num
    have hsum : work * numerator / denominator = q * numerator + r * numerator / denominator := by
      have hsplit : work * numerator = r * numerator + q * numerator * denominator := by
        rw [← hwork]
        ring
      rw [hsplit, add_mul_div_right _ _ hd, add_comm]
    obtain ⟨d, hdef⟩ : ∃ d, d = r * numerator / denominator := ⟨_, rfl⟩
    have hdle : d ≤ r * numerator := by
      rw [hdef]
      exact div_le_self _ _
    rw [hsum, ← hdef]
    have hqd : q * denominator ≤ work := by omega
    have hrem : work - q * denominator = r := by omega
    rw [if_neg heq]
    unfold Uint256.div mulU32
    rw [if_neg hd.ne', ok_bind, ← hq, checked_unsigned (hqd.trans_lt hw), ok_bind]
    dsimp only
    rw [sub_eq hw hqd, hrem, if_neg hn.ne', ok_bind]
    have hbound : (2 ^ 256 - 1) / numerator < q ↔ 2 ^ 256 - 1 < q * numerator :=
      div_lt_iff_lt_mul hn
    by_cases hover : (2 ^ 256 - 1) / numerator < q
    · rw [if_pos hover, if_neg (by omega)]
    rw [if_neg hover, checked_unsigned (by omega), ok_bind, checked_unsigned (by omega),
      ok_bind, if_neg hd.ne', ok_bind, ← hdef, sub_eq (by norm_num) (by omega)]
    by_cases hfit : q * numerator + d < 2 ^ 256
    · rw [if_pos hfit, if_neg (by omega), checked_unsigned hfit]
    · rw [if_neg hfit, if_pos (by omega)]

/-- Scaling is exact where the result fits 256 bits, and else gives zero. -/
theorem scaleMultiAlgoChainwork_floor (work : Uint256) (numerator denominator : BitVec 32)
    (hn : numerator ≠ 0) (hd : denominator ≠ 0) : ∃ r : ℕ,
    scaleMultiAlgoChainwork .machine work.toNat numerator.toNat denominator.toNat = .ok r ∧
      r = (if work.toNat * numerator.toNat / denominator.toNat < 2 ^ 256 then
        work.toNat * numerator.toNat / denominator.toNat else 0) ∧
      ∀ work' ≤ work.toNat, r ≠ 0 → ∃ r' ≤ r,
        scaleMultiAlgoChainwork .machine work' numerator.toNat denominator.toNat = .ok r' := by
  have hpos : ∀ {x : BitVec 32}, x ≠ 0 → 0 < x.toNat := fun h =>
    Nat.pos_of_ne_zero fun h0 => h (BitVec.eq_of_toNat_eq h0)
  have hrun : ∀ w < 2 ^ 256, _ := fun w hw => scaleMultiAlgoChainwork_mono
    (checked_le_machine .lostBits) w _ _ _ (scaleMultiAlgoChainwork_eq hw (hpos hn)
      numerator.isLt (hpos hd) denominator.isLt)
  refine ⟨_, hrun _ work.isLt, rfl, fun work' hle hne => ⟨_, ?_, hrun work' (by omega)⟩⟩
  have hdiv : work' * numerator.toNat / denominator.toNat ≤
      work.toNat * numerator.toNat / denominator.toNat := by gcongr
  split_ifs at hne ⊢
  · exact hdiv
  · exact absurd rfl hne
  · omega
  · exact absurd rfl hne

theorem scaleMultiAlgoChainwork_floor_seven :
    ∃ r, scaleMultiAlgoChainwork .machine 7 3 2 = .ok r ∧ r = 10 := by
  obtain ⟨r, hr, heq, -⟩ := scaleMultiAlgoChainwork_floor 7 3 2 (by decide) (by decide)
  exact ⟨r, hr, heq⟩

end Vexta
