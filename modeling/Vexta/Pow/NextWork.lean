import Vexta.Arith.Uint256
import Vexta.Chain.Index
import Vexta.Consensus.Params

/-! Difficulty retargeting in a given arithmetic: `Arith.machine` is the program, the checked one
faults where a high bit is lost. -/
namespace Vexta
open Lib Uint256 Heap

variable (A : Arith Fault) (params : Params) (H : Heap)

def divInt (x y : ℤ) : Except Fault ℤ :=
  if y = 0 then .error .divisionByZero else .ok (x.tdiv y)

def powLimit : Except Fault ℕ := getCompact A false params.powLimit.toNat

def initialDifficulty : Except Fault ℕ := powLimit A params

def randomXInitialDifficulty : Except Fault ℕ :=
  getCompact A false params.randomXInitialTarget.toNat

def noRetargeting : Except Fault Bool := do
  let fPowNoRetargeting ← readParam params.fPowNoRetargeting
  if fPowNoRetargeting then .ok true else readParam params.fEasyPow

def dampTimespan (targetTimespan measured : ℤ) : Except Fault ℤ := do
  let excess ← A.signed 64 (measured - targetTimespan)
  A.signed 64 (targetTimespan + excess.tdiv 4)

def clampTimespan (lo hi timespan : ℤ) : ℤ :=
  let timespan := if timespan < lo then lo else timespan
  if hi < timespan then hi else timespan

def clampTarget (limit target : ℕ) : ℕ :=
  let target := if target = 0 then 1 else target
  if limit < target then limit else target

def asertFactor (frac : ℕ) : Except Fault ℕ := do
  let linear ← A.unsigned 64 (195766423245049 * frac)
  let square ← A.unsigned 64 (971821376 * frac)
  let square ← A.unsigned 64 (square * frac)
  let cube ← A.unsigned 64 (5127 * frac)
  let cube ← A.unsigned 64 (cube * frac)
  let cube ← A.unsigned 64 (cube * frac)
  let sum ← A.unsigned 64 (linear + square)
  let sum ← A.unsigned 64 (sum + cube)
  let sum ← A.unsigned 64 (sum + 2 ^ 47)
  A.unsigned 64 (65536 + sum >>> 48)

def asertShift (limit target : ℕ) (shifts : ℤ) : Except Fault ℕ :=
  if shifts ≤ 0 then .ok (if 256 ≤ -shifts then 1 else target >>> (-shifts).toNat)
  else if 256 ≤ shifts ∨ limit >>> shifts.toNat < target then .ok limit
  else shl A target shifts.toNat

def asertTarget (limit nBits : ℕ) (exponent : ℤ) : Except Fault ℕ := do
  let factor ← asertFactor A (exponent % 65536).toNat
  let anchor ← setCompact A nBits
  let factor32 ← A.unsigned 32 factor
  let target ← mulU32 A anchor.target factor32
  let target ← asertShift A limit target (exponent / 65536 - 16)
  getCompact A false (clampTarget limit target)

variable (pindexLast : Uint256)

def calculateASERT : Except Fault ℕ := do
  let last ← H.deref pindexLast
  let asertActivationHeight ← readParam params.asertActivationHeight
  let anchor? ← getAncestor H pindexLast (asertActivationHeight - 1)
  match anchor? with
  | none => .ok last.nBits.toNat
  | some pindexAnchor => do
    let anchor ← H.deref pindexAnchor
    let pprev ← derefPtr anchor.pprev
    let anchorPrev ← H.deref pprev
    let heightDiff : ℤ := last.nHeight - anchor.nHeight
    let timeDiff := last.getBlockTime - anchorPrev.getBlockTime
    let nPowTargetSpacing ← readParam params.nPowTargetSpacing
    let idealTime ← A.signed 64 ((heightDiff + 1) * nPowTargetSpacing)
    let offset ← A.signed 64 (timeDiff - idealTime)
    let scaled ← A.signed 64 (offset * 65536)
    let asertHalfLife ← readParam params.asertHalfLife
    let exponent ← divInt scaled asertHalfLife
    asertTarget A params.powLimit.toNat anchor.nBits.toNat exponent

def countFastIntervals (fastThreshold : ℤ) :
    ℕ → Option Uint256 → Except Fault (Option ℕ)
  | 0, _ => .ok (some 0)
  | _ + 1, none => .ok none
  | n + 1, some pindex => do
    let index ← H.deref pindex
    match index.pprev with
    | none => .ok none
    | some pprev => do
      let prev ← H.deref pprev
      let rest ← countFastIntervals fastThreshold n (some pprev)
      let fast := if index.getBlockTime - prev.getBlockTime < fastThreshold then 1 else 0
      .ok (rest.map (· + fast))

def shouldTriggerFastRise : Except Fault Bool := do
  let nPowTargetSpacing ← readParam params.nPowTargetSpacing
  let fastIntervals ← countFastIntervals H (nPowTargetSpacing.tdiv 5) 4 (some pindexLast)
  .ok (match fastIntervals with
    | none => false
    | some n => 3 ≤ n)

def applyFastRiseProtection (asertBits : ℕ) : Except Fault ℕ := do
  let last ← H.deref pindexLast
  let fastRiseActivationHeight ← readParam params.fastRiseActivationHeight
  if (last.nHeight : ℤ) + 1 < fastRiseActivationHeight then .ok asertBits
  else do
    let trigger ← shouldTriggerFastRise params H pindexLast
    if ¬ trigger then .ok asertBits
    else do
      let asertTarget ← setCompact A asertBits
      let lastTarget ← setCompact A last.nBits.toNat
      let fastTarget := lastTarget.target >>> 1
      let fastTarget := if fastTarget = 0 then 1 else fastTarget
      if asertTarget.target < fastTarget then .ok asertBits
      else getCompact A false fastTarget

def scaleTarget (nBits : ℕ) (actualTimespan targetTimespan : ℤ) : Except Fault ℕ := do
  let bnNew ← setCompact A nBits
  let factor ← A.narrow 32 actualTimespan
  let bnNew ← mulU32 A bnNew.target factor
  let divisor ← A.narrow 32 targetTimespan
  div bnNew divisor

def harder : ℕ → ℕ → Except Fault ℕ
  | 0, bnNew => .ok bnNew
  | n + 1, bnNew => do
    let bnNew ← mulU32 A bnNew 100
    let bnNew ← div bnNew 104
    harder n bnNew

def easier (limit : ℕ) : ℕ → ℕ → Except Fault ℕ
  | 0, bnNew => .ok bnNew
  | n + 1, bnNew => do
    let bnNew ← mulU32 A bnNew 104
    let bnNew ← div bnNew 100
    if limit < bnNew then .ok limit else easier limit n bnNew

def adjustTarget (limit : ℕ) (nAdjustments : ℤ) (bnNew : ℕ) : Except Fault ℕ :=
  if 0 < nAdjustments then harder A nAdjustments.toNat bnNew
  else if nAdjustments < 0 then easier A limit (-nAdjustments).toNat bnNew
  else .ok bnNew

variable (pindexLast pindexFirst : Uint256)

def multiAlgoRetarget (prevAlgo : IndexNode)
    (averagingBlocks : ℤ) : Except Fault ℕ := do
  let last ← H.deref pindexLast
  let nPowTargetSpacing ← readParam params.nPowTargetSpacing
  let targetTimespan ← A.signed 64 (averagingBlocks * nPowTargetSpacing)
  let lastTime ← getMedianTimePast H pindexLast
  let firstTime ← getMedianTimePast H pindexFirst
  let actualTimespan ← dampTimespan A targetTimespan (lastTime - firstTime)
  let difficultyMinActualTimespan ← readParam params.difficultyMinActualTimespan
  let scaledMin ← A.signed 64 (targetTimespan * difficultyMinActualTimespan)
  let difficultyTargetTimespan ← readParam params.difficultyTargetTimespan
  let minTimespan ← divInt scaledMin difficultyTargetTimespan
  let difficultyMaxActualTimespan ← readParam params.difficultyMaxActualTimespan
  let scaledMax ← A.signed 64 (targetTimespan * difficultyMaxActualTimespan)
  let maxTimespan ← divInt scaledMax difficultyTargetTimespan
  let actualTimespan := clampTimespan minTimespan maxTimespan actualTimespan
  let bnNew ← scaleTarget A prevAlgo.nBits.toNat actualTimespan targetTimespan
  let nAdjustments : ℤ := prevAlgo.nHeight + numAlgos - 1 - last.nHeight
  let bnNew ← adjustTarget A params.powLimit.toNat nAdjustments bnNew
  getCompact A false (clampTarget params.powLimit.toNat bnNew)

def calculateMultiAlgoWorkRequired (pindexLast : Option Uint256) (algo : Algo) :
    Except Fault ℕ :=
  match pindexLast with
  | none => initialDifficulty A params
  | some pindexLast => do
    let prevAlgo? ← getLastBlockIndexForAlgoFast H pindexLast algo
    match prevAlgo? with
    | none =>
      if algo = .randomX then randomXInitialDifficulty A params else initialDifficulty A params
    | some pindexPrevAlgo => do
      let prevAlgo ← H.deref pindexPrevAlgo
      let fixed ← noRetargeting params
      if fixed then .ok prevAlgo.nBits.toNat
      else do
        let difficultyAveragingWindow ← readParam params.difficultyAveragingWindow
        let averagingBlocks ← A.signed 64 (difficultyAveragingWindow * numAlgos)
        let first? ← stepBack H averagingBlocks.toNat (some pindexLast)
        match first? with
        | none => .ok prevAlgo.nBits.toNat
        | some pindexFirst =>
          multiAlgoRetarget A params H pindexLast pindexFirst prevAlgo averagingBlocks

def asertActive (last : IndexNode) : Except Fault Bool := do
  let fixed ← noRetargeting params
  if fixed then .ok false
  else do
    let asertActivationHeight ← readParam params.asertActivationHeight
    .ok (asertActivationHeight ≤ (last.nHeight : ℤ) + 1)

def windowTimespan : Except Fault ℤ := do
  let lastTime ← getMedianTimePast H pindexLast
  let firstTime ← getMedianTimePast H pindexFirst
  let difficultyTargetTimespan ← readParam params.difficultyTargetTimespan
  let nActualTimespan ← dampTimespan A difficultyTargetTimespan (lastTime - firstTime)
  let difficultyMinActualTimespan ← readParam params.difficultyMinActualTimespan
  let difficultyMaxActualTimespan ← readParam params.difficultyMaxActualTimespan
  .ok (clampTimespan difficultyMinActualTimespan difficultyMaxActualTimespan nActualTimespan)

def windowRetarget : Except Fault ℕ := do
  let last ← H.deref pindexLast
  let difficultyAveragingWindow ← readParam params.difficultyAveragingWindow
  let first? ← stepBack H difficultyAveragingWindow.toNat (some pindexLast)
  match first? with
  | none => initialDifficulty A params
  | some pindexFirst => do
    let fixed ← noRetargeting params
    if fixed then .ok last.nBits.toNat
    else do
      let nActualTimespan ← windowTimespan A params H pindexLast pindexFirst
      let difficultyTargetTimespan ← readParam params.difficultyTargetTimespan
      let bnNew ← scaleTarget A last.nBits.toNat nActualTimespan difficultyTargetTimespan
      getCompact A false
        (if params.powLimit.toNat < bnNew then params.powLimit.toNat else bnNew)

def getNextWorkRequired (pindexLast : Option Uint256) (algo : Algo) : Except Fault ℕ :=
  if algo = .unknown then initialDifficulty A params
  else
    match pindexLast with
    | none =>
      if algo = .randomX then randomXInitialDifficulty A params else initialDifficulty A params
    | some pindexLast => do
      let last ← H.deref pindexLast
      let randomXActivationHeight ← readParam params.randomXActivationHeight
      if randomXActivationHeight ≤ (last.nHeight : ℤ) + 1 then
        calculateMultiAlgoWorkRequired A params H (some pindexLast) algo
      else if algo = .randomX then randomXInitialDifficulty A params
      else do
        let asert ← asertActive params last
        if asert then do
          let asertBits ← calculateASERT A params H pindexLast
          applyFastRiseProtection A params H pindexLast asertBits
        else windowRetarget A params H pindexLast

section Mono
variable {A} {B : Arith Fault} {H} {H' : Heap} (hA : A.Le B) (hH : H.Le H')
include hA

theorem asertFactor_mono (frac : ℕ) : Approx (asertFactor A frac) (asertFactor B frac) := by
  unfold asertFactor
  refine .bind (hA.unsigned 64 _) fun linear _ => ?_
  refine .bind (hA.unsigned 64 _) fun square _ => ?_
  refine .bind (hA.unsigned 64 _) fun square _ => ?_
  refine .bind (hA.unsigned 64 _) fun cube _ => ?_
  refine .bind (hA.unsigned 64 _) fun cube _ => ?_
  refine .bind (hA.unsigned 64 _) fun cube _ => ?_
  refine .bind (hA.unsigned 64 _) fun sum _ => ?_
  refine .bind (hA.unsigned 64 _) fun sum _ => ?_
  exact .bind (hA.unsigned 64 _) fun sum _ => hA.unsigned 64 _

theorem asertTarget_mono (limit nBits : ℕ) (exponent : ℤ) :
    Approx (asertTarget A limit nBits exponent) (asertTarget B limit nBits exponent) := by
  unfold asertTarget
  refine .bind (asertFactor_mono hA _) fun factor _ => ?_
  refine .bind (setCompact_mono hA _) fun anchor _ => ?_
  refine .bind (hA.unsigned 32 _) fun factor32 _ => ?_
  refine .bind (hA.unsigned 256 _) fun target _ => ?_
  refine .bind ?_ fun target _ => getCompact_mono hA _ _
  unfold asertShift
  refine .leave fun _ => ?_
  exact .leave fun _ => hA.unsigned 256 _

theorem dampTimespan_mono (targetTimespan measured : ℤ) :
    Approx (dampTimespan A targetTimespan measured) (dampTimespan B targetTimespan measured) := by
  unfold dampTimespan
  exact .bind (hA.signed 64 _) fun excess _ => hA.signed 64 _

theorem scaleTarget_mono (nBits : ℕ) (actualTimespan targetTimespan : ℤ) :
    Approx (scaleTarget A nBits actualTimespan targetTimespan)
      (scaleTarget B nBits actualTimespan targetTimespan) := by
  unfold scaleTarget
  refine .bind (setCompact_mono hA _) fun bnNew _ => ?_
  refine .bind (hA.narrow 32 _) fun factor _ => ?_
  refine .bind (hA.unsigned 256 _) fun bnNew _ => ?_
  exact .bind_left (hA.narrow 32 _)

theorem harder_mono (n bnNew : ℕ) : Approx (harder A n bnNew) (harder B n bnNew) := by
  induction n generalizing bnNew with
  | zero => exact .refl _
  | succ n ih =>
    unfold harder
    refine .bind (hA.unsigned 256 _) fun bnNew _ => ?_
    exact .bind_right fun bnNew => ih bnNew

theorem easier_mono (limit n bnNew : ℕ) :
    Approx (easier A limit n bnNew) (easier B limit n bnNew) := by
  induction n generalizing bnNew with
  | zero => exact .refl _
  | succ n ih =>
    unfold easier
    refine .bind (hA.unsigned 256 _) fun bnNew _ => ?_
    refine .bind_right fun bnNew => ?_
    exact .leave fun _ => ih bnNew

theorem adjustTarget_mono (limit : ℕ) (nAdjustments : ℤ) (bnNew : ℕ) :
    Approx (adjustTarget A limit nAdjustments bnNew)
      (adjustTarget B limit nAdjustments bnNew) := by
  unfold adjustTarget
  refine .ite (fun _ => harder_mono hA _ _) fun _ => ?_
  exact .ite (fun _ => easier_mono hA _ _ _) fun _ => .refl _

include hH

theorem calculateASERT_mono (p : Uint256) :
    Approx (calculateASERT A params H p) (calculateASERT B params H' p) := by
  unfold calculateASERT
  refine .bind (deref_mono hH p) fun last _ => ?_
  refine .bind_right fun height => ?_
  refine .bind (getAncestor_mono hH _ _) fun anchor? _ => ?_
  cases anchor? with
  | none => exact .refl _
  | some q =>
    refine .bind (deref_mono hH q) fun anchor _ => ?_
    refine .bind_right fun pprev => ?_
    refine .bind (deref_mono hH pprev) fun anchorPrev _ => ?_
    refine .bind_right fun spacing => ?_
    refine .bind (hA.signed 64 _) fun idealTime _ => ?_
    refine .bind (hA.signed 64 _) fun offset _ => ?_
    refine .bind (hA.signed 64 _) fun scaled _ => ?_
    refine .bind_right fun halfLife => ?_
    exact .bind_right fun exponent => asertTarget_mono hA _ _ _

omit hA in
theorem countFastIntervals_mono (fastThreshold : ℤ) (n : ℕ) (p : Option Uint256) :
    Approx (countFastIntervals H fastThreshold n p)
      (countFastIntervals H' fastThreshold n p) := by
  fun_induction countFastIntervals H fastThreshold n p with
  | case1 => exact .refl _
  | case2 => exact .refl _
  | case3 n p ih =>
    refine .bind (deref_mono hH p) fun index _ => ?_
    cases index.pprev with
    | none => exact .refl _
    | some q =>
      refine .bind (deref_mono hH q) fun prev _ => ?_
      exact .bind_left (ih _)

theorem applyFastRiseProtection_mono (p : Uint256) (asertBits : ℕ) :
    Approx (applyFastRiseProtection A params H p asertBits)
      (applyFastRiseProtection B params H' p asertBits) := by
  unfold applyFastRiseProtection
  refine .bind (deref_mono hH p) fun last _ => ?_
  refine .bind_right fun height => ?_
  refine .leave fun _ => ?_
  have htrigger : Approx (shouldTriggerFastRise params H p) (shouldTriggerFastRise params H' p) := by
    unfold shouldTriggerFastRise
    refine .bind_right fun spacing => ?_
    exact .bind_left (countFastIntervals_mono hH _ _ _)
  refine .bind htrigger fun trigger _ => ?_
  refine .leave fun _ => ?_
  refine .bind (setCompact_mono hA _) fun asertTarget _ => ?_
  refine .bind (setCompact_mono hA _) fun lastTarget _ => ?_
  exact .leave fun _ => getCompact_mono hA _ _

theorem multiAlgoRetarget_mono (p q : Uint256) (prevAlgo : IndexNode) (averagingBlocks : ℤ) :
    Approx (multiAlgoRetarget A params H p q prevAlgo averagingBlocks)
      (multiAlgoRetarget B params H' p q prevAlgo averagingBlocks) := by
  unfold multiAlgoRetarget
  refine .bind (deref_mono hH p) fun last _ => ?_
  refine .bind_right fun spacing => ?_
  refine .bind (hA.signed 64 _) fun targetTimespan _ => ?_
  refine .bind (getMedianTimePast_mono hH p) fun lastTime _ => ?_
  refine .bind (getMedianTimePast_mono hH q) fun firstTime _ => ?_
  refine .bind (dampTimespan_mono hA _ _) fun actualTimespan _ => ?_
  refine .bind_right fun lo => ?_
  refine .bind (hA.signed 64 _) fun scaledMin _ => ?_
  refine .bind_right fun target => ?_
  refine .bind_right fun minTimespan => ?_
  refine .bind_right fun hi => ?_
  refine .bind (hA.signed 64 _) fun scaledMax _ => ?_
  refine .bind_right fun maxTimespan => ?_
  refine .bind (scaleTarget_mono hA _ _ _) fun bnNew _ => ?_
  exact .bind (adjustTarget_mono hA _ _ _) fun bnNew _ => getCompact_mono hA _ _

theorem calculateMultiAlgoWorkRequired_mono (p : Option Uint256) (algo : Algo) :
    Approx (calculateMultiAlgoWorkRequired A params H p algo)
      (calculateMultiAlgoWorkRequired B params H' p algo) := by
  cases p with
  | none => exact getCompact_mono hA _ _
  | some p =>
    unfold calculateMultiAlgoWorkRequired
    refine .bind (getLastBlockIndexForAlgoFast_mono hH p algo) fun prevAlgo? _ => ?_
    cases prevAlgo? with
    | none =>
      exact .ite (fun _ => getCompact_mono hA _ _) fun _ => getCompact_mono hA _ _
    | some q =>
      refine .bind (deref_mono hH q) fun prevAlgo _ => ?_
      refine .bind_right fun fixed => ?_
      refine .leave fun _ => ?_
      refine .bind_right fun window => ?_
      refine .bind (hA.signed 64 _) fun averagingBlocks _ => ?_
      refine .bind (stepBack_mono hH _ _) fun first? _ => ?_
      cases first? with
      | none => exact .refl _
      | some r => exact multiAlgoRetarget_mono params hA hH p r prevAlgo averagingBlocks

theorem windowTimespan_mono (p q : Uint256) :
    Approx (windowTimespan A params H p q) (windowTimespan B params H' p q) := by
  unfold windowTimespan
  refine .bind (getMedianTimePast_mono hH p) fun lastTime _ => ?_
  refine .bind (getMedianTimePast_mono hH q) fun firstTime _ => ?_
  refine .bind_right fun target => ?_
  exact .bind_left (dampTimespan_mono hA _ _)

theorem windowRetarget_mono (p : Uint256) :
    Approx (windowRetarget A params H p) (windowRetarget B params H' p) := by
  unfold windowRetarget
  refine .bind (deref_mono hH p) fun last _ => ?_
  refine .bind_right fun window => ?_
  refine .bind (stepBack_mono hH _ _) fun first? _ => ?_
  cases first? with
  | none => exact getCompact_mono hA _ _
  | some q =>
    refine .bind_right fun fixed => ?_
    refine .leave fun _ => ?_
    refine .bind (windowTimespan_mono params hA hH p q) fun timespan _ => ?_
    refine .bind_right fun target => ?_
    exact .bind (scaleTarget_mono hA _ _ _) fun bnNew _ => getCompact_mono hA _ _

theorem getNextWorkRequired_mono (p : Option Uint256) (algo : Algo) :
    Approx (getNextWorkRequired A params H p algo) (getNextWorkRequired B params H' p algo) := by
  unfold getNextWorkRequired
  refine .ite (fun _ => getCompact_mono hA _ _) fun _ => ?_
  cases p with
  | none => exact .ite (fun _ => getCompact_mono hA _ _) fun _ => getCompact_mono hA _ _
  | some p =>
    refine .bind (deref_mono hH p) fun last _ => ?_
    refine .bind_right fun height => ?_
    refine .ite (fun _ => ?_) fun _ => ?_
    · exact calculateMultiAlgoWorkRequired_mono params hA hH _ _
    · refine .ite (fun _ => getCompact_mono hA _ _) fun _ => ?_
      refine .bind_right fun asert => ?_
      refine .ite (fun _ => ?_) fun _ => windowRetarget_mono params hA hH p
      refine .bind (calculateASERT_mono params hA hH p) fun asertBits _ => ?_
      exact applyFastRiseProtection_mono params hA hH p asertBits

end Mono
end Vexta
