import Vexta.Deployment.Cached
import Vexta.Script.SoftFork

/-! The script flags of a block, from the deployments active at it. -/
namespace Vexta
open Lib

inductive DeploymentPos
  | testDummy
  | taproot
  | pqr
  deriving DecidableEq, Repr

/-- The fields of `Consensus::Params` for the activation of script rules. -/
structure DeploymentParams where
  bip16Exception : Uint256
  bip66Height : ℤ
  bip65Height : ℤ
  csvHeight : ℤ
  segwitHeight : ℤ
  nMinerConfirmationWindow : {n : ℕ // 0 < n}
  nRuleChangeActivationThreshold : ℕ
  vDeployments : DeploymentPos → BIP9Deployment

abbrev VersionBitsCache := DeploymentPos → ThresholdConditionCache

/-- What `GetBlockScriptFlags` reads; a candidate block has no hash. -/
structure BlockPos where
  phashBlock : Option Uint256
  pprev : Option Uint256
  nHeight : ℕ
  deriving DecidableEq, Repr

def IndexNode.pos (p : Uint256) (index : IndexNode) : BlockPos :=
  ⟨some p, index.pprev, index.nHeight⟩

def IndexNode.childPos (p : Uint256) (index : IndexNode) (phashBlock : Option Uint256) :
    BlockPos :=
  ⟨phashBlock, some p, index.nHeight + 1⟩

section
variable (D : DeploymentParams) (H : Heap)

def DeploymentParams.checker (pos : DeploymentPos) : ThresholdConditionChecker :=
  versionBitsConditionChecker D.nMinerConfirmationWindow D.nRuleChangeActivationThreshold
    (D.vDeployments pos)

def nextHeightOf : Option Uint256 → Except Fault ℤ
  | none => .ok 0
  | some p => do
    let index ← H.deref p
    .ok (index.nHeight + 1)

def VersionBitsCache.state (caches : VersionBitsCache) (pindexPrev : Option Uint256)
    (pos : DeploymentPos) : Except Fault (ThresholdState × VersionBitsCache) :=
  if pos = .pqr then do
    let nextHeight ← nextHeightOf H pindexPrev
    .ok (if (D.vDeployments pos).minActivationHeight ≤ nextHeight then .active else .defined,
      caches)
  else do
    let (state, cache) ← getStateFor (D.checker pos) H pindexPrev (caches pos)
    .ok (state, Function.update caches pos cache)

variable (block : BlockPos)

def deploymentActiveAt (pos : DeploymentPos) (caches : VersionBitsCache) :
    Except Fault (Bool × VersionBitsCache) := do
  let (state, caches) ← caches.state D H block.pprev pos
  .ok (state = .active, caches)

def blockDeployments (caches : VersionBitsCache) :
    Except Fault (Deployments × VersionBitsCache) := do
  let (taproot, caches) ← deploymentActiveAt D H block .taproot caches
  let (pqr, caches) ← deploymentActiveAt D H block .pqr caches
  .ok ({
    bip16Exempt := D.bip16Exception ≠ 0 ∧ block.phashBlock = some D.bip16Exception
    segwitEnabled := D.segwitHeight ≠ intMax
    derSig := D.bip66Height ≤ block.nHeight
    cltv := D.bip65Height ≤ block.nHeight
    csv := D.csvHeight ≤ block.nHeight
    taproot
    pqr
    segwit := D.segwitHeight ≤ block.nHeight }, caches)

def blockScriptFlags (caches : VersionBitsCache) :
    Except Fault (Flags × VersionBitsCache) := do
  let (deployments, caches) ← blockDeployments D H block caches
  .ok (getBlockScriptFlags deployments, caches)

end

namespace TimedTree

def CachesSound (T : TimedTree) (D : DeploymentParams) (caches : VersionBitsCache) : Prop :=
  ∀ pos, T.CacheSound (D.checker pos) (caches pos)

def pqrActive (T : TimedTree) (D : DeploymentParams) (pindexPrev : Option Uint256) : Bool :=
  (D.vDeployments .pqr).minActivationHeight ≤ T.nextHeight pindexPrev

variable {T : TimedTree} {D : DeploymentParams} {caches : VersionBitsCache}

theorem nextHeightOf_eq {pindexPrev : Option Uint256} (hvalid : T.Valid pindexPrev) :
    nextHeightOf T.heap pindexPrev = .ok (T.nextHeight pindexPrev : ℤ) := by
  cases pindexPrev with
  | none => rfl
  | some p =>
    obtain ⟨index, hp⟩ := hvalid p rfl
    simp only [nextHeightOf, Heap.deref_eq hp, ok_bind, nextHeight_some hp]
    rfl

theorem deploymentActiveAt_pqr {block : BlockPos} (hvalid : T.Valid block.pprev) :
    deploymentActiveAt D T.heap block .pqr caches =
      .ok (T.pqrActive D block.pprev, caches) := by
  simp only [deploymentActiveAt, VersionBitsCache.state, if_true, nextHeightOf_eq hvalid,
    ok_bind, pqrActive]
  split_ifs with h
  · simp [h]
  · simp [h]

theorem deploymentActiveAt_taproot (hsound : T.CachesSound D caches) {block : BlockPos}
    (hvalid : T.Valid block.pprev) :
    ∃ active caches', deploymentActiveAt D T.heap block .taproot caches = .ok (active, caches') ∧
      T.CachesSound D caches' := by
  obtain ⟨cache, hstate, hcache⟩ := getStateFor_eq hvalid (hsound .taproot)
  refine ⟨decide (T.stateAfter (D.checker .taproot) block.pprev = .active),
    Function.update caches .taproot cache, ?_, ?_⟩
  · have hne : DeploymentPos.taproot ≠ .pqr := by decide
    simp only [deploymentActiveAt, VersionBitsCache.state, if_neg hne, hstate, ok_bind]
  · intro pos
    by_cases hpos : pos = .taproot
    · subst hpos
      rwa [Function.update_self]
    · rw [Function.update_of_ne hpos]
      exact hsound pos

theorem blockScriptFlags_eq (hsound : T.CachesSound D caches) {block : BlockPos}
    (hvalid : T.Valid block.pprev) :
    ∃ d caches', blockScriptFlags D T.heap block caches = .ok (getBlockScriptFlags d, caches') ∧
      d.pqr = T.pqrActive D block.pprev ∧ T.CachesSound D caches' := by
  obtain ⟨active, caches', htaproot, hcaches⟩ := deploymentActiveAt_taproot hsound hvalid
  simp only [blockScriptFlags, blockDeployments, htaproot, deploymentActiveAt_pqr hvalid,
    ok_bind]
  exact ⟨_, caches', rfl, rfl, hcaches⟩

end TimedTree
end Vexta
