import Vexta.Chain.Index
import Mathlib.Data.List.AList

/-! Threshold states of deployments. A cache is keyed by the last index of a period, or null. -/
namespace Vexta
open Lib

inductive ThresholdState
  | defined
  | started
  | lockedIn
  | active
  | failed
  deriving DecidableEq, Repr

structure BIP9Deployment where
  bit : ℕ
  nStartTime : ℤ
  nTimeout : ℤ
  minActivationHeight : ℤ
  deriving DecidableEq, Repr

def BIP9Deployment.alwaysActive : ℤ := -1
def BIP9Deployment.neverActive : ℤ := -2

/-- `AbstractThresholdConditionChecker`: its virtual functions. -/
structure ThresholdConditionChecker where
  nPeriod : ℕ
  period_pos : 0 < nPeriod
  nThreshold : ℤ
  minActivationHeight : ℤ
  nTimeStart : ℤ
  nTimeTimeout : ℤ
  condition : IndexNode → Bool

def versionBitsConditionChecker (window : {n : ℕ // 0 < n}) (threshold : ℕ)
    (deployment : BIP9Deployment) : ThresholdConditionChecker where
  nPeriod := window.1
  period_pos := window.2
  nThreshold := threshold
  minActivationHeight := deployment.minActivationHeight
  nTimeStart := deployment.nStartTime
  nTimeTimeout := deployment.nTimeout
  condition index :=
    index.nVersion &&& 0xF0000000#32 == 0x20000000#32 &&
      index.nVersion &&& (1#32 <<< deployment.bit) != 0#32

abbrev ThresholdConditionCache := AList fun _ : Option Uint256 => ThresholdState

section
variable (c : ThresholdConditionChecker) (H : Heap)

def endOfPeriod : Option Uint256 → Except Fault (Option Uint256)
  | none => .ok none
  | some p => do
    let index ← H.deref p
    getAncestor H p (index.nHeight - ((index.nHeight + 1) % c.nPeriod : ℕ))

def countSignals : ℕ → Option Uint256 → Except Fault ℕ
  | 0, _ => .ok 0
  | n + 1, pindexCount => do
    let p ← derefPtr pindexCount
    let index ← H.deref p
    let rest ← countSignals n index.pprev
    .ok (rest + if c.condition index then 1 else 0)

def stateNext (state : ThresholdState) (pindexPrev : Uint256) : Except Fault ThresholdState :=
  match state with
  | .defined => do
    let time ← getMedianTimePast H pindexPrev
    .ok (if c.nTimeStart ≤ time then .started else .defined)
  | .started => do
    let count ← countSignals c H c.nPeriod (some pindexPrev)
    if c.nThreshold ≤ count then .ok .lockedIn
    else do
      let time ← getMedianTimePast H pindexPrev
      .ok (if c.nTimeTimeout ≤ time then .failed else .started)
  | .lockedIn => do
    let index ← H.deref pindexPrev
    .ok (if c.minActivationHeight ≤ index.nHeight + 1 then .active else .lockedIn)
  | .failed => .ok .failed
  | .active => .ok .active

/-- The walk back by periods to a known state; the earliest index is on top. -/
def walkBack : ℕ → ThresholdConditionCache → Option Uint256 → List Uint256 →
    Except Fault (ThresholdConditionCache × Option Uint256 × List Uint256)
  | 0, _, _, _ => .error .outOfFuel
  | fuel + 1, cache, pindexPrev, vToCompute =>
    if (cache.lookup pindexPrev).isSome then .ok (cache, pindexPrev, vToCompute)
    else match pindexPrev with
    | none => .ok (cache.insert none .defined, none, vToCompute)
    | some p => do
      let time ← getMedianTimePast H p
      if time < c.nTimeStart then .ok (cache.insert (some p) .defined, some p, vToCompute)
      else do
        let index ← H.deref p
        let prev ← getAncestor H p (index.nHeight - c.nPeriod)
        walkBack fuel cache prev (p :: vToCompute)

def walkForward (vToCompute : List Uint256) (state : ThresholdState)
    (cache : ThresholdConditionCache) : Except Fault (ThresholdState × ThresholdConditionCache) :=
  vToCompute.foldlM (fun (s : ThresholdState × ThresholdConditionCache) p => do
    let next ← stateNext c H s.1 p
    .ok (next, s.2.insert (some p) next)) (state, cache)

variable (pindexPrev : Option Uint256)

def walkFuel : ℕ :=
  ((pindexPrev.bind H).map IndexNode.nHeight).getD 0 + 2

def getStateFor (cache : ThresholdConditionCache) :
    Except Fault (ThresholdState × ThresholdConditionCache) :=
  if c.nTimeStart = BIP9Deployment.alwaysActive then .ok (.active, cache)
  else if c.nTimeStart = BIP9Deployment.neverActive then .ok (.failed, cache)
  else do
    let pindexPrev ← endOfPeriod c H pindexPrev
    let (cache, known, vToCompute) ← walkBack c H (walkFuel H pindexPrev) cache pindexPrev []
    match cache.lookup known with
    | none => .error .assertion
    | some state => walkForward c H vToCompute state cache

def sinceLoop (initialState : ThresholdState) : ℕ → Uint256 → ThresholdConditionCache →
    Except Fault (Uint256 × ThresholdConditionCache)
  | 0, _, _ => .error .outOfFuel
  | fuel + 1, pindexPrev, cache => do
    let index ← H.deref pindexPrev
    let previousPeriodParent ← getAncestor H pindexPrev (index.nHeight - c.nPeriod)
    match previousPeriodParent with
    | none => .ok (pindexPrev, cache)
    | some parent => do
      let (state, cache) ← getStateFor c H (some parent) cache
      if state = initialState then sinceLoop initialState fuel parent cache
      else .ok (pindexPrev, cache)

def getStateSinceHeightFor (cache : ThresholdConditionCache) :
    Except Fault (ℤ × ThresholdConditionCache) :=
  if c.nTimeStart = BIP9Deployment.alwaysActive ∨ c.nTimeStart = BIP9Deployment.neverActive then
    .ok (0, cache)
  else do
    let (initialState, cache) ← getStateFor c H pindexPrev cache
    if initialState = .defined then .ok (0, cache)
    else do
      let p ← derefPtr pindexPrev
      let last ← endOfPeriod c H (some p)
      let last ← derefPtr last
      let (first, cache) ← sinceLoop c H initialState (walkFuel H (some last)) last cache
      let index ← H.deref first
      .ok (index.nHeight + 1, cache)

end

inductive ThresholdQuery
  | state (pindexPrev : Option Uint256)
  | sinceHeight (pindexPrev : Option Uint256)
  deriving DecidableEq, Repr

def ThresholdQuery.pindexPrev : ThresholdQuery → Option Uint256
  | .state pindexPrev => pindexPrev
  | .sinceHeight pindexPrev => pindexPrev

inductive ThresholdAnswer
  | state (state : ThresholdState)
  | sinceHeight (height : ℤ)
  deriving DecidableEq, Repr

def ThresholdQuery.ask (c : ThresholdConditionChecker) (H : Heap) :
    ThresholdQuery → ThresholdConditionCache →
      Except Fault (ThresholdAnswer × ThresholdConditionCache)
  | .state pindexPrev, cache => do
    let (result, cache) ← getStateFor c H pindexPrev cache
    .ok (.state result, cache)
  | .sinceHeight pindexPrev, cache => do
    let (height, cache) ← getStateSinceHeightFor c H pindexPrev cache
    .ok (.sinceHeight height, cache)

def askAll (c : ThresholdConditionChecker) (H : Heap) :
    List ThresholdQuery → ThresholdConditionCache →
      Except Fault (List ThresholdAnswer × ThresholdConditionCache)
  | [], cache => .ok ([], cache)
  | query :: queries, cache => do
    let (answer, cache) ← query.ask c H cache
    let (answers, cache) ← askAll c H queries cache
    .ok (answer :: answers, cache)

end Vexta
