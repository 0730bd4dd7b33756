import Vexta.Chain.MedianTime
import Vexta.Deployment.VersionBits

/-! The states of a deployment along one branch, defined from the branch alone. -/
namespace Vexta
open Lib

/-- The median time past and the signal of the block at each height. -/
structure Branch where
  time : ℕ → ℤ
  signal : ℕ → Bool

def Branch.count (b : Branch) (height n : ℕ) : ℕ :=
  (List.range n).countP fun i => b.signal (height - i)

/-- The changes of state allowed from one block to the next. -/
inductive ThresholdState.Moves : ThresholdState → ThresholdState → Prop
  | stay (s : ThresholdState) : Moves s s
  | start : Moves .defined .started
  | lockIn : Moves .started .lockedIn
  | activate : Moves .lockedIn .active
  | expireDefined : Moves .defined .failed
  | expire : Moves .started .failed

namespace ThresholdConditionChecker
variable (c : ThresholdConditionChecker)

def next (state : ThresholdState) (time : ℤ) (count height : ℕ) : ThresholdState :=
  match state with
  | .defined => if c.nTimeStart ≤ time then .started else .defined
  | .started =>
    if c.nThreshold ≤ count then .lockedIn
    else if c.nTimeTimeout ≤ time then .failed else .started
  | .lockedIn => if c.minActivationHeight ≤ height then .active else .lockedIn
  | .failed => .failed
  | .active => .active

def lastOf (n : ℕ) : ℕ := (n + 1) * c.nPeriod - 1

def stateIn (b : Branch) : ℕ → ThresholdState
  | 0 => .defined
  | n + 1 => c.next (stateIn b n) (b.time (c.lastOf n)) (b.count (c.lastOf n) c.nPeriod)
      ((n + 1) * c.nPeriod)

variable {c} {b b' : Branch}

theorem lastOf_lt (n : ℕ) : c.lastOf n < (n + 1) * c.nPeriod := by
  have hpos : 0 < (n + 1) * c.nPeriod := Nat.mul_pos n.succ_pos c.period_pos
  unfold lastOf
  omega

theorem stateIn_congr {n : ℕ} (htime : ∀ k < n * c.nPeriod, b.time k = b'.time k)
    (hsignal : ∀ k < n * c.nPeriod, b.signal k = b'.signal k) :
    c.stateIn b n = c.stateIn b' n := by
  induction n with
  | zero => rfl
  | succ n ih =>
    have hstep : n * c.nPeriod ≤ (n + 1) * c.nPeriod := Nat.mul_le_mul_right _ n.le_succ
    have hlast := c.lastOf_lt n
    have hcount : b.count (c.lastOf n) c.nPeriod = b'.count (c.lastOf n) c.nPeriod := by
      unfold Branch.count
      congr 1
      funext i
      exact hsignal _ (by omega)
    simp only [stateIn, htime _ hlast, hcount,
      ih (fun k hk => htime k (by omega)) (fun k hk => hsignal k (by omega))]

theorem stateIn_of_early {n : ℕ} (hmono : ∀ i j, i ≤ j → j < n * c.nPeriod → b.time i ≤ b.time j)
    (hearly : ∀ k, n * c.nPeriod = k + 1 → b.time k < c.nTimeStart) :
    c.stateIn b n = .defined := by
  induction n with
  | zero => rfl
  | succ n ih =>
    have hlt := c.lastOf_lt n
    have hlast : b.time (c.lastOf n) < c.nTimeStart := hearly _ (by unfold lastOf; omega)
    have hpos := c.period_pos
    have hstep : (n + 1) * c.nPeriod = n * c.nPeriod + c.nPeriod := Nat.succ_mul _ _
    have hprev : c.stateIn b n = .defined := by
      apply ih
      · intro i j hij hj
        exact hmono i j hij (by omega)
      · intro k hk
        exact (hmono k (c.lastOf n) (by unfold lastOf; omega) hlt).trans_lt hlast
    simp [stateIn, hprev, next, not_le.mpr hlast]

theorem next_moves (state : ThresholdState) (time : ℤ) (count height : ℕ) :
    state.Moves (c.next state time count height) := by
  cases state with
  | defined =>
    simp only [next]
    split_ifs
    · exact .start
    · exact .stay _
  | started =>
    simp only [next]
    split_ifs
    · exact .lockIn
    · exact .expire
    · exact .stay _
  | lockedIn =>
    simp only [next]
    split_ifs
    · exact .activate
    · exact .stay _
  | failed => exact .stay _
  | active => exact .stay _

theorem stateIn_moves (b : Branch) (n : ℕ) : (c.stateIn b n).Moves (c.stateIn b (n + 1)) :=
  next_moves _ _ _ _

theorem stateIn_final {s : ThresholdState} (hs : s = .active ∨ s = .failed) {n m : ℕ} (h : n ≤ m)
    (hn : c.stateIn b n = s) : c.stateIn b m = s := by
  induction m, h using Nat.le_induction with
  | base => exact hn
  | succ m _ ih =>
    rcases hs with rfl | rfl
    · simp [stateIn, ih, next]
    · simp [stateIn, ih, next]

theorem stateIn_defined {n m : ℕ} (h : n ≤ m) (hm : c.stateIn b m = .defined) :
    c.stateIn b n = .defined := by
  induction m, h using Nat.le_induction with
  | base => exact hm
  | succ m _ ih =>
    apply ih
    have hmove := stateIn_moves (c := c) b m
    rw [hm] at hmove
    cases hstate : c.stateIn b m with
    | defined => rfl
    | _ =>
      rw [hstate] at hmove
      cases hmove

theorem minActivationHeight_le {n : ℕ} (h : c.stateIn b n = .active) :
    c.minActivationHeight ≤ (n * c.nPeriod : ℕ) := by
  induction n with
  | zero => cases h
  | succ n ih =>
    have hstep : n * c.nPeriod ≤ (n + 1) * c.nPeriod := Nat.mul_le_mul_right _ n.le_succ
    simp only [stateIn] at h
    cases hprev : c.stateIn b n with
    | defined =>
      rw [hprev] at h
      simp only [next] at h
      split_ifs at h
    | started =>
      rw [hprev] at h
      simp only [next] at h
      split_ifs at h
    | lockedIn =>
      rw [hprev] at h
      simp only [next] at h
      split_ifs at h with hmin
      exact hmin
    | failed =>
      rw [hprev] at h
      cases h
    | active =>
      have hle := ih hprev
      omega

end ThresholdConditionChecker

structure IsRunStart (state : ℕ → ThresholdState) (height first : ℕ) : Prop where
  le : first ≤ height
  same : ∀ k, first ≤ k → k ≤ height → state k = state height
  before : ∀ k, first = k + 1 → state k ≠ state height

namespace TimedTree
variable (T : TimedTree) (c : ThresholdConditionChecker) {p q : Uint256} {index : IndexNode}

def branch (p : Uint256) : Branch where
  time k := (T.linked.forest.ancestorAt k p).elim 0 T.medianTime
  signal k := ((T.linked.forest.ancestorAt k p).bind T.heap).any c.condition

def nextHeight : Option Uint256 → ℕ
  | none => 0
  | some p => T.linked.forest.height p + 1

def stateAt (pindexPrev : Option Uint256) (k : ℕ) : ThresholdState :=
  if c.nTimeStart = BIP9Deployment.alwaysActive then .active
  else if c.nTimeStart = BIP9Deployment.neverActive then .failed
  else match pindexPrev with
  | none => .defined
  | some p => c.stateIn (T.branch c p) (k / c.nPeriod)

def stateAfter (pindexPrev : Option Uint256) : ThresholdState :=
  T.stateAt c pindexPrev (T.nextHeight pindexPrev)

variable {T c}

theorem branch_above (hp : T.heap p = some index) (h : T.linked.forest.Above q p) {k : ℕ}
    (hk : k ≤ T.linked.forest.height q) :
    (T.branch c q).time k = (T.branch c p).time k ∧
      (T.branch c q).signal k = (T.branch c p).signal k := by
  have heq := T.linked.forest.ancestorAt_above_eq (T.linked.mem_of_eq hp) h hk
  simp only [branch, heq, and_self]

theorem stateIn_above (hp : T.heap p = some index) (h : T.linked.forest.Above q p) {n : ℕ}
    (hn : n * c.nPeriod ≤ T.linked.forest.height q + 1) :
    c.stateIn (T.branch c q) n = c.stateIn (T.branch c p) n := by
  apply ThresholdConditionChecker.stateIn_congr
  · intro k hk
    exact (branch_above hp h (by omega)).1
  · intro k hk
    exact (branch_above hp h (by omega)).2

theorem branch_time_mono (hp : T.heap p = some index) {i j : ℕ} (hij : i ≤ j)
    (hj : j ≤ T.linked.forest.height p) : (T.branch c p).time i ≤ (T.branch c p).time j := by
  have hmem := T.linked.mem_of_eq hp
  obtain ⟨b, hb, hbmem, hbheight⟩ := T.linked.forest.exists_ancestorAt hmem hj
  have habove := T.linked.forest.ancestorAt_above hb
  obtain ⟨a, ha, -, -⟩ :=
    T.linked.forest.exists_ancestorAt hbmem (show i ≤ T.linked.forest.height b by omega)
  have hap : T.linked.forest.ancestorAt i p = some a := by
    rw [← ha]
    exact (T.linked.forest.ancestorAt_above_eq hmem habove (by omega)).symm
  obtain ⟨node, hnode⟩ := T.linked.forest_mem.mp hbmem
  have hle := T.medianTime_le_of_above hnode (T.linked.forest.ancestorAt_above ha)
  simpa only [branch, hap, hb, Option.elim_some] using hle

end TimedTree
end Vexta
