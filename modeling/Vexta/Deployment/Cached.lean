import Vexta.Deployment.Bip9
import Vexta.Validation.HeaderRun

/-! The cached states are those of a branch by itself, in any order of questions. -/
namespace Vexta
open Lib List Option Heap AList Nat ThresholdConditionChecker TimedTree BIP9Deployment

/-- The start time is a time, not one of the two special values. -/
def ThresholdConditionChecker.Timed (c : ThresholdConditionChecker) : Prop :=
  c.nTimeStart ≠ alwaysActive ∧ c.nTimeStart ≠ neverActive

namespace TimedTree

def Valid (T : TimedTree) (pindex : Option Uint256) : Prop :=
  ∀ p, pindex = some p → ∃ index, T.heap p = some index

def CacheSound (T : TimedTree) (c : ThresholdConditionChecker) (cache : ThresholdConditionCache) :
    Prop :=
  ∀ key state, cache.lookup key = some state → state = T.stateAfter c key

variable {T : TimedTree} {c : ThresholdConditionChecker} {p q : Uint256} {index : IndexNode}
  {cache : ThresholdConditionCache}

theorem CacheSound.insert (h : T.CacheSound c cache) (key : Option Uint256) :
    T.CacheSound c (cache.insert key (T.stateAfter c key)) := by
  intro key' state hstate
  by_cases hkey : key' = key
  · subst hkey
    rw [lookup_insert] at hstate
    exact (Option.some.inj hstate).symm
  · rw [lookup_insert_ne hkey] at hstate
    exact h key' state hstate

theorem nextHeight_some (hp : T.heap p = some index) :
    T.nextHeight (some p) = index.nHeight + 1 := by
  simp only [nextHeight, T.linked.forest_height hp]

theorem stateAfter_none (hc : c.Timed) : T.stateAfter c none = .defined := by
  simp only [stateAfter, stateAt, if_neg hc.1, if_neg hc.2]

theorem stateAfter_some (hc : c.Timed) (hp : T.heap p = some index) :
    T.stateAfter c (some p) = c.stateIn (T.branch c p) ((index.nHeight + 1) / c.nPeriod) := by
  simp only [stateAfter, stateAt, if_neg hc.1, if_neg hc.2, nextHeight_some hp]

variable {m : ℕ} {pindexPrev : Option Uint256} {n : ℕ} {key : Option Uint256}

theorem exists_periodEnd (hc : c.Timed) (hp : T.heap p = some index)
    (hm : m * c.nPeriod ≤ index.nHeight + 1) :
    ∃ key, getAncestor T.heap p ((m * c.nPeriod : ℕ) - 1 : ℤ) = .ok key ∧ T.Valid key ∧
      T.nextHeight key = m * c.nPeriod ∧
      T.stateAfter c key = c.stateIn (T.branch c p) m := by
  have hpos := c.period_pos
  cases m with
  | zero =>
    have hvalid : T.Valid none := by
      rintro q ⟨⟩
    exact ⟨none, Linked.getAncestor_of_neg hp (by simp), hvalid, by simp [nextHeight],
      stateAfter_none hc⟩
  | succ n =>
    have hpos' : 0 < (n + 1) * c.nPeriod := mul_pos n.succ_pos hpos
    have hcast : (((n + 1) * c.nPeriod : ℕ) - 1 : ℤ) = (((n + 1) * c.nPeriod - 1 : ℕ) : ℤ) := by
      omega
    have hmem := T.linked.mem_of_eq hp
    have hheight := T.linked.forest_height hp
    obtain ⟨a, ha, hamem, haheight⟩ := T.linked.forest.exists_ancestorAt hmem
      (show (n + 1) * c.nPeriod - 1 ≤ T.linked.forest.height p by omega)
    obtain ⟨node, hnode⟩ := T.linked.forest_mem.mp hamem
    have habove := T.linked.forest.ancestorAt_above ha
    have hnodeHeight : node.nHeight + 1 = (n + 1) * c.nPeriod := by
      rw [← T.linked.forest_height hnode]
      omega
    refine ⟨some a, ?_, ?_, ?_, ?_⟩
    · rw [hcast, T.linked.getAncestor_eq hp, ha]
    · rintro q ⟨⟩
      exact ⟨node, hnode⟩
    · rw [nextHeight_some hnode, hnodeHeight]
    · rw [stateAfter_some hc hnode, hnodeHeight, Nat.mul_div_cancel _ hpos]
      exact stateIn_above hp habove (by omega)

theorem endOfPeriod_eq (hc : c.Timed) (hvalid : T.Valid pindexPrev) :
    ∃ key, endOfPeriod c T.heap pindexPrev = .ok key ∧ T.Valid key ∧
      T.nextHeight key = T.nextHeight pindexPrev / c.nPeriod * c.nPeriod ∧
      T.stateAfter c key = T.stateAfter c pindexPrev := by
  cases pindexPrev with
  | none => exact ⟨none, rfl, hvalid, by simp [nextHeight], rfl⟩
  | some p =>
    obtain ⟨index, hp⟩ := hvalid p rfl
    have hdiv := div_add_mod' (index.nHeight + 1) c.nPeriod
    obtain ⟨key, hkey, hvalid, hnext, hstate⟩ := exists_periodEnd hc hp
      (m := (index.nHeight + 1) / c.nPeriod) (div_mul_le_self _ _)
    have htarget : ((index.nHeight : ℤ) - ((index.nHeight + 1) % c.nPeriod : ℕ)) =
        (((index.nHeight + 1) / c.nPeriod * c.nPeriod : ℕ) - 1 : ℤ) := by omega
    refine ⟨key, ?_, hvalid, ?_, ?_⟩
    · simp only [endOfPeriod, deref_eq hp, ok_bind]
      rw [htarget]
      exact hkey
    · rw [hnext, nextHeight_some hp]
    · rw [hstate, stateAfter_some hc hp]

theorem countSignals_eq (hp : T.heap p = some index) {node : IndexNode} (hq : T.heap q = some node)
    (habove : T.linked.forest.Above q p) (hn : n ≤ node.nHeight + 1) :
    countSignals c T.heap n (some q) = .ok ((T.branch c p).count node.nHeight n) := by
  induction n generalizing q node with
  | zero => rfl
  | succ n ih =>
    have hself : T.linked.forest.ancestorAt node.nHeight p = some q := by
      have heq := T.linked.forest.ancestorAt_above_eq (T.linked.mem_of_eq hp) habove
        (k := node.nHeight) (by rw [T.linked.forest_height hq])
      rw [← heq, ← T.linked.forest_height hq]
      exact T.linked.forest.ancestorAt_self q
    have hsignal : (T.branch c p).signal node.nHeight = c.condition node := by
      simp [branch, hself, hq]
    have hcount : (T.branch c p).count node.nHeight (n + 1) =
        (T.branch c p).count (node.nHeight - 1) n + if c.condition node then 1 else 0 := by
      unfold Branch.count
      rw [range_succ_eq_map, countP_cons, countP_map, Nat.sub_zero, hsignal]
      congr 2
      funext i
      simp only [Function.comp_apply, succ_eq_add_one]
      congr 1
      omega
    have hrest : countSignals c T.heap n node.pprev =
        .ok ((T.branch c p).count (node.nHeight - 1) n) := by
      cases hr : node.pprev with
      | none =>
        have hroot := T.linked.root hq hr
        have hzero : n = 0 := by omega
        subst hzero
        rfl
      | some r =>
        obtain ⟨prev, hprev, hheight⟩ := T.linked.parent hq hr
        have hup : T.linked.forest.Above r q :=
          T.linked.forest.above_parent (by rw [T.linked.forest_parent hq, hr])
        have hih := ih hprev (T.linked.forest.above_trans hup habove) (by omega)
        rw [hih]
        congr 2
        omega
    simp only [countSignals, derefPtr, deref_eq hq, ok_bind, hrest, hcount]

theorem stateNext_eq (hp : T.heap p = some index) (hend : index.nHeight + 1 = (n + 1) * c.nPeriod) :
    stateNext c T.heap (c.stateIn (T.branch c p) n) p =
      .ok (c.stateIn (T.branch c p) (n + 1)) := by
  have hlast : c.lastOf n = index.nHeight := by
    unfold lastOf
    omega
  have htime : (T.branch c p).time index.nHeight = T.medianTime p := by
    have hself := T.linked.forest.ancestorAt_self p
    rw [T.linked.forest_height hp] at hself
    simp [branch, hself]
  have hperiod : c.nPeriod ≤ index.nHeight + 1 := by
    rw [hend]
    exact Nat.le_mul_of_pos_left _ n.succ_pos
  have hcount := countSignals_eq (c := c) hp hp (T.linked.forest.above_refl p) hperiod
  have hmedian := T.getMedianTimePast_eq_medianTime hp
  have hheight : (((n + 1) * c.nPeriod : ℕ) : ℤ) = index.nHeight + 1 := by
    rw [← hend]
    push_cast
    rfl
  simp only [stateIn, hlast, htime]
  cases c.stateIn (T.branch c p) n with
  | defined => simp only [stateNext, hmedian, ok_bind, ThresholdConditionChecker.next]
  | started =>
    simp only [stateNext, hcount, hmedian, ok_bind, ThresholdConditionChecker.next]
    split_ifs <;> rfl
  | lockedIn =>
    simp only [stateNext, deref_eq hp, ok_bind, ThresholdConditionChecker.next, hheight]
  | failed => rfl
  | active => rfl

inductive Path (T : TimedTree) (c : ThresholdConditionChecker) :
    Option Uint256 → List Uint256 → Option Uint256 → Prop
  | nil (key : Option Uint256) : Path T c key [] key
  | cons {base key : Option Uint256} {p : Uint256} {rest : List Uint256} {index : IndexNode}
      {n : ℕ} (hp : T.heap p = some index) (hend : index.nHeight + 1 = (n + 1) * c.nPeriod)
      (hbase : T.stateAfter c base = c.stateIn (T.branch c p) n)
      (hrest : Path T c (some p) rest key) : Path T c base (p :: rest) key

theorem Path.snoc {base : Option Uint256} {l : List Uint256} (h : T.Path c base l key)
    (hp : T.heap p = some index) (hend : index.nHeight + 1 = (n + 1) * c.nPeriod)
    (hkey : T.stateAfter c key = c.stateIn (T.branch c p) n) :
    T.Path c base (l ++ [p]) (some p) := by
  induction h with
  | nil key => exact .cons hp hend hkey (.nil _)
  | cons hp' hend' hbase' _ ih => exact .cons hp' hend' hbase' (ih hkey)

theorem walkBack_eq (hc : c.Timed) {fuel : ℕ} (hvalid : T.Valid key)
    (hend : T.nextHeight key = m * c.nPeriod) (hfuel : T.nextHeight key < fuel)
    (hsound : T.CacheSound c cache) (todo : List Uint256) :
    ∃ cache' base path, walkBack c T.heap fuel cache key todo = .ok (cache', base, path ++ todo) ∧
      T.CacheSound c cache' ∧ cache'.lookup base = some (T.stateAfter c base) ∧
      T.Path c base path key := by
  induction fuel generalizing key m todo with
  | zero => omega
  | succ fuel ih =>
    unfold walkBack
    cases hlookup : cache.lookup key with
    | some state =>
      refine ⟨cache, key, [], ?_, hsound, ?_, .nil _⟩
      · simp
      · rw [hlookup, hsound key state hlookup]
    | none =>
      simp only [isSome_none, Bool.false_eq_true, if_false]
      cases key with
      | none =>
        refine ⟨cache.insert none .defined, none, [], rfl, ?_, ?_, .nil _⟩
        · rw [← stateAfter_none (T := T) hc]
          exact hsound.insert none
        · rw [lookup_insert, stateAfter_none hc]
      | some p =>
        obtain ⟨index, hp⟩ := hvalid p rfl
        rw [nextHeight_some hp] at hend hfuel
        obtain ⟨n, rfl⟩ : ∃ n, m = n + 1 := by
          cases m with
          | zero => omega
          | succ n => exact ⟨n, rfl⟩
        have hsucc : (n + 1) * c.nPeriod = n * c.nPeriod + c.nPeriod := succ_mul _ _
        have hpos := c.period_pos
        simp only [T.getMedianTimePast_eq_medianTime hp, ok_bind]
        by_cases hearly : T.medianTime p < c.nTimeStart
        · -- nothing can have happened on a branch that has not reached the start time
          have hself := T.linked.forest.ancestorAt_self p
          rw [T.linked.forest_height hp] at hself
          have hstate : T.stateAfter c (some p) = .defined := by
            rw [stateAfter_some hc hp, hend, Nat.mul_div_cancel _ hpos]
            apply stateIn_of_early
            · intro i j hij hj
              exact branch_time_mono hp hij (by rw [T.linked.forest_height hp]; omega)
            · intro k hk
              have hk : k = index.nHeight := by omega
              subst hk
              simpa [branch, hself] using hearly
          rw [if_pos hearly]
          refine ⟨cache.insert (some p) .defined, some p, [], rfl, ?_, ?_, .nil _⟩
          · rw [← hstate]
            exact hsound.insert (some p)
          · rw [lookup_insert, hstate]
        · rw [if_neg hearly]
          obtain ⟨prev, hprev, hprevValid, hprevEnd, hprevState⟩ :=
            exists_periodEnd hc hp (m := n) (by omega)
          have htarget : ((index.nHeight : ℤ) - c.nPeriod) = ((n * c.nPeriod : ℕ) - 1 : ℤ) := by
            omega
          obtain ⟨cache', base, path, hwalk, hsound', hbase, hpath⟩ :=
            ih hprevValid hprevEnd (by omega) (p :: todo)
          refine ⟨cache', base, path ++ [p], ?_, hsound', hbase, ?_⟩
          · simp only [deref_eq hp, ok_bind]
            rw [htarget, hprev, ok_bind, hwalk, append_assoc, singleton_append]
          · exact hpath.snoc hp hend hprevState

theorem walkForward_eq (hc : c.Timed) {base : Option Uint256} {path : List Uint256}
    (hpath : T.Path c base path key) (hsound : T.CacheSound c cache) :
    ∃ cache', walkForward c T.heap path (T.stateAfter c base) cache =
      .ok (T.stateAfter c key, cache') ∧ T.CacheSound c cache' := by
  induction hpath generalizing cache with
  | nil key => exact ⟨cache, rfl, hsound⟩
  | @cons base key p rest index n hp hend hbase _ ih =>
    have hstate : T.stateAfter c (some p) = c.stateIn (T.branch c p) (n + 1) := by
      rw [stateAfter_some hc hp, hend, Nat.mul_div_cancel _ c.period_pos]
    obtain ⟨cache', hrun, hsound'⟩ := ih (hsound.insert (some p))
    refine ⟨cache', ?_, hsound'⟩
    unfold walkForward at hrun ⊢
    rw [foldlM_cons, hbase, stateNext_eq hp hend, ok_bind, ← hstate, ok_bind]
    exact hrun

theorem getStateFor_eq (hvalid : T.Valid pindexPrev) (hsound : T.CacheSound c cache) :
    ∃ cache', getStateFor c T.heap pindexPrev cache =
      .ok (T.stateAfter c pindexPrev, cache') ∧ T.CacheSound c cache' := by
  by_cases halways : c.nTimeStart = alwaysActive
  · refine ⟨cache, ?_, hsound⟩
    simp only [getStateFor, stateAfter, stateAt, if_pos halways]
  by_cases hnever : c.nTimeStart = neverActive
  · refine ⟨cache, ?_, hsound⟩
    simp only [getStateFor, stateAfter, stateAt, if_neg halways, if_pos hnever]
  have hc : c.Timed := ⟨halways, hnever⟩
  obtain ⟨key, hkey, hkeyValid, hend, hstate⟩ := endOfPeriod_eq hc hvalid
  have hfuel : T.nextHeight key < walkFuel T.heap key := by
    cases key with
    | none => simp [nextHeight, walkFuel]
    | some p =>
      obtain ⟨index, hp⟩ := hkeyValid p rfl
      simp [nextHeight_some hp, walkFuel, hp]
  obtain ⟨cache', base, path, hwalk, hsound', hbase, hpath⟩ :=
    walkBack_eq hc hkeyValid hend hfuel hsound []
  obtain ⟨cache'', hforward, hsound''⟩ := walkForward_eq hc hpath hsound'
  refine ⟨cache'', ?_, hsound''⟩
  rw [append_nil] at hwalk
  simp only [getStateFor, if_neg halways, if_neg hnever, hkey, hwalk, hbase, ok_bind]
  rw [hforward, hstate]

theorem sinceLoop_eq (hc : c.Timed) (hp : T.heap p = some index) {state : ThresholdState}
    (hstate : state ≠ .defined) {fuel : ℕ} {last : Uint256} (hm : m * c.nPeriod ≤ index.nHeight + 1)
    (hlast : getAncestor T.heap p ((m * c.nPeriod : ℕ) - 1 : ℤ) = .ok (some last))
    (hrun : c.stateIn (T.branch c p) m = state) (hfuel : m * c.nPeriod < fuel)
    (hsound : T.CacheSound c cache) :
    ∃ first n node cache', sinceLoop c T.heap state fuel last cache = .ok (first, cache') ∧
      T.CacheSound c cache' ∧ T.heap first = some node ∧
      node.nHeight + 1 = (n + 1) * c.nPeriod ∧ n + 1 ≤ m ∧
      (∀ j, n + 1 ≤ j → j ≤ m → c.stateIn (T.branch c p) j = state) ∧
      c.stateIn (T.branch c p) n ≠ state := by
  induction fuel generalizing m last cache with
  | zero => omega
  | succ fuel ih =>
    obtain ⟨n, rfl⟩ : ∃ n, m = n + 1 := by
      cases m with
      | zero => exact absurd hrun.symm hstate
      | succ n => exact ⟨n, rfl⟩
    have hsucc : (n + 1) * c.nPeriod = n * c.nPeriod + c.nPeriod := succ_mul _ _
    have hpos := c.period_pos
    obtain ⟨key, hkey, hkeyValid, hkeyEnd, -⟩ := exists_periodEnd hc hp hm
    cases hlast.symm.trans hkey
    obtain ⟨node, hnode⟩ := hkeyValid last rfl
    rw [nextHeight_some hnode] at hkeyEnd
    obtain ⟨prev, hprev, hprevValid, hprevEnd, hprevState⟩ :=
      exists_periodEnd hc hp (m := n) (by omega)
    -- the ancestor of the end of a period is the ancestor of the index itself
    have hsame : getAncestor T.heap last (node.nHeight - c.nPeriod) = .ok prev := by
      have htarget : ((node.nHeight : ℤ) - c.nPeriod) = ((n * c.nPeriod : ℕ) - 1 : ℤ) := by omega
      have hcast : (((n + 1) * c.nPeriod : ℕ) - 1 : ℤ) = (node.nHeight : ℕ) := by omega
      rw [hcast, T.linked.getAncestor_eq hp] at hlast
      rw [T.linked.getAncestor_above hp hnode
        (T.linked.forest.ancestorAt_above (Except.ok.inj hlast)) (by omega), htarget, hprev]
    have hhere : ∀ j, n + 1 ≤ j → j ≤ n + 1 → c.stateIn (T.branch c p) j = state := by
      intro j hj hj'
      have heq : j = n + 1 := by omega
      rw [heq, hrun]
    simp only [sinceLoop, deref_eq hnode, ok_bind, hsame]
    cases prev with
    | none =>
      have hzero : n = 0 := by
        simp only [nextHeight] at hprevEnd
        rcases Nat.mul_eq_zero.mp hprevEnd.symm with h | h <;> omega
      subst hzero
      exact ⟨last, 0, node, cache, rfl, hsound, hnode, hkeyEnd, le_rfl, hhere, Ne.symm hstate⟩
    | some parent =>
      obtain ⟨cache', hget, hsound'⟩ := getStateFor_eq hprevValid hsound
      simp only [hget, ok_bind]
      rw [hprevState]
      by_cases heq : c.stateIn (T.branch c p) n = state
      · rw [if_pos heq]
        obtain ⟨first, k, node', cache'', hloop, hsound'', hfirst, hend, hle, hall, hbefore⟩ :=
          ih (by omega) hprev heq (by omega) hsound'
        refine ⟨first, k, node', cache'', hloop, hsound'', hfirst, hend, by omega, ?_, hbefore⟩
        intro j hj hj'
        rcases lt_or_ge n j with hlt | hge
        · exact hhere j (by omega) hj'
        · exact hall j hj hge
      · rw [if_neg heq]
        exact ⟨last, n, node, cache', rfl, hsound', hnode, hkeyEnd, le_rfl, hhere, heq⟩

theorem stateAt_timed (hc : c.Timed) (p : Uint256) (k : ℕ) :
    T.stateAt c (some p) k = c.stateIn (T.branch c p) (k / c.nPeriod) := by
  simp only [stateAt, if_neg hc.1, if_neg hc.2]

/-- A deployment without a start time is always in the same state. -/
theorem stateAt_untimed (hc : ¬ c.Timed) (key key' : Option Uint256) (k k' : ℕ) :
    T.stateAt c key k = T.stateAt c key' k' := by
  simp only [stateAt]
  split_ifs with halways hnever
  · rfl
  · rfl
  · exact absurd ⟨halways, hnever⟩ hc

theorem isRunStart_defined (hc : c.Timed) (h : T.stateAfter c pindexPrev = .defined) :
    IsRunStart (T.stateAt c pindexPrev) (T.nextHeight pindexPrev) 0 where
  le := zero_le _
  same := by
    intro k _ hk
    cases pindexPrev with
    | none => simp only [stateAt, if_neg hc.1, if_neg hc.2]
    | some p =>
      unfold stateAfter at h
      rw [h]
      rw [stateAt_timed hc] at h ⊢
      exact stateIn_defined (Nat.div_le_div_right hk) h
  before := by
    intro k hk
    omega

theorem getStateSinceHeightFor_eq (hvalid : T.Valid pindexPrev) (hsound : T.CacheSound c cache) :
    ∃ (first : ℕ) (cache' : ThresholdConditionCache),
      getStateSinceHeightFor c T.heap pindexPrev cache = .ok ((first : ℤ), cache') ∧
      T.CacheSound c cache' ∧
      IsRunStart (T.stateAt c pindexPrev) (T.nextHeight pindexPrev) first := by
  by_cases hspecial : c.nTimeStart = alwaysActive ∨
      c.nTimeStart = neverActive
  · refine ⟨0, cache, ?_, hsound, zero_le _, ?_, fun k hk => by omega⟩
    · simp only [getStateSinceHeightFor, if_pos hspecial]
      rfl
    · exact fun k _ _ => stateAt_untimed (fun hc => hspecial.elim hc.1 hc.2) _ _ _ _
  have hc : c.Timed := not_or.mp hspecial
  obtain ⟨cache', hget, hsound'⟩ := getStateFor_eq hvalid hsound
  by_cases hdefined : T.stateAfter c pindexPrev = .defined
  · refine ⟨0, cache', ?_, hsound', isRunStart_defined hc hdefined⟩
    simp only [getStateSinceHeightFor, if_neg hspecial, hget, ok_bind, if_pos hdefined]
    rfl
  cases pindexPrev with
  | none => exact absurd (stateAfter_none hc) hdefined
  | some p =>
    obtain ⟨index, hp⟩ := hvalid p rfl
    obtain ⟨key, hkey, hkeyValid, hkeyEnd, hkeyState⟩ := endOfPeriod_eq hc hvalid
    have hnext := nextHeight_some (T := T) hp
    have hafter := stateAfter_some hc hp
    cases key with
    | none => exact absurd (hkeyState.symm.trans (stateAfter_none hc)) hdefined
    | some last =>
      have hlast : getAncestor T.heap p
          (((index.nHeight + 1) / c.nPeriod * c.nPeriod : ℕ) - 1 : ℤ) = .ok (some last) := by
        have hdiv := div_add_mod' (index.nHeight + 1) c.nPeriod
        have htarget : ((index.nHeight : ℤ) - ((index.nHeight + 1) % c.nPeriod : ℕ)) =
            (((index.nHeight + 1) / c.nPeriod * c.nPeriod : ℕ) - 1 : ℤ) := by omega
        simp only [endOfPeriod, deref_eq hp, ok_bind] at hkey
        rw [← htarget]
        exact hkey
      obtain ⟨lastNode, hlastNode⟩ := hkeyValid last rfl
      rw [nextHeight_some hlastNode, hnext] at hkeyEnd
      have hfuel : (index.nHeight + 1) / c.nPeriod * c.nPeriod < walkFuel T.heap (some last) := by
        simp only [walkFuel, bind_some, hlastNode, map_some, getD_some]
        omega
      obtain ⟨first, n, node, cache'', hloop, hsound'', hfirst, hend, hle, hall, hbefore⟩ :=
        sinceLoop_eq hc hp hdefined (div_mul_le_self _ _) hlast hafter.symm hfuel hsound'
      have hheight : ((node.nHeight : ℤ) + 1) = (((n + 1) * c.nPeriod : ℕ) : ℤ) := by
        rw [← hend]
        push_cast
        rfl
      have hpos := c.period_pos
      refine ⟨(n + 1) * c.nPeriod, cache'', ?_, hsound'', ?_, ?_, ?_⟩
      · simp only [getStateSinceHeightFor, if_neg hspecial, hget, ok_bind, if_neg hdefined,
          derefPtr, hkey, hloop, deref_eq hfirst, hheight]
      · rw [hnext]
        exact (mul_le_mul_right _ hle).trans (div_mul_le_self _ _)
      · intro k hk hk'
        have hlow : n + 1 ≤ k / c.nPeriod := (Nat.le_div_iff_mul_le hpos).mpr hk
        rw [hnext] at hk' ⊢
        rw [stateAt_timed hc, stateAt_timed hc, hall _ hlow (Nat.div_le_div_right hk'), hafter]
      · intro k hk
        have hdiv : k / c.nPeriod = n := by
          have hsucc : (n + 1) * c.nPeriod = n * c.nPeriod + c.nPeriod := Nat.succ_mul _ _
          rw [Nat.div_eq_iff hpos]
          constructor <;> omega
        rw [stateAt_timed hc, stateAt_timed hc, hdiv, hnext, ← hafter]
        exact hbefore

inductive Correct (T : TimedTree) (c : ThresholdConditionChecker) :
    ThresholdQuery → ThresholdAnswer → Prop
  | state (pindexPrev : Option Uint256) :
      Correct T c (.state pindexPrev) (.state (T.stateAfter c pindexPrev))
  | sinceHeight {pindexPrev : Option Uint256} {first : ℕ}
      (h : IsRunStart (T.stateAt c pindexPrev) (T.nextHeight pindexPrev) first) :
      Correct T c (.sinceHeight pindexPrev) (.sinceHeight first)

theorem ask_eq {query : ThresholdQuery} (hvalid : T.Valid query.pindexPrev)
    (hsound : T.CacheSound c cache) :
    ∃ answer cache', query.ask c T.heap cache = .ok (answer, cache') ∧ T.CacheSound c cache' ∧
      T.Correct c query answer := by
  cases query with
  | state pindexPrev =>
    have hvalid : T.Valid pindexPrev := hvalid
    obtain ⟨cache', hget, hsound'⟩ := getStateFor_eq hvalid hsound
    refine ⟨_, cache', ?_, hsound', .state pindexPrev⟩
    simp only [ThresholdQuery.ask, hget, ok_bind]
  | sinceHeight pindexPrev =>
    have hvalid : T.Valid pindexPrev := hvalid
    obtain ⟨first, cache', hget, hsound', hrun⟩ := getStateSinceHeightFor_eq hvalid hsound
    refine ⟨_, cache', ?_, hsound', .sinceHeight hrun⟩
    simp only [ThresholdQuery.ask, hget, ok_bind]

theorem askAll_eq {queries : List ThresholdQuery}
    (hvalid : ∀ query ∈ queries, T.Valid query.pindexPrev) (hsound : T.CacheSound c cache) :
    ∃ answers cache', askAll c T.heap queries cache = .ok (answers, cache') ∧
      T.CacheSound c cache' ∧ List.Forall₂ (T.Correct c) queries answers := by
  induction queries generalizing cache with
  | nil => exact ⟨[], cache, rfl, hsound, .nil⟩
  | cons query queries ih =>
    obtain ⟨answer, cache', hask, hsound', hcorrect⟩ :=
      ask_eq (hvalid query mem_cons_self) hsound
    obtain ⟨answers, cache'', hrest, hsound'', hall⟩ :=
      ih (fun q hq => hvalid q (mem_cons_of_mem _ hq)) hsound'
    refine ⟨answer :: answers, cache'', ?_, hsound'', .cons hcorrect hall⟩
    simp only [askAll, hask, hrest, ok_bind]

theorem isLinked (T : TimedTree) : Linked T.heap := T.linked

def AtOrAbove (T : TimedTree) (pindexPrev : Option Uint256) (p : Uint256) : Prop :=
  ∀ q, pindexPrev = some q → T.isLinked.forest.Above q p

theorem stateAfter_eq_stateAt (hp : T.heap p = some index) (h : T.AtOrAbove pindexPrev p) :
    T.stateAfter c pindexPrev = T.stateAt c (some p) (T.nextHeight pindexPrev) := by
  by_cases hc : c.Timed
  swap
  · exact stateAt_untimed hc _ _ _ _
  rw [stateAt_timed hc]
  cases pindexPrev with
  | none =>
    rw [stateAfter_none hc, nextHeight, Nat.zero_div]
    rfl
  | some q =>
    have habove := h q rfl
    obtain ⟨node, hq⟩ := T.linked.forest_mem.mp
      (T.linked.forest.above_mem (T.linked.mem_of_eq hp) habove).1
    rw [stateAfter_some hc hq, nextHeight_some hq]
    apply stateIn_above hp habove
    rw [T.linked.forest_height hq]
    exact div_mul_le_self _ _

theorem nextHeight_le (hp : T.heap p = some index) (h : T.AtOrAbove pindexPrev p) :
    T.nextHeight pindexPrev ≤ T.nextHeight (some p) := by
  cases pindexPrev with
  | none => exact zero_le _
  | some q => exact succ_le_succ (T.linked.forest.above_mem (T.linked.mem_of_eq hp) (h q rfl)).2

theorem stateAfter_moves (hp : T.heap p = some index) :
    (T.stateAfter c index.pprev).Moves (T.stateAfter c (some p)) := by
  have hparent : T.AtOrAbove index.pprev p := fun q hq =>
    T.linked.forest.above_parent (by rw [T.linked.forest_parent hp, hq])
  have hheight : T.nextHeight index.pprev = index.nHeight := by
    cases hq : index.pprev with
    | none => exact (T.linked.root hp hq).symm
    | some q =>
      obtain ⟨prev, hprev, hh⟩ := T.linked.parent hp hq
      rw [nextHeight_some hprev, hh]
  rw [stateAfter_eq_stateAt hp hparent, hheight, stateAfter, nextHeight_some hp]
  by_cases hc : c.Timed
  · rw [stateAt_timed hc, stateAt_timed hc]
    rcases lt_or_ge (index.nHeight / c.nPeriod) ((index.nHeight + 1) / c.nPeriod) with hlt | hge
    · have hstep : (index.nHeight + 1) / c.nPeriod = index.nHeight / c.nPeriod + 1 := by
        have hdiv : (index.nHeight + 1) / c.nPeriod = index.nHeight / c.nPeriod +
            if c.nPeriod ∣ index.nHeight + 1 then 1 else 0 := Nat.succ_div
        split_ifs at hdiv <;> omega
      rw [hstep]
      exact stateIn_moves _ _
    · have hle : index.nHeight / c.nPeriod ≤ (index.nHeight + 1) / c.nPeriod :=
        Nat.div_le_div_right (Nat.le_succ _)
      rw [Nat.le_antisymm hge hle]
      exact .stay _
  · rw [stateAt_untimed hc (some p) (some p) index.nHeight (index.nHeight + 1)]
    exact .stay _

end TimedTree

/-- The answers of a shared cache are those of each branch alone. The state is constant within a
period, only moves forward, and is active only from the activation height on, unless the deployment
is always active. -/
theorem thresholdStates_sound (T : TimedTree) (c : ThresholdConditionChecker)
    (queries : List ThresholdQuery) (hvalid : ∀ query ∈ queries, T.Valid query.pindexPrev) :
    (∃ answers cache, askAll c T.heap queries ∅ = .ok (answers, cache) ∧
      List.Forall₂ (T.Correct c) queries answers) ∧
    ∀ p index, T.heap p = some index →
      (∀ q, T.AtOrAbove q p →
        T.stateAfter c q = T.stateAt c (some p) (T.nextHeight q)) ∧
      (∀ q, T.AtOrAbove q p →
        T.nextHeight q / c.nPeriod = T.nextHeight (some p) / c.nPeriod →
        T.stateAfter c q = T.stateAfter c (some p)) ∧
      (T.stateAfter c index.pprev).Moves (T.stateAfter c (some p)) ∧
      (∀ q, T.AtOrAbove q p → T.stateAfter c q = .active ∨ T.stateAfter c q = .failed →
        T.stateAfter c (some p) = T.stateAfter c q) ∧
      (c.nTimeStart ≠ alwaysActive → T.stateAfter c (some p) = .active →
        c.minActivationHeight ≤ T.nextHeight (some p)) := by
  have hempty : T.CacheSound c ∅ := by
    intro key state h
    rw [lookup_empty] at h
    cases h
  obtain ⟨answers, cache, hrun, -, hall⟩ := T.askAll_eq hvalid hempty
  refine ⟨⟨answers, cache, hrun, hall⟩, ?_⟩
  intro p index hp
  have hself : T.AtOrAbove (some p) p := by
    rintro q ⟨⟩
    exact T.linked.forest.above_refl p
  refine ⟨fun q hq => stateAfter_eq_stateAt hp hq, ?_, stateAfter_moves hp,
    ?_, ?_⟩
  · intro q hq hperiod
    rw [stateAfter_eq_stateAt hp hq, stateAfter]
    simp only [stateAt, hperiod]
  · intro q hq hfinal
    have hle := nextHeight_le hp hq
    have hhere := stateAfter_eq_stateAt (c := c) hp hself
    rw [stateAfter_eq_stateAt hp hq] at hfinal ⊢
    rw [hhere]
    by_cases hc : c.Timed
    · simp only [stateAt_timed hc] at hfinal ⊢
      exact stateIn_final hfinal (Nat.div_le_div_right hle) rfl
    · exact stateAt_untimed hc _ _ _ _
  · intro halways hactive
    by_cases hnever : c.nTimeStart = neverActive
    · simp only [stateAfter, stateAt, if_neg halways, if_pos hnever] at hactive
      cases hactive
    · rw [stateAfter, stateAt_timed ⟨halways, hnever⟩] at hactive
      have hmin := minActivationHeight_le hactive
      have hfloor := div_mul_le_self (T.nextHeight (some p)) c.nPeriod
      omega

def TimedTree.root (p : Uint256) (block : CBlockHeader) : TimedTree where
  toBlockTree := .root p block 0
  later := by
    intro q index r hq hr
    obtain ⟨-, rfl⟩ := rootHeap_eq_some.mp hq
    cases hr

/-- Two blocks over one parent. -/
def forkNode (p : Uint256) : IndexNode :=
  { rootNode p Network.main.genesis 0 with
    pprev := some 7
    pskip := some 7
    nHeight := 1
    nTime := Network.main.genesis.nTime + 1 }

def forkHeap : Heap := fun p =>
  if p = 7 then some (rootNode 7 Network.main.genesis 0)
  else if p = 8 ∨ p = 9 then some (forkNode p) else none

theorem forkHeap_eq_some {p : Uint256} {index : IndexNode} (h : forkHeap p = some index) :
    p = 7 ∧ index = rootNode 7 Network.main.genesis 0 ∨ (p = 8 ∨ p = 9) ∧ index = forkNode p := by
  unfold forkHeap at h
  split_ifs at h with hroot hfork
  · exact .inl ⟨hroot, (Option.some.inj h).symm⟩
  · exact .inr ⟨hfork, (Option.some.inj h).symm⟩

def TimedTree.fork : TimedTree where
  heap := forkHeap
  linked :=
    { parent := by
        intro p index q hp hq
        rcases forkHeap_eq_some hp with ⟨rfl, rfl⟩ | ⟨-, rfl⟩
        · cases hq
        · cases hq
          exact ⟨_, rfl, rfl⟩
      root := by
        intro p index hp hq
        rcases forkHeap_eq_some hp with ⟨rfl, rfl⟩ | ⟨-, rfl⟩
        · rfl
        · cases hq
      skip := by
        intro p index q hp hq
        rcases forkHeap_eq_some hp with ⟨rfl, rfl⟩ | ⟨-, rfl⟩
        · cases hq
        · cases hq
          rfl
      lastAlgo := by
        intro p index hp algo ha
        rcases forkHeap_eq_some hp with ⟨rfl, rfl⟩ | ⟨rfl | rfl, rfl⟩ <;> cases algo <;> rfl }
  later := by
    intro p index q hp hq
    have hlater : ∃ t, getMedianTimePast forkHeap 7 = .ok t ∧ t < (forkNode 8).nTime.toNat :=
      ⟨_, rfl, by decide⟩
    rcases forkHeap_eq_some hp with ⟨rfl, rfl⟩ | ⟨-, rfl⟩
    · cases hq
    · cases hq
      exact hlater

/-- Questions about the null pointer and the two branches of a tree. -/
theorem thresholdStates_sound_fork :
    let c := versionBitsConditionChecker ⟨1, by decide⟩ 1 ⟨27, 1199145601, 1230767999, 0⟩
    let queries := [.state (some 8), .state none, .sinceHeight (some 9), .state (some 9)]
    ∃ answers cache, askAll c fork.heap queries ∅ = .ok (answers, cache) ∧
      List.Forall₂ (fork.Correct c) queries answers := by
  intro c queries
  refine (thresholdStates_sound fork c _ ?_).1
  have hnull : fork.Valid none := by
    rintro p ⟨⟩
  have hleft : fork.Valid (some 8) := by
    rintro p ⟨⟩
    exact ⟨_, rfl⟩
  have hright : fork.Valid (some 9) := by
    rintro p ⟨⟩
    exact ⟨_, rfl⟩
  intro query hquery
  simp only [queries, mem_cons, not_mem_nil, or_false] at hquery
  rcases hquery with rfl | rfl | rfl | rfl
  · exact hleft
  · exact hnull
  · exact hright
  · exact hright

/-- An always active deployment is active at genesis, below its height. -/
theorem getStateFor_alwaysActive :
    let c := versionBitsConditionChecker ⟨240, by decide⟩ 168 ⟨27, -1, 1230767999, 100⟩
    getStateFor c (root 7 Network.main.genesis).heap none ∅ = .ok (.active, ∅) ∧
      ((root 7 Network.main.genesis).nextHeight none : ℤ) < c.minActivationHeight :=
  ⟨rfl, by decide⟩

end Vexta
