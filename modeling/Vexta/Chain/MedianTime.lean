import Vexta.Chain.Linked
import Vexta.Lib.Median

/-! Trees whose headers are later than the median time of their predecessors. -/
namespace Vexta
open Lib

/-- Indices but roots are later than the median time past of their parents. -/
structure TimedTree extends BlockTree where
  later : ∀ {p index q}, heap p = some index → index.pprev = some q →
    ∃ t, getMedianTimePast heap q = .ok t ∧ t < index.nTime.toNat

section Times
variable {H : Heap}

theorem pastTimes_succ {p : Uint256} {index : IndexNode} (hp : H p = some index) (n : ℕ) :
    pastTimes H (n + 1) (some p) = (index.nTime.toNat :: ·) <$> pastTimes H n index.pprev := by
  simp only [pastTimes, Heap.deref_eq hp, ok_bind]
  rfl

theorem pastTimes_take (hH : Linked H) {n : ℕ} {p : Option Uint256}
    (hmem : ∀ q, p = some q → ∃ index, H q = some index) {times : List ℕ}
    (h : pastTimes H (n + 1) p = .ok times) : pastTimes H n p = .ok (times.take n) := by
  induction n generalizing p times with
  | zero => simp [pastTimes]
  | succ n ih =>
    cases p with
    | none =>
      cases h
      rfl
    | some q =>
      obtain ⟨index, hq⟩ := hmem q rfl
      rw [pastTimes_succ hq] at h ⊢
      obtain ⟨rest, hrest, rfl⟩ := map_eq_ok.mp h
      have hparent : ∀ r, index.pprev = some r → ∃ prev, H r = some prev := by
        intro r hr
        obtain ⟨prev, hprev, -⟩ := hH.parent hq hr
        exact ⟨prev, hprev⟩
      rw [ih hparent hrest]
      rfl

theorem length_pastTimes {n : ℕ} {p : Option Uint256} {times : List ℕ}
    (h : pastTimes H n p = .ok times) : times.length ≤ n := by
  induction n generalizing p times with
  | zero =>
    cases h
    exact le_rfl
  | succ n ih =>
    cases p with
    | none =>
      cases h
      simp
    | some q =>
      unfold pastTimes at h
      obtain ⟨index, -, h⟩ := bind_eq_ok.mp h
      obtain ⟨rest, hrest, h⟩ := bind_eq_ok.mp h
      cases h
      have hle := ih hrest
      simpa using hle

theorem getMedianTimePast_eq {p : Uint256} {times : List ℕ}
    (h : pastTimes H nMedianTimeSpan (some p) = .ok times) :
    getMedianTimePast H p = .ok ((median 0 times : ℕ) : ℤ) := by
  unfold getMedianTimePast
  rw [h]
  rfl

end Times

namespace TimedTree
variable (T : TimedTree) {p q : Uint256} {index : IndexNode}

def medianTime (p : Uint256) : ℤ :=
  match getMedianTimePast T.heap p with
  | .ok t => t
  | .error _ => 0

theorem getMedianTimePast_eq_medianTime (hp : T.heap p = some index) :
    getMedianTimePast T.heap p = .ok (T.medianTime p) := by
  obtain ⟨t, ht, -⟩ := T.linked.exists_getMedianTimePast hp
  simp [medianTime, ht]

theorem medianTime_parent_le (hp : T.heap p = some index) (hq : index.pprev = some q) :
    T.medianTime q ≤ T.medianTime p := by
  obtain ⟨prev, hprev, -⟩ := T.linked.parent hp hq
  obtain ⟨times, htimes, -⟩ := T.linked.exists_pastTimes nMedianTimeSpan hprev
  have hmem : ∀ r, some q = some r → ∃ node, T.heap r = some node := by
    rintro r ⟨⟩
    exact ⟨prev, hprev⟩
  have hwindow : pastTimes T.heap nMedianTimeSpan (some p) =
      .ok (index.nTime.toNat :: times.take 10) := by
    have hshort := pastTimes_take T.linked (n := 10) hmem htimes
    change pastTimes T.heap (10 + 1) (some p) = _
    rw [pastTimes_succ hp, hq, hshort]
    rfl
  have hne : times ≠ [] := by
    rintro rfl
    have hcons := pastTimes_succ hprev 10
    change pastTimes T.heap nMedianTimeSpan (some q) = _ at hcons
    rw [htimes] at hcons
    obtain ⟨rest, -, hrest⟩ := map_eq_ok.mp hcons.symm
    cases hrest
  have hold := getMedianTimePast_eq htimes
  have hnew := getMedianTimePast_eq hwindow
  obtain ⟨t, ht, hlt⟩ := T.later hp hq
  cases hold.symm.trans ht
  have hle := median_le_median_cons hne (n := 10) (length_pastTimes htimes)
    (x := index.nTime.toNat) (by exact_mod_cast hlt)
  rw [T.getMedianTimePast_eq_medianTime hprev] at hold
  rw [T.getMedianTimePast_eq_medianTime hp] at hnew
  rw [Except.ok.inj hold, Except.ok.inj hnew]
  exact_mod_cast hle

theorem medianTime_le_of_above (hp : T.heap p = some index)
    (h : T.linked.forest.Above q p) : T.medianTime q ≤ T.medianTime p := by
  obtain ⟨n, hn⟩ := h
  induction n generalizing p index with
  | zero =>
    cases hn
    exact le_rfl
  | succ n ih =>
    rw [up, T.linked.forest_parent hp] at hn
    cases hr : index.pprev with
    | none => simp [hr] at hn
    | some r =>
      obtain ⟨prev, hprev, -⟩ := T.linked.parent hp hr
      rw [hr, Option.bind_some] at hn
      exact (ih hprev hn).trans (T.medianTime_parent_le hp hr)

end TimedTree
end Vexta
