import Mathlib.Data.List.Sort
import Mathlib.Order.Basic

/-! The upper median of a list. -/
namespace Lib
open List
variable {α : Type*} [LinearOrder α]

/-- The element of rank `length / 2`, or a default for the empty list. -/
def median (default : α) (l : List α) : α :=
  let sorted := l.insertionSort (· ≤ ·)
  sorted.getD (sorted.length / 2) default

theorem le_getElem_iff_countP {l : List α} (hl : l.Pairwise (· ≤ ·)) {k : ℕ} (hk : k < l.length)
    (x : α) : x ≤ l[k] ↔ l.countP (· < x) ≤ k := by
  induction l generalizing k with
  | nil => simp at hk
  | cons a l ih =>
    obtain ⟨ha, hl⟩ := pairwise_cons.mp hl
    by_cases hax : a < x
    · cases k with
      | zero => simp [hax]
      | succ k =>
        have hk : k < l.length := by simpa using hk
        simpa [hax] using ih hl hk
    · -- the head is not below `x`, so nothing is
      have hnone : ∀ b ∈ a :: l, ¬ b < x := by
        intro b hb
        rcases mem_cons.mp hb with rfl | hb
        · exact hax
        · exact not_lt.mpr ((not_lt.mp hax).trans (ha b hb))
      have hcount : (a :: l).countP (· < x) = 0 := by
        rw [countP_eq_zero]
        intro b hb
        simpa using hnone b hb
      have hle := not_lt.mp (hnone _ (getElem_mem hk))
      simp [hcount, hle]

theorem le_median_iff {default : α} {l : List α} (hl : l ≠ []) (x : α) :
    x ≤ median default l ↔ l.countP (· < x) ≤ l.length / 2 := by
  have hpos := length_pos_of_ne_nil hl
  have hlen : (l.insertionSort (· ≤ ·)).length = l.length := length_insertionSort _ _
  have hk : (l.insertionSort (· ≤ ·)).length / 2 < (l.insertionSort (· ≤ ·)).length := by omega
  have hcount : (l.insertionSort (· ≤ ·)).countP (· < x) = l.countP (· < x) :=
    (perm_insertionSort _ _).countP_eq _
  have hsorted := le_getElem_iff_countP (pairwise_insertionSort (· ≤ ·) l) hk x
  have hget : median default l =
      (l.insertionSort (· ≤ ·))[(l.insertionSort (· ≤ ·)).length / 2] := by
    unfold median
    rw [getD_eq_getElem?_getD, List.getElem?_eq_getElem hk, Option.getD_some]
  rw [hget, hsorted, hcount, hlen]

/-- A window that takes in a value above its median keeps or raises the median. -/
theorem median_le_median_cons {default : α} {l : List α} (hl : l ≠ []) {n : ℕ}
    (hn : l.length ≤ n + 1) {x : α} (hx : median default l < x) :
    median default l ≤ median default (x :: l.take n) := by
  have hself := (le_median_iff hl (median default l)).mp le_rfl
  have htake : (l.take n).countP (· < median default l) ≤ l.countP (· < median default l) :=
    (take_sublist n l).countP_le
  have hlen : (l.take n).length = min n l.length := length_take
  rw [le_median_iff (cons_ne_nil _ _), countP_cons, length_cons]
  simp only [decide_eq_true_eq, not_lt.mpr hx.le, if_false]
  omega

end Lib
