import Vexta.Lib.Approx
import Vexta.Lib.Assoc
import Mathlib.Algebra.BigOperators.Group.List.Basic
import Mathlib.Tactic.Ring

/-! Sums: of what a run of fallible steps adds up, and of the entries of a map. -/
namespace Lib
open List
universe u
variable {ε : Type u} {α β : Type}

theorem foldlM_sum {f : ℤ → α → Except ε ℤ} (value : α → ℤ) (Q : α → Prop) (R : ℤ → Prop)
    (step : ∀ s a t, f s a = .ok t → t = s + value a ∧ Q a ∧ R t) {l : List α} {s t : ℤ}
    (h : l.foldlM f s = .ok t) :
    t = s + (l.map value).sum ∧ (∀ a ∈ l, Q a) ∧ (R s → R t) := by
  induction l generalizing s with
  | nil =>
    cases h
    simp
  | cons a l ih =>
    rw [foldlM_cons, bind_eq_ok] at h
    obtain ⟨r, hr, h⟩ := h
    obtain ⟨hsum, ha, hrange⟩ := step s a r hr
    obtain ⟨htotal, hall, hend⟩ := ih h
    refine ⟨?_, forall_mem_cons.mpr ⟨ha, hall⟩, fun _ => hend hrange⟩
    rw [htotal, hsum, map_cons, sum_cons]
    ring

namespace Assoc
variable {weight : α → β → ℤ}

def total (weight : α → β → ℤ) (m : Assoc α β) : ℤ := (m.entries.map fun e => weight e.1 e.2).sum

variable [DecidableEq α]

def weightAt (weight : α → β → ℤ) (m : Assoc α β) (k : α) : ℤ := ((m.lookup k).map (weight k)).getD 0

private theorem sum_kerase {l : List (Sigma fun _ : α => β)} (hnodup : l.NodupKeys) (k : α) :
    ((l.kerase k).map fun e => weight e.1 e.2).sum =
      (l.map fun e => weight e.1 e.2).sum - ((l.dlookup k).map (weight k)).getD 0 := by
  induction l with
  | nil => simp
  | cons e l ih =>
    obtain ⟨a, b⟩ := e
    rw [nodupKeys_cons] at hnodup
    by_cases hk : k = a
    · have herase : List.kerase k (⟨a, b⟩ :: l) = l := kerase_cons_eq hk
      subst hk
      rw [herase, dlookup_cons_eq]
      simp
    · have herase : List.kerase k (⟨a, b⟩ :: l) = ⟨a, b⟩ :: l.kerase k := kerase_cons_ne hk
      have hlookup : List.dlookup k (⟨a, b⟩ :: l) = l.dlookup k := dlookup_cons_ne _ _ hk
      rw [herase, hlookup, map_cons, sum_cons, ih hnodup.2, map_cons,
        sum_cons]
      ring

variable (m : Assoc α β)

theorem total_erase (k : α) :
    total weight (m.erase k) = total weight m - weightAt weight m k := sum_kerase m.nodupKeys k

theorem total_insert (k : α) (v : β) :
    total weight (m.insert k v) = total weight m - weightAt weight m k + weight k v := by
  unfold total
  rw [AList.entries_insert, map_cons, sum_cons, sum_kerase m.nodupKeys k, weightAt,
    AList.lookup]
  ring

theorem total_insert_le (k : α) (v : β) (h : 0 ≤ weightAt weight m k) :
    total weight (m.insert k v) ≤ total weight m + weight k v := by
  rw [total_insert]
  omega

end Assoc
end Lib
