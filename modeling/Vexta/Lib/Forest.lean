import Mathlib.Data.Option.Basic
import Mathlib.Order.Basic
import Mathlib.Tactic.Common

/-! Forests given by a partial parent function and a height. -/
namespace Lib
variable {α : Type*}

def up (parent : α → Option α) : ℕ → α → Option α
  | 0, a => some a
  | n + 1, a => (parent a).bind (up parent n)

theorem up_add (parent : α → Option α) (m n : ℕ) (a : α) :
    up parent (m + n) a = (up parent m a).bind (up parent n) := by
  induction m generalizing a with
  | zero => simp [up]
  | succ m ih =>
    rw [Nat.succ_add]
    cases hp : parent a with
    | none => simp [up, hp]
    | some b => simpa [up, hp] using ih b

/-- Nodes closed under `parent`; the height counts the steps to a root. -/
structure Forest (α : Type*) where
  Mem : α → Prop
  parent : α → Option α
  height : α → ℕ
  parent_mem : ∀ {a b}, Mem a → parent a = some b → Mem b
  height_parent : ∀ {a b}, Mem a → parent a = some b → height a = height b + 1
  height_root : ∀ {a}, Mem a → parent a = none → height a = 0

namespace Forest
variable (F : Forest α) {a b c : α}

def Above (b a : α) : Prop := ∃ n, up F.parent n a = some b

theorem above_refl (a : α) : F.Above a a := ⟨0, rfl⟩

theorem above_parent (h : F.parent a = some b) : F.Above b a := ⟨1, by simp [up, h]⟩

theorem above_trans (h₁ : F.Above c b) (h₂ : F.Above b a) : F.Above c a := by
  obtain ⟨m, hm⟩ := h₁
  obtain ⟨n, hn⟩ := h₂
  refine ⟨n + m, ?_⟩
  rw [up_add, hn]
  exact hm

theorem exists_up (ha : F.Mem a) {n : ℕ} (hn : n ≤ F.height a) :
    ∃ b, up F.parent n a = some b ∧ F.Mem b ∧ F.height b + n = F.height a := by
  induction n generalizing a with
  | zero => exact ⟨a, rfl, ha, rfl⟩
  | succ n ih =>
    cases hp : F.parent a with
    | none =>
      have h0 := F.height_root ha hp
      omega
    | some c =>
      have hc := F.height_parent ha hp
      obtain ⟨b, hb, hmem, hh⟩ := ih (F.parent_mem ha hp) (by omega)
      exact ⟨b, by simpa [up, hp] using hb, hmem, by omega⟩

theorem above_mem (ha : F.Mem a) (h : F.Above b a) : F.Mem b ∧ F.height b ≤ F.height a := by
  obtain ⟨n, hn⟩ := h
  induction n generalizing a with
  | zero =>
    cases hn
    exact ⟨ha, Nat.le_refl _⟩
  | succ n ih =>
    cases hp : F.parent a with
    | none => simp [up, hp] at hn
    | some c =>
      have hc := F.height_parent ha hp
      obtain ⟨hb, hle⟩ := ih (F.parent_mem ha hp) (by simpa [up, hp] using hn)
      exact ⟨hb, by omega⟩

@[elab_as_elim]
theorem induction {P : α → Prop} (root : ∀ a, F.Mem a → F.parent a = none → P a)
    (child : ∀ a b, F.Mem a → F.parent a = some b → P b → P a) (ha : F.Mem a) : P a := by
  obtain ⟨n, hn⟩ : ∃ n, n = F.height a := ⟨_, rfl⟩
  induction n generalizing a with
  | zero =>
    refine root a ha ?_
    cases hp : F.parent a with
    | none => rfl
    | some b =>
      have := F.height_parent ha hp
      omega
  | succ n ih =>
    cases hp : F.parent a with
    | none => exact root a ha hp
    | some b =>
      have := F.height_parent ha hp
      exact child a b ha hp (ih (F.parent_mem ha hp) (by omega))

def ancestorAt (k : ℕ) (a : α) : Option α :=
  if k ≤ F.height a then up F.parent (F.height a - k) a else none

theorem ancestorAt_self (a : α) : F.ancestorAt (F.height a) a = some a := by
  simp [ancestorAt, up]

theorem exists_ancestorAt (ha : F.Mem a) {k : ℕ} (hk : k ≤ F.height a) :
    ∃ b, F.ancestorAt k a = some b ∧ F.Mem b ∧ F.height b = k := by
  obtain ⟨b, hb, hmem, hh⟩ := F.exists_up ha (n := F.height a - k) (by omega)
  exact ⟨b, by rw [ancestorAt, if_pos hk, hb], hmem, by omega⟩

theorem height_ancestorAt (ha : F.Mem a) {k : ℕ} (h : F.ancestorAt k a = some b) :
    k ≤ F.height a ∧ F.height b = k := by
  have hk : k ≤ F.height a := by
    by_contra hk
    rw [ancestorAt, if_neg hk] at h
    cases h
  obtain ⟨c, hc, -, hheight⟩ := F.exists_ancestorAt ha hk
  cases hc.symm.trans h
  exact ⟨hk, hheight⟩

theorem ancestorAt_above {k : ℕ} (h : F.ancestorAt k a = some b) : F.Above b a := by
  unfold ancestorAt at h
  split_ifs at h
  exact ⟨_, h⟩

theorem ancestorAt_parent (ha : F.Mem a) (hp : F.parent a = some b) {k : ℕ}
    (hk : k ≤ F.height b) : F.ancestorAt k b = F.ancestorAt k a := by
  have hh := F.height_parent ha hp
  have hs : F.height a - k = (F.height b - k) + 1 := by omega
  rw [ancestorAt, ancestorAt, if_pos hk, if_pos (by omega), hs]
  simp [up, hp]

theorem ancestorAt_above_eq (ha : F.Mem a) (h : F.Above b a) {k : ℕ} (hk : k ≤ F.height b) :
    F.ancestorAt k b = F.ancestorAt k a := by
  obtain ⟨n, hn⟩ := h
  induction n generalizing a with
  | zero => cases hn; rfl
  | succ n ih =>
    cases hp : F.parent a with
    | none => simp [up, hp] at hn
    | some c =>
      have hn' : up F.parent n c = some b := by simpa [up, hp] using hn
      have hle := (F.above_mem (F.parent_mem ha hp) ⟨n, hn'⟩).2
      rw [ih (F.parent_mem ha hp) hn', F.ancestorAt_parent ha hp (by omega)]

theorem above_iff : F.Above c a ↔ c = a ∨ ∃ b, F.parent a = some b ∧ F.Above c b := by
  constructor
  · rintro ⟨n, hn⟩
    cases n with
    | zero => exact .inl (Option.some.inj hn).symm
    | succ n =>
      obtain ⟨b, hb, hn⟩ := Option.bind_eq_some_iff.mp hn
      exact .inr ⟨b, hb, n, hn⟩
  · rintro (rfl | ⟨b, hb, h⟩)
    · exact F.above_refl _
    · exact F.above_trans h (F.above_parent hb)

theorem above_iff_ancestorAt (ha : F.Mem a) :
    F.Above b a ↔ F.ancestorAt (F.height b) a = some b := by
  refine ⟨fun h => ?_, F.ancestorAt_above⟩
  rw [← F.ancestorAt_above_eq ha h (Nat.le_refl _), ancestorAt_self]

/-- The ancestors of `a` with the property are the ancestors of `r`. -/
def Deepest (a : α) (Q : α → Prop) (r : Option α) : Prop :=
  ∀ d, F.Above d a ∧ Q d ↔ ∃ c ∈ r, F.Above d c

section
variable {F} {Q : α → Prop} {r : Option α}

theorem deepest_self (h : ∀ d, F.Above d a → Q d) : F.Deepest a Q (some a) := by
  intro d
  simp only [Option.mem_some_iff, exists_eq_left']
  exact ⟨And.left, fun hd => ⟨hd, h d hd⟩⟩

theorem deepest_root (ha : F.parent a = none) (h : ¬ Q a) : F.Deepest a Q none := by
  intro d
  rw [F.above_iff, ha]
  grind

theorem Deepest.of_parent (ha : F.parent a = some c) (h : ¬ Q a) (hr : F.Deepest c Q r) :
    F.Deepest a Q r := by
  intro d
  rw [← hr d, F.above_iff, ha]
  grind

theorem Deepest.of_ancestorAt {k : ℕ} (ha : F.Mem a) (hc : F.ancestorAt k a = some c)
    (h : ∀ d, Q d → F.height d ≤ k) (hr : F.Deepest c Q r) : F.Deepest a Q r := by
  intro d
  rw [← hr d, and_congr_left_iff]
  intro hd
  have habove := F.ancestorAt_above hc
  rw [F.above_iff_ancestorAt ha, F.above_iff_ancestorAt (F.above_mem ha habove).1,
    F.ancestorAt_above_eq ha habove]
  rw [(F.height_ancestorAt ha hc).2]
  exact h d hd

theorem Deepest.symm (h : F.Deepest a (F.Above · b) r) : F.Deepest b (F.Above · a) r :=
  fun d => and_comm.trans (h d)

end

/-- The way from the root to the tip, by height. -/
def wayTo (tip : Option α) : List (Option α) :=
  (List.range (tip.elim 0 fun a => F.height a + 1)).map fun k => tip.bind (F.ancestorAt k)

theorem join_wayTo (tip : Option α) (k : ℕ) :
    (F.wayTo tip)[k]?.join = tip.bind (F.ancestorAt k) := by
  rw [wayTo, List.getElem?_map]
  cases tip with
  | none => rfl
  | some a =>
    rw [Option.elim_some, Option.bind_some]
    by_cases hk : k < F.height a + 1
    · rw [List.getElem?_range hk]
      rfl
    · rw [List.getElem?_eq_none (by simpa using hk), ancestorAt, if_neg (by omega)]
      rfl

section
variable {tip : Option α} (htip : ∀ a ∈ tip, F.Mem a)
include htip

theorem bind_ancestorAt_iff :
    tip.bind (F.ancestorAt (F.height b)) = some b ↔ ∃ a ∈ tip, F.Above b a := by
  rw [Option.bind_eq_some_iff]
  exact exists_congr fun a => and_congr_right fun ha => (F.above_iff_ancestorAt (htip a ha)).symm

theorem mem_wayTo : some b ∈ F.wayTo tip ↔ ∃ a ∈ tip, F.Above b a := by
  rw [wayTo, List.mem_map]
  constructor
  · rintro ⟨k, -, hk⟩
    obtain ⟨a, ha, hk⟩ := Option.bind_eq_some_iff.mp hk
    exact ⟨a, ha, F.ancestorAt_above hk⟩
  · rintro ⟨a, rfl, h⟩
    have hle := (F.above_mem (htip a rfl) h).2
    exact ⟨_, List.mem_range.mpr (Nat.lt_succ_of_le hle), (F.above_iff_ancestorAt (htip a rfl)).mp h⟩

end

end Forest
end Lib
