import Mathlib.Data.List.Basic

/-! Postconditions of fallible programs, for their values and for their errors. -/
namespace Lib
universe u v
variable {ε : Type u} {α β σ : Type v}

/-- Returned values satisfy `Q` and errors satisfy `E`. -/
structure Sat (E : ε → Prop) (Q : α → Prop) (x : Except ε α) : Prop where
  value : ∀ a, x = .ok a → Q a
  error : ∀ e, x = .error e → E e

namespace Sat
variable {E : ε → Prop} {Q Q' : α → Prop} {x : Except ε α}

@[simp] theorem ok_iff {a : α} : Sat E Q (.ok a) ↔ Q a := by
  constructor
  · exact fun h => h.value a rfl
  · exact fun h => ⟨fun b hb => Except.ok.inj hb ▸ h, fun e he => by cases he⟩

@[simp] theorem error_iff {e : ε} : Sat E Q (.error e) ↔ E e := by
  constructor
  · exact fun h => h.error e rfl
  · exact fun h => ⟨fun b hb => (by cases hb), fun e' he => Except.error.inj he ▸ h⟩

instance [DecidablePred E] [DecidablePred Q] : Decidable (Sat E Q x) :=
  match x with
  | .ok _ => decidable_of_iff _ ok_iff.symm
  | .error _ => decidable_of_iff _ error_iff.symm

theorem mono (h : Sat E Q x) (hQ : ∀ a, Q a → Q' a) : Sat E Q' x := by
  cases x with
  | ok a => exact ok_iff.mpr (hQ a (ok_iff.mp h))
  | error e => exact error_iff.mpr (error_iff.mp h)

variable {P : β → Prop}

theorem bind {f : α → Except ε β} (h : Sat E Q x) (hf : ∀ a, Q a → Sat E P (f a)) :
    Sat E P (x >>= f) := by
  cases x with
  | ok a => exact hf a (ok_iff.mp h)
  | error e => exact error_iff.mpr (error_iff.mp h)

theorem bind_eq {f : α → Except ε β} (h : Sat E Q x)
    (hf : ∀ a, x = .ok a → Sat E P (f a)) : Sat E P (x >>= f) := by
  cases x with
  | ok a => exact hf a rfl
  | error e => exact error_iff.mpr (error_iff.mp h)

theorem ite {c : Prop} [Decidable c] {y : Except ε α} (hx : c → Sat E Q x) (hy : ¬ c → Sat E Q y) :
    Sat E Q (if c then x else y) := by
  by_cases hc : c
  · rw [if_pos hc]
    exact hx hc
  · rw [if_neg hc]
    exact hy hc

theorem guard {c : Prop} [Decidable c] {e : ε} (he : E e) (hx : ¬ c → Sat E Q x) :
    Sat E Q (if c then .error e else x) := ite (fun _ => error_iff.mpr he) hx

theorem map {f : α → β} (h : Sat E Q x) (hf : ∀ a, Q a → P (f a)) :
    Sat E P (f <$> x) := by
  cases x with
  | ok a => exact ok_iff.mpr (hf a (ok_iff.mp h))
  | error e => exact error_iff.mpr (error_iff.mp h)

theorem foldlM {I : σ → Prop} {f : σ → α → Except ε σ} {l : List α}
    (hf : ∀ s, ∀ a ∈ l, I s → Sat E I (f s a)) {s : σ} (h : I s) : Sat E I (l.foldlM f s) := by
  induction l generalizing s with
  | nil => exact ok_iff.mpr h
  | cons a l ih =>
    rw [List.foldlM_cons]
    have hhead := hf s a List.mem_cons_self h
    exact hhead.bind fun t ht => ih (fun s b hb => hf s b (List.mem_cons_of_mem a hb)) ht

theorem exists_ok (h : Sat (fun _ => False) Q x) : ∃ a, x = .ok a ∧ Q a := by
  cases x with
  | ok a => exact ⟨a, rfl, ok_iff.mp h⟩
  | error e => exact absurd (error_iff.mp h) not_false

end Sat
end Lib
