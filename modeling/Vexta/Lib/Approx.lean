import Mathlib.Data.List.Basic

/-! The information order on fallible computations. -/
namespace Lib
universe u v
variable {ε : Type u} {α β σ : Type v}

/-- Wherever `x` returns a value, `y` returns the same one. -/
def Approx (x y : Except ε α) : Prop := ∀ a, x = .ok a → y = .ok a

namespace Approx

theorem refl (x : Except ε α) : Approx x x := fun _ h => h

theorem error (e : ε) (y : Except ε α) : Approx (.error e) y := fun _ h => by cases h

variable {x y : Except ε α}

theorem bind {f g : α → Except ε β} (hx : Approx x y)
    (hf : ∀ a, x = .ok a → Approx (f a) (g a)) : Approx (x >>= f) (y >>= g) := by
  intro b hb
  cases hxa : x with
  | error e => rw [hxa] at hb; cases hb
  | ok a =>
    rw [hxa] at hb
    rw [hx a hxa]
    exact hf a hxa b hb

theorem bind_left {f : α → Except ε β} (hx : Approx x y) :
    Approx (x >>= f) (y >>= f) :=
  bind hx fun a _ => refl (f a)

theorem bind_right {x : Except ε α} {f g : α → Except ε β} (hf : ∀ a, Approx (f a) (g a)) :
    Approx (x >>= f) (x >>= g) :=
  bind (refl x) fun a _ => hf a

theorem map (f : α → β) (h : Approx x y) : Approx (f <$> x) (f <$> y) := by
  intro b hb
  cases hxa : x with
  | error e => rw [hxa] at hb; cases hb
  | ok a => rw [hxa] at hb; rw [h a hxa]; exact hb

theorem ite {c : Prop} [Decidable c] {x y x' y' : Except ε α}
    (hx : c → Approx x x') (hy : ¬ c → Approx y y') :
    Approx (if c then x else y) (if c then x' else y') := by
  by_cases hc : c
  · simpa only [hc, if_true] using hx hc
  · simpa only [hc, if_false] using hy hc

theorem guard_left {c : Prop} [Decidable c] {e : ε} {x y : Except ε α}
    (h : ¬ c → Approx x y) : Approx (if c then .error e else x) y := by
  by_cases hc : c
  · simpa only [hc, if_true] using error e y
  · simpa only [hc, if_false] using h hc

theorem leave {c : Prop} [Decidable c] {x y z : Except ε α} (h : ¬ c → Approx x y) :
    Approx (if c then z else x) (if c then z else y) := ite (fun _ => refl z) h

theorem guard {c d : Prop} [Decidable c] [Decidable d] {e e' : ε} {x y : Except ε α}
    (hcd : d → c) (h : ¬ c → Approx x y) :
    Approx (if c then .error e else x) (if d then .error e' else y) := by
  refine guard_left fun hc => ?_
  rw [if_neg fun hd => hc (hcd hd)]
  exact h hc

theorem check {c d : Prop} [Decidable c] [Decidable d] {x : Except ε PUnit} (hcd : d → c) :
    Approx (if c then x else .ok ⟨⟩) (if d then x else .ok ⟨⟩) := by
  by_cases hd : d
  · rw [if_pos hd, if_pos (hcd hd)]
    exact refl x
  · rw [if_neg hd]
    intro a _
    rfl

theorem foldlM {f g : σ → α → Except ε σ} (h : ∀ s a, Approx (f s a) (g s a)) (l : List α)
    (s : σ) : Approx (l.foldlM f s) (l.foldlM g s) := by
  induction l generalizing s with
  | nil => exact refl _
  | cons a l ih =>
    simp only [List.foldlM_cons]
    exact bind (h s a) fun t _ => ih t

end Approx

theorem bind_eq_ok {x : Except ε α} {f : α → Except ε β} {b : β} :
    (x >>= f) = .ok b ↔ ∃ a, x = .ok a ∧ f a = .ok b := by
  cases x with
  | error e => simp [Bind.bind, Except.bind]
  | ok a => simp [Bind.bind, Except.bind]

theorem map_eq_ok {x : Except ε α} {f : α → β} {b : β} :
    (f <$> x) = .ok b ↔ ∃ a, x = .ok a ∧ f a = b := by
  cases x with
  | error e => simp [Functor.map, Except.map]
  | ok a => simp [Functor.map, Except.map]

theorem check_eq_none {c : Prop} [Decidable c] {a : α} {x : Except ε (Option α)} :
    (if c then .ok (some a) else x) = .ok none ↔ ¬ c ∧ x = .ok none := by
  by_cases hc : c
  · simp [hc]
  · simp [hc]

theorem forM_eq_ok {f : α → Except ε PUnit} {l : List α} :
    l.forM f = .ok ⟨⟩ ↔ ∀ a ∈ l, f a = .ok ⟨⟩ := by
  induction l with
  | nil =>
    have hnone : ∀ a ∈ ([] : List α), f a = .ok ⟨⟩ := by simp
    exact ⟨fun _ => hnone, fun _ => rfl⟩
  | cons a l ih =>
    change (f a >>= fun _ => l.forM f) = .ok ⟨⟩ ↔ _
    rw [bind_eq_ok, List.forall_mem_cons]
    constructor
    · rintro ⟨u, ha, hl⟩
      exact ⟨ha, ih.mp hl⟩
    · rintro ⟨ha, hl⟩
      exact ⟨⟨⟩, ha, ih.mpr hl⟩

theorem foldlM_induction {P : σ → Prop} {f : σ → α → Except ε σ} {l : List α} {s t : σ}
    (step : ∀ s a t, a ∈ l → P s → f s a = .ok t → P t) (hs : P s)
    (h : l.foldlM f s = .ok t) : P t := by
  induction l generalizing s with
  | nil =>
    cases h
    exact hs
  | cons a l ih =>
    rw [List.foldlM_cons, bind_eq_ok] at h
    obtain ⟨r, hr, h⟩ := h
    have hmem : a ∈ a :: l := List.mem_cons_self
    exact ih (fun s b t hb => step s b t (List.mem_cons_of_mem a hb)) (step s a r hmem hs hr) h

end Lib
