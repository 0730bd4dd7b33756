import Mathlib.Data.List.Nodup
import Mathlib.Logic.Function.Basic

/-! Lists of writes to a partial map. -/
namespace Lib
open List Function
variable {α β : Type} [DecidableEq α]

/-- Keys with the value each gets; `none` removes it. -/
abbrev Writes (α β : Type) := List (α × Option β)

namespace Writes

def apply (m : α → Option β) (ws : Writes α β) : α → Option β :=
  ws.foldl (fun m w => Function.update m w.1 w.2) m

variable {m m' : α → Option β} {ws vs : Writes α β} {k : α} {v : Option β}

@[simp] theorem apply_nil : apply m ([] : Writes α β) = m := rfl

@[simp] theorem apply_cons (w : α × Option β) :
    apply m (w :: ws) = apply (Function.update m w.1 w.2) ws := rfl

theorem apply_append : apply m (ws ++ vs) = apply (apply m ws) vs := by
  unfold apply
  exact foldl_append

theorem apply_of_not_mem (h : k ∉ ws.map Prod.fst) : apply m ws k = m k := by
  induction ws generalizing m with
  | nil => rfl
  | cons w ws ih =>
    rw [map_cons, mem_cons, not_or] at h
    rw [apply_cons, ih h.2, update_of_ne h.1]

theorem apply_of_const (hmem : k ∈ ws.map Prod.fst) (h : ∀ w ∈ ws, w.1 = k → w.2 = v) :
    apply m ws k = v := by
  induction ws generalizing m with
  | nil => cases hmem
  | cons w ws ih =>
    rw [apply_cons]
    by_cases hlater : k ∈ ws.map Prod.fst
    · exact ih hlater fun w hw => h w (mem_cons_of_mem _ hw)
    · have hkey : k = w.1 := (mem_cons.mp hmem).resolve_right hlater
      rw [apply_of_not_mem hlater, hkey, update_self]
      exact h w mem_cons_self hkey.symm

theorem apply_of_mem (hnodup : (ws.map Prod.fst).Nodup) (h : (k, v) ∈ ws) : apply m ws k = v := by
  refine apply_of_const (mem_map_of_mem h) ?_
  rintro ⟨k', v'⟩ hmem rfl
  exact congrArg Prod.snd (inj_on_of_nodup_map hnodup hmem h rfl)

theorem apply_congr (h : ∀ k ∉ ws.map Prod.fst, m k = m' k) : apply m ws = apply m' ws := by
  induction ws generalizing m m' with
  | nil => exact funext fun k => h k not_mem_nil
  | cons w ws ih =>
    rw [apply_cons, apply_cons]
    refine ih fun k hk => ?_
    by_cases hkey : k = w.1
    · rw [hkey, update_self, update_self]
    · rw [update_of_ne hkey, update_of_ne hkey]
      exact h k (by simp [hkey, hk])

variable {σ ε γ : Type} {get : σ → α → Option β}

/-- From every state `f` goes to one whose map has the writes applied. -/
def Does (get : σ → α → Option β) (f : σ → Except ε σ) (ws : Writes α β) : Prop :=
  ∀ s, ∃ s', f s = .ok s' ∧ get s' = apply (get s) ws

theorem Does.foldlM {step : σ → γ → Except ε σ} {W : γ → Writes α β} {l : List γ}
    (h : ∀ a ∈ l, Does get (step · a) (W a)) : Does get (l.foldlM step ·) (l.flatMap W) := by
  induction l with
  | nil => exact fun s => ⟨s, rfl, rfl⟩
  | cons a l ih =>
    rw [forall_mem_cons] at h
    intro s
    obtain ⟨middle, hmiddle, hget⟩ := h.1 s
    obtain ⟨s', hs', hget'⟩ := ih h.2 middle
    refine ⟨s', ?_, ?_⟩
    · dsimp only at hmiddle ⊢
      rw [foldlM_cons, hmiddle]
      exact hs'
    · rw [flatMap_cons, apply_append, hget', hget]

end Writes
end Lib
