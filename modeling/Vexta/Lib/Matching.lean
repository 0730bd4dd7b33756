import Mathlib.Data.List.NodupEquivFin
import Mathlib.Data.List.Forall2

/-! Order-preserving assignments of one list to related elements of another. -/
namespace Lib
open List
variable {α β : Type} {R : α → β → Prop} {a : α} {b : β} {l : List α} {m : List β}

/-- Every element of `l` has a partner in `m`, in the same order. -/
def Assigns (R : α → β → Prop) (l : List α) (m : List β) : Prop :=
  ∃ f : Fin l.length → Fin m.length, StrictMono f ∧ ∀ i, R (l.get i) (m.get (f i))

theorem assigns_iff_sublistForall₂ : Assigns R l m ↔ List.SublistForall₂ R l m := by
  rw [sublistForall₂_iff]
  constructor
  · intro ⟨f, hmono, hR⟩
    have hlength : (List.ofFn fun i => m.get (f i)).length = l.length := length_ofFn
    refine ⟨List.ofFn fun i => m.get (f i), ?_, ?_⟩
    · rw [forall₂_iff_get]
      refine ⟨hlength.symm, fun i hi hi' => ?_⟩
      simpa using hR ⟨i, hi⟩
    · rw [sublist_iff_exists_fin_orderEmbedding_get_eq]
      have hcast : StrictMono fun i : Fin (List.ofFn fun i => m.get (f i)).length =>
          f (i.cast hlength) := fun i j hij => hmono hij
      refine ⟨OrderEmbedding.ofStrictMono _ hcast, fun i => ?_⟩
      rw [get_ofFn]
      rfl
  · intro ⟨k, hR, hsub⟩
    rw [sublist_iff_exists_fin_orderEmbedding_get_eq] at hsub
    obtain ⟨g, hg⟩ := hsub
    obtain ⟨hlength, hR⟩ := forall₂_iff_get.mp hR
    refine ⟨fun i => g (i.cast hlength), fun i j hij => g.strictMono hij, fun i => ?_⟩
    have hrel := hR i i.isLt (hlength ▸ i.isLt)
    have hpartner := hg (i.cast hlength)
    rw [← hpartner]
    exact hrel

theorem assigns_nil : Assigns R [] m := by
  rw [assigns_iff_sublistForall₂]
  exact List.SublistForall₂.nil

theorem Assigns.length_le (h : Assigns R l m) : l.length ≤ m.length := by
  rw [assigns_iff_sublistForall₂, sublistForall₂_iff] at h
  obtain ⟨k, hR, hsub⟩ := h
  rw [hR.length_eq]
  exact hsub.length_le

theorem assigns_cons_iff :
    Assigns R (a :: l) (b :: m) ↔ R a b ∧ Assigns R l m ∨ Assigns R (a :: l) m := by
  simp only [assigns_iff_sublistForall₂]
  constructor
  · intro h
    cases h with
    | cons hab hrest => exact .inl ⟨hab, hrest⟩
    | cons_right hrest => exact .inr hrest
  · rintro (⟨hab, hrest⟩ | hrest)
    · exact hrest.cons hab
    · exact hrest.cons_right

theorem Assigns.tail (h : Assigns R (a :: l) m) : Assigns R l m := by
  rw [assigns_iff_sublistForall₂] at h ⊢
  induction m with
  | nil => cases h
  | cons b m ih =>
    cases h with
    | cons hab hrest => exact hrest.cons_right
    | cons_right hrest => exact (ih hrest).cons_right

theorem assigns_cons_of_rel (hab : R a b) : Assigns R (a :: l) (b :: m) ↔ Assigns R l m := by
  rw [assigns_cons_iff]
  constructor
  · rintro (⟨-, hrest⟩ | hrest)
    · exact hrest
    · exact hrest.tail
  · exact fun hrest => .inl ⟨hab, hrest⟩

theorem assigns_cons_of_not_rel (hab : ¬ R a b) :
    Assigns R (a :: l) (b :: m) ↔ Assigns R (a :: l) m := by
  rw [assigns_cons_iff]
  constructor
  · rintro (⟨hR, -⟩ | hrest)
    · exact absurd hR hab
    · exact hrest
  · exact .inr

end Lib
