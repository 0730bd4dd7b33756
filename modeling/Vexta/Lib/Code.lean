import Vexta.Lib.Bytes
import Mathlib.Logic.Function.Basic

/-! Codes that can be read off the front of a longer string. -/
namespace Lib
open List
variable {α β γ : Type*}

/-- Equal words with continuations have equal words and continuations. -/
def PrefixFree (code : α → List β) : Prop :=
  ∀ ⦃a b : α⦄ ⦃s t : List β⦄, code a ++ s = code b ++ t → a = b ∧ s = t

namespace PrefixFree

theorem of_length {code : α → List β} (hlen : ∀ a b, (code a).length = (code b).length)
    (hinj : Function.Injective code) : PrefixFree code := by
  intro a b s t h
  obtain ⟨hcode, hrest⟩ := append_inj h (hlen a b)
  exact ⟨hinj hcode, hrest⟩

theorem append {c : α → List γ} {d : β → List γ} (hc : PrefixFree c) (hd : PrefixFree d) :
    PrefixFree fun x : α × β => c x.1 ++ d x.2 := by
  intro a b s t h
  simp only [append_assoc] at h
  obtain ⟨hfst, h⟩ := hc h
  obtain ⟨hsnd, h⟩ := hd h
  exact ⟨Prod.ext hfst hsnd, h⟩

theorem comp {code : β → List γ} (hcode : PrefixFree code) {f : α → β}
    (hf : Function.Injective f) : PrefixFree fun a => code (f a) := by
  intro a b s t h
  obtain ⟨hfab, hst⟩ := hcode h
  exact ⟨hf hfab, hst⟩

theorem flatMap_inj {code : α → List β} (hcode : PrefixFree code) (hne : ∀ a, code a ≠ [])
    {l m : List α} (h : l.flatMap code = m.flatMap code) : l = m := by
  induction l generalizing m with
  | nil =>
    cases m with
    | nil => rfl
    | cons b m =>
      simp only [flatMap_nil, flatMap_cons, nil_eq, append_eq_nil_iff] at h
      exact absurd h.1 (hne b)
  | cons a l ih =>
    cases m with
    | nil =>
      simp only [flatMap_nil, flatMap_cons, append_eq_nil_iff] at h
      exact absurd h.1 (hne a)
    | cons b m =>
      simp only [flatMap_cons] at h
      obtain ⟨hab, h⟩ := hcode h
      rw [hab, ih h]

end PrefixFree

theorem flatMap_append_inj {κ : Type*} {code : α → List β} (key : α → κ) {P : α → Prop}
    (hcode : ∀ {a b : α} {s t : List β}, P a → P b → code a ++ s = code b ++ t →
      key a = key b ∧ s = t)
    {l m : List α} {s t : List β} (hl : ∀ a ∈ l, P a) (hm : ∀ a ∈ m, P a)
    (hlength : l.length = m.length) (h : l.flatMap code ++ s = m.flatMap code ++ t) :
    l.map key = m.map key ∧ s = t := by
  induction l generalizing m with
  | nil =>
    obtain rfl : m = [] := length_eq_zero_iff.mp hlength.symm
    exact ⟨rfl, h⟩
  | cons a l ih =>
    cases m with
    | nil => cases hlength
    | cons b m =>
      simp only [flatMap_cons, append_assoc] at h
      obtain ⟨hkey, h⟩ := hcode (hl a mem_cons_self) (hm b mem_cons_self) h
      obtain ⟨hkeys, hrest⟩ := ih (fun c hc => hl c (mem_cons_of_mem a hc))
        (fun c hc => hm c (mem_cons_of_mem b hc)) (Nat.succ.inj hlength) h
      exact ⟨by rw [map_cons, map_cons, hkey, hkeys], hrest⟩

theorem prefixFree_le {w n : ℕ} (h : 2 ^ w ≤ 256 ^ n) :
    PrefixFree fun x : BitVec w => le n x.toNat := by
  apply PrefixFree.of_length
  · intro a b
    rw [length_le, length_le]
  · intro a b hab
    apply BitVec.eq_of_toNat_eq
    exact le_inj (lt_of_lt_of_le a.isLt h) (lt_of_lt_of_le b.isLt h) hab

end Lib
