import Mathlib.Data.List.Basic
import Mathlib.Data.List.Perm.Basic
import Mathlib.Data.List.GetD

/-! Depth-first search over vectors of choices, where the choice to take comes first. -/
namespace Lib
open List
universe u v

/-- The vector begins with the choices of the stack. -/
def Follows : List Bool → List Bool → Prop
  | [], _ => True
  | c :: stack, b => Follows stack b ∧ b[stack.length]? = some c

/-- The vector takes what a choice of the stack leaves out. -/
def Before : List Bool → List Bool → Prop
  | [], _ => False
  | c :: stack, b => Before stack b ∨ (c = false ∧ Follows (true :: stack) b)

section
variable {stack b : List Bool} {n : ℕ} {P : List Bool → Prop}

theorem follows_iff : Follows stack b ↔ stack.reverse <+: b := by
  induction stack with
  | nil => simp [Follows]
  | cons c stack ih =>
    unfold Follows
    rw [ih, reverse_cons]
    constructor
    · rintro ⟨⟨rest, rfl⟩, hget⟩
      rw [List.getElem?_append_right (by simp)] at hget
      simp only [length_reverse, Nat.sub_self] at hget
      cases rest with
      | nil => simp at hget
      | cons d rest =>
        have hd : d = c := by simpa using hget
        subst hd
        exact ⟨rest, by simp⟩
    · rintro ⟨rest, rfl⟩
      have hfront : stack.reverse <+: stack.reverse ++ [c] ++ rest := by
        rw [append_assoc]
        exact prefix_append _ _
      exact ⟨hfront, by simp⟩

theorem Follows.choose (h : Follows stack b) (hlt : stack.length < b.length) :
    Follows (true :: stack) b ∨ Follows (false :: stack) b := by
  have hget := List.getElem?_eq_getElem hlt
  cases hc : b[stack.length] with
  | false => exact .inr ⟨h, hget.trans (congrArg some hc)⟩
  | true => exact .inl ⟨h, hget.trans (congrArg some hc)⟩

/-- Every vector that the search has passed satisfies `P`. -/
def Searched (n : ℕ) (P : List Bool → Prop) (stack : List Bool) : Prop :=
  ∀ b, b.length = n → Before stack b → P b

/-- Moreover the vectors below the stack satisfy `P`. -/
def Closed (n : ℕ) (P : List Bool → Prop) (stack : List Bool) : Prop :=
  Searched n P stack ∧ ∀ b, b.length = n → Follows stack b → P b

theorem Searched.nil : Searched n P [] := fun _ _ h => h.elim

theorem Searched.mono {Q : List Bool → Prop} (h : Searched n P stack) (hPQ : ∀ b, P b → Q b) :
    Searched n Q stack := fun b hlen hbefore => hPQ b (h b hlen hbefore)

theorem Searched.take (h : Searched n P stack) : Searched n P (true :: stack) := by
  intro b hlen hbefore
  rcases hbefore with hbefore | ⟨hc, -⟩
  · exact h b hlen hbefore
  · cases hc

theorem Searched.skip (h : Searched n P stack)
    (hskip : ∀ b, b.length = n → Follows (true :: stack) b → P b) :
    Searched n P (false :: stack) := by
  intro b hlen hbefore
  rcases hbefore with hbefore | ⟨-, hfollows⟩
  · exact h b hlen hbefore
  · exact hskip b hlen hfollows

theorem Closed.flip (h : Closed n P (true :: stack)) : Searched n P (false :: stack) := by
  apply Searched.skip
  · exact fun b hlen hbefore => h.1 b hlen (.inl hbefore)
  · exact h.2

theorem Closed.back (h : Closed n P (false :: stack)) (hlt : stack.length < n) :
    Closed n P stack := by
  constructor
  · exact fun b hlen hbefore => h.1 b hlen (.inl hbefore)
  · intro b hlen hfollows
    rcases hfollows.choose (hlen ▸ hlt) with htrue | hfalse
    · exact h.1 b hlen (.inr ⟨rfl, htrue⟩)
    · exact h.2 b hlen hfalse

theorem Closed.all (h : Closed n P []) (hlen : b.length = n) : P b := h.2 b hlen trivial

end

variable {α : Type u} {κ : Type v}

def picked : List α → List Bool → List α
  | x :: xs, true :: bits => x :: picked xs bits
  | _ :: xs, false :: bits => picked xs bits
  | _, _ => []

section
variable {xs : List α} {bits : List Bool}

@[simp] theorem picked_nil_left : picked ([] : List α) bits = [] := by
  unfold picked
  rfl

@[simp] theorem picked_nil_right : picked xs [] = [] := by
  cases xs with
  | nil => rfl
  | cons x xs => rfl

@[simp] theorem picked_cons_true (x : α) : picked (x :: xs) (true :: bits) = x :: picked xs bits :=
  rfl

@[simp] theorem picked_cons_false (x : α) : picked (x :: xs) (false :: bits) = picked xs bits := rfl

theorem picked_append (more : List Bool) :
    picked xs (bits ++ more) = picked xs bits ++ picked (xs.drop bits.length) more := by
  induction xs generalizing bits with
  | nil => simp
  | cons x xs ih =>
    cases bits with
    | nil => simp
    | cons c bits =>
      cases c with
      | false => simpa using ih
      | true => simpa using ih

theorem picked_sublist : (picked xs bits).Sublist xs := by
  induction xs generalizing bits with
  | nil => simp
  | cons x xs ih =>
    cases bits with
    | nil => simp
    | cons c bits =>
      cases c with
      | false => exact ih.cons x
      | true => exact ih.cons_cons x

theorem picked_replicate_false (k : ℕ) : picked xs (List.replicate k false) = [] := by
  induction k generalizing xs with
  | zero => simp
  | succ k ih =>
    cases xs with
    | nil => simp
    | cons x xs => simpa [replicate_succ] using ih

theorem picked_replicate_true (xs : List α) : picked xs (List.replicate xs.length true) = xs := by
  induction xs with
  | nil => rfl
  | cons x xs ih => simpa [replicate_succ] using ih

theorem exists_picked {ys : List α} (h : ys.Sublist xs) :
    ∃ bits : List Bool, bits.length = xs.length ∧ picked xs bits = ys := by
  induction h with
  | slnil => exact ⟨[], rfl, rfl⟩
  | cons x _ ih =>
    obtain ⟨bits, hlen, hpicked⟩ := ih
    exact ⟨false :: bits, by simp [hlen], by simpa using hpicked⟩
  | cons_cons x _ ih =>
    obtain ⟨bits, hlen, hpicked⟩ := ih
    exact ⟨true :: bits, by simp [hlen], by simp [hpicked]⟩

end

def Canonical (key : α → κ) (xs : List α) (bits : List Bool) : Prop :=
  ∀ i x y, xs[i]? = some x → xs[i + 1]? = some y → key x = key y →
    bits[i]? = some false → bits[i + 1]? ≠ some true

section
variable {key : α → κ} {xs : List α} {bits more : List Bool} {x y : α}

theorem Canonical.nil : Canonical key xs [] := by
  intro i x y _ _ _ _ h
  simp at h

section
variable (h : Canonical key xs bits)
include h

theorem Canonical.of_prefix (hp : more <+: bits) :
    Canonical key xs more := by
  obtain ⟨rest, rfl⟩ := hp
  intro i x y hx hy hkey hfalse htrue
  have hlt : i + 1 < more.length := (List.getElem?_eq_some_iff.mp htrue).1
  apply h i x y hx hy hkey
  · rw [List.getElem?_append_left (by omega)]
    exact hfalse
  · rw [List.getElem?_append_left hlt]
    exact htrue

theorem Canonical.concat_false : Canonical key xs (bits ++ [false]) := by
  intro i x y hx hy hkey hfalse htrue
  have hlt := (List.getElem?_eq_some_iff.mp htrue).1
  rw [length_append, length_singleton] at hlt
  rcases Nat.lt_or_ge (i + 1) bits.length with hlt' | hge
  · rw [List.getElem?_append_left (by omega)] at hfalse htrue
    exact h i x y hx hy hkey hfalse htrue
  · have hend : i + 1 = bits.length := by omega
    rw [hend] at htrue
    simp at htrue

theorem Canonical.append_false (k : ℕ) :
    Canonical key xs (bits ++ List.replicate k false) := by
  induction k with
  | zero => simpa using h
  | succ k ih =>
    rw [replicate_succ', ← append_assoc]
    exact ih.concat_false

theorem Canonical.concat_true
    (hlast : ∀ i x y, i + 1 = bits.length → xs[i]? = some x → xs[i + 1]? = some y → key x = key y →
      bits[i]? ≠ some false) : Canonical key xs (bits ++ [true]) := by
  intro i x y hx hy hkey hfalse htrue
  have hlt := (List.getElem?_eq_some_iff.mp htrue).1
  rw [length_append, length_singleton] at hlt
  have hfalse' : bits[i]? = some false := by
    rw [List.getElem?_append_left (by omega)] at hfalse
    exact hfalse
  rcases Nat.lt_or_ge (i + 1) bits.length with hlt' | hge
  · rw [List.getElem?_append_left hlt'] at htrue
    exact h i x y hx hy hkey hfalse' htrue
  · exact hlast i x y (by omega) hx hy hkey hfalse'

theorem Canonical.cons_true :
    Canonical key (x :: xs) (true :: bits) := by
  intro i y z hy hz hkey hfalse htrue
  cases i with
  | zero => simp at hfalse
  | succ i => exact h i y z hy hz hkey hfalse htrue

theorem Canonical.cons_false
    (hhead : ∀ y, xs[0]? = some y → key x = key y → bits[0]? ≠ some true) :
    Canonical key (x :: xs) (false :: bits) := by
  intro i y z hy hz hkey hfalse htrue
  cases i with
  | zero =>
    have hxy : x = y := by simpa using hy
    subst hxy
    exact hhead z hz hkey htrue
  | succ i => exact h i y z hy hz hkey hfalse htrue

end

theorem exists_canonical_cons (x : α) (hcanon : Canonical key xs bits)
    (hlen : bits.length = xs.length) :
    ∃ new, new.length = xs.length + 1 ∧ Canonical key (x :: xs) new ∧
      (picked (x :: xs) new).map key = (picked xs bits).map key := by
  induction xs generalizing x bits with
  | nil =>
    have hbits : bits = [] := length_eq_zero_iff.mp hlen
    subst hbits
    exact ⟨[false], rfl, Canonical.nil.cons_false (by simp), by simp⟩
  | cons y xs ih =>
    cases bits with
    | nil => cases hlen
    | cons c bits =>
      by_cases hsame : key x = key y ∧ c = true
      · obtain ⟨hkey, rfl⟩ := hsame
        have htail : Canonical key xs bits := fun i u v hu hv => hcanon (i + 1) u v hu hv
        obtain ⟨new, hnew, hcanon', hpicked⟩ := ih y htail (by simpa using hlen)
        refine ⟨true :: new, by simp [hnew], hcanon'.cons_true, ?_⟩
        simp only [picked_cons_true, map_cons]
        rw [hpicked, hkey]
      · refine ⟨false :: c :: bits, by simpa using hlen, hcanon.cons_false ?_, by simp⟩
        intro z hz hkey hc
        have hzy : y = z := by simpa using hz
        exact hsame ⟨hzy ▸ hkey, by simpa using hc⟩

variable (key) in
theorem exists_canonical (hlen : bits.length = xs.length) :
    ∃ new, new.length = xs.length ∧ Canonical key xs new ∧
      (picked xs new).map key = (picked xs bits).map key := by
  induction xs generalizing bits with
  | nil => exact ⟨[], rfl, .nil, by simp⟩
  | cons x xs ih =>
    cases bits with
    | nil => cases hlen
    | cons c bits =>
      have htail : bits.length = xs.length := by simpa using hlen
      obtain ⟨rest, hrest, hcanon, hpicked⟩ := ih htail
      cases c with
      | true => exact ⟨true :: rest, by simp [hrest], hcanon.cons_true, by simp [hpicked]⟩
      | false =>
        obtain ⟨new, hnew, hcanon', hpicked'⟩ := exists_canonical_cons x hcanon hrest
        exact ⟨new, by simp [hnew], hcanon', by rw [hpicked', hpicked, picked_cons_false]⟩

end
end Lib
