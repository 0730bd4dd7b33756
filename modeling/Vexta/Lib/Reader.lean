import Vexta.Lib.Bytes

/-! Readers of byte strings, and which string a reader reads which value from. -/
namespace Lib
open List

/-- The string ended, or has something that is not allowed. -/
inductive ReadFailure
  | endOfData
  | malformed
  deriving DecidableEq, Repr

abbrev Reader (α : Type) := StateT Bytes (Except ReadFailure) α

namespace Reader

def fail {α : Type} : Reader α := fun _ => .error .malformed

def bytes (n : ℕ) : Reader Bytes := fun s =>
  if s.length < n then .error .endOfData else .ok (s.take n, s.drop n)

def number (n : ℕ) : Reader ℕ := do
  let b ← bytes n
  pure (ofLe b)

def many {α : Type} (r : Reader α) : ℕ → Reader (List α)
  | 0 => pure []
  | n + 1 => do
    let a ← r
    let l ← many r n
    pure (a :: l)

def each {α β : Type} (r : α → Reader β) : List α → Reader (List β)
  | [] => pure []
  | a :: l => do
    let b ← r a
    let bs ← each r l
    pure (b :: bs)

end Reader

variable {α β : Type}

/-- Whatever follows the string, the reader takes just the string. -/
def Reads (r : Reader α) (s : Bytes) (a : α) : Prop := ∀ rest, r (s ++ rest) = .ok (a, rest)

namespace Reads

theorem pure (a : α) : Reads (Pure.pure a) [] a := fun _ => rfl

variable {f : α → Reader β} {s : Bytes} {a : α} {b : β} {n : ℕ}

theorem bind {r : Reader α} {t : Bytes} (hr : Reads r s a) (hf : Reads (f a) t b) :
    Reads (r >>= f) (s ++ t) b := by
  intro rest
  change r (s ++ t ++ rest) >>= (fun p => f p.1 p.2) = .ok (b, rest)
  rw [append_assoc, hr]
  exact hf rest

theorem bind_pure {r : Reader α} (hr : Reads r s a) (hf : Reads (f a) [] b) :
    Reads (r >>= f) s b := by
  have h := hr.bind hf
  rwa [append_nil] at h

theorem bytes (h : s.length = n) : Reads (Reader.bytes n) s s := by
  intro rest
  unfold Reader.bytes
  rw [if_neg]
  · rw [take_left' h, drop_left' h]
  · rw [length_append]
    omega

theorem number {x : ℕ} (h : x < 256 ^ n) : Reads (Reader.number n) (le n x) x := by
  apply bind_pure (bytes (length_le n x))
  rw [ofLe_le h]
  exact pure x

theorem many {r : Reader α} {code : α → Bytes} {l : List α} (h : ∀ a ∈ l, Reads r (code a) a) :
    Reads (r.many l.length) (l.flatMap code) l := by
  induction l with
  | nil => exact pure []
  | cons a l ih =>
    rw [flatMap_cons]
    apply bind (h a mem_cons_self)
    exact bind_pure (ih fun b hb => h b (mem_cons_of_mem a hb)) (pure _)

theorem each {γ : Type} {r : α → Reader β} {key : γ → α} {value : γ → β} {code : γ → Bytes}
    {l : List γ} (h : ∀ c ∈ l, Reads (r (key c)) (code c) (value c)) :
    Reads (Reader.each r (l.map key)) (l.flatMap code) (l.map value) := by
  induction l with
  | nil => exact pure []
  | cons c l ih =>
    rw [flatMap_cons]
    apply bind (h c mem_cons_self)
    exact bind_pure (ih fun b hb => h b (mem_cons_of_mem c hb)) (pure _)

theorem ite_neg {c : Prop} [Decidable c] {r r' : Reader α} (hc : ¬ c) (h : Reads r' s a) :
    Reads (if c then r else r') s a := by
  rw [if_neg hc]
  exact h

end Reads

/-- A returned value is related by `P` to the bytes taken off the string. -/
def Takes (r : Reader α) (P : α → Bytes → Prop) : Prop :=
  ∀ s a rest, r s = .ok (a, rest) → ∃ t, s = t ++ rest ∧ P a t

namespace Takes
variable {P : α → Bytes → Prop} {Q : β → Bytes → Prop}

theorem pure {a : α} (h : P a []) : Takes (Pure.pure a) P := by
  intro s b rest heq
  cases heq
  exact ⟨[], rfl, h⟩

theorem mono {P' : α → Bytes → Prop} {r : Reader α} (hr : Takes r P) (h : ∀ a t, P a t → P' a t) :
    Takes r P' := by
  intro s a rest heq
  obtain ⟨t, ht, hP⟩ := hr s a rest heq
  exact ⟨t, ht, h a t hP⟩

theorem fail : Takes Reader.fail P := by
  intro s a rest heq
  cases heq

theorem bind {r : Reader α} {f : α → Reader β} (hr : Takes r P)
    (hf : ∀ a t, P a t → Takes (f a) fun b u => Q b (t ++ u)) : Takes (r >>= f) Q := by
  intro s b rest heq
  change r s >>= (fun p => f p.1 p.2) = .ok (b, rest) at heq
  cases hs : r s with
  | error e =>
    rw [hs] at heq
    cases heq
  | ok p =>
    rw [hs] at heq
    obtain ⟨t, ht, hP⟩ := hr s p.1 p.2 hs
    obtain ⟨u, hu, hQ⟩ := hf p.1 t hP p.2 b rest heq
    exact ⟨t ++ u, by rw [ht, hu, append_assoc], hQ⟩

theorem ite {c : Prop} [Decidable c] {r r' : Reader α} (h : c → Takes r P) (h' : ¬ c → Takes r' P) :
    Takes (if c then r else r') P := by
  split_ifs with hc
  · exact h hc
  · exact h' hc

theorem bytes (n : ℕ) : Takes (Reader.bytes n) fun b t => t = b ∧ b.length = n := by
  intro s b rest heq
  unfold Reader.bytes at heq
  split_ifs at heq with hn
  cases heq
  exact ⟨s.take n, (take_append_drop n s).symm, rfl, length_take_of_le (by omega)⟩

theorem number (n : ℕ) : Takes (Reader.number n) fun x t => t = le n x ∧ x < 256 ^ n := by
  refine (bytes n).bind ?_
  rintro b t ⟨rfl, rfl⟩
  apply pure
  rw [append_nil, le_ofLe]
  exact ⟨rfl, ofLe_lt t⟩

theorem many {r : Reader α} {code : α → Bytes} {R : α → Prop}
    (h : Takes r fun a t => t = code a ∧ R a) (n : ℕ) :
    Takes (r.many n) fun l t => t = l.flatMap code ∧ l.length = n ∧ ∀ a ∈ l, R a := by
  induction n with
  | zero => exact pure ⟨rfl, rfl, by simp⟩
  | succ n ih =>
    refine h.bind ?_
    rintro a t ⟨rfl, ha⟩
    refine ih.bind ?_
    rintro l u ⟨rfl, hlength, hl⟩
    apply pure
    rw [append_nil, flatMap_cons, length_cons, hlength]
    exact ⟨rfl, rfl, forall_mem_cons.mpr ⟨ha, hl⟩⟩

theorem each {r : α → Reader β} {code : β → Bytes} {key : β → α} {l : List α}
    (h : ∀ a ∈ l, Takes (r a) fun b t => t = code b ∧ key b = a) :
    Takes (Reader.each r l) fun bs t => t = bs.flatMap code ∧ bs.map key = l := by
  induction l with
  | nil => exact pure ⟨rfl, rfl⟩
  | cons a l ih =>
    refine (h a mem_cons_self).bind ?_
    rintro b t ⟨rfl, hb⟩
    refine (ih fun c hc => h c (mem_cons_of_mem a hc)).bind ?_
    rintro bs u ⟨rfl, hbs⟩
    apply pure
    rw [append_nil, flatMap_cons, map_cons, hb, hbs]
    exact ⟨rfl, rfl⟩

end Takes

variable {l : List α}

theorem length_le_length_flatMap {code : α → Bytes} (h : ∀ a ∈ l, code a ≠ []) :
    l.length ≤ (l.flatMap code).length := by
  induction l with
  | nil => simp
  | cons a l ih =>
    have hpos := length_pos_iff.mpr (h a mem_cons_self)
    have hrest := ih fun b hb => h b (mem_cons_of_mem a hb)
    rw [flatMap_cons, length_append, length_cons]
    omega

theorem length_code_le_flatMap (code : α → Bytes) {a : α} (h : a ∈ l) :
    (code a).length ≤ (l.flatMap code).length := by
  obtain ⟨s, t, rfl⟩ := append_of_mem h
  rw [flatMap_append, flatMap_cons, length_append, length_append]
  omega

end Lib
