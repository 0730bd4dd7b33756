import Mathlib.Data.Nat.Digits.Lemmas

/-! Decimal numerals: printing a number and reading it back. -/
namespace Lib
open List

def digitChar (d : ℕ) : Char := Char.ofNat (48 + d)

def digitValue (c : Char) : Option ℕ :=
  if 48 ≤ c.toNat ∧ c.toNat ≤ 57 then some (c.toNat - 48) else none

def decimal (n : ℕ) : List Char :=
  if n = 0 then [digitChar 0] else (Nat.digits 10 n).reverse.map digitChar

def readDigits : List Char → ℕ → Option ℕ
  | [], acc => some acc
  | c :: cs, acc => (digitValue c).bind fun d => readDigits cs (acc * 10 + d)

theorem digitValue_digitChar {d : ℕ} (h : d < 10) : digitValue (digitChar d) = some d := by
  interval_cases d <;> rfl

theorem readDigits_map {ds : List ℕ} (h : ∀ d ∈ ds, d < 10) (acc : ℕ) :
    readDigits (ds.map digitChar) acc = some (ds.foldl (fun a d => a * 10 + d) acc) := by
  induction ds generalizing acc with
  | nil => rfl
  | cons d ds ih =>
    have hd := digitValue_digitChar (h d mem_cons_self)
    simp only [map_cons, readDigits, hd, Option.bind_some, foldl_cons]
    exact ih (fun e he => h e (mem_cons_of_mem d he)) _

theorem readDigits_decimal (n : ℕ) : readDigits (decimal n) 0 = some n := by
  unfold decimal
  split_ifs with hn
  · subst hn
    rfl
  · have hlt : ∀ d ∈ (Nat.digits 10 n).reverse, d < 10 := fun d hd =>
      Nat.digits_lt_base (by norm_num) (mem_reverse.mp hd)
    rw [readDigits_map hlt, foldl_reverse]
    have hvalue : (Nat.digits 10 n).foldr (fun d a => a * 10 + d) 0 =
        Nat.ofDigits 10 (Nat.digits 10 n) := by
      rw [Nat.ofDigits_eq_foldr]
      congr 1
      funext d a
      simp only [Nat.cast_id]
      ring
    rw [hvalue, Nat.ofDigits_digits]

theorem decimal_ne_nil (n : ℕ) : decimal n ≠ [] := by
  unfold decimal
  split_ifs with hn
  · simp
  · simpa using Nat.digits_ne_nil_iff_ne_zero.mpr hn

theorem digitValue_of_mem_decimal {n : ℕ} {c : Char} (h : c ∈ decimal n) :
    ∃ d < 10, c = digitChar d := by
  unfold decimal at h
  split_ifs at h with hn
  · exact ⟨0, by norm_num, by simpa using h⟩
  · obtain ⟨d, hd, rfl⟩ := mem_map.mp h
    exact ⟨d, Nat.digits_lt_base (by norm_num) (mem_reverse.mp hd), rfl⟩

end Lib
