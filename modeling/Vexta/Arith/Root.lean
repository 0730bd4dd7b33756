import Mathlib.Analysis.Real.Sqrt
import Vexta.Arith.Compact

/-! `ApproxNthRoot`: a binary search for the root of the leading bits. -/
namespace Vexta.Uint256
open Lib Nat

def rootPower (A : Arith Fault) (nNext : ℕ) : ℕ → Except Fault ℕ
  | 0 => .ok nNext
  | j + 1 => do
    let nPower ← rootPower A nNext j
    A.unsigned 64 (nPower * nNext)

def rootSearch (A : Arith Fault) (n nHead : ℕ) : ℕ → ℕ → Except Fault ℕ
  | 0, nRoot => .ok nRoot
  | i + 1, nRoot => do
    let nNext := nRoot ||| 1 <<< i
    let nPower ← rootPower A nNext (n - 1)
    rootSearch A n nHead i (if nPower ≤ nHead then nNext else nRoot)

def rootShifts (n x : ℕ) : ℕ :=
  (max 0 (((bits x : ℤ) - 1).tdiv n + 1 - (64 / n : ℕ))).toNat

def approxNthRoot (A : Arith Fault) (n x : ℕ) : Except Fault ℕ :=
  if 1 < n ∧ n < 64 then do
    let nShifts := rootShifts n x
    let nHead := getLow64 (x >>> (n * nShifts))
    let nRoot ← rootSearch A n nHead (64 / n) 0
    shl A nRoot nShifts
  else .error .assertion

theorem approxNthRoot_mono {A B : Arith Fault} (h : A.Le B) (n x : ℕ) :
    Approx (approxNthRoot A n x) (approxNthRoot B n x) := by
  have hpower : ∀ nNext j, Approx (rootPower A nNext j) (rootPower B nNext j) := by
    intro nNext j
    induction j with
    | zero => exact .refl _
    | succ j ih => exact .bind ih fun nPower _ => h.unsigned 64 _
  have hsearch : ∀ nHead i nRoot,
      Approx (rootSearch A n nHead i nRoot) (rootSearch B n nHead i nRoot) := by
    intro nHead i
    induction i with
    | zero => exact fun nRoot => .refl _
    | succ i ih => exact fun nRoot => .bind (hpower _ _) fun nPower _ => ih _
  unfold approxNthRoot
  refine .ite (fun _ => ?_) fun _ => .refl _
  exact .bind (hsearch _ _ _) fun nRoot _ => h.unsigned 256 _

theorem rootPower_eq (nNext j : ℕ) (h : nNext ^ (j + 1) < 2 ^ 64) :
    rootPower trap nNext j = .ok (nNext ^ (j + 1)) := by
  induction j with
  | zero => simp [rootPower]
  | succ j ih =>
    have hle : nNext ^ (j + 1) ≤ nNext ^ (j + 1 + 1) := by
      rcases Nat.eq_zero_or_pos nNext with rfl | hpos
      · simp
      · exact Nat.pow_le_pow_right hpos (by omega)
    rw [rootPower, ih (by omega), ok_bind, ← pow_succ, Arith.checked_unsigned h]

theorem exists_rootSearch (n nHead i nRoot : ℕ) (hn : 0 < n) (hdvd : 2 ^ i ∣ nRoot)
    (hfit : (nRoot + 2 ^ i) ^ n ≤ 2 ^ 64) (hlo : nRoot ^ n ≤ nHead)
    (hhi : nHead < (nRoot + 2 ^ i) ^ n) :
    ∃ r, rootSearch trap n nHead i nRoot = .ok r ∧ r ^ n ≤ nHead ∧ nHead < (r + 1) ^ n := by
  induction i generalizing nRoot with
  | zero => exact ⟨nRoot, rfl, hlo, by simpa using hhi⟩
  | succ i ih =>
    have hor : nRoot ||| 1 <<< i = nRoot + 2 ^ i := by
      obtain ⟨k, rfl⟩ := hdvd
      rw [Nat.one_shiftLeft, Nat.mul_comm, ← Nat.shiftLeft_eq,
        ← Nat.shiftLeft_add_eq_or_of_lt (Nat.pow_lt_pow_right (by norm_num) (by omega))]
    have hsum : nRoot + 2 ^ (i + 1) = nRoot + 2 ^ i + 2 ^ i := by
      rw [pow_succ]
      omega
    have hpos : 0 < 2 ^ i := by positivity
    have hlt : (nRoot + 2 ^ i) ^ n < 2 ^ 64 :=
      (Nat.pow_lt_pow_left (by omega) (by omega)).trans_le hfit
    have hpower : rootPower trap (nRoot + 2 ^ i) (n - 1) = .ok ((nRoot + 2 ^ i) ^ n) := by
      have h := rootPower_eq (nRoot + 2 ^ i) (n - 1)
      rw [Nat.sub_add_cancel hn] at h
      exact h hlt
    have hdvd' : 2 ^ i ∣ nRoot := (pow_dvd_pow 2 (by omega)).trans hdvd
    unfold rootSearch
    simp only [hor, hpower, ok_bind]
    split_ifs with hle
    · apply ih
      · exact (Nat.dvd_add_right hdvd').mpr dvd_rfl
      · rw [← hsum]
        exact hfit
      · exact hle
      · rw [← hsum]
        exact hhi
    · apply ih _ hdvd'
      · exact hlt.le
      · exact hlo
      · omega

private theorem rootShifts_eq {n x : ℕ} (hn : 1 < n) :
    rootShifts n x = (bits x - 1) / n + 1 - 64 / n := by
  have hdiv : ((bits x : ℤ) - 1).tdiv n = ((bits x - 1) / n : ℕ) := by
    cases bits x with
    | zero => rw [Nat.cast_zero, zero_sub, Int.neg_tdiv, Int.tdiv_eq_zero_of_lt] <;> simp [hn]
    | succ b => simp [Int.tdiv_eq_ediv_of_nonneg]
  unfold rootShifts
  rw [hdiv]
  omega

private theorem rootShifts_spec {n x : ℕ} (hn : 1 < n) (hn' : n < 64) :
    n * rootShifts n x ≤ bits x - 1 ∧ bits x ≤ n * (rootShifts n x + 64 / n) := by
  have hdiv : n * ((bits x - 1) / n) ≤ bits x - 1 := mul_div_le _ _
  have hmod : bits x - 1 < n * ((bits x - 1) / n + 1) := lt_mul_div_succ _ (by omega)
  have he : 1 ≤ 64 / n := (one_le_div_iff (by omega)).mpr hn'.le
  rw [rootShifts_eq hn]
  generalize (bits x - 1) / n = d at hdiv hmod ⊢
  generalize 64 / n = e at he ⊢
  constructor
  · have hle : d + 1 - e ≤ d := by omega
    exact (mul_le_mul_left n hle).trans hdiv
  · have hle : d + 1 ≤ d + 1 - e + e := by omega
    have hmul := mul_le_mul_left n hle
    omega

theorem exists_approxNthRoot {n x : ℕ} (hn : 1 < n) (hn' : n < 64) (hx : x < 2 ^ 256) :
    ∃ r, approxNthRoot trap n x = .ok r ∧ (0 < x → 0 < r) ∧ r ^ n ≤ x ∧
      x < (r + 2 ^ rootShifts n x) ^ n := by
  obtain ⟨hs₁, hs₂⟩ := rootShifts_spec (x := x) hn hn'
  obtain ⟨s, hs⟩ : ∃ s, s = rootShifts n x := ⟨_, rfl⟩
  obtain ⟨e, he⟩ : ∃ e, e = 64 / n := ⟨_, rfl⟩
  rw [← hs, ← he] at hs₂
  rw [← hs] at hs₁
  have hpow : 0 < 2 ^ (n * s) := by positivity
  have hne : n * e ≤ 64 := by
    rw [he]
    exact mul_div_le 64 n
  have hroot64 : (2 ^ e) ^ n ≤ 2 ^ 64 := by
    rw [← pow_mul, Nat.mul_comm]
    exact Nat.pow_le_pow_right (by norm_num) hne
  have hhead : x / 2 ^ (n * s) < (2 ^ e) ^ n := by
    apply Nat.div_lt_of_lt_mul
    rw [← pow_mul, ← pow_add, Nat.mul_comm e n, ← Nat.mul_add]
    exact bits_le_iff.mp hs₂
  have hlow : getLow64 (x >>> (n * s)) = x / 2 ^ (n * s) := by
    rw [shiftRight_eq_div_pow, getLow64, mod_eq_of_lt (hhead.trans_le hroot64)]
  obtain ⟨r, hr, hrlo, hrhi⟩ := exists_rootSearch n (x / 2 ^ (n * s)) e 0
    (by omega) (dvd_zero _) (by rw [zero_add]; exact hroot64)
    (by rw [Nat.zero_pow (by omega)]; exact Nat.zero_le _) (by rw [Nat.zero_add]; exact hhead)
  have hrpos : 0 < x → 0 < r := by
    intro h0
    have hhead₁ : 2 ^ (n * s) ≤ x := two_pow_le_of_lt_bits <| by
      rw [bits, if_neg h0.ne'] at hs₁ ⊢
      omega
    rcases Nat.eq_zero_or_pos r with rfl | h
    · rw [Nat.zero_add, one_pow, div_lt_one_iff hpow] at hrhi
      omega
    · exact h
  have hupper : (r * 2 ^ s) ^ n ≤ x := by
    rw [mul_pow, ← pow_mul, mul_comm s n]
    exact (mul_le_mul_right _ hrlo).trans (div_mul_le_self _ _)
  have hlower : x < (r * 2 ^ s + 2 ^ s) ^ n := by
    have hsplit : r * 2 ^ s + 2 ^ s = (r + 1) * 2 ^ s := by ring
    rw [hsplit, mul_pow, ← pow_mul, mul_comm s n]
    exact (div_lt_iff_lt_mul hpow).mp hrhi
  have hfit : r * 2 ^ s < 2 ^ 256 := by
    have hself : r * 2 ^ s ≤ (r * 2 ^ s) ^ n := le_self_pow (by omega) _
    omega
  refine ⟨r * 2 ^ s, ?_, fun h0 => mul_pos (hrpos h0) (by positivity), hupper, ?_⟩
  · unfold approxNthRoot shl
    rw [if_pos ⟨hn, hn'⟩]
    dsimp only
    rw [← hs, hlow, ← he, hr, ok_bind, shiftLeft_eq, Arith.checked_unsigned hfit]
  · rw [← hs]
    exact hlower

private theorem sqrtShift_small {x : ℕ} (hx : 2 ^ 60 ≤ x) :
    (2 ^ rootShifts 2 x * 2 ^ 30) ^ 2 ≤ x := by
  rw [rootShifts_eq (by norm_num), ← pow_add, ← pow_mul]
  rcases Nat.eq_zero_or_pos ((bits x - 1) / 2 + 1 - 64 / 2) with h | h
  · rw [h]
    exact hx
  · exact two_pow_le_of_lt_bits (by omega)

/-- No product of the search loses a bit. A square root below `2 ^ 30` is the whole part of the real
root. -/
theorem approxNthRoot_brackets (n : ℕ) (x : Uint256) (hn : 1 < n) (hn' : n < 64) :
    ∃ r, approxNthRoot trap n x.toNat = .ok r ∧ approxNthRoot .machine n x.toNat = .ok r ∧
      r ^ n ≤ x.toNat ∧ x.toNat < (r + 2 ^ rootShifts n x.toNat) ^ n ∧
      (0 < x.toNat → 0 < r) ∧
      (n = 2 → x.toNat < 2 ^ 60 → r = Nat.sqrt x.toNat) ∧
      (n = 2 → 2 ^ 60 ≤ x.toNat → √(x.toNat : ℝ) - r < √(x.toNat : ℝ) / 2 ^ 30) := by
  obtain ⟨r, hr, hpos, hle, hlt⟩ := exists_approxNthRoot hn hn' x.isLt
  refine ⟨r, hr, approxNthRoot_mono (Arith.checked_le_machine _) n _ _ hr, hle, hlt, hpos, ?_, ?_⟩
  · rintro rfl hx
    have hbits := bits_le_iff.mpr hx
    rw [rootShifts_eq hn, Nat.sub_eq_zero_of_le (by omega)] at hlt
    exact Nat.eq_sqrt'.mpr ⟨hle, hlt⟩
  rintro rfl hx
  have hroot : √(x.toNat : ℝ) < r + 2 ^ rootShifts 2 x.toNat :=
    (Real.sqrt_lt' (by positivity)).mpr (by exact_mod_cast hlt)
  have hbit : (2 : ℝ) ^ rootShifts 2 x.toNat * 2 ^ 30 ≤ √(x.toNat : ℝ) :=
    Real.le_sqrt_of_sq_le (by exact_mod_cast sqrtShift_small hx)
  rw [lt_div_iff₀ (by positivity)]
  linarith

theorem approxNthRoot_brackets_hundred :
    ∃ r, approxNthRoot .machine 2 100 = .ok r ∧ r ^ 2 ≤ 100 ∧ 100 < (r + 1) ^ 2 := by
  obtain ⟨r, -, hr, hle, hlt, -⟩ := approxNthRoot_brackets 2 100 (by norm_num) (by norm_num)
  exact ⟨r, hr, hle, hlt⟩

theorem approxNthRoot_two :
    ∃ r : ℕ, approxNthRoot .machine 2 2 = .ok r ∧ ¬ √(2 : ℝ) - r < √(2 : ℝ) / 2 ^ 30 := by
  refine ⟨1, by decide +kernel, ?_⟩
  have h : (1.2 : ℝ) ≤ √2 := Real.le_sqrt_of_sq_le (by norm_num)
  push_cast
  linarith

end Vexta.Uint256
