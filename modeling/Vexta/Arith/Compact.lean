import Vexta.Arith.Uint256
import Mathlib.Tactic.NormNum
import Mathlib.Tactic.IntervalCases

/-! The compact encoding keeps the leading bytes of a number. -/
namespace Vexta.Uint256
open Lib Nat Arith

theorem lt_two_pow_bits (x : ℕ) : x < 2 ^ bits x := by
  unfold bits
  split_ifs with h
  · simp [h]
  · exact lt_log2_self

theorem bits_le_iff {x n : ℕ} : bits x ≤ n ↔ x < 2 ^ n := by
  constructor
  · intro h
    exact (lt_two_pow_bits x).trans_le (Nat.pow_le_pow_right (by norm_num) h)
  · intro h
    unfold bits
    split_ifs with h0
    · omega
    · have := (log2_lt h0).mpr h
      omega

theorem two_pow_le_of_lt_bits {x n : ℕ} (h : n < bits x) : 2 ^ n ≤ x := by
  by_contra hx
  have := bits_le_iff.mpr (Nat.lt_of_not_le hx)
  omega

private theorem testBit23_iff {m : ℕ} (hm : m < 2 ^ 24) :
    m &&& 0x00800000 ≠ 0 ↔ 2 ^ 23 ≤ m := by
  have h : m &&& 0x00800000 = (m.testBit 23).toNat * 2 ^ 23 := and_two_pow m 23
  rw [h, testBit_eq_decide_div_mod_eq]
  constructor
  · intro hne
    by_contra hlt
    have hd : m / 2 ^ 23 % 2 = 0 := by omega
    rw [hd] at hne
    simp at hne
  · intro hle
    have hd : m / 2 ^ 23 % 2 = 1 := by omega
    rw [hd]
    simp

private theorem bytes_split {a b c : ℕ} (h : a = b + c) :
    2 ^ (8 * a) = 2 ^ (8 * b) * 2 ^ (8 * c) := by
  rw [h, mul_add, pow_add]

private theorem scaled_lt {m n : ℕ} (hm : m < 2 ^ 23) (hn : n ≤ 32) :
    m * 2 ^ (8 * (n - 3)) < 2 ^ 256 :=
  calc
    m * 2 ^ (8 * (n - 3)) < 2 ^ 23 * 2 ^ (8 * (n - 3)) :=
      Nat.mul_lt_mul_of_pos_right hm (by positivity)
    _ = 2 ^ (23 + 8 * (n - 3)) := by rw [pow_add]
    _ ≤ 2 ^ 256 := Nat.pow_le_pow_right (by norm_num) (by omega)

private theorem mask23 (m : ℕ) : m &&& 0x007fffff = m % 2 ^ 23 :=
  and_two_pow_sub_one_eq_mod m 23

private theorem getCompact_split {x s m : ℕ} (hs : s = (bits x + 7) / 8) (hs' : s ≤ 32)
    (hm : m < 2 ^ 24) (he : compactHead trap x s = .ok m) :
    getCompact trap false x =
      if 2 ^ 23 ≤ m then .ok (m / 2 ^ 8 + (s + 1) * 2 ^ 24) else .ok (m + s * 2 ^ 24) := by
  have hor : ∀ a b : ℕ, a < 2 ^ 24 → (a ||| (b <<< 24)) = a + b * 2 ^ 24 := by
    intro a b ha
    rw [Nat.or_comm, ← Nat.shiftLeft_add_eq_or_of_lt ha, Nat.shiftLeft_eq, Nat.add_comm]
  unfold getCompact
  simp only [← hs, he, ok_bind, testBit23_iff hm, Nat.shiftRight_eq_div_pow]
  by_cases hb : 2 ^ 23 ≤ m
  · have hd : m / 2 ^ 8 / 2 ^ 23 = 0 := by omega
    simp only [hb, if_true, hd, ne_eq, not_true, if_false, Bool.false_eq_true, false_and]
    rw [if_neg (by omega), hor _ _ (by omega)]
  · have hd : m / 2 ^ 23 = 0 := by omega
    simp only [hb, if_false, hd, ne_eq, not_true, Bool.false_eq_true, false_and]
    rw [if_neg (by omega), hor _ _ (by omega)]

theorem getCompact_encode {x : ℕ} (hx : x < 2 ^ 256) (h0 : 0 < x) :
    ∃ m n, getCompact trap false x = .ok (m + n * 2 ^ 24) ∧ m < 2 ^ 23 ∧ n ≤ 33 ∧
      (n = 33 → m < 2 ^ 16) ∧
      ((n ≤ 3 ∧ m = x * 2 ^ (8 * (3 - n))) ∨
        (3 < n ∧ m = x / 2 ^ (8 * (n - 3)) ∧ 2 ^ 15 ≤ m)) := by
  obtain ⟨s, hs⟩ : ∃ s, s = (bits x + 7) / 8 := ⟨_, rfl⟩
  have hbits : bits x ≤ 256 := bits_le_iff.mpr hx
  have hpos : 0 < bits x := by
    unfold bits
    split_ifs with h
    · omega
    · omega
  have hup : x < 2 ^ (8 * s) := bits_le_iff.mp (by omega)
  have hlo : 2 ^ (8 * (s - 1)) ≤ x := two_pow_le_of_lt_bits (by omega)
  by_cases h3 : s ≤ 3
  · obtain ⟨m, hmdef⟩ : ∃ m, m = x * 2 ^ (8 * (3 - s)) := ⟨_, rfl⟩
    have hm : m < 2 ^ 24 := by
      have hp : 2 ^ 24 = 2 ^ (8 * s) * 2 ^ (8 * (3 - s)) := bytes_split (a := 3) (by omega)
      rw [hmdef, hp]
      exact Nat.mul_lt_mul_of_pos_right hup (by positivity)
    have hx24 : x < 2 ^ 64 := hup.trans_le (Nat.pow_le_pow_right (by norm_num) (by omega))
    have he := getCompact_split hs (by omega) hm (by
      rw [compactHead, if_pos h3, getLow64, Nat.mod_eq_of_lt hx24, Nat.shiftLeft_eq, ← hmdef,
        checked_unsigned (by omega), ok_bind, checked_unsigned (by omega)])
    by_cases hb : 2 ^ 23 ≤ m
    · rw [if_pos hb] at he
      refine ⟨m / 2 ^ 8, s + 1, he, by omega, by omega, by omega, ?_⟩
      have hcases : s = 1 ∨ s = 2 ∨ s = 3 := by omega
      rcases hcases with rfl | rfl | rfl <;> norm_num at hmdef hb ⊢ <;> omega
    · rw [if_neg hb] at he
      exact ⟨m, s, he, by omega, by omega, by omega, .inl ⟨h3, hmdef⟩⟩
  · obtain ⟨m, hmdef⟩ : ∃ m, m = x / 2 ^ (8 * (s - 3)) := ⟨_, rfl⟩
    have hm : m < 2 ^ 24 := by
      have hp : 2 ^ (8 * s) = 2 ^ (8 * (s - 3)) * 2 ^ 24 := bytes_split (c := 3) (by omega)
      rw [hmdef]
      exact Nat.div_lt_of_lt_mul (hp ▸ hup)
    have hm16 : 2 ^ 16 ≤ m := by
      have hp : 2 ^ (8 * (s - 1)) = 2 ^ 16 * 2 ^ (8 * (s - 3)) := bytes_split (b := 2) (by omega)
      rw [hmdef, le_div_iff_mul_le (by positivity), ← hp]
      exact hlo
    have he := getCompact_split hs (by omega) hm (by
      rw [compactHead, if_neg h3, shiftRight_eq_div_pow, ← hmdef, getLow64, mod_eq_of_lt (by omega),
        checked_unsigned (by omega)])
    by_cases hb : 2 ^ 23 ≤ m
    · rw [if_pos hb] at he
      have hp : m / 2 ^ 8 = x / 2 ^ (8 * (s + 1 - 3)) := by
        rw [hmdef, Nat.div_div_eq_div_mul, bytes_split (show s + 1 - 3 = s - 3 + 1 by omega)]
      exact ⟨m / 2 ^ 8, s + 1, he, by omega, by omega, by omega,
        Or.inr ⟨by omega, hp, by omega⟩⟩
    · rw [if_neg hb] at he
      exact ⟨m, s, he, by omega, by omega, by omega, .inr ⟨by omega, hmdef, by omega⟩⟩

theorem setCompact_decode {m n : ℕ} (hm : m < 2 ^ 23) (hn : n ≤ 33) (hn' : n = 33 → m < 2 ^ 16) :
    setCompact trap (m + n * 2 ^ 24) = .ok {
      target := if n ≤ 3 then m / 2 ^ (8 * (3 - n)) else m * 2 ^ (8 * (n - 3))
      negative := false
      overflow := false } := by
  have hsize : (m + n * 2 ^ 24) >>> 24 = n := by
    rw [shiftRight_eq_div_pow]
    omega
  have hword : (m + n * 2 ^ 24) &&& 0x007fffff = m := by
    rw [mask23]
    omega
  have hsign : (m + n * 2 ^ 24) &&& 0x00800000 = 0 := by
    have h : (m + n * 2 ^ 24) &&& 0x00800000 = ((m + n * 2 ^ 24).testBit 23).toNat * 2 ^ 23 :=
      and_two_pow _ 23
    rw [h, testBit_eq_decide_div_mod_eq]
    have hd : (m + n * 2 ^ 24) / 2 ^ 23 % 2 = 0 := by omega
    rw [hd]
    simp
  unfold setCompact
  simp only [hsize, hword, hsign, ne_eq, not_true, and_false, decide_false]
  by_cases h3 : n ≤ 3
  · have hov : ¬ (34 < n ∨ (0xff < m / 2 ^ (8 * (3 - n)) ∧ 33 < n) ∨
        (0xffff < m / 2 ^ (8 * (3 - n)) ∧ 32 < n)) := by omega
    simp only [h3, if_true, shiftRight_eq_div_pow, ok_bind, hov, and_false,
      decide_false]
  · have hov : ¬ (34 < n ∨ (0xff < m ∧ 33 < n) ∨ (0xffff < m ∧ 32 < n)) := by omega
    have hfit : m * 2 ^ (8 * (n - 3)) < 2 ^ 256 := by
      by_cases h33 : n = 33
      · subst n
        have := hn' rfl
        omega
      · exact scaled_lt hm (by omega)
    simp only [h3, if_false, shl, Nat.shiftLeft_eq, checked_unsigned hfit, ok_bind,
      hov, and_false, decide_false]

/-- At most 23 bits followed by zero bytes: what compact bits hold. -/
def Representable (v : ℕ) : Prop := ∃ m k, m < 2 ^ 23 ∧ v = m * 2 ^ (8 * k)

theorem Representable.le_floor {v x k : ℕ} (hv : Representable v) (hle : v ≤ x)
    (hx : 2 ^ 15 ≤ x / 2 ^ (8 * k)) : v ≤ x / 2 ^ (8 * k) * 2 ^ (8 * k) := by
  obtain ⟨m, j, hm, rfl⟩ := hv
  by_cases hj : k ≤ j
  · rw [bytes_split (show j = j - k + k by omega), ← mul_assoc] at hle ⊢
    exact Nat.mul_le_mul_right _ ((le_div_iff_mul_le (by positivity)).mpr hle)
  · calc
      m * 2 ^ (8 * j) ≤ 2 ^ 23 * 2 ^ (8 * j) := Nat.mul_le_mul_right _ hm.le
      _ = 2 ^ 15 * 2 ^ (8 * (j + 1)) := by ring
      _ ≤ 2 ^ 15 * 2 ^ (8 * k) := by
        gcongr
        · norm_num
        · omega
      _ ≤ _ := Nat.mul_le_mul_right _ hx

theorem targetOf_eq {c : ℕ} {r : Compact} (h : setCompact trap c = .ok r) :
    targetOf c = r.target := by
  unfold targetOf
  rw [setCompact_mono (checked_le_machine Fault.lostBits) c r h]

theorem setCompact_getCompact {x : ℕ} (hx : x < 2 ^ 256) (h0 : 0 < x) :
    ∃ c, getCompact trap false x = .ok c ∧ c < 2 ^ 32 ∧
      setCompact trap c = .ok ⟨targetOf c, false, false⟩ ∧
      IsGreatest {v | Representable v ∧ v ≤ x} (targetOf c) := by
  obtain ⟨m, n, he, hm, hn, hn', hmn⟩ := getCompact_encode hx h0
  have hd := setCompact_decode hm hn hn'
  refine ⟨m + n * 2 ^ 24, he, by omega, by rw [targetOf_eq hd]; exact hd, ?_⟩
  rw [targetOf_eq hd]
  rcases hmn with ⟨h3, hmx⟩ | ⟨h3, hmx, h15⟩
  · have heq : m / 2 ^ (8 * (3 - n)) = x := by rw [hmx, Nat.mul_div_cancel _ (by positivity)]
    rw [if_pos h3, heq]
    refine ⟨⟨⟨x, 0, ?_, by simp⟩, le_rfl⟩, fun v hv => hv.2⟩
    rw [hmx] at hm
    exact (Nat.le_mul_of_pos_right x (by positivity)).trans_lt hm
  · rw [if_neg (by omega)]
    refine ⟨⟨⟨m, n - 3, hm, rfl⟩, ?_⟩, fun v hv => ?_⟩
    · rw [hmx]
      exact div_mul_le_self x _
    · rw [hmx] at h15 ⊢
      exact hv.1.le_floor hv.2 h15

theorem setCompact_of_targetOf {c : ℕ} (h0 : 0 < targetOf c) (h : targetOf c < 2 ^ 240) :
    ∃ r, setCompact trap c = .ok r ∧ r.target = targetOf c ∧ r.overflow = false := by
  obtain ⟨n, hn⟩ : ∃ n, n = c >>> 24 := ⟨_, rfl⟩
  obtain ⟨w, hw⟩ : ∃ w, w = c &&& 0x007fffff := ⟨_, rfl⟩
  have hw23 : w < 2 ^ 23 := by
    rw [hw, mask23]
    exact mod_lt _ (by norm_num)
  by_cases h3 : n ≤ 3
  · have ht : targetOf c = w >>> (8 * (3 - n)) := by
      simp [targetOf, setCompact, ← hn, ← hw, h3]
    rw [ht]
    unfold setCompact
    simp only [← hn, ← hw, h3, if_true, ok_bind]
    exact ⟨_, rfl, rfl, decide_eq_false (by omega)⟩
  · have hm : targetOf c = w * 2 ^ (8 * (n - 3)) % 2 ^ 256 := by
      simp [targetOf, setCompact, ← hn, ← hw, h3, shl, machine, shiftLeft_eq]
    have hn32 : n ≤ 32 := by
      by_contra hlarge
      have hdvd : 2 ^ 240 ∣ targetOf c := by
        rw [hm]
        apply (dvd_mod_iff (pow_dvd_pow 2 (by norm_num))).mpr
        exact Dvd.dvd.mul_left (pow_dvd_pow 2 (by omega)) w
      exact absurd (le_of_dvd h0 hdvd) (by omega)
    have hfit := scaled_lt hw23 hn32
    have ht : targetOf c = w * 2 ^ (8 * (n - 3)) := by rw [hm, Nat.mod_eq_of_lt hfit]
    rw [ht]
    unfold setCompact
    simp only [← hn, ← hw, h3, if_false, shl, shiftLeft_eq, checked_unsigned hfit,
      ok_bind]
    exact ⟨_, rfl, rfl, decide_eq_false (by omega)⟩

/-- Compact bits without flags, for a target from one to a limit. -/
def GoodBits (limit bits : ℕ) : Prop :=
  bits < 2 ^ 32 ∧ ∃ t, setCompact trap bits = .ok ⟨t, false, false⟩ ∧ 1 ≤ t ∧ t ≤ limit

theorem getCompact_good {x limit : ℕ} (h0 : 0 < x) (hx : x ≤ limit) (hl : limit < 2 ^ 256) :
    ∃ bits, getCompact trap false x = .ok bits ∧ GoodBits limit bits := by
  obtain ⟨bits, hget, hlt, hset, hgreatest⟩ := setCompact_getCompact (hx.trans_lt hl) h0
  refine ⟨bits, hget, hlt, _, hset, hgreatest.2 ⟨⟨1, 0, by norm_num, rfl⟩, h0⟩, ?_⟩
  exact hgreatest.1.2.trans hx

theorem targetOf_getCompact_le {x y c d : ℕ} (h0 : 0 < x) (hxy : x ≤ y) (hy : y < 2 ^ 256)
    (hc : getCompact trap false x = .ok c) (hd : getCompact trap false y = .ok d) :
    targetOf c ≤ targetOf d := by
  obtain ⟨c', hc', -, -, hx⟩ := setCompact_getCompact (hxy.trans_lt hy) h0
  obtain ⟨d', hd', -, -, hy⟩ := setCompact_getCompact hy (h0.trans_le hxy)
  cases hc.symm.trans hc'
  cases hd.symm.trans hd'
  exact hx.mono hy fun v hv => ⟨hv.1, hv.2.trans hxy⟩

theorem exists_setCompact (c : ℕ) :
    ∃ r, setCompact .machine c = .ok r ∧ r.target = targetOf c ∧ r.target < 2 ^ 256 := by
  have hword : (c &&& 0x007fffff) < 2 ^ 256 := and_le_right.trans_lt (by norm_num)
  unfold targetOf setCompact
  by_cases h3 : c >>> 24 ≤ 3
  · simp only [h3, if_true, ok_bind]
    exact ⟨_, rfl, rfl, (shiftRight_le _ _).trans_lt hword⟩
  · simp only [h3, if_false, shl, machine, ok_bind]
    exact ⟨_, rfl, rfl, mod_lt _ (by norm_num)⟩

theorem representable_targetOf (c : ℕ) : Representable (targetOf c) := by
  have hword : c &&& 0x007fffff < 2 ^ 23 := by
    rw [mask23]
    exact mod_lt _ (by norm_num)
  unfold targetOf setCompact
  by_cases h3 : c >>> 24 ≤ 3
  · simp only [h3, if_true, ok_bind]
    refine ⟨(c &&& 0x007fffff) >>> (8 * (3 - c >>> 24)), 0, ?_, by simp⟩
    exact (shiftRight_le _ _).trans_lt hword
  · simp only [h3, if_false, shl, machine, ok_bind, shiftLeft_eq]
    by_cases hbig : 8 * (c >>> 24 - 3) ≤ 256
    · refine ⟨(c &&& 0x007fffff) % 2 ^ (256 - 8 * (c >>> 24 - 3)), c >>> 24 - 3,
        (mod_le _ _).trans_lt hword, ?_⟩
      rw [← Nat.mul_mod_mul_right, ← pow_add, Nat.sub_add_cancel hbig]
    · refine ⟨0, 0, by norm_num, ?_⟩
      rw [zero_mul]
      exact mod_eq_zero_of_dvd (Dvd.dvd.mul_left (pow_dvd_pow 2 (by omega)) _)

private theorem getCompact_scaled {m n : ℕ} (hm : m < 2 ^ 23) (h15 : 2 ^ 15 ≤ m) (hn : 3 < n)
    (hfit : m * 2 ^ (8 * (n - 3)) < 2 ^ 256) :
    getCompact trap false (m * 2 ^ (8 * (n - 3))) = .ok (m + n * 2 ^ 24) := by
  have hpow : ∀ k, 0 < 2 ^ (8 * k) := fun k => by positivity
  have hbyte : ∀ k, 0 < k → 2 ^ 8 ≤ 2 ^ (8 * k) := fun k hk =>
    Nat.pow_le_pow_right (by norm_num) (by omega)
  obtain ⟨m', n', he, hm', -, -, ⟨-, rfl⟩ | ⟨hn', hmn, h15'⟩⟩ :=
    getCompact_encode hfit (by positivity)
  · have hle := Nat.mul_le_mul h15 (hbyte (n - 3) (by omega))
    have := Nat.le_mul_of_pos_right (m * 2 ^ (8 * (n - 3))) (hpow (3 - n'))
    omega
  · rcases lt_trichotomy n' n with h | rfl | h
    · rw [bytes_split (show n - 3 = n - n' + (n' - 3) by omega), ← mul_assoc,
        Nat.mul_div_cancel _ (hpow _)] at hmn
      have := Nat.mul_le_mul h15 (hbyte (n - n') (by omega))
      omega
    · rw [Nat.mul_div_cancel _ (hpow _)] at hmn
      rw [he, hmn]
    · rw [bytes_split (show n' - 3 = n - 3 + (n' - n) by omega), ← Nat.div_div_eq_div_mul,
        Nat.mul_div_cancel _ (hpow _)] at hmn
      have := Nat.div_le_div (le_refl m) (hbyte (n' - n) (by omega)) (by norm_num)
      omega

private theorem exists_getCompact_close {x : ℕ} (hx : x < 2 ^ 256) :
    ∃ c, getCompact trap false x = .ok c ∧ targetOf c ≤ x ∧
      (x ≠ 0 → (x - targetOf c) * 2 ^ 15 < x) ∧ getCompact trap false (targetOf c) = .ok c := by
  rcases Nat.eq_zero_or_pos x with rfl | h0
  · exact ⟨0, rfl, le_rfl, fun h => absurd rfl h, rfl⟩
  obtain ⟨m, n, he, hm, hn, hn', hmn⟩ := getCompact_encode hx h0
  have ht := targetOf_eq (setCompact_decode hm hn hn')
  dsimp only at ht
  refine ⟨_, he, ?_⟩
  rw [ht]
  rcases hmn with ⟨h3, hmx⟩ | ⟨h3, hmx, h15⟩
  · have heq : m / 2 ^ (8 * (3 - n)) = x := by rw [hmx, Nat.mul_div_cancel _ (by positivity)]
    rw [if_pos h3, heq]
    exact ⟨le_rfl, by omega, he⟩
  · rw [if_neg (by omega)]
    have hle : m * 2 ^ (8 * (n - 3)) ≤ x := hmx ▸ div_mul_le_self x _
    have hlt : x < (m + 1) * 2 ^ (8 * (n - 3)) := by
      rw [hmx, ← Nat.div_lt_iff_lt_mul (by positivity)]
      omega
    have h15' := Nat.mul_le_mul_right (2 ^ (8 * (n - 3))) h15
    rw [add_mul] at hlt
    exact ⟨hle, by omega, getCompact_scaled hm h15 h3 (by omega)⟩

/-- What compact bits denote: sign, mantissa and exponent of base 256. -/
def compactValue (c : BitVec 32) : ℤ :=
  let magnitude : ℕ := c.toNat % 2 ^ 23 * 256 ^ (c.toNat / 2 ^ 24) / 256 ^ 3
  if c.toNat.testBit 23 then -magnitude else magnitude

private theorem magnitude_flags {w n : ℕ} (hw : w < 2 ^ 23) :
    let word := if n ≤ 3 then w / 2 ^ (8 * (3 - n)) else w
    (w * 256 ^ n / 256 ^ 3 ≠ 0 ↔ word ≠ 0) ∧ (2 ^ 256 ≤ w * 256 ^ n / 256 ^ 3 ↔ word ≠ 0 ∧
      (34 < n ∨ (0xff < word ∧ 33 < n) ∨ (0xffff < word ∧ 32 < n))) := by
  by_cases h3 : n ≤ 3
  · simp only [h3, if_true]
    interval_cases n <;> norm_num <;> omega
  · obtain ⟨k, rfl⟩ : ∃ k, n = k + 3 := ⟨n - 3, by omega⟩
    have hdiv : w * 256 ^ (k + 3) / 256 ^ 3 = w * 256 ^ k := by
      rw [pow_add, ← mul_assoc, Nat.mul_div_cancel _ (by norm_num)]
    simp only [h3, if_false, hdiv]
    refine ⟨by simp, ?_⟩
    by_cases h29 : k ≤ 29
    · have hle := Nat.mul_le_mul hw.le (Nat.pow_le_pow_right (show 0 < 256 by norm_num) h29)
      omega
    · by_cases h31 : k ≤ 31
      · obtain rfl | rfl : k = 30 ∨ k = 31 := by omega
        · omega
        · omega
      · have hle := Nat.pow_le_pow_right (show 0 < 256 by norm_num) (show 32 ≤ k by omega)
        rcases Nat.eq_zero_or_pos w with rfl | hpos
        · simp
        · have := Nat.mul_le_mul hpos hle
          omega

private theorem setCompact_flags (c : BitVec 32) : ∃ r, setCompact .machine c.toNat = .ok r ∧
    (r.negative = true ↔ compactValue c < 0) ∧
    (r.overflow = true ↔ 2 ^ 256 ≤ |compactValue c|) := by
  obtain ⟨hzero, hover⟩ := magnitude_flags (w := c.toNat % 2 ^ 23) (n := c.toNat / 2 ^ 24)
    (mod_lt _ (by norm_num))
  have hsign : c.toNat &&& 0x00800000 = (c.toNat.testBit 23).toNat * 2 ^ 23 :=
    and_two_pow c.toNat 23
  have hshl : ∀ a k, shl .machine a k = .ok (a <<< k % 2 ^ 256) := fun a k => rfl
  unfold setCompact compactValue
  simp only [hshl, ← apply_ite Except.ok, ok_bind, mask23, shiftRight_eq_div_pow, hsign]
  refine ⟨_, rfl, ?_⟩
  rw [decide_eq_true_eq, decide_eq_true_eq, ← hover, ← hzero]
  generalize c.toNat % 2 ^ 23 * 256 ^ (c.toNat / 2 ^ 24) / 256 ^ 3 = magnitude
  cases c.toNat.testBit 23 <;> simp

/-- Zero is exact, every other number loses less than one part in `2 ^ 15`. The checked encoding
returns with either sign. -/
theorem compact_roundTrip (x : Uint256) :
    (∀ fNegative, ∃ c, getCompact trap fNegative x.toNat = .ok c) ∧
    (∃ c, getCompact .machine false x.toNat = .ok c ∧ targetOf c ≤ x.toNat ∧
      (x.toNat ≠ 0 → (x.toNat : ℚ) - targetOf c < x.toNat / 2 ^ 15) ∧
      getCompact .machine false (targetOf c) = .ok c ∧
      ∀ y : Uint256, x.toNat ≤ y.toNat → ∃ d, getCompact .machine false y.toNat = .ok d ∧
        targetOf c ≤ targetOf d) ∧
    ∀ c : BitVec 32, ∃ r, setCompact .machine c.toNat = .ok r ∧
      (r.negative = true ↔ compactValue c < 0) ∧
      (r.overflow = true ↔ 2 ^ 256 ≤ |compactValue c|) := by
  obtain ⟨c, hc, hle, hclose, hstable⟩ := exists_getCompact_close x.isLt
  have hmachine := getCompact_mono (checked_le_machine Fault.lostBits) false
  refine ⟨fun fNegative => ?_, ⟨c, hmachine _ _ hc, hle, fun h0 => ?_, hmachine _ _ hstable,
    fun y hxy => ?_⟩, setCompact_flags⟩
  · unfold getCompact at hc ⊢
    obtain ⟨nCompact, hhead, hc⟩ := bind_eq_ok.mp hc
    dsimp only at hc ⊢
    rw [hhead, ok_bind]
    split_ifs at hc ⊢ <;> simp
  · rw [← Nat.cast_sub hle, lt_div_iff₀ (by norm_num)]
    exact_mod_cast hclose h0
  · obtain ⟨d, hd, -⟩ := exists_getCompact_close y.isLt
    refine ⟨d, hmachine _ _ hd, ?_⟩
    rcases Nat.eq_zero_or_pos x.toNat with h0 | h0
    · omega
    · exact targetOf_getCompact_le h0 hxy y.isLt hc hd

/-- Zero differs from its round trip by nothing. -/
theorem compact_roundTrip_zero :
    ∃ c, getCompact .machine false 0 = .ok c ∧ ¬ (0 : ℚ) - targetOf c < 0 / 2 ^ 15 :=
  ⟨0, rfl, by norm_num [show targetOf 0 = 0 from rfl]⟩

end Vexta.Uint256
