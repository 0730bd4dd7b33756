import Vexta.Arith.Compact
import Vexta.Chain.Linked
import Vexta.Pow.NextWork
import Mathlib.Data.Rat.Floor
import Mathlib.Algebra.Order.Floor.Semifield

/-! Main network retargeting never faults, loses no bit and stays inside the limit. -/
namespace Vexta
open Lib Uint256 Heap Arith

theorem main_powLimit : mainParams.powLimit.toNat = 2 ^ 236 - 1 := by decide

section Reads

@[simp] theorem main_noRetargeting : noRetargeting mainParams = .ok false := rfl

@[simp] theorem main_spacing : readParam mainParams.nPowTargetSpacing = .ok 600 := rfl

@[simp] theorem main_window : readParam mainParams.difficultyAveragingWindow = .ok 10 := rfl

@[simp] theorem main_targetTimespan :
    readParam mainParams.difficultyTargetTimespan = .ok 6000 := rfl

@[simp] theorem main_minTimespan :
    readParam mainParams.difficultyMinActualTimespan = .ok 5520 := rfl

@[simp] theorem main_maxTimespan :
    readParam mainParams.difficultyMaxActualTimespan = .ok 6960 := rfl

@[simp] theorem main_asertHeight :
    readParam mainParams.asertActivationHeight = .ok 6500 := rfl

@[simp] theorem main_halfLife : readParam mainParams.asertHalfLife = .ok 172800 := rfl

@[simp] theorem main_fastRiseHeight :
    readParam mainParams.fastRiseActivationHeight = .ok 2147483647 := rfl

@[simp] theorem main_randomXHeight :
    readParam mainParams.randomXActivationHeight = .ok 8099 := rfl

end Reads

/-- Bits whose target, flags ignored, is positive and within the limit. -/
def InRange (nBits : ℕ) : Prop := 1 ≤ targetOf nBits ∧ targetOf nBits ≤ mainParams.powLimit.toNat

variable {nBits limit n x : ℕ}

theorem InRange.setCompact (h : InRange nBits) :
    ∃ r, setCompact trap nBits = .ok r ∧ r.target = targetOf nBits := by
  have hle := h.2
  rw [main_powLimit] at hle
  obtain ⟨r, hr, ht, -⟩ := setCompact_of_targetOf h.1 (by omega)
  exact ⟨r, hr, ht⟩

theorem clampTarget_pos (limit : ℕ) (hl : 1 ≤ limit) (x : ℕ) :
    0 < clampTarget limit x ∧ clampTarget limit x ≤ limit := by
  unfold clampTarget
  dsimp only
  split_ifs <;> omega

theorem clampTimespan_mem (lo hi : ℤ) (h : lo ≤ hi) (x : ℤ) :
    lo ≤ clampTimespan lo hi x ∧ clampTimespan lo hi x ≤ hi := by
  unfold clampTimespan
  dsimp only
  split_ifs <;> omega

theorem clampTarget_eq {limit : ℕ} (hl : 1 ≤ limit) (x : ℕ) :
    clampTarget limit x = max 1 (min limit x) := by
  unfold clampTarget
  dsimp only
  split_ifs <;> omega

def asertPoly (frac : ℕ) : ℕ :=
  65536 + (195766423245049 * frac + 971821376 * frac * frac + 5127 * frac * frac * frac + 2 ^ 47) /
    2 ^ 48

theorem asertFactor_eq (frac : ℕ) (hf : frac < 65536) :
    asertFactor trap frac = .ok (asertPoly frac) ∧ asertPoly frac < 2 ^ 17 := by
  have hf' : frac ≤ 65535 := by omega
  have h₁ : 195766423245049 * frac ≤ 195766423245049 * 65535 := by gcongr
  have h₂ : 971821376 * frac ≤ 971821376 * 65535 := by gcongr
  have h₃ : 971821376 * frac * frac ≤ 971821376 * 65535 * 65535 := by gcongr
  have h₄ : 5127 * frac ≤ 5127 * 65535 := by gcongr
  have h₅ : 5127 * frac * frac ≤ 5127 * 65535 * 65535 := by gcongr
  have h₆ : 5127 * frac * frac * frac ≤ 5127 * 65535 * 65535 * 65535 := by gcongr
  unfold asertFactor asertPoly
  rw [checked_unsigned (by omega), ok_bind, checked_unsigned (by omega),
    ok_bind, checked_unsigned (by omega), ok_bind,
    checked_unsigned (by omega), ok_bind, checked_unsigned (by omega),
    ok_bind, checked_unsigned (by omega), ok_bind,
    checked_unsigned (by omega), ok_bind, checked_unsigned (by omega),
    ok_bind, checked_unsigned (by omega), ok_bind]
  rw [Nat.shiftRight_eq_div_pow, checked_unsigned (by omega)]
  exact ⟨rfl, by omega⟩

theorem exists_asertShift {target : ℕ} (h0 : 0 < target) (ht : target < 2 ^ 256)
    (hl : 1 ≤ limit) (hlim : limit < 2 ^ 256) (shifts : ℤ) :
    ∃ t, asertShift trap limit target shifts = .ok t ∧
      clampTarget limit t = max 1 (min limit ⌊(target : ℚ) * 2 ^ shifts⌋₊) := by
  simp only [clampTarget_eq hl]
  unfold asertShift
  by_cases hneg : shifts ≤ 0
  · obtain ⟨n, rfl⟩ : ∃ n : ℕ, shifts = -n := ⟨(-shifts).toNat, by omega⟩
    have hfloor : ⌊(target : ℚ) * 2 ^ (-n : ℤ)⌋₊ = target / 2 ^ n := by
      rw [zpow_neg, zpow_natCast, ← div_eq_mul_inv, ← Nat.floor_div_eq_div (K := ℚ)]
      push_cast
      rfl
    rw [if_pos hneg, hfloor]
    refine ⟨_, rfl, ?_⟩
    split_ifs with hbig
    · rw [Nat.div_eq_of_lt (ht.trans_le (Nat.pow_le_pow_right (by norm_num) (by omega)))]
      omega
    · rw [Nat.shiftRight_eq_div_pow, neg_neg, Int.toNat_natCast]
  · obtain ⟨n, rfl⟩ : ∃ n : ℕ, shifts = n := ⟨shifts.toNat, by omega⟩
    have hfloor : ⌊(target : ℚ) * 2 ^ (n : ℤ)⌋₊ = target * 2 ^ n := by
      rw [zpow_natCast, ← Nat.floor_natCast (R := ℚ) (target * 2 ^ n)]
      push_cast
      rfl
    rw [if_neg hneg, hfloor, Int.toNat_natCast, Nat.shiftRight_eq_div_pow]
    split_ifs with hsat
    · have hlt : limit / 2 ^ n < target := by
        rcases hsat with hbig | hlt
        · rw [Nat.div_eq_of_lt (hlim.trans_le (Nat.pow_le_pow_right (by norm_num) (by omega)))]
          exact h0
        · exact hlt
      have hmul := (Nat.div_lt_iff_lt_mul (by positivity)).mp hlt
      exact ⟨limit, rfl, by omega⟩
    · have hmul : target * 2 ^ n ≤ limit :=
        (Nat.le_div_iff_mul_le (by positivity)).mp (by omega)
      refine ⟨target * 2 ^ n, ?_, rfl⟩
      rw [shl, Nat.shiftLeft_eq, checked_unsigned (by omega)]

def asertValue (target : ℕ) (exponent : ℤ) : ℕ :=
  max 1 (min mainParams.powLimit.toNat
    ⌊((target * asertPoly (exponent % 65536).toNat : ℕ) : ℚ) * 2 ^ (exponent / 65536 - 16)⌋₊)

theorem asertValue_mem (target : ℕ) (exponent : ℤ) : 0 < asertValue target exponent ∧
    asertValue target exponent ≤ mainParams.powLimit.toNat := by
  rw [asertValue, main_powLimit]
  omega

theorem asertTarget_eq (hn : 1 ≤ targetOf nBits) (hfits : targetOf nBits < 2 ^ 239)
    (exponent : ℤ) : asertTarget trap mainParams.powLimit.toNat nBits exponent =
      getCompact trap false (asertValue (targetOf nBits) exponent) := by
  obtain ⟨hfactor, hlt⟩ := asertFactor_eq (exponent % 65536).toNat (by omega)
  obtain ⟨r, hr, ht, -⟩ := setCompact_of_targetOf hn (by omega)
  have hprod : targetOf nBits * asertPoly (exponent % 65536).toNat < 2 ^ 256 :=
    calc
      _ ≤ (2 ^ 239 - 1) * 2 ^ 17 := by gcongr; omega
      _ < 2 ^ 256 := by norm_num
  have hpos : 0 < targetOf nBits * asertPoly (exponent % 65536).toNat :=
    Nat.mul_pos hn (by unfold asertPoly; omega)
  obtain ⟨t, hshift, hclamp⟩ := exists_asertShift hpos hprod (by rw [main_powLimit]; norm_num)
    mainParams.powLimit.isLt (exponent / 65536 - 16)
  unfold asertTarget mulU32
  rw [hfactor, ok_bind, hr, ok_bind, checked_unsigned (by omega), ok_bind, ht,
    checked_unsigned hprod, ok_bind, hshift, ok_bind, hclamp]
  rfl

theorem exists_dampTimespan (target measured : ℤ) (ht : 0 ≤ target ∧ target < 2 ^ 32)
    (hm : -2 ^ 32 < measured ∧ measured < 2 ^ 32) :
    ∃ span, dampTimespan trap target measured = .ok span := by
  have hdiv : (measured - target).tdiv 4 = (measured - target) / 4 ∨
      (measured - target).tdiv 4 = -(-(measured - target) / 4) := by
    rcases le_total 0 (measured - target) with h | h
    · exact .inl (Int.tdiv_eq_ediv_of_nonneg h)
    · refine .inr ?_
      rw [← neg_neg (measured - target), Int.neg_tdiv, neg_neg,
        Int.tdiv_eq_ediv_of_nonneg (by omega)]
  unfold dampTimespan
  rw [checked_signed (by omega) (by omega), ok_bind]
  rcases hdiv with hdiv | hdiv
  · rw [hdiv, checked_signed (by omega) (by omega)]
    exact ⟨_, rfl⟩
  · rw [hdiv, checked_signed (by omega) (by omega)]
    exact ⟨_, rfl⟩

theorem scaleTarget_eq (hn : InRange nBits) (actual target : ℤ) (ha : 0 ≤ actual ∧ actual < 2 ^ 19)
    (ht : 0 < target ∧ target < 2 ^ 32) :
    scaleTarget trap nBits actual target =
      .ok (targetOf nBits * actual.toNat / target.toNat) := by
  obtain ⟨r, hr, hrt⟩ := hn.setCompact
  have hprod : r.target * actual.toNat < 2 ^ 256 := by
    have hle : r.target ≤ 2 ^ 236 - 1 := by rw [hrt, ← main_powLimit]; exact hn.2
    have hact : actual.toNat ≤ 2 ^ 19 := by omega
    calc
      r.target * actual.toNat ≤ (2 ^ 236 - 1) * 2 ^ 19 := by gcongr
      _ < 2 ^ 256 := by norm_num
  unfold scaleTarget mulU32 Uint256.div
  rw [hr, ok_bind, checked_narrow ha.1 (by omega), ok_bind,
    checked_unsigned hprod, ok_bind, checked_narrow (by omega) ht.2,
    ok_bind, if_neg (by omega), hrt]

theorem exists_harder (hx : x < 2 ^ 240) : ∃ y, harder trap n x = .ok y := by
  induction n generalizing x with
  | zero => exact ⟨x, rfl⟩
  | succ n ih =>
    unfold harder mulU32 Uint256.div
    rw [checked_unsigned (by omega), ok_bind, if_neg (by norm_num), ok_bind]
    exact ih (by omega)

theorem exists_easier (hl : limit < 2 ^ 240) (hx : x < 2 ^ 240) :
    ∃ y, easier trap limit n x = .ok y := by
  induction n generalizing x with
  | zero => exact ⟨x, rfl⟩
  | succ n ih =>
    unfold easier mulU32 Uint256.div
    rw [checked_unsigned (by omega), ok_bind, if_neg (by norm_num), ok_bind]
    split_ifs with h
    · exact ⟨limit, rfl⟩
    · exact ih (by omega)

theorem exists_adjustTarget (limit : ℕ) (hl : limit < 2 ^ 240) (hx : x < 2 ^ 240) (n : ℤ) :
    ∃ y, adjustTarget trap limit n x = .ok y := by
  unfold adjustTarget
  split_ifs with h₁ h₂
  · exact exists_harder hx
  · exact exists_easier hl hx
  · exact ⟨x, rfl⟩

section Chain
variable {H : Heap} (hH : Linked H) {p : Uint256} {last : IndexNode}

def ChainInRange (p : Uint256) : Prop :=
  ∀ q index, hH.forest.Above q p → H q = some index → InRange index.nBits.toNat

variable {a q : Uint256} {anchor prev : IndexNode}

include hH in
theorem calculateASERT_eq (hp : H p = some last) (hheight : last.nHeight < 2 ^ 31)
    (hget : getAncestor H p 6499 = .ok (some a)) (ha : H a = some anchor)
    (hq : anchor.pprev = some q) (hprev : H q = some prev)
    (hn : 1 ≤ targetOf anchor.nBits.toNat) (hfits : targetOf anchor.nBits.toNat < 2 ^ 239) :
    anchor.nHeight = 6499 ∧ calculateASERT trap mainParams H p =
      getCompact trap false (asertValue (targetOf anchor.nBits.toNat)
        (((last.getBlockTime - prev.getBlockTime - ((last.nHeight : ℤ) - 6499 + 1) * 600) *
          65536).tdiv 172800)) := by
  have hat := Except.ok.inj ((hH.getAncestor_eq hp 6499).symm.trans hget)
  have hah := (hH.forest.height_ancestorAt (hH.mem_of_eq hp) hat).2
  rw [hH.forest_height ha] at hah
  have htime₁ : last.nTime.toNat < 2 ^ 32 := last.nTime.isLt
  have htime₂ : prev.nTime.toNat < 2 ^ 32 := prev.nTime.isLt
  refine ⟨hah, ?_⟩
  unfold calculateASERT IndexNode.getBlockTime
  rw [deref_eq hp, ok_bind, main_asertHeight, ok_bind]
  change (getAncestor H p 6499 >>= _) = _
  simp only [hget, ok_bind, deref_eq ha, hq, derefPtr, deref_eq hprev, main_spacing,
    main_halfLife, hah, Nat.cast_ofNat]
  rw [checked_signed (by omega) (by omega), ok_bind, checked_signed (by omega) (by omega),
    ok_bind, checked_signed (by omega) (by omega), ok_bind, divInt, if_neg (by norm_num), ok_bind]
  exact asertTarget_eq hn hfits _

theorem exists_calculateASERT (hp : H p = some last) (hr : ChainInRange hH p)
    (hlo : 6499 ≤ last.nHeight) (hhi : last.nHeight < 8098) :
    ∃ bits, calculateASERT trap mainParams H p = .ok bits ∧
      GoodBits mainParams.powLimit.toNat bits := by
  obtain ⟨a, ha, hamem, hah⟩ := hH.forest.exists_ancestorAt (hH.mem_of_eq hp) (k := 6499)
    (by rw [hH.forest_height hp]; exact hlo)
  obtain ⟨anchor, hanchor⟩ := hH.forest_mem.mp hamem
  rw [hH.forest_height hanchor] at hah
  have hget : getAncestor H p 6499 = .ok (some a) := by
    rw [← ha]
    exact hH.getAncestor_eq hp 6499
  cases hq : anchor.pprev with
  | none =>
    have h0 := hH.root hanchor hq
    omega
  | some q =>
    obtain ⟨prev, hprev, -⟩ := hH.parent hanchor hq
    obtain ⟨hn, hle⟩ := hr a anchor (hH.forest.ancestorAt_above ha) hanchor
    rw [main_powLimit] at hle
    obtain ⟨-, hasert⟩ := calculateASERT_eq hH hp (by omega) hget hanchor hq hprev hn (by omega)
    rw [hasert]
    obtain ⟨hpos, hle⟩ := asertValue_mem (targetOf anchor.nBits.toNat) _
    exact getCompact_good hpos hle mainParams.powLimit.isLt

theorem applyFastRiseProtection_main (hp : H p = some last) (hhi : last.nHeight < 8098)
    (asertBits : ℕ) : applyFastRiseProtection trap mainParams H p asertBits = .ok asertBits := by
  unfold applyFastRiseProtection
  rw [deref_eq hp, ok_bind]
  rw [main_fastRiseHeight, ok_bind, if_pos (by omega)]

variable {first : IndexNode} {algo : Algo}

include hH in
theorem exists_windowTimespan (hp : H p = some last) (hq : H q = some first) :
    ∃ span, windowTimespan trap mainParams H p q = .ok span ∧ 5520 ≤ span ∧ span ≤ 6960 := by
  obtain ⟨t₁, ht₁, hlo₁, hhi₁⟩ := hH.exists_getMedianTimePast hp
  obtain ⟨t₂, ht₂, hlo₂, hhi₂⟩ := hH.exists_getMedianTimePast hq
  obtain ⟨span, hspan⟩ := exists_dampTimespan 6000 (t₁ - t₂)
    (by norm_num) (by constructor <;> omega)
  have hclamp := clampTimespan_mem 5520 6960 (by norm_num) span
  refine ⟨clampTimespan 5520 6960 span, ?_, hclamp.1, hclamp.2⟩
  unfold windowTimespan
  rw [ht₁, ok_bind, ht₂, ok_bind, main_targetTimespan, ok_bind, hspan]
  rfl

theorem exists_windowRetarget (hp : H p = some last) (hr : ChainInRange hH p) :
    ∃ bits t, windowRetarget trap mainParams H p = .ok bits ∧ bits < 2 ^ 32 ∧
      setCompact trap bits = .ok ⟨t, false, false⟩ ∧ t ≤ mainParams.powLimit.toNat ∧
      (t = 0 → ∃ q span, stepBack H 10 (some p) = .ok (some q) ∧
        windowTimespan trap mainParams H p q = .ok span ∧
        (targetOf last.nBits.toNat : ℤ) * span < 6000) := by
  have hlim := mainParams.powLimit.isLt
  have hstep : stepBack H (10 : ℤ).toNat (some p) = .ok (up hH.forest.parent 10 p) :=
    hH.exists_stepBack 10 hp
  unfold windowRetarget
  rw [deref_eq hp, ok_bind, main_window, ok_bind, hstep, ok_bind]
  cases hq : up hH.forest.parent 10 p with
  | none =>
    obtain ⟨bits, hbits, hlt, t, hset, hpos, hle⟩ := getCompact_good
      (x := mainParams.powLimit.toNat) (by rw [main_powLimit]; norm_num) le_rfl hlim
    exact ⟨bits, t, hbits, hlt, hset, hle, fun h0 => by omega⟩
  | some q =>
    rw [hq] at hstep
    obtain ⟨first, hfirst⟩ := hH.forest_mem.mp
      (hH.forest.above_mem (hH.mem_of_eq hp) ⟨10, hq⟩).1
    obtain ⟨span, hspan, hspan₁, hspan₂⟩ := exists_windowTimespan hH hp hfirst
    have hrange := hr p last (hH.forest.above_refl p) hp
    have hscale := scaleTarget_eq hrange span 6000
      ⟨by omega, by omega⟩ (by norm_num)
    obtain ⟨x, hx⟩ : ∃ x, x = targetOf last.nBits.toNat * span.toNat / 6000 := ⟨_, rfl⟩
    obtain ⟨y, hy⟩ : ∃ y, y = if mainParams.powLimit.toNat < x then mainParams.powLimit.toNat
      else x := ⟨_, rfl⟩
    have hyle : y ≤ mainParams.powLimit.toNat := by
      rw [hy]
      split_ifs <;> omega
    have hrun : ∀ bits, getCompact trap false y = .ok bits →
        (windowTimespan trap mainParams H p q >>= fun nActualTimespan =>
          scaleTarget trap last.nBits.toNat nActualTimespan 6000 >>= fun bnNew =>
            getCompact trap false (if mainParams.powLimit.toNat < bnNew then
              mainParams.powLimit.toNat else bnNew)) = .ok bits := by
      intro bits hbits
      rw [hspan, ok_bind, hscale, ok_bind, ← hbits, hy, hx]
      rfl
    rcases Nat.eq_zero_or_pos y with h0 | hpos
    · refine ⟨0, 0, hrun 0 (by rw [h0]; decide), by norm_num, by decide, Nat.zero_le _, ?_⟩
      intro _
      refine ⟨q, span, hstep, hspan, ?_⟩
      have hx0 : x = 0 := by
        rw [hy, main_powLimit] at h0
        split_ifs at h0
        omega
      have hprod : targetOf last.nBits.toNat * span.toNat < 6000 := by omega
      have hcast : (span.toNat : ℤ) = span := Int.toNat_of_nonneg (by omega)
      rw [← hcast]
      exact_mod_cast hprod
    · obtain ⟨bits, hbits, hlt, t, hset, ht, hle⟩ := getCompact_good hpos hyle hlim
      exact ⟨bits, t, hrun bits hbits, hlt, hset, hle, fun h0 => by omega⟩

include hH in
theorem exists_multiAlgoRetarget (hp : H p = some last) (hq : H q = some first)
    {prevAlgo : IndexNode} (hr : InRange prevAlgo.nBits.toNat) :
    ∃ bits, multiAlgoRetarget trap mainParams H p q prevAlgo 20 = .ok bits ∧
      GoodBits mainParams.powLimit.toNat bits := by
  have hlim := mainParams.powLimit.isLt
  obtain ⟨t₁, ht₁, hlo₁, hhi₁⟩ := hH.exists_getMedianTimePast hp
  obtain ⟨t₂, ht₂, hlo₂, hhi₂⟩ := hH.exists_getMedianTimePast hq
  obtain ⟨damped, hdamped⟩ := exists_dampTimespan 12000 (t₁ - t₂)
    (by norm_num) (by constructor <;> omega)
  have hclamp := clampTimespan_mem 11040 13920 (by norm_num) damped
  obtain ⟨span, hspan⟩ : ∃ span, span = clampTimespan 11040 13920 damped := ⟨_, rfl⟩
  rw [← hspan] at hclamp
  have hscale := scaleTarget_eq hr span 12000
    ⟨by omega, by omega⟩ (by norm_num)
  have hscaled : targetOf prevAlgo.nBits.toNat * span.toNat / (12000 : ℤ).toNat < 2 ^ 240 := by
    have hle := hr.2
    rw [main_powLimit] at hle
    have hact : span.toNat ≤ 13920 := by omega
    have hprod : targetOf prevAlgo.nBits.toNat * span.toNat ≤ (2 ^ 236 - 1) * 13920 := by gcongr
    change _ / 12000 < 2 ^ 240
    omega
  obtain ⟨y, hy⟩ := exists_adjustTarget mainParams.powLimit.toNat
    (by rw [main_powLimit]; norm_num) hscaled
    ((prevAlgo.nHeight : ℤ) + numAlgos - 1 - last.nHeight)
  obtain ⟨hpos, hle⟩ := clampTarget_pos mainParams.powLimit.toNat
    (by rw [main_powLimit]; norm_num) y
  obtain ⟨bits, hbits, hgood⟩ := getCompact_good hpos hle hlim
  refine ⟨bits, ?_, hgood⟩
  have hmin : divInt (20 * 600 * 5520) 6000 = .ok 11040 := by decide
  have hmax : divInt (20 * 600 * 6960) 6000 = .ok 13920 := by decide
  unfold multiAlgoRetarget
  rw [deref_eq hp, ok_bind, main_spacing, ok_bind,
    checked_signed (by norm_num) (by norm_num), ok_bind, ht₁, ok_bind, ht₂,
    ok_bind]
  change (dampTimespan trap 12000 (t₁ - t₂) >>= _) = _
  rw [hdamped, ok_bind, main_minTimespan, ok_bind,
    checked_signed (by norm_num) (by norm_num), ok_bind, main_targetTimespan,
    ok_bind, hmin, ok_bind, main_maxTimespan, ok_bind,
    checked_signed (by norm_num) (by norm_num), ok_bind, hmax, ok_bind]
  change (scaleTarget trap _ (clampTimespan 11040 13920 damped) 12000 >>= _) = _
  rw [← hspan, hscale, ok_bind]
  dsimp only
  rw [hy, ok_bind]
  exact hbits

theorem exists_randomXInitialDifficulty :
    ∃ bits, randomXInitialDifficulty trap mainParams = .ok bits ∧
      GoodBits mainParams.powLimit.toNat bits := by
  have hval : mainParams.randomXInitialTarget.toNat = 0x359bc1 * 2 ^ 208 := by decide
  unfold randomXInitialDifficulty
  rw [hval]
  apply getCompact_good
  · norm_num
  · rw [main_powLimit]
    norm_num
  · exact mainParams.powLimit.isLt

theorem exists_initialDifficulty :
    ∃ bits, initialDifficulty trap mainParams = .ok bits ∧
      GoodBits mainParams.powLimit.toNat bits := by
  apply getCompact_good
  · rw [main_powLimit]
    norm_num
  · exact le_rfl
  · exact mainParams.powLimit.isLt

theorem exists_calculateMultiAlgo (hp : H p = some last) (hr : ChainInRange hH p)
    (hlo : 8098 ≤ last.nHeight) (ha : algo ≠ .unknown) :
    ∃ bits, calculateMultiAlgoWorkRequired trap mainParams H (some p) algo = .ok bits ∧
      GoodBits mainParams.powLimit.toNat bits := by
  unfold calculateMultiAlgoWorkRequired
  rcases hH.exists_getLastBlockIndexForAlgoFast ha hp with hnone | ⟨q, prev, hq, hprev, -, habove⟩
  · simp only [hnone, ok_bind]
    split_ifs
    · exact exists_randomXInitialDifficulty
    · exact exists_initialDifficulty
  · have hrange := hr q prev habove hprev
    have hheight := hH.forest_height hp
    obtain ⟨r, hr', hrmem, -⟩ := hH.forest.exists_up (hH.mem_of_eq hp) (n := 20) (by omega)
    obtain ⟨first, hfirst⟩ := hH.forest_mem.mp hrmem
    have hstep : stepBack H (20 : ℤ).toNat (some p) = .ok (some r) := by
      rw [← hr']
      exact hH.exists_stepBack 20 hp
    obtain ⟨bits, hbits, hgood⟩ := exists_multiAlgoRetarget hH hp hfirst hrange
    refine ⟨bits, ?_, hgood⟩
    have hwindow : trap.signed 64 (10 * (numAlgos : ℤ)) = .ok 20 := by decide
    dsimp only
    rw [hq, ok_bind]
    dsimp only
    rw [deref_eq hprev, ok_bind, main_noRetargeting, ok_bind,
      if_neg (by decide), main_window, ok_bind, hwindow, ok_bind, hstep,
      ok_bind]
    exact hbits

theorem exists_getNextWorkRequired (hp : H p = some last) (hr : ChainInRange hH p)
    (ha : algo ≠ .unknown) :
    ∃ bits t, getNextWorkRequired trap mainParams H (some p) algo = .ok bits ∧ bits < 2 ^ 32 ∧
      setCompact trap bits = .ok ⟨t, false, false⟩ ∧ t ≤ mainParams.powLimit.toNat ∧
      (6500 ≤ last.nHeight + 1 → 1 ≤ t) ∧
      (t = 0 → ∃ q span, stepBack H 10 (some p) = .ok (some q) ∧
        windowTimespan trap mainParams H p q = .ok span ∧
        (targetOf last.nBits.toNat : ℤ) * span < 6000) := by
  have hgood : ∀ bits, GoodBits mainParams.powLimit.toNat bits →
      ∃ t, bits < 2 ^ 32 ∧ setCompact trap bits = .ok ⟨t, false, false⟩ ∧
        t ≤ mainParams.powLimit.toNat ∧ (6500 ≤ last.nHeight + 1 → 1 ≤ t) ∧
        (t = 0 → ∃ q span, stepBack H 10 (some p) = .ok (some q) ∧
          windowTimespan trap mainParams H p q = .ok span ∧
          (targetOf last.nBits.toNat : ℤ) * span < 6000) := by
    rintro bits ⟨hlt, t, hset, hpos, hle⟩
    exact ⟨t, hlt, hset, hle, fun _ => hpos, fun h0 => by omega⟩
  unfold getNextWorkRequired
  rw [if_neg ha]
  dsimp only
  rw [deref_eq hp, ok_bind, main_randomXHeight, ok_bind]
  by_cases hx : (8099 : ℤ) ≤ last.nHeight + 1
  · rw [if_pos hx]
    obtain ⟨bits, hbits, hg⟩ := exists_calculateMultiAlgo hH hp hr (by omega) ha
    obtain ⟨t, ht⟩ := hgood bits hg
    exact ⟨bits, t, hbits, ht⟩
  · rw [if_neg hx]
    by_cases hrx : algo = .randomX
    · rw [if_pos hrx]
      obtain ⟨bits, hbits, hg⟩ := exists_randomXInitialDifficulty
      obtain ⟨t, ht⟩ := hgood bits hg
      exact ⟨bits, t, hbits, ht⟩
    · have hasert : asertActive mainParams last = .ok (decide ((6500 : ℤ) ≤ last.nHeight + 1)) := rfl
      rw [if_neg hrx, hasert, ok_bind]
      by_cases h65 : (6500 : ℤ) ≤ last.nHeight + 1
      · obtain ⟨bits, hbits, hg⟩ := exists_calculateASERT hH hp hr (by omega) (by omega)
        obtain ⟨t, ht⟩ := hgood bits hg
        refine ⟨bits, t, ?_, ht⟩
        rw [if_pos (by simpa using h65), hbits, ok_bind]
        exact applyFastRiseProtection_main hp (by omega) bits
      · obtain ⟨bits, t, hrun, hlt, hset, hle, h0⟩ := exists_windowRetarget hH hp hr
        refine ⟨bits, t, ?_, hlt, hset, hle, fun h => by omega, h0⟩
        rw [if_neg (by simpa using h65)]
        exact hrun

end Chain

/-- For a chain with bits in range the checked reading of retargeting returns: no pointer is null,
no divisor zero and no high bit lost, and the program returns what exact arithmetic does. From the
ASERT activation on the target is in range; below, it may round down to zero. -/
theorem getNextWorkRequired_exact (T : BlockTree) {p : Uint256} {last : IndexNode}
    (hp : T.heap p = some last) (hr : ChainInRange T.linked p) {algo : Algo}
    (ha : algo ≠ .unknown) :
    ∃ bits t, getNextWorkRequired trap mainParams T.heap (some p) algo = .ok bits ∧
      getNextWorkRequired .machine mainParams T.heap (some p) algo = .ok bits ∧
      getNextWorkRequired .exact mainParams T.heap (some p) algo = .ok bits ∧
      bits < 2 ^ 32 ∧ setCompact .machine bits = .ok ⟨t, false, false⟩ ∧
      t ≤ mainParams.powLimit.toNat ∧ (6500 ≤ last.nHeight + 1 → 1 ≤ t) ∧
      (t = 0 → ∃ q span, stepBack T.heap 10 (some p) = .ok (some q) ∧
        windowTimespan .machine mainParams T.heap p q = .ok span ∧
        (targetOf last.nBits.toNat : ℤ) * span < 6000) := by
  obtain ⟨bits, t, hrun, hlt, hset, hle, hpos, hzero⟩ :=
    exists_getNextWorkRequired T.linked hp hr ha
  have hmachine := checked_le_machine Fault.lostBits
  have hexact := checked_le_exact Fault.lostBits
  have hheap : T.heap.Le T.heap := fun _ _ h => h
  refine ⟨bits, t, hrun, ?_, ?_, hlt, ?_, hle, hpos, ?_⟩
  · exact getNextWorkRequired_mono mainParams hmachine hheap _ _ bits hrun
  · exact getNextWorkRequired_mono mainParams hexact hheap _ _ bits hrun
  · exact setCompact_mono hmachine bits _ hset
  · intro h0
    obtain ⟨q, span, hstep, hspan, hlt⟩ := hzero h0
    exact ⟨q, span, hstep, windowTimespan_mono mainParams hmachine hheap p q span hspan, hlt⟩

end Vexta
