import Vexta.Chain.Line
import Vexta.Pow.MainNet
import Mathlib.Algebra.Order.Field.Power
import Mathlib.Tactic.Positivity

/-! How the target of a SHA256D block in the ASERT phase depends on the chain below it. -/
namespace Vexta
open Lib Uint256 Heap Arith

theorem asertPoly_le {a b : ℕ} (h : a ≤ b) : asertPoly a ≤ asertPoly b := by
  unfold asertPoly
  gcongr

/-- Monotone in the exponent: where the fraction wraps, the shift makes up for it. -/
theorem asertValue_le (target : ℕ) {e e' : ℤ} (h : e ≤ e') :
    asertValue target e ≤ asertValue target e' := by
  have hmul : asertPoly (e % 65536).toNat * (2 : ℚ) ^ (e / 65536 - 16) ≤
      asertPoly (e' % 65536).toNat * (2 : ℚ) ^ (e' / 65536 - 16) := by
    rcases (show e / 65536 ≤ e' / 65536 by omega).eq_or_lt with heq | hlt
    · have hfrac : (e % 65536).toNat ≤ (e' % 65536).toNat := by omega
      rw [heq]
      gcongr
      exact asertPoly_le hfrac
    · have hlow : 65536 ≤ asertPoly (e' % 65536).toNat := by
        unfold asertPoly
        omega
      have hfactor := (asertFactor_eq (e % 65536).toNat (by omega)).2
      have hcast : (asertPoly (e % 65536).toNat : ℚ) ≤ asertPoly (e' % 65536).toNat * 2 := by
        exact_mod_cast (by omega : asertPoly (e % 65536).toNat ≤ asertPoly (e' % 65536).toNat * 2)
      calc
        _ ≤ asertPoly (e' % 65536).toNat * 2 * (2 : ℚ) ^ (e / 65536 - 16) := by gcongr
        _ = asertPoly (e' % 65536).toNat * (2 : ℚ) ^ (e / 65536 - 16 + 1) := by
          rw [zpow_add₀ (by norm_num)]
          ring
        _ ≤ _ := by
          gcongr
          · norm_num
          · omega
  have hscaled : (target * asertPoly (e % 65536).toNat : ℕ) * (2 : ℚ) ^ (e / 65536 - 16) ≤
      (target * asertPoly (e' % 65536).toNat : ℕ) * (2 : ℚ) ^ (e' / 65536 - 16) := by
    push_cast
    rw [mul_assoc, mul_assoc]
    exact mul_le_mul_of_nonneg_left hmul target.cast_nonneg
  unfold asertValue
  gcongr

theorem asertValue_zero (target : ℕ) :
    asertValue target 0 = max 1 (min mainParams.powLimit.toNat target) := by
  have hpoly : asertPoly 0 = 2 ^ 16 := by decide
  have hval : ((target * asertPoly 0 : ℕ) : ℚ) * 2 ^ (-16 : ℤ) = target := by
    rw [hpoly, zpow_neg, zpow_ofNat, ← div_eq_mul_inv]
    push_cast
    ring
  change max 1 (min _ ⌊((target * asertPoly 0 : ℕ) : ℚ) * 2 ^ (-16 : ℤ)⌋₊) = _
  rw [hval, Nat.floor_natCast]

/-- A main network chain beyond its ASERT anchor; the anchor's target times the factor of 17 bits
fits in 256 bits. -/
structure AsertChain extends BlockTree where
  tip : Uint256
  last : IndexNode
  tip_eq : heap tip = some last
  height_lt : last.nHeight < 2 ^ 31
  anchorHash : Uint256
  anchor : IndexNode
  getAncestor_eq : getAncestor heap tip 6499 = .ok (some anchorHash)
  anchor_eq : heap anchorHash = some anchor
  pos : 1 ≤ targetOf anchor.nBits.toNat
  fits : targetOf anchor.nBits.toNat < 2 ^ 239
  prevHash : Uint256
  prev : IndexNode
  pprev_eq : anchor.pprev = some prevHash
  prev_eq : heap prevHash = some prev

namespace AsertChain
variable (C : AsertChain)

def exponent : ℤ :=
  ((C.last.getBlockTime - C.prev.getBlockTime - ((C.last.nHeight : ℤ) - 6499 + 1) * 600) *
    65536).tdiv 172800

theorem exists_calculateASERT : ∃ bits, calculateASERT .machine mainParams C.heap C.tip = .ok bits ∧
    getCompact trap false (asertValue (targetOf C.anchor.nBits.toNat) C.exponent) = .ok bits ∧
    C.anchor.nHeight = 6499 := by
  obtain ⟨hheight, hasert⟩ := calculateASERT_eq C.linked C.tip_eq C.height_lt C.getAncestor_eq
    C.anchor_eq C.pprev_eq C.prev_eq C.pos C.fits
  obtain ⟨hpos, hle⟩ := asertValue_mem (targetOf C.anchor.nBits.toNat) C.exponent
  obtain ⟨bits, hbits, -⟩ := getCompact_good hpos hle mainParams.powLimit.isLt
  refine ⟨bits, ?_, hbits, hheight⟩
  exact calculateASERT_mono mainParams (checked_le_machine _) (Le.refl _) _ _ (hasert.trans hbits)

/-- For chains with the same anchor target and anchor parent time: at equal heights a later last
block never gives a smaller target, at equal times a greater height never a larger one; on schedule
it is the anchor's, clamped to the limit. -/
theorem calculateASERT_ordered (C D : AsertChain)
    (htarget : targetOf C.anchor.nBits.toNat = targetOf D.anchor.nBits.toNat)
    (htime : C.prev.nTime = D.prev.nTime) :
    ∃ c d, calculateASERT .machine mainParams C.heap C.tip = .ok c ∧
      calculateASERT .machine mainParams D.heap D.tip = .ok d ∧
      (C.last.nHeight = D.last.nHeight → C.last.nTime ≤ D.last.nTime → targetOf c ≤ targetOf d) ∧
      (C.last.nTime = D.last.nTime → C.last.nHeight ≤ D.last.nHeight →
        targetOf d ≤ targetOf c) ∧
      (C.last.getBlockTime - C.prev.getBlockTime =
          ((C.last.nHeight : ℤ) - C.anchor.nHeight + 1) * 600 →
        getCompact .machine false (min (targetOf C.anchor.nBits.toNat) mainParams.powLimit.toNat) =
          .ok c ∧
        (targetOf C.anchor.nBits.toNat ≤ mainParams.powLimit.toNat →
          targetOf c = targetOf C.anchor.nBits.toNat)) := by
  obtain ⟨c, hc, hcbits, hheight⟩ := C.exists_calculateASERT
  obtain ⟨d, hd, hdbits, -⟩ := D.exists_calculateASERT
  have hle : ∀ {t : ℕ} {e e' : ℤ} {b b' : ℕ}, e ≤ e' →
      getCompact trap false (asertValue t e) = .ok b →
      getCompact trap false (asertValue t e') = .ok b' → targetOf b ≤ targetOf b' := by
    intro t e e' b b' hee
    refine targetOf_getCompact_le (asertValue_mem t e).1 (asertValue_le t hee) ?_
    exact (asertValue_mem t e').2.trans_lt mainParams.powLimit.isLt
  rw [← htarget] at hdbits
  refine ⟨c, d, hc, hd, ?_, ?_, ?_⟩
  · intro hheights htimes
    refine hle ?_ hcbits hdbits
    have hnat : C.last.nTime.toNat ≤ D.last.nTime.toNat := htimes
    refine Int.tdiv_le_tdiv (by norm_num) ?_
    unfold IndexNode.getBlockTime
    rw [hheights, htime]
    omega
  · intro htimes hheights
    refine hle ?_ hdbits hcbits
    refine Int.tdiv_le_tdiv (by norm_num) ?_
    unfold IndexNode.getBlockTime
    rw [htimes, htime]
    omega
  · intro hschedule
    have hzero : C.exponent = 0 := by
      rw [exponent, hschedule, hheight]
      norm_num
    have hpos := C.pos
    have hlt := mainParams.powLimit.isLt
    have hmin : 1 ≤ min (targetOf C.anchor.nBits.toNat) mainParams.powLimit.toNat :=
      le_min hpos (by rw [main_powLimit]; norm_num)
    rw [hzero, asertValue_zero, min_comm, max_eq_right hmin] at hcbits
    refine ⟨getCompact_mono (checked_le_machine _) _ _ _ hcbits, fun hlimit => ?_⟩
    rw [min_eq_left hlimit] at hcbits
    obtain ⟨c', hc', -, -, hgreatest⟩ := setCompact_getCompact (hlimit.trans_lt hlt) hpos
    cases hcbits.symm.trans hc'
    exact le_antisymm hgreatest.1.2 (hgreatest.2 ⟨representable_targetOf _, le_rfl⟩)

end AsertChain

def lineChain (n : ℕ) (hlo : 6499 ≤ n) (hhi : n < 2 ^ 31) : AsertChain where
  toBlockTree := lineTree 1782770400 0x1e0fffff n (by omega)
  tip := .ofNat 256 n
  last := lineNode 1782770400 0x1e0fffff n
  tip_eq := lineHeap_ofNat (by omega) le_rfl
  height_lt := hhi
  anchorHash := .ofNat 256 6499
  anchor := lineNode 1782770400 0x1e0fffff 6499
  getAncestor_eq := getAncestor_lineHeap (k := 6499) (by omega) hlo le_rfl
  anchor_eq := lineHeap_ofNat (by omega) hlo
  pos := (by decide : 1 ≤ targetOf 0x1e0fffff)
  fits := (by decide : targetOf 0x1e0fffff < 2 ^ 239)
  prevHash := .ofNat 256 6498
  prev := lineNode 1782770400 0x1e0fffff 6498
  pprev_eq := rfl
  prev_eq := lineHeap_ofNat (by omega) (by omega)

theorem calculateASERT_ordered_line : ∃ c d,
    calculateASERT .machine mainParams (lineChain 6499 le_rfl (by decide)).heap (.ofNat 256 6499) =
      .ok c ∧
    calculateASERT .machine mainParams (lineChain 6600 (by decide) (by decide)).heap
      (.ofNat 256 6600) = .ok d ∧ targetOf d ≤ targetOf c := by
  obtain ⟨c, d, hc, hd, -, hheights, -⟩ := AsertChain.calculateASERT_ordered
    (lineChain 6499 le_rfl (by decide)) (lineChain 6600 (by decide) (by decide)) rfl rfl
  exact ⟨c, d, hc, hd, hheights rfl (by decide : 6499 ≤ 6600)⟩

/-- With an anchor target of `2 ^ 240` the product loses its high bit: 288 blocks after the anchor's
parent, all of one time, the target is 1, and one block later it is greater. -/
theorem calculateASERT_wraps :
    calculateASERT .machine mainParams (lineTree 1782770400 0x1f010000 6786 (by decide)).heap 6786 =
      .ok 0x01010000 ∧
    ∃ bits, calculateASERT .machine mainParams
      (lineTree 1782770400 0x1f010000 6787 (by decide)).heap 6787 = .ok bits ∧
      targetOf 0x01010000 < targetOf bits := by
  constructor
  · decide +kernel
  · refine ⟨0x1e0fffff, ?_, ?_⟩
    · decide +kernel
    · decide

/-- The RandomX target after 9000 blocks of one time. -/
theorem getNextWorkRequired_exact_line : ∃ bits t,
    getNextWorkRequired trap mainParams (lineTree 1782770400 0x1e0fffff 9000 (by decide)).heap
      (some 9000) .randomX = .ok bits ∧
    setCompact .machine bits = .ok ⟨t, false, false⟩ ∧ 1 ≤ t ∧ t ≤ mainParams.powLimit.toNat := by
  have hrange : ChainInRange (lineTree 1782770400 0x1e0fffff 9000 (by decide)).linked 9000 := by
    intro q index _ hq
    obtain ⟨-, rfl⟩ := lineHeap_eq_some.mp hq
    exact (by decide : 1 ≤ targetOf 0x1e0fffff ∧ targetOf 0x1e0fffff ≤ mainParams.powLimit.toNat)
  obtain ⟨bits, t, hrun, -, -, -, hset, hle, hpos, -⟩ := getNextWorkRequired_exact
    (lineTree 1782770400 0x1e0fffff 9000 (by decide)) (lineHeap_ofNat (by decide) le_rfl) hrange
    (by decide : Algo.randomX ≠ .unknown)
  exact ⟨bits, t, hrun, hset, hpos (by decide), hle⟩

def solveTimes (H : Heap) : ℕ → Uint256 → List ℤ
  | 0, _ => []
  | n + 1, p =>
    match H p with
    | none => []
    | some index =>
      match index.pprev with
      | none => []
      | some q => (H q).elim [] fun prev =>
        (index.getBlockTime - prev.getBlockTime) :: solveTimes H n q

theorem countFastIntervals_eq {H : Heap} (hH : Linked H) (threshold : ℤ) (n : ℕ) {p : Uint256}
    {index : IndexNode} (hp : H p = some index) :
    countFastIntervals H threshold n (some p) = .ok (if (solveTimes H n p).length = n then
      some ((solveTimes H n p).countP (· < threshold)) else none) := by
  induction n generalizing p index with
  | zero => rfl
  | succ n ih =>
    unfold countFastIntervals solveTimes
    simp only [deref_eq hp, hp, ok_bind]
    cases hq : index.pprev with
    | none => rfl
    | some q =>
      obtain ⟨prev, hprev, -⟩ := hH.parent hp hq
      simp only [deref_eq hprev, hprev, ok_bind, ih hprev, Option.elim_some, List.length_cons,
        List.countP_cons, Nat.add_right_cancel_iff, decide_eq_true_eq]
      split_ifs <;> rfl

/-- Under Fast-Rise the target of a SHA256D block is at most the ASERT target. When the last four
blocks have solve times and three are below a fifth of the spacing, it is at most half the previous
target; otherwise it is the ASERT target. -/
theorem getNextWorkRequired_fastRise (T : BlockTree) (params : Params) {p : Uint256}
    {last : IndexNode} (hp : T.heap p = some last) {randomXHeight fastRiseHeight spacing : ℤ}
    (hrandomX : params.randomXActivationHeight = some randomXHeight)
    (hbefore : (last.nHeight : ℤ) + 1 < randomXHeight) (hasert : asertActive params last = .ok true)
    (hfast : params.fastRiseActivationHeight = some fastRiseHeight)
    (hactive : fastRiseHeight ≤ (last.nHeight : ℤ) + 1)
    (hspacing : params.nPowTargetSpacing = some spacing) {asertBits : ℕ}
    (hbits : calculateASERT .machine params T.heap p = .ok asertBits) :
    ∃ bits, getNextWorkRequired .machine params T.heap (some p) .sha256d = .ok bits ∧
      targetOf bits ≤ targetOf asertBits ∧
      if (solveTimes T.heap 4 p).length = 4 ∧
          3 ≤ (solveTimes T.heap 4 p).countP (· < spacing.tdiv 5) then
        targetOf bits ≤ max 1 (targetOf last.nBits.toNat / 2)
      else bits = asertBits := by
  have hrun : getNextWorkRequired .machine params T.heap (some p) .sha256d =
      applyFastRiseProtection .machine params T.heap p asertBits := by
    simp only [getNextWorkRequired, deref_eq hp, hrandomX, readParam_some, ok_bind, hasert, hbits,
      if_neg (Int.not_le.mpr hbefore), reduceCtorEq, if_false, if_true]
  have htrigger : shouldTriggerFastRise params T.heap p =
      .ok (decide ((solveTimes T.heap 4 p).length = 4 ∧
        3 ≤ (solveTimes T.heap 4 p).countP (· < spacing.tdiv 5))) := by
    simp only [shouldTriggerFastRise, hspacing, readParam_some, ok_bind,
      countFastIntervals_eq T.linked _ 4 hp]
    split_ifs with hlen <;> simp [hlen]
  have hset := exists_setCompact
  rw [hrun]
  simp only [applyFastRiseProtection, deref_eq hp, hfast, readParam_some, ok_bind,
    if_neg (Int.not_lt.mpr hactive), htrigger, decide_eq_true_eq]
  by_cases hcond : (solveTimes T.heap 4 p).length = 4 ∧
      3 ≤ (solveTimes T.heap 4 p).countP (· < spacing.tdiv 5)
  · simp only [if_pos hcond, if_neg (not_not.mpr hcond)]
    obtain ⟨r, hr, hrt, -⟩ := hset asertBits
    obtain ⟨r', hr', hrt', hlt⟩ := hset last.nBits.toNat
    have hhalf : (if r'.target >>> 1 = 0 then 1 else r'.target >>> 1) =
        max 1 (targetOf last.nBits.toNat / 2) := by
      rw [hrt', Nat.shiftRight_eq_div_pow]
      split_ifs <;> omega
    simp only [hr, hr', ok_bind, hhalf, hrt]
    split_ifs with hlow
    · exact ⟨asertBits, rfl, le_rfl, hlow.le⟩
    · obtain ⟨bits, hget, -, -, hgreatest⟩ := setCompact_getCompact
        (x := max 1 (targetOf last.nBits.toNat / 2)) (by omega) (by omega)
      refine ⟨bits, getCompact_mono (checked_le_machine _) _ _ _ hget, ?_, hgreatest.1.2⟩
      exact hgreatest.1.2.trans (Nat.le_of_not_lt hlow)
  · simp only [if_pos hcond, if_neg hcond]
    exact ⟨asertBits, rfl, le_rfl, rfl⟩

def fastRiseParams : Params :=
  { mainParams with asertActivationHeight := some 2, fastRiseActivationHeight := some 0 }

theorem getNextWorkRequired_fastRise_line : ∃ bits,
    getNextWorkRequired .machine fastRiseParams (lineTree 0 0x1e0fffff 5 (by decide)).heap (some 5)
      .sha256d = .ok bits ∧ targetOf bits ≤ targetOf 0x1e0fffff / 2 := by
  have hbits : calculateASERT .machine fastRiseParams (lineHeap 0 0x1e0fffff 5) 5 =
      .ok 0x1e0fcf27 := by
    decide +kernel
  have hlast : (lineTree 0 0x1e0fffff 5 (by decide)).heap 5 = some (lineNode 0 0x1e0fffff 5) := rfl
  obtain ⟨bits, hrun, -, hle⟩ := getNextWorkRequired_fastRise _ fastRiseParams hlast rfl (by decide)
    rfl rfl (by decide) rfl hbits
  rw [if_pos (by decide)] at hle
  exact ⟨bits, hrun, hle⟩

end Vexta
