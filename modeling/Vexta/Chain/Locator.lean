import Vexta.Chain.Active
import Mathlib.Data.Nat.Log
import Mathlib.Tactic.IntervalCases

/-! Block locators: hashes of ancestors at exponentially growing distances. -/
namespace Vexta
open Lib Heap Option List Forest

namespace CChain
variable (A : Arith Fault) (H : Heap) (chain : CChain)

def tip : Option Uint256 := chain.getLast?.join

def locatorNext (p : Uint256) (index : IndexNode) (nHeight : ℤ) : Except Fault (Option Uint256) :=
  if chain.contains p index then .ok (chain.get nHeight) else getAncestor H p nHeight

def locatorStep (size : ℕ) (nStep : ℤ) : Except Fault ℤ :=
  if 10 < size then A.signed 32 (nStep * 2) else .ok nStep

/-- The loop of `GetLocator`. Height and step are positive where subtracted. -/
def locatorLoop : ℕ → Option Uint256 → ℤ → ℕ → Except Fault (List Uint256)
  | _, none, _, _ => .ok []
  | 0, some _, _, _ => .error .outOfFuel
  | fuel + 1, some p, nStep, size => do
    let index ← H.deref p
    if index.nHeight = 0 then .ok [p]
    else do
      let next ← locatorNext H chain p index (max (index.nHeight - nStep) 0)
      let nStep ← locatorStep A (size + 1) nStep
      let vHave ← locatorLoop fuel next nStep (size + 1)
      .ok (p :: vHave)

def getLocator (pindex : Option Uint256) : Except Fault (List Uint256) :=
  match pindex.or chain.tip with
  | none => .ok []
  | some p => do
    let index ← H.deref p
    locatorLoop A H chain (index.nHeight + 1) (some p) 1 0

end CChain

def locatorOffset : ℕ → ℕ
  | 0 => 0
  | i + 1 => locatorOffset i + 2 ^ (i - 10)

theorem locatorOffset_of_le {i : ℕ} (h : i ≤ 11) : locatorOffset i = i := by
  interval_cases i <;> rfl

theorem locatorOffset_add (i : ℕ) : locatorOffset (i + 11) = 9 + 2 ^ (i + 1) := by
  induction i with
  | zero => rfl
  | succ i ih =>
    rw [Nat.succ_add, locatorOffset, ih, show i + 11 - 10 = i + 1 by omega, pow_succ 2 (i + 1)]
    omega

theorem locatorOffset_strictMono : StrictMono locatorOffset :=
  strictMono_nat_of_lt_succ fun _ => Nat.lt_add_of_pos_right (Nat.two_pow_pos _)

theorem locatorStep_eq (i : ℕ) : CChain.locatorStep trap (i + 1) (2 ^ (i - 10)) =
    if i < 40 then .ok (2 ^ (i + 1 - 10)) else .error .lostBits := by
  unfold CChain.locatorStep
  by_cases hi : i < 10
  · rw [if_neg (by omega), if_pos (by omega), show i - 10 = i + 1 - 10 by omega]
  · obtain ⟨k, rfl⟩ := Nat.exists_eq_add_of_le (Nat.le_of_not_lt hi)
    rw [if_pos (by omega), show 10 + k - 10 = k by omega, show 10 + k + 1 - 10 = k + 1 by omega,
      ← pow_succ]
    have hpow : ((2 : ℤ) ^ (k + 1) * 2 < 2 ^ 32) ↔ 10 + k < 40 := by
      rw [← pow_succ, pow_lt_pow_iff_right₀ (by norm_num)]
      omega
    have hpos : (0 : ℤ) < 2 ^ (k + 1) := by positivity
    split_ifs with hk
    · exact Arith.checked_signed (by linarith) (by linarith [hpow.mpr hk])
    · simp only [Arith.checked]
      rw [if_neg fun h => hk (hpow.mp (by linarith [h.2]))]

namespace Linked
variable {H : Heap} (hH : Linked H) {p q : Uint256} {index node : IndexNode} {tip : Option Uint256}

theorem locatorNext_eq (htip : ∀ q ∈ tip, hH.forest.Mem q) (hp : H p = some index) {k : ℕ}
    (hk : k ≤ index.nHeight) : CChain.locatorNext H (hH.forest.wayTo tip) p index k =
      .ok (hH.forest.ancestorAt k p) := by
  unfold CChain.locatorNext
  split_ifs with h
  · rw [hH.contains_wayTo htip hp, hH.forest.mem_wayTo htip] at h
    obtain ⟨t, rfl, habove⟩ := h
    rw [hH.get_wayTo, bind_some, hH.forest.ancestorAt_above_eq (htip t rfl) habove]
    rw [hH.forest_height hp]
    exact hk
  · exact hH.getAncestor_eq hp k

section
variable (htip : ∀ q ∈ tip, hH.forest.Mem q) (hp : hH.forest.Mem p) {i : ℕ}
  (hq : hH.forest.ancestorAt (hH.forest.height p - locatorOffset i) p = some q)
include htip hp hq

theorem locatorLoop_succ (hlt : locatorOffset i < hH.forest.height p) (fuel : ℕ) :
    CChain.locatorLoop trap H (hH.forest.wayTo tip) (fuel + 1) (some q) (2 ^ (i - 10)) i =
      (if i < 40 then .ok (2 ^ (i + 1 - 10)) else .error .lostBits) >>= fun nStep =>
        CChain.locatorLoop trap H (hH.forest.wayTo tip) fuel
          (hH.forest.ancestorAt (hH.forest.height p - locatorOffset (i + 1)) p) nStep (i + 1) >>=
        fun vHave => .ok (q :: vHave) := by
  have habove := hH.forest.ancestorAt_above hq
  obtain ⟨index, hindex⟩ := hH.forest_mem.mp (hH.forest.above_mem hp habove).1
  have hheight := (hH.forest.height_ancestorAt hp hq).2
  have hoffset : locatorOffset (i + 1) = locatorOffset i + 2 ^ (i - 10) := rfl
  have hmax : max ((index.nHeight : ℤ) - 2 ^ (i - 10)) 0 =
      ((hH.forest.height p - locatorOffset (i + 1) : ℕ) : ℤ) := by
    rw [hH.forest_height hindex] at hheight
    rw [hheight, hoffset]
    have hpow : (2 : ℤ) ^ (i - 10) = (2 ^ (i - 10) : ℕ) := by push_cast; rfl
    omega
  have hpos := Nat.two_pow_pos (i - 10)
  rw [hH.forest_height hindex] at hheight
  rw [CChain.locatorLoop, deref_eq hindex, ok_bind, if_neg (by omega)]
  rw [hmax, hH.locatorNext_eq htip hindex (by omega), ok_bind, locatorStep_eq,
    hH.forest.ancestorAt_above_eq hp habove]
  rw [hH.forest_height hindex]
  omega

theorem locatorLoop_ne_ok (hmax : 2 ^ 30 + 9 < hH.forest.height p) (hi : i ≤ 40) (fuel : ℕ)
    (l : List Uint256) : CChain.locatorLoop trap H (hH.forest.wayTo tip) fuel (some q)
      (2 ^ (i - 10)) i ≠ .ok l := by
  have hoffset : ∀ {i}, i ≤ 40 → locatorOffset i < hH.forest.height p := by
    intro i hi
    have h := locatorOffset_strictMono.monotone hi
    rw [show 40 = 29 + 11 from rfl, locatorOffset_add] at h
    omega
  induction fuel generalizing i q l with
  | zero =>
    intro heq
    cases heq
  | succ fuel ih =>
    rw [hH.locatorLoop_succ htip hp hq (hoffset hi)]
    intro heq
    split_ifs at heq with hlast
    · rw [ok_bind] at heq
      obtain ⟨vHave, hrest, -⟩ := bind_eq_ok.mp heq
      obtain ⟨q', hq', -⟩ := hH.forest.exists_ancestorAt hp (Nat.sub_le _ (locatorOffset (i + 1)))
      rw [hq'] at hrest
      exact ih hq' hlast vHave hrest
    · cases heq

theorem exists_locatorLoop (hmax : hH.forest.height p ≤ 2 ^ 30 + 9) {fuel : ℕ}
    (hfuel : hH.forest.height p - locatorOffset i < fuel) :
    ∃ l n, CChain.locatorLoop trap H (hH.forest.wayTo tip) fuel (some q) (2 ^ (i - 10)) i = .ok l ∧
      hH.forest.height p ≤ locatorOffset n ∧
      (∀ j, i ≤ j → j < n → locatorOffset j < hH.forest.height p) ∧
      ∀ k, l[k]? = if i + k ≤ n then
        hH.forest.ancestorAt (hH.forest.height p - locatorOffset (i + k)) p else none := by
  induction fuel generalizing i q with
  | zero => omega
  | succ fuel ih =>
    by_cases hlt : locatorOffset i < hH.forest.height p
    · have hi : i < 40 := by
        by_contra hi
        have h := locatorOffset_strictMono.monotone (Nat.le_of_not_lt hi)
        rw [show 40 = 29 + 11 from rfl, locatorOffset_add] at h
        omega
      have hnext : locatorOffset i < locatorOffset (i + 1) :=
        locatorOffset_strictMono (Nat.lt_succ_self i)
      obtain ⟨q', hq', -⟩ := hH.forest.exists_ancestorAt hp (Nat.sub_le _ (locatorOffset (i + 1)))
      obtain ⟨l, n, hl, hn, hmin, hget⟩ := ih hq' (by omega)
      rw [hH.locatorLoop_succ htip hp hq hlt, if_pos hi, ok_bind, hq', hl, ok_bind]
      refine ⟨q :: l, n, rfl, hn, fun j hij hjn => ?_, fun k => ?_⟩
      · rcases Nat.eq_or_lt_of_le hij with rfl | hij
        · exact hlt
        · exact hmin j hij hjn
      · cases k with
        | zero =>
          have hin : i < n := locatorOffset_strictMono.lt_iff_lt.mp (by omega)
          rw [Nat.add_zero, if_pos hin.le, hq]
          rfl
        | succ k => rw [getElem?_cons_succ, hget k, Nat.add_right_comm, Nat.add_assoc]
    · have hzero : hH.forest.height p - locatorOffset i = 0 := by omega
      obtain ⟨index, hindex⟩ := hH.forest_mem.mp
        (hH.forest.above_mem hp (hH.forest.ancestorAt_above hq)).1
      have hheight := (hH.forest.height_ancestorAt hp hq).2
      rw [hH.forest_height hindex, hzero] at hheight
      rw [CChain.locatorLoop, deref_eq hindex, ok_bind, if_pos hheight]
      refine ⟨[q], i, rfl, by omega, fun j hij hji => by omega, fun k => ?_⟩
      cases k with
      | zero => simp [hq]
      | succ k => simp

end

structure IsLocator (F : Forest Uint256) (p : Uint256) (l : List Uint256) : Prop where
  first : l.head? = some p
  last : ∃ g, l.getLast? = some g ∧ F.height g = 0
  above : ∀ a ∈ l, F.Above a p
  descending : l.Pairwise fun a b => F.height b < F.height a
  length : l.length ≤ 13 + Nat.log 2 (F.height p + 1)
  fork : ∀ q c, F.Deepest p (F.Above · q) (some c) → ∃ a ∈ l, F.Above a q ∧
    (∀ b ∈ l, F.Above b q → F.height b ≤ F.height a) ∧
    (F.height p - F.height c ≤ 11 → a = c) ∧
    (11 < F.height p - F.height c → F.height c - F.height a < F.height p - F.height c)

section
variable {F : Forest Uint256} {l : List Uint256} {n : ℕ} (hp : F.Mem p)
  (hget : ∀ k, l[k]? = if k ≤ n then F.ancestorAt (F.height p - locatorOffset k) p else none)
include hp hget

theorem exists_entry {k : ℕ} (hk : k ≤ n) : ∃ b, l[k]? = some b ∧ F.Above b p ∧
    F.height b = F.height p - locatorOffset k := by
  obtain ⟨b, hb, -, hheight⟩ := F.exists_ancestorAt hp (Nat.sub_le _ (locatorOffset k))
  exact ⟨b, by rw [hget, if_pos hk, hb], F.ancestorAt_above hb, hheight⟩

theorem exists_of_mem {b : Uint256} (hb : b ∈ l) : ∃ k ≤ n, F.Above b p ∧
    F.height b = F.height p - locatorOffset k := by
  obtain ⟨k, hk⟩ := mem_iff_getElem?.mp hb
  have hle : k ≤ n := by
    by_contra hlt
    rw [hget, if_neg hlt] at hk
    cases hk
  obtain ⟨b', hb', h⟩ := exists_entry hp hget hle
  cases hk.symm.trans hb'
  exact ⟨k, hle, h⟩

theorem length_locator : l.length = n + 1 := by
  apply Nat.le_antisymm
  · have h := hget (n + 1)
    rw [if_neg (by omega)] at h
    exact getElem?_eq_none_iff.mp h
  · obtain ⟨b, hb, -⟩ := exists_entry hp hget (Nat.le_refl n)
    exact (List.getElem?_eq_some_iff.mp hb).1

theorem exists_fork {q c : Uint256} (hn : F.height p ≤ locatorOffset n)
    (hc : F.Deepest p (F.Above · q) (some c)) : ∃ a ∈ l, F.Above a q ∧
      (∀ b ∈ l, F.Above b q → F.height b ≤ F.height a) ∧
      (F.height p - F.height c ≤ 11 → a = c) ∧
      (11 < F.height p - F.height c → F.height c - F.height a < F.height p - F.height c) := by
  have hcp := ((hc c).mpr ⟨c, rfl, F.above_refl c⟩).1
  obtain ⟨hcmem, hle⟩ := F.above_mem hp hcp
  have hin : ∀ b, F.Above b p → (F.Above b q ↔ F.height b ≤ F.height c) := by
    intro b hb
    constructor
    · intro hbq
      obtain ⟨c', hc', h⟩ := (hc b).mp ⟨hb, hbq⟩
      cases some.inj hc'
      exact (F.above_mem hcmem h).2
    · intro hbc
      refine ((hc b).mpr ⟨c, rfl, ?_⟩).2
      rw [F.above_iff_ancestorAt hcmem, F.ancestorAt_above_eq hp hcp hbc]
      exact (F.above_iff_ancestorAt hp).mp hb
  have hex : ∃ j, F.height p - F.height c ≤ locatorOffset j := ⟨n, by omega⟩
  obtain ⟨j, hj, hjmin⟩ : ∃ j, F.height p - F.height c ≤ locatorOffset j ∧
      ∀ k, F.height p - F.height c ≤ locatorOffset k → j ≤ k :=
    ⟨Nat.find hex, Nat.find_spec hex, fun k hk => Nat.find_min' hex hk⟩
  obtain ⟨a, ha, hap, hheight⟩ := exists_entry hp hget (hjmin n (by omega))
  refine ⟨a, mem_of_getElem? ha, (hin a hap).mpr (by omega), fun b hb hbq => ?_, fun hf => ?_,
    fun hf => ?_⟩
  · obtain ⟨k, hk, hbp, hbheight⟩ := exists_of_mem hp hget hb
    rw [hin b hbp] at hbq
    have hoffset := locatorOffset_strictMono.monotone (hjmin k (by omega))
    omega
  · have hfix := locatorOffset_of_le hf
    have hoffset := locatorOffset_strictMono.monotone (hjmin _ hfix.ge)
    have hac : F.height a = F.height c := by omega
    rw [F.above_iff_ancestorAt hp] at hap hcp
    rw [hac, hcp] at hap
    exact (some.inj hap).symm
  · have h11 := locatorOffset_of_le (le_refl 11)
    have hbig : 11 < j := by
      by_contra hsmall
      have hoffset := locatorOffset_strictMono.monotone (Nat.le_of_not_lt hsmall)
      omega
    obtain ⟨k, rfl⟩ : ∃ k, j = k + 1 + 11 := ⟨j - 12, by omega⟩
    have hprev : locatorOffset (k + 11) < F.height p - F.height c := by
      by_contra hge
      have := hjmin _ (Nat.le_of_not_lt hge)
      omega
    rw [locatorOffset_add] at hprev
    rw [locatorOffset_add, pow_succ 2 (k + 1)] at hheight
    omega

theorem isLocator (hn : F.height p ≤ locatorOffset n)
    (hmin : ∀ j < n, locatorOffset j < F.height p) : IsLocator F p l where
  first := by
    rw [head?_eq_getElem?, hget 0, if_pos (Nat.zero_le n)]
    exact F.ancestorAt_self p
  last := by
    obtain ⟨b, hb, -, hheight⟩ := exists_entry hp hget (Nat.le_refl n)
    refine ⟨b, ?_, by omega⟩
    rw [getLast?_eq_getElem?, length_locator hp hget]
    exact hb
  above b hb := by
    obtain ⟨_, _, h, -⟩ := exists_of_mem hp hget hb
    exact h
  descending := by
    have hlength := length_locator hp hget
    refine pairwise_iff_getElem.mpr fun i j hi hj hij => ?_
    obtain ⟨a, ha, -, hai⟩ := exists_entry hp hget (k := i) (by omega)
    obtain ⟨b, hb, -, hbj⟩ := exists_entry hp hget (k := j) (by omega)
    rw [(List.getElem?_eq_some_iff.mp ha).2, (List.getElem?_eq_some_iff.mp hb).2, hai, hbj]
    have hlt := hmin i (by omega)
    have hoffset := locatorOffset_strictMono hij
    omega
  length := by
    rw [length_locator hp hget]
    by_cases hlast : n ≤ 12
    · omega
    · obtain ⟨k, rfl⟩ : ∃ k, n = k + 12 := ⟨n - 12, by omega⟩
      have hlt := hmin (k + 11) (by omega)
      rw [locatorOffset_add] at hlt
      have hlog : k + 1 ≤ Nat.log 2 (F.height p + 1) := Nat.le_log_of_pow_le (by norm_num) (by omega)
      omega
  fork q c hc := exists_fork hp hget hn hc

end

theorem exists_getLocator (htip : ∀ q ∈ tip, hH.forest.Mem q) (hp : H p = some index)
    (hmax : index.nHeight ≤ 2 ^ 30 + 9) :
    ∃ l, CChain.getLocator trap H (hH.forest.wayTo tip) (some p) = .ok l ∧
      IsLocator hH.forest p l := by
  have hmem := hH.mem_of_eq hp
  have hheight := hH.forest_height hp
  have hfuel : hH.forest.height p - locatorOffset 0 < index.nHeight + 1 := by omega
  obtain ⟨l, n, hl, hn, hmin, hget⟩ := hH.exists_locatorLoop htip hmem (i := 0)
    (hH.forest.ancestorAt_self p) (by omega) hfuel
  simp only [Nat.zero_add] at hget
  refine ⟨l, ?_, isLocator hmem hget hn fun j => hmin j (Nat.zero_le j)⟩
  simp only [CChain.getLocator, Option.some_or, deref_eq hp, ok_bind]
  exact hl

theorem getLocator_ne_ok (htip : ∀ q ∈ tip, hH.forest.Mem q) (hp : H p = some index)
    (hmax : 2 ^ 30 + 9 < index.nHeight) (l : List Uint256) :
    CChain.getLocator trap H (hH.forest.wayTo tip) (some p) ≠ .ok l := by
  rw [← hH.forest_height hp] at hmax
  simp only [CChain.getLocator, Option.some_or, deref_eq hp, ok_bind]
  exact hH.locatorLoop_ne_ok htip (hH.mem_of_eq hp) (i := 0) (hH.forest.ancestorAt_self p) hmax
    (Nat.zero_le 40) _ l

end Linked

/-- `GetLocator` returns a locator without overflow exactly if the index is not too high. -/
theorem getLocator_correct_iff (T : BlockTree) (tips : List (Option Uint256))
    (htips : ∀ tip ∈ tips, ∀ q ∈ tip, (T.heap q).isSome) {p : Uint256} {index : IndexNode}
    (hp : T.heap p = some index) :
    ∃ chain, tips.foldlM (CChain.setTip T.heap) [] = .ok chain ∧
      ((∃ l, CChain.getLocator trap T.heap chain (some p) = .ok l ∧
        Linked.IsLocator T.linked.forest p l) ↔ index.nHeight ≤ 2 ^ 30 + 9) := by
  obtain ⟨tip, htip, hrun⟩ := T.linked.setTips_eq htips
  refine ⟨_, hrun, ?_, T.linked.exists_getLocator htip hp⟩
  rintro ⟨l, hl, -⟩
  by_contra hlt
  exact T.linked.getLocator_ne_ok htip hp (Nat.lt_of_not_le hlt) l hl

theorem getLocator_correct_line : ∃ l,
    CChain.getLocator trap (lineHeap 0 0 20) [] (some 20) = .ok l ∧ l.head? = some 20 := by
  obtain ⟨chain, hchain, h⟩ := getLocator_correct_iff (lineTree 0 0 20 (by norm_num)) [] nofun
    (lineHeap_ofNat (by norm_num) (le_refl 20))
  cases hchain
  obtain ⟨l, hl, hgood⟩ := h.mpr (by decide)
  exact ⟨l, hl, hgood.first⟩

/-- The thirtieth doubling leaves the range of `int`. -/
theorem getLocator_overflows : ¬ ∃ l,
    CChain.getLocator trap (lineHeap 0 0 (2 ^ 30 + 10)) [] (some (2 ^ 30 + 10)) = .ok l := by
  rintro ⟨l, hl⟩
  have hH := (lineTree 0 0 (2 ^ 30 + 10) (by norm_num)).linked
  have hnone : ∀ q ∈ (none : Option Uint256), hH.forest.Mem q := nofun
  exact hH.getLocator_ne_ok hnone (lineHeap_ofNat (by norm_num) (le_refl (2 ^ 30 + 10)))
    (by rw [nHeight_lineNode]; norm_num) l hl

end Vexta
