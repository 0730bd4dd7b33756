import Vexta.Chain.Index
import Vexta.Lib.Forest
import Mathlib.Tactic.Linarith

/-! Heaps whose pointers are the ones `AddToBlockIndex` sets. -/
namespace Vexta
open Lib Option Heap

structure Linked (H : Heap) : Prop where
  parent : ∀ {p index q}, H p = some index → index.pprev = some q →
    ∃ prev, H q = some prev ∧ index.nHeight = prev.nHeight + 1
  root : ∀ {p index}, H p = some index → index.pprev = none → index.nHeight = 0
  skip : ∀ {p index q}, H p = some index → index.pprev = some q →
    getAncestor H q (getSkipHeight index.nHeight) = .ok index.pskip
  lastAlgo : ∀ {p index}, H p = some index → ∀ algo, algo ≠ .unknown →
    index.lastAlgoBlocks.get algo =
      if index.getAlgo = algo then some p
      else index.pprev.bind fun q => (H q).bind fun prev => prev.lastAlgoBlocks.get algo

namespace Linked
variable {H : Heap} (hH : Linked H)

def forest : Forest Uint256 where
  Mem p := (H p).isSome
  parent p := (H p).bind IndexNode.pprev
  height p := ((H p).map IndexNode.nHeight).getD 0
  parent_mem := by
    intro p q hp hq
    obtain ⟨index, hi⟩ := isSome_iff_exists.mp hp
    rw [hi] at hq
    obtain ⟨prev, hprev, -⟩ := hH.parent hi hq
    simp [hprev]
  height_parent := by
    intro p q hp hq
    obtain ⟨index, hi⟩ := isSome_iff_exists.mp hp
    rw [hi] at hq
    obtain ⟨prev, hprev, hh⟩ := hH.parent hi hq
    simp [hi, hprev, hh]
  height_root := by
    intro p hp hq
    obtain ⟨index, hi⟩ := isSome_iff_exists.mp hp
    rw [hi] at hq
    simp [hi, hH.root hi hq]

variable {p q : Uint256} {index : IndexNode}

theorem forest_mem : hH.forest.Mem p ↔ ∃ index, H p = some index := isSome_iff_exists

theorem forest_height (hp : H p = some index) : hH.forest.height p = index.nHeight := by
  simp [forest, hp]

theorem forest_parent (hp : H p = some index) : hH.forest.parent p = index.pprev := by
  simp [forest, hp]

theorem mem_of_eq (hp : H p = some index) : hH.forest.Mem p := hH.forest_mem.mpr ⟨index, hp⟩

private theorem ancestorStep_above (hp : H p = some index) {k : ℕ} (hk : k < index.nHeight)
    (hskip : ∀ q, index.pprev = some q →
      index.pskip = hH.forest.ancestorAt (getSkipHeight index.nHeight) q) :
    ∃ q, ancestorStep k index index.nHeight = .ok (q, hH.forest.height q) ∧
      hH.forest.Above q p ∧ k ≤ hH.forest.height q ∧ hH.forest.height q < index.nHeight := by
  cases hq : index.pprev with
  | none =>
    have h0 := hH.root hp hq
    omega
  | some q =>
    have hpar : hH.forest.parent p = some q := by rw [hH.forest_parent hp, hq]
    have hheight := hH.forest.height_parent (hH.mem_of_eq hp) hpar
    rw [hH.forest_height hp] at hheight
    have hmem := hH.forest.parent_mem (hH.mem_of_eq hp) hpar
    have hlt := getSkipHeight_lt index.nHeight (by omega)
    obtain ⟨s, hs, -, hsh⟩ := hH.forest.exists_ancestorAt hmem
      (k := getSkipHeight index.nHeight) (by omega)
    have hps : index.pskip = some s := by rw [hskip q hq, hs]
    have habove : hH.forest.Above s p :=
      hH.forest.above_trans (hH.forest.ancestorAt_above hs) (hH.forest.above_parent hpar)
    unfold ancestorStep
    simp only [hps, hq]
    split_ifs with hc
    · refine ⟨s, by rw [hsh], habove, ?_, by omega⟩
      rcases hc with hc | hc
      · omega
      · omega
    · refine ⟨q, ?_, hH.forest.above_parent hpar, by omega, by omega⟩
      congr 2
      omega

private theorem ancestorWalk_eq {n : ℕ}
    (hskip : ∀ {p index q}, H p = some index → index.nHeight ≤ n → index.pprev = some q →
      index.pskip = hH.forest.ancestorAt (getSkipHeight index.nHeight) q)
    (hp : H p = some index) (hn : index.nHeight ≤ n) {k : ℕ} (hk : k ≤ index.nHeight)
    (fuel : ℕ) (hfuel : index.nHeight < fuel + k) :
    ∃ a, ancestorWalk H k fuel p index.nHeight = .ok a ∧
      hH.forest.ancestorAt k p = some a := by
  induction fuel generalizing p index with
  | zero => omega
  | succ fuel ih =>
    unfold ancestorWalk
    by_cases hlt : k < index.nHeight
    · obtain ⟨q, hstep, habove, hkq, hdec⟩ := hH.ancestorStep_above hp hlt
        fun q hq => hskip hp hn hq
      obtain ⟨hqmem, -⟩ := hH.forest.above_mem (hH.mem_of_eq hp) habove
      obtain ⟨prev, hprev⟩ := hH.forest_mem.mp hqmem
      rw [hH.forest_height hprev] at hstep hkq hdec
      obtain ⟨a, hwalk, ha⟩ := ih hprev (by omega) hkq (by omega)
      refine ⟨a, ?_, ?_⟩
      · simp only [if_pos hlt, deref_eq hp, ok_bind, hstep]
        exact hwalk
      · rw [← ha, hH.forest.ancestorAt_above_eq (hH.mem_of_eq hp) habove]
        rw [hH.forest_height hprev]
        exact hkq
    · have hk' : k = hH.forest.height p := by rw [hH.forest_height hp]; omega
      refine ⟨p, by simp [hlt], ?_⟩
      rw [hk']
      exact hH.forest.ancestorAt_self p

private theorem getAncestor_of_skip {n : ℕ}
    (hskip : ∀ {p index q}, H p = some index → index.nHeight ≤ n → index.pprev = some q →
      index.pskip = hH.forest.ancestorAt (getSkipHeight index.nHeight) q)
    (hp : H p = some index) (hn : index.nHeight ≤ n) (k : ℕ) :
    getAncestor H p k = .ok (hH.forest.ancestorAt k p) := by
  unfold getAncestor
  simp only [deref_eq hp, ok_bind]
  by_cases hk : k ≤ index.nHeight
  · obtain ⟨a, hwalk, ha⟩ := hH.ancestorWalk_eq hskip hp hn hk (index.nHeight + 1)
      (by omega)
    rw [if_neg (by omega), Int.toNat_natCast, hwalk, ha]
    rfl
  · rw [if_pos (by omega), Forest.ancestorAt, hH.forest_height hp, if_neg hk]

/-- Skip pointers of a linked heap are ancestors: the induction is on the height. -/
theorem pskip_eq (hp : H p = some index) (hq : index.pprev = some q) :
    index.pskip = hH.forest.ancestorAt (getSkipHeight index.nHeight) q := by
  have main : ∀ n, ∀ {p index q}, H p = some index → index.nHeight ≤ n → index.pprev = some q →
      index.pskip = hH.forest.ancestorAt (getSkipHeight index.nHeight) q := by
    intro n
    induction n with
    | zero =>
      intro p index q hp hn hq
      obtain ⟨prev, -, hh⟩ := hH.parent hp hq
      omega
    | succ n ih =>
      intro p index q hp hn hq
      obtain ⟨prev, hprev, hh⟩ := hH.parent hp hq
      have hanc := hH.getAncestor_of_skip ih hprev (by omega) (getSkipHeight index.nHeight)
      have hskip := hH.skip hp hq
      rw [hanc] at hskip
      exact (Except.ok.inj hskip).symm
  exact main index.nHeight hp le_rfl hq

theorem getAncestor_eq (hp : H p = some index) (k : ℕ) :
    getAncestor H p k = .ok (hH.forest.ancestorAt k p) :=
  hH.getAncestor_of_skip (fun hp _ hq => hH.pskip_eq hp hq) hp le_rfl k

theorem getAncestor_of_neg {height : ℤ} (hp : H p = some index) (h : height < 0) :
    getAncestor H p height = .ok none := by
  unfold getAncestor
  rw [deref_eq hp, ok_bind, if_pos (.inr h)]

theorem getAncestor_above {node : IndexNode} {height : ℤ} (hp : H p = some index)
    (hq : H q = some node) (h : hH.forest.Above q p) (hle : height ≤ node.nHeight) :
    getAncestor H q height = getAncestor H p height := by
  rcases lt_or_ge height 0 with hneg | hge
  · rw [getAncestor_of_neg hq hneg, getAncestor_of_neg hp hneg]
  · obtain ⟨k, rfl⟩ := Int.eq_ofNat_of_zero_le hge
    rw [hH.getAncestor_eq hq, hH.getAncestor_eq hp, hH.forest.ancestorAt_above_eq
      (hH.mem_of_eq hp) h (by rw [hH.forest_height hq]; omega)]

include hH in
theorem exists_of_getAncestor {height : ℤ} (hp : H p = some index)
    (h : getAncestor H p height = .ok (some q)) : ∃ ancestor, H q = some ancestor := by
  by_cases hneg : height < 0
  · rw [getAncestor_of_neg hp hneg] at h
    cases h
  · obtain ⟨k, rfl⟩ := Int.eq_ofNat_of_zero_le (Int.le_of_not_gt hneg)
    rw [hH.getAncestor_eq hp k] at h
    have habove := hH.forest.ancestorAt_above (Except.ok.inj h)
    exact hH.forest_mem.mp (hH.forest.above_mem (hH.mem_of_eq hp) habove).1

theorem exists_stepBack (n : ℕ) (hp : H p = some index) :
    stepBack H n (some p) = .ok (up hH.forest.parent n p) := by
  induction n generalizing p index with
  | zero => rfl
  | succ n ih =>
    simp only [stepBack, deref_eq hp, ok_bind, up, hH.forest_parent hp]
    cases hq : index.pprev with
    | none => cases n <;> rfl
    | some q =>
      obtain ⟨prev, hprev, -⟩ := hH.parent hp hq
      exact ih hprev

include hH in
theorem exists_pastTimes (n : ℕ) (hp : H p = some index) :
    ∃ times, pastTimes H n (some p) = .ok times ∧ ∀ t ∈ times, t < 2 ^ 32 := by
  induction n generalizing p index with
  | zero => exact ⟨[], rfl, by simp⟩
  | succ n ih =>
    have hcons : ∀ {times : List ℕ}, (∀ t ∈ times, t < 2 ^ 32) →
        ∀ t ∈ index.nTime.toNat :: times, t < 2 ^ 32 := by
      intro times ht t hmem
      rcases List.mem_cons.mp hmem with rfl | hmem
      · exact index.nTime.isLt
      · exact ht t hmem
    simp only [pastTimes, deref_eq hp, ok_bind]
    cases hq : index.pprev with
    | none =>
      refine ⟨[index.nTime.toNat], ?_, hcons (by simp)⟩
      cases n <;> rfl
    | some q =>
      obtain ⟨prev, hprev, -⟩ := hH.parent hp hq
      obtain ⟨times, ht, hlt⟩ := ih hprev
      exact ⟨index.nTime.toNat :: times, by rw [ht]; rfl, hcons hlt⟩

include hH in
theorem exists_getMedianTimePast (hp : H p = some index) :
    ∃ t : ℤ, getMedianTimePast H p = .ok t ∧ 0 ≤ t ∧ t < 2 ^ 32 := by
  obtain ⟨times, ht, hlt⟩ := hH.exists_pastTimes nMedianTimeSpan hp
  obtain ⟨m, hm⟩ : ∃ m, m = (times.insertionSort (· ≤ ·)).getD
      ((times.insertionSort (· ≤ ·)).length / 2) 0 := ⟨_, rfl⟩
  have hbound : m < 2 ^ 32 := by
    rw [hm, List.getD_eq_getElem?_getD]
    cases hg : (times.insertionSort (· ≤ ·))[(times.insertionSort (· ≤ ·)).length / 2]? with
    | none => simp
    | some t =>
      have hmem := List.mem_of_getElem? hg
      rw [List.mem_insertionSort] at hmem
      exact hlt t hmem
  refine ⟨m, ?_, by omega, by exact_mod_cast hbound⟩
  unfold getMedianTimePast
  simp only [ht, ok_bind, hm]

theorem lastAlgo_above {algo : Algo} (ha : algo ≠ .unknown) (hmem : hH.forest.Mem p) :
    ∀ index, H p = some index → index.lastAlgoBlocks.get algo = none ∨
      ∃ q last, index.lastAlgoBlocks.get algo = some q ∧ H q = some last ∧
        last.getAlgo = algo ∧ hH.forest.Above q p := by
  refine hH.forest.induction ?_ ?_ hmem
  · intro p _ hroot index hp
    rw [hH.forest_parent hp] at hroot
    rw [hH.lastAlgo hp algo ha, hroot]
    split_ifs with h
    · exact .inr ⟨p, index, rfl, hp, h, hH.forest.above_refl p⟩
    · exact .inl rfl
  · intro p q hmem hpar ih index hp
    have hq : index.pprev = some q := by rw [← hH.forest_parent hp, hpar]
    obtain ⟨prev, hprev, -⟩ := hH.parent hp hq
    rw [hH.lastAlgo hp algo ha, hq]
    split_ifs with h
    · exact .inr ⟨p, index, rfl, hp, h, hH.forest.above_refl p⟩
    · simp only [bind_some, hprev]
      rcases ih prev hprev with hnone | ⟨r, last, hr, hlast, halgo, habove⟩
      · exact .inl hnone
      · exact .inr ⟨r, last, hr, hlast, halgo,
          hH.forest.above_trans habove (hH.forest.above_parent hpar)⟩

theorem exists_getLastBlockIndexForAlgoFast {algo : Algo} (ha : algo ≠ .unknown)
    (hp : H p = some index) :
    getLastBlockIndexForAlgoFast H p algo = .ok none ∨
      ∃ q last, getLastBlockIndexForAlgoFast H p algo = .ok (some q) ∧ H q = some last ∧
        last.getAlgo = algo ∧ hH.forest.Above q p := by
  unfold getLastBlockIndexForAlgoFast
  simp only [if_neg ha, deref_eq hp, ok_bind, lastAlgoWalk]
  by_cases halgo : index.getAlgo = algo
  · rw [if_pos halgo]
    exact .inr ⟨p, index, rfl, hp, halgo, hH.forest.above_refl p⟩
  · rw [if_neg halgo]
    rcases hH.lastAlgo_above ha (hH.mem_of_eq hp) index hp with hnone | ⟨q, last, hq, hlast, hla, habove⟩
    · rw [hnone]
      exact .inl rfl
    · rw [hq]
      refine .inr ⟨q, last, ?_, hlast, hla, habove⟩
      rw [lastAlgoWalk, deref_eq hlast, ok_bind, if_pos hla]

include hH in
theorem exists_of_getLastBlockIndexForAlgoFast {algo : Algo} (hp : H p = some index)
    (h : getLastBlockIndexForAlgoFast H p algo = .ok (some q)) : ∃ last, H q = some last := by
  by_cases ha : algo = .unknown
  · unfold getLastBlockIndexForAlgoFast at h
    cases (if_pos ha).symm.trans h
  · rcases hH.exists_getLastBlockIndexForAlgoFast ha hp with hnone | ⟨r, last, hr, hlast, -⟩
    · cases hnone.symm.trans h
    · rw [hr] at h
      cases h
      exact ⟨last, hlast⟩

end Linked

/-- A heap with the proof that its pointers are linked. -/
structure BlockTree where
  heap : Heap
  linked : Linked heap

def rootHeap (p : Uint256) (index : IndexNode) : Heap := fun q => if q = p then some index else none

theorem rootHeap_eq_some {p q : Uint256} {index node : IndexNode} :
    rootHeap p index q = some node ↔ q = p ∧ node = index := by
  unfold rootHeap
  split_ifs with h
  · simp [h, eq_comm]
  · simp [h]

theorem linked_rootHeap {p : Uint256} {index : IndexNode} (hprev : index.pprev = none)
    (hheight : index.nHeight = 0)
    (hlast : ∀ algo, algo ≠ .unknown →
      index.lastAlgoBlocks.get algo = if index.getAlgo = algo then some p else none) :
    Linked (rootHeap p index) where
  parent := by
    intro q node r hq hr
    obtain ⟨-, rfl⟩ := rootHeap_eq_some.mp hq
    simp [hprev] at hr
  root := by
    intro q node hq _
    obtain ⟨-, rfl⟩ := rootHeap_eq_some.mp hq
    exact hheight
  skip := by
    intro q node r hq hr
    obtain ⟨-, rfl⟩ := rootHeap_eq_some.mp hq
    simp [hprev] at hr
  lastAlgo := by
    intro q node hq algo ha
    obtain ⟨rfl, rfl⟩ := rootHeap_eq_some.mp hq
    rw [hlast algo ha, hprev]
    rfl

def rootNode (p : Uint256) (block : CBlockHeader) (nChainWork : ℕ) : IndexNode where
  pprev := none
  pskip := none
  nHeight := 0
  nChainWork := nChainWork
  nVersion := block.nVersion
  hashMerkleRoot := block.hashMerkleRoot
  nTime := block.nTime
  nBits := block.nBits
  nNonce := block.nNonce
  nTimeMax := block.nTime.toNat
  lastAlgoBlocks := LastAlgoBlocks.set ⟨none, none⟩ p block.getAlgo

def BlockTree.root (p : Uint256) (block : CBlockHeader) (nChainWork : ℕ) : BlockTree where
  heap := rootHeap p (rootNode p block nChainWork)
  linked := by
    apply linked_rootHeap
    · rfl
    · rfl
    · intro algo ha
      change (LastAlgoBlocks.set ⟨none, none⟩ p block.getAlgo).get algo = _
      rw [LastAlgoBlocks.get_set _ _ _ ha]
      cases algo <;> rfl

end Vexta
