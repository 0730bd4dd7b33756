import Vexta.Chain.Linked

/-! A chain of SHA256D blocks of one time and target; the hash of a block is its height. -/
namespace Vexta
open Lib Heap

section
variable (nTime nBits : BitVec 32) (n : ℕ)

def lineNode (height : ℕ) : IndexNode where
  pprev := if height = 0 then none else some (.ofNat 256 (height - 1))
  pskip := if height = 0 then none else some (.ofNat 256 (getSkipHeight height))
  nHeight := height
  nChainWork := 0
  nVersion := 0x20000200
  hashMerkleRoot := 0
  nTime
  nBits
  nNonce := 0
  nTimeMax := nTime.toNat
  lastAlgoBlocks := ⟨some (.ofNat 256 height), none⟩

def lineHeap : Heap := fun p => if p.toNat ≤ n then some (lineNode nTime nBits p.toNat) else none

end

variable {nTime nBits : BitVec 32} {n : ℕ}

theorem lineHeap_ofNat (hn : n < 2 ^ 256) {k : ℕ} (hk : k ≤ n) :
    lineHeap nTime nBits n (.ofNat 256 k) = some (lineNode nTime nBits k) := by
  have hval : (BitVec.ofNat 256 k).toNat = k := Nat.mod_eq_of_lt (by omega)
  rw [lineHeap, hval, if_pos hk]

theorem lineHeap_eq_some {p : Uint256} {index : IndexNode} :
    lineHeap nTime nBits n p = some index ↔ p.toNat ≤ n ∧ lineNode nTime nBits p.toNat = index := by
  unfold lineHeap
  split_ifs with h <;> simp [h]

theorem ancestorStep_lineNode {k height : ℕ} (hk : k < height) : ∃ next, k ≤ next ∧ next < height ∧
    ancestorStep k (lineNode nTime nBits height) height = .ok (.ofNat 256 next, next) := by
  have hne : height ≠ 0 := by omega
  have hskip := getSkipHeight_lt height (by omega)
  simp only [ancestorStep, lineNode, if_neg hne]
  split_ifs with h
  · exact ⟨getSkipHeight height, by omega, hskip, rfl⟩
  · exact ⟨height - 1, by omega, by omega, rfl⟩

theorem ancestorWalk_lineHeap (hn : n < 2 ^ 256) {k height fuel : ℕ} (hk : k ≤ height)
    (hheight : height ≤ n) (hfuel : height < fuel + k) :
    ancestorWalk (lineHeap nTime nBits n) k fuel (.ofNat 256 height) height =
      .ok (.ofNat 256 k) := by
  induction fuel generalizing height with
  | zero => omega
  | succ fuel ih =>
    unfold ancestorWalk
    by_cases hlt : k < height
    · obtain ⟨next, hle, hdec, hstep⟩ := @ancestorStep_lineNode nTime nBits k height hlt
      rw [if_pos hlt, deref_eq (lineHeap_ofNat hn hheight), ok_bind, hstep, ok_bind]
      exact ih hle (by omega) (by omega)
    · rw [if_neg hlt, show k = height by omega]

theorem nHeight_lineNode (height : ℕ) : (lineNode nTime nBits height).nHeight = height := rfl

theorem getAncestor_lineHeap (hn : n < 2 ^ 256) {k height : ℕ} (hk : k ≤ height)
    (hheight : height ≤ n) :
    getAncestor (lineHeap nTime nBits n) (.ofNat 256 height) k = .ok (some (.ofNat 256 k)) := by
  rw [getAncestor, deref_eq (lineHeap_ofNat hn hheight), ok_bind, nHeight_lineNode,
    if_neg (by omega), Int.toNat_natCast, ancestorWalk_lineHeap hn hk hheight (by omega)]
  rfl

theorem pprev_lineNode {height : ℕ} {q : Uint256} :
    (lineNode nTime nBits height).pprev = some q ↔ height ≠ 0 ∧ .ofNat 256 (height - 1) = q := by
  simp only [lineNode]
  split_ifs with h <;> simp [h]

theorem getAlgo_lineNode (height : ℕ) : (lineNode nTime nBits height).getAlgo = .sha256d := by
  change algoOfVersion 0x20000200 = .sha256d
  decide

theorem linked_lineHeap (hn : n < 2 ^ 256) : Linked (lineHeap nTime nBits n) where
  parent := by
    intro p index q hp hq
    obtain ⟨hle, rfl⟩ := lineHeap_eq_some.mp hp
    obtain ⟨hne, rfl⟩ := pprev_lineNode.mp hq
    refine ⟨_, lineHeap_ofNat hn (by omega), ?_⟩
    change p.toNat = p.toNat - 1 + 1
    omega
  root := by
    intro p index hp hq
    obtain ⟨hle, rfl⟩ := lineHeap_eq_some.mp hp
    by_contra hne
    cases hq.symm.trans (pprev_lineNode.mpr ⟨hne, rfl⟩)
  skip := by
    intro p index q hp hq
    obtain ⟨hle, rfl⟩ := lineHeap_eq_some.mp hp
    obtain ⟨hne, rfl⟩ := pprev_lineNode.mp hq
    have hskip := getSkipHeight_lt p.toNat (by omega)
    have hpskip : (lineNode nTime nBits p.toNat).pskip = some (.ofNat 256 (getSkipHeight p.toNat)) :=
      if_neg hne
    rw [hpskip, nHeight_lineNode]
    exact getAncestor_lineHeap hn (by omega) (by omega)
  lastAlgo := by
    intro p index hp algo ha
    obtain ⟨hle, rfl⟩ := lineHeap_eq_some.mp hp
    rw [getAlgo_lineNode]
    cases algo with
    | unknown => exact absurd rfl ha
    | sha256d => simp [lineNode, LastAlgoBlocks.get]
    | randomX =>
      have hnone : ∀ q, ((lineHeap nTime nBits n q).bind fun prev =>
          prev.lastAlgoBlocks.get .randomX) = none := by
        intro q
        unfold lineHeap
        split_ifs <;> rfl
      simp only [hnone, Option.bind_fun_none]
      rfl

def lineTree (nTime nBits : BitVec 32) (n : ℕ) (hn : n < 2 ^ 256) : BlockTree :=
  ⟨lineHeap nTime nBits n, linked_lineHeap hn⟩

end Vexta
