import Vexta.Chain.Header
import Mathlib.Data.List.Sort

/-! The block index. A pointer is the hash of a block, `none` the null pointer; a heap maps hashes
to the linked fields. -/
namespace Vexta
open Lib

structure LastAlgoBlocks where
  sha256d : Option Uint256
  randomX : Option Uint256
  deriving DecidableEq, Repr

namespace LastAlgoBlocks

variable (blocks : LastAlgoBlocks)

def get : Algo → Option Uint256
  | .unknown => none
  | .sha256d => blocks.sha256d
  | .randomX => blocks.randomX

def set (pindex : Uint256) : Algo → LastAlgoBlocks
  | .unknown => blocks
  | .sha256d => { blocks with sha256d := some pindex }
  | .randomX => { blocks with randomX := some pindex }

theorem get_set (pindex : Uint256) (a : Algo) {algo : Algo}
    (h : algo ≠ .unknown) :
    (blocks.set pindex a).get algo = if a = algo then some pindex else blocks.get algo := by
  cases a <;> cases algo <;> first | rfl | exact absurd rfl h

end LastAlgoBlocks

/-- The fields of `CBlockIndex` that header validation fixes. -/
structure IndexNode where
  pprev : Option Uint256
  pskip : Option Uint256
  nHeight : ℕ
  nChainWork : ℕ
  nVersion : BitVec 32
  hashMerkleRoot : Uint256
  nTime : BitVec 32
  nBits : BitVec 32
  nNonce : BitVec 32
  nTimeMax : ℕ
  lastAlgoBlocks : LastAlgoBlocks
  deriving DecidableEq, Repr

def IndexNode.getAlgo (index : IndexNode) : Algo := algoOfVersion index.nVersion

def IndexNode.getBlockTime (index : IndexNode) : ℤ := index.nTime.toNat

abbrev Heap := Uint256 → Option IndexNode

namespace Heap

def deref (H : Heap) (p : Uint256) : Except Fault IndexNode :=
  match H p with
  | some index => .ok index
  | none => .error .nullPointer

def Le (H H' : Heap) : Prop := ∀ p index, H p = some index → H' p = some index

theorem Le.refl (H : Heap) : H.Le H := fun _ _ h => h

theorem deref_eq {H : Heap} {p : Uint256} {index : IndexNode} (h : H p = some index) :
    H.deref p = .ok index := by
  simp [deref, h]

theorem deref_eq_ok {H : Heap} {p : Uint256} {index : IndexNode} :
    H.deref p = .ok index ↔ H p = some index := by
  unfold deref
  cases h : H p with
  | none => simp
  | some b => simp

theorem deref_mono {H H' : Heap} (h : H.Le H') (p : Uint256) :
    Approx (H.deref p) (H'.deref p) := by
  intro index hi
  rw [deref_eq_ok] at hi ⊢
  exact h p index hi

end Heap

def invertLowestOne (n : ℕ) : ℕ := n &&& (n - 1)

def getSkipHeight (height : ℕ) : ℕ :=
  if height < 2 then 0
  else if height &&& 1 ≠ 0 then invertLowestOne (invertLowestOne (height - 1)) + 1
  else invertLowestOne height

theorem invertLowestOne_le (n : ℕ) : invertLowestOne n ≤ n - 1 := Nat.and_le_right

theorem getSkipHeight_lt (height : ℕ) (h : 0 < height) : getSkipHeight height < height := by
  unfold getSkipHeight
  have h₁ := invertLowestOne_le height
  have h₂ := invertLowestOne_le (height - 1)
  have h₃ := invertLowestOne_le (invertLowestOne (height - 1))
  split_ifs <;> omega

/-- One iteration of `GetAncestor`: skip, unless the predecessor skips better. -/
def ancestorStep (height : ℕ) (index : IndexNode) (heightWalk : ℕ) :
    Except Fault (Uint256 × ℕ) :=
  let heightSkip := getSkipHeight heightWalk
  let heightSkipPrev := getSkipHeight (heightWalk - 1)
  let viaPrev := match index.pprev with
    | some pprev => .ok (pprev, heightWalk - 1)
    | none => .error .assertion
  match index.pskip with
  | some pskip =>
    if heightSkip = height ∨ (height < heightSkip ∧
        ¬ ((heightSkipPrev : ℤ) < heightSkip - 2 ∧ height ≤ heightSkipPrev)) then
      .ok (pskip, heightSkip)
    else viaPrev
  | none => viaPrev

def ancestorWalk (H : Heap) (height : ℕ) : ℕ → Uint256 → ℕ → Except Fault Uint256
  | 0, _, _ => .error .outOfFuel
  | fuel + 1, pindexWalk, heightWalk =>
    if height < heightWalk then do
      let index ← H.deref pindexWalk
      let next ← ancestorStep height index heightWalk
      ancestorWalk H height fuel next.1 next.2
    else .ok pindexWalk

def getAncestor (H : Heap) (pindex : Uint256) (height : ℤ) :
    Except Fault (Option Uint256) := do
  let index ← H.deref pindex
  if index.nHeight < height ∨ height < 0 then .ok none
  else some <$> ancestorWalk H height.toNat (index.nHeight + 1) pindex index.nHeight

def pastTimes (H : Heap) : ℕ → Option Uint256 → Except Fault (List ℕ)
  | 0, _ => .ok []
  | _ + 1, none => .ok []
  | n + 1, some pindex => do
    let index ← H.deref pindex
    let times ← pastTimes H n index.pprev
    .ok (index.nTime.toNat :: times)

def nMedianTimeSpan : ℕ := 11

def getMedianTimePast (H : Heap) (pindex : Uint256) : Except Fault ℤ := do
  let times ← pastTimes H nMedianTimeSpan (some pindex)
  let sorted := times.insertionSort (· ≤ ·)
  .ok (sorted.getD (sorted.length / 2) 0)

def stepBack (H : Heap) : ℕ → Option Uint256 → Except Fault (Option Uint256)
  | 0, pindex => .ok pindex
  | _ + 1, none => .ok none
  | n + 1, some pindex => do
    let index ← H.deref pindex
    stepBack H n index.pprev

def lastAlgoWalk (H : Heap) (algo : Algo) : ℕ → Option Uint256 → Except Fault (Option Uint256)
  | 0, _ => .error .outOfFuel
  | _ + 1, none => .ok none
  | fuel + 1, some pindex => do
    let index ← H.deref pindex
    if index.getAlgo = algo then .ok (some pindex)
    else lastAlgoWalk H algo fuel (index.lastAlgoBlocks.get algo)

/-- `GetLastBlockIndexForAlgoFast`. The height bounds the iterations. -/
def getLastBlockIndexForAlgoFast (H : Heap) (pindex : Uint256) (algo : Algo) :
    Except Fault (Option Uint256) :=
  if algo = .unknown then .ok none
  else do
    let index ← H.deref pindex
    lastAlgoWalk H algo (index.nHeight + 2) (some pindex)

section Mono
variable {H H' : Heap} (h : H.Le H')
include h

theorem ancestorWalk_mono (height fuel : ℕ) (p : Uint256) (n : ℕ) :
    Approx (ancestorWalk H height fuel p n) (ancestorWalk H' height fuel p n) := by
  induction fuel generalizing p n with
  | zero => exact .refl _
  | succ fuel ih =>
    unfold ancestorWalk
    refine .ite (fun _ => ?_) fun _ => .refl _
    refine .bind (Heap.deref_mono h p) fun index _ => ?_
    exact .bind_right fun next => ih next.1 next.2

theorem getAncestor_mono (p : Uint256) (height : ℤ) :
    Approx (getAncestor H p height) (getAncestor H' p height) := by
  unfold getAncestor
  refine .bind (Heap.deref_mono h p) fun index _ => ?_
  refine .leave fun _ => ?_
  exact .map _ (ancestorWalk_mono h _ _ _ _)

theorem pastTimes_mono (n : ℕ) (p : Option Uint256) :
    Approx (pastTimes H n p) (pastTimes H' n p) := by
  fun_induction pastTimes H n p with
  | case1 => exact .refl _
  | case2 => exact .refl _
  | case3 n p ih =>
    refine .bind (Heap.deref_mono h p) fun index _ => ?_
    exact .bind_left (ih index)

theorem getMedianTimePast_mono (p : Uint256) :
    Approx (getMedianTimePast H p) (getMedianTimePast H' p) := by
  unfold getMedianTimePast
  exact .bind_left (pastTimes_mono h _ _)

theorem stepBack_mono (n : ℕ) (p : Option Uint256) :
    Approx (stepBack H n p) (stepBack H' n p) := by
  fun_induction stepBack H n p with
  | case1 => exact .refl _
  | case2 => exact .refl _
  | case3 n p ih => exact .bind (Heap.deref_mono h p) fun index _ => ih index

theorem lastAlgoWalk_mono (algo : Algo) (fuel : ℕ) (p : Option Uint256) :
    Approx (lastAlgoWalk H algo fuel p) (lastAlgoWalk H' algo fuel p) := by
  fun_induction lastAlgoWalk H algo fuel p with
  | case1 => exact .refl _
  | case2 => exact .refl _
  | case3 fuel p ih =>
    refine .bind (Heap.deref_mono h p) fun index _ => ?_
    exact .leave fun _ => ih _

theorem getLastBlockIndexForAlgoFast_mono (p : Uint256) (algo : Algo) :
    Approx (getLastBlockIndexForAlgoFast H p algo) (getLastBlockIndexForAlgoFast H' p algo) := by
  unfold getLastBlockIndexForAlgoFast
  refine .leave fun _ => ?_
  exact .bind (Heap.deref_mono h p) fun index _ => lastAlgoWalk_mono h algo _ _

end Mono
end Vexta
