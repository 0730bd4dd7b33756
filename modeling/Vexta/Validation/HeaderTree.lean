import Vexta.Chain.Linked
import Vexta.Validation.AcceptHeader

/-! Adding an index keeps the tree coherent: pointers and totals are those of `AddToBlockIndex`. -/
namespace Vexta
open Lib Uint256 Option Heap

def Heap.insert (H : Heap) (p : Uint256) (node : IndexNode) : Heap :=
  fun q => if q = p then some node else H q

variable {H : Heap} {p : Uint256} {node : IndexNode} {H' : Heap}

theorem Heap.le_insert (hp : H p = none) (node : IndexNode) : H.Le (H.insert p node) := by
  intro q index hq
  unfold Heap.insert
  rw [if_neg]
  · exact hq
  · rintro rfl
    simp [hp] at hq

theorem Heap.insert_eq_some {q : Uint256} {index : IndexNode} :
    H.insert p node q = some index ↔ q = p ∧ index = node ∨ q ≠ p ∧ H q = some index := by
  unfold Heap.insert
  split_ifs with h
  · simp [h, eq_comm]
  · simp [h]

theorem fromPrev_mono {α : Type} (h : H.Le H') (pprev : Option Uint256) (default : α)
    (f : IndexNode → α) : Approx (fromPrev H pprev default f) (fromPrev H' pprev default f) := by
  cases pprev with
  | none => exact .refl _
  | some p => exact .map f (deref_mono h p)

theorem computeChainWork_mono (h : H.Le H') (params : Params) (index : IndexNode) :
    Approx (computeChainWork params H index) (computeChainWork params H' index) := by
  unfold computeChainWork
  refine .bind (fromPrev_mono h _ _ _) fun base _ => ?_
  exact .bind_left (getBlockProof_mono params (Arith.Le.refl _) h index)

structure Coherent (params : Params) (H : Heap) : Prop extends Linked H where
  timeMax : ∀ {p index}, H p = some index → computeTimeMax H index = .ok index.nTimeMax
  chainWork : ∀ {p index}, H p = some index →
    computeChainWork params H index = .ok index.nChainWork

structure LinkedUnder (params : Params) (H : Heap) (hash : Uint256) (block : CBlockHeader)
    (prev node : IndexNode) : Prop where
  pprev : node.pprev = some block.hashPrevBlock
  height : node.nHeight = prev.nHeight + 1
  header : node.getBlockHeader = block
  skip : getAncestor H block.hashPrevBlock (getSkipHeight node.nHeight) = .ok node.pskip
  lastAlgo : node.lastAlgoBlocks = prev.lastAlgoBlocks.set hash node.getAlgo
  timeMax : computeTimeMax H node = .ok node.nTimeMax
  chainWork : computeChainWork params H node = .ok node.nChainWork

theorem linkIndex_eq_ok {params : Params} {hash : Uint256} {block : CBlockHeader} {prev : IndexNode}
    (hprev : H block.hashPrevBlock = some prev) (h : linkIndex params H hash block = .ok node) :
    LinkedUnder params H hash block prev node := by
  unfold linkIndex at h
  simp only [hprev] at h
  obtain ⟨pskip, hskip, h⟩ := bind_eq_ok.mp h
  obtain ⟨lastAlgoBlocks, hlast, h⟩ := bind_eq_ok.mp h
  obtain ⟨nTimeMax, htime, h⟩ := bind_eq_ok.mp h
  obtain ⟨nChainWork, hwork, h⟩ := bind_eq_ok.mp h
  have hblocks : prev.lastAlgoBlocks.set hash block.getAlgo = lastAlgoBlocks := by
    unfold copyLastAlgoBlocks fromPrev at hlast
    dsimp only at hlast
    rw [deref_eq hprev] at hlast
    exact Except.ok.inj hlast
  cases h
  exact {
    pprev := rfl
    height := rfl
    header := rfl
    skip := hskip
    lastAlgo := hblocks.symm
    timeMax := htime
    chainWork := hwork }

/-- The new index's pointers may be stated in the heap without it. -/
theorem Linked.insertNode (hH : Linked H) (hnew : H p = none)
    (hparent : ∀ q, node.pprev = some q → ∃ prev, H q = some prev ∧
      node.nHeight = prev.nHeight + 1 ∧
      getAncestor H q (getSkipHeight node.nHeight) = .ok node.pskip)
    (hroot : node.pprev = none → node.nHeight = 0)
    (hlast : ∀ algo, algo ≠ .unknown → node.lastAlgoBlocks.get algo =
      if node.getAlgo = algo then some p
      else node.pprev.bind fun q => (H q).bind fun prev => prev.lastAlgoBlocks.get algo) :
    Linked (H.insert p node) := by
  have hle := le_insert hnew node
  have hbefore : ∀ {x index}, H.insert p node x = some index → ∀ q, index.pprev = some q →
      ∃ prev, H q = some prev ∧ index.nHeight = prev.nHeight + 1 ∧
        getAncestor H q (getSkipHeight index.nHeight) = .ok index.pskip := by
    intro x index hx q hq
    rcases insert_eq_some.mp hx with ⟨-, rfl⟩ | ⟨-, hx⟩
    · exact hparent q hq
    · obtain ⟨prev, hprev, hheight⟩ := hH.parent hx hq
      exact ⟨prev, hprev, hheight, hH.skip hx hq⟩
  constructor
  · intro x index q hx hq
    obtain ⟨prev, hprev, hheight, -⟩ := hbefore hx q hq
    exact ⟨prev, hle _ _ hprev, hheight⟩
  · intro x index hx hq
    rcases insert_eq_some.mp hx with ⟨-, rfl⟩ | ⟨-, hx⟩
    · exact hroot hq
    · exact hH.root hx hq
  · intro x index q hx hq
    obtain ⟨-, -, -, hskip⟩ := hbefore hx q hq
    exact getAncestor_mono hle _ _ _ hskip
  · intro x index hx algo ha
    have hget : index.lastAlgoBlocks.get algo = if index.getAlgo = algo then some x
        else index.pprev.bind fun q => (H q).bind fun prev => prev.lastAlgoBlocks.get algo := by
      rcases insert_eq_some.mp hx with ⟨rfl, rfl⟩ | ⟨-, hx⟩
      · exact hlast algo ha
      · exact hH.lastAlgo hx algo ha
    rw [hget]
    cases hq : index.pprev with
    | none => rfl
    | some q =>
      obtain ⟨prev, hprev, -⟩ := hbefore hx q hq
      rw [bind_some, bind_some, hprev, hle _ _ hprev]

section
variable {params : Params} {H : Heap} {hash : Uint256} {block : CBlockHeader}
  {prev node : IndexNode} (hnew : H hash = none) (hprev : H block.hashPrevBlock = some prev)
  (hnode : LinkedUnder params H hash block prev node)
include hnew hprev hnode

theorem Linked.insert (hH : Linked H) : Linked (H.insert hash node) := by
  refine hH.insertNode hnew ?_ ?_ ?_
  · intro q hq
    cases hnode.pprev.symm.trans hq
    exact ⟨prev, hprev, hnode.height, hnode.skip⟩
  · intro hq
    cases hnode.pprev.symm.trans hq
  · intro algo ha
    rw [hnode.lastAlgo, LastAlgoBlocks.get_set _ _ _ ha, hnode.pprev, bind_some, hprev, bind_some]

theorem Coherent.insert (hH : Coherent params H) : Coherent params (H.insert hash node) where
  toLinked := hH.toLinked.insert hnew hprev hnode
  timeMax := by
    intro p index hp
    have hmono := fromPrev_mono (le_insert hnew node) index.pprev index.nTime.toNat
      fun prev => max prev.nTimeMax index.nTime.toNat
    rcases insert_eq_some.mp hp with ⟨-, rfl⟩ | ⟨-, hp⟩
    · exact hmono _ hnode.timeMax
    · exact hmono _ (hH.timeMax hp)
  chainWork := by
    intro p index hp
    have hmono := computeChainWork_mono (le_insert hnew node) params index
    rcases insert_eq_some.mp hp with ⟨-, rfl⟩ | ⟨-, hp⟩
    · exact hmono _ hnode.chainWork
    · exact hmono _ (hH.chainWork hp)

end

variable {params : Params} {H : Heap} {hash : Uint256} {block : CBlockHeader}

theorem linkIndex_root {node : IndexNode} (hprev : H block.hashPrevBlock = none)
    (h : linkIndex params H hash block = .ok node) :
    node = rootNode hash block node.nChainWork ∧
      computeChainWork params H node = .ok node.nChainWork := by
  unfold linkIndex at h
  simp only [hprev] at h
  obtain ⟨pskip, hskip, h⟩ := bind_eq_ok.mp h
  obtain ⟨lastAlgoBlocks, hlast, h⟩ := bind_eq_ok.mp h
  obtain ⟨nTimeMax, htime, h⟩ := bind_eq_ok.mp h
  obtain ⟨nChainWork, hwork, h⟩ := bind_eq_ok.mp h
  cases hskip
  cases hlast
  cases htime
  cases h
  exact ⟨rfl, hwork⟩

theorem coherent_root {work : ℕ}
    (hwork : computeChainWork params H (rootNode hash block work) = .ok work) :
    Coherent params (rootHeap hash (rootNode hash block work)) where
  toLinked := (BlockTree.root hash block work).linked
  timeMax := by
    intro p index hp
    obtain ⟨-, rfl⟩ := rootHeap_eq_some.mp hp
    rfl
  chainWork := by
    intro p index hp
    obtain ⟨-, rfl⟩ := rootHeap_eq_some.mp hp
    have heq : ∀ H', computeChainWork params H' (rootNode hash block work) =
        computeChainWork params (fun _ => none) (rootNode hash block work) := by
      intro H'
      unfold computeChainWork getBlockProof
      rfl
    rw [heq, ← heq H]
    exact hwork

end Vexta
