import Vexta.Pow.MainNet

/-! Which parameters retargeting reads on each network. -/
namespace Vexta
open Lib Uint256 Heap

def IndexNode.HasHeader (index : IndexNode) (block : CBlockHeader) : Prop :=
  index.nVersion = block.nVersion ∧ index.hashMerkleRoot = block.hashMerkleRoot ∧
    index.nTime = block.nTime ∧ index.nBits = block.nBits ∧ index.nNonce = block.nNonce

/-- What header validation establishes. The next height is an `int`. -/
structure ValidIndex (network : Network) (index : IndexNode) : Prop where
  height : (index.nHeight : ℤ) < intMax
  target : 1 ≤ targetOf index.nBits.toNat ∧
    targetOf index.nBits.toNat ≤ network.params.powLimit.toNat
  root : index.pprev = none → index.HasHeader network.genesis
  algo : index.pprev ≠ none → index.getAlgo ≠ .unknown
  randomX : index.pprev ≠ none → index.getAlgo = .randomX →
    ∀ height, network.params.randomXActivationHeight = some height → height ≤ index.nHeight

variable (network : Network)

def ValidChain (T : BlockTree) : Option Uint256 → Prop
  | none => True
  | some p => T.linked.forest.Mem p ∧
      ∀ q index, T.linked.forest.Above q p → T.heap q = some index → ValidIndex network index

theorem exists_getCompact_machine {x : ℕ} (h0 : 0 < x) (hx : x < 2 ^ 256) :
    ∃ bits, getCompact .machine false x = .ok bits := by
  obtain ⟨bits, hbits, -⟩ := getCompact_good h0 le_rfl hx
  exact ⟨bits, getCompact_mono (Arith.checked_le_machine _) _ _ bits hbits⟩

theorem initialTargets_pos : 0 < network.params.powLimit.toNat ∧
    0 < network.params.randomXInitialTarget.toNat := by
  cases network with
  | main => constructor <;> simp only [Network.params] <;> decide
  | test => constructor <;> simp only [Network.params] <;> decide
  | signet challenge => constructor <;> simp only [Network.params] <;> decide
  | regtest args => exact ⟨(by norm_num : 0 < (2 ^ 255 - 1 : ℕ)), (by norm_num : 0 < 2 ^ 255 - 1)⟩

theorem exists_initialDifficulty_machine :
    ∃ bits, initialDifficulty .machine network.params = .ok bits :=
  exists_getCompact_machine (initialTargets_pos network).1 network.params.powLimit.isLt

theorem exists_randomXInitialDifficulty_machine :
    ∃ bits, randomXInitialDifficulty .machine network.params = .ok bits :=
  exists_getCompact_machine (initialTargets_pos network).2 network.params.randomXInitialTarget.isLt

section
variable {network : Network} {T : BlockTree} {p : Uint256} {last : IndexNode}

theorem getNextWorkRequired_initial {pindexLast : Option Uint256} {algo : Algo}
    (h : pindexLast = none ∨ algo = .unknown) :
    ∃ bits, getNextWorkRequired .machine network.params T.heap pindexLast algo = .ok bits := by
  unfold getNextWorkRequired
  by_cases ha : algo = .unknown
  · rw [if_pos ha]
    exact exists_initialDifficulty_machine network
  · have hnone : pindexLast = none := h.resolve_right ha
    rw [if_neg ha, hnone]
    dsimp only
    split_ifs
    · exact exists_randomXInitialDifficulty_machine network
    · exact exists_initialDifficulty_machine network

theorem getNextWorkRequired_fixed (hfix : network.params.fPowNoRetargeting = some true)
    (hwindow : network.params.difficultyAveragingWindow = some 10) {height : ℤ}
    (hheight : network.params.randomXActivationHeight = some height)
    (hp : T.heap p = some last) {algo : Algo} (ha : algo ≠ .unknown) :
    ∃ bits, getNextWorkRequired .machine network.params T.heap (some p) algo = .ok bits := by
  have hno : noRetargeting network.params = .ok true := by
    unfold noRetargeting
    rw [hfix]
    rfl
  unfold getNextWorkRequired
  rw [if_neg ha]
  dsimp only
  rw [deref_eq hp, ok_bind, hheight, readParam_some, ok_bind]
  split_ifs with hx hrx
  · unfold calculateMultiAlgoWorkRequired
    rcases T.linked.exists_getLastBlockIndexForAlgoFast ha hp with hnone | ⟨q, prev, hq, hprev, -⟩
    · simp only [hnone, ok_bind]
      split_ifs
      · exact exists_randomXInitialDifficulty_machine network
      · exact exists_initialDifficulty_machine network
    · refine ⟨prev.nBits.toNat, ?_⟩
      simp only [hq, ok_bind, deref_eq hprev, hno, if_true]
  · exact exists_randomXInitialDifficulty_machine network
  · have hasert : asertActive network.params last = .ok false := by
      unfold asertActive
      rw [hno]
      rfl
    have hstep : stepBack T.heap (10 : ℤ).toNat (some p) =
        .ok (up T.linked.forest.parent 10 p) := T.linked.exists_stepBack 10 hp
    rw [hasert, ok_bind, if_neg (by decide)]
    unfold windowRetarget
    rw [deref_eq hp, ok_bind, hwindow, readParam_some, ok_bind, hstep,
      ok_bind]
    cases up T.linked.forest.parent 10 p with
    | none => exact exists_initialDifficulty_machine network
    | some q =>
      refine ⟨last.nBits.toNat, ?_⟩
      simp only [hno, ok_bind, if_true]

theorem getNextWorkRequired_mainnet (hvalid : ValidChain .main T (some p)) {algo : Algo}
    (ha : algo ≠ .unknown) :
    ∃ bits, getNextWorkRequired .machine mainParams T.heap (some p) algo = .ok bits := by
  obtain ⟨hmem, habove⟩ := hvalid
  obtain ⟨last, hp⟩ := T.linked.forest_mem.mp hmem
  have hrange : ChainInRange T.linked p := fun q index hq hi => (habove q index hq hi).target
  obtain ⟨bits, -, hrun, -⟩ := exists_getNextWorkRequired T.linked hp hrange ha
  have hmono := getNextWorkRequired_mono mainParams (Arith.checked_le_machine Fault.lostBits)
    (Heap.Le.refl T.heap) (some p) algo
  exact ⟨bits, hmono bits hrun⟩

theorem getNextWorkRequired_signet_randomX {challenge : List UInt8}
    (hvalid : ValidChain (.signet challenge) T (some p)) :
    ∃ bits, getNextWorkRequired .machine sigNetParams T.heap (some p) .randomX = .ok bits := by
  obtain ⟨hmem, habove⟩ := hvalid
  obtain ⟨last, hp⟩ := T.linked.forest_mem.mp hmem
  have hinit := exists_randomXInitialDifficulty_machine (.signet challenge)
  have hread : readParam sigNetParams.randomXActivationHeight = .ok intMax := rfl
  unfold getNextWorkRequired
  rw [if_neg (by decide)]
  dsimp only
  rw [deref_eq hp, ok_bind, hread, ok_bind]
  by_cases hx : intMax ≤ (last.nHeight : ℤ) + 1
  · rw [if_pos hx]
    unfold calculateMultiAlgoWorkRequired
    have halgo : Algo.randomX ≠ .unknown := by decide
    rcases T.linked.exists_getLastBlockIndexForAlgoFast halgo hp with
      hnone | ⟨q, prev, -, hprev, halgo, hq⟩
    · simp only [hnone, ok_bind, if_true]
      exact hinit
    · have hvq := habove q prev hq hprev
      by_cases hroot : prev.pprev = none
      · have hversion := (hvq.root hroot).1
        have hunknown : prev.getAlgo = .unknown := by
          unfold IndexNode.getAlgo
          rw [hversion]
          change algoOfVersion 1 = .unknown
          decide
        cases hunknown.symm.trans halgo
      · have hactive := hvq.randomX hroot halgo intMax rfl
        have hbound := hvq.height
        omega
  · rw [if_neg hx, if_pos rfl]
    exact hinit

theorem getNextWorkRequired_signet_sha256d {challenge : List UInt8}
    (hvalid : ValidChain (.signet challenge) T (some p)) :
    getNextWorkRequired .machine sigNetParams T.heap (some p) .sha256d = .error .unassigned := by
  obtain ⟨hmem, habove⟩ := hvalid
  obtain ⟨last, hp⟩ := T.linked.forest_mem.mp hmem
  have hlast := habove p last (T.linked.forest.above_refl p) hp
  have hread : readParam sigNetParams.randomXActivationHeight = .ok intMax := rfl
  unfold getNextWorkRequired
  rw [if_neg (by decide)]
  dsimp only
  rw [deref_eq hp, ok_bind, hread, ok_bind]
  by_cases hx : intMax ≤ (last.nHeight : ℤ) + 1
  · have hbound := hlast.height
    have hprev : last.pprev ≠ none := by
      intro hroot
      have h0 := T.linked.root hp hroot
      rw [h0] at hx
      exact absurd hx (by decide)
    have halgo : last.getAlgo = .sha256d := by
      have hknown := hlast.algo hprev
      have hnot : last.getAlgo ≠ .randomX := by
        intro hrx
        have hactive := hlast.randomX hprev hrx intMax rfl
        omega
      cases h : last.getAlgo with
      | unknown => exact absurd h hknown
      | sha256d => rfl
      | randomX => exact absurd h hnot
    have hself : getLastBlockIndexForAlgoFast T.heap p .sha256d = .ok (some p) := by
      unfold getLastBlockIndexForAlgoFast lastAlgoWalk
      rw [if_neg (by decide), deref_eq hp, ok_bind, ok_bind, if_pos halgo]
    rw [if_pos hx]
    unfold calculateMultiAlgoWorkRequired
    simp only [hself, ok_bind, deref_eq hp]
    rfl
  · rw [if_neg hx, if_neg (by decide)]
    rfl

end

def ReadsAssigned (run : Except Fault ℕ) : Prop :=
  run ≠ .error .divisionByZero ∧ run ≠ .error .unassigned

theorem readsAssigned_of_ok {run : Except Fault ℕ} (h : ∃ bits, run = .ok bits) :
    ReadsAssigned run := by
  obtain ⟨bits, rfl⟩ := h
  exact ⟨nofun, nofun⟩

/-- Retargeting divides by no zero and reads no unassigned parameter exactly when it computes no
SHA256D bits on top of a signet block. -/
theorem getNextWorkRequired_assigned_iff (network : Network) (T : BlockTree)
    (pindexLast : Option Uint256) (hvalid : ValidChain network T pindexLast) (algo : Algo) :
    ReadsAssigned (getNextWorkRequired .machine network.params T.heap pindexLast algo) ↔
      ¬ ((∃ challenge, network = .signet challenge) ∧ pindexLast ≠ none ∧ algo = .sha256d) := by
  constructor
  · rintro hrun ⟨⟨challenge, rfl⟩, hne, rfl⟩
    obtain ⟨p, rfl⟩ := Option.ne_none_iff_exists'.mp hne
    exact hrun.2 (getNextWorkRequired_signet_sha256d hvalid)
  · intro hcond
    apply readsAssigned_of_ok
    cases pindexLast with
    | none => exact getNextWorkRequired_initial (.inl rfl)
    | some p =>
      obtain ⟨last, hp⟩ := T.linked.forest_mem.mp hvalid.1
      by_cases ha : algo = .unknown
      · exact getNextWorkRequired_initial (.inr ha)
      · cases network with
        | main => exact getNextWorkRequired_mainnet hvalid ha
        | test => exact getNextWorkRequired_fixed rfl rfl rfl hp ha
        | regtest args => exact getNextWorkRequired_fixed rfl rfl rfl hp ha
        | signet challenge =>
          have hrx : algo = .randomX := by
            cases algo with
            | unknown => exact absurd rfl ha
            | sha256d => exact absurd ⟨⟨challenge, rfl⟩, nofun, rfl⟩ hcond
            | randomX => rfl
          rw [hrx]
          exact getNextWorkRequired_signet_randomX hvalid

def signetGenesisTree : BlockTree :=
  BlockTree.root sigNetParams.hashGenesisBlock (Network.signet []).genesis 0

theorem signetGenesisTree_valid :
    ValidChain (.signet []) signetGenesisTree (some sigNetParams.hashGenesisBlock) := by
  refine ⟨rfl, ?_⟩
  intro q index _ hq
  obtain ⟨-, rfl⟩ := rootHeap_eq_some.mp hq
  exact {
    height := by decide
    target := by constructor <;> decide
    root := fun _ => ⟨rfl, rfl, rfl, rfl, rfl⟩
    algo := fun h => absurd rfl h
    randomX := fun h => absurd rfl h }

theorem getNextWorkRequired_assigned_signet_randomX :
    ReadsAssigned (getNextWorkRequired .machine sigNetParams signetGenesisTree.heap
      (some sigNetParams.hashGenesisBlock) .randomX) :=
  (getNextWorkRequired_assigned_iff (.signet []) signetGenesisTree _ signetGenesisTree_valid
    .randomX).mpr (by simp)

/-- The first SHA256D block on signet cannot be retargeted. -/
theorem signet_genesis_unassigned :
    ValidChain (.signet []) signetGenesisTree (some sigNetParams.hashGenesisBlock) ∧
      getNextWorkRequired .machine sigNetParams signetGenesisTree.heap
        (some sigNetParams.hashGenesisBlock) .sha256d = .error .unassigned :=
  ⟨signetGenesisTree_valid, rfl⟩

end Vexta
