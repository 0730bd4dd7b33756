import Vexta.Validation.HeaderRun

/-! The chain work of the indices of a tree grown on the main network. -/
namespace Vexta
open Lib Uint256

section
variable {H : Heap} (hH : Linked H) {q : Uint256} {prev : IndexNode}

def IsExpectedRoot (A : Arith Fault) (H : Heap) (q : Uint256) (algo : Algo) (r : ℕ) : Prop :=
  ∃ bits t, getNextWorkRequired A mainParams H (some q) algo = .ok bits ∧
    setCompact A bits = .ok ⟨t, false, false⟩ ∧ 1 ≤ t ∧ t ≤ mainParams.powLimit.toNat ∧
    approxNthRoot A numAlgos t = .ok r

variable {algo : Algo} {r : ℕ}

theorem IsExpectedRoot.machine (h : IsExpectedRoot trap H q algo r) :
    IsExpectedRoot .machine H q algo r := by
  obtain ⟨bits, t, hwork, hset, hpos, hle, hroot⟩ := h
  have hmachine := Arith.checked_le_machine Fault.lostBits
  refine ⟨bits, t, ?_, setCompact_mono hmachine _ _ hset, hpos, hle,
    approxNthRoot_mono hmachine _ _ _ hroot⟩
  exact getNextWorkRequired_mono mainParams hmachine (fun _ _ h => h) _ _ _ hwork

theorem IsExpectedRoot.unique {A : Arith Fault} {s : ℕ} (hr : IsExpectedRoot A H q algo r)
    (hs : IsExpectedRoot A H q algo s) : r = s := by
  obtain ⟨bits, t, hwork, hset, -, -, hroot⟩ := hr
  obtain ⟨bits', t', hwork', hset', -, -, hroot'⟩ := hs
  have hbits : bits = bits' := Except.ok.inj (hwork.symm.trans hwork')
  subst hbits
  have ht : t = t' := congrArg Compact.target (Except.ok.inj (hset.symm.trans hset'))
  subst ht
  exact Except.ok.inj (hroot.symm.trans hroot')

theorem exists_expectedRoot (hq : H q = some prev) (hr : ChainInRange hH q)
    (hlo : 8098 ≤ prev.nHeight) (algo : Algo) (ha : algo ≠ .unknown) :
    ∃ r, IsExpectedRoot trap H q algo r ∧ 0 < r ∧ r ≤ 2 ^ 118 := by
  obtain ⟨bits, t, hwork, -, hset, hle, hpos, -⟩ := exists_getNextWorkRequired hH hq hr ha
  have ht : 1 ≤ t := hpos (by omega)
  have htlt : t < 2 ^ 236 := by
    rw [main_powLimit] at hle
    omega
  obtain ⟨r, hroot, hr0, hrt, -⟩ := exists_approxNthRoot (n := numAlgos) (x := t) (by decide)
    (by decide) (by omega)
  refine ⟨r, ⟨bits, t, hwork, hset, ht, hle, hroot⟩, hr0 ht, ?_⟩
  by_contra hlarge
  have hsq : (2 ^ 118) ^ 2 ≤ r ^ 2 := Nat.pow_le_pow_left (by omega) 2
  have hrt' : r ^ 2 ≤ t := hrt
  have hpow : (2 ^ 118 : ℕ) ^ 2 = 2 ^ 236 := by norm_num
  omega

theorem averageTarget_cons {rest : List Algo} {average : ℕ} (hr : IsExpectedRoot trap H q algo r)
    (hr0 : 0 < r) (hfit : average * r < 2 ^ 256) :
    averageTarget trap mainParams H q (algo :: rest) average =
      averageTarget trap mainParams H q rest (average * r) := by
  obtain ⟨bits, t, hwork, hset, hpos, hle, hroot⟩ := hr
  have hcond : ¬ (false = true ∨ false = true ∨ t = 0 ∨ mainParams.powLimit.toNat < t) := by
    rintro (h | h | h | h)
    · cases h
    · cases h
    · omega
    · omega
  rw [averageTarget, hwork, ok_bind, hset, ok_bind, if_neg hcond, hroot,
    ok_bind, if_neg (by omega), mul, Arith.checked_unsigned hfit, ok_bind]

theorem exists_normalizedWork (hq : H q = some prev) (hr : ChainInRange hH q)
    (hlo : 8098 ≤ prev.nHeight) (ha : algo ≠ .unknown) :
    ∃ r₁ r₂, IsExpectedRoot trap H q .sha256d r₁ ∧ IsExpectedRoot trap H q .randomX r₂ ∧
      0 < r₁ * r₂ ∧ r₁ * r₂ ≤ 2 ^ 236 ∧
      normalizedWork trap mainParams H q algo = .ok (.ok (2 ^ 256 / (r₁ * r₂ + 1))) := by
  obtain ⟨r₁, hr₁, hpos₁, hle₁⟩ := exists_expectedRoot hH hq hr hlo .sha256d (by decide)
  obtain ⟨r₂, hr₂, hpos₂, hle₂⟩ := exists_expectedRoot hH hq hr hlo .randomX (by decide)
  have hle : r₁ * r₂ ≤ 2 ^ 236 := by
    calc
      r₁ * r₂ ≤ 2 ^ 118 * 2 ^ 118 := Nat.mul_le_mul hle₁ hle₂
      _ = 2 ^ 236 := by norm_num
  have hpos : 0 < r₁ * r₂ := Nat.mul_pos hpos₁ hpos₂
  refine ⟨r₁, r₂, hr₁, hr₂, hpos, hle, ?_⟩
  have haverage : averageTarget trap mainParams H q [.sha256d, .randomX] 1 =
      .ok (.ok (r₁ * r₂)) := by
    rw [averageTarget_cons hr₁ hpos₁ (by omega), averageTarget_cons hr₂ hpos₂ (by rw [Nat.one_mul]; omega),
      Nat.one_mul]
    rfl
  unfold normalizedWork
  rw [if_neg ha, haverage, ok_bind]
  dsimp only
  rw [if_neg (by omega), proofOfTarget_eq hpos (by omega)]
  rfl

end

section
variable {X : HeaderHashes} {H : Heap} (hinv : TreeInv X .main H)
include hinv

variable {p : Uint256} {node : IndexNode}

theorem TreeInv.checkedTarget (hp : H p = some node) : CheckedTarget mainParams node.nBits := by
  by_cases hne : p = mainParams.hashGenesisBlock
  · obtain ⟨work, hwork⟩ := hinv.genesis
    rw [hne] at hp
    have heq :=
      Option.some.inj (hp.symm.trans hwork)
    have hbits : node.nBits = 0x1e0ffff0 := by rw [heq]; rfl
    rw [hbits]
    unfold CheckedTarget
    decide
  · obtain ⟨q, -, hchecked⟩ := hinv.checked hp hne
    exact hchecked.target

theorem TreeInv.chainInRange (q : Uint256) : ChainInRange hinv.toLinked q := by
  intro p node _ hp
  exact (hinv.checkedTarget hp).2

theorem TreeInv.getBlockProof_below (hp : H p = some node) (hlo : node.nHeight < 8099) :
    getBlockProof .machine mainParams H node =
      .ok (2 ^ 256 / (targetOf node.nBits.toNat + 1)) := by
  obtain ⟨hset, hpos, hle⟩ := hinv.checkedTarget hp
  rw [main_powLimit] at hle
  have hproof := proofOfTarget_mono (Arith.checked_le_machine Fault.lostBits) _ _
    (proofOfTarget_eq (t := targetOf node.nBits.toNat) (by omega) (by omega))
  unfold getBlockProof
  rw [main_randomXHeight, ok_bind, if_pos (by omega)]
  unfold getBlockProofBase
  rw [hset, ok_bind, if_neg]
  · exact hproof
  · rintro (h | h | h)
    · cases h
    · cases h
    · change targetOf node.nBits.toNat = 0 at h
      omega

theorem TreeInv.getBlockProof_above {q : Uint256} (hp : H p = some node) (hq : node.pprev = some q)
    (hhi : 8099 ≤ node.nHeight) :
    ∃ r₁ r₂, IsExpectedRoot .machine H q .sha256d r₁ ∧
      IsExpectedRoot .machine H q .randomX r₂ ∧ 0 < r₁ * r₂ ∧ r₁ * r₂ ≤ 2 ^ 236 ∧
      normalizedWork .machine mainParams H q node.getAlgo =
        .ok (.ok (2 ^ 256 / (r₁ * r₂ + 1))) ∧
      getBlockProof .machine mainParams H node =
        scaleMultiAlgoChainwork .machine (2 ^ 256 / (r₁ * r₂ + 1)) 1921821664 41733 := by
  obtain ⟨prev, hprev, hheight⟩ := hinv.parent hp hq
  have hne : p ≠ mainParams.hashGenesisBlock := by
    rintro rfl
    obtain ⟨work, hwork⟩ := hinv.genesis
    have heq :=
      Option.some.inj (hp.symm.trans hwork)
    rw [heq] at hq
    cases hq
  obtain ⟨q', -, hchecked⟩ := hinv.checked hp hne
  obtain ⟨r₁, r₂, hr₁, hr₂, hpos, hle, hnorm⟩ := exists_normalizedWork hinv.toLinked hprev
    (hinv.chainInRange q) (by omega) hchecked.algo
  have hmachine := normalizedWork_mono mainParams (Arith.checked_le_machine Fault.lostBits)
    (Heap.Le.refl H) q node.getAlgo _ hnorm
  refine ⟨r₁, r₂, hr₁.machine, hr₂.machine, hpos, hle, hmachine, ?_⟩
  unfold getBlockProof
  rw [main_randomXHeight, ok_bind, if_neg (by omega), hq]
  dsimp only
  rw [hmachine, ok_bind]
  rfl

end

/-- The chain work in a tree grown on the main network. From the RandomX activation on, no early
exit is taken, the increment is the scaled work of the product of the two expected roots, and
siblings get the same; below it, the increment is the work of the own target. -/
theorem getBlockProof_normalized (config : NodeConfig) (hmain : config.network = .main)
    (hg : GenesisAsserted config) (events : List HeaderEvent) {blockman : BlockManager}
    (hrun : runHeaders config events = .ok blockman) {p : Uint256} {index : CBlockIndex}
    (hp : blockman.blockIndex.lookup p = some index) :
    computeChainWork mainParams blockman.heap index.toIndexNode = .ok index.nChainWork ∧
    (8099 ≤ index.nHeight → ∃ q r₁ r₂, index.pprev = some q ∧
      IsExpectedRoot .machine blockman.heap q .sha256d r₁ ∧
      IsExpectedRoot .machine blockman.heap q .randomX r₂ ∧
      normalizedWork .machine mainParams blockman.heap q index.getAlgo =
        .ok (.ok (2 ^ 256 / (r₁ * r₂ + 1))) ∧
      (2 ^ 256 / (r₁ * r₂ + 1) * 1921821664 / 41733 < 2 ^ 256 →
        getBlockProof .machine mainParams blockman.heap index.toIndexNode =
          .ok (2 ^ 256 / (r₁ * r₂ + 1) * 1921821664 / 41733) ∧
        1 ≤ 2 ^ 256 / (r₁ * r₂ + 1) * 1921821664 / 41733) ∧
      ∀ p' index', blockman.blockIndex.lookup p' = some index' → index'.pprev = some q →
        getBlockProof .machine mainParams blockman.heap index'.toIndexNode =
          getBlockProof .machine mainParams blockman.heap index.toIndexNode) ∧
    (index.nHeight < 8099 →
      getBlockProof .machine mainParams blockman.heap index.toIndexNode =
        .ok (2 ^ 256 / (targetOf index.nBits.toNat + 1))) := by
  have hinv := runHeaders_treeInv hg hrun
  rw [hmain] at hinv
  have hnode :=
    BlockMap.heap_eq_some.mpr ⟨index, hp, rfl⟩
  refine ⟨hinv.chainWork hnode, ?_, hinv.getBlockProof_below hnode⟩
  intro hhi
  cases hq : index.pprev with
  | none =>
    have h0 := hinv.root hnode hq
    omega
  | some q =>
    obtain ⟨r₁, r₂, hr₁, hr₂, hpos, hle, hnorm, hproof⟩ := hinv.getBlockProof_above hnode hq hhi
    refine ⟨q, r₁, r₂, rfl, hr₁, hr₂, hnorm, ?_, ?_⟩
    · intro hfit
      obtain ⟨work, hwork⟩ : ∃ work, work = 2 ^ 256 / (r₁ * r₂ + 1) := ⟨_, rfl⟩
      have hlow : 2 ^ 19 ≤ work := by
        rw [hwork, Nat.le_div_iff_mul_le (by omega)]
        omega
      have hhigh : work < 2 ^ 256 := by
        rw [hwork]
        exact Nat.div_lt_self (by norm_num) (by omega)
      rw [← hwork] at hfit hproof ⊢
      have hscale := scaleMultiAlgoChainwork_mono (Arith.checked_le_machine Fault.lostBits) _
        1921821664 41733 _
        (scaleMultiAlgoChainwork_eq hhigh (by norm_num) (by norm_num) (by norm_num) (by norm_num))
      rw [if_pos hfit] at hscale
      exact ⟨hproof.trans hscale, by omega⟩
    · intro p' index' hp' hq'
      have hnode' :=
        BlockMap.heap_eq_some.mpr ⟨index', hp', rfl⟩
      obtain ⟨prev, hprev, hheight⟩ := hinv.parent hnode hq
      obtain ⟨prev', hprev', hheight'⟩ := hinv.parent hnode' hq'
      have hsame : prev' = prev := Option.some.inj (hprev'.symm.trans hprev)
      obtain ⟨s₁, s₂, hs₁, hs₂, -, -, -, hproof'⟩ := hinv.getBlockProof_above hnode' hq'
        (by rw [hheight', hsame]; omega)
      rw [hproof, hproof', hr₁.unique hs₁, hr₂.unique hs₂]

theorem getBlockProof_normalized_example : ∃ blockman index,
    runHeaders exampleConfig [.header exampleHeader 1782771000] = .ok blockman ∧
      blockman.blockIndex.lookup 1 = some index ∧
      getBlockProof .machine mainParams blockman.heap index.toIndexNode =
        .ok (2 ^ 256 / (targetOf index.nBits.toNat + 1)) := by
  obtain ⟨blockman, index, hrun, hindex, hheight, -⟩ := exists_exampleRun
  obtain ⟨-, -, hbelow⟩ := getBlockProof_normalized exampleConfig rfl exampleConfig_genesis _ hrun
    hindex
  exact ⟨blockman, index, hrun, hindex, hbelow (by omega)⟩

end Vexta
