import Vexta.Connect.Chain
import Vexta.Validation.AcceptValid
import Vexta.Validation.BlockFiles

/-! A reindex accepts every block of the files, whatever the order in which they are stored. -/
namespace Vexta
open Lib Uint256 List ReindexContext BlockFile BlockManager Heap

namespace ReindexContext
variable {R : ReindexContext} {blocks : List CBlock} {block : CBlock} {H : Heap}

theorem checkBlockWeight_of_checked {pprev : Option Uint256}
    (h : R.checkBlockInTree H block pprev = .ok ()) : checkBlockWeight block = .ok () := by
  unfold checkBlockInTree at h
  obtain ⟨_, -, h⟩ := bind_eq_ok.mp h
  unfold contextualCheckBlock at h
  obtain ⟨nHeight, -, h⟩ := bind_eq_ok.mp h
  obtain ⟨nLockTimeCutoff, -, h⟩ := bind_eq_ok.mp h
  split_ifs at h
  obtain ⟨_, -, h⟩ := bind_eq_ok.mp h
  obtain ⟨fHaveWitness, -, h⟩ := bind_eq_ok.mp h
  obtain ⟨_, -, h⟩ := bind_eq_ok.mp h
  exact h

theorem length_serialize_le (h : checkBlockWeight block = .ok ()) :
    block.serialize.length ≤ maxBlockSerializedSize := by
  unfold checkBlockWeight at h
  split_ifs at h with hweight
  unfold getBlockWeight maxBlockWeight at hweight
  unfold maxBlockSerializedSize
  omega

theorem ValidBlock.checkBlock (h : R.ValidBlock blocks block H) :
    Vexta.checkBlock R.connect block = .ok () := by
  obtain ⟨pprev, hchecked⟩ := h.checked
  unfold checkBlockInTree at hchecked
  obtain ⟨_, hfirst, -⟩ := bind_eq_ok.mp hchecked
  exact hfirst

theorem ValidBlock.storable (h : R.ValidBlock blocks block H) : block.Storable := by
  obtain ⟨pprev, hchecked⟩ := h.checked
  have hsize := length_serialize_le (checkBlockWeight_of_checked hchecked)
  have hread : block.serialize.length ≤ maxSize := by
    unfold maxBlockSerializedSize at hsize
    unfold maxSize
    omega
  have htxs := (checkBlock_eq_ok h.checkBlock).transactions
  exact ⟨reads_block hread fun tx htx => (htxs tx htx).vin, hsize⟩

theorem checkReadWork_of_checked
    (h : checkBlockHeader R.connect.hashes R.connect.network.params block.header true = .ok none) :
    R.checkReadWork block = .ok true := by
  have hpassed : ∀ {x : Except Fault Bool},
      (x >>= fun passed => (.ok (if passed then none
        else some (Rejection.invalid .invalidHeader "high-hash")) :
          Except Fault (Option Rejection))) = .ok none → x = .ok true := by
    intro x hx
    obtain ⟨passed, hpassed, hx⟩ := bind_eq_ok.mp hx
    cases passed with
    | true => exact hpassed
    | false => cases hx
  unfold checkBlockHeader at h
  unfold checkReadWork hashOf genesisHash
  rw [if_neg (by decide)] at h
  by_cases hgenesis : block.header.getHash R.connect.hashes =
      R.connect.network.params.hashGenesisBlock
  · rw [if_pos (.inl hgenesis)]
    rw [if_pos hgenesis] at h
    exact hpassed h
  · rw [if_neg hgenesis] at h
    cases halgo : block.header.getAlgo with
    | sha256d =>
      rw [if_pos (.inr rfl)]
      rw [halgo] at h
      exact hpassed h
    | randomX =>
      rw [if_neg (by simp [hgenesis])]
      rfl
    | unknown =>
      rw [halgo] at h
      cases h

theorem ValidBlock.readBlockFromDisk (h : R.ValidBlock blocks block H) {files : List Bytes}
    {pos : FlatFilePos} {file rest : Bytes} (hfile : files[pos.nFile]? = some file)
    (hdrop : file.drop pos.nPos = block.serialize ++ rest) :
    R.readBlockFromDisk files pos = .ok (some block) := by
  have hchecked := h.checkBlock
  unfold Vexta.checkBlock at hchecked
  obtain ⟨_, hheader, hchecked⟩ := bind_eq_ok.mp hchecked
  have hwork : R.checkReadWork block = .ok true := by
    apply checkReadWork_of_checked
    unfold BlockFailure.liftRejection at hheader
    split at hheader
    · assumption
    · cases hheader
    · cases hheader
  split_ifs at hchecked with hsignet
  unfold ReindexContext.readBlockFromDisk
  rw [hfile]
  dsimp only
  rw [hdrop, h.storable.reads rest]
  dsimp only
  rw [hwork, ok_bind, if_pos ⟨rfl, hsignet⟩]

/-- Valid and different blocks where the reader finds them. -/
structure Stored (R : ReindexContext) (files : List Bytes) (found : List (FlatFilePos × CBlock)) :
    Prop where
  distinct : R.Distinct (found.map Prod.snd)
  valid : ∀ x ∈ found, ∃ H, R.ValidBlock (found.map Prod.snd) x.2 H
  reads : ∀ x ∈ found, R.readBlockFromDisk files x.1 = .ok (some x.2)

/-- Between rounds a found block is in the tree or waits for its parent. -/
structure Progress (R : ReindexContext) (files : List Bytes)
    (found done : List (FlatFilePos × CBlock)) (s : Reindex) (queue : List Uint256) : Prop where
  holds : Holds R (found.map Prod.snd) found s.chain
  parked : ∀ e ∈ s.unknownParent, ∃ block, (e.2, block) ∈ found ∧
    block.header.hashPrevBlock = e.1 ∧ R.hashOf block ≠ R.genesisHash ∧
    ((s.chain.blockman.heap e.1).isSome → e.1 ∈ queue)
  accepted : ∀ p ∈ queue, (s.chain.blockman.heap p).isSome
  covered : ∀ x ∈ done, (s.chain.blockman.heap (R.hashOf x.2)).isSome ∨
    (x.2.header.hashPrevBlock, x.1) ∈ s.unknownParent

variable {files : List Bytes} {found done : List (FlatFilePos × CBlock)}

variable {pos : FlatFilePos} {chain : ChainState} {s : Reindex}

theorem Stored.block_eq (h : Stored R files found) {b b' : CBlock} (hb : (pos, b) ∈ found)
    (hb' : (pos, b') ∈ found) : b = b' := by
  have hread := h.reads _ hb
  cases (h.reads _ hb').symm.trans hread
  rfl

theorem Holds.acceptBlock_again (h : Holds R blocks found chain)
    (hne : R.hashOf block ≠ R.genesisHash) {index : CBlockIndex}
    (hindex : chain.blockman.blockIndex.lookup (R.hashOf block) = some index) :
    R.acceptBlock chain block pos = .ok (.accepted, chain) := by
  obtain ⟨-, -, -, -, -, -, -, hfailed, hdata, -⟩ := h.stored _ index hindex
  have hheader : Vexta.acceptBlockHeader R.config chain.blockman block.header R.nAdjustedTime =
      .ok (.ok (R.hashOf block), chain.blockman) := by
    unfold Vexta.acceptBlockHeader
    have hne' : block.header.getHash R.config.hashes ≠
      R.config.network.params.hashGenesisBlock := hne
    have hindex' : chain.blockman.blockIndex.lookup (block.header.getHash R.config.hashes) =
      some index := hindex
    simp only [if_neg hne', hindex', hfailed, Bool.false_eq_true, if_false]
    rfl
  unfold ReindexContext.acceptBlock
  simp only [hheader, ok_bind, hindex, derefPtr, hdata, if_true]

theorem Stored.acceptBlock (hstored : Stored R files found)
    (h : Holds R (found.map Prod.snd) found chain) (hmem : (pos, block) ∈ found)
    (hne : R.hashOf block ≠ R.genesisHash)
    (hparent : (chain.blockman.heap block.header.hashPrevBlock).isSome) :
    ∃ chain', R.acceptBlock chain block pos = .ok (.accepted, chain') ∧
      Holds R (found.map Prod.snd) found chain' ∧
      ∀ p, (chain'.blockman.heap p).isSome ↔
        p = R.hashOf block ∨ (chain.blockman.heap p).isSome := by
  cases hlookup : chain.blockman.blockIndex.lookup (R.hashOf block) with
  | none =>
    obtain ⟨H, hvalid⟩ := hstored.valid _ hmem
    exact h.acceptBlock hstored.distinct hmem hvalid hlookup fun _ => hparent
  | some index =>
    refine ⟨chain, h.acceptBlock_again hne hlookup, h, fun p => ⟨.inr, ?_⟩⟩
    rintro (rfl | hp)
    · apply lookup_isSome_iff.mp
      rw [hlookup]
      rfl
    · exact hp

theorem Stored.releaseChildren (hstored : Stored R files found) {head : Uint256}
    (children : List (Uint256 × FlatFilePos))
    (hchildren : ∀ e ∈ children, ∃ block, (e.2, block) ∈ found ∧
      block.header.hashPrevBlock = head ∧ R.hashOf block ≠ R.genesisHash)
    (h : Holds R (found.map Prod.snd) found chain) (hhead : (chain.blockman.heap head).isSome)
    (released : List Uint256) :
    ∃ chain' new, children.foldlM (R.releaseChild files) (chain, released) =
        .ok (chain', released ++ new) ∧
      Holds R (found.map Prod.snd) found chain' ∧ new.length = children.length ∧
      (∀ p, (chain'.blockman.heap p).isSome ↔ p ∈ new ∨ (chain.blockman.heap p).isSome) ∧
      ∀ e ∈ children, ∀ block, (e.2, block) ∈ found → R.hashOf block ∈ new := by
  induction children generalizing chain released with
  | nil => exact ⟨chain, [], by rw [append_nil]; rfl, h, rfl, by simp, nofun⟩
  | cons e children ih =>
    obtain ⟨block, hmem, hprev, hne⟩ := hchildren e mem_cons_self
    obtain ⟨chain₁, haccept, h₁, hkeys₁⟩ := hstored.acceptBlock h hmem hne (hprev ▸ hhead)
    obtain ⟨chain₂, new, hfold, h₂, hlength, hkeys₂, hall⟩ :=
      ih (fun e he => hchildren e (mem_cons_of_mem _ he)) h₁ ((hkeys₁ head).mpr (.inr hhead))
        (released ++ [R.hashOf block])
    have hchild : R.releaseChild files (chain, released) e =
        .ok (chain₁, released ++ [R.hashOf block]) := by
      unfold releaseChild
      simp only [hstored.reads _ hmem, ok_bind, haccept, if_true]
    refine ⟨chain₂, R.hashOf block :: new, ?_, h₂, by simp [hlength], ?_, ?_⟩
    · rw [foldlM_cons, hchild, ok_bind, hfold, append_assoc]
      rfl
    · intro p
      rw [hkeys₂, hkeys₁, mem_cons]
      tauto
    · intro e' he' block' hmem'
      rcases mem_cons.mp he' with rfl | he'
      · rw [hstored.block_eq hmem' hmem]
        exact mem_cons_self
      · exact mem_cons_of_mem _ (hall e' he' block' hmem')

theorem Progress.releaseQueue (hstored : Stored R files found) (hdone : done ⊆ found) (fuel : ℕ)
    {queue : List Uint256} (h : Progress R files found done s queue)
    (hfuel : queue.length + s.unknownParent.length ≤ fuel) :
    ∃ s', R.releaseQueue files fuel s queue = .ok s' ∧ Progress R files found done s' [] := by
  induction fuel generalizing s queue with
  | zero =>
    cases queue with
    | nil => exact ⟨s, rfl, h⟩
    | cons head queue => simp at hfuel
  | succ fuel ih =>
    cases queue with
    | nil => exact ⟨s, rfl, h⟩
    | cons head queue =>
      have hhead := h.accepted head mem_cons_self
      obtain ⟨chain, new, hfold, hholds, hlength, hkeys, hall⟩ := hstored.releaseChildren
        (s.unknownParent.filter fun entry => entry.1 = head)
        (by
          intro e he
          obtain ⟨hmem, heq⟩ := mem_filter.mp he
          obtain ⟨block, hfound, hprev, hne, -⟩ := h.parked e hmem
          exact ⟨block, hfound, hprev.trans (of_decide_eq_true heq), hne⟩)
        h.holds hhead []
      rw [nil_append] at hfold
      have hsplit := s.unknownParent.length_eq_length_filter_add
        fun entry => decide (entry.1 = head)
      have hnext : Progress R files found done
          ⟨chain, s.unknownParent.filter fun entry => entry.1 ≠ head⟩ (queue ++ new) := by
        refine ⟨hholds, ?_, ?_, ?_⟩
        · intro e he
          obtain ⟨hmem, hne⟩ := mem_filter.mp he
          obtain ⟨block, hfound, hprev, hgenesis, hqueue⟩ := h.parked e hmem
          refine ⟨block, hfound, hprev, hgenesis, fun hsome => mem_append.mpr ?_⟩
          rcases (hkeys e.1).mp hsome with hin | hsome
          · exact .inr hin
          · rcases mem_cons.mp (hqueue hsome) with heq | hin
            · exact absurd heq (of_decide_eq_true hne)
            · exact .inl hin
        · intro p hp
          rcases mem_append.mp hp with hp | hp
          · exact (hkeys p).mpr (.inr (h.accepted p (mem_cons_of_mem _ hp)))
          · exact (hkeys p).mpr (.inl hp)
        · intro x hx
          rcases h.covered x hx with hsome | hparked
          · exact .inl ((hkeys _).mpr (.inr hsome))
          · by_cases heq : x.2.header.hashPrevBlock = head
            · left
              have hchild : (x.2.header.hashPrevBlock, x.1) ∈
                  s.unknownParent.filter fun entry => entry.1 = head :=
                mem_filter.mpr ⟨hparked, decide_eq_true heq⟩
              exact (hkeys _).mpr (.inl (hall _ hchild x.2 (hdone hx)))
            · exact .inr (mem_filter.mpr ⟨hparked, decide_eq_true heq⟩)
      obtain ⟨s', hrun, hprogress⟩ := ih hnext (by
        simp only [length_append, length_cons, hlength, ne_eq, decide_not] at hfuel ⊢
        omega)
      refine ⟨s', ?_, hprogress⟩
      unfold releaseQueue
      dsimp only
      rw [hfold, ok_bind]
      exact hrun

theorem Holds.activateGenesis (h : Holds R blocks found chain) :
    Holds R blocks found (R.activateGenesis chain) ∧
      (R.activateGenesis chain).blockman.heap = chain.blockman.heap := by
  have hheap : (R.activateGenesis chain).blockman.heap = chain.blockman.heap :=
    BlockMap.heap_modify _ _ fun _ => rfl
  refine ⟨⟨h.failedBlocks, ?_, ?_, ?_⟩, hheap⟩
  · rw [hheap]
    exact h.bestHeader
  · rw [hheap]
    exact h.unlinked
  · intro hash index hindex
    rw [hheap]
    unfold ReindexContext.activateGenesis at hindex
    dsimp only at hindex
    rw [BlockMap.lookup_modify] at hindex
    split_ifs at hindex with heq
    · obtain ⟨old, hold, rfl⟩ := Option.map_eq_some_iff.mp hindex
      rw [← heq] at hold
      dsimp only
      rw [BlockStatus.raiseValidity_failed, BlockStatus.raiseValidity_haveData]
      exact h.stored hash old hold
    · exact h.stored hash index hindex

theorem Stored.processBlock (hstored : Stored R files found)
    (h : Holds R (found.map Prod.snd) found chain) (hmem : (pos, block) ∈ found)
    (hparent : R.hashOf block ≠ R.genesisHash →
      (chain.blockman.heap block.header.hashPrevBlock).isSome) :
    ∃ chain', R.processBlock chain block pos = .ok (.accepted, chain') ∧
      Holds R (found.map Prod.snd) found chain' ∧
      ∀ p, (chain'.blockman.heap p).isSome ↔
        p = R.hashOf block ∨ (chain.blockman.heap p).isSome := by
  unfold ReindexContext.processBlock
  cases hlookup : chain.blockman.blockIndex.lookup (R.hashOf block) with
  | none =>
    obtain ⟨H, hvalid⟩ := hstored.valid _ hmem
    exact h.acceptBlock hstored.distinct hmem hvalid hlookup hparent
  | some index =>
    obtain ⟨-, -, -, -, -, -, -, -, hdata, -⟩ := h.stored _ index hlookup
    refine ⟨chain, by simp only [hdata, if_true], h, fun p => ⟨.inr, ?_⟩⟩
    rintro (rfl | hp)
    · apply lookup_isSome_iff.mp
      rw [hlookup]
      rfl
    · exact hp

theorem Progress.loadBlock (hstored : Stored R files found) (hdone : done ⊆ found)
    (h : Progress R files found done s []) (hmem : (pos, block) ∈ found) :
    ∃ s', R.loadBlock files s block pos = .ok (true, s') ∧
      Progress R files found (done ++ [(pos, block)]) s' [] := by
  have hdone' :=
    append_subset.mpr ⟨hdone, cons_subset.mpr ⟨hmem, nil_subset _⟩⟩
  unfold ReindexContext.loadBlock
  by_cases hwait : R.hashOf block ≠ R.genesisHash ∧
      s.chain.blockman.blockIndex.lookup block.header.hashPrevBlock = none
  · -- the block waits for its parent
    rw [if_pos hwait]
    obtain ⟨hne, hmissing⟩ := hwait
    refine ⟨_, rfl, h.holds, ?_, nofun, ?_⟩
    · intro e he
      rcases mem_append.mp he with he | he
      · exact h.parked e he
      · rw [mem_singleton] at he
        subst he
        refine ⟨block, hmem, rfl, hne, fun hsome => ?_⟩
        have hlookup := lookup_isSome_iff.mpr hsome
        rw [hmissing] at hlookup
        cases hlookup
    · intro x hx
      rcases mem_append.mp hx with hx | hx
      · rcases h.covered x hx with hsome | hparked
        · exact .inl hsome
        · exact .inr (mem_append_left _ hparked)
      · rw [mem_singleton] at hx
        subst hx
        exact .inr (mem_append_right _ (mem_singleton.mpr rfl))
  · have hparent : R.hashOf block ≠ R.genesisHash →
        (s.chain.blockman.heap block.header.hashPrevBlock).isSome := by
      intro hne
      apply lookup_isSome_iff.mp
      rw [← Option.ne_none_iff_isSome]
      exact fun hnone => hwait ⟨hne, hnone⟩
    obtain ⟨chain, hprocess, hholds, hkeys⟩ := hstored.processBlock h.holds hmem hparent
    let chain' := if R.hashOf block = R.genesisHash then R.activateGenesis chain else chain
    have hactive : Holds R (found.map Prod.snd) found chain' ∧
        chain'.blockman.heap = chain.blockman.heap := by
      dsimp only [chain']
      split_ifs
      · exact hholds.activateGenesis
      · exact ⟨hholds, rfl⟩
    have hkeys' : ∀ p, (chain'.blockman.heap p).isSome ↔
        p = R.hashOf block ∨ (s.chain.blockman.heap p).isSome := by
      rw [hactive.2]
      exact hkeys
    have hstart : Progress R files found (done ++ [(pos, block)]) ⟨chain', s.unknownParent⟩
        [R.hashOf block] := by
      refine ⟨hactive.1, ?_, ?_, ?_⟩
      · intro e he
        obtain ⟨b, hfound, hprev, hne, hqueue⟩ := h.parked e he
        refine ⟨b, hfound, hprev, hne, fun hsome => mem_singleton.mpr ?_⟩
        rcases (hkeys' e.1).mp hsome with heq | hsome
        · exact heq
        · cases hqueue hsome
      · intro p hp
        exact (hkeys' p).mpr (.inl (mem_singleton.mp hp))
      · intro x hx
        rcases mem_append.mp hx with hx | hx
        · rcases h.covered x hx with hsome | hparked
          · exact .inl ((hkeys' _).mpr (.inr hsome))
          · exact .inr hparked
        · rw [mem_singleton] at hx
          subst hx
          exact .inl ((hkeys' _).mpr (.inl rfl))
    obtain ⟨s', hrun, hprogress⟩ := hstart.releaseQueue hstored hdone'
      (s.unknownParent.length + 1) (by simp [Nat.add_comm])
    refine ⟨s', ?_, hprogress⟩
    rw [if_neg hwait, hprocess, ok_bind]
    dsimp only
    rw [if_neg (by decide)]
    change (R.releaseQueue files _ ⟨chain', s.unknownParent⟩ _ >>= _) = _
    rw [hrun]
    rfl

theorem Progress.loadBlocks (hstored : Stored R files found) {nFile : ℕ}
    (positions : List (ℕ × CBlock))
    (hpositions : ∀ x ∈ positions, x.1 < 2 ^ 32 ∧ (⟨nFile, x.1⟩, x.2) ∈ found)
    (hdone : done ⊆ found) (h : Progress R files found done s []) :
    ∃ s', R.loadBlocks files nFile positions s = .ok s' ∧
      Progress R files found (done ++ positions.map fun x => (⟨nFile, x.1⟩, x.2)) s' [] := by
  induction positions generalizing s done with
  | nil => exact ⟨s, rfl, by rwa [map_nil, append_nil]⟩
  | cons x positions ih =>
    obtain ⟨hlt, hmem⟩ := hpositions x mem_cons_self
    obtain ⟨s₁, hload, h₁⟩ := h.loadBlock hstored hdone hmem
    obtain ⟨s₂, hrun, h₂⟩ := ih (fun y hy => hpositions y (mem_cons_of_mem _ hy))
      (append_subset.mpr ⟨hdone, cons_subset.mpr ⟨hmem, nil_subset _⟩⟩) h₁
    refine ⟨s₂, ?_, ?_⟩
    · unfold loadBlocks
      rw [Nat.mod_eq_of_lt hlt, hload, ok_bind]
      exact hrun
    · rw [map_cons, append_cons]
      exact h₂

end ReindexContext

def storedBlocks (files : List BlockFile) : List (FlatFilePos × CBlock) :=
  files.zipIdx.flatMap fun x => x.1.positions.map fun y => (⟨x.2, y.1⟩, y.2)

theorem mem_storedBlocks {files : List BlockFile} {pos : FlatFilePos} {block : CBlock} :
    (pos, block) ∈ storedBlocks files ↔
      ∃ f, files[pos.nFile]? = some f ∧ (pos.nPos, block) ∈ f.positions := by
  unfold storedBlocks
  simp only [mem_flatMap, mem_map]
  constructor
  · rintro ⟨⟨f, n⟩, hf, ⟨p, b⟩, hpos, heq⟩
    cases heq
    exact ⟨f, mem_zipIdx_iff_getElem?.mp hf, hpos⟩
  · rintro ⟨f, hf, hpos⟩
    exact ⟨(f, pos.nFile), mem_zipIdx_iff_getElem?.mpr hf, (pos.nPos, block), hpos, rfl⟩

namespace ReindexContext
variable {R : ReindexContext} {found done : List (FlatFilePos × CBlock)}

theorem isMagic_messageStart (X : Crypto) (network : Network) :
    IsMagic (network.messageStart X) := by
  unfold IsMagic
  cases network with
  | main => rfl
  | test => rfl
  | regtest args => rfl
  | signet challenge =>
    change (List.take 4 _).length = 4
    rw [length_take, length_le]
    rfl

def messageStart (R : ReindexContext) : Bytes := R.connect.network.messageStart R.connect.crypto

/-- Valid and different blocks, and no magic in the bytes between them. -/
structure Files (R : ReindexContext) (files : List BlockFile) : Prop where
  gaps : ∀ f ∈ files, ∀ s ∈ f.records, ¬ R.messageStart <:+: s.gap
  tails : ∀ f ∈ files, ¬ R.messageStart <:+: f.tail
  distinct : R.Distinct ((storedBlocks files).map Prod.snd)
  valid : ∀ x ∈ storedBlocks files, ∃ H, R.ValidBlock ((storedBlocks files).map Prod.snd) x.2 H

/-- The magic of a signet does not overlap with that of a block. -/
def SignetClear (R : ReindexContext) (files : List BlockFile) : Prop :=
  R.connect.network.signetBlocks → ∀ f ∈ files, ∀ s ∈ f.records, s.Clear R.messageStart

/-- The reindex ends, and each block's index has its data and position. -/
def AcceptsAll (R : ReindexContext) (files : List BlockFile) : Prop :=
  ∃ s, R.reindex (files.map (bytes R.messageStart)) = .ok s ∧
    ∀ x ∈ storedBlocks files, ∃ index,
      s.chain.blockman.blockIndex.lookup (R.hashOf x.2) = some index ∧
        index.nStatus.haveData = true ∧ index.nStatus.failed = false ∧
        index.nFile = x.1.nFile ∧ index.nDataPos = x.1.nPos

variable {files : List BlockFile}

theorem Files.stored (h : Files R files) :
    Stored R (files.map (bytes R.messageStart)) (storedBlocks files) := by
  refine ⟨h.distinct, h.valid, fun x hx => ?_⟩
  obtain ⟨H, hvalid⟩ := h.valid x hx
  obtain ⟨f, hf, hpos⟩ := mem_storedBlocks.mp hx
  have hfile : (f.bytes R.messageStart).drop 0 = _ := drop_zero
  obtain ⟨rest, hrest⟩ := drop_positionsFrom (isMagic_messageStart _ _) hfile hpos
  refine hvalid.readBlockFromDisk ?_ hrest
  rw [List.getElem?_map, hf]
  rfl

theorem exists_position {records : List StoredBlock} {s : StoredBlock} (hs : s ∈ records) (p : ℕ) :
    ∃ pos, (pos, s.block) ∈ positionsFrom p records := by
  induction records generalizing p with
  | nil => cases hs
  | cons t records ih =>
    rcases mem_cons.mp hs with rfl | hs
    · exact ⟨_, mem_cons_self⟩
    · obtain ⟨pos, hpos⟩ := ih hs (p + t.gap.length + 8 + t.block.serialize.length)
      exact ⟨pos, mem_cons_of_mem _ hpos⟩

theorem Files.clear (h : Files R files) (hsignet : SignetClear R files) {f : BlockFile}
    (hf : f ∈ files) : f.Clear R.messageStart := by
  refine ⟨fun s hs => ?_, h.tails f hf⟩
  have hgap := h.gaps f hf s hs
  unfold SignetClear at hsignet
  unfold messageStart at hgap hsignet ⊢
  cases hnetwork : R.connect.network with
  | main =>
    rw [hnetwork] at hgap
    exact clear_of_not_infix rfl (by decide) hgap
  | test =>
    rw [hnetwork] at hgap
    exact clear_of_not_infix rfl (by decide) hgap
  | regtest args =>
    rw [hnetwork] at hgap
    exact clear_of_not_infix rfl (by decide) hgap
  | signet challenge =>
    rw [hnetwork] at hsignet
    exact hsignet rfl f hf s hs

theorem Files.searchFile (h : Files R files) (hsignet : SignetClear R files) {f : BlockFile} {n : ℕ}
    (hf : files[n]? = some f) :
    Vexta.searchFile R.messageStart (f.bytes R.messageStart) = f.positions := by
  refine searchFile_eq (isMagic_messageStart _ _) (fun s hs => ?_)
    (h.clear hsignet (mem_of_getElem? hf))
  obtain ⟨pos, hpos⟩ := exists_position hs 0
  obtain ⟨H, hvalid⟩ := h.valid (⟨n, pos⟩, s.block) (mem_storedBlocks.mpr ⟨f, hf, hpos⟩)
  exact hvalid.storable

theorem Files.loadFiles (h : Files R files) (hsignet : SignetClear R files)
    (hpos : ∀ x ∈ storedBlocks files, x.1.nPos < 2 ^ 32) (indexed : List (BlockFile × ℕ))
    (hindexed : ∀ x ∈ indexed, files[x.2]? = some x.1) (hdone : done ⊆ storedBlocks files)
    {s : Reindex} (hs : Progress R (files.map (bytes R.messageStart)) (storedBlocks files)
      done s []) :
    ∃ s', (indexed.map fun x => (x.1.bytes R.messageStart, x.2)).foldlM
        (fun s p => R.loadExternalBlockFile (files.map (bytes R.messageStart)) s p.2 p.1)
        s = .ok s' ∧
      Progress R (files.map (bytes R.messageStart)) (storedBlocks files)
        (done ++ indexed.flatMap fun x => x.1.positions.map fun y => (⟨x.2, y.1⟩, y.2)) s' [] := by
  induction indexed generalizing s done with
  | nil => exact ⟨s, rfl, by rwa [flatMap_nil, append_nil]⟩
  | cons x indexed ih =>
    have hf := hindexed x mem_cons_self
    have hpositions : ∀ y ∈ x.1.positions, (⟨x.2, y.1⟩, y.2) ∈ storedBlocks files :=
      fun y hy => mem_storedBlocks.mpr ⟨x.1, hf, hy⟩
    obtain ⟨s₁, hload, h₁⟩ := hs.loadBlocks h.stored x.1.positions
      (fun y hy => ⟨hpos _ (hpositions y hy), hpositions y hy⟩) hdone
    obtain ⟨s₂, hrun, h₂⟩ := ih (fun y hy => hindexed y (mem_cons_of_mem _ hy))
      (append_subset.mpr ⟨hdone, fun z hz => by
        obtain ⟨y, hy, rfl⟩ := mem_map.mp hz
        exact hpositions y hy⟩) h₁
    refine ⟨s₂, ?_, ?_⟩
    · rw [map_cons, foldlM_cons]
      have hfile : R.loadExternalBlockFile (files.map (bytes R.messageStart)) s x.2
          (x.1.bytes R.messageStart) = .ok s₁ := by
        unfold loadExternalBlockFile
        change R.loadBlocks _ _ (Vexta.searchFile R.messageStart _) _ = _
        rw [h.searchFile hsignet hf]
        exact hload
      rw [hfile, ok_bind]
      exact hrun
    · rw [flatMap_cons, ← append_assoc]
      exact h₂

theorem Progress.all_accepted {disk : List Bytes} {s : Reindex} (hstored : Stored R disk found)
    (h : Progress R disk found found s []) {block : CBlock} {H : Heap}
    (hvalid : R.ValidBlock (found.map Prod.snd) block H) :
    (s.chain.blockman.heap (R.hashOf block)).isSome := by
  have hfound : ∀ {b : CBlock} {H : Heap}, R.ValidBlock (found.map Prod.snd) b H →
      (R.hashOf b ≠ R.genesisHash → (s.chain.blockman.heap b.header.hashPrevBlock).isSome) →
      (s.chain.blockman.heap (R.hashOf b)).isSome := by
    intro b H hb hparent
    obtain ⟨⟨pos, b'⟩, hmem, rfl⟩ := mem_map.mp hb.mem
    rcases h.covered _ hmem with hsome | hparked
    · exact hsome
    · obtain ⟨b, hb', -, hne, hqueue⟩ := h.parked _ hparked
      rw [hstored.block_eq hb' hmem] at hne
      cases hqueue (hparent hne)
  induction hvalid with
  | genesis hmem hheader hhash hlink hchecks =>
    exact hfound (.genesis hmem hheader hhash hlink hchecks) fun hne => absurd hhash hne
  | child hmem hprev hparent hne hnew hfree hcontext hlink hchecks ih =>
    refine hfound (.child hmem hprev hparent hne hnew hfree hcontext hlink hchecks) fun _ => ?_
    rw [hparent]
    exact ih

theorem Holds.empty (R : ReindexContext) (blocks : List CBlock)
    (found : List (FlatFilePos × CBlock)) : Holds R blocks found ⟨BlockManager.empty, 1⟩ :=
  ⟨rfl, nofun, nofun, fun hash index hindex => by
    rw [show BlockManager.empty.blockIndex.lookup hash = none from AList.lookup_empty _] at hindex
    cases hindex⟩

end ReindexContext

/-- A reindex accepts the valid blocks of the files, in any order. -/
theorem reindex_accepts_all (R : ReindexContext) (files : List BlockFile) (h : R.Files files)
    (hsignet : R.SignetClear files) (hpos : ∀ x ∈ storedBlocks files, x.1.nPos < 2 ^ 32) :
    R.AcceptsAll files := by
  have hstart : R.Progress (files.map (bytes R.messageStart)) (storedBlocks files) []
      ⟨⟨empty, 1⟩, []⟩ [] :=
    ⟨.empty R _ _, nofun, nofun, nofun⟩
  obtain ⟨s, hrun, hprogress⟩ := h.loadFiles hsignet hpos files.zipIdx
    (fun x hx => mem_zipIdx_iff_getElem?.mp hx) (nil_subset _) hstart
  rw [nil_append] at hprogress
  refine ⟨s, ?_, fun x hx => ?_⟩
  · unfold reindex
    rw [zipIdx_map]
    exact hrun
  · obtain ⟨H, hvalid⟩ := h.valid x hx
    have hsome := hprogress.all_accepted h.stored hvalid
    obtain ⟨index, hindex⟩ := Option.isSome_iff_exists.mp
      (lookup_isSome_iff.mpr hsome)
    obtain ⟨pos, block, H', hmem, hhash, -, -, hfailed, hdata, hfile, hposition⟩ :=
      hprogress.holds.stored _ index hindex
    -- the block with this hash was found at one position only
    have hsame : (pos, block) = x := by
      have hnodup : ((storedBlocks files).map fun y => R.hashOf y.2).Nodup := by
        have hdistinct := h.distinct
        unfold ReindexContext.Distinct at hdistinct
        rwa [map_map] at hdistinct
      exact inj_on_of_nodup_map hnodup hmem hx hhash
    have hat : pos = x.1 := congrArg Prod.fst hsame
    rw [hat] at hfile hposition
    exact ⟨index, hindex, hdata, hfailed, hfile, hposition⟩

namespace ReindexContext
variable {R : ReindexContext}

theorem exists_valid_genesis (R : ReindexContext) (blocks : List CBlock) (block : CBlock)
    (hmem : block ∈ blocks) (hheader : block.header = R.connect.network.genesis)
    (hhash : R.hashOf block = R.genesisHash)
    (h : Sat (fun _ => False)
      (fun node => R.checkBlockInTree (empty.insert (R.hashOf block) node) block none = .ok ())
      (linkIndex R.connect.network.params empty (R.hashOf block) block.header)) :
    ∃ node, R.ValidBlock blocks block (empty.insert (R.hashOf block) node) ∧
      linkIndex R.connect.network.params empty (R.hashOf block) block.header = .ok node := by
  obtain ⟨node, hlink, hchecks⟩ := h.exists_ok
  exact ⟨node, .genesis hmem hheader hhash hlink hchecks, hlink⟩

theorem not_acceptsAll_far {gap : Bytes} {block : CBlock}
    (h : R.Files [⟨[⟨gap, block⟩], []⟩]) (hsignet : R.SignetClear [⟨[⟨gap, block⟩], []⟩])
    (hgenesis : R.hashOf block = R.genesisHash) (hfar : 2 ^ 32 ≤ gap.length) :
    ¬ R.AcceptsAll [⟨[⟨gap, block⟩], []⟩] := by
  rintro ⟨s, hrun, hall⟩
  let nPos := (0 + gap.length + 8) % 2 ^ 32
  obtain ⟨index, hindex, -, -, -, hpos⟩ := hall (⟨0, 0 + gap.length + 8⟩, block)
    mem_cons_self
  -- the block is accepted with the position that was cut
  obtain ⟨H, hvalid⟩ := h.valid (⟨0, 0 + gap.length + 8⟩, block) mem_cons_self
  obtain ⟨chain, haccept, hholds, -⟩ := (Holds.empty R [block] [(⟨0, nPos⟩, block)]).acceptBlock
    h.distinct mem_cons_self hvalid (AList.lookup_empty _) fun hne => absurd hgenesis hne
  have hload : ∀ disk, R.loadBlock disk ⟨⟨empty, 1⟩, []⟩ block ⟨0, nPos⟩ =
      .ok (true, ⟨R.activateGenesis chain, []⟩) := by
    intro disk
    have hprocess : R.processBlock ⟨empty, 1⟩ block ⟨0, nPos⟩ =
        .ok (.accepted, chain) := haccept
    unfold loadBlock
    rw [if_neg fun hwait => hwait.1 hgenesis, hprocess, ok_bind]
    dsimp only
    rw [if_neg (by decide), if_pos hgenesis]
    rfl
  have hreindex : R.reindex ([⟨[⟨gap, block⟩], []⟩].map (bytes R.messageStart)) =
      .ok ⟨R.activateGenesis chain, []⟩ := by
    have hsearch := h.searchFile hsignet (List.getElem?_cons_zero)
    have hfile : ∀ disk, R.loadExternalBlockFile disk ⟨⟨empty, 1⟩, []⟩ 0
        (bytes R.messageStart ⟨[⟨gap, block⟩], []⟩) =
          .ok ⟨R.activateGenesis chain, []⟩ := by
      intro disk
      unfold loadExternalBlockFile
      change R.loadBlocks disk 0 (Vexta.searchFile R.messageStart _) _ = _
      rw [hsearch]
      change R.loadBlocks disk 0 [(0 + gap.length + 8, block)] _ = _
      unfold loadBlocks
      rw [hload, ok_bind]
      rfl
    unfold reindex
    rw [map_singleton, zipIdx_singleton, foldlM_cons]
    dsimp only
    rw [hfile]
    rfl
  cases hreindex.symm.trans hrun
  obtain ⟨pos, block', -, hmem, -, -, -, -, -, -, hcut⟩ :=
    hholds.activateGenesis.1.stored _ index hindex
  cases mem_singleton.mp hmem
  rw [hpos] at hcut
  have hlt : nPos < 2 ^ 32 := Nat.mod_lt _ (by norm_num)
  change 0 + gap.length + 8 = nPos at hcut
  omega

end ReindexContext

namespace SampleFiles

def coinbase (nLockTime : BitVec 32) : CTransaction :=
  SampleChain.coinbase nLockTime [SampleChain.output 5000000000]

variable (network : Network)

def hashes : HeaderHashes where
  sha256 b :=
    if b = network.genesis.serialize then 0
    else if b = le 32 0 then network.params.hashGenesisBlock
    else 1
  randomX _ _ := none

def crypto : Crypto :=
  { acceptingCrypto with
    sha256 := fun b =>
      if b.length = 32 then BitVec.ofNat 256 (ofLe b)
      else if b = (coinbase 0).serializeNoWitness then network.genesis.hashMerkleRoot
      else 0x01010101 }

def context : ReindexContext where
  connect := {
    SampleChain.context empty with
    crypto := crypto network
    hashes := hashes network
    network := network
    deployments := { SampleChain.deployments with csvHeight := 1 } }
  fCheckpointsEnabled := true
  nAdjustedTime := 1783556000

def genesis : CBlock := ⟨network.genesis, [coinbase 0]⟩

def regtest : Network := .regtest ⟨true, none, none⟩

def first : CBlock where
  header := {
    nVersion := 0x20000200
    hashPrevBlock := regtest.params.hashGenesisBlock
    hashMerkleRoot := 0x01010101
    nTime := 1783555202
    nBits := 0x207fffff
    nNonce := 0 }
  vtx := [coinbase 1]

def files : List BlockFile := [⟨[⟨[0, 0x56], first⟩], []⟩, ⟨[⟨[], genesis regtest⟩], [1]⟩]

def genesisFile (gap : Bytes) : BlockFile := ⟨[⟨gap, genesis network⟩], []⟩

theorem files_genesisFile {network : Network} {gap : Bytes}
    (hhash : (context network).hashOf (genesis network) = (context network).genesisHash)
    (hvalid : Sat (fun _ => False)
      (fun node => (context network).checkBlockInTree
        (empty.insert ((context network).hashOf (genesis network)) node) (genesis network)
        none = .ok ())
      (linkIndex network.params empty ((context network).hashOf (genesis network))
        (genesis network).header))
    (hmagic : (context network).messageStart ≠ [])
    (hgap : ¬ (context network).messageStart <:+: gap) :
    (context network).Files [genesisFile network gap] := by
  refine ⟨?_, ?_, nodup_singleton _, ?_⟩
  · intro f hf s hs
    cases mem_singleton.mp hf
    cases mem_singleton.mp hs
    exact hgap
  · intro f hf
    cases mem_singleton.mp hf
    exact fun hin => hmagic (eq_nil_of_infix_nil hin)
  · intro x hx
    cases mem_singleton.mp hx
    obtain ⟨node, hvalid, -⟩ := exists_valid_genesis
      (context network) [genesis network] (genesis network) (mem_singleton.mpr rfl) rfl hhash
      hvalid
    exact ⟨_, hvalid⟩

theorem first_checked : Sat (fun _ => False)
    (fun node =>
      let H := empty.insert ((context regtest).hashOf (genesis regtest)) node
      H ((context regtest).hashOf first) = none ∧
        contextualCheckBlockHeader (hashes regtest) regtest.params H regtest.checkpoints true
          first.header first.header.hashPrevBlock 1783556000 true = .ok none ∧
        Sat (fun _ => False)
          (fun node' => (context regtest).checkBlockInTree
            (H.insert ((context regtest).hashOf first) node') first
            (some first.header.hashPrevBlock) = .ok ())
          (linkIndex regtest.params H ((context regtest).hashOf first) first.header))
    (linkIndex regtest.params empty ((context regtest).hashOf (genesis regtest))
      (genesis regtest).header) := by decide +kernel

theorem files_valid : (context regtest).Files files := by
  obtain ⟨node, hgenesis, hlink⟩ := exists_valid_genesis (context regtest)
    [first, genesis regtest] (genesis regtest) (mem_cons_of_mem _ mem_cons_self) rfl
    (by decide +kernel) (by decide +kernel)
  obtain ⟨node', hlink', hnew, hcontext, hfirst⟩ := first_checked.exists_ok
  cases hlink.symm.trans hlink'
  obtain ⟨nodeFirst, hlinkFirst, hchecks⟩ := hfirst.exists_ok
  refine ⟨?_, ?_, by decide +kernel, ?_⟩
  · decide +kernel
  · decide +kernel
  · intro x hx
    rcases mem_cons.mp hx with rfl | hx
    · exact ⟨_, .child mem_cons_self hgenesis (by decide +kernel) (by decide +kernel) hnew
        (by decide +kernel) hcontext hlinkFirst hchecks⟩
    · cases mem_singleton.mp hx
      exact ⟨_, hgenesis⟩

end SampleFiles

open SampleFiles in
theorem reindex_accepts_two : (context regtest).AcceptsAll files :=
  reindex_accepts_all (context regtest) files files_valid nofun (by decide +kernel)

open SampleFiles in
/-- A position after 2 ^ 32 bytes is cut, and a block whose magic overlaps one before it is not
found. -/
theorem reindex_loses_position :
    ((context regtest).Files [genesisFile regtest (List.replicate (2 ^ 32) 0)] ∧
      ¬ (context regtest).AcceptsAll [genesisFile regtest (List.replicate (2 ^ 32) 0)]) ∧
    ((context (.signet [])).Files [genesisFile (.signet []) [1]] ∧
      ¬ (context (.signet [])).AcceptsAll [genesisFile (.signet []) [1]]) := by
  constructor
  · have hgap : ¬ (context regtest).messageStart <:+: List.replicate (2 ^ 32) 0 := by
      intro hin
      have hmem := hin.subset mem_cons_self
      exact absurd (eq_of_mem_replicate hmem) (by decide)
    have hfiles :=
      files_genesisFile (by decide +kernel) (by decide +kernel) (by decide) hgap
    refine ⟨hfiles, not_acceptsAll_far hfiles nofun (by decide +kernel) ?_⟩
    rw [length_replicate]
  · constructor
    · exact files_genesisFile (by decide +kernel) (by decide +kernel) (by decide +kernel)
        (by decide +kernel)
    · rintro ⟨s, hrun, hall⟩
      have hlost : Sat (fun _ => True)
          (fun s => s.chain.blockman.blockIndex.lookup (Network.signet []).params.hashGenesisBlock =
            none)
          ((context (.signet [])).reindex ([genesisFile (.signet []) [1]].map
            (bytes (context (.signet [])).messageStart))) := by decide +kernel
      rw [hrun] at hlost
      obtain ⟨index, hindex, -⟩ := hall _ mem_cons_self
      have hnone := Sat.ok_iff.mp hlost
      have hhash : (context (.signet [])).hashOf (genesis (.signet [])) =
        (Network.signet []).params.hashGenesisBlock := by decide +kernel
      rw [← hhash] at hnone
      cases hnone.symm.trans hindex

end Vexta
