import Vexta.Validation.BlockData
import Vexta.Validation.LoadIndex

/-! Block pruning: the file table and the two functions that choose files. Heights are `int`, the
bound `unsigned int`. -/
namespace Vexta
open Lib List AList

structure CBlockFileInfo where
  nBlocks : ℕ
  nSize : ℕ
  nUndoSize : ℕ
  nHeightFirst : ℕ
  nHeightLast : ℕ
  nTimeFirst : ℕ
  nTimeLast : ℕ
  deriving DecidableEq, Repr

namespace CBlockFileInfo

def null : CBlockFileInfo := ⟨0, 0, 0, 0, 0, 0, 0⟩

def addBlock (info : CBlockFileInfo) (nHeightIn nTimeIn : ℕ) : CBlockFileInfo :=
  { info with
    nHeightFirst := if info.nBlocks = 0 ∨ nHeightIn < info.nHeightFirst then nHeightIn
      else info.nHeightFirst
    nTimeFirst := if info.nBlocks = 0 ∨ nTimeIn < info.nTimeFirst then nTimeIn
      else info.nTimeFirst
    nBlocks := (info.nBlocks + 1) % 2 ^ 32
    nHeightLast := if info.nHeightLast < nHeightIn then nHeightIn else info.nHeightLast
    nTimeLast := if info.nTimeLast < nTimeIn then nTimeIn else info.nTimeLast }

def bytes (info : CBlockFileInfo) : ℕ := (info.nSize + info.nUndoSize) % 2 ^ 32

end CBlockFileInfo

def minBlocksToKeep : ℤ := 288

def blockfileChunkSize : ℕ := 0x1000000
def undofileChunkSize : ℕ := 0x100000

def toUnsigned (x : ℤ) : ℕ := (x % 2 ^ 32).toNat

def Network.pruneAfterHeight (fastPrune : Bool) : Network → ℕ
  | .main => 100000
  | .test => 1000
  | .signet _ => 1000
  | .regtest _ => if fastPrune then 100 else 1000

/-- The block index with its files. A file's last height is not below its blocks. -/
structure BlockFiles where
  blockIndex : BlockMap
  blocksUnlinked : List (Uint256 × Uint256)
  vinfoBlockFile : List CBlockFileInfo
  nLastBlockFile : ℕ
  last_le : nLastBlockFile ≤ vinfoBlockFile.length
  covered : ∀ p index, blockIndex.lookup p = some index → index.nStatus.haveData →
    index.nFile < vinfoBlockFile.length ∧
      index.nHeight ≤ (vinfoBlockFile.getD index.nFile .null).nHeightLast

namespace BlockFiles

def info (files : BlockFiles) (fileNumber : ℕ) : CBlockFileInfo :=
  files.vinfoBlockFile.getD fileNumber .null

def Holds (files : BlockFiles) (fileNumber nHeight : ℕ) : Prop :=
  ∃ p index, files.blockIndex.lookup p = some index ∧ index.nStatus.haveData ∧
    index.nFile = fileNumber ∧ index.nHeight = nHeight

theorem Holds.le_nHeightLast {files : BlockFiles} {fileNumber nHeight : ℕ}
    (h : files.Holds fileNumber nHeight) : nHeight ≤ (files.info fileNumber).nHeightLast := by
  obtain ⟨p, index, hp, hdata, rfl, rfl⟩ := h
  exact (files.covered p index hp hdata).2

end BlockFiles

def resizeFiles (table : List CBlockFileInfo) (nFile : ℕ) : List CBlockFileInfo :=
  table ++ List.replicate (nFile + 1 - table.length) .null

theorem lt_length_resizeFiles (table : List CBlockFileInfo) (nFile : ℕ) :
    nFile < (resizeFiles table nFile).length := by
  rw [resizeFiles, length_append, length_replicate]
  omega

variable {table : List CBlockFileInfo} {i : ℕ}

theorem getD_resizeFiles (table : List CBlockFileInfo) (nFile i : ℕ) :
    (resizeFiles table nFile).getD i .null = table.getD i .null := by
  simp only [resizeFiles, getD_eq_getElem?_getD, List.getElem?_append, getElem?_replicate]
  split_ifs with hlt <;> simp_all

def CBlockFileInfo.grow (info : CBlockFileInfo) (fKnown : Bool) (nPos nAddSize nHeight nTime : ℕ) :
    CBlockFileInfo :=
  { info.addBlock nHeight nTime with
    nSize := if fKnown then max ((nPos + nAddSize) % 2 ^ 32) info.nSize
      else (info.nSize + nAddSize) % 2 ^ 32 }

theorem CBlockFileInfo.nHeightLast_grow (info : CBlockFileInfo) (fKnown : Bool)
    (nPos nAddSize nHeight nTime : ℕ) :
    (info.grow fKnown nPos nAddSize nHeight nTime).nHeightLast = max info.nHeightLast nHeight := by
  simp only [grow, addBlock]
  split_ifs <;> omega

private theorem getD_modify (hi : i < table.length) (nFile : ℕ)
    (g : CBlockFileInfo → CBlockFileInfo) :
    (table.modify nFile g).getD i .null =
      if nFile = i then g (table.getD i .null) else table.getD i .null := by
  simp only [getD_eq_getElem?_getD, List.getElem?_modify, List.getElem?_eq_getElem hi]
  split_ifs <;> rfl

/-- `FindBlockPos` finds `pos`, `ReceivedBlockTransactions` records it. -/
def BlockFiles.storeBlock (files : BlockFiles) (params : Params) (p : Uint256)
    (index : CBlockIndex) (hindex : files.blockIndex.lookup p = some index) (nTx : ℕ)
    (pos : FlatFilePos) (fKnown : Bool) (nAddSize : ℕ) : BlockFiles where
  blockIndex := files.blockIndex.modify p (markReceived params nTx pos)
  blocksUnlinked := files.blocksUnlinked
  vinfoBlockFile := (resizeFiles files.vinfoBlockFile pos.nFile).modify pos.nFile fun info =>
    info.grow fKnown pos.nPos nAddSize index.nHeight index.nTime.toNat
  nLastBlockFile := pos.nFile
  last_le := by
    rw [length_modify]
    exact (lt_length_resizeFiles _ _).le
  covered := by
    intro q other hq hdata
    have hlen := lt_length_resizeFiles files.vinfoBlockFile pos.nFile
    rw [length_modify]
    rw [BlockMap.lookup_modify] at hq
    split_ifs at hq with hqp
    · -- the stored block itself
      rw [hindex, Option.map_some] at hq
      cases hq
      have hnFile : (markReceived params nTx pos index).nFile = pos.nFile := rfl
      have hnHeight : (markReceived params nTx pos index).nHeight = index.nHeight := rfl
      rw [hnFile, hnHeight, getD_modify hlen, if_pos rfl, CBlockFileInfo.nHeightLast_grow]
      exact ⟨hlen, le_max_right _ _⟩
    · -- every other block keeps its file, and no entry's last height falls
      obtain ⟨hlt, hle⟩ := files.covered q other hq hdata
      have hlt' : other.nFile < (resizeFiles files.vinfoBlockFile pos.nFile).length := by
        rw [resizeFiles, length_append]
        omega
      rw [getD_modify hlt', getD_resizeFiles]
      refine ⟨hlt', ?_⟩
      split_ifs
      · rw [CBlockFileInfo.nHeightLast_grow]
        exact le_max_of_le_left hle
      · exact hle

def CBlockIndex.pruned (fileNumber : ℕ) (index : CBlockIndex) : CBlockIndex :=
  if index.nFile = fileNumber then
    { index with
      nStatus := { index.nStatus with haveData := false, haveUndo := false }
      nFile := 0
      nDataPos := 0
      nUndoPos := 0 }
  else index

def BlockMap.modifyAll (blocks : BlockMap) (f : CBlockIndex → CBlockIndex) (keys : List Uint256) :
    BlockMap :=
  keys.foldl (fun blocks p => blocks.modify p f) blocks

theorem BlockMap.lookup_modifyAll (f : CBlockIndex → CBlockIndex) {keys : List Uint256}
    (hkeys : keys.Nodup) (blocks : BlockMap) (q : Uint256) :
    (blocks.modifyAll f keys).lookup q =
      if q ∈ keys then (blocks.lookup q).map f else blocks.lookup q := by
  induction keys generalizing blocks with
  | nil => simp [modifyAll]
  | cons p keys ih =>
    obtain ⟨hp, hkeys⟩ := nodup_cons.mp hkeys
    have hstep := ih hkeys (blocks.modify p f)
    change (BlockMap.modifyAll (blocks.modify p f) f keys).lookup q = _
    rw [hstep, lookup_modify]
    by_cases hq : q = p
    · subst hq
      simp [hp]
    · simp [hq]

theorem BlockMap.lookup_modifyAll_keys (f : CBlockIndex → CBlockIndex) (blocks : BlockMap)
    (q : Uint256) : (blocks.modifyAll f blocks.keys).lookup q = (blocks.lookup q).map f := by
  rw [lookup_modifyAll f blocks.keys_nodup]
  split_ifs with hq
  · rfl
  · have hnone : blocks.lookup q = none := by
      rw [lookup_eq_none]
      exact fun hmem => hq (mem_keys.mp hmem)
    rw [hnone, Option.map_none]

variable {fileNumber bound : ℕ} {files : BlockFiles}

theorem CBlockIndex.pruned_haveData {index : CBlockIndex}
    (h : (index.pruned fileNumber).nStatus.haveData) :
    index.nFile ≠ fileNumber ∧ index.pruned fileNumber = index := by
  unfold pruned at h ⊢
  split_ifs at h ⊢ with hf
  exact ⟨hf, rfl⟩

def pruneOneBlockFile (files : BlockFiles) (fileNumber : ℕ) : BlockFiles where
  blockIndex := files.blockIndex.modifyAll (CBlockIndex.pruned fileNumber) files.blockIndex.keys
  blocksUnlinked := files.blocksUnlinked.filter fun entry =>
    match files.blockIndex.lookup entry.2 with
    | some index => ¬ (index.nFile = fileNumber ∧ index.pprev = some entry.1)
    | none => true
  vinfoBlockFile := files.vinfoBlockFile.set fileNumber .null
  nLastBlockFile := files.nLastBlockFile
  last_le := by
    rw [length_set]
    exact files.last_le
  covered := by
    intro p index hp hdata
    rw [BlockMap.lookup_modifyAll_keys] at hp
    obtain ⟨old, hold, rfl⟩ := Option.map_eq_some_iff.mp hp
    obtain ⟨hne, heq⟩ := CBlockIndex.pruned_haveData hdata
    rw [heq] at hdata ⊢
    obtain ⟨hlt, hle⟩ := files.covered p old hold hdata
    rw [length_set, getD_eq_getElem?_getD, List.getElem?_set_ne (Ne.symm hne),
      ← getD_eq_getElem?_getD]
    exact ⟨hlt, hle⟩

theorem info_pruneOneBlockFile_of_ne (files : BlockFiles) {other : ℕ} (h : other ≠ fileNumber) :
    (pruneOneBlockFile files fileNumber).info other =
      files.info other := by
  unfold BlockFiles.info pruneOneBlockFile
  rw [getD_eq_getElem?_getD, List.getElem?_set_ne (Ne.symm h), ← getD_eq_getElem?_getD]

def pruneManualLoop (nLastBlockWeCanPrune : ℕ) : BlockFiles → List ℕ → List ℕ × BlockFiles
  | files, [] => ([], files)
  | files, fileNumber :: rest =>
    let info := files.info fileNumber
    if info.nSize = 0 ∨ nLastBlockWeCanPrune < info.nHeightLast then
      pruneManualLoop nLastBlockWeCanPrune files rest
    else
      let later := pruneManualLoop nLastBlockWeCanPrune (pruneOneBlockFile files fileNumber) rest
      (fileNumber :: later.1, later.2)

/-- `FindFilesToPruneManual`. The subtraction from the tip height is unsigned. -/
def findFilesToPruneManual (fPruneMode : Bool) (files : BlockFiles)
    (nManualPruneHeight chainTipHeight : BitVec 32) : Except Fault (List ℕ × BlockFiles) :=
  if ¬ (fPruneMode ∧ 0 < nManualPruneHeight.toInt) then .error .assertion
  else if chainTipHeight.toInt < 0 then .ok ([], files)
  else
    let nLastBlockWeCanPrune := min (toUnsigned nManualPruneHeight.toInt)
      (toUnsigned (chainTipHeight.toInt - minBlocksToKeep))
    .ok (pruneManualLoop nLastBlockWeCanPrune files (List.range files.nLastBlockFile))

def calculateCurrentUsage (files : BlockFiles) : ℕ :=
  files.vinfoBlockFile.foldl (fun retval file => (retval + file.bytes) % 2 ^ 64) 0

def pruneLoop (nPruneTarget nBuffer nLastBlockWeCanPrune : ℕ) :
    ℕ → BlockFiles → List ℕ → List ℕ × BlockFiles
  | _, files, [] => ([], files)
  | nCurrentUsage, files, fileNumber :: rest =>
    let info := files.info fileNumber
    if info.nSize = 0 then
      pruneLoop nPruneTarget nBuffer nLastBlockWeCanPrune nCurrentUsage files rest
    else if (nCurrentUsage + nBuffer) % 2 ^ 64 < nPruneTarget then ([], files)
    else if nLastBlockWeCanPrune < info.nHeightLast then
      pruneLoop nPruneTarget nBuffer nLastBlockWeCanPrune nCurrentUsage files rest
    else
      let later := pruneLoop nPruneTarget nBuffer nLastBlockWeCanPrune
        ((nCurrentUsage + 2 ^ 64 - info.bytes) % 2 ^ 64) (pruneOneBlockFile files fileNumber) rest
      (fileNumber :: later.1, later.2)

/-- `FindFilesToPrune`. The lesser of two `int` becomes `unsigned int`. -/
def findFilesToPrune (nPruneTarget : ℕ) (files : BlockFiles) (nPruneAfterHeight : ℕ)
    (chainTipHeight : BitVec 32) (pruneHeight : ℤ) (isIbd : Bool) : List ℕ × BlockFiles :=
  if chainTipHeight.toInt < 0 ∨ nPruneTarget = 0 then ([], files)
  else if chainTipHeight.toInt ≤ nPruneAfterHeight then ([], files)
  else
    let nLastBlockWeCanPrune :=
      toUnsigned (min pruneHeight (chainTipHeight.toInt - minBlocksToKeep))
    let nCurrentUsage := calculateCurrentUsage files
    let nBuffer := blockfileChunkSize + undofileChunkSize
    if nPruneTarget ≤ (nCurrentUsage + nBuffer) % 2 ^ 64 then
      let nBuffer := if isIbd then (nBuffer + nPruneTarget / 10) % 2 ^ 64 else nBuffer
      pruneLoop nPruneTarget nBuffer nLastBlockWeCanPrune nCurrentUsage files
        (List.range files.nLastBlockFile)
    else ([], files)

/-- `last_prune` of `FlushStateToDisk`: held back by the filter indexes. -/
def lastPrune (chainTipHeight : BitVec 32) (indexHeights : List (BitVec 32)) : ℤ :=
  indexHeights.foldl (fun last height => max 1 (min last height.toInt)) chainTipHeight.toInt

/-- No chosen file holds one of the last `MIN_BLOCKS_TO_KEEP` heights. -/
def KeepsRecent (chainTipHeight : BitVec 32) (files : BlockFiles) (chosen : List ℕ) : Prop :=
  ∀ fileNumber ∈ chosen, ∀ nHeight : ℕ, files.Holds fileNumber nHeight →
    minBlocksToKeep ≤ chainTipHeight.toInt - nHeight

variable {numbers : List ℕ} {target : ℕ} {chainTipHeight : BitVec 32} {chosen : List ℕ}
  {tip : BitVec 32}

theorem pruneManualLoop_chosen (hnodup : numbers.Nodup)
    (h : fileNumber ∈ (pruneManualLoop bound files numbers).1) :
    fileNumber ∈ numbers ∧ (files.info fileNumber).nHeightLast ≤ bound := by
  induction numbers generalizing files with
  | nil => simp [pruneManualLoop] at h
  | cons first rest ih =>
    obtain ⟨hfirst, hrest⟩ := nodup_cons.mp hnodup
    simp only [pruneManualLoop] at h
    split_ifs at h with hskip
    · have hlater := ih hrest h
      exact ⟨mem_cons_of_mem _ hlater.1, hlater.2⟩
    · have hbound : (files.info first).nHeightLast ≤ bound := by omega
      rcases mem_cons.mp h with rfl | hlater
      · exact ⟨mem_cons_self, hbound⟩
      · obtain ⟨hmem, hle⟩ := ih hrest hlater
        -- a later file is not the one just removed, so its entry is still the one it had
        have hne : fileNumber ≠ first := fun heq => hfirst (heq ▸ hmem)
        rw [info_pruneOneBlockFile_of_ne files hne] at hle
        exact ⟨mem_cons_of_mem _ hmem, hle⟩

theorem pruneLoop_chosen {buffer usage : ℕ} (hnodup : numbers.Nodup)
    (h : fileNumber ∈ (pruneLoop target buffer bound usage files numbers).1) :
    fileNumber ∈ numbers ∧ (files.info fileNumber).nHeightLast ≤ bound := by
  induction numbers generalizing files usage with
  | nil => simp [pruneLoop] at h
  | cons first rest ih =>
    obtain ⟨hfirst, hrest⟩ := nodup_cons.mp hnodup
    simp only [pruneLoop] at h
    split_ifs at h with hempty hbelow hskip
    · have hlater := ih hrest h
      exact ⟨mem_cons_of_mem _ hlater.1, hlater.2⟩
    · simp at h
    · have hlater := ih hrest h
      exact ⟨mem_cons_of_mem _ hlater.1, hlater.2⟩
    · have hbound : (files.info first).nHeightLast ≤ bound := by omega
      rcases mem_cons.mp h with rfl | hlater
      · exact ⟨mem_cons_self, hbound⟩
      · obtain ⟨hmem, hle⟩ := ih hrest hlater
        have hne : fileNumber ≠ first := fun heq => hfirst (heq ▸ hmem)
        rw [info_pruneOneBlockFile_of_ne files hne] at hle
        exact ⟨mem_cons_of_mem _ hmem, hle⟩

theorem toUnsigned_of_nonneg {x : ℤ} (h : 0 ≤ x) (hx : x < 2 ^ 32) : (toUnsigned x : ℤ) = x := by
  unfold toUnsigned
  rw [Int.emod_eq_of_lt h hx, Int.toNat_of_nonneg h]

theorem le_toUnsigned_of_neg {x : ℤ} (h : x < 0) (hx : -2 ^ 31 ≤ x) :
    2 ^ 31 ≤ toUnsigned x := by
  have hmod : x % 2 ^ 32 = x + 2 ^ 32 := by
    rw [← Int.add_emod_right]
    exact Int.emod_eq_of_lt (by omega) (by omega)
  unfold toUnsigned
  omega

theorem keepsRecent_of_bound (hchosen : ∀ f ∈ chosen, (files.info f).nHeightLast ≤ bound)
    (hbound : (bound : ℤ) ≤ chainTipHeight.toInt - minBlocksToKeep) :
    KeepsRecent chainTipHeight files chosen := by
  intro fileNumber hmem nHeight hholds
  have hlast := hholds.le_nHeightLast
  have hle := hchosen fileNumber hmem
  omega

theorem lastPrune_nonneg (h : 0 ≤ chainTipHeight.toInt) (indexHeights : List (BitVec 32)) :
    0 ≤ lastPrune chainTipHeight indexHeights := by
  unfold lastPrune
  generalize chainTipHeight.toInt = last at h
  induction indexHeights generalizing last with
  | nil => exact h
  | cons height rest ih =>
    have hstep : 0 ≤ max 1 (min last height.toInt) := by omega
    exact ih _ hstep

private theorem toInt_lt (x : BitVec 32) : x.toInt < 2 ^ 31 := by
  have h := BitVec.toInt_lt (x := x)
  simpa using h

theorem findFilesToPrune_keepsRecent {after : ℕ} {pruneHeight : ℤ} {isIbd : Bool}
    (hprune : 0 ≤ pruneHeight) (h : tip.toInt ≤ after ∨ minBlocksToKeep ≤ tip.toInt) :
    KeepsRecent tip files (findFilesToPrune target files after tip pruneHeight isIbd).1 := by
  have hempty : KeepsRecent tip files [] := fun f hf => by simp at hf
  simp only [findFilesToPrune]
  by_cases hoff : tip.toInt < 0 ∨ target = 0
  · simpa only [hoff, if_true] using hempty
  by_cases hearly : tip.toInt ≤ after
  · simpa only [hoff, hearly, if_true, if_false] using hempty
  rw [if_neg hoff, if_neg hearly]
  split
  · refine keepsRecent_of_bound (fun f hf => (pruneLoop_chosen nodup_range hf).2) ?_
    have hlt := toInt_lt tip
    have hkeep : minBlocksToKeep ≤ tip.toInt := by omega
    have hkept : 0 ≤ minBlocksToKeep := by decide
    have hmin : 0 ≤ min pruneHeight (tip.toInt - minBlocksToKeep) := by omega
    rw [toUnsigned_of_nonneg hmin (by omega)]
    exact min_le_right _ _
  · exact hempty

theorem findFilesToPruneManual_keepsRecent {fPruneMode : Bool} {files' : BlockFiles}
    {manual : BitVec 32}
    (hrun : findFilesToPruneManual fPruneMode files manual tip = .ok (chosen, files'))
    (h : tip.toInt < 0 ∨ minBlocksToKeep ≤ tip.toInt) : KeepsRecent tip files chosen := by
  unfold findFilesToPruneManual at hrun
  split_ifs at hrun with hassert hneg
  · obtain ⟨rfl, rfl⟩ := Prod.mk.inj (Except.ok.inj hrun)
    exact fun f hf => by simp at hf
  · have hchosen := congrArg Prod.fst (Except.ok.inj hrun)
    dsimp only at hchosen
    subst hchosen
    refine keepsRecent_of_bound (fun f hf => (pruneManualLoop_chosen nodup_range hf).2) ?_
    have hlt := toInt_lt tip
    have hkept : 0 ≤ minBlocksToKeep := by decide
    have hbound : (toUnsigned (tip.toInt - minBlocksToKeep) : ℤ) = tip.toInt - minBlocksToKeep :=
      toUnsigned_of_nonneg (by omega) (by omega)
    have hmin := min_le_right (toUnsigned manual.toInt) (toUnsigned (tip.toInt - minBlocksToKeep))
    omega

def noFiles : BlockFiles where
  blockIndex := ∅
  blocksUnlinked := []
  vinfoBlockFile := [.null, .null]
  nLastBlockFile := 0
  last_le := by decide
  covered := by
    intro p index hp
    cases hp

/-- A new header and its block, stored at `pos`. -/
def BlockFiles.withBlock (files : BlockFiles) (p : Uint256) (nHeight : ℕ) (pos : FlatFilePos)
    (fKnown : Bool) (nAddSize : ℕ) : BlockFiles :=
  let index := { CBlockIndex.null with nHeight := nHeight }
  let indexed : BlockFiles :=
    { files with
      blockIndex := files.blockIndex.insert p index
      covered := by
        intro q other hq hdata
        by_cases hqp : q = p
        · rw [hqp, lookup_insert] at hq
          cases hq
          cases hdata
        · rw [lookup_insert_ne hqp] at hq
          exact files.covered q other hq hdata }
  indexed.storeBlock mainParams p index (lookup_insert _) 1 pos fKnown nAddSize

variable (nHeight nSize : ℕ)

def oneBlockFiles : BlockFiles :=
  { noFiles.withBlock 1 nHeight ⟨0, 0⟩ false nSize with
    nLastBlockFile := 1
    last_le := by
      change 1 ≤ 2
      decide }

theorem oneBlockFiles_holds : (oneBlockFiles nHeight nSize).Holds 0 nHeight :=
  ⟨1, _, rfl, rfl, rfl, rfl⟩

theorem oneBlockFiles_nHeightLast :
    ((oneBlockFiles nHeight nSize).info 0).nHeightLast = nHeight := by
  change (CBlockFileInfo.null.grow false 0 nSize nHeight 0).nHeightLast = nHeight
  rw [CBlockFileInfo.nHeightLast_grow]
  exact Nat.zero_max nHeight

theorem oneBlockFiles_nSize (nHeight : ℕ) : ((oneBlockFiles nHeight 1).info 0).nSize = 1 := rfl

theorem calculateCurrentUsage_oneBlockFiles (nHeight : ℕ) :
    calculateCurrentUsage (oneBlockFiles nHeight 1) = 1 := rfl

theorem oneBlockFiles_range :
    List.range (oneBlockFiles nHeight nSize).nLastBlockFile = [0] := rfl

private theorem toNat_eq_toInt {x : BitVec 32} (h : 0 ≤ x.toInt) : (x.toNat : ℤ) = x.toInt := by
  have hlt := x.isLt
  rw [BitVec.toInt_eq_toNat_cond] at h ⊢
  split_ifs at h ⊢ <;> omega

theorem findFilesToPrune_wraps (after : ℕ) (tip : BitVec 32) (pruneHeight : ℤ)
    (hprune : -2 ^ 31 ≤ pruneHeight) (hafter : (after : ℤ) < tip.toInt)
    (htip : tip.toInt < minBlocksToKeep) :
    0 ∈ (findFilesToPrune 1 (oneBlockFiles tip.toNat 1) after tip pruneHeight false).1 := by
  have hkept : minBlocksToKeep = 288 := rfl
  have hneg : min pruneHeight (tip.toInt - minBlocksToKeep) < 0 := by omega
  have hbound := le_toUnsigned_of_neg hneg (by omega)
  have hheight := toNat_eq_toInt (show 0 ≤ tip.toInt by omega)
  have hlast := oneBlockFiles_nHeightLast tip.toNat 1
  have hon : ¬ (tip.toInt < 0 ∨ 1 = 0) := by omega
  have hlate : ¬ tip.toInt ≤ after := by omega
  have hkeep : ¬ toUnsigned (min pruneHeight (tip.toInt - minBlocksToKeep)) <
      ((oneBlockFiles tip.toNat 1).info 0).nHeightLast := by omega
  have hfull : 1 ≤ (1 + (blockfileChunkSize + undofileChunkSize)) % 2 ^ 64 := by decide
  simp only [findFilesToPrune]
  rw [if_neg hon, if_neg hlate, calculateCurrentUsage_oneBlockFiles, if_pos hfull,
    oneBlockFiles_range]
  simp only [pruneLoop, oneBlockFiles_nSize, one_ne_zero, hkeep, Nat.not_lt.mpr hfull,
    Bool.false_eq_true, if_false]
  exact mem_cons_self

theorem findFilesToPruneManual_wraps (tip : BitVec 32) (h0 : 0 ≤ tip.toInt) :
    ∃ result, findFilesToPruneManual true (oneBlockFiles 0 1) 1 tip = .ok result ∧
      0 ∈ result.1 := by
  have hon : ¬ ¬ ((true : Bool) ∧ 0 < (1 : BitVec 32).toInt) := by decide
  have hneg : ¬ tip.toInt < 0 := by omega
  rw [findFilesToPruneManual, if_neg hon, if_neg hneg]
  refine ⟨_, rfl, ?_⟩
  have hlast := oneBlockFiles_nHeightLast 0 1
  rw [oneBlockFiles_range]
  simp only [pruneManualLoop, oneBlockFiles_nSize, hlast, one_ne_zero, Nat.not_lt_zero,
    or_self, if_false]
  exact mem_cons_self

/-- Automatic pruning spares the last blocks exactly when the network starts to prune late enough or
the chain is long enough; manual pruning exactly for a long enough chain. -/
theorem pruning_keepsRecent_iff (network : Network) (fastPrune : Bool) (tip : BitVec 32) :
    ((∀ nPruneTarget files indexHeights isIbd,
        KeepsRecent tip files (findFilesToPrune nPruneTarget files
          (network.pruneAfterHeight fastPrune) tip (lastPrune tip indexHeights) isIbd).1) ↔
      tip.toInt ≤ network.pruneAfterHeight fastPrune ∨ minBlocksToKeep ≤ tip.toInt) ∧
    ((∀ fPruneMode files nManualPruneHeight chosen files',
        findFilesToPruneManual fPruneMode files nManualPruneHeight tip = .ok (chosen, files') →
        KeepsRecent tip files chosen) ↔
      tip.toInt < 0 ∨ minBlocksToKeep ≤ tip.toInt) := by
  have hkept : minBlocksToKeep = 288 := rfl
  constructor
  · constructor
    · intro hsafe
      by_contra hshort
      have h0 : 0 ≤ tip.toInt := by omega
      have hlast : 0 ≤ lastPrune tip [] := lastPrune_nonneg h0 []
      have hchosen := findFilesToPrune_wraps (network.pruneAfterHeight fastPrune) tip
        (lastPrune tip []) (by omega) (by omega) (by omega)
      have hfar := hsafe 1 _ [] false 0 hchosen tip.toNat (oneBlockFiles_holds _ _)
      have hheight := toNat_eq_toInt h0
      omega
    · intro h target files indexHeights isIbd
      rcases lt_or_ge tip.toInt 0 with hneg | h0
      · have hnone : (findFilesToPrune target files (network.pruneAfterHeight fastPrune) tip
            (lastPrune tip indexHeights) isIbd).1 = [] := by
          rw [findFilesToPrune, if_pos (.inl hneg)]
        rw [hnone]
        exact fun f hf => by simp at hf
      · exact findFilesToPrune_keepsRecent (lastPrune_nonneg h0 indexHeights) h
  · constructor
    · intro hsafe
      by_contra hshort
      obtain ⟨⟨chosen, files'⟩, hrun, hmem⟩ := findFilesToPruneManual_wraps tip (by omega)
      have hfar := hsafe true _ 1 chosen files' hrun 0 hmem 0 (oneBlockFiles_holds _ _)
      omega
    · intro h fPruneMode files manual chosen files' hrun
      exact findFilesToPruneManual_keepsRecent hrun h

/-- Five files of 120 MB, each with its last block; the tip is at height 150. -/
def fiveFiles : BlockFiles :=
  (List.range 5).foldl (fun files i =>
    files.withBlock (BitVec.ofNat 256 (i + 1)) (30 * (i + 1)) ⟨i, 119999000⟩ true 1000) noFiles

/-- On the regression test network under `-fastprune`, with the smallest target, the file with the
block at height 30 is chosen. -/
theorem findFilesToPrune_takes_recent :
    let network := Network.regtest ⟨false, none, none⟩
    0 ∈ (findFilesToPrune 576716800 fiveFiles (network.pruneAfterHeight true) 150
      (lastPrune 150 []) false).1 ∧ fiveFiles.Holds 0 30 ∧ fiveFiles.Holds 4 150 := by
  refine ⟨?_, ⟨1, _, rfl, rfl, rfl, rfl⟩, ⟨5, _, rfl, rfl, rfl, rfl⟩⟩
  decide +kernel

end Vexta
