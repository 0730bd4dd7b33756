import Vexta.Validation.AcceptBlock
import Vexta.Validation.Prune

/-! The loop of `FindBlockPos` that looks for a block file with room for a block. -/
namespace Vexta
open Lib List

def maxBlockfileSize : ℕ := 0x8000000

def blockfileLimit (fastPrune : Bool) : ℕ := if fastPrune then 0x10000 else maxBlockfileSize

abbrev FileSearch := List CBlockFileInfo × ℕ

namespace FileSearch

def info (s : FileSearch) : CBlockFileInfo := s.1.getD s.2 .null

def start (vinfoBlockFile : List CBlockFileInfo) (nLastBlockFile : ℕ) : FileSearch :=
  (resizeFiles vinfoBlockFile nLastBlockFile, nLastBlockFile)

variable (fastPrune : Bool) (nAddSize : ℕ)

def next (s : FileSearch) : Option FileSearch :=
  if blockfileLimit fastPrune ≤ (s.info.nSize + nAddSize) % 2 ^ 32 then
    some (resizeFiles s.1 (s.2 + 1), s.2 + 1)
  else none

def Reaches : FileSearch → FileSearch → Prop :=
  Relation.ReflTransGen fun s t => s.next fastPrune nAddSize = some t

def Terminates (s : FileSearch) : Prop :=
  ∃ t, s.Reaches fastPrune nAddSize t ∧ t.next fastPrune nAddSize = none

def SkipsNoEmpty (s : FileSearch) : Prop :=
  ∀ t u, s.Reaches fastPrune nAddSize t → t.next fastPrune nAddSize = some u → t.info.nSize ≠ 0

variable {fastPrune : Bool} {nAddSize : ℕ} {s : FileSearch}

theorem next_of_empty (hadd : nAddSize < 2 ^ 32) (h : s.info.nSize = 0) :
    s.next fastPrune nAddSize = none ↔ nAddSize < blockfileLimit fastPrune := by
  rw [next, h, zero_add, Nat.mod_eq_of_lt hadd]
  split_ifs with hlimit
  · simpa using hlimit
  · simpa using hlimit

theorem terminates_of_lt (hadd : nAddSize < 2 ^ 32) (h : nAddSize < blockfileLimit fastPrune)
    (s : FileSearch) : s.Terminates fastPrune nAddSize := by
  induction hk : s.1.length - s.2 using Nat.strongRecOn generalizing s with
  | ind k ih =>
    cases hnext : s.next fastPrune nAddSize with
    | none => exact ⟨s, .refl, hnext⟩
    | some t =>
      obtain ⟨-, ht⟩ := Option.ite_none_right_eq_some.mp hnext
      cases ht
      by_cases hlast : s.2 + 1 < s.1.length
      · have hsame : resizeFiles s.1 (s.2 + 1) = s.1 := by
          rw [resizeFiles, Nat.sub_eq_zero_of_le hlast, replicate_zero, append_nil]
        rw [hsame] at hnext
        obtain ⟨u, hreach, hstop⟩ := ih (k - 1) (by omega) (s.1, s.2 + 1) (by dsimp only; omega)
        exact ⟨u, hreach.head hnext, hstop⟩
      · refine ⟨_, .single hnext, (next_of_empty hadd ?_).mpr h⟩
        rw [info, getD_resizeFiles, getD_eq_default _ _ (not_lt.mp hlast)]
        rfl

end FileSearch
open FileSearch

/-- A block that does not fit an empty file keeps the search going. -/
theorem findBlockPos_iff (block : CBlock) (fastPrune : Bool)
    (hsize : getBlockWeight block ≤ maxBlockWeight) :
    (∀ vinfoBlockFile nLastBlockFile,
      (start vinfoBlockFile nLastBlockFile).Terminates fastPrune (block.serialize.length + 8) ∧
      (start vinfoBlockFile nLastBlockFile).SkipsNoEmpty fastPrune (block.serialize.length + 8)) ↔
    fastPrune = false ∨ block.serialize.length + 8 < 0x10000 := by
  have hle : block.serialize.length ≤ 4000000 := (Nat.le_add_left _ _).trans hsize
  have hadd : block.serialize.length + 8 < 2 ^ 32 := by omega
  have hlimit : fastPrune = false ∨ block.serialize.length + 8 < 0x10000 ↔
      block.serialize.length + 8 < blockfileLimit fastPrune := by
    cases fastPrune
    · simp only [blockfileLimit, maxBlockfileSize, true_or, true_iff]
      change _ < 0x8000000
      omega
    · simp [blockfileLimit]
  rw [hlimit]
  constructor
  · intro h
    by_contra hlarge
    have hempty : (start [] 0).info.nSize = 0 := rfl
    cases hnext : (start [] 0).next fastPrune (block.serialize.length + 8) with
    | none => exact hlarge ((next_of_empty hadd hempty).mp hnext)
    | some t => exact (h [] 0).2 _ t .refl hnext hempty
  · intro h vinfoBlockFile nLastBlockFile
    refine ⟨terminates_of_lt hadd h _, fun t u _ hnext hempty => ?_⟩
    rw [(next_of_empty hadd hempty).mpr h] at hnext
    cases hnext

def longBlock {n : ℕ} (hn : n ≤ 0x10000) : CBlock :=
  ⟨⟨0, 0, 0, 0, 0, 0⟩, [⟨[⟨⟨0, 0xffffffff⟩, [0, 0], 0, []⟩],
    [⟨0, replicate n 0x6a, by rw [length_replicate]; omega⟩], 1, 0⟩]⟩

theorem length_longBlock {n : ℕ} (hn : n ≤ 0x10000) : n < (longBlock hn).serialize.length ∧
    (longBlock hn).strippedSize < n + 200 ∧ (longBlock hn).serialize.length < n + 200 := by
  have hsize : (writeCompactSize n).length ≤ 9 := by
    rcases writeCompactSize_cases n with ⟨-, h⟩ | ⟨-, -, h⟩ | ⟨-, -, h⟩ | ⟨-, h⟩ <;> simp [h]
  have hone : (writeCompactSize 1).length = 1 := rfl
  have htwo : (writeCompactSize 2).length = 1 := rfl
  simp [longBlock, CBlock.serialize, CBlock.strippedSize, CBlockHeader.serialize,
    CTransaction.serialize, CTransaction.serializeNoWitness, CTransaction.hasWitness,
    CTxIn.serialize, CTxOut.serialize, serializeVector, hone, htwo]
  omega

theorem weight_longBlock {n : ℕ} (hn : n ≤ 0x10000) :
    getBlockWeight (longBlock hn) ≤ maxBlockWeight := by
  obtain ⟨-, hstripped, hlength⟩ := length_longBlock hn
  unfold getBlockWeight maxBlockWeight witnessScaleFactor
  omega

theorem findBlockPos_long : getBlockWeight (longBlock le_rfl) ≤ maxBlockWeight ∧
    (start [] 0).Terminates false ((longBlock le_rfl).serialize.length + 8) ∧
    (start [] 0).SkipsNoEmpty false ((longBlock le_rfl).serialize.length + 8) :=
  ⟨weight_longBlock le_rfl,
    (findBlockPos_iff _ false (weight_longBlock le_rfl)).mpr (.inl rfl) [] 0⟩

theorem not_terminates_longBlock {n : ℕ} (hn : n ≤ 0x10000) (heq : n = 0x10000) :
    ¬ (start [] 0).Terminates true ((longBlock hn).serialize.length + 8) := by
  rintro ⟨t, hreach, hstop⟩
  have hempty : ∀ i, t.1.getD i .null = .null := by
    clear hstop
    induction hreach with
    | refl => exact getD_resizeFiles [] 0
    | tail _ hnext ih =>
      obtain ⟨-, ht⟩ := Option.ite_none_right_eq_some.mp hnext
      cases ht
      exact fun i => (getD_resizeFiles _ _ i).trans (ih i)
  have hsize : t.info.nSize = 0 := by
    rw [info, hempty]
    rfl
  obtain ⟨hlong, -, hlength⟩ := length_longBlock hn
  have hfits := (next_of_empty (by omega) hsize).mp hstop
  change _ < 0x10000 at hfits
  omega

theorem findBlockPos_diverges : getBlockWeight (longBlock le_rfl) ≤ maxBlockWeight ∧
    ¬ (start [] 0).Terminates true ((longBlock le_rfl).serialize.length + 8) :=
  ⟨weight_longBlock le_rfl, not_terminates_longBlock le_rfl rfl⟩

end Vexta
