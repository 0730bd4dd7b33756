import Vexta.Validation.LoadIndex

/-! The first pass of a restart reads back fields and parents, in any order of records. -/
namespace Vexta
open Lib Uint256 List AList CDiskBlockIndex

def CBlockIndex.loaded (index : CBlockIndex) : CBlockIndex :=
  readFields index.pprev (.ofIndex index) .null

/-- The records of a map name the indices they were written for. -/
structure Writable (X : HeaderHashes) (blocks : BlockMap) : Prop where
  hash : ∀ {p index}, blocks.lookup p = some index → index.getBlockHeader.getHash X = p
  parent : ∀ {p index q}, blocks.lookup p = some index → index.pprev = some q →
    ∃ prev, blocks.lookup q = some prev
  nonzero : blocks.lookup 0 = none

section
variable {X : HeaderHashes} {blocks : BlockMap} (hB : Writable X blocks)

structure GutsInv (blocks : BlockMap) (done : List Uint256) (read : BlockMap) : Prop where
  copied : ∀ p ∈ done, read.lookup p = (blocks.lookup p).map CBlockIndex.loaded
  rest : ∀ p, p ∉ done → read.lookup p = none ∨
    read.lookup p = some .null ∧ ∃ index, blocks.lookup p = some index

variable {p : Uint256} {index : CBlockIndex}

theorem insertBlockIndex_eq (read : BlockMap) (hp : p ≠ 0) :
    (insertBlockIndex read p).1 = some p ∧ ∀ x, (insertBlockIndex read p).2.lookup x =
      if x = p then some ((read.lookup p).getD .null) else read.lookup x := by
  unfold insertBlockIndex
  rw [if_neg hp]
  cases hread : read.lookup p with
  | some index =>
    refine ⟨rfl, fun x => ?_⟩
    split_ifs with hx
    · rw [hx]
      exact hread
    · rfl
  | none =>
    refine ⟨rfl, fun x => ?_⟩
    split_ifs with hx
    · rw [hx]
      exact lookup_insert _
    · exact lookup_insert_ne hx

include hB in
theorem Writable.ne_zero (hp : blocks.lookup p = some index) : p ≠ 0 := by
  rintro rfl
  cases hB.nonzero.symm.trans hp

include hB in
theorem insertBlockIndex_hashPrev (read : BlockMap) (hp : blocks.lookup p = some index) :
    (insertBlockIndex read (index.pprev.getD 0)).1 = index.pprev ∧
      ∀ x, (insertBlockIndex read (index.pprev.getD 0)).2.lookup x =
        if index.pprev = some x then some ((read.lookup x).getD .null) else read.lookup x := by
  cases hq : index.pprev with
  | none =>
    unfold insertBlockIndex
    simp
  | some q =>
    obtain ⟨prev, hprev⟩ := hB.parent hp hq
    obtain ⟨hptr, hlookup⟩ := insertBlockIndex_eq read (hB.ne_zero hprev)
    refine ⟨hptr, fun x => ?_⟩
    rw [Option.getD_some, hlookup]
    by_cases hx : x = q
    · rw [if_pos hx, if_pos (by rw [hx]), hx]
    · rw [if_neg hx, if_neg fun h => hx (Option.some.inj h).symm]

include hB in
theorem loadDiskIndex_eq (read : BlockMap) (hp : blocks.lookup p = some index) :
    ∃ read', loadDiskIndex X read (.ofIndex index) = .ok read' ∧ ∀ x, read'.lookup x =
      if x = p then
        some (readFields index.pprev (.ofIndex index) ((read.lookup p).getD .null))
      else if index.pprev = some x then some ((read.lookup x).getD .null)
      else read.lookup x := by
  have hhash : (ofIndex index).getBlockHash X = p := hB.hash hp
  have hprev : (ofIndex index).hashPrev = index.pprev.getD 0 := rfl
  obtain ⟨hptr, hlookup⟩ := insertBlockIndex_eq read (hB.ne_zero hp)
  obtain ⟨hptr', hlookup'⟩ := insertBlockIndex_hashPrev hB (insertBlockIndex read p).2 hp
  unfold loadDiskIndex
  dsimp only
  rw [hhash, hptr, hprev, hptr']
  refine ⟨_, rfl, ?_⟩
  intro x
  rw [BlockMap.lookup_modify, hlookup', hlookup', hlookup, hlookup, if_pos rfl]
  split_ifs <;> rfl

variable {read : BlockMap} {done : List Uint256}
  {entries : List (Sigma fun _ : Uint256 => CBlockIndex)}

include hB in
theorem loadDiskIndex_inv (hp : blocks.lookup p = some index) (hnew : p ∉ done)
    (hinv : GutsInv blocks done read) :
    ∃ read', loadDiskIndex X read (.ofIndex index) = .ok read' ∧
      GutsInv blocks (p :: done) read' := by
  obtain ⟨read', hload, hlookup⟩ := loadDiskIndex_eq hB read hp
  refine ⟨read', hload, ?_, ?_⟩
  · intro x hx
    rw [hlookup]
    by_cases hxp : x = p
    · have hnull : (read.lookup p).getD .null = .null := by
        rcases hinv.rest p hnew with hnone | ⟨hnone, -⟩ <;> rw [hnone] <;> rfl
      rw [if_pos hxp, hnull, hxp, hp]
      rfl
    · rw [if_neg hxp]
      have hcopied := hinv.copied x ((mem_cons.mp hx).resolve_left hxp)
      split_ifs with hpar
      · obtain ⟨prev, hprev⟩ := hB.parent hp hpar
        rw [hcopied, hprev]
        rfl
      · exact hcopied
  · intro x hx
    rw [mem_cons, not_or] at hx
    obtain ⟨hxp, hdone⟩ := hx
    rw [hlookup, if_neg hxp]
    split_ifs with hpar
    · refine .inr ⟨?_, hB.parent hp hpar⟩
      rcases hinv.rest x hdone with hnone | ⟨hnone, -⟩ <;> rw [hnone] <;> rfl
    · exact hinv.rest x hdone

include hB in
theorem loadDiskIndex_foldlM (hentries : ∀ e ∈ entries, blocks.lookup e.1 = some e.2)
    (hnodup : (entries.map Sigma.fst).Nodup) (hdisjoint : ∀ e ∈ entries, e.1 ∉ done)
    (hinv : GutsInv blocks done read) :
    ∃ read', (entries.map fun e => ofIndex e.2).foldlM (loadDiskIndex X) read =
        .ok read' ∧ GutsInv blocks ((entries.map Sigma.fst).reverse ++ done) read' := by
  induction entries generalizing done read with
  | nil => exact ⟨read, rfl, hinv⟩
  | cons e entries ih =>
    have he := hentries e mem_cons_self
    obtain ⟨read', hload, hinv'⟩ := loadDiskIndex_inv hB he (hdisjoint e mem_cons_self) hinv
    rw [map_cons, nodup_cons] at hnodup
    obtain ⟨hnot, hnodup⟩ := hnodup
    have hrest : ∀ e' ∈ entries, e'.1 ∉ e.1 :: done := by
      intro e' he' hmem
      rcases mem_cons.mp hmem with heq | hmem
      · exact hnot (heq ▸ mem_map_of_mem he')
      · exact hdisjoint e' (mem_cons_of_mem _ he') hmem
    obtain ⟨read'', hfold, hfinal⟩ :=
      ih (fun e' he' => hentries e' (mem_cons_of_mem _ he')) hnodup hrest hinv'
    refine ⟨read'', ?_, ?_⟩
    · rw [map_cons, foldlM_cons, hload, ok_bind]
      exact hfold
    · simpa using hfinal

include hB in
theorem exists_loadBlockIndexGuts (hperm : entries.Perm blocks.entries) :
    ∃ read, (entries.map fun e => ofIndex e.2).foldlM (loadDiskIndex X) ∅ =
        .ok read ∧ ∀ p, read.lookup p = (blocks.lookup p).map CBlockIndex.loaded := by
  have hmem : ∀ e ∈ entries, blocks.lookup e.1 = some e.2 := by
    intro e he
    exact mem_lookup_iff.mpr (hperm.mem_iff.mp he)
  have hnodup : (entries.map Sigma.fst).Nodup :=
    (hperm.map Sigma.fst).nodup_iff.mpr blocks.nodupKeys
  have hstart : GutsInv blocks [] ∅ := {
    copied := fun _ h => absurd h not_mem_nil
    rest := fun p _ => .inl (lookup_empty p) }
  obtain ⟨read, hfold, hinv⟩ :=
    loadDiskIndex_foldlM hB hmem hnodup (fun _ _ => not_mem_nil) hstart
  refine ⟨read, hfold, ?_⟩
  intro p
  by_cases hp : p ∈ (entries.map Sigma.fst).reverse ++ []
  · exact hinv.copied p hp
  · have hnone : blocks.lookup p = none := by
      cases hindex : blocks.lookup p with
      | none => rfl
      | some index =>
        refine absurd ?_ hp
        have he := hperm.mem_iff.mpr (mem_lookup_iff.mp hindex)
        simpa using ⟨index, he⟩
    rcases hinv.rest p hp with h | ⟨-, index, hindex⟩
    · rw [h, hnone]
      rfl
    · cases hnone.symm.trans hindex

end
end Vexta
