import Vexta.Validation.LoadExternal

/-! What is found in block files: the blocks that were stored there, whatever lies between them. -/
namespace Vexta
open Lib List

structure StoredBlock where
  gap : Bytes
  block : CBlock

structure BlockFile where
  records : List StoredBlock
  tail : Bytes

section
variable (messageStart : Bytes)

def StoredBlock.bytes (s : StoredBlock) : Bytes :=
  s.gap ++ (messageStart ++ (le 4 s.block.serialize.length ++ s.block.serialize))

def BlockFile.bytes (f : BlockFile) : Bytes :=
  f.records.flatMap (StoredBlock.bytes messageStart) ++ f.tail

def StoredBlock.Clear (s : StoredBlock) : Prop :=
  ∀ i < s.gap.length, ¬ messageStart <+: (s.gap ++ messageStart).drop i

structure BlockFile.Clear (f : BlockFile) : Prop where
  records : ∀ s ∈ f.records, s.Clear messageStart
  tail : ¬ messageStart <:+: f.tail

end

def positionsFrom : ℕ → List StoredBlock → List (ℕ × CBlock)
  | _, [] => []
  | offset, s :: rest =>
    (offset + s.gap.length + 8, s.block) ::
      positionsFrom (offset + s.gap.length + 8 + s.block.serialize.length) rest

def BlockFile.positions (f : BlockFile) : List (ℕ × CBlock) := positionsFrom 0 f.records

structure CBlock.Storable (block : CBlock) : Prop where
  reads : Reads readBlock block.serialize block
  size : block.serialize.length ≤ maxBlockSerializedSize

theorem CBlock.length_serialize_ge (block : CBlock) : 80 ≤ block.serialize.length := by
  unfold CBlock.serialize CBlockHeader.serialize
  simp only [length_append, length_le]
  omega

section
variable {file : Bytes} {ch : UInt8} {p q : ℕ}

theorem findByte_self (h : file[q]? = some ch) : findByte file ch q = some q := by
  obtain ⟨hlt, heq⟩ := List.getElem?_eq_some_iff.mp h
  unfold findByte
  rw [drop_eq_getElem_cons hlt, List.findIdx?_cons, heq, beq_self_eq_true]
  simp

theorem findByte_le (h : file[q]? = some ch) (hpq : p ≤ q) :
    ∃ pos, findByte file ch p = some pos ∧ p ≤ pos ∧ pos ≤ q ∧ file[pos]? = some ch := by
  have hdrop : (file.drop p)[q - p]? = some ch := by
    rw [List.getElem?_drop, Nat.add_sub_cancel' hpq]
    exact h
  have hmem : ch ∈ file.drop p := mem_of_getElem? hdrop
  cases hfind : (file.drop p).findIdx? (· == ch) with
  | none =>
    exfalso
    have hnone := List.findIdx?_eq_none_iff.mp hfind ch hmem
    simp at hnone
  | some i =>
    obtain ⟨hlt, hat, hbefore⟩ := List.findIdx?_eq_some_iff_getElem.mp hfind
    refine ⟨p + i, ?_, by omega, ?_, ?_⟩
    · unfold findByte
      rw [hfind]
      rfl
    · by_contra hgt
      have hlt' : q - p < i := by omega
      have hnot := hbefore (q - p) hlt'
      obtain ⟨_, heq⟩ := List.getElem?_eq_some_iff.mp hdrop
      rw [heq] at hnot
      simp at hnot
    · rw [← List.getElem?_drop, List.getElem?_eq_getElem hlt]
      exact congrArg some (beq_iff_eq.mp hat)

theorem findByte_ge {pos : ℕ} (h : findByte file ch p = some pos) : p ≤ pos := by
  unfold findByte at h
  obtain ⟨i, -, rfl⟩ := Option.map_eq_some_iff.mp h
  omega

end

section
variable {messageStart file : Bytes} {p q : ℕ}

def IsMagic (messageStart : Bytes) : Prop := messageStart.length = 4

section
variable (hmagic : IsMagic messageStart)
include hmagic

theorem take_four_iff :
    (file.drop p).take 4 = messageStart ↔ messageStart <+: file.drop p := by
  unfold IsMagic at hmagic
  rw [prefix_iff_eq_take, hmagic, eq_comm]

theorem IsMagic.head (h : messageStart <+: file.drop q) :
    file[q]? = some (messageStart.headD 0) := by
  unfold IsMagic at hmagic
  cases messageStart with
  | nil => cases hmagic
  | cons b rest =>
    obtain ⟨t, ht⟩ := h
    have hget : (file.drop q)[0]? = some b := by
      rw [← ht]
      rfl
    rwa [List.getElem?_drop, Nat.add_zero] at hget

theorem IsMagic.length_le (h : messageStart <+: file.drop q) :
    q + 4 ≤ file.length := by
  unfold IsMagic at hmagic
  have hle := h.length_le
  rw [length_drop, hmagic] at hle
  omega

theorem searchRounds_gap (hq : messageStart <+: file.drop q)
    {fuel : ℕ} (hpq : p ≤ q) (hfuel : file.length - p < fuel)
    (hclear : ∀ i, p ≤ i → i < q → ¬ messageStart <+: file.drop i) :
    ∃ fuel', file.length - q < fuel' ∧
      searchRounds messageStart file fuel p = searchRounds messageStart file fuel' q := by
  have hbyte := hmagic.head hq
  have hlength := hmagic.length_le hq
  induction fuel generalizing p with
  | zero => omega
  | succ fuel ih =>
    obtain ⟨pos, hfind, hppos, hposq, -⟩ := findByte_le hbyte hpq
    by_cases heq : pos = q
    · -- the byte found is that of the magic
      subst heq
      refine ⟨fuel + 1, by omega, ?_⟩
      have hstep : searchStep messageStart file p = searchStep messageStart file pos := by
        unfold searchStep
        rw [hfind, findByte_self hbyte]
      rw [searchRounds, searchRounds, hstep]
    · have hstep : searchStep messageStart file p = .again (pos + 1) := by
        unfold searchStep
        rw [hfind]
        dsimp only
        rw [if_neg (by omega), if_pos]
        rw [ne_eq, take_four_iff hmagic]
        exact hclear pos hppos (by omega)
      obtain ⟨fuel', hfuel', hrest⟩ := ih (p := pos + 1) (by omega) (by omega)
        fun i hi hiq => hclear i (by omega) hiq
      refine ⟨fuel', hfuel', ?_⟩
      rw [searchRounds, hstep]
      exact hrest

theorem searchRounds_found {block : CBlock}
    (hblock : block.Storable)
    {rest : Bytes} {fuel : ℕ}
    (hq : file.drop q = messageStart ++ (le 4 block.serialize.length ++ block.serialize) ++ rest) :
    searchRounds messageStart file (fuel + 1) q =
      (q + 8, block) :: searchRounds messageStart file fuel (q + 8 + block.serialize.length) := by
  have hstart : messageStart <+: file.drop q := by
    rw [hq, append_assoc]
    exact prefix_append _ _
  have hmagicLength : messageStart.length = 4 := hmagic
  have hlow := block.length_serialize_ge
  have hhigh := hblock.size
  unfold maxBlockSerializedSize at hhigh
  have hfile : file.length = q + 8 + block.serialize.length + rest.length := by
    have hlength := congrArg List.length hq
    simp only [length_drop, length_append, Lib.length_le, hmagicLength] at hlength
    omega
  have hsize : (file.drop (q + 4)).take 4 = le 4 block.serialize.length := by
    rw [← drop_drop, hq, append_assoc, drop_left' hmagicLength, append_assoc,
      take_left' (length_le 4 _)]
  have hbody : (file.drop (q + 8)).take block.serialize.length = block.serialize := by
    have hdrop : file.drop (q + 8) = block.serialize ++ rest := by
      have hhead : (messageStart ++ le 4 block.serialize.length).length = 8 := by
        rw [length_append, length_le, hmagicLength]
      rw [← drop_drop, hq, ← append_assoc messageStart, append_assoc]
      exact drop_left' hhead
    rw [hdrop, take_left]
  have hread := hblock.reads []
  rw [append_nil] at hread
  have hstep : searchStep messageStart file q =
      .found (q + 8) block (q + 8 + block.serialize.length) := by
    unfold searchStep
    rw [findByte_self (hmagic.head hstart)]
    dsimp only
    rw [if_neg (by omega), if_neg (not_not.mpr ((take_four_iff hmagic).mpr hstart)),
      if_neg (by omega), hsize, ofLe_le (by omega), if_neg]
    · unfold searchBlock
      rw [hbody, hread]
      dsimp only
      rw [length_nil, Nat.sub_zero, min_eq_left (by omega)]
    · unfold maxBlockSerializedSize
      omega
  rw [searchRounds, hstep]

theorem searchRounds_tail
    (hclear : ∀ i, p ≤ i → ¬ messageStart <+: file.drop i) (fuel : ℕ) :
    searchRounds messageStart file fuel p = [] := by
  induction fuel generalizing p with
  | zero => rfl
  | succ fuel ih =>
    rw [searchRounds]
    have hstep : searchStep messageStart file p = .stop ∨
        ∃ pos, p ≤ pos ∧ searchStep messageStart file p = .again (pos + 1) := by
      unfold searchStep
      cases hfind : findByte file (messageStart.headD 0) p with
      | none => exact .inl rfl
      | some pos =>
        dsimp only
        by_cases hend : file.length < pos + 4
        · rw [if_pos hend]
          exact .inl rfl
        · have hne := hclear pos (findByte_ge hfind)
          rw [← take_four_iff hmagic] at hne
          rw [if_neg hend, if_pos hne]
          exact .inr ⟨pos, findByte_ge hfind, rfl⟩
    rcases hstep with hstop | ⟨pos, hpos, hagain⟩
    · rw [hstop]
    · rw [hagain]
      exact ih fun i hi => hclear i (by omega)

theorem searchRounds_records {records : List StoredBlock}
    {tail : Bytes} (hstorable : ∀ s ∈ records, s.block.Storable)
    (hclear : ∀ s ∈ records, s.Clear messageStart) (htail : ¬ messageStart <:+: tail)
    {fuel : ℕ} (hfuel : file.length - p < fuel)
    (hfile : file.drop p = records.flatMap (StoredBlock.bytes messageStart) ++ tail) :
    searchRounds messageStart file fuel p = positionsFrom p records := by
  induction records generalizing p fuel with
  | nil =>
    apply searchRounds_tail hmagic
    intro i hi hstart
    apply htail
    rw [flatMap_nil, nil_append] at hfile
    rw [← hfile]
    obtain ⟨k, rfl⟩ := Nat.exists_eq_add_of_le hi
    rw [← drop_drop] at hstart
    exact hstart.isInfix.trans (drop_suffix k _).isInfix
  | cons s records ih =>
    have hmagicLength : messageStart.length = 4 := hmagic
    rw [flatMap_cons, StoredBlock.bytes, append_assoc, append_assoc] at hfile
    -- the record starts behind the gap
    have hq : file.drop (p + s.gap.length) =
        messageStart ++ (le 4 s.block.serialize.length ++ s.block.serialize) ++
          (records.flatMap (StoredBlock.bytes messageStart) ++ tail) := by
      rw [← drop_drop, hfile, drop_left, append_assoc]
    have hstart : messageStart <+: file.drop (p + s.gap.length) := by
      rw [hq, append_assoc]
      exact prefix_append _ _
    have hgap : ∀ i, p ≤ i → i < p + s.gap.length → ¬ messageStart <+: file.drop i := by
      intro i hi hiq hoccurs
      obtain ⟨k, rfl⟩ := Nat.exists_eq_add_of_le hi
      apply hclear s mem_cons_self k (by omega)
      -- what follows the first four bytes of the record does not matter
      rw [← drop_drop, hfile, append_assoc, ← append_assoc s.gap,
        drop_append_of_le_length] at hoccurs
      · refine prefix_of_prefix_length_le hoccurs (prefix_append _ _) ?_
        rw [length_drop, length_append]
        omega
      · rw [length_append]
        omega
    obtain ⟨fuel', hfuel', hsearch⟩ := searchRounds_gap hmagic hstart (by omega) hfuel hgap
    obtain ⟨fuel'', rfl⟩ : ∃ k, fuel' = k + 1 := ⟨fuel' - 1, by omega⟩
    have hnext : file.drop (p + s.gap.length + 8 + s.block.serialize.length) =
        records.flatMap (StoredBlock.bytes messageStart) ++ tail := by
      have hlength : (messageStart ++
          (le 4 s.block.serialize.length ++ s.block.serialize)).length =
          8 + s.block.serialize.length := by
        rw [length_append, length_append, length_le, hmagicLength]
        omega
      rw [add_assoc, ← drop_drop, hq, drop_left' hlength]
    have hlow := s.block.length_serialize_ge
    have hlength := congrArg List.length hq
    simp only [length_drop, length_append, Lib.length_le, hmagicLength] at hlength
    rw [hsearch, searchRounds_found hmagic (hstorable s mem_cons_self) hq, positionsFrom,
      ih (fun t ht => hstorable t (mem_cons_of_mem s ht))
        (fun t ht => hclear t (mem_cons_of_mem s ht)) (by omega) hnext]

end

end

variable {messageStart : Bytes}

theorem searchFile_eq (hmagic : IsMagic messageStart) {f : BlockFile}
    (hstorable : ∀ s ∈ f.records, s.block.Storable) (hclear : f.Clear messageStart) :
    searchFile messageStart (f.bytes messageStart) = f.positions :=
  searchRounds_records hmagic hstorable hclear.records hclear.tail (by omega) drop_zero

theorem drop_positionsFrom (hmagic : IsMagic messageStart)
    {records : List StoredBlock} {tail file : Bytes} {p pos : ℕ} {block : CBlock}
    (hfile : file.drop p = records.flatMap (StoredBlock.bytes messageStart) ++ tail)
    (hmem : (pos, block) ∈ positionsFrom p records) :
    ∃ rest, file.drop pos = block.serialize ++ rest := by
  have hmagicLength : messageStart.length = 4 := hmagic
  induction records generalizing p with
  | nil => cases hmem
  | cons s records ih =>
    rw [flatMap_cons, StoredBlock.bytes, append_assoc, append_assoc,
      append_assoc, append_assoc] at hfile
    have hhead : (s.gap ++ messageStart ++ le 4 s.block.serialize.length).length =
        s.gap.length + 8 := by
      rw [length_append, length_append, length_le, hmagicLength]
    have hbody : file.drop (p + s.gap.length + 8) = s.block.serialize ++
        (records.flatMap (StoredBlock.bytes messageStart) ++ tail) := by
      rw [add_assoc, ← drop_drop, hfile, ← append_assoc, ← append_assoc]
      exact drop_left' hhead
    rcases mem_cons.mp hmem with heq | hmem
    · cases heq
      exact ⟨_, hbody⟩
    · apply ih _ hmem
      rw [← drop_drop, hbody, drop_left]

theorem clear_of_not_infix {s : StoredBlock} {b : UInt8} {t : Bytes}
    (hmagic : messageStart = b :: t) (hfirst : b ∉ t) (h : ¬ messageStart <:+: s.gap) :
    s.Clear messageStart := by
  intro i hi hstart
  rw [drop_append_of_le_length hi.le] at hstart
  by_cases hlong : messageStart.length ≤ (s.gap.drop i).length
  · apply h
    have hin := prefix_of_prefix_length_le hstart (prefix_append _ _) hlong
    exact hin.isInfix.trans (drop_suffix i _).isInfix
  · -- the first byte of the magic would stand further on in it
    have hget : (s.gap.drop i ++ messageStart)[(s.gap.drop i).length]? = some b := by
      rw [List.getElem?_append_right le_rfl, Nat.sub_self, hmagic]
      rfl
    have hat : messageStart[(s.gap.drop i).length]? = some b := by
      rw [← hget, prefix_iff_getElem?.mp hstart _ (not_le.mp hlong)]
      exact List.getElem?_eq_getElem _
    rw [hmagic] at hat
    have hpos : 0 < (s.gap.drop i).length := by
      rw [length_drop]
      omega
    obtain ⟨k, hk⟩ := Nat.exists_eq_succ_of_ne_zero hpos.ne'
    rw [hk, List.getElem?_cons_succ] at hat
    exact hfirst (mem_of_getElem? hat)

end Vexta
