import Mathlib.Data.Set.Function
import Vexta.Connect.Block

/-! What a Merkle root tells about the list it was computed from. -/
namespace Vexta
open Lib List

section
variable (X : Crypto)

def computeMerkleRoot (hashes : List Uint256) : Uint256 × Bool :=
  merkleLoop X hashes.length hashes false

def merklePair (pair : Uint256 × Uint256) : Uint256 :=
  X.hash256 (le 32 pair.1.toNat ++ le 32 pair.2.toNat)

def levelPairs : List Uint256 → List (Uint256 × Uint256)
  | [] => []
  | [a] => [(a, a)]
  | a :: b :: rest => (a, b) :: levelPairs rest

inductive Ascends (l : List Uint256) : List Uint256 → Prop
  | refl : Ascends l l
  | step {m : List Uint256} (h : Ascends l m) (hlength : 2 ≤ m.length) :
      Ascends l (merkleLevel X m)

def hashedPairs (l : List Uint256) : Set (Uint256 × Uint256) :=
  {pair | ∃ m, Ascends X l m ∧ 2 ≤ m.length ∧ pair ∈ levelPairs m}

end

variable {X : Crypto} {l m : List Uint256}

theorem merkleLevel_eq_map (l : List Uint256) :
    merkleLevel X l = (levelPairs l).map (merklePair X) := by
  fun_induction levelPairs l with
  | case1 => rfl
  | case2 => rfl
  | case3 a b rest ih => rw [merkleLevel, ih, map_cons, merklePair]

theorem length_merkleLevel (l : List Uint256) : (merkleLevel X l).length = (l.length + 1) / 2 := by
  fun_induction merkleLevel X l with
  | case1 => rfl
  | case2 => simp
  | case3 a b rest ih =>
    simp only [length_cons, ih]
    omega

theorem levelPairs_inj (hl : merkleMutated l = false) (hm : merkleMutated m = false)
    (h : levelPairs l = levelPairs m) : l = m := by
  fun_induction levelPairs l generalizing m with
  | case1 =>
    match m with
    | [] => rfl
    | [a] => cases h
    | a :: b :: rest => cases h
  | case2 a =>
    match m with
    | [] => cases h
    | [b] => simpa [levelPairs] using h
    | b :: c :: rest =>
      simp only [levelPairs, List.cons.injEq, Prod.mk.injEq] at h
      simp [merkleMutated, ← h.1.1, ← h.1.2] at hm
  | case3 a b rest ih =>
    match m with
    | [] => cases h
    | [c] =>
      simp only [levelPairs, List.cons.injEq, Prod.mk.injEq] at h
      simp [merkleMutated, h.1.1, h.1.2] at hl
    | c :: d :: rest' =>
      simp only [levelPairs, List.cons.injEq, Prod.mk.injEq] at h
      simp only [merkleMutated, Bool.or_eq_false_iff] at hl hm
      rw [h.1.1, h.1.2, ih hl.2 hm.2 h.2]

theorem map_inj_of_injOn {α β : Type} {f : α → β} {S : Set α} (hf : S.InjOn f) {l m : List α}
    (hl : ∀ a ∈ l, a ∈ S) (hm : ∀ a ∈ m, a ∈ S) (h : l.map f = m.map f) : l = m := by
  have hlength : l.length = m.length := by simpa using congrArg List.length h
  refine ext_getElem hlength fun i hi hi' => ?_
  apply hf (hl _ (getElem_mem hi)) (hm _ (getElem_mem hi'))
  have hget := congrArg (·[i]?) h
  simpa [hi, hi'] using hget

namespace Ascends

theorem cons (hlength : 2 ≤ l.length) (h : Ascends X (merkleLevel X l) m) : Ascends X l m := by
  induction h with
  | refl => exact .step .refl hlength
  | step _ hlength' ih => exact .step ih hlength'

theorem eq_or_cons (h : Ascends X l m) : m = l ∨ Ascends X (merkleLevel X l) m := by
  induction h with
  | refl => exact .inl rfl
  | step _ hlength ih =>
    right
    rcases ih with rfl | h
    · exact .refl
    · exact .step h hlength

theorem of_length_le (h : Ascends X l m) (hlength : l.length ≤ 1) : m = l := by
  induction h with
  | refl => rfl
  | step _ hlength' ih =>
    rw [ih] at hlength'
    omega

theorem connected {a b c : List Uint256} (ha : Ascends X a c) (hb : Ascends X b c)
    (hinj : (hashedPairs X a ∪ hashedPairs X b).InjOn (merklePair X))
    (hclean : ∀ m, Ascends X a m → merkleMutated m = false)
    (hclean' : ∀ m, Ascends X b m → merkleMutated m = false) : Ascends X a b ∨ Ascends X b a := by
  induction ha with
  | refl => exact .inr hb
  | @step m h hlength ih =>
    generalize hlevel : merkleLevel X m = c at hb
    cases hb with
    | refl =>
      left
      rw [← hlevel]
      exact .step h hlength
    | @step m' h' hlength' =>
      rw [merkleLevel_eq_map, merkleLevel_eq_map] at hlevel
      have hpairs : levelPairs m = levelPairs m' := by
        apply map_inj_of_injOn hinj _ _ hlevel
        · exact fun pair hpair => .inl ⟨m, h, hlength, hpair⟩
        · exact fun pair hpair => .inr ⟨m', h', hlength', hpair⟩
      rw [levelPairs_inj (hclean m h) (hclean' m' h') hpairs] at ih
      exact ih h'

theorem eq_or_hashed (h : Ascends X l m) :
    m = l ∨ ∀ hash ∈ m, ∃ pair ∈ hashedPairs X l, merklePair X pair = hash := by
  cases h with
  | refl => exact .inl rfl
  | @step m h hlength =>
    right
    intro hash hmem
    rw [merkleLevel_eq_map] at hmem
    obtain ⟨pair, hpair, rfl⟩ := mem_map.mp hmem
    exact ⟨pair, ⟨m, h, hlength, hpair⟩, rfl⟩

end Ascends

theorem hashedPairs_of_length_le (hlength : l.length ≤ 1) : hashedPairs X l = ∅ := by
  rw [Set.eq_empty_iff_forall_notMem]
  rintro pair ⟨m, h, hlength', _⟩
  rw [h.of_length_le hlength] at hlength'
  omega

theorem mem_levelPairs_of_length_le {pair : Uint256 × Uint256} (hlength : l.length ≤ 4)
    (h : pair ∈ hashedPairs X l) : pair ∈ levelPairs l ++ levelPairs (merkleLevel X l) := by
  obtain ⟨m, h, hlength', hpair⟩ := h
  rcases h.eq_or_cons with rfl | h
  · exact mem_append_left _ hpair
  · rcases h.eq_or_cons with rfl | h
    · exact mem_append_right _ hpair
    · have hm := h.of_length_le (by rw [length_merkleLevel, length_merkleLevel]; omega)
      rw [hm, length_merkleLevel, length_merkleLevel] at hlength'
      omega

theorem merkleLoop_ascends {fuel : ℕ} (hfuel : l.length ≤ fuel + 1) (hne : l ≠ [])
    (mutation : Bool) :
    Ascends X l [(merkleLoop X fuel l mutation).1] ∧
      ((merkleLoop X fuel l mutation).2 = false →
        mutation = false ∧ ∀ m, Ascends X l m → merkleMutated m = false) := by
  fun_induction merkleLoop X fuel l mutation with
  | case1 => exact absurd rfl hne
  | case2 fuel a mutation =>
    refine ⟨.refl, fun hmutation => ⟨hmutation, fun m h => ?_⟩⟩
    rw [h.of_length_le (le_refl 1)]
    rfl
  | case3 a b rest mutation => simp at hfuel
  | case4 fuel a b rest mutation ih =>
    have hlength : 2 ≤ (a :: b :: rest).length := Nat.le_add_left 2 _
    have hlevel := length_merkleLevel (X := X) (a :: b :: rest)
    obtain ⟨htop, hclean⟩ := ih (by omega) (ne_nil_of_length_pos (by omega))
    refine ⟨htop.cons hlength, fun hmutation => ?_⟩
    obtain ⟨hflags, hrest⟩ := hclean hmutation
    rw [Bool.or_eq_false_iff] at hflags
    refine ⟨hflags.1, fun m h => ?_⟩
    rcases h.eq_or_cons with rfl | h
    · exact hflags.2
    · exact hrest m h

theorem computeMerkleRoot_inj {a b : List Uint256}
    (hroot : (computeMerkleRoot X a).1 = (computeMerkleRoot X b).1)
    (hinj : (hashedPairs X a ∪ hashedPairs X b).InjOn (merklePair X))
    (hleaf : ∀ pair ∈ hashedPairs X a ∪ hashedPairs X b, merklePair X pair ∉ a ++ b)
    (hclean : (computeMerkleRoot X a).2 = false) (hclean' : (computeMerkleRoot X b).2 = false)
    (hnil : a ≠ []) (hnil' : b ≠ []) : a = b := by
  obtain ⟨htop, hall⟩ := merkleLoop_ascends (X := X) (Nat.le_succ a.length) hnil false
  obtain ⟨htop', hall'⟩ := merkleLoop_ascends (X := X) (Nat.le_succ b.length) hnil' false
  unfold computeMerkleRoot at hroot hclean hclean'
  rw [hroot] at htop
  rcases htop.connected htop' hinj (hall hclean).2 (hall' hclean').2 with h | h
  · rcases h.eq_or_hashed with rfl | hhashed
    · rfl
    · obtain ⟨leaf, hmem⟩ := exists_mem_of_ne_nil b hnil'
      obtain ⟨pair, hpair, rfl⟩ := hhashed leaf hmem
      exact absurd (mem_append_right a hmem) (hleaf pair (.inl hpair))
  · rcases h.eq_or_hashed with rfl | hhashed
    · rfl
    · obtain ⟨leaf, hmem⟩ := exists_mem_of_ne_nil a hnil
      obtain ⟨pair, hpair, rfl⟩ := hhashed leaf hmem
      exact absurd (mem_append_left b hmem) (hleaf pair (.inr hpair))

/-- If the hashed pairs have no collision and no leaf is the hash of one, then of two different
lists with one root one is mutated, or one is empty and the other has the null root. -/
theorem computeMerkleRoot_mutated {a b : List Uint256}
    (hroot : (computeMerkleRoot X a).1 = (computeMerkleRoot X b).1)
    (hinj : (hashedPairs X a ∪ hashedPairs X b).InjOn (merklePair X))
    (hleaf : ∀ pair ∈ hashedPairs X a ∪ hashedPairs X b, merklePair X pair ∉ a ++ b) :
    (a ≠ b → (computeMerkleRoot X a).2 = true ∨ (computeMerkleRoot X b).2 = true ∨
      (a = [] ∨ b = []) ∧ (computeMerkleRoot X a).1 = 0) ∧
    ∀ vtx vtx' : List CTransaction, vtx ≠ [] → vtx' ≠ [] →
      vtx.map (·.getHash X) = a → vtx'.map (·.getHash X) = b →
      (blockMerkleRoot X vtx).2 = false → (blockMerkleRoot X vtx').2 = false →
      vtx.map (·.getHash X) = vtx'.map (·.getHash X) := by
  constructor
  · intro hne
    by_contra hnot
    simp only [not_or, not_and, Bool.not_eq_true] at hnot
    obtain ⟨hclean, hclean', hnull⟩ := hnot
    refine hne (computeMerkleRoot_inj hroot hinj hleaf hclean hclean' ?_ ?_)
    · rintro rfl
      exact hnull (.inl rfl) rfl
    · rintro rfl
      exact hnull (.inr rfl) hroot
  · rintro vtx vtx' hnil hnil' rfl rfl hclean hclean'
    apply computeMerkleRoot_inj hroot hinj hleaf
    · simpa [computeMerkleRoot, blockMerkleRoot] using hclean
    · simpa [computeMerkleRoot, blockMerkleRoot] using hclean'
    · simpa using hnil
    · simpa using hnil'

/-- The empty list and that of the null hash have one root, and neither is mutated. -/
theorem computeMerkleRoot_nil_unmutated : ∃ (X : Crypto) (a b : List Uint256), a ≠ b ∧
    (computeMerkleRoot X a).1 = (computeMerkleRoot X b).1 ∧
    (hashedPairs X a ∪ hashedPairs X b).InjOn (merklePair X) ∧
    (∀ pair ∈ hashedPairs X a ∪ hashedPairs X b, merklePair X pair ∉ a ++ b) ∧
    (computeMerkleRoot X a).2 = false ∧ (computeMerkleRoot X b).2 = false := by
  have hempty : hashedPairs acceptingCrypto [] ∪ hashedPairs acceptingCrypto [0] = ∅ := by
    rw [hashedPairs_of_length_le (by decide), hashedPairs_of_length_le (by decide),
      Set.union_empty]
  refine ⟨acceptingCrypto, [], [0], by decide, rfl, ?_, ?_, rfl, rfl⟩
  · rw [hempty]
    exact Set.injOn_empty _
  · rw [hempty]
    exact fun _ hpair => absurd hpair (Set.notMem_empty _)

theorem computeMerkleRoot_mutated_three :
    let X := { acceptingCrypto with
      sha256 := fun b => BitVec.ofNat 256 (b.foldl (fun acc x => 257 * acc + x.toNat) 1) }
    (computeMerkleRoot X [1, 2, 3]).2 = false ∧ (computeMerkleRoot X [1, 2, 3, 3]).2 = true := by
  intro X
  have hpairs : ∀ pair ∈ hashedPairs X [1, 2, 3] ∪ hashedPairs X [1, 2, 3, 3],
      pair ∈ [(1, 2), (3, 3), (merklePair X (1, 2), merklePair X (3, 3))] := by
    rintro pair (h | h)
    · exact mem_levelPairs_of_length_le (by decide) h
    · exact mem_levelPairs_of_length_le (by decide) h
  have hnodup : ([(1, 2), (3, 3), (merklePair X (1, 2), merklePair X (3, 3))].map
      (merklePair X)).Nodup := by
    decide +kernel
  have hleaf : [(1, 2), (3, 3), (merklePair X (1, 2), merklePair X (3, 3))].all
      (merklePair X · ∉ [1, 2, 3] ++ [1, 2, 3, 3]) = true := by
    decide +kernel
  have hclean : (computeMerkleRoot X [1, 2, 3]).2 = false := by decide +kernel
  refine ⟨hclean, ?_⟩
  rcases (computeMerkleRoot_mutated (X := X) (a := [1, 2, 3]) (b := [1, 2, 3, 3]) rfl
    (fun p hp q hq => inj_on_of_nodup_map hnodup (hpairs p hp) (hpairs q hq))
    (fun p hp => of_decide_eq_true (all_eq_true.mp hleaf p (hpairs p hp)))).1 (by decide)
    with h | h | ⟨h | h, _⟩
  · cases hclean.symm.trans h
  · exact h
  · cases h
  · cases h

end Vexta
