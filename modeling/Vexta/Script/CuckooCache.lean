import Vexta.Basic
import Mathlib.Data.List.Basic

/-! `CuckooCache::cache`: a table of a fixed number of slots, eight of which may hold an element. -/
namespace Vexta

structure CuckooCache (α : Type) where
  table : List α
  size : ℕ
  collectionFlags : List Bool
  epochFlags : List Bool
  epochHeuristicCounter : ℕ
  epochSize : ℕ
  depthLimit : ℕ
  deriving DecidableEq, Repr

namespace CuckooCache
section
variable {α : Type} [DecidableEq α] (hashFunction : ℕ → α → BitVec 32) (c : CuckooCache α)

def computeHashes (e : α) : List ℕ :=
  (List.range 8).map fun k => (hashFunction k e).toNat * c.size / 2 ^ 32

def invalid : ℕ := 2 ^ 32 - 1

def allowErase (n : ℕ) : CuckooCache α :=
  { c with collectionFlags := c.collectionFlags.set n true }

def pleaseKeep (n : ℕ) : CuckooCache α :=
  { c with collectionFlags := c.collectionFlags.set n false }

def bitIsSet (n : ℕ) : Bool := c.collectionFlags.getD n false

def epochCheck : CuckooCache α :=
  if c.epochHeuristicCounter ≠ 0 then
    { c with epochHeuristicCounter := c.epochHeuristicCounter - 1 }
  else
    let epochUnusedCount := (List.range c.size).countP fun i =>
      c.epochFlags.getD i false && !c.bitIsSet i
    if epochUnusedCount ≥ c.epochSize then
      { c with
        -- the old epoch may be erased, the current one becomes the old one
        collectionFlags := c.collectionFlags.zipWith (fun flag epoch => !epoch || flag) c.epochFlags
        epochFlags := c.epochFlags.map fun _ => false
        epochHeuristicCounter := c.epochSize }
    else
      { c with
        epochHeuristicCounter := max 1 (max (c.epochSize / 16) (c.epochSize - epochUnusedCount)) }

/-- `setup`. The depth limit, rounded from a `float`, is given. -/
def setup (default : α) (newSize depthLimit : ℕ) : CuckooCache α :=
  let size := max 2 newSize
  let epochSize := max 1 (45 * size % 2 ^ 32 / 100)
  { table := List.replicate size default
    size
    collectionFlags := List.replicate size true
    epochFlags := List.replicate size false
    epochHeuristicCounter := epochSize
    epochSize
    depthLimit }

def place (loc : ℕ) (e : α) (epoch : Bool) : CuckooCache α :=
  let c := { c with table := c.table.set loc e }
  let c := c.pleaseKeep loc
  { c with epochFlags := c.epochFlags.set loc epoch }

/-- The loop of `insert`: a free slot, or that of another, which moves on. -/
def insertLoop : ℕ → ℕ → Bool → α → CuckooCache α → CuckooCache α
  | 0, _, _, _, c => c
  | depth + 1, lastLoc, lastEpoch, e, c =>
    let locs := c.computeHashes hashFunction e
    match locs.find? c.bitIsSet with
    | some loc => c.place loc e lastEpoch
    | none =>
      let lastLoc := locs.getD ((1 + locs.idxOf lastLoc) % 8) 0
      match c.table[lastLoc]? with
      | none => c
      | some evicted =>
        insertLoop depth lastLoc (c.epochFlags.getD lastLoc false) evicted
          { c with
            table := c.table.set lastLoc e
            epochFlags := c.epochFlags.set lastLoc lastEpoch }

def slotOf (e : α) : Option ℕ :=
  (c.computeHashes hashFunction e).find? fun loc => c.table[loc]? == some e

def insert (e : α) : CuckooCache α :=
  let c := c.epochCheck
  match c.slotOf hashFunction e with
  | some loc =>
    let c := c.pleaseKeep loc
    { c with epochFlags := c.epochFlags.set loc true }
  | none => insertLoop hashFunction c.depthLimit invalid true e c

def contains (e : α) (erase : Bool) : Bool × CuckooCache α :=
  match c.slotOf hashFunction e with
  | some loc => (true, if erase then c.allowErase loc else c)
  | none => (false, c)

end

section
variable {α : Type} [DecidableEq α] {hashFunction : ℕ → α → BitVec 32} {c : CuckooCache α}
  {e x : α}

theorem mem_table_of_slotOf {loc : ℕ} (h : c.slotOf hashFunction e = some loc) : e ∈ c.table := by
  have hfound := List.find?_some h
  rw [beq_iff_eq] at hfound
  exact List.mem_of_getElem? hfound

theorem mem_table_of_contains {erase : Bool} (h : (c.contains hashFunction e erase).1 = true) :
    e ∈ c.table := by
  unfold contains at h
  split at h
  · rename_i loc hloc
    exact mem_table_of_slotOf hloc
  · cases h

@[simp] theorem table_contains (erase : Bool) :
    (c.contains hashFunction e erase).2.table = c.table := by
  unfold contains
  split
  · split_ifs <;> rfl
  · rfl

omit [DecidableEq α] in
@[simp] theorem table_epochCheck : c.epochCheck.table = c.table := by
  unfold epochCheck
  dsimp only
  split_ifs <;> rfl

omit [DecidableEq α] in
theorem mem_insertLoop {depth lastLoc : ℕ} {lastEpoch : Bool}
    (h : x ∈ (insertLoop hashFunction depth lastLoc lastEpoch e c).table) :
    x ∈ c.table ∨ x = e := by
  induction depth generalizing lastLoc lastEpoch e c with
  | zero => exact .inl h
  | succ depth ih =>
    unfold insertLoop at h
    dsimp only at h
    split at h
    · exact List.mem_or_eq_of_mem_set h
    · split at h
      · exact .inl h
      · rename_i evicted hevicted
        -- the evicted element was in the table before
        rcases ih h with hset | rfl
        · exact List.mem_or_eq_of_mem_set hset
        · exact .inl (List.mem_of_getElem? hevicted)

theorem mem_insert (h : x ∈ (c.insert hashFunction e).table) : x ∈ c.table ∨ x = e := by
  unfold insert at h
  dsimp only at h
  split at h
  · left
    simpa [pleaseKeep] using h
  · have hmem := mem_insertLoop h
    rwa [table_epochCheck] at hmem

end
end CuckooCache
end Vexta
