import Vexta.Script.Interpreter

/-! The condition stack answers as the booleans it stands for. -/
namespace Vexta
open List

inductive ConditionOp where
  | pushBack (f : Bool)
  | popBack
  | toggleTop

namespace ConditionStack

def apply (s : ConditionStack) : ConditionOp → Except Failure ConditionStack
  | .pushBack f => .ok (s.pushBack f)
  | .popBack => s.popBack
  | .toggleTop => s.toggleTop

/-- The booleans themselves, the last one pushed first, up to `limit`. -/
def onVector (limit : ℕ) : List Bool → ConditionOp → Option (List Bool)
  | v, .pushBack f => if v.length < limit then some (f :: v) else none
  | _ :: v, .popBack => some v
  | f :: v, .toggleTop => some ((!f) :: v)
  | [], _ => none

theorem ne_noFalse {pos : ℕ} (h : pos + 1 < 2 ^ 32) : pos ≠ noFalse := by
  unfold noFalse
  omega

section
variable {s : ConditionStack} {f : Bool} (h : s.stackSize + 1 < 2 ^ 32 ∧
  (s.firstFalsePos = noFalse ∨ s.firstFalsePos < s.stackSize))
include h

theorem popBack_pushBack : (s.pushBack f).popBack = .ok s := by
  obtain ⟨size, pos⟩ := s
  obtain ⟨hsize, rfl | hlt⟩ := h <;> dsimp only at hsize
  all_goals simp only [pushBack, popBack, Nat.mod_eq_of_lt hsize, Nat.add_sub_cancel]
  · cases f <;> simp [(ne_noFalse hsize).symm]
  · dsimp only at hlt
    have hne : pos ≠ noFalse := ne_noFalse (by omega)
    simp [hne, hlt.ne]

theorem toggleTop_pushBack : (s.pushBack f).toggleTop = .ok (s.pushBack !f) := by
  obtain ⟨size, pos⟩ := s
  obtain ⟨hsize, rfl | hlt⟩ := h <;> dsimp only at hsize
  all_goals simp only [pushBack, toggleTop, Nat.mod_eq_of_lt hsize, Nat.add_sub_cancel]
  · cases f <;> simp [ne_noFalse hsize]
  · dsimp only at hlt
    have hne : pos ≠ noFalse := ne_noFalse (by omega)
    simp [hne, hlt.ne]

end

/-- The stack that the booleans make when they are pushed in turn. -/
def ofVector (v : List Bool) : ConditionStack := v.foldr (fun f s => s.pushBack f) init

variable {v : List Bool}

theorem stackSize_ofVector (h : v.length < 2 ^ 32) : (ofVector v).stackSize = v.length := by
  induction v with
  | nil => rfl
  | cons f v ih =>
    rw [length_cons] at h
    change ((ofVector v).stackSize + 1) % 2 ^ 32 = v.length + 1
    rw [ih (by omega), Nat.mod_eq_of_lt h]

theorem firstFalsePos_ofVector (h : v.length < 2 ^ 32) :
    (ofVector v).firstFalsePos = noFalse ∧ v.all id = true ∨
      (ofVector v).firstFalsePos < v.length ∧ v.all id = false := by
  induction v with
  | nil => exact .inl ⟨rfl, rfl⟩
  | cons f v ih =>
    rw [length_cons] at h
    have hpos : (ofVector (f :: v)).firstFalsePos = if (ofVector v).firstFalsePos = noFalse ∧ ¬ f
      then (ofVector v).stackSize else (ofVector v).firstFalsePos := rfl
    rw [hpos, stackSize_ofVector (by omega), all_cons, length_cons]
    rcases ih (by omega) with ⟨hnone, hall⟩ | ⟨hlt, hall⟩
    · cases f <;> simp [hnone, hall]
    · rw [if_neg fun hc => ne_noFalse (by omega) hc.1, hall, Bool.and_false]
      exact .inr ⟨by omega, rfl⟩

theorem allTrue_ofVector (h : v.length < 2 ^ 32) : (ofVector v).allTrue = v.all id := by
  unfold allTrue
  rcases firstFalsePos_ofVector h with ⟨hnone, hall⟩ | ⟨hlt, hall⟩
  · simp [hnone, hall]
  · rw [hall, beq_eq_false_iff_ne]
    exact ne_noFalse (by omega)

theorem pos_ofVector {f : Bool} (h : (f :: v).length < 2 ^ 32) :
    (ofVector v).stackSize + 1 < 2 ^ 32 ∧ ((ofVector v).firstFalsePos = noFalse ∨
      (ofVector v).firstFalsePos < (ofVector v).stackSize) := by
  rw [length_cons] at h
  rw [stackSize_ofVector (by omega)]
  exact ⟨h, (firstFalsePos_ofVector (by omega)).imp And.left And.left⟩

theorem apply_ofVector {v' : List Bool} {op : ConditionOp} (h : v.length < 2 ^ 32)
    (hop : onVector (2 ^ 32 - 1) v op = some v') :
    (ofVector v).apply op = .ok (ofVector v') ∧ v'.length < 2 ^ 32 := by
  cases op with
  | pushBack g =>
    obtain ⟨hlt, heq⟩ := Option.ite_none_right_eq_some.mp hop
    cases heq
    exact ⟨rfl, by rw [length_cons]; omega⟩
  | popBack =>
    cases v with
    | nil => cases hop
    | cons f v =>
      cases hop
      exact ⟨popBack_pushBack (pos_ofVector h), (Nat.lt_succ_self _).trans h⟩
  | toggleTop =>
    cases v with
    | nil => cases hop
    | cons f v =>
      cases hop
      exact ⟨toggleTop_pushBack (pos_ofVector h), h⟩

theorem foldlM_ofVector {ops : List ConditionOp}
    (hrun : ops.foldlM (onVector (2 ^ 32 - 1)) [] = some v) :
    ops.foldlM apply init = .ok (ofVector v) ∧ v.length < 2 ^ 32 := by
  induction ops using List.reverseRecOn generalizing v with
  | nil =>
    cases hrun
    exact ⟨rfl, by decide⟩
  | append_singleton ops op ih =>
    simp only [foldlM_append, foldlM_cons, foldlM_nil, bind_pure] at hrun ⊢
    obtain ⟨w, hw, hop⟩ := Option.bind_eq_some_iff.mp hrun
    obtain ⟨hbefore, hlt⟩ := ih hw
    rw [hbefore]
    exact apply_ofVector hlt hop

theorem foldlM_pushBack {n limit : ℕ} (h : n ≤ limit) :
    (replicate n (.pushBack true)).foldlM (onVector limit) [] = some (replicate n true) := by
  induction n with
  | zero => rfl
  | succ n ih =>
    have hroom : (replicate n true).length < limit := by
      rw [length_replicate]
      exact h
    rw [replicate_succ', foldlM_append, ih (by omega), Option.bind_eq_bind, Option.bind_some,
      foldlM_cons, onVector, if_pos hroom]
    rfl

end ConditionStack
open ConditionStack

/-- Below the largest value of its counter the stack answers as the booleans do. -/
theorem conditionStack_refines (ops : List ConditionOp) (v : List Bool)
    (hrun : ops.foldlM (onVector (2 ^ 32 - 1)) [] = some v) :
    ∃ s, ops.foldlM apply init = .ok s ∧ s.empty = v.isEmpty ∧ s.allTrue = v.all id := by
  obtain ⟨hstack, hlt⟩ := foldlM_ofVector hrun
  refine ⟨ofVector v, hstack, ?_, allTrue_ofVector hlt⟩
  unfold ConditionStack.empty
  rw [stackSize_ofVector hlt]
  cases v <;> rfl

theorem conditionStack_refines_else :
    ∃ s, [ConditionOp.pushBack true, .pushBack false, .toggleTop, .popBack].foldlM apply init =
      .ok s ∧ s.empty = false ∧ s.allTrue = true :=
  conditionStack_refines _ [true] rfl

/-- A false above as many entries as the counter tells apart is lost. -/
theorem conditionStack_overflows :
    ∃ (ops : List ConditionOp) (v : List Bool) (s : ConditionStack),
      ops.foldlM (onVector (2 ^ 32)) [] = some v ∧ ops.foldlM apply init = .ok s ∧
      v.all id = false ∧ s.allTrue = true := by
  obtain ⟨n, hn⟩ : ∃ n, n = 2 ^ 32 - 1 := ⟨_, rfl⟩
  have hpushed : (replicate n (.pushBack true)).foldlM (onVector (2 ^ 32)) [] = _ :=
    foldlM_pushBack (by omega)
  obtain ⟨hstack, hlt⟩ := foldlM_ofVector (foldlM_pushBack hn.le)
  have htrue := allTrue_ofVector hlt
  rw [all_replicate, id_eq, ite_self] at htrue
  refine ⟨replicate n (.pushBack true) ++ [.pushBack false], false :: replicate n true,
    (ofVector (replicate n true)).pushBack false, ?_, ?_, rfl, ?_⟩
  · rw [foldlM_append, hpushed, Option.bind_eq_bind, Option.bind_some, foldlM_cons, onVector,
      if_pos hlt]
    rfl
  · rw [foldlM_append, hstack]
    rfl
  · have hsize := stackSize_ofVector hlt
    rw [length_replicate] at hsize
    unfold pushBack allTrue
    rw [if_pos ⟨beq_iff_eq.mp htrue, Bool.false_ne_true⟩, hsize, hn]
    rfl

end Vexta
