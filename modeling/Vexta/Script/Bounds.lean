import Mathlib.Tactic.IntervalCases
import Vexta.Script.SigHash

/-! What an instruction may leave on the stacks. -/
namespace Vexta
open Lib List

theorem length_magnitudeBytes_le (fuel absvalue : ℕ) :
    (magnitudeBytes fuel absvalue).length ≤ fuel := by
  induction fuel generalizing absvalue with
  | zero => exact le_rfl
  | succ fuel ih =>
    unfold magnitudeBytes
    split_ifs
    · exact Nat.zero_le _
    · exact Nat.succ_le_succ (ih _)

theorem length_scriptNumSerialize_le (value : ℤ) : (scriptNumSerialize value).length ≤ 9 := by
  have hle := length_magnitudeBytes_le 8 value.natAbs
  unfold scriptNumSerialize
  dsimp only
  split
  · exact Nat.zero_le _
  split
  · exact Nat.zero_le _
  split
  · rw [length_append, length_singleton]
    omega
  split
  · rw [length_append, length_dropLast, length_singleton]
    omega
  · omega

theorem length_evalHash_le (X : Crypto) (op : HashOp) (vch : Bytes) :
    (evalHash X op vch).length ≤ 32 := by
  cases op <;> simp [evalHash, Crypto.sha256Bytes]

theorem length_vchBool_le (b : Bool) : (vchBool b).length ≤ 1 := by
  cases b <;> decide

def FromOrShort (l m : List Bytes) : Prop := ∀ vch ∈ l, vch ∈ m ∨ vch.length ≤ 32

variable {l m : List Bytes}

theorem FromOrShort.of_subset (h : l ⊆ m) : FromOrShort l m :=
  fun _ hvch => .inl (h hvch)

theorem FromOrShort.below (above : List Bytes) : FromOrShort l (above ++ l) :=
  .of_subset (subset_append_right above l)

theorem FromOrShort.push {vch : Bytes} (hvch : vch.length ≤ 32) (h : FromOrShort l m) :
    FromOrShort (vch :: l) m := by
  intro v hv
  rcases mem_cons.mp hv with rfl | hv
  · exact .inr hvch
  · exact h v hv

def Op.keys (op : Op) (stack : List Bytes) : ℕ :=
  match op, stack with
  | .checkMultiSig _, top :: _ => (getInt (setVch top)).toNat
  | _, _ => 0

structure ExecState.Kept (op : Op) (st st' : ExecState) : Prop where
  stack : FromOrShort st'.stack (st.stack ++ st.altstack)
  altstack : FromOrShort st'.altstack (st.stack ++ st.altstack)
  nOpCount : st'.nOpCount = st.nOpCount + op.keys st.stack
  limit : st.nOpCount ≤ maxOpsPerScript → st'.nOpCount ≤ maxOpsPerScript

section
variable {op : Op} {st : ExecState}

variable {stack : List Bytes} {execdata : ScriptExecutionData} {vfExec : ConditionStack}
  {codehash : CScript}

theorem ExecState.Kept.of_stack (hop : op.keys st.stack = 0) (h : FromOrShort stack st.stack) :
    st.Kept op { st with stack, execdata, vfExec, codehash } where
  stack := fun vch hvch => (h vch hvch).imp_left fun hold => mem_append_left _ hold
  altstack := .of_subset (subset_append_right _ _)
  nOpCount := by
    rw [hop]
    rfl
  limit := id

theorem ExecState.Kept.same (hop : op.keys st.stack = 0) :
    st.Kept op { st with execdata, vfExec, codehash } :=
  .of_stack hop (.of_subset (.refl _))

theorem evalStack_fromOrShort {op : StackOp} {altstack : List Bytes}
    {result : List Bytes × List Bytes} (h : evalStack op stack altstack = .ok result) :
    FromOrShort (result.1 ++ result.2) (stack ++ altstack) := by
  have hnum : ∀ value, (scriptNumSerialize value).length ≤ 32 := fun value =>
    (length_scriptNumSerialize_le value).trans (by decide)
  unfold evalStack at h
  intro vch hvch
  split at h <;> simp only [setError, reduceCtorEq, Except.ok.injEq] at h <;> subst h <;> grind

/-- One above `OP_16`, and the keys of `OP_CHECKMULTISIG`. -/
def opCost (sigversion : SigVersion) (st : ExecState) (i : GetOp) : ℕ :=
  match i.ret with
  | none => 0
  | some (opcode, _) =>
    (if (sigversion = .base ∨ sigversion = .witnessV0) ∧ op16 < opcode then 1 else 0) +
      if st.vfExec.allTrue then (Op.ofByte opcode).keys st.stack else 0

structure ExecState.Bounded (st : ExecState) (cost : ℕ) : Prop where
  size : st.stack.length + st.altstack.length ≤ maxStackSize
  elements : ∀ vch ∈ st.stack ++ st.altstack, vch.length ≤ maxScriptElementSize
  nOpCount : st.nOpCount = cost
  limit : cost ≤ maxOpsPerScript

theorem keys_conditional {opcode : UInt8} (h : 0x63 ≤ opcode ∧ opcode ≤ 0x68)
    (stack : List Bytes) : (Op.ofByte opcode).keys stack = 0 := by
  have hlo : 0x63 ≤ opcode.toNat := UInt8.le_iff_toNat_le.mp h.1
  have hhi : opcode.toNat ≤ 0x68 := UInt8.le_iff_toNat_le.mp h.2
  rw [← UInt8.ofNat_toNat (x := opcode)]
  interval_cases opcode.toNat <;> rfl

theorem ExecState.init_bounded (hsize : stack.length ≤ maxStackSize)
    (helements : ∀ vch ∈ stack, vch.length ≤ maxScriptElementSize) (script : CScript)
    (execdata : ScriptExecutionData) : (ExecState.init stack script execdata).Bounded 0 where
  size := hsize
  elements vch hvch := helements vch (by simpa [ExecState.init] using hvch)
  nOpCount := rfl
  limit := Nat.zero_le _

end
end Vexta
