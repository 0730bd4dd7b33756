import Vexta.Script.MultiSig

/-! Runs of the loop of `EvalScript`: no turn misses a position or fails an assertion. -/
namespace Vexta
open Lib

namespace Raw

theorem Agrees.map {α β γ : Type} {R : α → β → Prop} {S : γ → β → Prop} {x : Except Stop α}
    {y : Except Failure β} {f : α → γ} (h : Agrees R x y) (hf : ∀ a b, R a b → S (f a) b) :
    Agrees S (f <$> x) y := by
  cases h with
  | ok h => exact .ok (hf _ _ h)
  | error serror => exact .error serror
  | scriptNum => exact .scriptNum
  | fault fault => exact .fault fault

section
variable {X : Crypto} {checker : SignatureChecker} {flags : Flags} {sigversion : SigVersion}

theorem evalOp_agrees (fExec : Bool) (pc : CScript) (op : Op) (st : ExecState) :
    Agrees Eq (evalOp X checker flags sigversion fExec pc op st)
      (Vexta.evalOp X checker flags sigversion fExec pc op st) := by
  cases op with
  | checkLockTimeVerify => exact evalCheckLockTimeVerify_agrees checker flags st
  | checkSequenceVerify => exact evalCheckSequenceVerify_agrees checker flags st
  | upgradableNop => exact .ite (fun _ => .error _) fun _ => .ok rfl
  | cond notIf => exact evalCond_agrees flags sigversion notIf fExec st
  | «else» =>
    refine .ite (fun _ => .error _) fun _ => ?_
    exact (call_agrees _).bindEq fun vfExec _ => .ok rfl
  | endIf =>
    refine .ite (fun _ => .error _) fun _ => ?_
    exact (call_agrees _).bindEq fun vfExec _ => .ok rfl
  | verify =>
    unfold evalOp evalVerify Vexta.evalOp
    cases st.stack with
    | nil => exact .error _
    | cons top stack =>
      simp only [need_cons, need_zero, stackTop_one, popStack_cons, ok_bind]
      exact .ite (fun _ => .ok rfl) fun _ => .error _
  | stack op =>
    exact (evalStack_agrees op st.stack st.altstack).bindEq fun result _ => .ok rfl
  | pick roll => exact evalPick_agrees flags roll st
  | equal verify => exact evalEqual_agrees X checker flags sigversion fExec pc verify st
  | unary op => exact evalNumeric1_agrees flags op st
  | binary op => exact evalNumeric2_agrees flags op st
  | within => exact evalWithin_agrees flags st
  | hash op =>
    unfold evalOp evalHash Vexta.evalOp
    cases st.stack with
    | nil => exact .error _
    | cons vch stack => exact .ok rfl
  | checkSig verify => exact evalCheckSig_agrees X checker flags sigversion verify st
  | checkSigAdd => exact evalCheckSigAdd_agrees X checker flags sigversion st
  | checkMultiSig verify =>
    have hagrees := evalCheckMultiSig_agrees X checker flags sigversion verify st
    exact hagrees.map fun result st' hasked => hasked.1
  | number n => exact .ok rfl
  | nop => exact .ok rfl
  | codeSeparator => exact .ok rfl
  | ret => exact .error _
  | pushData => exact .error _
  | disabled => exact .error _
  | default => exact .error _

theorem evalStep_agrees (st : ExecState) (i : GetOp) :
    Agrees Eq (evalStep X checker flags sigversion st i)
      (Vexta.evalStep X checker flags sigversion st i) := by
  unfold evalStep Vexta.evalStep
  cases i.ret with
  | none => exact .error _
  | some read =>
    refine .ite (fun _ => .error _) fun _ => .ite (fun _ => .error _) fun _ => ?_
    refine .ite (fun _ => .error _) fun _ => .ite (fun _ => .error _) fun _ => ?_
    have hinstruction : ∀ st' : ExecState, Agrees Eq
        (evalInstruction X checker flags sigversion st.vfExec.allTrue read.1 read.2 i.pc st')
        (Vexta.evalInstruction X checker flags sigversion st.vfExec.allTrue read.1 read.2 i.pc
          st') := by
      intro st'
      refine .ite (fun _ => ?_) fun _ => ?_
      · exact .ite (fun _ => .error _) fun _ => .ok rfl
      · exact .ite (fun _ => evalOp_agrees _ _ _ _) fun _ => .ok rfl
    refine (hinstruction _).bindEq fun st' _ => ?_
    exact .ite (fun _ => .error _) fun _ => .ok rfl

theorem evalLoop_agrees {fuel : ℕ} {pc : CScript} (hle : pc.length ≤ fuel) (st : ExecState) :
    Agrees Eq (evalLoop X checker flags sigversion fuel pc st)
      (pc.ops.foldlM (Vexta.evalStep X checker flags sigversion) st) := by
  induction fuel generalizing pc st with
  | zero =>
    obtain rfl : pc = [] := List.length_eq_zero_iff.mp (Nat.le_zero.mp hle)
    exact .ok rfl
  | succ fuel ih =>
    cases pc with
    | nil => exact .ok rfl
    | cons opcode pc =>
      have hlt := getScriptOp_pc_lt opcode pc
      have hrest : (getScriptOp (opcode :: pc)).pc.length ≤ fuel := by omega
      rw [evalLoop, CScript.ops_cons]
      cases hret : (getScriptOp (opcode :: pc)).ret with
      | none =>
        -- the turn that cannot read an instruction is the last
        have hfail : evalStep X checker flags sigversion st (getScriptOp (opcode :: pc)) =
            fail .badOpcode := by
          unfold evalStep
          rw [hret]
        have hfail' : Vexta.evalStep X checker flags sigversion st (getScriptOp (opcode :: pc)) =
            setError .badOpcode := by
          unfold Vexta.evalStep
          rw [hret]
        rw [hfail]
        dsimp only
        rw [List.foldlM_cons, hfail']
        exact .error _
      | some read =>
        dsimp only
        rw [List.foldlM_cons]
        exact (evalStep_agrees st _).bindEq fun st' _ => ih hrest st'

theorem evalScript_agrees (stack : List Bytes) (script : CScript)
    (execdata : ScriptExecutionData) :
    Agrees Eq (evalScript X checker flags sigversion stack script execdata)
      (Vexta.evalScript X checker flags sigversion stack script execdata) := by
  unfold evalScript Vexta.evalScript
  refine .ite (fun _ => .fault _) fun _ => .ite (fun _ => .error _) fun _ => ?_
  refine (evalLoop_agrees le_rfl _).bindEq fun st _ => ?_
  exact .ite (fun _ => .error _) fun _ => .ok rfl

end

/-- From `st₀` to `pc` and `st` in `steps` turns that count `cost` operations. -/
inductive Run (X : Crypto) (checker : SignatureChecker) (flags : Flags) (sigversion : SigVersion)
    (script : CScript) (st₀ : ExecState) : CScript → ℕ → ℕ → ExecState → Prop
  | start : Run X checker flags sigversion script st₀ script 0 0 st₀
  | turn {pc : CScript} {steps cost : ℕ} {st st' : ExecState}
      (run : Run X checker flags sigversion script st₀ pc steps cost st) (more : pc ≠ [])
      (step : evalStep X checker flags sigversion st (getScriptOp pc) = .ok st') :
      Run X checker flags sigversion script st₀ (getScriptOp pc).pc (steps + 1)
        (cost + opCost sigversion st (getScriptOp pc)) st'

section
variable {X : Crypto} {checker : SignatureChecker} {flags : Flags} {sigversion : SigVersion}
  {script pc : CScript} {st₀ st : ExecState} {steps cost : ℕ}

theorem Agrees.eq_ok {α : Type} {x : Except Stop α} {y : Except Failure α} {a : α}
    (h : Agrees Eq x y) (hx : x = .ok a) : y = .ok a := by
  cases h with
  | ok h => rw [← h, Except.ok.inj hx]
  | error => cases hx
  | scriptNum => cases hx
  | fault => cases hx

theorem Agrees.stop_eq {α β : Type} {R : α → β → Prop} {Q : β → Prop} {x : Except Stop α}
    {y : Except Failure β} {stop : Stop} (h : Agrees R x y) (hy : Returns Q y)
    (hx : x = .error stop) : (∃ serror, stop = .error serror) ∨ stop = .thrown .scriptNum := by
  cases h with
  | ok => cases hx
  | error serror => exact .inl ⟨serror, (Except.error.inj hx).symm⟩
  | scriptNum => exact .inr (Except.error.inj hx).symm
  | fault fault => exact absurd (Sat.error_iff.mp hy) not_false

theorem Run.bounded {P : ScriptExecutionData → Prop} (hc : checker.Serves sigversion P)
    (hversion : sigversion.RunsScripts)
    (h : Run X checker flags sigversion script st₀ pc steps cost st) (hinit : P st₀.execdata)
    (hst : st₀.Bounded 0) : st.Bounded cost ∧ P st.execdata := by
  induction h with
  | start => exact ⟨hst, hinit⟩
  | turn run more step ih =>
    have hnext := (evalStep_returns hc hversion ih.2 _).value _ ((evalStep_agrees _ _).eq_ok step)
    exact ⟨hnext.1 _ ih.1, hnext.2⟩

theorem Run.steps_le (h : Run X checker flags sigversion script st₀ pc steps cost st) :
    steps + pc.length ≤ script.length := by
  induction h with
  | start => exact Nat.le_of_eq (Nat.zero_add _)
  | @turn pc steps cost st st' run more step ih =>
    cases pc with
    | nil => exact absurd rfl more
    | cons opcode pc =>
      have hlt := getScriptOp_pc_lt opcode pc
      omega

theorem evalLoop_run {fuel : ℕ} {st' : ExecState}
    (h : Run X checker flags sigversion script st₀ pc steps cost st)
    (hloop : evalLoop X checker flags sigversion fuel pc st = .ok st') :
    ∃ steps' cost', Run X checker flags sigversion script st₀ [] steps' cost' st' := by
  induction fuel generalizing pc steps cost st with
  | zero =>
    cases pc with
    | nil =>
      obtain rfl := Except.ok.inj hloop
      exact ⟨steps, cost, h⟩
    | cons opcode pc => cases hloop
  | succ fuel ih =>
    cases pc with
    | nil =>
      obtain rfl := Except.ok.inj hloop
      exact ⟨steps, cost, h⟩
    | cons opcode pc =>
      obtain ⟨st₁, hstep, hrest⟩ := bind_eq_ok.mp hloop
      exact ih (h.turn (List.cons_ne_nil _ _) hstep) hrest

/-- `EvalScript` is left with a value, a script error or the exception of a script number; its
states are within the limits, with at most a turn for each byte. -/
theorem evalScript_within_limits (X : Crypto) (flags : Flags) (stack : List Bytes)
    (script : CScript) (execdata : ScriptExecutionData) {P : ScriptExecutionData → Prop}
    (hc : checker.Serves sigversion P) (hversion : sigversion.RunsScripts)
    (hinit : P (ExecState.init stack script execdata).execdata)
    (hsize : stack.length ≤ maxStackSize)
    (helements : ∀ vch ∈ stack, vch.length ≤ maxScriptElementSize) :
    (∀ stop, evalScript X checker flags sigversion stack script execdata = .error stop →
      (∃ serror, stop = .error serror) ∨ stop = .thrown .scriptNum) ∧
    (∀ stack', evalScript X checker flags sigversion stack script execdata = .ok stack' →
      ∃ steps cost st, st.stack = stack' ∧ Run X checker flags sigversion script
        (.init stack script execdata) [] steps cost st) ∧
    ∀ pc steps cost st, Run X checker flags sigversion script (.init stack script execdata) pc
      steps cost st → st.Bounded cost ∧ steps + pc.length ≤ script.length := by
  refine ⟨fun stop hstop => ?_, fun stack' hok => ?_, fun pc steps cost st hrun => ?_⟩
  · exact (evalScript_agrees stack script execdata).stop_eq
      (evalScript_serves hc hversion hinit) hstop
  · unfold evalScript at hok
    split_ifs at hok
    obtain ⟨st, hloop, hrest⟩ := bind_eq_ok.mp hok
    split_ifs at hrest
    obtain ⟨steps, cost, hrun⟩ := evalLoop_run .start hloop
    exact ⟨steps, cost, st, Except.ok.inj hrest, hrun⟩
  · have hbounded := ExecState.init_bounded hsize helements script execdata
    exact ⟨(hrun.bounded hc hversion hinit hbounded).1, hrun.steps_le⟩

end

theorem SampleMultiSig.serves :
    SampleMultiSig.checker.Serves .tapscript (·.validationWeightLeft.isSome = true) where
  ecdsa _ _ _ := Sat.ok_iff.mpr trivial
  schnorr _ _ _ _ _ _ := Sat.ok_iff.mpr trivial
  lockTime _ := Sat.ok_iff.mpr trivial
  sequence _ := Sat.ok_iff.mpr trivial
  weight _ _ h := h
  charged _ _ _ := rfl
  separated _ _ h := h

/-- The script `OP_1 OP_DUP` of a tapscript with a weight of fifty units. -/
theorem evalScript_within_limits_dup :
    (∀ stop, evalScript acceptingCrypto SampleMultiSig.checker SampleMultiSig.flags .tapscript
        [[5]] [0x51, 0x76] { ScriptExecutionData.empty with validationWeightLeft := some 50 } =
          .error stop →
      (∃ serror, stop = .error serror) ∨ stop = .thrown .scriptNum) ∧
    ∃ steps cost st, st.stack = [[1], [1], [5]] ∧ st.Bounded cost ∧ steps ≤ 2 ∧
      Run acceptingCrypto SampleMultiSig.checker SampleMultiSig.flags .tapscript [0x51, 0x76]
        (.init [[5]] [0x51, 0x76]
          { ScriptExecutionData.empty with validationWeightLeft := some 50 }) [] steps cost st := by
  obtain ⟨hstop, hok, hrun⟩ := evalScript_within_limits acceptingCrypto
    SampleMultiSig.flags [[5]] [0x51, 0x76]
    { ScriptExecutionData.empty with validationWeightLeft := some 50 } SampleMultiSig.serves
    (.inr (.inr rfl)) rfl (by decide) (by decide)
  obtain ⟨steps, cost, st, hst, hend⟩ := hok [[1], [1], [5]] (by decide +kernel)
  obtain ⟨hbounded, hsteps⟩ := hrun [] steps cost st hend
  exact ⟨hstop, steps, cost, st, hst, hbounded, hsteps, hend⟩

end Raw
end Vexta
