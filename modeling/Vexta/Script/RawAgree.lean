import Vexta.Script.NoFault
import Vexta.Script.Raw

/-! The loop on vectors does what the interpreter on lists does. -/
namespace Vexta
open Lib

namespace Raw

/-- Related values or equal failures; script numbers throw unknown errors. -/
inductive Agrees {α β : Type} (R : α → β → Prop) : Except Stop α → Except Failure β → Prop
  | ok {a : α} {b : β} (h : R a b) : Agrees R (.ok a) (.ok b)
  | error (serror : ScriptError) : Agrees R (.error (.error serror)) (.error (.script serror))
  | scriptNum : Agrees R (.error (.thrown .scriptNum)) (.error (.script .unknownError))
  | fault (fault : Fault) : Agrees R (.error (.fault fault)) (.error (.fault fault))

namespace Agrees
variable {α β γ δ : Type} {R : α → β → Prop} {S : γ → δ → Prop} {x : Except Stop α}
  {y : Except Failure β}

theorem bind {f : α → Except Stop γ} {g : β → Except Failure δ} (h : Agrees R x y)
    (hf : ∀ a b, y = .ok b → R a b → Agrees S (f a) (g b)) : Agrees S (x >>= f) (y >>= g) := by
  cases h with
  | ok h => exact hf _ _ rfl h
  | error serror => exact .error serror
  | scriptNum => exact .scriptNum
  | fault fault => exact .fault fault

theorem bindEq {y : Except Failure α} {f : α → Except Stop γ} {g : α → Except Failure δ}
    (h : Agrees Eq x y) (hf : ∀ a, y = .ok a → Agrees S (f a) (g a)) :
    Agrees S (x >>= f) (y >>= g) := by
  refine h.bind fun a b hb hab => ?_
  rw [hab]
  exact hf b hb

theorem ite {c : Prop} [Decidable c] {x' : Except Stop α} {y' : Except Failure β}
    (hx : c → Agrees R x y) (hy : ¬ c → Agrees R x' y') :
    Agrees R (if c then x else x') (if c then y else y') := by
  by_cases hc : c
  · rw [if_pos hc, if_pos hc]
    exact hx hc
  · rw [if_neg hc, if_neg hc]
    exact hy hc

theorem mono {R' : α → β → Prop} (h : Agrees R x y) (hR : ∀ a b, R a b → R' a b) :
    Agrees R' x y := by
  cases h with
  | ok h => exact .ok (hR _ _ h)
  | error serror => exact .error serror
  | scriptNum => exact .scriptNum
  | fault fault => exact .fault fault

end Agrees

theorem call_agrees {α : Type} (y : Except Failure α) : Agrees Eq (call y) y := by
  cases y with
  | ok a => exact .ok rfl
  | error failure =>
    cases failure with
    | script serror => exact .error serror
    | fault fault => exact .fault fault

theorem readNum_agrees (vch : Bytes) (fRequireMinimal : Bool) (nMaxNumSize : ℕ) :
    Agrees Eq (readNum vch fRequireMinimal nMaxNumSize)
      (Vexta.readNum vch fRequireMinimal nMaxNumSize) := by
  unfold readNum Vexta.readNum
  apply Agrees.ite
  · exact fun _ => .scriptNum
  · exact fun _ => .ite (fun _ => .scriptNum) fun _ => .ok rfl

section Vectors
variable {α : Type} {vch : Bytes} {stack : List Bytes} {x : Except Stop α} {n i : ℕ}

@[simp] theorem need_zero : need 0 stack x = x := if_neg (Nat.not_lt_zero _)

@[simp] theorem need_nil : need (n + 1) [] x = fail .invalidStackOperation := if_pos (Nat.succ_pos n)

@[simp] theorem need_cons : need (n + 1) (vch :: stack) x = need n stack x := by
  unfold need
  simp only [List.length_cons, Nat.add_lt_add_iff_right]

@[simp] theorem stackTop_one : stackTop (vch :: stack) 1 = .ok vch := rfl

@[simp] theorem stackTop_cons : stackTop (vch :: stack) (i + 2) = stackTop stack (i + 1) := rfl

@[simp] theorem popStack_cons : popStack (vch :: stack) = .ok stack := rfl

theorem stackTop_of_drop {rest : List Bytes} (h : stack.drop i = vch :: rest) :
    stackTop stack (i + 1) = .ok vch := by
  have hget : stack[i]? = some vch := by
    rw [← List.head?_drop, h]
    rfl
  unfold stackTop
  dsimp only
  rw [hget]

end Vectors

theorem castToBool_vchBool (b : Bool) : castToBool (vchBool b) = b := by cases b <;> rfl

theorem pushResult_agrees (stack : List Bytes) (b verify : Bool) (serror : ScriptError) :
    Agrees Eq (pushResult stack (vchBool b) b verify serror)
      (Vexta.pushResult stack (vchBool b) verify serror) := by
  unfold pushResult Vexta.pushResult
  rw [castToBool_vchBool]
  apply Agrees.ite
  · exact fun _ => Agrees.ite (fun _ => .ok rfl) fun _ => .error _
  · exact fun _ => .ok rfl

theorem evalStack_agrees (op : StackOp) (stack altstack : List Bytes) :
    Agrees Eq (evalStack op stack altstack) (Vexta.evalStack op stack altstack) := by
  -- no case looks deeper than six elements, so seven shapes of the stack decide them all
  rcases stack with _ | ⟨x1, _ | ⟨x2, _ | ⟨x3, _ | ⟨x4, _ | ⟨x5, _ | ⟨x6, stack⟩⟩⟩⟩⟩⟩ <;>
    rcases altstack with _ | ⟨y, altstack⟩ <;> cases op <;>
    first | exact .ok rfl | exact .error _

section Eval
variable (X : Crypto) (checker : SignatureChecker) (flags : Flags) (sigversion : SigVersion)

variable (st : ExecState)

theorem evalCheckLockTimeVerify_agrees :
    Agrees Eq (evalCheckLockTimeVerify checker flags st)
      (Vexta.evalCheckLockTimeVerify checker flags st) := by
  unfold evalCheckLockTimeVerify Vexta.evalCheckLockTimeVerify
  apply Agrees.ite
  · exact fun _ => .ok rfl
  intro _
  cases st.stack with
  | nil => exact .error _
  | cons top stack =>
    simp only [need_cons, need_zero, stackTop_one, ok_bind]
    refine (readNum_agrees _ _ _).bindEq fun nLockTime _ => ?_
    refine .ite (fun _ => .error _) fun _ => ?_
    refine (call_agrees _).bindEq fun satisfied _ => ?_
    exact .ite (fun _ => .ok rfl) fun _ => .error _

theorem evalCheckSequenceVerify_agrees :
    Agrees Eq (evalCheckSequenceVerify checker flags st)
      (Vexta.evalCheckSequenceVerify checker flags st) := by
  unfold evalCheckSequenceVerify Vexta.evalCheckSequenceVerify
  apply Agrees.ite
  · exact fun _ => .ok rfl
  intro _
  cases st.stack with
  | nil => exact .error _
  | cons top stack =>
    simp only [need_cons, need_zero, stackTop_one, ok_bind]
    refine (readNum_agrees _ _ _).bindEq fun nSequence _ => ?_
    refine .ite (fun _ => .error _) fun _ => .ite (fun _ => .ok rfl) fun _ => ?_
    refine (call_agrees _).bindEq fun satisfied _ => ?_
    exact .ite (fun _ => .ok rfl) fun _ => .error _

theorem evalCond_agrees (notIf fExec : Bool) (st : ExecState) :
    Agrees Eq (evalCond flags sigversion notIf fExec st)
      (Vexta.evalCond flags sigversion notIf fExec st) := by
  unfold evalCond Vexta.evalCond
  apply Agrees.ite
  · intro _
    cases st.stack with
    | nil => exact .error _
    | cons vch stack =>
      rw [if_neg (by simp)]
      simp only [stackTop_one, popStack_cons, ok_bind]
      refine .ite (fun _ => .error _) fun _ => ?_
      exact .ite (fun _ => .error _) fun _ => .ok rfl
  · exact fun _ => .ok rfl

theorem evalPick_agrees (roll : Bool) (st : ExecState) :
    Agrees Eq (evalPick flags roll st) (Vexta.evalPick flags roll st) := by
  unfold evalPick Vexta.evalPick
  rcases st.stack with _ | ⟨top, _ | ⟨x, stack⟩⟩
  · exact .error _
  · exact .error _
  simp only [need_cons, need_zero, stackTop_one, popStack_cons, ok_bind]
  refine (readNum_agrees _ _ _).bindEq fun n _ => ?_
  refine .ite (fun _ => .error _) fun hn => ?_
  -- the guard has the position inside the vector
  have hlt : (getInt n).toNat < (x :: stack).length := by omega
  have hdrop := List.drop_eq_getElem_cons hlt
  rw [stackTop_of_drop hdrop, List.getElem?_eq_getElem hlt]
  cases roll with
  | false => exact .ok rfl
  | true =>
    have herase : erase (x :: stack) ((getInt n).toNat + 1) (getInt n).toNat =
        .ok ((x :: stack).eraseIdx (getInt n).toNat) := by
      unfold erase
      rw [if_neg (by omega), List.eraseIdx_eq_take_drop_succ]
    simp only [if_true, herase, ok_bind]
    exact .ok rfl

theorem evalEqual_agrees (fExec : Bool) (pc : CScript) (verify : Bool) (st : ExecState) :
    Agrees Eq (evalEqual verify st)
      (Vexta.evalOp X checker flags sigversion fExec pc (.equal verify) st) := by
  unfold evalEqual Vexta.evalOp
  rcases st.stack with _ | ⟨x2, _ | ⟨x1, stack⟩⟩
  · exact .error _
  · exact .error _
  simp only [need_cons, need_zero, stackTop_one, stackTop_cons, popStack_cons, ok_bind]
  exact (pushResult_agrees _ _ _ _).bindEq fun stack _ => .ok rfl

theorem evalNumeric1_agrees (op : UnaryOp) (st : ExecState) :
    Agrees Eq (evalNumeric1 flags op st) (Vexta.evalNumeric1 flags op st) := by
  unfold evalNumeric1 Vexta.evalNumeric1
  cases st.stack with
  | nil => exact .error _
  | cons top stack =>
    simp only [need_cons, need_zero, stackTop_one, popStack_cons, ok_bind]
    refine (readNum_agrees _ _ _).bindEq fun bn _ => ?_
    exact (call_agrees _).bindEq fun result _ => .ok rfl

theorem evalNumeric2_agrees (op : BinaryOp) (st : ExecState) :
    Agrees Eq (evalNumeric2 flags op st) (Vexta.evalNumeric2 flags op st) := by
  unfold evalNumeric2 Vexta.evalNumeric2
  rcases st.stack with _ | ⟨x2, _ | ⟨x1, stack⟩⟩
  · exact .error _
  · exact .error _
  simp only [need_cons, need_zero, stackTop_one, stackTop_cons, popStack_cons, ok_bind]
  refine (readNum_agrees _ _ _).bindEq fun bn1 _ => ?_
  refine (readNum_agrees _ _ _).bindEq fun bn2 _ => ?_
  refine (call_agrees _).bindEq fun bn _ => ?_
  unfold Vexta.pushResult
  by_cases hverify : op = .numEqualVerify
  · rw [if_pos hverify, if_pos (decide_eq_true hverify)]
    by_cases hcast : castToBool (scriptNumSerialize bn) = true
    · rw [if_pos hcast, if_pos hcast]
      exact .ok rfl
    · rw [if_neg hcast, if_neg hcast]
      exact .error _
  · rw [if_neg hverify, if_neg (by simpa using hverify)]
    exact .ok rfl

theorem evalWithin_agrees :
    Agrees Eq (evalWithin flags st) (Vexta.evalWithin flags st) := by
  unfold evalWithin Vexta.evalWithin
  rcases st.stack with _ | ⟨x3, _ | ⟨x2, _ | ⟨x1, stack⟩⟩⟩
  · exact .error _
  · exact .error _
  · exact .error _
  simp only [need_cons, need_zero, stackTop_one, stackTop_cons, popStack_cons, ok_bind]
  refine (readNum_agrees _ _ _).bindEq fun bn1 _ => ?_
  refine (readNum_agrees _ _ _).bindEq fun bn2 _ => ?_
  exact (readNum_agrees _ _ _).bindEq fun bn3 _ => .ok rfl

theorem evalCheckSig_agrees (verify : Bool) (st : ExecState) :
    Agrees Eq (evalCheckSig X checker flags sigversion verify st)
      (Vexta.evalCheckSig X checker flags sigversion verify st) := by
  unfold evalCheckSig Vexta.evalCheckSig
  rcases st.stack with _ | ⟨vchPubKey, _ | ⟨vchSig, stack⟩⟩
  · exact .error _
  · exact .error _
  simp only [need_cons, need_zero, stackTop_one, stackTop_cons, popStack_cons, ok_bind]
  refine (call_agrees _).bindEq fun checked _ => ?_
  exact (pushResult_agrees _ _ _ _).bindEq fun stack _ => .ok rfl

theorem evalCheckSigAdd_agrees :
    Agrees Eq (evalCheckSigAdd X checker flags sigversion st)
      (Vexta.evalCheckSigAdd X checker flags sigversion st) := by
  unfold evalCheckSigAdd Vexta.evalCheckSigAdd
  refine .ite (fun _ => .error _) fun _ => ?_
  rcases st.stack with _ | ⟨pubkey, _ | ⟨vchNum, _ | ⟨sig, stack⟩⟩⟩
  · exact .error _
  · exact .error _
  · exact .error _
  simp only [need_cons, need_zero, stackTop_one, stackTop_cons, popStack_cons, ok_bind]
  refine (readNum_agrees _ _ _).bindEq fun num _ => ?_
  refine (call_agrees _).bindEq fun checked _ => ?_
  exact (call_agrees _).bindEq fun sum _ => .ok rfl

end Eval

end Raw
end Vexta
