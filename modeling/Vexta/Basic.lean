import Vexta.Lib.FixedWidth

/-! Types shared by every component of the node. -/
namespace Vexta
open Lib

/-- How a modelled function fails. -/
inductive Fault
  | nullPointer
  | divisionByZero
  | lostBits
  | unassigned
  | assertion
  | outOfRange
  | outOfFuel
  deriving DecidableEq, Repr

/-- `uint256`: a blob, a little-endian number to `UintToArith256`. -/
abbrev Uint256 := BitVec 256

instance : LawfulBEq Uint256 := inferInstance

/-- The program's arithmetic, faulting where a high bit would be lost. -/
abbrev trap : Arith Fault := Arith.checked .lostBits

def derefPtr {α : Type} : Option α → Except Fault α
  | some a => .ok a
  | none => .error .nullPointer

theorem derefPtr_eq_ok {α : Type} {p : Option α} {a : α} : derefPtr p = .ok a ↔ p = some a := by
  cases p <;> simp [derefPtr]

def readParam {α : Type} : Option α → Except Fault α
  | some a => .ok a
  | none => .error .unassigned

@[simp] theorem readParam_some {α : Type} (a : α) : readParam (some a) = .ok a := rfl

@[simp] theorem ok_bind {ε α β : Type} (a : α) (f : α → Except ε β) :
    ((Except.ok a : Except ε α) >>= f) = f a := rfl

@[simp] theorem error_bind {ε α β : Type} (e : ε) (f : α → Except ε β) :
    ((Except.error e : Except ε α) >>= f) = .error e := rfl

end Vexta
