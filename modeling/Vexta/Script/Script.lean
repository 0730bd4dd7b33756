import Vexta.Basic
import Vexta.Lib.Bytes

/-! Scripts: opcodes, the `GetOp` reader, script shapes and script numbers. -/
namespace Vexta
open Lib List

abbrev CScript := Bytes

def maxScriptElementSize : ℕ := 520
def maxOpsPerScript : ℕ := 201
def maxPubkeysPerMultisig : ℕ := 20
def maxScriptSize : ℕ := 10000
def maxStackSize : ℕ := 1000

inductive StackOp
  | toAltStack | fromAltStack | drop2 | dup2 | dup3 | over2 | rot2 | swap2 | ifDup | depth
  | drop | dup | nip | over | rot | swap | tuck | size
  deriving DecidableEq, Repr

inductive UnaryOp
  | add1 | sub1 | negate | abs | not | notEqual0
  deriving DecidableEq, Repr

inductive BinaryOp
  | add | sub | boolAnd | boolOr | numEqual | numEqualVerify | numNotEqual | lessThan
  | greaterThan | lessThanOrEqual | greaterThanOrEqual | min | max
  deriving DecidableEq, Repr

inductive HashOp
  | ripemd160 | sha1 | sha256 | hash160 | hash256
  deriving DecidableEq, Repr

/-- The cases of the switch. Opcodes of one case share a constructor. -/
inductive Op
  | pushData
  | number (n : ℤ)
  | nop
  | checkLockTimeVerify
  | checkSequenceVerify
  | upgradableNop
  | cond (notIf : Bool)
  | else
  | endIf
  | verify
  | ret
  | stack (op : StackOp)
  | pick (roll : Bool)
  | equal (verify : Bool)
  | unary (op : UnaryOp)
  | binary (op : BinaryOp)
  | within
  | hash (op : HashOp)
  | codeSeparator
  | checkSig (verify : Bool)
  | checkSigAdd
  | checkMultiSig (verify : Bool)
  | disabled
  | default
  deriving DecidableEq, Repr

def opPushData1 : UInt8 := 0x4c
def opPushData2 : UInt8 := 0x4d
def opPushData4 : UInt8 := 0x4e
def op1 : UInt8 := 0x51
def op2 : UInt8 := 0x52
def op3 : UInt8 := 0x53
def op16 : UInt8 := 0x60

def Op.ofByte (opcode : UInt8) : Op :=
  if opcode ≤ opPushData4 then .pushData
  else match opcode.toNat with
  | 0x4f => .number (-1)
  | 0x51 => .number 1 | 0x52 => .number 2 | 0x53 => .number 3 | 0x54 => .number 4
  | 0x55 => .number 5 | 0x56 => .number 6 | 0x57 => .number 7 | 0x58 => .number 8
  | 0x59 => .number 9 | 0x5a => .number 10 | 0x5b => .number 11 | 0x5c => .number 12
  | 0x5d => .number 13 | 0x5e => .number 14 | 0x5f => .number 15 | 0x60 => .number 16
  | 0x61 => .nop
  | 0x63 => .cond false
  | 0x64 => .cond true
  | 0x67 => .else
  | 0x68 => .endIf
  | 0x69 => .verify
  | 0x6a => .ret
  | 0x6b => .stack .toAltStack
  | 0x6c => .stack .fromAltStack
  | 0x6d => .stack .drop2
  | 0x6e => .stack .dup2
  | 0x6f => .stack .dup3
  | 0x70 => .stack .over2
  | 0x71 => .stack .rot2
  | 0x72 => .stack .swap2
  | 0x73 => .stack .ifDup
  | 0x74 => .stack .depth
  | 0x75 => .stack .drop
  | 0x76 => .stack .dup
  | 0x77 => .stack .nip
  | 0x78 => .stack .over
  | 0x79 => .pick false
  | 0x7a => .pick true
  | 0x7b => .stack .rot
  | 0x7c => .stack .swap
  | 0x7d => .stack .tuck
  -- OP_CAT, OP_SUBSTR, OP_LEFT, OP_RIGHT
  | 0x7e => .disabled | 0x7f => .disabled | 0x80 => .disabled | 0x81 => .disabled
  | 0x82 => .stack .size
  -- OP_INVERT, OP_AND, OP_OR, OP_XOR
  | 0x83 => .disabled | 0x84 => .disabled | 0x85 => .disabled | 0x86 => .disabled
  | 0x87 => .equal false
  | 0x88 => .equal true
  | 0x8b => .unary .add1
  | 0x8c => .unary .sub1
  -- OP_2MUL, OP_2DIV
  | 0x8d => .disabled | 0x8e => .disabled
  | 0x8f => .unary .negate
  | 0x90 => .unary .abs
  | 0x91 => .unary .not
  | 0x92 => .unary .notEqual0
  | 0x93 => .binary .add
  | 0x94 => .binary .sub
  -- OP_MUL, OP_DIV, OP_MOD, OP_LSHIFT, OP_RSHIFT
  | 0x95 => .disabled | 0x96 => .disabled | 0x97 => .disabled
  | 0x98 => .disabled | 0x99 => .disabled
  | 0x9a => .binary .boolAnd
  | 0x9b => .binary .boolOr
  | 0x9c => .binary .numEqual
  | 0x9d => .binary .numEqualVerify
  | 0x9e => .binary .numNotEqual
  | 0x9f => .binary .lessThan
  | 0xa0 => .binary .greaterThan
  | 0xa1 => .binary .lessThanOrEqual
  | 0xa2 => .binary .greaterThanOrEqual
  | 0xa3 => .binary .min
  | 0xa4 => .binary .max
  | 0xa5 => .within
  | 0xa6 => .hash .ripemd160
  | 0xa7 => .hash .sha1
  | 0xa8 => .hash .sha256
  | 0xa9 => .hash .hash160
  | 0xaa => .hash .hash256
  | 0xab => .codeSeparator
  | 0xac => .checkSig false
  | 0xad => .checkSig true
  | 0xae => .checkMultiSig false
  | 0xaf => .checkMultiSig true
  | 0xb1 => .checkLockTimeVerify
  | 0xb2 => .checkSequenceVerify
  -- OP_NOP1, OP_NOP4 to OP_NOP10
  | 0xb0 => .upgradableNop | 0xb3 => .upgradableNop | 0xb4 => .upgradableNop
  | 0xb5 => .upgradableNop | 0xb6 => .upgradableNop | 0xb7 => .upgradableNop
  | 0xb8 => .upgradableNop | 0xb9 => .upgradableNop
  | 0xba => .checkSigAdd
  | _ => .default

def isOpSuccess (opcode : UInt8) : Bool :=
  opcode == 80 || opcode == 98 || (126 ≤ opcode && opcode ≤ 129) ||
    (131 ≤ opcode && opcode ≤ 134) || (137 ≤ opcode && opcode ≤ 138) ||
    (141 ≤ opcode && opcode ≤ 142) || (149 ≤ opcode && opcode ≤ 153) ||
    (187 ≤ opcode && opcode ≤ 254)

/-- `GetOp`. A failing call has moved the iterator past what it read. -/
structure GetOp where
  ret : Option (UInt8 × Bytes)
  pc : CScript
  deriving DecidableEq, Repr

def pushSizeBytes (opcode : UInt8) : ℕ :=
  if opcode = opPushData1 then 1
  else if opcode = opPushData2 then 2
  else if opcode = opPushData4 then 4
  else 0

def getScriptOp : CScript → GetOp
  | [] => ⟨none, []⟩
  | opcode :: pc =>
    if opcode ≤ opPushData4 then
      let width := pushSizeBytes opcode
      if pc.length < width then ⟨none, pc⟩
      else
        let nSize := if opcode < opPushData1 then opcode.toNat else ofLe (pc.take width)
        let pc := pc.drop width
        if pc.length < nSize then ⟨none, pc⟩
        else ⟨some (opcode, pc.take nSize), pc.drop nSize⟩
    else ⟨some (opcode, []), pc⟩

def getOps (fuel : ℕ) (pc : CScript) : List GetOp :=
  match fuel, pc with
  | 0, _ => []
  | _ + 1, [] => []
  | fuel + 1, pc@(_ :: _) =>
    let i := getScriptOp pc
    match i.ret with
    | none => [i]
    | some _ => i :: getOps fuel i.pc

namespace CScript

variable (script : CScript)

def ops : List GetOp := getOps script.length script

def pushVector (b : Bytes) : CScript :=
  if b.length < opPushData1.toNat then UInt8.ofNat b.length :: b
  else if b.length ≤ 0xff then opPushData1 :: UInt8.ofNat b.length :: b
  else if b.length ≤ 0xffff then opPushData2 :: le 2 b.length ++ b
  else opPushData4 :: le 4 b.length ++ b

def decodeOpN (opcode : UInt8) : ℕ := if opcode = 0 then 0 else opcode.toNat - 0x50

def isPayToScriptHash : Bool :=
  script.length == 23 && script[0]? == some 0xa9 && script[1]? == some 0x14 &&
    script[22]? == some 0x87

def isWitnessProgram : CScript → Option (ℕ × Bytes)
  | version :: size :: program =>
    if program.length + 2 < 4 ∨ 42 < program.length + 2 then none
    else if version ≠ 0 ∧ (version < op1 ∨ op16 < version) then none
    else if size.toNat + 2 = program.length + 2 then some (decodeOpN version, program)
    else none
  | _ => none

def isPushOnly : Bool :=
  script.ops.all fun i =>
    match i.ret with
    | none => false
    | some (opcode, _) => opcode ≤ op16

end CScript

theorem getScriptOp_pc_lt (opcode : UInt8) (pc : CScript) :
    (getScriptOp (opcode :: pc)).pc.length < (opcode :: pc).length := by
  simp only [getScriptOp]
  split_ifs <;> simp only [length_drop, length_cons] <;> omega

theorem getOps_of_le {fuel : ℕ} {pc : CScript} (h : pc.length ≤ fuel) :
    getOps fuel pc = CScript.ops pc := by
  unfold CScript.ops
  induction fuel using Nat.strong_induction_on generalizing pc with
  | _ fuel ih =>
    cases pc with
    | nil => cases fuel <;> rfl
    | cons opcode pc =>
      obtain ⟨fuel, rfl⟩ : ∃ n, fuel = n + 1 := ⟨fuel - 1, by simp at h; omega⟩
      have hlt := getScriptOp_pc_lt opcode pc
      simp only [length_cons] at h hlt
      simp only [getOps, length_cons]
      cases hret : (getScriptOp (opcode :: pc)).ret with
      | none => rfl
      | some r =>
        generalize getScriptOp (opcode :: pc) = i at hlt hret ⊢
        have hleft : getOps fuel i.pc = getOps i.pc.length i.pc := ih fuel (by omega) (by omega)
        by_cases hf : fuel = pc.length
        · rw [hf]
        · have hright : getOps pc.length i.pc = getOps i.pc.length i.pc :=
            ih pc.length (by omega) (by omega)
          simp only [hleft, hright]

theorem CScript.ops_cons (opcode : UInt8) (pc : CScript) :
    CScript.ops (opcode :: pc) =
      match (getScriptOp (opcode :: pc)).ret with
      | none => [getScriptOp (opcode :: pc)]
      | some _ =>
        getScriptOp (opcode :: pc) :: CScript.ops (getScriptOp (opcode :: pc)).pc := by
  have hlt := getScriptOp_pc_lt opcode pc
  simp only [length_cons] at hlt
  have hrest : getOps pc.length (getScriptOp (opcode :: pc)).pc =
      CScript.ops (getScriptOp (opcode :: pc)).pc := getOps_of_le (by omega)
  conv_lhs => unfold CScript.ops
  simp only [length_cons, getOps, hrest]

@[simp] theorem CScript.ops_nil : CScript.ops [] = [] := rfl

def castToBool : Bytes → Bool
  | [] => false
  | [b] => b != 0 && b != 0x80
  | b :: bs => b != 0 || castToBool bs

def setVch (vch : Bytes) : ℤ :=
  match vch.getLast? with
  | none => 0
  | some back =>
    if back &&& 0x80 ≠ 0 then -((ofLe vch % 2 ^ (8 * vch.length - 1) : ℕ) : ℤ)
    else (ofLe vch : ℤ)

def nonMinimalNum (vch : Bytes) : Bool :=
  match vch.reverse with
  | [] => false
  | [b] => b &&& 0x7f == 0
  | b :: c :: _ => b &&& 0x7f == 0 && c &&& 0x80 == 0

def magnitudeBytes : ℕ → ℕ → Bytes
  | 0, _ => []
  | fuel + 1, absvalue =>
    if absvalue = 0 then []
    else UInt8.ofNat (absvalue % 256) :: magnitudeBytes fuel (absvalue / 256)

def scriptNumSerialize (value : ℤ) : Bytes :=
  if value = 0 then []
  else
    let result := magnitudeBytes 8 value.natAbs
    match result.getLast? with
    | none => []
    | some back =>
      if back &&& 0x80 ≠ 0 then result ++ [if value < 0 then 0x80 else 0]
      else if value < 0 then result.dropLast ++ [back ||| 0x80]
      else result

def getInt (value : ℤ) : ℤ :=
  if 2 ^ 31 - 1 < value then 2 ^ 31 - 1 else if value < -2 ^ 31 then -2 ^ 31 else value

end Vexta
