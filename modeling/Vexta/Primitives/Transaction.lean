import Vexta.Script.Script
import Vexta.Lib.Code

/-! Transactions and their serialization. -/
namespace Vexta
open Lib List

def writeCompactSize (nSize : ℕ) : Bytes :=
  if nSize < 253 then [UInt8.ofNat nSize]
  else if nSize ≤ 0xffff then 253 :: le 2 nSize
  else if nSize ≤ 0xffffffff then 254 :: le 4 nSize
  else 255 :: le 8 nSize

def serializeVector (b : Bytes) : Bytes := writeCompactSize b.length ++ b

theorem writeCompactSize_cases (n : ℕ) :
    (n < 253 ∧ writeCompactSize n = [UInt8.ofNat n]) ∨
    (253 ≤ n ∧ n < 256 ^ 2 ∧ writeCompactSize n = 253 :: le 2 n) ∨
    (256 ^ 2 ≤ n ∧ n < 256 ^ 4 ∧ writeCompactSize n = 254 :: le 4 n) ∨
    (256 ^ 4 ≤ n ∧ writeCompactSize n = 255 :: le 8 n) := by
  unfold writeCompactSize
  split_ifs <;> simp <;> omega

theorem writeCompactSize_append_inj {m n : ℕ} {s t : Bytes} (hm : m < 2 ^ 64) (hn : n < 2 ^ 64)
    (h : writeCompactSize m ++ s = writeCompactSize n ++ t) : m = n ∧ s = t := by
  have hsmall : ∀ k : ℕ, k < 253 → (UInt8.ofNat k).toNat = k := by
    intro k hk
    exact UInt8.toNat_ofNat_of_lt (lt_trans hk (by decide))
  have hword : ∀ w, m < 256 ^ w → n < 256 ^ w → le w m ++ s = le w n ++ t → m = n ∧ s = t := by
    intro w hmw hnw hle
    obtain ⟨hword, hrest⟩ := append_inj hle (by rw [length_le, length_le])
    exact ⟨le_inj hmw hnw hword, hrest⟩
  rcases writeCompactSize_cases m with ⟨hm', hM⟩ | ⟨_, hm', hM⟩ | ⟨_, hm', hM⟩ | ⟨hm', hM⟩ <;>
    rcases writeCompactSize_cases n with ⟨hn', hN⟩ | ⟨_, hn', hN⟩ | ⟨_, hn', hN⟩ | ⟨hn', hN⟩ <;>
    rw [hM, hN] at h <;> simp only [cons_append, nil_append, List.cons.injEq] at h
  case inl.inl =>
    have hval := congrArg UInt8.toNat h.1
    rw [hsmall m hm', hsmall n hn'] at hval
    exact ⟨hval, h.2⟩
  case inr.inl.inr.inl => exact hword 2 hm' hn' h.2
  case inr.inr.inl.inr.inr.inl => exact hword 4 hm' hn' h.2
  case inr.inr.inr.inr.inr.inr => exact hword 8 (by omega) (by omega) h.2
  -- the remaining cases differ in the first byte
  all_goals
    exfalso
    have hval := congrArg UInt8.toNat h.1
    first
      | (rw [hsmall m hm'] at hval; simp at hval; omega)
      | (rw [hsmall n hn'] at hval; simp at hval; omega)
      | simp at hval

theorem serializeVector_append_inj {a b s t : Bytes} (ha : a.length < 2 ^ 64)
    (hb : b.length < 2 ^ 64) (h : serializeVector a ++ s = serializeVector b ++ t) :
    a = b ∧ s = t := by
  simp only [serializeVector, append_assoc] at h
  obtain ⟨hlen, h⟩ := writeCompactSize_append_inj ha hb h
  exact append_inj h hlen

structure COutPoint where
  hash : Uint256
  n : BitVec 32
  deriving DecidableEq, Repr

structure CTxOut where
  nValue : BitVec 64
  scriptPubKey : CScript
  size_lt : scriptPubKey.length < 2 ^ 32
  deriving DecidableEq, Repr

theorem CScript.short_nil : ([] : CScript).length < 2 ^ 32 := by decide

theorem CScript.short_true : ([0x51] : CScript).length < 2 ^ 32 := by decide

structure CTxIn where
  prevout : COutPoint
  scriptSig : CScript
  nSequence : BitVec 32
  scriptWitness : List Bytes
  deriving DecidableEq, Repr

structure CTransaction where
  vin : List CTxIn
  vout : List CTxOut
  nVersion : BitVec 32
  nLockTime : BitVec 32
  deriving DecidableEq, Repr

namespace COutPoint

def serialize (o : COutPoint) : Bytes := le 32 o.hash.toNat ++ le 4 o.n.toNat

def isNull (o : COutPoint) : Bool := o.hash == 0 && o.n == 0xffffffff

@[simp] theorem length_serialize (o : COutPoint) : o.serialize.length = 36 := by
  simp [serialize]

theorem prefixFree_serialize : PrefixFree serialize := by
  have hhash : PrefixFree fun x : Uint256 => le 32 x.toNat := prefixFree_le (by norm_num)
  have hn : PrefixFree fun x : BitVec 32 => le 4 x.toNat := prefixFree_le (by norm_num)
  have hfields : Function.Injective fun o : COutPoint => (o.hash, o.n) := by
    rintro ⟨_, _⟩ ⟨_, _⟩ h
    simpa using h
  exact (hhash.append hn).comp hfields

end COutPoint

namespace CTxOut

def null : CTxOut := ⟨-1, [], CScript.short_nil⟩

def serialize (o : CTxOut) : Bytes := le 8 o.nValue.toNat ++ serializeVector o.scriptPubKey

theorem serialize_ne_nil (o : CTxOut) : o.serialize ≠ [] :=
  append_ne_nil_of_left_ne_nil (ne_nil_of_length_eq_add_one (length_le 8 _)) _

theorem prefixFree_serialize : PrefixFree serialize := by
  rintro ⟨v, a, ha⟩ ⟨w, b, hb⟩ s t h
  have hvalue : PrefixFree fun x : BitVec 64 => le 8 x.toNat := prefixFree_le (by norm_num)
  simp only [serialize, append_assoc] at h
  obtain ⟨rfl, hrest⟩ := hvalue h
  have hsize : (2 : ℕ) ^ 32 ≤ 2 ^ 64 := by norm_num
  obtain ⟨rfl, hst⟩ :=
    serializeVector_append_inj (lt_of_lt_of_le ha hsize) (lt_of_lt_of_le hb hsize) hrest
  exact ⟨rfl, hst⟩

end CTxOut

def CTxIn.serialize (i : CTxIn) : Bytes :=
  i.prevout.serialize ++ serializeVector i.scriptSig ++ le 4 i.nSequence.toNat

namespace CTransaction

variable (tx : CTransaction)

def isCoinBase : Bool :=
  match tx.vin with
  | [i] => i.prevout.isNull
  | _ => false

def serializeNoWitness : Bytes :=
  le 4 tx.nVersion.toNat ++
    (writeCompactSize tx.vin.length ++ tx.vin.flatMap CTxIn.serialize) ++
    (writeCompactSize tx.vout.length ++ tx.vout.flatMap CTxOut.serialize) ++
    le 4 tx.nLockTime.toNat

def hasWitness : Bool :=
  tx.vin.any fun txin => !txin.scriptWitness.isEmpty

def serialize : Bytes :=
  if tx.hasWitness then
    le 4 tx.nVersion.toNat ++ [0, 1] ++
      (writeCompactSize tx.vin.length ++ tx.vin.flatMap CTxIn.serialize) ++
      (writeCompactSize tx.vout.length ++ tx.vout.flatMap CTxOut.serialize) ++
      tx.vin.flatMap (fun txin => writeCompactSize txin.scriptWitness.length ++
        txin.scriptWitness.flatMap serializeVector) ++
      le 4 tx.nLockTime.toNat
  else tx.serializeNoWitness

/-- What is read of a transaction sent with `SERIALIZE_TRANSACTION_NO_WITNESS`. -/
def stripWitness : CTransaction :=
  { tx with vin := tx.vin.map fun txin => { txin with scriptWitness := [] } }

end CTransaction
end Vexta
