import Vexta.Primitives.Transaction

/-! A transaction can be read off its serialization, all but the witnesses off the one without. -/
namespace Vexta
open Lib List CTxIn

structure CTxIn.Sized (i : CTxIn) : Prop where
  scriptSig : i.scriptSig.length < 2 ^ 64
  scriptWitness : i.scriptWitness.length < 2 ^ 64
  items : ∀ item ∈ i.scriptWitness, item.length < 2 ^ 64

structure CTransaction.Sized (tx : CTransaction) : Prop where
  vin : tx.vin.length < 2 ^ 64
  vout : tx.vout.length < 2 ^ 64
  inputs : ∀ i ∈ tx.vin, i.Sized

def CTxIn.stripped (i : CTxIn) : CTxIn := { i with scriptWitness := [] }

section
variable {s t : Bytes}

theorem CTxIn.serialize_append_inj {i j : CTxIn} (hi : i.Sized) (hj : j.Sized)
    (h : i.serialize ++ s = j.serialize ++ t) : i.stripped = j.stripped ∧ s = t := by
  have hsequence : PrefixFree fun x : BitVec 32 => le 4 x.toNat := prefixFree_le (by norm_num)
  simp only [serialize, append_assoc] at h
  obtain ⟨hprevout, h⟩ := COutPoint.prefixFree_serialize h
  obtain ⟨hscript, h⟩ := serializeVector_append_inj hi.scriptSig hj.scriptSig h
  obtain ⟨hnumber, h⟩ := hsequence h
  refine ⟨?_, h⟩
  unfold stripped
  rw [hprevout, hscript, hnumber]

theorem serializeWitness_append_inj {i j : CTxIn} (hi : i.Sized) (hj : j.Sized)
    (h : (writeCompactSize i.scriptWitness.length ++ i.scriptWitness.flatMap serializeVector) ++ s =
      (writeCompactSize j.scriptWitness.length ++ j.scriptWitness.flatMap serializeVector) ++ t) :
    i.scriptWitness = j.scriptWitness ∧ s = t := by
  simp only [append_assoc] at h
  obtain ⟨hlength, h⟩ := writeCompactSize_append_inj hi.scriptWitness hj.scriptWitness h
  have hitems := flatMap_append_inj id (fun ha hb => serializeVector_append_inj ha hb)
    hi.items hj.items hlength h
  rwa [map_id, map_id] at hitems

def serializeBody (vin : List CTxIn) (vout : List CTxOut) : Bytes :=
  (writeCompactSize vin.length ++ vin.flatMap serialize) ++
    (writeCompactSize vout.length ++ vout.flatMap CTxOut.serialize)

namespace CTransaction
variable {a b : CTransaction}

theorem body_append_inj (ha : a.Sized) (hb : b.Sized)
    (h : serializeBody a.vin a.vout ++ s = serializeBody b.vin b.vout ++ t) :
    a.vin.map stripped = b.vin.map stripped ∧ a.vout = b.vout ∧ s = t := by
  simp only [serializeBody, append_assoc] at h
  obtain ⟨hvin, h⟩ := writeCompactSize_append_inj ha.vin hb.vin h
  obtain ⟨hinputs, h⟩ := flatMap_append_inj stripped
    (fun hi hj => serialize_append_inj hi hj) ha.inputs hb.inputs hvin h
  obtain ⟨hvout, h⟩ := writeCompactSize_append_inj ha.vout hb.vout h
  obtain ⟨houtputs, h⟩ := flatMap_append_inj id (P := fun _ => True)
    (fun _ _ hout => CTxOut.prefixFree_serialize hout) (fun _ _ => trivial) (fun _ _ => trivial)
    hvout h
  rw [map_id, map_id] at houtputs
  exact ⟨hinputs, houtputs, h⟩

theorem serializeNoWitness_inj (ha : a.Sized) (hb : b.Sized)
    (h : a.serializeNoWitness = b.serializeNoWitness) : a.stripWitness = b.stripWitness := by
  have hword : PrefixFree fun x : BitVec 32 => le 4 x.toNat := prefixFree_le (by norm_num)
  simp only [serializeNoWitness, append_assoc] at h
  obtain ⟨hversion, h⟩ := hword h
  have hbody := body_append_inj ha hb (s := le 4 a.nLockTime.toNat) (t := le 4 b.nLockTime.toNat)
    (by simpa only [serializeBody, append_assoc] using h)
  obtain ⟨hinputs, houtputs, hlock⟩ := hbody
  have hlockTime : a.nLockTime = b.nLockTime := (hword (congrArg (· ++ []) hlock)).1
  change { a with vin := a.vin.map stripped } = { b with vin := b.vin.map stripped }
  rw [hinputs, houtputs, hversion, hlockTime]

theorem scriptWitness_of_not_hasWitness (h : a.hasWitness = false) :
    a.vin.map scriptWitness = a.vin.map fun _ => [] := by
  rw [map_inj_left]
  intro i hi
  have hempty := any_eq_false.mp h i hi
  simpa using hempty

theorem vin_eq_of_stripped (hstripped : a.vin.map stripped = b.vin.map stripped)
    (hwitness : a.vin.map scriptWitness = b.vin.map scriptWitness) :
    a.vin = b.vin := by
  have hpair : a.vin.map (fun i => (i.stripped, i.scriptWitness)) =
      b.vin.map fun i => (i.stripped, i.scriptWitness) := by
    rw [← zip_map', ← zip_map', hstripped, hwitness]
  refine map_injective_iff.mpr (fun i j hij => ?_) hpair
  obtain ⟨hi, hw⟩ := Prod.mk.inj hij
  cases i
  cases j
  simp only [CTxIn.stripped, CTxIn.mk.injEq] at hi hw ⊢
  exact ⟨hi.1, hi.2.1, hi.2.2.1, hw⟩

theorem serialize_inj (ha : a.Sized) (hb : b.Sized) (hina : a.vin ≠ []) (hinb : b.vin ≠ [])
    (h : a.serialize = b.serialize) : a = b := by
  have hword : PrefixFree fun x : BitVec 32 => le 4 x.toNat := prefixFree_le (by norm_num)
  -- an extended serialization has an empty list where the other one has the inputs
  have hmixed : ∀ {c d : CTransaction}, c.vin ≠ [] → c.hasWitness = false → d.hasWitness = true →
      c.Sized → c.serialize ≠ d.serialize := by
    intro c d hin hc hd hsized heq
    rw [serialize, serialize, if_pos hd, if_neg (by simp [hc]), serializeNoWitness] at heq
    simp only [append_assoc] at heq
    obtain ⟨-, heq⟩ := hword heq
    have hzero := writeCompactSize_append_inj hsized.vin (n := 0) (by norm_num) heq
    exact hin (length_eq_zero_iff.mp hzero.1)
  have hfields : a.nVersion = b.nVersion ∧ a.vin = b.vin ∧ a.vout = b.vout ∧
      a.nLockTime = b.nLockTime := by
    cases hwa : a.hasWitness with
    | false =>
      cases hwb : b.hasWitness with
      | true => exact absurd h (hmixed hina hwa hwb ha)
      | false =>
        rw [serialize, serialize, if_neg (by simp [hwa]), if_neg (by simp [hwb])] at h
        have hstrip := serializeNoWitness_inj ha hb h
        simp only [stripWitness, CTransaction.mk.injEq] at hstrip
        obtain ⟨hvin, hvout, hversion, hlock⟩ := hstrip
        refine ⟨hversion, vin_eq_of_stripped hvin ?_, hvout, hlock⟩
        have hlength := congrArg List.length hvin
        simp only [length_map] at hlength
        rw [scriptWitness_of_not_hasWitness hwa, scriptWitness_of_not_hasWitness hwb,
          map_const', map_const', hlength]
    | true =>
      cases hwb : b.hasWitness with
      | false => exact absurd h.symm (hmixed hinb hwb hwa hb)
      | true =>
        rw [serialize, serialize, if_pos hwa, if_pos hwb] at h
        simp only [append_assoc] at h
        obtain ⟨hversion, h⟩ := hword h
        rw [append_cancel_left_eq] at h
        have hbody := body_append_inj ha hb (s := _) (t := _)
          (by simpa only [serializeBody, append_assoc] using h)
        obtain ⟨hinputs, houtputs, hrest⟩ := hbody
        have hlength := congrArg List.length hinputs
        simp only [length_map] at hlength
        obtain ⟨hwitness, hlock⟩ := flatMap_append_inj scriptWitness
          (fun hi hj => serializeWitness_append_inj hi hj) ha.inputs hb.inputs hlength hrest
        exact ⟨hversion, vin_eq_of_stripped hinputs hwitness, houtputs,
          (hword (congrArg (· ++ []) hlock)).1⟩
  obtain ⟨hversion, hvin, hvout, hlock⟩ := hfields
  cases a
  cases b
  simp only [CTransaction.mk.injEq] at hversion hvin hvout hlock ⊢
  exact ⟨hvin, hvout, hversion, hlock⟩

end CTransaction
end
end Vexta
