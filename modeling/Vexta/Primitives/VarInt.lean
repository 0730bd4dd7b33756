import Vexta.Basic
import Vexta.Lib.Reader

/-! Variable-length integers in base 128. All digits but the last are marked. -/
namespace Vexta
open Lib List

def getSizeOfVarInt (n : ℕ) : ℕ :=
  if n ≤ 0x7f then 1 else getSizeOfVarInt (n / 128 - 1) + 1
termination_by n
decreasing_by omega

/-- The loop that fills the buffer, from the last byte of the stream. -/
def writeVarIntLoop (size n : ℕ) (tmp : Bytes) : Except Fault Bytes :=
  if size ≤ tmp.length then .error .outOfRange
  else
    let tmp := UInt8.ofNat (n % 128 + if tmp = [] then 0 else 128) :: tmp
    if n ≤ 0x7f then .ok tmp else writeVarIntLoop size (n / 128 - 1) tmp
termination_by n
decreasing_by omega

variable (w : ℕ)

def writeVarInt (n : ℕ) : Except Fault Bytes := writeVarIntLoop ((w + 6) / 7) n []

def readVarIntFrom : ℕ → Reader ℕ
  | _, [] => .error .endOfData
  | n, chData :: s =>
    if (2 ^ w - 1) / 128 < n then .error .malformed
    else
      let n := (n * 128 + chData.toNat % 128) % 2 ^ w
      if 128 ≤ chData.toNat then
        if n = 2 ^ w - 1 then .error .malformed else readVarIntFrom (n + 1) s
      else .ok (n, s)

def readVarInt : Reader ℕ := readVarIntFrom w 0

/-- Bytes of which the last one alone lacks the continuation bit. -/
def IsVarInt (code : Bytes) : Prop :=
  ∃ digits last, code = digits ++ [last] ∧ (∀ b ∈ digits, 128 ≤ b.toNat) ∧ last.toNat < 128

def varIntValue : Bytes → ℕ
  | [] => 0
  | b :: rest =>
    (b.toNat % 128 + if rest = [] then 0 else 1) * 128 ^ rest.length + varIntValue rest

variable {w} {digits digits' : Bytes} {last last' : UInt8}

theorem varIntValue_singleton (last : UInt8) : varIntValue ([] ++ [last]) = last.toNat % 128 := by
  simp [varIntValue]

theorem varIntValue_concat (h : digits ≠ []) (last : UInt8) :
    varIntValue (digits ++ [last]) = (varIntValue digits + 1) * 128 + last.toNat % 128 := by
  induction digits with
  | nil => exact absurd rfl h
  | cons b rest ih =>
    by_cases hrest : rest = []
    · subst hrest
      simp [varIntValue]
    · rw [cons_append, varIntValue, varIntValue, ih hrest, if_neg (by simp), if_neg hrest,
        length_append, length_singleton]
      ring

theorem writeVarIntLoop_spec {size k n : ℕ} {tmp : Bytes} (hn : n < 128 ^ (k + 1))
    (hroom : tmp.length + k < size) : ∃ digits last,
      writeVarIntLoop size n tmp = .ok (digits ++ last :: tmp) ∧
      digits.length + 1 = getSizeOfVarInt n ∧ (∀ b ∈ digits, 128 ≤ b.toNat) ∧
      last.toNat = n % 128 + (if tmp = [] then 0 else 128) ∧
      varIntValue (digits ++ [last]) = n := by
  induction n using Nat.strongRecOn generalizing k tmp with
  | ind n ih =>
    have hbyte : (UInt8.ofNat (n % 128 + if tmp = [] then 0 else 128)).toNat =
        n % 128 + if tmp = [] then 0 else 128 := by
      apply UInt8.toNat_ofNat_of_lt
      change _ < 256
      split_ifs <;> omega
    have hdigit : (UInt8.ofNat (n % 128 + if tmp = [] then 0 else 128)).toNat % 128 = n % 128 := by
      rw [hbyte]
      split_ifs <;> omega
    rw [writeVarIntLoop, if_neg (by omega), getSizeOfVarInt]
    dsimp only
    by_cases hsmall : n ≤ 0x7f
    · refine ⟨[], _, if_pos hsmall, (if_pos hsmall).symm, by simp, hbyte, ?_⟩
      rw [varIntValue_singleton, hdigit]
      omega
    · obtain ⟨k, rfl⟩ : ∃ j, k = j + 1 := Nat.exists_eq_succ_of_ne_zero (by rintro rfl; omega)
      rw [pow_succ] at hn
      obtain ⟨digits, last, hrun, hlen, hmarked, hlast, hvalue⟩ := @ih (n / 128 - 1) (by omega) k
        (UInt8.ofNat (n % 128 + if tmp = [] then 0 else 128) :: tmp)
        ((Nat.sub_le _ _).trans_lt (Nat.div_lt_of_lt_mul (by linarith)))
        (by rw [length_cons]; omega)
      refine ⟨digits ++ [last], _, ?_, ?_, ?_, hbyte, ?_⟩
      · rw [if_neg hsmall, hrun, append_assoc]
        rfl
      · rw [if_neg hsmall, length_append, length_singleton, hlen]
      · intro b hb
        rcases mem_append.mp hb with hb | hb
        · exact hmarked b hb
        · rw [mem_singleton.mp hb, hlast, if_neg (cons_ne_nil _ _)]
          omega
      · rw [varIntValue_concat (by simp), hvalue, hdigit]
        omega

theorem varIntValue_inj (hd : ∀ b ∈ digits, 128 ≤ b.toNat) (hd' : ∀ b ∈ digits', 128 ≤ b.toNat)
    (hlast : last.toNat / 128 = last'.toNat / 128)
    (h : varIntValue (digits ++ [last]) = varIntValue (digits' ++ [last'])) :
    digits = digits' ∧ last = last' := by
  induction digits using List.reverseRecOn generalizing digits' last last' with
  | nil =>
    obtain rfl | ⟨ds', x', rfl⟩ := eq_nil_or_concat' digits'
    · rw [varIntValue_singleton, varIntValue_singleton] at h
      exact ⟨rfl, UInt8.toNat_inj.mp (by omega)⟩
    · rw [varIntValue_singleton, varIntValue_concat (by simp)] at h
      omega
  | append_singleton ds x ih =>
    obtain rfl | ⟨ds', x', rfl⟩ := eq_nil_or_concat' digits'
    · rw [varIntValue_singleton, varIntValue_concat (by simp)] at h
      omega
    · rw [varIntValue_concat (concat_ne_nil x ds), varIntValue_concat (concat_ne_nil x' ds')] at h
      simp only [mem_append, mem_singleton] at hd hd'
      have hx := hd x (.inr rfl)
      have hx' := hd' x' (.inr rfl)
      have hlt := x.toNat_lt
      have hlt' := x'.toNat_lt
      have hbefore : varIntValue (ds ++ [x]) = varIntValue (ds' ++ [x']) := by omega
      obtain ⟨rfl, rfl⟩ := ih (fun b hb => hd b (.inl hb)) (fun b hb => hd' b (.inl hb))
        (by omega) hbefore
      exact ⟨rfl, UInt8.toNat_inj.mp (by omega)⟩

theorem readVarIntFrom_eq (hw : 7 ≤ w) (hd : ∀ b ∈ digits, 128 ≤ b.toNat)
    (hlast : last.toNat < 128) (acc : ℕ) (s : Bytes) :
    readVarIntFrom w acc (digits ++ last :: s) =
      if acc * 128 ^ (digits.length + 1) + varIntValue (digits ++ [last]) < 2 ^ w then
        .ok (acc * 128 ^ (digits.length + 1) + varIntValue (digits ++ [last]), s)
      else .error .malformed := by
  have hpow : 2 ^ w = 2 ^ (w - 7) * 128 := by
    rw [← Nat.sub_add_cancel hw, pow_add]
    rfl
  have hpos : 0 < 2 ^ (w - 7) := by positivity
  induction digits generalizing acc with
  | nil =>
    rw [nil_append, readVarIntFrom, varIntValue_singleton, length_nil, zero_add, pow_one]
    dsimp only
    by_cases hacc : (2 ^ w - 1) / 128 < acc
    · rw [if_pos hacc, if_neg (by omega)]
    · have hfits : acc * 128 + last.toNat % 128 < 2 ^ w := by omega
      rw [if_neg hacc, if_neg (by omega), if_pos hfits, Nat.mod_eq_of_lt hfits]
  | cons b digits ih =>
    have hmark := hd b mem_cons_self
    have htotal : acc * 128 ^ (digits.length + 1 + 1) + ((b.toNat % 128 + 1) *
        128 ^ (digits.length + 1) + varIntValue (digits ++ [last])) =
        (acc * 128 + b.toNat % 128 + 1) * 128 ^ (digits.length + 1) +
          varIntValue (digits ++ [last]) := by ring
    have hgrow : acc * 128 + b.toNat % 128 + 1 ≤ (acc * 128 + b.toNat % 128 + 1) *
        128 ^ (digits.length + 1) := Nat.le_mul_of_pos_right _ (by positivity)
    rw [cons_append, readVarIntFrom, cons_append, varIntValue, if_neg (concat_ne_nil last digits),
      length_cons, length_append, length_singleton, htotal]
    dsimp only
    by_cases hacc : (2 ^ w - 1) / 128 < acc
    · rw [if_pos hacc, if_neg (by omega)]
    · have hfits : acc * 128 + b.toNat % 128 < 2 ^ w := by omega
      rw [if_neg hacc, if_pos hmark, Nat.mod_eq_of_lt hfits,
        ← ih (fun c hc => hd c (mem_cons_of_mem b hc))]
      split_ifs with hmax
      · rw [ih (fun c hc => hd c (mem_cons_of_mem b hc)), if_neg (by omega)]
      · rfl

/-- What is written fits the buffer, has the announced size and is read back; other bytes that
denote a number of the type are read and written again. -/
theorem varInt_codes (w : ℕ) (hw : 8 ≤ w) :
    (∀ n < 2 ^ w, ∃ code, writeVarInt w n = .ok code ∧ code.length = getSizeOfVarInt n ∧
      ∀ s, readVarInt w (code ++ s) = .ok (n, s)) ∧
    ∀ code, IsVarInt code → ∀ s,
      ((∃ r, readVarInt w (code ++ s) = .ok r) ↔ varIntValue code < 2 ^ w) ∧
      ∀ n s', readVarInt w (code ++ s) = .ok (n, s') →
        n = varIntValue code ∧ s' = s ∧ writeVarInt w n = .ok code := by
  have hwrite : ∀ n < 2 ^ w, ∃ digits last, writeVarInt w n = .ok (digits ++ [last]) ∧
      digits.length + 1 = getSizeOfVarInt n ∧ (∀ b ∈ digits, 128 ≤ b.toNat) ∧
      last.toNat < 128 ∧ varIntValue (digits ++ [last]) = n := by
    intro n hn
    have hn' : n < 128 ^ ((w + 6) / 7 - 1 + 1) := by
      refine hn.trans_le ?_
      change 2 ^ w ≤ (2 ^ 7) ^ _
      rw [← pow_mul]
      exact Nat.pow_le_pow_right (by decide) (by omega)
    obtain ⟨digits, last, hrun, hlen, hmarked, hlast, hvalue⟩ :=
      @writeVarIntLoop_spec ((w + 6) / 7) ((w + 6) / 7 - 1) n [] hn' (by rw [length_nil]; omega)
    rw [if_pos rfl] at hlast
    exact ⟨digits, last, hrun, hlen, hmarked, by omega, hvalue⟩
  have hread : ∀ {digits last}, (∀ b ∈ digits, 128 ≤ b.toNat) → last.toNat < 128 → ∀ s,
      readVarInt w (digits ++ [last] ++ s) = if varIntValue (digits ++ [last]) < 2 ^ w then
        .ok (varIntValue (digits ++ [last]), s) else .error .malformed := by
    intro digits last hd hlast s
    rw [append_assoc]
    have heq := readVarIntFrom_eq (hw.trans' (by decide)) hd hlast 0 s
    rw [zero_mul, zero_add] at heq
    exact heq
  constructor
  · intro n hn
    obtain ⟨digits, last, hrun, hlen, hmarked, hlast, hvalue⟩ := hwrite n hn
    refine ⟨digits ++ [last], hrun, by rw [length_append, length_singleton, hlen], fun s => ?_⟩
    rw [hread hmarked hlast, hvalue, if_pos hn]
  · rintro code ⟨digits, last, rfl, hmarked, hlast⟩ s
    rw [hread hmarked hlast]
    split_ifs with hfits
    · refine ⟨iff_of_true ⟨_, rfl⟩ hfits, ?_⟩
      rintro n s' hok
      cases hok
      obtain ⟨digits', last', hrun, -, hmarked', hlast', hvalue⟩ := hwrite _ hfits
      obtain ⟨rfl, rfl⟩ := varIntValue_inj hmarked' hmarked (by omega) hvalue
      exact ⟨rfl, rfl, hrun⟩
    · refine ⟨iff_of_false (by simp) hfits, ?_⟩
      rintro n s' hok
      cases hok

theorem varInt_codes_uint64 : ∃ code, writeVarInt 64 (2 ^ 64 - 1) = .ok code ∧
    ∀ s, readVarInt 64 (code ++ s) = .ok (2 ^ 64 - 1, s) := by
  obtain ⟨code, hwrite, -, hread⟩ := (varInt_codes 64 (by decide)).1 (2 ^ 64 - 1) (by decide)
  exact ⟨code, hwrite, hread⟩

end Vexta
