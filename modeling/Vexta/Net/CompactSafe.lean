import Vexta.Lib.Outcome
import Vexta.Net.CompactBlock

/-! `InitData` and `FillBlock` stay inside their vectors. -/
namespace Vexta
open Lib List ExtraTxn

section Vectors
variable {α : Type} {v : List α} {i : ℕ}

theorem vectorAt_eq {a : α} (h : v[i]? = some a) : vectorAt v i = .ok a := by
  unfold vectorAt
  rw [h]

theorem vectorAt_ok (h : i < v.length) : vectorAt v i = .ok v[i] :=
  vectorAt_eq (List.getElem?_eq_getElem h)

theorem vectorSet_ok (a : α) (h : i < v.length) : vectorSet v i a = .ok (v.set i a) := if_pos h

end Vectors

def nulls (v : List CTransactionRef) : ℕ := v.countP Option.isNone

variable {v : List CTransactionRef}

theorem nulls_set_some {i : ℕ} (h : v[i]? = some none) (tx : CTransaction) :
    nulls (v.set i (some tx)) + 1 = nulls v := by
  induction v generalizing i with
  | nil => simp at h
  | cons a v ih =>
    cases i with
    | zero =>
      obtain rfl : a = none := by simpa using h
      simp [nulls]
    | succ i =>
      have hrest := ih (by simpa using h)
      unfold nulls at hrest ⊢
      rw [set_cons_succ, countP_cons, countP_cons]
      omega

theorem placePrefilled_ok {nShort : ℕ} {prefilled : List PrefilledTransaction} {i : ℕ} {last : ℤ}
    (hlength : v.length = nShort + i + prefilled.length) (hlast : -1 ≤ last)
    (hfree : ∀ j : ℕ, last < j → j < v.length → v[j]? = some none) (hnulls : nulls v + i = v.length)
    :
    ∃ result, placePrefilled nShort prefilled i last v = .ok result ∧
      ∀ w, result = some w → w.length = v.length ∧ nulls w = nShort := by
  induction prefilled generalizing i last v with
  | nil =>
    refine ⟨some v, rfl, fun w hw => ?_⟩
    obtain rfl := Option.some.inj hw
    refine ⟨rfl, ?_⟩
    rw [length_nil] at hlength
    omega
  | cons p rest ih =>
    rw [length_cons] at hlength
    unfold placePrefilled
    dsimp only
    by_cases hnull : p.tx.isNull = true
    · rw [if_pos hnull]
      exact ⟨none, rfl, fun w hw => by cases hw⟩
    rw [if_neg hnull]
    by_cases hbig : last + p.index.toNat + 1 > 2 ^ 16 - 1
    · rw [if_pos hbig]
      exact ⟨none, rfl, fun w hw => by cases hw⟩
    rw [if_neg hbig]
    by_cases hfar : last + p.index.toNat + 1 > nShort + i
    · rw [if_pos hfar]
      exact ⟨none, rfl, fun w hw => by cases hw⟩
    rw [if_neg hfar]
    generalize hpos : last + p.index.toNat + 1 = pos at hbig hfar ⊢
    have hlt : pos.toNat < v.length := by omega
    have hnone : v[pos.toNat]? = some none := hfree pos.toNat (by omega) hlt
    have hset := nulls_set_some hnone p.tx
    rw [vectorSet_ok _ hlt, ok_bind]
    have hlength' : (v.set pos.toNat (some p.tx)).length = nShort + (i + 1) + rest.length := by
      rw [length_set]
      omega
    have hfree' : ∀ j : ℕ, pos < j → j < (v.set pos.toNat (some p.tx)).length →
        (v.set pos.toNat (some p.tx))[j]? = some none := by
      intro j hj hjlt
      rw [length_set] at hjlt
      rw [List.getElem?_set_ne (by omega)]
      exact hfree j (by omega) hjlt
    obtain ⟨result, hresult, hw⟩ := ih hlength' (by omega) hfree' (by
      rw [length_set]
      omega)
    refine ⟨result, hresult, fun w hsome => ?_⟩
    have hspec := hw w hsome
    rw [length_set] at hspec
    exact hspec

theorem skipAvailable_ok (hsize : v.length < 2 ^ 16) (i fuel offset : ℕ)
    (hnulls : 0 < nulls (v.drop (i + offset))) (hfuel : v.length - (i + offset) < fuel) :
    ∃ offset', skipAvailable v i fuel offset = .ok offset' ∧ v[i + offset']? = some none ∧
      nulls (v.drop (i + offset')) = nulls (v.drop (i + offset)) := by
  induction fuel generalizing offset with
  | zero => omega
  | succ fuel ih =>
    have hlt : i + offset < v.length := by
      by_contra hge
      rw [drop_eq_nil_of_le (by omega)] at hnulls
      simp [nulls] at hnulls
    unfold skipAvailable
    rw [vectorAt_ok hlt, ok_bind]
    cases hv : v[i + offset] with
    | none =>
      refine ⟨offset, rfl, ?_, rfl⟩
      rw [List.getElem?_eq_getElem hlt, hv]
    | some tx =>
      rw [if_pos (show (some tx).isSome = true from rfl), Nat.mod_eq_of_lt (by omega)]
      have hdrop : nulls (v.drop (i + offset)) = nulls (v.drop (i + (offset + 1))) := by
        rw [drop_eq_getElem_cons hlt, hv]
        exact countP_cons_of_neg (by simp)
      rw [hdrop] at hnulls ⊢
      exact ih (offset + 1) hnulls (by omega)

variable (bucketSize : Assoc (BitVec 48) ℕ → BitVec 48 → ℕ)

theorem mapShortIDs_ok
    (hsize : v.length < 2 ^ 16) (ids : List (BitVec 48)) (i offset : ℕ)
    (shorttxids : Assoc (BitVec 48) ℕ) (hnulls : ids.length ≤ nulls (v.drop (i + offset)))
    (hids : ∀ id pos, shorttxids.lookup id = some pos → v[pos]? = some none) :
    ∃ result, mapShortIDs bucketSize v ids i offset shorttxids = .ok result ∧
      ∀ m : Assoc (BitVec 48) ℕ, result = some m →
        ∀ id pos, m.lookup id = some pos → v[pos]? = some none := by
  induction ids generalizing i offset shorttxids with
  | nil =>
    refine ⟨some shorttxids, rfl, fun m hm => ?_⟩
    obtain rfl := Option.some.inj hm
    exact hids
  | cons shortid ids ih =>
    rw [length_cons] at hnulls
    obtain ⟨offset', hskip, hnone, hsame⟩ :=
      skipAvailable_ok hsize i (v.length + 1) offset (by omega) (by omega)
    have hlt : i + offset' < v.length := (List.getElem?_eq_some_iff.mp hnone).1
    unfold mapShortIDs
    rw [hskip, ok_bind, Nat.mod_eq_of_lt (by omega)]
    dsimp only
    by_cases hbucket : bucketSize (shorttxids.insert shortid (i + offset')) shortid > 12
    · rw [if_pos hbucket]
      exact ⟨none, rfl, fun m hm => by cases hm⟩
    rw [if_neg hbucket]
    apply ih
    · have hdrop : nulls (v.drop (i + offset')) = nulls (v.drop (i + 1 + offset')) + 1 := by
        have hget : v[i + offset'] = none := by
          rw [List.getElem?_eq_getElem hlt] at hnone
          exact Option.some.inj hnone
        rw [drop_eq_getElem_cons hlt, hget, show i + 1 + offset' = i + offset' + 1 by omega]
        exact countP_cons_of_pos rfl
      omega
    · intro id pos hpos
      by_cases hid : id = shortid
      · subst hid
        rw [AList.lookup_insert] at hpos
        obtain rfl := Option.some.inj hpos
        exact hnone
      · rw [AList.lookup_insert_ne hid] at hpos
        exact hids id pos hpos

def ScanStart (header : CBlockHeader) :
    ReadStatus × List CTransactionRef ⊕ Assoc (BitVec 48) ℕ × List CTransactionRef → Prop
  | .inl (status, _) => status ≠ .invalid → header.isNull = false
  | .inr (shorttxids, txnAvailable) => header.isNull = false ∧
      ∀ id pos, shorttxids.lookup id = some pos → txnAvailable[pos]? = some none

theorem prepareScan_ok
    (cmpctblock : CBlockHeaderAndShortTxIDs) :
    ∃ start, prepareScan bucketSize cmpctblock = .ok start ∧ ScanStart cmpctblock.header start := by
  unfold prepareScan
  by_cases hnull : cmpctblock.header.isNull = true ∨
      (cmpctblock.shorttxids.isEmpty = true ∧ cmpctblock.prefilledtxn.isEmpty = true)
  · rw [if_pos hnull]
    exact ⟨_, rfl, fun hne => absurd rfl hne⟩
  rw [if_neg hnull]
  have hheader : cmpctblock.header.isNull = false := by
    cases h : cmpctblock.header.isNull with
    | true => exact absurd (.inl h) hnull
    | false => rfl
  by_cases hcount : cmpctblock.blockTxCount > 4000000 / 40
  · rw [if_pos hcount]
    exact ⟨_, rfl, fun hne => absurd rfl hne⟩
  rw [if_neg hcount]
  dsimp only
  have hsize := cmpctblock.blockTxCount_le
  have hreplicate : (List.replicate cmpctblock.blockTxCount (none : CTransactionRef)).length =
      cmpctblock.shorttxids.length + 0 + cmpctblock.prefilledtxn.length := by
    rw [length_replicate]
    rfl
  obtain ⟨placed, hplaced, hspec⟩ := placePrefilled_ok hreplicate (le_refl (-1))
    (fun j _ hj => by
      rw [length_replicate] at hj
      rw [List.getElem?_replicate, if_pos hj])
    (by simp [nulls, countP_replicate])
  rw [hplaced, ok_bind]
  cases placed with
  | none => exact ⟨_, rfl, fun hne => absurd rfl hne⟩
  | some v =>
    obtain ⟨hlength, hnulls⟩ := hspec v rfl
    dsimp only
    obtain ⟨mapped, hmapped, hids⟩ := mapShortIDs_ok bucketSize
      (show v.length < 2 ^ 16 by omega)
      cmpctblock.shorttxids 0 0 ∅ (by rw [drop_zero, hnulls]) (fun id pos h => by simp at h)
    rw [hmapped, ok_bind]
    cases mapped with
    | none => exact ⟨_, rfl, fun _ => hheader⟩
    | some shorttxids =>
      dsimp only
      split_ifs with hdistinct
      · exact ⟨_, rfl, fun _ => hheader⟩
      · exact ⟨_, rfl, hheader, hids shorttxids rfl⟩

section Scan
variable {X : Crypto} {getShortID : Uint256 → BitVec 48} {shorttxids : Assoc (BitVec 48) ℕ}
  {s : CompactScan}

structure ScanInv (shorttxids : Assoc (BitVec 48) ℕ) (s : CompactScan) : Prop where
  length_eq : s.haveTxn.length = s.txnAvailable.length
  lt : ∀ id pos, shorttxids.lookup id = some pos → pos < s.txnAvailable.length
  haveTxn : ∀ id pos tx, shorttxids.lookup id = some pos →
    s.txnAvailable[pos]? = some (some tx) → s.haveTxn[pos]? = some true

theorem ScanInv.found (h : ScanInv shorttxids s) {pos : ℕ} (ref : CTransactionRef)
    (mempoolCount extraCount : BitVec 64) :
    ScanInv shorttxids
      ⟨s.txnAvailable.set pos ref, s.haveTxn.set pos true, mempoolCount, extraCount⟩ where
  length_eq := by
    rw [length_set, length_set]
    exact h.length_eq
  lt := fun id p hp => by
    rw [length_set]
    exact h.lt id p hp
  haveTxn := fun id p tx hp htx => by
    have hlt : p < s.haveTxn.length := by
      rw [h.length_eq]
      exact h.lt id p hp
    by_cases heq : pos = p
    · subst heq
      exact List.getElem?_set_self hlt
    · rw [List.getElem?_set_ne heq] at htx ⊢
      exact h.haveTxn id p tx hp htx

theorem ScanInv.cleared (h : ScanInv shorttxids s) {pos : ℕ} (mempoolCount extraCount : BitVec 64) :
    ScanInv shorttxids ⟨s.txnAvailable.set pos none, s.haveTxn, mempoolCount, extraCount⟩ where
  length_eq := by
    rw [length_set]
    exact h.length_eq
  lt := fun id p hp => by
    rw [length_set]
    exact h.lt id p hp
  haveTxn := fun id p tx hp htx => by
    by_cases heq : pos = p
    · subst heq
      cases (List.getElem?_set_self (h.lt id pos hp)).symm.trans htx
    · rw [List.getElem?_set_ne heq] at htx
      exact h.haveTxn id p tx hp htx

theorem scanPoolTx_ok (h : ScanInv shorttxids s) (entry : Uint256 × CTransaction) :
    ∃ s', scanPoolTx getShortID shorttxids s entry = .ok s' ∧ ScanInv shorttxids s' := by
  unfold scanPoolTx
  cases hid : shorttxids.lookup (getShortID entry.1) with
  | none => exact ⟨s, rfl, h⟩
  | some pos =>
    have hlt := h.lt _ pos hid
    have hlt' : pos < s.haveTxn.length := h.length_eq ▸ hlt
    dsimp only
    rw [vectorAt_ok hlt', ok_bind]
    cases s.haveTxn[pos] with
    | false =>
      rw [if_pos Bool.false_ne_true, vectorSet_ok _ hlt, ok_bind, vectorSet_ok _ hlt',
        ok_bind]
      exact ⟨_, rfl, h.found (some entry.2) _ _⟩
    | true =>
      rw [if_neg (not_not.mpr rfl), vectorAt_ok hlt, ok_bind]
      split_ifs
      · rw [vectorSet_ok _ hlt, ok_bind]
        exact ⟨_, rfl, h.cleared _ _⟩
      · exact ⟨s, rfl, h⟩

def SlotTaken (getShortID : Uint256 → BitVec 48) (shorttxids : Assoc (BitVec 48) ℕ)
    (s : CompactScan) (hash : Uint256) : Prop :=
  ∃ pos tx, shorttxids.lookup (getShortID hash) = some pos ∧
    s.txnAvailable[pos]? = some (some tx)

theorem scanExtraTx_ok (X : Crypto) (h : ScanInv shorttxids s) (entry : Uint256 × CTransactionRef)
    (hentry : entry.2 = none → ¬ SlotTaken getShortID shorttxids s entry.1) :
    ∃ s', scanExtraTx X getShortID shorttxids s entry = .ok s' ∧ ScanInv shorttxids s' ∧
      (entry.2 = none → ¬ SlotTaken getShortID shorttxids s' entry.1) := by
  unfold scanExtraTx
  cases hid : shorttxids.lookup (getShortID entry.1) with
  | none => exact ⟨s, rfl, h, hentry⟩
  | some pos =>
    have hlt := h.lt _ pos hid
    have hlt' : pos < s.haveTxn.length := h.length_eq ▸ hlt
    dsimp only
    rw [vectorAt_ok hlt', ok_bind]
    cases s.haveTxn[pos] with
    | false =>
      rw [if_pos Bool.false_ne_true, vectorSet_ok _ hlt, ok_bind, vectorSet_ok _ hlt',
        ok_bind]
      refine ⟨_, rfl, h.found entry.2 _ _, fun hnone => ?_⟩
      rintro ⟨p, tx, hp, htx⟩
      obtain rfl : pos = p := Option.some.inj (hid.symm.trans hp)
      rw [List.getElem?_set_self hlt, hnone] at htx
      cases htx
    | true =>
      rw [if_neg (not_not.mpr rfl), vectorAt_ok hlt, ok_bind]
      cases htx : s.txnAvailable[pos] with
      | none => exact ⟨s, rfl, h, hentry⟩
      | some tx =>
        have hholds : SlotTaken getShortID shorttxids s entry.1 :=
          ⟨pos, tx, hid, by rw [List.getElem?_eq_getElem hlt, htx]⟩
        cases href : entry.2 with
        | none => exact absurd hholds (hentry href)
        | some other =>
          dsimp only [witnessHashOf]
          rw [ok_bind]
          split_ifs
          · rw [vectorSet_ok _ hlt, ok_bind]
            exact ⟨_, rfl, h.cleared _ _, fun hnone => by cases hnone⟩
          · exact ⟨s, rfl, h, fun hnone => by cases hnone⟩

theorem scanExtraTx_null (h : ScanInv shorttxids s) {hash : Uint256}
    (hholds : SlotTaken getShortID shorttxids s hash) :
    scanExtraTx X getShortID shorttxids s (hash, none) = .error .nullPointer := by
  obtain ⟨pos, tx, hid, htx⟩ := hholds
  unfold scanExtraTx
  dsimp only
  rw [hid]
  dsimp only
  rw [vectorAt_eq (h.haveTxn _ pos tx hid htx), ok_bind, if_neg (not_not.mpr rfl),
    vectorAt_eq htx, ok_bind]
  rfl

variable {α : Type} (step : CompactScan → α → Except Fault CompactScan)

theorem scanLoop_cons (nShort : ℕ) (entry : α)
    (rest : List α) (s : CompactScan) :
    scanLoop step nShort (entry :: rest) s = step s entry >>= fun s =>
      if s.mempoolCount.toNat = nShort then .ok (true, s) else scanLoop step nShort rest s := rfl

theorem scanLoop_ok {step : CompactScan → α → Except Fault CompactScan} (I : CompactScan → Prop)
    (nShort : ℕ) (entries : List α)
    (hstep : ∀ entry ∈ entries, ∀ s, I s → ∃ s', step s entry = .ok s' ∧ I s') (hs : I s) :
    ∃ exited s', scanLoop step nShort entries s = .ok (exited, s') ∧ I s' := by
  induction entries generalizing s with
  | nil => exact ⟨false, s, rfl, hs⟩
  | cons entry rest ih =>
    obtain ⟨s', hs', hI⟩ := hstep entry mem_cons_self s hs
    rw [scanLoop_cons, hs', ok_bind]
    split_ifs
    · exact ⟨true, s', rfl, hI⟩
    · exact ih (fun e he => hstep e (mem_cons_of_mem entry he)) hI

theorem scanLoop_append (nShort : ℕ)
    (first second : List α) (s : CompactScan) :
    scanLoop step nShort (first ++ second) s = scanLoop step nShort first s >>= fun r =>
      if r.1 then .ok r else scanLoop step nShort second r.2 := by
  induction first generalizing s with
  | nil => rfl
  | cons entry rest ih =>
    rw [cons_append, scanLoop_cons, scanLoop_cons]
    cases step s entry with
    | error e => rfl
    | ok s' =>
      rw [ok_bind, ok_bind]
      split_ifs
      · rfl
      · exact ih s'

theorem scanExtra_null_ok (h : ScanInv shorttxids s) (hnot : ¬ SlotTaken getShortID shorttxids s 0)
    (count : ℕ) :
    ∃ r, scanExtra X getShortID shorttxids (List.replicate count (0, none)) s = .ok r := by
  have hstep : ∀ entry ∈ List.replicate count ((0, none) : Uint256 × CTransactionRef), ∀ s,
      ScanInv shorttxids s ∧ ¬ SlotTaken getShortID shorttxids s 0 →
      ∃ s', scanExtraTx X getShortID shorttxids s entry = .ok s' ∧
        ScanInv shorttxids s' ∧ ¬ SlotTaken getShortID shorttxids s' 0 := by
    intro entry hentry s hs
    obtain rfl := eq_of_mem_replicate hentry
    obtain ⟨s', hs', hinv, hrest⟩ := scanExtraTx_ok X hs.1 (0, none) (fun _ => hs.2)
    exact ⟨s', hs', hinv, hrest rfl⟩
  obtain ⟨exited, s', hr, -⟩ := scanLoop_ok
    (fun s => ScanInv shorttxids s ∧ ¬ SlotTaken getShortID shorttxids s 0) _ _ hstep ⟨h, hnot⟩
  exact ⟨_, hr⟩

theorem scanExtra_null_error (h : ScanInv shorttxids s)
    (hholds : SlotTaken getShortID shorttxids s 0) {count : ℕ} (hcount : 0 < count) :
    scanExtra X getShortID shorttxids (List.replicate count (0, none)) s =
      .error .nullPointer := by
  obtain ⟨n, rfl⟩ : ∃ n, count = n + 1 := ⟨count - 1, by omega⟩
  unfold scanExtra
  rw [replicate_succ, scanLoop_cons, scanExtraTx_null h hholds]
  rfl

theorem scanExtra_written (X : Crypto) (getShortID : Uint256 → BitVec 48)
    (h : ScanInv shorttxids s) {entries : List (Uint256 × CTransactionRef)}
    (hentries : ∀ entry ∈ entries, entry.2.isSome) :
    ∃ exited s', scanExtra X getShortID shorttxids entries s = .ok (exited, s') ∧
      ScanInv shorttxids s' := by
  apply scanLoop_ok (ScanInv shorttxids) _ _ _ h
  intro entry hentry s hs
  have hsome := hentries entry hentry
  obtain ⟨s', hs', hinv, -⟩ := scanExtraTx_ok X hs entry (fun hnone => by
    rw [hnone] at hsome
    cases hsome)
  exact ⟨s', hs', hinv⟩

end Scan

structure ExtraTxn.Ring (maxExtraTxn : ℕ) (s : ExtraTxn) : Prop where
  entries : ∃ written count, s.vExtraTxnForCompact = written ++ List.replicate count (0, none) ∧
    (∀ entry ∈ written, entry.2.isSome) ∧ (0 < count → written.length = s.vExtraTxnForCompactIt)
  length : s.vExtraTxnForCompact = [] ∧ s.vExtraTxnForCompactIt = 0 ∨
    s.vExtraTxnForCompact.length = maxExtraTxn ∧ s.vExtraTxnForCompactIt < maxExtraTxn

theorem ExtraTxn.empty_ring (maxExtraTxn : ℕ) : empty.Ring maxExtraTxn where
  entries := ⟨[], 0, rfl, fun _ h => absurd h not_mem_nil, fun h => by omega⟩
  length := .inl ⟨rfl, rfl⟩

theorem ring_set {written : List (Uint256 × CTransactionRef)} {count it : ℕ}
    (hwritten : ∀ entry ∈ written, entry.2.isSome) (hcount : 0 < count → written.length = it)
    (hit : it < written.length + count) (entry : Uint256 × CTransactionRef)
    (hentry : entry.2.isSome) :
    ∃ written' count', (written ++ List.replicate count (0, none)).set it entry =
        written' ++ List.replicate count' (0, none) ∧ (∀ e ∈ written', e.2.isSome) ∧
      (0 < count' → written'.length = it + 1) ∧
      written'.length + count' = written.length + count := by
  cases count with
  | zero =>
    refine ⟨written.set it entry, 0, ?_, ?_, fun h => by omega, by simp⟩
    · rw [replicate_zero, append_nil, append_nil]
    · intro e he
      rcases mem_or_eq_of_mem_set he with hmem | rfl
      · exact hwritten e hmem
      · exact hentry
  | succ n =>
    have hlength := hcount (by omega)
    refine ⟨written ++ [entry], n, ?_, ?_, fun _ => by simp [hlength], by simp; omega⟩
    · rw [set_append_right it entry (by omega), hlength, Nat.sub_self, replicate_succ,
        set_cons_zero, append_assoc, singleton_append]
    · intro e he
      rcases mem_append.mp he with hmem | hmem
      · exact hwritten e hmem
      · rw [mem_singleton.mp hmem]
        exact hentry

theorem ExtraTxn.add_ring (X : Crypto) {maxExtraTxn : ℕ} {s : ExtraTxn} (h : s.Ring maxExtraTxn)
    (tx : CTransaction) : ∃ s', s.add X maxExtraTxn tx = .ok s' ∧ s'.Ring maxExtraTxn := by
  unfold add
  by_cases hzero : maxExtraTxn = 0
  · rw [if_pos hzero]
    exact ⟨s, rfl, h⟩
  rw [if_neg hzero]
  dsimp only
  -- what the buffer is after the first call has resized it
  obtain ⟨written, count, hbuffer, hwritten, hcount, hlength⟩ : ∃ written count,
      (if s.vExtraTxnForCompact.length = 0 then List.replicate maxExtraTxn (0, none)
        else s.vExtraTxnForCompact) = written ++ List.replicate count (0, none) ∧
      (∀ entry ∈ written, entry.2.isSome) ∧
      (0 < count → written.length = s.vExtraTxnForCompactIt) ∧
      written.length + count = maxExtraTxn := by
    rcases h.length with ⟨hnil, hit⟩ | ⟨hlength, -⟩
    · refine ⟨[], maxExtraTxn, ?_, fun _ h => absurd h not_mem_nil, fun _ => hit.symm,
        Nat.zero_add _⟩
      rw [hnil, if_pos length_nil, nil_append]
    · obtain ⟨written, count, hentries, hwritten, hcount⟩ := h.entries
      refine ⟨written, count, ?_, hwritten, hcount, ?_⟩
      · rw [if_neg (by omega), hentries]
      · rw [hentries, length_append, length_replicate] at hlength
        exact hlength
  have hit : s.vExtraTxnForCompactIt < maxExtraTxn := by
    rcases h.length with ⟨-, hit⟩ | ⟨-, hit⟩ <;> omega
  rw [hbuffer, vectorSet_ok _ (by rw [length_append, length_replicate]; omega),
    ok_bind]
  obtain ⟨written', count', hset, hwritten', hcount', hlength'⟩ :=
    ring_set hwritten hcount (by omega) (tx.getWitnessHash X, some tx) rfl
  refine ⟨_, rfl, ⟨written', count', hset, hwritten', fun hpos => ?_⟩, .inr ⟨?_, ?_⟩⟩
  · have hnext := hcount' hpos
    rw [Nat.mod_eq_of_lt (by omega)]
    exact hnext
  · rw [hset, length_append, length_replicate]
    omega
  · exact Nat.mod_lt _ (by omega)

def ExtraTxn.addAll (X : Crypto) (maxExtraTxn : ℕ) (txs : List CTransaction) :
    Except Fault ExtraTxn := txs.foldlM (add X maxExtraTxn) .empty

theorem ExtraTxn.addAll_ring (X : Crypto) (maxExtraTxn : ℕ) (txs : List CTransaction) :
    ∃ s, addAll X maxExtraTxn txs = .ok s ∧ s.Ring maxExtraTxn := by
  have hrun : ∀ s : ExtraTxn, s.Ring maxExtraTxn →
      ∃ s', txs.foldlM (add X maxExtraTxn) s = .ok s' ∧ s'.Ring maxExtraTxn := by
    induction txs with
    | nil => exact fun s hs => ⟨s, rfl, hs⟩
    | cons tx txs ih =>
      intro s hs
      obtain ⟨s', hadd, hs'⟩ := add_ring X hs tx
      rw [foldlM_cons, hadd, ok_bind]
      exact ih s' hs'
  exact hrun .empty (empty_ring maxExtraTxn)

theorem fillTransactions_ok (missing : List CTransaction) (v : List CTransactionRef) (offset : ℕ) :
    ∃ result, fillTransactions v (missing.map some) offset = .ok result ∧
      ∀ vtx n, result = some (vtx, n) → ∃ txs : List CTransaction, vtx = txs.map some := by
  induction v generalizing offset with
  | nil => exact ⟨_, rfl, fun vtx n h => ⟨[], by cases h; rfl⟩⟩
  | cons ref rest ih =>
    cases ref with
    | none =>
      unfold fillTransactions
      by_cases hmissing : (missing.map some).length ≤ offset
      · rw [if_pos hmissing]
        exact ⟨none, rfl, fun _ _ h => by cases h⟩
      · rw [if_neg hmissing]
        obtain ⟨result, hresult, hsome⟩ := ih (offset + 1)
        rw [length_map] at hmissing
        have hlt : offset < missing.length := by omega
        have hget : (missing.map some)[offset]? = some (some missing[offset]) := by
          rw [List.getElem?_map, List.getElem?_eq_getElem hlt]
          rfl
        rw [vectorAt_eq hget, ok_bind, hresult, ok_bind]
        rcases result with _ | ⟨vtx, n⟩
        · exact ⟨none, rfl, fun _ _ h => by cases h⟩
        · obtain ⟨txs, rfl⟩ := hsome vtx n rfl
          exact ⟨_, rfl, fun vtx' n' h => ⟨missing[offset] :: txs, by cases h; rfl⟩⟩
    | some tx =>
      unfold fillTransactions
      obtain ⟨result, hresult, hsome⟩ := ih offset
      rw [hresult, ok_bind]
      rcases result with _ | ⟨vtx, n⟩
      · exact ⟨none, rfl, fun _ _ h => by cases h⟩
      · obtain ⟨txs, rfl⟩ := hsome vtx n rfl
        exact ⟨_, rfl, fun vtx' n' h => ⟨tx :: txs, by cases h; rfl⟩⟩

theorem derefTransactions_some (txs : List CTransaction) :
    derefTransactions (txs.map some) = .ok txs := by
  unfold derefTransactions
  induction txs with
  | nil => rfl
  | cons tx txs ih =>
    rw [map_cons, mapM_cons, ih]
    rfl

theorem fillBlock_ok (checkBlock : CBlockHeader → List CTransaction → CheckBlockResult)
    {partialBlock : PartiallyDownloadedBlock} (hheader : partialBlock.header.isNull = false)
    (missing : List CTransaction) :
    ∃ r, fillBlock checkBlock partialBlock (missing.map some) = .ok r := by
  unfold fillBlock
  rw [if_neg (by rw [hheader]; exact Bool.false_ne_true)]
  obtain ⟨result, hresult, hsome⟩ := fillTransactions_ok missing partialBlock.txnAvailable 0
  rw [hresult, ok_bind]
  rcases result with _ | ⟨vtx, n⟩
  · exact ⟨_, rfl⟩
  · obtain ⟨txs, rfl⟩ := hsome vtx n rfl
    dsimp only
    by_cases hcount : (missing.map some).length ≠ n
    · rw [if_pos hcount]
      exact ⟨_, rfl⟩
    · rw [if_neg hcount, derefTransactions_some, ok_bind]
      cases checkBlock partialBlock.header txs <;> exact ⟨_, rfl⟩

section Whole
variable (X : Crypto) (getShortID : Uint256 → BitVec 48)
  (bucketSize : Assoc (BitVec 48) ℕ → BitVec 48 → ℕ) (cmpctblock : CBlockHeaderAndShortTxIDs)
  (vTxHashes : List (Uint256 × CTransaction)) (extraTxn : List (Uint256 × CTransactionRef))

/-- The scan meets an unwritten entry and the short id of its null hash is taken. -/
def UnwrittenMatch : Prop :=
  ∃ shorttxids txnAvailable exited s s',
    prepareScan bucketSize cmpctblock = .ok (.inr (shorttxids, txnAvailable)) ∧
    scanPool getShortID shorttxids txnAvailable vTxHashes = .ok (exited, s) ∧
    scanExtra X getShortID shorttxids (extraTxn.takeWhile (·.2.isSome)) s = .ok (false, s') ∧
    (∃ entry ∈ extraTxn, entry.2 = none) ∧ SlotTaken getShortID shorttxids s' 0

def CompactReturns (checkBlock : CBlockHeader → List CTransaction → CheckBlockResult) : Prop :=
  ∃ status partialBlock,
    initData X getShortID bucketSize cmpctblock vTxHashes extraTxn = .ok (status, partialBlock) ∧
    (status ≠ .invalid → ∀ missing : List CTransaction,
      ∃ r, fillBlock checkBlock partialBlock (missing.map some) = .ok r)

end Whole

theorem scanPool_ok (getShortID : Uint256 → BitVec 48) {shorttxids : Assoc (BitVec 48) ℕ}
    {v : List CTransactionRef}
    (hids : ∀ id pos, shorttxids.lookup id = some pos → v[pos]? = some none)
    (vTxHashes : List (Uint256 × CTransaction)) :
    ∃ exited s, scanPool getShortID shorttxids v vTxHashes = .ok (exited, s) ∧
      ScanInv shorttxids s := by
  apply scanLoop_ok (ScanInv shorttxids) _ _ (fun entry _ s hs => scanPoolTx_ok hs entry)
  refine ⟨length_replicate, fun id pos hpos => ?_, fun id pos tx hpos htx => ?_⟩
  · exact (List.getElem?_eq_some_iff.mp (hids id pos hpos)).1
  · dsimp only at htx
    cases (hids id pos hpos).symm.trans htx

theorem takeWhile_ring {written : List (Uint256 × CTransactionRef)} {count : ℕ}
    (hwritten : ∀ entry ∈ written, entry.2.isSome) :
    (written ++ List.replicate count (0, none)).takeWhile (·.2.isSome) = written := by
  rw [takeWhile_append_of_pos hwritten]
  cases count with
  | zero => simp
  | succ n => simp [replicate_succ]

theorem initData_fillBlock_returns_iff (X : Crypto) (getShortID : Uint256 → BitVec 48)
    (bucketSize : Assoc (BitVec 48) ℕ → BitVec 48 → ℕ)
    (checkBlock : CBlockHeader → List CTransaction → CheckBlockResult)
    (cmpctblock : CBlockHeaderAndShortTxIDs) (vTxHashes : List (Uint256 × CTransaction))
    (maxExtraTxn : ℕ) (txs : List CTransaction) :
    ∃ extra, addAll X maxExtraTxn txs = .ok extra ∧
      (CompactReturns X getShortID bucketSize cmpctblock vTxHashes extra.vExtraTxnForCompact
          checkBlock ↔
        ¬ UnwrittenMatch X getShortID bucketSize cmpctblock vTxHashes
          extra.vExtraTxnForCompact) := by
  obtain ⟨extra, hextra, hring⟩ := addAll_ring X maxExtraTxn txs
  obtain ⟨written, count, hentries, hwritten, -⟩ := hring.entries
  refine ⟨extra, hextra, ?_⟩
  rw [hentries]
  unfold CompactReturns initData UnwrittenMatch
  rw [takeWhile_ring hwritten]
  obtain ⟨start, hstart, hspec⟩ := prepareScan_ok bucketSize cmpctblock
  rw [hstart, ok_bind]
  rcases start with ⟨status, v⟩ | ⟨shorttxids, v⟩
  · -- no scan is made
    constructor
    · rintro - ⟨_, _, _, _, _, h, -⟩
      cases h
    · intro _
      exact ⟨status, _, rfl, fun hne missing => fillBlock_ok checkBlock (hspec hne) missing⟩
  · obtain ⟨hheader, hids⟩ := hspec
    obtain ⟨exited, s, hpool, hs⟩ := scanPool_ok getShortID hids vTxHashes
    obtain ⟨exited', s', hfirst, hs'⟩ := scanExtra_written X getShortID hs hwritten
    have hscan : scanExtra X getShortID shorttxids (written ++ List.replicate count (0, none)) s =
        if exited' then .ok (exited', s')
        else scanExtra X getShortID shorttxids (List.replicate count (0, none)) s' := by
      unfold scanExtra at hfirst ⊢
      rw [scanLoop_append, hfirst, ok_bind]
    dsimp only
    rw [hpool, ok_bind]
    dsimp only
    rw [hscan]
    constructor
    · rintro ⟨status, partialBlock, hinit, -⟩ ⟨ids, w, _, t, t', hprep, hp, hf, ⟨e, he, hnone⟩, hh⟩
      cases hprep
      rw [hpool] at hp
      cases hp
      rw [hfirst] at hf
      cases hf
      have hcount : 0 < count := by
        by_contra hzero
        obtain rfl : count = 0 := by omega
        rw [replicate_zero, append_nil] at he
        have hsome := hwritten e he
        rw [hnone] at hsome
        cases hsome
      rw [if_neg Bool.false_ne_true, scanExtra_null_error hs' hh hcount] at hinit
      cases hinit
    · intro hno
      obtain ⟨r, hr⟩ : ∃ r, (if exited' then Except.ok (exited', s')
          else scanExtra X getShortID shorttxids (List.replicate count (0, none)) s') =
          (Except.ok r : Except Fault _) := by
        cases exited' with
        | true => exact ⟨_, rfl⟩
        | false =>
          rw [if_neg Bool.false_ne_true]
          by_cases hcount : count = 0
          · subst hcount
            exact ⟨_, rfl⟩
          · apply scanExtra_null_ok hs'
            intro hholds
            apply hno
            refine ⟨shorttxids, v, exited, s, s', rfl, hpool, hfirst, ⟨(0, none), ?_, rfl⟩, hholds⟩
            exact mem_append_right _ (mem_replicate.mpr ⟨hcount, rfl⟩)
      rw [hr, ok_bind]
      exact ⟨.ok, _, rfl, fun _ missing => fillBlock_ok checkBlock hheader missing⟩

namespace SampleCompact

def crypto : Crypto := { acceptingCrypto with sha256 := fun _ => 9 }

def getShortID (hash : Uint256) : BitVec 48 := hash.setWidth 48

def tx : CTransaction := ⟨[⟨⟨5, 0⟩, [], 0, []⟩], [], 2, 0⟩

def cmpctblock : CBlockHeaderAndShortTxIDs := ⟨⟨1, 0, 0, 0, 1, 0⟩, [0, 1], [], by decide⟩

end SampleCompact

open SampleCompact in
/-- The mempool has a transaction with the short id of the null hash, and one of the two extra
entries is in use. -/
theorem initData_unwritten_entry :
    (addAll crypto 2 [tx] >>= fun extra =>
      initData crypto getShortID (fun _ _ => 1) cmpctblock [(2 ^ 48, tx)]
        extra.vExtraTxnForCompact) = .error .nullPointer := by
  decide +kernel

end Vexta
