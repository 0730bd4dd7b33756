import Vexta.Primitives.ReadBlock

/-! Transactions and their encodings determine each other. -/
namespace Vexta
open Lib List CTransaction Takes

theorem takes_word {w n : ℕ} (h : 256 ^ n ≤ 2 ^ w) :
    Takes (readWord w n) fun x t => t = le n x.toNat := by
  refine (Takes.number n).bind ?_
  rintro x t ⟨rfl, hx⟩
  apply Takes.pure
  rw [append_nil, BitVec.toNat_ofNat, Nat.mod_eq_of_lt (lt_of_lt_of_le hx h)]

theorem takes_canonical (n least : ℕ) :
    Takes (readCanonical n least) fun x t => t = le n x ∧ x < 256 ^ n ∧ least ≤ x := by
  refine (number n).bind ?_
  rintro x t ⟨rfl, hx⟩
  refine .ite (fun _ => .fail) fun hleast => .pure ?_
  exact ⟨append_nil _, hx, Nat.not_lt.mp hleast⟩

theorem takes_compactSize : Takes readCompactSize fun x t => t = writeCompactSize x := by
  have hnumber : Takes readCompactNumber fun x t => t = writeCompactSize x := by
    refine (number 1).bind ?_
    rintro chSize t ⟨rfl, hsize⟩
    have hbyte : le 1 chSize = [UInt8.ofNat chSize] := by
      simp [le, Nat.mod_eq_of_lt (show chSize < 256 by omega)]
    rw [hbyte]
    refine .ite (fun hsmall => .pure ?_) fun hsmall => ?_
    · rw [append_nil, writeCompactSize, if_pos hsmall]
    refine .ite (fun h253 => ?_) fun h253 => .ite (fun h254 => ?_) fun h254 => ?_
    · refine (takes_canonical 2 253).mono ?_
      rintro x u ⟨rfl, hx, hleast⟩
      rw [writeCompactSize, if_neg (by omega), if_pos (by omega), h253]
      rfl
    · refine (takes_canonical 4 0x10000).mono ?_
      rintro x u ⟨rfl, hx, hleast⟩
      rw [writeCompactSize, if_neg (by omega), if_neg (by omega), if_pos (by omega), h254]
      rfl
    · have h255 : chSize = 255 := by omega
      refine (takes_canonical 8 0x100000000).mono ?_
      rintro x u ⟨rfl, hx, hleast⟩
      rw [writeCompactSize, if_neg (by omega), if_neg (by omega), if_neg (by omega), h255]
      rfl
  refine hnumber.bind ?_
  rintro x t rfl
  exact .ite (fun _ => .fail) fun _ => .pure (append_nil _)

theorem takes_vector : Takes readVector fun b t => t = serializeVector b := by
  refine takes_compactSize.bind ?_
  rintro nSize t rfl
  refine (bytes nSize).mono ?_
  rintro b u ⟨rfl, rfl⟩
  rfl

theorem takes_vectorOf {α : Type} {r : Reader α} {code : α → Bytes} {R : α → Prop}
    (h : Takes r fun a t => t = code a ∧ R a) : Takes (readVectorOf r) fun l t =>
      t = writeCompactSize l.length ++ l.flatMap code ∧ ∀ a ∈ l, R a := by
  refine takes_compactSize.bind ?_
  rintro nSize t rfl
  refine (many h nSize).mono ?_
  rintro l u ⟨rfl, rfl, hl⟩
  exact ⟨rfl, hl⟩

theorem takes_txIn :
    Takes readTxIn fun txin t => t = txin.serialize ∧ txin.scriptWitness = [] := by
  have houtPoint : Takes readOutPoint fun o t => t = o.serialize := by
    refine (takes_word (by norm_num)).bind ?_
    rintro hash t rfl
    refine (takes_word (by norm_num)).bind ?_
    rintro n u rfl
    exact .pure (by rw [append_nil]; rfl)
  refine houtPoint.bind ?_
  rintro prevout t rfl
  refine takes_vector.bind ?_
  rintro scriptSig u rfl
  refine (takes_word (by norm_num)).bind ?_
  rintro nSequence v rfl
  refine .pure ⟨?_, rfl⟩
  rw [append_nil, CTxIn.serialize, append_assoc]

theorem takes_txOut : Takes readTxOut fun txout t => t = txout.serialize ∧ True := by
  refine (takes_word (by norm_num)).bind ?_
  rintro nValue t rfl
  refine takes_vector.bind ?_
  rintro scriptPubKey u rfl
  split
  · exact .pure ⟨by rw [append_nil]; rfl, trivial⟩
  · exact .fail

theorem takes_scriptWitness {txin : CTxIn} (h : txin.scriptWitness = []) :
    Takes (readScriptWitness txin) fun txin' t =>
      t = serializeWitness txin' ∧ txin'.stripped = txin := by
  have hitem : Takes readVector fun b t => t = serializeVector b ∧ True :=
    takes_vector.mono fun _ _ hb => ⟨hb, trivial⟩
  refine (takes_vectorOf hitem).bind ?_
  rintro scriptWitness t ⟨rfl, -⟩
  apply Takes.pure
  rw [append_nil]
  refine ⟨rfl, ?_⟩
  unfold CTxIn.stripped
  rw [← h]

theorem serializeBody_stripped (vin : List CTxIn) (vout : List CTxOut) :
    serializeBody (vin.map CTxIn.stripped) vout = serializeBody vin vout := by
  unfold serializeBody
  rw [length_map, flatMap_map]
  rfl

theorem takes_inputsOutputs : Takes (readInputsOutputs true) fun r t =>
    (∀ txin ∈ r.1, txin.scriptWitness = []) ∧
      (r.2.2 = 0 ∧ t = serializeBody r.1 r.2.1 ∨
        r.2.2 ≠ 0 ∧ t = [0, UInt8.ofNat r.2.2] ++ serializeBody r.1 r.2.1) := by
  refine (takes_vectorOf takes_txIn).bind ?_
  rintro vin t ⟨rfl, hvin⟩
  cases vin with
  | cons txin vin =>
    refine .ite (fun h => by cases h) fun _ => ?_
    refine (takes_vectorOf takes_txOut).bind ?_
    rintro vout u ⟨rfl, -⟩
    refine .pure ⟨hvin, .inl ⟨rfl, ?_⟩⟩
    rw [append_nil]
    rfl
  | nil =>
    refine .ite (fun _ => ?_) fun h => absurd rfl h
    refine (number 1).bind ?_
    rintro flags u ⟨rfl, hflags⟩
    have hbyte : le 1 flags = [UInt8.ofNat flags] := by
      simp [le, Nat.mod_eq_of_lt (show flags < 256 by omega)]
    refine .ite (fun h0 => .pure ⟨by simp, .inl ⟨rfl, ?_⟩⟩) fun h0 => ?_
    · rw [h0]
      rfl
    refine (takes_vectorOf takes_txIn).bind ?_
    rintro vin t ⟨rfl, hvin⟩
    refine (takes_vectorOf takes_txOut).bind ?_
    rintro vout u ⟨rfl, -⟩
    refine .pure ⟨hvin, .inr ⟨h0, ?_⟩⟩
    rw [append_nil, hbyte]
    simp only [serializeBody, append_assoc]
    rfl

theorem takes_witnesses {vin : List CTxIn} (h : ∀ txin ∈ vin, txin.scriptWitness = [])
    (flags : ℕ) : Takes (readWitnesses true vin flags) fun vin' t =>
      flags = 0 ∧ vin' = vin ∧ t = [] ∨
        flags = 1 ∧ vin'.map CTxIn.stripped = vin ∧ t = vin'.flatMap serializeWitness ∧
          vin'.any (fun txin => !txin.scriptWitness.isEmpty) = true := by
  refine .ite (fun _ => ?_) fun hodd => ?_
  · refine (each fun txin hmem => takes_scriptWitness (h txin hmem)).bind ?_
    rintro vin' t ⟨rfl, hvin'⟩
    refine .ite (fun _ => .fail) fun hall => .ite (fun _ => .fail) fun h1 => ?_
    refine .pure (.inr ⟨not_not.mp h1, hvin', append_nil _, ?_⟩)
    simpa using hall
  · exact .ite (fun _ => .fail) fun h0 => .pure (.inl ⟨not_not.mp h0, rfl, rfl⟩)

theorem takes_transaction :
    Takes (unserializeTransaction true) fun tx t => t = tx.serialize := by
  refine (takes_word (by norm_num)).bind ?_
  rintro nVersion t rfl
  refine takes_inputsOutputs.bind ?_
  rintro ⟨vin, vout, flags⟩ u ⟨hvin, hbody⟩
  refine (takes_witnesses hvin flags).bind ?_
  rintro vin' v hwitness
  refine (takes_word (by norm_num)).bind ?_
  rintro nLockTime w rfl
  apply Takes.pure
  rw [append_nil]
  dsimp only at hbody
  rcases hwitness with ⟨h0, rfl, rfl⟩ | ⟨h1, rfl, rfl, hany⟩
  · obtain ⟨-, rfl⟩ := hbody.resolve_right fun h => h.1 h0
    have hnone : hasWitness ⟨vin', vout, nVersion, nLockTime⟩ = false := by
      refine any_eq_false.mpr fun txin hmem => ?_
      rw [hvin txin hmem]
      decide
    rw [serialize, if_neg (by rw [hnone]; decide)]
    simp only [serializeNoWitness, serializeBody, append_assoc, nil_append]
  · obtain ⟨-, rfl⟩ := hbody.resolve_left fun h => by omega
    have hsome : hasWitness ⟨vin', vout, nVersion, nLockTime⟩ = true := hany
    rw [serialize, if_pos hsome, h1, serializeBody_stripped]
    simp only [serializeBody, append_assoc]
    rfl

section
variable {tx : CTransaction}

theorem reads_empty_body (fAllowWitness : Bool) (hvin : tx.vin = []) (hvout : tx.vout = []) :
    Reads (readInputsOutputs fAllowWitness) (serializeBody tx.vin tx.vout)
      (tx.vin.map CTxIn.stripped, tx.vout, 0) := by
  rw [hvin, hvout]
  cases fAllowWitness <;> exact fun _ => rfl

/-- A transaction with inputs, or with neither inputs nor outputs, is read back from its encoding,
without its witnesses from the one without them. A string read to its end is the encoding. -/
theorem unserializeTransaction_roundTrip :
    (∀ tx : CTransaction, tx.Readable ∨ tx.vin = [] ∧ tx.vout = [] →
      Reads (unserializeTransaction true) tx.serialize tx ∧
      Reads (unserializeTransaction false) tx.serializeNoWitness tx.stripWitness) ∧
    (∀ (s : Bytes) (tx : CTransaction), unserializeTransaction true s = .ok (tx, []) →
      s = tx.serialize ∧ ∀ t, unserializeTransaction true t = .ok (tx, []) → t = s) := by
  have hread : ∀ (s : Bytes) (tx : CTransaction), unserializeTransaction true s = .ok (tx, []) →
      s = tx.serialize := by
    intro s tx hs
    obtain ⟨t, rfl, rfl⟩ := takes_transaction s tx [] hs
    exact append_nil _
  refine ⟨fun tx h => ?_, fun s tx hs => ⟨hread s tx hs, fun t ht => ?_⟩⟩
  · have hbody : ∀ fAllowWitness, Reads (readInputsOutputs fAllowWitness)
        (serializeBody tx.vin tx.vout) (tx.vin.map CTxIn.stripped, tx.vout, 0) := by
      intro fAllowWitness
      rcases h with h | ⟨hvin, hvout⟩
      · exact reads_inputsOutputs h fAllowWitness
      · exact reads_empty_body fAllowWitness hvin hvout
    refine ⟨?_, reads_serializeNoWitness false (hbody false)⟩
    rcases h with h | ⟨hvin, -⟩
    · exact reads_transaction h
    · have hnone : tx.hasWitness = false := by rw [hasWitness, hvin]; rfl
      have hempty := reads_serializeNoWitness true (hbody true)
      rw [stripWitness_of_not_hasWitness hnone] at hempty
      rw [serialize, if_neg (by rw [hnone]; decide)]
      exact hempty
  · rw [hread s tx hs, hread t tx ht]

end

def witnessSpend : CTransaction :=
  ⟨[⟨⟨7, 0⟩, [], 0, [[1]]⟩], [⟨1000, [0x51], CScript.short_true⟩], 2, 0⟩

theorem readable_witnessSpend : witnessSpend.Readable := by
  constructor <;> decide

theorem unserializeTransaction_roundTrip_spend :
    unserializeTransaction true witnessSpend.serialize = .ok (witnessSpend, []) ∧
      unserializeTransaction false witnessSpend.serializeNoWitness =
        .ok (witnessSpend.stripWitness, []) ∧
      ∀ t, unserializeTransaction true t = .ok (witnessSpend, []) → t = witnessSpend.serialize := by
  obtain ⟨hread, hstripped⟩ :=
    unserializeTransaction_roundTrip.1 witnessSpend (.inl readable_witnessSpend)
  have hall := hread []
  have hnone := hstripped []
  rw [append_nil] at hall hnone
  exact ⟨hall, hnone, (unserializeTransaction_roundTrip.2 _ _ hall).2⟩

end Vexta
