import Vexta.Connect.Update
import Vexta.Lib.Reader
import Vexta.Primitives.TxCode

/-! What `Unserialize` takes off the front of a stream is what was serialized to it. -/
namespace Vexta
open Lib List CTransaction Reader Reads

def maxSize : ℕ := 0x02000000

def readWord (w n : ℕ) : Reader (BitVec w) := do
  let x ← number n
  pure (BitVec.ofNat w x)

def readCanonical (n least : ℕ) : Reader ℕ := do
  let x ← number n
  if x < least then fail else pure x

def readCompactNumber : Reader ℕ := do
  let chSize ← number 1
  if chSize < 253 then pure chSize
  else if chSize = 253 then readCanonical 2 253
  else if chSize = 254 then readCanonical 4 0x10000
  else readCanonical 8 0x100000000

def readCompactSize : Reader ℕ := do
  let nSizeRet ← readCompactNumber
  if maxSize < nSizeRet then fail else pure nSizeRet

def readVector : Reader Bytes := do
  let nSize ← readCompactSize
  bytes nSize

def readVectorOf {α : Type} (r : Reader α) : Reader (List α) := do
  let nSize ← readCompactSize
  r.many nSize

def readOutPoint : Reader COutPoint := do
  let hash ← readWord 256 32
  let n ← readWord 32 4
  pure ⟨hash, n⟩

def readTxIn : Reader CTxIn := do
  let prevout ← readOutPoint
  let scriptSig ← readVector
  let nSequence ← readWord 32 4
  pure ⟨prevout, scriptSig, nSequence, []⟩

def readTxOut : Reader CTxOut := do
  let nValue ← readWord 64 8
  let scriptPubKey ← readVector
  if h : scriptPubKey.length < 2 ^ 32 then pure ⟨nValue, scriptPubKey, h⟩ else fail

def readScriptWitness (txin : CTxIn) : Reader CTxIn := do
  let scriptWitness ← readVectorOf readVector
  pure { txin with scriptWitness }

variable (fAllowWitness : Bool)

/-- Inputs, outputs and flags. Empty inputs mark the extended format. -/
def readInputsOutputs : Reader (List CTxIn × List CTxOut × ℕ) := do
  let vin ← readVectorOf readTxIn
  if vin.isEmpty && fAllowWitness then do
    let flags ← number 1
    if flags = 0 then pure ([], [], 0)
    else do
      let vin ← readVectorOf readTxIn
      let vout ← readVectorOf readTxOut
      pure (vin, vout, flags)
  else do
    let vout ← readVectorOf readTxOut
    pure (vin, vout, 0)

def readWitnesses (vin : List CTxIn) (flags : ℕ) : Reader (List CTxIn) :=
  if flags % 2 = 1 ∧ fAllowWitness then do
    let vin ← each readScriptWitness vin
    if vin.all fun txin => txin.scriptWitness.isEmpty then fail
    else if flags ≠ 1 then fail
    else pure vin
  else if flags ≠ 0 then fail
  else pure vin

def unserializeTransaction : Reader CTransaction := do
  let nVersion ← readWord 32 4
  let (vin, vout, flags) ← readInputsOutputs fAllowWitness
  let vin ← readWitnesses fAllowWitness vin flags
  let nLockTime ← readWord 32 4
  pure ⟨vin, vout, nVersion, nLockTime⟩

def readTransaction : Reader CTransaction := unserializeTransaction true

def readBlockHeader : Reader CBlockHeader := do
  let nVersion ← readWord 32 4
  let hashPrevBlock ← readWord 256 32
  let hashMerkleRoot ← readWord 256 32
  let nTime ← readWord 32 4
  let nBits ← readWord 32 4
  let nNonce ← readWord 32 4
  pure ⟨nVersion, hashPrevBlock, hashMerkleRoot, nTime, nBits, nNonce⟩

def readBlock : Reader CBlock := do
  let header ← readBlockHeader
  let vtx ← readVectorOf readTransaction
  pure ⟨header, vtx⟩

def CBlock.serialize (block : CBlock) : Bytes :=
  block.header.serialize ++
    (writeCompactSize block.vtx.length ++ block.vtx.flatMap CTransaction.serialize)

theorem reads_word {w n : ℕ} (h : 2 ^ w ≤ 256 ^ n) (x : BitVec w) :
    Reads (readWord w n) (le n x.toNat) x := by
  apply Reads.bind_pure (.number (lt_of_lt_of_le x.isLt h))
  rw [BitVec.ofNat_toNat, BitVec.setWidth_eq]
  exact .pure x

theorem reads_canonical {n least x : ℕ} (h : x < 256 ^ n) (hleast : least ≤ x) :
    Reads (readCanonical n least) (le n x) x :=
  (number h).bind_pure (.ite_neg (by omega) (.pure x))

theorem reads_compactNumber {x : ℕ} (h : x < 2 ^ 64) :
    Reads readCompactNumber (writeCompactSize x) x := by
  have hbyte : ∀ y < 256, Reads (number 1) [UInt8.ofNat y] y := by
    intro y hy
    have hread : Reads (number 1) (le 1 y) y := number (by omega)
    have hle : le 1 y = [UInt8.ofNat y] := by
      simp [le, Nat.mod_eq_of_lt hy]
    rwa [hle] at hread
  rcases writeCompactSize_cases x with ⟨hx, hw⟩ | ⟨hl, hx, hw⟩ | ⟨hl, hx, hw⟩ | ⟨hl, hw⟩
  · rw [hw]
    apply (hbyte x (by omega)).bind_pure
    rw [if_pos hx]
    exact .pure x
  · rw [hw]
    exact (hbyte 253 (by omega)).bind (reads_canonical hx hl)
  · rw [hw]
    exact (hbyte 254 (by omega)).bind (reads_canonical hx hl)
  · rw [hw]
    exact (hbyte 255 (by omega)).bind (reads_canonical (by omega) hl)

theorem reads_compactSize {x : ℕ} (h : x ≤ maxSize) :
    Reads readCompactSize (writeCompactSize x) x := by
  have hx : x < 2 ^ 64 := lt_of_le_of_lt h (by decide)
  exact (reads_compactNumber hx).bind_pure (.ite_neg (by omega) (.pure x))

theorem reads_vector {b : Bytes} (h : b.length ≤ maxSize) :
    Reads readVector (serializeVector b) b :=
  (reads_compactSize h).bind (.bytes rfl)

theorem reads_vectorOf {α : Type} {r : Reader α} {code : α → Bytes} {l : List α}
    (hlength : l.length ≤ maxSize) (h : ∀ a ∈ l, Reads r (code a) a) :
    Reads (readVectorOf r) (writeCompactSize l.length ++ l.flatMap code) l :=
  (reads_compactSize hlength).bind (.many h)

theorem reads_outPoint (o : COutPoint) : Reads readOutPoint o.serialize o :=
  (reads_word (by norm_num) o.hash).bind ((reads_word (by norm_num) o.n).bind_pure (.pure o))

theorem reads_txIn {txin : CTxIn} (h : txin.scriptSig.length ≤ maxSize) :
    Reads readTxIn txin.serialize txin.stripped := by
  unfold CTxIn.serialize
  rw [append_assoc]
  apply (reads_outPoint txin.prevout).bind
  apply (reads_vector h).bind
  exact (reads_word (by norm_num) txin.nSequence).bind_pure (.pure _)

theorem reads_txOut {txout : CTxOut} (h : txout.scriptPubKey.length ≤ maxSize) :
    Reads readTxOut txout.serialize txout := by
  apply (reads_word (by norm_num) txout.nValue).bind
  apply (reads_vector h).bind_pure
  rw [dif_pos txout.size_lt]
  exact .pure txout

/-- The sizes written with a transaction are in range, and it has inputs. -/
structure CTransaction.Readable (tx : CTransaction) : Prop where
  inputs : tx.vin ≠ []
  vin : tx.vin.length ≤ maxSize
  vout : tx.vout.length ≤ maxSize
  scriptSig : ∀ txin ∈ tx.vin, txin.scriptSig.length ≤ maxSize
  scriptPubKey : ∀ txout ∈ tx.vout, txout.scriptPubKey.length ≤ maxSize
  witness : ∀ txin ∈ tx.vin, txin.scriptWitness.length ≤ maxSize
  items : ∀ txin ∈ tx.vin, ∀ item ∈ txin.scriptWitness, item.length ≤ maxSize

section
variable {tx : CTransaction}

def serializeWitness (txin : CTxIn) : Bytes :=
  writeCompactSize txin.scriptWitness.length ++ txin.scriptWitness.flatMap serializeVector

theorem reads_vin (h : tx.Readable) : Reads (readVectorOf readTxIn)
    (writeCompactSize tx.vin.length ++ tx.vin.flatMap CTxIn.serialize)
    (tx.vin.map CTxIn.stripped) := by
  have hlength : (tx.vin.map CTxIn.stripped).length = tx.vin.length := length_map ..
  have hstripped : (tx.vin.map CTxIn.stripped).flatMap CTxIn.serialize =
      tx.vin.flatMap CTxIn.serialize := by
    rw [flatMap_map]
    rfl
  rw [← hlength, ← hstripped]
  apply reads_vectorOf
  · rw [hlength]
    exact h.vin
  · intro txin hmem
    obtain ⟨txin', hmem', rfl⟩ := mem_map.mp hmem
    exact reads_txIn (h.scriptSig txin' hmem')

theorem reads_vout (h : tx.Readable) : Reads (readVectorOf readTxOut)
    (writeCompactSize tx.vout.length ++ tx.vout.flatMap CTxOut.serialize) tx.vout :=
  reads_vectorOf h.vout fun txout hmem => reads_txOut (h.scriptPubKey txout hmem)

theorem reads_scriptWitness {txin : CTxIn} (hlength : txin.scriptWitness.length ≤ maxSize)
    (hitems : ∀ item ∈ txin.scriptWitness, item.length ≤ maxSize) :
    Reads (readScriptWitness txin.stripped) (serializeWitness txin) txin :=
  (reads_vectorOf hlength fun item hmem => reads_vector (hitems item hmem)).bind_pure
    (.pure txin)

theorem isEmpty_map_stripped (h : tx.Readable) : (tx.vin.map CTxIn.stripped).isEmpty = false := by
  rw [isEmpty_eq_false_iff]
  intro hnil
  exact h.inputs (map_eq_nil_iff.mp hnil)

theorem reads_inputsOutputs (h : tx.Readable) (fAllowWitness : Bool) :
    Reads (readInputsOutputs fAllowWitness) (serializeBody tx.vin tx.vout)
      (tx.vin.map CTxIn.stripped, tx.vout, 0) := by
  apply (reads_vin h).bind
  apply Reads.ite_neg
  · rw [isEmpty_map_stripped h]
    exact Bool.false_ne_true
  · exact (reads_vout h).bind_pure (.pure _)

theorem reads_inputsOutputs_extended (h : tx.Readable) : Reads (readInputsOutputs true)
    ([0, 1] ++ serializeBody tx.vin tx.vout) (tx.vin.map CTxIn.stripped, tx.vout, 1) := by
  have hzero : Reads readCompactSize [0] 0 := reads_compactSize (Nat.zero_le _)
  have hnone : Reads (readVectorOf readTxIn) [0] [] := hzero.bind_pure (.pure [])
  have hone : (1 : ℕ) < 256 ^ 1 := by norm_num
  have hflag : Reads (number 1) [1] 1 := number hone
  have hmark : ([0, 1] : Bytes) = [0] ++ [1] := rfl
  rw [hmark, append_assoc]
  apply hnone.bind
  apply hflag.bind
  apply Reads.ite_neg (by norm_num)
  apply (reads_vin h).bind
  exact (reads_vout h).bind_pure (.pure _)

theorem reads_witnesses (h : tx.Readable) (hwitness : tx.hasWitness = true) :
    Reads (readWitnesses true (tx.vin.map CTxIn.stripped) 1) (tx.vin.flatMap serializeWitness)
      tx.vin := by
  have heach : Reads (each readScriptWitness (tx.vin.map CTxIn.stripped))
      (tx.vin.flatMap serializeWitness) (tx.vin.map id) :=
    each fun txin hmem => reads_scriptWitness (h.witness txin hmem) (h.items txin hmem)
  rw [map_id] at heach
  apply heach.bind_pure
  apply Reads.ite_neg
  · rw [all_eq_true]
    intro hall
    obtain ⟨txin, hmem, hsome⟩ := any_eq_true.mp hwitness
    simp [hall txin hmem] at hsome
  · exact .ite_neg (by simp) (.pure _)

theorem reads_noWitnesses (fAllowWitness : Bool) (vin : List CTxIn) :
    Reads (readWitnesses fAllowWitness vin 0) [] vin :=
  Reads.ite_neg (by simp) (.ite_neg (by simp) (.pure _))

theorem reads_serializeNoWitness (fAllowWitness : Bool)
    (hbody : Reads (readInputsOutputs fAllowWitness) (serializeBody tx.vin tx.vout)
      (tx.vin.map CTxIn.stripped, tx.vout, 0)) :
    Reads (unserializeTransaction fAllowWitness) tx.serializeNoWitness tx.stripWitness := by
  have hcode : tx.serializeNoWitness = le 4 tx.nVersion.toNat ++
      (serializeBody tx.vin tx.vout ++ le 4 tx.nLockTime.toNat) := by
    simp only [serializeNoWitness, serializeBody, append_assoc]
  rw [hcode]
  apply (reads_word (by norm_num) tx.nVersion).bind
  apply hbody.bind
  apply (reads_noWitnesses fAllowWitness _).bind
  exact (reads_word (by norm_num) tx.nLockTime).bind_pure (.pure _)

theorem stripWitness_of_not_hasWitness (h : tx.hasWitness = false) : tx.stripWitness = tx := by
  have hstripped : tx.vin.map CTxIn.stripped = tx.vin := by
    refine (map_congr_left fun txin hmem => ?_).trans (map_id _)
    have hempty : txin.scriptWitness = [] := by
      have hall := any_eq_false.mp h txin hmem
      simpa using hall
    unfold CTxIn.stripped
    rw [← hempty]
    rfl
  change { tx with vin := tx.vin.map CTxIn.stripped } = tx
  rw [hstripped]

theorem reads_transaction (h : tx.Readable) : Reads readTransaction tx.serialize tx := by
  unfold serialize
  cases hwitness : tx.hasWitness with
  | true =>
    rw [if_pos rfl]
    change Reads readTransaction (le 4 tx.nVersion.toNat ++ [0, 1] ++ _ ++ _ ++
      tx.vin.flatMap serializeWitness ++ _) tx
    have hcode : ∀ v w l : Bytes, v ++ [0, 1] ++
        (writeCompactSize tx.vin.length ++ tx.vin.flatMap CTxIn.serialize) ++
        (writeCompactSize tx.vout.length ++ tx.vout.flatMap CTxOut.serialize) ++ w ++ l =
      v ++ ([0, 1] ++ serializeBody tx.vin tx.vout ++ (w ++ l)) := by
      simp only [serializeBody, append_assoc, implies_true]
    rw [hcode]
    apply (reads_word (by norm_num) tx.nVersion).bind
    apply (reads_inputsOutputs_extended h).bind
    apply (reads_witnesses h hwitness).bind
    exact (reads_word (by norm_num) tx.nLockTime).bind_pure (.pure tx)
  | false =>
    have hread := reads_serializeNoWitness true (reads_inputsOutputs h true)
    rw [stripWitness_of_not_hasWitness hwitness] at hread
    rw [if_neg Bool.false_ne_true]
    exact hread

end

section
variable {tx : CTransaction}

theorem length_le_serializeVector (b : Bytes) : b.length ≤ (serializeVector b).length := by
  unfold serializeVector
  rw [length_append]
  omega

theorem scriptSig_le_serialize (txin : CTxIn) : txin.scriptSig.length ≤ txin.serialize.length := by
  have hvector := length_le_serializeVector txin.scriptSig
  unfold CTxIn.serialize
  rw [length_append, length_append]
  omega

theorem scriptPubKey_le_serialize (txout : CTxOut) :
    txout.scriptPubKey.length ≤ txout.serialize.length := by
  have hvector := length_le_serializeVector txout.scriptPubKey
  unfold CTxOut.serialize
  rw [length_append]
  omega

theorem CTxIn.serialize_ne_nil (txin : CTxIn) : txin.serialize ≠ [] := by
  intro hnil
  have hlength := congrArg List.length hnil
  simp [CTxIn.serialize] at hlength

theorem writeCompactSize_ne_nil (n : ℕ) : writeCompactSize n ≠ [] := by
  unfold writeCompactSize
  split_ifs <;> simp

theorem serializeVector_ne_nil (b : Bytes) : serializeVector b ≠ [] :=
  append_ne_nil_of_left_ne_nil (writeCompactSize_ne_nil _) _

theorem body_le_serialize (tx : CTransaction) :
    (tx.vin.flatMap CTxIn.serialize).length ≤ tx.serialize.length ∧
      (tx.vout.flatMap CTxOut.serialize).length ≤ tx.serialize.length := by
  unfold serialize serializeNoWitness
  split_ifs <;> simp only [length_append] <;> omega

theorem witness_le_serialize (hwitness : tx.hasWitness = true) :
    (tx.vin.flatMap serializeWitness).length ≤ tx.serialize.length := by
  unfold serialize
  rw [if_pos hwitness, length_append, length_append]
  change _ ≤ _ + (tx.vin.flatMap serializeWitness).length + _
  omega

theorem serializeWitness_bounds (txin : CTxIn) :
    txin.scriptWitness.length ≤ (serializeWitness txin).length ∧
      ∀ item ∈ txin.scriptWitness, item.length ≤ (serializeWitness txin).length := by
  have hall := length_le_length_flatMap (l := txin.scriptWitness)
    fun item _ => serializeVector_ne_nil item
  unfold serializeWitness
  rw [length_append]
  refine ⟨by omega, fun item hmem => ?_⟩
  have hitem := length_code_le_flatMap serializeVector hmem
  have hvector := length_le_serializeVector item
  omega

theorem readable_of_length (hin : tx.vin ≠ []) (h : tx.serialize.length ≤ maxSize) :
    tx.Readable := by
  obtain ⟨hvin, hvout⟩ := body_le_serialize tx
  have hwitness : ∀ txin ∈ tx.vin, txin.scriptWitness = [] ∨
      (serializeWitness txin).length ≤ maxSize := by
    intro txin hmem
    cases hhas : tx.hasWitness with
    | false =>
      left
      have hnone := any_eq_false.mp hhas txin hmem
      simpa using hnone
    | true =>
      right
      have hcode := length_code_le_flatMap serializeWitness hmem
      have hall := witness_le_serialize hhas
      omega
  constructor
  · exact hin
  · have hlength := length_le_length_flatMap (l := tx.vin) fun txin _ => txin.serialize_ne_nil
    omega
  · have hlength := length_le_length_flatMap (l := tx.vout) fun txout _ => txout.serialize_ne_nil
    omega
  · intro txin hmem
    have hcode := length_code_le_flatMap CTxIn.serialize hmem
    have hscript := scriptSig_le_serialize txin
    omega
  · intro txout hmem
    have hcode := length_code_le_flatMap CTxOut.serialize hmem
    have hscript := scriptPubKey_le_serialize txout
    omega
  · intro txin hmem
    rcases hwitness txin hmem with hnil | hlength
    · simp [hnil]
    · have hbound := (serializeWitness_bounds txin).1
      omega
  · intro txin hmem item hitem
    rcases hwitness txin hmem with hnil | hlength
    · simp [hnil] at hitem
    · have hbound := (serializeWitness_bounds txin).2 item hitem
      omega

end

theorem CTransaction.serialize_ne_nil (tx : CTransaction) : tx.serialize ≠ [] := by
  intro hnil
  have hlength := congrArg List.length hnil
  unfold serialize serializeNoWitness at hlength
  split_ifs at hlength <;> simp at hlength

theorem reads_blockHeader (header : CBlockHeader) :
    Reads readBlockHeader header.serialize header := by
  unfold CBlockHeader.serialize
  simp only [append_assoc]
  apply (reads_word (by norm_num) header.nVersion).bind
  apply (reads_word (by norm_num) header.hashPrevBlock).bind
  apply (reads_word (by norm_num) header.hashMerkleRoot).bind
  apply (reads_word (by norm_num) header.nTime).bind
  apply (reads_word (by norm_num) header.nBits).bind
  exact (reads_word (by norm_num) header.nNonce).bind_pure (.pure header)

theorem reads_block {block : CBlock} (hlength : block.serialize.length ≤ maxSize)
    (h : ∀ tx ∈ block.vtx, tx.vin ≠ []) : Reads readBlock block.serialize block := by
  have hvtx : (block.vtx.flatMap CTransaction.serialize).length ≤ maxSize := by
    unfold CBlock.serialize at hlength
    rw [length_append, length_append] at hlength
    omega
  have hcount := length_le_length_flatMap (l := block.vtx) fun tx _ => tx.serialize_ne_nil
  apply (reads_blockHeader block.header).bind
  refine (reads_vectorOf (by omega) fun tx hmem => reads_transaction ?_).bind_pure (.pure block)
  have htx := length_code_le_flatMap serialize hmem
  exact readable_of_length (h tx hmem) (by omega)

end Vexta
