import Vexta.Chain.Header
import Vexta.Lib.Assoc
import Vexta.Validation.InputScripts

/-! `PartiallyDownloadedBlock`: a block put together from a compact block message. -/
namespace Vexta
open Lib

abbrev CTransactionRef := Option CTransaction

def CTransaction.isNull (tx : CTransaction) : Bool := tx.vin.isEmpty && tx.vout.isEmpty

def CBlockHeader.isNull (header : CBlockHeader) : Bool := header.nBits == 0

def CBlockHeader.null : CBlockHeader := ⟨0, 0, 0, 0, 0, 0⟩

def vectorAt {α : Type} (v : List α) (i : ℕ) : Except Fault α :=
  match v[i]? with
  | some a => .ok a
  | none => .error .outOfRange

def vectorSet {α : Type} (v : List α) (i : ℕ) (a : α) : Except Fault (List α) :=
  if i < v.length then .ok (v.set i a) else .error .outOfRange

structure ExtraTxn where
  vExtraTxnForCompact : List (Uint256 × CTransactionRef)
  vExtraTxnForCompactIt : ℕ
  deriving DecidableEq

def ExtraTxn.empty : ExtraTxn := ⟨[], 0⟩

def ExtraTxn.add (X : Crypto) (maxExtraTxn : ℕ) (s : ExtraTxn) (tx : CTransaction) :
    Except Fault ExtraTxn :=
  if maxExtraTxn = 0 then .ok s
  else do
    let buffer := if s.vExtraTxnForCompact.length = 0 then List.replicate maxExtraTxn (0, none)
      else s.vExtraTxnForCompact
    let buffer ← vectorSet buffer s.vExtraTxnForCompactIt (tx.getWitnessHash X, some tx)
    .ok ⟨buffer, (s.vExtraTxnForCompactIt + 1) % maxExtraTxn⟩

structure PrefilledTransaction where
  index : BitVec 16
  tx : CTransaction
  deriving DecidableEq

/-- A compact block message that deserializes. -/
structure CBlockHeaderAndShortTxIDs where
  header : CBlockHeader
  shorttxids : List (BitVec 48)
  prefilledtxn : List PrefilledTransaction
  blockTxCount_le : shorttxids.length + prefilledtxn.length ≤ 2 ^ 16 - 1
  deriving DecidableEq

def CBlockHeaderAndShortTxIDs.blockTxCount (cmpctblock : CBlockHeaderAndShortTxIDs) : ℕ :=
  cmpctblock.shorttxids.length + cmpctblock.prefilledtxn.length

inductive ReadStatus
  | ok
  | invalid
  | failed
  | checkBlockFailed
  deriving DecidableEq, Repr

structure PartiallyDownloadedBlock where
  header : CBlockHeader
  txnAvailable : List CTransactionRef
  prefilledCount : BitVec 64
  mempoolCount : BitVec 64
  extraCount : BitVec 64
  deriving DecidableEq

def PartiallyDownloadedBlock.empty : PartiallyDownloadedBlock := ⟨.null, [], 0, 0, 0⟩

def placePrefilled (nShort : ℕ) : List PrefilledTransaction → ℕ → ℤ → List CTransactionRef →
    Except Fault (Option (List CTransactionRef))
  | [], _, _, txnAvailable => .ok (some txnAvailable)
  | prefilled :: rest, i, lastprefilledindex, txnAvailable =>
    if prefilled.tx.isNull then .ok none
    else
      let lastprefilledindex := lastprefilledindex + prefilled.index.toNat + 1
      if lastprefilledindex > 2 ^ 16 - 1 then .ok none
      else if lastprefilledindex > nShort + i then .ok none
      else do
        let txnAvailable ← vectorSet txnAvailable lastprefilledindex.toNat (some prefilled.tx)
        placePrefilled nShort rest (i + 1) lastprefilledindex txnAvailable

def skipAvailable (txnAvailable : List CTransactionRef) (i : ℕ) : ℕ → ℕ → Except Fault ℕ
  | 0, _ => .error .outOfFuel
  | fuel + 1, indexOffset => do
    let tx ← vectorAt txnAvailable (i + indexOffset)
    if tx.isSome then skipAvailable txnAvailable i fuel ((indexOffset + 1) % 2 ^ 16)
    else .ok indexOffset

/-- Positions by short id; none if too many ids share a bucket. -/
def mapShortIDs (bucketSize : Assoc (BitVec 48) ℕ → BitVec 48 → ℕ)
    (txnAvailable : List CTransactionRef) :
    List (BitVec 48) → ℕ → ℕ → Assoc (BitVec 48) ℕ → Except Fault (Option (Assoc (BitVec 48) ℕ))
  | [], _, _, shorttxids => .ok (some shorttxids)
  | shortid :: rest, i, indexOffset, shorttxids => do
    let indexOffset ← skipAvailable txnAvailable i (txnAvailable.length + 1) indexOffset
    let shorttxids := shorttxids.insert shortid ((i + indexOffset) % 2 ^ 16)
    if bucketSize shorttxids shortid > 12 then .ok none
    else mapShortIDs bucketSize txnAvailable rest (i + 1) indexOffset shorttxids

structure CompactScan where
  txnAvailable : List CTransactionRef
  haveTxn : List Bool
  mempoolCount : BitVec 64
  extraCount : BitVec 64
  deriving DecidableEq

section
variable (X : Crypto) (getShortID : Uint256 → BitVec 48) (shorttxids : Assoc (BitVec 48) ℕ)

def scanPoolTx (s : CompactScan) (entry : Uint256 × CTransaction) : Except Fault CompactScan :=
  match shorttxids.lookup (getShortID entry.1) with
  | none => .ok s
  | some idit => do
    let have_ ← vectorAt s.haveTxn idit
    if ¬ have_ then do
      let txnAvailable ← vectorSet s.txnAvailable idit (some entry.2)
      let haveTxn ← vectorSet s.haveTxn idit true
      .ok { s with txnAvailable, haveTxn, mempoolCount := s.mempoolCount + 1 }
    else do
      let available ← vectorAt s.txnAvailable idit
      if available.isSome then do
        let txnAvailable ← vectorSet s.txnAvailable idit none
        .ok { s with txnAvailable, mempoolCount := s.mempoolCount - 1 }
      else .ok s

def witnessHashOf (tx : CTransactionRef) : Except Fault Uint256 :=
  match tx with
  | some tx => .ok (tx.getWitnessHash X)
  | none => .error .nullPointer

def scanExtraTx (s : CompactScan) (entry : Uint256 × CTransactionRef) : Except Fault CompactScan :=
  match shorttxids.lookup (getShortID entry.1) with
  | none => .ok s
  | some idit => do
    let have_ ← vectorAt s.haveTxn idit
    if ¬ have_ then do
      let txnAvailable ← vectorSet s.txnAvailable idit entry.2
      let haveTxn ← vectorSet s.haveTxn idit true
      .ok { txnAvailable, haveTxn, mempoolCount := s.mempoolCount + 1,
            extraCount := s.extraCount + 1 }
    else do
      let available ← vectorAt s.txnAvailable idit
      match available with
      | none => .ok s
      | some tx => do
        let hash ← witnessHashOf X entry.2
        if tx.getWitnessHash X ≠ hash then do
          let txnAvailable ← vectorSet s.txnAvailable idit none
          .ok { s with txnAvailable, mempoolCount := s.mempoolCount - 1,
                       extraCount := s.extraCount - 1 }
        else .ok s

def scanLoop {α : Type} (step : CompactScan → α → Except Fault CompactScan) (nShort : ℕ) :
    List α → CompactScan → Except Fault (Bool × CompactScan)
  | [], s => .ok (false, s)
  | entry :: rest, s => do
    let s ← step s entry
    if s.mempoolCount.toNat = nShort then .ok (true, s) else scanLoop step nShort rest s

end

/-- `InitData` up to the scans: a status, or what the scans start from. -/
def prepareScan (bucketSize : Assoc (BitVec 48) ℕ → BitVec 48 → ℕ)
    (cmpctblock : CBlockHeaderAndShortTxIDs) :
    Except Fault (ReadStatus × List CTransactionRef ⊕
      Assoc (BitVec 48) ℕ × List CTransactionRef) :=
  if cmpctblock.header.isNull ∨
      (cmpctblock.shorttxids.isEmpty ∧ cmpctblock.prefilledtxn.isEmpty) then
    .ok (.inl (.invalid, []))
  else if cmpctblock.blockTxCount > 4000000 / 40 then .ok (.inl (.invalid, []))
  else do
    let txnAvailable := List.replicate cmpctblock.blockTxCount none
    match ← placePrefilled cmpctblock.shorttxids.length cmpctblock.prefilledtxn 0 (-1)
      txnAvailable with
    | none => .ok (.inl (.invalid, txnAvailable))
    | some txnAvailable =>
      match ← mapShortIDs bucketSize txnAvailable cmpctblock.shorttxids 0 0 ∅ with
      | none => .ok (.inl (.failed, txnAvailable))
      | some shorttxids =>
        if shorttxids.entries.length ≠ cmpctblock.shorttxids.length then
          .ok (.inl (.failed, txnAvailable))
        else .ok (.inr (shorttxids, txnAvailable))

section
variable (X : Crypto) (getShortID : Uint256 → BitVec 48)
  (bucketSize : Assoc (BitVec 48) ℕ → BitVec 48 → ℕ)

variable (shorttxids : Assoc (BitVec 48) ℕ)

def scanPool (txnAvailable : List CTransactionRef)
    (vTxHashes : List (Uint256 × CTransaction)) : Except Fault (Bool × CompactScan) :=
  scanLoop (scanPoolTx getShortID shorttxids) shorttxids.entries.length vTxHashes
    ⟨txnAvailable, List.replicate txnAvailable.length false, 0, 0⟩

def scanExtra (extraTxn : List (Uint256 × CTransactionRef))
    (s : CompactScan) : Except Fault (Bool × CompactScan) :=
  scanLoop (scanExtraTx X getShortID shorttxids) shorttxids.entries.length extraTxn s

def initData (cmpctblock : CBlockHeaderAndShortTxIDs) (vTxHashes : List (Uint256 × CTransaction))
    (extraTxn : List (Uint256 × CTransactionRef)) :
    Except Fault (ReadStatus × PartiallyDownloadedBlock) := do
  match ← prepareScan bucketSize cmpctblock with
  | .inl (status, txnAvailable) =>
    .ok (status, { PartiallyDownloadedBlock.empty with header := cmpctblock.header, txnAvailable })
  | .inr (shorttxids, txnAvailable) => do
    let (_, s) ← scanPool getShortID shorttxids txnAvailable vTxHashes
    let (_, s) ← scanExtra X getShortID shorttxids extraTxn s
    .ok (.ok, {
      header := cmpctblock.header
      txnAvailable := s.txnAvailable
      prefilledCount := BitVec.ofNat 64 cmpctblock.prefilledtxn.length
      mempoolCount := s.mempoolCount
      extraCount := s.extraCount })

end

inductive CheckBlockResult
  | valid
  | mutated
  | invalid
  deriving DecidableEq, Repr

def fillTransactions : List CTransactionRef → List CTransactionRef → ℕ →
    Except Fault (Option (List CTransactionRef × ℕ))
  | [], _, txMissingOffset => .ok (some ([], txMissingOffset))
  | none :: rest, vtxMissing, txMissingOffset =>
    if vtxMissing.length ≤ txMissingOffset then .ok none
    else do
      let tx ← vectorAt vtxMissing txMissingOffset
      match ← fillTransactions rest vtxMissing (txMissingOffset + 1) with
      | none => .ok none
      | some (vtx, offset) => .ok (some (tx :: vtx, offset))
  | some tx :: rest, vtxMissing, txMissingOffset => do
    match ← fillTransactions rest vtxMissing txMissingOffset with
    | none => .ok none
    | some (vtx, offset) => .ok (some (some tx :: vtx, offset))

def derefTransactions (vtx : List CTransactionRef) : Except Fault (List CTransaction) :=
  vtx.mapM fun tx => match tx with
    | some tx => .ok tx
    | none => .error .nullPointer

/-- `FillBlock`: the status, the transactions, the object if complete. -/
def fillBlock (checkBlock : CBlockHeader → List CTransaction → CheckBlockResult)
    (partialBlock : PartiallyDownloadedBlock) (vtxMissing : List CTransactionRef) :
    Except Fault (ReadStatus × List CTransaction × PartiallyDownloadedBlock) :=
  if partialBlock.header.isNull then .error .assertion
  else do
    match ← fillTransactions partialBlock.txnAvailable vtxMissing 0 with
    | none => .ok (.invalid, [], partialBlock)
    | some (vtx, txMissingOffset) =>
      let cleared := { partialBlock with header := .null, txnAvailable := [] }
      if vtxMissing.length ≠ txMissingOffset then .ok (.invalid, [], cleared)
      else do
        let vtx ← derefTransactions vtx
        match checkBlock partialBlock.header vtx with
        | .mutated => .ok (.failed, vtx, cleared)
        | .invalid => .ok (.checkBlockFailed, vtx, cleared)
        | .valid => .ok (.ok, vtx, cleared)

end Vexta
