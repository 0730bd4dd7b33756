import Vexta.Script.Pqr
import Mathlib.Data.Set.Function

/-! What a post-quantum signature hash commits to, if SHA256 has no collision. -/
namespace Vexta
open Lib List CScript CTxIn

section Collisions
variable {X : Crypto} {S : Set Bytes}

def Crypto.hashedTwice (X : Crypto) (l : List Bytes) : List Bytes := l ++ l.map X.sha256Bytes

theorem hash256_inj (hS : S.InjOn X.sha256) {l m : List Bytes} {a b : Bytes}
    (hl : ∀ s ∈ X.hashedTwice l, s ∈ S) (hm : ∀ s ∈ X.hashedTwice m, s ∈ S) (ha : a ∈ l)
    (hb : b ∈ m) (h : X.hash256 a = X.hash256 b) : a = b := by
  have hmem : ∀ {k : List Bytes} {s : Bytes}, s ∈ k →
      s ∈ X.hashedTwice k ∧ X.sha256Bytes s ∈ X.hashedTwice k := by
    intro k s hs
    unfold Crypto.hashedTwice
    exact ⟨mem_append_left _ hs, mem_append_right _ (mem_map_of_mem hs)⟩
  have hdigest :=
    hS (hl _ (hmem ha).2) (hm _ (hmem hb).2) h
  have hsha : X.sha256 a = X.sha256 b := by
    apply BitVec.eq_of_toNat_eq
    exact le_inj (lt_of_lt_of_le (BitVec.isLt _) (by norm_num))
      (lt_of_lt_of_le (BitVec.isLt _) (by norm_num)) hdigest
  exact hS (hl _ (hmem ha).1) (hm _ (hmem hb).1) hsha

end Collisions

/-- A call of `SignatureHashPQR` with 32 program bytes and ready data of `Init`. -/
structure PqrCall (X : Crypto) where
  txTo : CTransaction
  nIn : ℕ
  txin : CTxIn
  witnessVersion : ℕ
  program : Bytes
  amount : BitVec 64
  spentOutputs : List CTxOut
  force : Bool
  txdata : PrecomputedTransactionData
  input_eq : txTo.vin[nIn]? = some txin
  version_eq : witnessVersion = 2 ∨ witnessVersion = 3
  program_length : program.length = 32
  init_eq : PrecomputedTransactionData.init X txTo spentOutputs force = .ok txdata
  ready : txdata.bip143SegwitReady = true

namespace PqrCall
variable {X : Crypto} {S : Set Bytes} (c : PqrCall X)

def sigHash : Except Failure Uint256 :=
  signatureHashPQR X c.txTo c.nIn c.witnessVersion c.program c.amount c.txdata

def preimage : Bytes :=
  pqrPreimage c.txTo c.txin c.witnessVersion c.program c.amount c.txdata

def strings : List Bytes :=
  X.hashedTwice [prevoutsBytes c.txTo, sequencesBytes c.txTo, outputsBytes c.txTo, c.preimage]

theorem sigHash_eq : c.sigHash = .ok (X.hash256 c.preimage) :=
  signatureHashPQR_eq c.amount c.input_eq c.program_length c.version_eq

theorem txdata_eq :
    c.txdata.hashPrevouts = X.hash256 (prevoutsBytes c.txTo) ∧
      c.txdata.hashSequence = X.hash256 (sequencesBytes c.txTo) ∧
      c.txdata.hashOutputs = X.hash256 (outputsBytes c.txTo) := by
  have hinit := c.init_eq
  have hready := c.ready
  unfold PrecomputedTransactionData.init at hinit
  split_ifs at hinit
  rw [← Except.ok.inj hinit] at hready ⊢
  simp only at hready
  simp only [hready, Bool.true_or, if_true]
  exact ⟨rfl, rfl, rfl⟩

theorem pqrScriptCode_eq : pqrScriptCode c.witnessVersion c.program =
    (if c.witnessVersion = 2 then op2 else op3) :: 32 :: c.program := by
  have hlen := c.program_length
  have hshort : c.program.length < opPushData1.toNat := by
    rw [hlen]
    decide
  unfold pqrScriptCode pushVector
  rw [if_pos hshort, hlen]
  rfl

theorem length_pqrScriptCode :
    (pqrScriptCode c.witnessVersion c.program).length = 34 := by
  rw [c.pqrScriptCode_eq]
  simp [c.program_length]

theorem pqrScriptCode_inj {a b : PqrCall X}
    (h : pqrScriptCode a.witnessVersion a.program = pqrScriptCode b.witnessVersion b.program) :
    a.witnessVersion = b.witnessVersion ∧ a.program = b.program := by
  rw [a.pqrScriptCode_eq, b.pqrScriptCode_eq] at h
  simp only [List.cons.injEq, true_and] at h
  refine ⟨?_, h.2⟩
  rcases a.version_eq with ha | ha <;> rcases b.version_eq with hb | hb <;>
    simp only [ha, hb] at h ⊢
  · exact absurd h.1 (by decide)
  · exact absurd h.1 (by decide)

/-- The calls agree on all that a signature of all inputs and outputs binds. -/
structure Agree (a b : PqrCall X) : Prop where
  nVersion : a.txTo.nVersion = b.txTo.nVersion
  prevouts : a.txTo.vin.map prevout = b.txTo.vin.map prevout
  sequences : a.txTo.vin.map nSequence = b.txTo.vin.map nSequence
  vout : a.txTo.vout = b.txTo.vout
  nLockTime : a.txTo.nLockTime = b.txTo.nLockTime
  prevout : a.txin.prevout = b.txin.prevout
  nSequence : a.txin.nSequence = b.txin.nSequence
  witnessVersion : a.witnessVersion = b.witnessVersion
  program : a.program = b.program
  amount : a.amount = b.amount

theorem prevoutsBytes_eq (tx : CTransaction) :
    prevoutsBytes tx = (tx.vin.map prevout).flatMap COutPoint.serialize := by
  simp only [prevoutsBytes, flatMap_map]

theorem sequencesBytes_eq (tx : CTransaction) :
    sequencesBytes tx = (tx.vin.map nSequence).flatMap fun n => le 4 n.toNat := by
  simp only [sequencesBytes, flatMap_map]

private theorem prefixFree_word32 : PrefixFree fun x : BitVec 32 => le 4 x.toNat :=
  prefixFree_le (by norm_num)

private theorem prefixFree_word64 : PrefixFree fun x : BitVec 64 => le 8 x.toNat :=
  prefixFree_le (by norm_num)

private theorem prefixFree_word256 : PrefixFree fun x : Uint256 => le 32 x.toNat :=
  prefixFree_le (by norm_num)

theorem agree_of_preimage_eq (hS : S.InjOn X.sha256) {a b : PqrCall X}
    (ha : ∀ s ∈ a.strings, s ∈ S) (hb : ∀ s ∈ b.strings, s ∈ S)
    (h : a.preimage = b.preimage) : Agree a b := by
  obtain ⟨haP, haS, haO⟩ := a.txdata_eq
  obtain ⟨hbP, hbS, hbO⟩ := b.txdata_eq
  simp only [preimage, pqrPreimage, append_assoc, cons_append, nil_append,
    List.cons.injEq, true_and] at h
  obtain ⟨hversion, h⟩ := prefixFree_word32 h
  obtain ⟨hprevouts, h⟩ := prefixFree_word256 h
  obtain ⟨hsequences, h⟩ := prefixFree_word256 h
  obtain ⟨hprevout, h⟩ := COutPoint.prefixFree_serialize h
  obtain ⟨hscript, h⟩ := serializeVector_append_inj
    (by rw [a.length_pqrScriptCode]; norm_num) (by rw [b.length_pqrScriptCode]; norm_num) h
  obtain ⟨hamount, h⟩ := prefixFree_word64 h
  obtain ⟨hsequence, h⟩ := prefixFree_word32 h
  obtain ⟨houtputs, h⟩ := prefixFree_word256 h
  obtain ⟨hlock, _⟩ := prefixFree_word32 h
  obtain ⟨hwitness, hprogram⟩ := pqrScriptCode_inj hscript
  rw [haP, hbP] at hprevouts
  rw [haS, hbS] at hsequences
  rw [haO, hbO] at houtputs
  have hP := hash256_inj hS ha hb (by simp) (by simp) hprevouts
  have hQ := hash256_inj hS ha hb (by simp) (by simp) hsequences
  have hO := hash256_inj hS ha hb (by simp) (by simp) houtputs
  rw [prevoutsBytes_eq, prevoutsBytes_eq] at hP
  rw [sequencesBytes_eq, sequencesBytes_eq] at hQ
  exact {
    nVersion := hversion
    prevouts := COutPoint.prefixFree_serialize.flatMap_inj
      (fun o => ne_nil_of_length_eq_add_one o.length_serialize) hP
    sequences := prefixFree_word32.flatMap_inj
      (fun n => ne_nil_of_length_eq_add_one (length_le 4 n.toNat)) hQ
    vout := CTxOut.prefixFree_serialize.flatMap_inj CTxOut.serialize_ne_nil hO
    nLockTime := hlock
    prevout := hprevout
    nSequence := hsequence
    witnessVersion := hwitness
    program := hprogram
    amount := hamount }

theorem preimage_eq_of_agree {a b : PqrCall X} (h : Agree a b) : a.preimage = b.preimage := by
  obtain ⟨haP, haS, haO⟩ := a.txdata_eq
  obtain ⟨hbP, hbS, hbO⟩ := b.txdata_eq
  have hP : prevoutsBytes a.txTo = prevoutsBytes b.txTo := by
    rw [prevoutsBytes_eq, prevoutsBytes_eq, h.prevouts]
  have hQ : sequencesBytes a.txTo = sequencesBytes b.txTo := by
    rw [sequencesBytes_eq, sequencesBytes_eq, h.sequences]
  have hO : outputsBytes a.txTo = outputsBytes b.txTo := by
    unfold outputsBytes
    rw [h.vout]
  simp only [preimage, pqrPreimage, haP, haS, haO, hbP, hbS, hbO, hP, hQ, hO, h.nVersion,
    h.prevout, h.witnessVersion, h.program, h.amount, h.nSequence, h.nLockTime]

theorem sigHash_eq_iff (hS : S.InjOn X.sha256) {a b : PqrCall X} (ha : ∀ s ∈ a.strings, s ∈ S)
    (hb : ∀ s ∈ b.strings, s ∈ S) : a.sigHash = b.sigHash ↔ Agree a b := by
  rw [a.sigHash_eq, b.sigHash_eq]
  constructor
  · intro h
    have hpre := hash256_inj hS ha hb (by simp) (by simp) (Except.ok.inj h)
    exact agree_of_preimage_eq hS ha hb hpre
  · intro h
    rw [preimage_eq_of_agree h]

theorem serializeVector_pqrScriptCode :
    serializeVector (pqrScriptCode c.witnessVersion c.program) =
      34 :: pqrScriptCode c.witnessVersion c.program := by
  have hsize : writeCompactSize 34 = [34] := by decide
  unfold serializeVector
  rw [c.length_pqrScriptCode, hsize]
  rfl

theorem scriptCode_of_serializeVector {scriptCode : CScript} {b : UInt8}
    (h : serializeVector scriptCode =
      b :: serializeVector (pqrScriptCode c.witnessVersion c.program)) :
    b = 35 ∧ scriptCode = pushVector (pqrScriptCode c.witnessVersion c.program) := by
  have hlen := c.length_pqrScriptCode
  have hpush : pushVector (pqrScriptCode c.witnessVersion c.program) =
      34 :: pqrScriptCode c.witnessVersion c.program := by
    unfold pushVector
    rw [hlen]
    rfl
  rw [c.serializeVector_pqrScriptCode] at h
  have htotal := congrArg List.length h
  simp only [serializeVector, length_append, length_cons, hlen] at htotal
  unfold serializeVector at h
  rcases writeCompactSize_cases scriptCode.length with
    ⟨_, hsize⟩ | ⟨hbig, _⟩ | ⟨hbig, _⟩ | ⟨hbig, _⟩
  · rw [hsize] at h htotal
    have h35 : scriptCode.length = 35 := by
      simp only [length_singleton] at htotal
      omega
    rw [h35] at h
    simp only [cons_append, nil_append, List.cons.injEq] at h
    exact ⟨h.1.symm, h.2.trans hpush.symm⟩
  · omega
  · omega
  · omega

/-- A version 0 preimage is a post-quantum one only with every field moved by the epoch byte. -/
theorem eq_of_bip143Preimage_eq {tx : CTransaction} {nIn : ℕ} {txin : CTxIn}
    {scriptCode : CScript} {nHashType : BitVec 32} {amount : BitVec 64}
    {cache : Option PrecomputedTransactionData}
    (h : bip143Preimage X tx nIn txin scriptCode nHashType amount cache = c.preimage) :
    c.txin.prevout.n.toNat / 2 ^ 24 = 0x23 ∧ nHashType = 1 ∧
      scriptCode = pushVector (pqrScriptCode c.witnessVersion c.program) := by
  set n := c.txin.prevout.n.toNat with hn
  have hindex : le 4 n = [UInt8.ofNat (n % 256), UInt8.ofNat (n / 256 % 256),
      UInt8.ofNat (n / 256 / 256 % 256)] ++ [UInt8.ofNat (n / 256 / 256 / 256 % 256)] := rfl
  unfold bip143Preimage preimage pqrPreimage at h
  generalize bip143Hashes X tx nIn nHashType cache = hashes at h
  obtain ⟨hp, hs, ho⟩ := hashes
  have hout : c.txin.prevout.serialize = le 32 c.txin.prevout.hash.toNat ++ le 4 n := rfl
  rw [hout, hindex] at h
  -- both sides cut after 104 bytes, and again before the last 52
  have hcut : (le 4 tx.nVersion.toNat ++ le 32 hp.toNat ++ le 32 hs.toNat ++
        txin.prevout.serialize) ++ (serializeVector scriptCode ++ (le 8 amount.toNat ++
        le 4 txin.nSequence.toNat ++ le 32 ho.toNat ++ le 4 tx.nLockTime.toNat ++
        le 4 nHashType.toNat)) =
      ([0x00] ++ le 4 c.txTo.nVersion.toNat ++ le 32 c.txdata.hashPrevouts.toNat ++
        le 32 c.txdata.hashSequence.toNat ++ le 32 c.txin.prevout.hash.toNat ++
        [UInt8.ofNat (n % 256), UInt8.ofNat (n / 256 % 256), UInt8.ofNat (n / 256 / 256 % 256)]) ++
      ((UInt8.ofNat (n / 256 / 256 / 256 % 256) ::
        serializeVector (pqrScriptCode c.witnessVersion c.program)) ++ (le 8 c.amount.toNat ++
        le 4 c.txin.nSequence.toNat ++ le 32 c.txdata.hashOutputs.toNat ++
        le 4 c.txTo.nLockTime.toNat ++ le 4 1)) := by
    simpa only [append_assoc, cons_append, nil_append] using h
  obtain ⟨_, hrest⟩ := append_inj hcut (by simp)
  obtain ⟨hscript, htail⟩ := append_inj' hrest (by simp)
  obtain ⟨_, htype⟩ := append_inj' htail (by simp)
  obtain ⟨htop, hcode⟩ := c.scriptCode_of_serializeVector hscript
  refine ⟨?_, ?_, hcode⟩
  · have hval := congrArg UInt8.toNat htop
    have hlt : n < 2 ^ 32 := c.txin.prevout.n.isLt
    have hbyte : n / 256 / 256 / 256 % 256 = 35 := by simpa using hval
    omega
  · apply BitVec.eq_of_toNat_eq
    have htoNat : (1 : BitVec 32).toNat = 1 := rfl
    rw [htoNat]
    exact le_inj (lt_of_lt_of_le nHashType.isLt (by norm_num)) (by norm_num) htype

theorem sigHash_ne_tagged (hS : S.InjOn X.sha256) (c : PqrCall X) (hc : ∀ s ∈ c.strings, s ∈ S)
    {tag : String} {m : Bytes} (hm : taggedString X tag m ∈ S) :
    c.sigHash ≠ .ok (taggedSha256 X tag m) := by
  rw [c.sigHash_eq]
  intro h
  have hmem : X.sha256Bytes c.preimage ∈ c.strings :=
    mem_append_right _ (mem_map_of_mem (by simp))
  have hstring := hS (hc _ hmem) hm (Except.ok.inj h)
  have hlen := congrArg List.length hstring
  simp [Crypto.sha256Bytes, taggedString] at hlen

end PqrCall

/-- Post-quantum signature hashes are equal exactly when the calls agree on transaction, input,
program and amount. They are never BIP341 hashes, and BIP143 ones only for an outpoint index with
top byte 0x23. -/
theorem signatureHashPQR_binding (X : Crypto) (S : Set Bytes) (hS : S.InjOn X.sha256) :
    (∀ a b : PqrCall X, (∀ s ∈ a.strings, s ∈ S) → (∀ s ∈ b.strings, s ∈ S) →
      (a.sigHash = b.sigHash ↔ PqrCall.Agree a b)) ∧
    (∀ (a : PqrCall X) (tx : CTransaction) (nIn : ℕ) (txin : CTxIn) (scriptCode : CScript)
      (nHashType : BitVec 32) (amount : BitVec 64) (cache : Option PrecomputedTransactionData),
      tx.vin[nIn]? = some txin → (∀ s ∈ a.strings, s ∈ S) →
      (∀ s ∈ X.hashedTwice [bip143Preimage X tx nIn txin scriptCode nHashType amount cache],
        s ∈ S) →
      signatureHash X tx nIn scriptCode nHashType amount .witnessV0 cache = a.sigHash →
      a.txin.prevout.n.toNat / 2 ^ 24 = 0x23 ∧ nHashType = 1 ∧
        scriptCode = pushVector (pqrScriptCode a.witnessVersion a.program)) ∧
    (∀ (a : PqrCall X) (tx : CTransaction) (nIn : ℕ) (execdata : ScriptExecutionData)
      (hashType : UInt8) (sigversion : SigVersion) (cache : PrecomputedTransactionData)
      (mdb : MissingDataBehavior) (hash : Uint256), (∀ s ∈ a.strings, s ∈ S) →
      (∀ m, schnorrMessage X tx nIn execdata hashType sigversion cache mdb = .ok (some m) →
        taggedString X "TapSighash" m ∈ S) →
      signatureHashSchnorr X tx nIn execdata hashType sigversion cache mdb = .ok (some hash) →
      a.sigHash ≠ .ok hash) := by
  refine ⟨fun a b ha hb => PqrCall.sigHash_eq_iff hS ha hb, ?_, ?_⟩
  · intro a tx nIn txin scriptCode nHashType amount cache hin ha hb h
    have hhash : signatureHash X tx nIn scriptCode nHashType amount .witnessV0 cache =
        .ok (X.hash256 (bip143Preimage X tx nIn txin scriptCode nHashType amount cache)) := by
      simp [signatureHash, assertInput, hin]
    rw [hhash, a.sigHash_eq] at h
    have hpre := hash256_inj hS hb ha (by simp) (by simp) (Except.ok.inj h)
    exact a.eq_of_bip143Preimage_eq hpre
  · intro a tx nIn execdata hashType sigversion cache mdb hash ha hm h
    obtain ⟨message, hmessage, hhash⟩ := map_eq_ok.mp h
    cases message with
    | none => cases hhash
    | some m =>
      rw [← Option.some.inj hhash]
      exact PqrCall.sigHash_ne_tagged hS a ha (hm m hmessage)

def shiftedTx (scriptSig : CScript) (witness : List Bytes) : CTransaction :=
  ⟨[⟨⟨0, 0x23000000⟩, scriptSig, 0, witness⟩], [], 0, 0⟩

def unshiftedTx : CTransaction := ⟨[⟨⟨0, 0⟩, [], 0, []⟩], [], 0, 0⟩

def shiftedCrypto : Crypto :=
  { acceptingCrypto with
    sha256 := fun b =>
      if b = prevoutsBytes (shiftedTx [] []) then 11
      else if b = prevoutsBytes unshiftedTx then 12
      else if b = sequencesBytes unshiftedTx then 13
      else if b = [] then 14
      else if b = le 32 11 then 1
      else if b = le 32 12 then 256
      else if b = le 32 13 then 0
      else if b = le 32 14 then 5
      else if b = le 32 15 then 16
      else 15 }

def shiftedCall (scriptSig : CScript) (item : Bytes) : PqrCall shiftedCrypto where
  txTo := shiftedTx scriptSig [item]
  nIn := 0
  txin := ⟨⟨0, 0x23000000⟩, scriptSig, 0, [item]⟩
  witnessVersion := 2
  program := List.replicate 32 1
  amount := 0
  spentOutputs := []
  force := false
  txdata := ⟨11, 13, 14, 0, 0, false, 1, 0, 5, true, [], false⟩
  input_eq := rfl
  version_eq := by decide
  program_length := rfl
  init_eq := by
    have hP : getPrevoutsSHA256 shiftedCrypto (shiftedTx scriptSig [item]) = 11 := by
      change shiftedCrypto.sha256 (prevoutsBytes (shiftedTx [] [])) = 11
      decide +kernel
    have hQ : getSequencesSHA256 shiftedCrypto (shiftedTx scriptSig [item]) = 13 := by
      change shiftedCrypto.sha256 (sequencesBytes unshiftedTx) = 13
      decide +kernel
    have hO : getOutputsSHA256 shiftedCrypto (shiftedTx scriptSig [item]) = 14 := by
      change shiftedCrypto.sha256 [] = 14
      decide +kernel
    have huses : usesWitness (shiftedTx scriptSig [item]) [] false = true := rfl
    have huses' : usesWitness (shiftedTx scriptSig [item]) [] true = false := rfl
    simp only [PrecomputedTransactionData.init, hP, hQ, hO, huses, huses']
    rfl
  ready := rfl

def unshiftedScriptCode : CScript :=
  pushVector (pqrScriptCode 2 (List.replicate 32 1))

def shiftedStrings : List Bytes :=
  (shiftedCall [] []).strings ++ shiftedCrypto.hashedTwice
    [prevoutsBytes unshiftedTx, sequencesBytes unshiftedTx, outputsBytes unshiftedTx,
      bip143Preimage shiftedCrypto unshiftedTx 0 ⟨⟨0, 0⟩, [], 0, []⟩ unshiftedScriptCode 1 0 none]

theorem shiftedStrings_injOn : Set.InjOn shiftedCrypto.sha256 {b | b ∈ shiftedStrings} := by
  have hall : ∀ a ∈ shiftedStrings, ∀ b ∈ shiftedStrings,
      shiftedCrypto.sha256 a = shiftedCrypto.sha256 b → a = b := by decide +kernel
  intro a ha b hb h
  exact hall a ha b hb h

/-- A post-quantum signature hash sees no signature script and no witness. -/
theorem signatureHashPQR_binding_resigned :
    (shiftedCall [] []).sigHash = (shiftedCall [1] [2]).sigHash := by
  have hstrings : ∀ s ∈ (shiftedCall [] []).strings, s ∈ shiftedStrings := by
    intro s hs
    exact mem_append_left _ hs
  have hiff := (signatureHashPQR_binding shiftedCrypto {b | b ∈ shiftedStrings}
    shiftedStrings_injOn).1 (shiftedCall [] []) (shiftedCall [1] [2]) hstrings hstrings
  exact hiff.mpr ⟨rfl, rfl, rfl, rfl, rfl, rfl, rfl, rfl, rfl, rfl⟩

/-- A hash function without collisions among the strings of two signatures, one post-quantum and one
of version 0, that gives both the same signature hash. -/
theorem signatureHash_eq_signatureHashPQR :
    Set.InjOn shiftedCrypto.sha256 {b | b ∈ shiftedStrings} ∧
      (∀ s ∈ (shiftedCall [] []).strings, s ∈ shiftedStrings) ∧
      (∀ s ∈ shiftedCrypto.hashedTwice [bip143Preimage shiftedCrypto unshiftedTx 0
        ⟨⟨0, 0⟩, [], 0, []⟩ unshiftedScriptCode 1 0 none], s ∈ shiftedStrings) ∧
      signatureHash shiftedCrypto unshiftedTx 0 unshiftedScriptCode 1 0 .witnessV0 none =
        (shiftedCall [] []).sigHash := by
  refine ⟨shiftedStrings_injOn, fun s hs => mem_append_left _ hs, ?_, ?_⟩
  · decide +kernel
  · decide +kernel

end Vexta
