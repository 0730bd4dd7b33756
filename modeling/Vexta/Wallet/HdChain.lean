import Vexta.Lib.Decimal
import Vexta.Wallet.Keys

/-! The deterministic derivation of post-quantum keys, and its reconciliation with the key metadata. -/
namespace Vexta
open Lib List PqType

structure CKeyMetadata where
  hdSeedId : CKeyID
  hdKeypath : List Char
  deriving DecidableEq, Repr

structure PQHDChain where
  nMLDSAExternalCounter : ℕ
  nSLHDSAExternalCounter : ℕ
  seedId : CKeyID
  deriving DecidableEq, Repr

namespace PQHDChain

def null : PQHDChain := ⟨0, 0, 0⟩

variable (chain : PQHDChain)

def counter : PqType → ℕ
  | .mldsa => chain.nMLDSAExternalCounter
  | .slhdsa => chain.nSLHDSAExternalCounter

def bump : PqType → PQHDChain
  | .mldsa => { chain with nMLDSAExternalCounter := chain.nMLDSAExternalCounter + 1 }
  | .slhdsa => { chain with nSLHDSAExternalCounter := chain.nSLHDSAExternalCounter + 1 }

@[simp] theorem bump_seedId (type : PqType) :
    (chain.bump type).seedId = chain.seedId := by
  cases type <;> rfl

theorem counter_bump (type t : PqType) :
    (chain.bump type).counter t = chain.counter t + if t = type then 1 else 0 := by
  cases type <;> cases t <;> rfl

end PQHDChain

def uint32Max : ℕ := 2 ^ 32 - 1

def PqType.pathHead : PqType → List Char
  | .mldsa => "pq/mldsa/".toList
  | .slhdsa => "pq/slhdsa/".toList

def PqType.keypath (type : PqType) (counter : ℕ) : List Char := type.pathHead ++ decimal counter

def parseUInt32 (str : List Char) : Option ℕ :=
  if str = [] ∨ str.head? = some '-' then none
  else
    -- `strtoul` skips a plus sign
    let digits := if str.head? = some '+' then str.tail else str
    if digits = [] then none
    else match readDigits digits 0 with
      | some n => if n ≤ uint32Max then some n else none
      | none => none

/-- The records of the keys. The right passphrase decrypts the master key. -/
structure WalletDb where
  store : KeyStore
  pqKeyMetadata : Assoc Uint256 CKeyMetadata
  hdChain : Option CKeyID
  pqHDChain : Option PQHDChain
  masterKey : Option MasterKey

def WalletDb.new : WalletDb := ⟨.empty, ∅, none, none, none⟩

inductive SpkManKind
  | legacy
  | descriptorPQ
  deriving DecidableEq, Repr

/-- The maps of the manager, the chains, the master key if unlocked. -/
structure CWallet where
  kind : SpkManKind
  disablePrivateKeys : Bool
  store : KeyStore
  mapPQKeyMetadata : Assoc Uint256 CKeyMetadata
  hdChain : CKeyID
  pqHDChain : PQHDChain
  masterKey : Option MasterKey
  vMasterKey : Option MasterKey

namespace CWallet

def hasEncryptionKeys (w : CWallet) : Bool := w.masterKey.isSome

def isLocked (w : CWallet) : Bool := w.hasEncryptionKeys && w.vMasterKey.isNone

def isHDEnabled (w : CWallet) : Bool := w.hdChain != 0

def getKey (W : WalletCrypto) (w : CWallet) (id : CKeyID) : Option CKey :=
  w.store.getKey W w.hasEncryptionKeys w.vMasterKey id

def getPQKey (W : WalletCrypto) (w : CWallet) (keyId : Uint256) : Option PQKeyData :=
  w.store.getPQKey W w.vMasterKey keyId

end CWallet

/-- The scan: the next counters and whether a key was of the active seed. -/
structure PQScan where
  nextMldsa : ℕ
  nextSlhdsa : ℕ
  havePQMetadata : Bool
  deriving DecidableEq, Repr

def PqType.label : PqType → String
  | .mldsa => "ML-DSA"
  | .slhdsa => "SLH-DSA"

def parseKeypath (type : PqType) (path : List Char) : Except String ℕ :=
  match parseUInt32 (path.drop type.pathHead.length) with
  | none => .error ("Invalid " ++ type.label ++ " post-quantum derivation metadata")
  | some index =>
    if index = uint32Max then
      .error (type.label ++ " post-quantum derivation counter exhausted")
    else .ok index

def PQScan.add (scan : PQScan) (index : ℕ) : PqType → PQScan
  | .mldsa => { scan with nextMldsa := max scan.nextMldsa (index + 1), havePQMetadata := true }
  | .slhdsa => { scan with nextSlhdsa := max scan.nextSlhdsa (index + 1), havePQMetadata := true }

def scanStep (seedId : CKeyID) (scan : PQScan) (item : CKeyMetadata) : Except String PQScan :=
  if item.hdSeedId ≠ seedId then .ok scan
  else if mldsa.pathHead.isPrefixOf item.hdKeypath then do
    let index ← parseKeypath .mldsa item.hdKeypath
    .ok (scan.add index .mldsa)
  else if slhdsa.pathHead.isPrefixOf item.hdKeypath then do
    let index ← parseKeypath .slhdsa item.hdKeypath
    .ok (scan.add index .slhdsa)
  else .ok scan

def scanPQMetadata (seedId : CKeyID) (metas : List CKeyMetadata) : Except String PQScan :=
  metas.foldlM (scanStep seedId) ⟨0, 0, false⟩

def reconciledPQHDChain (hdChain : CKeyID) (chain : PQHDChain) (metas : List CKeyMetadata) :
    Except String PQHDChain :=
  if hdChain = 0 then .ok chain
  else do
    let scan ← scanPQMetadata hdChain metas
    if chain.seedId = 0 then .ok ⟨scan.nextMldsa, scan.nextSlhdsa, hdChain⟩
    else if chain.seedId ≠ hdChain then
      if ¬ scan.havePQMetadata then
        .error "Post-quantum HD chain seed does not match the active wallet seed"
      else .ok ⟨scan.nextMldsa, scan.nextSlhdsa, hdChain⟩
    else .ok ⟨max chain.nMLDSAExternalCounter scan.nextMldsa,
      max chain.nSLHDSAExternalCounter scan.nextSlhdsa, chain.seedId⟩

def reconcilePQHDChain (w : CWallet) (db : WalletDb) : Except String (CWallet × WalletDb) := do
  let chain ← reconciledPQHDChain w.hdChain w.pqHDChain
    (w.mapPQKeyMetadata.entries.map Sigma.snd)
  if chain = w.pqHDChain then .ok (w, db)
  else .ok ({ w with pqHDChain := chain }, { db with pqHDChain := some chain })

section
variable (W : WalletCrypto)

/-- `LoadWallet` on the key records. Every error means a corrupt wallet. -/
def loadWallet (kind : SpkManKind) (disablePrivateKeys : Bool) (db : WalletDb) :
    Except String (CWallet × WalletDb) :=
  if ¬ db.store.keys.entries.all fun e => decide (W.keyID e.2 = e.1) then
    .error "Error reading wallet database: CPrivKey corrupt"
  else if ¬ db.store.pqKeys.entries.all fun e => decide (e.2.Valid W e.1) then
    .error "Error reading wallet database: LegacyScriptPubKeyMan::LoadPQKey failed"
  else if ¬ db.store.cryptedPQKeys.entries.all fun e => decide (e.2.ValidCrypted W e.1) then
    .error "Error reading wallet database: LegacyScriptPubKeyMan::LoadCryptedPQKey failed"
  else
    let w : CWallet := {
      kind
      disablePrivateKeys
      store := db.store
      mapPQKeyMetadata := db.pqKeyMetadata
      hdChain := db.hdChain.getD 0
      pqHDChain := db.pqHDChain.getD .null
      masterKey := db.masterKey
      vMasterKey := none }
    reconcilePQHDChain w db

variable (seed : CKey)

def derivePQSeedMaterial (type : PqType) (counter : ℕ) : Bytes :=
  W.hmacSha512 seed.1
    (ascii "Vexta-PQ-HD-v1" ++ UInt8.ofNat type.version :: (le 4 counter).reverse)

def derivePQKey (type : PqType) (counter : ℕ) : Option PQKeyData :=
  (W.keygenFromSeed type (derivePQSeedMaterial W seed type counter)).map fun key =>
    ⟨type, key.1, key.2⟩

structure PqDestination where
  type : PqType
  keyId : Uint256
  deriving DecidableEq, Repr

/-- Which steps succeed. A failed one leaves the database as it was. -/
structure TxnSteps where
  txnBegin : Bool
  writeKey : Bool
  writeMetadata : Bool
  writeChain : Bool
  txnCommit : Bool
  deriving DecidableEq, Repr

def addPQKey (w : CWallet) (records : KeyStore) (data : PQKeyData) (writeKey : Bool) :
    KeyStore × Option KeyStore :=
  let keyId := W.sha256 data.pubkey
  if data.pubkey.length ≠ data.type.pubkeyBytes ∨
      data.secret.length ≠ data.type.seckeyBytes then (w.store, none)
  else if ¬ w.hasEncryptionKeys then
    ({ w.store with pqKeys := w.store.pqKeys.insert keyId data },
      if writeKey then records.writePQKey keyId data else none)
  else match w.vMasterKey with
    | none => (w.store, none)
    | some master =>
      let crypted := W.cryptPQ master keyId data
      ({ w.store with cryptedPQKeys := w.store.cryptedPQKeys.insert keyId crypted },
        if writeKey then records.writeCryptedPQKey keyId crypted else none)

def KeyStore.erasePQKey (s : KeyStore) (keyId : Uint256) : KeyStore :=
  { s with pqKeys := s.pqKeys.erase keyId, cryptedPQKeys := s.cryptedPQKeys.erase keyId }

def storeNewKey (w : CWallet) (db : WalletDb) (seed : CKey) (data : PQKeyData) (counter : ℕ)
    (steps : TxnSteps) : CWallet × WalletDb × Except String PqDestination :=
  let keyId := W.sha256 data.pubkey
  if ¬ steps.txnBegin then
    (w, db, .error "Error: Failed to begin post-quantum wallet database transaction")
  else
    let (store, written) := addPQKey W w db.store data steps.writeKey
    match written with
    | none =>
      ({ w with store := store.erasePQKey keyId }, db,
        .error "Error: Failed to store post-quantum key")
    | some records =>
      let metadata : CKeyMetadata := ⟨W.keyID seed, data.type.keypath counter⟩
      let nextChain := w.pqHDChain.bump data.type
      -- `WritePQKeyMetadata` does not overwrite a record
      if ¬ (steps.writeMetadata ∧ (db.pqKeyMetadata.lookup keyId).isNone ∧ steps.writeChain ∧
          steps.txnCommit) then
        ({ w with store := store.erasePQKey keyId }, db,
          .error "Error: Failed to commit post-quantum key data")
      else
        ({ w with
            store
            pqHDChain := nextChain
            mapPQKeyMetadata := w.mapPQKeyMetadata.insert keyId metadata },
          { db with
            store := records
            pqKeyMetadata := db.pqKeyMetadata.insert keyId metadata
            pqHDChain := some nextChain },
          .ok ⟨data.type, keyId⟩)

def getNewDestination (w : CWallet) (db : WalletDb) (type : PqType) (steps : TxnSteps) :
    CWallet × WalletDb × Except String PqDestination :=
  let fail (error : String) : CWallet × WalletDb × Except String PqDestination :=
    (w, db, .error error)
  if w.disablePrivateKeys then fail "Error: Private keys are disabled for this wallet"
  else if w.isLocked then
    fail "Error: Please enter the wallet passphrase with walletpassphrase first."
  else match if w.hdChain = 0 then none else w.getKey W w.hdChain with
  | none => fail "Error: Wallet HD seed is not available for post-quantum key derivation"
  | some seed =>
    if w.pqHDChain.seedId = 0 ∨ w.pqHDChain.seedId ≠ w.hdChain then
      fail "Error: Post-quantum HD chain does not match the active wallet seed"
    else
      let counter := w.pqHDChain.counter type
      if counter = uint32Max then
        fail "Error: Post-quantum address derivation counter exhausted"
      else match derivePQKey W seed type counter with
      | none => fail ("Error: Failed to derive " ++ type.label ++ " key")
      | some data => storeNewKey W w db seed data counter steps

/-- A step up to the next database write or transaction. -/
abbrev WalletStep := CWallet × WalletDb → CWallet × WalletDb

def addSeedKey : WalletStep := fun (w, db) =>
  let id := W.keyID seed
  match w.masterKey, w.vMasterKey with
  | none, _ =>
    ({ w with store := { w.store with keys := w.store.keys.insert id seed } },
      { db with store := { db.store with keys := db.store.keys.insert id seed } })
  | some _, some master =>
    let entry := W.cryptKey master seed
    ({ w with store := { w.store with cryptedKeys := w.store.cryptedKeys.insert id entry } },
      { db with store := db.store.writeCryptedKey id entry })
  | some _, none => (w, db)

def addHDChain (seedId : CKeyID) : WalletStep := fun (w, db) =>
  ({ w with hdChain := seedId }, { db with hdChain := some seedId })

def addPQHDChain (seedId : CKeyID) : WalletStep := fun (w, db) =>
  ({ w with pqHDChain := ⟨0, 0, seedId⟩ }, { db with pqHDChain := some ⟨0, 0, seedId⟩ })

def setHDSeed : List WalletStep :=
  [addSeedKey W seed, addHDChain (W.keyID seed), addPQHDChain (W.keyID seed)]

end

def runSteps (steps : List WalletStep) (s : CWallet × WalletDb) : CWallet × WalletDb :=
  steps.foldl (fun s step => step s) s

def PQScan.next (scan : PQScan) : PqType → ℕ
  | .mldsa => scan.nextMldsa
  | .slhdsa => scan.nextSlhdsa

theorem PQScan.next_add (scan : PQScan) (index : ℕ) (type t : PqType) :
    (scan.add index type).next t =
      if t = type then max (scan.next t) (index + 1) else scan.next t := by
  cases type <;> cases t <;> rfl

theorem PQScan.havePQMetadata_add (scan : PQScan) (index : ℕ) (type : PqType) :
    (scan.add index type).havePQMetadata = true := by
  cases type <;> rfl

theorem parseUInt32_decimal {n : ℕ} (h : n ≤ uint32Max) : parseUInt32 (decimal n) = some n := by
  obtain ⟨c, cs, hcons⟩ := exists_cons_of_ne_nil (decimal_ne_nil n)
  obtain ⟨d, hd, hc⟩ := digitValue_of_mem_decimal (n := n) (c := c) (by simp [hcons])
  have hsign : c ≠ '-' ∧ c ≠ '+' := by
    rw [hc]
    interval_cases d <;> decide
  have hread := readDigits_decimal n
  rw [hcons] at hread ⊢
  simp [parseUInt32, hsign.1, hsign.2, hread, h]

theorem parseKeypath_keypath (type : PqType) {n : ℕ} (h : n < uint32Max) :
    parseKeypath type (type.keypath n) = .ok n := by
  unfold parseKeypath keypath
  rw [drop_left, parseUInt32_decimal h.le]
  simp [h.ne]

theorem scanStep_keypath (seedId : CKeyID) (scan : PQScan) (type : PqType) {n : ℕ}
    (h : n < uint32Max) :
    scanStep seedId scan ⟨seedId, type.keypath n⟩ = .ok (scan.add n type) := by
  have hparse := parseKeypath_keypath type h
  have hself : type.pathHead.isPrefixOf (type.keypath n) = true :=
    isPrefixOf_iff_prefix.mpr ⟨decimal n, rfl⟩
  cases type with
  | mldsa =>
    simp only [scanStep, ne_eq, not_true_eq_false, if_false, hself, if_true, hparse]
    rfl
  | slhdsa =>
    have hother : mldsa.pathHead.isPrefixOf (slhdsa.keypath n) = false := rfl
    simp only [scanStep, ne_eq, not_true_eq_false, if_false, hother, Bool.false_eq_true, hself,
      if_true, hparse]
    rfl

def WrittenFor (seedId : CKeyID) (item : CKeyMetadata) : Prop :=
  item.hdSeedId = seedId → ∃ type n, n < uint32Max ∧ item.hdKeypath = keypath type n

theorem foldlM_scanStep {seedId : CKeyID} {metas : List CKeyMetadata}
    (h : ∀ item ∈ metas, WrittenFor seedId item) (scan : PQScan)
    (hmax : ∀ t, scan.next t ≤ uint32Max) :
    ∃ scan', metas.foldlM (scanStep seedId) scan = .ok scan' ∧
      (∀ t, scan'.next t ≤ uint32Max) ∧ (scan'.havePQMetadata = true ↔
        scan.havePQMetadata = true ∨ ∃ item ∈ metas, item.hdSeedId = seedId) := by
  induction metas generalizing scan with
  | nil => exact ⟨scan, rfl, hmax, by simp⟩
  | cons item metas ih =>
    have hrest : ∀ item ∈ metas, WrittenFor seedId item := fun i hi =>
      h i (mem_cons_of_mem _ hi)
    rw [foldlM_cons]
    by_cases hseed : item.hdSeedId = seedId
    · obtain ⟨type, n, hn, hpath⟩ := h item mem_cons_self hseed
      have hitem : item = ⟨seedId, type.keypath n⟩ := by
        rw [← hseed, ← hpath]
      have hmax' : ∀ t, (scan.add n type).next t ≤ uint32Max := by
        intro t
        rw [PQScan.next_add]
        split_ifs
        · exact max_le (hmax t) hn
        · exact hmax t
      obtain ⟨scan', hrun, hle, hhave⟩ := ih hrest (scan.add n type) hmax'
      refine ⟨scan', ?_, hle, ?_⟩
      · rw [hitem, scanStep_keypath seedId scan type hn]
        exact hrun
      · rw [hhave, PQScan.havePQMetadata_add]
        simp only [true_or, true_iff]
        exact .inr ⟨item, mem_cons_self, hseed⟩
    · obtain ⟨scan', hrun, hle, hhave⟩ := ih hrest scan hmax
      refine ⟨scan', ?_, hle, ?_⟩
      · have hstep : scanStep seedId scan item = .ok scan := by
          unfold scanStep
          rw [if_pos hseed]
        rw [hstep]
        exact hrun
      · rw [hhave]
        simp [hseed]

def CKeyMetadata.Records (item : CKeyMetadata) (type : PqType) (n : ℕ) : Prop :=
  type.pathHead.isPrefixOf item.hdKeypath = true ∧
    parseUInt32 (item.hdKeypath.drop type.pathHead.length) = some n

theorem records_keypath (seedId : CKeyID) (type : PqType) {n : ℕ} (h : n ≤ uint32Max) :
    CKeyMetadata.Records ⟨seedId, type.keypath n⟩ type n := by
  constructor
  · exact isPrefixOf_iff_prefix.mpr ⟨decimal n, rfl⟩
  · unfold keypath
    rw [drop_left, parseUInt32_decimal h]

theorem CKeyMetadata.Records.unique {item : CKeyMetadata} {s t : PqType} {m n : ℕ}
    (h : item.Records s m) (h' : item.Records t n) : s = t ∧ m = n := by
  have hletter : ∀ {type : PqType}, type.pathHead.isPrefixOf item.hdKeypath = true →
      item.hdKeypath[3]? = type.pathHead[3]? := by
    intro type hhead
    obtain ⟨rest, hrest⟩ := isPrefixOf_iff_prefix.mp hhead
    rw [← hrest]
    cases type <;> rfl
  have htype : s = t := by
    have heq := (hletter h.1).symm.trans (hletter h'.1)
    cases s <;> cases t <;> first | rfl | exact absurd heq (by decide)
  subst htype
  exact ⟨rfl, Option.some.inj (h.2.symm.trans h'.2)⟩

theorem parseKeypath_eq_ok {type : PqType} {path : List Char} {n : ℕ}
    (h : parseKeypath type path = .ok n) :
    parseUInt32 (path.drop type.pathHead.length) = some n := by
  unfold parseKeypath at h
  split at h
  · cases h
  · split_ifs at h
    cases h
    assumption

theorem scanStep_eq_ok {seedId : CKeyID} {scan scan' : PQScan} {item : CKeyMetadata}
    (h : scanStep seedId scan item = .ok scan') :
    (∀ t, scan.next t ≤ scan'.next t) ∧
      (item.hdSeedId = seedId → ∀ type n, item.Records type n → n < scan'.next type) := by
  have hadd : ∀ {type n}, type.pathHead.isPrefixOf item.hdKeypath = true →
      parseKeypath type item.hdKeypath = .ok n → (∀ t, scan.next t ≤ (scan.add n type).next t) ∧
        ∀ t k, item.Records t k → k < (scan.add n type).next t := by
    intro type n hhead hparse
    constructor
    · intro t
      rw [PQScan.next_add]
      split_ifs
      · exact le_max_left _ _
      · exact le_rfl
    · intro t k hrecords
      obtain ⟨rfl, rfl⟩ := hrecords.unique ⟨hhead, parseKeypath_eq_ok hparse⟩
      rw [PQScan.next_add, if_pos rfl]
      exact Nat.lt_of_succ_le (le_max_right _ _)
  unfold scanStep at h
  split_ifs at h with hseed hm hs
  · cases h
    exact ⟨fun _ => le_rfl, fun heq => absurd heq hseed⟩
  · obtain ⟨n, hparse, h⟩ := bind_eq_ok.mp h
    cases h
    exact ⟨(hadd hm hparse).1, fun _ => (hadd hm hparse).2⟩
  · obtain ⟨n, hparse, h⟩ := bind_eq_ok.mp h
    cases h
    exact ⟨(hadd hs hparse).1, fun _ => (hadd hs hparse).2⟩
  · cases h
    refine ⟨fun _ => le_rfl, fun _ type n hrecords => ?_⟩
    cases type
    · exact absurd hrecords.1 hm
    · exact absurd hrecords.1 hs

theorem foldlM_scanStep_eq_ok {seedId : CKeyID} {metas : List CKeyMetadata} {scan scan' : PQScan}
    (h : metas.foldlM (scanStep seedId) scan = .ok scan') :
    (∀ t, scan.next t ≤ scan'.next t) ∧ ∀ item ∈ metas, item.hdSeedId = seedId →
      ∀ type n, item.Records type n → n < scan'.next type := by
  induction metas generalizing scan with
  | nil =>
    cases h
    exact ⟨fun _ => le_rfl, by simp⟩
  | cons item metas ih =>
    rw [foldlM_cons] at h
    obtain ⟨scan₁, hstep, h⟩ := bind_eq_ok.mp h
    obtain ⟨hle, hitem⟩ := scanStep_eq_ok hstep
    obtain ⟨hle', hrest⟩ := ih h
    refine ⟨fun t => (hle t).trans (hle' t), forall_mem_cons.mpr ⟨?_, hrest⟩⟩
    exact fun hseed type n hrecords => (hitem hseed type n hrecords).trans_le (hle' type)

theorem reconciledPQHDChain_eq_ok {hd : CKeyID} {chain chain' : PQHDChain}
    {metas : List CKeyMetadata} (h : reconciledPQHDChain hd chain metas = .ok chain')
    (hnull : hd ≠ 0) : ∃ scan, scanPQMetadata hd metas = .ok scan ∧ chain'.seedId = hd ∧
      (∀ t, scan.next t ≤ chain'.counter t) ∧
      (chain.seedId = hd → ∀ t, chain.counter t ≤ chain'.counter t) := by
  unfold reconciledPQHDChain at h
  rw [if_neg hnull] at h
  obtain ⟨scan, hscan, h⟩ := bind_eq_ok.mp h
  refine ⟨scan, hscan, ?_⟩
  split_ifs at h with hzero hne hhave <;> cases h
  · exact ⟨rfl, fun t => by cases t <;> exact le_rfl, fun heq => absurd (heq.symm.trans hzero) hnull⟩
  · exact ⟨rfl, fun t => by cases t <;> exact le_rfl, fun heq => absurd heq hne⟩
  · exact ⟨not_not.mp hne, fun t => by cases t <;> exact le_max_right _ _,
      fun _ t => by cases t <;> exact le_max_left _ _⟩

theorem reconciledPQHDChain_idem {hd : CKeyID} {chain chain' : PQHDChain}
    {metas : List CKeyMetadata} (h : reconciledPQHDChain hd chain metas = .ok chain') :
    reconciledPQHDChain hd chain' metas = .ok chain' := by
  by_cases hnull : hd = 0
  · rw [reconciledPQHDChain, if_pos hnull]
  · obtain ⟨scan, hscan, rfl, hle, -⟩ := reconciledPQHDChain_eq_ok h hnull
    have hm : scan.nextMldsa ≤ chain'.nMLDSAExternalCounter := hle .mldsa
    have hs : scan.nextSlhdsa ≤ chain'.nSLHDSAExternalCounter := hle .slhdsa
    rw [reconciledPQHDChain, if_neg hnull, hscan, ok_bind, if_neg hnull, if_neg (not_not.mpr rfl),
      max_eq_left hm, max_eq_left hs]

end Vexta
