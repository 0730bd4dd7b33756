import Vexta.Lib.Assoc
import Vexta.Script.SigHash

/-! The key maps of a key manager and the key records of its database. -/
namespace Vexta
open Lib Option Assoc Assoc

/-- The values of `OutputType` that name a post-quantum scheme. -/
inductive PqType
  | mldsa
  | slhdsa
  deriving DecidableEq, Repr

namespace PqType

def version : PqType → ℕ
  | .mldsa => 2
  | .slhdsa => 3

def pubkeyBytes (type : PqType) : ℕ := pqPubkeyBytes type.version

def seckeyBytes : PqType → ℕ
  | .mldsa => 4032
  | .slhdsa => 64

def sigBytes (type : PqType) : ℕ := pqSigBytes type.version

end PqType

abbrev CKeyID := BitVec 160

abbrev CKey := {b : Bytes // b.length = 32}

abbrev MasterKey := {b : Bytes // b.length = 32}

/-- The fields of `PQKeyData`, of `CryptedPQKeyData` and of `PQKeyRecord`. -/
structure PQKeyData where
  type : PqType
  pubkey : Bytes
  secret : Bytes
  deriving DecidableEq, Repr

/-- Keys have the sizes of the scheme, and decryption undoes encryption. -/
structure WalletCrypto extends Crypto where
  getPubKey : CKey → Bytes
  hmacSha512 : Bytes → Bytes → Bytes
  keygenFromSeed : PqType → Bytes → Option (Bytes × Bytes)
  pqSign : PqType → Bytes → Uint256 → Option Bytes
  encryptSecret : MasterKey → Bytes → Uint256 → Bytes
  decryptSecret : MasterKey → Bytes → Uint256 → Option Bytes
  keygen_sizes : ∀ {type seed pubkey secret}, keygenFromSeed type seed = some (pubkey, secret) →
    pubkey.length = type.pubkeyBytes ∧ secret.length = type.seckeyBytes
  decrypt_encrypt : ∀ {master secret iv}, secret ≠ [] →
    decryptSecret master (encryptSecret master secret iv) iv = some secret
  encrypt_ne_nil : ∀ {master secret iv}, encryptSecret master secret iv ≠ []

/-- The key maps of a `LegacyScriptPubKeyMan`, or the records `key`, `ckey`, `pqkey` and `cpqkey`. A
`ckey` has its public key. -/
structure KeyStore where
  keys : Assoc CKeyID CKey
  cryptedKeys : Assoc CKeyID (Bytes × Bytes)
  pqKeys : Assoc Uint256 PQKeyData
  cryptedPQKeys : Assoc Uint256 PQKeyData

def KeyStore.empty : KeyStore := ⟨∅, ∅, ∅, ∅⟩

section
variable (W : WalletCrypto)

def WalletCrypto.keyID (key : CKey) : CKeyID := W.hash160 (W.getPubKey key)

variable (master : MasterKey)

def WalletCrypto.cryptKey (key : CKey) : Bytes × Bytes :=
  (W.getPubKey key, W.encryptSecret master key.1 (W.hash256 (W.getPubKey key)))

variable (keyId : Uint256) (data : PQKeyData)

def WalletCrypto.cryptPQ : PQKeyData :=
  { data with secret := W.encryptSecret master data.secret keyId }

def decryptKey (crypted : Bytes × Bytes) : Option CKey :=
  match W.decryptSecret master crypted.2 (W.hash256 crypted.1) with
  | none => none
  | some secret =>
    if h : secret.length = 32 then
      if W.getPubKey ⟨secret, h⟩ = crypted.1 then some ⟨secret, h⟩ else none
    else none

def PQKeyData.Valid : Prop :=
  data.pubkey.length = data.type.pubkeyBytes ∧ data.secret.length = data.type.seckeyBytes ∧
    W.sha256 data.pubkey = keyId

def PQKeyData.ValidCrypted : Prop :=
  data.pubkey.length = data.type.pubkeyBytes ∧ data.secret ≠ [] ∧ W.sha256 data.pubkey = keyId

instance (keyId : Uint256) (data : PQKeyData) : Decidable (data.Valid W keyId) :=
  inferInstanceAs (Decidable (_ ∧ _ ∧ _))

instance (keyId : Uint256) (data : PQKeyData) : Decidable (data.ValidCrypted W keyId) :=
  inferInstanceAs (Decidable (_ ∧ _ ∧ _))

variable (s : KeyStore)

def KeyStore.haveKey (id : CKeyID) : Bool :=
  (s.keys.lookup id).isSome || (s.cryptedKeys.lookup id).isSome

variable (keyId : Uint256)

def KeyStore.havePQKey : Bool :=
  (s.pqKeys.lookup keyId).isSome || (s.cryptedPQKeys.lookup keyId).isSome

def KeyStore.getKey (crypted : Bool) (unlocked : Option MasterKey) (id : CKeyID) :
    Option CKey :=
  if ¬ crypted then s.keys.lookup id
  else match s.cryptedKeys.lookup id, unlocked with
    | some entry, some master => decryptKey W master entry
    | _, _ => none

def KeyStore.getPQKey (unlocked : Option MasterKey) (keyId : Uint256) :
    Option PQKeyData :=
  match s.pqKeys.lookup keyId with
  | some data => some data
  | none =>
    match s.cryptedPQKeys.lookup keyId, unlocked with
    | some data, some master =>
      match W.decryptSecret master data.secret keyId with
      | some secret =>
        if secret.length = data.type.seckeyBytes then some { data with secret } else none
      | none => none
    | _, _ => none

/-- `WriteCryptedKey`: an existing record only gets a checksum. -/
def KeyStore.writeCryptedKey (id : CKeyID) (entry : Bytes × Bytes) : KeyStore :=
  { s with
    cryptedKeys := if (s.cryptedKeys.lookup id).isSome then s.cryptedKeys
      else s.cryptedKeys.insert id entry
    keys := s.keys.erase id }

def KeyStore.writeCryptedPQKey (data : PQKeyData) :
    Option KeyStore :=
  if (s.cryptedPQKeys.lookup keyId).isSome then none
  else some { s with
    cryptedPQKeys := s.cryptedPQKeys.insert keyId data
    pqKeys := s.pqKeys.erase keyId }

def KeyStore.writePQKey (data : PQKeyData) : Option KeyStore :=
  if (s.pqKeys.lookup keyId).isSome then none
  else some { s with pqKeys := s.pqKeys.insert keyId data }

variable (master : MasterKey)

def encryptKeys (s : KeyStore × KeyStore)
    (l : List (Sigma fun _ : CKeyID => CKey)) : KeyStore × KeyStore :=
  l.foldl (fun s e =>
    let entry := W.cryptKey master e.2
    ({ s.1 with cryptedKeys := s.1.cryptedKeys.insert e.1 entry },
      s.2.writeCryptedKey e.1 entry)) s

def encryptPQKeys (master : MasterKey) :
    List (Sigma fun _ : Uint256 => PQKeyData) → KeyStore × KeyStore →
      Option (KeyStore × KeyStore)
  | [], s => some s
  | e :: l, s => do
    let data := W.cryptPQ master e.1 e.2
    let records ← s.2.writeCryptedPQKey e.1 data
    encryptPQKeys master l
      ({ s.1 with cryptedPQKeys := s.1.cryptedPQKeys.insert e.1 data }, records)

def KeyStore.encrypt (s records : KeyStore) : Option (KeyStore × KeyStore) :=
  if ¬ (s.cryptedKeys.entries.isEmpty ∧ s.cryptedPQKeys.entries.isEmpty) then none
  else
    let cleared := { s with keys := ∅, pqKeys := ∅ }
    encryptPQKeys W master s.pqKeys.entries
      (encryptKeys W master (cleared, records) s.keys.entries)

/-- `CheckDecryptionKey`: an assertion, an exception, or an answer. -/
inductive DecryptionCheck
  | assertion
  | corrupt
  | answer (ok : Bool)
  deriving DecidableEq, Repr

/-- A loop of `CheckDecryptionKey`: whether a key passed and one failed. -/
def checkKeys {α : Type} (decrypts : α → Bool) (thoroughlyChecked : Bool) :
    List α → Bool → Bool × Bool
  | [], keyPass => (keyPass, false)
  | e :: l, keyPass =>
    if ¬ decrypts e then (keyPass, true)
    else if thoroughlyChecked then (true, false)
    else checkKeys decrypts thoroughlyChecked l true

def decryptsPQ (e : Sigma fun _ : Uint256 => PQKeyData) : Bool :=
  W.sha256 e.2.pubkey == e.1 && e.2.pubkey.length == e.2.type.pubkeyBytes &&
    match W.decryptSecret master e.2.secret e.1 with
    | some secret => secret.length == e.2.type.seckeyBytes
    | none => false

def KeyStore.checkDecryptionKey (thoroughlyChecked : Bool) :
    DecryptionCheck :=
  if ¬ (s.keys.entries.isEmpty ∧ s.pqKeys.entries.isEmpty) then .assertion
  else
    let keyPass := s.cryptedKeys.entries.isEmpty && s.cryptedPQKeys.entries.isEmpty
    let (keyPass, keyFail) := checkKeys (fun e => (decryptKey W master e.2).isSome)
      thoroughlyChecked s.cryptedKeys.entries keyPass
    let (keyPass, keyFail) := if keyFail then (keyPass, true)
      else checkKeys (decryptsPQ W master) thoroughlyChecked s.cryptedPQKeys.entries keyPass
    if keyPass ∧ keyFail then .corrupt
    else if keyFail ∨ ¬ keyPass then .answer false
    else .answer true

end

structure Vault where
  keys : CKeyID → Option CKey
  pqKeys : Uint256 → Option PQKeyData

def Vault.PQValid (W : WalletCrypto) (V : Vault) : Prop :=
  ∀ keyId data, V.pqKeys keyId = some data → data.Valid W keyId

/-- The first vault is part of the second, post-quantum keys are equal. -/
structure Vault.Le (V M : Vault) : Prop where
  keys : ∀ {id key}, V.keys id = some key → M.keys id = some key
  pqKeys : M.pqKeys = V.pqKeys

theorem Vault.Le.refl (V : Vault) : V.Le V := ⟨fun h => h, rfl⟩

/-- The vault is in the clear without a master key, and else encrypted. -/
structure KeyStore.Holds (W : WalletCrypto) (master : Option MasterKey) (V : Vault)
    (s : KeyStore) : Prop where
  keys : ∀ id, s.keys.lookup id = if master.isSome then none else V.keys id
  cryptedKeys : ∀ id, s.cryptedKeys.lookup id =
    master.bind fun m => (V.keys id).map (W.cryptKey m)
  pqKeys : ∀ keyId, s.pqKeys.lookup keyId = if master.isSome then none else V.pqKeys keyId
  cryptedPQKeys : ∀ keyId, s.cryptedPQKeys.lookup keyId =
    master.bind fun m => (V.pqKeys keyId).map (W.cryptPQ m keyId)

section Holds
variable {W : WalletCrypto} {V : Vault} {s records : KeyStore} {master : Option MasterKey}

theorem decryptKey_cryptKey (m : MasterKey) (key : CKey) :
    decryptKey W m (W.cryptKey m key) = some key := by
  have hne : key.1 ≠ [] := by
    intro h
    have hlen := key.2
    simp [h] at hlen
  simp only [decryptKey, WalletCrypto.cryptKey, W.decrypt_encrypt hne]
  simp [key.2]

theorem PQKeyData.Valid.secret_ne_nil {keyId : Uint256} {data : PQKeyData}
    (h : data.Valid W keyId) : data.secret ≠ [] := by
  intro hnil
  have hlen := h.2.1
  rw [hnil] at hlen
  cases htype : data.type <;> simp [htype, PqType.seckeyBytes] at hlen

theorem PQKeyData.Valid.crypted {keyId : Uint256} {data : PQKeyData} (m : MasterKey)
    (h : data.Valid W keyId) : (W.cryptPQ m keyId data).ValidCrypted W keyId :=
  ⟨h.1, W.encrypt_ne_nil, h.2.2⟩

namespace KeyStore.Holds

theorem haveKey (h : s.Holds W master V) (id : CKeyID) : s.haveKey id = (V.keys id).isSome := by
  unfold KeyStore.haveKey
  rw [h.keys, h.cryptedKeys]
  cases master <;> simp

theorem getKey (h : s.Holds W master V) (id : CKeyID) :
    s.getKey W master.isSome master id = V.keys id := by
  unfold KeyStore.getKey
  cases master with
  | none => simp [h.keys]
  | some m =>
    simp only [h.cryptedKeys, isSome_some, bind_some]
    cases hkey : V.keys id with
    | none => simp
    | some key => simp [decryptKey_cryptKey]

theorem getPQKey (h : s.Holds W master V) (hV : V.PQValid W) (keyId : Uint256) :
    s.getPQKey W master keyId = V.pqKeys keyId := by
  unfold KeyStore.getPQKey
  cases master with
  | none =>
    simp only [h.pqKeys, h.cryptedPQKeys]
    cases hkey : V.pqKeys keyId <;> simp
  | some m =>
    simp only [h.pqKeys, h.cryptedPQKeys, isSome_some, if_true, bind_some]
    cases hkey : V.pqKeys keyId with
    | none => rfl
    | some data =>
      have hvalid := hV _ _ hkey
      simp [WalletCrypto.cryptPQ, W.decrypt_encrypt hvalid.secret_ne_nil, hvalid.2.1]

end KeyStore.Holds

theorem encryptKeys_eq (m : MasterKey) {l : List (Sigma fun _ : CKeyID => CKey)}
    (hnodup : l.NodupKeys) (maps records : KeyStore)
    (hnew : ∀ id ∈ l.keys, records.cryptedKeys.lookup id = none) :
    encryptKeys W m (maps, records) l =
      ({ maps with
          cryptedKeys := insertAll (fun _ => W.cryptKey m) l maps.cryptedKeys },
        { records with
          cryptedKeys := insertAll (fun _ => W.cryptKey m) l records.cryptedKeys
          keys := eraseAll l records.keys }) := by
  induction l generalizing maps records with
  | nil => rfl
  | cons e l ih =>
    obtain ⟨id, key⟩ := e
    rw [List.nodupKeys_cons] at hnodup
    have hfree := hnew id (by simp)
    have hwrite : records.writeCryptedKey id (W.cryptKey m key) =
        { records with
          cryptedKeys := records.cryptedKeys.insert id (W.cryptKey m key)
          keys := records.keys.erase id } := by
      simp [KeyStore.writeCryptedKey, hfree]
    have hrest : ∀ k ∈ l.keys,
        (records.writeCryptedKey id (W.cryptKey m key)).cryptedKeys.lookup k = none := by
      intro k hk
      have hne : k ≠ id := fun h => hnodup.1 (h ▸ hk)
      rw [hwrite, AList.lookup_insert_ne hne]
      exact hnew k (by simp [hk])
    change encryptKeys W m (_, records.writeCryptedKey id (W.cryptKey m key)) l = _
    rw [ih hnodup.2 _ _ hrest, hwrite]
    rfl

theorem encryptPQKeys_eq (m : MasterKey) {l : List (Sigma fun _ : Uint256 => PQKeyData)}
    (hnodup : l.NodupKeys) (maps records : KeyStore)
    (hnew : ∀ keyId ∈ l.keys, records.cryptedPQKeys.lookup keyId = none) :
    encryptPQKeys W m l (maps, records) = some
      ({ maps with cryptedPQKeys := insertAll (W.cryptPQ m) l maps.cryptedPQKeys },
        { records with
          cryptedPQKeys := insertAll (W.cryptPQ m) l records.cryptedPQKeys
          pqKeys := eraseAll l records.pqKeys }) := by
  induction l generalizing maps records with
  | nil => rfl
  | cons e l ih =>
    obtain ⟨keyId, data⟩ := e
    rw [List.nodupKeys_cons] at hnodup
    have hfree := hnew keyId (by simp)
    have hrest : ∀ k ∈ l.keys,
        (records.cryptedPQKeys.insert keyId (W.cryptPQ m keyId data)).lookup k = none := by
      intro k hk
      have hne : k ≠ keyId := fun h => hnodup.1 (h ▸ hk)
      rw [AList.lookup_insert_ne hne]
      exact hnew k (by simp [hk])
    simp only [encryptPQKeys, KeyStore.writeCryptedPQKey, hfree, isSome_none,
      Bool.false_eq_true, if_false]
    exact ih hnodup.2 _ _ hrest

theorem dlookup_entries {α β : Type} [DecidableEq α] (m : Assoc α β) (k : α) :
    m.entries.dlookup k = m.lookup k := rfl

structure KeyStore.Plain (s : KeyStore) : Prop where
  cryptedKeys : ∀ id, s.cryptedKeys.lookup id = none
  cryptedPQKeys : ∀ keyId, s.cryptedPQKeys.lookup keyId = none

def KeyStore.vault (s : KeyStore) : Vault := ⟨fun id => s.keys.lookup id, fun id => s.pqKeys.lookup id⟩

theorem KeyStore.Plain.holds (W : WalletCrypto) (h : s.Plain) : s.Holds W none s.vault where
  keys _ := rfl
  cryptedKeys := h.cryptedKeys
  pqKeys _ := rfl
  cryptedPQKeys := h.cryptedPQKeys

theorem KeyStore.Holds.plain (h : s.Holds W none V) : s.Plain where
  cryptedKeys := h.cryptedKeys
  cryptedPQKeys := h.cryptedPQKeys

theorem KeyStore.encrypt_eq (hs : s.Plain) (hrecords : records.Plain) (m : MasterKey) :
    s.encrypt W m records = some (
      { keys := ∅
        cryptedKeys := insertAll (fun _ => W.cryptKey m) s.keys.entries s.cryptedKeys
        pqKeys := ∅
        cryptedPQKeys := insertAll (W.cryptPQ m) s.pqKeys.entries s.cryptedPQKeys },
      { keys := eraseAll s.keys.entries records.keys
        cryptedKeys := insertAll (fun _ => W.cryptKey m) s.keys.entries records.cryptedKeys
        pqKeys := eraseAll s.pqKeys.entries records.pqKeys
        cryptedPQKeys :=
          insertAll (W.cryptPQ m) s.pqKeys.entries records.cryptedPQKeys }) := by
  have hempty : s.cryptedKeys.entries.isEmpty = true ∧ s.cryptedPQKeys.entries.isEmpty = true :=
    ⟨isEmpty_iff.mpr hs.cryptedKeys, isEmpty_iff.mpr hs.cryptedPQKeys⟩
  have hkeys := encryptKeys_eq (W := W) m s.keys.nodupKeys { s with keys := ∅, pqKeys := ∅ }
    records fun id _ => hrecords.cryptedKeys id
  unfold KeyStore.encrypt
  rw [if_neg (not_not.mpr hempty)]
  simp only [hkeys]
  exact encryptPQKeys_eq m s.pqKeys.nodupKeys _ _ fun keyId _ => hrecords.cryptedPQKeys keyId

/-- The records after encrypting the keys of `V`: others stay. -/
structure KeyStore.EncryptedFrom (W : WalletCrypto) (m : MasterKey) (V : Vault)
    (records records' : KeyStore) : Prop where
  keys : ∀ id, records'.keys.lookup id = if (V.keys id).isSome then none else records.keys.lookup id
  cryptedKeys : ∀ id, records'.cryptedKeys.lookup id = (V.keys id).map (W.cryptKey m)
  pqKeys : ∀ keyId, records'.pqKeys.lookup keyId =
    if (V.pqKeys keyId).isSome then none else records.pqKeys.lookup keyId
  cryptedPQKeys : ∀ keyId, records'.cryptedPQKeys.lookup keyId =
    (V.pqKeys keyId).map (W.cryptPQ m keyId)

theorem KeyStore.Holds.encrypt (hs : s.Holds W none V) (hrecords : records.Plain)
    (m : MasterKey) :
    ∃ s' records', s.encrypt W m records = some (s', records') ∧
      s'.Holds W (some m) V ∧ records.EncryptedFrom W m V records' := by
  refine ⟨_, _, KeyStore.encrypt_eq hs.plain hrecords m, ?_, ?_⟩
  · constructor
    · intro id
      rfl
    · intro id
      simp only [lookup_insertAll _ s.keys.nodupKeys, dlookup_entries, hs.keys,
        hs.cryptedKeys]
      simp
    · intro keyId
      rfl
    · intro keyId
      simp only [lookup_insertAll _ s.pqKeys.nodupKeys, dlookup_entries, hs.pqKeys,
        hs.cryptedPQKeys]
      simp
  · constructor
    · intro id
      simp only [lookup_eraseAll, dlookup_entries, hs.keys]
      simp
    · intro id
      simp only [lookup_insertAll _ s.keys.nodupKeys, dlookup_entries, hs.keys,
        hrecords.cryptedKeys]
      simp
    · intro keyId
      simp only [lookup_eraseAll, dlookup_entries, hs.pqKeys]
      simp
    · intro keyId
      simp only [lookup_insertAll _ s.pqKeys.nodupKeys, dlookup_entries, hs.pqKeys,
        hrecords.cryptedPQKeys]
      simp

theorem KeyStore.EncryptedFrom.holds {m : MasterKey} {M : Vault} {records' : KeyStore}
    (h : records.EncryptedFrom W m M records') (hrecords : records.Holds W none V)
    (hle : V.Le M) : records'.Holds W (some m) M where
  keys id := by
    rw [h.keys, hrecords.keys]
    cases hM : M.keys id with
    | some key => simp
    | none =>
      have hV : V.keys id = none := by
        by_contra hne
        obtain ⟨key, hkey⟩ := ne_none_iff_exists'.mp hne
        cases (hle.keys hkey).symm.trans hM
      simp [hV]
  cryptedKeys := h.cryptedKeys
  pqKeys keyId := by
    rw [h.pqKeys, hrecords.pqKeys, hle.pqKeys]
    cases V.pqKeys keyId <;> simp
  cryptedPQKeys := h.cryptedPQKeys

theorem checkKeys_eq {α : Type} {decrypts : α → Bool} {l : List α}
    (h : ∀ e ∈ l, decrypts e = true) (thoroughlyChecked keyPass : Bool) :
    checkKeys decrypts thoroughlyChecked l keyPass = (keyPass || !l.isEmpty, false) := by
  induction l generalizing keyPass with
  | nil => simp [checkKeys]
  | cons e l ih =>
    have he : decrypts e = true := h e List.mem_cons_self
    have hl := ih (fun e he => h e (List.mem_cons_of_mem _ he)) true
    cases thoroughlyChecked with
    | true => simp [checkKeys, he]
    | false => simp [checkKeys, he, hl]

theorem KeyStore.Holds.checkDecryptionKey {m : MasterKey} (h : s.Holds W (some m) V)
    (hV : V.PQValid W) (thoroughlyChecked : Bool) :
    s.checkDecryptionKey W m thoroughlyChecked = .answer true := by
  have hplain : s.keys.entries.isEmpty = true ∧ s.pqKeys.entries.isEmpty = true :=
    ⟨isEmpty_iff.mpr h.keys, isEmpty_iff.mpr h.pqKeys⟩
  have hkeys : ∀ e ∈ s.cryptedKeys.entries, (decryptKey W m e.2).isSome = true := by
    rintro ⟨id, entry⟩ hmem
    have hentry := lookup_eq_some_iff.mpr hmem
    rw [h.cryptedKeys, bind_some, map_eq_some_iff] at hentry
    obtain ⟨key, -, rfl⟩ := hentry
    rw [decryptKey_cryptKey]
    rfl
  have hpq : ∀ e ∈ s.cryptedPQKeys.entries, decryptsPQ W m e = true := by
    rintro ⟨keyId, data⟩ hmem
    have hdata := lookup_eq_some_iff.mpr hmem
    rw [h.cryptedPQKeys, bind_some, map_eq_some_iff] at hdata
    obtain ⟨plain, hplain, rfl⟩ := hdata
    have hvalid := hV _ _ hplain
    simp [decryptsPQ, WalletCrypto.cryptPQ, W.decrypt_encrypt hvalid.secret_ne_nil, hvalid.1,
      hvalid.2.1, hvalid.2.2]
  unfold KeyStore.checkDecryptionKey
  rw [if_neg (not_not.mpr hplain)]
  simp only [checkKeys_eq hkeys, checkKeys_eq hpq, Bool.false_eq_true, if_false]
  cases s.cryptedKeys.entries.isEmpty <;> cases s.cryptedPQKeys.entries.isEmpty <;> simp

end Holds
end Vexta
