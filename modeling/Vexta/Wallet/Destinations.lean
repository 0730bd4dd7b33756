import Vexta.Wallet.Custody

/-! Destinations of a wallet: no two are the same, and each key is found again after a load. -/
namespace Vexta
open Lib List Option Assoc Function Vault WalletNode

/-- Derivation and key hash tell apart the keys of the seeds in `S`. -/
def DerivationInjectiveOn (W : WalletCrypto) (S : Set CKey) : Prop :=
  ∀ ⦃seed seed' type type' n n' data data'⦄, seed ∈ S → seed' ∈ S → n < uint32Max →
    n' < uint32Max → derivePQKey W seed type n = some data →
    derivePQKey W seed' type' n' = some data' → W.sha256 data.pubkey = W.sha256 data'.pubkey →
    seed = seed' ∧ type = type' ∧ n = n'

/-- Derived from `seed` at counter `n`, which a chain of that seed has passed. -/
structure Origin (W : WalletCrypto) (V : Vault) (db : WalletDb) (keyId : Uint256)
    (data : PQKeyData) (seed : CKey) (n : ℕ) : Prop where
  held : V.keys (W.keyID seed) = some seed
  derived : derivePQKey W seed data.type n = some data
  lt : n < uint32Max
  metadata : db.pqKeyMetadata.lookup keyId = some ⟨W.keyID seed, data.type.keypath n⟩
  passed : W.keyID seed = db.pqChain.seedId → n < db.pqChain.counter data.type

/-- The records, with the keys of `V` and their origins. -/
structure RecordsKept (W : WalletCrypto) (S : Set CKey) (V : Vault) (db : WalletDb) : Prop where
  inv : DbInv W db
  store : db.store.Holds W db.masterKey V
  pqValid : V.PQValid W
  keys : ∀ {id key}, V.keys id = some key → W.keyID key = id ∧ key ∈ S
  origin : ∀ {keyId data}, V.pqKeys keyId = some data →
    ∃ seed n, Origin W V db keyId data seed n

/-- A loaded wallet over such records. -/
structure StateKept (W : WalletCrypto) (S : Set CKey) (V M : Vault) (s : CWallet × WalletDb) :
    Prop where
  records : RecordsKept W S V s.2
  mem : MemInv W s.1 s.2
  custody : Custody W V M s
  keys : ∀ {id key}, M.keys id = some key → W.keyID key = id ∧ key ∈ S

/-- No post-quantum key is lost or replaced. -/
def Vault.Grows (V V' : Vault) : Prop :=
  ∀ keyId data, V.pqKeys keyId = some data → V'.pqKeys keyId = some data

theorem Vault.Grows.refl (V : Vault) : V.Grows V := fun _ _ h => h

theorem Vault.Grows.trans {U V V' : Vault} (h : U.Grows V) (h' : V.Grows V') : U.Grows V' :=
  fun keyId data hd => h' keyId data (h keyId data hd)

def Vault.addKey (V : Vault) (id : CKeyID) (key : CKey) : Vault :=
  { V with keys := Function.update V.keys id (some key) }

def Vault.addPQKey (V : Vault) (keyId : Uint256) (data : PQKeyData) : Vault :=
  { V with pqKeys := Function.update V.pqKeys keyId (some data) }

section Vaults
variable {W : WalletCrypto} {V M : Vault} {s : KeyStore}

theorem KeyStore.Holds.addKey (h : s.Holds W none V) (id : CKeyID) (key : CKey) :
    ({ s with keys := s.keys.insert id key } : KeyStore).Holds W none (V.addKey id key) := by
  refine { h with keys := fun k => ?_ }
  by_cases hk : k = id <;> simp [lookup_insert_ite, Vault.addKey, h.keys, hk]

variable {m : MasterKey} {id : CKeyID} {keyId : Uint256}

theorem KeyStore.Holds.addCryptedKey (h : s.Holds W (some m) V) (id : CKeyID) (key : CKey) :
    ({ s with cryptedKeys := s.cryptedKeys.insert id (W.cryptKey m key) } : KeyStore).Holds W
      (some m) (V.addKey id key) := by
  refine { h with cryptedKeys := fun k => ?_ }
  by_cases hk : k = id <;> simp [lookup_insert_ite, Vault.addKey, h.cryptedKeys, hk]

theorem KeyStore.Holds.writeCryptedKey (h : s.Holds W (some m) V) (hfresh : V.keys id = none)
    (key : CKey) :
    (s.writeCryptedKey id (W.cryptKey m key)).Holds W (some m) (V.addKey id key) := by
  have hnone : s.cryptedKeys.lookup id = none := by
    rw [h.cryptedKeys]
    simp [hfresh]
  have hadd := h.addCryptedKey id key
  unfold KeyStore.writeCryptedKey
  rw [hnone]
  exact { hadd with keys := fun k => by simp [lookup_erase_ite, h.keys] }

theorem KeyStore.Holds.addPQKey (h : s.Holds W none V) (keyId : Uint256) (data : PQKeyData) :
    ({ s with pqKeys := s.pqKeys.insert keyId data } : KeyStore).Holds W none
      (V.addPQKey keyId data) := by
  refine { h with pqKeys := fun k => ?_ }
  by_cases hk : k = keyId <;> simp [lookup_insert_ite, Vault.addPQKey, h.pqKeys, hk]

theorem KeyStore.Holds.addCryptedPQKey (h : s.Holds W (some m) V) (keyId : Uint256)
    (data : PQKeyData) :
    ({ s with cryptedPQKeys := s.cryptedPQKeys.insert keyId (W.cryptPQ m keyId data) } :
      KeyStore).Holds W (some m) (V.addPQKey keyId data) := by
  refine { h with cryptedPQKeys := fun k => ?_ }
  by_cases hk : k = keyId <;> simp [lookup_insert_ite, Vault.addPQKey, h.cryptedPQKeys, hk]

theorem KeyStore.Holds.erasePQKey {master : Option MasterKey} (h : s.Holds W master V)
    (hfresh : V.pqKeys keyId = none) : s.erasePQKey keyId = s := by
  rw [KeyStore.erasePQKey_eq_iff]
  simp [KeyStore.havePQKey, h.pqKeys, h.cryptedPQKeys, hfresh]

theorem Vault.Le.addKey (h : V.Le M) (id : CKeyID) (key : CKey) :
    (V.addKey id key).Le (M.addKey id key) where
  keys {k key'} hk := by
    by_cases hid : k = id
    · subst hid
      simpa [Vault.addKey] using hk
    · simp only [Vault.addKey, update_of_ne hid] at hk ⊢
      exact h.keys hk
  pqKeys := h.pqKeys

theorem Vault.Le.addKey_right (h : V.Le M) (hfresh : M.keys id = none) (key : CKey) :
    V.Le (M.addKey id key) where
  keys {k key'} hk := by
    have hM := h.keys hk
    have hne : k ≠ id := ne_of_apply_ne M.keys (by simp [hM, hfresh])
    simpa only [Vault.addKey, update_of_ne hne] using hM
  pqKeys := h.pqKeys

theorem Vault.Le.addPQKey (h : V.Le M) (keyId : Uint256) (data : PQKeyData) :
    (V.addPQKey keyId data).Le (M.addPQKey keyId data) where
  keys hk := h.keys hk
  pqKeys := by
    simp only [Vault.addPQKey]
    rw [h.pqKeys]

theorem Vault.PQValid.addPQKey (h : V.PQValid W) {data : PQKeyData} (hdata : data.Valid W keyId) :
    (V.addPQKey keyId data).PQValid W := by
  intro k data' hk
  by_cases hid : k = keyId
  · subst hid
    simp only [Vault.addPQKey, update_self, Option.some.injEq] at hk
    exact hk ▸ hdata
  · simp only [Vault.addPQKey, update_of_ne hid] at hk
    exact h k data' hk

theorem Vault.grows_addPQKey (hfresh : V.pqKeys keyId = none) (data : PQKeyData) :
    V.Grows (V.addPQKey keyId data) := by
  intro k data' hk
  have hne : k ≠ keyId := ne_of_apply_ne V.pqKeys (by simp [hk, hfresh])
  simpa only [addPQKey, update_of_ne hne] using hk

theorem addKey_mem {S : Set CKey}
    (h : ∀ {id key}, V.keys id = some key → W.keyID key = id ∧ key ∈ S) {key : CKey}
    (hkey : key ∈ S) {key' : CKey} (hlookup : (V.addKey (W.keyID key) key).keys id = some key') :
    W.keyID key' = id ∧ key' ∈ S := by
  by_cases hid : id = W.keyID key
  · subst hid
    simp only [addKey, update_self, Option.some.injEq] at hlookup
    exact hlookup ▸ ⟨rfl, hkey⟩
  · simp only [addKey, update_of_ne hid] at hlookup
    exact h hlookup

end Vaults

section Steps
variable {W : WalletCrypto} {S : Set CKey} {V M : Vault} {w : CWallet} {db : WalletDb}
  {s : CWallet × WalletDb}

def KeptFrom (W : WalletCrypto) (S : Set CKey) (V : Vault) (s : CWallet × WalletDb) : Prop :=
  ∃ V' M', V.Grows V' ∧ StateKept W S V' M' s

theorem StateKept.walletInv (h : StateKept W S V M s) : WalletInv W s := ⟨h.records.inv, h.mem⟩

variable {data : PQKeyData} {seed : CKey} {id : CKeyID} {type : PqType}

theorem Origin.mono {keyId : Uint256} {n : ℕ} {V' : Vault} {db' : WalletDb}
    (h : Origin W V db keyId data seed n)
    (hkeys : ∀ {id key}, V.keys id = some key → V'.keys id = some key)
    (hmeta : db'.pqKeyMetadata.lookup keyId = db.pqKeyMetadata.lookup keyId)
    (hchain : W.keyID seed = db'.pqChain.seedId → W.keyID seed = db.pqChain.seedId ∧
      db.pqChain.counter data.type ≤ db'.pqChain.counter data.type) :
    Origin W V' db' keyId data seed n :=
  { h with
    held := hkeys h.held
    metadata := hmeta.trans h.metadata
    passed := fun heq => lt_of_lt_of_le (h.passed (hchain heq).1) (hchain heq).2 }

section
variable (h : StateKept W S V M (w, db))
include h

theorem StateKept.lock :
    StateKept W S V M (lockWallet (w, db)) := by
  have hcustody := h.custody.lock
  obtain ⟨v, heq⟩ := lockWallet_eq w db
  rw [heq] at hcustody ⊢
  exact ⟨h.records, h.mem.setVMasterKey v, hcustody, h.keys⟩

theorem StateKept.unlock :
    StateKept W S V M (unlockWallet W (w, db)) := by
  have hcustody := h.custody.unlock.1
  obtain ⟨v, heq⟩ := unlockWallet_eq W w db
  rw [heq] at hcustody ⊢
  exact ⟨h.records, h.mem.setVMasterKey v, hcustody, h.keys⟩

theorem StateKept.encryptTxn (hm : w.masterKey = none)
    (m : MasterKey) : StateKept W S M M (Vexta.encryptTxn W m (w, db)) := by
  have hinv := (encryptTxn_encrypted h.walletInv hm m).inv
  obtain ⟨store, records, heq, hcustody⟩ := h.custody.encryptTxn hm m
  rw [heq] at hinv ⊢
  refine ⟨⟨hinv.db, hcustody.records, hcustody.pqValid, h.keys, ?_⟩, hinv.mem, hcustody, h.keys⟩
  intro keyId data hdata
  rw [h.custody.le.pqKeys] at hdata
  obtain ⟨seed, n, ho⟩ := h.records.origin hdata
  exact ⟨seed, n, ho.mono h.custody.le.keys rfl fun heq => ⟨heq, le_rfl⟩⟩

theorem StateKept.fresh (hfresh : w.store.haveKey id = false) :
    M.keys id = none ∧ V.keys id = none := by
  have hM : M.keys id = none := by
    rw [h.custody.maps.haveKey, isSome_eq_false_iff, isNone_iff_eq_none] at hfresh
    exact hfresh
  refine ⟨hM, ?_⟩
  by_contra hne
  obtain ⟨key, hkey⟩ := ne_none_iff_exists'.mp hne
  rw [h.custody.le.keys hkey] at hM
  cases hM

theorem StateKept.addSeedKey_custody (hlocked : w.isLocked = false)
    (hfresh : w.store.haveKey (W.keyID seed) = false) :
    Custody W (V.addKey (W.keyID seed) seed) (M.addKey (W.keyID seed) seed)
      (addSeedKey W seed (w, db)) := by
  obtain ⟨hM, hV⟩ := h.fresh hfresh
  have hle := h.custody.le.addKey (W.keyID seed) seed
  have hv : w.vMasterKey = w.masterKey := h.custody.vMasterKey hlocked
  have hmaster : w.masterKey = db.masterKey := h.custody.masterKey
  have hmaps : w.store.Holds W w.masterKey M := h.custody.maps
  have hrecords := h.custody.records
  cases hm : w.masterKey with
  | none =>
    rw [addSeedKey_plain hm]
    rw [hm] at hmaps hmaster
    rw [← hmaster] at hrecords
    refine ⟨?_, ?_, hm.trans hmaster, h.custody.unlocked, hle, h.records.pqValid⟩
    · rw [← hmaster]
      exact hrecords.addKey _ seed
    · simp only [hm]
      exact hmaps.addKey _ seed
  | some m =>
    rw [addSeedKey_crypted hm (hv.trans hm)]
    rw [hm] at hmaps hmaster
    rw [← hmaster] at hrecords
    refine ⟨?_, ?_, hm.trans hmaster, h.custody.unlocked, hle, h.records.pqValid⟩
    · rw [← hmaster]
      exact hrecords.writeCryptedKey hV seed
    · simp only [hm]
      exact hmaps.addCryptedKey _ seed

theorem StateKept.addSeedKey (hS : seed ∈ S)
    (hlocked : w.isLocked = false) (hfresh : w.store.haveKey (W.keyID seed) = false) :
    StateKept W S (V.addKey (W.keyID seed) seed) (M.addKey (W.keyID seed) seed)
      (Vexta.addSeedKey W seed (w, db)) := by
  have hadded := addSeedKey_added seed h.walletInv hlocked
  have hcustody := h.addSeedKey_custody hlocked hfresh
  obtain ⟨-, hV⟩ := h.fresh hfresh
  refine ⟨⟨hadded.inv.db, hcustody.records, hcustody.pqValid, addKey_mem h.records.keys hS, ?_⟩,
    hadded.inv.mem, hcustody, addKey_mem h.keys hS⟩
  intro keyId data hdata
  obtain ⟨seed', n, ho⟩ := h.records.origin hdata
  have hle := (Vault.Le.refl V).addKey_right hV seed
  refine ⟨seed', n, ho.mono hle.keys (by rw [hadded.metadata]) fun heq => ?_⟩
  rw [hadded.pqChain] at heq ⊢
  exact ⟨heq, le_rfl⟩

theorem StateKept.addSeedKey_unwritten (hS : seed ∈ S)
    (hlocked : w.isLocked = false) (hfresh : w.store.haveKey (W.keyID seed) = false) :
    StateKept W S V (M.addKey (W.keyID seed) seed) ((Vexta.addSeedKey W seed (w, db)).1, db) := by
  have hinv := addSeedKey_unwritten_inv seed h.walletInv hlocked
  have hcustody := h.addSeedKey_custody hlocked hfresh
  obtain ⟨hM, -⟩ := h.fresh hfresh
  exact ⟨h.records, hinv.mem, ⟨h.custody.records, hcustody.maps, hinv.mem.masterKey,
    hcustody.unlocked, h.custody.le.addKey_right hM seed, h.records.pqValid⟩, addKey_mem h.keys hS⟩

theorem StateKept.addHDChain
    (hinv : WalletInv W (Vexta.addHDChain id (w, db))) :
    StateKept W S V M (Vexta.addHDChain id (w, db)) := by
  refine ⟨{ h.records with inv := hinv.db, origin := fun hdata => ?_ }, hinv.mem,
    { h.custody with }, h.keys⟩
  obtain ⟨seed, n, ho⟩ := h.records.origin hdata
  exact ⟨seed, n, ho.mono (fun hk => hk) rfl fun heq => ⟨heq, le_rfl⟩⟩

theorem StateKept.addPQHDChain (hunused : db.Unused id)
    (hinv : WalletInv W (Vexta.addPQHDChain id (w, db))) :
    StateKept W S V M (Vexta.addPQHDChain id (w, db)) := by
  refine ⟨{ h.records with inv := hinv.db, origin := fun hdata => ?_ }, hinv.mem,
    { h.custody with }, h.keys⟩
  obtain ⟨seed, n, ho⟩ := h.records.origin hdata
  exact ⟨seed, n, ho.mono (fun hk => hk) rfl fun heq => absurd heq (hunused ho.metadata)⟩

theorem StateKept.seedWrites (hlocked : w.isLocked = false)
    (hfresh : w.store.haveKey (W.keyID seed) = false) (hS : seed ∈ S) (written : ℕ) :
    ∃ V' M', V.Grows V' ∧
      StateKept W S V' M' (runSteps (Vexta.seedWrites W seed written) (w, db)) := by
  have hkey := h.addSeedKey hS hlocked hfresh
  have hgrows : V.Grows (V.addKey (W.keyID seed) seed) := fun _ _ hd => hd
  have hinv := fun n => seedWrites_inv h.walletInv hlocked hfresh n
  match written with
  | 0 => exact ⟨V, _, .refl V, h.addSeedKey_unwritten hS hlocked hfresh⟩
  | 1 => exact ⟨_, _, hgrows, hkey⟩
  | 2 => exact ⟨_, _, hgrows, hkey.addHDChain (hinv 2)⟩
  | n + 3 =>
    have hall := hinv (n + 3)
    rw [seedWrites_all] at hall ⊢
    exact ⟨_, _, hgrows, (hkey.addHDChain (hinv 2)).addPQHDChain
      (h.walletInv.unused hlocked hfresh) hall⟩

end

theorem derivePQKey_valid {n : ℕ} (h : derivePQKey W seed type n = some data) :
    data.Valid W (W.sha256 data.pubkey) := by
  unfold derivePQKey at h
  obtain ⟨key, hkey, rfl⟩ := map_eq_some_iff.mp h
  obtain ⟨hpub, hsec⟩ := W.keygen_sizes hkey
  exact ⟨hpub, hsec, rfl⟩

theorem addPQKey_holds (h : Custody W V M (w, db)) (hlocked : w.isLocked = false)
    (hdata : data.Valid W (W.sha256 data.pubkey)) (writeKey : Bool) :
    (addPQKey W w db.store data writeKey).1.Holds W w.masterKey
        (M.addPQKey (W.sha256 data.pubkey) data) ∧
      ∀ records, (addPQKey W w db.store data writeKey).2 = some records →
        records.Holds W db.masterKey (V.addPQKey (W.sha256 data.pubkey) data) := by
  have hsize : ¬ (data.pubkey.length ≠ data.type.pubkeyBytes ∨
      data.secret.length ≠ data.type.seckeyBytes) := by
    simp [hdata.1, hdata.2.1]
  have hv : w.vMasterKey = w.masterKey := h.vMasterKey hlocked
  have hmaster : w.masterKey = db.masterKey := h.masterKey
  have hmaps : w.store.Holds W w.masterKey M := h.maps
  have hrecords := h.records
  rw [← hmaster] at hrecords ⊢
  unfold addPQKey
  cases hm : w.masterKey with
  | none =>
    rw [hm] at hmaps hrecords
    simp only [if_neg hsize, CWallet.hasEncryptionKeys, hm, isSome_none, Bool.false_eq_true,
      not_false_eq_true, if_true]
    refine ⟨hmaps.addPQKey _ data, fun records hwrite => ?_⟩
    unfold KeyStore.writePQKey at hwrite
    split_ifs at hwrite
    rw [← Option.some.inj hwrite]
    exact hrecords.addPQKey _ data
  | some m =>
    rw [hm] at hmaps hrecords hv
    simp only [if_neg hsize, CWallet.hasEncryptionKeys, hm, isSome_some, not_true_eq_false,
      if_false, hv]
    refine ⟨hmaps.addCryptedPQKey _ data, fun records hwrite => ?_⟩
    unfold KeyStore.writeCryptedPQKey at hwrite
    split_ifs at hwrite
    rw [← Option.some.inj hwrite]
    have hadd := hrecords.addCryptedPQKey (W.sha256 data.pubkey) data
    exact { hadd with pqKeys := fun k => by simp [lookup_erase_ite, hrecords.pqKeys] }

theorem StateKept.seed_held (h : StateKept W S V M (w, db)) (hkey : DerivesKey W w type seed data) :
    W.keyID seed = w.hdChain ∧ V.keys w.hdChain = some seed ∧ seed ∈ S := by
  have hM : M.keys w.hdChain = some seed := by
    rw [← hkey.found]
    exact (h.custody.getKey hkey.unlocked w.hdChain).symm
  have hhd : w.hdChain = db.seedId := h.mem.hdChain
  have hknown := h.records.inv.seedKnown (hhd ▸ hkey.enabled)
  rw [h.records.store.haveKey] at hknown
  obtain ⟨key, hV⟩ := isSome_iff_exists.mp hknown
  change V.keys db.seedId = some key at hV
  rw [← hhd] at hV
  have heq : some key = some seed := (h.custody.le.keys hV).symm.trans hM
  rw [heq] at hV
  exact ⟨(h.keys hM).1, hV, (h.keys hM).2⟩

theorem StateKept.counter_lt (h : StateKept W S V M (w, db))
    (hkey : DerivesKey W w type seed data) : w.pqHDChain.counter type < uint32Max := by
  apply lt_of_le_of_ne _ hkey.counter
  rw [h.mem.pqHDChain]
  exact h.records.inv.counters type

theorem StateKept.derived_fresh (hinj : DerivationInjectiveOn W S) (h : StateKept W S V M (w, db))
    (hkey : DerivesKey W w type seed data) : V.pqKeys (W.sha256 data.pubkey) = none := by
  obtain ⟨hid, -, hS⟩ := h.seed_held hkey
  have hpq : w.pqHDChain = db.pqChain := h.mem.pqHDChain
  by_contra hne
  obtain ⟨data', hdata'⟩ := ne_none_iff_exists'.mp hne
  obtain ⟨seed', n, ho⟩ := h.records.origin hdata'
  have hsha :=
    (h.records.pqValid _ _ hdata').2.2.symm
  obtain ⟨rfl, htype, hn⟩ := hinj hS (h.records.keys ho.held).2 (h.counter_lt hkey) ho.lt
    hkey.derived ho.derived hsha
  have hbound : W.keyID seed = db.pqChain.seedId := by
    rw [hid, ← hkey.bound, hpq]
  have hpassed := ho.passed hbound
  rw [← htype, ← hn, hpq] at hpassed
  exact lt_irrefl _ hpassed

theorem StateKept.getNewDestination (hinj : DerivationInjectiveOn W S)
    (h : StateKept W S V M (w, db)) (type : PqType) (txn : TxnSteps) :
    ∃ V' M', V.Grows V' ∧
      StateKept W S V' M' ((Vexta.getNewDestination W w db type txn).1,
        (Vexta.getNewDestination W w db type txn).2.1) ∧
      ∀ dest, (Vexta.getNewDestination W w db type txn).2.2 = .ok dest →
        V.pqKeys dest.keyId = none ∧
          ∃ data, V'.pqKeys dest.keyId = some data ∧ data.type = dest.type := by
  have hinv := (getNewDestination_inv h.walletInv type txn).inv
  rcases getNewDestination_cases W w db type txn with ⟨e, heq⟩ | ⟨seed, data, hkey, heq⟩
  · rw [heq]
    exact ⟨V, M, .refl V, h, by simp⟩
  have hfresh := h.derived_fresh hinj hkey
  have hdata := derivePQKey_valid hkey.derived
  obtain ⟨hmaps, hrecords⟩ := addPQKey_holds h.custody hkey.unlocked hdata txn.writeKey
  have hfreshM : M.pqKeys (W.sha256 data.pubkey) = none := by
    rw [h.custody.le.pqKeys]
    exact hfresh
  rw [heq] at hinv ⊢
  rcases storeNewKey_cases W w db seed data (w.pqHDChain.counter type) txn with
    ⟨-, e, heq⟩ | ⟨-, e, heq⟩ | ⟨records, hwritten, -, heq⟩
  · rw [heq]
    exact ⟨V, M, .refl V, h, by simp⟩
  · rw [heq, h.custody.maps.erasePQKey hfreshM]
    exact ⟨V, M, .refl V, h, by simp⟩
  · rw [heq] at hinv ⊢
    have hgrows := grows_addPQKey hfresh data
    have hvalid := h.records.pqValid.addPQKey hdata
    have hstore := hrecords records hwritten
    obtain ⟨hid, hheld, -⟩ := h.seed_held hkey
    have hpq : w.pqHDChain = db.pqChain := h.mem.pqHDChain
    have htype := derivePQKey_type hkey.derived
    refine ⟨_, _, hgrows, ⟨⟨hinv.db, hstore, hvalid, h.records.keys, ?_⟩, hinv.mem,
      ⟨hstore, hmaps, h.custody.masterKey, h.custody.unlocked, h.custody.le.addPQKey _ data,
        hvalid⟩, h.keys⟩, ?_⟩
    · intro keyId data' hdata'
      by_cases hk : keyId = W.sha256 data.pubkey
      · subst hk
        simp only [Vault.addPQKey, update_self, Option.some.injEq] at hdata'
        subst hdata'
        refine ⟨seed, w.pqHDChain.counter type, hid ▸ hheld, htype ▸ hkey.derived,
          h.counter_lt hkey, AList.lookup_insert _, fun _ => ?_⟩
        · change _ < (w.pqHDChain.bump data.type).counter data.type
          rw [PQHDChain.counter_bump, if_pos rfl, htype]
          exact Nat.lt_succ_self _
      · simp only [Vault.addPQKey, update_of_ne hk] at hdata'
        obtain ⟨seed', n, ho⟩ := h.records.origin hdata'
        refine ⟨seed', n, ho.mono (fun hk => hk) (AList.lookup_insert_ne hk) fun hseed => ?_⟩
        change W.keyID seed' = (w.pqHDChain.bump data.type).seedId at hseed
        change _ ∧ _ ≤ (w.pqHDChain.bump data.type).counter data'.type
        rw [PQHDChain.bump_seedId, hpq] at hseed
        rw [PQHDChain.counter_bump, hpq]
        exact ⟨hseed, Nat.le_add_right _ _⟩
    · rintro dest hdest
      obtain rfl := Except.ok.inj hdest
      exact ⟨hfresh, data, by simp [Vault.addPQKey], rfl⟩

theorem keptFrom_keep (hinj : DerivationInjectiveOn W S) (V : Vault) :
    StepsKeep W S (KeptFrom W S V) where
  inv h := by
    obtain ⟨V', M', -, hkept⟩ := h
    exact hkept.walletInv
  seed h hlocked hfresh hS written := by
    obtain ⟨V', M', hgrows, hkept⟩ := h
    obtain ⟨V'', M'', hgrows', hkept'⟩ := hkept.seedWrites hlocked hfresh hS written
    exact ⟨V'', M'', hgrows.trans hgrows', hkept'⟩
  newKey type txn h := by
    obtain ⟨V', M', hgrows, hkept⟩ := h
    obtain ⟨V'', M'', hgrows', hkept', -⟩ := hkept.getNewDestination hinj type txn
    exact ⟨V'', M'', hgrows.trans hgrows', hkept'⟩
  encrypt m h hm := by
    obtain ⟨V', M', hgrows, hkept⟩ := h
    refine ⟨M', M', fun keyId data hdata => ?_, hkept.encryptTxn hm m⟩
    rw [hkept.custody.le.pqKeys]
    exact hgrows keyId data hdata
  lock h := by
    obtain ⟨V', M', hgrows, hkept⟩ := h
    exact ⟨V', M', hgrows, hkept.lock⟩
  unlock h := by
    obtain ⟨V', M', hgrows, hkept⟩ := h
    exact ⟨V', M', hgrows, hkept.unlock⟩

end Steps

section Runs
variable {W : WalletCrypto} {S : Set CKey} {V M : Vault} {w : CWallet} {db : WalletDb}

def NewIn (V V' : Vault) (dest : PqDestination) : Prop :=
  V.pqKeys dest.keyId = none ∧ ∃ data, V'.pqKeys dest.keyId = some data ∧ data.type = dest.type

variable {node : WalletNode}

theorem NewIn.of_grows {U V' : Vault} {dest : PqDestination} (h : NewIn V V' dest)
    (hgrows : U.Grows V) : NewIn U V' dest := by
  refine ⟨?_, h.2⟩
  by_contra hne
  obtain ⟨data, hdata⟩ := ne_none_iff_exists'.mp hne
  have hsome := hgrows _ _ hdata
  cases h.1.symm.trans hsome

theorem StateKept.getNewPQDestination (hinj : DerivationInjectiveOn W S)
    (h : StateKept W S V M (w, db)) (type : PqType) {seed : CKey}
    (hfresh : w.store.haveKey (W.keyID seed) = false) (hS : seed ∈ S) (written : ℕ)
    (txn : TxnSteps) :
    ∃ V' M', V.Grows V' ∧
      StateKept W S V' M' ((Vexta.getNewPQDestination W w db type seed written txn).1,
        (Vexta.getNewPQDestination W w db type seed written txn).2.1) ∧
      ∀ dest, (Vexta.getNewPQDestination W w db type seed written txn).2.2 = .ok dest →
        NewIn V V' dest := by
  unfold Vexta.getNewPQDestination
  by_cases hkind : w.kind = .descriptorPQ ∧ ¬ w.isHDEnabled = true
  · rw [if_pos hkind]
    by_cases hlocked : w.isLocked = true
    · rw [if_pos hlocked]
      exact ⟨V, M, .refl V, h, by simp⟩
    by_cases hdisabled : w.disablePrivateKeys = true
    · rw [if_neg hlocked, if_pos hdisabled]
      exact ⟨V, M, .refl V, h, by simp⟩
    rw [if_neg hlocked, if_neg hdisabled]
    rw [Bool.not_eq_true] at hlocked
    obtain ⟨V₁, M₁, hgrows, hkept⟩ := h.seedWrites hlocked hfresh hS written
    cases seedError written with
    | some error => exact ⟨V₁, M₁, hgrows, hkept, by simp⟩
    | none =>
      obtain ⟨V₂, M₂, hgrows', hkept', hdest⟩ := hkept.getNewDestination hinj type txn
      exact ⟨V₂, M₂, hgrows.trans hgrows', hkept', fun dest heq =>
        NewIn.of_grows (hdest dest heq) hgrows⟩
  · rw [if_neg hkind]
    exact h.getNewDestination hinj type txn

theorem StateKept.run (hinj : DerivationInjectiveOn W S) (h : StateKept W S V M (w, db))
    (op : WalletOp) (hallowed : op.allowed W w = true) (hkeys : ∀ key ∈ op.keys, key ∈ S) :
    ∃ V' M', V.Grows V' ∧ StateKept W S V' M' (op.run W (w, db)).1 ∧
      ∀ dest, (op.run W (w, db)).2 = some dest → NewIn V V' dest := by
  cases hop : op with
  | newDestination type seed written txn =>
    subst hop
    have hfresh : w.store.haveKey (W.keyID seed) = false := by
      simpa [WalletOp.allowed] using hallowed
    obtain ⟨V', M', hgrows, hkept, hdest⟩ := h.getNewPQDestination hinj type hfresh
      (hkeys seed (by simp [WalletOp.keys])) written txn
    refine ⟨V', M', hgrows, hkept, fun dest heq => hdest dest ?_⟩
    change (Vexta.getNewPQDestination W w db type seed written txn).2.2.toOption = some dest at heq
    cases hres : (Vexta.getNewPQDestination W w db type seed written txn).2.2 with
    | error e =>
      rw [hres] at heq
      cases heq
    | ok d =>
      rw [hres] at heq
      rw [Option.some.inj heq]
  | _ =>
    rw [← hop]
    have hsteps := (keptFrom_keep hinj V).steps op ⟨V, M, .refl V, h⟩ hallowed hkeys
      (op.steps W w).length
    rw [take_length, ← WalletOp.run_state op (w, db)] at hsteps
    obtain ⟨V', M', hgrows, hkept⟩ := hsteps
    refine ⟨V', M', hgrows, hkept, fun dest heq => ?_⟩
    rw [hop] at heq
    cases heq

/-- A wallet file with the keys of `V`, and the loaded wallet. -/
structure NodeKept (W : WalletCrypto) (S : Set CKey) (V : Vault) (node : WalletNode) : Prop where
  records : RecordsKept W S V node.db
  wallet : ∀ w, node.wallet = some w → ∃ M, StateKept W S V M (w, node.db)

theorem RecordsKept.withChain (h : RecordsKept W S V db) {chain : PQHDChain}
    (hchain : Reconciled db chain) : RecordsKept W S V (db.withChain chain) := by
  refine ⟨h.inv.withChain hchain, by simpa using h.store, h.pqValid, h.keys, ?_⟩
  intro keyId data hdata
  obtain ⟨seed, n, ho⟩ := h.origin hdata
  refine ⟨seed, n, ho.held, ho.derived, ho.lt, by simpa using ho.metadata, ?_⟩
  rw [WalletDb.withChain_pqChain]
  intro heq
  by_cases hnull : db.seedId = 0
  · rw [hchain.null hnull] at heq ⊢
    exact ho.passed heq
  · -- the metadata of the key are those of the active seed, so the scan has passed its counter
    rw [hchain.bound hnull] at heq
    exact hchain.passed (heq ▸ ho.metadata) ho.lt hnull

theorem RecordsKept.reload (h : RecordsKept W S V db) (node : WalletNode) :
    NodeKept W S V (node.reload W db) := by
  unfold WalletNode.reload
  by_cases hagree : ChainsAgree db
  · obtain ⟨chain, hchain, heq⟩ := h.inv.loadWallet_ok hagree node.kind node.disablePrivateKeys
    rw [heq]
    refine ⟨h.withChain hchain, fun w hw => ?_⟩
    rw [← Option.some.inj hw]
    exact ⟨V, h.withChain hchain, h.inv.ofDb _ _ chain, .ofDb h.store h.pqValid _ _ chain,
      h.keys⟩
  · rw [h.inv.loadWallet_error hagree]
    exact ⟨h, by simp⟩

theorem recordsKept_new (W : WalletCrypto) (S : Set CKey) :
    RecordsKept W S ⟨fun _ => none, fun _ => none⟩ .new where
  inv := dbInv_new W
  store := ⟨fun _ => rfl, fun _ => rfl, fun _ => rfl, fun _ => rfl⟩
  pqValid := by simp [Vault.PQValid]
  keys hlookup := by cases hlookup
  origin hlookup := by cases hlookup

def WalletEvent.keys (event : WalletEvent) : List CKey := event.op.keys

theorem NodeKept.step (hinj : DerivationInjectiveOn W S) (h : NodeKept W S V node)
    (event : WalletEvent) (hkeys : ∀ key ∈ event.keys, key ∈ S) :
    ∃ V', V.Grows V' ∧ NodeKept W S V' (node.step W event).1 ∧
      ∀ dest, (node.step W event).2 = some dest → NewIn V V' dest := by
  have hidle : ∃ V', V.Grows V' ∧ NodeKept W S V' node ∧
      ∀ dest, (none : Option PqDestination) = some dest → NewIn V V' dest :=
    ⟨V, .refl V, h, by simp⟩
  unfold WalletNode.step
  cases hw : node.wallet with
  | none => exact hidle
  | some w =>
    obtain ⟨M, hkept⟩ := h.wallet w hw
    cases event with
    | run op =>
      by_cases hallowed : op.allowed W w = true
      · simp only [if_neg (not_not.mpr hallowed)]
        obtain ⟨V', M', hgrows, hkept', hdest⟩ := hkept.run hinj op hallowed hkeys
        refine ⟨V', hgrows, ⟨hkept'.records, fun w' hw' => ?_⟩, hdest⟩
        rw [← Option.some.inj hw']
        exact ⟨M', hkept'⟩
      · simp only [if_pos hallowed]
        exact hidle
    | crash op n =>
      by_cases hallowed : op.allowed W w = true
      · simp only [if_neg (not_not.mpr hallowed)]
        obtain ⟨V', M', hgrows, hkept'⟩ := (keptFrom_keep hinj V).steps op
          ⟨V, M, .refl V, hkept⟩ hallowed hkeys n
        exact ⟨V', hgrows, hkept'.records.reload node, by simp⟩
      · simp only [if_pos hallowed]
        exact hidle

theorem NodeKept.runEvents (hinj : DerivationInjectiveOn W S) (h : NodeKept W S V node)
    (events : List WalletEvent) (hkeys : ∀ event ∈ events, ∀ key ∈ event.keys, key ∈ S) :
    ∃ V', V.Grows V' ∧ NodeKept W S V' (node.runEvents W events).1 ∧
      (node.runEvents W events).2.Nodup ∧
      ∀ dest ∈ (node.runEvents W events).2, NewIn V V' dest := by
  induction events generalizing node V with
  | nil => exact ⟨V, .refl V, h, nodup_nil, by simp [runEvents]⟩
  | cons event events ih =>
    obtain ⟨V₁, hgrows, hnode, hdest⟩ := h.step hinj event (hkeys event mem_cons_self)
    obtain ⟨V', hgrows', hnode', hnodup, hnew⟩ := ih hnode fun e he =>
      hkeys e (mem_cons_of_mem _ he)
    refine ⟨V', hgrows.trans hgrows', hnode', ?_, ?_⟩
    · change ((node.step W event).2.toList ++ _).Nodup
      cases hres : (node.step W event).2 with
      | none => exact hnodup
      | some dest =>
        obtain ⟨-, data, hdata, -⟩ := hdest dest hres
        refine nodup_cons.mpr ⟨fun hmem => ?_, hnodup⟩
        have hnone := (hnew dest hmem).1
        cases hdata.symm.trans hnone
    · intro dest hmem
      rcases mem_append.mp hmem with hmem | hmem
      · obtain ⟨hnone, data, hdata, htype⟩ := hdest dest (by simpa using hmem)
        exact ⟨hnone, data, hgrows' _ _ hdata, htype⟩
      · exact .of_grows (hnew dest hmem) hgrows

/-- The key of the destination is found after loading the records and unlocking. -/
def Retrievable (W : WalletCrypto) (node : WalletNode) (dest : PqDestination) : Prop :=
  ∃ s data, loadWallet W node.kind node.disablePrivateKeys node.db = .ok s ∧
    (unlockWallet W s).1.getPQKey W dest.keyId = some data ∧ data.type = dest.type

theorem NodeKept.retrievable (h : NodeKept W S V node) (hagree : ChainsAgree node.db)
    {dest : PqDestination} {data : PQKeyData} (hdata : V.pqKeys dest.keyId = some data)
    (htype : data.type = dest.type) : Retrievable W node dest := by
  obtain ⟨chain, hchain, heq⟩ :=
    h.records.inv.loadWallet_ok hagree node.kind node.disablePrivateKeys
  obtain ⟨hcustody, hlocked⟩ := (Custody.ofDb h.records.store h.records.pqValid node.kind
    node.disablePrivateKeys chain).unlock
  refine ⟨_, data, heq, ?_, htype⟩
  exact (hcustody.getPQKey hlocked dest.keyId).trans hdata

/-- The destinations a wallet returns in a run are all different. After loading and unlocking again
the key of each is found, if the chains are bound by the events of the run, and otherwise of none.
-/
theorem newDestinations_kept (kind : SpkManKind) (disablePrivateKeys : Bool)
    (events : List WalletEvent)
    (hinj : DerivationInjectiveOn W {key | ∃ event ∈ events, key ∈ event.keys}) :
    let start := new W kind disablePrivateKeys
    let run := start.runEvents W events
    run.2.Nodup ∧ ∀ dest ∈ run.2, Retrievable W run.1 dest ↔ start.chainsBound W true events := by
  intro start run
  have hstart : NodeKept W {key | ∃ event ∈ events, key ∈ event.keys} _
      (new W kind disablePrivateKeys) := (recordsKept_new W _).reload _
  obtain ⟨V, -, hnode, hnodup, hnew⟩ := hstart.runEvents hinj events
    fun event hevent key hkey => ⟨event, hevent, hkey⟩
  have hinv : NodeInv W start := (dbInv_new W).reload _
  have hbound : ChainsAgree start.db ↔ true = true :=
    iff_of_true (((dbInv_new W).reload_agree _).mpr (.inl rfl)) rfl
  have hagree := hinv.runEvents_agree hbound events
  refine ⟨hnodup, fun dest hdest => .trans ⟨?_, fun hagree => ?_⟩ hagree⟩
  · rintro ⟨s, data, hload, -⟩
    by_contra hbad
    rw [hnode.records.inv.loadWallet_error hbad] at hload
    cases hload
  · obtain ⟨-, data, hdata, htype⟩ := hnew dest hdest
    exact hnode.retrievable hagree hdata htype

end Runs

def sampleTxn : TxnSteps := ⟨true, true, true, true, true⟩

theorem sample_derivePQKey (b : UInt8) (type : PqType) (n : ℕ) :
    ∃ rest, derivePQKey sampleCrypto (sampleKey b) type n =
      some ⟨type, le 4 n ++ UInt8.ofNat type.version :: b :: rest,
        List.replicate type.seckeyBytes 0⟩ := by
  have hmaterial : derivePQSeedMaterial sampleCrypto (sampleKey b) type n =
      (le 4 n ++ [UInt8.ofNat type.version, b]) ++ List.replicate 31 b := by
    have hreverse : (ascii "Vexta-PQ-HD-v1" ++ UInt8.ofNat type.version ::
        (le 4 n).reverse).reverse =
        (le 4 n ++ [UInt8.ofNat type.version]) ++ (ascii "Vexta-PQ-HD-v1").reverse := by
      simp
    change (ascii "Vexta-PQ-HD-v1" ++ _).reverse.take 5 ++ b :: List.replicate 31 b = _
    rw [hreverse, take_left' (by simp)]
    simp
  have hlong : (le 4 n ++ [UInt8.ofNat type.version, b]).length ≤ type.pubkeyBytes := by
    cases type <;> simp [PqType.pubkeyBytes, PqType.version, pqPubkeyBytes]
  refine ⟨(List.replicate 31 b ++ List.replicate type.pubkeyBytes 0).take (type.pubkeyBytes - 6), ?_⟩
  unfold derivePQKey
  rw [hmaterial]
  change some (PQKeyData.mk _ (List.take _ _) _) = _
  rw [append_assoc, take_append, take_of_length_le hlong]
  simp

theorem sample_injective {S : Set CKey} (hS : S ⊆ Set.range sampleKey) :
    DerivationInjectiveOn sampleCrypto S := by
  intro s s' type type' n n' data data' hs hs' hn hn' hdata hdata' hsha
  obtain ⟨b, rfl⟩ := hS hs
  obtain ⟨b', rfl⟩ := hS hs'
  obtain ⟨rest, heq⟩ := sample_derivePQKey b type n
  obtain ⟨rest', heq'⟩ := sample_derivePQKey b' type' n'
  rw [heq, Option.some.injEq] at hdata
  rw [heq', Option.some.injEq] at hdata'
  subst hdata hdata'
  have hmod := congrArg BitVec.toNat hsha
  change (BitVec.ofNat 256 (ofLe _)).toNat = (BitVec.ofNat 256 (ofLe _)).toNat at hmod
  simp only [BitVec.toNat_ofNat, ofLe_append, length_le, ofLe] at hmod
  have hmax : uint32Max = 4294967295 := rfl
  rw [ofLe_le (by omega), ofLe_le (by omega)] at hmod
  have hversion : ∀ t : PqType, (UInt8.ofNat t.version).toNat = t.version ∧ t.version < 256 := by
    intro t
    cases t <;> decide
  obtain ⟨hver, h₁⟩ := hversion type
  obtain ⟨hver', h₂⟩ := hversion type'
  have hb := b.toNat_lt
  have hb' := b'.toNat_lt
  rw [hver, hver'] at hmod
  have hparts : n = n' ∧ type.version = type'.version ∧ b.toNat = b'.toNat := by
    omega
  refine ⟨by rw [UInt8.toNat_inj.mp hparts.2.2], ?_, hparts.1⟩
  have hsame := hparts.2.1
  cases type <;> cases type' <;> simp [PqType.version] at hsame ⊢

def sampleRun : List WalletEvent :=
  [.run (.setHDSeed (sampleKey 1) 3), .run (.newDestination .slhdsa (sampleKey 2) 3 sampleTxn),
    .crash (.setHDSeed (sampleKey 3) 3) 1, .run (.newDestination .mldsa (sampleKey 4) 3 sampleTxn),
    .run (.setHDSeed (sampleKey 5) 2), .run (.setHDSeed (sampleKey 6) 3),
    .run (.newDestination .slhdsa (sampleKey 7) 3 sampleTxn)]

/-- Three destinations of a wallet that stops in one seed rotation, before its chain writes, and
repeats another that failed between them. -/
theorem newDestinations_kept_sample :
    let run := (new sampleCrypto .legacy false).runEvents sampleCrypto sampleRun
    run.2.length = 3 ∧ run.2.Nodup ∧ ∀ dest ∈ run.2, Retrievable sampleCrypto run.1 dest := by
  intro run
  have hinj : DerivationInjectiveOn sampleCrypto {key | ∃ event ∈ sampleRun, key ∈ event.keys} := by
    apply sample_injective
    rintro key ⟨event, hevent, hkey⟩
    simp only [sampleRun, mem_cons, not_mem_nil, or_false] at hevent
    rcases hevent with rfl | rfl | rfl | rfl | rfl | rfl | rfl
    all_goals exact ⟨_, (mem_singleton.mp hkey).symm⟩
  obtain ⟨hnodup, hkept⟩ := newDestinations_kept .legacy false sampleRun hinj
  have hbound : (new sampleCrypto .legacy false).chainsBound sampleCrypto true sampleRun = true := by
    decide +kernel
  exact ⟨by decide +kernel, hnodup, fun dest hdest => (hkept dest hdest).mpr hbound⟩

/-- A wallet that stops in a seed rotation and cannot be loaded again. -/
theorem newDestinations_lost :
    let run := (new sampleCrypto .legacy false).runEvents sampleCrypto
      [.run (.setHDSeed (sampleKey 1) 3), .run (.newDestination .slhdsa (sampleKey 2) 3 sampleTxn),
        .crash (.setHDSeed (sampleKey 3) 3) 2]
    ∃ dest ∈ run.2, ¬ Retrievable sampleCrypto run.1 dest := by
  intro run
  have hissued : run.2.isEmpty = false := by decide +kernel
  have herror : (loadWallet sampleCrypto run.1.kind run.1.disablePrivateKeys run.1.db).toBool =
      false := by
    decide +kernel
  obtain ⟨dest, hdest⟩ := exists_mem_of_ne_nil run.2 (by simpa using hissued)
  refine ⟨dest, hdest, ?_⟩
  rintro ⟨s, data, hload, -⟩
  rw [hload] at herror
  cases herror

/-- A failed call leaves the wallet as it was, unless it reached `AddPQKey` for a key already held,
which is then taken out of the maps. -/
theorem getNewDestination_frame_iff {W : WalletCrypto} {w w' : CWallet} {db db' : WalletDb}
    {type : PqType} {txn : TxnSteps} {e : String}
    (h : getNewDestination W w db type txn = (w', db', .error e)) :
    (w'.store = w.store ∧ w'.mapPQKeyMetadata = w.mapPQKeyMetadata ∧ w'.pqHDChain = w.pqHDChain ∧ db' = db) ↔
    ∀ seed data, w.disablePrivateKeys = false → DerivesKey W w type seed data →
      txn.txnBegin = true → w.store.havePQKey (W.sha256 data.pubkey) = false := by
  constructor
  · rintro ⟨hstore, -⟩ seed data henabled hkey hbegin
    rw [hkey.getNewDestination_eq db henabled] at h
    rcases storeNewKey_cases W w db seed data (w.pqHDChain.counter type) txn with
      ⟨hno, -⟩ | ⟨-, e', heq⟩ | ⟨records, -, -, heq⟩
    · cases hno.symm.trans hbegin
    · cases h.symm.trans heq
      exact KeyStore.erasePQKey_eq_iff.mp hstore
    · cases h.symm.trans heq
  · intro hfresh
    by_cases hdisabled : w.disablePrivateKeys = true
    · obtain ⟨e', heq⟩ := getNewDestination_locked db type txn (.inr hdisabled)
      cases h.symm.trans heq
      exact ⟨rfl, rfl, rfl, rfl⟩
    rcases getNewDestination_cases W w db type txn with ⟨e', heq⟩ | ⟨seed, data, hkey, heq⟩
    · cases h.symm.trans heq
      exact ⟨rfl, rfl, rfl, rfl⟩
    rw [heq] at h
    rcases storeNewKey_cases W w db seed data (w.pqHDChain.counter type) txn with
      ⟨-, e', heq⟩ | ⟨hbegin, e', heq⟩ | ⟨records, -, -, heq⟩
    · cases h.symm.trans heq
      exact ⟨rfl, rfl, rfl, rfl⟩
    · cases h.symm.trans heq
      have hnew := hfresh seed data (by simpa using hdisabled) hkey hbegin
      exact ⟨KeyStore.erasePQKey_eq_iff.mpr hnew, rfl, rfl, rfl⟩
    · cases h.symm.trans heq

/-- The post-quantum keys with their metadata, in the wallet and in the database. -/
def pqRecords (s : CWallet × WalletDb) :=
  (s.1.store.pqKeys, s.1.store.cryptedPQKeys, s.1.mapPQKeyMetadata, s.2.store.pqKeys,
    s.2.store.cryptedPQKeys, s.2.pqKeyMetadata)

theorem pqRecords_seedWrites (W : WalletCrypto) (seed : CKey) (written : ℕ)
    (s : CWallet × WalletDb) : pqRecords (runSteps (seedWrites W seed written) s) = pqRecords s := by
  have hkey : ∀ s, pqRecords (addSeedKey W seed s) = pqRecords s ∧
      pqRecords ((addSeedKey W seed s).1, s.2) = pqRecords s := by
    intro s
    unfold addSeedKey
    dsimp only
    split <;> exact ⟨rfl, rfl⟩
  refine runSteps_induction (P := fun t => pqRecords t = pqRecords s) (fun step hstep t ht => ?_) rfl
  rw [← ht]
  unfold seedWrites at hstep
  split_ifs at hstep
  · cases mem_singleton.mp hstep
    exact (hkey t).2
  · have hmem := mem_of_mem_take hstep
    simp only [setHDSeed, mem_cons, not_mem_nil, or_false] at hmem
    rcases hmem with rfl | rfl | rfl
    · exact (hkey t).1
    · rfl
    · rfl

/-- A failed call that sets the seed of a wallet without keys first adds no key. -/
theorem getNewPQDestination_frame {W : WalletCrypto} {w w' : CWallet} {db db' : WalletDb}
    {type : PqType} {seed : CKey} {written : ℕ} {txn : TxnSteps} {e : String}
    (h : getNewPQDestination W w db type seed written txn = (w', db', .error e))
    (hlazy : w.seedsLazily = true) (hnone : ∀ keyId, w.store.havePQKey keyId = false) :
    pqRecords (w', db') = pqRecords (w, db) := by
  obtain ⟨⟨⟨hkind, hseedless⟩, hlocked⟩, henabled⟩ : ((w.kind = .descriptorPQ ∧
      w.isHDEnabled = false) ∧ w.isLocked = false) ∧ w.disablePrivateKeys = false := by
    simpa [CWallet.seedsLazily] using hlazy
  have hsame := pqRecords_seedWrites W seed written (w, db)
  simp only [getNewPQDestination, hkind, hseedless, hlocked, henabled, Bool.false_eq_true,
    not_false_eq_true, and_self, if_true, if_false] at h
  generalize runSteps (seedWrites W seed written) (w, db) = s at h hsame
  split at h
  · cases h
    exact hsame
  rcases getNewDestination_cases W s.1 s.2 type txn with ⟨e', heq⟩ | ⟨seed', data, -, heq⟩
  · cases h.symm.trans heq
    exact hsame
  rw [heq] at h
  rcases storeNewKey_cases W s.1 s.2 seed' data (s.1.pqHDChain.counter type) txn with
    ⟨-, e', heq⟩ | ⟨-, e', heq⟩ | ⟨records, -, -, heq⟩
  · cases h.symm.trans heq
    exact hsame
  · cases h.symm.trans heq
    have hmaps : s.1.store.havePQKey (W.sha256 data.pubkey) = false := by
      rw [← hnone (W.sha256 data.pubkey)]
      simp only [pqRecords, Prod.mk.injEq] at hsame
      simp only [KeyStore.havePQKey, hsame]
    rw [KeyStore.erasePQKey_eq_iff.mpr hmaps]
    exact hsame
  · cases h.symm.trans heq

def restartedWallet (pqKeys : Assoc Uint256 PQKeyData) : CWallet :=
  let seed := sampleKey 1
  let id := sampleCrypto.keyID seed
  ⟨.legacy, false, ⟨AList.singleton id seed, ∅, pqKeys, ∅⟩, ∅, id, ⟨0, 0, id⟩, none, none⟩

theorem getNewDestination_frame_sample :
    let r := getNewDestination sampleCrypto (restartedWallet ∅) .new .slhdsa
      { sampleTxn with txnCommit := false }
    r.2.2 = .error "Error: Failed to commit post-quantum key data" ∧
      r.1.store = (restartedWallet ∅).store := by
  intro r
  have herror : r.2.2 = .error "Error: Failed to commit post-quantum key data" := by
    decide +kernel
  have hr : r = (r.1, r.2.1, r.2.2) := rfl
  rw [herror] at hr
  exact ⟨herror, ((getNewDestination_frame_iff hr).mpr fun _ _ _ _ _ => rfl).1⟩

/-- The wallet holds the key it derives, and a failing write takes it out. -/
theorem getNewDestination_forgets :
    let data := (derivePQKey sampleCrypto (sampleKey 1) .slhdsa 0).get rfl
    let keyId := sampleCrypto.sha256 data.pubkey
    let w := restartedWallet (AList.singleton keyId data)
    let r := getNewDestination sampleCrypto w .new .slhdsa { sampleTxn with writeKey := false }
    r.2.2 = .error "Error: Failed to store post-quantum key" ∧
      w.store.havePQKey keyId = true ∧ r.1.store.havePQKey keyId = false := by
  decide +kernel

end Vexta
