import Vexta.Wallet.Ops

/-! What a wallet's database satisfies, and from that, when loading the wallet fails. -/
namespace Vexta
open Lib

/-- Records that pass `LoadWallet`: ids and sizes of keys are right. -/
structure Loadable (W : WalletCrypto) (s : KeyStore) : Prop where
  keys : ∀ {id key}, s.keys.lookup id = some key → W.keyID key = id
  pqKeys : ∀ {keyId data}, s.pqKeys.lookup keyId = some data → data.Valid W keyId
  cryptedPQKeys : ∀ {keyId data}, s.cryptedPQKeys.lookup keyId = some data →
    data.ValidCrypted W keyId

structure StoreValid (W : WalletCrypto) (s : KeyStore) : Prop extends Loadable W s where
  cryptedKeys : ∀ {id entry}, s.cryptedKeys.lookup id = some entry → W.hash160 entry.1 = id

structure DbInv (W : WalletCrypto) (db : WalletDb) : Prop where
  store : StoreValid W db.store
  plain : db.masterKey = none → db.store.Plain
  written : ∀ {keyId item}, db.pqKeyMetadata.lookup keyId = some item →
    ∃ type n, n < uint32Max ∧ item.hdKeypath = PqType.keypath type n
  known : ∀ {keyId item}, db.pqKeyMetadata.lookup keyId = some item →
    db.store.haveKey item.hdSeedId = true
  active : ∀ {keyId item}, db.pqKeyMetadata.lookup keyId = some item →
    item.hdSeedId = db.seedId → db.pqChain.seedId = db.seedId
  seedKnown : db.seedId ≠ 0 → db.store.haveKey db.seedId = true
  pqSeedKnown : db.pqChain.seedId ≠ 0 → db.store.haveKey db.pqChain.seedId = true
  counters : ∀ t, db.pqChain.counter t ≤ uint32Max

structure MemInv (W : WalletCrypto) (w : CWallet) (db : WalletDb) : Prop where
  store : StoreValid W w.store
  plain : w.masterKey = none → w.store.Plain
  masterKey : w.masterKey = db.masterKey
  haveKey : ∀ {id}, db.store.haveKey id = true → w.store.haveKey id = true
  hdChain : w.hdChain = db.seedId
  pqHDChain : w.pqHDChain = db.pqChain

structure WalletInv (W : WalletCrypto) (s : CWallet × WalletDb) : Prop where
  db : DbInv W s.2
  mem : MemInv W s.1 s.2

/-- The two seeds of the wallet do not contradict each other. -/
def ChainsAgree (db : WalletDb) : Prop :=
  db.seedId = 0 ∨ db.pqChain.seedId = 0 ∨ db.pqChain.seedId = db.seedId

section Load
variable {W : WalletCrypto} {db : WalletDb}

theorem all_entries_iff {α β : Type} [DecidableEq α] {m : Assoc α β} {P : α → β → Prop}
    [∀ k v, Decidable (P k v)] :
    (m.entries.all fun e => decide (P e.1 e.2)) = true ↔ ∀ k v, m.lookup k = some v → P k v := by
  simp only [List.all_eq_true, decide_eq_true_eq]
  exact Assoc.forall_entries_iff

def CWallet.ofDb (kind : SpkManKind) (disablePrivateKeys : Bool) (db : WalletDb)
    (chain : PQHDChain) : CWallet where
  kind
  disablePrivateKeys
  store := db.store
  mapPQKeyMetadata := db.pqKeyMetadata
  hdChain := db.seedId
  pqHDChain := chain
  masterKey := db.masterKey
  vMasterKey := none

def WalletDb.withChain (db : WalletDb) (chain : PQHDChain) : WalletDb :=
  if chain = db.pqChain then db else { db with pqHDChain := some chain }

@[simp] theorem WalletDb.withChain_store (chain : PQHDChain) :
    (db.withChain chain).store = db.store := by
  unfold withChain; split_ifs <;> rfl

@[simp] theorem WalletDb.withChain_metadata (chain : PQHDChain) :
    (db.withChain chain).pqKeyMetadata = db.pqKeyMetadata := by
  unfold withChain; split_ifs <;> rfl

@[simp] theorem WalletDb.withChain_masterKey (chain : PQHDChain) :
    (db.withChain chain).masterKey = db.masterKey := by
  unfold withChain; split_ifs <;> rfl

@[simp] theorem WalletDb.withChain_seedId (chain : PQHDChain) :
    (db.withChain chain).seedId = db.seedId := by
  unfold withChain; split_ifs <;> rfl

@[simp] theorem WalletDb.withChain_pqChain (chain : PQHDChain) :
    (db.withChain chain).pqChain = chain := by
  unfold withChain
  split_ifs with h
  · exact h.symm
  · rfl

def WalletDb.metas (db : WalletDb) : List CKeyMetadata := db.pqKeyMetadata.entries.map Sigma.snd

theorem WalletDb.mem_metas {item : CKeyMetadata} :
    item ∈ db.metas ↔ ∃ keyId, db.pqKeyMetadata.lookup keyId = some item := by
  simp only [metas, List.mem_map, Sigma.exists, exists_eq_right, Assoc.lookup_eq_some_iff]

theorem loadWallet_eq (h : Loadable W db.store) (kind : SpkManKind) (disablePrivateKeys : Bool) :
    loadWallet W kind disablePrivateKeys db =
      (reconciledPQHDChain db.seedId db.pqChain db.metas).map fun chain =>
        (CWallet.ofDb kind disablePrivateKeys db chain, db.withChain chain) := by
  have hkeys := all_entries_iff.mpr fun id key (hkey : db.store.keys.lookup id = some key) =>
    h.keys hkey
  have hpq := all_entries_iff.mpr fun id data (hdata : db.store.pqKeys.lookup id = some data) =>
    h.pqKeys hdata
  have hcrypted := all_entries_iff.mpr fun id data
    (hdata : db.store.cryptedPQKeys.lookup id = some data) => h.cryptedPQKeys hdata
  unfold loadWallet
  rw [if_neg (not_not.mpr hkeys), if_neg (not_not.mpr hpq), if_neg (not_not.mpr hcrypted)]
  change reconcilePQHDChain (CWallet.ofDb kind disablePrivateKeys db db.pqChain) db = _
  unfold reconcilePQHDChain
  change (reconciledPQHDChain db.seedId db.pqChain db.metas >>= _) = _
  cases reconciledPQHDChain db.seedId db.pqChain db.metas with
  | error e => rfl
  | ok chain =>
    change (if chain = db.pqChain then
        Except.ok (CWallet.ofDb kind disablePrivateKeys db db.pqChain, db)
      else .ok (CWallet.ofDb kind disablePrivateKeys db chain, { db with pqHDChain := some chain })) =
      .ok (CWallet.ofDb kind disablePrivateKeys db chain, db.withChain chain)
    unfold WalletDb.withChain
    split_ifs with hchain
    · rw [hchain]
    · rfl

theorem loadWallet_eq_ok {kind : SpkManKind} {disablePrivateKeys : Bool} {w : CWallet}
    {db' : WalletDb} (h : loadWallet W kind disablePrivateKeys db = .ok (w, db')) :
    Loadable W db.store ∧ ∃ chain,
      reconciledPQHDChain db.seedId db.pqChain db.metas = .ok chain ∧
        w = CWallet.ofDb kind disablePrivateKeys db chain ∧ db' = db.withChain chain := by
  have hvalid : Loadable W db.store := by
    unfold loadWallet at h
    split_ifs at h with hkeys hpq hcrypted
    constructor
    · intro id key hlookup
      exact (all_entries_iff (P := fun id key => W.keyID key = id)).mp hkeys id key hlookup
    · intro keyId data hlookup
      exact all_entries_iff.mp hpq keyId data hlookup
    · intro keyId data hlookup
      exact all_entries_iff.mp hcrypted keyId data hlookup
  refine ⟨hvalid, ?_⟩
  rw [loadWallet_eq hvalid] at h
  obtain ⟨chain, hchain, heq⟩ := map_eq_ok.mp h
  obtain ⟨rfl, rfl⟩ := Prod.mk.inj heq
  exact ⟨chain, hchain, rfl, rfl⟩

structure Reconciled (db : WalletDb) (chain : PQHDChain) : Prop where
  null : db.seedId = 0 → chain = db.pqChain
  bound : db.seedId ≠ 0 → chain.seedId = db.seedId
  passed : ∀ {keyId type n}, db.pqKeyMetadata.lookup keyId = some ⟨db.seedId, type.keypath n⟩ →
    n < uint32Max → db.seedId ≠ 0 → n < chain.counter type
  counters : ∀ t, chain.counter t ≤ uint32Max

theorem DbInv.scan (h : DbInv W db) :
    ∃ scan, scanPQMetadata db.seedId db.metas = .ok scan ∧ (∀ t, scan.next t ≤ uint32Max) ∧
      (∀ type n, ⟨db.seedId, PqType.keypath type n⟩ ∈ db.metas → n < uint32Max →
        n < scan.next type) ∧
      (scan.havePQMetadata = true → db.pqChain.seedId = db.seedId) := by
  have hwritten : ∀ item ∈ db.metas, WrittenFor db.seedId item := by
    intro item hitem _
    obtain ⟨keyId, hlookup⟩ := WalletDb.mem_metas.mp hitem
    exact h.written hlookup
  have hzero : ∀ t, (⟨0, 0, false⟩ : PQScan).next t ≤ uint32Max := by
    intro t
    cases t <;> exact Nat.zero_le _
  obtain ⟨scan, hrun, hmax, hhave⟩ := foldlM_scanStep hwritten ⟨0, 0, false⟩ hzero
  refine ⟨scan, hrun, hmax, fun type n hmem hn =>
    (foldlM_scanStep_eq_ok hrun).2 _ hmem rfl type n (records_keypath _ type hn.le), ?_⟩
  intro hmeta
  rcases hhave.mp hmeta with hfalse | ⟨item, hitem, hseed⟩
  · cases hfalse
  · obtain ⟨keyId, hlookup⟩ := WalletDb.mem_metas.mp hitem
    exact h.active hlookup hseed

theorem PQScan.counter_next (scan : PQScan) (id : CKeyID) (t : PqType) :
    (⟨scan.nextMldsa, scan.nextSlhdsa, id⟩ : PQHDChain).counter t = scan.next t := by
  cases t <;> rfl

theorem PQScan.counter_max (scan : PQScan) (chain : PQHDChain) (id : CKeyID) (t : PqType) :
    (⟨max chain.nMLDSAExternalCounter scan.nextMldsa,
      max chain.nSLHDSAExternalCounter scan.nextSlhdsa, id⟩ : PQHDChain).counter t =
      max (chain.counter t) (scan.next t) := by
  cases t <;> rfl

theorem DbInv.reconciled (h : DbInv W db) (hagree : ChainsAgree db) :
    ∃ chain, reconciledPQHDChain db.seedId db.pqChain db.metas = .ok chain ∧
      Reconciled db chain := by
  unfold reconciledPQHDChain
  by_cases hnull : db.seedId = 0
  · refine ⟨db.pqChain, by rw [if_pos hnull], fun _ => rfl, fun hne => absurd hnull hne,
      fun _ _ hne => absurd hnull hne, h.counters⟩
  · obtain ⟨scan, hscan, hmax, hfound, -⟩ := h.scan
    rw [if_neg hnull, hscan, ok_bind]
    rcases hagree.resolve_left hnull with hzero | hbound
    · rw [if_pos hzero]
      refine ⟨_, rfl, fun h0 => absurd h0 hnull, fun _ => rfl, ?_, ?_⟩
      · intro keyId type n hlookup hn _
        rw [PQScan.counter_next]
        exact hfound type n (WalletDb.mem_metas.mpr ⟨keyId, hlookup⟩) hn
      · intro t
        rw [PQScan.counter_next]
        exact hmax t
    · have hzero : db.pqChain.seedId ≠ 0 := hbound ▸ hnull
      rw [if_neg hzero, if_neg (not_not.mpr hbound)]
      refine ⟨_, rfl, fun h0 => absurd h0 hnull, fun _ => hbound, ?_, ?_⟩
      · intro keyId type n hlookup hn _
        rw [PQScan.counter_max]
        exact lt_of_lt_of_le (hfound type n (WalletDb.mem_metas.mpr ⟨keyId, hlookup⟩) hn)
          (le_max_right _ _)
      · intro t
        rw [PQScan.counter_max]
        exact max_le (h.counters t) (hmax t)

theorem DbInv.not_reconciled (h : DbInv W db) (hagree : ¬ ChainsAgree db) :
    reconciledPQHDChain db.seedId db.pqChain db.metas =
      .error "Post-quantum HD chain seed does not match the active wallet seed" := by
  unfold ChainsAgree at hagree
  simp only [not_or] at hagree
  obtain ⟨hnull, hzero, hbound⟩ := hagree
  obtain ⟨scan, hscan, -, -, hhave⟩ := h.scan
  have hnone : ¬ scan.havePQMetadata = true := fun hmeta => hbound (hhave hmeta)
  unfold reconciledPQHDChain
  rw [if_neg hnull, hscan, ok_bind, if_neg hzero, if_pos hbound, if_pos hnone]

theorem DbInv.loadWallet_ok (h : DbInv W db) (hagree : ChainsAgree db) (kind : SpkManKind)
    (disablePrivateKeys : Bool) :
    ∃ chain, Reconciled db chain ∧ loadWallet W kind disablePrivateKeys db =
      .ok (CWallet.ofDb kind disablePrivateKeys db chain, db.withChain chain) := by
  obtain ⟨chain, heq, hchain⟩ := h.reconciled hagree
  refine ⟨chain, hchain, ?_⟩
  rw [loadWallet_eq h.store.toLoadable, heq]
  rfl

theorem DbInv.loadWallet_error (h : DbInv W db) (hagree : ¬ ChainsAgree db) (kind : SpkManKind)
    (disablePrivateKeys : Bool) :
    loadWallet W kind disablePrivateKeys db =
      .error "Post-quantum HD chain seed does not match the active wallet seed" := by
  rw [loadWallet_eq h.store.toLoadable, h.not_reconciled hagree]
  rfl

theorem DbInv.withChain (h : DbInv W db) {chain : PQHDChain} (hchain : Reconciled db chain) :
    DbInv W (db.withChain chain) := by
  constructor
  · simpa using h.store
  · simpa using h.plain
  · intro keyId item hlookup
    exact h.written (by simpa using hlookup)
  · intro keyId item hlookup
    simpa using h.known (by simpa using hlookup)
  · intro keyId item hlookup hseed
    simp only [WalletDb.withChain_metadata, WalletDb.withChain_seedId,
      WalletDb.withChain_pqChain] at hlookup hseed ⊢
    by_cases hnull : db.seedId = 0
    · rw [hchain.null hnull]
      exact h.active hlookup hseed
    · exact hchain.bound hnull
  · simpa using h.seedKnown
  · simp only [WalletDb.withChain_pqChain, WalletDb.withChain_store]
    intro hne
    by_cases hnull : db.seedId = 0
    · rw [hchain.null hnull] at hne ⊢
      exact h.pqSeedKnown hne
    · rw [hchain.bound hnull]
      exact h.seedKnown hnull
  · simpa using hchain.counters

theorem DbInv.ofDb (h : DbInv W db) (kind : SpkManKind) (disablePrivateKeys : Bool)
    (chain : PQHDChain) :
    MemInv W (CWallet.ofDb kind disablePrivateKeys db chain) (db.withChain chain) where
  store := h.store
  plain := h.plain
  masterKey := by simp [CWallet.ofDb]
  haveKey := by simp [CWallet.ofDb]
  hdChain := by simp [CWallet.ofDb]
  pqHDChain := by simp [CWallet.ofDb]

end Load

section Seed
variable {W : WalletCrypto} {w : CWallet} {db : WalletDb} {seed : CKey} {s : KeyStore}

theorem StoreValid.addKey (h : StoreValid W s) (key : CKey) :
    StoreValid W { s with keys := s.keys.insert (W.keyID key) key } where
  keys hlookup := by
    rcases Assoc.lookup_insert_cases hlookup with ⟨rfl, rfl⟩ | hold
    · rfl
    · exact h.keys hold
  cryptedKeys := h.cryptedKeys
  pqKeys := h.pqKeys
  cryptedPQKeys := h.cryptedPQKeys

theorem StoreValid.addCryptedKey (h : StoreValid W s) (m : MasterKey) (key : CKey) :
    StoreValid W { s with
      cryptedKeys := s.cryptedKeys.insert (W.keyID key) (W.cryptKey m key) } where
  keys := h.keys
  cryptedKeys hlookup := by
    rcases Assoc.lookup_insert_cases hlookup with ⟨rfl, rfl⟩ | hold
    · rfl
    · exact h.cryptedKeys hold
  pqKeys := h.pqKeys
  cryptedPQKeys := h.cryptedPQKeys

theorem StoreValid.writeCryptedKey (h : StoreValid W s) (m : MasterKey) (key : CKey) :
    StoreValid W (s.writeCryptedKey (W.keyID key) (W.cryptKey m key)) where
  keys hlookup := h.keys (Assoc.lookup_of_erase hlookup)
  cryptedKeys {id entry} hlookup := by
    simp only [KeyStore.writeCryptedKey] at hlookup
    split_ifs at hlookup
    · exact h.cryptedKeys hlookup
    · exact (h.addCryptedKey m key).cryptedKeys hlookup
  pqKeys := h.pqKeys
  cryptedPQKeys := h.cryptedPQKeys

theorem haveKey_insert (id id' : CKeyID) (key : CKey) :
    ({ s with keys := s.keys.insert id key } : KeyStore).haveKey id' =
      (id' == id || s.haveKey id') := by
  by_cases hid : id' = id <;> simp [KeyStore.haveKey, Assoc.lookup_insert_ite, hid]

theorem haveKey_insert_crypted (id id' : CKeyID) (entry : Bytes × Bytes) :
    ({ s with cryptedKeys := s.cryptedKeys.insert id entry } : KeyStore).haveKey id' =
      (id' == id || s.haveKey id') := by
  by_cases hid : id' = id <;> simp [KeyStore.haveKey, Assoc.lookup_insert_ite, hid]

theorem haveKey_writeCryptedKey (id id' : CKeyID) (entry : Bytes × Bytes) :
    (s.writeCryptedKey id entry).haveKey id' = (id' == id || s.haveKey id') := by
  unfold KeyStore.haveKey KeyStore.writeCryptedKey
  by_cases hid : id' = id
  · subst hid
    split_ifs with hsome <;> simp [hsome]
  · split_ifs <;> simp [hid]

theorem DbInv.ofStore (h : DbInv W db) {db' : WalletDb} (hstore : StoreValid W db'.store)
    (hplain : db'.masterKey = none → db'.store.Plain)
    (hhave : ∀ {id}, db.store.haveKey id = true → db'.store.haveKey id = true)
    (hmeta : db'.pqKeyMetadata = db.pqKeyMetadata) (hseed : db'.seedId = db.seedId)
    (hchain : db'.pqChain = db.pqChain) : DbInv W db' := by
  constructor
  · exact hstore
  · exact hplain
  · rw [hmeta]
    exact h.written
  · rw [hmeta]
    intro keyId item hlookup
    exact hhave (h.known hlookup)
  · rw [hmeta, hseed, hchain]
    exact h.active
  · rw [hseed]
    exact fun hne => hhave (h.seedKnown hne)
  · rw [hchain]
    exact fun hne => hhave (h.pqSeedKnown hne)
  · rw [hchain]
    exact h.counters

theorem addSeedKey_plain (hm : w.masterKey = none) :
    addSeedKey W seed (w, db) =
      ({ w with store := { w.store with keys := w.store.keys.insert (W.keyID seed) seed } },
        { db with store := { db.store with
            keys := db.store.keys.insert (W.keyID seed) seed } }) := by
  simp [addSeedKey, hm]

theorem addSeedKey_crypted {m m' : MasterKey} (hm : w.masterKey = some m')
    (hv : w.vMasterKey = some m) :
    addSeedKey W seed (w, db) =
      ({ w with store := { w.store with
          cryptedKeys := w.store.cryptedKeys.insert (W.keyID seed) (W.cryptKey m seed) } },
        { db with store := db.store.writeCryptedKey (W.keyID seed) (W.cryptKey m seed) }) := by
  simp [addSeedKey, hm, hv]

structure KeyAdded (W : WalletCrypto) (id : CKeyID) (s s' : CWallet × WalletDb) : Prop where
  inv : WalletInv W s'
  haveKey : ∀ id', s'.2.store.haveKey id' = (id' == id || s.2.store.haveKey id')
  metadata : s'.2.pqKeyMetadata = s.2.pqKeyMetadata
  seedId : s'.2.seedId = s.2.seedId
  pqChain : s'.2.pqChain = s.2.pqChain
  masterKey : s'.2.masterKey = s.2.masterKey

theorem addSeedKey_added (seed : CKey) (h : WalletInv W (w, db)) (hlocked : w.isLocked = false) :
    KeyAdded W (W.keyID seed) (w, db) (addSeedKey W seed (w, db)) := by
  have hmaster : w.masterKey = db.masterKey := h.mem.masterKey
  cases hm : w.masterKey with
  | none =>
    have hplain : db.store.Plain := h.db.plain (hmaster.symm.trans hm)
    have hmem : w.store.Plain := h.mem.plain hm
    rw [addSeedKey_plain hm]
    refine ⟨⟨h.db.ofStore (h.db.store.addKey seed) (fun _ => ⟨hplain.1, hplain.2⟩) ?_ rfl rfl rfl,
      ?_⟩, fun id' => haveKey_insert _ id' seed, rfl, rfl, rfl, rfl⟩
    · intro id hid
      rw [haveKey_insert, hid, Bool.or_true]
    · refine ⟨h.mem.store.addKey seed, fun _ => ⟨hmem.1, hmem.2⟩, hmaster, ?_, h.mem.hdChain,
        h.mem.pqHDChain⟩
      intro id hid
      rw [haveKey_insert] at hid ⊢
      rw [Bool.or_eq_true] at hid ⊢
      exact hid.imp_right h.mem.haveKey
  | some m' =>
    obtain ⟨m, hv⟩ : ∃ m, w.vMasterKey = some m := by
      rw [← Option.isSome_iff_exists, ← Option.not_isNone, Bool.not_eq_true']
      simpa [CWallet.isLocked, CWallet.hasEncryptionKeys, hm] using hlocked
    rw [addSeedKey_crypted hm hv]
    have hnone : ¬ db.masterKey = none := by
      rw [← hmaster, hm]
      exact Option.some_ne_none _
    refine ⟨⟨h.db.ofStore (h.db.store.writeCryptedKey m seed) (fun hn => absurd hn hnone) ?_ rfl
      rfl rfl, ?_⟩, fun id' => haveKey_writeCryptedKey _ id' _, rfl, rfl, rfl, rfl⟩
    · intro id hid
      rw [haveKey_writeCryptedKey, hid, Bool.or_true]
    · refine ⟨h.mem.store.addCryptedKey m seed, ?_, hmaster, ?_, h.mem.hdChain, h.mem.pqHDChain⟩
      · intro hn
        exact absurd (hmaster.symm.trans hn) hnone
      · intro id hid
        rw [haveKey_writeCryptedKey] at hid
        rw [haveKey_insert_crypted]
        rw [Bool.or_eq_true] at hid ⊢
        exact hid.imp_right h.mem.haveKey

def WalletDb.Unused (db : WalletDb) (id : CKeyID) : Prop :=
  ∀ {keyId item}, db.pqKeyMetadata.lookup keyId = some item → item.hdSeedId ≠ id

variable {id : CKeyID}

theorem DbInv.unused (h : DbInv W db) (hfresh : db.store.haveKey id = false) : db.Unused id := by
  rintro keyId item hlookup rfl
  have hknown := h.known hlookup
  rw [hfresh] at hknown
  cases hknown

theorem addHDChain_inv (h : WalletInv W (w, db)) (hheld : db.store.haveKey id = true)
    (hunused : db.Unused id) : WalletInv W (addHDChain id (w, db)) := by
  constructor
  · exact { h.db with
      active := fun hlookup hseed => absurd hseed (hunused hlookup)
      seedKnown := fun _ => hheld }
  · exact { h.mem with hdChain := rfl }

theorem addPQHDChain_inv (h : WalletInv W (w, db)) (hheld : db.store.haveKey id = true)
    (hseed : db.seedId = id) : WalletInv W (addPQHDChain id (w, db)) := by
  constructor
  · exact { h.db with
      active := fun _ _ => hseed.symm
      pqSeedKnown := fun _ => hheld
      counters := fun t => by cases t <;> exact Nat.zero_le _ }
  · exact { h.mem with pqHDChain := rfl }

theorem addSeedKey_unwritten_inv (seed : CKey) (h : WalletInv W (w, db)) (hlocked : w.isLocked = false) :
    WalletInv W ((addSeedKey W seed (w, db)).1, db) := by
  have hadded := addSeedKey_added seed h hlocked
  refine ⟨h.db, hadded.inv.mem.store, hadded.inv.mem.plain, ?_, ?_, ?_, ?_⟩
  · exact hadded.inv.mem.masterKey.trans hadded.masterKey
  · intro id hid
    apply hadded.inv.mem.haveKey
    rw [hadded.haveKey, hid, Bool.or_true]
  · exact hadded.inv.mem.hdChain.trans hadded.seedId
  · exact hadded.inv.mem.pqHDChain.trans hadded.pqChain

theorem seedWrites_all (seed : CKey) (n : ℕ) : seedWrites W seed (n + 3) = setHDSeed W seed := by
  simp [seedWrites, setHDSeed]

theorem WalletInv.unused (h : WalletInv W (w, db)) (hlocked : w.isLocked = false)
    (hfresh : w.store.haveKey (W.keyID seed) = false) :
    (addSeedKey W seed (w, db)).2.Unused (W.keyID seed) := by
  have hnew : db.store.haveKey (W.keyID seed) = false := by
    by_contra hne
    have hheld := h.mem.haveKey (Bool.not_eq_false _ ▸ hne)
    rw [hfresh] at hheld
    cases hheld
  intro keyId item hlookup
  rw [(addSeedKey_added seed h hlocked).metadata] at hlookup
  exact h.db.unused hnew hlookup

theorem seedWrites_inv (h : WalletInv W (w, db)) (hlocked : w.isLocked = false)
    (hfresh : w.store.haveKey (W.keyID seed) = false) (written : ℕ) :
    WalletInv W (runSteps (seedWrites W seed written) (w, db)) := by
  have hadded := addSeedKey_added seed h hlocked
  have hheld : (addSeedKey W seed (w, db)).2.store.haveKey (W.keyID seed) = true := by
    rw [hadded.haveKey]
    simp
  have hchain := addHDChain_inv hadded.inv hheld (h.unused hlocked hfresh)
  match written with
  | 0 => exact addSeedKey_unwritten_inv seed h hlocked
  | 1 => exact hadded.inv
  | 2 => exact hchain
  | n + 3 =>
    rw [seedWrites_all]
    exact addPQHDChain_inv hchain hheld rfl

theorem take_seedWrites (seed : CKey) (written : ℕ) {n : ℕ} (hn : n ≠ 0) :
    (seedWrites W seed written).take n = seedWrites W seed (min n written) := by
  unfold seedWrites
  by_cases hw : written = 0
  · obtain ⟨k, rfl⟩ := Nat.exists_eq_succ_of_ne_zero hn
    simp [hw]
  · rw [if_neg hw, if_neg (by omega), List.take_take]

theorem seedWrites_chains (h : WalletInv W (w, db)) (hlocked : w.isLocked = false)
    (seed : CKey) (written : ℕ) :
    (runSteps (seedWrites W seed written) (w, db)).2.seedId =
        (if written < 2 then db.seedId else W.keyID seed) ∧
      (runSteps (seedWrites W seed written) (w, db)).2.pqChain.seedId =
        if written < 3 then db.pqChain.seedId else W.keyID seed := by
  have hadded := addSeedKey_added seed h hlocked
  match written with
  | 0 => exact ⟨rfl, rfl⟩
  | 1 => exact ⟨hadded.seedId, congrArg PQHDChain.seedId hadded.pqChain⟩
  | 2 => exact ⟨rfl, congrArg PQHDChain.seedId hadded.pqChain⟩
  | n + 3 =>
    rw [seedWrites_all, if_neg (by omega), if_neg (by omega)]
    exact ⟨rfl, rfl⟩

end Seed

section NewKey
variable {W : WalletCrypto} {w : CWallet} {db : WalletDb} {s s' : KeyStore}

structure PQChanged (W : WalletCrypto) (crypted : Bool) (s s' : KeyStore) : Prop where
  valid : StoreValid W s'
  keys : s'.keys = s.keys
  cryptedKeys : s'.cryptedKeys = s.cryptedKeys
  plain : crypted = false → s.Plain → s'.Plain

variable {crypted : Bool} {keyId : Uint256} {data : PQKeyData}

theorem PQChanged.haveKey (h : PQChanged W crypted s s') (id : CKeyID) :
    s'.haveKey id = s.haveKey id := by
  unfold KeyStore.haveKey
  rw [h.keys, h.cryptedKeys]

theorem StoreValid.addPQKey (h : StoreValid W s) (hdata : data.Valid W keyId) :
    PQChanged W false s { s with pqKeys := s.pqKeys.insert keyId data } := by
  refine ⟨⟨⟨h.keys, ?_, h.cryptedPQKeys⟩, h.cryptedKeys⟩, rfl, rfl, fun _ hp => ⟨hp.1, hp.2⟩⟩
  intro keyId' data' hlookup
  rcases Assoc.lookup_insert_cases hlookup with ⟨rfl, rfl⟩ | hold
  · exact hdata
  · exact h.pqKeys hold

theorem StoreValid.addCryptedPQKey (h : StoreValid W s) (hdata : data.ValidCrypted W keyId) :
    PQChanged W true s { s with cryptedPQKeys := s.cryptedPQKeys.insert keyId data } := by
  refine ⟨⟨⟨h.keys, h.pqKeys, ?_⟩, h.cryptedKeys⟩, rfl, rfl, by simp⟩
  intro keyId' data' hlookup
  rcases Assoc.lookup_insert_cases hlookup with ⟨rfl, rfl⟩ | hold
  · exact hdata
  · exact h.cryptedPQKeys hold

theorem StoreValid.erasePQKey (h : StoreValid W s) (crypted : Bool) (keyId : Uint256) :
    PQChanged W crypted s (s.erasePQKey keyId) := by
  refine ⟨⟨⟨h.keys, fun hlookup => h.pqKeys (Assoc.lookup_of_erase hlookup),
    fun hlookup => h.cryptedPQKeys (Assoc.lookup_of_erase hlookup)⟩, h.cryptedKeys⟩, rfl, rfl,
    fun _ hp => ⟨hp.1, fun keyId' => ?_⟩⟩
  simp only [KeyStore.erasePQKey, Assoc.lookup_erase_ite, hp.2, ite_self]

theorem StoreValid.writePQKey (h : StoreValid W s) (hdata : data.Valid W keyId)
    (hwrite : s.writePQKey keyId data = some s') : PQChanged W false s s' := by
  unfold KeyStore.writePQKey at hwrite
  split_ifs at hwrite
  rw [← Option.some.inj hwrite]
  exact h.addPQKey hdata

theorem StoreValid.writeCryptedPQKey (h : StoreValid W s) (hdata : data.ValidCrypted W keyId)
    (hwrite : s.writeCryptedPQKey keyId data = some s') : PQChanged W true s s' := by
  unfold KeyStore.writeCryptedPQKey at hwrite
  split_ifs at hwrite
  rw [← Option.some.inj hwrite]
  have hadd := (h.addCryptedPQKey hdata).valid
  exact ⟨⟨⟨hadd.keys, fun hlookup => h.pqKeys (Assoc.lookup_of_erase hlookup),
    hadd.cryptedPQKeys⟩, hadd.cryptedKeys⟩, rfl, rfl, by simp⟩

theorem addPQKey_changed (hw : StoreValid W w.store) (hs : StoreValid W s) (data : PQKeyData)
    (writeKey : Bool) :
    PQChanged W w.hasEncryptionKeys w.store (addPQKey W w s data writeKey).1 ∧
      ∀ s', (addPQKey W w s data writeKey).2 = some s' →
        PQChanged W w.hasEncryptionKeys s s' := by
  have hrefl : PQChanged W w.hasEncryptionKeys w.store w.store :=
    ⟨hw, rfl, rfl, fun _ hp => hp⟩
  unfold addPQKey
  by_cases hsize : data.pubkey.length ≠ data.type.pubkeyBytes ∨
      data.secret.length ≠ data.type.seckeyBytes
  · simp only [if_pos hsize]
    exact ⟨hrefl, by simp⟩
  · have hdata : data.Valid W (W.sha256 data.pubkey) := by
      simp only [not_or, not_not] at hsize
      exact ⟨hsize.1, hsize.2, rfl⟩
    by_cases henc : w.hasEncryptionKeys = true
    · simp only [if_neg hsize, henc, not_true_eq_false, if_false]
      cases w.vMasterKey with
      | none => exact ⟨henc ▸ hrefl, by simp⟩
      | some m =>
        have hcrypted := hdata.crypted m
        refine ⟨hw.addCryptedPQKey hcrypted, fun s' hwrite => ?_⟩
        cases writeKey with
        | false => cases hwrite
        | true => exact hs.writeCryptedPQKey hcrypted hwrite
    · rw [Bool.not_eq_true] at henc
      simp only [if_neg hsize, henc, Bool.false_eq_true, not_false_eq_true, if_true]
      refine ⟨hw.addPQKey hdata, fun s' hwrite => ?_⟩
      cases writeKey with
      | false => cases hwrite
      | true => exact hs.writePQKey hdata hwrite

theorem hasEncryptionKeys_eq_false : w.hasEncryptionKeys = false ↔ w.masterKey = none := by
  unfold CWallet.hasEncryptionKeys
  rw [Option.isSome_eq_false_iff, Option.isNone_iff_eq_none]

theorem MemInv.ofChanged (h : MemInv W w db) {store : KeyStore}
    (hstore : PQChanged W w.hasEncryptionKeys w.store store) :
    MemInv W { w with store } db :=
  { h with
    store := hstore.valid
    plain := fun hm => hstore.plain (hasEncryptionKeys_eq_false.mpr hm) (h.plain hm)
    haveKey := fun hid => (hstore.haveKey _).trans (h.haveKey hid) }

theorem DbInv.newKey (h : DbInv W db) (hcrypted : db.masterKey = none → crypted = false)
    {records : KeyStore} (hrecords : PQChanged W crypted db.store records) {type : PqType}
    (hseed : db.seedId ≠ 0) (hbound : db.pqChain.seedId = db.seedId)
    (hcounter : db.pqChain.counter type ≠ uint32Max) (keyId : Uint256) :
    DbInv W { db with
      store := records
      pqKeyMetadata := db.pqKeyMetadata.insert keyId
        ⟨db.seedId, type.keypath (db.pqChain.counter type)⟩
      pqHDChain := some (db.pqChain.bump type) } := by
  have hhave : ∀ {id}, db.store.haveKey id = true → records.haveKey id = true :=
    fun hid => (hrecords.haveKey _).trans hid
  constructor
  · exact hrecords.valid
  · exact fun hm => hrecords.plain (hcrypted hm) (h.plain hm)
  · intro k item hitem
    rcases Assoc.lookup_insert_cases hitem with ⟨rfl, rfl⟩ | hold
    · exact ⟨type, _, lt_of_le_of_ne (h.counters type) hcounter, rfl⟩
    · exact h.written hold
  · intro k item hitem
    rcases Assoc.lookup_insert_cases hitem with ⟨rfl, rfl⟩ | hold
    · exact hhave (h.seedKnown hseed)
    · exact hhave (h.known hold)
  · exact fun _ _ => (PQHDChain.bump_seedId _ _).trans hbound
  · exact fun hne => hhave (h.seedKnown hne)
  · intro hne
    change records.haveKey (db.pqChain.bump type).seedId = true
    rw [PQHDChain.bump_seedId, hbound]
    exact hhave (h.seedKnown hseed)
  · intro t
    change (db.pqChain.bump type).counter t ≤ uint32Max
    rw [PQHDChain.counter_bump]
    split_ifs with ht
    · subst ht
      exact lt_of_le_of_ne (h.counters t) hcounter
    · exact h.counters t

theorem StoreValid.getKey (h : StoreValid W w.store) {id : CKeyID} {key : CKey}
    (hkey : w.getKey W id = some key) : W.keyID key = id := by
  unfold CWallet.getKey KeyStore.getKey at hkey
  split_ifs at hkey
  · split at hkey
    next entry m hentry _ =>
      unfold decryptKey at hkey
      split at hkey
      · cases hkey
      · split_ifs at hkey with hlen hpub
        rw [← Option.some.inj hkey, ← h.cryptedKeys hentry, ← hpub]
        rfl
    · cases hkey
  · exact h.keys hkey

structure SeedsKept (W : WalletCrypto) (db : WalletDb) (s : CWallet × WalletDb) : Prop where
  inv : WalletInv W s
  seedId : s.2.seedId = db.seedId
  pqSeedId : s.2.pqChain.seedId = db.pqChain.seedId

theorem storeNewKey_inv (h : WalletInv W (w, db)) {seed : CKey} (hid : W.keyID seed = w.hdChain)
    (hne : w.hdChain ≠ 0) (hbound : w.pqHDChain.seedId = w.hdChain)
    (hcounter : w.pqHDChain.counter data.type ≠ uint32Max) (txn : TxnSteps) :
    SeedsKept W db
      ((storeNewKey W w db seed data (w.pqHDChain.counter data.type) txn).1,
        (storeNewKey W w db seed data (w.pqHDChain.counter data.type) txn).2.1) := by
  obtain ⟨hmaps, hrecords⟩ := addPQKey_changed h.mem.store h.db.store data txn.writeKey
  rcases storeNewKey_cases W w db seed data (w.pqHDChain.counter data.type) txn with
    ⟨-, e, heq⟩ | ⟨-, e, heq⟩ | ⟨records, hwritten, -, heq⟩
  · rw [heq]
    exact ⟨h, rfl, rfl⟩
  · rw [heq]
    exact ⟨⟨h.db, h.mem.ofChanged (h.mem.store.erasePQKey _ _)⟩, rfl, rfl⟩
  · have hhd : w.hdChain = db.seedId := h.mem.hdChain
    have hpq : w.pqHDChain = db.pqChain := h.mem.pqHDChain
    have hmaster : w.masterKey = db.masterKey := h.mem.masterKey
    rw [hpq] at hbound hcounter
    rw [hhd] at hbound hne
    have hcrypted : db.masterKey = none → w.hasEncryptionKeys = false := fun hm =>
      hasEncryptionKeys_eq_false.mpr (hmaster.trans hm)
    have hdb := h.db.newKey hcrypted (hrecords records hwritten) hne hbound hcounter
      (W.sha256 data.pubkey)
    have hmem := h.mem.ofChanged hmaps
    rw [heq, hid, hpq, hhd]
    refine ⟨⟨hdb, hmem.store, hmem.plain, hmaster, ?_, rfl, rfl⟩, rfl, ?_⟩
    · intro id hheld
      change records.haveKey id = true at hheld
      rw [(hrecords records hwritten).haveKey] at hheld
      exact hmem.haveKey hheld
    · exact PQHDChain.bump_seedId _ _

theorem getNewDestination_inv (h : WalletInv W (w, db)) (type : PqType) (txn : TxnSteps) :
    SeedsKept W db ((getNewDestination W w db type txn).1,
      (getNewDestination W w db type txn).2.1) := by
  rcases getNewDestination_cases W w db type txn with ⟨e, heq⟩ | ⟨seed, data, hkey, heq⟩
  · rw [heq]
    exact ⟨h, rfl, rfl⟩
  · rw [heq]
    have htype := derivePQKey_type hkey.derived
    subst htype
    exact storeNewKey_inv h (h.mem.store.getKey hkey.found) hkey.enabled hkey.bound hkey.counter
      txn

end NewKey

section Encrypt
variable {W : WalletCrypto} {w : CWallet} {db : WalletDb}

theorem MemInv.setVMasterKey (h : MemInv W w db) (v : Option MasterKey) :
    MemInv W { w with vMasterKey := v } db := { h with }

theorem unlockWallet_inv (h : WalletInv W (w, db)) : WalletInv W (unlockWallet W (w, db)) := by
  obtain ⟨v, heq⟩ := unlockWallet_eq W w db
  rw [heq]
  exact ⟨h.db, h.mem.setVMasterKey v⟩

theorem lockWallet_inv (h : WalletInv W (w, db)) : SeedsKept W db (lockWallet (w, db)) := by
  obtain ⟨v, heq⟩ := lockWallet_eq w db
  rw [heq]
  exact ⟨⟨h.db, h.mem.setVMasterKey v⟩, rfl, rfl⟩

variable {s : KeyStore} {m : MasterKey}

theorem StoreValid.pqValid (h : StoreValid W s) : s.vault.PQValid W :=
  fun _ _ hlookup => h.pqKeys hlookup

theorem StoreValid.encrypted {s' : KeyStore} (h : StoreValid W s)
    (hs' : s'.Holds W (some m) s.vault) : StoreValid W s' where
  keys hlookup := by
    simp [hs'.keys] at hlookup
  cryptedKeys hlookup := by
    rw [hs'.cryptedKeys, Option.bind_some, Option.map_eq_some_iff] at hlookup
    obtain ⟨key, hkey, rfl⟩ := hlookup
    exact h.keys hkey
  pqKeys hlookup := by
    simp [hs'.pqKeys] at hlookup
  cryptedPQKeys hlookup := by
    rw [hs'.cryptedPQKeys, Option.bind_some, Option.map_eq_some_iff] at hlookup
    obtain ⟨data, hdata, rfl⟩ := hlookup
    exact (h.pqKeys hdata).crypted m

theorem StoreValid.encryptedFrom {records records' : KeyStore} (h : StoreValid W s)
    (hrecords : StoreValid W records) (hfrom : records.EncryptedFrom W m s.vault records') :
    StoreValid W records' where
  keys hlookup := by
    rw [hfrom.keys] at hlookup
    split_ifs at hlookup
    exact hrecords.keys hlookup
  cryptedKeys hlookup := by
    rw [hfrom.cryptedKeys, Option.map_eq_some_iff] at hlookup
    obtain ⟨key, hkey, rfl⟩ := hlookup
    exact h.keys hkey
  pqKeys hlookup := by
    rw [hfrom.pqKeys] at hlookup
    split_ifs at hlookup
    exact hrecords.pqKeys hlookup
  cryptedPQKeys hlookup := by
    rw [hfrom.cryptedPQKeys, Option.map_eq_some_iff] at hlookup
    obtain ⟨data, hdata, rfl⟩ := hlookup
    exact (h.pqKeys hdata).crypted m

theorem KeyStore.EncryptedFrom.haveKey {records records' : KeyStore} {V : Vault}
    (h : records.EncryptedFrom W m V records') (hplain : records.Plain) (id : CKeyID) :
    records'.haveKey id = ((V.keys id).isSome || records.haveKey id) := by
  unfold KeyStore.haveKey
  rw [h.keys, h.cryptedKeys, hplain.cryptedKeys]
  cases V.keys id <;> simp

structure Encrypted (W : WalletCrypto) (s s' : CWallet × WalletDb) : Prop where
  inv : WalletInv W s'
  unlocked : s'.1.isLocked = false
  haveKey : ∀ id, s'.1.store.haveKey id = s.1.store.haveKey id
  seedId : s'.2.seedId = s.2.seedId
  pqChain : s'.2.pqChain = s.2.pqChain

theorem encryptTxn_eq (h : WalletInv W (w, db)) (hm : w.masterKey = none) (m : MasterKey) :
    ∃ store records, encryptTxn W m (w, db) =
        ({ w with store, masterKey := some m, vMasterKey := some m },
          { db with store := records, masterKey := some m }) ∧
      store.Holds W (some m) w.store.vault ∧
      db.store.EncryptedFrom W m w.store.vault records := by
  have hplain : w.store.Plain := h.mem.plain hm
  have hdb : db.store.Plain := h.db.plain (h.mem.masterKey.symm.trans hm)
  obtain ⟨store, records, heq, hstore, hrecords⟩ := (hplain.holds W).encrypt hdb m
  have hcheck := hstore.checkDecryptionKey h.mem.store.pqValid true
  refine ⟨store, records, ?_, hstore, hrecords⟩
  simp only [encryptTxn, hasEncryptionKeys_eq_false.mpr hm, Bool.false_eq_true, if_false, heq,
    unlockWallet, hcheck, if_true]

theorem encryptTxn_encrypted (h : WalletInv W (w, db)) (hm : w.masterKey = none)
    (m : MasterKey) : Encrypted W (w, db) (encryptTxn W m (w, db)) := by
  have hplain : w.store.Plain := h.mem.plain hm
  have hdb : db.store.Plain := h.db.plain (h.mem.masterKey.symm.trans hm)
  obtain ⟨store, records, hrun, hstore, hrecords⟩ := encryptTxn_eq h hm m
  have hhave : ∀ id, store.haveKey id = w.store.haveKey id := by
    intro id
    rw [hstore.haveKey, (hplain.holds W).haveKey]
  rw [hrun]
  constructor
  · constructor
    · refine h.db.ofStore (h.mem.store.encryptedFrom h.db.store hrecords) nofun ?_ rfl rfl rfl
      intro id hid
      rw [hrecords.haveKey hdb, hid, Bool.or_true]
    · refine { h.mem with
        store := h.mem.store.encrypted hstore
        plain := nofun
        masterKey := rfl
        haveKey := fun {id} hid => ?_ }
      change records.haveKey id = true at hid
      rw [hrecords.haveKey hdb, Bool.or_eq_true, ← hstore.haveKey, hhave] at hid
      exact (hhave id).trans (hid.elim (fun hid => hid) h.mem.haveKey)
  · rfl
  · exact hhave
  · rfl
  · rfl

end Encrypt

end Vexta
