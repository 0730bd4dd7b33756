import Vexta.Wallet.SeedCrash

/-! The keys of a wallet stay the same, in the clear or encrypted, in memory or in the database. -/
namespace Vexta
open Lib CWallet WalletNode WalletDb

/-- The records hold `V`, the maps `M`, with the same post-quantum keys. -/
structure Custody (W : WalletCrypto) (V M : Vault) (s : CWallet × WalletDb) : Prop where
  records : s.2.store.Holds W s.2.masterKey V
  maps : s.1.store.Holds W s.1.masterKey M
  masterKey : s.1.masterKey = s.2.masterKey
  unlocked : ∀ m, s.1.vMasterKey = some m → s.1.masterKey = some m
  le : V.Le M
  pqValid : V.PQValid W

section
variable {W : WalletCrypto} {V M : Vault} {w : CWallet} {db : WalletDb} {s : CWallet × WalletDb}

theorem Vault.PQValid.of_le (h : V.PQValid W) (hle : V.Le M) : M.PQValid W := by
  intro keyId data hdata
  rw [hle.pqKeys] at hdata
  exact h keyId data hdata

namespace Custody

theorem vMasterKey (h : Custody W V M s) (hlocked : s.1.isLocked = false) :
    s.1.vMasterKey = s.1.masterKey := by
  cases hv : s.1.vMasterKey with
  | some m => exact (h.unlocked m hv).symm
  | none =>
    have hnone : s.1.hasEncryptionKeys = false := by
      simpa [isLocked, hv] using hlocked
    exact (hasEncryptionKeys_eq_false.mp hnone).symm

theorem getKey (h : Custody W V M s) (hlocked : s.1.isLocked = false) (id : CKeyID) :
    s.1.getKey W id = M.keys id := by
  unfold CWallet.getKey CWallet.hasEncryptionKeys
  rw [h.vMasterKey hlocked]
  exact h.maps.getKey id

theorem getPQKey (h : Custody W V M s) (hlocked : s.1.isLocked = false) (keyId : Uint256) :
    s.1.getPQKey W keyId = V.pqKeys keyId := by
  unfold CWallet.getPQKey
  rw [h.vMasterKey hlocked, ← h.le.pqKeys]
  exact h.maps.getPQKey (h.pqValid.of_le h.le) keyId

theorem lock (h : Custody W V M (w, db)) : Custody W V M (lockWallet (w, db)) := by
  unfold lockWallet
  simp only
  split_ifs
  · exact ⟨h.records, h.maps, h.masterKey, by simp, h.le, h.pqValid⟩
  · exact h

theorem unlock (h : Custody W V M (w, db)) :
    Custody W V M (unlockWallet W (w, db)) ∧ (unlockWallet W (w, db)).1.isLocked = false := by
  have hmaps : w.store.Holds W w.masterKey M := h.maps
  unfold unlockWallet
  cases hm : w.masterKey with
  | none =>
    simp only [hm]
    refine ⟨h, ?_⟩
    simp [isLocked, hasEncryptionKeys, hm]
  | some m =>
    have hcheck : w.store.checkDecryptionKey W m true = .answer true := by
      rw [hm] at hmaps
      exact hmaps.checkDecryptionKey (h.pqValid.of_le h.le) true
    simp only [hm, hcheck, if_true]
    refine ⟨⟨h.records, hm ▸ hmaps, hm ▸ h.masterKey, ?_, h.le, h.pqValid⟩, rfl⟩
    intro m' hm'
    exact hm'

theorem encryptTxn (h : Custody W V M (w, db)) (hm : w.masterKey = none) (m : MasterKey) :
    ∃ store records, Vexta.encryptTxn W m (w, db) =
        ({ w with store, masterKey := some m, vMasterKey := some m },
          { db with store := records, masterKey := some m }) ∧
      Custody W M M ({ w with store, masterKey := some m, vMasterKey := some m },
        { db with store := records, masterKey := some m }) := by
  have hmaps : w.store.Holds W none M := hm ▸ h.maps
  have hmaster : db.masterKey = none := h.masterKey.symm.trans hm
  have hrecords : db.store.Holds W none V := hmaster ▸ h.records
  have hvalid := h.pqValid.of_le h.le
  obtain ⟨store, records, heq, hstore, hfrom⟩ := hmaps.encrypt hrecords.plain m
  have hcheck := hstore.checkDecryptionKey hvalid true
  refine ⟨store, records, ?_, hfrom.holds hrecords h.le, hstore, rfl, fun _ h => h,
    Vault.Le.refl M, hvalid⟩
  simp only [Vexta.encryptTxn, hasEncryptionKeys_eq_false.mpr hm, Bool.false_eq_true, if_false,
    heq, unlockWallet, hcheck, if_true]

theorem ofDb (hrecords : db.store.Holds W db.masterKey V) (hvalid : V.PQValid W)
    (kind : SpkManKind) (disablePrivateKeys : Bool) (chain : PQHDChain) :
    Custody W V V (ofDb kind disablePrivateKeys db chain, db.withChain chain) where
  records := by simpa using hrecords
  maps := hrecords
  masterKey := by simp [CWallet.ofDb]
  unlocked := by simp [CWallet.ofDb]
  le := Vault.Le.refl V
  pqValid := hvalid

end Custody

theorem KeyStore.Holds.loadable {s : KeyStore} {master : Option MasterKey}
    (h : s.Holds W master V) (hkeys : ∀ {id key}, V.keys id = some key → W.keyID key = id)
    (hpq : V.PQValid W) : Loadable W s := by
  constructor
  · intro id key hlookup
    rw [h.keys] at hlookup
    split_ifs at hlookup
    exact hkeys hlookup
  · intro keyId data hlookup
    rw [h.pqKeys] at hlookup
    split_ifs at hlookup
    exact hpq keyId data hlookup
  · intro keyId data hlookup
    rw [h.cryptedPQKeys, Option.bind_eq_some_iff] at hlookup
    obtain ⟨m, -, hdata⟩ := hlookup
    obtain ⟨plain, hplain, rfl⟩ := Option.map_eq_some_iff.mp hdata
    exact (hpq keyId plain hplain).crypted m

end

/-- The calls on a manager. `encrypt` is `Encrypt` in a transaction. -/
inductive KeyOp
  | encrypt (master : MasterKey)
  | lock
  | unlock
  deriving DecidableEq

/-- `run` completes a call; `crash` stops around its commit and reloads. -/
inductive KeyEvent
  | run (op : KeyOp)
  | crash (op : KeyOp) (committed : Bool)

section
variable (W : WalletCrypto)

def KeyOp.step : KeyOp → WalletStep
  | encrypt master => encryptTxn W master
  | lock => lockWallet
  | unlock => unlockWallet W

def KeyEvent.encrypts : KeyEvent → Bool
  | run (.encrypt _) => true
  | crash (.encrypt _) committed => committed
  | _ => false

def WalletNode.keyStep (node : WalletNode) (event : KeyEvent) : WalletNode :=
  match node.wallet with
  | none => node
  | some w =>
    match event with
    | .run op =>
      let s := op.step W (w, node.db)
      { node with db := s.2, wallet := some s.1 }
    | .crash op committed =>
      node.reload W (if committed then (op.step W (w, node.db)).2 else node.db)

def WalletNode.runKeyEvents (node : WalletNode) (events : List KeyEvent) : WalletNode :=
  events.foldl (keyStep W) node

end

section
variable {W : WalletCrypto} {V : Vault} {w : CWallet} {db : WalletDb}

def WalletDb.Settled (db : WalletDb) : Prop :=
  reconciledPQHDChain db.seedId db.pqChain db.metas = .ok db.pqChain

theorem WalletDb.withChain_metas (chain : PQHDChain) : (db.withChain chain).metas = db.metas := by
  unfold metas
  rw [withChain_metadata]

theorem WalletDb.withChain_settled {chain : PQHDChain}
    (h : reconciledPQHDChain db.seedId db.pqChain db.metas = .ok chain) :
    (db.withChain chain).Settled := by
  unfold WalletDb.Settled
  rw [withChain_seedId, withChain_pqChain, withChain_metas]
  exact reconciledPQHDChain_idem h

structure KeysKept (W : WalletCrypto) (V : Vault) (s : CWallet × WalletDb) : Prop where
  custody : Custody W V V s
  keys : ∀ {id key}, V.keys id = some key → W.keyID key = id
  settled : s.2.Settled

theorem KeysKept.step (h : KeysKept W V (w, db)) (op : KeyOp) :
    KeysKept W V (op.step W (w, db)) ∧
      (db.masterKey.isSome = true ∨ (KeyEvent.run op).encrypts = true →
        (op.step W (w, db)).2.masterKey.isSome = true) := by
  cases op with
  | encrypt m =>
    change KeysKept W V (encryptTxn W m (w, db)) ∧
      (_ → (encryptTxn W m (w, db)).2.masterKey.isSome = true)
    cases hm : w.masterKey with
    | none =>
      obtain ⟨store, records, heq, hcustody⟩ := h.custody.encryptTxn hm m
      rw [heq]
      exact ⟨⟨hcustody, h.keys, h.settled⟩, fun _ => rfl⟩
    | some m' =>
      have heq : encryptTxn W m (w, db) = (w, db) := by
        simp [encryptTxn, hasEncryptionKeys, hm]
      have hmaster : w.masterKey = db.masterKey := h.custody.masterKey
      rw [heq, ← hmaster, hm]
      exact ⟨h, fun _ => rfl⟩
  | lock =>
    have hcustody := h.custody.lock
    obtain ⟨v, heq⟩ := lockWallet_eq w db
    rw [heq] at hcustody
    rw [KeyOp.step, heq]
    exact ⟨⟨hcustody, h.keys, h.settled⟩, fun hm => hm.resolve_right Bool.false_ne_true⟩
  | unlock =>
    have hcustody := h.custody.unlock.1
    obtain ⟨v, heq⟩ := unlockWallet_eq W w db
    rw [heq] at hcustody
    rw [KeyOp.step, heq]
    exact ⟨⟨hcustody, h.keys, h.settled⟩, fun hm => hm.resolve_right Bool.false_ne_true⟩

theorem KeysKept.reload (h : KeysKept W V (w, db)) (node : WalletNode) :
    ∃ w', node.reload W db = { node with db, wallet := some w' } ∧ KeysKept W V (w', db) := by
  have hrecords := h.custody.records
  have hsettled := h.settled
  have hchain : db.withChain db.pqChain = db := by
    unfold withChain
    rw [if_pos rfl]
  have hload : loadWallet W node.kind node.disablePrivateKeys db =
      .ok (ofDb node.kind node.disablePrivateKeys db db.pqChain, db) := by
    rw [loadWallet_eq (hrecords.loadable h.keys h.custody.pqValid), hsettled]
    change Except.ok (_, db.withChain db.pqChain) = _
    rw [hchain]
  have hcustody := Custody.ofDb hrecords h.custody.pqValid node.kind node.disablePrivateKeys
    db.pqChain
  rw [hchain] at hcustody
  refine ⟨_, ?_, hcustody, h.keys, h.settled⟩
  unfold WalletNode.reload
  rw [hload]

theorem keyStep_kept {node : WalletNode} (hw : node.wallet = some w)
    (h : KeysKept W V (w, node.db)) (event : KeyEvent) :
    ∃ w', (node.keyStep W event).wallet = some w' ∧
      KeysKept W V (w', (node.keyStep W event).db) ∧
      (node.db.masterKey.isSome = true ∨ event.encrypts = true →
        (node.keyStep W event).db.masterKey.isSome = true) := by
  cases event with
  | run op =>
    have hstep : node.keyStep W (.run op) =
        { node with
          db := (op.step W (w, node.db)).2, wallet := some (op.step W (w, node.db)).1 } := by
      simp only [keyStep, hw]
    rw [hstep]
    exact ⟨_, rfl, h.step op⟩
  | crash op committed =>
    have hstep : node.keyStep W (.crash op committed) =
        node.reload W (if committed then (op.step W (w, node.db)).2 else node.db) := by
      simp only [keyStep, hw]
    rw [hstep]
    cases committed with
    | false =>
      obtain ⟨w', heq, hkept⟩ := h.reload node
      simp only [Bool.false_eq_true, if_false, heq]
      refine ⟨w', rfl, hkept, fun hm => hm.resolve_right ?_⟩
      cases op <;> simp [KeyEvent.encrypts]
    | true =>
      have hkept := h.step op
      obtain ⟨⟨w₁, db₁⟩, hs⟩ : ∃ s, op.step W (w, node.db) = s := ⟨_, rfl⟩
      rw [hs] at hkept ⊢
      obtain ⟨w', heq, hkept'⟩ := hkept.1.reload node
      simp only [if_true, heq]
      refine ⟨w', rfl, hkept', fun hm => hkept.2 (hm.imp_right fun henc => ?_)⟩
      cases op with
      | encrypt m => rfl
      | _ => cases henc

theorem runKeyEvents_kept (node : WalletNode) (hw : node.wallet = some w)
    (h : KeysKept W V (w, node.db)) (events : List KeyEvent) :
    ∃ w', (node.runKeyEvents W events).wallet = some w' ∧
      KeysKept W V (w', (node.runKeyEvents W events).db) ∧
      (node.db.masterKey.isSome = true ∨ (∃ e ∈ events, e.encrypts = true) →
        (node.runKeyEvents W events).db.masterKey.isSome = true) := by
  induction events generalizing node w with
  | nil => exact ⟨w, hw, h, fun hm => hm.resolve_right (by simp)⟩
  | cons event events ih =>
    obtain ⟨w₁, hw₁, h₁, hmaster₁⟩ := keyStep_kept hw h event
    obtain ⟨w', hw', h', hmaster'⟩ := ih _ hw₁ h₁
    refine ⟨w', hw', h', fun hm => hmaster' ?_⟩
    rcases hm with hm | ⟨e, hmem, henc⟩
    · exact .inl (hmaster₁ (.inl hm))
    · rcases List.mem_cons.mp hmem with rfl | hmem
      · exact .inl (hmaster₁ (.inr henc))
      · exact .inr ⟨e, hmem, henc⟩

theorem loadWallet_kept {kind : SpkManKind} {disablePrivateKeys : Bool} {db₁ : WalletDb}
    (hload : loadWallet W kind disablePrivateKeys db = .ok (w, db₁))
    (hmaster : db.masterKey = none) (hplain : db.store.Plain) :
    KeysKept W db.store.vault (w, db₁) := by
  obtain ⟨hvalid, chain, hchain, rfl, rfl⟩ := loadWallet_eq_ok hload
  have hrecords : db.store.Holds W db.masterKey db.store.vault := by
    rw [hmaster]
    exact hplain.holds W
  have hpq : db.store.vault.PQValid W := fun _ _ hlookup => hvalid.pqKeys hlookup
  exact ⟨.ofDb hrecords hpq kind disablePrivateKeys chain,
    fun hlookup => hvalid.keys hlookup, withChain_settled hchain⟩

theorem KeyStore.Holds.pqKeys_empty {s : KeyStore} {master : Option MasterKey}
    (h : s.Holds W master V) (hm : master.isSome = true) : s.pqKeys = ∅ :=
  Assoc.eq_empty fun keyId => by rw [h.pqKeys, if_pos hm]

/-- Whatever sequence of encryption, locking, unlocking and stops a manager goes through, it can be
unlocked and gives every post-quantum key it was loaded with. No key is in the clear next to an
encrypted one. -/
theorem encryption_keeps_pqKeys {kind : SpkManKind} {disablePrivateKeys : Bool} {db₁ : WalletDb}
    (hload : loadWallet W kind disablePrivateKeys db = .ok (w, db₁))
    (hmaster : db.masterKey = none) (hplain : db.store.Plain) (events : List KeyEvent) :
    let node := (mk kind disablePrivateKeys db₁ (some w)).runKeyEvents W events
    ∃ w', node.wallet = some w' ∧
      (unlockWallet W (w', node.db)).1.isLocked = false ∧
      (∀ keyId, (unlockWallet W (w', node.db)).1.getPQKey W keyId = w.getPQKey W keyId) ∧
      ((∃ e ∈ events, e.encrypts = true) →
        w'.store.pqKeys = ∅ ∧ node.db.store.pqKeys = ∅) ∧
      (w'.store.pqKeys = ∅ ∨ w'.store.cryptedPQKeys = ∅) := by
  intro node
  have hstart := loadWallet_kept hload hmaster hplain
  obtain ⟨w', hw', hkept, henc⟩ :=
    runKeyEvents_kept (mk kind disablePrivateKeys db₁ (some w)) rfl hstart events
  obtain ⟨hunlocked, hlocked⟩ := hkept.custody.unlock
  have hw : w.isLocked = false := by
    obtain ⟨-, chain, -, rfl, -⟩ := loadWallet_eq_ok hload
    simp [isLocked, hasEncryptionKeys, ofDb, hmaster]
  have hmaps := hkept.custody.maps
  refine ⟨w', hw', hlocked, fun keyId => ?_, fun hany => ?_, ?_⟩
  · exact (hunlocked.getPQKey hlocked keyId).trans (hstart.custody.getPQKey hw keyId).symm
  · have hsome := henc (.inr hany)
    have heq := hkept.custody.masterKey
    exact ⟨hmaps.pqKeys_empty (heq ▸ hsome), hkept.custody.records.pqKeys_empty hsome⟩
  · cases hm : w'.masterKey with
    | some m => exact .inl (hmaps.pqKeys_empty (by rw [hm]; rfl))
    | none =>
      rw [hm] at hmaps
      exact .inr (Assoc.eq_empty hmaps.plain.cryptedPQKeys)

end

def sampleDb : WalletDb :=
  { WalletDb.new with
    store := { KeyStore.empty with
      pqKeys := AList.singleton (sampleCrypto.sha256 (List.replicate 32 1))
        ⟨.slhdsa, List.replicate 32 1, List.replicate 64 2⟩ } }

theorem sampleDb_load : loadWallet sampleCrypto .legacy false sampleDb =
    .ok (ofDb .legacy false sampleDb .null, sampleDb) := by
  have hvalid : Loadable sampleCrypto sampleDb.store := by
    constructor
    · intro id key hlookup
      cases hlookup
    · intro keyId data hlookup
      have hmem := Assoc.lookup_eq_some_iff.mp hlookup
      rw [sampleDb, AList.singleton_entries, List.mem_singleton] at hmem
      cases hmem
      decide +kernel
    · intro keyId data hlookup
      cases hlookup
  rw [loadWallet_eq hvalid]
  rfl

/-- The sample key after two encryptions, the first cut off. -/
theorem encryption_keeps_pqKeys_sample :
    let node := (mk .legacy false sampleDb
      (some (ofDb .legacy false sampleDb .null))).runKeyEvents sampleCrypto
        [.crash (.encrypt (sampleKey 1)) false, .run (.encrypt (sampleKey 2)), .run .lock,
          .crash .lock true]
    ∃ w', node.wallet = some w' ∧
      (unlockWallet sampleCrypto (w', node.db)).1.getPQKey sampleCrypto
        (sampleCrypto.sha256 (List.replicate 32 1)) =
          some ⟨.slhdsa, List.replicate 32 1, List.replicate 64 2⟩ ∧
      w'.store.pqKeys = ∅ ∧ node.db.store.pqKeys = ∅ := by
  intro node
  obtain ⟨w', hw', -, hkeys, hempty, -⟩ := encryption_keeps_pqKeys sampleDb_load rfl
    ⟨fun _ => rfl, fun _ => rfl⟩ [.crash (.encrypt (sampleKey 1)) false,
      .run (.encrypt (sampleKey 2)), .run .lock, .crash .lock true]
  refine ⟨w', hw', ?_, hempty ⟨.run (.encrypt (sampleKey 2)), by simp, rfl⟩⟩
  rw [hkeys]
  decide +kernel

end Vexta
