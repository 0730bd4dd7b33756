import Vexta.Wallet.SeedCrash
import Vexta.Wallet.SignPass

/-! Which of the post-quantum outputs that `IsMine` calls spendable `SignTransaction` can spend. -/
namespace Vexta
open Lib List Option AList KeyStore WalletNode

structure StoreGenerated (W : WalletCrypto) (master : Option MasterKey) (s : KeyStore) : Prop where
  pqKeys : ∀ keyId data, s.pqKeys.lookup keyId = some data → data.Generated W keyId
  cryptedPQKeys : ∀ keyId data, s.cryptedPQKeys.lookup keyId = some data →
    ∃ m plain, master = some m ∧ plain.Generated W keyId ∧ data = W.cryptPQ m keyId plain

structure StateGenerated (W : WalletCrypto) (s : CWallet × WalletDb) : Prop where
  inv : WalletInv W s
  maps : StoreGenerated W s.1.masterKey s.1.store
  records : StoreGenerated W s.2.masterKey s.2.store
  unlocked : ∀ m, s.1.vMasterKey = some m → s.1.masterKey = some m

section Generated
variable {W : WalletCrypto} {w : CWallet} {db : WalletDb} {s : KeyStore}
  {master : Option MasterKey}

theorem StoreGenerated.congr {s' : KeyStore} (h : StoreGenerated W master s)
    (hpq : s'.pqKeys = s.pqKeys) (hcrypted : s'.cryptedPQKeys = s.cryptedPQKeys) :
    StoreGenerated W master s' where
  pqKeys := by
    rw [hpq]
    exact h.pqKeys
  cryptedPQKeys := by
    rw [hcrypted]
    exact h.cryptedPQKeys

variable {keyId : Uint256} {data : PQKeyData}

theorem StoreGenerated.insert (h : StoreGenerated W master s) (hdata : data.Generated W keyId) :
    StoreGenerated W master { s with pqKeys := s.pqKeys.insert keyId data } where
  pqKeys k data' hlookup := by
    by_cases hk : k = keyId
    · subst hk
      rw [lookup_insert, Option.some.injEq] at hlookup
      exact hlookup ▸ hdata
    · rw [lookup_insert_ne hk] at hlookup
      exact h.pqKeys k data' hlookup
  cryptedPQKeys := h.cryptedPQKeys

theorem StoreGenerated.insertCrypted {m : MasterKey} (h : StoreGenerated W (some m) s)
    (hdata : data.Generated W keyId) :
    StoreGenerated W (some m)
      { s with cryptedPQKeys := s.cryptedPQKeys.insert keyId (W.cryptPQ m keyId data) } where
  pqKeys := h.pqKeys
  cryptedPQKeys k data' hlookup := by
    by_cases hk : k = keyId
    · subst hk
      rw [lookup_insert, Option.some.injEq] at hlookup
      exact ⟨m, data, rfl, hdata, hlookup.symm⟩
    · rw [lookup_insert_ne hk] at hlookup
      exact h.cryptedPQKeys k data' hlookup

theorem StoreGenerated.erase (h : StoreGenerated W master s) {s' : KeyStore}
    (hpq : ∀ keyId data, s'.pqKeys.lookup keyId = some data → s.pqKeys.lookup keyId = some data)
    (hcrypted : ∀ keyId data, s'.cryptedPQKeys.lookup keyId = some data →
      s.cryptedPQKeys.lookup keyId = some data) : StoreGenerated W master s' where
  pqKeys keyId data hlookup := h.pqKeys keyId data (hpq keyId data hlookup)
  cryptedPQKeys keyId data hlookup := h.cryptedPQKeys keyId data (hcrypted keyId data hlookup)

theorem StoreGenerated.erasePQKey (h : StoreGenerated W master s) (keyId : Uint256) :
    StoreGenerated W master (s.erasePQKey keyId) :=
  h.erase (fun _ _ hlookup => Assoc.lookup_of_erase hlookup) fun _ _ hlookup =>
    Assoc.lookup_of_erase hlookup

theorem StateGenerated.getPQKey (h : StateGenerated W (w, db)) (hlocked : w.isLocked = false)
    (hkey : w.store.havePQKey keyId = true) :
    ∃ data, w.getPQKey W keyId = some data ∧ data.Generated W keyId := by
  unfold CWallet.getPQKey KeyStore.getPQKey
  cases hplain : w.store.pqKeys.lookup keyId with
  | some data => exact ⟨data, rfl, h.maps.pqKeys keyId data hplain⟩
  | none =>
    obtain ⟨crypted, hcrypted⟩ : ∃ data, w.store.cryptedPQKeys.lookup keyId = some data := by
      rw [← isSome_iff_exists]
      simpa [havePQKey, hplain] using hkey
    obtain ⟨m, data, hm, hgen, rfl⟩ := h.maps.cryptedPQKeys keyId crypted hcrypted
    change w.masterKey = some m at hm
    obtain ⟨v, hv⟩ : ∃ v, w.vMasterKey = some v := by
      rw [← isSome_iff_exists, ← not_isNone, Bool.not_eq_true']
      simpa [CWallet.isLocked, CWallet.hasEncryptionKeys, hm] using hlocked
    obtain rfl : m = v := Option.some.inj (hm.symm.trans (h.unlocked v hv))
    obtain ⟨seed, hseed⟩ := hgen.keygen
    have hsize := (W.keygen_sizes hseed).2
    have hne : data.secret ≠ [] := by
      intro hnil
      rw [hnil] at hsize
      cases htype : data.type <;> simp [htype, PqType.seckeyBytes] at hsize
    refine ⟨data, ?_, hgen⟩
    simp [hcrypted, hv, WalletCrypto.cryptPQ, W.decrypt_encrypt hne, hsize]

theorem derivePQKey_generated {seed : CKey} {type : PqType} {n : ℕ}
    (h : derivePQKey W seed type n = some data) : data.Generated W (W.sha256 data.pubkey) := by
  unfold derivePQKey at h
  obtain ⟨key, hkey, rfl⟩ := map_eq_some_iff.mp h
  exact ⟨⟨_, hkey⟩, rfl⟩

theorem addPQKey_generated (h : StateGenerated W (w, db)) (hlocked : w.isLocked = false)
    (hdata : data.Generated W (W.sha256 data.pubkey)) (writeKey : Bool) :
    StoreGenerated W w.masterKey (addPQKey W w db.store data writeKey).1 ∧
      ∀ records, (addPQKey W w db.store data writeKey).2 = some records →
        StoreGenerated W db.masterKey records := by
  have hmaster : w.masterKey = db.masterKey := h.inv.mem.masterKey
  have hmaps := h.maps
  have hrecords := hmaster ▸ h.records
  rw [← hmaster]
  unfold addPQKey
  by_cases hsize : data.pubkey.length ≠ data.type.pubkeyBytes ∨
      data.secret.length ≠ data.type.seckeyBytes
  · simp only [if_pos hsize]
    exact ⟨hmaps, by simp⟩
  simp only [if_neg hsize]
  cases hm : w.masterKey with
  | none =>
    rw [hm] at hmaps hrecords
    simp only [CWallet.hasEncryptionKeys, hm, isSome_none, Bool.false_eq_true,
      not_false_eq_true, if_true]
    refine ⟨hmaps.insert hdata, fun records hwrite => ?_⟩
    unfold writePQKey at hwrite
    split_ifs at hwrite
    rw [← Option.some.inj hwrite]
    exact hrecords.insert hdata
  | some m =>
    rw [hm] at hmaps hrecords
    obtain ⟨v, hv⟩ : ∃ v, w.vMasterKey = some v := by
      rw [← isSome_iff_exists, ← not_isNone, Bool.not_eq_true']
      simpa [CWallet.isLocked, CWallet.hasEncryptionKeys, hm] using hlocked
    obtain rfl : m = v := Option.some.inj (hm.symm.trans (h.unlocked v hv))
    simp only [CWallet.hasEncryptionKeys, hm, isSome_some, not_true_eq_false, if_false, hv]
    refine ⟨hmaps.insertCrypted hdata, fun records hwrite => ?_⟩
    unfold writeCryptedPQKey at hwrite
    split_ifs at hwrite
    rw [← Option.some.inj hwrite]
    have hinsert := hrecords.insertCrypted hdata
    exact hinsert.erase (fun _ _ h => Assoc.lookup_of_erase h) fun _ _ hlookup => hlookup

theorem StateGenerated.newKey (h : StateGenerated W (w, db)) (type : PqType) (txn : TxnSteps) :
    StateGenerated W ((getNewDestination W w db type txn).1,
      (getNewDestination W w db type txn).2.1) := by
  have hinv := (getNewDestination_inv h.inv type txn).inv
  rcases getNewDestination_cases W w db type txn with ⟨e, heq⟩ | ⟨seed, data, hkey, heq⟩
  · rw [heq]
    exact h
  obtain ⟨hmaps, hrecords⟩ := addPQKey_generated h hkey.unlocked
    (derivePQKey_generated hkey.derived) txn.writeKey
  rw [heq] at hinv ⊢
  rcases storeNewKey_cases W w db seed data (w.pqHDChain.counter type) txn with
    ⟨-, e, heq⟩ | ⟨-, e, heq⟩ | ⟨records, hwritten, -, heq⟩
  · rw [heq]
    exact h
  · rw [heq] at hinv ⊢
    exact ⟨hinv, h.maps.erasePQKey _, h.records, h.unlocked⟩
  · rw [heq] at hinv ⊢
    exact ⟨hinv, hmaps, hrecords records hwritten, h.unlocked⟩

structure PQUnchanged (s s' : CWallet × WalletDb) : Prop where
  pqKeys : s'.1.store.pqKeys = s.1.store.pqKeys
  cryptedPQKeys : s'.1.store.cryptedPQKeys = s.1.store.cryptedPQKeys
  masterKey : s'.1.masterKey = s.1.masterKey
  vMasterKey : s'.1.vMasterKey = s.1.vMasterKey
  pqRecords : s'.2.store.pqKeys = s.2.store.pqKeys
  cryptedPQRecords : s'.2.store.cryptedPQKeys = s.2.store.cryptedPQKeys
  masterRecord : s'.2.masterKey = s.2.masterKey

theorem PQUnchanged.trans {s t u : CWallet × WalletDb} (h : PQUnchanged s t)
    (h' : PQUnchanged t u) : PQUnchanged s u where
  pqKeys := h'.pqKeys.trans h.pqKeys
  cryptedPQKeys := h'.cryptedPQKeys.trans h.cryptedPQKeys
  masterKey := h'.masterKey.trans h.masterKey
  vMasterKey := h'.vMasterKey.trans h.vMasterKey
  pqRecords := h'.pqRecords.trans h.pqRecords
  cryptedPQRecords := h'.cryptedPQRecords.trans h.cryptedPQRecords
  masterRecord := h'.masterRecord.trans h.masterRecord

theorem addSeedKey_unchanged (seed : CKey) (s : CWallet × WalletDb) :
    PQUnchanged s (addSeedKey W seed s) := by
  unfold addSeedKey
  dsimp only
  split <;> exact ⟨rfl, rfl, rfl, rfl, rfl, rfl, rfl⟩

theorem seedWrites_unchanged (seed : CKey) (written : ℕ) (s : CWallet × WalletDb) :
    PQUnchanged s (runSteps (seedWrites W seed written) s) := by
  apply runSteps_induction (P := PQUnchanged s)
  · intro step hstep t ht
    refine ht.trans ?_
    have hkey := addSeedKey_unchanged (W := W) seed t
    unfold seedWrites at hstep
    split_ifs at hstep
    · rw [mem_singleton.mp hstep]
      exact ⟨hkey.pqKeys, hkey.cryptedPQKeys, hkey.masterKey, hkey.vMasterKey, rfl, rfl, rfl⟩
    · have hmem := mem_of_mem_take hstep
      simp only [setHDSeed, mem_cons, not_mem_nil, or_false] at hmem
      rcases hmem with rfl | rfl | rfl
      · exact hkey
      · exact ⟨rfl, rfl, rfl, rfl, rfl, rfl, rfl⟩
      · exact ⟨rfl, rfl, rfl, rfl, rfl, rfl, rfl⟩
  · exact ⟨rfl, rfl, rfl, rfl, rfl, rfl, rfl⟩

theorem stateGenerated_keep (W : WalletCrypto) :
    StepsKeep W Set.univ (StateGenerated W) where
  inv h := h.inv
  seed {w db seed} h hlocked hfresh _ written := by
    have hinv := seedWrites_inv h.inv hlocked hfresh written
    have hsame := seedWrites_unchanged (W := W) seed written (w, db)
    refine ⟨hinv, ?_, ?_, ?_⟩
    · rw [hsame.masterKey]
      exact h.maps.congr hsame.pqKeys hsame.cryptedPQKeys
    · rw [hsame.masterRecord]
      exact h.records.congr hsame.pqRecords hsame.cryptedPQRecords
    · rw [hsame.masterKey, hsame.vMasterKey]
      exact h.unlocked
  newKey type txn h := h.newKey type txn
  encrypt {w db} m h hm := by
    have hinv := (encryptTxn_encrypted h.inv hm m).inv
    obtain ⟨store, records, heq, hstore, hrecords⟩ := encryptTxn_eq h.inv hm m
    rw [heq] at hinv ⊢
    have hcrypted : ∀ keyId data, (w.store.vault.pqKeys keyId).map (W.cryptPQ m keyId) = some data →
        ∃ m' plain, some m = some m' ∧ plain.Generated W keyId ∧ data = W.cryptPQ m' keyId plain := by
      intro keyId data hdata
      obtain ⟨plain, hplain, rfl⟩ := map_eq_some_iff.mp hdata
      exact ⟨m, plain, rfl, h.maps.pqKeys keyId plain hplain, rfl⟩
    refine ⟨hinv, ⟨?_, ?_⟩, ⟨?_, ?_⟩, fun m' hm' => hm'⟩
    · intro keyId data hdata
      rw [hstore.pqKeys] at hdata
      cases hdata
    · intro keyId data hdata
      rw [hstore.cryptedPQKeys] at hdata
      exact hcrypted keyId data hdata
    · intro keyId data hdata
      rw [hrecords.pqKeys] at hdata
      split_ifs at hdata
      exact h.records.pqKeys keyId data hdata
    · intro keyId data hdata
      rw [hrecords.cryptedPQKeys] at hdata
      exact hcrypted keyId data hdata
  lock {s} h := by
    obtain ⟨w, db⟩ := s
    have hinv := (lockWallet_inv h.inv).inv
    unfold lockWallet at hinv ⊢
    dsimp only at hinv ⊢
    split_ifs at hinv ⊢
    · exact ⟨hinv, h.maps, h.records, fun m hm => by cases hm⟩
    · exact h
  unlock {s} h := by
    obtain ⟨w, db⟩ := s
    have hinv := unlockWallet_inv h.inv
    unfold unlockWallet at hinv ⊢
    dsimp only at hinv ⊢
    split at hinv
    · exact h
    · rename_i master hm
      split_ifs at hinv ⊢
      · exact ⟨hinv, h.maps, h.records, fun m' hm' => by rw [← hm']; exact hm⟩
      · exact h

theorem StoreGenerated.reload (h : StoreGenerated W db.masterKey db.store) (hdb : DbInv W db)
    (node : WalletNode) : (node.reload W db).Has (StateGenerated W) := by
  unfold WalletNode.reload
  by_cases hagree : ChainsAgree db
  · obtain ⟨chain, hchain, heq⟩ := hdb.loadWallet_ok hagree node.kind node.disablePrivateKeys
    rw [heq]
    intro w hw
    rw [← Option.some.inj hw]
    exact ⟨⟨hdb.withChain hchain, hdb.ofDb _ _ chain⟩, h, by simpa using h, fun m hm => by cases hm⟩
  · rw [hdb.loadWallet_error hagree]
    intro w hw
    cases hw

theorem stateGenerated_runEvents (W : WalletCrypto) (kind : SpkManKind)
    (disablePrivateKeys : Bool) (events : List WalletEvent) :
    ((new W kind disablePrivateKeys).runEvents W events).1.Has (StateGenerated W) := by
  have hempty : StoreGenerated W WalletDb.new.masterKey WalletDb.new.store :=
    ⟨by simp [WalletDb.new, empty], by simp [WalletDb.new, empty]⟩
  apply (stateGenerated_keep W).runEvents
  · intro s hs node
    exact hs.records.reload hs.inv.db node
  · exact hempty.reload (dbInv_new W) _

end Generated

/-- `VerifyScript` accepts the spend, whatever spent outputs were hashed. -/
def AcceptedAt (X : Crypto) (flags : Flags) (tx : CTransaction) (i : ℕ) (out : CTxOut) : Prop :=
  ∃ txin, tx.vin[i]? = some txin ∧ ∀ mdb outputs force txdata, outputs[i]? = some out →
    PrecomputedTransactionData.init X tx outputs force = .ok txdata →
    verifyScript X (transactionSignatureChecker X tx mdb i out.nValue (some txdata)) flags
      txin.scriptSig out.scriptPubKey txin.scriptWitness = .ok ()

section Spending
variable {W : WalletCrypto} {w : CWallet} {coins : CoinMap} {s s₁ s' : SignState} {i : ℕ}
  {txdata : PrecomputedTransactionData} {out : CTxOut} {type : PqType} {program : Bytes}

theorem ManagerPass.accepted (h : ManagerPass W w coins s s₁ s' txdata)
    (hcorrect : SigningCorrect W) (hout : spentOutput coins s.tx i = some out)
    (hpq : PQOutput out type program) {key : PQKeyData}
    (hkey : w.getPQKey W (uint256OfBytes program) = some key) (htype : key.type = type)
    (hgen : key.Generated W (uint256OfBytes program)) (htrue : castToBool program = true) :
    AcceptedAt W.toCrypto pqrSigningFlags s'.tx i out := by
  have hout₁ :=
    (spentOutput_congr h.first.core coins i).trans hout
  obtain ⟨txin, hin, hsigned, -⟩ := (h.turns i (spentOutput_lt hout)).signed hcorrect out type program
    key hout₁ hpq hkey htype hgen
  refine ⟨txin, hin, fun mdb outputs force txdata' houtput hinit => ?_⟩
  obtain ⟨sig, pubkey, sighash, hwitness, hsize, hpubkey, hsha, hhash, hverify⟩ := hsigned.witness
  have hspent : ∀ o, outputs[i]? = some o → o.scriptPubKey = out.scriptPubKey := by
    intro o ho
    rw [Option.some.inj (ho.symm.trans houtput)]
  have hready :=
    bip143Ready_of_witness hinit hin (by simp [hwitness])
      (looksTaproot_program hspent hpq.isProgram type.version_cases)
  obtain ⟨outputs₁, hinit₁⟩ := h.data
  have hhash' := signatureHashPQR_core (h.core.trans h.first.core.symm) (init_computed hinit₁)
    h.data.ready (init_computed hinit) hready i type.version program out.nValue
  exact (verifyScript_pqrProgram_iff rfl rfl rfl (fun _ => hready) hpq.isProgram
    type.version_cases).mpr ⟨hsigned.scriptSig, hpq.length, htrue, sig, pubkey, sighash, hwitness,
      hsize, hpubkey, hsha, hhash'.trans hhash, hverify⟩

theorem AcceptedAt.of_program {X : Crypto} {tx : CTransaction}
    (h : AcceptedAt X pqrSigningFlags tx i out) (hi : i < tx.vin.length)
    (hpq : PQOutput out type program) :
    castToBool program = true ∧ (tx.vin[i]?).map (·.scriptWitness) ≠ some [] := by
  obtain ⟨txin, hin, haccepted⟩ := h
  have houtput : (List.replicate tx.vin.length out)[i]? = some out := by simp [hi]
  obtain ⟨txdata, hinit⟩ := init_eq_ok X tx
    (.inr (length_replicate (n := tx.vin.length) (a := out))) true
  have hready := (init_forced hinit).1
  obtain ⟨-, -, htrue, sig, pubkey, sighash, hwitness, -⟩ :=
    (verifyScript_pqrProgram_iff rfl rfl rfl (fun _ => hready) hpq.isProgram
      type.version_cases).mp (haccepted .fail _ true txdata houtput hinit)
  refine ⟨htrue, ?_⟩
  rw [hin, map_some, hwitness]
  simp

end Spending

def unsignedSpend : SignState := ⟨⟨[⟨⟨0, 0⟩, [], 0, []⟩], [], 2, 0⟩, ∅⟩

def coinOf (script : CScript) (hsize : script.length < 2 ^ 32) : CoinMap :=
  fun _ => some ⟨⟨0, script, hsize⟩, false, 0⟩

theorem unsignedSpend_accepted {W : WalletCrypto} {w : CWallet} {type : PqType} {program : Bytes}
    {script : CScript} {hsize : script.length < 2 ^ 32} {provider : SigningProvider}
    {s' : SignState} (hout : PQOutput ⟨0, script, hsize⟩ type program)
    (hrun : w.signWithManager W provider (coinOf script hsize) sigHashDefault unsignedSpend =
      .ok s')
    (haccepted : AcceptedAt W.toCrypto pqrSigningFlags s'.tx 0 ⟨0, script, hsize⟩) :
    (∃ key, w.getPQKey W (uint256OfBytes program) = some key ∧ key.type = type) ∧
      castToBool program = true := by
  obtain ⟨s₁, s'', txdata, -, hrun', hpass⟩ :=
    signWithManager_default W w provider (coinOf script hsize) unsignedSpend
  obtain rfl : s' = s'' := Except.ok.inj (hrun.symm.trans hrun')
  have hspent : spentOutput (coinOf script hsize) unsignedSpend.tx 0 =
      some ⟨0, script, hsize⟩ := rfl
  have hspent₁ := (spentOutput_congr hpass.first.core (coinOf script hsize) 0).trans hspent
  have hlength := core_length hpass.core
  obtain ⟨htrue, hwitness⟩ := haccepted.of_program (by rw [hlength]; decide) hout
  refine ⟨?_, htrue⟩
  by_contra hnone
  have hother : ∀ key, w.getPQKey W (uint256OfBytes program) = some key → key.type ≠ type :=
    fun key hkey htype => hnone ⟨key, hkey, htype⟩
  -- without the key the input keeps the empty witness of the generic pass
  obtain ⟨hinput, -⟩ := (hpass.turns 0 (by decide)).missing _ type program hspent₁ hout hother
  rw [hinput, (hpass.first.unsigned 0 _ type program hspent hout).witness] at hwitness
  exact hwitness rfl

theorem script_length_of_program {script : CScript} {version : ℕ} {program : Bytes}
    (hprog : CScript.isWitnessProgram script = some (version, program)) :
    script.length < 2 ^ 32 := by
  obtain ⟨v, size, hscript, -, -, -, -, hhi⟩ := isWitnessProgram_eq_some hprog
  rw [hscript, length_cons, length_cons]
  omega

/-- In every state of an unlocked wallet, a post-quantum output that `IsMine` calls spendable is
signed exactly if the stored key is of the scheme of its version and the program counts as true. -/
theorem isMine_signable_iff (W : WalletCrypto) (hcorrect : SigningCorrect W) (kind : SpkManKind)
    (disablePrivateKeys : Bool) (events : List WalletEvent) (man : LegacyScriptPubKeyMan)
    (hman : ((new W kind disablePrivateKeys).runEvents W events).1.wallet =
      some man.wallet)
    (hlocked : man.wallet.isLocked = false) (script : CScript) (version : ℕ) (program : Bytes)
    (hprog : CScript.isWitnessProgram script = some (version, program))
    (hpq : version = 2 ∨ version = 3) (hlen : program.length = 32)
    (hmine : man.isMine W script = .spendable) :
    (∀ (provider : SigningProvider) (coins : CoinMap) (s : SignState) (i : ℕ) (txin : CTxIn)
      (coin : Coin), s.tx.vin[i]? = some txin → coins txin.prevout = some coin →
      coin.isSpent = false → coin.out.scriptPubKey = script →
      ∃ s', man.wallet.signWithManager W provider coins sigHashDefault s = .ok s' ∧
        AcceptedAt W.toCrypto pqrSigningFlags s'.tx i coin.out) ↔
      (∃ key, man.wallet.getPQKey W (uint256OfBytes program) = some key ∧
        key.type.version = version) ∧ castToBool program = true := by
  have hgenerated := stateGenerated_runEvents W kind disablePrivateKeys events man.wallet hman
  have hhave := (isMine_program_iff hprog hpq hlen).mp hmine
  obtain ⟨key, hkey, hgen⟩ := hgenerated.getPQKey hlocked hhave
  obtain ⟨type, rfl⟩ : ∃ type : PqType, type.version = version := by
    rcases hpq with rfl | rfl
    · exact ⟨.mldsa, rfl⟩
    · exact ⟨.slhdsa, rfl⟩
  constructor
  · intro hsign
    have hsize := script_length_of_program hprog
    obtain ⟨s', hrun, haccepted⟩ := hsign ⟨fun _ _ _ _ _ => ([], [])⟩ (coinOf script hsize)
      unsignedSpend 0 _ _ rfl rfl rfl rfl
    obtain ⟨⟨key', hkey', htype⟩, htrue⟩ := unsignedSpend_accepted ⟨hprog, hlen⟩ hrun haccepted
    exact ⟨⟨key', hkey', congrArg PqType.version htype⟩, htrue⟩
  · rintro ⟨⟨key', hkey', hversion⟩, htrue⟩ provider coins s i txin coin hin hcoin hunspent hspk
    obtain rfl : key = key' := Option.some.inj (hkey.symm.trans hkey')
    have htype : key.type = type := by
      cases hk : key.type <;> cases ht : type <;> simp [hk, ht, PqType.version] at hversion ⊢
    have hout : PQOutput coin.out type program := ⟨by rw [hspk]; exact hprog, hlen⟩
    have hspent : spentOutput coins s.tx i = some coin.out := by
      simp [spentOutput, hin, CoinMap.unspent, hcoin, hunspent]
    obtain ⟨s₁, s', txdata, -, hrun, hpass⟩ :=
      signWithManager_default W man.wallet provider coins s
    exact ⟨s', hrun, hpass.accepted hcorrect hspent hout hkey htype hgen htrue⟩

def sampleNode (kind : SpkManKind) : WalletNode :=
  ((new sampleCrypto kind false).runEvents sampleCrypto
    [.run (.setHDSeed (sampleKey 1) 3),
      .run (.newDestination .slhdsa (sampleKey 2) 3 ⟨true, true, true, true, true⟩)]).1

def sampleProgram : Bytes := [0, 0, 0, 0, 3] ++ List.replicate 27 1

def sampleScript (version : UInt8) : CScript := (0x50 + version) :: 0x20 :: sampleProgram

theorem sampleCrypto_signs : SigningCorrect sampleCrypto := by
  intro type seed pubkey secret _ hash
  refine ⟨_, rfl, length_replicate, ?_⟩
  cases type <;> rfl

theorem sampleNode_wallet (kind : SpkManKind) :
    ∃ w, (sampleNode kind).wallet = some w ∧ w.isLocked = false ∧
    w.store.havePQKey (uint256OfBytes sampleProgram) = true ∧
    (w.getPQKey sampleCrypto (uint256OfBytes sampleProgram)).map (·.type) = some .slhdsa := by
  obtain ⟨w, hw⟩ : ∃ w, (sampleNode kind).wallet = some w :=
    isSome_iff_exists.mp (by cases kind <;> decide +kernel)
  have hall : (sampleNode kind).wallet.all (fun w => !w.isLocked &&
      w.store.havePQKey (uint256OfBytes sampleProgram) &&
      (w.getPQKey sampleCrypto (uint256OfBytes sampleProgram)).map (·.type) == some .slhdsa) =
        true := by
    cases kind <;> decide +kernel
  rw [hw] at hall
  simp only [all_some, Bool.and_eq_true, Bool.not_eq_true', beq_iff_eq] at hall
  exact ⟨w, hw, hall.1.1, hall.1.2, hall.2⟩

/-- The version 3 output of the key can be spent in any transaction. -/
theorem isMine_signable_slhdsa : ∃ w, (sampleNode .legacy).wallet = some w ∧
    ∀ (provider : SigningProvider) (coins : CoinMap) (s : SignState) (i : ℕ) (txin : CTxIn)
      (coin : Coin), s.tx.vin[i]? = some txin → coins txin.prevout = some coin →
      coin.isSpent = false → coin.out.scriptPubKey = sampleScript 3 →
      ∃ s', w.signWithManager sampleCrypto provider coins sigHashDefault s = .ok s' ∧
        AcceptedAt sampleCrypto.toCrypto pqrSigningFlags s'.tx i coin.out := by
  obtain ⟨w, hw, hlocked, hhave, htype⟩ := sampleNode_wallet .legacy
  have hprog : CScript.isWitnessProgram (sampleScript 3) = some (3, sampleProgram) := by decide
  obtain ⟨key, hkey, hkeytype⟩ := map_eq_some_iff.mp htype
  refine ⟨w, hw, (isMine_signable_iff sampleCrypto sampleCrypto_signs .legacy false _
    ⟨w, ⟨∅, ∅, ∅⟩⟩ hw hlocked _ 3 _ hprog (.inr rfl) rfl ?_).mpr
      ⟨⟨key, hkey, by rw [hkeytype]; rfl⟩, by decide⟩⟩
  exact (isMine_program_iff hprog (.inr rfl) rfl).mpr hhave

/-- The version 2 output of the hash is spendable, but signing it fails. -/
theorem isMine_unsignable : ∃ w, (sampleNode .legacy).wallet = some w ∧ w.isLocked = false ∧
    LegacyScriptPubKeyMan.isMine sampleCrypto ⟨w, ⟨∅, ∅, ∅⟩⟩ (sampleScript 2) = .spendable ∧
    ∀ provider s', w.signWithManager sampleCrypto provider (coinOf (sampleScript 2) (by decide))
        sigHashDefault unsignedSpend = .ok s' →
      ¬ AcceptedAt sampleCrypto.toCrypto pqrSigningFlags s'.tx 0
        ⟨0, sampleScript 2, by decide⟩ := by
  obtain ⟨w, hw, hlocked, hhave, htype⟩ := sampleNode_wallet .legacy
  have hprog : CScript.isWitnessProgram (sampleScript 2) = some (2, sampleProgram) := by decide
  refine ⟨w, hw, hlocked, (isMine_program_iff hprog (.inl rfl) rfl).mpr hhave,
    fun provider s' hrun haccepted => ?_⟩
  have hout : PQOutput ⟨0, sampleScript 2, by decide⟩ .mldsa sampleProgram := ⟨hprog, rfl⟩
  obtain ⟨⟨key, hkey, hmldsa⟩, -⟩ :=
    unsignedSpend_accepted hout hrun haccepted
  rw [hkey, map_some, hmldsa] at htype
  cases htype

end Vexta
