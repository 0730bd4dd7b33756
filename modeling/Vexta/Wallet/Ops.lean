import Vexta.Wallet.HdChain

/-! Wallet operations as database writes, each of which may be the last before a reload. -/
namespace Vexta
open Lib

def WalletDb.seedId (db : WalletDb) : CKeyID := db.hdChain.getD 0
def WalletDb.pqChain (db : WalletDb) : PQHDChain := db.pqHDChain.getD .null

section
variable (W : WalletCrypto)

def lockWallet : WalletStep := fun (w, db) =>
  if ¬ w.hasEncryptionKeys then (w, db) else ({ w with vMasterKey := none }, db)

def unlockWallet : WalletStep := fun (w, db) =>
  match w.masterKey with
  | none => (w, db)
  | some master =>
    if w.store.checkDecryptionKey W master true = .answer true then
      ({ w with vMasterKey := some master }, db)
    else (w, db)

def encryptTxn (master : MasterKey) : WalletStep := fun (w, db) =>
  if w.hasEncryptionKeys then (w, db)
  else match w.store.encrypt W master db.store with
    | none => (w, db)
    | some (store, records) =>
      unlockWallet W ({ w with store, masterKey := some master, vMasterKey := none },
        { db with store := records, masterKey := some master })

/-- `SetHDSeed(DeriveNewSeed(seed))`; the write after `written` throws. -/
def seedWrites (seed : CKey) (written : ℕ) : List WalletStep :=
  if written = 0 then [fun (w, db) => ((addSeedKey W seed (w, db)).1, db)]
  else (setHDSeed W seed).take written

def seedError : ℕ → Option String
  | 0 => some "DeriveNewSeed: AddKeyPubKey failed"
  | 1 => some "AddHDChain: writing chain failed"
  | 2 => some "SetHDSeed: writing post-quantum HD chain failed"
  | _ => none

def CWallet.seedsLazily (w : CWallet) : Bool :=
  w.kind == .descriptorPQ && !w.isHDEnabled && !w.isLocked && !w.disablePrivateKeys

def getNewPQDestination (w : CWallet) (db : WalletDb) (type : PqType) (seed : CKey)
    (written : ℕ) (steps : TxnSteps) : CWallet × WalletDb × Except String PqDestination :=
  if w.kind = .descriptorPQ ∧ ¬ w.isHDEnabled then
    if w.isLocked then
      (w, db, .error
        "Error: Please enter the wallet passphrase with walletpassphrase first.")
    else if w.disablePrivateKeys then
      (w, db, .error "Error: Unable to initialize post-quantum wallet seed")
    else
      let s := runSteps (seedWrites W seed written) (w, db)
      match seedError written with
      | some error => (s.1, s.2, .error error)
      | none => getNewDestination W s.1 s.2 type steps
  else getNewDestination W w db type steps

/-- The operations, with their keys and successful database steps. -/
inductive WalletOp
  | newDestination (type : PqType) (seed : CKey) (written : ℕ) (steps : TxnSteps)
  | setHDSeed (seed : CKey) (written : ℕ)
  | encryptWallet (master : MasterKey) (seed : CKey) (written : ℕ)
  /-- A key for the keypool, or an imported one. -/
  | addKey (key : CKey)
  | lock
  | unlock
  deriving DecidableEq

namespace WalletOp

/-- What callers ask before an operation; a new key is unknown. -/
def allowed (w : CWallet) : WalletOp → Bool
  | newDestination _ seed _ _ => !w.store.haveKey (W.keyID seed)
  | setHDSeed seed _ => !w.disablePrivateKeys && !w.isLocked && !w.store.haveKey (W.keyID seed)
  | encryptWallet _ seed _ =>
    !w.disablePrivateKeys && !w.hasEncryptionKeys && !w.store.haveKey (W.keyID seed)
  | addKey key => !w.disablePrivateKeys && !w.isLocked && !w.store.haveKey (W.keyID key)
  | lock => true
  | unlock => true

def keys : WalletOp → List CKey
  | newDestination _ seed _ _ => [seed]
  | setHDSeed seed _ => [seed]
  | encryptWallet _ seed _ => [seed]
  | addKey key => [key]
  | lock => []
  | unlock => []

/-- The seed put in, the writes before `SetHDSeed` and its successful ones. -/
def seeding (w : CWallet) : WalletOp → Option (CKey × ℕ × ℕ)
  | newDestination _ seed written _ => if w.seedsLazily then some (seed, 0, written) else none
  | setHDSeed seed written => some (seed, 0, written)
  -- encryption leaves the seed of a descriptor wallet's post-quantum keys
  | encryptWallet _ seed written =>
    if w.kind = .legacy ∧ w.isHDEnabled then some (seed, 1, written) else none
  | _ => none

def steps (w : CWallet) (op : WalletOp) : List WalletStep :=
  match op with
  | newDestination type seed written txn =>
    let last : WalletStep := fun s =>
      let r := getNewDestination W s.1 s.2 type txn
      (r.1, r.2.1)
    if w.seedsLazily then
      seedWrites W seed written ++ if (seedError written).isSome then [] else [last]
    else [last]
  | setHDSeed seed written => seedWrites W seed written
  | encryptWallet master seed written =>
    encryptTxn W master ::
      if w.kind = .legacy ∧ w.isHDEnabled then
        seedWrites W seed written ++ if (seedError written).isSome then [] else [lockWallet]
      else [lockWallet]
  | addKey key => [addSeedKey W key]
  | lock => [lockWallet]
  | unlock => [unlockWallet W]

def run (op : WalletOp) (s : CWallet × WalletDb) :
    (CWallet × WalletDb) × Option PqDestination :=
  match op with
  | newDestination type seed written txn =>
    let r := getNewPQDestination W s.1 s.2 type seed written txn
    ((r.1, r.2.1), r.2.2.toOption)
  | op => (runSteps (op.steps W s.1) s, none)

end WalletOp

structure WalletNode where
  kind : SpkManKind
  disablePrivateKeys : Bool
  db : WalletDb
  wallet : Option CWallet

/-- `run` completes an operation; `crash` stops after `n` writes, reloads. -/
inductive WalletEvent
  | run (op : WalletOp)
  | crash (op : WalletOp) (n : ℕ)

namespace WalletNode

def reload (node : WalletNode) (db : WalletDb) : WalletNode :=
  match loadWallet W node.kind node.disablePrivateKeys db with
  | .ok (w, db) => { node with db, wallet := some w }
  | .error _ => { node with db, wallet := none }

def new (kind : SpkManKind) (disablePrivateKeys : Bool) : WalletNode :=
  reload W ⟨kind, disablePrivateKeys, .new, none⟩ .new

def step (node : WalletNode) (event : WalletEvent) : WalletNode × Option PqDestination :=
  match node.wallet with
  | none => (node, none)
  | some w =>
    match event with
    | .run op =>
      if ¬ op.allowed W w then (node, none)
      else
        let r := op.run W (w, node.db)
        ({ node with db := r.1.2, wallet := some r.1.1 }, r.2)
    | .crash op n =>
      if ¬ op.allowed W w then (node, none)
      else (node.reload W (runSteps ((op.steps W w).take n) (w, node.db)).2, none)

def runEvents (node : WalletNode) : List WalletEvent → WalletNode × List PqDestination
  | [] => (node, [])
  | event :: events =>
    let r := node.step W event
    let rest := runEvents r.1 events
    (rest.1, r.2.toList ++ rest.2)

end WalletNode
end

section
variable (W : WalletCrypto) (w : CWallet) (db : WalletDb)

theorem unlockWallet_eq :
    ∃ v, unlockWallet W (w, db) = ({ w with vMasterKey := v }, db) := by
  unfold unlockWallet
  simp only
  split
  · exact ⟨w.vMasterKey, rfl⟩
  · split_ifs
    · exact ⟨_, rfl⟩
    · exact ⟨w.vMasterKey, rfl⟩

theorem lockWallet_eq :
    ∃ v, lockWallet (w, db) = ({ w with vMasterKey := v }, db) := by
  unfold lockWallet
  simp only
  split_ifs
  · exact ⟨none, rfl⟩
  · exact ⟨w.vMasterKey, rfl⟩

theorem KeyStore.erasePQKey_eq_iff {s : KeyStore} {keyId : Uint256} :
    s.erasePQKey keyId = s ↔ s.havePQKey keyId = false := by
  cases s
  simp [KeyStore.erasePQKey, KeyStore.havePQKey, Assoc.erase_eq_iff]

theorem addPQKey_erasePQKey (records : KeyStore) (data : PQKeyData) (writeKey : Bool) :
    (addPQKey W w records data writeKey).1.erasePQKey (W.sha256 data.pubkey) =
      w.store.erasePQKey (W.sha256 data.pubkey) := by
  unfold addPQKey KeyStore.erasePQKey
  cases w.vMasterKey <;> split_ifs <;> simp [Assoc.erase_insert]

theorem storeNewKey_cases (seed : CKey) (data : PQKeyData)
    (counter : ℕ) (txn : TxnSteps) :
    (txn.txnBegin = false ∧
      ∃ e, storeNewKey W w db seed data counter txn = (w, db, .error e)) ∨
    (txn.txnBegin = true ∧ ∃ e, storeNewKey W w db seed data counter txn =
      ({ w with store := w.store.erasePQKey (W.sha256 data.pubkey) }, db, .error e)) ∨
    ∃ records, (addPQKey W w db.store data txn.writeKey).2 = some records ∧
      db.pqKeyMetadata.lookup (W.sha256 data.pubkey) = none ∧
      storeNewKey W w db seed data counter txn =
        ({ w with
            store := (addPQKey W w db.store data txn.writeKey).1
            pqHDChain := w.pqHDChain.bump data.type
            mapPQKeyMetadata := w.mapPQKeyMetadata.insert (W.sha256 data.pubkey)
              ⟨W.keyID seed, data.type.keypath counter⟩ },
          { db with
            store := records
            pqKeyMetadata := db.pqKeyMetadata.insert (W.sha256 data.pubkey)
              ⟨W.keyID seed, data.type.keypath counter⟩
            pqHDChain := some (w.pqHDChain.bump data.type) },
          .ok ⟨data.type, W.sha256 data.pubkey⟩) := by
  unfold storeNewKey
  rw [← addPQKey_erasePQKey W w db.store data txn.writeKey]
  by_cases hbegin : txn.txnBegin = true
  · simp only [hbegin, not_true_eq_false, if_false]
    cases (addPQKey W w db.store data txn.writeKey).2 with
    | none => exact .inr (.inl ⟨trivial, _, rfl⟩)
    | some records =>
      by_cases hcommit : txn.writeMetadata = true ∧
          (db.pqKeyMetadata.lookup (W.sha256 data.pubkey)).isNone = true ∧
          txn.writeChain = true ∧ txn.txnCommit = true
      · simp only [if_neg (not_not.mpr hcommit)]
        exact .inr (.inr ⟨records, rfl, Option.isNone_iff_eq_none.mp hcommit.2.1, rfl⟩)
      · simp only [if_pos hcommit]
        exact .inr (.inl ⟨trivial, _, rfl⟩)
  · simp only [if_pos hbegin]
    exact .inl ⟨by simpa using hbegin, _, rfl⟩

structure DerivesKey (w : CWallet) (type : PqType) (seed : CKey) (data : PQKeyData) : Prop where
  unlocked : w.isLocked = false
  found : w.getKey W w.hdChain = some seed
  enabled : w.hdChain ≠ 0
  bound : w.pqHDChain.seedId = w.hdChain
  counter : w.pqHDChain.counter type ≠ uint32Max
  derived : derivePQKey W seed type (w.pqHDChain.counter type) = some data

theorem getNewDestination_cases (type : PqType) (txn : TxnSteps) :
    (∃ e, getNewDestination W w db type txn = (w, db, .error e)) ∨
    ∃ seed data, DerivesKey W w type seed data ∧ getNewDestination W w db type txn =
      storeNewKey W w db seed data (w.pqHDChain.counter type) txn := by
  unfold getNewDestination
  by_cases hdisabled : w.disablePrivateKeys = true
  · exact .inl ⟨_, if_pos hdisabled⟩
  by_cases hlocked : w.isLocked = true
  · simp only [if_neg hdisabled, if_pos hlocked]
    exact .inl ⟨_, rfl⟩
  by_cases hnull : w.hdChain = 0
  · simp only [if_neg hdisabled, if_neg hlocked, if_pos hnull]
    exact .inl ⟨_, rfl⟩
  simp only [if_neg hdisabled, if_neg hlocked, if_neg hnull]
  cases hseed : w.getKey W w.hdChain with
  | none => exact .inl ⟨_, rfl⟩
  | some seed =>
    by_cases hchain : w.pqHDChain.seedId = 0 ∨ w.pqHDChain.seedId ≠ w.hdChain
    · simp only [if_pos hchain]
      exact .inl ⟨_, rfl⟩
    by_cases hmax : w.pqHDChain.counter type = uint32Max
    · simp only [if_neg hchain, if_pos hmax]
      exact .inl ⟨_, rfl⟩
    simp only [if_neg hchain, if_neg hmax]
    cases hkey : derivePQKey W seed type (w.pqHDChain.counter type) with
    | none => exact .inl ⟨_, rfl⟩
    | some data =>
      rw [not_or, not_not] at hchain
      exact .inr ⟨seed, data,
        ⟨by simpa using hlocked, hseed, hnull, hchain.2, hmax, hkey⟩, rfl⟩

variable {W w}

theorem DerivesKey.getNewDestination_eq {type : PqType} {seed : CKey} {data : PQKeyData}
    (h : DerivesKey W w type seed data) (henabled : w.disablePrivateKeys = false) (txn : TxnSteps) :
    getNewDestination W w db type txn =
      storeNewKey W w db seed data (w.pqHDChain.counter type) txn := by
  have hne : w.hdChain ≠ 0#160 := h.enabled
  simp [getNewDestination, henabled, h.unlocked, hne, h.found, h.bound, h.counter, h.derived]

theorem derivePQKey_type {seed : CKey} {type : PqType} {n : ℕ} {data : PQKeyData}
    (h : derivePQKey W seed type n = some data) : data.type = type := by
  unfold derivePQKey at h
  obtain ⟨key, -, rfl⟩ := Option.map_eq_some_iff.mp h
  rfl

end

section
variable {W : WalletCrypto}

@[simp] theorem runSteps_nil (s : CWallet × WalletDb) : runSteps [] s = s := rfl

@[simp] theorem runSteps_cons (step : WalletStep) (l : List WalletStep) (s : CWallet × WalletDb) :
    runSteps (step :: l) s = runSteps l (step s) := rfl

theorem runSteps_append (l l' : List WalletStep) (s : CWallet × WalletDb) :
    runSteps (l ++ l') s = runSteps l' (runSteps l s) := by
  simp [runSteps]

theorem runSteps_induction {P : CWallet × WalletDb → Prop} {l : List WalletStep}
    (hstep : ∀ step ∈ l, ∀ s, P s → P (step s)) {s : CWallet × WalletDb} (h : P s) :
    P (runSteps l s) := by
  induction l generalizing s with
  | nil => exact h
  | cons step l ih =>
    have hhead : P (step s) := hstep step List.mem_cons_self s h
    exact ih (fun step' hmem => hstep step' (List.mem_cons_of_mem _ hmem)) hhead

theorem getNewDestination_locked {w : CWallet} (db : WalletDb) (type : PqType) (txn : TxnSteps)
    (h : w.isLocked = true ∨ w.disablePrivateKeys = true) :
    ∃ error, getNewDestination W w db type txn = (w, db, .error error) := by
  unfold getNewDestination
  by_cases hd : w.disablePrivateKeys = true
  · exact ⟨_, by rw [if_pos hd]⟩
  · rcases h with h | h
    · exact ⟨_, by rw [if_neg hd, if_pos h]⟩
    · exact absurd h hd

theorem getNewPQDestination_state (w : CWallet) (db : WalletDb) (type : PqType) (seed : CKey)
    (written : ℕ) (txn : TxnSteps) :
    ((getNewPQDestination W w db type seed written txn).1,
      (getNewPQDestination W w db type seed written txn).2.1) =
      runSteps ((WalletOp.newDestination type seed written txn).steps W w) (w, db) := by
  unfold getNewPQDestination WalletOp.steps
  by_cases hkind : w.kind = .descriptorPQ ∧ ¬ w.isHDEnabled
  · rw [if_pos hkind]
    by_cases hstop : w.isLocked = true ∨ w.disablePrivateKeys = true
    · have hlazy : w.seedsLazily = false := by
        rcases hstop with h | h <;> simp [CWallet.seedsLazily, h]
      obtain ⟨error, herror⟩ := getNewDestination_locked (W := W) db type txn hstop
      simp only [hlazy, Bool.false_eq_true, if_false, runSteps_cons, runSteps_nil, herror]
      split_ifs with h h'
      · rfl
      · rfl
      · exact absurd hstop (by simp [h, h'])
    · rw [not_or] at hstop
      have hlazy : w.seedsLazily = true := by
        simpa [CWallet.seedsLazily, hstop.1, hstop.2] using hkind
      simp only [if_neg hstop.1, if_neg hstop.2, hlazy, if_true]
      cases seedError written <;> simp [runSteps_append]
  · have hlazy : w.seedsLazily = false := by
      by_contra hne
      rw [Bool.not_eq_false] at hne
      simp only [CWallet.seedsLazily, Bool.and_eq_true, beq_iff_eq, Bool.not_eq_true'] at hne
      exact hkind ⟨hne.1.1.1, by simp [hne.1.1.2]⟩
    rw [if_neg hkind]
    simp [hlazy]

theorem WalletOp.run_state (op : WalletOp) (s : CWallet × WalletDb) :
    (op.run W s).1 = runSteps (op.steps W s.1) s := by
  cases op with
  | newDestination type seed written txn =>
    exact getNewPQDestination_state s.1 s.2 type seed written txn
  | _ => rfl

theorem WalletNode.step_cases (node : WalletNode) (event : WalletEvent) :
    (node.step W event).1 = node ∨ ∃ w, ∃ op : WalletOp, ∃ n s, node.wallet = some w ∧
      op.allowed W w = true ∧ runSteps ((op.steps W w).take n) (w, node.db) = s ∧
      ((node.step W event).1 = { node with db := s.2, wallet := some s.1 } ∨
        (node.step W event).1 = node.reload W s.2) := by
  unfold WalletNode.step
  cases hw : node.wallet with
  | none => exact .inl rfl
  | some w =>
    cases event with
    | run op =>
      dsimp only
      split_ifs with hallowed
      · refine .inr ⟨w, op, (op.steps W w).length, _, rfl, hallowed, ?_, .inl rfl⟩
        rw [List.take_length, WalletOp.run_state]
      · exact .inl rfl
    | crash op n =>
      dsimp only
      split_ifs with hallowed
      · exact .inr ⟨w, op, n, _, rfl, hallowed, rfl, .inr rfl⟩
      · exact .inl rfl

end
/-- `ReconcilePQHDChain`; `writeChain`: the database takes the chain. -/
def reconcileWriting (writeChain : Bool) (w : CWallet) (db : WalletDb) :
    CWallet × WalletDb × Except String Unit :=
  match reconciledPQHDChain w.hdChain w.pqHDChain (w.mapPQKeyMetadata.entries.map Sigma.snd) with
  | .error e => (w, db, .error e)
  | .ok chain =>
    if chain = w.pqHDChain then (w, db, .ok ())
    else if writeChain then
      ({ w with pqHDChain := chain }, { db with pqHDChain := some chain }, .ok ())
    else (w, db, .error "Failed to write reconciled post-quantum HD chain")

/-- At loading the chain is written. -/
theorem reconcilePQHDChain_eq (w : CWallet) (db : WalletDb) :
    reconcilePQHDChain w db = (reconcileWriting true w db).2.2.map fun _ =>
      ((reconcileWriting true w db).1, (reconcileWriting true w db).2.1) := by
  unfold reconcilePQHDChain reconcileWriting
  cases reconciledPQHDChain w.hdChain w.pqHDChain (w.mapPQKeyMetadata.entries.map Sigma.snd) with
  | error e => rfl
  | ok chain =>
    simp only [ok_bind, if_true]
    split_ifs <;> rfl

theorem reconcileWriting_cases (writeChain : Bool) (w : CWallet) (db : WalletDb) :
    (∃ e, reconcileWriting writeChain w db = (w, db, .error e)) ∨
    ∃ chain db', reconciledPQHDChain w.hdChain w.pqHDChain
        (w.mapPQKeyMetadata.entries.map Sigma.snd) = .ok chain ∧
      reconcileWriting writeChain w db = ({ w with pqHDChain := chain }, db', .ok ()) := by
  unfold reconcileWriting
  cases reconciledPQHDChain w.hdChain w.pqHDChain (w.mapPQKeyMetadata.entries.map Sigma.snd) with
  | error e => exact .inl ⟨e, rfl⟩
  | ok chain =>
    dsimp only
    split_ifs with hsame
    · subst hsame
      exact .inr ⟨_, db, rfl, rfl⟩
    · exact .inr ⟨chain, _, rfl, rfl⟩
    · exact .inl ⟨_, rfl⟩

def newDestinations (W : WalletCrypto) (calls : List (PqType × TxnSteps))
    (s : CWallet × WalletDb) : CWallet × WalletDb :=
  calls.foldl (fun s call =>
    let r := getNewDestination W s.1 s.2 call.1 call.2
    (r.1, r.2.1)) s

/-- The post-quantum keys are of one seed, with metadata the wallet wrote. -/
structure OneSeed (w : CWallet) : Prop where
  bound : w.pqHDChain.seedId = w.hdChain
  counters : ∀ t, w.pqHDChain.counter t ≤ uint32Max
  written : ∀ {keyId item}, w.mapPQKeyMetadata.lookup keyId = some item →
    WrittenFor w.hdChain item

theorem OneSeed.getNewDestination {W : WalletCrypto} {w : CWallet} (h : OneSeed w) (db : WalletDb)
    (type : PqType) (txn : TxnSteps) : OneSeed (getNewDestination W w db type txn).1 := by
  rcases getNewDestination_cases W w db type txn with ⟨e, heq⟩ | ⟨seed, data, hkey, heq⟩
  · rw [heq]
    exact h
  rw [heq]
  rcases storeNewKey_cases W w db seed data (w.pqHDChain.counter type) txn with
    ⟨-, e, heq⟩ | ⟨-, e, heq⟩ | ⟨records, -, -, heq⟩
  · rw [heq]
    exact h
  · rw [heq]
    exact ⟨h.bound, h.counters, h.written⟩
  · have htype := derivePQKey_type hkey.derived
    subst htype
    have hlt := lt_of_le_of_ne (h.counters data.type) hkey.counter
    rw [heq]
    refine ⟨(PQHDChain.bump_seedId _ _).trans hkey.bound, fun t => ?_, ?_⟩
    · rw [PQHDChain.counter_bump]
      split_ifs with ht
      · exact ht ▸ hlt
      · exact h.counters t
    · intro keyId item hlookup
      rcases Assoc.lookup_insert_cases hlookup with ⟨-, rfl⟩ | hold
      · exact fun _ => ⟨data.type, _, hlt, rfl⟩
      · exact h.written hold

theorem OneSeed.reconciles {w : CWallet} (h : OneSeed w) (db : WalletDb) :
    (reconcileWriting true w db).2.2 = .ok () := by
  have hwritten : ∀ item ∈ w.mapPQKeyMetadata.entries.map Sigma.snd, WrittenFor w.hdChain item := by
    intro item hitem
    obtain ⟨⟨keyId, item⟩, hmem, rfl⟩ := List.mem_map.mp hitem
    exact h.written (Assoc.lookup_eq_some_iff.mpr hmem)
  obtain ⟨scan, hscan, -⟩ := foldlM_scanStep hwritten ⟨0, 0, false⟩ fun t => by
    cases t <;> exact Nat.zero_le _
  have hok : ∃ chain, reconciledPQHDChain w.hdChain w.pqHDChain
      (w.mapPQKeyMetadata.entries.map Sigma.snd) = .ok chain := by
    unfold reconciledPQHDChain scanPQMetadata
    rw [hscan, ok_bind]
    split_ifs with _ hzero hne
    · exact ⟨_, rfl⟩
    · exact ⟨_, rfl⟩
    · exact absurd h.bound hne
    · exact absurd h.bound hne
    · exact ⟨_, rfl⟩
  obtain ⟨chain, hchain⟩ := hok
  unfold reconcileWriting
  rw [hchain]
  dsimp only
  rw [if_pos rfl]
  split_ifs <;> rfl

/-- Reconciling twice changes nothing. A success binds the chain to the active seed, past the
indices in the metadata; a failure changes nothing, and does not come after calls of
`GetNewDestination` alone. -/
theorem reconcilePQHDChain_sound (w : CWallet) (db : WalletDb) (writeChain : Bool) :
    let r := reconcileWriting writeChain w db
    reconcileWriting writeChain r.1 r.2.1 = r ∧
    (r.2.2 = .ok () → w.hdChain ≠ 0 → r.1.pqHDChain.seedId = w.hdChain ∧
      (∀ keyId item, w.mapPQKeyMetadata.lookup keyId = some item → item.hdSeedId = w.hdChain →
        ∀ type n, item.Records type n → n < r.1.pqHDChain.counter type) ∧
      (w.pqHDChain.seedId = w.hdChain → ∀ t, w.pqHDChain.counter t ≤ r.1.pqHDChain.counter t)) ∧
    (∀ e, r.2.2 = .error e → r.1 = w) ∧
    ∀ W calls, w.mapPQKeyMetadata = ∅ → w.pqHDChain.seedId = w.hdChain →
      (∀ t, w.pqHDChain.counter t ≤ uint32Max) →
      let s := newDestinations W calls (w, db)
      (reconcileWriting true s.1 s.2).2.2 = .ok () := by
  have hcalls : ∀ W calls, w.mapPQKeyMetadata = ∅ → w.pqHDChain.seedId = w.hdChain →
      (∀ t, w.pqHDChain.counter t ≤ uint32Max) → OneSeed (newDestinations W calls (w, db)).1 := by
    intro W calls hempty hbound hcounters
    have hstart : OneSeed w := ⟨hbound, hcounters, by simp [hempty]⟩
    exact List.foldlRecOn (motive := fun s : CWallet × WalletDb => OneSeed s.1) calls _ hstart
      fun s h call _ => h.getNewDestination s.2 call.1 call.2
  intro r
  rcases reconcileWriting_cases writeChain w db with ⟨e, heq⟩ | ⟨chain, db', hchain, heq⟩
  · have hr : r = (w, db, .error e) := heq
    rw [hr]
    exact ⟨heq, fun h => (by cases h), fun _ _ => rfl, fun W calls h₁ h₂ h₃ =>
      (hcalls W calls h₁ h₂ h₃).reconciles _⟩
  · have hr : r = ({ w with pqHDChain := chain }, db', .ok ()) := heq
    rw [hr]
    refine ⟨?_, fun _ hne => ?_, fun e h => (by cases h), fun W calls h₁ h₂ h₃ =>
      (hcalls W calls h₁ h₂ h₃).reconciles _⟩
    · simp only [reconcileWriting, reconciledPQHDChain_idem hchain, if_true]
    · obtain ⟨scan, hscan, hseed, hle, hkept⟩ := reconciledPQHDChain_eq_ok hchain hne
      refine ⟨hseed, fun keyId item hitem hactive type n hrecords => ?_, hkept⟩
      have hmem : item ∈ w.mapPQKeyMetadata.entries.map Sigma.snd :=
        List.mem_map.mpr ⟨_, Assoc.lookup_eq_some_iff.mp hitem, rfl⟩
      exact ((foldlM_scanStep_eq_ok hscan).2 item hmem hactive type n hrecords).trans_le (hle type)

/-- The chain record was lost; a key at index 3 is left. -/
theorem reconcilePQHDChain_restores :
    let item : CKeyMetadata := ⟨5, PqType.mldsa.keypath 3⟩
    let w : CWallet := ⟨.legacy, false, .empty, (∅ : Assoc _ _).insert 9 item, 5, .null, none, none⟩
    let r := reconcileWriting true w .new
    r.2.2 = .ok () ∧ r.1.pqHDChain.seedId = 5 ∧ 3 < r.1.pqHDChain.counter .mldsa := by
  intro item w r
  have hok : r.2.2 = .ok () := by decide +kernel
  obtain ⟨hseed, habove, -⟩ := (reconcilePQHDChain_sound w .new true).2.1 hok (by decide)
  have hrecords := records_keypath 5 .mldsa (show 3 ≤ uint32Max by decide)
  exact ⟨hok, hseed, habove 9 item (AList.lookup_insert _) rfl .mldsa 3 hrecords⟩

end Vexta
