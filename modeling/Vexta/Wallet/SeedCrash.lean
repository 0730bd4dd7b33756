import Vexta.Wallet.ChainInv

/-! Where a wallet may stop while it replaces its seed, and what loading it again finds. -/
namespace Vexta
open Lib List Bool WalletOp WalletNode KeyStore

section Run
variable {W : WalletCrypto} {w : CWallet} {db : WalletDb}

/-- The state after `done` of the three writes of `SetHDSeed`. -/
structure SeedCut (W : WalletCrypto) (db : WalletDb) (seed : CKey) (done : ℕ)
    (s : CWallet × WalletDb) : Prop where
  inv : WalletInv W s
  seedId : s.2.seedId = if done < 2 then db.seedId else W.keyID seed
  pqSeedId : s.2.pqChain.seedId = if done < 3 then db.pqChain.seedId else W.keyID seed

variable {seed : CKey} {l : List WalletStep}

theorem take_seedWrites_cut (h : WalletInv W (w, db)) (hlocked : w.isLocked = false)
    (hfresh : w.store.haveKey (W.keyID seed) = false) (written n : ℕ) :
    SeedCut W db seed (min n written)
      (runSteps ((seedWrites W seed written).take n) (w, db)) := by
  by_cases hn : n = 0
  · subst hn
    rw [Nat.zero_min]
    exact ⟨h, rfl, rfl⟩
  · rw [take_seedWrites seed written hn]
    obtain ⟨hseed, hpq⟩ := seedWrites_chains h hlocked seed (min n written)
    exact ⟨seedWrites_inv h hlocked hfresh _, hseed, hpq⟩

theorem runSteps_kept {s : CWallet × WalletDb} (h : WalletInv W s)
    (hl : ∀ step ∈ l, ∀ s, WalletInv W s → SeedsKept W s.2 (step s)) :
    SeedsKept W s.2 (runSteps l s) := by
  refine runSteps_induction (P := SeedsKept W s.2) (fun step hstep s' hs => ?_) ⟨h, rfl, rfl⟩
  have hkept := hl step hstep s' hs.inv
  exact ⟨hkept.inv, hkept.seedId.trans hs.seedId, hkept.pqSeedId.trans hs.pqSeedId⟩

theorem take_seedWrites_append_cut (h : WalletInv W (w, db)) (hlocked : w.isLocked = false)
    (hfresh : w.store.haveKey (W.keyID seed) = false) (written n : ℕ)
    (hl : ∀ step ∈ l, ∀ s, WalletInv W s → SeedsKept W s.2 (step s)) :
    SeedCut W db seed (min n written)
      (runSteps ((seedWrites W seed written ++ l).take n) (w, db)) := by
  rw [take_append, runSteps_append]
  have hcut := take_seedWrites_cut h hlocked hfresh written n
  have hkept := runSteps_kept hcut.inv fun step hstep =>
    hl step (mem_of_mem_take (i := n - (seedWrites W seed written).length) hstep)
  exact ⟨hkept.inv, hkept.seedId.trans hcut.seedId, hkept.pqSeedId.trans hcut.pqSeedId⟩

theorem seedsLazily_unlocked (h : w.seedsLazily = true) : w.isLocked = false := by
  simp only [CWallet.seedsLazily, and_eq_true, not_eq_true'] at h
  exact h.1.2

theorem lockWallet_kept (hl : l ⊆ [lockWallet]) :
    ∀ step ∈ l, ∀ s, WalletInv W s → SeedsKept W s.2 (step s) := by
  intro step hstep s hs
  rw [mem_singleton.mp (hl hstep)]
  exact lockWallet_inv hs

theorem ite_nil_subset {α : Type} (c : Prop) [Decidable c] (l : List α) :
    (if c then [] else l) ⊆ l := by
  split_ifs
  · exact nil_subset l
  · exact .refl l

theorem WalletOp.steps_cut (op : WalletOp) (h : WalletInv W (w, db))
    (hallowed : op.allowed W w = true) {before written : ℕ}
    (hseeding : op.seeding w = some (seed, before, written)) (n : ℕ) :
    SeedCut W db seed (min (n - before) written)
      (runSteps ((op.steps W w).take n) (w, db)) := by
  cases op with
  | newDestination type seed' written' txn =>
    simp only [seeding] at hseeding
    split_ifs at hseeding with hlazy
    obtain ⟨rfl, rfl, rfl⟩ : seed' = seed ∧ 0 = before ∧ written' = written := by
      simpa using hseeding
    have hfresh : w.store.haveKey (W.keyID seed') = false := by
      simpa [allowed] using hallowed
    simp only [steps, if_pos hlazy]
    apply take_seedWrites_append_cut h (seedsLazily_unlocked hlazy) hfresh
    intro step hstep s hs
    rw [mem_singleton.mp (ite_nil_subset _ _ hstep)]
    exact getNewDestination_inv hs type txn
  | setHDSeed seed' written' =>
    obtain ⟨rfl, rfl, rfl⟩ : seed' = seed ∧ 0 = before ∧ written' = written := by
      simpa [seeding] using hseeding
    simp only [allowed, and_eq_true, not_eq_true'] at hallowed
    exact take_seedWrites_cut h hallowed.1.2 hallowed.2 written' n
  | encryptWallet master seed' written' =>
    simp only [seeding] at hseeding
    split_ifs at hseeding with hlegacy
    obtain ⟨rfl, rfl, rfl⟩ : seed' = seed ∧ 1 = before ∧ written' = written := by
      simpa using hseeding
    simp only [allowed, and_eq_true, not_eq_true'] at hallowed
    have henc := encryptTxn_encrypted h (hasEncryptionKeys_eq_false.mp hallowed.1.2) master
    simp only [steps, if_pos hlegacy]
    cases n with
    | zero =>
      rw [Nat.zero_sub, Nat.zero_min]
      exact ⟨h, rfl, rfl⟩
    | succ n =>
      rw [take_succ_cons, runSteps_cons, Nat.add_sub_cancel]
      obtain ⟨⟨w', db'⟩, hs'⟩ : ∃ s', encryptTxn W master (w, db) = s' := ⟨_, rfl⟩
      rw [hs'] at henc ⊢
      have hcut := take_seedWrites_append_cut henc.inv henc.unlocked
        ((henc.haveKey _).trans hallowed.2) written' n
        (lockWallet_kept (ite_nil_subset (seedError written').isSome _))
      have hseed : db'.seedId = db.seedId := henc.seedId
      have hpq : db'.pqChain = db.pqChain := henc.pqChain
      exact ⟨hcut.inv, hseed ▸ hcut.seedId, hpq ▸ hcut.pqSeedId⟩
  | addKey key => cases hseeding
  | lock => cases hseeding
  | unlock => cases hseeding

theorem WalletOp.steps_kept (op : WalletOp) (h : WalletInv W (w, db))
    (hallowed : op.allowed W w = true) (hseeding : op.seeding w = none) (n : ℕ) :
    SeedsKept W db (runSteps ((op.steps W w).take n) (w, db)) := by
  cases op with
  | newDestination type seed written txn =>
    simp only [seeding] at hseeding
    split_ifs at hseeding with hlazy
    simp only [steps, if_neg hlazy]
    refine runSteps_kept h fun step hstep s hs => ?_
    rw [mem_singleton.mp (mem_of_mem_take hstep)]
    exact getNewDestination_inv hs type txn
  | setHDSeed seed written => cases hseeding
  | encryptWallet master seed written =>
    simp only [seeding] at hseeding
    split_ifs at hseeding with hlegacy
    simp only [allowed, and_eq_true, not_eq_true'] at hallowed
    have henc := encryptTxn_encrypted h (hasEncryptionKeys_eq_false.mp hallowed.1.2) master
    simp only [steps, if_neg hlegacy]
    cases n with
    | zero => exact ⟨h, rfl, rfl⟩
    | succ n =>
      have hkept := runSteps_kept henc.inv (lockWallet_kept (take_subset n [lockWallet]))
      exact ⟨hkept.inv, hkept.seedId.trans henc.seedId,
        hkept.pqSeedId.trans (congrArg _ henc.pqChain)⟩
  | addKey key =>
    simp only [allowed, and_eq_true, not_eq_true'] at hallowed
    have hcut := take_seedWrites_cut h hallowed.1.2 hallowed.2 1 n
    exact ⟨hcut.inv, hcut.seedId.trans (if_pos (by omega)), hcut.pqSeedId.trans (if_pos (by omega))⟩
  | lock => exact runSteps_kept h (lockWallet_kept (take_subset n [lockWallet]))
  | unlock =>
    refine runSteps_kept h fun step hstep s hs => ?_
    rw [mem_singleton.mp (mem_of_mem_take hstep)]
    obtain ⟨v, heq⟩ := unlockWallet_eq W s.1 s.2
    exact ⟨unlockWallet_inv hs, by rw [heq], by rw [heq]⟩

/-- A property of wallet and database that the steps of every operation keep. -/
structure StepsKeep (W : WalletCrypto) (S : Set CKey) (P : CWallet × WalletDb → Prop) : Prop where
  inv : ∀ {s}, P s → WalletInv W s
  seed : ∀ {w db seed}, P (w, db) → w.isLocked = false →
    w.store.haveKey (W.keyID seed) = false → seed ∈ S →
      ∀ written, P (runSteps (seedWrites W seed written) (w, db))
  newKey : ∀ {s} type txn, P s →
    P ((getNewDestination W s.1 s.2 type txn).1, (getNewDestination W s.1 s.2 type txn).2.1)
  encrypt : ∀ {w db} m, P (w, db) → w.masterKey = none → P (encryptTxn W m (w, db))
  lock : ∀ {s}, P s → P (lockWallet s)
  unlock : ∀ {s}, P s → P (unlockWallet W s)

section Keep
variable {S : Set CKey} {P : CWallet × WalletDb → Prop}

theorem StepsKeep.take_append (h : StepsKeep W S P) (hP : P (w, db))
    (hlocked : w.isLocked = false) {seed : CKey}
    (hfresh : w.store.haveKey (W.keyID seed) = false) (hS : seed ∈ S) (written n : ℕ)
    {l : List WalletStep} (hl : ∀ step ∈ l, ∀ s, P s → P (step s)) :
    P (runSteps ((seedWrites W seed written ++ l).take n) (w, db)) := by
  rw [List.take_append, runSteps_append]
  apply runSteps_induction (P := P)
  · intro step hstep
    exact hl step (mem_of_mem_take hstep)
  · by_cases hn : n = 0
    · rw [hn]
      exact hP
    · rw [take_seedWrites seed written hn]
      exact h.seed hP hlocked hfresh hS _

theorem StepsKeep.steps (h : StepsKeep W S P) (op : WalletOp) (hP : P (w, db))
    (hallowed : op.allowed W w = true) (hkeys : ∀ key ∈ op.keys, key ∈ S) (n : ℕ) :
    P (runSteps ((op.steps W w).take n) (w, db)) := by
  have hstep : ∀ {step : WalletStep} {s}, (∀ s, P s → P (step s)) → P s →
      P (runSteps ([step].take n) s) := by
    intro step s hstep hs
    apply runSteps_induction (P := P) _ hs
    intro step' hmem
    rw [mem_singleton.mp (mem_of_mem_take hmem)]
    exact hstep
  have hsingle : ∀ {c : Prop} [Decidable c] {step : WalletStep}, (∀ s, P s → P (step s)) →
      ∀ step' ∈ (if c then [] else [step]), ∀ s, P s → P (step' s) := by
    intro c _ step hstep step' hmem
    rw [mem_singleton.mp (ite_nil_subset _ _ hmem)]
    exact hstep
  cases op with
  | newDestination type seed written txn =>
    have hlast : ∀ s, P s → P
        ((getNewDestination W s.1 s.2 type txn).1, (getNewDestination W s.1 s.2 type txn).2.1) :=
      fun s hs => h.newKey type txn hs
    have hfresh : w.store.haveKey (W.keyID seed) = false := by
      simpa [WalletOp.allowed] using hallowed
    by_cases hlazy : w.seedsLazily = true
    · simp only [WalletOp.steps, if_pos hlazy]
      exact h.take_append hP (seedsLazily_unlocked hlazy) hfresh (hkeys seed (by simp [WalletOp.keys]))
        written n (hsingle hlast)
    · simp only [WalletOp.steps, if_neg hlazy]
      exact hstep hlast hP
  | setHDSeed seed written =>
    simp only [WalletOp.allowed, and_eq_true, not_eq_true'] at hallowed
    have htake := h.take_append hP hallowed.1.2 hallowed.2 (hkeys seed (by simp [WalletOp.keys])) written n
      (l := []) (by simp)
    rwa [append_nil] at htake
  | encryptWallet master seed written =>
    simp only [allowed, and_eq_true, not_eq_true'] at hallowed
    have hm := hasEncryptionKeys_eq_false.mp hallowed.1.2
    have henc := encryptTxn_encrypted (h.inv hP) hm master
    have hP' := h.encrypt master hP hm
    unfold WalletOp.steps
    cases n with
    | zero => exact hP
    | succ n =>
      rw [take_succ_cons, runSteps_cons]
      obtain ⟨⟨w', db'⟩, hs'⟩ : ∃ s', encryptTxn W master (w, db) = s' := ⟨_, rfl⟩
      rw [hs'] at henc hP' ⊢
      by_cases hseed : w.kind = .legacy ∧ w.isHDEnabled = true
      · rw [if_pos hseed]
        exact h.take_append hP' henc.unlocked ((henc.haveKey _).trans hallowed.2)
          (hkeys seed (by simp [WalletOp.keys])) written n (hsingle fun s hs => h.lock hs)
      · rw [if_neg hseed]
        apply runSteps_induction (P := P) _ hP'
        intro step hmem
        rw [mem_singleton.mp (mem_of_mem_take hmem)]
        exact fun s hs => h.lock hs
  | addKey key =>
    simp only [WalletOp.allowed, and_eq_true, not_eq_true'] at hallowed
    have htake := h.take_append hP hallowed.1.2 hallowed.2 (hkeys key (by simp [WalletOp.keys])) 1 n
      (l := []) (by simp)
    rwa [append_nil] at htake
  | lock => exact hstep (fun s hs => h.lock hs) hP
  | unlock => exact hstep (fun s hs => h.unlock hs) hP

end Keep

theorem walletInv_keep (W : WalletCrypto) : StepsKeep W Set.univ (WalletInv W) where
  inv h := h
  seed h hlocked hfresh _ written := seedWrites_inv h hlocked hfresh written
  newKey type txn h := (getNewDestination_inv h type txn).inv
  encrypt m h hm := (encryptTxn_encrypted h hm m).inv
  lock h := (lockWallet_inv h).inv
  unlock h := unlockWallet_inv h

/-- The wallet, if one is loaded, has the property together with the records. -/
def WalletNode.Has (P : CWallet × WalletDb → Prop) (node : WalletNode) : Prop :=
  ∀ w, node.wallet = some w → P (w, node.db)

variable {node : WalletNode} {seed : CKey}

theorem StepsKeep.runEvents {P : CWallet × WalletDb → Prop} (h : StepsKeep W Set.univ P)
    (hreload : ∀ s, P s → ∀ node : WalletNode, (node.reload W s.2).Has P) (hP : node.Has P)
    (events : List WalletEvent) : (node.runEvents W events).1.Has P := by
  have hstep : ∀ node : WalletNode, node.Has P → ∀ event, (node.step W event).1.Has P := by
    intro node hP event
    rcases node.step_cases event with heq | ⟨w, op, n, s, hw, hallowed, rfl, heq | heq⟩
    · rwa [heq]
    · rw [heq]
      intro w' hw'
      rw [← Option.some.inj hw']
      exact h.steps op (hP w hw) hallowed (by simp) n
    · rw [heq]
      exact hreload _ (h.steps op (hP w hw) hallowed (by simp) n) node
  induction events generalizing node with
  | nil => exact hP
  | cons event events ih => exact ih (hstep node hP event)

/-- The invariants of the records, and of the wallet in memory if one is loaded. -/
structure NodeInv (W : WalletCrypto) (node : WalletNode) : Prop where
  db : DbInv W node.db
  mem : ∀ w, node.wallet = some w → MemInv W w node.db

theorem DbInv.reload (h : DbInv W db) (node : WalletNode) : NodeInv W (node.reload W db) := by
  unfold WalletNode.reload
  by_cases hagree : ChainsAgree db
  · obtain ⟨chain, hchain, heq⟩ := h.loadWallet_ok hagree node.kind node.disablePrivateKeys
    rw [heq]
    refine ⟨h.withChain hchain, fun w hw => ?_⟩
    rw [← Option.some.inj hw]
    exact h.ofDb _ _ chain
  · rw [h.loadWallet_error hagree]
    exact ⟨h, fun w hw => by cases hw⟩

theorem dbInv_new (W : WalletCrypto) : DbInv W .new where
  store := ⟨⟨by simp [WalletDb.new, empty], by simp [WalletDb.new, empty],
    by simp [WalletDb.new, empty]⟩, by simp [WalletDb.new, empty]⟩
  plain _ := ⟨fun _ => rfl, fun _ => rfl⟩
  written hlookup := by cases hlookup
  known hlookup := by cases hlookup
  active hlookup := by cases hlookup
  seedKnown hne := absurd rfl hne
  pqSeedKnown hne := absurd rfl hne
  counters t := by cases t <;> exact Nat.zero_le _

theorem NodeInv.step (h : NodeInv W node) (event : WalletEvent) :
    NodeInv W (node.step W event).1 := by
  rcases node.step_cases event with heq | ⟨w, op, n, s, hw, hallowed, rfl, heq⟩
  · rwa [heq]
  · have hinv := (walletInv_keep W).steps op ⟨h.db, h.mem w hw⟩ hallowed (by simp) n
    rcases heq with heq | heq
    · rw [heq]
      refine ⟨hinv.db, fun w' hw' => ?_⟩
      rw [← Option.some.inj hw']
      exact hinv.mem
    · rw [heq]
      exact hinv.db.reload node

theorem NodeInv.runEvents (h : NodeInv W node) (events : List WalletEvent) :
    NodeInv W (node.runEvents W events).1 := by
  induction events generalizing node with
  | nil => exact h
  | cons event events ih => exact ih (h.step event)

theorem nodeInv_new (W : WalletCrypto) (kind : SpkManKind) (disablePrivateKeys : Bool)
    (events : List WalletEvent) :
    NodeInv W ((new W kind disablePrivateKeys).runEvents W events).1 :=
  ((dbInv_new W).reload _).runEvents events

/-- The post-quantum chain is of the active seed, or there is no seed. -/
def CWallet.PQBound (w : CWallet) : Prop := w.hdChain = 0 ∨ w.pqHDChain.seedId = w.hdChain

theorem DbInv.reload_iff (h : DbInv W db) (node : WalletNode) :
    (∃ w, (node.reload W db).wallet = some w ∧ w.PQBound) ↔ ChainsAgree db := by
  unfold WalletNode.reload
  constructor
  · rintro ⟨w, hw, -⟩
    by_contra hagree
    rw [h.loadWallet_error hagree] at hw
    cases hw
  · intro hagree
    obtain ⟨chain, hchain, heq⟩ := h.loadWallet_ok hagree node.kind node.disablePrivateKeys
    rw [heq]
    refine ⟨_, rfl, ?_⟩
    by_cases hnull : db.seedId = 0
    · exact .inl hnull
    · exact .inr (hchain.bound hnull)

theorem SeedCut.agree_iff {done : ℕ} {s : CWallet × WalletDb} (h : SeedCut W db seed done s)
    (hold : db.pqChain.seedId = W.keyID seed → W.keyID seed = 0) :
    ChainsAgree s.2 ↔
      (done = 2 → W.keyID seed = 0 ∨ db.pqChain.seedId = 0) ∧ (done < 2 → ChainsAgree db) := by
  unfold ChainsAgree
  rw [h.seedId, h.pqSeedId]
  rcases lt_trichotomy done 2 with hlt | rfl | hgt
  · rw [if_pos hlt, if_pos (by omega)]
    constructor
    · exact fun hagree => ⟨fun heq => absurd heq (by omega), fun _ => hagree⟩
    · exact fun hagree => hagree.2 hlt
  · rw [if_neg (by omega), if_pos (by omega)]
    constructor
    · intro hagree
      refine ⟨fun _ => ?_, fun hlt => absurd hlt (by omega)⟩
      rcases hagree with hnull | hzero | heq
      · exact .inl hnull
      · exact .inr hzero
      · exact .inl (hold heq)
    · intro hagree
      rcases hagree.1 rfl with hnull | hzero
      · exact .inl hnull
      · exact .inr (.inl hzero)
  · rw [if_neg (by omega), if_neg (by omega)]
    constructor
    · exact fun _ => ⟨fun heq => absurd heq (by omega), fun hlt => absurd hlt (by omega)⟩
    · exact fun _ => .inr (.inr rfl)

theorem WalletOp.seeding_fresh (op : WalletOp) (hallowed : op.allowed W w = true)
    {before written : ℕ} (hseeding : op.seeding w = some (seed, before, written)) :
    w.store.haveKey (W.keyID seed) = false := by
  cases op with
  | newDestination type seed' written' txn =>
    simp only [seeding] at hseeding
    split_ifs at hseeding
    rw [Option.some.injEq, Prod.mk.injEq] at hseeding
    simpa [allowed, hseeding.1] using hallowed
  | setHDSeed seed' written' =>
    simp only [seeding, Option.some.injEq, Prod.mk.injEq] at hseeding
    simp only [allowed, hseeding.1, and_eq_true, not_eq_true'] at hallowed
    exact hallowed.2
  | encryptWallet master seed' written' =>
    simp only [seeding] at hseeding
    split_ifs at hseeding
    rw [Option.some.injEq, Prod.mk.injEq] at hseeding
    simp only [allowed, hseeding.1, and_eq_true, not_eq_true'] at hallowed
    exact hallowed.2
  | addKey key => cases hseeding
  | lock => cases hseeding
  | unlock => cases hseeding

theorem WalletOp.seeding_new (op : WalletOp) (h : WalletInv W (w, db))
    (hallowed : op.allowed W w = true) {before written : ℕ}
    (hseeding : op.seeding w = some (seed, before, written)) :
    db.pqChain.seedId = W.keyID seed → W.keyID seed = 0 := by
  intro heq
  by_contra hne
  have hheld := h.mem.haveKey (h.db.pqSeedKnown (heq ▸ hne))
  rw [heq, op.seeding_fresh hallowed hseeding] at hheld
  cases hheld

/-- The process stops in an operation that replaces the seed, and the wallet is loaded again. That
succeeds, with the post-quantum chain bound to the active seed, unless the chain had a seed before
and the stop, or an earlier exception, was between the writes of the new seed and of the chain. -/
theorem crash_setHDSeed_reload_iff (kind : SpkManKind) (disablePrivateKeys : Bool)
    (events : List WalletEvent)
    (hw : ((new W kind disablePrivateKeys).runEvents W events).1.wallet = some w)
    (op : WalletOp) (hallowed : op.allowed W w = true) {seed : CKey} {before written : ℕ}
    (hseeding : op.seeding w = some (seed, before, written)) (n : ℕ) :
    (∃ w', (((new W kind disablePrivateKeys).runEvents W events).1.step W
        (.crash op n)).1.wallet = some w' ∧ w'.PQBound) ↔
      (min (n - before) written = 2 → W.keyID seed = 0 ∨ w.pqHDChain.seedId = 0) ∧
        (min (n - before) written < 2 →
          ChainsAgree ((new W kind disablePrivateKeys).runEvents W events).1.db) := by
  have hnode := nodeInv_new W kind disablePrivateKeys events
  generalize ((new W kind disablePrivateKeys).runEvents W events).1 = node at hw hnode ⊢
  have hinv : WalletInv W (w, node.db) := ⟨hnode.db, hnode.mem w hw⟩
  have hcut := op.steps_cut hinv hallowed hseeding n
  have hold := op.seeding_new hinv hallowed hseeding
  have hpq : w.pqHDChain = node.db.pqChain := hinv.mem.pqHDChain
  have hstep : (node.step W (.crash op n)).1 =
      node.reload W (runSteps ((op.steps W w).take n) (w, node.db)).2 := by
    simp only [step, hw, hallowed, not_true_eq_false, if_false]
  rw [hstep, hcut.inv.db.reload_iff node, hcut.agree_iff hold, hpq]

theorem DbInv.reload_agree (h : DbInv W db) (node : WalletNode) :
    ChainsAgree (node.reload W db).db ↔ ChainsAgree db := by
  unfold WalletNode.reload
  by_cases hagree : ChainsAgree db
  · obtain ⟨chain, hchain, heq⟩ := h.loadWallet_ok hagree node.kind node.disablePrivateKeys
    rw [heq]
    refine iff_of_true (?_ : ChainsAgree (db.withChain chain)) hagree
    unfold ChainsAgree
    rw [WalletDb.withChain_seedId, WalletDb.withChain_pqChain]
    by_cases hnull : db.seedId = 0
    · exact .inl hnull
    · exact .inr (.inr (hchain.bound hnull))
  · rw [h.loadWallet_error hagree]

/-- The seed an event puts in, and how many of the writes of `SetHDSeed` it makes. -/
def WalletEvent.chainWrites (w : CWallet) : WalletEvent → Option (CKey × ℕ)
  | .run op => (op.seeding w).map fun (seed, _, written) => (seed, written)
  | .crash op n =>
    (op.seeding w).map fun (seed, before, written) => (seed, min (n - before) written)

def WalletEvent.op : WalletEvent → WalletOp
  | .run op => op
  | .crash op _ => op

/-- Whether the chain records name one seed after an event. It is between their writes that the
post-quantum chain, if it has a seed, still has the old one. -/
def WalletNode.bindsChains (W : WalletCrypto) (node : WalletNode) (event : WalletEvent)
    (bound : Bool) : Bool :=
  match node.wallet with
  | none => bound
  | some w =>
    match event.op.allowed W w, event.chainWrites w with
    | true, some (seed, done) =>
      decide (done = 2 → W.keyID seed = 0 ∨ w.pqHDChain.seedId = 0) &&
        decide (done < 2 → bound = true)
    | _, _ => bound

/-- `bindsChains` along a run. -/
def WalletNode.chainsBound (W : WalletCrypto) (node : WalletNode) (bound : Bool) :
    List WalletEvent → Bool
  | [] => bound
  | event :: events =>
    (node.step W event).1.chainsBound W (node.bindsChains W event bound) events

theorem NodeInv.step_agree (h : NodeInv W node) {bound : Bool}
    (hbound : ChainsAgree node.db ↔ bound = true) (event : WalletEvent) :
    ChainsAgree (node.step W event).1.db ↔ node.bindsChains W event bound = true := by
  unfold WalletNode.step WalletNode.bindsChains
  cases hw : node.wallet with
  | none => exact hbound
  | some w =>
    have hinv : WalletInv W (w, node.db) := ⟨h.db, h.mem w hw⟩
    have hpq : w.pqHDChain = node.db.pqChain := hinv.mem.pqHDChain
    have hkept : ∀ {op : WalletOp} {n}, op.allowed W w = true → op.seeding w = none →
        (ChainsAgree (runSteps ((op.steps W w).take n) (w, node.db)).2 ↔ bound = true) := by
      intro op n hallowed hnone
      have hkept := op.steps_kept hinv hallowed hnone n
      unfold ChainsAgree at hbound ⊢
      rw [hkept.seedId, hkept.pqSeedId, hbound]
    have hcut : ∀ {op : WalletOp} {n seed before written}, op.allowed W w = true →
        op.seeding w = some (seed, before, written) →
        (ChainsAgree (runSteps ((op.steps W w).take n) (w, node.db)).2 ↔
          (min (n - before) written = 2 → W.keyID seed = 0 ∨ w.pqHDChain.seedId = 0) ∧
            (min (n - before) written < 2 → bound = true)) := by
      intro op n seed before written hallowed hseeding
      rw [(op.steps_cut hinv hallowed hseeding n).agree_iff (op.seeding_new hinv hallowed hseeding),
        hbound, hpq]
    cases event with
    | run op =>
      dsimp only [WalletEvent.op, WalletEvent.chainWrites]
      by_cases hallowed : op.allowed W w = true
      · simp only [hallowed, not_true_eq_false, if_false, op.run_state]
        cases hseeding : op.seeding w with
        | none =>
          have hall := hkept (n := (op.steps W w).length) hallowed hseeding
          rwa [take_length] at hall
        | some seeding =>
          obtain ⟨seed, before, written⟩ := seeding
          -- with room for every write the cut is where the writes end
          have hall := hcut (n := (op.steps W w).length + before + written) hallowed hseeding
          rw [take_of_length_le (by omega), min_eq_right (by omega)] at hall
          simpa only [Option.map_some, and_eq_true, decide_eq_true_eq] using hall
      · simp only [Bool.not_eq_true] at hallowed
        simp only [hallowed, Bool.false_eq_true, not_false_eq_true, if_true]
        exact hbound
    | crash op n =>
      dsimp only [WalletEvent.op, WalletEvent.chainWrites]
      by_cases hallowed : op.allowed W w = true
      · have hdb := ((walletInv_keep W).steps op hinv hallowed (by simp) n).db
        simp only [hallowed, not_true_eq_false, if_false, hdb.reload_agree node]
        cases hseeding : op.seeding w with
        | none => exact hkept hallowed hseeding
        | some seeding =>
          simpa only [Option.map_some, and_eq_true, decide_eq_true_eq] using hcut hallowed hseeding
      · simp only [Bool.not_eq_true] at hallowed
        simp only [hallowed, Bool.false_eq_true, not_false_eq_true, if_true]
        exact hbound

theorem NodeInv.runEvents_agree (h : NodeInv W node) {bound : Bool}
    (hbound : ChainsAgree node.db ↔ bound = true) (events : List WalletEvent) :
    ChainsAgree (node.runEvents W events).1.db ↔ node.chainsBound W bound events = true := by
  induction events generalizing node bound with
  | nil => exact hbound
  | cons event events ih => exact ih (h.step event) (h.step_agree hbound event)

end Run

def sampleCrypto : WalletCrypto where
  sha256 b := BitVec.ofNat 256 (ofLe b)
  ripemd160 b := BitVec.ofNat 160 (ofLe b)
  sha1 _ := 0
  checkLowS _ := true
  verify _ _ _ := true
  verifySchnorr _ _ _ := true
  checkTapTweak _ _ _ _ := true
  mldsa65Verify _ _ _ := true
  sphincs128sVerify _ _ _ := true
  getPubKey key := key.1
  hmacSha512 key message := message.reverse.take 5 ++ key
  keygenFromSeed type seed :=
    some ((seed ++ List.replicate type.pubkeyBytes 0).take type.pubkeyBytes,
      List.replicate type.seckeyBytes 0)
  pqSign type _ _ := some (List.replicate type.sigBytes 0)
  encryptSecret _ secret _ := 0 :: secret
  decryptSecret _ crypted _ := some crypted.tail
  keygen_sizes {type seed pubkey secret} h := by
    obtain ⟨rfl, rfl⟩ := Prod.mk.inj (Option.some.inj h)
    simp
  decrypt_encrypt _ := rfl
  encrypt_ne_nil := by simp

def sampleKey (b : UInt8) : CKey := ⟨List.replicate 32 b, by simp⟩

/-- The process stops between the two chain writes of a second seed. -/
theorem crash_setHDSeed_reload_fails :
    let node := ((new sampleCrypto .legacy false).runEvents sampleCrypto
      [.run (.setHDSeed (sampleKey 1) 3), .crash (.setHDSeed (sampleKey 2) 3) 2]).1
    node.wallet.isNone = true ∧
      (match loadWallet sampleCrypto .legacy false node.db with
        | .ok _ => none
        | .error e => some e) =
        some "Post-quantum HD chain seed does not match the active wallet seed" := by
  decide +kernel

/-- The same rotation, cut off anywhere else. -/
theorem crash_setHDSeed_reload_sample :
    let node := ((new sampleCrypto .legacy false).runEvents sampleCrypto
      [.run (.setHDSeed (sampleKey 1) 3)]).1
    ∀ n, n ≠ 2 → ∃ w', (node.step sampleCrypto
      (.crash (.setHDSeed (sampleKey 2) 3) n)).1.wallet = some w' ∧ w'.PQBound := by
  intro node n hn
  obtain ⟨w, hw⟩ : ∃ w, node.wallet = some w :=
    Option.isSome_iff_exists.mp (by decide +kernel)
  have hallowed : (WalletOp.setHDSeed (sampleKey 2) 3).allowed sampleCrypto w = true := by
    have hall : node.wallet.all
        (fun w => (WalletOp.setHDSeed (sampleKey 2) 3).allowed sampleCrypto w) = true := by
      decide +kernel
    rwa [hw, Option.all_some] at hall
  apply (crash_setHDSeed_reload_iff .legacy false _ hw _ hallowed rfl n).mpr
  have hbound : node.db.pqChain.seedId = node.db.seedId := by decide +kernel
  exact ⟨fun heq => absurd heq (by omega), fun _ => .inr (.inr hbound)⟩

end Vexta
