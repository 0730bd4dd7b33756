import Mathlib.Logic.Relation
import Vexta.Wallet.TxState

/-! What the notifications do to the states of a wallet's transactions. -/
namespace Vexta
open Lib List AList CTransaction

namespace WalletTxs
variable {X : Crypto}

variable (w : WalletTxs X)

/-- A transaction of the wallet spends an output of another one. -/
def Parent (a d : Uint256) : Prop :=
  (w.mapWallet.lookup a).isSome ∧ ∃ outpoint, (outpoint, d) ∈ w.mapTxSpends ∧ outpoint.hash = a

def Ancestor : Uint256 → Uint256 → Prop := Relation.ReflTransGen w.Parent

/-- Spends in place of the wallet's transaction or another ancestor of it. -/
def Displaces (tx : CTransaction) (hash : Uint256) : Prop :=
  tx.getHash X ≠ hash ∧ ∃ a, a ≠ tx.getHash X ∧ w.Ancestor a hash ∧
    ∃ outpoint, (outpoint, a) ∈ w.mapTxSpends ∧ outpoint ∈ tx.vin.map CTxIn.prevout

/-- Transactions and their spends stay, and the height is the same. -/
structure Grows (w w' : WalletTxs X) : Prop where
  keys : ∀ hash, (w.mapWallet.lookup hash).isSome → (w'.mapWallet.lookup hash).isSome
  spends : ∀ spend ∈ w.mapTxSpends, spend ∈ w'.mapTxSpends
  height : w'.lastBlockProcessedHeight = w.lastBlockProcessedHeight

variable {w w' w'' : WalletTxs X}

theorem Grows.refl (w : WalletTxs X) : Grows w w := ⟨fun _ h => h, fun _ h => h, rfl⟩

theorem Grows.trans (h : Grows w w') (h' : Grows w' w'') : Grows w w'' where
  keys := fun hash hsome => h'.keys hash (h.keys hash hsome)
  spends := fun spend hmem => h'.spends spend (h.spends spend hmem)
  height := h'.height.trans h.height

theorem Grows.ancestor (h : Grows w w') {a d : Uint256} (hancestor : w.Ancestor a d) :
    w'.Ancestor a d := by
  refine Relation.ReflTransGen.mono (fun a d => ?_) a d hancestor
  rintro ⟨hsome, outpoint, hmem, hhash⟩
  exact ⟨h.keys a hsome, outpoint, h.spends _ hmem, hhash⟩

variable {tx : CTransaction} {hash : Uint256} {judge : CWalletTx → Verdict Confirmation Fault}
  {hashTx : Uint256}

theorem Grows.displaces (h : Grows w w') (hconflict : w.Displaces tx hash) :
    w'.Displaces tx hash := by
  obtain ⟨hne, a, ha, hancestor, outpoint, hmem, hspent⟩ := hconflict
  exact ⟨hne, a, ha, h.ancestor hancestor, outpoint, h.spends _ hmem, hspent⟩

variable {m : Assoc Uint256 CWalletTx} {new : Uint256 → Confirmation → Prop}
  {confirm : Confirmation} {hashBlock : Uint256} {height : ℤ}
  {mine : WalletTxs X → CTransaction → Bool}

theorem isSome_of_sameTxs {m' : Assoc Uint256 CWalletTx} (h : SameTxs m m')
    (hsome : (m.lookup hash).isSome) : (m'.lookup hash).isSome := by
  have hsame := congrArg Option.isSome (h hash)
  rw [Option.isSome_map, Option.isSome_map] at hsame
  rw [hsame]
  exact hsome

theorem withMap_grows (w : WalletTxs X) (h : SameTxs w.mapWallet m) : Grows w (w.withMap m h) :=
  ⟨fun _ => isSome_of_sameTxs h, fun _ hmem => hmem, rfl⟩

theorem mem_spenders {now : Uint256} :
    hash ∈ w.spenders now ↔ ∃ outpoint, (outpoint, hash) ∈ w.mapTxSpends ∧ outpoint.hash = now := by
  unfold spenders
  simp

/-- The walk of `spread` from `hashTx` comes to the transaction. -/
def Reached (w : WalletTxs X) (judge : CWalletTx → Verdict Confirmation Fault) (hashTx : Uint256) :
    Uint256 → Prop := Reaches (onConfirm judge) w.spenders w.mapWallet hashTx

theorem Reached.ancestor (h : w.Reached judge hashTx hash) : w.Ancestor hashTx hash := by
  induction h with
  | start => exact .refl
  | next _ hlookup _ hmem ih =>
    refine ih.tail ⟨?_, mem_spenders.mp hmem⟩
    rw [hlookup]
    rfl

theorem spread_ok (h : w.spread judge hashTx = .ok w') :
    Grows w w' ∧
      ∀ hash wtx', w'.mapWallet.lookup hash = some wtx' →
        ∃ wtx, w.mapWallet.lookup hash = some wtx ∧ (wtx' = wtx ∨
          w.Reached judge hashTx hash ∧ ∃ c, judge wtx = .change c ∧ wtx'.confirm = c) := by
  have hdone := worklist_done (onConfirm judge) .assertion .outOfFuel w.spenders w.mapWallet hashTx
  unfold spread at h
  split at h
  · rename_i m hm
    cases h
    rw [hm] at hdone
    refine ⟨withMap_grows w _, fun hash wtx' hlookup' => ?_⟩
    change m.lookup hash = some wtx' at hlookup'
    by_cases hreached : w.Reached judge hashTx hash
    · rw [(hdone.2 hash).1 hreached] at hlookup'
      obtain ⟨wtx, hlookup, rfl⟩ := Option.map_eq_some_iff.mp hlookup'
      refine ⟨wtx, hlookup, ?_⟩
      unfold onConfirm
      cases hjudge : judge wtx with
      | leave => exact .inl rfl
      | fail e => exact .inl rfl
      | change c => exact .inr ⟨hreached, c, rfl, rfl⟩
    · rw [(hdone.2 hash).2 hreached] at hlookup'
      exact ⟨wtx', hlookup', .inl rfl⟩
  · cases h

/-- Every state is the one before or one that `new` allows. -/
def StatesFrom (new : Uint256 → Confirmation → Prop) (w w' : WalletTxs X) : Prop :=
  ∀ hash wtx', w'.mapWallet.lookup hash = some wtx' →
    (∃ wtx, w.mapWallet.lookup hash = some wtx ∧ wtx'.confirm = wtx.confirm) ∨
      new hash wtx'.confirm

theorem StatesFrom.refl (new : Uint256 → Confirmation → Prop) (w : WalletTxs X) :
    StatesFrom new w w := fun _ wtx h => .inl ⟨wtx, h, rfl⟩

theorem StatesFrom.trans (h : StatesFrom new w w') (h' : StatesFrom new w' w'') :
    StatesFrom new w w'' := by
  intro hash wtx'' hlookup''
  rcases h' hash wtx'' hlookup'' with ⟨wtx', hlookup', hsame'⟩ | hnew
  · rcases h hash wtx' hlookup' with ⟨wtx, hlookup, hsame⟩ | hnew
    · exact .inl ⟨wtx, hlookup, hsame'.trans hsame⟩
    · exact .inr (hsame' ▸ hnew)
  · exact .inr hnew

theorem StatesFrom.mono {new' : Uint256 → Confirmation → Prop} (h : StatesFrom new w w')
    (himp : ∀ hash c, new hash c → new' hash c) : StatesFrom new' w w' :=
  fun hash wtx' hlookup => (h hash wtx' hlookup).imp_right (himp hash _)

theorem update_grows (w : WalletTxs X) (hash : Uint256) (f : Confirmation → Confirmation)
    (g : Bool → Bool) : Grows w (w.update hash f g) := by
  unfold update
  split
  · exact .refl w
  · exact withMap_grows w _

theorem update_lookup (w : WalletTxs X) (hash : Uint256) (f : Confirmation → Confirmation)
    (g : Bool → Bool) (other : Uint256) :
    (w.update hash f g).mapWallet.lookup other = (w.mapWallet.lookup other).map fun wtx =>
      if other = hash then
        { wtx with confirm := f wtx.confirm, fInMempool := g wtx.fInMempool }
      else wtx := by
  unfold update
  split
  · rename_i hnone
    by_cases heq : other = hash
    · rw [heq, hnone]
      rfl
    · simp [heq]
  · rename_i wtx hlookup
    change (w.mapWallet.insert hash _).lookup other = _
    by_cases heq : other = hash
    · rw [heq, lookup_insert, hlookup, Option.map_some, if_pos rfl]
    · rw [lookup_insert_ne heq]
      simp [heq]

theorem update_mempool_states (w : WalletTxs X) (hash : Uint256) (g : Bool → Bool)
    (new : Uint256 → Confirmation → Prop) : StatesFrom new w (w.update hash id g) := by
  intro other wtx' hlookup
  rw [update_lookup] at hlookup
  obtain ⟨wtx, hold, rfl⟩ := Option.map_eq_some_iff.mp hlookup
  refine .inl ⟨wtx, hold, ?_⟩
  split_ifs <;> rfl

theorem insert_grows (w : WalletTxs X) (tx : CTransaction) (confirm : Confirmation)
    (hnew : w.mapWallet.lookup (tx.getHash X) = none) : Grows w (w.insert tx confirm hnew) where
  keys := by
    intro hash hsome
    change ((w.mapWallet.insert (tx.getHash X) _).lookup hash).isSome
    by_cases heq : hash = tx.getHash X
    · rw [heq, lookup_insert]
      rfl
    · rw [lookup_insert_ne heq]
      exact hsome
  spends := fun _ hmem => mem_append_left _ hmem
  height := rfl

theorem addToWallet_ok (h : w.addToWallet tx confirm = .ok w') :
    Grows w w' ∧ ∀ hash wtx', w'.mapWallet.lookup hash = some wtx' →
      (hash = tx.getHash X → wtx'.confirm = confirm) ∧
      (hash ≠ tx.getHash X → w.mapWallet.lookup hash = some wtx') := by
  unfold addToWallet at h
  split at h
  · rename_i hnone
    cases h
    refine ⟨insert_grows w tx confirm hnone, fun hash wtx' hlookup => ?_⟩
    change (w.mapWallet.insert (tx.getHash X) _).lookup hash = some wtx' at hlookup
    constructor
    · intro heq
      rw [heq, lookup_insert] at hlookup
      cases hlookup
      rfl
    · intro hne
      rw [lookup_insert_ne hne] at hlookup
      exact hlookup
  · rename_i wtx hwtx
    split_ifs at h with hstatus hsame
    · cases h
      refine ⟨update_grows w _ _ _, fun hash wtx' hlookup => ?_⟩
      rw [update_lookup] at hlookup
      obtain ⟨wtx₀, hold, rfl⟩ := Option.map_eq_some_iff.mp hlookup
      constructor
      · intro heq
        rw [if_pos heq]
      · intro hne
        rw [if_neg hne]
        exact hold
    · cases h
      refine ⟨.refl w, fun hash wtx' hlookup => ⟨fun heq => ?_, fun _ => hlookup⟩⟩
      rw [heq, hwtx] at hlookup
      cases hlookup
      exact hsame.symm

def conflictMark (hashBlock : Uint256) (height : ℤ) : Confirmation :=
  ⟨.conflicted, height, hashBlock, 0⟩

theorem markConflicted_ok (h : w.markConflicted hashBlock height hashTx = .ok w') :
    Grows w w' ∧
      StatesFrom (fun hash c => c = conflictMark hashBlock height ∧ w.Ancestor hashTx hash) w w' := by
  unfold markConflicted at h
  dsimp only at h
  split_ifs at h
  · cases h
    exact ⟨.refl w, .refl _ w⟩
  · obtain ⟨hgrows, hstates⟩ := spread_ok h
    refine ⟨hgrows, fun hash wtx' hlookup => ?_⟩
    obtain ⟨wtx, hold, rfl | ⟨hreached, c, hjudge, hconfirm⟩⟩ := hstates hash wtx' hlookup
    · exact .inl ⟨wtx', hold, rfl⟩
    · right
      split_ifs at hjudge
      cases hjudge
      exact ⟨hconfirm, hreached.ancestor⟩

theorem mem_conflictsWith :
    hash ∈ w.conflictsWith tx ↔ hash ≠ tx.getHash X ∧
      ∃ outpoint, (outpoint, hash) ∈ w.mapTxSpends ∧ outpoint ∈ tx.vin.map CTxIn.prevout := by
  unfold conflictsWith spendersOf
  simp only [mem_filter, mem_flatMap, mem_map, Prod.exists, bne_iff_ne, ne_eq,
    beq_iff_eq, exists_eq_right]
  constructor
  · rintro ⟨⟨txin, hin, hmem⟩, hne⟩
    exact ⟨hne, txin.prevout, hmem, txin, hin, rfl⟩
  · rintro ⟨hne, outpoint, hmem, txin, hin, heq⟩
    exact ⟨⟨txin, hin, heq ▸ hmem⟩, hne⟩

theorem foldlM_markConflicted_ok {hashes : List Uint256}
    (hhashes : ∀ hash ∈ hashes, hash ∈ w.conflictsWith tx)
    (h : hashes.foldlM (fun w hash => w.markConflicted hashBlock height hash) w = .ok w') :
    Grows w w' ∧ StatesFrom (fun hash c => c = conflictMark hashBlock height ∧
      (hash ≠ tx.getHash X → w'.Displaces tx hash)) w w' := by
  induction hashes generalizing w with
  | nil =>
    cases h
    exact ⟨.refl w', .refl _ w'⟩
  | cons a hashes ih =>
    rw [foldlM_cons] at h
    obtain ⟨w₁, hmark, hrest⟩ := bind_eq_ok.mp h
    obtain ⟨hgrows₁, hstates₁⟩ := markConflicted_ok hmark
    have hmem₁ : ∀ hash ∈ hashes, hash ∈ w₁.conflictsWith tx := by
      intro hash hhash
      obtain ⟨hne, outpoint, hmem, hspent⟩ :=
        mem_conflictsWith.mp (hhashes hash (mem_cons_of_mem a hhash))
      exact mem_conflictsWith.mpr ⟨hne, outpoint, hgrows₁.spends _ hmem, hspent⟩
    obtain ⟨hgrows₂, hstates₂⟩ := ih hmem₁ hrest
    refine ⟨hgrows₁.trans hgrows₂, .trans (hstates₁.mono ?_) hstates₂⟩
    rintro hash c ⟨hc, hancestor⟩
    refine ⟨hc, fun hne => (hgrows₁.trans hgrows₂).displaces ?_⟩
    obtain ⟨ha, outpoint, hmem, hspent⟩ := mem_conflictsWith.mp (hhashes a mem_cons_self)
    exact ⟨fun heq => hne heq.symm, a, ha, hancestor, outpoint, hmem, hspent⟩

theorem syncTransaction_ok (h : w.syncTransaction mine tx confirm = .ok w') :
    Grows w w' ∧ ∀ hash wtx', w'.mapWallet.lookup hash = some wtx' →
      (hash = tx.getHash X → wtx'.confirm = confirm) ∧
      (hash ≠ tx.getHash X →
        (∃ wtx, w.mapWallet.lookup hash = some wtx ∧ wtx'.confirm = wtx.confirm) ∨
        (confirm.hashBlock ≠ 0 ∧
          wtx'.confirm = conflictMark confirm.hashBlock confirm.blockHeight ∧
          w'.Displaces tx hash)) := by
  unfold syncTransaction at h
  obtain ⟨w₁, hmarks, hadd⟩ := bind_eq_ok.mp h
  have hmarked : Grows w w₁ ∧ StatesFrom (fun hash c => confirm.hashBlock ≠ 0 ∧
      c = conflictMark confirm.hashBlock confirm.blockHeight ∧
      (hash ≠ tx.getHash X → w₁.Displaces tx hash)) w w₁ := by
    unfold markConflicts at hmarks
    split_ifs at hmarks with hblock
    · obtain ⟨hgrows, hstates⟩ := foldlM_markConflicted_ok (fun _ hmem => hmem) hmarks
      exact ⟨hgrows, hstates.mono fun hash c hc => ⟨hblock, hc⟩⟩
    · cases hmarks
      exact ⟨.refl w, .refl _ w⟩
  obtain ⟨hgrows₁, hstates₁⟩ := hmarked
  -- the states after the marks that are not the transaction's own stay
  have hothers : ∀ w₂ : WalletTxs X, Grows w₁ w₂ → ∀ hash wtx', hash ≠ tx.getHash X →
      w₁.mapWallet.lookup hash = some wtx' →
      (∃ wtx, w.mapWallet.lookup hash = some wtx ∧ wtx'.confirm = wtx.confirm) ∨
        (confirm.hashBlock ≠ 0 ∧
          wtx'.confirm = conflictMark confirm.hashBlock confirm.blockHeight ∧
          w₂.Displaces tx hash) := by
    intro w₂ hgrows₂ hash wtx' hne hlookup
    rcases hstates₁ hash wtx' hlookup with hold | ⟨hblock, hc, hconflict⟩
    · exact .inl hold
    · exact .inr ⟨hblock, hc, hgrows₂.displaces (hconflict hne)⟩
  by_cases hmine : (w₁.mapWallet.lookup (tx.getHash X)).isSome = true ∨ mine w₁ tx = true
  · rw [if_pos hmine] at hadd
    obtain ⟨hgrows₂, hstates₂⟩ := addToWallet_ok hadd
    refine ⟨hgrows₁.trans hgrows₂, fun hash wtx' hlookup => ?_⟩
    obtain ⟨hself, hother⟩ := hstates₂ hash wtx' hlookup
    exact ⟨hself, fun hne => hothers w' hgrows₂ hash wtx' hne (hother hne)⟩
  · cases (if_neg hmine).symm.trans hadd
    refine ⟨hgrows₁, fun hash wtx' hlookup => ⟨fun heq => ?_, fun hne =>
      hothers w' (.refl w') hash wtx' hne hlookup⟩⟩
    exfalso
    apply hmine
    rw [← heq, hlookup]
    exact .inl rfl

/-- The states that no block gives. -/
def Unplaced (_ : Uint256) (confirm : Confirmation) : Prop :=
  confirm = .unconfirmed ∨ confirm = .abandoned

theorem addToWallet_unconfirmed (h : w.addToWallet tx .unconfirmed = .ok w') :
    Grows w w' ∧ StatesFrom Unplaced w w' := by
  obtain ⟨hgrows, hstates⟩ := addToWallet_ok h
  refine ⟨hgrows, fun hash wtx' hlookup => ?_⟩
  by_cases heq : hash = tx.getHash X
  · exact .inr (.inl ((hstates hash wtx' hlookup).1 heq))
  · exact .inl ⟨wtx', (hstates hash wtx' hlookup).2 heq, rfl⟩

theorem syncTransaction_unconfirmed (h : w.syncTransaction mine tx .unconfirmed = .ok w') :
    Grows w w' ∧ StatesFrom Unplaced w w' := by
  obtain ⟨hgrows, hstates⟩ := syncTransaction_ok h
  refine ⟨hgrows, fun hash wtx' hlookup => ?_⟩
  by_cases heq : hash = tx.getHash X
  · exact .inr (.inl ((hstates hash wtx' hlookup).1 heq))
  · rcases (hstates hash wtx' hlookup).2 heq with hold | ⟨hblock, -⟩
    · exact .inl hold
    · exact absurd rfl hblock

theorem submitMemoryPoolAndRelay_ok (w : WalletTxs X) (hash : Uint256) (accepted : Bool) :
    Grows w (w.submitMemoryPoolAndRelay hash accepted) ∧
      StatesFrom Unplaced w (w.submitMemoryPoolAndRelay hash accepted) := by
  unfold submitMemoryPoolAndRelay
  split
  · exact ⟨.refl w, .refl _ w⟩
  · split_ifs
    · exact ⟨.refl w, .refl _ w⟩
    · exact ⟨update_grows w _ _ _, update_mempool_states w _ _ _⟩

theorem commitTransaction_ok {accepted : Bool} (h : w.commitTransaction tx accepted = .ok w') :
    Grows w w' ∧ StatesFrom Unplaced w w' := by
  obtain ⟨w₁, hadd, rfl⟩ := map_eq_ok.mp h
  obtain ⟨hgrows₁, hstates₁⟩ := addToWallet_unconfirmed hadd
  obtain ⟨hgrows₂, hstates₂⟩ := submitMemoryPoolAndRelay_ok w₁ (tx.getHash X) accepted
  exact ⟨hgrows₁.trans hgrows₂, hstates₁.trans hstates₂⟩

theorem markReplaced_ok {isInMempool : Bool} (h : w.markReplaced hash isInMempool = .ok w') :
    Grows w w' ∧ StatesFrom Unplaced w w' := by
  unfold markReplaced at h
  split_ifs at h
  cases h
  exact ⟨update_grows w _ _ _, update_mempool_states w _ _ _⟩

theorem abandonTransaction_ok {done : Bool} (h : w.abandonTransaction hashTx = .ok (done, w')) :
    Grows w w' ∧ StatesFrom Unplaced w w' := by
  unfold abandonTransaction at h
  split at h
  · cases h
  · split_ifs at h
    · cases h
      exact ⟨.refl w, .refl _ w⟩
    · obtain ⟨w₁, hspread, hpair⟩ := map_eq_ok.mp h
      cases hpair
      obtain ⟨hgrows, hstates⟩ := spread_ok hspread
      refine ⟨hgrows, fun hash wtx' hlookup => ?_⟩
      obtain ⟨wtx, hold, rfl | ⟨-, c, hjudge, hconfirm⟩⟩ := hstates hash wtx' hlookup
      · exact .inl ⟨wtx', hold, rfl⟩
      · right
        split_ifs at hjudge
        cases hjudge
        exact .inr hconfirm

section
variable {mine : WalletTxs X → CTransaction → Bool} {Y : HeaderHashes}

variable {tx : CTransaction} {block : CBlock} {height : ℤ}

theorem transactionAddedToMempool_ok (h : w.transactionAddedToMempool mine tx = .ok w') :
    Grows w w' ∧ StatesFrom Unplaced w w' := by
  unfold transactionAddedToMempool at h
  obtain ⟨w₁, hsync, heq⟩ := bind_eq_ok.mp h
  cases heq
  obtain ⟨hgrows, hstates⟩ := syncTransaction_unconfirmed hsync
  exact ⟨hgrows.trans (update_grows w₁ _ _ _), hstates.trans (update_mempool_states w₁ _ _ _)⟩

theorem transactionRemovedFromMempool_ok {reason : MemPoolRemovalReason}
    (h : w.transactionRemovedFromMempool mine tx reason = .ok w') :
    Grows w w' ∧ StatesFrom Unplaced w w' := by
  unfold transactionRemovedFromMempool at h
  dsimp only at h
  split_ifs at h
  · obtain ⟨hgrows, hstates⟩ := syncTransaction_unconfirmed h
    exact ⟨.trans (update_grows w _ _ _) hgrows, .trans (update_mempool_states w _ _ _) hstates⟩
  · cases h
    exact ⟨update_grows w _ _ _, update_mempool_states w _ _ _⟩

/-- Its transactions are confirmed, conflicting ones are marked. -/
def PlacedBy (Y : HeaderHashes) (block : CBlock) (height : ℤ) (w : WalletTxs X) (hash : Uint256)
    (confirm : Confirmation) : Prop :=
  (confirm.status = .confirmed ∧ confirm.blockHeight = height ∧
    hash ∈ block.vtx.map (getHash X)) ∨
  (confirm = conflictMark (block.header.getHash Y) height ∧
    ∃ tx ∈ block.vtx, w.Displaces tx hash)

theorem PlacedBy.grows {confirm : Confirmation} (h : PlacedBy Y block height w hash confirm)
    (hgrows : Grows w w') : PlacedBy Y block height w' hash confirm := by
  rcases h with hconfirmed | ⟨hmark, tx, htx, hconflict⟩
  · exact .inl hconfirmed
  · exact .inr ⟨hmark, tx, htx, hgrows.displaces hconflict⟩

theorem connectTransaction_ok {index : ℕ} (htx : tx ∈ block.vtx)
    (h : (w.syncTransaction mine tx ⟨.confirmed, height, block.header.getHash Y, index⟩ >>= fun w =>
      w.transactionRemovedFromMempool mine tx .block) = .ok w') :
    Grows w w' ∧ StatesFrom (PlacedBy Y block height w') w w' := by
  obtain ⟨w₁, hsync, hremoved⟩ := bind_eq_ok.mp h
  obtain ⟨hgrows₁, hstates₁⟩ := syncTransaction_ok hsync
  -- the reason is the block, so nothing is synchronised a second time
  cases hremoved
  have hgrows₂ := update_grows w₁ (tx.getHash X) id fun _ => false
  have hplaced : StatesFrom (PlacedBy Y block height (w₁.update (tx.getHash X) id fun _ => false))
      w w₁ := by
    intro hash wtx' hlookup
    by_cases heq : hash = tx.getHash X
    · right
      rw [(hstates₁ hash wtx' hlookup).1 heq]
      exact .inl ⟨rfl, rfl, mem_map.mpr ⟨tx, htx, heq.symm⟩⟩
    · rcases (hstates₁ hash wtx' hlookup).2 heq with hold | ⟨-, hmark, hconflict⟩
      · exact .inl hold
      · exact .inr (.inr ⟨hmark, tx, htx, hgrows₂.displaces hconflict⟩)
  exact ⟨hgrows₁.trans hgrows₂, hplaced.trans (update_mempool_states w₁ _ _ _)⟩

theorem connectTransactions_ok {txs : List (CTransaction × ℕ)} (htxs : ∀ p ∈ txs, p.1 ∈ block.vtx)
    (h : txs.foldlM (fun w p =>
      w.syncTransaction mine p.1 ⟨.confirmed, height, block.header.getHash Y, p.2⟩ >>= fun w =>
        w.transactionRemovedFromMempool mine p.1 .block) w = .ok w') :
    Grows w w' ∧ StatesFrom (PlacedBy Y block height w') w w' := by
  induction txs generalizing w with
  | nil =>
    cases h
    exact ⟨.refl w', .refl _ w'⟩
  | cons p txs ih =>
    rw [foldlM_cons] at h
    obtain ⟨w₁, hfirst, hrest⟩ := bind_eq_ok.mp h
    obtain ⟨hgrows₁, hstates₁⟩ := connectTransaction_ok (htxs p mem_cons_self) hfirst
    obtain ⟨hgrows₂, hstates₂⟩ := ih (fun p' hp' => htxs p' (mem_cons_of_mem p hp')) hrest
    have hplaced := hstates₁.mono fun hash c hc => hc.grows hgrows₂
    exact ⟨hgrows₁.trans hgrows₂, hplaced.trans hstates₂⟩

theorem blockConnected_ok (h : blockConnected mine Y w block height = .ok w') :
    Grows { w with
      lastBlockProcessedHeight := height, lastBlockProcessed := block.header.getHash Y } w' ∧
      StatesFrom (PlacedBy Y block height w') w w' :=
  connectTransactions_ok (fun _ hp => fst_mem_of_mem_zipIdx hp) h

theorem disconnectTransactions_ok {txs : List CTransaction}
    (h : txs.foldlM (fun w tx => w.syncTransaction mine tx .unconfirmed) w = .ok w') :
    Grows w w' ∧ ∀ hash wtx', w'.mapWallet.lookup hash = some wtx' →
      (hash ∈ txs.map (getHash X) ∧ wtx'.confirm = .unconfirmed) ∨
      (hash ∉ txs.map (getHash X) ∧
        ∃ wtx, w.mapWallet.lookup hash = some wtx ∧ wtx'.confirm = wtx.confirm) := by
  induction txs generalizing w with
  | nil =>
    cases h
    exact ⟨.refl w', fun hash wtx' hlookup => .inr ⟨not_mem_nil, wtx', hlookup, rfl⟩⟩
  | cons tx txs ih =>
    rw [foldlM_cons] at h
    obtain ⟨w₁, hfirst, hrest⟩ := bind_eq_ok.mp h
    obtain ⟨hgrows₁, hown⟩ := syncTransaction_ok hfirst
    obtain ⟨hgrows₂, hreset⟩ := ih hrest
    refine ⟨hgrows₁.trans hgrows₂, fun hash wtx' hlookup => ?_⟩
    rw [map_cons]
    rcases hreset hash wtx' hlookup with ⟨hmem, hunconfirmed⟩ | ⟨hmem, wtx₁, hlookup₁, hsame⟩
    · exact .inl ⟨mem_cons_of_mem _ hmem, hunconfirmed⟩
    · obtain ⟨hself, hother⟩ := hown hash wtx₁ hlookup₁
      by_cases heq : hash = tx.getHash X
      · exact .inl ⟨heq ▸ mem_cons_self, hsame.trans (hself heq)⟩
      · right
        rcases hother heq with ⟨wtx, hold, hsame₁⟩ | ⟨hblock, -⟩
        · exact ⟨not_mem_cons_of_ne_of_not_mem heq hmem, wtx, hold, hsame.trans hsame₁⟩
        · exact absurd rfl hblock

theorem blockDisconnected_ok (h : blockDisconnected mine w block height = .ok w') :
    Grows { w with
      lastBlockProcessedHeight := height - 1
      lastBlockProcessed := block.header.hashPrevBlock } w' ∧
    ∀ hash wtx', w'.mapWallet.lookup hash = some wtx' →
      (hash ∈ block.vtx.map (getHash X) ∧ wtx'.confirm = .unconfirmed) ∨
      (hash ∉ block.vtx.map (getHash X) ∧
        ∃ wtx, w.mapWallet.lookup hash = some wtx ∧ wtx'.confirm = wtx.confirm) :=
  disconnectTransactions_ok h

end
end WalletTxs

open WalletTxs in
/-- A step changes no block and places no transaction, or connects or disconnects one block. -/
theorem FollowedChain.step_cases {X : Crypto} {mine : WalletTxs X → CTransaction → Bool}
    {Y : HeaderHashes} {n n' : FollowedChain X} {event : WalletTxEvent}
    (hok : n.step mine Y event = .ok n') :
    (n'.chain = n.chain ∧ Grows n.wallet n'.wallet ∧ StatesFrom Unplaced n.wallet n'.wallet) ∨
    (∃ block, event = .blockConnected block ∧ n'.chain = block :: n.chain ∧
      blockConnected mine Y n.wallet block n.chain.length = .ok n'.wallet) ∨
    (event = .blockDisconnected ∧ ∃ block, n.chain = block :: n'.chain ∧
      blockDisconnected mine n.wallet block n'.chain.length = .ok n'.wallet) := by
  cases event with
  | commitTransaction tx accepted =>
    obtain ⟨w', hcommit, rfl⟩ := map_eq_ok.mp hok
    exact .inl ⟨rfl, commitTransaction_ok hcommit⟩
  | submitMemoryPoolAndRelay hash accepted =>
    cases hok
    exact .inl ⟨rfl, submitMemoryPoolAndRelay_ok n.wallet hash accepted⟩
  | markReplaced hash isInMempool =>
    obtain ⟨w', hmark, rfl⟩ := map_eq_ok.mp hok
    exact .inl ⟨rfl, markReplaced_ok hmark⟩
  | transactionAddedToMempool tx =>
    obtain ⟨w', hadded, rfl⟩ := map_eq_ok.mp hok
    exact .inl ⟨rfl, transactionAddedToMempool_ok hadded⟩
  | transactionRemovedFromMempool tx reason =>
    obtain ⟨w', hremoved, rfl⟩ := map_eq_ok.mp hok
    exact .inl ⟨rfl, transactionRemovedFromMempool_ok hremoved⟩
  | blockConnected block =>
    obtain ⟨w', hconnected, rfl⟩ := map_eq_ok.mp hok
    exact .inr (.inl ⟨block, rfl, rfl, hconnected⟩)
  | blockDisconnected =>
    obtain ⟨w, chain⟩ := n
    rcases chain with _ | ⟨block, _ | ⟨prev, rest⟩⟩
    · cases hok
    · cases hok
    · obtain ⟨w', hdisconnected, rfl⟩ := map_eq_ok.mp hok
      exact .inr (.inr ⟨rfl, block, rfl, hdisconnected⟩)
  | abandonTransaction hashTx =>
    obtain ⟨⟨done, w'⟩, habandon, rfl⟩ := map_eq_ok.mp hok
    exact .inl ⟨rfl, abandonTransaction_ok habandon⟩

end Vexta
