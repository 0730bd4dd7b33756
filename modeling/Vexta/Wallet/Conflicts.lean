import Vexta.Wallet.TxSteps

/-! Which conflict marks of a wallet the active chain accounts for. -/
namespace Vexta
open Lib List

def connectedBlocks (events : List WalletTxEvent) : List CBlock :=
  events.filterMap fun event =>
    match event with
    | .blockConnected block => some block
    | _ => none

namespace WalletTxs
variable {X : Crypto}

/-- Another transaction spends what the wallet's one or its ancestor spends. -/
def ConflictsBy (w : WalletTxs X) (tx : CTransaction) (hash : Uint256) : Prop :=
  tx.getHash X ≠ hash ∧ ∃ a, w.Ancestor a hash ∧
    ∃ outpoint, (outpoint, a) ∈ w.mapTxSpends ∧ outpoint ∈ tx.vin.map CTxIn.prevout

theorem Displaces.conflictsBy {w : WalletTxs X} {tx : CTransaction} {hash : Uint256}
    (h : w.Displaces tx hash) : w.ConflictsBy tx hash := by
  obtain ⟨hne, a, -, hspent⟩ := h
  exact ⟨hne, a, hspent⟩

def ConflictsIn (w : WalletTxs X) (chain : List CBlock) (hash : Uint256) : Prop :=
  ∃ block ∈ chain, ∃ tx ∈ block.vtx, w.ConflictsBy tx hash

def DepthsJustified (w : WalletTxs X) (chain : List CBlock) : Prop :=
  ∀ hash wtx, w.mapWallet.lookup hash = some wtx → w.getDepthInMainChain wtx < 0 →
    w.ConflictsIn chain hash

end WalletTxs

open WalletTxs

/-- States are from blocks seen so far; confirmed transactions are in the chain. -/
structure FollowedChain.Marks {X : Crypto} (Y : HeaderHashes) (seen : List CBlock)
    (n : FollowedChain X) : Prop where
  height : n.wallet.lastBlockProcessedHeight = n.chain.length - 1
  chain : n.chain ⊆ seen
  confirmed : ∀ hash wtx, n.wallet.mapWallet.lookup hash = some wtx →
    wtx.confirm.status = .confirmed → ∃ block rest, block :: rest <:+ n.chain ∧
      wtx.confirm.blockHeight = rest.length ∧ hash ∈ block.vtx.map (CTransaction.getHash X)
  conflicted : ∀ hash wtx, n.wallet.mapWallet.lookup hash = some wtx →
    wtx.confirm.status = .conflicted → ∃ block ∈ seen,
      block.header.getHash Y = wtx.confirm.hashBlock ∧ ∃ tx ∈ block.vtx, n.wallet.Displaces tx hash

namespace FollowedChain
variable {X : Crypto} {mine : WalletTxs X → CTransaction → Bool} {Y : HeaderHashes}
  {seen chain : List CBlock} {n n' : FollowedChain X} {w w' : WalletTxs X}

theorem marks_start (h : chain ⊆ seen) : Marks (X := X) Y seen (start Y chain) where
  height := rfl
  chain := h
  confirmed := by
    intro hash wtx hlookup
    cases hlookup
  conflicted := by
    intro hash wtx hlookup
    cases hlookup

theorem Marks.unplaced (h : n.Marks Y seen)
    (hok : Grows n.wallet w' ∧ StatesFrom Unplaced n.wallet w') : Marks Y seen ⟨w', n.chain⟩ := by
  obtain ⟨hgrows, hstates⟩ := hok
  refine ⟨hgrows.height.trans h.height, h.chain, fun hash wtx' hlookup hstatus => ?_,
    fun hash wtx' hlookup hstatus => ?_⟩
  · rcases hstates hash wtx' hlookup with ⟨wtx, hold, hsame⟩ | hnew | hnew
    · rw [hsame] at hstatus ⊢
      exact h.confirmed hash wtx hold hstatus
    · rw [hnew] at hstatus
      cases hstatus
    · rw [hnew] at hstatus
      cases hstatus
  · rcases hstates hash wtx' hlookup with ⟨wtx, hold, hsame⟩ | hnew | hnew
    · rw [hsame] at hstatus ⊢
      obtain ⟨block, hseen, hhash, tx, htx, hconflict⟩ := h.conflicted hash wtx hold hstatus
      exact ⟨block, hseen, hhash, tx, htx, hgrows.displaces hconflict⟩
    · rw [hnew] at hstatus
      cases hstatus
    · rw [hnew] at hstatus
      cases hstatus

theorem Marks.connected (h : n.Marks Y seen) {block : CBlock} (hmem : block ∈ seen)
    (hok : blockConnected mine Y n.wallet block n.chain.length = .ok w') :
    Marks Y seen ⟨w', block :: n.chain⟩ := by
  obtain ⟨hgrows, hstates⟩ := blockConnected_ok hok
  have hheight : w'.lastBlockProcessedHeight = ((block :: n.chain).length : ℤ) - 1 := by
    rw [hgrows.height, length_cons]
    push_cast
    omega
  refine ⟨hheight, cons_subset.mpr ⟨hmem, h.chain⟩, fun hash wtx' hlookup hstatus => ?_,
    fun hash wtx' hlookup hstatus => ?_⟩
  · rcases hstates hash wtx' hlookup with ⟨wtx, hold, hsame⟩ | ⟨-, hat, hin⟩ | ⟨hmark, -⟩
    · rw [hsame] at hstatus ⊢
      obtain ⟨block', rest, hsuffix, hat, hin⟩ := h.confirmed hash wtx hold hstatus
      exact ⟨block', rest, hsuffix.trans (suffix_cons block n.chain), hat, hin⟩
    · exact ⟨block, n.chain, suffix_rfl, hat, hin⟩
    · rw [hmark] at hstatus
      cases hstatus
  · rcases hstates hash wtx' hlookup with ⟨wtx, hold, hsame⟩ | ⟨hconfirmed, -⟩ | ⟨hmark, hconflict⟩
    · rw [hsame] at hstatus ⊢
      obtain ⟨block', hseen, hhash, tx, htx, hconflict⟩ := h.conflicted hash wtx hold hstatus
      exact ⟨block', hseen, hhash, tx, htx, hgrows.displaces hconflict⟩
    · cases hconfirmed.symm.trans hstatus
    · rw [hmark]
      exact ⟨block, hmem, rfl, hconflict⟩

theorem Marks.disconnected {block : CBlock} {rest : List CBlock}
    (h : Marks Y seen ⟨w, block :: rest⟩)
    (hok : blockDisconnected mine w block rest.length = .ok w') : Marks Y seen ⟨w', rest⟩ := by
  obtain ⟨hgrows, hstates⟩ := blockDisconnected_ok hok
  refine ⟨hgrows.height, fun b hb => h.chain (mem_cons_of_mem block hb),
    fun hash wtx' hlookup hstatus => ?_, fun hash wtx' hlookup hstatus => ?_⟩
  · rcases hstates hash wtx' hlookup with ⟨-, hunconfirmed⟩ | ⟨hout, wtx, hold, hsame⟩
    · rw [hunconfirmed] at hstatus
      cases hstatus
    · rw [hsame] at hstatus ⊢
      obtain ⟨block', rest', hsuffix, hat, hin⟩ := h.confirmed hash wtx hold hstatus
      rcases suffix_cons_iff.mp hsuffix with heq | hsuffix
      · cases heq
        exact absurd hin hout
      · exact ⟨block', rest', hsuffix, hat, hin⟩
  · rcases hstates hash wtx' hlookup with ⟨-, hunconfirmed⟩ | ⟨-, wtx, hold, hsame⟩
    · rw [hunconfirmed] at hstatus
      cases hstatus
    · rw [hsame] at hstatus ⊢
      obtain ⟨block', hseen, hhash, tx, htx, hconflict⟩ := h.conflicted hash wtx hold hstatus
      exact ⟨block', hseen, hhash, tx, htx, hgrows.displaces hconflict⟩

theorem Marks.step {event : WalletTxEvent} (h : n.Marks Y seen)
    (hseen : ∀ block, event = .blockConnected block → block ∈ seen)
    (hok : n.step mine Y event = .ok n') : n'.Marks Y seen := by
  obtain ⟨w, chain⟩ := n
  obtain ⟨w', chain'⟩ := n'
  rcases step_cases hok with ⟨rfl, hsame⟩ | ⟨block, rfl, rfl, hconnected⟩ |
    ⟨-, block, rfl, hdisconnected⟩
  · exact h.unplaced hsame
  · exact h.connected (hseen block rfl) hconnected
  · exact h.disconnected hdisconnected

theorem Marks.run {events : List WalletTxEvent} (h : n.Marks Y seen)
    (hseen : connectedBlocks events ⊆ seen) (hrun : n.run mine Y events = .ok n') :
    n'.Marks Y seen := by
  induction events generalizing n with
  | nil =>
    cases hrun
    exact h
  | cons event events ih =>
    unfold FollowedChain.run at hrun
    rw [foldlM_cons] at hrun
    obtain ⟨n₁, hstep, hrest⟩ := bind_eq_ok.mp hrun
    have hfirst : ∀ block, event = .blockConnected block → block ∈ seen := by
      rintro block rfl
      exact hseen (mem_cons_self)
    have hothers : connectedBlocks events ⊆ seen := by
      intro block hblock
      obtain ⟨event', hmem, hevent'⟩ := mem_filterMap.mp hblock
      exact hseen (mem_filterMap.mpr ⟨event', mem_cons_of_mem event hmem, hevent'⟩)
    exact ih (h.step hfirst hstep) hothers hrest

theorem Marks.conflicted_of_neg (h : n.Marks Y seen) {hash : Uint256} {wtx : CWalletTx}
    (hlookup : n.wallet.mapWallet.lookup hash = some wtx)
    (hneg : n.wallet.getDepthInMainChain wtx < 0) : wtx.confirm.status = .conflicted := by
  unfold getDepthInMainChain at hneg
  cases hstatus : wtx.confirm.status with
  | conflicted => rfl
  | unconfirmed => simp [hstatus] at hneg
  | abandoned => simp [hstatus] at hneg
  | confirmed =>
    exfalso
    obtain ⟨block, rest, hsuffix, hat, -⟩ := h.confirmed hash wtx hlookup hstatus
    have hlength := hsuffix.length_le
    rw [length_cons] at hlength
    simp only [hstatus, reduceCtorEq, or_self, if_false, mul_one] at hneg
    rw [h.height, hat] at hneg
    omega

theorem Marks.displaced (h : n.Marks Y seen)
    (hinjective : ∀ b ∈ seen, ∀ b' ∈ seen, b.header.getHash Y = b'.header.getHash Y → b = b')
    {hash : Uint256} {wtx : CWalletTx} (hlookup : n.wallet.mapWallet.lookup hash = some wtx)
    (hstatus : wtx.confirm.status = .conflicted) {block : CBlock} (hblock : block ∈ n.chain)
    (hhash : block.header.getHash Y = wtx.confirm.hashBlock) :
    ∃ tx ∈ block.vtx, n.wallet.Displaces tx hash := by
  obtain ⟨block', hseen, hhash', tx, htx, hconflict⟩ := h.conflicted hash wtx hlookup hstatus
  have heq : block' = block :=
    hinjective block' hseen block (h.chain hblock) (hhash'.trans hhash.symm)
  subst heq
  exact ⟨tx, htx, hconflict⟩

/-- What the tip spends in place of the wallet's transactions is spent again in `final`, by the same
transaction or by one that is not the wallet's. -/
def respends (n : FollowedChain X) (final : List CBlock) : Bool :=
  (n.chain.take 1).all fun block => block.vtx.all fun tx => tx.vin.all fun txin =>
    (n.wallet.spendersOf txin.prevout).all (· == tx.getHash X) ||
      final.any fun block' => block'.vtx.any fun tx' =>
        (tx'.vin.map CTxIn.prevout).contains txin.prevout &&
          (tx' == tx || (n.wallet.mapWallet.lookup (tx'.getHash X)).isNone)

/-- Every block that is disconnected is respent. -/
def respendsAll (mine : WalletTxs X → CTransaction → Bool) (Y : HeaderHashes)
    (final : List CBlock) (n : FollowedChain X) : List WalletTxEvent → Bool
  | [] => true
  | event :: events =>
    (match event with
      | .blockDisconnected => n.respends final
      | _ => true) &&
    match n.step mine Y event with
    | .ok n' => respendsAll mine Y final n' events
    | .error _ => true

/-- Every conflict mark is from a transaction in the chain or in `final`. -/
def Held (n : FollowedChain X) (final : List CBlock) : Prop :=
  ∀ hash wtx, n.wallet.mapWallet.lookup hash = some wtx → wtx.confirm.status = .conflicted →
    ∃ block ∈ n.chain ++ final, ∃ tx ∈ block.vtx, n.wallet.Displaces tx hash

theorem respends_displaces {block : CBlock} {tx : CTransaction} {hash : Uint256} {wtx : CWalletTx}
    (h : n.respends chain = true) (hblock : block ∈ n.chain.take 1) (htx : tx ∈ block.vtx)
    (hlookup : n.wallet.mapWallet.lookup hash = some wtx) (hconflict : n.wallet.Displaces tx hash) :
    ∃ block' ∈ chain, ∃ tx' ∈ block'.vtx, n.wallet.Displaces tx' hash := by
  obtain ⟨hne, a, ha, hancestor, outpoint, hmem, hspent⟩ := hconflict
  obtain ⟨txin, hin, rfl⟩ := mem_map.mp hspent
  have hspender : a ∈ n.wallet.spendersOf txin.prevout := by
    simpa [spendersOf] using hmem
  have hcond := all_eq_true.mp (all_eq_true.mp (all_eq_true.mp h block hblock) tx htx) txin hin
  rcases (Bool.or_eq_true _ _).mp hcond with hown | hagain
  · exact absurd (beq_iff_eq.mp (all_eq_true.mp hown a hspender)) ha
  obtain ⟨block', hblock', hagain⟩ := any_eq_true.mp hagain
  obtain ⟨tx', htx', hagain⟩ := any_eq_true.mp hagain
  simp only [Bool.and_eq_true, contains_iff_mem, Bool.or_eq_true, beq_iff_eq,
    Option.isNone_iff_eq_none] at hagain
  obtain ⟨hspent', rfl | hnone⟩ := hagain
  · exact ⟨block', hblock', tx', htx', hne, a, ha, hancestor, _, hmem, hspent'⟩
  · obtain ⟨atx, hatx, -⟩ := (n.wallet.spends _ a).mp hmem
    refine ⟨block', hblock', tx', htx', ?_, a, ?_, hancestor, _, hmem, hspent'⟩
    · rintro rfl
      cases hnone.symm.trans hlookup
    · rintro rfl
      cases hnone.symm.trans hatx

theorem Held.step {event : WalletTxEvent} (h : n.Held chain)
    (hrespends : event = .blockDisconnected → n.respends chain = true)
    (hok : n.step mine Y event = .ok n') : n'.Held chain := by
  obtain ⟨w, blocks⟩ := n
  obtain ⟨w', blocks'⟩ := n'
  intro hash wtx' hlookup hstatus
  rcases step_cases hok with ⟨rfl, hgrows, hstates⟩ | ⟨block, rfl, rfl, hconnected⟩ |
    ⟨hevent, block, rfl, hdisconnected⟩
  · rcases hstates hash wtx' hlookup with ⟨wtx, hold, hsame⟩ | hnew | hnew
    · obtain ⟨block, hblock, tx, htx, hconflict⟩ := h hash wtx hold (hsame ▸ hstatus)
      exact ⟨block, hblock, tx, htx, hgrows.displaces hconflict⟩
    · rw [hnew] at hstatus
      cases hstatus
    · rw [hnew] at hstatus
      cases hstatus
  · obtain ⟨hgrows, hstates⟩ := blockConnected_ok hconnected
    rcases hstates hash wtx' hlookup with ⟨wtx, hold, hsame⟩ | ⟨hconfirmed, -⟩ | ⟨-, hconflict⟩
    · obtain ⟨block', hblock, tx, htx, hconflict⟩ := h hash wtx hold (hsame ▸ hstatus)
      exact ⟨block', mem_cons_of_mem block hblock, tx, htx, hgrows.displaces hconflict⟩
    · cases hconfirmed.symm.trans hstatus
    · exact ⟨block, mem_cons_self, hconflict⟩
  · obtain ⟨hgrows, hstates⟩ := blockDisconnected_ok hdisconnected
    rcases hstates hash wtx' hlookup with ⟨-, hunconfirmed⟩ | ⟨-, wtx, hold, hsame⟩
    · rw [hunconfirmed] at hstatus
      cases hstatus
    · obtain ⟨block', hblock, tx, htx, hconflict⟩ := h hash wtx hold (hsame ▸ hstatus)
      rcases mem_cons.mp hblock with rfl | hblock
      · -- the conflict was with the block that leaves
        obtain ⟨block', hblock', tx', htx', hconflict'⟩ :=
          respends_displaces (hrespends hevent) mem_cons_self htx hold hconflict
        exact ⟨block', mem_append_right _ hblock', tx', htx', hgrows.displaces hconflict'⟩
      · exact ⟨block', hblock, tx, htx, hgrows.displaces hconflict⟩

theorem Held.run {events : List WalletTxEvent} (h : n.Held chain)
    (hrespends : n.respendsAll mine Y chain events = true)
    (hrun : n.run mine Y events = .ok n') : n'.Held chain := by
  induction events generalizing n with
  | nil =>
    cases hrun
    exact h
  | cons event events ih =>
    unfold FollowedChain.run at hrun
    rw [foldlM_cons] at hrun
    obtain ⟨n₁, hstep, hrest⟩ := bind_eq_ok.mp hrun
    unfold respendsAll at hrespends
    rw [hstep, Bool.and_eq_true] at hrespends
    refine ih (h.step ?_ hstep) hrespends.2 hrest
    rintro rfl
    exact hrespends.1

end FollowedChain

namespace WalletTxs
variable {X : Crypto} {Y : HeaderHashes} {chain : List CBlock} {w w' : WalletTxs X}

theorem heightOf_eq_some {hash : Uint256} {height : ℕ} (h : heightOf Y hash chain = some height) :
    height < chain.length ∧ ∃ block ∈ chain, block.header.getHash Y = hash := by
  induction chain with
  | nil => cases h
  | cons block rest ih =>
    unfold heightOf at h
    split_ifs at h with hhash
    · cases h
      exact ⟨by simp, block, mem_cons_self, hhash⟩
    · obtain ⟨hlt, block', hmem, hhash'⟩ := ih h
      refine ⟨?_, block', mem_cons_of_mem block hmem, hhash'⟩
      rw [length_cons]
      omega

theorem reload_placed {confirm : Confirmation}
    (h : (reload Y chain confirm).status = .conflicted ∨ (reload Y chain confirm).status = .confirmed) :
    (reload Y chain confirm).status = confirm.status ∧
      (∃ block ∈ chain, block.header.getHash Y = confirm.hashBlock) ∧
      ∃ height : ℕ, (reload Y chain confirm).blockHeight = height ∧ height < chain.length := by
  unfold reload at h ⊢
  split
  · rename_i height hheight
    obtain ⟨hlt, hblock⟩ := heightOf_eq_some hheight
    exact ⟨rfl, hblock, height, rfl, hlt⟩
  · rename_i hnone
    rw [hnone] at h
    dsimp only at h
    split_ifs at h with hplaced
    · rcases h with h | h <;> cases h
    · exact absurd h hplaced

theorem markConflicted_loading (hheight : w.lastBlockProcessedHeight = -1) {hashBlock hash : Uint256}
    {height : ℤ} (hpos : 0 ≤ height) : w.markConflicted hashBlock height hash = .ok w := by
  unfold markConflicted
  dsimp only
  rw [if_pos]
  rw [hheight]
  omega

theorem markFromParents_loading (hheight : w.lastBlockProcessedHeight = -1)
    (hmarks : ∀ hash wtx, w.mapWallet.lookup hash = some wtx →
      wtx.confirm.status = .conflicted → 0 ≤ wtx.confirm.blockHeight)
    (hash : Uint256) (vin : List CTxIn) : w.markFromParents hash vin = .ok w := by
  unfold markFromParents
  induction vin with
  | nil => rfl
  | cons txin vin ih =>
    rw [foldlM_cons]
    cases hlookup : w.mapWallet.lookup txin.prevout.hash with
    | none => exact ih
    | some prevtx =>
      dsimp only
      split_ifs with hstatus
      · rw [markConflicted_loading hheight (hmarks _ prevtx hlookup hstatus)]
        exact ih
      · exact ih

variable (Y : HeaderHashes) (chain : List CBlock)

def reloaded (_ : Uint256) (wtx : CWalletTx) : CWalletTx :=
  ⟨wtx.tx, reload Y chain wtx.confirm, false⟩

theorem foldlM_loadToWallet
    {entries : List (Sigma fun _ : Uint256 => CWalletTx)}
    (hnodup : entries.NodupKeys) (hkeyed : ∀ e ∈ entries, e.2.tx.getHash X = e.1)
    (hnew : ∀ e ∈ entries, w.mapWallet.lookup e.1 = none)
    (hheight : w.lastBlockProcessedHeight = -1)
    (hmarks : ∀ hash wtx, w.mapWallet.lookup hash = some wtx →
      wtx.confirm.status = .conflicted → 0 ≤ wtx.confirm.blockHeight) :
    ∃ w', (entries.map Sigma.snd).foldlM (loadToWallet Y chain) w = .ok w' ∧
      w'.mapWallet = Assoc.insertAll (reloaded Y chain) entries w.mapWallet := by
  induction entries generalizing w with
  | nil => exact ⟨w, rfl, rfl⟩
  | cons e entries ih =>
    obtain ⟨hash, wtx⟩ := e
    rw [nodupKeys_cons] at hnodup
    have hhash : wtx.tx.getHash X = hash := hkeyed ⟨hash, wtx⟩ mem_cons_self
    subst hhash
    have hnone := hnew _ mem_cons_self
    let w₁ := w.insert wtx.tx (reload Y chain wtx.confirm) hnone
    have hmarks₁ : ∀ other wtx', w₁.mapWallet.lookup other = some wtx' →
        wtx'.confirm.status = .conflicted → 0 ≤ wtx'.confirm.blockHeight := by
      intro other wtx' hlookup hstatus
      change (w.mapWallet.insert (wtx.tx.getHash X) _).lookup other = some wtx' at hlookup
      by_cases heq : other = wtx.tx.getHash X
      · rw [heq, AList.lookup_insert] at hlookup
        cases hlookup
        obtain ⟨-, -, height, hat, -⟩ := reload_placed (.inl hstatus)
        rw [hat]
        omega
      · rw [AList.lookup_insert_ne heq] at hlookup
        exact hmarks other wtx' hlookup hstatus
    have hload : loadToWallet Y chain w wtx = .ok w₁ := by
      unfold loadToWallet
      split
      · exact markFromParents_loading (w := w₁) hheight hmarks₁ _ _
      · rename_i hsome
        cases hnone.symm.trans hsome
    have hnew₁ : ∀ e ∈ entries, w₁.mapWallet.lookup e.1 = none := by
      intro e he
      have hne : e.1 ≠ wtx.tx.getHash X := by
        intro heq
        have hmem := mem_keys_of_mem he
        rw [heq] at hmem
        exact hnodup.1 hmem
      change (w.mapWallet.insert (wtx.tx.getHash X) _).lookup e.1 = none
      rw [AList.lookup_insert_ne hne]
      exact hnew e (mem_cons_of_mem _ he)
    obtain ⟨w', hrest, hmap⟩ := ih hnodup.2 (fun e he => hkeyed e (mem_cons_of_mem _ he))
      hnew₁ hheight hmarks₁
    refine ⟨w', ?_, hmap⟩
    rw [map_cons, foldlM_cons, hload]
    exact hrest

theorem restart_ok (w : WalletTxs X) :
    ∃ w', w.restart Y chain = .ok w' ∧
    w'.lastBlockProcessedHeight = chain.length - 1 ∧ ∀ hash,
      w'.mapWallet.lookup hash = (w.mapWallet.lookup hash).map (reloaded Y chain hash) := by
  have hkeyed :=
    Assoc.forall_entries_iff.mpr w.keyed
  obtain ⟨w₁, hload, hmap⟩ := foldlM_loadToWallet Y chain (w := new (-1) 0)
    w.mapWallet.nodupKeys hkeyed (fun _ _ => rfl) rfl (fun _ _ h => by cases h)
  refine ⟨_, map_eq_ok.mpr ⟨w₁, hload, rfl⟩, rfl, fun hash => ?_⟩
  change w₁.mapWallet.lookup hash = _
  rw [hmap, Assoc.lookup_insertAll _ w.mapWallet.nodupKeys]
  change Option.or _ none = _
  rw [Option.or_none]
  rfl

theorem grows_of_sameTxs (h : SameTxs w.mapWallet w'.mapWallet)
    (hheight : w'.lastBlockProcessedHeight = w.lastBlockProcessedHeight) : Grows w w' where
  keys := fun _ => isSome_of_sameTxs h
  spends := by
    rintro ⟨outpoint, hash⟩ hmem
    obtain ⟨wtx, hlookup, hspent⟩ := (w.spends outpoint hash).mp hmem
    obtain ⟨wtx', hlookup', htx⟩ := h.symm.some hlookup
    exact (w'.spends outpoint hash).mpr ⟨wtx', hlookup', htx ▸ hspent⟩
  height := hheight

end WalletTxs

namespace FollowedChain
variable {X : Crypto} {mine : WalletTxs X → CTransaction → Bool} {Y : HeaderHashes}
  {seen : List CBlock} {n n' : FollowedChain X}

theorem Marks.restart (h : n.Marks Y seen)
    (hinjective : ∀ b ∈ seen, ∀ b' ∈ seen, b.header.getHash Y = b'.header.getHash Y → b = b') :
    ∃ w', n.wallet.restart Y n.chain = .ok w' ∧ w'.DepthsJustified n.chain := by
  obtain ⟨w', hrestart, hheight, hlookups⟩ := restart_ok Y n.chain n.wallet
  have hgrows : Grows n.wallet w' := by
    apply grows_of_sameTxs _ (hheight.trans h.height.symm)
    intro hash
    rw [hlookups, Option.map_map]
    rfl
  refine ⟨w', hrestart, fun hash wtx' hlookup' hneg => ?_⟩
  rw [hlookups] at hlookup'
  obtain ⟨wtx, hlookup, rfl⟩ := Option.map_eq_some_iff.mp hlookup'
  unfold getDepthInMainChain at hneg
  change (if (reload Y n.chain wtx.confirm).status = _ ∨ (reload Y n.chain wtx.confirm).status = _
    then _ else (_ - (reload Y n.chain wtx.confirm).blockHeight + 1) *
      if (reload Y n.chain wtx.confirm).status = _ then -1 else 1) < 0 at hneg
  cases hstatus : (reload Y n.chain wtx.confirm).status with
  | unconfirmed => simp [hstatus] at hneg
  | abandoned => simp [hstatus] at hneg
  | confirmed =>
    exfalso
    obtain ⟨-, -, height, hat, hlt⟩ := reload_placed (.inr hstatus)
    simp only [hstatus, reduceCtorEq, or_self, if_false, mul_one] at hneg
    rw [hheight, hat] at hneg
    omega
  | conflicted =>
    obtain ⟨hkept, ⟨block, hblock, hhash⟩, -⟩ := reload_placed (.inl hstatus)
    obtain ⟨tx, htx, hconflict⟩ :=
      h.displaced hinjective hlookup (hkept.symm.trans hstatus) hblock hhash
    exact ⟨block, hblock, tx, htx, (hgrows.displaces hconflict).conflictsBy⟩

/-- Whatever blocks come and go, a restarted wallet has a negative depth only for a transaction that
conflicts with the chain. The running wallet does too if what disconnected blocks spend in place of
its transactions is spent again in the chain. -/
theorem run_depthsJustified (chain : List CBlock) (events : List WalletTxEvent)
    (hinjective : ∀ b ∈ chain ++ connectedBlocks events, ∀ b' ∈ chain ++ connectedBlocks events,
      b.header.getHash Y = b'.header.getHash Y → b = b')
    (hrun : (start Y chain).run mine Y events = .ok n') :
    (∃ w', n'.wallet.restart Y n'.chain = .ok w' ∧ w'.DepthsJustified n'.chain) ∧
      ((start Y chain).respendsAll mine Y n'.chain events = true →
        n'.wallet.DepthsJustified n'.chain) := by
  have hmarks :=
    (marks_start (subset_append_left _ _)).run (subset_append_right _ _) hrun
  refine ⟨hmarks.restart hinjective, fun hrespends hash wtx hlookup hneg => ?_⟩
  have hstart : (start Y chain : FollowedChain X).Held n'.chain := by
    intro hash wtx hlookup
    cases hlookup
  obtain ⟨block, hblock, tx, htx, hconflict⟩ :=
    hstart.run hrespends hrun hash wtx hlookup (hmarks.conflicted_of_neg hlookup hneg)
  exact ⟨block, by simpa using hblock, tx, htx, hconflict.conflictsBy⟩

end FollowedChain

namespace SampleReorg
open SampleWallet

def ours : CTransaction := spend ⟨7, 0⟩ 0

def theirs : CTransaction := spend ⟨7, 0⟩ 1

def events : List WalletTxEvent :=
  [.commitTransaction ours true, .transactionRemovedFromMempool ours .conflict,
    .blockConnected (block 2 1 [theirs]), .blockDisconnected]

/-- The blocks of `events`, and a new tip with the transactions. -/
def run (vtx : List CTransaction) : Except Fault (FollowedChain crypto) :=
  (FollowedChain.start hashes [genesis]).run (fun _ _ => false) hashes
    (events ++ [.blockConnected (block 3 1 vtx)])

end SampleReorg

open SampleWallet SampleReorg in
/-- The wallet still counts its transaction as conflicted. -/
theorem reorg_keeps_conflict :
    ∃ n', SampleReorg.run [] = .ok n' ∧ ¬ n'.wallet.DepthsJustified n'.chain := by
  have hrun : Sat (fun _ => False) (fun n' : FollowedChain crypto =>
      (∃ wtx ∈ n'.wallet.mapWallet.lookup (ours.getHash crypto),
        n'.wallet.getDepthInMainChain wtx < 0) ∧
      ∀ block ∈ n'.chain, ∀ tx ∈ block.vtx, ∀ spend ∈ n'.wallet.mapTxSpends,
        spend.1 ∉ tx.vin.map CTxIn.prevout) (SampleReorg.run []) := by
    decide +kernel
  obtain ⟨n', hok, ⟨wtx, hlookup, hneg⟩, hnone⟩ := hrun.exists_ok
  refine ⟨n', hok, fun hall => ?_⟩
  obtain ⟨block, hblock, tx, htx, -, a, -, outpoint, hmem, hspent⟩ := hall _ wtx hlookup hneg
  exact hnone block hblock tx htx (outpoint, a) hmem hspent

open SampleWallet SampleReorg in
/-- The other transaction is in the new tip again. -/
theorem run_depthsJustified_reorg : ∃ n', SampleReorg.run [theirs] = .ok n' ∧
    (∃ w', n'.wallet.restart hashes n'.chain = .ok w' ∧ w'.DepthsJustified n'.chain) ∧
      (∃ wtx ∈ n'.wallet.mapWallet.lookup (ours.getHash crypto),
        n'.wallet.getDepthInMainChain wtx < 0) ∧ n'.wallet.DepthsJustified n'.chain := by
  have hrun : Sat (fun _ => False) (fun n' : FollowedChain crypto =>
      (∃ wtx ∈ n'.wallet.mapWallet.lookup (ours.getHash crypto),
        n'.wallet.getDepthInMainChain wtx < 0) ∧
      (FollowedChain.start (X := crypto) hashes [genesis]).respendsAll (fun _ _ => false) hashes n'.chain
        (events ++ [.blockConnected (block 3 1 [theirs])]) = true) (SampleReorg.run [theirs]) := by
    decide +kernel
  obtain ⟨n', hok, hneg, hrespends⟩ := hrun.exists_ok
  have hdistinct : (([genesis] ++ connectedBlocks (events ++ [.blockConnected
      (block 3 1 [theirs])])).map fun b => b.header.getHash hashes).Nodup := by
    decide +kernel
  obtain ⟨hrestart, hjustified⟩ := FollowedChain.run_depthsJustified [genesis] _
    (fun b hb b' hb' heq => inj_on_of_nodup_map hdistinct hb hb' heq) hok
  exact ⟨n', hok, hrestart, hneg, hjustified hrespends⟩

end Vexta
