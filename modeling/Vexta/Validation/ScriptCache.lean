import Vexta.Primitives.TxCode
import Vexta.Script.CuckooCache
import Vexta.Script.PqrHash
import Vexta.Validation.InputScripts

/-! The caches of verified signatures and of transactions whose scripts have all been run. -/
namespace Vexta
open Lib List CTransaction

def signatureCacheHasher (hashSelect : ℕ) (key : Uint256) : BitVec 32 :=
  key.extractLsb' (32 * hashSelect) 32

abbrev HashCache := CuckooCache Uint256

namespace HashCache

def contains (c : HashCache) (entry : Uint256) (erase : Bool) : Bool × HashCache :=
  CuckooCache.contains signatureCacheHasher c entry erase

def insert (c : HashCache) (entry : Uint256) : HashCache :=
  CuckooCache.insert signatureCacheHasher c entry

def setup (newSize depthLimit : ℕ) : HashCache := CuckooCache.setup 0 newSize depthLimit

end HashCache

def Flags.word (flags : Flags) : BitVec 32 :=
  (BitVec.ofBoolListLE (ScriptVerify.all.map flags)).setWidth 32

def sigCacheString (nonce : Uint256) (padding : UInt8) (hash : Uint256) (pubkey sig : Bytes) :
    Bytes :=
  le 32 nonce.toNat ++ (padding :: List.replicate 31 0) ++ le 32 hash.toNat ++ pubkey ++ sig

def paddingECDSA : UInt8 := 69

def paddingSchnorr : UInt8 := 83

variable (X : Crypto)

def computeEntryECDSA (nonce hash : Uint256) (vchSig pubkey : Bytes) : Uint256 :=
  X.sha256 (sigCacheString nonce paddingECDSA hash pubkey vchSig)

def computeEntrySchnorr (nonce hash : Uint256) (sig pubkey : Bytes) : Uint256 :=
  X.sha256 (sigCacheString nonce paddingSchnorr hash pubkey sig)

def scriptCacheString (nonce : Uint256) (tx : CTransaction) (flags : Flags) : Bytes :=
  le 32 nonce.toNat ++ le 32 nonce.toNat ++ le 32 (tx.getWitnessHash X).toNat ++ le 4 flags.word.toNat

def scriptCacheEntry (nonce : Uint256) (tx : CTransaction) (flags : Flags) : Uint256 :=
  X.sha256 (scriptCacheString X nonce tx flags)

theorem Flags.getLsbD_word (flags : Flags) {i : ℕ} (hi : i < 22) :
    flags.word.getLsbD i = (ScriptVerify.all.map flags).getD i false := by
  have hlt : i < 32 := by omega
  simp [Flags.word, BitVec.getLsbD_ofBoolListLE, hlt]

theorem Flags.word_inj {F G : Flags} (h : F.word = G.word) : F = G := by
  funext f
  obtain ⟨i, hi, hf⟩ : ∃ i, i < 22 ∧ ScriptVerify.all[i]? = some f := by
    cases f <;> decide
  have hbit := congrArg (BitVec.getLsbD · i) h
  simp only [Flags.getLsbD_word _ hi, getD_eq_getElem?_getD, List.getElem?_map, hf,
    Option.map_some, Option.getD_some] at hbit
  exact hbit

/-- SHA256 has no collision among the strings, and no null hash. -/
structure CollisionFree (X : Crypto) (S : Set Bytes) : Prop where
  injOn : S.InjOn X.sha256
  notNull : ∀ s ∈ S, X.sha256 s ≠ 0

/-- Signature caches that lookups and insertions of verified signatures reach. -/
inductive SigCacheReached (X : Crypto) (nonce : Uint256) (S : Set Bytes) : HashCache → Prop
  | setup (newSize depthLimit : ℕ) : SigCacheReached X nonce S (HashCache.setup newSize depthLimit)
  | get {c : HashCache} (reached : SigCacheReached X nonce S c) (entry : Uint256) (erase : Bool) :
      SigCacheReached X nonce S (HashCache.contains c entry erase).2
  | setECDSA {c : HashCache} {hash : Uint256} {vchSig pubkey : Bytes}
      (reached : SigCacheReached X nonce S c) (valid : isValidPubKey pubkey = true)
      (mem : sigCacheString nonce paddingECDSA hash pubkey vchSig ∈ S)
      (verified : X.verify pubkey hash vchSig = true) :
      SigCacheReached X nonce S (HashCache.insert c (computeEntryECDSA X nonce hash vchSig pubkey))
  | setSchnorr {c : HashCache} {hash : Uint256} {sig pubkey : Bytes}
      (reached : SigCacheReached X nonce S c) (length : pubkey.length = 32)
      (mem : sigCacheString nonce paddingSchnorr hash pubkey sig ∈ S)
      (verified : X.verifySchnorr pubkey hash sig = true) :
      SigCacheReached X nonce S (HashCache.insert c (computeEntrySchnorr X nonce hash sig pubkey))

structure SigLookups where
  ecdsa : Bytes → Uint256 → Bytes → Bool
  schnorr : Bytes → Uint256 → Bytes → Bool

/-- `CachingTransactionSignatureChecker`: a cached signature is not verified. -/
def Crypto.cached (lookups : SigLookups) : Crypto :=
  { X with
    verify := fun pubkey sighash vchSig =>
      lookups.ecdsa pubkey sighash vchSig || X.verify pubkey sighash vchSig
    verifySchnorr := fun pubkey sighash sig =>
      lookups.schnorr pubkey sighash sig || X.verifySchnorr pubkey sighash sig }

/-- What was found was in some cache at the time. -/
structure SigLookups.Found (lookups : SigLookups) (X : Crypto) (nonce : Uint256) (S : Set Bytes) :
    Prop where
  ecdsa : ∀ pubkey hash vchSig, lookups.ecdsa pubkey hash vchSig = true →
    isValidPubKey pubkey = true ∧ sigCacheString nonce paddingECDSA hash pubkey vchSig ∈ S ∧
      ∃ c erase, SigCacheReached X nonce S c ∧
        (HashCache.contains c (computeEntryECDSA X nonce hash vchSig pubkey) erase).1 = true
  schnorr : ∀ pubkey hash sig, lookups.schnorr pubkey hash sig = true →
    pubkey.length = 32 ∧ sigCacheString nonce paddingSchnorr hash pubkey sig ∈ S ∧
      ∃ c erase, SigCacheReached X nonce S c ∧
        (HashCache.contains c (computeEntrySchnorr X nonce hash sig pubkey) erase).1 = true

section Signatures
variable {X : Crypto} {nonce : Uint256} {S : Set Bytes} {c : HashCache}

inductive SigEntry (X : Crypto) (nonce : Uint256) (S : Set Bytes) : Uint256 → Prop
  | ecdsa {hash : Uint256} {vchSig pubkey : Bytes} (valid : isValidPubKey pubkey = true)
      (mem : sigCacheString nonce paddingECDSA hash pubkey vchSig ∈ S)
      (verified : X.verify pubkey hash vchSig = true) :
      SigEntry X nonce S (computeEntryECDSA X nonce hash vchSig pubkey)
  | schnorr {hash : Uint256} {sig pubkey : Bytes} (length : pubkey.length = 32)
      (mem : sigCacheString nonce paddingSchnorr hash pubkey sig ∈ S)
      (verified : X.verifySchnorr pubkey hash sig = true) :
      SigEntry X nonce S (computeEntrySchnorr X nonce hash sig pubkey)

theorem SigCacheReached.entry (h : SigCacheReached X nonce S c) {x : Uint256} (hx : x ∈ c.table) :
    x = 0 ∨ SigEntry X nonce S x := by
  induction h with
  | setup newSize depthLimit => exact .inl (eq_of_mem_replicate hx)
  | get reached entry erase ih =>
    rw [HashCache.contains, CuckooCache.table_contains] at hx
    exact ih hx
  | setECDSA reached valid mem verified ih =>
    rcases CuckooCache.mem_insert hx with hold | rfl
    · exact ih hold
    · exact .inr (.ecdsa valid mem verified)
  | setSchnorr reached length mem verified ih =>
    rcases CuckooCache.mem_insert hx with hold | rfl
    · exact ih hold
    · exact .inr (.schnorr length mem verified)

theorem pubkey_append_inj {pubkey pubkey' s t : Bytes} (h : isValidPubKey pubkey = true)
    (h' : isValidPubKey pubkey' = true) (heq : pubkey ++ s = pubkey' ++ t) :
    pubkey = pubkey' ∧ s = t := by
  cases pubkey with
  | nil => cases h
  | cons header rest =>
    cases pubkey' with
    | nil => cases h'
    | cons header' rest' =>
      obtain rfl : header = header' := (List.cons.inj heq).1
      simp only [isValidPubKey, List.head?_cons, Bool.and_eq_true, beq_iff_eq] at h h'
      exact append_inj heq (h.2.symm.trans h'.2)

theorem sigCacheString_inj {padding padding' : UInt8} {hash hash' : Uint256}
    {pubkey pubkey' sig sig' : Bytes}
    (h : sigCacheString nonce padding hash pubkey sig =
      sigCacheString nonce padding' hash' pubkey' sig') :
    padding = padding' ∧ hash = hash' ∧ pubkey ++ sig = pubkey' ++ sig' := by
  have hword : PrefixFree fun x : Uint256 => le 32 x.toNat := prefixFree_le (by norm_num)
  simp only [sigCacheString, append_assoc] at h
  obtain ⟨-, h⟩ := hword h
  simp only [cons_append, List.cons.injEq, append_cancel_left_eq] at h
  obtain ⟨hpadding, h⟩ := h
  obtain ⟨hhash, h⟩ := hword h
  exact ⟨hpadding, hhash, h⟩

theorem SigLookups.Found.verified {lookups : SigLookups} (hfree : CollisionFree X S)
    (h : lookups.Found X nonce S) :
    (∀ pubkey hash vchSig, lookups.ecdsa pubkey hash vchSig = true →
      X.verify pubkey hash vchSig = true) ∧
    ∀ pubkey hash sig, lookups.schnorr pubkey hash sig = true →
      X.verifySchnorr pubkey hash sig = true := by
  constructor
  · intro pubkey hash vchSig hhit
    obtain ⟨hvalid, hmem, c, erase, hreached, hfound⟩ := h.ecdsa pubkey hash vchSig hhit
    rcases hreached.entry (CuckooCache.mem_table_of_contains hfound) with hnull | hentry
    · exact absurd hnull (hfree.notNull _ hmem)
    generalize hx : computeEntryECDSA X nonce hash vchSig pubkey = x at hentry
    cases hentry with
    | ecdsa valid mem verified =>
      obtain ⟨-, rfl, hrest⟩ := sigCacheString_inj (hfree.injOn hmem mem hx)
      obtain ⟨rfl, rfl⟩ := pubkey_append_inj hvalid valid hrest
      exact verified
    | schnorr length mem verified =>
      have hpadding := (sigCacheString_inj (hfree.injOn hmem mem hx)).1
      exact absurd hpadding (by decide)
  · intro pubkey hash sig hhit
    obtain ⟨hlength, hmem, c, erase, hreached, hfound⟩ := h.schnorr pubkey hash sig hhit
    rcases hreached.entry (CuckooCache.mem_table_of_contains hfound) with hnull | hentry
    · exact absurd hnull (hfree.notNull _ hmem)
    generalize hx : computeEntrySchnorr X nonce hash sig pubkey = x at hentry
    cases hentry with
    | ecdsa valid mem verified =>
      have hpadding := (sigCacheString_inj (hfree.injOn hmem mem hx)).1
      exact absurd hpadding (by decide)
    | schnorr length mem verified =>
      obtain ⟨-, rfl, hrest⟩ := sigCacheString_inj (hfree.injOn hmem mem hx)
      obtain ⟨rfl, rfl⟩ := append_inj hrest (hlength.trans length.symm)
      exact verified

theorem cached_eq {lookups : SigLookups} (hfree : CollisionFree X S)
    (h : lookups.Found X nonce S) : X.cached lookups = X := by
  obtain ⟨hecdsa, hschnorr⟩ := h.verified hfree
  have hverify : (fun pubkey sighash vchSig =>
      lookups.ecdsa pubkey sighash vchSig || X.verify pubkey sighash vchSig) = X.verify := by
    funext pubkey sighash vchSig
    cases hhit : lookups.ecdsa pubkey sighash vchSig with
    | false => rw [Bool.false_or]
    | true => rw [hecdsa _ _ _ hhit, Bool.true_or]
  have hverify' : (fun pubkey sighash sig =>
      lookups.schnorr pubkey sighash sig || X.verifySchnorr pubkey sighash sig) =
        X.verifySchnorr := by
    funext pubkey sighash sig
    cases hhit : lookups.schnorr pubkey sighash sig with
    | false => rw [Bool.false_or]
    | true => rw [hschnorr _ _ _ hhit, Bool.true_or]
  unfold Crypto.cached
  rw [hverify, hverify']

end Signatures

/-- A call of `CheckInputScripts`. Inputs spend the outputs they name, data is of the transaction.
-/
structure InputScriptsCall (X : Crypto) where
  tx : CTransaction
  inputs : CoinOutputs
  flags : Flags
  txdata : Option PrecomputedTransactionData
  outputs : List CTxOut
  prevs : List CTransaction
  sized : tx.Sized
  vin_ne : tx.vin ≠ []
  prevs_sized : ∀ prev ∈ prevs, prev.Sized
  spent : tx.isCoinBase = false → spentOutputs tx inputs = .ok outputs
  genuine : tx.isCoinBase = false → List.Forall₂ (fun txin out => ∃ prev ∈ prevs,
    prev.getHash X = txin.prevout.hash ∧ prev.vout[txin.prevout.n.toNat]? = some out)
    tx.vin outputs
  data : tx.isCoinBase = false → ∀ data, txdata = some data →
    PrecomputedTransactionData.init X tx outputs false = .ok data

namespace InputScriptsCall
variable {X : Crypto} (call : InputScriptsCall X)

def strings (nonce : Uint256) : List Bytes :=
  scriptCacheString X nonce call.tx call.flags ::
    X.hashedTwice (call.tx.serialize :: call.prevs.map serializeNoWitness)

def entry (nonce : Uint256) : Uint256 :=
  scriptCacheEntry X nonce call.tx call.flags

def run (Y : Crypto) (cached : Bool) :
    Except TxFailure (Option PrecomputedTransactionData) :=
  checkInputScripts Y (cachingSignatureChecker Y call.tx) call.tx cached call.inputs call.flags
    call.txdata

def runPushed (Y : Crypto) (cached : Bool) : Except TxFailure Bool := do
  let (checks, txdata) ← pushInputChecks Y call.tx cached call.inputs call.flags call.txdata
  match txdata with
  | none => .ok true
  | some data => .ok (checks.all fun check =>
      check.run Y (cachingSignatureChecker Y call.tx) call.tx data = .ok ())

end InputScriptsCall

/-- Script caches: a transaction is inserted when its inline checks succeeded. -/
inductive ScriptCacheReached (X : Crypto) (nonce sigNonce : Uint256) (S : Set Bytes) :
    HashCache → Prop
  | setup (newSize depthLimit : ℕ) :
      ScriptCacheReached X nonce sigNonce S (HashCache.setup newSize depthLimit)
  | lookup {c : HashCache} (reached : ScriptCacheReached X nonce sigNonce S c) (entry : Uint256)
      (erase : Bool) : ScriptCacheReached X nonce sigNonce S (HashCache.contains c entry erase).2
  | store {c : HashCache} (reached : ScriptCacheReached X nonce sigNonce S c)
      (call : InputScriptsCall X) (lookups : SigLookups) (found : lookups.Found X sigNonce S)
      (strings : ∀ s ∈ call.strings nonce, s ∈ S) (coinbase : call.tx.isCoinBase = false)
      (miss : (HashCache.contains c (call.entry nonce) false).1 = false)
      (passed : ∃ data, call.run (X.cached lookups) false = .ok data) :
      ScriptCacheReached X nonce sigNonce S (HashCache.insert c (call.entry nonce))

section Scripts
variable {X : Crypto} {nonce sigNonce : Uint256} {S : Set Bytes} {c : HashCache}

theorem ScriptCacheReached.entry (hfree : CollisionFree X S)
    (h : ScriptCacheReached X nonce sigNonce S c) {x : Uint256} (hx : x ∈ c.table) :
    x = 0 ∨ ∃ call : InputScriptsCall X, x = call.entry nonce ∧ call.tx.isCoinBase = false ∧
      (∀ s ∈ call.strings nonce, s ∈ S) ∧ ∃ data, call.run X false = .ok data := by
  induction h with
  | setup newSize depthLimit => exact .inl (eq_of_mem_replicate hx)
  | lookup reached entry erase ih =>
    rw [HashCache.contains, CuckooCache.table_contains] at hx
    exact ih hx
  | store reached call lookups found strings coinbase miss passed ih =>
    rcases CuckooCache.mem_insert hx with hold | rfl
    · exact ih hold
    · rw [cached_eq hfree found] at passed
      exact .inr ⟨call, rfl, coinbase, strings, passed⟩

theorem scriptCacheString_inj {tx tx' : CTransaction} {flags flags' : Flags}
    (h : scriptCacheString X nonce tx flags = scriptCacheString X nonce tx' flags') :
    tx.getWitnessHash X = tx'.getWitnessHash X ∧ flags = flags' := by
  have hhash : PrefixFree fun x : Uint256 => le 32 x.toNat := prefixFree_le (by norm_num)
  have hword : PrefixFree fun x : BitVec 32 => le 4 x.toNat := prefixFree_le (by norm_num)
  simp only [scriptCacheString, append_assoc, append_cancel_left_eq] at h
  obtain ⟨hwitness, h⟩ := hhash h
  exact ⟨hwitness, Flags.word_inj (hword (congrArg (· ++ []) h)).1⟩

variable {a b : InputScriptsCall X}

theorem InputScriptsCall.outputs_eq (hfree : CollisionFree X S)
    (ha : ∀ s ∈ a.strings nonce, s ∈ S) (hb : ∀ s ∈ b.strings nonce, s ∈ S) (htx : a.tx = b.tx)
    (hcoinbase : a.tx.isCoinBase = false) : a.outputs = b.outputs := by
  have hstrings : ∀ {call : InputScriptsCall X}, (∀ s ∈ call.strings nonce, s ∈ S) →
      ∀ s ∈ X.hashedTwice (call.tx.serialize :: call.prevs.map serializeNoWitness),
        s ∈ S :=
    fun h s hs => h s (mem_cons_of_mem _ hs)
  have hgenuine := a.genuine hcoinbase
  have hgenuine' := b.genuine (htx ▸ hcoinbase)
  rw [← htx] at hgenuine'
  have hlength := hgenuine.length_eq
  have hlength' := hgenuine'.length_eq
  apply ext_getElem
  · omega
  intro i hi hi'
  obtain ⟨prev, hprev, hhash, hout⟩ := hgenuine.get (hlength ▸ hi) hi
  obtain ⟨prev', hprev', hhash', hout'⟩ := hgenuine'.get (hlength ▸ hi) hi'
  -- the two previous transactions have the same hash, so they have the same outputs
  have hserial :=
    hash256_inj hfree.injOn (hstrings ha) (hstrings hb)
      (mem_cons_of_mem _ (mem_map_of_mem hprev))
      (mem_cons_of_mem _ (mem_map_of_mem hprev')) (hhash.trans hhash'.symm)
  have hstrip := serializeNoWitness_inj (a.prevs_sized prev hprev)
    (b.prevs_sized prev' hprev') hserial
  have hvout : prev.stripWitness.vout = prev'.stripWitness.vout := by rw [hstrip]
  change prev.vout = prev'.vout at hvout
  rw [hvout] at hout
  exact Option.some.inj (hout.symm.trans hout')

theorem InputScriptsCall.eq_of_entry_eq (hfree : CollisionFree X S)
    (ha : ∀ s ∈ a.strings nonce, s ∈ S) (hb : ∀ s ∈ b.strings nonce, s ∈ S)
    (hcoinbase : a.tx.isCoinBase = false) (h : a.entry nonce = b.entry nonce) :
    a.tx = b.tx ∧ a.flags = b.flags ∧ a.outputs = b.outputs := by
  have hstring := hfree.injOn (ha _ mem_cons_self) (hb _ mem_cons_self) h
  obtain ⟨hwitness, hflags⟩ := scriptCacheString_inj hstring
  have hserial :=
    hash256_inj hfree.injOn (fun s hs => ha s (mem_cons_of_mem _ hs))
      (fun s hs => hb s (mem_cons_of_mem _ hs)) mem_cons_self mem_cons_self hwitness
  have htx := serialize_inj a.sized b.sized a.vin_ne b.vin_ne hserial
  exact ⟨htx, hflags, outputs_eq hfree ha hb htx hcoinbase⟩

theorem InputScriptsCall.inputScriptData_eq (hcoinbase : a.tx.isCoinBase = false) :
    inputScriptData X a.tx a.inputs a.txdata =
      PrecomputedTransactionData.init X a.tx a.outputs false := by
  cases hdata : a.txdata with
  | none =>
    unfold inputScriptData
    rw [a.spent hcoinbase, ok_bind]
  | some data => exact (a.data hcoinbase data hdata).symm

theorem InputScriptsCall.pushInputChecks_eq (htx : a.tx = b.tx) (hflags : a.flags = b.flags)
    (houtputs : a.outputs = b.outputs) (hcoinbase : a.tx.isCoinBase = false) :
    pushInputChecks X a.tx false a.inputs a.flags a.txdata =
      pushInputChecks X b.tx false b.inputs b.flags b.txdata := by
  have hcoinbase' : b.tx.isCoinBase = false := htx ▸ hcoinbase
  unfold pushInputChecks
  rw [inputScriptData_eq hcoinbase, inputScriptData_eq hcoinbase', hcoinbase, hcoinbase', htx,
    hflags, houtputs]
  rfl

theorem InputScriptsCall.run_eq (htx : a.tx = b.tx) (hflags : a.flags = b.flags)
    (houtputs : a.outputs = b.outputs) (hcoinbase : a.tx.isCoinBase = false) :
    a.run X false = b.run X false := by
  unfold run checkInputScripts
  rw [pushInputChecks_eq htx hflags houtputs hcoinbase, htx]

theorem InputScriptsCall.run_of_skipped {cached : Bool}
    (h : pushInputChecks X a.tx cached a.inputs a.flags a.txdata = .ok ([], a.txdata)) :
    (fun _ => ()) <$> a.run X cached = .ok () ∧ a.runPushed X cached = .ok true := by
  unfold run runPushed checkInputScripts
  rw [h, ok_bind, ok_bind]
  cases a.txdata with
  | none => exact ⟨rfl, rfl⟩
  | some data => exact ⟨rfl, rfl⟩

theorem InputScriptsCall.runPushed_of_run {data : Option PrecomputedTransactionData}
    (h : a.run X false = .ok data) : a.runPushed X false = .ok true := by
  unfold run checkInputScripts at h
  obtain ⟨⟨checks, txdata⟩, hpush, h⟩ := bind_eq_ok.mp h
  unfold runPushed
  rw [hpush, ok_bind]
  cases txdata with
  | none => rfl
  | some txdata =>
    obtain ⟨u, hrun, -⟩ := bind_eq_ok.mp h
    have hall := forM_eq_ok.mp hrun
    dsimp only
    congr 1
    rw [all_eq_true]
    intro check hcheck
    have hone := hall check hcheck
    unfold runInputCheck at hone
    dsimp only at hone
    split at hone
    · rename_i hok
      exact decide_eq_true hok
    · cases hone
    · split_ifs at hone
      split at hone <;> cases hone

/-- The checks of a call that the cache answers succeed. -/
theorem ScriptCacheReached.passed (hfree : CollisionFree X S)
    (hreached : ScriptCacheReached X nonce sigNonce S c) (call : InputScriptsCall X)
    (hstrings : ∀ s ∈ call.strings nonce, s ∈ S) (hcoinbase : call.tx.isCoinBase = false)
    {erase : Bool} (hcached : (HashCache.contains c (call.entry nonce) erase).1 = true) :
    ∃ data, call.run X false = .ok data := by
  have hentry := hreached.entry hfree (CuckooCache.mem_table_of_contains hcached)
  rcases hentry with hnull | ⟨stored, heq, hstored, hmem, data, hpass⟩
  · exact absurd hnull (hfree.notNull _ (hstrings _ mem_cons_self))
  obtain ⟨htx, hflags, houtputs⟩ :=
    InputScriptsCall.eq_of_entry_eq hfree hstrings hmem hcoinbase heq
  rw [← InputScriptsCall.run_eq htx hflags houtputs hcoinbase] at hpass
  exact ⟨data, hpass⟩

/-- Whatever calls came before, a call succeeds or fails as it does with empty caches, inline or
with its checks pushed. -/
theorem checkInputScripts_cache_independent (hfree : CollisionFree X S)
    (hreached : ScriptCacheReached X nonce sigNonce S c) (call : InputScriptsCall X)
    (hstrings : ∀ s ∈ call.strings nonce, s ∈ S) (lookups : SigLookups)
    (hfound : lookups.Found X sigNonce S) (erase : Bool) :
    (fun _ => ()) <$> call.run (X.cached lookups)
        (HashCache.contains c (call.entry nonce) erase).1 = (fun _ => ()) <$> call.run X false ∧
      call.runPushed (X.cached lookups) (HashCache.contains c (call.entry nonce) erase).1 =
        call.runPushed X false := by
  rw [cached_eq hfree hfound]
  cases hcached : (HashCache.contains c (call.entry nonce) erase).1 with
  | false => exact ⟨rfl, rfl⟩
  | true =>
    cases hcoinbase : call.tx.isCoinBase with
    | true =>
      have hskip : ∀ cached, pushInputChecks X call.tx cached call.inputs call.flags call.txdata =
          .ok ([], call.txdata) := fun cached => if_pos hcoinbase
      obtain ⟨hrun, hpushed⟩ := InputScriptsCall.run_of_skipped (hskip true)
      obtain ⟨hrun', hpushed'⟩ := InputScriptsCall.run_of_skipped (hskip false)
      rw [hrun, hrun', hpushed, hpushed']
      exact ⟨rfl, rfl⟩
    | false =>
      obtain ⟨data, hpass⟩ := hreached.passed hfree call hstrings hcoinbase hcached
      have hskip : pushInputChecks X call.tx true call.inputs call.flags call.txdata =
          .ok ([], call.txdata) := by
        unfold pushInputChecks
        rw [hcoinbase]
        rfl
      obtain ⟨hrun, hpushed⟩ := InputScriptsCall.run_of_skipped hskip
      rw [hrun, hpushed, hpass, InputScriptsCall.runPushed_of_run hpass]
      exact ⟨rfl, rfl⟩

end Scripts

namespace SampleScriptCache

def crypto : Crypto :=
  { acceptingCrypto with
    sha256 := fun b => BitVec.ofNat 256 (b.foldl (fun acc x => 257 * acc + x.toNat + 1) 1) }

def out : CTxOut := ⟨5, [0x51], CScript.short_true⟩

def prev : CTransaction := ⟨[], [out], 2, 0⟩

def prevout : COutPoint := ⟨prev.getHash crypto, 0⟩

def tx : CTransaction := ⟨[⟨prevout, [], 0, []⟩], [], 2, 0⟩

theorem sized : tx.Sized where
  vin := by decide
  vout := by decide
  inputs := by
    intro i hi
    obtain rfl := mem_singleton.mp hi
    exact ⟨by decide, by decide, by simp⟩

theorem prev_sized : prev.Sized where
  vin := by decide
  vout := by decide
  inputs := by simp [prev]

def call : InputScriptsCall crypto where
  tx := tx
  inputs := fun o => if o = prevout then some out else none
  flags := fun _ => false
  txdata := none
  outputs := [out]
  prevs := [prev]
  sized := sized
  vin_ne := cons_ne_nil _ _
  prevs_sized := by
    intro p hp
    obtain rfl := mem_singleton.mp hp
    exact prev_sized
  spent := fun _ => by decide +kernel
  genuine := fun _ => .cons ⟨prev, mem_singleton_self prev, rfl, rfl⟩ .nil
  data := fun _ data hdata => by cases hdata

def noLookups : SigLookups := ⟨fun _ _ _ => false, fun _ _ _ => false⟩

theorem noLookups_found {S : Set Bytes} : noLookups.Found crypto 0 S where
  ecdsa _ _ _ h := by cases h
  schnorr _ _ _ h := by cases h

theorem collisionFree : CollisionFree crypto {s | s ∈ call.strings 0} where
  injOn := by
    have hall : ∀ a ∈ call.strings 0, ∀ b ∈ call.strings 0,
        crypto.sha256 a = crypto.sha256 b → a = b := by decide +kernel
    exact fun a ha b hb h => hall a ha b hb h
  notNull := by
    have hall : ∀ a ∈ call.strings 0, crypto.sha256 a ≠ 0 := by decide +kernel
    exact hall

def cache : HashCache := HashCache.insert (HashCache.setup 2 1) (call.entry 0)

theorem cache_reached : ScriptCacheReached crypto 0 0 {s | s ∈ call.strings 0} cache := by
  refine .store (.setup 2 1) call noLookups noLookups_found (fun s hs => hs) ?_ ?_ ?_
  · decide +kernel
  · decide +kernel
  · have hok : (fun _ => ()) <$> call.run (crypto.cached noLookups) false = .ok () := by
      decide +kernel
    obtain ⟨data, hdata, -⟩ := map_eq_ok.mp hok
    exact ⟨data, hdata⟩

end SampleScriptCache

open SampleScriptCache in
theorem checkInputScripts_cache_independent_stored :
    (HashCache.contains cache (call.entry 0) false).1 = true ∧
      (fun _ => ()) <$> call.run (SampleScriptCache.crypto.cached noLookups) true =
        (fun _ => ()) <$> call.run SampleScriptCache.crypto false := by
  have hhit : (HashCache.contains cache (call.entry 0) false).1 = true := by decide +kernel
  have hsame := checkInputScripts_cache_independent collisionFree cache_reached call
    (fun s hs => hs) noLookups noLookups_found false
  rw [hhit] at hsame
  exact ⟨hhit, hsame.1⟩

end Vexta
