import Vexta.Script.Standard
import Vexta.Wallet.HdChain

/-! `IsMine`: which outputs a key manager takes for its own. -/
namespace Vexta
open Lib

inductive IsMineSigVersion
  | top
  | p2sh
  | witnessV0
  deriving DecidableEq, Repr

/-- The results in order; the largest of all possibilities is returned. -/
inductive IsMineResult
  | no
  | watchOnly
  | spendable
  | invalid
  deriving DecidableEq, Repr

namespace IsMineResult

def rank : IsMineResult → ℕ
  | no => 0
  | watchOnly => 1
  | spendable => 2
  | invalid => 3

def max (a b : IsMineResult) : IsMineResult := if a.rank < b.rank then b else a

end IsMineResult

def permitsUncompressed (sigversion : IsMineSigVersion) : Bool :=
  sigversion == .top || sigversion == .p2sh

structure ScriptStore where
  scripts : Assoc (BitVec 160) CScript
  watchOnly : List CScript
  watchKeys : Assoc CKeyID Bytes

structure LegacyScriptPubKeyMan where
  wallet : CWallet
  scriptStore : ScriptStore

namespace LegacyScriptPubKeyMan
variable (W : WalletCrypto) (keystore : LegacyScriptPubKeyMan) (address : CKeyID)

def haveKey : Bool :=
  if ¬ keystore.wallet.hasEncryptionKeys then
    (keystore.wallet.store.keys.lookup address).isSome
  else (keystore.wallet.store.cryptedKeys.lookup address).isSome

def getWatchPubKey : Option Bytes :=
  keystore.scriptStore.watchKeys.lookup address

def getPubKey : Option Bytes :=
  if ¬ keystore.wallet.hasEncryptionKeys then
    match keystore.wallet.store.keys.lookup address with
    | some key => some (W.getPubKey key)
    | none => keystore.getWatchPubKey address
  else match keystore.wallet.store.cryptedKeys.lookup address with
    | some entry => some entry.1
    | none => keystore.getWatchPubKey address

def haveCScript (hash : BitVec 160) : Bool := (keystore.scriptStore.scripts.lookup hash).isSome

def getCScript (hash : BitVec 160) : Option CScript := keystore.scriptStore.scripts.lookup hash

def haveWatchOnly (dest : CScript) : Bool := keystore.scriptStore.watchOnly.contains dest

def haveKeys (pubkeys : List Bytes) : Bool :=
  pubkeys.all fun pubkey => keystore.haveKey (W.hash160 pubkey)

end LegacyScriptPubKeyMan

def uint160OfBytes (b : Bytes) : BitVec 160 := BitVec.ofNat 160 (ofLe b)
def uint256OfBytes (b : Bytes) : Uint256 := BitVec.ofNat 256 (ofLe b)

def payToPubkeyHash (hash : BitVec 160) : CScript :=
  0x76 :: 0xa9 :: CScript.pushVector (le 20 hash.toNat) ++ [0x88, 0xac]

section
variable (W : WalletCrypto) (keystore : LegacyScriptPubKeyMan)

variable (recurse : IsMineSigVersion → CScript → IsMineResult) (sigversion : IsMineSigVersion)

variable (scriptPubKey : CScript)

def isMineSwitch : Option IsMineResult :=
  let (whichType, vSolutions) := solver scriptPubKey
  let solution := vSolutions.headD []
  match whichType with
  | .nonstandard | .nullData | .witnessUnknown | .witnessV1Taproot => some .no
  | .pubkey =>
    if ¬ permitsUncompressed sigversion ∧ solution.length ≠ 33 then none
    else if keystore.haveKey (W.hash160 solution) then some .spendable
    else some .no
  | .witnessV0Keyhash =>
    if sigversion = .witnessV0 then none
    else if sigversion = .top ∧
        ¬ keystore.haveCScript (W.hash160 (0 :: CScript.pushVector solution)) then some .no
    else some (recurse .witnessV0 (payToPubkeyHash (uint160OfBytes solution)))
  | .pubkeyhash =>
    let keyID := uint160OfBytes solution
    let uncompressed : Bool := match keystore.getPubKey W keyID with
      | some pubkey => pubkey.length != 33
      | none => false
    if ¬ permitsUncompressed sigversion ∧ uncompressed then none
    else if keystore.haveKey keyID then some .spendable
    else some .no
  | .scripthash =>
    if sigversion ≠ .top then none
    else match keystore.getCScript (uint160OfBytes solution) with
      | some subscript => some (recurse .p2sh subscript)
      | none => some .no
  | .witnessV0Scripthash =>
    if sigversion = .witnessV0 then none
    else if sigversion = .top ∧
        ¬ keystore.haveCScript (W.hash160 (0 :: CScript.pushVector solution)) then some .no
    else match keystore.getCScript (W.ripemd160 solution) with
      | some subscript => some (recurse .witnessV0 subscript)
      | none => some .no
  | .witnessV2Mldsa | .witnessV3Slhdsa =>
    if sigversion ≠ .top ∨ vSolutions.length ≠ 1 ∨ solution.length ≠ 32 then none
    else if keystore.wallet.store.havePQKey (uint256OfBytes solution) then some .spendable
    else some .no
  | .multisig =>
    if sigversion = .top then some .no
    else
      let keys := (vSolutions.drop 1).take (vSolutions.length - 2)
      if ¬ permitsUncompressed sigversion ∧ keys.any (fun key => key.length != 33) then none
      else if keystore.haveKeys W keys then some .spendable
      else some .no

def isMineStep : IsMineResult :=
  match isMineSwitch W keystore recurse sigversion scriptPubKey with
  | none => .invalid
  | some found =>
    let ret := IsMineResult.max .no found
    if ret = .no ∧ keystore.haveWatchOnly scriptPubKey then ret.max .watchOnly else ret

/-- `IsMineInner`. Only a redeem script looks further, at a witness script. -/
def isMineInner : IsMineResult :=
  let witnessV0 := isMineStep W keystore (fun _ _ => .no) .witnessV0
  let p2sh := isMineStep W keystore (fun _ => witnessV0) .p2sh
  match sigversion with
  | .witnessV0 => witnessV0 scriptPubKey
  | .p2sh => p2sh scriptPubKey
  | .top =>
    isMineStep W keystore (fun sigversion => if sigversion = .p2sh then p2sh else witnessV0) .top
      scriptPubKey

inductive IsMineType
  | no
  | watchOnly
  | spendable
  deriving DecidableEq, Repr

def LegacyScriptPubKeyMan.isMine (script : CScript) : IsMineType :=
  match isMineInner W keystore .top script with
  | .invalid => .no
  | .no => .no
  | .watchOnly => .watchOnly
  | .spendable => .spendable

end

theorem isMine_program_iff {W : WalletCrypto} {keystore : LegacyScriptPubKeyMan}
    {script : CScript} {version : ℕ} {program : Bytes}
    (hprog : CScript.isWitnessProgram script = some (version, program))
    (hpq : version = 2 ∨ version = 3) (hlen : program.length = 32) :
    keystore.isMine W script = .spendable ↔
      keystore.wallet.store.havePQKey (uint256OfBytes program) = true := by
  have hsolver : solver script = (.witnessV2Mldsa, [program]) ∨
      solver script = (.witnessV3Slhdsa, [program]) := by
    rw [solver_program hprog]
    rcases hpq with rfl | rfl
    · left; simp [solveWitnessProgram, hlen]
    · right; simp [solveWitnessProgram, hlen]
  have hswitch : ∀ recurse, isMineSwitch W keystore recurse .top script =
      if keystore.wallet.store.havePQKey (uint256OfBytes program) then some .spendable
      else some .no := by
    intro recurse
    rcases hsolver with h | h <;> simp [isMineSwitch, h, hlen]
  unfold LegacyScriptPubKeyMan.isMine isMineInner isMineStep
  dsimp only
  rw [hswitch]
  by_cases hkey : keystore.wallet.store.havePQKey (uint256OfBytes program) = true
  · simp [hkey, IsMineResult.max, IsMineResult.rank]
  · by_cases hwatch : keystore.haveWatchOnly script = true <;>
      simp [hkey, hwatch, IsMineResult.max, IsMineResult.rank]

end Vexta
