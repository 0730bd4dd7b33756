import Vexta.Basic
import Vexta.Lib.Bytes

/-! Block headers, their serialization and the two proof-of-work hashes. -/
namespace Vexta
open Lib

/-- The mining algorithms, with `ALGO_UNKNOWN` for unassigned version bits. -/
inductive Algo
  | unknown
  | sha256d
  | randomX
  deriving DecidableEq, Repr

def numAlgos : ℕ := 2

structure CBlockHeader where
  nVersion : BitVec 32
  hashPrevBlock : Uint256
  hashMerkleRoot : Uint256
  nTime : BitVec 32
  nBits : BitVec 32
  nNonce : BitVec 32
  deriving DecidableEq, Repr

def algoOfVersion (nVersion : BitVec 32) : Algo :=
  let bits := nVersion &&& 0xf00#32
  if bits = 0x200#32 then .sha256d else if bits = 0x400#32 then .randomX else .unknown

/-- Hash functions, uninterpreted. RandomX is keyed and may fail to start. -/
structure HeaderHashes where
  sha256 : Bytes → Uint256
  randomX : Uint256 → Bytes → Option Uint256

namespace CBlockHeader

def getAlgo (block : CBlockHeader) : Algo := algoOfVersion block.nVersion

def serialize (block : CBlockHeader) : Bytes :=
  le 4 block.nVersion.toNat ++ le 32 block.hashPrevBlock.toNat ++
    le 32 block.hashMerkleRoot.toNat ++ le 4 block.nTime.toNat ++ le 4 block.nBits.toNat ++
    le 4 block.nNonce.toNat

def getHash (X : HeaderHashes) (block : CBlockHeader) : Uint256 :=
  X.sha256 (le 32 (X.sha256 block.serialize).toNat)

def getRandomXPoWHash (X : HeaderHashes) (block : CBlockHeader) (seed : Uint256) :
    Option Uint256 :=
  X.randomX seed block.serialize

end CBlockHeader
end Vexta
