import Vexta.Chain.Header

/-! The consensus parameters of header validation. `none` is a field never assigned. -/
namespace Vexta

def intMax : ℤ := 2147483647

/-- The fields of `Consensus::Params` that header validation reads. -/
structure Params where
  hashGenesisBlock : Uint256
  segwitHeight : ℤ
  powLimit : Uint256
  fEasyPow : Option Bool
  fPowNoRetargeting : Option Bool
  nPowTargetSpacing : Option ℤ
  difficultyAveragingWindow : Option ℤ
  difficultyTargetTimespan : Option ℤ
  difficultyMinActualTimespan : Option ℤ
  difficultyMaxActualTimespan : Option ℤ
  asertActivationHeight : Option ℤ
  asertHalfLife : Option ℤ
  fastRiseActivationHeight : Option ℤ
  randomXActivationHeight : Option ℤ
  randomXInitialTarget : Uint256
  multiAlgoChainworkScaleNumerator : ℕ
  multiAlgoChainworkScaleDenominator : ℕ
  randomXSeedEpochLength : Option ℤ
  randomXSeedLag : Option ℤ
  deriving DecidableEq

def mainParams : Params where
  hashGenesisBlock := 0x0000027626959d894ae1c8a6f9050cdcbdf58eb0037ab06345cb5502955370f1
  segwitHeight := 1
  powLimit := 0x00000fffffffffffffffffffffffffffffffffffffffffffffffffffffffffff
  fEasyPow := some false
  fPowNoRetargeting := some false
  nPowTargetSpacing := some (10 * 60)
  difficultyAveragingWindow := some 10
  difficultyTargetTimespan := some (10 * (10 * 60))
  difficultyMinActualTimespan := some (10 * (10 * 60) * 92 / 100)
  difficultyMaxActualTimespan := some (10 * (10 * 60) * 116 / 100)
  asertActivationHeight := some 6500
  asertHalfLife := some (2 * 24 * 60 * 60)
  fastRiseActivationHeight := some intMax
  randomXActivationHeight := some 8099
  randomXInitialTarget := 0x000000359bc10000000000000000000000000000000000000000000000000000
  multiAlgoChainworkScaleNumerator := 1921821664
  multiAlgoChainworkScaleDenominator := 41733
  randomXSeedEpochLength := some 2048
  randomXSeedLag := some 64

def testNetParams : Params where
  hashGenesisBlock := 0x00000dc74b41d5ebb73e55098e160534f34ec418becf4a3aa5bb218e6055cca5
  segwitHeight := 0
  powLimit := 0x00000fffffffffffffffffffffffffffffffffffffffffffffffffffffffffff
  fEasyPow := some false
  fPowNoRetargeting := some true
  nPowTargetSpacing := some (10 * 60)
  difficultyAveragingWindow := some 10
  difficultyTargetTimespan := some (10 * (10 * 60))
  difficultyMinActualTimespan := some (10 * (10 * 60) * 92 / 100)
  difficultyMaxActualTimespan := some (10 * (10 * 60) * 116 / 100)
  asertActivationHeight := some 6500
  asertHalfLife := some (2 * 24 * 60 * 60)
  fastRiseActivationHeight := some intMax
  randomXActivationHeight := some intMax
  randomXInitialTarget := 0x00000fffffffffffffffffffffffffffffffffffffffffffffffffffffffffff
  multiAlgoChainworkScaleNumerator := 1
  multiAlgoChainworkScaleDenominator := 1
  randomXSeedEpochLength := some 2048
  randomXSeedLag := some 64

/-- `SigNetParams`. The challenge enters none of these fields. -/
def sigNetParams : Params where
  hashGenesisBlock := 0x00000297613fa90675b13ac95d0590e95f787b15410ee3e568d7bc9df796c3c4
  segwitHeight := 1
  powLimit := 0x00000377ae000000000000000000000000000000000000000000000000000000
  fEasyPow := some false
  fPowNoRetargeting := some false
  nPowTargetSpacing := some (10 * 60)
  difficultyAveragingWindow := none
  difficultyTargetTimespan := none
  difficultyMinActualTimespan := none
  difficultyMaxActualTimespan := none
  asertActivationHeight := none
  asertHalfLife := none
  fastRiseActivationHeight := none
  randomXActivationHeight := some intMax
  randomXInitialTarget := 0x00000377ae000000000000000000000000000000000000000000000000000000
  multiAlgoChainworkScaleNumerator := 1
  multiAlgoChainworkScaleDenominator := 1
  randomXSeedEpochLength := some 2048
  randomXSeedLag := some 64

/-- The switches of `CRegTestParams`: `-easypow`, last `segwit@` and `randomx@` heights. -/
structure RegTestArgs where
  easyPow : Bool
  segwitHeight : Option {h : ℤ // 0 ≤ h ∧ h < intMax}
  randomXHeight : Option {h : ℤ // 0 ≤ h ∧ h < intMax}

def regTestParams (args : RegTestArgs) : Params where
  hashGenesisBlock := 0x3b5c0230bafd65f3dabcda2a30f33cdef0c3cda635e7440bda6909bb581462b7
  segwitHeight := (args.segwitHeight.map Subtype.val).getD 0
  powLimit := 0x7fffffffffffffffffffffffffffffffffffffffffffffffffffffffffffffff
  fEasyPow := some args.easyPow
  fPowNoRetargeting := some true
  nPowTargetSpacing := some (10 * 60)
  difficultyAveragingWindow := some 10
  difficultyTargetTimespan := some (10 * (10 * 60))
  difficultyMinActualTimespan := some (10 * (10 * 60) * 92 / 100)
  difficultyMaxActualTimespan := some (10 * (10 * 60) * 116 / 100)
  asertActivationHeight := some 6500
  asertHalfLife := some (2 * 24 * 60 * 60)
  fastRiseActivationHeight := some intMax
  randomXActivationHeight := some ((args.randomXHeight.map Subtype.val).getD intMax)
  randomXInitialTarget := 0x7fffffffffffffffffffffffffffffffffffffffffffffffffffffffffffffff
  multiAlgoChainworkScaleNumerator := 1
  multiAlgoChainworkScaleDenominator := 1
  randomXSeedEpochLength := some 64
  randomXSeedLag := some 8

/-- The parameter sets. A signet challenge is any byte string. -/
inductive Network
  | main
  | test
  | signet (challenge : List UInt8)
  | regtest (args : RegTestArgs)

def Network.params : Network → Params
  | .main => mainParams
  | .test => testNetParams
  | .signet _ => sigNetParams
  | .regtest args => regTestParams args

def createGenesisBlock (nTime nNonce nBits nVersion : BitVec 32) (hashMerkleRoot : Uint256) :
    CBlockHeader where
  nVersion := nVersion
  hashPrevBlock := 0
  hashMerkleRoot := hashMerkleRoot
  nTime := nTime
  nBits := nBits
  nNonce := nNonce

def Network.genesis : Network → CBlockHeader
  | .main => createGenesisBlock 1782770400 1605828 0x1e0ffff0 0x200
      0x3c1f602428f06c9baf0961930a5f711a2b5fd6157a9922365e7f1eca1970ff16
  | .test => createGenesisBlock 1783555200 2228323 0x1e0ffff0 1
      0x0fba2f6943df4ab9ffd13b5cf1233a825e364d2228a4683a72866b47d6a767c7
  | .signet _ => createGenesisBlock 1783555202 4047966 0x1e0377ae 1
      0xd4764aaa54047c0408946a09f43c28b167988604619d055854bc89d51bcb736e
  | .regtest _ => createGenesisBlock 1783555201 5 0x207fffff 1
      0x1d7df76c2482ecb39a9347895f012dd0d03696f064feb4b484d5bdb4f33cd924

/-- `checkpointData.mapCheckpoints` by increasing height, empty on signet. -/
def Network.checkpoints : Network → List (ℤ × Uint256)
  | .signet _ => []
  | network => [(0, network.params.hashGenesisBlock)]

end Vexta
