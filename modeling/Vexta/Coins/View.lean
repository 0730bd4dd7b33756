import Vexta.Coins.Coin
import Vexta.Lib.Assoc
import Vexta.Lib.Outcome

/-! The coins database and the stack of caches over it. -/
namespace Vexta
open Lib

def CScript.isUnspendable (script : CScript) : Bool :=
  script.head? == some 0x6a || decide (maxScriptSize < script.length)

def Coin.empty : Coin := ⟨⟨-1, [], CScript.short_nil⟩, false, 0⟩

def Coin.unspent (coin : Coin) : Option Coin := if coin.isSpent then none else some coin

structure CCoinsCacheEntry where
  coin : Coin
  dirty : Bool
  fresh : Bool
  deriving DecidableEq, Repr

abbrev CCoinsMap := Assoc COutPoint CCoinsCacheEntry

/-- The records of the database; the hash is null without a record. -/
structure CCoinsViewDB where
  coins : Assoc COutPoint Coin
  bestBlock : Uint256
  headBlocks : List Uint256

structure CCoinsViewCache where
  hashBlock : Uint256
  cacheCoins : CCoinsMap

def CCoinsViewCache.new : CCoinsViewCache := ⟨0, ∅⟩

/-- An operation ends the program: assertions, exceptions about flags. -/
inductive CoinsError
  | spentCoin
  | overwrite
  | freshMisapplied
  | nullBestBlock
  | headBlocks
  deriving DecidableEq, Repr

def fetchCoin (fetched : Option Coin × List CCoinsViewCache) (cache : CCoinsViewCache)
    (parents : List CCoinsViewCache) (outpoint : COutPoint) :
    Option CCoinsCacheEntry × List CCoinsViewCache :=
  match cache.cacheCoins.lookup outpoint with
  | some entry => (some entry, cache :: parents)
  | none =>
    match fetched with
    | (none, parents) => (none, cache :: parents)
    | (some coin, parents) =>
      -- the parent only has an empty entry if the coin is spent
      let entry := ⟨coin, false, coin.isSpent⟩
      (some entry,
        { cache with cacheCoins := cache.cacheCoins.insert outpoint entry } :: parents)

def getCoin (db : CCoinsViewDB) :
    List CCoinsViewCache → COutPoint → Option Coin × List CCoinsViewCache
  | [], outpoint => (db.coins.lookup outpoint, [])
  | cache :: parents, outpoint =>
    let (entry, caches) := fetchCoin (getCoin db parents outpoint) cache parents outpoint
    (entry.bind fun entry => entry.coin.unspent, caches)

def getBestBlock (db : CCoinsViewDB) : List CCoinsViewCache → Uint256 × List CCoinsViewCache
  | [] => (db.bestBlock, [])
  | cache :: parents =>
    if cache.hashBlock = 0 then
      let (hashBlock, parents) := getBestBlock db parents
      (hashBlock, { cache with hashBlock } :: parents)
    else (cache.hashBlock, cache :: parents)

namespace CCoinsViewCache

variable (cache : CCoinsViewCache) (outpoint : COutPoint)

def addCoin (coin : Coin)
    (possibleOverwrite : Bool) : Except CoinsError CCoinsViewCache :=
  if coin.isSpent then .error .spentCoin
  else if coin.out.scriptPubKey.isUnspendable then .ok cache
  else
    let entry := (cache.cacheCoins.lookup outpoint).getD ⟨.empty, false, false⟩
    if ¬ possibleOverwrite ∧ ¬ entry.coin.isSpent then .error .overwrite
    else
      let fresh := ¬ possibleOverwrite ∧ ¬ entry.dirty
      .ok { cache with cacheCoins :=
        cache.cacheCoins.insert outpoint ⟨coin, true, entry.fresh || fresh⟩ }

variable (entry : CCoinsCacheEntry)

def spendEntry :
    CCoinsViewCache :=
  { cache with cacheCoins :=
      if entry.fresh then cache.cacheCoins.erase outpoint
      else cache.cacheCoins.insert outpoint ⟨.empty, true, entry.fresh⟩ }

def uncache : CCoinsViewCache :=
  match cache.cacheCoins.lookup outpoint with
  | some entry =>
    if ¬ entry.dirty ∧ ¬ entry.fresh then
      { cache with cacheCoins := cache.cacheCoins.erase outpoint }
    else cache
  | none => cache

def mergeEntry :
    Option CCoinsCacheEntry → Except CoinsError (Option CCoinsCacheEntry)
  | none =>
    if entry.fresh ∧ entry.coin.isSpent then .ok none
    else .ok (some ⟨entry.coin, true, entry.fresh⟩)
  | some us =>
    if entry.fresh ∧ ¬ us.coin.isSpent then .error .freshMisapplied
    else if us.fresh ∧ entry.coin.isSpent then .ok none
    else .ok (some { us with coin := entry.coin, dirty := true })

def writeEntry (us : Option CCoinsCacheEntry) :
    Except CoinsError (Option CCoinsCacheEntry) :=
  if entry.dirty then mergeEntry entry us else .ok us

def batchWrite (mapCoins : CCoinsMap) (hashBlock : Uint256) :
    Except CoinsError CCoinsViewCache := do
  let cacheCoins ← mapCoins.entries.foldlM (fun coins e => do
    return Assoc.alter coins e.1 (← writeEntry e.2 (coins.lookup e.1))) cache.cacheCoins
  return ⟨hashBlock, cacheCoins⟩

end CCoinsViewCache

def CCoinsViewDB.batchWrite (db : CCoinsViewDB) (mapCoins : CCoinsMap) (hashBlock : Uint256) :
    Except CoinsError CCoinsViewDB :=
  if hashBlock = 0 then .error .nullBestBlock
  -- in the middle of a replay, to the block of the first head
  else if db.bestBlock = 0 ∧ db.headBlocks.length = 2 ∧ db.headBlocks.head? ≠ some hashBlock then
    .error .headBlocks
  else .ok {
    coins := mapCoins.entries.foldl (fun coins e =>
      if e.2.dirty then Assoc.alter coins e.1 e.2.coin.unspent else coins) db.coins
    bestBlock := hashBlock
    headBlocks := [] }

structure CoinsStack where
  db : CCoinsViewDB
  caches : List CCoinsViewCache

namespace CoinsStack

variable (s : CoinsStack) (outpoint : COutPoint)

def getCoin : Option Coin × CoinsStack :=
  let (coin, caches) := Vexta.getCoin s.db s.caches outpoint
  (coin, { s with caches })

def haveCoin : Bool × CoinsStack :=
  let (coin, s) := s.getCoin outpoint
  (coin.isSome, s)

def accessCoin : Coin × CoinsStack :=
  match s.caches with
  | [] => (.empty, s)
  | cache :: parents =>
    let (entry, caches) :=
      fetchCoin (Vexta.getCoin s.db parents outpoint) cache parents outpoint
    ((entry.map (·.coin)).getD .empty, { s with caches })

def addCoin (coin : Coin) (possibleOverwrite : Bool) :
    Except CoinsError CoinsStack :=
  match s.caches with
  | [] => .ok s
  | cache :: parents => do
    let cache ← cache.addCoin outpoint coin possibleOverwrite
    return { s with caches := cache :: parents }

def spendCoin : Option Coin × CoinsStack :=
  match s.caches with
  | [] => (none, s)
  | cache :: parents =>
    match fetchCoin (Vexta.getCoin s.db parents outpoint) cache parents outpoint with
    | (some entry, cache :: parents) =>
      (some entry.coin, { s with caches := cache.spendEntry outpoint entry :: parents })
    | (_, caches) => (none, { s with caches })

def uncache : CoinsStack :=
  match s.caches with
  | [] => s
  | cache :: parents => { s with caches := cache.uncache outpoint :: parents }

def getBestBlock : Uint256 × CoinsStack :=
  let (hashBlock, caches) := Vexta.getBestBlock s.db s.caches
  (hashBlock, { s with caches })

def setBestBlock (hashBlock : Uint256) : CoinsStack :=
  match s.caches with
  | [] => s
  | cache :: parents => { s with caches := { cache with hashBlock } :: parents }

def flush : Except CoinsError CoinsStack :=
  match s.caches with
  | [] => .ok s
  | [cache] => do
    let db ← s.db.batchWrite cache.cacheCoins cache.hashBlock
    return ⟨db, [{ cache with cacheCoins := ∅ }]⟩
  | cache :: parent :: parents => do
    let parent ← parent.batchWrite cache.cacheCoins cache.hashBlock
    return { s with caches := { cache with cacheCoins := ∅ } :: parent :: parents }

def push : CoinsStack := { s with caches := .new :: s.caches }

def pop : CoinsStack := { s with caches := s.caches.tail }

end CoinsStack
end Vexta
