import Vexta.Coins.Stack

/-! Runs of operations on a stack of caches, against the same operations on a stack of maps. -/
namespace Vexta
open Lib List CoinsStack

/-- Reads of the cache at a level, and operations of the topmost cache. -/
inductive CoinsOp
  | read (level : ℕ) (outpoint : COutPoint)
  | readBestBlock (level : ℕ)
  | addCoin (outpoint : COutPoint) (coin : Coin) (possibleOverwrite : Bool)
  | spendCoin (outpoint : COutPoint)
  | uncache (outpoint : COutPoint)
  | setBestBlock (hashBlock : Uint256)
  | flush
  | push
  | pop

namespace CoinsStack

def readAt (s : CoinsStack) (level : ℕ) (caches : List CCoinsViewCache) : CoinsStack :=
  { s with caches := s.caches.take level ++ caches }

def step (s : CoinsStack) : CoinsOp → Except CoinsError CoinsStack
  | .read level outpoint => .ok (s.readAt level (Vexta.getCoin s.db (s.caches.drop level) outpoint).2)
  | .readBestBlock level => .ok (s.readAt level (Vexta.getBestBlock s.db (s.caches.drop level)).2)
  | .addCoin outpoint coin possibleOverwrite => s.addCoin outpoint coin possibleOverwrite
  | .spendCoin outpoint => .ok (s.spendCoin outpoint).2
  | .uncache outpoint => .ok (s.uncache outpoint)
  | .setBestBlock hashBlock => .ok (s.setBestBlock hashBlock)
  | .flush => s.flush
  | .push => .ok s.push
  | .pop => .ok s.pop

def run (s : CoinsStack) (ops : List CoinsOp) : Except CoinsError CoinsStack := ops.foldlM step s

def flushAll : ℕ → CoinsStack → Except CoinsError CoinsStack
  | 0, s => .ok s
  | n + 1, s => do
    let s ← s.flush
    flushAll n s.pop

end CoinsStack

namespace CoinsOp

def reference (maps : List Contents) : CoinsOp → List Contents
  | .addCoin outpoint coin _ =>
    match maps with
    | top :: below :: rest => top.add outpoint coin :: below :: rest
    | maps => maps
  | .spendCoin outpoint =>
    match maps with
    | top :: below :: rest => Function.update top outpoint none :: below :: rest
    | maps => maps
  | .flush =>
    match maps with
    | top :: _ :: rest => top :: top :: rest
    | maps => maps
  | .push =>
    match maps with
    | top :: rest => top :: top :: rest
    | [] => []
  | .pop =>
    match maps with
    | _ :: below :: rest => below :: rest
    | maps => maps
  | .read _ _ | .readBestBlock _ | .uncache _ | .setBestBlock _ => maps

def Allowed (maps : List Contents) : CoinsOp → Prop
  | .addCoin outpoint _ possibleOverwrite =>
    possibleOverwrite = false → ∀ top ∈ maps.head?, top outpoint = none
  | _ => True

end CoinsOp

def AllowedRun : List Contents → List CoinsOp → Prop
  | _, [] => True
  | maps, op :: ops => op.Allowed maps ∧ AllowedRun (op.reference maps) ops

def CoinsError.IsAssertion (e : CoinsError) : Prop :=
  e = .spentCoin ∨ e = .nullBestBlock ∨ e = .headBlocks

namespace CoinsStack
variable {s : CoinsStack} {maps : List Contents}

structure Refines (s : CoinsStack) (maps : List Contents) : Prop where
  inv : StackInv s.db s.caches
  levels : levels s.db s.caches = maps

theorem Refines.cases_caches (h : s.Refines maps) :
    (s.caches = [] ∧ maps = [s.db.contents]) ∨
      ∃ cache parents rest, s.caches = cache :: parents ∧
        maps = contents s.db (cache :: parents) :: contents s.db parents :: rest ∧
        Vexta.levels s.db parents = contents s.db parents :: rest := by
  obtain ⟨db, caches⟩ := s
  cases caches with
  | nil => exact .inl ⟨rfl, h.levels.symm⟩
  | cons cache parents =>
    obtain ⟨rest, hrest⟩ := levels_eq_cons db parents
    refine .inr ⟨cache, parents, rest, rfl, ?_, hrest⟩
    rw [← h.levels]
    change contents db (cache :: parents) :: Vexta.levels db parents = _
    rw [hrest]

variable {cache : CCoinsViewCache} {parents : List CCoinsViewCache} {top : Contents}
  {rest : List Contents} {level : ℕ} {caches : List CCoinsViewCache} {n : ℕ}

theorem Refines.replace (h : s.Refines maps) {cache' : CCoinsViewCache}
    (hcaches : s.caches = cache :: parents) (hinv : CacheInv (contents s.db parents) cache')
    (hmaps : maps = contents s.db (cache :: parents) :: rest)
    (hshown : contents s.db (cache' :: parents) = top) :
    Refines { s with caches := cache' :: parents } (top :: rest) where
  inv := by
    have hall := h.inv
    rw [hcaches] at hall
    exact ⟨hinv, hall.2⟩
  levels := by
    have hall := h.levels
    rw [hcaches, hmaps] at hall
    have hrest := (List.cons.inj hall).2
    change contents s.db (cache' :: parents) :: Vexta.levels s.db parents = _
    rw [hshown, hrest]

theorem Refines.cacheInv (h : s.Refines maps) (hcaches : s.caches = cache :: parents) :
    CacheInv (contents s.db parents) cache := by
  have hall := h.inv
  rw [hcaches] at hall
  exact hall.1

theorem Refines.readAt (h : s.Refines maps)
    (hlevels : Vexta.levels s.db caches = Vexta.levels s.db (s.caches.drop level))
    (hinv : StackInv s.db caches) : (s.readAt level caches).Refines maps := by
  have hmin : s.caches.drop level = s.caches.drop (min level s.caches.length) := by
    rcases Nat.le_total level s.caches.length with hle | hle
    · rw [Nat.min_eq_left hle]
    · rw [Nat.min_eq_right hle, drop_length, drop_of_length_le hle]
  have htake : s.caches.take level = s.caches.take (min level s.caches.length) := by
    rw [take_eq_take_min]
  rw [hmin] at hlevels
  unfold CoinsStack.readAt
  rw [htake]
  constructor
  · exact stackInv_take_append _ (Nat.min_le_right _ _) h.inv hlevels hinv
  · exact (levels_take_append _ (Nat.min_le_right _ _) hlevels).trans h.levels

theorem getBestBlock_spec {db : CCoinsViewDB} (hinv : StackInv db caches) :
    Vexta.levels db (Vexta.getBestBlock db caches).2 = Vexta.levels db caches ∧
      StackInv db (Vexta.getBestBlock db caches).2 := by
  induction caches with
  | nil => exact ⟨rfl, hinv⟩
  | cons cache parents ih =>
    obtain ⟨hlevels, hparents⟩ := ih hinv.2
    have hbelow := contents_of_levels hlevels
    unfold Vexta.getBestBlock
    split_ifs
    · constructor
      · change contents db (_ :: _) :: Vexta.levels db (Vexta.getBestBlock db parents).2 = _
        rw [hlevels]
        refine congrArg (· :: _) ?_
        funext o
        rw [contents_cons, contents_cons, hbelow]
      · refine ⟨?_, hparents⟩
        rw [hbelow]
        exact hinv.1
    · exact ⟨rfl, hinv⟩

theorem addCoin_refines (h : s.Refines maps) {outpoint : COutPoint} {coin : Coin}
    {possibleOverwrite : Bool}
    (hallowed : CoinsOp.Allowed maps (.addCoin outpoint coin possibleOverwrite)) :
    Sat CoinsError.IsAssertion
      (fun s' => s'.Refines (CoinsOp.reference maps (.addCoin outpoint coin possibleOverwrite)))
      (s.addCoin outpoint coin possibleOverwrite) := by
  unfold addCoin
  rcases h.cases_caches with ⟨hcaches, rfl⟩ | ⟨cache, parents, rest, hcaches, rfl, -⟩
  · rw [hcaches]
    exact Sat.ok_iff.mpr h
  · rw [hcaches]
    have hspec := addCoin_spec (h.cacheInv hcaches) coin fun hno => hallowed hno _ rfl
    have hassertion : Sat CoinsError.IsAssertion _ (cache.addCoin outpoint coin possibleOverwrite) :=
      ⟨hspec.value, fun e he => .inl (hspec.error e he)⟩
    exact hassertion.bind fun cache' hcache' =>
      Sat.ok_iff.mpr (h.replace hcaches hcache'.1 rfl hcache'.2)

theorem spendCoin_refines (h : s.Refines maps) (outpoint : COutPoint) :
    (s.spendCoin outpoint).2.Refines (CoinsOp.reference maps (.spendCoin outpoint)) := by
  unfold spendCoin
  rcases h.cases_caches with ⟨hcaches, rfl⟩ | ⟨cache, parents, rest, hcaches, rfl, hrest⟩
  · rw [hcaches]
    exact h
  · rw [hcaches]
    have hinv := h.inv
    rw [hcaches] at hinv
    obtain ⟨hlevels, hparents, hcoin, -⟩ := getCoin_spec hinv.2 outpoint
    obtain ⟨entry, cache', parents', heq, hfetched⟩ :=
      fetchCoin_spec hinv outpoint hlevels hparents hcoin
    have hall := hfetched.levels
    obtain ⟨htop, hbelow⟩ := List.cons.inj hall
    dsimp only
    rw [heq]
    cases hentry : entry with
    | none =>
      refine ⟨hfetched.inv, ?_⟩
      rw [hall, Vexta.levels, hrest]
      refine congrArg (· :: _) ?_
      rw [eq_comm, Function.update_eq_self_iff]
      exact (hfetched.absent hentry).symm
    | some entry' =>
      have hspec := spendEntry_spec hfetched.inv.1 (hfetched.found.trans hentry)
      refine ⟨⟨hspec.1, hfetched.inv.2⟩, ?_⟩
      change contents s.db (_ :: parents') :: Vexta.levels s.db parents' = _
      rw [hspec.2, hbelow, htop, hrest]
      rfl

theorem uncache_refines (h : s.Refines maps) (outpoint : COutPoint) :
    (s.uncache outpoint).Refines maps := by
  unfold uncache
  rcases h.cases_caches with ⟨hcaches, rfl⟩ | ⟨cache, parents, rest, hcaches, rfl, -⟩
  · rw [hcaches]
    exact h
  · rw [hcaches]
    obtain ⟨hinv, hshown⟩ := uncache_spec (h.cacheInv hcaches) outpoint
    exact h.replace hcaches hinv rfl hshown

theorem setBestBlock_refines (h : s.Refines maps) (hashBlock : Uint256) :
    (s.setBestBlock hashBlock).Refines maps := by
  unfold setBestBlock
  rcases h.cases_caches with ⟨hcaches, rfl⟩ | ⟨cache, parents, rest, hcaches, rfl, -⟩
  · rw [hcaches]
    exact h
  · rw [hcaches]
    have hold := h.cacheInv hcaches
    have hinv : CacheInv (contents s.db parents) { cache with hashBlock } :=
      fun outpoint entry hentry => hold outpoint entry hentry
    exact h.replace hcaches hinv rfl rfl

theorem contents_cleared (db : CCoinsViewDB) (hashBlock : Uint256)
    (parents : List CCoinsViewCache) :
    contents db (⟨hashBlock, ∅⟩ :: parents) = contents db parents := rfl

theorem cacheInv_cleared (below : Contents) (hashBlock : Uint256) :
    CacheInv below ⟨hashBlock, ∅⟩ := by
  intro o entry hentry
  cases hentry

section
variable (h : s.Refines maps)
include h

theorem flush_refines :
    Sat CoinsError.IsAssertion (fun s' => s'.Refines (CoinsOp.reference maps .flush)) s.flush := by
  obtain ⟨db, caches⟩ := s
  have hinv := h.inv
  have hlevels := h.levels
  unfold flush
  match caches with
  | [] =>
    subst hlevels
    exact Sat.ok_iff.mpr h
  | [cache] =>
    subst hlevels
    have hspec := dbWrite_spec hinv cache.hashBlock
    have hassertion : Sat CoinsError.IsAssertion _
        (db.batchWrite cache.cacheCoins cache.hashBlock) :=
      ⟨hspec.value, fun e he => .inr (hspec.error e he)⟩
    refine hassertion.bind fun db' hdb' => Sat.ok_iff.mpr ⟨⟨cacheInv_cleared _ _, trivial⟩, ?_⟩
    change [contents db' [⟨_, ∅⟩], db'.contents] = [contents db [cache], contents db [cache]]
    rw [contents_cleared]
    change [db'.contents, db'.contents] = _
    rw [hdb']
  | cache :: cache' :: parents =>
    subst hlevels
    obtain ⟨parent, hwrite, -, hparent, hshown⟩ := batchWrite_spec hinv cache.hashBlock
    dsimp only
    rw [hwrite, ok_bind]
    refine Sat.ok_iff.mpr ⟨⟨cacheInv_cleared _ _, hparent, hinv.2.2⟩, ?_⟩
    change [contents db (⟨_, ∅⟩ :: parent :: parents), contents db (parent :: parents)] ++
      Vexta.levels db parents = [contents db (cache :: cache' :: parents),
        contents db (cache :: cache' :: parents)] ++ Vexta.levels db parents
    rw [contents_cleared, hshown]

theorem push_refines : s.push.Refines (CoinsOp.reference maps .push) := by
  refine ⟨⟨cacheInv_cleared _ _, h.inv⟩, ?_⟩
  obtain ⟨rest, hrest⟩ := levels_eq_cons s.db s.caches
  have hmaps := h.levels
  rw [hrest] at hmaps
  subst hmaps
  change contents s.db (_ :: s.caches) :: Vexta.levels s.db s.caches = _
  rw [hrest]
  rfl

theorem pop_refines : s.pop.Refines (CoinsOp.reference maps .pop) := by
  obtain ⟨db, caches⟩ := s
  obtain ⟨hinv, rfl⟩ := h
  cases caches with
  | nil => exact ⟨trivial, rfl⟩
  | cons cache parents =>
    obtain ⟨rest, hrest⟩ := levels_eq_cons db parents
    refine ⟨hinv.2, ?_⟩
    change Vexta.levels db parents =
      CoinsOp.reference (contents db (cache :: parents) :: Vexta.levels db parents) .pop
    rw [hrest]
    rfl

theorem step_refines {op : CoinsOp} (hallowed : op.Allowed maps) :
    Sat CoinsError.IsAssertion (fun s' => s'.Refines (op.reference maps)) (s.step op) := by
  cases op with
  | read level outpoint =>
    have hspec := getCoin_spec (stackInv_drop h.inv level) outpoint
    exact Sat.ok_iff.mpr (h.readAt hspec.1 hspec.2.1)
  | readBestBlock level =>
    have hspec := getBestBlock_spec (stackInv_drop h.inv level)
    exact Sat.ok_iff.mpr (h.readAt hspec.1 hspec.2)
  | addCoin outpoint coin possibleOverwrite => exact addCoin_refines h hallowed
  | spendCoin outpoint => exact Sat.ok_iff.mpr (spendCoin_refines h outpoint)
  | uncache outpoint => exact Sat.ok_iff.mpr (uncache_refines h outpoint)
  | setBestBlock hashBlock => exact Sat.ok_iff.mpr (setBestBlock_refines h hashBlock)
  | flush => exact flush_refines h
  | push => exact Sat.ok_iff.mpr (push_refines h)
  | pop => exact Sat.ok_iff.mpr (pop_refines h)

theorem run_refines {ops : List CoinsOp} (hallowed : AllowedRun maps ops) :
    Sat CoinsError.IsAssertion (fun s' => s'.Refines (ops.foldl CoinsOp.reference maps))
      (s.run ops) := by
  induction ops generalizing s maps with
  | nil => exact Sat.ok_iff.mpr h
  | cons op ops ih =>
    unfold run
    rw [foldlM_cons]
    exact (step_refines h hallowed.1).bind fun s' hs' => ih hs' hallowed.2

theorem Refines.length_caches : maps.length = s.caches.length + 1 := by
  rw [← h.levels, length_levels]

end

theorem flushAll_refines (h : s.Refines (top :: rest)) (hn : s.caches.length = n) :
    Sat CoinsError.IsAssertion (fun t => t.caches = [] ∧ t.db.contents = top) (s.flushAll n) := by
  induction n generalizing s rest with
  | zero =>
    have hcaches := length_eq_zero_iff.mp hn
    have hlevels := h.levels
    rw [hcaches] at hlevels
    exact Sat.ok_iff.mpr ⟨hcaches, (List.cons.inj hlevels).1⟩
  | succ n ih =>
    have hlength := h.length_caches
    rw [hn] at hlength
    obtain ⟨below, rest, rfl⟩ : ∃ below rest', rest = below :: rest' := by
      cases rest with
      | nil => simp at hlength
      | cons below rest => exact ⟨below, rest, rfl⟩
    unfold flushAll
    refine (flush_refines h).bind fun s' hs' => ?_
    have hpop := pop_refines hs'
    refine ih hpop ?_
    have hpopped := hpop.length_caches
    simp only [CoinsOp.reference, length_cons] at hpopped hlength
    omega

theorem flushAll_returns (hinv : StackInv s.db s.caches) (hn : s.caches.length = n)
    (hbest : ∀ cache ∈ s.caches.head?, cache.hashBlock ≠ 0)
    (hheads : ¬ (s.db.bestBlock = 0 ∧ s.db.headBlocks.length = 2)) : ∃ t, s.flushAll n = .ok t := by
  induction n generalizing s with
  | zero => exact ⟨s, rfl⟩
  | succ n ih =>
    obtain ⟨db, caches⟩ := s
    unfold flushAll flush
    match caches with
    | [] => cases hn
    | [cache] =>
      obtain rfl : n = 0 := (Nat.succ.inj hn).symm
      have hnot : ¬ (db.bestBlock = 0 ∧ db.headBlocks.length = 2 ∧
          db.headBlocks.head? ≠ some cache.hashBlock) := fun h => hheads ⟨h.1, h.2.1⟩
      dsimp only
      unfold CCoinsViewDB.batchWrite
      rw [if_neg (hbest cache rfl), if_neg hnot]
      exact ⟨_, rfl⟩
    | cache :: cache' :: parents =>
      obtain ⟨parent, hwrite, hhash, hparent, -⟩ := batchWrite_spec hinv cache.hashBlock
      dsimp only
      rw [hwrite]
      refine ih ⟨hparent, hinv.2.2⟩ (Nat.succ.inj hn) ?_ hheads
      rintro c ⟨⟩
      rw [hhash]
      exact hbest cache rfl

theorem Refines.documented (h : s.Refines maps) :
    ∀ cache ∈ s.caches, ∀ outpoint entry, cache.cacheCoins.lookup outpoint = some entry →
      entry.Documented := by
  obtain ⟨db, caches⟩ := s
  have hinv := h.inv
  clear h
  induction caches with
  | nil => exact fun cache hcache => by cases hcache
  | cons first parents ih =>
    intro cache hcache outpoint entry hentry
    rcases mem_cons.mp hcache with rfl | hcache
    · exact (hinv.1 outpoint entry hentry).documented
    · exact ih hinv.2 cache hcache outpoint entry hentry

theorem Refines.reads (h : s.Refines maps) (hlevel : level < s.caches.length) (outpoint : COutPoint)
    {shown : Contents} (hshown : maps[level]? = some shown) :
    (Vexta.getCoin s.db (s.caches.drop level) outpoint).1 = shown outpoint ∧
      ((CoinsStack.mk s.db (s.caches.drop level)).accessCoin outpoint).1.unspent =
        shown outpoint := by
  have hcontents : contents s.db (s.caches.drop level) = shown := by
    have hget := levels_getElem? s.db s.caches (Nat.le_of_lt hlevel)
    rw [h.levels, hshown] at hget
    exact (Option.some.inj hget).symm
  have hinv := stackInv_drop h.inv level
  obtain ⟨cache, parents, hdrop⟩ : ∃ cache parents, s.caches.drop level = cache :: parents := by
    cases hdrop : s.caches.drop level with
    | nil =>
      have hlength := congrArg List.length hdrop
      rw [length_drop, length_nil] at hlength
      omega
    | cons cache parents => exact ⟨cache, parents, rfl⟩
  rw [hdrop] at hinv hcontents ⊢
  refine ⟨?_, ?_⟩
  · rw [← hcontents]
    exact (getCoin_spec hinv outpoint).2.2.2 (cons_ne_nil _ _)
  · obtain ⟨hlevels, hparents, hcoin, -⟩ := getCoin_spec hinv.2 outpoint
    obtain ⟨entry, cache', parents', heq, hfetched⟩ :=
      fetchCoin_spec hinv outpoint hlevels hparents hcoin
    unfold accessCoin
    dsimp only
    rw [heq, ← hcontents]
    cases hentry : entry with
    | none => exact (hfetched.absent hentry).symm
    | some entry' =>
      rw [← contents_of_levels hfetched.levels, contents_cons, hfetched.found, hentry]
      rfl

end CoinsStack

/-- In every run of operations, where coins are added without overwriting only at free outpoints,
only assertions about arguments stop the program. Every cache reads as the map of its level, entries
are in the documented states, and a full flush leaves the topmost map in the database. -/
theorem coinsStack_refines (db : CCoinsViewDB) (ops : List CoinsOp)
    (hops : AllowedRun [db.contents] ops) :
    Sat CoinsError.IsAssertion
      (fun s => ∃ top rest, ops.foldl CoinsOp.reference [db.contents] = top :: rest ∧
        (∀ level, level < s.caches.length → ∀ shown, (top :: rest)[level]? = some shown →
          ∀ outpoint, (getCoin s.db (s.caches.drop level) outpoint).1 = shown outpoint ∧
            ((CoinsStack.mk s.db (s.caches.drop level)).accessCoin outpoint).1.unspent =
              shown outpoint) ∧
        rest.length = s.caches.length ∧
        (top :: rest)[s.caches.length]? = some s.db.contents ∧
        (∀ cache ∈ s.caches, ∀ outpoint entry, cache.cacheCoins.lookup outpoint = some entry →
          entry.Documented) ∧
        Sat CoinsError.IsAssertion (fun t => t.caches = [] ∧ t.db.contents = top)
          (s.flushAll s.caches.length) ∧
        ((∀ cache ∈ s.caches.head?, cache.hashBlock ≠ 0) →
          ¬ (s.db.bestBlock = 0 ∧ s.db.headBlocks.length = 2) →
          ∃ t, s.flushAll s.caches.length = .ok t))
      ((mk db []).run ops) := by
  have hstart : (mk db []).Refines [db.contents] := ⟨trivial, rfl⟩
  refine (run_refines hstart hops).mono fun s hs => ?_
  obtain ⟨rest, hrest⟩ := levels_eq_cons s.db s.caches
  have hmaps := hs.levels.symm.trans hrest
  rw [hmaps] at hs ⊢
  have hlength := hs.length_caches
  refine ⟨_, rest, rfl, fun level hlevel shown hshown outpoint => hs.reads hlevel outpoint hshown,
    Nat.succ.inj hlength, ?_, hs.documented, flushAll_refines hs rfl,
    flushAll_returns hs.inv rfl⟩
  have hbase := levels_getElem? s.db s.caches (Nat.le_refl s.caches.length)
  rw [hs.levels, drop_length] at hbase
  exact hbase

/-- A coin added in one cache, spent in the next and added again. -/
theorem coinsStack_refines_readded :
    let outpoint : COutPoint := ⟨7, 0⟩
    let coin : Coin := ⟨⟨5, [], by decide⟩, false, 1⟩
    let ops : List CoinsOp := [.push, .push, .addCoin outpoint coin false, .flush,
      .spendCoin outpoint, .addCoin outpoint coin false, .setBestBlock 1]
    ∃ s t, (mk ⟨∅, 0, []⟩ []).run ops = .ok s ∧
      s.flushAll s.caches.length = .ok t ∧ t.db.contents outpoint = some coin := by
  intro outpoint coin ops
  have hops : AllowedRun [CCoinsViewDB.contents ⟨∅, 0, []⟩] ops := by
    refine ⟨trivial, trivial, ?_, trivial, trivial, ?_, trivial, trivial⟩ <;>
      rintro - top ⟨⟩ <;> rfl
  have hrun : ((mk ⟨∅, 0, []⟩ []).run ops >>= fun s =>
      s.flushAll s.caches.length).toBool = true := by
    decide +kernel
  have hrefines := coinsStack_refines ⟨∅, 0, []⟩ ops hops
  cases hs : (mk ⟨∅, 0, []⟩ []).run ops with
  | error e =>
    rw [hs] at hrun
    cases hrun
  | ok s =>
    obtain ⟨top, rest, hmaps, -, -, -, -, hflush, -⟩ := hrefines.value s hs
    rw [hs, ok_bind] at hrun
    cases ht : s.flushAll s.caches.length with
    | error e =>
      rw [ht] at hrun
      cases hrun
    | ok t =>
      refine ⟨s, t, rfl, ht, ?_⟩
      rw [(hflush.value t ht).2, ← (List.cons.inj hmaps).1]
      rfl

end Vexta
