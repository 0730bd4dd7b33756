import Vexta.Coins.View

/-! A stack of caches refines a stack of maps. -/
namespace Vexta
open Lib List Bool Assoc CCoinsViewCache Coin

abbrev Contents := COutPoint → Option Coin

variable {coin : Coin}

theorem Coin.unspent_of_isSpent (h : coin.isSpent = true) : coin.unspent = none :=
  if_pos h

theorem Coin.unspent_of_not (h : coin.isSpent = false) : coin.unspent = some coin := by
  rw [unspent, h]
  rfl

@[simp] theorem Coin.unspent_eq_none : coin.unspent = none ↔ coin.isSpent = true := by
  cases h : coin.isSpent <;> simp [unspent, h]

@[simp] theorem Coin.unspent_bind_unspent (coin : Coin) :
    coin.unspent.bind unspent = coin.unspent := by
  cases h : coin.isSpent <;> simp [unspent, h]

def CCoinsCacheEntry.Documented (entry : CCoinsCacheEntry) : Prop :=
  (entry.coin.isSpent = false ∧ entry.fresh = true ∧ entry.dirty = true) ∨
  (entry.coin.isSpent = false ∧ entry.fresh = false ∧ entry.dirty = true) ∨
  (entry.coin.isSpent = false ∧ entry.fresh = false ∧ entry.dirty = false) ∨
  (entry.coin.isSpent = true ∧ entry.fresh = true ∧ entry.dirty = false) ∨
  (entry.coin.isSpent = true ∧ entry.fresh = false ∧ entry.dirty = true)

/-- What the flags of an entry say about the coin in the base. -/
structure EntryInv (below : Option Coin) (entry : CCoinsCacheEntry) : Prop where
  documented : entry.Documented
  fresh : entry.fresh = true → below = none
  clean : entry.dirty = false → entry.coin.unspent = below

def readEntry (below : Option Coin) : Option CCoinsCacheEntry → Option Coin
  | some entry => entry.coin.unspent
  | none => below

section Key
variable {below : Option Coin} {entry us : CCoinsCacheEntry}

theorem entryInv_fetched (h : coin.unspent = below) :
    EntryInv below ⟨coin, false, coin.isSpent⟩ where
  documented := by
    cases hspent : coin.isSpent
    · exact .inr (.inr (.inl ⟨hspent, rfl, rfl⟩))
    · exact .inr (.inr (.inr (.inl ⟨hspent, rfl, rfl⟩)))
  fresh hspent := by
    rw [← h]
    exact unspent_of_isSpent hspent
  clean _ := h

theorem entryInv_dirty {fresh : Bool} (hunspent : fresh = true → coin.isSpent = false)
    (hfresh : fresh = true → below = none) : EntryInv below ⟨coin, true, fresh⟩ where
  documented := by
    unfold CCoinsCacheEntry.Documented
    cases fresh <;> cases hspent : coin.isSpent <;> simp_all
  fresh := hfresh
  clean hdirty := by cases hdirty

theorem mergeEntry_spec {own : Option CCoinsCacheEntry}
    (hchild : EntryInv (readEntry below own) entry) (hown : ∀ us, own = some us → EntryInv below us)
    (hdirty : entry.dirty = true) :
    ∃ merged, mergeEntry entry own = .ok merged ∧
      readEntry below merged = entry.coin.unspent ∧
      ∀ us, merged = some us → EntryInv below us := by
  have hunspent : entry.fresh = true → entry.coin.isSpent = false := by
    intro hfresh
    rcases hchild.documented with ⟨h, -, -⟩ | ⟨h, -, -⟩ | ⟨h, -, -⟩ | ⟨-, -, h⟩ | ⟨-, h, -⟩
    · exact h
    · exact h
    · exact h
    · cases hdirty.symm.trans h
    · rw [hfresh] at h
      cases h
  cases own with
  | none =>
    have hnot : ¬ (entry.fresh = true ∧ entry.coin.isSpent = true) := by
      rintro ⟨hfresh, hspent⟩
      cases (hunspent hfresh).symm.trans hspent
    refine ⟨_, if_neg hnot, rfl, fun us hus => ?_⟩
    obtain rfl := Option.some.inj hus
    exact entryInv_dirty hunspent hchild.fresh
  | some us =>
    have hus := hown us rfl
    have hnot : ¬ (entry.fresh = true ∧ ¬ us.coin.isSpent = true) := by
      rintro ⟨hfresh, hspent⟩
      exact hspent (unspent_eq_none.mp (hchild.fresh hfresh))
    unfold mergeEntry
    dsimp only
    rw [if_neg hnot]
    by_cases herase : us.fresh = true ∧ entry.coin.isSpent = true
    · refine ⟨none, if_pos herase, ?_, fun _ h => by cases h⟩
      rw [unspent_of_isSpent herase.2]
      exact hus.fresh herase.1
    · refine ⟨_, if_neg herase, rfl, fun us' hus' => ?_⟩
      obtain rfl := Option.some.inj hus'
      exact entryInv_dirty (fun hfresh => not_eq_true _ ▸ fun h => herase ⟨hfresh, h⟩) hus.fresh

end Key

def CCoinsViewDB.contents (db : CCoinsViewDB) : Contents :=
  fun outpoint => (db.coins.lookup outpoint).bind unspent

def contents (db : CCoinsViewDB) : List CCoinsViewCache → Contents
  | [] => db.contents
  | cache :: parents => fun outpoint =>
    readEntry (contents db parents outpoint) (cache.cacheCoins.lookup outpoint)

def levels (db : CCoinsViewDB) : List CCoinsViewCache → List Contents
  | [] => [db.contents]
  | cache :: parents => contents db (cache :: parents) :: levels db parents

def CacheInv (below : Contents) (cache : CCoinsViewCache) : Prop :=
  ∀ outpoint entry, cache.cacheCoins.lookup outpoint = some entry → EntryInv (below outpoint) entry

def StackInv (db : CCoinsViewDB) : List CCoinsViewCache → Prop
  | [] => True
  | cache :: parents => CacheInv (contents db parents) cache ∧ StackInv db parents

section Levels
variable {db db' : CCoinsViewDB} {caches caches' parents parents' : List CCoinsViewCache}
  {cache cache' : CCoinsViewCache} {below : Contents}

theorem contents_cons (db : CCoinsViewDB) (cache : CCoinsViewCache)
    (parents : List CCoinsViewCache) (outpoint : COutPoint) :
    contents db (cache :: parents) outpoint =
      readEntry (contents db parents outpoint) (cache.cacheCoins.lookup outpoint) := rfl

theorem levels_eq_cons (db : CCoinsViewDB) (caches : List CCoinsViewCache) :
    ∃ rest, levels db caches = contents db caches :: rest := by
  cases caches with
  | nil => exact ⟨[], rfl⟩
  | cons cache parents => exact ⟨levels db parents, rfl⟩

theorem contents_of_levels (h : levels db' caches' = levels db caches) :
    contents db' caches' = contents db caches := by
  obtain ⟨rest, heq⟩ := levels_eq_cons db caches
  obtain ⟨rest', heq'⟩ := levels_eq_cons db' caches'
  rw [heq, heq'] at h
  exact (List.cons.inj h).1

theorem length_levels (db : CCoinsViewDB) (caches : List CCoinsViewCache) :
    (levels db caches).length = caches.length + 1 := by
  induction caches with
  | nil => rfl
  | cons cache parents ih => rw [levels, length_cons, ih, length_cons]

theorem levels_getElem? (db : CCoinsViewDB) (caches : List CCoinsViewCache) {n : ℕ}
    (hn : n ≤ caches.length) : (levels db caches)[n]? = some (contents db (caches.drop n)) := by
  induction caches generalizing n with
  | nil =>
    obtain rfl : n = 0 := Nat.le_zero.mp hn
    rfl
  | cons cache parents ih =>
    cases n with
    | zero => rfl
    | succ n => exact ih (Nat.le_of_succ_le_succ hn)

theorem levels_take_append (n : ℕ) (hn : n ≤ caches.length)
    (h : levels db caches' = levels db (caches.drop n)) :
    levels db (caches.take n ++ caches') = levels db caches := by
  induction caches generalizing n with
  | nil => simpa using h
  | cons cache parents ih =>
    cases n with
    | zero => exact h
    | succ n =>
      have hrest := ih n (Nat.le_of_succ_le_succ hn) h
      rw [take_succ_cons, cons_append, levels, levels, contents, contents, hrest,
        contents_of_levels hrest]

theorem stackInv_take_append (n : ℕ) (hn : n ≤ caches.length) (hinv : StackInv db caches)
    (h : levels db caches' = levels db (caches.drop n)) (hinv' : StackInv db caches') :
    StackInv db (caches.take n ++ caches') := by
  induction caches generalizing n with
  | nil => simpa using hinv'
  | cons cache parents ih =>
    cases n with
    | zero => exact hinv'
    | succ n =>
      have hle := Nat.le_of_succ_le_succ hn
      refine ⟨?_, ih n hle hinv.2 h⟩
      change CacheInv (contents db (parents.take n ++ caches')) cache
      rw [contents_of_levels (levels_take_append n hle h)]
      exact hinv.1

theorem stackInv_drop (hinv : StackInv db caches) (n : ℕ) : StackInv db (caches.drop n) := by
  induction caches generalizing n with
  | nil => simpa using hinv
  | cons cache parents ih =>
    cases n with
    | zero => exact hinv
    | succ n => exact ih hinv.2 n

variable {outpoint : COutPoint}

theorem CacheInv.alter (h : CacheInv (contents db parents) cache) (new : Option CCoinsCacheEntry)
    (hnew : ∀ entry, new = some entry → EntryInv (contents db parents outpoint) entry)
    {coin : Option Coin} (hcoin : readEntry (contents db parents outpoint) new = coin) :
    CacheInv (contents db parents)
        { cache with cacheCoins := Assoc.alter cache.cacheCoins outpoint new } ∧
      contents db ({ cache with cacheCoins := Assoc.alter cache.cacheCoins outpoint new } ::
        parents) = Function.update (contents db (cache :: parents)) outpoint coin := by
  constructor
  · intro o entry hentry
    rw [lookup_alter] at hentry
    by_cases ho : o = outpoint
    · subst ho
      rw [if_pos rfl] at hentry
      exact hnew entry hentry
    · rw [if_neg ho] at hentry
      exact h o entry hentry
  · funext o
    by_cases ho : o = outpoint
    · subst ho
      rw [Function.update_self, contents_cons, lookup_alter, if_pos rfl, hcoin]
    · rw [Function.update_of_ne ho, contents_cons, contents_cons, lookup_alter, if_neg ho]

structure Fetched (db : CCoinsViewDB) (caches : List CCoinsViewCache) (outpoint : COutPoint)
    (entry : Option CCoinsCacheEntry) (cache' : CCoinsViewCache)
    (parents' : List CCoinsViewCache) : Prop where
  levels : levels db (cache' :: parents') = levels db caches
  inv : StackInv db (cache' :: parents')
  found : cache'.cacheCoins.lookup outpoint = entry
  absent : entry = none → contents db caches outpoint = none

theorem fetchCoin_spec (hinv : StackInv db (cache :: parents)) (outpoint : COutPoint)
    {fetched : Option Coin × List CCoinsViewCache}
    (hlevels : levels db fetched.2 = levels db parents) (hfetched : StackInv db fetched.2)
    (hcoin : fetched.1.bind unspent = contents db parents outpoint) :
    ∃ entry cache' parents', fetchCoin fetched cache parents outpoint =
        (entry, cache' :: parents') ∧
      Fetched db (cache :: parents) outpoint entry cache' parents' := by
  obtain ⟨coin, parents'⟩ := fetched
  have hbelow := contents_of_levels hlevels
  unfold fetchCoin
  cases hlookup : cache.cacheCoins.lookup outpoint with
  | some entry =>
    exact ⟨some entry, cache, parents, rfl, rfl, hinv, hlookup, fun h => by cases h⟩
  | none =>
    have hshown : contents db (cache :: parents) outpoint = contents db parents outpoint := by
      rw [contents_cons, hlookup]
      rfl
    cases coin with
    | none =>
      refine ⟨none, cache, parents', rfl, ?_, ?_, hlookup, fun _ => ?_⟩
      · rw [levels, levels, contents, contents, hlevels, hbelow]
      · exact ⟨by rw [hbelow]; exact hinv.1, hfetched⟩
      · rw [hshown]
        exact hcoin.symm
    | some coin =>
      have hunspent : coin.unspent = contents db parents' outpoint := hcoin.trans (by rw [hbelow])
      have hcache : CacheInv (contents db parents') cache := by
        rw [hbelow]
        exact hinv.1
      obtain ⟨hcache', hsame⟩ := hcache.alter (some ⟨coin, false, coin.isSpent⟩)
        (fun entry hentry => Option.some.inj hentry ▸ entryInv_fetched hunspent) hunspent
      refine ⟨_, _, parents', rfl, ?_, ⟨hcache', hfetched⟩, AList.lookup_insert _,
        fun h => by cases h⟩
      change contents db (_ :: parents') :: levels db parents' = _
      rw [levels, ← hlevels]
      congr 1
      refine hsame.trans (Function.update_eq_iff.mpr ⟨?_, fun o _ => ?_⟩)
      · rw [hshown, hbelow]
      · rw [contents_cons, contents_cons, hbelow]

theorem getCoin_spec (hinv : StackInv db caches) (outpoint : COutPoint) :
    levels db (getCoin db caches outpoint).2 = levels db caches ∧
      StackInv db (getCoin db caches outpoint).2 ∧
      (getCoin db caches outpoint).1.bind unspent = contents db caches outpoint ∧
      (caches ≠ [] → (getCoin db caches outpoint).1 = contents db caches outpoint) := by
  induction caches with
  | nil => exact ⟨rfl, hinv, rfl, fun h => absurd rfl h⟩
  | cons cache parents ih =>
    obtain ⟨hlevels, hparents, hcoin, -⟩ := ih hinv.2
    obtain ⟨entry, cache', parents', heq, hfetched⟩ :=
      fetchCoin_spec hinv outpoint hlevels hparents hcoin
    have hshown :=
      congrFun (contents_of_levels hfetched.levels) outpoint
    have hvalue : (entry.bind fun entry => entry.coin.unspent) =
        contents db (cache :: parents) outpoint := by
      cases hentry : entry with
      | none => exact (hfetched.absent hentry).symm
      | some entry' =>
        rw [← hshown, contents_cons, hfetched.found, hentry]
        rfl
    rw [getCoin, heq]
    refine ⟨hfetched.levels, hfetched.inv, ?_, fun _ => hvalue⟩
    change (entry.bind fun entry => entry.coin.unspent).bind unspent = _
    rw [hvalue, ← hvalue]
    cases entry with
    | none => rfl
    | some entry' => exact unspent_bind_unspent _

def Contents.add (m : Contents) (outpoint : COutPoint) (coin : Coin) : Contents :=
  if coin.out.scriptPubKey.isUnspendable then m else Function.update m outpoint (some coin)

theorem addCoin_spec (hinv : CacheInv (contents db parents) cache) (coin : Coin)
    {possibleOverwrite : Bool}
    (habsent : possibleOverwrite = false → contents db (cache :: parents) outpoint = none) :
    Sat (fun e => e = .spentCoin) (fun cache' => CacheInv (contents db parents) cache' ∧
        contents db (cache' :: parents) = (contents db (cache :: parents)).add outpoint coin)
      (cache.addCoin outpoint coin possibleOverwrite) := by
  unfold addCoin Contents.add
  by_cases hspent : coin.isSpent = true
  · rw [if_pos hspent]
    simp
  rw [if_neg hspent]
  rw [not_eq_true] at hspent
  by_cases hunspendable : coin.out.scriptPubKey.isUnspendable = true
  · simp only [if_pos hunspendable]
    exact Sat.ok_iff.mpr ⟨hinv, rfl⟩
  simp only [if_neg hunspendable]
  generalize hentry : (cache.cacheCoins.lookup outpoint).getD ⟨.empty, false, false⟩ = entry
  -- the flags of the entry that is written over, or of the new one
  have hfresh : entry.fresh = true → contents db parents outpoint = none := by
    intro hfresh
    cases hlookup : cache.cacheCoins.lookup outpoint with
    | none =>
      rw [hlookup] at hentry
      subst hentry
      cases hfresh
    | some entry' =>
      rw [hlookup] at hentry
      obtain rfl : entry' = entry := hentry
      exact (hinv outpoint entry' hlookup).fresh hfresh
  have hover : possibleOverwrite = false → entry.coin.isSpent = true ∧
      (entry.dirty = false → contents db parents outpoint = none) := by
    intro hno
    have hnone := habsent hno
    rw [contents_cons] at hnone
    cases hlookup : cache.cacheCoins.lookup outpoint with
    | none =>
      rw [hlookup] at hentry hnone
      subst hentry
      exact ⟨rfl, fun _ => hnone⟩
    | some entry' =>
      rw [hlookup] at hentry hnone
      obtain rfl : entry' = entry := hentry
      refine ⟨unspent_eq_none.mp hnone, fun hclean => ?_⟩
      rw [← (hinv outpoint entry' hlookup).clean hclean]
      exact hnone
  have hnot : ¬ (¬ possibleOverwrite = true ∧ ¬ entry.coin.isSpent = true) := by
    rintro ⟨hno, hunspent⟩
    exact hunspent (hover (not_eq_true _ ▸ hno)).1
  rw [if_neg hnot]
  refine Sat.ok_iff.mpr (hinv.alter (some _) (fun new hnew => ?_) (unspent_of_not hspent))
  obtain rfl := Option.some.inj hnew
  refine entryInv_dirty (fun _ => hspent) fun hflag => ?_
  rw [or_eq_true, decide_eq_true_eq] at hflag
  rcases hflag with hflag | ⟨hno, hclean⟩
  · exact hfresh hflag
  · exact (hover (not_eq_true _ ▸ hno)).2 (not_eq_true _ ▸ hclean)

theorem spendEntry_spec (hinv : CacheInv (contents db parents) cache) {entry : CCoinsCacheEntry}
    (hentry : cache.cacheCoins.lookup outpoint = some entry) :
    CacheInv (contents db parents) (cache.spendEntry outpoint entry) ∧
      contents db (cache.spendEntry outpoint entry :: parents) =
        Function.update (contents db (cache :: parents)) outpoint none := by
  unfold spendEntry
  by_cases hfresh : entry.fresh = true
  · rw [if_pos hfresh]
    exact hinv.alter none (fun _ h => by cases h) ((hinv outpoint entry hentry).fresh hfresh)
  · rw [if_neg hfresh]
    refine hinv.alter (some ⟨.empty, true, entry.fresh⟩) (fun new hnew => ?_) rfl
    obtain rfl := Option.some.inj hnew
    exact entryInv_dirty (absurd · hfresh) (absurd · hfresh)

theorem uncache_spec (hinv : CacheInv (contents db parents) cache) (outpoint : COutPoint) :
    CacheInv (contents db parents) (cache.uncache outpoint) ∧
      contents db (cache.uncache outpoint :: parents) = contents db (cache :: parents) := by
  unfold uncache
  cases hlookup : cache.cacheCoins.lookup outpoint with
  | none => exact ⟨hinv, rfl⟩
  | some entry =>
    dsimp only
    split_ifs with hclean
    · obtain ⟨hcache, hsame⟩ := hinv.alter none (fun _ h => by cases h) rfl
      refine ⟨hcache, hsame.trans ?_⟩
      rw [Function.update_eq_self_iff, contents_cons, hlookup]
      exact ((hinv outpoint entry hlookup).clean (not_eq_true _ ▸ hclean.1)).symm
    · exact ⟨hinv, rfl⟩

theorem batchWrite_spec (hinv : StackInv db (cache :: cache' :: parents)) (hashBlock : Uint256) :
    ∃ parent, cache'.batchWrite cache.cacheCoins hashBlock = .ok parent ∧
      parent.hashBlock = hashBlock ∧ CacheInv (contents db parents) parent ∧
      contents db (parent :: parents) = contents db (cache :: cache' :: parents) := by
  obtain ⟨hchild, hparent, -⟩ := hinv
  have hmerge : ∀ k entry, cache.cacheCoins.entries.dlookup k = some entry →
      ∃ merged, writeEntry entry (cache'.cacheCoins.lookup k) = .ok merged ∧
      readEntry (contents db parents k) merged = entry.coin.unspent ∧
      ∀ us, merged = some us → EntryInv (contents db parents k) us := by
    intro k entry hentry
    have hentryInv := hchild k entry hentry
    unfold writeEntry
    cases hdirty : entry.dirty with
    | true =>
      rw [if_pos rfl]
      exact mergeEntry_spec hentryInv (hparent k) hdirty
    | false =>
      rw [if_neg Bool.false_ne_true]
      exact ⟨_, rfl, (hentryInv.clean hdirty).symm, hparent k⟩
  obtain ⟨coins, hrun, hnone, hsome⟩ := foldlM_alter
    (fun _ entry us => writeEntry entry us)
    cache.cacheCoins.nodupKeys cache'.cacheCoins
    fun k entry hentry => (hmerge k entry hentry).imp fun _ h => h.1
  refine ⟨⟨hashBlock, coins⟩, ?_, rfl, ?_, ?_⟩
  · unfold batchWrite
    rw [hrun]
    rfl
  · intro k us hus
    cases hentry : cache.cacheCoins.entries.dlookup k with
    | none => exact hparent k us ((hnone k hentry).symm.trans hus)
    | some entry =>
      obtain ⟨merged, hok, -, hmerged⟩ := hmerge k entry hentry
      obtain rfl := Except.ok.inj ((hsome k entry hentry).symm.trans hok)
      exact hmerged us hus
  · funext k
    rw [contents_cons, contents_cons, contents_cons]
    cases hentry : cache.cacheCoins.entries.dlookup k with
    | none =>
      change readEntry _ (coins.lookup k) = readEntry _ (cache.cacheCoins.entries.dlookup k)
      rw [hnone k hentry, hentry]
      rfl
    | some entry =>
      obtain ⟨merged, hok, hread, -⟩ := hmerge k entry hentry
      obtain rfl := Except.ok.inj ((hsome k entry hentry).symm.trans hok)
      change _ = readEntry _ (cache.cacheCoins.entries.dlookup k)
      rw [hentry]
      exact hread

theorem lookup_dbWrites (coins : Assoc COutPoint Coin)
    {l : List (Sigma fun _ : COutPoint => CCoinsCacheEntry)} (hnodup : l.NodupKeys)
    (outpoint : COutPoint) :
    (l.foldl (fun coins e => if e.2.dirty then Assoc.alter coins e.1 e.2.coin.unspent else coins)
        coins).lookup outpoint =
      match l.dlookup outpoint with
      | some entry => if entry.dirty then entry.coin.unspent else coins.lookup outpoint
      | none => coins.lookup outpoint := by
  induction l generalizing coins with
  | nil => rfl
  | cons e l ih =>
    obtain ⟨k, entry⟩ := e
    rw [nodupKeys_cons] at hnodup
    rw [foldl_cons, ih _ hnodup.2]
    by_cases ho : outpoint = k
    · subst ho
      have hmissing : l.dlookup outpoint = none := dlookup_eq_none.mpr hnodup.1
      rw [hmissing, dlookup_cons_eq]
      dsimp only
      split_ifs
      · rw [lookup_alter, if_pos rfl]
      · rfl
    · rw [dlookup_cons_ne l ⟨k, entry⟩ ho]
      have hsame : (if entry.dirty then Assoc.alter coins k entry.coin.unspent else coins).lookup
          outpoint = coins.lookup outpoint := by
        split_ifs
        · rw [lookup_alter, if_neg ho]
        · rfl
      dsimp only
      rw [hsame]

theorem dbWrite_spec (hinv : StackInv db [cache]) (hashBlock : Uint256) :
    Sat (fun e => e = .nullBestBlock ∨ e = .headBlocks)
      (fun db' => db'.contents = contents db [cache]) (db.batchWrite cache.cacheCoins hashBlock) := by
  unfold CCoinsViewDB.batchWrite
  split_ifs with hnull hheads
  · simp
  · simp
  · rw [Sat.ok_iff]
    funext k
    have hlookup := lookup_dbWrites db.coins cache.cacheCoins.nodupKeys k
    unfold CCoinsViewDB.contents
    dsimp only
    rw [hlookup, contents_cons]
    cases hentry : cache.cacheCoins.entries.dlookup k with
    | none =>
      change _ = readEntry _ (cache.cacheCoins.entries.dlookup k)
      rw [hentry]
      rfl
    | some entry =>
      change _ = readEntry _ (cache.cacheCoins.entries.dlookup k)
      rw [hentry]
      dsimp only
      split_ifs with hdirty
      · exact unspent_bind_unspent _
      · exact ((hinv.1 k entry hentry).clean (not_eq_true _ ▸ hdirty)).symm

end Levels
end Vexta
