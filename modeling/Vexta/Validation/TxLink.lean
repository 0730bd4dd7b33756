import Vexta.Basic

/-! What the block index knows of the transactions of its blocks. -/
namespace Vexta
open List Option
structure TxNode where
  pprev : Option Uint256
  nTx : ℕ
  nChainTx : ℕ

abbrev TxView := Uint256 → Option TxNode

namespace TxView

def chainTx (D : TxView) (p : Uint256) : ℕ := (D p).elim 0 TxNode.nChainTx

def set (D : TxView) (p : Uint256) (n : TxNode) : TxView := fun q => if q = p then some n else D q

variable {D : TxView} {p : Uint256} {n m : TxNode}

theorem set_eq_some {x : Uint256} :
    D.set p n x = some m ↔ x = p ∧ m = n ∨ x ≠ p ∧ D x = some m := by
  unfold set
  split_ifs with h
  · simp [h, eq_comm]
  · simp [h]

theorem chainTx_set (D : TxView) (p : Uint256) (n : TxNode) (x : Uint256) :
    (D.set p n).chainTx x = if x = p then n.nChainTx else D.chainTx x := by
  unfold chainTx set
  split_ifs <;> rfl

theorem chainTx_eq (h : D p = some n) : D.chainTx p = n.nChainTx := by
  rw [chainTx, h]
  rfl

theorem pprev_set (hp : D p = some n) (hm : m.pprev = n.pprev) :
    (fun x => (D.set p m x).map TxNode.pprev) = fun x => (D x).map TxNode.pprev := by
  funext x
  unfold set
  split_ifs with h
  · rw [h, hp, map_some, map_some, hm]
  · rfl

end TxView

def TxNode.linked (n : TxNode) (base : Uint256 → ℕ) : ℕ :=
  if n.nTx = 0 then 0
  else match n.pprev with
    | none => n.nTx
    | some q => if base q = 0 then 0 else (base q + n.nTx) % 2 ^ 32

variable {n : TxNode} {base : Uint256 → ℕ}

theorem TxNode.linked_ready (hdata : n.nTx ≠ 0) (hlt : n.nTx < 2 ^ 32)
    (hready : ∀ q, n.pprev = some q → base q ≠ 0) :
    n.linked base = (n.pprev.elim 0 base + n.nTx) % 2 ^ 32 := by
  unfold linked
  rw [if_neg hdata]
  cases hq : n.pprev with
  | none => rw [elim_none, Nat.zero_add, Nat.mod_eq_of_lt hlt]
  | some q => simp [hready q hq]

theorem TxNode.linked_congr {m : TxNode} {base' : Uint256 → ℕ} (hpprev : m.pprev = n.pprev)
    (htx : m.nTx = n.nTx) (h : ∀ q, n.pprev = some q → base' q = base q) :
    m.linked base' = n.linked base := by
  unfold linked
  rw [hpprev, htx]
  cases hq : n.pprev with
  | none => rfl
  | some q => simp only [h q hq]

/-- `total` counts the transactions of a chain, never a multiple of `2 ^ 32`. -/
structure IsChainTotal (txCount total : Uint256 → ℕ) (pprev : Uint256 → Option (Option Uint256)) :
    Prop where
  count : ∀ p, 1 ≤ txCount p ∧ txCount p < 2 ^ 32
  sum : ∀ {p parent}, pprev p = some parent → total p = txCount p + parent.elim 0 total
  nonzero : ∀ {p parent}, pprev p = some parent → total p % 2 ^ 32 ≠ 0

theorem IsChainTotal.mono {txCount total : Uint256 → ℕ}
    {pprev pprev' : Uint256 → Option (Option Uint256)} (h : IsChainTotal txCount total pprev')
    (hle : ∀ p parent, pprev p = some parent → pprev' p = some parent) :
    IsChainTotal txCount total pprev where
  count := h.count
  sum hp := h.sum (hle _ _ hp)
  nonzero hp := h.nonzero (hle _ _ hp)

/-- The invariant of linking, with the blocks of `queue` still to be linked. -/
structure DataInv (txCount total : Uint256 → ℕ) (D : TxView)
    (unlinked : List (Uint256 × Uint256)) (queue : List Uint256) : Prop where
  totals : IsChainTotal txCount total fun p => (D p).map TxNode.pprev
  count : ∀ {p n}, D p = some n → n.nTx ≠ 0 → n.nTx = txCount p
  linked : ∀ {p n}, D p = some n →
    n.nChainTx = n.linked D.chainTx ∨ p ∈ queue ∧ n.nChainTx = 0
  sum : ∀ {p n}, D p = some n → n.nChainTx ≠ 0 → n.nChainTx = total p % 2 ^ 32
  ready : ∀ {p}, p ∈ queue → ∃ n, D p = some n ∧ n.nTx ≠ 0 ∧
    ∀ q, n.pprev = some q → D.chainTx q ≠ 0
  waits : ∀ {q p}, (q, p) ∈ unlinked ↔
    ∃ n, D p = some n ∧ n.nTx ≠ 0 ∧ n.pprev = some q ∧ D.chainTx q = 0

namespace DataInv
variable {txCount total : Uint256 → ℕ} {D : TxView} {unlinked : List (Uint256 × Uint256)}
  {queue : List Uint256} {p : Uint256} {n : TxNode}

section
variable (h : DataInv txCount total D unlinked queue)
include h

theorem total_eq (hp : D p = some n) :
    total p = txCount p + n.pprev.elim 0 total := h.totals.sum (by rw [hp]; rfl)

theorem pprev_ne (hp : D p = some n) :
    n.pprev ≠ some p := by
  intro hself
  have hsum := h.total_eq hp
  have hcount := (h.totals.count p).1
  rw [hself, elim_some] at hsum
  omega

theorem chainTx_eq_total
    (hp : D.chainTx p ≠ 0) : D.chainTx p = total p % 2 ^ 32 := by
  cases hn : D p with
  | none => simp [TxView.chainTx, hn] at hp
  | some n =>
    rw [TxView.chainTx_eq hn] at hp ⊢
    exact h.sum hn hp

theorem linked_eq_total (hp : D p = some n)
    (hready : n.nTx ≠ 0 ∧ ∀ q, n.pprev = some q → D.chainTx q ≠ 0) :
    (n.pprev.elim 0 D.chainTx + n.nTx) % 2 ^ 32 = total p % 2 ^ 32 := by
  rw [h.count hp hready.1, h.total_eq hp]
  cases hq : n.pprev with
  | none => simp
  | some q =>
    rw [elim_some, elim_some, h.chainTx_eq_total (hready.2 q hq),
      Nat.mod_add_mod, Nat.add_comm]

theorem linked_ready (hp : D p = some n)
    (hready : n.nTx ≠ 0 ∧ ∀ q, n.pprev = some q → D.chainTx q ≠ 0) :
    n.linked D.chainTx = total p % 2 ^ 32 := by
  have hlt : n.nTx < 2 ^ 32 := by
    rw [h.count hp hready.1]
    exact (h.totals.count p).2
  rw [TxNode.linked_ready hready.1 hlt hready.2, h.linked_eq_total hp hready]

end

theorem nChainTx_ne_zero_iff (h : DataInv txCount total D unlinked []) (hp : D p = some n) :
    n.nChainTx ≠ 0 ↔ n.nTx ≠ 0 ∧ ∀ q, n.pprev = some q → D.chainTx q ≠ 0 := by
  have hlink :=
    (h.linked hp).resolve_right fun hmem => not_mem_nil hmem.1
  rw [hlink]
  constructor
  · intro hne
    unfold TxNode.linked at hne
    split_ifs at hne with hdata
    · exact absurd rfl hne
    · refine ⟨hdata, ?_⟩
      intro q hq hzero
      simp [hq, hzero] at hne
  · intro hready
    rw [h.linked_ready hp hready]
    exact h.totals.nonzero (by rw [hp]; rfl)

section
variable (h : DataInv txCount total D unlinked (p :: queue)) (hp : D p = some n)
include h hp

private theorem first_ready : n.nTx ≠ 0 ∧ ∀ q, n.pprev = some q → D.chainTx q ≠ 0 := by
  obtain ⟨m, hm, hready⟩ := h.ready mem_cons_self
  cases hp.symm.trans hm
  exact hready

variable {x : Uint256}

omit hp in
private theorem chainTx_link (hx : D.chainTx x ≠ 0 ∨ x ≠ p) :
    (D.set p { n with nChainTx := total p % 2 ^ 32 }).chainTx x = D.chainTx x := by
  rw [TxView.chainTx_set]
  split_ifs with hxp
  · have hne : D.chainTx p ≠ 0 := by simpa [hxp] using hx
    rw [hxp, h.chainTx_eq_total hne]
  · rfl

private theorem chainTx_link_self :
    (D.set p { n with nChainTx := total p % 2 ^ 32 }).chainTx p ≠ 0 := by
  rw [TxView.chainTx_set, if_pos rfl]
  exact h.totals.nonzero (by rw [hp]; rfl)

private theorem linked_first :
    total p % 2 ^ 32 =
      n.linked (D.set p { n with nChainTx := total p % 2 ^ 32 }).chainTx := by
  have hready := first_ready h hp
  have hkeep : n.linked (D.set p { n with nChainTx := total p % 2 ^ 32 }).chainTx =
      n.linked D.chainTx :=
    TxNode.linked_congr rfl rfl fun q hq => chainTx_link h (.inl (hready.2 q hq))
  rw [hkeep, h.linked_ready hp hready]

omit hp in
private theorem linked_other {m : TxNode} (hne : x ≠ p) (hx : D x = some m) :
    m.nChainTx = m.linked (D.set p { n with nChainTx := total p % 2 ^ 32 }).chainTx ∨
      x ∈ queue ++ (unlinked.filter fun entry => entry.1 = p).map Prod.snd ∧
        m.nChainTx = 0 := by
  by_cases hwait : m.pprev = some p ∧ m.nTx ≠ 0 ∧ D.chainTx p = 0
  · obtain ⟨hpar, htx, hzero⟩ := hwait
    have hmem : (p, x) ∈ unlinked := h.waits.mpr ⟨m, hx, htx, hpar, hzero⟩
    have hcount : m.nChainTx = 0 := by
      rcases h.linked hx with hlink | ⟨-, hlink⟩
      · rw [hlink, TxNode.linked, if_neg htx, hpar]
        simp [hzero]
      · exact hlink
    have hready : (p, x) ∈ unlinked.filter fun entry => entry.1 = p :=
      mem_filter.mpr ⟨hmem, by simp⟩
    exact .inr ⟨mem_append_right _ (mem_map.mpr ⟨(p, x), hready, rfl⟩), hcount⟩
  · have hsame : m.linked (D.set p { n with nChainTx := total p % 2 ^ 32 }).chainTx =
        m.linked D.chainTx := by
      by_cases htx : m.nTx = 0
      · simp [TxNode.linked, htx]
      · apply TxNode.linked_congr rfl rfl
        intro q hq
        apply chainTx_link h
        by_cases hqp : q = p
        · left
          rw [hqp]
          exact fun hzero => hwait ⟨hqp ▸ hq, htx, hzero⟩
        · exact .inr hqp
    rcases h.linked hx with hlink | ⟨hmem, hzero⟩
    · exact .inl (hlink.trans hsame.symm)
    · have hqueue : x ∈ queue := (mem_cons.mp hmem).resolve_left hne
      exact .inr ⟨mem_append_left _ hqueue, hzero⟩

private theorem ready_link
    (hx : x ∈ queue ++ (unlinked.filter fun entry => entry.1 = p).map Prod.snd) :
    ∃ m, D.set p { n with nChainTx := total p % 2 ^ 32 } x = some m ∧ m.nTx ≠ 0 ∧
      ∀ q, m.pprev = some q →
        (D.set p { n with nChainTx := total p % 2 ^ 32 }).chainTx q ≠ 0 := by
  have hkeep : ∀ q, D.chainTx q ≠ 0 →
      (D.set p { n with nChainTx := total p % 2 ^ 32 }).chainTx q ≠ 0 := by
    intro q hq
    rw [chainTx_link h (.inl hq)]
    exact hq
  rcases mem_append.mp hx with hx | hx
  · obtain ⟨m, hm, htx, hpar⟩ := h.ready (mem_cons_of_mem _ hx)
    by_cases hxp : x = p
    · obtain ⟨hdata, hready⟩ := first_ready h hp
      exact ⟨_, TxView.set_eq_some.mpr (.inl ⟨hxp, rfl⟩), hdata,
        fun q hq => hkeep q (hready q hq)⟩
    · exact ⟨m, TxView.set_eq_some.mpr (.inr ⟨hxp, hm⟩), htx, fun q hq => hkeep q (hpar q hq)⟩
  · obtain ⟨⟨q, y⟩, hmem, rfl⟩ := mem_map.mp hx
    obtain ⟨hmem, hqp⟩ := mem_filter.mp hmem
    have hqp : q = p := by simpa using hqp
    obtain ⟨m, hm, htx, hpar, -⟩ := h.waits.mp hmem
    rw [hqp] at hpar
    have hne : y ≠ p := by
      intro hy
      rw [← hy] at hpar
      exact h.pprev_ne hm hpar
    refine ⟨m, TxView.set_eq_some.mpr (.inr ⟨hne, hm⟩), htx, ?_⟩
    intro r hr
    cases hpar.symm.trans hr
    exact chainTx_link_self h hp

private theorem waits_link {q : Uint256} :
    (q, x) ∈ (unlinked.filter fun entry => entry.1 ≠ p) ↔
      ∃ m, D.set p { n with nChainTx := total p % 2 ^ 32 } x = some m ∧ m.nTx ≠ 0 ∧
        m.pprev = some q ∧ (D.set p { n with nChainTx := total p % 2 ^ 32 }).chainTx q = 0 := by
  have hself := chainTx_link_self h hp
  constructor
  · intro hmem
    obtain ⟨hmem, hqp⟩ := mem_filter.mp hmem
    have hqp : q ≠ p := by simpa using hqp
    obtain ⟨m, hm, htx, hpar, hzero⟩ := h.waits.mp hmem
    have hxp : x ≠ p := by
      rintro rfl
      cases hp.symm.trans hm
      exact (first_ready h hp).2 q hpar hzero
    exact ⟨m, TxView.set_eq_some.mpr (.inr ⟨hxp, hm⟩), htx, hpar,
      by rw [chainTx_link h (.inr hqp)]; exact hzero⟩
  · rintro ⟨m, hm, htx, hpar, hzero⟩
    have hqp : q ≠ p := by
      rintro rfl
      exact hself hzero
    rw [chainTx_link h (.inr hqp)] at hzero
    refine mem_filter.mpr ⟨?_, by simpa using hqp⟩
    rcases TxView.set_eq_some.mp hm with ⟨rfl, rfl⟩ | ⟨-, hm⟩
    · exact absurd hzero ((first_ready h hp).2 q hpar)
    · exact h.waits.mpr ⟨m, hm, htx, hpar, hzero⟩

theorem link :
    DataInv txCount total
      (D.set p { n with nChainTx := (n.pprev.elim 0 D.chainTx + n.nTx) % 2 ^ 32 })
      (unlinked.filter fun entry => entry.1 ≠ p)
      (queue ++ (unlinked.filter fun entry => entry.1 = p).map Prod.snd) := by
  rw [h.linked_eq_total hp (first_ready h hp)]
  exact {
    totals := by
      rw [TxView.pprev_set (m := { n with nChainTx := total p % 2 ^ 32 }) hp rfl]
      exact h.totals
    count := by
      intro x m hx hm
      rcases TxView.set_eq_some.mp hx with ⟨rfl, rfl⟩ | ⟨-, hx⟩
      · have hdata := (first_ready h hp).1
        have hcount := h.count hp hdata
        exact hcount
      · exact h.count hx hm
    linked := by
      intro x m hx
      rcases TxView.set_eq_some.mp hx with ⟨rfl, rfl⟩ | ⟨hne, hx⟩
      · have hfirst := linked_first h hp
        exact .inl hfirst
      · exact linked_other h hne hx
    sum := by
      intro x m hx hm
      rcases TxView.set_eq_some.mp hx with ⟨rfl, rfl⟩ | ⟨-, hx⟩
      · rfl
      · exact h.sum hx hm
    ready := ready_link h hp
    waits := waits_link h hp }

end

variable {m : TxNode}

theorem chainTx_set (h : DataInv txCount total D unlinked []) (hold : ∀ n, D p = some n → n.nTx = 0)
    (hzero : m.nChainTx = 0) : (D.set p m).chainTx = D.chainTx := by
  funext x
  rw [TxView.chainTx_set]
  split_ifs with hx
  · rw [hzero, hx]
    cases hn : D p with
    | none => simp [TxView.chainTx, hn]
    | some n =>
      rw [TxView.chainTx_eq hn]
      rcases h.linked hn with hlink | ⟨hmem, -⟩
      · rw [hlink, TxNode.linked, if_pos (hold n hn)]
      · cases hmem
  · rfl

theorem set {unlinked' : List (Uint256 × Uint256)} {queue' : List Uint256}
    (h : DataInv txCount total D unlinked []) (hold : ∀ n, D p = some n → n.nTx = 0)
    (htotals : IsChainTotal txCount total fun x => (D.set p m x).map TxNode.pprev)
    (hcount : m.nTx ≠ 0 → m.nTx = txCount p) (hzero : m.nChainTx = 0)
    (hlinked : m.linked D.chainTx = 0 ∨ p ∈ queue')
    (hready : ∀ x ∈ queue', x = p ∧ m.nTx ≠ 0 ∧ ∀ q, m.pprev = some q → D.chainTx q ≠ 0)
    (hwaits : ∀ q x, (q, x) ∈ unlinked' ↔ (q, x) ∈ unlinked ∨
      x = p ∧ m.nTx ≠ 0 ∧ m.pprev = some q ∧ D.chainTx q = 0) :
    DataInv txCount total (D.set p m) unlinked' queue' := by
  have hsame := h.chainTx_set hold hzero
  exact {
    totals := htotals
    count := by
      intro x n hx hn
      rcases TxView.set_eq_some.mp hx with ⟨rfl, rfl⟩ | ⟨-, hx⟩
      · exact hcount hn
      · exact h.count hx hn
    linked := by
      intro x n hx
      rw [hsame]
      rcases TxView.set_eq_some.mp hx with ⟨rfl, rfl⟩ | ⟨-, hx⟩
      · rcases hlinked with hlink | hmem
        · exact .inl (hzero.trans hlink.symm)
        · exact .inr ⟨hmem, hzero⟩
      · rcases h.linked hx with hlink | ⟨hmem, -⟩
        · exact .inl hlink
        · cases hmem
    sum := by
      intro x n hx hn
      rcases TxView.set_eq_some.mp hx with ⟨rfl, rfl⟩ | ⟨-, hx⟩
      · exact absurd hzero hn
      · exact h.sum hx hn
    ready := by
      intro x hx
      obtain ⟨hxp, hdata, hpar⟩ := hready x hx
      rw [hsame]
      exact ⟨m, TxView.set_eq_some.mpr (.inl ⟨hxp, rfl⟩), hdata, hpar⟩
    waits := by
      intro q x
      rw [hwaits, hsame]
      constructor
      · rintro (hmem | ⟨rfl, hwait⟩)
        · obtain ⟨n, hn, hdata, hwait⟩ := h.waits.mp hmem
          have hne : x ≠ p := by
            rintro rfl
            exact hdata (hold n hn)
          exact ⟨n, TxView.set_eq_some.mpr (.inr ⟨hne, hn⟩), hdata, hwait⟩
        · exact ⟨m, TxView.set_eq_some.mpr (.inl ⟨rfl, rfl⟩), hwait⟩
      · rintro ⟨n, hn, hwait⟩
        rcases TxView.set_eq_some.mp hn with ⟨rfl, rfl⟩ | ⟨-, hn⟩
        · exact .inr ⟨rfl, hwait⟩
        · exact .inl (h.waits.mpr ⟨n, hn, hwait⟩) }

end DataInv
end Vexta
