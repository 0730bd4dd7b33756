import Vexta.Chain.Line

/-! The active chain, and the search for forks in the tree. -/
namespace Vexta
open Lib Heap Option List Forest

abbrev CChain := List (Option Uint256)

namespace CChain
variable (H : Heap) (chain : CChain)

def resize (n : ℕ) : CChain := (List.range n).map fun k => chain[k]?.join

def get (nHeight : ℤ) : Option Uint256 :=
  if nHeight < 0 ∨ chain.length ≤ nHeight then none else chain[nHeight.toNat]?.join

def contains (p : Uint256) (index : IndexNode) : Bool := chain.get index.nHeight = some p

def height : ℤ := chain.length - 1

def setTipLoop : ℕ → Option Uint256 → CChain → Except Fault CChain
  | _, none, chain => .ok chain
  | 0, some _, _ => .error .outOfFuel
  | fuel + 1, some p, chain => do
    let index ← H.deref p
    match chain[index.nHeight]? with
    | none => .error .outOfRange
    | some entry =>
      if entry = some p then .ok chain
      else setTipLoop fuel index.pprev (chain.set index.nHeight (some p))

/-- `SetTip`. The height bounds the iterations. -/
def setTip : Option Uint256 → Except Fault CChain
  | none => .ok []
  | some p => do
    let index ← H.deref p
    setTipLoop H (index.nHeight + 1) (some p) (chain.resize (index.nHeight + 1))

def forkLoop : ℕ → Option Uint256 → Except Fault (Option Uint256)
  | _, none => .ok none
  | 0, some _ => .error .outOfFuel
  | fuel + 1, some p => do
    let index ← H.deref p
    if chain.contains p index then .ok (some p) else forkLoop fuel index.pprev

def findFork : Option Uint256 → Except Fault (Option Uint256)
  | none => .ok none
  | some p => do
    let index ← H.deref p
    let start ← if chain.height < index.nHeight then getAncestor H p chain.height
      else .ok (some p)
    forkLoop H chain (index.nHeight + 1) start

end CChain

def commonLoop (H : Heap) : ℕ → Option Uint256 → Option Uint256 → Except Fault (Option Uint256)
  | 0, _, _ => .error .outOfFuel
  | fuel + 1, some pa, some pb =>
    if pa = pb then .ok (some pa)
    else do
      let a ← H.deref pa
      let b ← H.deref pb
      commonLoop H fuel a.pprev b.pprev
  | _ + 1, pa, pb => if pa = pb then .ok pa else .error .assertion

def lastCommonAncestor (H : Heap) (pa pb : Uint256) : Except Fault (Option Uint256) := do
  let a ← H.deref pa
  let b ← H.deref pb
  let (pa, pb) ← if b.nHeight < a.nHeight then do
      let pa ← getAncestor H pa b.nHeight
      .ok (pa, some pb)
    else if a.nHeight < b.nHeight then do
      let pb ← getAncestor H pb a.nHeight
      .ok (some pa, pb)
    else .ok (some pa, some pb)
  commonLoop H (a.nHeight + 2) pa pb

namespace Linked
variable {H : Heap} (hH : Linked H) {p q : Uint256} {index node : IndexNode} {tip : Option Uint256}

/-- The loop writes the ancestors of the new tip until it meets the old chain, which shares the
rest. -/
theorem setTipLoop_eq {old : Option Uint256} (hold : ∀ q ∈ old, hH.forest.Mem q) {tip : Uint256}
    (htip : hH.forest.Mem tip) {fuel : ℕ} (hp : H p = some index)
    (habove : hH.forest.Above p tip) (hfuel : index.nHeight < fuel) {f : ℕ → Option Uint256}
    (hdone : ∀ k, index.nHeight < k → k ≤ hH.forest.height tip → f k = hH.forest.ancestorAt k tip)
    (hleft : ∀ k, k ≤ index.nHeight → f k = old.bind (hH.forest.ancestorAt k)) :
    CChain.setTipLoop H fuel (some p) ((range (hH.forest.height tip + 1)).map f) =
      .ok (hH.forest.wayTo (some tip)) := by
  have hend : ∀ g : ℕ → Option Uint256,
      (∀ k ≤ hH.forest.height tip, g k = hH.forest.ancestorAt k tip) →
      (range (hH.forest.height tip + 1)).map g = hH.forest.wayTo (some tip) := by
    intro g hg
    exact map_congr_left fun k hk => hg k (Nat.le_of_lt_succ (mem_range.mp hk))
  induction fuel generalizing p index f with
  | zero => omega
  | succ fuel ih =>
    have hheight := hH.forest_height hp
    have hle := (hH.forest.above_mem htip habove).2
    have hself := (hH.forest.above_iff_ancestorAt htip).mp habove
    rw [hheight] at hle hself
    rw [CChain.setTipLoop, deref_eq hp, ok_bind, getElem?_map, getElem?_range (by omega)]
    dsimp only [map_some]
    split_ifs with hf
    · refine congrArg Except.ok (hend f fun k hk => ?_)
      by_cases hlt : index.nHeight < k
      · exact hdone k hlt hk
      · rw [hleft _ le_rfl] at hf
        obtain ⟨o, rfl, ho⟩ := bind_eq_some_iff.mp hf
        rw [hleft k (by omega), bind_some, ← hH.forest.ancestorAt_above_eq (hold o rfl)
          (hH.forest.ancestorAt_above ho) (by omega),
          hH.forest.ancestorAt_above_eq htip habove (by omega)]
    · have hset : ((range (hH.forest.height tip + 1)).map f).set index.nHeight (some p) =
          (range (hH.forest.height tip + 1)).map (Function.update f index.nHeight (some p)) := by
        refine ext_getElem (by simp) fun k hk hk' => ?_
        simp [getElem_set, Function.update_apply, eq_comm]
      have hnext : ∀ k, index.nHeight ≤ k → k ≤ hH.forest.height tip →
          Function.update f index.nHeight (some p) k = hH.forest.ancestorAt k tip := by
        intro k hk hmem
        rw [Function.update_apply]
        split_ifs with heq
        · rw [heq, hself]
        · exact hdone k (by omega) hmem
      rw [hset]
      cases hq : index.pprev with
      | none =>
        rw [CChain.setTipLoop]
        refine congrArg Except.ok (hend _ fun k => hnext k ?_)
        rw [hH.root hp hq]
        exact Nat.zero_le k
      | some q =>
        obtain ⟨prev, hprev, hparent⟩ := hH.parent hp hq
        have hq := hH.forest.above_parent ((hH.forest_parent hp).trans hq)
        refine ih hprev (hH.forest.above_trans hq habove) (by omega)
          (fun k hk => hnext k (by omega)) fun k hk => ?_
        rw [Function.update_of_ne (by omega), hleft k (by omega)]

theorem setTip_eq {old : Option Uint256} (hold : ∀ q ∈ old, hH.forest.Mem q)
    (htip : ∀ q ∈ tip, hH.forest.Mem q) :
    CChain.setTip H (hH.forest.wayTo old) tip = .ok (hH.forest.wayTo tip) := by
  cases tip with
  | none => rfl
  | some p =>
    obtain ⟨index, hp⟩ := hH.forest_mem.mp (htip p rfl)
    have hheight := hH.forest_height hp
    rw [CChain.setTip, deref_eq hp, ok_bind, CChain.resize, ← hheight]
    simp only [join_wayTo]
    exact hH.setTipLoop_eq hold (htip p rfl) hp (hH.forest.above_refl p) (by omega)
      (fun k hk hle => by omega) fun k _ => rfl

theorem setTips_eq {tips : List (Option Uint256)} (htips : ∀ tip ∈ tips, ∀ q ∈ tip, (H q).isSome) :
    ∃ tip, (∀ q ∈ tip, hH.forest.Mem q) ∧
      tips.foldlM (CChain.setTip H) [] = .ok (hH.forest.wayTo tip) := by
  have hrun : ∀ old : Option Uint256, (∀ q ∈ old, hH.forest.Mem q) →
      ∃ tip, (∀ q ∈ tip, hH.forest.Mem q) ∧
        tips.foldlM (CChain.setTip H) (hH.forest.wayTo old) = .ok (hH.forest.wayTo tip) := by
    induction tips with
    | nil => exact fun old hold => ⟨old, hold, rfl⟩
    | cons tip tips ih =>
      intro old hold
      have htip : ∀ q ∈ tip, hH.forest.Mem q := htips tip mem_cons_self
      rw [foldlM_cons, hH.setTip_eq hold htip, ok_bind]
      exact ih (fun t ht => htips t (mem_cons_of_mem _ ht)) tip htip
  exact hrun none nofun

theorem get_wayTo (tip : Option Uint256) (k : ℕ) :
    CChain.get (hH.forest.wayTo tip) k = tip.bind (hH.forest.ancestorAt k) := by
  rw [CChain.get, ← join_wayTo, Int.toNat_natCast]
  split_ifs with h
  · rw [getElem?_eq_none (by omega)]
    rfl
  · rfl

section
variable (htip : ∀ q ∈ tip, hH.forest.Mem q) (hp : H p = some index)
include htip hp

theorem contains_wayTo :
    CChain.contains (hH.forest.wayTo tip) p index ↔ some p ∈ hH.forest.wayTo tip := by
  rw [CChain.contains, decide_eq_true_iff, get_wayTo, ← hH.forest_height hp,
    hH.forest.bind_ancestorAt_iff htip, hH.forest.mem_wayTo htip]

theorem exists_forkLoop {fuel : ℕ} (hfuel : index.nHeight < fuel) :
    ∃ r, CChain.forkLoop H (hH.forest.wayTo tip) fuel (some p) = .ok r ∧
      hH.forest.Deepest p (some · ∈ hH.forest.wayTo tip) r := by
  induction fuel generalizing p index with
  | zero => omega
  | succ fuel ih =>
    rw [CChain.forkLoop, deref_eq hp, ok_bind]
    have hpar := hH.forest_parent hp
    split_ifs with h <;> rw [hH.contains_wayTo htip hp] at h
    · refine ⟨some p, rfl, deepest_self fun d hd => ?_⟩
      obtain ⟨q, hq, hpq⟩ := (hH.forest.mem_wayTo htip).mp h
      exact (hH.forest.mem_wayTo htip).mpr ⟨q, hq, hH.forest.above_trans hd hpq⟩
    cases hq : index.pprev with
    | none => exact ⟨none, by cases fuel <;> rfl, deepest_root (hpar.trans hq) h⟩
    | some q =>
      obtain ⟨prev, hprev, hheight⟩ := hH.parent hp hq
      obtain ⟨r, hr, hdeep⟩ := ih hprev (by omega)
      exact ⟨r, hr, hdeep.of_parent (hpar.trans hq) h⟩

theorem exists_findFork : ∃ r, CChain.findFork H (hH.forest.wayTo tip) (some p) = .ok r ∧
    hH.forest.Deepest p (some · ∈ hH.forest.wayTo tip) r := by
  rw [CChain.findFork, deref_eq hp, ok_bind]
  split_ifs with h
  · cases tip with
    | none =>
      have hneg : CChain.height (hH.forest.wayTo none) < 0 := by simp [CChain.height, wayTo]
      refine ⟨none, ?_, fun d => by simp [wayTo]⟩
      rw [Linked.getAncestor_of_neg hp hneg]
      rfl
    | some t =>
      have hlast : CChain.height (hH.forest.wayTo (some t)) = hH.forest.height t := by
        simp [CChain.height, wayTo]
      rw [hlast] at h ⊢
      obtain ⟨c, hc, hmem, hheight⟩ := hH.forest.exists_ancestorAt (hH.mem_of_eq hp)
        (k := hH.forest.height t) (by rw [hH.forest_height hp]; omega)
      obtain ⟨node, hnode⟩ := hH.forest_mem.mp hmem
      rw [hH.forest_height hnode] at hheight
      have hfuel : node.nHeight < index.nHeight + 1 := by omega
      obtain ⟨r, hr, hdeep⟩ := hH.exists_forkLoop htip hnode hfuel
      rw [hH.getAncestor_eq hp, hc]
      refine ⟨r, hr, hdeep.of_ancestorAt (hH.mem_of_eq hp) hc fun d hd => ?_⟩
      obtain ⟨q, hq, habove⟩ := (hH.forest.mem_wayTo htip).mp hd
      cases hq
      exact (hH.forest.above_mem (htip t rfl) habove).2
  · exact hH.exists_forkLoop htip hp (Nat.lt_succ_self _)

end

section
variable (hp : H p = some index) (hq : H q = some node)
include hp hq

theorem not_above (hle : node.nHeight ≤ index.nHeight) (hne : p ≠ q) : ¬ hH.forest.Above p q := by
  intro h
  have hp' := hH.forest_height hp
  have hq' := hH.forest_height hq
  have hge := (hH.forest.above_mem (hH.mem_of_eq hq) h).2
  rw [hH.forest.above_iff_ancestorAt (hH.mem_of_eq hq),
    show hH.forest.height p = hH.forest.height q by omega, ancestorAt_self] at h
  exact hne (some.inj h).symm

theorem exists_commonLoop (hheight : index.nHeight = node.nHeight) {fuel : ℕ}
    (hfuel : index.nHeight + 1 < fuel) : ∃ r, commonLoop H fuel (some p) (some q) = .ok r ∧
      hH.forest.Deepest p (hH.forest.Above · q) r := by
  induction fuel generalizing p q index node with
  | zero => omega
  | succ fuel ih =>
    rw [commonLoop]
    split_ifs with hpq
    · exact ⟨some p, rfl, deepest_self fun d hd => hpq ▸ hd⟩
    rw [deref_eq hp, deref_eq hq, ok_bind, ok_bind]
    have hne := hH.not_above hp hq hheight.ge hpq
    have hpar := hH.forest_parent hp
    cases hp' : index.pprev with
    | none =>
      have hroot := hH.root hp hp'
      cases hq' : node.pprev with
      | none =>
        obtain ⟨fuel, rfl⟩ : ∃ n, fuel = n + 1 := ⟨fuel - 1, by omega⟩
        exact ⟨none, rfl, deepest_root (hpar.trans hp') hne⟩
      | some q' =>
        obtain ⟨_, -, hnode⟩ := hH.parent hq hq'
        omega
    | some p' =>
      obtain ⟨prev, hprev, hindex⟩ := hH.parent hp hp'
      cases hq' : node.pprev with
      | none =>
        have hroot := hH.root hq hq'
        omega
      | some q' =>
        obtain ⟨prev', hprev', hnode⟩ := hH.parent hq hq'
        obtain ⟨r, hr, hdeep⟩ := ih hprev hprev' (by omega) (by omega)
        have hlow : ¬ hH.forest.Above q p' := by
          refine hH.not_above hq hprev (by omega) ?_
          rintro rfl
          cases hq.symm.trans hprev
          omega
        have hstep := hdeep.symm.of_parent ((hH.forest_parent hq).trans hq') hlow
        exact ⟨r, hr, hstep.symm.of_parent (hpar.trans hp') hne⟩

theorem exists_cut (hlt : node.nHeight < index.nHeight) : ∃ c mid,
    getAncestor H p node.nHeight = .ok (some c) ∧ H c = some mid ∧ mid.nHeight = node.nHeight ∧
      ∀ {r}, hH.forest.Deepest c (hH.forest.Above · q) r →
        hH.forest.Deepest p (hH.forest.Above · q) r := by
  have hmem := hH.mem_of_eq hp
  obtain ⟨c, hc, hcmem, hheight⟩ := hH.forest.exists_ancestorAt hmem
    (k := node.nHeight) (by rw [hH.forest_height hp]; omega)
  obtain ⟨mid, hmid⟩ := hH.forest_mem.mp hcmem
  rw [hH.forest_height hmid] at hheight
  refine ⟨c, mid, by rw [hH.getAncestor_eq hp, hc], hmid, hheight, fun hdeep => ?_⟩
  refine hdeep.of_ancestorAt hmem hc fun d hd => ?_
  rw [← hH.forest_height hq]
  exact (hH.forest.above_mem (hH.mem_of_eq hq) hd).2

theorem exists_lastCommonAncestor : ∃ r, lastCommonAncestor H p q = .ok r ∧
    hH.forest.Deepest p (hH.forest.Above · q) r := by
  rw [lastCommonAncestor, deref_eq hp, deref_eq hq, ok_bind, ok_bind]
  split_ifs with hlt hgt
  · obtain ⟨c, mid, hc, hmid, hheight, hdeep⟩ := hH.exists_cut hp hq hlt
    have hfuel : mid.nHeight + 1 < index.nHeight + 2 := by omega
    obtain ⟨r, hr, hmeet⟩ := hH.exists_commonLoop hmid hq hheight hfuel
    exact ⟨r, by rw [hc]; exact hr, hdeep hmeet⟩
  · obtain ⟨c, mid, hc, hmid, hheight, hdeep⟩ := hH.exists_cut hq hp hgt
    obtain ⟨r, hr, hmeet⟩ := hH.exists_commonLoop hp hmid hheight.symm (Nat.lt_succ_self _)
    exact ⟨r, by rw [hc]; exact hr, (hdeep hmeet.symm).symm⟩
  · exact hH.exists_commonLoop hp hq (by omega) (by omega)

end
end Linked

/-- In every tree the skip walk finds the ancestor by predecessors, `LastCommonAncestor` the deepest
common ancestor, and `FindFork` the deepest one in the active chain. -/
theorem findFork_deepest (T : BlockTree) {p : Uint256} {index : IndexNode}
    (hp : T.heap p = some index) :
    (∀ h ≤ index.nHeight, ∃ a, getAncestor T.heap p h = .ok (some a) ∧
      stepBack T.heap (index.nHeight - h) (some p) = .ok (some a)) ∧
    (∀ {q node}, T.heap q = some node → ∃ r, lastCommonAncestor T.heap p q = .ok r ∧
      T.linked.forest.Deepest p (T.linked.forest.Above · q) r) ∧
    ∀ tips : List (Option Uint256), (∀ tip ∈ tips, ∀ q ∈ tip, (T.heap q).isSome) →
      ∃ chain r, tips.foldlM (CChain.setTip T.heap) [] = .ok chain ∧
        CChain.findFork T.heap chain (some p) = .ok r ∧
        T.linked.forest.Deepest p (some · ∈ chain) r := by
  refine ⟨?_, T.linked.exists_lastCommonAncestor hp, ?_⟩
  · intro h hle
    rw [← T.linked.forest_height hp] at hle
    obtain ⟨a, ha, -⟩ := T.linked.forest.exists_ancestorAt (T.linked.mem_of_eq hp) hle
    refine ⟨a, by rw [T.linked.getAncestor_eq hp, ha], ?_⟩
    rw [T.linked.exists_stepBack _ hp, ← ha, ancestorAt, if_pos hle, T.linked.forest_height hp]
  · intro tips htips
    obtain ⟨tip, htip, hrun⟩ := T.linked.setTips_eq htips
    obtain ⟨r, hr, hdeep⟩ := T.linked.exists_findFork htip hp
    exact ⟨_, r, hrun, hr, hdeep⟩

theorem findFork_deepest_line : ∃ r, lastCommonAncestor (lineHeap 0 0 5) 5 3 = .ok r ∧
    (lineTree 0 0 5 (by decide)).linked.forest.Deepest 5
      ((lineTree 0 0 5 (by decide)).linked.forest.Above · 3) r :=
  (findFork_deepest (lineTree 0 0 5 (by decide)) (p := 5) rfl).2.1 (q := 3) rfl

end Vexta
