import Mathlib.Data.List.AList

/-! Association lists as maps: runs of insertions and erasures over the entries of another. -/
namespace Lib
open List AList
variable {α : Type} [DecidableEq α] {β γ : Type}

abbrev Assoc (α β : Type) := AList fun _ : α => β

namespace Assoc

theorem lookup_eq_some_iff {m : Assoc α β} {k : α} {v : β} :
    m.lookup k = some v ↔ (⟨k, v⟩ : Sigma fun _ : α => β) ∈ m.entries := by
  rw [← Option.mem_def]
  exact mem_lookup_iff

theorem eq_empty {m : Assoc α β} (h : ∀ k, m.lookup k = none) : m = ∅ := by
  apply AList.ext
  rw [empty_entries, eq_nil_iff_forall_not_mem]
  rintro ⟨k, v⟩ hmem
  rw [← lookup_eq_some_iff, h k] at hmem
  cases hmem

theorem isEmpty_iff {m : Assoc α β} : m.entries.isEmpty = true ↔ ∀ k, m.lookup k = none := by
  constructor
  · intro h k
    have hnil : m = ∅ := AList.ext (by simpa using h)
    rw [hnil, lookup_empty]
  · intro h
    rw [eq_empty h]
    rfl

theorem forall_entries_iff {m : Assoc α β} {P : α → β → Prop} :
    (∀ e ∈ m.entries, P e.1 e.2) ↔ ∀ k v, m.lookup k = some v → P k v := by
  constructor
  · intro h k v hk
    exact h ⟨k, v⟩ (lookup_eq_some_iff.mp hk)
  · rintro h ⟨k, v⟩ hmem
    exact h k v (lookup_eq_some_iff.mpr hmem)

theorem lookup_insert_ite (m : Assoc α β) (k k' : α) (v : β) :
    (m.insert k v).lookup k' = if k' = k then some v else m.lookup k' := by
  split_ifs with hk
  · rw [hk, lookup_insert]
  · exact lookup_insert_ne hk

theorem lookup_erase_ite (m : Assoc α β) (k k' : α) :
    (m.erase k).lookup k' = if k' = k then none else m.lookup k' := by
  split_ifs with hk
  · rw [hk, lookup_erase]
  · exact lookup_erase_ne hk

theorem lookup_insert_cases {m : Assoc α β} {k k' : α} {v v' : β}
    (h : (m.insert k v).lookup k' = some v') : k = k' ∧ v = v' ∨ m.lookup k' = some v' := by
  rw [lookup_insert_ite] at h
  split_ifs at h with hk
  · exact .inl ⟨hk.symm, Option.some.inj h⟩
  · exact .inr h

theorem lookup_of_erase {m : Assoc α β} {k k' : α} {v : β}
    (h : (m.erase k).lookup k' = some v) : m.lookup k' = some v := by
  rw [lookup_erase_ite] at h
  split_ifs at h
  exact h

theorem erase_insert (m : Assoc α β) (k : α) (v : β) : (m.insert k v).erase k = m.erase k :=
  AList.ext (kerase_cons_eq rfl)

theorem erase_eq_iff {m : Assoc α β} {k : α} : m.erase k = m ↔ m.lookup k = none := by
  constructor
  · intro h
    rw [← h, lookup_erase]
  · intro h
    exact AList.ext (kerase_of_notMem_keys (lookup_eq_none.mp h))

def insertAll (f : α → β → γ) (l : List (Sigma fun _ : α => β)) (m : Assoc α γ) : Assoc α γ :=
  l.foldl (fun m e => m.insert e.1 (f e.1 e.2)) m

def eraseAll (l : List (Sigma fun _ : α => β)) (m : Assoc α γ) : Assoc α γ :=
  l.foldl (fun m e => m.erase e.1) m

theorem lookup_insertAll (f : α → β → γ) {l : List (Sigma fun _ : α => β)}
    (hnodup : l.NodupKeys) (m : Assoc α γ) (k : α) :
    (insertAll f l m).lookup k = ((l.dlookup k).map (f k)).or (m.lookup k) := by
  induction l generalizing m with
  | nil => simp [insertAll]
  | cons e l ih =>
    obtain ⟨a, b⟩ := e
    rw [nodupKeys_cons] at hnodup
    have hmissing : l.dlookup a = none := dlookup_eq_none.mpr hnodup.1
    change (insertAll f l (m.insert a (f a b))).lookup k = _
    rw [ih hnodup.2]
    by_cases hk : k = a
    · subst hk
      simp [hmissing]
    · rw [dlookup_cons_ne l ⟨a, b⟩ hk, lookup_insert_ne hk]

theorem lookup_eraseAll (l : List (Sigma fun _ : α => β)) (m : Assoc α γ) (k : α) :
    (eraseAll l m).lookup k = if (l.dlookup k).isSome then none else m.lookup k := by
  induction l generalizing m with
  | nil => simp [eraseAll]
  | cons e l ih =>
    obtain ⟨a, b⟩ := e
    change (eraseAll l (m.erase a)).lookup k = _
    rw [ih]
    by_cases hk : k = a
    · subst hk
      simp
    · rw [dlookup_cons_ne l ⟨a, b⟩ hk, lookup_erase_ne hk]

def alter (m : Assoc α β) (k : α) : Option β → Assoc α β
  | none => m.erase k
  | some v => m.insert k v

theorem lookup_alter (m : Assoc α β) (k k' : α) (v : Option β) :
    (alter m k v).lookup k' = if k' = k then v else m.lookup k' := by
  cases v with
  | none => exact lookup_erase_ite m k k'
  | some v => exact lookup_insert_ite m k k' v

theorem foldlM_alter {ε : Type} (f : α → γ → Option β → Except ε (Option β))
    {l : List (Sigma fun _ : α => γ)} (hnodup : l.NodupKeys) (m : Assoc α β)
    (hok : ∀ k c, l.dlookup k = some c → ∃ v, f k c (m.lookup k) = .ok v) :
    ∃ m', l.foldlM (fun m e => do return alter m e.1 (← f e.1 e.2 (m.lookup e.1))) m = .ok m' ∧
      (∀ k, l.dlookup k = none → m'.lookup k = m.lookup k) ∧
      ∀ k c, l.dlookup k = some c → f k c (m.lookup k) = .ok (m'.lookup k) := by
  induction l generalizing m with
  | nil => exact ⟨m, rfl, fun _ _ => rfl, fun k c hc => by simp at hc⟩
  | cons e l ih =>
    obtain ⟨a, c⟩ := e
    rw [nodupKeys_cons] at hnodup
    have hmissing : l.dlookup a = none := dlookup_eq_none.mpr hnodup.1
    obtain ⟨v, hv⟩ := hok a c (by simp)
    have hother : ∀ k, k ≠ a → (alter m a v).lookup k = m.lookup k := by
      intro k hk
      rw [lookup_alter, if_neg hk]
    have hne : ∀ {k b}, l.dlookup k = some b → k ≠ a := by
      rintro k b hb rfl
      cases hmissing.symm.trans hb
    obtain ⟨m', hrun, hnone, hsome⟩ := ih hnodup.2 (alter m a v) fun k b hb => by
      rw [hother k (hne hb)]
      exact hok k b (by rw [dlookup_cons_ne l ⟨a, c⟩ (hne hb)]; exact hb)
    have hself : m'.lookup a = v := by
      rw [hnone a hmissing, lookup_alter, if_pos rfl]
    refine ⟨m', ?_, fun k hk => ?_, fun k b hb => ?_⟩
    · rw [foldlM_cons, hv]
      exact hrun
    · have hka : k ≠ a := by
        rintro rfl
        simp at hk
      rw [dlookup_cons_ne l ⟨a, c⟩ hka] at hk
      rw [hnone k hk, hother k hka]
    · by_cases hka : k = a
      · subst hka
        obtain rfl : c = b := by simpa using hb
        rw [hself]
        exact hv
      · rw [dlookup_cons_ne l ⟨a, c⟩ hka] at hb
        rw [← hother k hka]
        exact hsome k b hb

end Assoc
end Lib
