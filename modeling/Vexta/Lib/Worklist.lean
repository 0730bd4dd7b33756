import Vexta.Lib.Assoc

/-! Worklists: each node is visited once, with the successors of changed nodes. -/
namespace Lib
open List
variable {α : Type} [DecidableEq α] {β ε : Type}

/-- A visit leaves a node, changes it and goes on to its successors, or fails. -/
inductive Verdict (β ε : Type)
  | leave
  | change (b : β)
  | fail (e : ε)

def Verdict.value (v : Verdict β ε) (b : β) : β :=
  match v with
  | .change b' => b'
  | _ => b

def Verdict.map {γ : Type} (f : β → γ) : Verdict β ε → Verdict γ ε
  | .leave => .leave
  | .change b => .change (f b)
  | .fail e => .fail e

def addSuccessors (done : List α) (successors todo : List α) : List α :=
  successors.foldl (fun todo a => if a ∈ done ∨ a ∈ todo then todo else todo ++ [a]) todo

/-- The loop over the nodes to do. A node without a value is an error. -/
def worklist (judge : β → Verdict β ε) (missing outOfFuel : ε) (successors : α → List α) :
    ℕ → List α → List α → Assoc α β → Except ε (Assoc α β)
  | 0, _, _, _ => .error outOfFuel
  | _ + 1, [], _, m => .ok m
  | fuel + 1, now :: todo, done, m =>
    match m.lookup now with
    | none => .error missing
    | some b =>
      match judge b with
      | .leave => worklist judge missing outOfFuel successors fuel todo (now :: done) m
      | .change b' =>
        worklist judge missing outOfFuel successors fuel
          (addSuccessors (now :: done) (successors now) todo) (now :: done) (m.insert now b')
      | .fail e => .error e

theorem mem_addSuccessors {done successors todo : List α} {x : α} :
    x ∈ addSuccessors done successors todo ↔ x ∈ todo ∨ (x ∈ successors ∧ x ∉ done) := by
  unfold addSuccessors
  induction successors generalizing todo with
  | nil => simp
  | cons a successors ih =>
    rw [foldl_cons, ih]
    split_ifs with h
    · constructor
      · rintro (hx | ⟨hx, hdone⟩)
        · exact .inl hx
        · exact .inr ⟨mem_cons_of_mem a hx, hdone⟩
      · rintro (hx | ⟨hx, hdone⟩)
        · exact .inl hx
        · rcases mem_cons.mp hx with rfl | hx
          · exact .inl (h.resolve_left hdone)
          · exact .inr ⟨hx, hdone⟩
    · obtain ⟨hnotDone, -⟩ := not_or.mp h
      rw [mem_append, mem_singleton, mem_cons]
      constructor
      · rintro ((hx | rfl) | ⟨hx, hdone⟩)
        · exact .inl hx
        · exact .inr ⟨.inl rfl, hnotDone⟩
        · exact .inr ⟨.inr hx, hdone⟩
      · rintro (hx | ⟨rfl | hx, hdone⟩)
        · exact .inl (.inl hx)
        · exact .inl (.inr rfl)
        · exact .inr ⟨hx, hdone⟩

theorem nodup_addSuccessors {done successors todo : List α} (h : todo.Nodup) :
    (addSuccessors done successors todo).Nodup := by
  unfold addSuccessors
  induction successors generalizing todo with
  | nil => exact h
  | cons a successors ih =>
    rw [foldl_cons]
    split_ifs with hmem
    · exact ih h
    · apply ih
      rw [nodup_append]
      refine ⟨h, nodup_singleton a, ?_⟩
      rintro x hx y hy rfl
      rw [mem_singleton] at hy
      exact hmem (.inr (hy ▸ hx))

section
variable (judge : β → Verdict β ε) (missing outOfFuel : ε) (successors : α → List α)

inductive Reaches (m : Assoc α β) (a : α) : α → Prop
  | start : Reaches m a a
  | next {d c : α} {b b' : β} : Reaches m a d → m.lookup d = some b → judge b = .change b' →
      c ∈ successors d → Reaches m a c

structure AtWork (m₀ : Assoc α β) (a : α) (todo done : List α) (m : Assoc α β) : Prop where
  todo_nodup : todo.Nodup
  done_nodup : done.Nodup
  disjoint : ∀ x ∈ todo, x ∉ done
  start : a ∈ todo ∨ a ∈ done
  reached : ∀ x, x ∈ todo ∨ x ∈ done → Reaches judge successors m₀ a x
  judged : ∀ x ∈ done, ∃ b, m₀.lookup x = some b ∧ (∀ e, judge b ≠ .fail e) ∧
    ∀ b', judge b = .change b' → ∀ c ∈ successors x, c ∈ todo ∨ c ∈ done
  lookup : ∀ x, m.lookup x =
    if x ∈ done then (m₀.lookup x).map (fun b => (judge b).value b) else m₀.lookup x

def WorkDone (m₀ : Assoc α β) (a : α) (result : Except ε (Assoc α β)) : Prop :=
  match result with
  | .ok m =>
    (∀ x, Reaches judge successors m₀ a x →
      ∃ b, m₀.lookup x = some b ∧ ∀ e, judge b ≠ .fail e) ∧
    ∀ x, (Reaches judge successors m₀ a x →
        m.lookup x = (m₀.lookup x).map fun b => (judge b).value b) ∧
      (¬ Reaches judge successors m₀ a x → m.lookup x = m₀.lookup x)
  | .error e => ∃ x, Reaches judge successors m₀ a x ∧
      ((m₀.lookup x = none ∧ e = missing) ∨ ∃ b, m₀.lookup x = some b ∧ judge b = .fail e)

variable {judge missing outOfFuel successors}
variable {m₀ m : Assoc α β} {a : α} {todo done : List α}

theorem AtWork.mem_done (h : AtWork judge successors m₀ a [] done m) {x : α}
    (hx : Reaches judge successors m₀ a x) : x ∈ done := by
  induction hx with
  | start => exact h.start.resolve_left not_mem_nil
  | next _ hlookup hchange hmem ih =>
    obtain ⟨b, hb, -, hsucc⟩ := h.judged _ ih
    cases hlookup.symm.trans hb
    exact (hsucc _ hchange _ hmem).resolve_left not_mem_nil

theorem AtWork.workDone (h : AtWork judge successors m₀ a [] done m) :
    WorkDone judge missing successors m₀ a (.ok m) := by
  constructor
  · intro x hx
    obtain ⟨b, hb, hfail, -⟩ := h.judged x (h.mem_done hx)
    exact ⟨b, hb, hfail⟩
  · intro x
    rw [h.lookup x]
    constructor
    · intro hx
      rw [if_pos (h.mem_done hx)]
    · intro hx
      rw [if_neg fun hmem => hx (h.reached x (.inr hmem))]

theorem AtWork.visit {now : α} {b : β} (h : AtWork judge successors m₀ a (now :: todo) done m)
    (hlookup : m₀.lookup now = some b) (hfail : ∀ e, judge b ≠ .fail e) {todo' : List α}
    {m' : Assoc α β} (hnodup : todo'.Nodup)
    (htodo : ∀ x, x ∈ todo' ↔ x ∈ todo ∨
      ((∃ b', judge b = .change b') ∧ x ∈ successors now ∧ x ∉ now :: done))
    (hm' : ∀ x, m'.lookup x = if x = now then some ((judge b).value b) else m.lookup x) :
    AtWork judge successors m₀ a todo' (now :: done) m' := by
  have hnow : now ∉ done := h.disjoint now mem_cons_self
  have hnotTodo : now ∉ todo := (nodup_cons.mp h.todo_nodup).1
  have hreached := h.reached now (.inl mem_cons_self)
  have hsub : ∀ x, x ∈ now :: todo ∨ x ∈ done → x ∈ todo' ∨ x ∈ now :: done := by
    rintro x (hx | hx)
    · rcases mem_cons.mp hx with rfl | hx
      · exact .inr mem_cons_self
      · exact .inl ((htodo x).mpr (.inl hx))
    · exact .inr (mem_cons_of_mem now hx)
  refine ⟨hnodup, nodup_cons.mpr ⟨hnow, h.done_nodup⟩, ?_, hsub a h.start, ?_, ?_, ?_⟩
  · intro x hx
    rcases (htodo x).mp hx with hold | ⟨-, -, hnew⟩
    · intro hmem
      rcases mem_cons.mp hmem with rfl | hdone
      · exact hnotTodo hold
      · exact h.disjoint x (mem_cons_of_mem now hold) hdone
    · exact hnew
  · rintro x (hx | hx)
    · rcases (htodo x).mp hx with hold | ⟨⟨b', hchange⟩, hsucc, -⟩
      · exact h.reached x (.inl (mem_cons_of_mem now hold))
      · exact .next hreached hlookup hchange hsucc
    · rcases mem_cons.mp hx with rfl | hdone
      · exact hreached
      · exact h.reached x (.inr hdone)
  · intro x hx
    rcases mem_cons.mp hx with rfl | hdone
    · refine ⟨b, hlookup, hfail, fun b' hchange c hc => ?_⟩
      by_cases hmem : c ∈ x :: done
      · exact .inr hmem
      · exact .inl ((htodo c).mpr (.inr ⟨⟨b', hchange⟩, hc, hmem⟩))
    · obtain ⟨b₁, hb₁, hfail₁, hsucc⟩ := h.judged x hdone
      exact ⟨b₁, hb₁, hfail₁, fun b' hchange c hc => hsub c (hsucc b' hchange c hc)⟩
  · intro x
    rw [hm' x]
    by_cases hx : x = now
    · subst hx
      rw [if_pos rfl, if_pos mem_cons_self, hlookup]
      rfl
    · rw [if_neg hx, h.lookup x]
      have hiff : x ∈ now :: done ↔ x ∈ done := by
        rw [mem_cons]
        exact or_iff_right hx
      simp only [hiff]

theorem AtWork.worklist (h : AtWork judge successors m₀ a todo done m) {fuel : ℕ}
    (hfuel : m₀.keys.length < fuel + done.length) :
    WorkDone judge missing successors m₀ a
      (worklist judge missing outOfFuel successors fuel todo done m) := by
  induction fuel generalizing todo done m with
  | zero =>
    have hsub : done ⊆ m₀.keys := by
      intro x hx
      obtain ⟨b, hb, -⟩ := h.judged x hx
      exact AList.lookup_isSome.mp (by rw [hb]; rfl)
    have hle := (subperm_of_subset h.done_nodup hsub).length_le
    omega
  | succ fuel ih =>
    cases todo with
    | nil => exact h.workDone
    | cons now todo =>
      have hnow : now ∉ done := h.disjoint now mem_cons_self
      have hlookup : m.lookup now = m₀.lookup now := by rw [h.lookup now, if_neg hnow]
      have hreached := h.reached now (.inl mem_cons_self)
      have hnodup := (nodup_cons.mp h.todo_nodup).2
      have hlength : m₀.keys.length < fuel + (now :: done).length := by
        rw [length_cons]
        omega
      unfold Lib.worklist
      rw [hlookup]
      cases hb : m₀.lookup now with
      | none => exact ⟨now, hreached, .inl ⟨hb, rfl⟩⟩
      | some b =>
        dsimp only
        cases hjudge : judge b with
        | fail e => exact ⟨now, hreached, .inr ⟨b, hb, hjudge⟩⟩
        | leave =>
          refine ih (h.visit hb (fun e => by rw [hjudge]; simp) hnodup ?_ ?_) hlength
          · intro x
            simp [hjudge]
          · intro x
            by_cases hx : x = now
            · rw [if_pos hx, hx, hlookup, hb, hjudge]
              rfl
            · rw [if_neg hx]
        | change b' =>
          refine ih (h.visit hb (fun e => by rw [hjudge]; simp) (nodup_addSuccessors hnodup) ?_ ?_)
            hlength
          · intro x
            rw [mem_addSuccessors]
            simp [hjudge]
          · intro x
            by_cases hx : x = now
            · rw [if_pos hx, hx, AList.lookup_insert, hjudge]
              rfl
            · rw [if_neg hx, AList.lookup_insert_ne hx]

variable (judge missing outOfFuel successors) in
theorem worklist_done (m : Assoc α β) (a : α) :
    WorkDone judge missing successors m a
      (worklist judge missing outOfFuel successors (m.keys.length + 1) [a] [] m) := by
  apply AtWork.worklist
  · refine ⟨nodup_singleton a, nodup_nil, fun _ _ => not_mem_nil,
      Or.inl mem_cons_self, ?_, fun x hx => absurd hx not_mem_nil, fun x => ?_⟩
    · rintro x (hx | hx)
      · rw [mem_singleton.mp hx]
        exact .start
      · exact absurd hx not_mem_nil
    · rw [if_neg not_mem_nil]
  · rw [length_nil]
    omega

end
end Lib
