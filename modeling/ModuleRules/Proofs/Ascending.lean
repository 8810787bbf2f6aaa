import Mathlib.Tactic.Common
import ModuleRules.Ascending

/-!
# Putting in one by one

What is put in by a key one by one comes out in ascending order of the keys,
none of which is lost. Of pairs that are put in so, each key is found with the
value that it was put in with first.
-/

namespace ModuleRules.Ascending

/-! ## By a key -/

section
variable {α κ : Type} [LT κ] [DecidableLT κ] (key : α → κ)

theorem mem_insert {lt : α → α → Bool} {a b : α} :
    ∀ {l : List α}, b ∈ insert lt a l → b = a ∨ b ∈ l
  | [], h => .inl (List.mem_singleton.1 h)
  | c :: l, h => by
    unfold insert at h
    split at h
    · exact List.mem_cons.1 h
    · split at h
      · rcases List.mem_cons.1 h with hc | h
        · exact .inr (hc ▸ List.mem_cons_self)
        · exact (mem_insert h).imp id (List.mem_cons_of_mem c)
      · exact .inr h

theorem mem_ofList {lt : α → α → Bool} {as : List α} : ∀ a ∈ ofList lt as, a ∈ as := by
  refine List.foldlRecOn (motive := fun s => ∀ a ∈ s, a ∈ as) as _ (by simp) ?_
  intro s ih b hb a ha
  rcases mem_insert ha with rfl | ha
  · exact hb
  · exact ih a ha

section
variable (trans : ∀ {i j k : κ}, i < j → j < k → i < k)
include trans

theorem pairwise_insert (a : α) : ∀ {l : List α}, l.Pairwise (key · < key ·) →
    (insert (fun a b => key a < key b) a l).Pairwise (key · < key ·)
  | [], _ => List.pairwise_singleton ..
  | b :: l, h => by
    have ih := pairwise_insert a (List.pairwise_cons.1 h).2
    obtain ⟨hb, -⟩ := List.pairwise_cons.1 h
    unfold insert
    split
    next hab =>
      have hab : key a < key b := of_decide_eq_true hab
      refine List.pairwise_cons.2 ⟨?_, h⟩
      intro c hc
      rcases List.mem_cons.1 hc with rfl | hc
      · exact hab
      · exact trans hab (hb c hc)
    next =>
      split
      next hba =>
        refine List.pairwise_cons.2 ⟨?_, ih⟩
        intro c hc
        rcases mem_insert hc with rfl | hc
        · exact of_decide_eq_true hba
        · exact hb c hc
      next => exact h

theorem pairwise_ofList (as : List α) :
    (ofList (fun a b => key a < key b) as).Pairwise (key · < key ·) :=
  List.foldlRecOn as _ List.Pairwise.nil fun _ h a _ => pairwise_insert key trans a h

end

section
variable (eq_of_not_lt : ∀ {i j : κ}, ¬ i < j → ¬ j < i → i = j)
include eq_of_not_lt

theorem mem_map_insert {a : α} {k : κ} : ∀ {l : List α},
    k ∈ (insert (fun a b => key a < key b) a l).map key ↔ k = key a ∨ k ∈ l.map key
  | [] => by simp [insert]
  | b :: l => by
    have ih := mem_map_insert (a := a) (k := k) (l := l)
    unfold insert
    split
    · simp
    · split
      · rw [List.map_cons, List.mem_cons, ih, List.map_cons, List.mem_cons]
        exact or_left_comm
      next hab hba =>
        -- the element that is there has the same key
        have hkey : key a = key b := eq_of_not_lt (by simpa using hab) (by simpa using hba)
        simp [hkey]

theorem mem_map_foldl_insert {k : κ} : ∀ {as s : List α},
    k ∈ (as.foldl (fun s a => insert (fun a b => key a < key b) a s) s).map key ↔
      k ∈ s.map key ∨ k ∈ as.map key
  | [], s => by simp
  | a :: as, s => by
    rw [List.foldl_cons, mem_map_foldl_insert, mem_map_insert key eq_of_not_lt, List.map_cons,
      List.mem_cons, or_assoc, or_left_comm]

theorem mem_map_ofList {k : κ} {as : List α} :
    k ∈ (ofList (fun a b => key a < key b) as).map key ↔ k ∈ as.map key :=
  (mem_map_foldl_insert key eq_of_not_lt).trans (by simp)

end

end

/-! ## Pairs -/

variable {κ β : Type}

theorem mem_of_find? [DecidableEq κ] {k : κ} {b : β} :
    ∀ {m : List (κ × β)}, find? k m = some b → (k, b) ∈ m
  | [], h => by cases h
  | (j, c) :: m, h => by
    rw [find?] at h
    split at h
    next hj =>
      cases h
      exact hj ▸ List.mem_cons_self
    next => exact List.mem_cons_of_mem _ (mem_of_find? h)

variable [LT κ] [DecidableLT κ] (irrefl : ∀ a : κ, ¬ a < a)
  (trans : ∀ {a b c : κ}, a < b → b < c → a < c)
  (eq_of_not_lt : ∀ {a b : κ}, ¬ a < b → ¬ b < a → a = b)

/-- Putting in a pair changes the value at its key unless there is one. -/
theorem insert_eq_alter (p : κ × β) : ∀ m : List (κ × β),
    insert (fun a b => a.1 < b.1) p m = alter p.1 (·.getD p.2) m
  | [] => rfl
  | (j, b) :: m => by
    have ih := insert_eq_alter p m
    simp only [insert, alter, decide_eq_true_eq, ih, Option.getD_none, Option.getD_some]

variable [DecidableEq κ]
include irrefl trans eq_of_not_lt

/-- A key that is there keeps its value. -/
theorem find?_insert (p : κ × β) (k : κ) {m : List (κ × β)} (h : m.Pairwise (·.1 < ·.1)) :
    find? k (insert (fun a b => a.1 < b.1) p m) =
      (find? k m).or (if p.1 = k then some p.2 else none) := by
  rw [insert_eq_alter, find?_alter irrefl trans eq_of_not_lt k h]
  by_cases hk : k = p.1
  · subst hk
    cases find? p.1 m <;> simp
  · simp [hk, Ne.symm hk]

theorem find?_foldl_insert (k : κ) : ∀ (m : List (κ × β)) {s : List (κ × β)},
    s.Pairwise (·.1 < ·.1) →
      find? k (m.foldl (fun s a => insert (fun a b => a.1 < b.1) a s) s) =
        (find? k s).or (find? k m)
  | [], s, _ => by simp [find?]
  | (j, b) :: m, s, h => by
    have ih := find?_foldl_insert k m (pairwise_insert Prod.fst trans (j, b) h)
    rw [List.foldl_cons, ih, find?_insert irrefl trans eq_of_not_lt (j, b) k h, Option.or_assoc]
    by_cases hk : j = k <;> simp [find?, hk]

theorem find?_ofList (k : κ) (m : List (κ × β)) :
    find? k (ofList (fun a b => a.1 < b.1) m) = find? k m :=
  find?_foldl_insert irrefl trans eq_of_not_lt k m List.Pairwise.nil

end ModuleRules.Ascending
