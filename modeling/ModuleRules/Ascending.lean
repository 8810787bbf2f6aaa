/-!
# Ascending lists

Lists that are strictly ascending serve as sets, and lists of pairs with
ascending keys as maps. Putting in an element that is neither before nor
after one that is there keeps the one that is there.
-/

namespace ModuleRules.Ascending

section
variable {α : Type _} (lt : α → α → Bool)

/-- Puts `a` at its place, unless an element that is neither before nor after it is there. -/
def insert (a : α) : List α → List α
  | [] => [a]
  | b :: r =>
    if lt a b then a :: b :: r
    else if lt b a then b :: insert a r
    else b :: r

/-- The elements in ascending order, of equals the first. -/
def ofList (as : List α) : List α := as.foldl (fun s a => insert lt a s) []

end

section
variable {κ : Type _} {β : Type _}

def find? [DecidableEq κ] (k : κ) : List (κ × β) → Option β
  | [] => none
  | (j, b) :: r => if j = k then some b else find? k r

variable [LT κ] [DecidableLT κ]

/-- Changes the value at `k`, from `none` when there is none yet. -/
def alter (k : κ) (f : Option β → β) : List (κ × β) → List (κ × β)
  | [] => [(k, f none)]
  | (j, b) :: r =>
    if k < j then (k, f none) :: (j, b) :: r
    else if j < k then (j, b) :: alter k f r
    else (j, f (some b)) :: r

theorem mem_alter {k : κ} {f : Option β → β} {p : κ × β} :
    ∀ {m : List (κ × β)}, p ∈ alter k f m → p.1 = k ∨ p.1 ∈ m.map Prod.fst
  | [], h => by simp [alter] at h; simp [h]
  | (j, b) :: r, h => by
    unfold alter at h
    split at h
    · rcases List.mem_cons.1 h with rfl | h
      · exact .inl rfl
      · exact .inr (List.mem_map_of_mem h)
    · split at h
      · rcases List.mem_cons.1 h with rfl | h
        · exact .inr (List.mem_cons_self ..)
        · exact (mem_alter h).imp id (List.mem_cons_of_mem _)
      · rcases List.mem_cons.1 h with rfl | h
        · exact .inr (List.mem_cons_self ..)
        · exact .inr (List.mem_cons_of_mem _ (List.mem_map_of_mem h))

theorem pairwise_alter (trans : ∀ {a b c : κ}, a < b → b < c → a < c) {k : κ} {f : Option β → β} :
    ∀ {m : List (κ × β)}, m.Pairwise (·.1 < ·.1) → (alter k f m).Pairwise (·.1 < ·.1)
  | [], _ => by simp [alter]
  | (j, b) :: r, h => by
    obtain ⟨hj, hr⟩ := List.pairwise_cons.1 h
    unfold alter
    split
    next hk =>
      refine List.pairwise_cons.2 ⟨fun p hp => ?_, h⟩
      rcases List.mem_cons.1 hp with rfl | hp
      · exact hk
      · exact trans hk (hj p hp)
    next =>
      split
      next hk =>
        refine List.pairwise_cons.2 ⟨fun p hp => ?_, pairwise_alter trans hr⟩
        rcases mem_alter hp with hp | hp
        · exact hp ▸ hk
        · obtain ⟨q, hq, hpq⟩ := List.mem_map.1 hp
          exact hpq ▸ hj q hq
      next => exact List.pairwise_cons.2 ⟨hj, hr⟩

variable [DecidableEq κ]

omit [DecidableLT κ] in
theorem find?_eq_none_of_lt (irrefl : ∀ a : κ, ¬ a < a) {k : κ} :
    ∀ {m : List (κ × β)}, (∀ p ∈ m, k < p.1) → find? k m = none
  | [], _ => rfl
  | (j, b) :: r, h => by
    have hj : j ≠ k := by
      rintro rfl
      exact irrefl j (h (j, b) (List.mem_cons_self ..))
    rw [find?, if_neg hj]
    exact find?_eq_none_of_lt irrefl fun p hp => h p (List.mem_cons_of_mem _ hp)

theorem find?_alter (irrefl : ∀ a : κ, ¬ a < a) (trans : ∀ {a b c : κ}, a < b → b < c → a < c)
    (eq_of_not_lt : ∀ {a b : κ}, ¬ a < b → ¬ b < a → a = b) {k : κ} {f : Option β → β} (i : κ) :
    ∀ {m : List (κ × β)}, m.Pairwise (·.1 < ·.1) →
      find? i (alter k f m) = if i = k then some (f (find? k m)) else find? i m
  | [], _ => by simp [alter, find?, eq_comm]
  | (j, b) :: r, h => by
    obtain ⟨hj, hr⟩ := List.pairwise_cons.1 h
    unfold alter
    split
    next hk =>
      have hnone : find? k ((j, b) :: r) = none := by
        refine find?_eq_none_of_lt irrefl fun p hp => ?_
        rcases List.mem_cons.1 hp with rfl | hp
        · exact hk
        · exact trans hk (hj p hp)
      rw [hnone]
      by_cases hi : i = k
      · simp [find?, hi]
      · simp [find?, hi, Ne.symm hi]
    next hk =>
      split
      next hjk =>
        have hne : j ≠ k := by
          rintro rfl
          exact irrefl j hjk
        rw [find?, find?_alter irrefl trans eq_of_not_lt i hr]
        by_cases hi : i = k
        · subst hi
          simp [find?, hne]
        · simp [find?, hi]
      next hjk =>
        obtain rfl := eq_of_not_lt hk hjk
        by_cases hi : i = k
        · simp [find?, hi]
        · simp [find?, hi, Ne.symm hi]

end

end ModuleRules.Ascending
