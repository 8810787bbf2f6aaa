import Mathlib.Tactic.Common

/-!
# Success

When a result that was mapped or chained is a success, and from what.
-/

namespace ModuleRules

variable {ε δ α β : Type}

theorem map_eq_ok {f : α → β} {x : Except ε α} {b : β} :
    x.map f = .ok b ↔ ∃ a, x = .ok a ∧ f a = b := by
  cases x <;> simp [Except.map]

theorem mapError_eq_ok {f : ε → δ} {x : Except ε α} {a : α} :
    x.mapError f = .ok a ↔ x = .ok a := by
  cases x <;> simp [Except.mapError]

theorem mapError_eq_error {f : ε → δ} {x : Except ε α} {d : δ} :
    x.mapError f = .error d ↔ ∃ e, x = .error e ∧ f e = d := by
  cases x <;> simp [Except.mapError]

theorem bind_eq_ok {x : Except ε α} {f : α → Except ε β} {b : β} :
    x >>= f = .ok b ↔ ∃ a, x = .ok a ∧ f a = .ok b := by
  cases x <;> simp [bind, Except.bind]

/-- A chain succeeds when each link can be taken, wherever the links before it lead. -/
theorem foldlM_eq_ok_iff {σ : Type} {f : σ → α → Except ε σ} {A : α → Prop}
    (hf : ∀ s a, (∃ t, f s a = .ok t) ↔ A a) :
    ∀ (as : List α) (s : σ), (∃ t, as.foldlM f s = .ok t) ↔ ∀ a ∈ as, A a
  | [], s => by simp [pure, Except.pure]
  | a :: as, s => by
    have ih := foldlM_eq_ok_iff hf as
    rw [List.forall_mem_cons, ← hf s a]
    simp only [List.foldlM_cons, bind_eq_ok]
    constructor
    · rintro ⟨t, s', hs', ht⟩
      exact ⟨⟨s', hs'⟩, (ih s').1 ⟨t, ht⟩⟩
    · rintro ⟨⟨s', hs'⟩, has⟩
      obtain ⟨t, ht⟩ := (ih s').2 has
      exact ⟨t, s', hs', ht⟩

theorem bind_eq_error {x : Except ε α} {f : α → Except ε β} {e : ε} :
    x >>= f = .error e ↔ x = .error e ∨ ∃ a, x = .ok a ∧ f a = .error e := by
  cases x <;> simp [bind, Except.bind]

/-- A chain fails at one of its links. -/
theorem exists_of_foldlM_eq_error {σ : Type} {f : σ → α → Except ε σ} {e : ε} :
    ∀ {as : List α} {s : σ}, as.foldlM f s = .error e → ∃ a ∈ as, ∃ t, f t a = .error e
  | [], s, h => by cases h
  | a :: as, s, h => by
    rw [List.foldlM_cons] at h
    rcases bind_eq_error.1 h with ha | ⟨t, -, has⟩
    · exact ⟨a, List.mem_cons_self, s, ha⟩
    · obtain ⟨b, hb, hfail⟩ := exists_of_foldlM_eq_error has
      exact ⟨b, List.mem_cons_of_mem a hb, hfail⟩

theorem exists_of_mapM_eq_error {f : α → Except ε β} {e : ε} :
    ∀ {as : List α}, as.mapM f = .error e → ∃ a ∈ as, f a = .error e
  | [], h => by cases h
  | a :: as, h => by
    rw [List.mapM_cons] at h
    rcases bind_eq_error.1 h with ha | ⟨b, -, h⟩
    · exact ⟨a, List.mem_cons_self, ha⟩
    · rcases bind_eq_error.1 h with has | ⟨bs, -, h⟩
      · obtain ⟨c, hc, hfail⟩ := exists_of_mapM_eq_error has
        exact ⟨c, List.mem_cons_of_mem a hc, hfail⟩
      · cases h

end ModuleRules
