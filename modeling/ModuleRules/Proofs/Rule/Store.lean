import Mathlib.Tactic.Common
import ModuleRules.Rule.Store

/-!
# What a store holds

A store seen as a function: the rules of each module, none for a module
without a set. And how many rules it holds.
-/

namespace ModuleRules

/-- Only one value of the list is another or new. -/
theorem Ascending.exists_alter_eq {κ β : Type} [LT κ] [DecidableLT κ]
    (eq_of_not_lt : ∀ {a b : κ}, ¬ a < b → ¬ b < a → a = b) (k : κ) (f : Option β → β) :
    ∀ m : List (κ × β), ∃ before after o, m = before ++ ((o.map (k, ·)).toList ++ after) ∧
      alter k f m = before ++ (k, f o) :: after
  | [] => ⟨[], [], none, rfl, rfl⟩
  | (j, b) :: r => by
    rw [alter]
    split
    next => exact ⟨[], (j, b) :: r, none, rfl, rfl⟩
    next hkj =>
      split
      next =>
        obtain ⟨before, after, o, hr, halter⟩ := exists_alter_eq eq_of_not_lt k f r
        exact ⟨(j, b) :: before, after, o, by rw [hr]; rfl, by rw [halter]; rfl⟩
      next hjk =>
        obtain rfl := eq_of_not_lt hkj hjk
        exact ⟨[], r, some b, rfl, rfl⟩

/-- What is behind all others is changed there. -/
theorem Ascending.alter_append {κ β : Type} [LT κ] [DecidableLT κ] (irrefl : ∀ a : κ, ¬ a < a)
    (trans : ∀ {a b c : κ}, a < b → b < c → a < c) {k : κ} (f : Option β → β) (r : List (κ × β)) :
    ∀ {m : List (κ × β)}, (∀ p ∈ m, p.1 < k) → alter k f (m ++ r) = m ++ alter k f r
  | [], _ => rfl
  | (j, b) :: m, h => by
    obtain ⟨hj, hm⟩ := List.forall_mem_cons.1 h
    rw [List.cons_append, alter, if_neg fun hk => irrefl k (trans hk hj), if_pos hj,
      alter_append irrefl trans f r hm]
    rfl

theorem Ascending.find?_of_mem {κ β : Type} [LT κ] [DecidableEq κ] (irrefl : ∀ a : κ, ¬ a < a)
    {k : κ} {b : β} : ∀ {m : List (κ × β)}, m.Pairwise (·.1 < ·.1) → (k, b) ∈ m → find? k m = some b
  | [], _, h => by cases h
  | (j, a) :: m, hm, h => by
    obtain ⟨hj, hm⟩ := List.pairwise_cons.1 hm
    rcases List.mem_cons.1 h with heq | h
    · cases heq
      exact if_pos rfl
    · have hne : j ≠ k := by
        rintro rfl
        exact irrefl j (hj _ h)
      rw [find?, if_neg hne]
      exact find?_of_mem irrefl hm h

namespace RuleStore

/-- The rules of a module; a module without a set has none. -/
def rulesOf (s : RuleStore) (id : ModuleId) : List Rule := (s.get? id).getD []

theorem get?_empty (id : ModuleId) : empty.get? id = none := rfl

theorem isSome_get?_touch (s : RuleStore) (id i : ModuleId) :
    ((s.touch id).get? i).isSome = true ↔ (s.get? i).isSome = true ∨ i = id := by
  rw [get?_touch]
  by_cases h : i = id <;> simp [h]

theorem isSome_get?_push (s : RuleStore) (id i : ModuleId) (r : Rule) :
    ((s.push id r).get? i).isSome = true ↔ (s.get? i).isSome = true ∨ i = id := by
  rw [get?_push]
  by_cases h : i = id <;> simp [h]

theorem rulesOf_touch (s : RuleStore) (id i : ModuleId) : (s.touch id).rulesOf i = s.rulesOf i := by
  unfold rulesOf
  rw [get?_touch]
  by_cases h : i = id <;> simp [h]

theorem rulesOf_push (s : RuleStore) (id i : ModuleId) (r : Rule) :
    (s.push id r).rulesOf i = if i = id then s.rulesOf i ++ [r] else s.rulesOf i := by
  unfold rulesOf
  rw [get?_push]
  by_cases h : i = id <;> simp [h]

theorem get?_of_mem {s : RuleStore} {id : ModuleId} {rules : RuleSet} (h : (id, rules) ∈ s.sets) :
    s.get? id = some rules :=
  Ascending.find?_of_mem ModuleId.lt_irrefl s.ascending h

/-! ## The last module -/

theorem sets_touch {s : RuleStore} {id : ModuleId} (h : ∀ x ∈ s.sets, x.1 < id) :
    (s.touch id).sets = s.sets ++ [(id, [])] := by
  have := Ascending.alter_append ModuleId.lt_irrefl ModuleId.lt_trans
    (fun rules : Option RuleSet => rules.getD []) [] h
  rwa [List.append_nil] at this

theorem sets_push {s : RuleStore} {id : ModuleId} {before : List (ModuleId × RuleSet)}
    {rules : RuleSet} (h : s.sets = before ++ [(id, rules)]) (r : Rule) :
    (s.push id r).sets = before ++ [(id, rules ++ [r])] := by
  have hbefore : ∀ x ∈ before, x.1 < id := by
    have hasc := s.ascending
    rw [h, List.pairwise_append] at hasc
    exact fun x hx => hasc.2.2 x hx _ List.mem_cons_self
  have hlast := Ascending.alter_append ModuleId.lt_irrefl ModuleId.lt_trans
    (fun rules : Option RuleSet => rules.getD [] ++ [r]) [(id, rules)] hbefore
  rw [← h] at hlast
  refine hlast.trans ?_
  simp [Ascending.alter, ModuleId.lt_irrefl]

/-! ## One store after another -/

/-- A store holds for each module what one holds and after it what another holds. -/
structure IsAppend (s t u : RuleStore) : Prop where
  entry : ∀ id, (u.get? id).isSome = true ↔ (s.get? id).isSome = true ∨ (t.get? id).isSome = true
  rules : ∀ id, u.rulesOf id = s.rulesOf id ++ t.rulesOf id

variable {s t u : RuleStore}

theorem isAppend_empty (s : RuleStore) : IsAppend s empty s where
  entry id := by simp [get?_empty]
  rules id := by simp [rulesOf, get?_empty]

theorem IsAppend.touch (h : IsAppend s t u) (id : ModuleId) :
    IsAppend s (t.touch id) (u.touch id) where
  entry i := by rw [isSome_get?_touch, isSome_get?_touch, h.entry, or_assoc]
  rules i := by rw [rulesOf_touch, rulesOf_touch, h.rules]

theorem IsAppend.push (h : IsAppend s t u) (id : ModuleId) (r : Rule) :
    IsAppend s (t.push id r) (u.push id r) where
  entry i := by rw [isSome_get?_push, isSome_get?_push, h.entry, or_assoc]
  rules i := by
    rw [rulesOf_push, rulesOf_push, h.rules]
    split
    next => exact List.append_assoc _ _ _
    next => rfl

/-! ## How many -/

theorem ruleCount_alter (s : RuleStore) (id : ModuleId) (f : RuleSet → RuleSet) :
    ∃ rules, (s.alter id f).ruleCount + rules.length = s.ruleCount + (f rules).length := by
  obtain ⟨before, after, o, hsets, halter⟩ := Ascending.exists_alter_eq ModuleId.eq_of_not_lt id
    (fun rules => f (rules.getD [])) s.sets
  refine ⟨o.getD [], ?_⟩
  change (List.map (·.2.length) (Ascending.alter id _ s.sets)).sum + _ =
    (s.sets.map (·.2.length)).sum + _
  rw [halter, hsets]
  cases o <;> simp <;> omega

theorem ruleCount_touch (s : RuleStore) (id : ModuleId) : (s.touch id).ruleCount = s.ruleCount := by
  obtain ⟨rules, h⟩ := s.ruleCount_alter id fun rules => rules
  exact Nat.add_right_cancel h

theorem ruleCount_push (s : RuleStore) (id : ModuleId) (r : Rule) :
    (s.push id r).ruleCount = s.ruleCount + 1 := by
  obtain ⟨rules, h⟩ := s.ruleCount_alter id fun rules => rules ++ [r]
  rw [List.length_append, List.length_singleton] at h
  change (s.alter id _).ruleCount = _
  omega

end RuleStore

end ModuleRules
