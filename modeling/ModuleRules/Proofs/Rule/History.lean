import Mathlib.Data.List.Dedup
import ModuleRules.Proofs.Rule.Store
import ModuleRules.Proofs.Text.Order

/-!
# What a store holds after a history of requests

A store is turned to modules, takes rules and is asked for them, in any order.
What it holds then, and what it replies, follows from the history module by
module (`serve_after_history`): a module has a set once a request turned to it,
the set is what was pushed to that very module, and what is only asked leaves
no trace.
-/

namespace ModuleRules.RuleStore

def entry? (s : RuleStore) (id : ModuleId) : Option (ModuleId × RuleSet) :=
  s.sets.find? (·.1 = id)

inductive Request
  | touch (id : ModuleId)
  | push (id : ModuleId) (r : Rule)
  | get (id : ModuleId)
  | entry (id : ModuleId)
  | setsFor (id : ModuleId)
  deriving DecidableEq, Repr

inductive Reply
  | done
  | rules (found : Option RuleSet)
  | entry (found : Option (ModuleId × RuleSet))
  | sets (found : List (ModuleId × RuleSet))
  deriving DecidableEq, Repr

def serve (s : RuleStore) : Request → RuleStore × Reply
  | .touch id => (s.touch id, .done)
  | .push id r => (s.push id r, .done)
  | .get id => (s, .rules (s.get? id))
  | .entry id => (s, .entry (s.entry? id))
  | .setsFor id => (s, .sets (s.setsFor id))

def after (s : RuleStore) (qs : List Request) : RuleStore := qs.foldl (fun s q => (s.serve q).1) s

/-! ## What a history says -/

namespace Request

def module? : Request → Option ModuleId
  | touch id | push id _ => some id
  | get _ | entry _ | setsFor _ => none

def isPush : Request → Bool
  | push .. => true
  | touch _ | get _ | entry _ | setsFor _ => false

def ruleFor? (id : ModuleId) : Request → Option Rule
  | push i r => if i = id then some r else none
  | touch _ | get _ | entry _ | setsFor _ => none

end Request

def mentioned (qs : List Request) : List ModuleId := qs.filterMap Request.module?

def pushed (qs : List Request) (id : ModuleId) : RuleSet := qs.filterMap (Request.ruleFor? id)

def found? (qs : List Request) (id : ModuleId) : Option RuleSet :=
  if id ∈ mentioned qs then some (pushed qs id) else none

/-! ## Identities -/

variable {s : RuleStore} {id : ModuleId}

theorem entry?_eq (s : RuleStore) (id : ModuleId) : s.entry? id = (s.get? id).map (id, ·) := by
  unfold entry? get?
  induction s.sets with
  | nil => rfl
  | cons x xs ih =>
    obtain ⟨j, rules⟩ := x
    by_cases h : j = id
    · simp [Ascending.find?, h]
    · simpa [Ascending.find?, h] using ih

theorem mem_identities_iff : id ∈ s.identities ↔ (s.get? id).isSome = true := by
  constructor
  · intro h
    obtain ⟨⟨j, rules⟩, hmem, rfl⟩ := List.mem_map.1 h
    rw [get?_of_mem hmem]
    rfl
  · intro h
    obtain ⟨rules, hrules⟩ := Option.isSome_iff_exists.1 h
    have hentry : s.sets.find? (·.1 = id) = some (id, rules) := by
      rw [← entry?, entry?_eq, hrules]
      rfl
    exact List.mem_map_of_mem (List.mem_of_find?_eq_some hentry)

theorem pairwise_identities (s : RuleStore) : s.identities.Pairwise (· < ·) :=
  List.pairwise_map.2 s.ascending

theorem nodup_identities (s : RuleStore) : s.identities.Nodup :=
  s.pairwise_identities.imp fun {a b} (h : a < b) (heq : a = b) => ModuleId.lt_irrefl b (heq ▸ h)

/-- A set is known by whether there is one and by the rules in it. -/
theorem get?_eq_ite {P : Prop} [Decidable P] {rules : RuleSet}
    (hsome : (s.get? id).isSome = true ↔ P) (hrules : s.rulesOf id = rules) :
    s.get? id = if P then some rules else none := by
  subst hrules
  unfold rulesOf
  cases h : s.get? id with
  | none => rw [if_neg (by simpa [h] using hsome)]
  | some rules =>
    rw [if_pos (hsome.1 (by rw [h]; rfl))]
    rfl

/-! ## One request -/

theorem isSome_get?_serve (s : RuleStore) (q : Request) (i : ModuleId) :
    ((s.serve q).1.get? i).isSome = true ↔ (s.get? i).isSome = true ∨ q.module? = some i := by
  cases q with
  | touch id => simp [serve, Request.module?, isSome_get?_touch, @eq_comm _ id]
  | push id r => simp [serve, Request.module?, isSome_get?_push, @eq_comm _ id]
  | get | entry | setsFor => simp [serve, Request.module?]

theorem rulesOf_serve (s : RuleStore) (q : Request) (i : ModuleId) :
    (s.serve q).1.rulesOf i = s.rulesOf i ++ (q.ruleFor? i).toList := by
  cases q with
  | touch id => simp [serve, Request.ruleFor?, rulesOf_touch]
  | push id r =>
    rw [serve, Request.ruleFor?, rulesOf_push]
    by_cases h : i = id
    · simp [h]
    · simp [h, Ne.symm h]
  | get | entry | setsFor => simp [serve, Request.ruleFor?]

theorem ruleCount_serve (s : RuleStore) (q : Request) :
    (s.serve q).1.ruleCount = s.ruleCount + if q.isPush then 1 else 0 := by
  cases q with
  | touch id => exact s.ruleCount_touch id
  | push id r => exact s.ruleCount_push id r
  | get | entry | setsFor => rfl

theorem get?_serve (s : RuleStore) (q : Request) (i : ModuleId) :
    (s.serve q).1.get? i =
      if q.module? = some i then some (s.rulesOf i ++ (q.ruleFor? i).toList) else s.get? i := by
  rw [get?_eq_ite (s.isSome_get?_serve q i) (s.rulesOf_serve q i)]
  by_cases h : q.module? = some i
  · rw [if_pos (.inr h), if_pos h]
  · have hnone : q.ruleFor? i = none := by
      cases q <;> simp_all [Request.module?, Request.ruleFor?]
    rw [if_neg h, hnone, Option.toList_none, List.append_nil]
    exact (get?_eq_ite (by simp [h]) rfl).symm

/-! ## Many requests -/

theorem isSome_get?_after (i : ModuleId) : ∀ (qs : List Request) (s : RuleStore),
    ((s.after qs).get? i).isSome = true ↔ (s.get? i).isSome = true ∨ i ∈ mentioned qs
  | [], s => by simp [after, mentioned]
  | q :: qs, s => by
    have ih := isSome_get?_after i qs (s.serve q).1
    rw [isSome_get?_serve, or_assoc] at ih
    refine ih.trans (or_congr_right ?_)
    cases h : q.module? <;> simp [mentioned, h, eq_comm]

theorem rulesOf_after (i : ModuleId) : ∀ (qs : List Request) (s : RuleStore),
    (s.after qs).rulesOf i = s.rulesOf i ++ pushed qs i
  | [], s => (List.append_nil _).symm
  | q :: qs, s => by
    have ih := rulesOf_after i qs (s.serve q).1
    rw [rulesOf_serve, List.append_assoc] at ih
    refine ih.trans ?_
    cases h : q.ruleFor? i <;> simp [pushed, h]

theorem ruleCount_after : ∀ (qs : List Request) (s : RuleStore),
    (s.after qs).ruleCount = s.ruleCount + qs.countP Request.isPush
  | [], _ => rfl
  | q :: qs, s => by
    have ih := ruleCount_after qs (s.serve q).1
    rw [ruleCount_serve, Nat.add_assoc] at ih
    rw [List.countP_cons, Nat.add_comm (qs.countP _)]
    exact ih

theorem get?_after_empty (qs : List Request) (id : ModuleId) :
    (empty.after qs).get? id = found? qs id := by
  have hsome := isSome_get?_after id qs empty
  rw [get?_empty, Option.isSome_none, Bool.false_eq_true, false_or] at hsome
  exact get?_eq_ite hsome (rulesOf_after id qs empty)

theorem mem_identities_after_empty (qs : List Request) (id : ModuleId) :
    id ∈ (empty.after qs).identities ↔ id ∈ mentioned qs := by
  rw [mem_identities_iff, isSome_get?_after]
  simp [get?_empty]

/-- **A store holds what its history says.** Its identities are those that were turned to, in the
order of their bytes, and a module's set is what was pushed to that very module. A request changes
the set of no other module, and what is only asked changes nothing. -/
theorem serve_after_history (qs : List Request) :
    let s := empty.after qs
    s.identities.Pairwise ModuleId.IsBefore ∧ (∀ id, id ∈ s.identities ↔ id ∈ mentioned qs) ∧
      s.size = (mentioned qs).dedup.length ∧ (s.isEmpty = true ↔ mentioned qs = []) ∧
      s.ruleCount = qs.countP Request.isPush ∧
      (∀ q i, (s.serve q).1.get? i =
        if q.module? = some i then some (pushed qs i ++ (q.ruleFor? i).toList) else s.get? i) ∧
      ∀ id, s.serve (.get id) = (s, .rules (found? qs id)) ∧
        s.serve (.entry id) = (s, .entry ((found? qs id).map (id, ·))) ∧
        s.serve (.setsFor id) = (s, .sets ([id, ModuleId.wildcard].filterMap fun key =>
          (found? qs key).map (key, ·))) := by
  intro s
  have hmem (id : ModuleId) : id ∈ s.identities ↔ id ∈ mentioned qs :=
    mem_identities_after_empty qs id
  have hget (id : ModuleId) : s.get? id = found? qs id := get?_after_empty qs id
  have hsize : s.size = (mentioned qs).dedup.length := by
    have hperm : s.identities.Perm (mentioned qs).dedup := by
      rw [List.perm_ext_iff_of_nodup s.nodup_identities (List.nodup_dedup _)]
      exact fun id => (hmem id).trans List.mem_dedup.symm
    rw [← hperm.length_eq, identities, List.length_map]
    rfl
  refine ⟨s.pairwise_identities.imp ModuleId.isBefore_iff.2, hmem, hsize, ?_, ?_, fun q i => ?_,
    fun id => ⟨?_, ?_, ?_⟩⟩
  · rw [isEmpty, List.isEmpty_iff_length_eq_zero, ← List.dedup_eq_nil, ← List.length_eq_zero_iff,
      ← hsize]
    rfl
  · exact (ruleCount_after qs empty).trans (Nat.zero_add _)
  · rw [get?_serve, rulesOf_after]
    rfl
  · rw [serve, hget]
  · rw [serve, entry?_eq, hget]
  · simp only [serve, setsFor, hget]

/-- Identities with the same text are kept apart. -/
example :
    let a : ModuleId := ⟨"a:b", "c"⟩
    let b : ModuleId := ⟨"a", "b:c"⟩
    let s := empty.after [.touch a, .push b (.makeOptional a), .get ModuleId.wildcard]
    a.text = b.text ∧ s.identities = [b, a] ∧ s.get? a = some [] ∧
      s.get? b = some [.makeOptional a] := by decide

end ModuleRules.RuleStore
