import Mathlib.Data.List.Basic
import ModuleRules.Proofs.Rule.Store

/-!
# Rules seen from single entries

A rule sweeps over the whole descriptor before the next one starts. Seen from
an entry, the rules run over that entry alone: a dependency that a rule brings
in meets only the rules after it, and a resource is gone as soon as a pattern
covers its text of that moment (`amend_eq_entries`).
-/

namespace ModuleRules

def Dependency.under (d : Dependency) : Rule → Dependency
  | .replace old new =>
    if d.identity = old then ⟨⟨new.name, some new.slot⟩, d.optional, d.exported⟩ else d
  | .makeOptional id => if d.identity = id then ⟨d.target, true, d.exported⟩ else d
  | _ => d

def Dependency.through (d : Dependency) (rs : List Rule) : Dependency := rs.foldl under d

def Resource.under (r : Resource) : Rule → Option Resource
  | .remove p => if p.covers r.matchText then none else some r
  | .force s version =>
    match r with
    | artifact c => some (artifact (if s.selects c then { c with version := some version } else c))
    | root path => some (root path)
  | _ => some r

/-- What the rules make of a resource one after another, until one removes it. -/
def Resource.through (r : Resource) (rs : List Rule) : Option Resource := rs.foldlM under r

def Rule.newcomer? : Rule → Option Dependency
  | add target => some ⟨target, false, false⟩
  | addExported target => some ⟨target, false, true⟩
  | _ => none

/-- The dependency that the first rule brings in, as the rules after it leave it. -/
def firstNewcomer? : List Rule → Option Dependency
  | [] => none
  | r :: later => r.newcomer?.map (·.through later)

/-- The dependencies that the rules bring in, each as the rules after its own leave it. -/
def newcomers (rs : List Rule) : List Dependency := rs.tails.filterMap firstNewcomer?

namespace Descriptor

def entriesThrough (d : Descriptor) (rs : List Rule) : Descriptor where
  self := d.self
  resources := d.resources.filterMap (·.through rs)
  dependencies := d.dependencies.map (·.through rs) ++ newcomers rs

end Descriptor

/-! ## One rule -/

theorem filterMap_under_remove (p : Pattern) (rs : List Resource) :
    rs.filterMap (·.under (.remove p)) = rs.filter fun r => !p.covers r.matchText := by
  induction rs with
  | nil => rfl
  | cons r rs ih =>
    rw [List.filterMap_cons, List.filter_cons, ih]
    cases h : p.covers r.matchText <;> simp [Resource.under, h]

theorem filterMap_under_force (s : Selector) (version : Text) (rs : List Resource) :
    rs.filterMap (·.under (.force s version)) = rs.map (·.setVersion s version) := by
  rw [← List.filterMap_eq_map]
  apply List.filterMap_congr
  intro r _
  cases r <;> rfl

theorem resources_act (r : Rule) (d : Descriptor) :
    (r.act d).1.resources = d.resources.filterMap (·.under r) := by
  cases r with
  | remove pattern => exact (filterMap_under_remove pattern d.resources).symm
  | force selector version => exact (filterMap_under_force selector version d.resources).symm
  | replace | makeOptional | add | addExported => exact List.filterMap_some.symm

theorem dependencies_act (r : Rule) (d : Descriptor) :
    (r.act d).1.dependencies = d.dependencies.map (·.under r) ++ r.newcomer?.toList := by
  have hsame : d.dependencies = d.dependencies.map fun x => x := (List.map_id' _).symm
  cases r with
  | replace | makeOptional => exact (List.append_nil _).symm
  | add | addExported => exact congrArg (· ++ _) hsame
  | remove | force => exact hsame.trans (List.append_nil _).symm

theorem self_act (r : Rule) (d : Descriptor) : (r.act d).1.self = d.self := by
  cases r <;> rfl

/-! ## Many rules -/

theorem newcomers_nil : newcomers [] = [] := rfl

theorem newcomers_cons (r : Rule) (rs : List Rule) :
    newcomers (r :: rs) = (r.newcomer?.map (·.through rs)).toList ++ newcomers rs := by
  cases h : r.newcomer? <;> simp [newcomers, firstNewcomer?, h]

theorem Resource.through_cons (x : Resource) (r : Rule) (rs : List Rule) :
    x.through (r :: rs) = (x.under r).bind (·.through rs) := by
  unfold through
  rw [List.foldlM_cons]
  rfl

theorem self_apply : ∀ (rs : RuleSet) (d : Descriptor), (RuleSet.apply rs d).1.self = d.self
  | [], _ => rfl
  | r :: rs, d => (self_apply rs _).trans (self_act r d)

theorem resources_apply : ∀ (rs : RuleSet) (d : Descriptor),
    (RuleSet.apply rs d).1.resources = d.resources.filterMap (·.through rs)
  | [], d => List.filterMap_some.symm
  | r :: rs, d => by
    have ih := resources_apply rs (r.act d).1
    rw [resources_act, List.filterMap_filterMap] at ih
    exact ih.trans (List.filterMap_congr fun x _ => (x.through_cons r rs).symm)

theorem dependencies_apply : ∀ (rs : RuleSet) (d : Descriptor),
    (RuleSet.apply rs d).1.dependencies = d.dependencies.map (·.through rs) ++ newcomers rs
  | [], d => by simp [RuleSet.apply, Dependency.through, newcomers_nil]
  | r :: rs, d => by
    have ih := dependencies_apply rs (r.act d).1
    rw [dependencies_act, List.map_append, List.map_map, List.append_assoc] at ih
    refine ih.trans ?_
    rw [newcomers_cons]
    cases r.newcomer? <;> rfl

theorem apply_eq_entriesThrough (rs : RuleSet) (d : Descriptor) :
    (RuleSet.apply rs d).1 = d.entriesThrough rs := by
  have hself := self_apply rs d
  have hres := resources_apply rs d
  have hdeps := dependencies_apply rs d
  cases h : (RuleSet.apply rs d).1
  simp_all [Descriptor.entriesThrough]

theorem newcomers_eq_nil_iff : ∀ {rs : List Rule}, newcomers rs = [] ↔ ∀ r ∈ rs, r.newcomer? = none
  | [] => by simp [newcomers_nil]
  | r :: rs => by
    rw [newcomers_cons, List.append_eq_nil_iff, newcomers_eq_nil_iff, List.forall_mem_cons]
    cases r.newcomer? <;> simp

/-! ## What stays -/

theorem Resource.under_eq_some {x y : Resource} {r : Rule} (h : x.under r = some y) :
    y = x ∨ ∃ c version, x = artifact c ∧ y = artifact { c with version } := by
  cases r with
  | remove p =>
    simp only [under] at h
    split at h
    next => cases h
    next => exact .inl (Option.some.inj h).symm
  | force s version =>
    cases x with
    | root path => exact .inl (Option.some.inj h).symm
    | artifact c =>
      have h := Option.some.inj h
      split at h
      next => exact .inr ⟨c, some version, rfl, h.symm⟩
      next => exact .inl h.symm
  | replace | makeOptional | add | addExported => exact .inl (Option.some.inj h).symm

/-- Of a resource that is left, only the version may be another. -/
theorem Resource.through_eq_some : ∀ {rs : List Rule} {x y : Resource}, x.through rs = some y →
    y = x ∨ ∃ c version, x = artifact c ∧ y = artifact { c with version }
  | [], x, y, h => .inl (Option.some.inj h).symm
  | r :: rs, x, y, h => by
    rw [through_cons] at h
    obtain ⟨z, hz, hy⟩ := Option.bind_eq_some_iff.1 h
    rcases under_eq_some hz with rfl | ⟨c, version, rfl, rfl⟩
    · exact through_eq_some hy
    · rcases through_eq_some hy with rfl | ⟨c', version', hc, rfl⟩
      · exact .inr ⟨c, version, rfl, rfl⟩
      · cases hc
        exact .inr ⟨c, version', rfl, rfl⟩

/-! ## The rules of a store -/

theorem RuleStore.rulesFor_eq (s : RuleStore) (id : ModuleId) :
    s.rulesFor id = s.rulesOf id ++ s.rulesOf ModuleId.wildcard := by
  unfold rulesFor setsFor rulesOf
  cases h : s.get? id <;> cases hw : s.get? ModuleId.wildcard <;> simp [h, hw]

theorem RuleStore.amend_of_rules {s : RuleStore} {rs : RuleSet} (d : Descriptor)
    (h : s.rulesOf d.identity ++ s.rulesOf ModuleId.wildcard = rs) :
    s.amend d = RuleSet.apply rs d := by
  rw [amend, rulesFor_eq, h]

/-- **Rules act on each entry on its own.** The rules are those of the descriptor's module and
then those of `ALL:ALL`. In particular neither kind of entry shows in what becomes of the other. -/
theorem RuleStore.amend_eq_entries (s : RuleStore) (d : Descriptor) :
    (s.amend d).1 = d.entriesThrough (s.rulesOf d.identity ++ s.rulesOf ModuleId.wildcard) ∧
      (∀ resources, (s.amend { d with resources }).1.dependencies = (s.amend d).1.dependencies) ∧
      ∀ dependencies, (s.amend { d with dependencies }).1.resources = (s.amend d).1.resources := by
  refine ⟨?_, fun resources => ?_, fun dependencies => ?_⟩
  · rw [amend_of_rules d rfl, apply_eq_entriesThrough]
  · simp only [amend, dependencies_apply]
    rfl
  · simp only [amend, resources_apply]
    rfl

/-- The dependency that the first rule brings in is marked by the next one, the one of the last rule
is not. -/
example :
    let foo : ModuleId := ⟨"foo", "main"⟩
    let s := (((RuleStore.empty.push foo (.add ⟨"b", none⟩)).push foo
      (.makeOptional ⟨"b", "main"⟩)).push foo (.remove ⟨"g:*"⟩)).push ModuleId.wildcard
      (.addExported ⟨"b", none⟩)
    let d : Descriptor := ⟨⟨"foo", none⟩, [.artifact ⟨"g", "a", none, none, false⟩, .root "lib"],
      [⟨⟨"c", none⟩, false, false⟩]⟩
    (s.amend d).1 = ⟨⟨"foo", none⟩, [.root "lib"], [⟨⟨"c", none⟩, false, false⟩,
      ⟨⟨"b", none⟩, true, false⟩, ⟨⟨"b", none⟩, false, true⟩]⟩ := by decide

end ModuleRules
