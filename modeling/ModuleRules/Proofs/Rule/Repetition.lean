import ModuleRules.Proofs.Rule.Changes
import ModuleRules.Proofs.Rule.Lasting
import ModuleRules.Proofs.Rule.Version

/-!
# Rules that are applied twice

Rules that mark dependencies optional or force versions change no part of an
entry that they look at. So each of them tells of the same change on every
descriptor that such rules lead to, and what they have all been applied to is
as they leave it again in the end, even where they undo one another on the way
(`amend_amend`).
-/

namespace ModuleRules

namespace Rule

/-- The rule sets a flag or a version, and moves no entry. -/
def IsSetting (r : Rule) : Prop := r.keyword = .optional ∨ r.keyword = .force

theorem IsSetting.shape {r : Rule} (h : r.IsSetting) :
    (∃ id, r = makeOptional id) ∨ ∃ s version, r = force s version := by
  cases r with
  | makeOptional id => exact .inl ⟨id, rfl⟩
  | force s version => exact .inr ⟨s, version, rfl⟩
  | replace | add | addExported | remove => rcases h with h | h <;> cases h

def marks (id : ModuleId) : Rule → Bool
  | makeOptional i => i = id
  | _ => false

end Rule

def Resource.forcedBy (rs : List Rule) : Resource → Resource
  | artifact c => artifact (c.forcedBy rs)
  | root path => root path

/-- No rule that sets something tells the descriptors apart. -/
structure Descriptor.IsAlike (d e : Descriptor) : Prop where
  countOf : ∀ id, e.countOf id = d.countOf id
  selected : ∀ s : Selector,
    e.resources.countP (·.isSelectedBy s) = d.resources.countP (·.isSelectedBy s)

/-! ## One entry -/

variable {rs : List Rule} {r : Rule}

theorem Dependency.through_of_isSetting {x : Dependency} (h : ∀ r ∈ rs, r.IsSetting) :
    x.through rs = { x with optional := x.optional || rs.any (·.marks x.identity) } := by
  induction rs generalizing x with
  | nil => simp [through]
  | cons r rs ih =>
    obtain ⟨hr, hrs⟩ := List.forall_mem_cons.1 h
    have hunder : x.under r = { x with optional := x.optional || r.marks x.identity } := by
      obtain ⟨id, rfl⟩ | ⟨s, version, rfl⟩ := hr.shape
      · by_cases hid : x.identity = id
        · simp [under, Rule.marks, hid]
        · simp [under, Rule.marks, hid, Ne.symm hid]
      · simp [under, Rule.marks]
    have hcons : x.through (r :: rs) = (x.under r).through rs := rfl
    rw [hcons, hunder, ih hrs]
    simp [identity, Bool.or_assoc]

theorem Resource.through_of_isSetting {x : Resource} (h : ∀ r ∈ rs, r.IsSetting) :
    x.through rs = some (x.forcedBy rs) := by
  induction rs generalizing x with
  | nil => cases x <;> rfl
  | cons r rs ih =>
    obtain ⟨hr, hrs⟩ := List.forall_mem_cons.1 h
    rw [through_cons]
    cases x with
    | root path =>
      have hunder : (root path).under r = some (root path) := by
        obtain ⟨id, rfl⟩ | ⟨s, version, rfl⟩ := hr.shape <;> rfl
      rw [hunder]
      exact ih hrs
    | artifact c =>
      have hremoves : r.removes c = false := by
        obtain ⟨id, rfl⟩ | ⟨s, version, rfl⟩ := hr.shape <;> rfl
      simp [under_artifact, hremoves, ih hrs, forcedBy, c.forcedBy_cons r rs]

/-- What all rules have set they set again, whatever the earlier of them set in between. -/
theorem Dependency.through_through {x : Dependency} (h : ∀ r ∈ rs, r.IsSetting) :
    (x.through rs).through rs = x.through rs := by
  simp [through_of_isSetting h, identity]

theorem Resource.forcedBy_forcedBy (x : Resource) (rs : List Rule) :
    (x.forcedBy rs).forcedBy rs = x.forcedBy rs := by
  cases x with
  | root path => rfl
  | artifact c =>
    have hcoordinate : (c.forcedBy rs).forcedBy rs = c.forcedBy rs := by
      rw [← c.forcedBy_append]
      simp [Coordinate.forcedBy, Coordinate.lastForced?_append]
    simp [forcedBy, hcoordinate]

/-! ## Changes -/

theorem Dependency.identity_markOptional (x : Dependency) (id : ModuleId) :
    (x.markOptional id).identity = x.identity := by
  unfold markOptional
  by_cases h : x.identity = id
  · rw [if_pos h]
    rfl
  · rw [if_neg h]

theorem Resource.isSelectedBy_setVersion (x : Resource) (s t : Selector) (version : Text) :
    (x.setVersion s version).isSelectedBy t = x.isSelectedBy t := by
  cases x with
  | root path => rfl
  | artifact c =>
    rw [setVersion]
    by_cases h : s.selects c
    · rw [if_pos h]
      rfl
    · rw [if_neg h]

theorem Descriptor.IsAlike.act {d e : Descriptor} (h : d.IsAlike e) (hr : r.IsSetting) :
    d.IsAlike (r.act e).1 := by
  obtain ⟨id, rfl⟩ | ⟨s, version, rfl⟩ := hr.shape
  · refine ⟨fun i => ?_, h.selected⟩
    rw [← h.countOf i]
    simp [Rule.act, markOptional, Descriptor.countOf, List.countP_map, Function.comp_def,
      Dependency.identity_markOptional]
  · refine ⟨h.countOf, fun t => ?_⟩
    rw [← h.selected t]
    simp [Rule.act, setVersion, List.countP_map, Function.comp_def,
      Resource.isSelectedBy_setVersion]

theorem Descriptor.IsAlike.change_eq {d e : Descriptor} (h : d.IsAlike e) (hr : r.IsSetting) :
    (r.apply e).2 = (r.apply d).2 := by
  rw [Rule.change_apply, Rule.change_apply]
  obtain ⟨id, rfl⟩ | ⟨s, version, rfl⟩ := hr.shape
  · have hcount : ((Rule.makeOptional id).act e).2 = ((Rule.makeOptional id).act d).2 := h.countOf id
    rw [hcount]
  · have hcount : ((Rule.force s version).act e).2 = ((Rule.force s version).act d).2 := h.selected s
    rw [hcount]

namespace RuleSet

/-- Each rule tells of what it would change first of all. -/
theorem changes_of_isSetting (h : ∀ r ∈ rs, r.IsSetting) (d : Descriptor) :
    (apply rs d).2 = rs.filterMap fun r => (r.apply d).2 := by
  induction rs generalizing d with
  | nil => rfl
  | cons r rs ih =>
    obtain ⟨hr, hrs⟩ := List.forall_mem_cons.1 h
    have hchanges : (apply (r :: rs) d).2 = (r.apply d).2.toList ++ (apply rs (r.act d).1).2 := rfl
    have hlater : (apply rs (r.act d).1).2 = rs.filterMap fun r => (r.apply d).2 := by
      rw [ih hrs]
      apply List.filterMap_congr
      intro q hq
      have halike : d.IsAlike (r.act d).1 := Descriptor.IsAlike.act ⟨fun _ => rfl, fun _ => rfl⟩ hr
      exact halike.change_eq (hrs q hq)
    rw [hchanges, hlater]
    cases hc : (r.apply d).2 <;> simp [hc]

theorem apply_of_isSetting (h : ∀ r ∈ rs, r.IsSetting) (d : Descriptor) :
    (apply rs d).1 = { d with
      resources := d.resources.map (·.forcedBy rs)
      dependencies := d.dependencies.map (·.through rs) } := by
  have hnewcomers : newcomers rs = [] := by
    rw [newcomers_eq_nil_iff]
    intro r hr
    obtain ⟨id, rfl⟩ | ⟨s, version, rfl⟩ := (h r hr).shape <;> rfl
  have hresources : d.resources.filterMap (·.through rs) = d.resources.map (·.forcedBy rs) := by
    rw [← List.filterMap_eq_map']
    exact List.filterMap_congr fun x _ => Resource.through_of_isSetting h
  rw [apply_eq_entriesThrough, Descriptor.entriesThrough, hnewcomers, List.append_nil, hresources]

theorem apply_apply (h : ∀ r ∈ rs, r.IsSetting) (d : Descriptor) :
    apply rs (apply rs d).1 = apply rs d := by
  have hstate : (apply rs (apply rs d).1).1 = (apply rs d).1 := by
    rw [apply_of_isSetting h, apply_of_isSetting h]
    simp [Function.comp_def, Resource.forcedBy_forcedBy, Dependency.through_through h]
  have hchanges : (apply rs (apply rs d).1).2 = (apply rs d).2 := by
    have halike : d.IsAlike (apply rs d).1 :=
      apply_keeps (fun hr hd => hd.act hr) h ⟨fun _ => rfl, fun _ => rfl⟩
    rw [changes_of_isSetting h, changes_of_isSetting h]
    apply List.filterMap_congr
    intro r hr
    exact halike.change_eq (h r hr)
  exact Prod.ext hstate hchanges

end RuleSet

/-- **Setting twice is setting once.** When the rules for a descriptor, those of its module and
those of `ALL:ALL`, only mark dependencies optional and force versions, a second run leaves the
descriptor as the first one did and tells of the same changes. -/
theorem RuleStore.amend_amend {s : RuleStore} {d : Descriptor}
    (h : ∀ r ∈ s.rulesOf d.identity ++ s.rulesOf ModuleId.wildcard,
      r.keyword = .optional ∨ r.keyword = .force) :
    s.amend (s.amend d).1 = s.amend d := by
  have hself : (s.amend d).1.identity = d.identity := by
    unfold amend Descriptor.identity
    rw [self_apply]
  unfold amend at hself ⊢
  rw [hself, rulesFor_eq]
  exact RuleSet.apply_apply h d

theorem RuleStore.amend_amend_of_conflict :
    let foo : ModuleId := ⟨"foo", "main"⟩
    let s := ((((empty.push foo (.force ⟨"g", "a", none, none⟩ "1")).push
      foo (.makeOptional ⟨"b", "main"⟩)).push
      foo (.force ⟨"g", "a", none, some "c"⟩ "2")).push
      ModuleId.wildcard (.force ⟨"g", "a", some "war", none⟩ "3"))
    let d : Descriptor := ⟨⟨"foo", none⟩, [.artifact ⟨"g", "a", none, some "c", true⟩, .root "g:a"],
      [⟨⟨"b", none⟩, false, true⟩, ⟨⟨"b", some "2"⟩, false, false⟩]⟩
    (∀ r ∈ s.rulesOf d.identity ++ s.rulesOf ModuleId.wildcard,
      r.keyword = .optional ∨ r.keyword = .force) ∧
      s.amend (s.amend d).1 = s.amend d ∧
      (s.amend d).1.resources = [.artifact ⟨"g", "a", some "3", some "c", true⟩, .root "g:a"] ∧
      (s.amend d).2.map (·.rule) = ["force-artifact-version", "optional", "force-artifact-version",
        "force-artifact-version"] := by
  intro foo s d
  have h : ∀ r ∈ s.rulesOf d.identity ++ s.rulesOf ModuleId.wildcard,
      r.keyword = .optional ∨ r.keyword = .force := by decide
  exact ⟨h, amend_amend h, by decide, by decide⟩

end ModuleRules
