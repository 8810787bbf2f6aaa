import ModuleRules.Proofs.Configuration.Directive
import ModuleRules.Proofs.Configuration.Reading
import ModuleRules.Proofs.Rule.Entries

/-!
# What rules leave behind

What a rule has settled stays so while the rules after it go on: dependencies
on a module come only from rules that introduce it, and a resource shows
another text only after a rule that forces a version. So what one step settles
and no later step can undo holds of the amended descriptor
(`lasting_of_amend`).
-/

namespace ModuleRules

/-- A slot that is missing or empty is the slot `main`. -/
def ModuleRef.Names (r : ModuleRef) (id : ModuleId) : Prop :=
  r.name = id.name ∧
    if r.slot = none ∨ r.slot = some [] then id.slot = ("main" : Text) else r.slot = some id.slot

theorem ModuleRef.names_iff {r : ModuleRef} {id : ModuleId} : r.Names id ↔ r.identity = id := by
  obtain ⟨name, slot⟩ := r
  obtain ⟨name', slot'⟩ := id
  unfold Names identity ModuleId.withSlot
  rcases slot with _ | _ | ⟨c, slot⟩ <;> simp [mainSlot, eq_comm]

instance ModuleRef.decidableNames (r : ModuleRef) (id : ModuleId) : Decidable (r.Names id) :=
  decidable_of_iff _ ModuleRef.names_iff.symm

def Rule.Introduces (id : ModuleId) : Rule → Prop
  | replace _ new => new = id
  | add target | addExported target => target.Names id
  | makeOptional _ | remove _ | force _ _ => False

instance (id : ModuleId) : (r : Rule) → Decidable (r.Introduces id)
  | .replace _ new => inferInstanceAs (Decidable (new = id))
  | .add target | .addExported target => inferInstanceAs (Decidable (target.Names id))
  | .makeOptional _ | .remove _ | .force _ _ => inferInstanceAs (Decidable False)

/-- A module that is put in another's place comes with a slot. -/
def Rule.IsSlotted : Rule → Prop
  | replace _ new => new.slot ≠ []
  | _ => True

def Descriptor.Meets (d : Descriptor) (id : ModuleId) (P : Dependency → Prop) : Prop :=
  ∀ x ∈ d.dependencies, x.identity = id → P x

def Descriptor.IsClearOf (d : Descriptor) (p : Pattern) : Prop :=
  ∀ x ∈ d.resources, p.covers x.matchText = false

/-! ## One rule -/

/-- Without a rule that introduces it, a dependency on the module was one before. -/
theorem Dependency.under_of_not_introduces {x : Dependency} {r : Rule} {id : ModuleId}
    (hslot : r.IsSlotted) (hr : ¬ r.Introduces id) (h : (x.under r).identity = id) :
    x.identity = id ∧ (x.under r = x ∨ x.under r = { x with optional := true }) := by
  cases r with
  | replace old new =>
    by_cases hx : x.identity = old
    · rw [under, if_pos hx] at h
      exact absurd ((ModuleId.identity_ref_of_slot hslot).symm.trans h) hr
    · rw [under, if_neg hx] at h ⊢
      exact ⟨h, .inl rfl⟩
  | makeOptional other =>
    by_cases hx : x.identity = other
    · rw [under, if_pos hx] at h ⊢
      exact ⟨h, .inr rfl⟩
    · rw [under, if_neg hx] at h ⊢
      exact ⟨h, .inl rfl⟩
  | add | addExported | remove | force => exact ⟨h, .inl rfl⟩

theorem Rule.introduces_of_newcomer {r : Rule} {x : Dependency} {id : ModuleId}
    (hx : r.newcomer? = some x) (h : x.identity = id) : r.Introduces id := by
  cases r with
  | add | addExported =>
    cases hx
    exact ModuleRef.names_iff.2 h
  | replace | makeOptional | remove | force => cases hx

namespace Descriptor

variable {d : Descriptor} {r : Rule} {id : ModuleId} {P : Dependency → Prop} {p : Pattern}

theorem Meets.act (h : d.Meets id P) (hP : ∀ x, P x → P { x with optional := true })
    (hslot : r.IsSlotted) (hr : ¬ r.Introduces id) : (r.act d).1.Meets id P := by
  intro y hy hid
  rw [dependencies_act, List.mem_append, Option.mem_toList] at hy
  rcases hy with hy | hy
  · obtain ⟨x, hx, rfl⟩ := List.mem_map.1 hy
    obtain ⟨hxid, hsame | hmarked⟩ := Dependency.under_of_not_introduces hslot hr hid
    · rw [hsame]
      exact h x hx hxid
    · rw [hmarked]
      exact hP x (h x hx hxid)
  · exact absurd (Rule.introduces_of_newcomer hy hid) hr

theorem IsClearOf.act (h : d.IsClearOf p) (hr : r.keyword ≠ .force) : (r.act d).1.IsClearOf p := by
  intro y hy
  rw [resources_act, List.mem_filterMap] at hy
  obtain ⟨x, hx, hxy⟩ := hy
  have hsame : y = x := by
    cases r with
    | remove q =>
      simp only [Resource.under] at hxy
      split at hxy
      next => cases hxy
      next => exact (Option.some.inj hxy).symm
    | force => exact absurd rfl hr
    | replace | makeOptional | add | addExported => exact (Option.some.inj hxy).symm
  rw [hsame]
  exact h x hx

/-! ## What a rule settles -/

theorem meets_replace (d : Descriptor) {old new : ModuleId} (hslot : new.slot ≠ [])
    (hne : new ≠ old) : ((Rule.replace old new).act d).1.Meets old fun _ => False := by
  intro y hy hid
  obtain ⟨x, -, rfl⟩ := List.mem_map.1 hy
  by_cases hx : x.identity = old
  · rw [Dependency.redirect, if_pos hx] at hid
    exact hne ((ModuleId.identity_ref_of_slot hslot).symm.trans hid)
  · rw [Dependency.redirect, if_neg hx] at hid
    exact hx hid

theorem meets_makeOptional (d : Descriptor) (id : ModuleId) :
    ((Rule.makeOptional id).act d).1.Meets id (·.optional = true) := by
  intro y hy hid
  obtain ⟨x, -, rfl⟩ := List.mem_map.1 hy
  by_cases hx : x.identity = id
  · rw [Dependency.markOptional, if_pos hx]
  · rw [Dependency.markOptional, if_neg hx] at hid
    exact absurd hid hx

theorem isClearOf_remove (d : Descriptor) (p : Pattern) : ((Rule.remove p).act d).1.IsClearOf p := by
  intro x hx
  simpa using (List.mem_filter.1 hx).2

end Descriptor

/-! ## Many rules -/

namespace RuleSet

variable {Q : Descriptor → Prop} {Keeps : Rule → Prop}

theorem apply_keeps (hkeep : ∀ {r : Rule} {d : Descriptor}, Keeps r → Q d → Q (r.act d).1) :
    ∀ {rs : RuleSet} {d : Descriptor}, (∀ r ∈ rs, Keeps r) → Q d → Q (apply rs d).1
  | [], _, _, hd => hd
  | r :: rs, d, h, hd => by
    obtain ⟨hr, hrs⟩ := List.forall_mem_cons.1 h
    exact apply_keeps (d := (r.act d).1) hkeep hrs (hkeep hr hd)

/-- What one rule settles and all rules after it keep holds at the end. -/
theorem apply_of_settled {r : Rule} (hsettle : ∀ d : Descriptor, Q (r.act d).1)
    (hkeep : ∀ {r : Rule} {d : Descriptor}, Keeps r → Q d → Q (r.act d).1) :
    ∀ {rs : RuleSet} {n : Nat} (d : Descriptor), rs[n]? = some r →
      (∀ r ∈ rs.drop (n + 1), Keeps r) → Q (apply rs d).1
  | r :: rs, 0, d, hr, hlater => by
    cases hr
    exact apply_keeps (d := (r.act d).1) hkeep hlater (hsettle d)
  | r :: rs, n + 1, d, hr, hlater => apply_of_settled hsettle hkeep (r.act d).1 hr hlater

end RuleSet

/-! ## Loaded rules -/

/-- What is loaded by reading sources one after another, each as far as it goes. -/
inductive Loaded.IsRead : Loaded → Prop
  | start : IsRead {}
  | read {l : Loaded} (h : IsRead l) (properties : Properties) (source : Text)
    (lines : List (Except FileFault Text)) : IsRead (l.addLines properties source lines).1

/-- What holds of each rule that a line declares, once its version is filled in, holds of each
that is loaded. -/
theorem Loaded.IsRead.forall_rules {Q : Rule → Prop} (hQ : ∀ {line : Text} {r r' : Rule}
    {properties : Properties}, Outline.directive line = .ok (.rule r) →
      r.filled? properties = some r' → Q r') {l : Loaded} (h : l.IsRead) :
    ∀ id, ∀ r ∈ l.store.rulesOf id, Q r := by
  induction h with
  | start =>
    intro id r hr
    cases hr
  | @read l _ properties source lines ih =>
    rw [store_addLines]
    refine Reading.feedAll_keeps (P := fun s => ∀ id, ∀ r ∈ s.store.rulesOf id, Q r) ?_ lines ih
    intro n raw s s' hs hstep
    cases hstep with
    | blank | skipped | lost | idle => exact hs
    | turned =>
      intro id
      rw [RuleStore.rulesOf_touch]
      exact hs id
    | added hd _ hr =>
      intro id r hmem
      rw [RuleStore.rulesOf_push] at hmem
      split at hmem
      next =>
        rcases List.mem_append.1 hmem with hmem | hmem
        · exact hs id r hmem
        · rw [List.mem_singleton.1 hmem]
          exact hQ hd hr
      next => exact hs id r hmem

theorem Rule.isSlotted_of_filled? {r r' : Rule} {properties : Properties} (h : r.IsSlotted)
    (hr : r.filled? properties = some r') : r'.IsSlotted := by
  cases r with
  | force selector version =>
    simp only [filled?] at hr
    split at hr
    next =>
      obtain ⟨value, -, rfl⟩ := Option.map_eq_some_iff.1 hr
      trivial
    next =>
      cases hr
      trivial
  | replace | makeOptional | add | addExported | remove =>
    cases hr
    exact h

theorem Directive.isSlotted_of_sound {r : Rule} (h : r.IsSound) : r.IsSlotted := by
  cases r with
  | replace old new => exact h.2.1.slot.ne_nil
  | makeOptional | add | addExported | remove | force => trivial

theorem Loaded.IsRead.isSlotted {l : Loaded} (h : l.IsRead) (id : ModuleId) :
    ∀ r ∈ l.store.rulesOf id, r.IsSlotted :=
  h.forall_rules (fun hd => Rule.isSlotted_of_filled?
    (Directive.isSlotted_of_sound (Directive.isSound_of_parse hd))) id

/-- **What a rule settles lasts until a later rule brings it back.** The rules are those of the
descriptor's module and then those of `ALL:ALL`. A module that was replaced by another is needed no
more, a module that was made optional is needed only optionally, and a removed text shows in no
resource, unless a later rule introduces the module again or forces a version. -/
theorem Loaded.lasting_of_amend {l : Loaded} (hl : l.IsRead) (d : Descriptor) (n : Nat) :
    let rs := l.store.rulesOf d.identity ++ l.store.rulesOf ModuleId.wildcard
    (∀ old new, rs[n]? = some (.replace old new) → new ≠ old →
      (∀ r ∈ rs.drop (n + 1), ¬ r.Introduces old) →
        ∀ x ∈ (l.store.amend d).1.dependencies, ¬ x.target.Names old) ∧
    (∀ id, rs[n]? = some (.makeOptional id) → (∀ r ∈ rs.drop (n + 1), ¬ r.Introduces id) →
      ∀ x ∈ (l.store.amend d).1.dependencies, x.target.Names id → x.optional = true) ∧
    ∀ p, rs[n]? = some (.remove p) → (∀ r ∈ rs.drop (n + 1), r.keyword ≠ .force) →
      ∀ x ∈ (l.store.amend d).1.resources, p.covers x.matchText = false := by
  intro rs
  have hslotted : ∀ r ∈ rs, r.IsSlotted := by
    intro r hr
    exact (List.mem_append.1 hr).elim (hl.isSlotted _ r) (hl.isSlotted _ r)
  have hlater {id : ModuleId} (h : ∀ r ∈ rs.drop (n + 1), ¬ r.Introduces id) :
      ∀ r ∈ rs.drop (n + 1), r.IsSlotted ∧ ¬ r.Introduces id :=
    fun r hr => ⟨hslotted r (List.mem_of_mem_drop hr), h r hr⟩
  rw [RuleStore.amend_of_rules d rfl]
  simp only [ModuleRef.names_iff]
  refine ⟨fun old new hr hne hno => ?_, fun id hr hno => ?_, fun p hr hno => ?_⟩
  · have hslot : new.slot ≠ [] := hslotted _ (List.mem_of_getElem? hr)
    exact RuleSet.apply_of_settled (Q := (·.Meets old fun _ => False))
      (fun d => d.meets_replace hslot hne)
      (fun hkeep h => h.act (fun _ => id) hkeep.1 hkeep.2) d hr (hlater hno)
  · exact RuleSet.apply_of_settled (Q := (·.Meets id (·.optional = true)))
      (fun d => d.meets_makeOptional id)
      (fun hkeep h => h.act (fun _ _ => rfl) hkeep.1 hkeep.2) d hr (hlater hno)
  · exact RuleSet.apply_of_settled (Q := (·.IsClearOf p)) (fun d => d.isClearOf_remove p)
      (fun hkeep h => h.act hkeep) d hr hno

theorem Loaded.lasting_of_amend_across_sets :
    let text : Text := "module:foo\nreplace:a>b\noptional:b\nremove-artifact:g:*\n" ++
      "module:ALL:ALL\nreplace:c>d\nexport:a:1\n"
    let l := (({} : Loaded).addText .none "a.conf" text).1
    let d : Descriptor := ⟨⟨"foo", none⟩, [.artifact ⟨"g", "x", none, none, false⟩, .root "g"],
      [⟨⟨"a", some []⟩, false, true⟩, ⟨⟨"b", none⟩, false, false⟩, ⟨⟨"c", none⟩, false, false⟩]⟩
    l.IsRead ∧
      l.store.rulesOf d.identity = [.replace ⟨"a", "main"⟩ ⟨"b", "main"⟩,
        .makeOptional ⟨"b", "main"⟩, .remove ⟨"g:*"⟩] ∧
      l.store.rulesOf ModuleId.wildcard =
        [.replace ⟨"c", "main"⟩ ⟨"d", "main"⟩, .addExported ⟨"a", some "1"⟩] ∧
      (l.store.amend d).1.dependencies = [⟨⟨"b", some "main"⟩, true, true⟩,
        ⟨⟨"b", none⟩, true, false⟩, ⟨⟨"d", some "main"⟩, false, false⟩,
        ⟨⟨"a", some "1"⟩, false, true⟩] ∧
      (l.store.amend d).1.resources = [.root "g"] ∧
      (∀ x ∈ (l.store.amend d).1.dependencies, ¬ x.target.Names ⟨"a", "main"⟩) ∧
      (∀ x ∈ (l.store.amend d).1.dependencies,
        x.target.Names ⟨"b", "main"⟩ → x.optional = true) ∧
      ∀ x ∈ (l.store.amend d).1.resources, Pattern.covers ⟨"g:*"⟩ x.matchText = false := by
  intro text l d
  have hl : l.IsRead := .read .start .none "a.conf" ((Text.lines text).map .ok)
  have hown : l.store.rulesOf d.identity = [.replace ⟨"a", "main"⟩ ⟨"b", "main"⟩,
      .makeOptional ⟨"b", "main"⟩, .remove ⟨"g:*"⟩] := rfl
  have hall : l.store.rulesOf ModuleId.wildcard =
      [.replace ⟨"c", "main"⟩ ⟨"d", "main"⟩, .addExported ⟨"a", some "1"⟩] := rfl
  have hreplaced := (lasting_of_amend hl d 0).1
  have hoptional := (lasting_of_amend hl d 1).2.1
  have hremoved := (lasting_of_amend hl d 2).2.2
  rw [hown, hall] at hreplaced hoptional hremoved
  exact ⟨hl, hown, hall, by decide +kernel, by decide +kernel,
    hreplaced _ _ rfl (by decide) (by decide), hoptional _ rfl (by decide),
    hremoved _ rfl (by decide)⟩

end ModuleRules
