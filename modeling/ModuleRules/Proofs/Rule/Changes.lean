import Mathlib.Algebra.Ring.Nat
import ModuleRules.Proofs.Rule.Entries
import ModuleRules.Proofs.Text.Affix

/-!
# What changes account for

A rule that tells of no change has left the descriptor as it was. So an empty
list of changes means an untouched descriptor, and what the list does tell of
accounts for every entry more or less (`changes_of_amend`).
-/

namespace ModuleRules

namespace Change

def isAddition (c : Change) : Bool := c.rule = ("include" : Text) || c.rule = ("export" : Text)

def leadingNumber (t : Text) : Nat := Nat.ofDigitChars 10 (t.takeWhile Char.isDigit) 0

/-- The number of resources that the message says were removed. -/
def removed (c : Change) : Nat :=
  if c.rule = ("remove-artifact" : Text) then
    ((Text.after? "Remove " c.message).map leadingNumber).getD 0
  else 0

theorem leadingNumber_ofNat (n : Nat) (t : Text) :
    leadingNumber (Text.ofNat n ++ ' ' :: t) = n := by
  have hdigits : ∀ c ∈ Text.ofNat n, c.isDigit = true := fun c hc =>
    Nat.isDigit_of_mem_toDigits (by decide) (by decide) hc
  rw [leadingNumber, List.takeWhile_append_of_pos hdigits,
    List.takeWhile_cons_of_neg (by decide), List.append_nil]
  exact Nat.ofDigitChars_toDigits (by decide) (by decide)

end Change

namespace RuleSet

def after (rs : RuleSet) (d : Descriptor) (n : Nat) : Descriptor := (apply (rs.take n) d).1

/-- What the rule at position `n` tells of, applied to what the rules before it left. -/
def changeAt (rs : RuleSet) (d : Descriptor) (n : Nat) : Option Change :=
  rs[n]?.bind fun r => (r.apply (rs.after d n)).2

end RuleSet

/-! ## Entries that no rule is aimed at -/

theorem Dependency.map_eq_self_of_countOf {d : Descriptor} {id : ModuleId}
    {f : Dependency → Dependency} (hf : ∀ x : Dependency, x.identity ≠ id → f x = x)
    (h : d.countOf id = 0) : d.dependencies.map f = d.dependencies := by
  rw [Descriptor.countOf, List.countP_eq_zero] at h
  refine (List.map_congr_left fun x hx => hf x ?_).trans (List.map_id _)
  simpa using h x hx

theorem Resource.setVersion_of_not_selected {s : Selector} {version : Text} {x : Resource}
    (h : x.isSelectedBy s = false) : x.setVersion s version = x := by
  cases x with
  | root path => rfl
  | artifact c =>
    rw [isSelectedBy] at h
    simp [setVersion, h]

/-! ## One rule -/

namespace Rule

/-- What concerns no entry changes nothing. -/
theorem act_of_count_eq_zero {r : Rule} {d : Descriptor} (h : (r.act d).2 = 0) :
    (r.act d).1 = d := by
  cases r with
  | replace old new =>
    have hdeps := Dependency.map_eq_self_of_countOf (f := (·.redirect old new))
      (fun x hx => if_neg hx) h
    simp only [act, Descriptor.replaceDependency, hdeps]
  | makeOptional id =>
    have hdeps := Dependency.map_eq_self_of_countOf (f := (·.markOptional id))
      (fun x hx => if_neg hx) h
    simp only [act, Descriptor.markOptional, hdeps]
  | add | addExported => cases h
  | remove pattern =>
    have hres : d.resources.filter (fun x => !pattern.covers x.matchText) = d.resources := by
      rw [List.filter_eq_self]
      intro x hx
      simpa using List.countP_eq_zero.1 h x hx
    simp only [act, Descriptor.removeResources, hres]
  | force selector version =>
    have hres : d.resources.map (·.setVersion selector version) = d.resources := by
      refine (List.map_congr_left fun x hx => ?_).trans (List.map_id _)
      exact Resource.setVersion_of_not_selected (by simpa using List.countP_eq_zero.1 h x hx)
    simp only [act, Descriptor.setVersion, hres]

theorem change_apply (r : Rule) (d : Descriptor) :
    (r.apply d).2 =
      if (r.act d).2 = 0 then none else some ⟨r.keyword.name, r.message (r.act d).2⟩ := rfl

theorem apply_of_change_eq_none {r : Rule} {d : Descriptor} (h : (r.apply d).2 = none) :
    (r.apply d).1 = d := by
  rw [change_apply] at h
  split at h
  next hcount => exact act_of_count_eq_zero hcount
  next => cases h

theorem change_eq_some {r : Rule} {d : Descriptor} {c : Change} (h : (r.apply d).2 = some c) :
    c = ⟨r.keyword.name, r.message (r.act d).2⟩ := by
  rw [change_apply] at h
  split at h
  next => cases h
  next => exact (Option.some.inj h).symm

theorem isSome_change_of_newcomer {r : Rule} (d : Descriptor) (h : r.newcomer?.isSome = true) :
    (r.apply d).2.isSome = true := by
  cases r with
  | add | addExported => rfl
  | replace | makeOptional | remove | force => cases h

/-! ## What one change accounts for -/

theorem isAddition_of_change {r : Rule} {d : Descriptor} {c : Change}
    (h : (r.apply d).2 = some c) : c.isAddition = r.newcomer?.isSome := by
  rw [change_eq_some h, Change.isAddition]
  cases r <;> rfl

theorem length_dependencies_apply (r : Rule) (d : Descriptor) :
    (r.apply d).1.dependencies.length =
      d.dependencies.length + (r.apply d).2.toList.countP Change.isAddition := by
  have hdeps : (r.apply d).1.dependencies = _ := dependencies_act r d
  have hlength : (r.apply d).1.dependencies.length =
      d.dependencies.length + r.newcomer?.toList.length := by
    rw [hdeps, List.length_append, List.length_map]
  rw [hlength, Nat.add_left_cancel_iff]
  cases hc : (r.apply d).2 with
  | none =>
    have hnone : r.newcomer? = none := by
      by_contra hne
      have := isSome_change_of_newcomer d (Option.isSome_iff_ne_none.2 hne)
      rw [hc] at this
      cases this
    rw [hnone]
    rfl
  | some c =>
    have hadd := isAddition_of_change hc
    cases hn : r.newcomer? <;> simp_all

theorem message_remove (n : Nat) (pattern : Pattern) : (remove pattern).message n =
    "Remove " ++ (Text.ofNat n ++ ' ' :: ("resource(s) matching " ++ pattern.text)) := by
  have hassoc (t u : Text) : "Remove " ++ t ++ " resource(s) matching " ++ u =
      "Remove " ++ (t ++ ' ' :: ("resource(s) matching " ++ u)) := by
    rw [List.append_assoc, List.append_assoc]
    rfl
  exact hassoc (Text.ofNat n) pattern.text

/-- The number in the message of a removal is read off it again. -/
theorem removed_message (n : Nat) (pattern : Pattern) :
    Change.removed ⟨"remove-artifact", (remove pattern).message n⟩ = n := by
  have hafter := Text.after?_eq_some_iff.2 (message_remove n pattern)
  have hremoved : Change.removed ⟨"remove-artifact", (remove pattern).message n⟩ =
      ((Text.after? "Remove " ((remove pattern).message n)).map Change.leadingNumber).getD 0 :=
    if_pos rfl
  rw [hremoved, hafter]
  exact Change.leadingNumber_ofNat n _

theorem removed_of_keyword_ne {r : Rule} {d : Descriptor} {c : Change}
    (h : (r.apply d).2 = some c) (hr : r.keyword.name ≠ ("remove-artifact" : Text)) :
    c.removed = 0 := by
  rw [change_eq_some h]
  exact if_neg hr

theorem length_resources_apply (r : Rule) (d : Descriptor) :
    (r.apply d).1.resources.length + ((r.apply d).2.toList.map Change.removed).sum =
      d.resources.length := by
  cases hc : (r.apply d).2 with
  | none =>
    rw [apply_of_change_eq_none hc]
    rfl
  | some c =>
    have hsum : ((some c).toList.map Change.removed).sum = c.removed := by simp
    rw [hsum]
    cases r with
    | remove pattern =>
      have hremoved : c.removed = d.resources.countP fun x => pattern.covers x.matchText := by
        rw [change_eq_some hc]
        exact removed_message _ pattern
      have hleft : ((remove pattern).apply d).1.resources.length =
          d.resources.countP fun x => !pattern.covers x.matchText :=
        List.countP_eq_length_filter.symm
      rw [hleft, hremoved, Nat.add_comm]
      have := d.resources.length_eq_countP_add_countP fun x => pattern.covers x.matchText
      simpa using this.symm
    | force selector version =>
      rw [removed_of_keyword_ne hc (by rw [keyword]; decide)]
      exact List.length_map _
    | replace | makeOptional | add | addExported =>
      rw [removed_of_keyword_ne hc (by rw [keyword]; decide)]
      rfl

end Rule

/-! ## Many rules -/

namespace RuleSet

theorem after_length (rs : RuleSet) (d : Descriptor) : rs.after d rs.length = (apply rs d).1 := by
  rw [after, List.take_length]

theorem after_succ : ∀ {rs : RuleSet} {n : Nat} {r : Rule} (d : Descriptor), rs[n]? = some r →
    rs.after d (n + 1) = (r.apply (rs.after d n)).1
  | r :: rs, 0, _, d, h => by
    cases h
    rfl
  | r :: rs, n + 1, s, d, h => after_succ (r.apply d).1 h

theorem changes_apply : ∀ (rs : RuleSet) (d : Descriptor),
    (apply rs d).2 = (List.range rs.length).filterMap (rs.changeAt d)
  | [], d => rfl
  | r :: rs, d => by
    have ih := changes_apply rs (r.apply d).1
    rw [List.length_cons, List.range_succ_eq_map, List.filterMap_cons, List.filterMap_map]
    change (r.apply d).2.toList ++ (apply rs (r.apply d).1).2 = _
    rw [ih]
    have hhead : changeAt (r :: rs) d 0 = (r.apply d).2 := rfl
    have htail : changeAt (r :: rs) d ∘ Nat.succ = changeAt rs (r.apply d).1 := rfl
    rw [hhead, htail]
    cases (r.apply d).2 <;> rfl

theorem apply_of_changes_eq_nil : ∀ {rs : RuleSet} {d : Descriptor}, (apply rs d).2 = [] →
    (apply rs d).1 = d
  | [], d, _ => rfl
  | r :: rs, d, h => by
    have happend : (r.apply d).2.toList ++ (apply rs (r.apply d).1).2 = [] := h
    obtain ⟨hr, hrs⟩ := List.append_eq_nil_iff.1 happend
    have hstep := Rule.apply_of_change_eq_none (Option.toList_eq_nil_iff.1 hr)
    exact (apply_of_changes_eq_nil hrs).trans hstep

theorem length_dependencies_apply : ∀ (rs : RuleSet) (d : Descriptor),
    (apply rs d).1.dependencies.length =
      d.dependencies.length + (apply rs d).2.countP Change.isAddition
  | [], d => rfl
  | r :: rs, d => by
    have ih := length_dependencies_apply rs (r.apply d).1
    have hstep := r.length_dependencies_apply d
    change (apply rs (r.apply d).1).1.dependencies.length = d.dependencies.length +
      ((r.apply d).2.toList ++ (apply rs (r.apply d).1).2).countP Change.isAddition
    rw [List.countP_append, ih, hstep, Nat.add_assoc]

theorem length_resources_apply : ∀ (rs : RuleSet) (d : Descriptor),
    (apply rs d).1.resources.length + ((apply rs d).2.map Change.removed).sum =
      d.resources.length
  | [], d => rfl
  | r :: rs, d => by
    have ih := length_resources_apply rs (r.apply d).1
    have hstep := r.length_resources_apply d
    change (apply rs (r.apply d).1).1.resources.length +
      (((r.apply d).2.toList ++ (apply rs (r.apply d).1).2).map Change.removed).sum = _
    rw [List.map_append, List.sum_append]
    omega

end RuleSet

/-! ## The rules of a store -/

/-- **Changes account for what amending did.** The rules are those of the descriptor's module and
then those of `ALL:ALL`. The changes come in the order of the rules, at most one from each and
exactly one from each that brings in a dependency; a rule without a change leaves its descriptor
as it was, and so do all of them when there is no change at all. The dependencies are more by the
additions among the changes, the resources fewer by the numbers in the removals. -/
theorem RuleStore.changes_of_amend (s : RuleStore) (d : Descriptor) :
    let rs : RuleSet := s.rulesOf d.identity ++ s.rulesOf ModuleId.wildcard
    let changes := (s.amend d).2
    changes = (List.range rs.length).filterMap (rs.changeAt d) ∧
      (rs.after d 0 = d ∧ rs.after d rs.length = (s.amend d).1) ∧
      (∀ n r, rs[n]? = some r →
        rs.after d (n + 1) = (r.apply (rs.after d n)).1 ∧
          (rs.changeAt d n = none → rs.after d (n + 1) = rs.after d n) ∧
          (∀ c, rs.changeAt d n = some c → c.rule = r.keyword.name) ∧
          (r.newcomer?.isSome = true → (rs.changeAt d n).isSome = true)) ∧
      (changes = [] → (s.amend d).1 = d) ∧
      (s.amend d).1.dependencies.length =
        d.dependencies.length + changes.countP (·.isAddition) ∧
      (s.amend d).1.resources.length + (changes.map (·.removed)).sum = d.resources.length := by
  intro rs changes
  have hamend : s.amend d = RuleSet.apply rs d := amend_of_rules d rfl
  have hchanges : changes = (RuleSet.apply rs d).2 := congrArg Prod.snd hamend
  rw [hchanges, hamend]
  refine ⟨rs.changes_apply d, ⟨rfl, rs.after_length d⟩, fun n r hr => ?_,
    RuleSet.apply_of_changes_eq_nil, rs.length_dependencies_apply d, rs.length_resources_apply d⟩
  have hat : rs.changeAt d n = (r.apply (rs.after d n)).2 := by rw [RuleSet.changeAt, hr]; rfl
  rw [hat, RuleSet.after_succ d hr]
  exact ⟨rfl, Rule.apply_of_change_eq_none, fun c hc => by rw [Rule.change_eq_some hc],
    Rule.isSome_change_of_newcomer _⟩

/-- The second rule finds no dependency and tells of nothing. -/
example :
    let foo : ModuleId := ⟨"foo", "main"⟩
    let s := ((RuleStore.empty.push foo (.add ⟨"b", none⟩)).push foo
      (.makeOptional ⟨"c", "main"⟩)).push ModuleId.wildcard (.remove ⟨"g:*"⟩)
    let d : Descriptor := ⟨⟨"foo", none⟩,
      [.artifact ⟨"g", "a", none, none, false⟩, .artifact ⟨"g", "b", none, none, false⟩], []⟩
    (s.amend d).2 = [⟨"include", "Add dependency b"⟩,
      ⟨"remove-artifact", "Remove 2 resource(s) matching g:*"⟩] ∧
      (s.amend d).1 = ⟨⟨"foo", none⟩, [], [⟨⟨"b", none⟩, false, false⟩]⟩ := by decide

end ModuleRules
