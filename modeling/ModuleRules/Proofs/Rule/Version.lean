import ModuleRules.Proofs.Rule.Entries

/-!
# Forced versions

A rule changes nothing of an artifact that a selector looks at. So which rules
are aimed at an artifact is settled before the first of them runs, and of the
versions that they force the last one stays (`artifacts_of_amend`). What a
removal pattern is held against is the text of its moment, with the version
forced so far.
-/

namespace ModuleRules

/-- The packaging of a selector selects nothing. -/
structure Selector.Names (s : Selector) (c : Coordinate) : Prop where
  group : s.group = c.group
  artifact : s.artifact = c.artifact
  classifier : ∀ k ∈ s.classifier, c.classifier = some k

theorem Selector.selects_iff {s : Selector} {c : Coordinate} : s.selects c = true ↔ s.Names c := by
  obtain ⟨group, artifact, packaging, classifier⟩ := s
  unfold selects
  cases classifier with
  | none =>
    simp only [Bool.and_true, Bool.and_eq_true, beq_iff_eq]
    exact ⟨fun h => ⟨h.1, h.2, by simp⟩, fun h => ⟨h.group, h.artifact⟩⟩
  | some k =>
    simp only [Bool.and_eq_true, beq_iff_eq]
    exact ⟨fun h => ⟨h.1.1, h.1.2, by simp [h.2]⟩,
      fun h => ⟨⟨h.group, h.artifact⟩, h.classifier k rfl⟩⟩

instance (s : Selector) (c : Coordinate) : Decidable (s.Names c) :=
  decidable_of_iff _ Selector.selects_iff

namespace Rule

def forced? (c : Coordinate) : Rule → Option Text
  | force s version => if s.Names c then some version else none
  | _ => none

def removes (c : Coordinate) : Rule → Bool
  | remove p => p.covers c.bareText
  | _ => false

end Rule

namespace Coordinate

def lastForced? (c : Coordinate) (rs : List Rule) : Option Text :=
  (rs.filterMap (·.forced? c)).getLast?

def forcedBy (c : Coordinate) (rs : List Rule) : Coordinate :=
  { c with version := (c.lastForced? rs).or c.version }

def isSpared (c : Coordinate) (rs : List Rule) : Bool :=
  (List.range rs.length).all fun n => !rs[n]?.any (·.removes (c.forcedBy (rs.take n)))

end Coordinate

def Resource.artifact? : Resource → Option Coordinate
  | artifact c => some c
  | root _ => none

def Descriptor.artifacts (d : Descriptor) : List Coordinate :=
  d.resources.filterMap Resource.artifact?

/-! ## One artifact -/

namespace Coordinate

theorem forced?_forcedBy (c : Coordinate) (rs : List Rule) (r : Rule) :
    r.forced? (c.forcedBy rs) = r.forced? c := by
  cases r with
  | force s version =>
    have hnames : s.Names (c.forcedBy rs) ↔ s.Names c :=
      ⟨fun h => ⟨h.group, h.artifact, h.classifier⟩, fun h => ⟨h.group, h.artifact, h.classifier⟩⟩
    simp only [Rule.forced?, hnames]
  | replace | makeOptional | add | addExported | remove => rfl

/-- Forcing versions leaves every later rule aimed as it was. -/
theorem lastForced?_forcedBy (c : Coordinate) (rs ts : List Rule) :
    (c.forcedBy rs).lastForced? ts = c.lastForced? ts := by
  unfold lastForced?
  simp only [forced?_forcedBy]

theorem lastForced?_append (c : Coordinate) (rs ts : List Rule) :
    c.lastForced? (rs ++ ts) = (c.lastForced? ts).or (c.lastForced? rs) := by
  simp [lastForced?, List.getLast?_append]

theorem forcedBy_append (c : Coordinate) (rs ts : List Rule) :
    c.forcedBy (rs ++ ts) = (c.forcedBy rs).forcedBy ts := by
  have hversion : (c.lastForced? (rs ++ ts)).or c.version =
      ((c.forcedBy rs).lastForced? ts).or ((c.lastForced? rs).or c.version) := by
    rw [lastForced?_append, lastForced?_forcedBy, Option.or_assoc]
  rw [forcedBy, hversion]
  rfl

theorem forcedBy_cons (c : Coordinate) (r : Rule) (rs : List Rule) :
    c.forcedBy (r :: rs) = (c.forcedBy [r]).forcedBy rs :=
  c.forcedBy_append [r] rs

theorem isSpared_cons (c : Coordinate) (r : Rule) (rs : List Rule) :
    c.isSpared (r :: rs) = (!r.removes c && (c.forcedBy [r]).isSpared rs) := by
  have hlater (n : Nat) : (r :: rs)[n + 1]?.any (·.removes (c.forcedBy ((r :: rs).take (n + 1)))) =
      rs[n]?.any (·.removes ((c.forcedBy [r]).forcedBy (rs.take n))) := by
    rw [List.getElem?_cons_succ, List.take_succ_cons, forcedBy_cons]
  simp only [isSpared, List.length_cons, List.range_succ_eq_map, List.all_cons, List.all_map,
    Function.comp_def, hlater]
  rfl

end Coordinate

namespace Resource

theorem under_artifact (c : Coordinate) (r : Rule) :
    (artifact c).under r = if r.removes c then none else some (artifact (c.forcedBy [r])) := by
  cases r with
  | remove p => rfl
  | force s version =>
    by_cases h : s.Names c
    · simp [under, Rule.removes, Selector.selects_iff, Coordinate.forcedBy, Coordinate.lastForced?,
        Rule.forced?, h]
    · simp [under, Rule.removes, Selector.selects_iff, Coordinate.forcedBy, Coordinate.lastForced?,
        Rule.forced?, h]
  | replace | makeOptional | add | addExported => rfl

theorem through_artifact (rs : List Rule) (c : Coordinate) :
    (artifact c).through rs = if c.isSpared rs then some (artifact (c.forcedBy rs)) else none := by
  induction rs generalizing c with
  | nil => rfl
  | cons r rs ih =>
    rw [through_cons, under_artifact, Coordinate.isSpared_cons]
    by_cases h : r.removes c
    · simp [h]
    · simp [h, ih, c.forcedBy_cons r rs]

theorem artifact?_through (x : Resource) (rs : List Rule) :
    (x.through rs).bind artifact? =
      x.artifact?.bind fun c => if c.isSpared rs then some (c.forcedBy rs) else none := by
  cases x with
  | artifact c =>
    rw [through_artifact]
    by_cases h : c.isSpared rs <;> simp [h, artifact?]
  | root path =>
    cases h : (root path).through rs with
    | none => rfl
    | some y =>
      rcases through_eq_some h with rfl | ⟨c, _, hc, -⟩
      · rfl
      · cases hc

end Resource

/-! ## The rules of a store -/

theorem Descriptor.artifacts_apply (rs : RuleSet) (d : Descriptor) :
    (RuleSet.apply rs d).1.artifacts = (d.artifacts.filter (·.isSpared rs)).map (·.forcedBy rs) := by
  unfold artifacts
  rw [resources_apply, List.filterMap_filterMap, ← List.filterMap_eq_map', List.filterMap_filter,
    List.filterMap_filterMap]
  exact List.filterMap_congr fun x _ => x.artifact?_through rs

/-- **Of the versions that are forced on an artifact the last one stays.** The rules are those of
the descriptor's module and then those of `ALL:ALL`. -/
theorem RuleStore.artifacts_of_amend (s : RuleStore) (d : Descriptor) :
    let own := s.rulesOf d.identity
    let all := s.rulesOf ModuleId.wildcard
    (s.amend d).1.artifacts =
        (d.artifacts.filter (·.isSpared (own ++ all))).map (fun c =>
          { c with version := (c.lastForced? (own ++ all)).or c.version }) ∧
      ∀ c : Coordinate,
        c.lastForced? (own ++ all) = (c.lastForced? all).or (c.lastForced? own) ∧
          c.lastForced? ((own ++ all).filter (·.keyword ≠ .remove)) = c.lastForced? (own ++ all) := by
  intro own all
  refine ⟨?_, fun c => ⟨c.lastForced?_append own all, ?_⟩⟩
  · rw [amend_of_rules d rfl]
    exact Descriptor.artifacts_apply _ d
  · unfold Coordinate.lastForced?
    rw [List.filterMap_filter]
    congr 1
    apply List.filterMap_congr
    intro r _
    cases r <;> rfl

/-- A removal between two forced versions sees the first of them, and the second one stays. -/
example :
    let s := (((RuleStore.empty.push ⟨"foo", "main"⟩ (.force ⟨"g", "a", none, none⟩ "1")).push
      ⟨"foo", "main"⟩ (.remove ⟨"g:a:0"⟩)).push
      ModuleId.wildcard (.force ⟨"g", "a", some "war", none⟩ "2"))
    (s.amend ⟨⟨"foo", none⟩, [.artifact ⟨"g", "a", some "0", some "c", true⟩], []⟩).1.artifacts =
      [⟨"g", "a", some "2", some "c", true⟩] := by decide

end ModuleRules
