import ModuleRules.Proofs.Configuration.Reading
import ModuleRules.Proofs.Rule.Store

/-!
# What configurations mean

Reading one source after another gives each module the rules that the outlines
of the sources declare for it, in order (`rules_of_addTexts`). The invariant
ties the scope of a reading to the last heading that was read.
-/

namespace ModuleRules

open Outline

def Scope.under : Option Text → Scope
  | none => outside
  | some heading =>
    match directive heading with
    | .ok (.turn id) => within id
    | _ => detached

theorem moduleAt_length {lines : List Text} {id : ModuleId} :
    moduleAt lines lines.length = some id ↔ Scope.under (lastHeading lines) = .within id := by
  unfold moduleAt
  rw [List.take_length]
  cases lastHeading lines with
  | none => simp [Scope.under]
  | some heading =>
    simp only [Scope.under, Option.map_some]
    split <;> simp_all

theorem moduleAt_eq_some_iff {lines : List Text} {n : Nat} (hn : n ≤ lines.length) {id : ModuleId} :
    moduleAt lines n = some id ↔ Scope.under (lastHeading (lines.take n)) = .within id := by
  have hlength : (lines.take n).length = n := List.length_take_of_le hn
  have hmodule := moduleAt_append (lines.drop n) (Nat.le_of_eq hlength.symm)
  rw [List.take_append_drop] at hmodule
  rw [hmodule, ← moduleAt_length, hlength]

theorem turns_of_under {lines : List Text} {id : ModuleId}
    (h : Scope.under (lastHeading lines) = .within id) : Turns lines id := by
  cases hl : lastHeading lines with
  | none => simp [hl, Scope.under] at h
  | some heading =>
    have hmem : heading ∈ lines := (List.mem_filter.1 (List.mem_of_getLast? hl)).1
    refine ⟨heading, hmem, ?_⟩
    simp only [hl, Scope.under] at h
    split at h
    next i hd =>
      cases h
      exact hd
    next => cases h

namespace Reading

variable {properties : Properties} {source : Text} {start : RuleStore}

/-- Where reading stands after the lines `done`, when it started with the store `start`. -/
structure Grouped (properties : Properties) (start : RuleStore) (done : List Text) (s : Reading) :
    Prop where
  scope : s.scope = Scope.under (lastHeading done)
  entry : ∀ id, (s.store.get? id).isSome = true ↔ (start.get? id).isSome = true ∨ Turns done id
  rules : ∀ id, (s.store.rulesOf id).map some =
    (start.rulesOf id).map some ++ (rules done id).map (Rule.filled? properties)

theorem Grouped.nil : Grouped properties start [] { store := start } where
  scope := rfl
  entry id := by simp [Turns]
  rules id := by simp [Outline.rules]

/-- A line that leaves the store alone and declares no rule in effect. -/
theorem Grouped.snoc_of_store_eq {done : List Text} {raw : Text} {s s' : Reading}
    (hs : Grouped properties start done s) (hstore : s'.store = s.store)
    (hscope : s'.scope = Scope.under (lastHeading (done ++ [raw])))
    (hturn : ∀ id, directive raw ≠ .ok (.turn id))
    (hrule : ∀ r, directive raw = .ok (.rule r) → ∀ id, s.scope ≠ .within id) :
    Grouped properties start (done ++ [raw]) s' where
  scope := hscope
  entry id := by
    rw [hstore, hs.entry, turns_snoc]
    simp [hturn]
  rules id := by
    rw [hstore, hs.rules, rules_snoc_of_none]
    intro r hd h
    exact hrule r hd id (hs.scope.trans (moduleAt_length.1 h))

theorem Grouped.step {n : Nat} {done : List Text} {raw : Text} {s s' : Reading}
    (hs : Grouped properties start done s) (h : Step properties source n raw s s') :
    Grouped properties start (done ++ [raw]) s' := by
  have hlast := lastHeading_snoc done raw
  cases h with
  | blank hb =>
    have hd : directive raw = .error .unrecognized := by rw [directive, hb]; rfl
    have hh : isHeading raw = false := by rw [isHeading, hb]; rfl
    rw [hh] at hlast
    exact hs.snoc_of_store_eq rfl (hlast ▸ hs.scope) (by simp [hd]) (by simp [hd])
  | skipped hb hd hh =>
    rw [hh] at hlast
    exact hs.snoc_of_store_eq rfl (hlast ▸ hs.scope) (by simp [hd]) (by simp [hd])
  | lost hd =>
    have hh := (isHeading_of_directive.2.2 _ hd).2 ⟨_, rfl⟩
    rw [if_pos hh] at hlast
    refine hs.snoc_of_store_eq rfl ?_ (by simp [hd]) (by simp [hd])
    rw [hlast]
    simp [Scope.under, hd, warn]
  | idle hd hscope =>
    have hh := isHeading_of_directive.2.1 _ hd
    rw [hh] at hlast
    exact hs.snoc_of_store_eq rfl (hlast ▸ hs.scope) (by simp [hd]) (by simp [hscope])
  | @turned id hd =>
    have hh := isHeading_of_directive.1 _ hd
    rw [if_pos hh] at hlast
    constructor
    · rw [hlast]
      simp [Scope.under, hd]
    · intro i
      have heq : directive raw = .ok (.turn i) ↔ i = id := by
        rw [hd]
        constructor
        · intro h
          cases h
          rfl
        · rintro rfl
          rfl
      rw [RuleStore.isSome_get?_touch, hs.entry, turns_snoc, heq, or_assoc]
    · intro i
      rw [RuleStore.rulesOf_touch, hs.rules, rules_snoc_of_none]
      simp [hd]
  | @added r r' id hd hscope hr =>
    have hh := isHeading_of_directive.2.1 _ hd
    rw [hh] at hlast
    have hunder : Scope.under (lastHeading done) = .within id := hs.scope ▸ hscope
    have hmodule := moduleAt_length.2 hunder
    constructor
    · exact hlast ▸ hs.scope
    · intro i
      have hno : directive raw ≠ .ok (.turn i) := by simp [hd]
      rw [RuleStore.isSome_get?_push, hs.entry, turns_snoc, or_iff_left hno]
      -- the module already has a set, since the heading in effect turned to it
      refine or_iff_left_of_imp ?_
      rintro rfl
      exact .inr (turns_of_under hunder)
    · intro i
      rw [RuleStore.rulesOf_push]
      by_cases hi : i = id
      · subst hi
        rw [if_pos rfl, rules_snoc_of_rule hd hmodule, List.map_append, hs.rules]
        simp [hr]
      · rw [if_neg hi, hs.rules, rules_snoc_of_none]
        intro _ _ h
        exact hi (Option.some.inj (h.symm.trans hmodule))

theorem Grouped.feedAll : ∀ (lines : List Text) {n : Nat} {done : List Text} {s s' : Reading},
    Grouped properties start done s →
      Reading.feedAll properties source n (lines.map .ok) s = (s', none) →
        Grouped properties start (done ++ lines) s'
  | [], n, done, s, s', hs, h => by
    cases h
    rw [List.append_nil]
    exact hs
  | line :: lines, n, done, s, s', hs, h => by
    rw [List.map_cons, Reading.feedAll] at h
    split at h
    next => cases h
    next s₁ hfeed =>
      have := Grouped.feedAll lines (hs.step (Step.of_feed hfeed)) h
      rwa [List.append_assoc] at this

end Reading

namespace Loaded

variable {properties : Properties}

/-- Reads texts in order, up to the first that stops early. -/
def addTexts (properties : Properties) : List (Text × Text) → Loaded → Except LoadError Loaded
  | [], l => .ok l
  | (source, text) :: rest, l =>
    match l.addText properties source text with
    | (l, none) => addTexts properties rest l
    | (_, some e) => .error e

theorem grouped_of_addText {source text : Text} {l l' : Loaded}
    (h : l.addText properties source text = (l', none)) :
    ∃ s, Reading.Grouped properties l.store (Text.lines text) s ∧ l'.store = s.store := by
  unfold addText addLines at h
  split at h
  next s hread =>
    cases h
    exact ⟨s, Reading.Grouped.nil.feedAll _ hread, rfl⟩
  next => cases h

/-- Each source adds its own rules to those that are there. -/
theorem store_of_addTexts_from : ∀ (sources : List (Text × Text)) {l l' : Loaded},
    addTexts properties sources l = .ok l' → ∀ id,
      ((l'.store.get? id).isSome = true ↔
        (l.store.get? id).isSome = true ∨ ∃ s ∈ sources, Turns (Text.lines s.2) id) ∧
      (l'.store.rulesOf id).map some = (l.store.rulesOf id).map some ++
        (sources.flatMap fun s => rules (Text.lines s.2) id).map (Rule.filled? properties)
  | [], l, l', h, id => by
    cases h
    simp
  | (source, text) :: rest, l, l', h, id => by
    unfold addTexts at h
    split at h
    next l₁ hadd =>
      obtain ⟨s, hs, hstore⟩ := grouped_of_addText hadd
      obtain ⟨hentry, hrules⟩ := store_of_addTexts_from rest h id
      rw [hstore] at hentry hrules
      constructor
      · rw [hentry, hs.entry, or_assoc]
        simp
      · rw [hrules, hs.rules, List.flatMap_cons, List.map_append, List.append_assoc]
    next => cases h

/-- **Loading groups rules by heading.** A module has a set when some line turns to it, and the
set holds the rules that the sources declare for it, in order and with their versions filled in. -/
theorem rules_of_addTexts (properties : Properties) (sources : List (Text × Text)) (l : Loaded)
    (h : addTexts properties sources {} = .ok l) (id : ModuleId) :
    ((l.store.get? id).isSome = true ↔ ∃ s ∈ sources, Turns (Text.lines s.2) id) ∧
      ∀ set, l.store.get? id = some set →
        set.map some =
          (sources.flatMap fun s => rules (Text.lines s.2) id).map (Rule.filled? properties) := by
  obtain ⟨hentry, hrules⟩ := store_of_addTexts_from sources h id
  constructor
  · rw [hentry]
    exact or_iff_right (by simp [RuleStore.get?_empty])
  · intro set hset
    simpa [RuleStore.rulesOf, hset, RuleStore.get?_empty] using hrules

theorem rules_of_addTexts_reentered :
    let properties : Properties := fun name => if name = "v".toList then some "2" else none
    let sources : List (Text × Text) :=
      [("a", "module:foo\noptional:a\nbogus\nmodule:\noptional:b\n"),
        ("b", "module:foo\nforce-artifact-version:g:a=$\x7bv\x7d\n")]
    ∃ l, addTexts properties sources {} = .ok l ∧
      l.store.get? ⟨"foo", "main"⟩ =
        some [.makeOptional ⟨"a", "main"⟩, .force ⟨"g", "a", none, none⟩ "2"] ∧
      ∀ set, l.store.get? ⟨"foo", "main"⟩ = some set →
        set.map some =
          (sources.flatMap fun s => rules (Text.lines s.2) ⟨"foo", "main"⟩).map
            (Rule.filled? properties) := by
  intro properties sources
  obtain ⟨l, hl, hget⟩ : ∃ l, addTexts properties sources {} = .ok l ∧
      l.store.get? ⟨"foo", "main"⟩ =
        some [.makeOptional ⟨"a", "main"⟩, .force ⟨"g", "a", none, none⟩ "2"] := ⟨_, rfl, rfl⟩
  exact ⟨l, hl, hget, (rules_of_addTexts properties sources l hl ⟨"foo", "main"⟩).2⟩

end Loaded

end ModuleRules
