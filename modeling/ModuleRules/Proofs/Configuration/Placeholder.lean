import ModuleRules.Proofs.Configuration.Stop

/-!
# Which properties a load depends on

A property is asked for at one place only: at a rule under a module whose
version is a placeholder for it. So properties that agree on the names asked
for there load the same (`addEach_of_agree`). Where every source is read to
its end all these names are found, and further ones change nothing.
-/

namespace ModuleRules

open Outline

def Rule.property? : Rule → Option Text
  | force _ version => placeholder? version
  | _ => none

theorem Rule.property?_eq_some_iff {r : Rule} {name : Text} :
    r.property? = some name ↔ ∃ selector, r = .force selector ("$\x7b" ++ name ++ "\x7d") := by
  cases r with
  | force selector version => simp [property?, placeholder?_eq_some_iff]
  | replace | makeOptional | add | addExported | remove => simp [property?]

namespace Outline

/-- The property that the line at position `n` asks for, which it does only under a module. -/
def awaitedAt (lines : List Text) (n : Nat) : Option Text :=
  (moduleAt lines n).bind fun id => (ruleAt lines id n).bind Rule.property?

def awaited (lines : List Text) : List Text :=
  (List.range lines.length).filterMap (awaitedAt lines)

theorem mem_awaited_iff {lines : List Text} {name : Text} :
    name ∈ awaited lines ↔ ∃ n line selector id, lines[n]? = some line ∧
      directive line = .ok (.rule (.force selector ("$\x7b" ++ name ++ "\x7d"))) ∧
        moduleAt lines n = some id := by
  simp only [awaited, List.mem_filterMap, List.mem_range, awaitedAt, Option.bind_eq_some_iff,
    ruleAt_eq_some_iff, Rule.property?_eq_some_iff]
  constructor
  · rintro ⟨n, -, id, hmodule, _, ⟨line, hline, hd, -⟩, selector, rfl⟩
    exact ⟨n, line, selector, id, hline, hd, hmodule⟩
  · rintro ⟨n, line, selector, id, hline, hd, hmodule⟩
    exact ⟨n, (List.getElem?_eq_some_iff.1 hline).1, id, hmodule, _, ⟨line, hline, hd, hmodule⟩,
      selector, rfl⟩

end Outline

/-! ## One rule and one line -/

variable {P Q : Properties} {source : Text}

theorem Rule.resolve_congr {r : Rule} (h : ∀ name, r.property? = some name → P name = Q name) :
    r.resolve P = r.resolve Q := by
  cases r with
  | force selector version =>
    cases hname : placeholder? version with
    | none => simp only [resolve, hname]
    | some name => simp only [resolve, hname, h name hname]
  | replace | makeOptional | add | addExported | remove => rfl

namespace Reading

/-- Only a rule under a module asks for a property. -/
theorem feed_congr {n : Nat} {raw : Text} {s : Reading} (h : ∀ r id,
    directive raw = .ok (.rule r) → s.scope = .within id → r.resolve P = r.resolve Q) :
    s.feed P source n raw = s.feed Q source n raw := by
  by_cases hrule : ∃ r, directive raw = .ok (.rule r)
  · obtain ⟨r, hd⟩ := hrule
    rw [s.feed_of_rule hd, s.feed_of_rule hd]
    cases hs : s.scope with
    | outside => rfl
    | detached => rfl
    | within id => simp only [h r id hd hs]
  · obtain ⟨s', hs'⟩ : ∃ s', s.feed P source n raw = .ok s' :=
      s.exists_feed_of_no_rule (not_exists.1 hrule)
    have hstep : Step Q source n raw s s' := by
      cases Step.of_feed hs' with
      | blank hb => exact .blank hb
      | skipped hb hd hh => exact .skipped hb hd hh
      | lost hd => exact .lost hd
      | turned hd => exact .turned hd
      | idle hd => exact absurd ⟨_, hd⟩ hrule
      | added hd => exact absurd ⟨_, hd⟩ hrule
    rw [hs', hstep.feed]

theorem feedAll_congr {start : RuleStore} : ∀ (lines : List Text) {n : Nat} {done : List Text}
    {s : Reading}, Grouped P start done s → (∀ name ∈ awaited (done ++ lines), P name = Q name) →
      feedAll P source n (lines.map .ok) s = feedAll Q source n (lines.map .ok) s
  | [], n, done, s, hs, h => rfl
  | line :: lines, n, done, s, hs, h => by
    have hfeed : s.feed P source n line = s.feed Q source n line := by
      refine feed_congr fun r id hd hscope => Rule.resolve_congr fun name hname => ?_
      obtain ⟨selector, rfl⟩ := Rule.property?_eq_some_iff.1 hname
      refine h name (mem_awaited_iff.2 ⟨done.length, line, selector, id, by simp, hd, ?_⟩)
      rw [moduleAt_append _ (Nat.le_refl _), moduleAt_length, ← hs.scope, hscope]
    rw [List.map_cons, feedAll, feedAll, ← hfeed]
    cases hnext : s.feed P source n line with
    | error e => rfl
    | ok s' =>
      refine feedAll_congr lines (hs.step (Step.of_feed hnext)) ?_
      rwa [List.append_assoc]

end Reading

/-! ## Many sources -/

namespace Loaded

theorem addText_congr {text : Text} {l : Loaded}
    (h : ∀ name ∈ awaited (Text.lines text), P name = Q name) :
    l.addText P source text = l.addText Q source text := by
  have hread : Reading.feedAll P source 1 ((Text.lines text).map .ok) { store := l.store } =
      Reading.feedAll Q source 1 ((Text.lines text).map .ok) { store := l.store } :=
    Reading.feedAll_congr _ Reading.Grouped.nil h
  rw [addText, addText, addLines, addLines, hread]

/-- Reads texts in order, each on top of what the ones before it left, also where they stopped
early. Tells of each how it ended. -/
def addEach (properties : Properties) :
    List (Text × Text) → Loaded → Loaded × List (Option LoadError)
  | [], l => (l, [])
  | (source, text) :: rest, l =>
    let (l₁, e) := l.addText properties source text
    let (l₂, es) := addEach properties rest l₁
    (l₂, e :: es)

theorem addEach_cons (properties : Properties) (source text : Text) (rest : List (Text × Text))
    (l : Loaded) : addEach properties ((source, text) :: rest) l =
      ((addEach properties rest (l.addText properties source text).1).1,
        (l.addText properties source text).2 ::
          (addEach properties rest (l.addText properties source text).1).2) := rfl

theorem addEach_congr : ∀ {sources : List (Text × Text)} {l : Loaded},
    (∀ name ∈ sources.flatMap fun s => awaited (Text.lines s.2), P name = Q name) →
      addEach P sources l = addEach Q sources l
  | [], l, h => rfl
  | (source, text) :: rest, l, h => by
    obtain ⟨htext, hrest⟩ := List.forall_mem_append.1 h
    have hfirst : l.addText P source text = l.addText Q source text := addText_congr htext
    rw [addEach_cons, addEach_cons, ← hfirst, addEach_congr hrest]

/-- Where a source is read to its end, it finds all properties it asks for. -/
theorem ne_none_of_addText {text name : Text} {l : Loaded} (h : (l.addText P source text).2 = none)
    (hname : name ∈ awaited (Text.lines text)) : P name ≠ none := by
  intro hnone
  obtain ⟨s, hread, -⟩ := feedAll_of_addLines (Prod.ext rfl h)
  obtain ⟨n, line, selector, id, hline, hd, hmodule⟩ := mem_awaited_iff.1 hname
  exact Reading.not_stops_of_feedAll hread n _ (.missing hline hd hmodule hnone)

theorem ne_none_of_addEach : ∀ {sources : List (Text × Text)} {l : Loaded},
    (∀ e ∈ (addEach P sources l).2, e = none) →
      ∀ name ∈ sources.flatMap fun s => awaited (Text.lines s.2), P name ≠ none
  | [], l, h, name, hname => by cases hname
  | (source, text) :: rest, l, h, name, hname => by
    rw [addEach_cons] at h
    obtain ⟨htext, hrest⟩ := List.forall_mem_cons.1 h
    rcases List.mem_append.1 hname with hname | hname
    · exact ne_none_of_addText htext hname
    · exact ne_none_of_addEach hrest name hname

/-- **A load depends on the properties that its placeholders ask for.** Where two agree on these,
the same is loaded with either, and each source ends in the same way, be it with an error. Once
every source is read to its end, further properties change nothing. -/
theorem addEach_of_agree (P Q : Properties) (sources : List (Text × Text)) (l : Loaded) :
    ((∀ name ∈ sources.flatMap fun s => awaited (Text.lines s.2), P name = Q name) →
      addEach Q sources l = addEach P sources l) ∧
    ((∀ name value, P name = some value → Q name = some value) →
      (∀ e ∈ (addEach P sources l).2, e = none) → addEach Q sources l = addEach P sources l) := by
  refine ⟨fun h => (addEach_congr h).symm, fun hmore hall => (addEach_congr ?_).symm⟩
  intro name hname
  obtain ⟨value, hvalue⟩ := Option.ne_none_iff_exists'.1 (ne_none_of_addEach hall name hname)
  rw [hvalue, hmore name value hvalue]

theorem addEach_of_agree_stopped :
    let P : Properties := fun name => if name = "v".toList then some "2" else none
    let Q : Properties := fun name => if name = "w".toList then some "3" else P name
    let early : Text × Text := ("a", "force-artifact-version:g:a=$\x7bw\x7d")
    let missing : Text × Text := ("b", "module:foo\nforce-artifact-version:g:a=$\x7bu\x7d")
    let whole : Text × Text := ("c", "module:foo\nforce-artifact-version:g:a=$\x7bv\x7d\n" ++
      "module:\nforce-artifact-version:g:a=$\x7bw\x7d")
    (addEach P [early, missing, whole] {}).2 =
        [some (.ruleBeforeModule "a" 1 early.2), some (.missingProperty "u" "g:a" "b" 2), none] ∧
      addEach Q [early, missing, whole] {} = addEach P [early, missing, whole] {} ∧
      (addEach P [whole] {}).2 = [none] ∧ addEach Q [whole] {} = addEach P [whole] {} := by
  intro P Q early missing whole
  have hawaited : [early, missing, whole].flatMap (fun s => awaited (Text.lines s.2)) =
      [("u" : Text), ("v" : Text)] := rfl
  have hagree : ∀ name ∈ [("u" : Text), ("v" : Text)], P name = Q name := by
    simp [P, Q]
  have hmore : ∀ name value, P name = some value → Q name = some value := by
    intro name value h
    have hname : name = "v" := by
      by_contra hne
      rw [show P name = none from if_neg hne] at h
      cases h
    rw [hname] at h ⊢
    exact h
  have hwhole : (addEach P [whole] {}).2 = [none] := rfl
  exact ⟨rfl, (addEach_of_agree P Q _ {}).1 (hawaited ▸ hagree), hwhole,
    (addEach_of_agree P Q [whole] {}).2 hmore (by simp [hwhole])⟩

end Loaded

end ModuleRules
