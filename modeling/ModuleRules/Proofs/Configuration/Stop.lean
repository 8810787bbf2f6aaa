import ModuleRules.Proofs.Artifact.Coordinate
import ModuleRules.Proofs.Configuration.Meaning
import ModuleRules.Proofs.Text.Line

/-!
# Where a source stops

Two kinds of rule lines stop a source: one before any heading, and one under a
module whose version is a placeholder for a missing property. Both show in the
lines alone. A source stops at the first such line, and what is loaded then is
what the lines before it add to the store; the next source is read as if it
were the first, on top of that (`stop_of_addText`).
-/

namespace ModuleRules

open Outline

theorem Rule.resolve_eq_error_iff {properties : Properties} {r : Rule} {name artifact : Text} :
    r.resolve properties = .error (name, artifact) ↔ ∃ selector : Selector,
      r = .force selector ("$\x7b" ++ name ++ "\x7d") ∧ properties name = none ∧
        artifact = selector.text := by
  cases r with
  | force selector version =>
    simp only [resolve, force.injEq, ← placeholder?_eq_some_iff]
    cases placeholder? version with
    | none => simp
    | some property =>
      by_cases hname : property = name
      · subst hname
        cases h : properties property <;> simp [h, eq_comm]
      · cases h : properties property <;> simp [h, hname]
  | _ => simp [resolve]

theorem Scope.under_lastHeading_eq_outside_iff {lines : List Text} :
    Scope.under (lastHeading lines) = .outside ↔ ∀ line ∈ lines, isHeading line = false := by
  rw [← lastHeading_eq_none_iff]
  cases lastHeading lines with
  | none => simp [under]
  | some heading =>
    simp only [under]
    split <;> simp

/-! ## Lines that stop a source -/

namespace Outline

/-- The line at position `n` stops the source with this error, if no line before it does. -/
inductive Stops (properties : Properties) (source : Text) (lines : List Text) (n : Nat) :
    LoadError → Prop
  /-- A rule before any heading, whatever its version. -/
  | early {line : Text} {r : Rule} (hline : lines[n]? = some line)
      (hd : directive line = .ok (.rule r)) (hh : ∀ line ∈ lines.take n, isHeading line = false) :
      Stops properties source lines n (.ruleBeforeModule source (n + 1) (Text.trim line))
  /-- A rule under a module whose version is a placeholder for a missing property. -/
  | missing {line name : Text} {selector : Selector} {id : ModuleId} (hline : lines[n]? = some line)
      (hd : directive line = .ok (.rule (.force selector ("$\x7b" ++ name ++ "\x7d"))))
      (hmodule : moduleAt lines n = some id) (hname : properties name = none) :
      Stops properties source lines n (.missingProperty name selector.text source (n + 1))

variable {properties : Properties} {source : Text} {lines : List Text} {n : Nat}

theorem Stops.lt_length {e : LoadError} (h : Stops properties source lines n e) :
    n < lines.length := by
  cases h with
  | early hline => exact (List.getElem?_eq_some_iff.1 hline).1
  | missing hline => exact (List.getElem?_eq_some_iff.1 hline).1

/-- Whether a line stops a reading that has come to it shows in the lines. -/
theorem feed_eq_error_iff_stops {line : Text} {s : Reading} {e : LoadError}
    (hs : s.scope = Scope.under (lastHeading (lines.take n))) (hline : lines[n]? = some line) :
    s.feed properties source (n + 1) line = .error e ↔ Stops properties source lines n e := by
  have hn := Nat.le_of_lt (List.getElem?_eq_some_iff.1 hline).1
  rw [Reading.feed_eq_error_iff, hs]
  constructor
  · rintro ⟨r, hd, ⟨hscope, rfl⟩ | ⟨id, name, artifact, hscope, hr, rfl⟩⟩
    · exact .early hline hd (Scope.under_lastHeading_eq_outside_iff.1 hscope)
    · obtain ⟨selector, rfl, hname, rfl⟩ := Rule.resolve_eq_error_iff.1 hr
      exact .missing hline hd ((moduleAt_eq_some_iff hn).2 hscope) hname
  · intro h
    cases h with
    | @early _ r hline' hd hh =>
      cases hline.symm.trans hline'
      exact ⟨r, hd, .inl ⟨Scope.under_lastHeading_eq_outside_iff.2 hh, rfl⟩⟩
    | @missing _ name selector id hline' hd hmodule hname =>
      cases hline.symm.trans hline'
      refine ⟨_, hd, .inr ⟨id, name, selector.text, (moduleAt_eq_some_iff hn).1 hmodule, ?_, rfl⟩⟩
      exact Rule.resolve_eq_error_iff.2 ⟨selector, rfl, hname, rfl⟩

theorem Stops.take {e : LoadError} {k : Nat} (hk : n < k) (h : Stops properties source lines n e) :
    Stops properties source (lines.take k) n e := by
  have hline : (lines.take k)[n]? = lines[n]? := List.getElem?_take_of_lt hk
  have htake : (lines.take k).take n = lines.take n := by
    rw [List.take_take, Nat.min_eq_left (Nat.le_of_lt hk)]
  have hmodule : moduleAt (lines.take k) n = moduleAt lines n := by
    unfold moduleAt
    rw [htake]
  cases h with
  | early hline' hd hh => exact .early (hline.trans hline') hd (htake ▸ hh)
  | missing hline' hd hmodule' hname =>
    exact .missing (hline.trans hline') hd (hmodule.trans hmodule') hname

end Outline

namespace Reading

variable {properties : Properties} {source : Text} {start : RuleStore} {lines : List Text}

/-- No line of a source that is read to its end stops it. -/
theorem not_stops_of_feedAll {s : Reading}
    (h : feedAll properties source 1 (lines.map .ok) { store := start } = (s, none)) (n : Nat)
    (e : LoadError) : ¬ Stops properties source lines n e := by
  intro hstops
  obtain ⟨line, hline⟩ : ∃ line, lines[n]? = some line :=
    ⟨_, List.getElem?_eq_getElem hstops.lt_length⟩
  obtain ⟨a, b, ha, -, hfeed⟩ := exists_feed_of_feedAll h hline
  rw [Nat.add_comm 1 n, (feed_eq_error_iff_stops (Grouped.nil.feedAll _ ha).scope hline).2 hstops]
    at hfeed
  cases hfeed

/-- A source stops at the first line that can stop it. -/
theorem exists_stops_of_feedAll {s : Reading} {e : LoadError}
    (h : feedAll properties source 1 (lines.map .ok) { store := start } = (s, some e)) :
    ∃ n, Stops properties source lines n e ∧ (∀ m < n, ∀ e', ¬ Stops properties source lines m e') ∧
      feedAll properties source 1 ((lines.take n).map .ok) { store := start } = (s, none) := by
  obtain ⟨n, line, hline, hbefore, hfeed⟩ := feedAll_eq_error_iff.1 h
  rw [Nat.add_comm 1 n] at hfeed
  refine ⟨n, (feed_eq_error_iff_stops (Grouped.nil.feedAll _ hbefore).scope hline).1 hfeed, ?_,
    hbefore⟩
  intro m hm e' hstops
  exact not_stops_of_feedAll hbefore m e' (hstops.take hm)

/-! ## From the start -/

/-- The reading `s` stands where `t` stands that started without rules. -/
structure Over (start : RuleStore) (t s : Reading) : Prop where
  scope : s.scope = t.scope
  warnings : s.warnings = t.warnings
  store : RuleStore.IsAppend start t.store s.store

theorem Over.step {n : Nat} {raw : Text} {t t' s : Reading} (h : Over start t s)
    (ht : Step properties source n raw t t') :
    ∃ s', Step properties source n raw s s' ∧ Over start t' s' := by
  cases ht with
  | blank hb => exact ⟨_, .blank hb, h⟩
  | skipped hb hd hh =>
    exact ⟨_, .skipped hb hd hh, h.scope, congrArg (· ++ [_]) h.warnings, h.store⟩
  | lost hd => exact ⟨_, .lost hd, rfl, congrArg (· ++ [_]) h.warnings, h.store⟩
  | turned hd => exact ⟨_, .turned hd, rfl, h.warnings, h.store.touch _⟩
  | idle hd hs =>
    exact ⟨_, .idle hd (h.scope.trans hs), h.scope, congrArg (· ++ [_]) h.warnings, h.store⟩
  | added hd hs hr =>
    exact ⟨_, .added hd (h.scope.trans hs) hr, h.scope, h.warnings, h.store.push _ _⟩

/-- The lines lead both readings to the same error or none. -/
theorem Over.feedAll : ∀ (lines : List (Except FileFault Text)) {n : Nat} {t s : Reading},
    Over start t s →
      (Reading.feedAll properties source n lines s).2 =
          (Reading.feedAll properties source n lines t).2 ∧
        Over start (Reading.feedAll properties source n lines t).1
          (Reading.feedAll properties source n lines s).1
  | [], n, t, s, h => ⟨rfl, h⟩
  | .error fault :: lines, n, t, s, h => ⟨rfl, h⟩
  | .ok line :: lines, n, t, s, h => by
    unfold Reading.feedAll
    cases hfeed : t.feed properties source n line with
    | error e =>
      -- whether a line stops a reading depends on its scope alone
      rw [feed_eq_error_iff, ← h.scope, ← feed_eq_error_iff] at hfeed
      rw [hfeed]
      exact ⟨rfl, h⟩
    | ok t' =>
      obtain ⟨s', hs', h'⟩ := h.step (Step.of_feed hfeed)
      rw [hs'.feed]
      exact Over.feedAll lines h'

end Reading

namespace Loaded

variable {properties : Properties} {source : Text}

/-- What is loaded is what one has loaded and after it what another has. -/
structure IsAppend (l m k : Loaded) : Prop where
  store : RuleStore.IsAppend l.store m.store k.store
  sources : k.sources = l.sources ++ m.sources
  warnings : k.warnings = l.warnings ++ m.warnings

/-- A source is read as if it were the first. -/
theorem addLines_over (properties : Properties) (source : Text)
    (lines : List (Except FileFault Text)) (l : Loaded) :
    (l.addLines properties source lines).2 =
        (({} : Loaded).addLines properties source lines).2 ∧
      IsAppend l (({} : Loaded).addLines properties source lines).1
        (l.addLines properties source lines).1 := by
  have hover : Reading.Over l.store { store := .empty } { store := l.store } :=
    ⟨rfl, rfl, l.store.isAppend_empty⟩
  obtain ⟨herror, h⟩ := @Reading.Over.feedAll properties source l.store lines 1 _ _ hover
  unfold addLines
  rcases hs : Reading.feedAll properties source 1 lines { store := l.store } with ⟨s, e⟩
  rcases ht : Reading.feedAll properties source 1 lines { store := .empty } with ⟨t, e'⟩
  rw [hs, ht] at herror h
  obtain rfl : e = e' := herror
  cases e with
  | none => exact ⟨rfl, h.store, rfl, congrArg (l.warnings ++ ·) h.warnings⟩
  | some e => exact ⟨rfl, h.store, (List.append_nil _).symm, (List.append_nil _).symm⟩

/-- **A source stops at the first line that can stop it.** Nothing else stops it, and the error is
the one for that line. What is loaded then has no source and no warning more, and the store holds
what the lines before that line put there. A further source meets no heading of this one: it ends
as if it were the first, and adds what it adds then. -/
theorem stop_of_addText (properties : Properties) (source text : Text) (l : Loaded) :
    ((l.addText properties source text).2 ≠ none ↔
      ∃ n e, Stops properties source (Text.lines text) n e) ∧
    ∀ l' e, l.addText properties source text = (l', some e) →
      (∃ n before k, Stops properties source (Text.lines text) n e ∧
        (∀ m < n, ∀ e', ¬ Stops properties source (Text.lines text) m e') ∧
        before <+: text ∧ Text.lines before = (Text.lines text).take n ∧
        l.addText properties source before = (k, none) ∧ l' = { l with store := k.store }) ∧
      ∀ source' text',
        (l'.addText properties source' text').2 =
            (({} : Loaded).addText properties source' text').2 ∧
          IsAppend l' (({} : Loaded).addText properties source' text').1
            (l'.addText properties source' text').1 := by
  refine ⟨?_, fun l' e h => ⟨?_, fun source' text' => addLines_over _ _ _ l'⟩⟩
  · constructor
    · intro hsome
      obtain ⟨e, he⟩ := Option.ne_none_iff_exists'.1 hsome
      obtain ⟨s, hread, -⟩ := feedAll_of_addLines_error (Prod.ext rfl he)
      obtain ⟨n, hn, -⟩ := Reading.exists_stops_of_feedAll hread
      exact ⟨n, e, hn⟩
    · rintro ⟨n, e, hn⟩ hnone
      obtain ⟨s, hread, -⟩ := feedAll_of_addLines (Prod.ext rfl hnone)
      exact Reading.not_stops_of_feedAll hread n e hn
  · obtain ⟨s, hread, rfl⟩ := feedAll_of_addLines_error h
    obtain ⟨n, hn, hfirst, hbefore⟩ := Reading.exists_stops_of_feedAll hread
    obtain ⟨before, hstarts, hlines⟩ := Text.exists_lines_eq_take hn.lt_length
    rw [← hlines] at hbefore
    exact ⟨n, before, _, hn, hfirst, hstarts, hlines, addLines_of_feedAll hbefore, rfl⟩

theorem stop_of_addText_missing :
    let properties : Properties := fun _ => none
    let l : Loaded := ⟨RuleStore.empty.push ⟨"foo", "main"⟩ (.makeOptional ⟨"a", "main"⟩), ["a"],
      [⟨"a", 3, "bogus", .unrecognized⟩]⟩
    let text : Text :=
      "bogus\nmodule:foo\noptional:b\nforce-artifact-version:g:a=$\x7bv\x7d\noptional:c\n"
    ∃ l', l.addText properties "b" text = (l', some (.missingProperty "v" "g:a" "b" 4)) ∧
      (∃ n before k, Stops properties "b" (Text.lines text) n (.missingProperty "v" "g:a" "b" 4) ∧
        before <+: text ∧ Text.lines before = (Text.lines text).take n ∧
        l.addText properties "b" before = (k, none) ∧ l' = { l with store := k.store }) ∧
      l'.store.get? ⟨"foo", "main"⟩ =
        some [.makeOptional ⟨"a", "main"⟩, .makeOptional ⟨"b", "main"⟩] ∧
      (l'.addText properties "c" "optional:c\n").2 =
        some (.ruleBeforeModule "c" 1 "optional:c") := by
  intro properties l text
  obtain ⟨l', hadd, hget⟩ :
      ∃ l', l.addText properties "b" text = (l', some (.missingProperty "v" "g:a" "b" 4)) ∧
        l'.store.get? ⟨"foo", "main"⟩ =
          some [.makeOptional ⟨"a", "main"⟩, .makeOptional ⟨"b", "main"⟩] := ⟨_, rfl, rfl⟩
  obtain ⟨⟨n, before, k, hn, -, hrest⟩, hnext⟩ := (stop_of_addText properties "b" text l).2 l' _ hadd
  exact ⟨l', hadd, ⟨n, before, k, hn, hrest⟩, hget, (hnext "c" "optional:c\n").1.trans rfl⟩

end Loaded

end ModuleRules
