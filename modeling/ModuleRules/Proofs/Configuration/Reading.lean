import ModuleRules.Proofs.Configuration.Outline

/-!
# Reading as steps

`Reading.feed` as a relation with one constructor for each kind of line, and
the readings that the lines of a source lead to: what every step keeps holds
after the last line (`feedAll_induction`), and a reading that stops early has
come as far as the lines before the one that stops it (`feedAll_eq_error_iff`).
-/

namespace ModuleRules

theorem Rule.resolve_eq_ok_iff {properties : Properties} {r r' : Rule} :
    r.resolve properties = .ok r' ↔ r.filled? properties = some r' := by
  cases r with
  | force selector version =>
    simp only [resolve, filled?]
    cases placeholder? version with
    | none => simp
    | some name => cases h : properties name <;> simp [h]
  | _ => simp [resolve, filled?]

namespace Reading

variable {properties : Properties} {source : Text}

/-- `Step properties source n raw s s'`: line `n` is read in `s` and leads to `s'`. -/
inductive Step (properties : Properties) (source : Text) (n : Nat) (raw : Text) (s : Reading) :
    Reading → Prop
  | blank (hb : Text.trim raw = []) : Step properties source n raw s s
  | skipped {problem : Problem} (hb : Text.trim raw ≠ [])
      (hd : Outline.directive raw = .error problem) (hh : Outline.isHeading raw = false) :
      Step properties source n raw s (s.warn ⟨source, n, Text.trim raw, problem⟩)
  | lost {flaw : Flaw} (hd : Outline.directive raw = .error (.malformed .turn flaw)) :
      Step properties source n raw s
        ({ s with scope := .detached }.warn ⟨source, n, Text.trim raw, .malformed .turn flaw⟩)
  | turned {id : ModuleId} (hd : Outline.directive raw = .ok (.turn id)) :
      Step properties source n raw s { s with store := s.store.touch id, scope := .within id }
  | idle {r : Rule} (hd : Outline.directive raw = .ok (.rule r)) (hs : s.scope = .detached) :
      Step properties source n raw s
        (s.warn ⟨source, n, Text.trim raw, .malformed r.keyword .noModule⟩)
  | added {r r' : Rule} {id : ModuleId} (hd : Outline.directive raw = .ok (.rule r))
      (hs : s.scope = .within id) (hr : r.filled? properties = some r') :
      Step properties source n raw s { s with store := s.store.push id r' }

theorem Step.of_feed {n : Nat} {raw : Text} {s s' : Reading}
    (h : s.feed properties source n raw = .ok s') : Step properties source n raw s s' := by
  unfold feed at h
  simp only at h
  split at h
  next hb =>
    cases h
    exact .blank hb
  next hb =>
    split at h
    next flaw hd =>
      cases h
      exact .lost hd
    next problem hne hd =>
      cases h
      refine .skipped hb hd ?_
      have := Outline.isHeading_of_directive.2.2 problem hd
      rw [Bool.eq_false_iff, ne_eq, this]
      rintro ⟨flaw, rfl⟩
      exact hne flaw rfl
    next id hd =>
      cases h
      exact .turned hd
    next r hd =>
      split at h
      next => cases h
      next hs =>
        cases h
        exact .idle hd hs
      next id hs =>
        split at h
        next r' hr =>
          cases h
          exact .added hd hs (Rule.resolve_eq_ok_iff.1 hr)
        next => cases h

/-! ## Lines that stop a reading -/

theorem directive_of_blank {raw : Text} (hb : Text.trim raw = []) :
    Outline.directive raw = .error .unrecognized := by
  rw [Outline.directive, hb]
  rfl

theorem trim_ne_nil_of_ok {raw : Text} {d : Directive} (hd : Outline.directive raw = .ok d) :
    Text.trim raw ≠ [] := by
  intro hb
  rw [directive_of_blank hb] at hd
  cases hd

theorem trim_ne_nil_of_malformed {raw : Text} {k : Keyword} {flaw : Flaw}
    (hd : Outline.directive raw = .error (.malformed k flaw)) : Text.trim raw ≠ [] := by
  intro hb
  rw [directive_of_blank hb] at hd
  cases hd

theorem feed_of_rule {n : Nat} {raw : Text} {r : Rule} (s : Reading)
    (hd : Outline.directive raw = .ok (.rule r)) : s.feed properties source n raw =
      match s.scope with
      | .outside => .error (.ruleBeforeModule source n (Text.trim raw))
      | .detached => .ok (s.warn ⟨source, n, Text.trim raw, .malformed r.keyword .noModule⟩)
      | .within id =>
        match r.resolve properties with
        | .ok r => .ok { s with store := s.store.push id r }
        | .error (property, artifact) => .error (.missingProperty property artifact source n) := by
  have hparse : Directive.parse (Text.trim raw) = .ok (.rule r) := hd
  refine (if_neg (trim_ne_nil_of_ok hd)).trans ?_
  generalize Directive.parse (Text.trim raw) = parsed at hparse
  subst hparse
  cases s.scope <;> rfl

theorem exists_feed_of_no_rule {n : Nat} {raw : Text} (s : Reading)
    (hd : ∀ r, Outline.directive raw ≠ .ok (.rule r)) :
    ∃ s', s.feed properties source n raw = .ok s' := by
  unfold feed
  simp only
  split
  next => exact ⟨_, rfl⟩
  next =>
    split
    next => exact ⟨_, rfl⟩
    next => exact ⟨_, rfl⟩
    next => exact ⟨_, rfl⟩
    next r hr => exact absurd hr (hd r)

/-- Only a rule stops a reading: before any heading, or for want of a property. -/
theorem feed_eq_error_iff {n : Nat} {raw : Text} {s : Reading} {e : LoadError} :
    s.feed properties source n raw = .error e ↔ ∃ r, Outline.directive raw = .ok (.rule r) ∧
      (s.scope = .outside ∧ e = .ruleBeforeModule source n (Text.trim raw) ∨
        ∃ id name artifact, s.scope = .within id ∧
          r.resolve properties = .error (name, artifact) ∧
            e = .missingProperty name artifact source n) := by
  by_cases hd : ∃ r, Outline.directive raw = .ok (.rule r)
  · obtain ⟨r, hr⟩ := hd
    simp only [s.feed_of_rule hr, hr, Except.ok.injEq, Directive.rule.injEq, exists_eq_left']
    cases s.scope with
    | outside => simp [eq_comm]
    | detached => simp
    | within id =>
      rcases r.resolve properties with ⟨name, artifact⟩ | r' <;> simp [and_assoc, eq_comm]
  · obtain ⟨s', hs'⟩ : ∃ s', s.feed properties source n raw = .ok s' :=
      s.exists_feed_of_no_rule (not_exists.1 hd)
    rw [hs']
    exact iff_of_false (by simp) fun ⟨r, hr, _⟩ => hd ⟨r, hr⟩

theorem Step.feed {n : Nat} {raw : Text} {s s' : Reading}
    (h : Step properties source n raw s s') : s.feed properties source n raw = .ok s' := by
  cases h with
  | blank hb => simp only [Reading.feed, if_pos hb]
  | @skipped problem hb hd hh =>
    have hparse : Directive.parse (Text.trim raw) = .error problem := hd
    simp only [Reading.feed, if_neg hb, hparse]
    split
    next flaw hflaw =>
      cases hflaw
      rw [(Outline.isHeading_of_directive.2.2 _ hd).2 ⟨flaw, rfl⟩] at hh
      cases hh
    next problem _ hproblem =>
      cases hproblem
      rfl
    next heq => cases heq
    next heq => cases heq
  | @lost flaw hd =>
    have hparse : Directive.parse (Text.trim raw) = .error (.malformed .turn flaw) := hd
    simp only [Reading.feed, if_neg (trim_ne_nil_of_malformed hd), hparse]
  | @turned id hd =>
    have hparse : Directive.parse (Text.trim raw) = .ok (.turn id) := hd
    simp only [Reading.feed, if_neg (trim_ne_nil_of_ok hd), hparse]
  | idle hd hs =>
    rw [s.feed_of_rule hd, hs]
  | added hd hs hr =>
    rw [s.feed_of_rule hd, hs]
    simp only [Rule.resolve_eq_ok_iff.2 hr]

/-! ## Many lines -/

theorem feedAll_append : ∀ (before after : List (Except FileFault Text)) {n : Nat} {s : Reading},
    feedAll properties source n (before ++ after) s =
      match feedAll properties source n before s with
      | (s', none) => feedAll properties source (n + before.length) after s'
      | (s', some e) => (s', some e)
  | [], after, n, s => rfl
  | .error fault :: before, after, n, s => rfl
  | .ok line :: before, after, n, s => by
    rw [List.cons_append, feedAll, feedAll]
    cases s.feed properties source n line with
    | error e => rfl
    | ok s₁ =>
      simp only
      rw [feedAll_append before after, List.length_cons, Nat.add_assoc, Nat.add_comm 1]

/-- What holds at the start and is kept by every step holds at the end. -/
theorem feedAll_induction {P : List Text → Reading → Prop}
    (hstep : ∀ {done : List Text} {raw : Text} {s s' : Reading}, P done s →
      Step properties source (done.length + 1) raw s s' → P (done ++ [raw]) s') :
    ∀ (lines : List Text) {done : List Text} {s s' : Reading}, P done s →
      feedAll properties source (done.length + 1) (lines.map .ok) s = (s', none) →
        P (done ++ lines) s'
  | [], done, s, s', hs, h => by
    cases h
    rw [List.append_nil]
    exact hs
  | line :: lines, done, s, s', hs, h => by
    rw [List.map_cons, feedAll] at h
    split at h
    next => cases h
    next s₁ hfeed =>
      have hlength : (done ++ [line]).length = done.length + 1 := List.length_append
      have hrest := feedAll_induction hstep lines (hstep hs (Step.of_feed hfeed)) (hlength ▸ h)
      rwa [List.append_assoc] at hrest

/-- What every step keeps holds wherever a reading ends. -/
theorem feedAll_keeps {P : Reading → Prop}
    (hstep : ∀ {n : Nat} {raw : Text} {s s' : Reading}, P s →
      Step properties source n raw s s' → P s') :
    ∀ (lines : List (Except FileFault Text)) {n : Nat} {s : Reading}, P s →
      P (feedAll properties source n lines s).1
  | [], n, s, hs => hs
  | .error fault :: lines, n, s, hs => hs
  | .ok line :: lines, n, s, hs => by
    unfold feedAll
    cases hfeed : s.feed properties source n line with
    | error e => exact hs
    | ok s' => exact feedAll_keeps hstep lines (hstep hs (Step.of_feed hfeed))

theorem exists_feed_of_feedAll_eq_error : ∀ {lines : List Text} {n : Nat} {s s' : Reading}
    {e : LoadError}, feedAll properties source n (lines.map .ok) s = (s', some e) →
      ∃ i raw, lines[i]? = some raw ∧
        feedAll properties source n ((lines.take i).map .ok) s = (s', none) ∧
          s'.feed properties source (n + i) raw = .error e
  | [], n, s, s', e, h => by cases h
  | line :: lines, n, s, s', e, h => by
    rw [List.map_cons, feedAll] at h
    split at h
    next e' hfeed =>
      cases h
      exact ⟨0, line, rfl, rfl, hfeed⟩
    next s₁ hfeed =>
      obtain ⟨i, raw, hraw, hbefore, herror⟩ := exists_feed_of_feedAll_eq_error h
      refine ⟨i + 1, raw, hraw, ?_, by rwa [Nat.add_comm i, ← Nat.add_assoc]⟩
      rw [List.take_succ_cons, List.map_cons, feedAll, hfeed]
      exact hbefore

theorem eq_append_of_getElem? {lines : List Text} {i : Nat} {raw : Text}
    (h : lines[i]? = some raw) :
    (lines.take i).length = i ∧ lines = lines.take i ++ raw :: lines.drop (i + 1) := by
  obtain ⟨hi, rfl⟩ := List.getElem?_eq_some_iff.1 h
  refine ⟨List.length_take_of_le (Nat.le_of_lt hi), ?_⟩
  rw [← List.drop_eq_getElem_cons hi, List.take_append_drop]

/-- A reading stops early at a line when those before it do not stop it and this one does. -/
theorem feedAll_eq_error_iff {lines : List Text} {n : Nat} {s s' : Reading} {e : LoadError} :
    feedAll properties source n (lines.map .ok) s = (s', some e) ↔ ∃ i raw, lines[i]? = some raw ∧
      feedAll properties source n ((lines.take i).map .ok) s = (s', none) ∧
        s'.feed properties source (n + i) raw = .error e := by
  refine ⟨exists_feed_of_feedAll_eq_error, ?_⟩
  rintro ⟨i, raw, hraw, hbefore, herror⟩
  obtain ⟨hlength, hlines⟩ := eq_append_of_getElem? hraw
  rw [hlines, List.map_append, List.map_cons, feedAll_append, hbefore]
  simp only [List.length_map, hlength, feedAll, herror]

/-- Each line of a reading that came to the end was read. -/
theorem exists_feed_of_feedAll {lines : List Text} {n i : Nat} {raw : Text} {s s' : Reading}
    (h : feedAll properties source n (lines.map .ok) s = (s', none)) (hraw : lines[i]? = some raw) :
    ∃ a b, feedAll properties source n ((lines.take i).map .ok) s = (a, none) ∧
      feedAll properties source n ((lines.take (i + 1)).map .ok) s = (b, none) ∧
        a.feed properties source (n + i) raw = .ok b := by
  obtain ⟨hlength, hlines⟩ := eq_append_of_getElem? hraw
  have htake : lines.take (i + 1) = lines.take i ++ [raw] := by
    rw [List.take_add_one, hraw]
    rfl
  rw [hlines, List.map_append, List.map_cons, feedAll_append] at h
  rw [htake, List.map_append, feedAll_append]
  split at h
  next a hbefore =>
    rw [List.length_map, hlength, feedAll] at h
    split at h
    next => cases h
    next b hfeed =>
      refine ⟨a, b, hbefore, ?_, hfeed⟩
      simp only [List.length_map, hlength, List.map_cons, List.map_nil, feedAll, hfeed]
  next => cases h

end Reading

/-! ## One source -/

namespace Loaded

variable {properties : Properties} {source : Text}

/-- Also a source that stops early leaves in the store what it added. -/
theorem store_addLines (lines : List (Except FileFault Text)) (l : Loaded) :
    (l.addLines properties source lines).1.store =
      (Reading.feedAll properties source 1 lines { store := l.store }).1.store := by
  unfold addLines
  rcases Reading.feedAll properties source 1 lines { store := l.store } with ⟨s, _ | e⟩ <;> rfl

theorem addLines_of_feedAll {l : Loaded} {lines : List (Except FileFault Text)} {s : Reading}
    (h : Reading.feedAll properties source 1 lines { store := l.store } = (s, none)) :
    l.addLines properties source lines =
      (⟨s.store, l.sources ++ [source], l.warnings ++ s.warnings⟩, none) := by
  rw [addLines, h]

theorem feedAll_of_addLines {l l' : Loaded} {lines : List (Except FileFault Text)}
    (h : l.addLines properties source lines = (l', none)) : ∃ s : Reading,
      Reading.feedAll properties source 1 lines { store := l.store } = (s, none) ∧
        l' = ⟨s.store, l.sources ++ [source], l.warnings ++ s.warnings⟩ := by
  unfold addLines at h
  split at h
  next s hread =>
    cases h
    exact ⟨s, hread, rfl⟩
  next => cases h

theorem feedAll_of_addLines_error {l l' : Loaded} {lines : List (Except FileFault Text)}
    {e : LoadError} (h : l.addLines properties source lines = (l', some e)) : ∃ s : Reading,
      Reading.feedAll properties source 1 lines { store := l.store } = (s, some e) ∧
        l' = { l with store := s.store } := by
  unfold addLines at h
  split at h
  next => cases h
  next s e' hread =>
    cases h
    exact ⟨s, hread, rfl⟩

end Loaded

end ModuleRules
