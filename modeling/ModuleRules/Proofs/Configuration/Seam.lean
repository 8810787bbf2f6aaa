import ModuleRules.Proofs.Configuration.Reading
import ModuleRules.Proofs.Text.Line

/-!
# Two sources as one

The lines of two texts with a line feed between them are, apart from a blank
line at the seam, the lines of the first and then those of the second. The
second is then read in the scope that the first leaves, and not outside; but a
line that is read outside is no rule, so up to the first heading the scope does
not show (`addText_joined`).
-/

namespace ModuleRules

/-- The warning when its line is found in another source, and with `k` lines more before it. -/
def Warning.moved (source : Text) (k : Nat) (w : Warning) : Warning :=
  { w with source, line := w.line + k }

namespace Reading

variable {properties : Properties} {other source : Text} {k : Nat} {before : List Warning}

theorem feed_trim (n : Nat) (raw : Text) (s : Reading) :
    s.feed properties source n (Text.trim raw) = s.feed properties source n raw := by
  rw [feed, feed, Text.trim_trim]

theorem feedAll_map_trim : ∀ (lines : List Text) {n : Nat} {s : Reading},
    feedAll properties source n ((lines.map Text.trim).map .ok) s =
      feedAll properties source n (lines.map .ok) s
  | [], _, _ => rfl
  | line :: lines, n, s => by
    rw [List.map_cons, List.map_cons, List.map_cons, feedAll, feedAll, feed_trim]
    cases s.feed properties source n line with
    | error e => rfl
    | ok s' => exact feedAll_map_trim lines

/-- The reading `s` stands where `t` stands, which read a source of its own, or before its first
heading in any scope. It has read `k` lines more and given the warnings `before`. -/
structure Resumes (source : Text) (k : Nat) (before : List Warning) (t s : Reading) : Prop where
  scope : t.scope = .outside ∨ s.scope = t.scope
  store : s.store = t.store
  warnings : s.warnings = before ++ t.warnings.map (·.moved source k)

theorem Resumes.warn {t s : Reading} (h : Resumes source k before t s) (n : Nat) (content : Text)
    (problem : Problem) : Resumes source k before (t.warn ⟨other, n, content, problem⟩)
      (s.warn ⟨source, n + k, content, problem⟩) where
  scope := h.scope
  store := h.store
  warnings := by
    have hs : (s.warn ⟨source, n + k, content, problem⟩).warnings =
      s.warnings ++ [⟨source, n + k, content, problem⟩] := rfl
    rw [hs, h.warnings, Reading.warn, List.map_append, ← List.append_assoc]
    rfl

theorem Resumes.step {n : Nat} {raw : Text} {t t' s : Reading} (h : Resumes source k before t s)
    (ht : Step properties other n raw t t') :
    ∃ s', Step properties source (n + k) raw s s' ∧ Resumes source k before t' s' := by
  cases ht with
  | blank hb => exact ⟨_, .blank hb, h⟩
  | skipped hb hd hh => exact ⟨_, .skipped hb hd hh, h.warn _ _ _⟩
  | lost hd =>
    have hdetached : Resumes source k before { t with scope := .detached }
        { s with scope := .detached } := ⟨.inr rfl, h.store, h.warnings⟩
    exact ⟨_, .lost hd, hdetached.warn _ _ _⟩
  | turned hd =>
    refine ⟨_, .turned hd, .inr rfl, ?_, h.warnings⟩
    rw [h.store]
  | idle hd hs =>
    -- a rule is not read outside, so here the scopes are the same
    have hscope := h.scope.resolve_left (by simp [hs])
    exact ⟨_, .idle hd (hscope.trans hs), h.warn _ _ _⟩
  | added hd hs hr =>
    have hscope := h.scope.resolve_left (by simp [hs])
    refine ⟨_, .added hd (hscope.trans hs) hr, h.scope, ?_, h.warnings⟩
    rw [h.store]

theorem Resumes.feedAll : ∀ (lines : List Text) {n : Nat} {t t' s : Reading},
    Resumes source k before t s →
      Reading.feedAll properties other n (lines.map .ok) t = (t', none) →
        ∃ s', Reading.feedAll properties source (n + k) (lines.map .ok) s = (s', none) ∧
          Resumes source k before t' s'
  | [], n, t, t', s, h, ht => by
    cases ht
    exact ⟨s, rfl, h⟩
  | line :: lines, n, t, t', s, h, ht => by
    rw [List.map_cons, Reading.feedAll] at ht
    split at ht
    next => cases ht
    next t₁ hfeed =>
      obtain ⟨s₁, hs₁, h₁⟩ := h.step (Step.of_feed hfeed)
      obtain ⟨s', hs', h'⟩ := Resumes.feedAll lines h₁ ht
      refine ⟨s', ?_, h'⟩
      rw [List.map_cons, Reading.feedAll, hs₁.feed]
      rwa [Nat.add_right_comm] at hs'

/-- A line feed at the end of a text is not noticed. -/
theorem feedAll_concat_feed {text : Text} {n : Nat} {s s' : Reading}
    (h : feedAll properties source n ((Text.lines text).map .ok) s = (s', none)) :
    feedAll properties source n ((Text.lines (text ++ ['\n'])).map .ok) s = (s', none) := by
  obtain ⟨blank, hblank, hlines⟩ := Text.trim_lines_concat_feed text
  rw [← feedAll_map_trim, hlines, List.map_append, feedAll_append, feedAll_map_trim, h]
  rcases hblank with rfl | rfl <;> rfl

end Reading

namespace Loaded

variable {properties : Properties}

/-- **Two sources may be joined.** When both are read to their ends one after the other, so is the
one text of both with a line feed between them. It leaves the same store and gives the same
warnings, those about the second part with the lines of the first part counted before it. -/
theorem addText_joined (a b c : Text) {first second : Text} {l m k : Loaded}
    (hfirst : l.addText properties a first = (m, none))
    (hsecond : m.addText properties b second = (k, none)) :
    ∃ new new' : List Warning, m.warnings = l.warnings ++ new ∧ k.warnings = m.warnings ++ new' ∧
      l.addText properties c (first ++ '\n' :: second) =
        (⟨k.store, l.sources ++ [c], l.warnings ++ (new.map (·.moved c 0) ++
          new'.map (·.moved c (Text.lines (first ++ ['\n'])).length))⟩, none) := by
  obtain ⟨t, ht, rfl⟩ := feedAll_of_addLines hfirst
  obtain ⟨u, hu, rfl⟩ := feedAll_of_addLines hsecond
  have hstart : Reading.Resumes c 0 [] { store := l.store } { store := l.store } :=
    ⟨.inl rfl, rfl, rfl⟩
  obtain ⟨s, hs, hts⟩ := hstart.feedAll _ ht
  have hseam : Reading.Resumes c (Text.lines (first ++ ['\n'])).length s.warnings
      { store := t.store } s := ⟨.inl rfl, hts.store, (List.append_nil _).symm⟩
  obtain ⟨s', hs', hus⟩ := hseam.feedAll _ hu
  have hread : Reading.feedAll properties c 1 ((Text.lines (first ++ '\n' :: second)).map .ok)
      { store := l.store } = (s', none) := by
    rw [Text.lines_append_feed, List.map_append, Reading.feedAll_append,
      Reading.feedAll_concat_feed hs, List.length_map]
    exact hs'
  have hjoined := addLines_of_feedAll hread
  rw [hus.store, hus.warnings, hts.warnings] at hjoined
  exact ⟨t.warnings, u.warnings, rfl, rfl, hjoined⟩

theorem addText_joined_detached :
    let properties : Properties := fun name => if name = "v".toList then some "2" else none
    let l : Loaded := ⟨RuleStore.empty.push ⟨"foo", "main"⟩ (.makeOptional ⟨"a", "main"⟩), ["z"],
      [⟨"z", 3, "bogus", .unrecognized⟩]⟩
    let first : Text := "module:foo\noptional:b\nmodule:\noptional:c\r"
    let second : Text := "bogus\ninclude:\nmodule:foo\nforce-artifact-version:g:a=$\x7bv\x7d"
    ∃ m k, l.addText properties "a" first = (m, none) ∧
      m.addText properties "b" second = (k, none) ∧
      k.store.get? ⟨"foo", "main"⟩ = some [.makeOptional ⟨"a", "main"⟩,
        .makeOptional ⟨"b", "main"⟩, .force ⟨"g", "a", none, none⟩ "2"] ∧
      l.addText properties "c" (first ++ '\n' :: second) =
        (⟨k.store, ["z", "c"], [⟨"z", 3, "bogus", .unrecognized⟩,
          ⟨"c", 3, "module:", .malformed .turn .emptyName⟩,
          ⟨"c", 4, "optional:c", .malformed .optional .noModule⟩,
          ⟨"c", 5, "bogus", .unrecognized⟩,
          ⟨"c", 6, "include:", .malformed .add .emptyName⟩]⟩, none) := by
  intro properties l first second
  obtain ⟨m, hm, hwarnings⟩ : ∃ m, l.addText properties "a" first = (m, none) ∧
      m.warnings = l.warnings ++ [⟨"a", 3, "module:", .malformed .turn .emptyName⟩,
        ⟨"a", 4, "optional:c", .malformed .optional .noModule⟩] := ⟨_, rfl, rfl⟩
  obtain ⟨k, hk, hwarnings', hget⟩ : ∃ k, m.addText properties "b" second = (k, none) ∧
      k.warnings = m.warnings ++ [⟨"b", 1, "bogus", .unrecognized⟩,
        ⟨"b", 2, "include:", .malformed .add .emptyName⟩] ∧
      k.store.get? ⟨"foo", "main"⟩ = some [.makeOptional ⟨"a", "main"⟩,
        .makeOptional ⟨"b", "main"⟩, .force ⟨"g", "a", none, none⟩ "2"] := by
    cases hm
    exact ⟨_, rfl, rfl, rfl⟩
  obtain ⟨new, new', hnew, hnew', hjoined⟩ := addText_joined "a" "b" "c" hm hk
  obtain rfl := List.append_cancel_left (hnew.symm.trans hwarnings)
  obtain rfl := List.append_cancel_left (hnew'.symm.trans hwarnings')
  exact ⟨m, k, hm, hk, hget, hjoined⟩

end Loaded

end ModuleRules
