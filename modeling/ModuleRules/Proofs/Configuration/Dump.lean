import ModuleRules.Proofs.Configuration.Directive
import ModuleRules.Proofs.Configuration.Meaning
import ModuleRules.Proofs.Text.Line

/-!
# Stores written out

A store as a configuration: for each module a line that turns to it and the
lines of its rules. Each line is read as what it was written for, so reading
them gives the store back (`store_of_dump`).
-/

namespace ModuleRules

open Outline

namespace RuleStore

def linesOf (x : ModuleId × RuleSet) : List Text :=
  (Directive.turn x.1).text :: x.2.map Rule.text

def dump (s : RuleStore) : Text := Text.join ['\n'] (s.sets.flatMap linesOf)

end RuleStore

/-! ## Lines that read back -/

/-- The directive is what its line says, and its line is one. -/
structure Directive.ReadsBack (d : Directive) : Prop where
  sound : d.IsSound
  newline : '\n' ∉ d.text

theorem Directive.ReadsBack.of_line {line : Text} {d : Directive} (h : directive line = .ok d)
    (hline : '\n' ∉ line) : d.ReadsBack where
  sound := Directive.isSound_of_parse h
  newline := Directive.newline_not_mem_of_parse h fun hmem =>
    hline ((Text.trim_sublist line).mem hmem)

theorem Directive.ReadsBack.directive_text {d : Directive} (h : d.ReadsBack) :
    directive d.text = .ok d := by
  rw [directive, Directive.trim_text h.sound, Directive.parse_text h.sound]

structure RuleStore.SetReadsBack (x : ModuleId × RuleSet) : Prop where
  turn : (Directive.turn x.1).ReadsBack
  rules : ∀ r ∈ x.2, (Directive.rule r).ReadsBack ∧ r.filled? Properties.none = some r

/-! ## What is loaded reads back -/

theorem eq_of_filled? {r r' : Rule} (h : r.filled? Properties.none = some r') : r' = r := by
  cases r with
  | force selector version =>
    simp only [Rule.filled?] at h
    cases hname : placeholder? version with
    | some name => simp [hname, Properties.none] at h
    | none => simpa [hname, eq_comm] using h
  | _ => simpa [Rule.filled?, eq_comm] using h

theorem Outline.exists_line_of_mem_rules {lines : List Text} {id : ModuleId} {r : Rule}
    (h : r ∈ rules lines id) : ∃ line ∈ lines, directive line = .ok (.rule r) := by
  obtain ⟨n, -, hn⟩ := List.mem_filterMap.1 h
  obtain ⟨line, hline, hd, -⟩ := ruleAt_eq_some_iff.1 hn
  exact ⟨line, List.mem_of_getElem? hline, hd⟩

theorem Loaded.setReadsBack_of_addTexts {sources : List (Text × Text)} {l : Loaded}
    (h : addTexts Properties.none sources {} = .ok l) {x : ModuleId × RuleSet}
    (hx : x ∈ l.store.sets) : RuleStore.SetReadsBack x := by
  obtain ⟨id, set⟩ := x
  obtain ⟨hentry, hrules⟩ := store_of_addTexts_from sources h id
  have hget : l.store.get? id = some set := RuleStore.get?_of_mem hx
  have hturn : (Directive.turn id).ReadsBack := by
    obtain hnone | ⟨s, -, line, hline, hd⟩ := hentry.1 (by rw [hget]; rfl)
    · cases hnone
    · exact .of_line hd (Text.newline_not_mem_of_mem_lines hline)
  refine ⟨hturn, fun r hr => ?_⟩
  have hmem : some r ∈ (l.store.rulesOf id).map some :=
    List.mem_map_of_mem (by rwa [RuleStore.rulesOf, hget])
  have hempty : ({} : Loaded).store.rulesOf id = [] := rfl
  rw [hrules, hempty, List.map_nil, List.nil_append] at hmem
  obtain ⟨r', hr', hfilled⟩ := List.mem_map.1 hmem
  -- without properties a rule is stored as its line says
  obtain rfl := eq_of_filled? hfilled
  obtain ⟨s, -, hs⟩ := List.mem_flatMap.1 hr'
  obtain ⟨line, hline, hd⟩ := exists_line_of_mem_rules hs
  exact ⟨.of_line hd (Text.newline_not_mem_of_mem_lines hline), hfilled⟩

/-! ## Reading a store -/

namespace Reading

variable {source : Text} {n : Nat} {s : Reading}

theorem feedAll_cons {properties : Properties} {line : Text} {s' : Reading}
    (h : s.feed properties source n line = .ok s') (lines : List Text) :
    feedAll properties source n ((line :: lines).map .ok) s =
      feedAll properties source (n + 1) (lines.map .ok) s' := by
  rw [List.map_cons, feedAll, h]

theorem feedAll_rules {rules : List Rule} {id : ModuleId} {set : RuleSet}
    {before : List (ModuleId × RuleSet)}
    (hrules : ∀ r ∈ rules, (Directive.rule r).ReadsBack ∧ r.filled? Properties.none = some r)
    (hscope : s.scope = .within id) (hs : s.store.sets = before ++ [(id, set)]) :
    ∃ s', feedAll Properties.none source n ((rules.map Rule.text).map .ok) s = (s', none) ∧
      s'.store.sets = before ++ [(id, set ++ rules)] ∧ s'.warnings = s.warnings := by
  -- the module turned to has the last set, so each rule goes to the very end
  induction rules generalizing n s set with
  | nil => exact ⟨s, rfl, by rw [hs, List.append_nil], rfl⟩
  | cons r rules ih =>
    obtain ⟨⟨hr, hfilled⟩, hrules⟩ := List.forall_mem_cons.1 hrules
    have hstep : Step Properties.none source n r.text s
        { s with store := s.store.push id r } := .added hr.directive_text hscope hfilled
    obtain ⟨s', hread, hsets, hwarnings⟩ := ih (n := n + 1)
      (s := { s with store := s.store.push id r }) hrules hscope (RuleStore.sets_push hs r)
    refine ⟨s', ?_, by rw [hsets, List.append_assoc]; rfl, hwarnings⟩
    rw [List.map_cons, feedAll_cons hstep.feed, hread]

theorem feedAll_linesOf {x : ModuleId × RuleSet} (hx : RuleStore.SetReadsBack x)
    (hs : ∀ y ∈ s.store.sets, y.1 < x.1) :
    ∃ s', feedAll Properties.none source n ((RuleStore.linesOf x).map .ok) s = (s', none) ∧
      s'.store.sets = s.store.sets ++ [x] ∧ s'.warnings = s.warnings := by
  have hstep : Step Properties.none source n (Directive.turn x.1).text s
      { s with store := s.store.touch x.1, scope := .within x.1 } := .turned hx.turn.directive_text
  obtain ⟨s', hread, hsets, hwarnings⟩ := feedAll_rules (n := n + 1)
    (s := { s with store := s.store.touch x.1, scope := .within x.1 }) hx.rules rfl
    (RuleStore.sets_touch hs)
  refine ⟨s', ?_, hsets, hwarnings⟩
  rw [RuleStore.linesOf, feedAll_cons hstep.feed, hread]

theorem feedAll_sets {sets : List (ModuleId × RuleSet)}
    (hsets : ∀ x ∈ sets, RuleStore.SetReadsBack x)
    (hasc : (s.store.sets ++ sets).Pairwise (·.1 < ·.1)) :
    ∃ s', feedAll Properties.none source n ((sets.flatMap RuleStore.linesOf).map .ok) s =
        (s', none) ∧ s'.store.sets = s.store.sets ++ sets ∧ s'.warnings = s.warnings := by
  induction sets generalizing n s with
  | nil => exact ⟨s, rfl, (List.append_nil _).symm, rfl⟩
  | cons x sets ih =>
    obtain ⟨hx, hsets⟩ := List.forall_mem_cons.1 hsets
    have hlast : ∀ y ∈ s.store.sets, y.1 < x.1 := fun y hy =>
      (List.pairwise_append.1 hasc).2.2 y hy x List.mem_cons_self
    obtain ⟨s₁, hread, hstore, hwarnings⟩ := feedAll_linesOf (n := n) hx hlast
    rw [List.append_cons, ← hstore] at hasc
    obtain ⟨s', hrest, hstore', hwarnings'⟩ := ih hsets hasc
    refine ⟨s', ?_, by rw [hstore', hstore, List.append_assoc]; rfl, hwarnings'.trans hwarnings⟩
    rw [List.flatMap_cons, List.map_append, feedAll_append, hread]
    exact hrest

end Reading

theorem RuleStore.lines_dump {s : RuleStore} (h : ∀ x ∈ s.sets, SetReadsBack x) :
    Text.lines s.dump = s.sets.flatMap linesOf := by
  have hlines : ∀ line ∈ s.sets.flatMap linesOf, ∃ d : Directive, d.ReadsBack ∧ line = d.text := by
    intro line hline
    obtain ⟨x, hx, hmem⟩ := List.mem_flatMap.1 hline
    rcases List.mem_cons.1 hmem with rfl | hmem
    · exact ⟨_, (h x hx).turn, rfl⟩
    · obtain ⟨r, hr, rfl⟩ := List.mem_map.1 hmem
      exact ⟨.rule r, ((h x hx).rules r hr).1, rfl⟩
  refine Text.lines_join ?_ ?_ ?_
  · intro line hline
    obtain ⟨d, -, rfl⟩ := hlines line hline
    cases hd : d.keyword <;> simp [d.text_eq, hd, Keyword.text]
  · intro line hline
    obtain ⟨d, hd, rfl⟩ := hlines line hline
    exact hd.newline
  · intro line hline
    obtain ⟨d, hd, rfl⟩ := hlines line hline
    exact Directive.trim_text hd.sound

theorem RuleStore.eq_of_sets_eq {s t : RuleStore} (h : s.sets = t.sets) : s = t := by
  cases s
  cases t
  cases h
  rfl

namespace Loaded

/-- **A store that was loaded without properties reads back from its dump**, as one source and
with no line skipped. For each directive that is read at all is read again from its own text. -/
theorem store_of_dump (sources : List (Text × Text)) (l : Loaded)
    (h : addTexts Properties.none sources {} = .ok l) (source : Text) :
    (∃ l', ({} : Loaded).addText Properties.none source l.store.dump = (l', none) ∧
        l'.warnings = [] ∧ l'.store = l.store) ∧
      ∀ line d, Directive.parse line = .ok d → Directive.parse d.text = .ok d := by
  refine ⟨?_, fun line d hd => Directive.parse_text (Directive.isSound_of_parse hd)⟩
  have hsets : ∀ x ∈ l.store.sets, RuleStore.SetReadsBack x := fun x => setReadsBack_of_addTexts h
  obtain ⟨s, hread, hstore, hwarnings⟩ :=
    Reading.feedAll_sets (n := 1) (s := { store := .empty }) hsets l.store.ascending
  rw [← RuleStore.lines_dump hsets] at hread
  exact ⟨_, addLines_of_feedAll hread, hwarnings, RuleStore.eq_of_sets_eq hstore⟩

theorem store_of_dump_spelled :
    let text : Text := "module: foo\ninclude:a:main\nexport:b=c\n\n" ++
      "force-artifact-version: g:a::c =1=2\nmodule:bar:1\nreplace:x : s>y\n"
    let dump : Text := "module:bar:1\nreplace:x:s>y:main\nmodule:foo:main\ninclude:a:main\n" ++
      "export:b=c\nforce-artifact-version:g:a::c=1=2"
    ∃ l l', addTexts Properties.none [("a.conf", text)] {} = .ok l ∧ l.store.dump = dump ∧
      ({} : Loaded).addText Properties.none "b.conf" dump = (l', none) ∧
        l'.warnings = [] ∧ l'.store = l.store := by
  intro text dump
  obtain ⟨l, hl, hdump⟩ : ∃ l, addTexts Properties.none [("a.conf", text)] {} = .ok l ∧
      l.store.dump = dump := ⟨_, rfl, rfl⟩
  obtain ⟨l', hl', hwarnings, hstore⟩ := (store_of_dump _ l hl "b.conf").1
  exact ⟨l, l', hl, hdump, hdump ▸ hl', hwarnings, hstore⟩

end Loaded

end ModuleRules
