import Mathlib.Data.List.TakeDrop
import ModuleRules.Proofs.Configuration.Meaning
import ModuleRules.Proofs.Rule.Entries
import ModuleRules.Proofs.Text.Segment

/-!
# Sections

Lines fall into sections, each a heading and what stands under it. A section
says the same wherever it stands: it starts with a heading of its own, and what
it adds goes behind what its module has already (`rules_eq_sections`). So only
the order of the sections of one module counts, and where they are found does
not (`amend_of_moved`).
-/

namespace ModuleRules

namespace Outline

/-! ## One part after another -/

theorem lastHeading_append (a b : List Text) :
    lastHeading (a ++ b) = (lastHeading b).or (lastHeading a) := by
  unfold lastHeading
  rw [List.filter_append, List.getLast?_append]

theorem exists_lastHeading_cons {heading : Text} (hh : isHeading heading = true)
    (lines : List Text) : ∃ last, lastHeading (heading :: lines) = some last := by
  refine Option.ne_none_iff_exists'.1 fun hnone => ?_
  have := lastHeading_eq_none_iff.1 hnone heading List.mem_cons_self
  rw [hh] at this
  cases this

theorem ruleAt_congr {a b : List Text} {m n : Nat} (hline : a[m]? = b[n]?)
    (hheading : lastHeading (a.take m) = lastHeading (b.take n)) (id : ModuleId) :
    ruleAt a id m = ruleAt b id n := by
  unfold ruleAt moduleAt
  rw [hline, hheading]

theorem ruleAt_of_heading {lines : List Text} {n : Nat} {heading : Text}
    (hline : lines[n]? = some heading) (hh : isHeading heading = true) (id : ModuleId) :
    ruleAt lines id n = none := by
  rw [Option.eq_none_iff_forall_ne_some]
  intro r hr
  obtain ⟨line, hline', hd, -⟩ := ruleAt_eq_some_iff.1 hr
  cases hline.symm.trans hline'
  rw [isHeading_of_directive.2.1 r hd] at hh
  cases hh

/-- A line finds its heading in its own part, unless it stands before the first one there. -/
theorem ruleAt_append_right {a b : List Text}
    (h : lastHeading a = none ∨ ∀ line ∈ b.head?, isHeading line = true) (id : ModuleId) (n : Nat) :
    ruleAt (a ++ b) id (a.length + n) = ruleAt b id n := by
  have hline : (a ++ b)[a.length + n]? = b[n]? := by
    rw [List.getElem?_append_right (Nat.le_add_right _ _), Nat.add_sub_cancel_left]
  have hlast : lastHeading ((a ++ b).take (a.length + n)) =
      (lastHeading (b.take n)).or (lastHeading a) := by
    rw [List.take_length_add_append, lastHeading_append]
  rcases h with h | h
  · exact ruleAt_congr hline (by rw [hlast, h, Option.or_none]) id
  · cases b with
    | nil =>
      unfold ruleAt
      rw [hline]
      rfl
    | cons heading rest =>
      have hh := h heading rfl
      cases n with
      | zero => rw [ruleAt_of_heading (hline.trans rfl) hh, ruleAt_of_heading rfl hh]
      | succ n =>
        obtain ⟨last, hfound⟩ := exists_lastHeading_cons hh (rest.take n)
        refine ruleAt_congr hline ?_ id
        rw [hlast, List.take_succ_cons, hfound, Option.some_or]

theorem rules_append {a b : List Text}
    (h : lastHeading a = none ∨ ∀ line ∈ b.head?, isHeading line = true) (id : ModuleId) :
    rules (a ++ b) id = rules a id ++ rules b id := by
  unfold rules
  rw [List.length_append, List.range_add, List.filterMap_append, List.filterMap_map]
  congr 1
  · exact List.filterMap_congr fun n hn => ruleAt_append b id (List.mem_range.1 hn)
  · exact List.filterMap_congr fun n _ => ruleAt_append_right h id n

/-! ## Sections -/

def rule? (line : Text) : Option Rule :=
  match directive line with
  | .ok (.rule r) => some r
  | _ => none

structure Section where
  id : ModuleId
  body : List Text
  deriving DecidableEq

def Section.rules (s : Section) : List Rule := s.body.filterMap rule?

/-- The lines that are not blank, without the blanks around them. -/
def tidy (lines : List Text) : List Text := (lines.map Text.trim).filter (· ≠ [])

/-- The sections in order. A line before the first heading or under one of no use is in none. -/
def sections : List Text → List Section
  | [] => []
  | line :: rest =>
    match directive line with
    | .ok (.turn id) => ⟨id, tidy (rest.takeWhile (!isHeading ·))⟩ :: sections rest
    | _ => sections rest

theorem sections_cons_of_turn {line : Text} {id : ModuleId} (hd : directive line = .ok (.turn id))
    (rest : List Text) : sections (line :: rest) =
      ⟨id, tidy (rest.takeWhile (!isHeading ·))⟩ :: sections rest := by
  rw [sections, hd]

theorem sections_cons_of_no_turn {line : Text} (hd : ∀ id, directive line ≠ .ok (.turn id))
    (rest : List Text) : sections (line :: rest) = sections rest := by
  rw [sections]
  split
  next id hid => exact absurd hid (hd id)
  next => rfl

theorem filterMap_rule?_tidy (lines : List Text) :
    (tidy lines).filterMap rule? = lines.filterMap rule? := by
  rw [tidy, List.filterMap_filter, List.filterMap_map]
  refine List.filterMap_congr fun line _ => ?_
  have htrim : rule? (Text.trim line) = rule? line := by
    rw [rule?, rule?, directive, directive, Text.trim_trim]
  by_cases hb : Text.trim line = []
  · simp [hb, rule?, Reading.directive_of_blank hb]
  · simp [hb, htrim]

theorem rules_of_no_heading {lines : List Text} (h : ∀ line ∈ lines, isHeading line = false)
    (id : ModuleId) : rules lines id = [] := by
  refine List.filterMap_eq_nil_iff.2 fun n _ => ?_
  have hnone : lastHeading (lines.take n) = none :=
    lastHeading_eq_none_iff.2 fun line hline => h line (List.mem_of_mem_take hline)
  have hmodule : moduleAt lines n = none := by rw [moduleAt, hnone]; rfl
  unfold ruleAt
  rw [hmodule]
  split <;> rfl

theorem moduleAt_cons_of_heading {heading : Text} {body : List Text} (hh : isHeading heading = true)
    (hbody : ∀ line ∈ body, isHeading line = false) (id : ModuleId) :
    moduleAt (heading :: body) (heading :: body).length = some id ↔
      directive heading = .ok (.turn id) := by
  have hlast : lastHeading ([heading] ++ body) = some heading := by
    rw [lastHeading_append, lastHeading_eq_none_iff.2 hbody]
    simp [lastHeading, hh]
  rw [moduleAt_length, ← List.singleton_append, hlast, Scope.under]
  split <;> simp_all

/-- Under one heading all rules are those of its module. -/
theorem rules_cons_of_heading {heading : Text} {body : List Text} (hh : isHeading heading = true)
    (hbody : ∀ line ∈ body, isHeading line = false) (id : ModuleId) :
    rules (heading :: body) id =
      if directive heading = .ok (.turn id) then body.filterMap rule? else [] := by
  induction body using List.reverseRecOn with
  | nil =>
    have hnone : ruleAt [heading] id 0 = none := ruleAt_of_heading rfl hh id
    rw [List.filterMap_nil, ite_self]
    simp [rules, hnone]
  | append_singleton body line ih =>
    obtain ⟨hbody, -⟩ := List.forall_mem_append.1 hbody
    have hmodule := moduleAt_cons_of_heading hh hbody id
    rw [← List.cons_append, rules_snoc, ruleAt_snoc, ih hbody, List.filterMap_append]
    by_cases hturn : directive heading = .ok (.turn id)
    · rw [if_pos hturn, if_pos hturn, hmodule.2 hturn]
      rcases hd : directive line with problem | i | r <;> simp [rule?, hd]
    · simp only [if_neg hturn, if_neg (mt hmodule.1 hturn)]
      split <;> rfl

theorem head?_dropWhile_heading (lines : List Text) :
    ∀ line ∈ (lines.dropWhile (!isHeading ·)).head?, isHeading line = true := by
  intro line hline
  have := List.head?_dropWhile_not (!isHeading ·) lines
  rw [Option.mem_def.1 hline] at this
  simpa using this

theorem rules_eq_sections (lines : List Text) (id : ModuleId) :
    rules lines id = ((sections lines).filter (·.id = id)).flatMap Section.rules := by
  induction lines with
  | nil => rfl
  | cons line rest ih =>
    -- what stands before the next heading declares no rule on its own
    have hbody : ∀ l ∈ rest.takeWhile (!isHeading ·), isHeading l = false := fun l hl => by
      simpa using List.mem_takeWhile_imp hl
    have hrest := List.takeWhile_append_dropWhile (p := (!isHeading ·)) (l := rest)
    have hlater : rules rest id = rules (rest.dropWhile (!isHeading ·)) id := by
      rw [← hrest, rules_append (.inl (lastHeading_eq_none_iff.2 hbody)),
        rules_of_no_heading hbody, List.nil_append, hrest]
    by_cases hh : isHeading line = true
    · have hsection : rules (line :: rest) id =
          rules (line :: rest.takeWhile (!isHeading ·)) id ++ rules rest id := by
        rw [hlater, ← rules_append (.inr (head?_dropWhile_heading rest)), List.cons_append, hrest]
      rw [hsection, rules_cons_of_heading hh hbody, ih]
      by_cases hturn : ∃ i, directive line = .ok (.turn i)
      · obtain ⟨i, hi⟩ := hturn
        rw [sections_cons_of_turn hi, List.filter_cons, hi]
        by_cases hid : i = id
        · simp [hid, Section.rules, filterMap_rule?_tidy]
        · simp [hid]
      · rw [if_neg fun hd => hturn ⟨id, hd⟩, List.nil_append,
          sections_cons_of_no_turn (not_exists.1 hturn)]
    · have hline : ∀ l ∈ [line], isHeading l = false := by simpa using hh
      have hturn : ∀ i, directive line ≠ .ok (.turn i) := fun i hi =>
        hh (isHeading_of_directive.1 i hi)
      rw [sections_cons_of_no_turn hturn, ← ih, ← List.singleton_append,
        rules_append (.inl (lastHeading_eq_none_iff.2 hline)), rules_of_no_heading hline,
        List.nil_append]

end Outline

namespace Loaded

open Outline

def sectionsOf (sources : List (Text × Text)) (id : ModuleId) : List Section :=
  (sources.flatMap fun s => sections (Text.lines s.2)).filter (·.id = id)

/-- Both lists of sources hold the same sections, those of one module in the same order. -/
def AreMoved (before after : List (Text × Text)) : Prop :=
  ∀ id, sectionsOf after id = sectionsOf before id

/-- Two sections of different modules may change places. -/
theorem areMoved_of_swap {before after : List (Text × Text)} {a b : List Section} {s t : Section}
    (hne : s.id ≠ t.id)
    (hbefore : (before.flatMap fun s => sections (Text.lines s.2)) = a ++ s :: t :: b)
    (hafter : (after.flatMap fun s => sections (Text.lines s.2)) = a ++ t :: s :: b) :
    AreMoved before after := by
  intro id
  rw [sectionsOf, sectionsOf, hbefore, hafter, List.filter_append, List.filter_append]
  by_cases hs : s.id = id
  · have ht : t.id ≠ id := fun ht => hne (hs.trans ht.symm)
    simp [hs, ht]
  · simp [List.filter_cons, hs]

def rulesOfSections (properties : Properties) (sections : List Section) : RuleSet :=
  (sections.flatMap Section.rules).filterMap (Rule.filled? properties)

variable {properties : Properties}

theorem rulesOf_of_addTexts {sources : List (Text × Text)} {l : Loaded}
    (h : addTexts properties sources {} = .ok l) (id : ModuleId) :
    l.store.rulesOf id = rulesOfSections properties (sectionsOf sources id) := by
  obtain ⟨-, hrules⟩ := store_of_addTexts_from sources h id
  have hempty : ({} : Loaded).store.rulesOf id = [] := rfl
  have hsections : (sources.flatMap fun s => rules (Text.lines s.2) id) =
      (sectionsOf sources id).flatMap Section.rules := by
    simp only [sectionsOf, rules_eq_sections, List.filter_flatMap, List.flatMap_assoc]
  rw [hempty, List.map_nil, List.nil_append, hsections] at hrules
  calc l.store.rulesOf id = ((l.store.rulesOf id).map some).filterMap fun r => r := by
        rw [List.filterMap_map]
        exact List.filterMap_some.symm
    _ = rulesOfSections properties (sectionsOf sources id) := by
        rw [hrules, List.filterMap_map]
        rfl

/-- **Where a section is found does not show**, nor what it stands behind, as long as the sections
of each module keep their order. Those of `ALL:ALL` act last wherever they are. -/
theorem amend_of_moved {before after : List (Text × Text)} {l k : Loaded}
    (hl : addTexts properties before {} = .ok l) (hk : addTexts properties after {} = .ok k)
    (hmoved : AreMoved before after) (d : Descriptor) :
    k.store.amend d = l.store.amend d ∧ l.store.amend d =
      RuleSet.apply (rulesOfSections properties (sectionsOf before d.identity) ++
        rulesOfSections properties (sectionsOf before ModuleId.wildcard)) d := by
  have hown (id : ModuleId) : k.store.rulesOf id = l.store.rulesOf id := by
    rw [rulesOf_of_addTexts hk, rulesOf_of_addTexts hl, hmoved id]
  rw [RuleStore.amend_of_rules d rfl, RuleStore.amend_of_rules d rfl, hown, hown,
    rulesOf_of_addTexts hl, rulesOf_of_addTexts hl]
  exact ⟨rfl, rfl⟩

theorem amend_of_moved_wildcard :
    let before : List (Text × Text) := [("a", "module:ALL:ALL\noptional:b\n"),
      ("b", "module:foo\ninclude:b\nmodule:foo:1\nexport:c")]
    let after : List (Text × Text) :=
      [("c", "bogus\nmodule: foo:main \r\n\ninclude:b\r\nmodule:ALL:ALL\n optional:b\n" ++
        "module:foo:1\nexport:c\r")]
    let d : Descriptor := ⟨⟨"foo", none⟩, [], []⟩
    ∃ l k, addTexts .none before {} = .ok l ∧ addTexts .none after {} = .ok k ∧
      AreMoved before after ∧ k.store.amend d = l.store.amend d ∧
      (l.store.amend d).1.dependencies = [⟨⟨"b", none⟩, true, false⟩] := by
  intro before after d
  obtain ⟨l, hl, hdeps⟩ : ∃ l, addTexts .none before {} = .ok l ∧
      (l.store.amend d).1.dependencies = [⟨⟨"b", none⟩, true, false⟩] := ⟨_, rfl, rfl⟩
  obtain ⟨k, hk⟩ : ∃ k, addTexts .none after {} = .ok k := ⟨_, rfl⟩
  have hmoved : AreMoved before after :=
    areMoved_of_swap (a := []) (b := [⟨⟨"foo", "1"⟩, ["export:c"]⟩])
      (s := ⟨ModuleId.wildcard, ["optional:b"]⟩) (t := ⟨⟨"foo", "main"⟩, ["include:b"]⟩)
      (by decide) rfl rfl
  exact ⟨l, k, hl, hk, hmoved, (amend_of_moved hl hk hmoved d).1, hdeps⟩

end Loaded

end ModuleRules
