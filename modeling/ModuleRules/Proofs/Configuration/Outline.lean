import Mathlib.Data.List.Basic
import ModuleRules.Configuration.Loader
import ModuleRules.Proofs.Success

/-!
# Outlines

What a configuration says, read off its lines without a state: a heading is a
line that starts with `module:`, a line stands under the nearest heading before
it, and a rule belongs to the module that its heading turns to. A heading that
cannot be used is still a heading, so no rule under it belongs to any module.
-/

namespace ModuleRules

namespace Outline

def directive (line : Text) : Except Problem Directive := Directive.parse (Text.trim line)

/-- A line that starts with `module:`, be it of use or not. -/
def isHeading (line : Text) : Bool := Keyword.turn.text.isPrefixOf (Text.trim line)

def lastHeading (lines : List Text) : Option Text := (lines.filter isHeading).getLast?

/-- The module that the line at position `n` would feed: its nearest heading turns to it. -/
def moduleAt (lines : List Text) (n : Nat) : Option ModuleId :=
  match (lastHeading (lines.take n)).map directive with
  | some (.ok (.turn id)) => some id
  | _ => none

def ruleAt (lines : List Text) (id : ModuleId) (n : Nat) : Option Rule :=
  match lines[n]?.map directive with
  | some (.ok (.rule r)) => if moduleAt lines n = some id then some r else none
  | _ => none

def rules (lines : List Text) (id : ModuleId) : List Rule :=
  (List.range lines.length).filterMap (ruleAt lines id)

def Turns (lines : List Text) (id : ModuleId) : Prop :=
  ∃ line ∈ lines, directive line = .ok (.turn id)

end Outline

/-- The rule with its version as written, or with the property that a placeholder stands for. -/
def Rule.filled? (properties : Properties) : Rule → Option Rule
  | force selector version =>
    match placeholder? version with
    | some name => (properties name).map (force selector)
    | none => some (force selector version)
  | r => some r

namespace Outline

/-! ## Headings -/

theorem isPrefixOf_eq_isSome_after? : ∀ start t : Text,
    start.isPrefixOf t = (Text.after? start t).isSome
  | [], t => by simp [Text.after?]
  | a :: start, [] => by simp [Text.after?]
  | a :: start, c :: t => by
    rw [List.isPrefixOf, Text.after?, isPrefixOf_eq_isSome_after? start t]
    by_cases h : a = c <;> simp [h]

theorem ofLine?_of_heading {line body : Text} (h : Text.after? Keyword.turn.text line = some body) :
    Keyword.ofLine? line = some (.turn, body) := by
  simp [Keyword.ofLine?, Keyword.all, h]

theorem ne_turn_of_ofLine? {line body : Text} {k : Keyword}
    (h : Text.after? Keyword.turn.text line = none) (hk : Keyword.ofLine? line = some (k, body)) :
    k ≠ .turn := by
  rintro rfl
  obtain ⟨j, -, hj⟩ := List.exists_of_findSome?_eq_some hk
  obtain ⟨b, hb, hjb⟩ := Option.map_eq_some_iff.1 hj
  obtain ⟨rfl, rfl⟩ := Prod.mk.inj hjb
  rw [h] at hb
  cases hb

theorem keyword_of_replacement {body : Text} {r : Rule} (h : Directive.replacement body = .ok r) :
    r.keyword = .replace := by
  unfold Directive.replacement at h
  split at h
  · cases h
  · split at h
    · cases h
    · obtain ⟨old, -, h⟩ := bind_eq_ok.1 h
      obtain ⟨new, -, h⟩ := bind_eq_ok.1 h
      cases h
      rfl

theorem keyword_of_removal {body : Text} {r : Rule} (h : Directive.removal body = .ok r) :
    r.keyword = .remove := by
  unfold Directive.removal at h
  split at h
  · cases h
  · cases h
    rfl

theorem keyword_of_forcing {body : Text} {r : Rule} (h : Directive.forcing body = .ok r) :
    r.keyword = .force := by
  unfold Directive.forcing at h
  split at h
  · cases h
  · split at h
    · cases h
    · split at h
      · cases h
      · cases h
        rfl

theorem keyword_of_ofBody {body : Text} {k : Keyword} {d : Directive}
    (h : Directive.ofBody body k = .ok d) : d.keyword = k := by
  cases k with
  | turn =>
    obtain ⟨id, -, rfl⟩ := map_eq_ok.1 h
    rfl
  | add =>
    obtain ⟨r, -, rfl⟩ := map_eq_ok.1 h
    rfl
  | addExported =>
    obtain ⟨r, -, rfl⟩ := map_eq_ok.1 h
    rfl
  | optional =>
    obtain ⟨id, -, rfl⟩ := map_eq_ok.1 h
    rfl
  | replace =>
    obtain ⟨r, hr, rfl⟩ := map_eq_ok.1 h
    exact keyword_of_replacement hr
  | remove =>
    obtain ⟨r, hr, rfl⟩ := map_eq_ok.1 h
    exact keyword_of_removal hr
  | force =>
    obtain ⟨r, hr, rfl⟩ := map_eq_ok.1 h
    exact keyword_of_forcing hr

theorem keyword_ne_turn (r : Rule) : r.keyword ≠ .turn := by
  cases r <;> simp [Rule.keyword]

theorem isHeading_of_directive {line : Text} :
    (∀ id, directive line = .ok (.turn id) → isHeading line = true) ∧
      (∀ r, directive line = .ok (.rule r) → isHeading line = false) ∧
      ∀ problem, directive line = .error problem →
        (isHeading line = true ↔ ∃ flaw, problem = .malformed .turn flaw) := by
  rw [isHeading, isPrefixOf_eq_isSome_after?]
  unfold directive Directive.parse
  cases h : Text.after? Keyword.turn.text (Text.trim line) with
  | some body =>
    simp only [ofLine?_of_heading h]
    refine ⟨fun _ _ => rfl, fun r hr => ?_, fun problem hp => ?_⟩
    · exact absurd (keyword_of_ofBody (mapError_eq_ok.1 hr)) (keyword_ne_turn r)
    · obtain ⟨flaw, -, rfl⟩ := mapError_eq_error.1 hp
      simp
  | none =>
    cases hk : Keyword.ofLine? (Text.trim line) with
    | none => simp
    | some kb =>
      obtain ⟨k, body⟩ := kb
      have hne := ne_turn_of_ofLine? h hk
      simp only [Option.isSome_none, Bool.false_eq_true, imp_false]
      refine ⟨fun id hd => ?_, fun _ _ => trivial, fun problem hp => ?_⟩
      · exact hne (keyword_of_ofBody (mapError_eq_ok.1 hd)).symm
      · obtain ⟨flaw, -, rfl⟩ := mapError_eq_error.1 hp
        simp [hne]

/-! ## Rules in effect -/

theorem ruleAt_eq_some_iff {lines : List Text} {id : ModuleId} {n : Nat} {r : Rule} :
    ruleAt lines id n = some r ↔ ∃ line, lines[n]? = some line ∧
      directive line = .ok (.rule r) ∧ moduleAt lines n = some id := by
  unfold ruleAt
  cases hline : lines[n]? with
  | none => simp
  | some line =>
    rcases hd : directive line with problem | i | r'
    · simp [hd]
    · simp [hd]
    · by_cases hmodule : moduleAt lines n = some id <;> simp [hd, hmodule]

theorem lastHeading_eq_none_iff {lines : List Text} :
    lastHeading lines = none ↔ ∀ line ∈ lines, isHeading line = false := by
  simp [lastHeading]

/-! ## One line more -/

theorem lastHeading_snoc (lines : List Text) (line : Text) :
    lastHeading (lines ++ [line]) = if isHeading line then some line else lastHeading lines := by
  unfold lastHeading
  rw [List.filter_append]
  by_cases h : isHeading line = true
  · simp [h]
  · simp [h]

theorem moduleAt_append {lines : List Text} (more : List Text) {n : Nat} (h : n ≤ lines.length) :
    moduleAt (lines ++ more) n = moduleAt lines n := by
  unfold moduleAt
  rw [List.take_append_of_le_length h]

theorem ruleAt_append {lines : List Text} (more : List Text) (id : ModuleId) {n : Nat}
    (h : n < lines.length) : ruleAt (lines ++ more) id n = ruleAt lines id n := by
  unfold ruleAt
  rw [List.getElem?_append_left h, moduleAt_append more (Nat.le_of_lt h)]

theorem rules_snoc (lines : List Text) (line : Text) (id : ModuleId) :
    rules (lines ++ [line]) id =
      rules lines id ++ (ruleAt (lines ++ [line]) id lines.length).toList := by
  unfold rules
  rw [List.length_append, List.length_singleton, List.range_succ, List.filterMap_append]
  congr 1
  exact List.filterMap_congr fun n hn => ruleAt_append [line] id (List.mem_range.1 hn)

theorem ruleAt_snoc (lines : List Text) (line : Text) (id : ModuleId) :
    ruleAt (lines ++ [line]) id lines.length =
      match directive line with
      | .ok (.rule r) => if moduleAt lines lines.length = some id then some r else none
      | _ => none := by
  unfold ruleAt
  rw [moduleAt_append [line] (Nat.le_refl _)]
  simp only [List.getElem?_concat_length, Option.map_some]
  cases directive line with
  | error problem => rfl
  | ok d => cases d <;> rfl

/-- A line that declares no rule for the module adds none. -/
theorem rules_snoc_of_none {lines : List Text} {line : Text} {id : ModuleId}
    (h : ∀ r, directive line = .ok (.rule r) → moduleAt lines lines.length ≠ some id) :
    rules (lines ++ [line]) id = rules lines id := by
  rw [rules_snoc, ruleAt_snoc]
  cases hd : directive line with
  | error problem => simp
  | ok d =>
    cases d with
    | turn i => simp
    | rule r => simp [h r hd]

theorem rules_snoc_of_rule {lines : List Text} {line : Text} {id : ModuleId} {r : Rule}
    (hd : directive line = .ok (.rule r)) (h : moduleAt lines lines.length = some id) :
    rules (lines ++ [line]) id = rules lines id ++ [r] := by
  rw [rules_snoc, ruleAt_snoc]
  simp [hd, h]

theorem turns_snoc {lines : List Text} {line : Text} {id : ModuleId} :
    Turns (lines ++ [line]) id ↔ Turns lines id ∨ directive line = .ok (.turn id) := by
  simp [Turns, or_and_right, exists_or]

end Outline

end ModuleRules
