import ModuleRules.Proofs.Configuration.Meaning
import ModuleRules.Proofs.Rule.Keyword

/-!
# What becomes of each line

A line of a source that is read to its end is blank, is skipped with a
warning, turns to a module or adds a rule, and only one of these. Which one
shows in the line and its heading; so the warnings can be read off the lines
like the rules, and the lines that are not blank are as many as the warnings,
the turns and the rules together (`lots_of_addText`).
-/

namespace ModuleRules

/-- What becomes of a line, unless it stops the reading. -/
inductive Lot
  | blank
  | skipped (problem : Problem)
  | turned (id : ModuleId)
  | added (r : Rule)

def Lot.problem? : Lot → Option Problem
  | skipped problem => some problem
  | _ => none

theorem Lot.problem?_eq_some_iff {lot : Lot} {problem : Problem} :
    lot.problem? = some problem ↔ lot = skipped problem := by
  cases lot <;> simp [problem?]

namespace Outline

def lot (heading : Option Text) (line : Text) : Lot :=
  if Text.trim line = [] then .blank
  else match directive line with
    | .error problem => .skipped problem
    | .ok (.turn id) => .turned id
    | .ok (.rule r) =>
      if Scope.under heading = .detached then .skipped (.malformed r.keyword .noModule)
      else .added r

def warningAt (source : Text) (lines : List Text) (n : Nat) : Option Warning :=
  lines[n]?.bind fun line => (lot (lastHeading (lines.take n)) line).problem?.map
    (⟨source, n + 1, Text.trim line, ·⟩)

def warnings (source : Text) (lines : List Text) : List Warning :=
  (List.range lines.length).filterMap (warningAt source lines)

def isBlank (line : Text) : Bool := Text.trim line = []

def isTurn (line : Text) : Bool :=
  match directive line with
  | .ok (.turn _) => true
  | _ => false

/-! ## Lots -/

variable {heading : Option Text} {line : Text}

theorem lot_of_error {problem : Problem} (hb : Text.trim line ≠ [])
    (hd : directive line = .error problem) : lot heading line = .skipped problem := by
  simp only [lot, if_neg hb, hd]

theorem lot_of_turn {id : ModuleId} (hd : directive line = .ok (.turn id)) :
    lot heading line = .turned id := by
  simp only [lot, if_neg (Reading.trim_ne_nil_of_ok hd), hd]

theorem lot_of_rule {r : Rule} (hd : directive line = .ok (.rule r)) : lot heading line =
    if Scope.under heading = .detached then .skipped (.malformed r.keyword .noModule)
    else .added r := by
  simp only [lot, if_neg (Reading.trim_ne_nil_of_ok hd), hd]

theorem lot_eq_blank_iff : lot heading line = .blank ↔ Text.trim line = [] := by
  refine ⟨fun h => ?_, fun hb => if_pos hb⟩
  by_contra hb
  rw [lot, if_neg hb] at h
  split at h
  next => cases h
  next => cases h
  next => split at h <;> cases h

theorem lot_eq_turned_iff {id : ModuleId} :
    lot heading line = .turned id ↔ directive line = .ok (.turn id) := by
  refine ⟨fun h => ?_, lot_of_turn⟩
  unfold lot at h
  split at h
  next => cases h
  next =>
    split at h
    next => cases h
    next hd =>
      cases h
      exact hd
    next => split at h <;> cases h

theorem lot_eq_added_iff {r : Rule} : lot heading line = .added r ↔
    directive line = .ok (.rule r) ∧ Scope.under heading ≠ .detached := by
  constructor
  · intro h
    unfold lot at h
    split at h
    next => cases h
    next =>
      split at h
      next => cases h
      next => cases h
      next hd =>
        split at h
        next => cases h
        next hheading =>
          cases h
          exact ⟨hd, hheading⟩
  · rintro ⟨hd, hheading⟩
    rw [lot_of_rule hd, if_neg hheading]

theorem countP_not_isBlank (heading : Option Text) (line : Text) :
    [line].countP (!isBlank ·) = match lot heading line with
      | .blank => 0
      | _ => 1 := by
  have hblank : isBlank line = true ↔ lot heading line = .blank := by
    rw [isBlank, decide_eq_true_iff, lot_eq_blank_iff]
  rw [List.countP_singleton]
  split <;> simp_all

theorem countP_isTurn (heading : Option Text) (line : Text) :
    [line].countP isTurn = match lot heading line with
      | .turned _ => 1
      | _ => 0 := by
  have hturn : isTurn line = true ↔ ∃ id, lot heading line = .turned id := by
    simp only [lot_eq_turned_iff]
    unfold isTurn
    split <;> simp_all
  rw [List.countP_singleton]
  cases hl : lot heading line <;> simp_all

/-! ## Skipped lines -/

theorem starts_of_directive {d : Directive} (hd : directive line = .ok d) :
    d.keyword.text <+: Text.trim line := by
  unfold directive Directive.parse at hd
  split at hd
  next => cases hd
  next k body hk =>
    rw [keyword_of_ofBody (mapError_eq_ok.1 hd)]
    exact ⟨body, (Keyword.ofLine?_eq_some_iff.1 hk).symm⟩

/-- What a warning says of the keyword is what the line starts with. -/
theorem keyword_of_skipped {problem : Problem} (h : lot heading line = .skipped problem) :
    match problem with
    | .unrecognized => ∀ k : Keyword, ¬ k.text <+: Text.trim line
    | .malformed k _ => k.text <+: Text.trim line := by
  unfold lot at h
  split at h
  next => cases h
  next =>
    split at h
    next problem hd =>
      cases h
      unfold directive Directive.parse at hd
      split at hd
      next hk =>
        cases hd
        exact Keyword.ofLine?_eq_none_iff.1 hk
      next k body hk =>
        obtain ⟨flaw, -, rfl⟩ := mapError_eq_error.1 hd
        exact ⟨body, (Keyword.ofLine?_eq_some_iff.1 hk).symm⟩
    next => cases h
    next r hd =>
      split at h
      next =>
        cases h
        exact starts_of_directive hd
      next => cases h

/-! ## Warnings -/

theorem warningAt_eq_some_iff {source : Text} {lines : List Text} {n : Nat} {w : Warning} :
    warningAt source lines n = some w ↔ ∃ line problem, lines[n]? = some line ∧
      lot (lastHeading (lines.take n)) line = .skipped problem ∧
        w = ⟨source, n + 1, Text.trim line, problem⟩ := by
  simp only [warningAt, Option.bind_eq_some_iff, Option.map_eq_some_iff,
    Lot.problem?_eq_some_iff]
  constructor
  · rintro ⟨line, hline, problem, hlot, rfl⟩
    exact ⟨line, problem, hline, hlot, rfl⟩
  · rintro ⟨line, problem, hline, hlot, rfl⟩
    exact ⟨line, hline, problem, hlot, rfl⟩

theorem mem_warnings_iff {source : Text} {lines : List Text} {w : Warning} :
    w ∈ warnings source lines ↔ ∃ n, warningAt source lines n = some w := by
  rw [warnings, List.mem_filterMap]
  refine exists_congr fun n => and_iff_right_of_imp fun h => List.mem_range.2 ?_
  obtain ⟨line, _, hline, -⟩ := warningAt_eq_some_iff.1 h
  exact (List.getElem?_eq_some_iff.1 hline).1

theorem pairwise_warnings (source : Text) (lines : List Text) :
    (warnings source lines).Pairwise (·.line < ·.line) := by
  unfold warnings
  rw [List.pairwise_filterMap]
  refine List.pairwise_lt_range.imp fun {m n} hmn v hv w hw => ?_
  obtain ⟨_, _, _, _, rfl⟩ := warningAt_eq_some_iff.1 hv
  obtain ⟨_, _, _, _, rfl⟩ := warningAt_eq_some_iff.1 hw
  exact Nat.succ_lt_succ hmn

theorem warningAt_append {source : Text} {lines : List Text} (more : List Text) {n : Nat}
    (h : n < lines.length) : warningAt source (lines ++ more) n = warningAt source lines n := by
  unfold warningAt
  rw [List.getElem?_append_left h, List.take_append_of_le_length (Nat.le_of_lt h)]

theorem warnings_snoc (source : Text) (lines : List Text) (line : Text) :
    warnings source (lines ++ [line]) = warnings source lines ++
      ((lot (lastHeading lines) line).problem?.map
        (⟨source, lines.length + 1, Text.trim line, ·⟩)).toList := by
  have hlast : warningAt source (lines ++ [line]) lines.length =
      (lot (lastHeading lines) line).problem?.map
        (⟨source, lines.length + 1, Text.trim line, ·⟩) := by
    simp [warningAt]
  unfold warnings
  rw [List.length_append, List.length_singleton, List.range_succ, List.filterMap_append]
  congr 1
  · exact List.filterMap_congr fun n hn => warningAt_append [line] (List.mem_range.1 hn)
  · rw [List.filterMap_cons, hlast]
    cases (lot (lastHeading lines) line).problem? <;> rfl

end Outline

/-! ## Steps -/

namespace Reading

variable {properties : Properties} {source : Text}

open Outline

/-- What a step does to the store and the warnings. -/
theorem Step.of_lot {heading : Option Text} {n : Nat} {raw : Text} {s s' : Reading}
    (hs : s.scope = Scope.under heading) (h : Step properties source n raw s s') :
    match lot heading raw with
    | .blank => s'.store = s.store ∧ s'.warnings = s.warnings
    | .skipped problem => s'.store = s.store ∧
        s'.warnings = s.warnings ++ [⟨source, n, Text.trim raw, problem⟩]
    | .turned id => s'.store = s.store.touch id ∧ s'.warnings = s.warnings
    | .added r => (∃ id r', Scope.under heading = .within id ∧ r.filled? properties = some r' ∧
        s'.store = s.store.push id r') ∧ s'.warnings = s.warnings := by
  cases h with
  | blank hb =>
    rw [lot_eq_blank_iff.2 hb]
    exact ⟨rfl, rfl⟩
  | skipped hb hd hh =>
    rw [lot_of_error hb hd]
    exact ⟨rfl, rfl⟩
  | lost hd =>
    rw [lot_of_error (trim_ne_nil_of_malformed hd) hd]
    exact ⟨rfl, rfl⟩
  | turned hd =>
    rw [lot_of_turn hd]
    exact ⟨rfl, rfl⟩
  | idle hd hdetached =>
    rw [lot_of_rule hd, if_pos (hs.symm.trans hdetached)]
    exact ⟨rfl, rfl⟩
  | added hd hwithin hr =>
    have hunder := hs.symm.trans hwithin
    rw [lot_of_rule hd, if_neg (by simp [hunder])]
    exact ⟨⟨_, _, hunder, hr, rfl⟩, rfl⟩

/-- Where reading stands after the lines `done`, counted by what became of each. -/
structure Tallied (properties : Properties) (source : Text) (start : RuleStore) (done : List Text)
    (s : Reading) : Prop where
  grouped : Grouped properties start done s
  warnings : s.warnings = Outline.warnings source done
  count : done.countP (!isBlank ·) + start.ruleCount =
    s.warnings.length + done.countP isTurn + s.store.ruleCount

theorem Tallied.nil (start : RuleStore) : Tallied properties source start [] { store := start } where
  grouped := .nil
  warnings := rfl
  count := rfl

theorem Tallied.step {start : RuleStore} {done : List Text} {raw : Text} {s s' : Reading}
    (hs : Tallied properties source start done s)
    (h : Step properties source (done.length + 1) raw s s') :
    Tallied properties source start (done ++ [raw]) s' := by
  have hlot := h.of_lot hs.grouped.scope
  refine ⟨hs.grouped.step h, ?_, ?_⟩
  · rw [warnings_snoc, ← hs.warnings]
    cases hl : lot (lastHeading done) raw <;> simp_all [Lot.problem?]
  · -- a line that is not blank counts on the left, and once among the three on the right
    have hcount := hs.count
    rw [List.countP_append, List.countP_append, countP_not_isBlank (lastHeading done),
      countP_isTurn (lastHeading done)]
    cases hl : lot (lastHeading done) raw with
    | blank =>
      simp only [hl] at hlot
      rw [hlot.1, hlot.2]
      exact hcount
    | skipped problem =>
      simp only [hl] at hlot
      rw [hlot.1, hlot.2, List.length_append, List.length_singleton]
      dsimp only
      omega
    | turned id =>
      simp only [hl] at hlot
      rw [hlot.1, hlot.2, RuleStore.ruleCount_touch]
      dsimp only
      omega
    | added r =>
      simp only [hl] at hlot
      obtain ⟨⟨id, r', -, -, hstore⟩, hwarnings⟩ := hlot
      rw [hstore, hwarnings, RuleStore.ruleCount_push]
      dsimp only
      omega

theorem tallied_of_feedAll {start : RuleStore} {lines : List Text} {s : Reading}
    (h : feedAll properties source 1 (lines.map .ok) { store := start } = (s, none)) :
    Tallied properties source start lines s :=
  feedAll_induction Tallied.step lines (Tallied.nil start) h

end Reading

namespace Loaded

variable {properties : Properties} {source : Text}

open Outline

/-- What shows that the line at position `n` met the lot: `storeAfter k` is the store after the
first `k` lines, and `new` are the warnings about them all. -/
def LotShows (properties : Properties) (source : Text) (lines : List Text) (new : List Warning)
    (storeAfter : Nat → RuleStore) (n : Nat) (line : Text) : Lot → Prop
  | .blank => Text.trim line = []
  | .skipped problem => ⟨source, n + 1, Text.trim line, problem⟩ ∈ new
  | .turned id => directive line = .ok (.turn id)
  | .added r => ∃ id r', directive line = .ok (.rule r) ∧ moduleAt lines n = some id ∧
      r.filled? properties = some r' ∧ storeAfter (n + 1) = (storeAfter n).push id r'

section Lots

variable {l : Loaded} {s : Reading} {lines : List Text} {n : Nat} {line : Text}

def storeAfter (properties : Properties) (source : Text) (l : Loaded) (lines : List Text)
    (n : Nat) : RuleStore :=
  (l.addLines properties source ((lines.take n).map .ok)).1.store

/-- The step that a line of a source read to its end makes, as a step between the stores. -/
theorem storeAfter_of_lot
    (hread : Reading.feedAll properties source 1 (lines.map .ok) { store := l.store } = (s, none))
    (hline : lines[n]? = some line) :
    match lot (lastHeading (lines.take n)) line with
    | .blank | .skipped _ =>
      l.storeAfter properties source lines (n + 1) = l.storeAfter properties source lines n
    | .turned id => l.storeAfter properties source lines (n + 1) =
        (l.storeAfter properties source lines n).touch id
    | .added r => ∃ id r', Scope.under (lastHeading (lines.take n)) = .within id ∧
        r.filled? properties = some r' ∧ l.storeAfter properties source lines (n + 1) =
          (l.storeAfter properties source lines n).push id r' := by
  obtain ⟨a, b, ha, hb, hfeed⟩ := Reading.exists_feed_of_feedAll hread hline
  have hA : l.storeAfter properties source lines n = a.store :=
    congrArg (·.1.store) (addLines_of_feedAll ha)
  have hB : l.storeAfter properties source lines (n + 1) = b.store :=
    congrArg (·.1.store) (addLines_of_feedAll hb)
  have hlot := (Reading.Step.of_feed hfeed).of_lot (Reading.tallied_of_feedAll ha).grouped.scope
  rw [hA, hB]
  cases hl : lot (lastHeading (lines.take n)) line <;> rw [hl] at hlot <;> exact hlot.1

/-- What shows of a line's lot is its lot. -/
theorem lotShows_iff
    (hread : Reading.feedAll properties source 1 (lines.map .ok) { store := l.store } = (s, none))
    (hline : lines[n]? = some line) {met : Lot} :
    LotShows properties source lines (Outline.warnings source lines)
      (l.storeAfter properties source lines) n line met ↔
        lot (lastHeading (lines.take n)) line = met := by
  have hn : n ≤ lines.length := Nat.le_of_lt (List.getElem?_eq_some_iff.1 hline).1
  cases met with
  | blank => exact lot_eq_blank_iff.symm
  | turned id => exact lot_eq_turned_iff.symm
  | skipped problem =>
    refine (mem_warnings_iff.trans ?_)
    constructor
    · -- the number of a warning tells its line
      rintro ⟨m, hm⟩
      obtain ⟨line', problem', hline', hlot, hw⟩ := warningAt_eq_some_iff.1 hm
      obtain ⟨-, hnumber, -, rfl⟩ := Warning.mk.inj hw
      cases hnumber
      rw [hline] at hline'
      cases hline'
      exact hlot
    · intro hlot
      exact ⟨n, warningAt_eq_some_iff.2 ⟨line, problem, hline, hlot, rfl⟩⟩
  | added r =>
    constructor
    · rintro ⟨id, r', hd, hmodule, -, -⟩
      rw [moduleAt_eq_some_iff hn] at hmodule
      exact lot_eq_added_iff.2 ⟨hd, by simp [hmodule]⟩
    · intro hlot
      have hstore := storeAfter_of_lot hread hline
      rw [hlot] at hstore
      obtain ⟨id, r', hunder, hr, hpush⟩ := hstore
      exact ⟨id, r', (lot_eq_added_iff.1 hlot).1, (moduleAt_eq_some_iff hn).2 hunder, hr, hpush⟩

end Lots

/-- **Every line is accounted for once.** A source that is read to its end warns of some lines
after the warnings that were there, in the order of the lines and each with its number, its text
and the keyword it starts with, if any; what it warns of leaves the store as it is. Each line
meets one lot, so those that are not blank are the warnings, the turns and the rules. -/
theorem lots_of_addText {l l' : Loaded} {text : Text}
    (h : l.addText properties source text = (l', none)) :
    ∃ new, l'.warnings = l.warnings ++ new ∧ new.Pairwise (·.line < ·.line) ∧
      (∀ w ∈ new,
        w.source = source ∧
        (∃ n line, (Text.lines text)[n]? = some line ∧ w.line = n + 1 ∧
          w.content = Text.trim line) ∧
        (w.problem = .unrecognized ↔ ∀ k : Keyword, ¬ k.text <+: w.content) ∧
        (∀ k flaw, w.problem = .malformed k flaw → k.text <+: w.content) ∧
        l.storeAfter properties source (Text.lines text) w.line =
          l.storeAfter properties source (Text.lines text) (w.line - 1)) ∧
      (∀ n line, (Text.lines text)[n]? = some line →
        ∃! met, LotShows properties source (Text.lines text) new
          (l.storeAfter properties source (Text.lines text)) n line met) ∧
      l.storeAfter properties source (Text.lines text) 0 = l.store ∧
      l.storeAfter properties source (Text.lines text) (Text.lines text).length = l'.store ∧
      (Text.lines text).countP (!isBlank ·) + l.store.ruleCount =
        new.length + (Text.lines text).countP isTurn + l'.store.ruleCount := by
  obtain ⟨s, hread, rfl⟩ := feedAll_of_addLines h
  have htally := Reading.tallied_of_feedAll hread
  refine ⟨_, congrArg (l.warnings ++ ·) htally.warnings, pairwise_warnings _ _, ?_, ?_, rfl, ?_,
    htally.warnings ▸ htally.count⟩
  · intro w hw
    obtain ⟨n, hn⟩ := mem_warnings_iff.1 hw
    obtain ⟨line, problem, hline, hlot, rfl⟩ := warningAt_eq_some_iff.1 hn
    have hkeyword := keyword_of_skipped hlot
    have hstore := storeAfter_of_lot hread hline
    rw [hlot] at hstore
    refine ⟨rfl, ⟨n, line, hline, rfl, rfl⟩, ?_, ?_, hstore⟩
    · cases problem with
      | unrecognized => exact iff_of_true rfl hkeyword
      | malformed k flaw => exact iff_of_false (by simp) fun hno => hno k hkeyword
    · rintro k flaw rfl
      exact hkeyword
  · intro n line hline
    refine ⟨_, (lotShows_iff hread hline).2 rfl, fun met hmet => ?_⟩
    exact ((lotShows_iff hread hline).1 hmet).symm
  · unfold storeAfter
    rw [List.take_length, addLines_of_feedAll hread]

theorem lots_of_addText_mixed :
    let properties : Properties := fun _ => none
    let l : Loaded := ⟨RuleStore.empty.push ⟨"foo", "main"⟩ (.makeOptional ⟨"a", "main"⟩), ["a"],
      [⟨"a", 3, "bogus", .unrecognized⟩]⟩
    let text : Text := "module:foo\n\noptional:b\nbogus\nmodule:\noptional:c\n"
    ∃ l' new, l.addText properties "b" text = (l', none) ∧ l'.warnings = l.warnings ++ new ∧
      new = [⟨"b", 4, "bogus", .unrecognized⟩, ⟨"b", 5, "module:", .malformed .turn .emptyName⟩,
        ⟨"b", 6, "optional:c", .malformed .optional .noModule⟩] ∧
      (Text.lines text).countP (!isBlank ·) + l.store.ruleCount =
        new.length + (Text.lines text).countP isTurn + l'.store.ruleCount := by
  intro properties l text
  obtain ⟨l', hadd, hwarnings⟩ : ∃ l', l.addText properties "b" text = (l', none) ∧
      l'.warnings = l.warnings ++ [⟨"b", 4, "bogus", .unrecognized⟩,
        ⟨"b", 5, "module:", .malformed .turn .emptyName⟩,
        ⟨"b", 6, "optional:c", .malformed .optional .noModule⟩] := ⟨_, rfl, rfl⟩
  obtain ⟨new, hnew, -, -, -, -, -, hcount⟩ := lots_of_addText hadd
  exact ⟨l', new, hadd, hnew, List.append_cancel_left (hnew.symm.trans hwarnings), hcount⟩

end Loaded

end ModuleRules
