import Mathlib.Algebra.Ring.Nat
import ModuleRules.Proofs.Report.Settlement

/-!
# What a summary counts

The counters of a run are kept report by report. They agree with a recount of
the reports, whichever revisions failed, were pending or could not be written
(`recordAll_reflects`), and the exit code follows from that.
-/

namespace ModuleRules

namespace Outcome

def isUnchanged : Outcome → Bool
  | unchanged => true
  | amended .. | failed _ => false

def isAmended : Outcome → Bool
  | amended .. => true
  | unchanged | failed _ => false

def isFailed : Outcome → Bool
  | failed _ => true
  | unchanged | amended .. => false

/-- The changes that count; a descriptor that failed has none. -/
def changes : Outcome → List Change
  | amended changes _ => changes
  | unchanged | failed _ => []

def changesBy (rule : Text) (o : Outcome) : Nat := o.changes.countP (·.rule = rule)

end Outcome

theorem length_eq_add_of_outcomes (os : List Outcome) : os.length =
    os.countP Outcome.isAmended + os.countP Outcome.isFailed + os.countP Outcome.isUnchanged := by
  induction os with
  | nil => rfl
  | cons o os ih =>
    cases o <;> simp [List.countP_cons, Outcome.isAmended, Outcome.isFailed, Outcome.isUnchanged,
      ih] <;> omega

/-! ## Changes by rule -/

namespace Summary

/-- The numbers are those of the changes, and a rule without a change has none. -/
structure Counts (counts : List (Text × Nat)) (cs : List Change) : Prop where
  ascending : counts.Pairwise (·.1 < ·.1)
  find : ∀ rule, Ascending.find? rule counts =
    if ∃ c ∈ cs, c.rule = rule then some (cs.countP (·.rule = rule)) else none
  total : (counts.map (·.2)).sum = cs.length

theorem counts_nil : Counts [] [] := ⟨.nil, fun _ => rfl, rfl⟩

theorem Counts.concat {counts : List (Text × Nat)} {cs : List Change} (h : Counts counts cs)
    (c : Change) : Counts (countChange counts c) (cs ++ [c]) where
  ascending := Ascending.pairwise_alter List.lt_trans h.ascending
  find rule := by
    rw [countChange, Ascending.find?_alter List.lt_irrefl List.lt_trans (flip List.le_antisymm) rule
      h.ascending, h.find, h.find]
    by_cases hc : c.rule = rule
    · subst hc
      have hzero : ¬ (∃ d ∈ cs, d.rule = c.rule) → cs.countP (·.rule = c.rule) = 0 := by
        simp [List.countP_eq_zero]
      by_cases hcs : ∃ d ∈ cs, d.rule = c.rule
      · simp [hcs]
      · simp [hcs, hzero hcs]
    · simp [hc, Ne.symm hc, or_and_right, exists_or]
  total := by
    obtain ⟨before, after, o, hcounts, halter⟩ := Ascending.exists_alter_eq
      (flip List.le_antisymm) c.rule (fun n : Option Nat => n.getD 0 + 1) counts
    have htotal := h.total
    rw [countChange, halter]
    rw [hcounts] at htotal
    cases o <;> simp at htotal ⊢ <;> omega

theorem Counts.append {counts : List (Text × Nat)} {cs : List Change} (h : Counts counts cs) :
    ∀ ds : List Change, Counts (ds.foldl countChange counts) (cs ++ ds)
  | [] => by simpa using h
  | d :: ds => by simpa using (h.concat d).append ds

/-! ## Outcomes -/

/-- The counters are what a recount of the outcomes gives. -/
structure IsTallyOf (s : Summary) (os : List Outcome) : Prop where
  descriptors : s.descriptors = os.length
  amended : s.amended = os.countP Outcome.isAmended
  failed : s.failed = os.countP Outcome.isFailed
  changes : Counts s.changesByRule (os.flatMap Outcome.changes)

theorem isTallyOf_nil : IsTallyOf {} [] := ⟨rfl, rfl, rfl, counts_nil⟩

theorem IsTallyOf.add {s : Summary} {os : List Outcome} (h : s.IsTallyOf os) (o : Outcome) :
    (s.add o).IsTallyOf (os ++ [o]) where
  descriptors := by
    rw [List.length_append, ← h.descriptors]
    cases o <;> rfl
  amended := by
    rw [List.countP_append, ← h.amended]
    cases o <;> rfl
  failed := by
    rw [List.countP_append, ← h.failed]
    cases o <;> rfl
  changes := by
    rw [List.flatMap_append, List.flatMap_singleton]
    cases o with
    | amended changes written => exact h.changes.append changes
    | unchanged | failed => exact h.changes.append []

theorem IsTallyOf.foldl_add {s : Summary} {os : List Outcome} (h : s.IsTallyOf os) :
    ∀ rest : List Outcome, (rest.foldl Summary.add s).IsTallyOf (os ++ rest)
  | [] => by rwa [List.append_nil]
  | o :: rest => by simpa using (h.add o).foldl_add rest

theorem exitCode_iff (mode : Mode) (s : Summary) : (s.exitCode mode = 1 ↔ 0 < s.failed) ∧
    (s.exitCode mode = 2 ↔ s.failed = 0 ∧ mode = .check ∧ 0 < s.amended) ∧
      (s.exitCode mode = 0 ↔ s.failed = 0 ∧ ¬ (mode = .check ∧ 0 < s.amended)) := by
  unfold exitCode
  split
  next hfailed => simp; omega
  next hfailed =>
    split
    next hpending => simp [hpending]; omega
    next hpending => simp [hpending]; omega

end Summary

/-! ## Settling -/

/-- A descriptor that is settled in the tree of its moment, whatever that tree lets be written. -/
structure Settling where
  path : Text
  revision : Except RevisionError Revision
  tree : FileTree

namespace Settling

def report (mode : Mode) (x : Settling) : Report := (Report.settle mode x.path x.revision x.tree).1

def isFlawed (x : Settling) : Bool := !x.revision.isOk

/-- A revision is to be written and cannot be. -/
def isStuck (mode : Mode) (x : Settling) : Bool :=
  match mode, Revision.text? x.revision with
  | .fix, some new => !(Revision.writeText x.path new x.tree).isOk
  | _, _ => false

theorem isStuck_of_isFlawed {mode : Mode} {x : Settling} (h : x.isFlawed = true) :
    x.isStuck mode = false := by
  obtain ⟨path, revision, tree⟩ := x
  cases revision with
  | error e => cases mode <;> rfl
  | ok r => cases h

theorem isFailed_report (mode : Mode) (x : Settling) :
    (x.report mode).outcome.isFailed = (x.isFlawed || x.isStuck mode) := by
  obtain ⟨path, revision, tree⟩ := x
  cases revision with
  | error e => rfl
  | ok r =>
    obtain ⟨id, changes, before, after⟩ := r
    cases after with
    | none => cases mode <;> rfl
    | some new =>
      cases mode with
      | check => rfl
      | fix =>
        simp only [report, Report.settle, isStuck, Revision.text?]
        cases Revision.writeText path new tree <;> rfl

theorem map_report_check (xs : List Settling) (t : FileTree) : xs.map (report .check) =
    (xs.map fun x => (x.path, x.revision)).map fun r => (Report.settle .check r.1 r.2 t).1 := by
  rw [List.map_map]
  refine List.map_congr_left fun x _ => ?_
  rw [report, Report.settle_check_eq x.path x.revision t x.tree]
  rfl

theorem countP_isFailed (mode : Mode) (xs : List Settling) :
    xs.countP (fun x => (x.report mode).outcome.isFailed) =
      xs.countP isFlawed + xs.countP (isStuck mode) := by
  induction xs with
  | nil => rfl
  | cons x xs ih =>
    rw [List.countP_cons, List.countP_cons, List.countP_cons, ih, isFailed_report]
    by_cases hx : x.isFlawed = true
    · simp only [hx, isStuck_of_isFlawed hx, Bool.or_false, if_true, Bool.false_eq_true, if_false]
      omega
    · simp only [hx, Bool.false_or, Bool.false_eq_true, if_false]
      omega

end Settling

namespace Reporter

def recordAll (p : Reporter) (xs : List Settling) : Reporter :=
  xs.foldl (fun p x => (p.record (x.report p.mode) (p.diff? x.path x.revision)).1) p

theorem reports_recordAll (xs : List Settling) (p : Reporter) :
    (p.recordAll xs).reports = p.reports ++ xs.map (Settling.report p.mode) := by
  induction xs generalizing p with
  | nil => exact (List.append_nil _).symm
  | cons x xs ih => exact (ih _).trans (List.append_assoc _ _ _)

theorem summary_recordAll (xs : List Settling) (p : Reporter) : (p.recordAll xs).summary =
    (xs.map fun x => (x.report p.mode).outcome).foldl Summary.add p.summary := by
  induction xs generalizing p with
  | nil => rfl
  | cons x xs ih => exact ih _

/-- Settling one descriptor after another records each in the tree that the writes before left. -/
theorem exists_settlings : ∀ (rs : List (Text × Except RevisionError Revision)) (p : Reporter)
    (t : FileTree), ∃ xs : List Settling, xs.map (fun x => (x.path, x.revision)) = rs ∧
      (p.settleAll t rs).1 = p.recordAll xs
  | [], _, _ => ⟨[], rfl, rfl⟩
  | (path, r) :: rs, p, t => by
    have hsettle := settleAll_cons_eq (p := p) rs (Prod.eta (Report.settle p.mode path r t)).symm
    obtain ⟨xs, hrs, hall⟩ := exists_settlings rs _ _
    refine ⟨⟨path, r, t⟩ :: xs, by rw [List.map_cons, hrs], ?_⟩
    rw [hsettle]
    exact hall

def outcomes (q : Reporter) : List Outcome := q.reports.map (·.outcome)

/-- The counters and the exit code say what the reports say, and these are the reports of the
settlings. -/
structure Reflects (q : Reporter) (code : Nat) (mode : Mode) (xs : List Settling) : Prop where
  reports : q.reports = xs.map (Settling.report mode)
  descriptors : q.summary.descriptors = xs.length
  failed : q.summary.failed = xs.countP Settling.isFlawed + xs.countP (Settling.isStuck mode)
  amended : q.summary.amended = q.outcomes.countP Outcome.isAmended
  partition : q.summary.descriptors =
    q.summary.amended + q.summary.failed + q.outcomes.countP Outcome.isUnchanged
  ascending : q.summary.changesByRule.Pairwise (·.1 < ·.1)
  changesByRule : ∀ rule, Ascending.find? rule q.summary.changesByRule =
    if ∃ o ∈ q.outcomes, ∃ c ∈ o.changes, c.rule = rule then
      some (q.outcomes.map (Outcome.changesBy rule)).sum
    else none
  totalChanges : q.summary.totalChanges = (q.outcomes.map (·.changes.length)).sum
  code_one : code = 1 ↔ 0 < q.summary.failed
  code_two : code = 2 ↔ q.summary.failed = 0 ∧ mode = .check ∧ 0 < q.summary.amended
  code_zero : code = 0 ↔ q.summary.failed = 0 ∧ ¬ (mode = .check ∧ 0 < q.summary.amended)

theorem outcomes_recordAll {p : Reporter} (hreports : p.reports = []) (xs : List Settling) :
    (p.recordAll xs).outcomes = xs.map fun x => (x.report p.mode).outcome := by
  rw [outcomes, reports_recordAll, hreports, List.nil_append, List.map_map]
  rfl

theorem recordAll_reflects {p : Reporter} (hreports : p.reports = []) (hsummary : p.summary = {})
    (xs : List Settling) :
    (p.recordAll xs).Reflects ((p.recordAll xs).summary.exitCode p.mode) p.mode xs := by
  have hall := reports_recordAll xs p
  rw [hreports, List.nil_append] at hall
  have houtcomes := outcomes_recordAll hreports xs
  have htally : (p.recordAll xs).summary.IsTallyOf (p.recordAll xs).outcomes := by
    rw [summary_recordAll, hsummary, ← houtcomes]
    exact Summary.isTallyOf_nil.foldl_add _
  obtain ⟨hone, htwo, hzero⟩ := Summary.exitCode_iff p.mode (p.recordAll xs).summary
  refine ⟨hall, ?_, ?_, htally.amended, ?_, htally.changes.ascending, fun rule => ?_, ?_, hone,
    htwo, hzero⟩
  · rw [htally.descriptors, houtcomes, List.length_map]
  · rw [htally.failed, houtcomes, List.countP_map, ← Settling.countP_isFailed]
    rfl
  · rw [htally.descriptors, htally.amended, htally.failed, length_eq_add_of_outcomes]
  · have hsome : (∃ c ∈ (p.recordAll xs).outcomes.flatMap Outcome.changes, c.rule = rule) ↔
        ∃ o ∈ (p.recordAll xs).outcomes, ∃ c ∈ o.changes, c.rule = rule := by
      constructor
      · rintro ⟨c, hc, hrule⟩
        obtain ⟨o, ho, hc⟩ := List.mem_flatMap.1 hc
        exact ⟨o, ho, c, hc, hrule⟩
      · rintro ⟨o, ho, c, hc, hrule⟩
        exact ⟨c, List.mem_flatMap.2 ⟨o, ho, hc⟩, hrule⟩
    rw [htally.changes.find, List.countP_flatMap]
    exact if_congr hsome rfl rfl
  · exact htally.changes.total.trans List.length_flatMap

/-- In a fix the first revision is written, and the second has no directory to be written to. -/
example :
    let r : Except RevisionError Revision :=
      .ok ⟨⟨"foo", "main"⟩, [⟨"include", "Add dependency b"⟩], "old", some "new"⟩
    let q := recordAll ⟨.json, .fix, false, false, [], {}⟩ [⟨"a.json", r, {}⟩, ⟨"d/b.json", r, {}⟩]
    q.outcomes = [.amended [⟨"include", "Add dependency b"⟩] true,
        .failed (RevisionError.unwritable "d/b.json" .notFound).message] ∧
      q.summary = ⟨2, 1, 1, [("include", 1)]⟩ ∧ q.summary.exitCode .fix = 1 := by decide +kernel

end Reporter

namespace CommandLine

theorem load_of_file (path : Text) (t : FileTree) : Sources.load ⟨none, [path], none, []⟩ t =
    (Configuration.loadFiles t (BuildProperties.get? {}) [path]).mapError .configuration := rfl

theorem exists_amend {s : Sources} {f : FormatChoice} {format : Format} {loaded : Loaded}
    {t : FileTree} (hf : f.format = .ok format) (hs : s.load t = .ok loaded) (paths : List Text)
    (color fix verbose : Bool) : ∃ ending, amend color paths fix verbose s f t = .ok ending :=
  ⟨_, amend_eq hf hs paths color fix verbose rfl⟩

/-- **A summary says what the reports say.** However each of the descriptors fares, its counters
are a recount of the reports. So are those of a run, whose exit code tells whether a descriptor
failed or a revision is pending. -/
theorem amend_reflects (color fix verbose : Bool) :
    (∀ (format : Format) (mode : Mode) (xs : List Settling),
      let q := Reporter.recordAll ⟨format, mode, verbose, color, [], {}⟩ xs
      q.Reflects (q.summary.exitCode mode) mode xs) ∧
    ∀ {paths : List Text} {s : Sources} {f : FormatChoice} {t : FileTree} {ending : Ending},
      amend color paths fix verbose s f t = .ok ending →
        ∃ format loaded xs shown, f.format = .ok format ∧ s.load t = .ok loaded ∧
          xs.map (fun x => (x.path, x.revision)) =
            Revision.ofFiles t loaded.store (DescriptorFiles.collect t paths).files ∧
          let mode : Mode := if fix then .fix else .check
          let q := Reporter.recordAll ⟨format, mode, verbose, color, [], {}⟩ xs
          q.Reflects ending.code mode xs ∧ ending.output = shown ++ q.finish := by
  refine ⟨fun format mode xs => Reporter.recordAll_reflects rfl rfl xs, ?_⟩
  intro paths s f t ending h
  obtain ⟨format, hformat, hrest⟩ := bind_eq_ok.1 h
  obtain ⟨loaded, hloaded, -⟩ := bind_eq_ok.1 hrest
  obtain ⟨p, hp⟩ : ∃ p : Reporter,
    p = ⟨format, if fix then .fix else .check, verbose, color, [], {}⟩ := ⟨_, rfl⟩
  have hending := Except.ok.inj (h.symm.trans (amend_eq hformat hloaded paths color fix verbose hp))
  obtain ⟨xs, hxs, hall⟩ := Reporter.exists_settlings
    (Revision.ofFiles t loaded.store (DescriptorFiles.collect t paths).files) p t
  rw [hall] at hending
  subst hp
  refine ⟨format, loaded, xs, _, hformat, hloaded, hxs, ?_, congrArg Ending.output hending⟩
  rw [hending]
  exact Reporter.recordAll_reflects rfl rfl xs

/-- A check in which the first descriptor fails and the revision of the second is pending. -/
theorem amend_reflects_flawed :
    let text : Text := "\x7b\"name\":\"foo\"\x7d"
    let t : FileTree :=
      ⟨[(["bad.json"], .file (Text.Utf8.encode "[")),
        (["module.json"], .file (Text.Utf8.encode text)),
        (["a.conf"], .file (Text.Utf8.encode "module:foo\ninclude:b\n"))], []⟩
    let paths : List Text := ["bad.json", "module.json"]
    ∃ ending xs shown, amend false paths false false ⟨none, ["a.conf"], none, []⟩ {} t =
        .ok ending ∧
      let q := Reporter.recordAll ⟨.text, .check, false, false, [], {}⟩ xs
      q.Reflects ending.code .check xs ∧ ending.output = shown ++ q.finish ∧ ending.code = 1 ∧
      q.reports = [⟨none, "bad.json", .failed (RevisionError.invalid "bad.json").message⟩,
        ⟨some "foo:main".toList, "module.json",
          .amended [⟨"include", "Add dependency b"⟩] false⟩] ∧
      q.summary = ⟨2, 1, 1, [("include", 1)]⟩ := by
  intro text t paths
  have hread : t.read "a.conf" = .ok (Text.Utf8.encode "module:foo\ninclude:b\n") := by
    decide +kernel
  have hbad : t.readText "bad.json" = .ok "[" := by decide +kernel
  have hnone : Descriptor.parse? "[" = none := by decide +kernel
  have hgood : t.readText "module.json" = .ok text := by decide +kernel
  have hsome : Descriptor.parse? text = some ⟨⟨"foo", none⟩, [], []⟩ := by decide +kernel
  have hfiles : (DescriptorFiles.collect t paths).files = paths := by decide +kernel
  obtain ⟨loaded, hload, hrules⟩ : ∃ loaded,
      Configuration.loadFiles t (BuildProperties.get? {}) ["a.conf"] = .ok loaded ∧
        loaded.store.rulesOf ⟨"foo", "main"⟩ ++ loaded.store.rulesOf ModuleId.wildcard =
          [.add ⟨"b", none⟩] :=
    ⟨_, Loaded.addFiles_cons hread rfl [], rfl⟩
  have hamend : loaded.store.amend ⟨⟨"foo", none⟩, [], []⟩ =
      (⟨⟨"foo", none⟩, [], [⟨⟨"b", none⟩, false, false⟩]⟩, [⟨"include", "Add dependency b"⟩]) :=
    (RuleStore.amend_of_rules ⟨⟨"foo", none⟩, [], []⟩ hrules).trans rfl
  have hs : Sources.load ⟨none, ["a.conf"], none, []⟩ t = .ok loaded := by
    rw [load_of_file, hload]
    rfl
  obtain ⟨ending, hrun⟩ := exists_amend (f := {}) rfl hs paths false false false
  obtain ⟨format, loaded', xs, shown, hformat, hs', hxs, hreflects, houtput⟩ :=
    (amend_reflects false false false).2 hrun
  cases hformat
  cases hs.symm.trans hs'
  simp only [Bool.false_eq_true, if_false] at hreflects houtput
  have hreports := hreflects.reports
  rw [Settling.map_report_check xs t, hxs, hfiles] at hreports
  simp only [paths, Revision.ofFiles, List.map_cons, List.map_nil, Revision.ofFile, hbad, hnone,
    hgood, hsome, Revision.of, hamend] at hreports
  have hsummary := Reporter.summary_recordAll xs ⟨.text, .check, false, false, [], {}⟩
  rw [← Reporter.outcomes_recordAll rfl, Reporter.outcomes, hreports] at hsummary
  have hfailed : ending.code = 1 := hreflects.code_one.2 (by rw [hsummary]; decide)
  exact ⟨ending, xs, shown, hrun, hreflects, houtput, hfailed, hreports, hsummary⟩

end CommandLine

end ModuleRules
