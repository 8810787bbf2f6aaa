import ModuleRules.CommandLine.Run
import ModuleRules.Proofs.Configuration.Discovery
import ModuleRules.Proofs.File.Overwrite
import ModuleRules.Proofs.Rule.Entries

/-!
# What a run leaves behind

All descriptors are read before any is written, so a file that several paths
lead to is still revised once: each write puts there what the rules make of
the first content. No other entry changes (`amend_once`).
-/

namespace ModuleRules

/-- What a descriptor's file holds after the rules, if these change anything. -/
def RuleStore.amendBytes? (store : RuleStore) (content : Bytes) : Option Bytes :=
  ((Text.Utf8.decode? content).bind Descriptor.parse?).bind fun d =>
    if (store.amend d).2 = [] then none else some (Text.Utf8.encode (store.amend d).1.render)

theorem RuleStore.amendBytes?_encode {store : RuleStore} {text : Text} {d d' : Descriptor}
    {c : Change} {cs : List Change} (hd : Descriptor.parse? text = some d)
    (h : store.amend d = (d', c :: cs)) :
    store.amendBytes? (Text.Utf8.encode text) = some (Text.Utf8.encode d'.render) := by
  rw [amendBytes?, Text.Utf8.decode?_encode, Option.bind_some, hd, Option.bind_some, h]
  rfl

def Entry.amended (store : RuleStore) : Entry → Entry
  | file content => file ((store.amendBytes? content).getD content)
  | directory => directory

/-- In `u` the files that the paths lead to in `t` are amended, and all else is as in `t`. -/
structure FileTree.IsAmended (store : RuleStore) (t : FileTree) (paths : List Text)
    (u : FileTree) : Prop where
  working : u.workingDirectory = t.workingDirectory
  entry : ∀ l, u.entry? l =
    if ∃ p ∈ paths, t.resolve p = .ok l then (t.entry? l).map (Entry.amended store) else t.entry? l

variable {store : RuleStore} {t u : FileTree} {l : Location} {path : Text}

theorem Entry.isDirectory_amended (e : Entry) : (e.amended store).isDirectory = e.isDirectory := by
  cases e <;> rfl

theorem FileTree.isAmended_nil (store : RuleStore) (t : FileTree) : t.IsAmended store [] t :=
  ⟨rfl, by simp⟩

namespace FileTree.IsAmended

variable {paths : List Text}

theorem isShapedAs (h : t.IsAmended store paths u) : u.IsShapedAs t where
  working := h.working
  kind l := by
    rw [h.entry]
    split
    · cases t.entry? l <;> simp [Entry.isDirectory_amended]
    · rfl

theorem concat_of_kept (h : t.IsAmended store paths u)
    (hkept : ∀ l, t.resolve path = .ok l → (t.entry? l).map (Entry.amended store) = t.entry? l) :
    t.IsAmended store (paths ++ [path]) u := by
  refine ⟨h.working, fun l => ?_⟩
  rw [h.entry]
  by_cases hl : t.resolve path = .ok l
  · simp [hl, hkept l hl]
  · simp [or_and_right, exists_or, hl]

theorem concat_put (h : t.IsAmended store paths u) (hpath : t.resolve path = .ok l) {e : Entry}
    (he : t.entry? l = some e) (hl : l ≠ []) :
    t.IsAmended store (paths ++ [path]) (u.put l (e.amended store)) := by
  refine ⟨h.working, fun k => ?_⟩
  rw [entry?_put hl, h.entry]
  by_cases hk : k = l
  · simp [hk, hpath, he]
  · have hne : ¬ t.resolve path = .ok k := by
      rw [hpath]
      rintro ⟨⟩
      exact hk rfl
    simp [hk, or_and_right, exists_or, hne]

end FileTree.IsAmended

/-! ## One descriptor -/

theorem FileTree.readText_eq {content : Bytes} (hpath : t.resolve path = .ok l)
    (hl : t.entry? l = some (.file content)) : t.readText path = decode content := by
  simp [readText, read, look, hpath, hl, bind, Except.bind]

theorem FileTree.readText_of_no_file (h : ∀ l content, t.resolve path = .ok l →
    t.entry? l ≠ some (.file content)) : ∃ fault, t.readText path = .error fault := by
  unfold readText read look
  cases hpath : t.resolve path with
  | error fault => exact ⟨fault, rfl⟩
  | ok l =>
    cases hl : t.entry? l with
    | none => exact ⟨.notFound, by simp [bind, Except.bind, hl]⟩
    | some e =>
      cases e with
      | file content => exact absurd hl (h l content hpath)
      | directory => exact ⟨.isDirectory, by simp [bind, Except.bind, hl]⟩

def Revision.text? : Except RevisionError Revision → Option Text
  | .ok r => r.after
  | .error _ => none

theorem Revision.text?_ofFile {content : Bytes} (hpath : t.resolve path = .ok l)
    (hl : t.entry? l = some (.file content)) :
    (text? (ofFile t store path)).map Text.Utf8.encode = store.amendBytes? content := by
  unfold ofFile RuleStore.amendBytes?
  rw [FileTree.readText_eq hpath hl, FileTree.decode]
  cases Text.Utf8.decode? content with
  | none => rfl
  | some text =>
    simp only [Option.bind_some]
    cases Descriptor.parse? text with
    | none => rfl
    | some d =>
      simp only [text?, of, Option.bind_some]
      split <;> rfl

theorem Revision.text?_of_no_file (h : ∀ l content, t.resolve path = .ok l →
    t.entry? l ≠ some (.file content)) : text? (ofFile t store path) = none := by
  obtain ⟨fault, hread⟩ := FileTree.readText_of_no_file h
  simp [ofFile, hread, text?]

def Outcome.written : Outcome → Outcome
  | amended changes _ => amended changes true
  | o => o

def Report.written (r : Report) : Report := { r with outcome := r.outcome.written }

namespace Report

variable {r : Except RevisionError Revision} {mode : Mode}

theorem settle_of_text?_eq_none (h : Revision.text? r = none) (mode : Mode) (path : Text)
    (u : FileTree) :
    settle mode path r u = ((settle .check path r t).1, u) ∧
      (settle .check path r t).1.written = (settle .check path r t).1 := by
  cases r with
  | error e => exact ⟨rfl, rfl⟩
  | ok r =>
    have hafter : r.after = none := h
    simp [settle, hafter, written, Outcome.written]

theorem settle_fix_of_write {new : Text} {v : FileTree} (h : Revision.text? r = some new)
    (hwrite : u.write path (Text.Utf8.encode new) = .ok v) :
    settle .fix path r u = ((settle .check path r t).1.written, v) := by
  cases r with
  | error e => cases h
  | ok r =>
    have hafter : r.after = some new := h
    simp [settle, hafter, Revision.writeText, hwrite, Except.mapError, written, Outcome.written]

/-- A check neither looks at the tree nor changes it. -/
theorem settle_check_eq (path : Text) (r : Except RevisionError Revision) (t u : FileTree) :
    settle .check path r u = ((settle .check path r t).1, u) := by
  cases r with
  | error e => rfl
  | ok r =>
    obtain ⟨id, changes, before, after⟩ := r
    cases after <;> rfl

/-- One write amends the file that its path leads to, whatever was written before. -/
theorem settle_fix (ht : t.IsSound) {paths : List Text} (h : t.IsAmended store paths u)
    (path : Text) : ∃ v, t.IsAmended store (paths ++ [path]) v ∧
      settle .fix path (Revision.ofFile t store path) u =
        ((settle .check path (Revision.ofFile t store path) t).1.written, v) := by
  by_cases hfile : ∃ l content, t.resolve path = .ok l ∧ t.entry? l = some (.file content)
  · obtain ⟨l, content, hpath, hl⟩ := hfile
    have htext := @Revision.text?_ofFile store t l path content hpath hl
    cases hnew : Revision.text? (Revision.ofFile t store path) with
    | none =>
      rw [hnew] at htext
      obtain ⟨hsettle, hwritten⟩ := settle_of_text?_eq_none (t := t) hnew .fix path u
      refine ⟨u, h.concat_of_kept fun k hk => ?_, by rw [hsettle, hwritten]⟩
      cases hpath.symm.trans hk
      simp [hl, Entry.amended, ← htext]
    | some new =>
      -- the revision was found in `t`, so a second path to the file writes the same bytes again
      rw [hnew] at htext
      have hwrite := FileTree.write_of_resolve ht h.isShapedAs hpath hl (Text.Utf8.encode new)
      refine ⟨_, ?_, settle_fix_of_write hnew hwrite⟩
      have hput := h.concat_put hpath hl (FileTree.ne_nil_of_file hl)
      rwa [Entry.amended, ← htext] at hput
  · have hnone : Revision.text? (Revision.ofFile t store path) = none :=
      Revision.text?_of_no_file fun l content hpath hl => hfile ⟨l, content, hpath, hl⟩
    obtain ⟨hsettle, hwritten⟩ := settle_of_text?_eq_none (t := t) hnone .fix path u
    refine ⟨u, h.concat_of_kept fun k hk => ?_, by rw [hsettle, hwritten]⟩
    cases he : t.entry? k with
    | none => rfl
    | some e =>
      cases e with
      | file content => exact absurd ⟨k, content, hk, he⟩ hfile
      | directory => rfl

end Report

/-! ## Many descriptors -/

theorem Output.empty_append (a : Output) : {} ++ a = a := rfl

theorem Output.append_empty (a : Output) : a ++ {} = a :=
  congrArg₂ Output.mk (List.append_nil _) (List.append_nil _)

def Revision.ofFiles (t : FileTree) (store : RuleStore) (paths : List Text) :
    List (Text × Except RevisionError Revision) :=
  paths.map fun path => (path, ofFile t store path)

theorem Revision.ofFiles_cons (t : FileTree) (store : RuleStore) (path : Text)
    (rest : List Text) : ofFiles t store (path :: rest) =
      (path, ofFile t store path) :: ofFiles t store rest := rfl

namespace Reporter

/-- The reporter that has settled the same descriptors, and has written them. -/
def fixed (p : Reporter) : Reporter :=
  { p with mode := .fix, reports := p.reports.map Report.written }

theorem record_fixed (p : Reporter) (r : Report) (diff : Option Text) :
    (p.fixed.record r.written diff).1 = (p.record r diff).1.fixed := by
  obtain ⟨id, path, outcome⟩ := r
  cases outcome <;> simp [record, fixed, Report.written, Outcome.written, Summary.add]

theorem showReport_fixed {p : Reporter} (hp : p.format = .diff) (r : Report) (diff : Option Text) :
    p.fixed.showReport r.written diff = p.showReport r diff := by
  obtain ⟨id, path, outcome⟩ := r
  cases outcome <;> simp [showReport, fixed, Report.written, Outcome.written, hp]

def diff? (p : Reporter) (path : Text) (r : Except RevisionError Revision) : Option Text :=
  if p.format = .diff then Revision.diff? path r else none

theorem settleAll_cons_eq {p : Reporter} {r : Except RevisionError Revision} {report : Report}
    (rs : List (Text × Except RevisionError Revision))
    (h : Report.settle p.mode path r t = (report, u)) :
    p.settleAll t ((path, r) :: rs) =
      (((p.record report (p.diff? path r)).1.settleAll u rs).1,
        p.showReport report (p.diff? path r) ++
          ((p.record report (p.diff? path r)).1.settleAll u rs).2.1,
        ((p.record report (p.diff? path r)).1.settleAll u rs).2.2) := by
  rw [settleAll, h]
  rfl

theorem format_settleAll (rs : List (Text × Except RevisionError Revision)) (p : Reporter)
    (t : FileTree) : (p.settleAll t rs).1.format = p.format := by
  induction rs generalizing p t with
  | nil => rfl
  | cons r rs ih => exact ih ..

theorem showReport_json {p : Reporter} (hp : p.format = .json) (r : Report)
    (diff : Option Text) : p.showReport r diff = {} := by
  obtain ⟨id, path, outcome⟩ := r
  cases outcome <;> simp [showReport, hp]

theorem shown_json (rs : List (Text × Except RevisionError Revision)) {p : Reporter}
    (hp : p.format = .json) (t : FileTree) : (p.settleAll t rs).2.1 = {} := by
  induction rs generalizing p t with
  | nil => rfl
  | cons r rs ih =>
    rw [settleAll_cons_eq rs (Prod.eta _).symm, showReport_json hp]
    exact ih (p := (p.record _ _).1) hp _

theorem finish_fixed {p : Reporter} (hp : p.format = .diff) : p.fixed.finish = p.finish := by
  simp [finish, fixed, hp]

/-- A fix goes as a check does, but amends the files on the way. -/
theorem settleAll_fixed (ht : t.IsSound) (rest : List Text) {done : List Text} {u : FileTree}
    {p : Reporter} (h : t.IsAmended store done u) (hp : p.mode = .check) :
    (p.settleAll t (Revision.ofFiles t store rest)).2.2 = t ∧
      (p.fixed.settleAll u (Revision.ofFiles t store rest)).1 =
        (p.settleAll t (Revision.ofFiles t store rest)).1.fixed ∧
      (p.format = .diff → (p.fixed.settleAll u (Revision.ofFiles t store rest)).2.1 =
        (p.settleAll t (Revision.ofFiles t store rest)).2.1) ∧
      t.IsAmended store (done ++ rest)
        (p.fixed.settleAll u (Revision.ofFiles t store rest)).2.2 := by
  -- the check stays in `t`, while the fix has amended the files of `done`
  induction rest generalizing done u p with
  | nil => exact ⟨rfl, rfl, fun _ => rfl, by rwa [List.append_nil]⟩
  | cons path rest ih =>
    obtain ⟨v, hv, hfix⟩ := Report.settle_fix ht h path
    have hsettle := Report.settle_check_eq path (Revision.ofFile t store path) t t
    rw [Revision.ofFiles_cons]
    generalize Revision.ofFile t store path = r at hfix hsettle
    generalize (Report.settle .check path r t).1 = report at hfix hsettle
    have hcheck : Report.settle p.mode path r t = (report, t) := hp ▸ hsettle
    obtain ⟨ihtree, ihreports, ihshown, ihamended⟩ :=
      ih hv (p := (p.record report (p.diff? path r)).1) hp
    rw [← record_fixed] at ihreports ihshown ihamended
    rw [settleAll_cons_eq _ hcheck, settleAll_cons_eq (p := p.fixed) _ hfix]
    refine ⟨ihtree, ihreports, fun hformat => ?_, ?_⟩
    · exact congrArg₂ (· ++ ·) (showReport_fixed hformat ..) (ihshown hformat)
    · rwa [List.append_assoc] at ihamended

end Reporter

theorem FileTree.IsAmended.of_perm {paths paths' : List Text} (h : t.IsAmended store paths u)
    (hperm : paths.Perm paths') : t.IsAmended store paths' u :=
  ⟨h.working, fun l => by simpa only [hperm.mem_iff] using h.entry l⟩

namespace CommandLine

theorem load_of_no_sources (t : FileTree) : Sources.load {} t =
    (Configuration.loadProject t (BuildProperties.get? {}) t.workingPath).mapError
      (.projectConfiguration t.workingPath) := rfl

theorem amend_eq {s : Sources} {f : FormatChoice} {format : Format} {loaded : Loaded}
    (hf : f.format = .ok format) (hs : s.load t = .ok loaded) (paths : List Text)
    (color fix verbose : Bool) {p : Reporter}
    (hp : p = ⟨format, if fix then .fix else .check, verbose, color, [], {}⟩) :
    let (q, shown, u) := p.settleAll t
      (Revision.ofFiles t loaded.store (DescriptorFiles.collect t paths).files)
    amend color paths fix verbose s f t = .ok ⟨q.summary.exitCode p.mode,
      (if verbose ∧ format = .text then showSources color loaded else {}) ++
        showMissing color (DescriptorFiles.collect t paths).missing ++ shown ++ q.finish, u⟩ := by
  subst hp
  unfold amend
  rw [hf, hs]
  rfl

/-- **Each file is amended once, and no other entry changes.** A run that fixes leaves every file
that a collected path leads to as the rules make it from its first content, however many paths
lead there, and a run that checks leaves the tree as it was. In whatever order the descriptors are
settled, this is so and the two runs report the same on each, save that a fix has written. -/
theorem amend_once {s : Sources} {f : FormatChoice} {format : Format} {loaded : Loaded}
    (ht : t.IsSound) (hf : f.format = .ok format) (hs : s.load t = .ok loaded) (color : Bool)
    (paths : List Text) (verbose : Bool) :
    ∃ fixed checked, amend color paths true verbose s f t = .ok fixed ∧
      amend color paths false verbose s f t = .ok checked ∧
      t.IsAmended loaded.store (DescriptorFiles.collect t paths).files fixed.tree ∧
      checked.tree = t ∧ (format = .diff → fixed.output = checked.output) ∧
      (format = .json → ∃ q : Reporter, q.format = .json ∧
        checked.output = showMissing color (DescriptorFiles.collect t paths).missing ++ q.finish ∧
        fixed.output =
          showMissing color (DescriptorFiles.collect t paths).missing ++ q.fixed.finish) ∧
      ∀ (order : List Text) (p : Reporter),
        order.Perm (DescriptorFiles.collect t paths).files → p.mode = .check →
          let revisions := Revision.ofFiles t loaded.store order
          t.IsAmended loaded.store (DescriptorFiles.collect t paths).files
              (p.fixed.settleAll t revisions).2.2 ∧
            (p.settleAll t revisions).2.2 = t ∧
            (p.fixed.settleAll t revisions).1 = (p.settleAll t revisions).1.fixed ∧
            (p.format = .diff →
              (p.fixed.settleAll t revisions).2.1 = (p.settleAll t revisions).2.1) := by
  have hrun (order : List Text) {p : Reporter} (hp : p.mode = .check) :=
    Reporter.settleAll_fixed ht order (FileTree.isAmended_nil loaded.store t) hp
  obtain ⟨p, hp⟩ : ∃ p : Reporter, p = ⟨format, .check, verbose, color, [], {}⟩ := ⟨_, rfl⟩
  have hcheck : p.mode = .check := hp ▸ rfl
  have hformat : p.format = format := hp ▸ rfl
  have hchecked := amend_eq hf hs paths color false verbose hp
  have hfixed := amend_eq hf hs paths color true verbose (p := p.fixed) (hp ▸ rfl)
  obtain ⟨htree, hreports, hshown, hamended⟩ := hrun (DescriptorFiles.collect t paths).files hcheck
  generalize Revision.ofFiles t loaded.store (DescriptorFiles.collect t paths).files = rs at *
  have hlast := (Reporter.format_settleAll rs p t).trans hformat
  refine ⟨_, _, hfixed, hchecked, hamended, htree, fun hdiff => ?_, fun hjson => ?_,
    fun order p hperm hp => ?_⟩
  · have hfinish := congrArg Reporter.finish hreports
    rw [Reporter.finish_fixed (hlast.trans hdiff)] at hfinish
    rw [hfinish, hshown (hformat.trans hdiff)]
  · have hnone := Reporter.shown_json rs (hformat.trans hjson) t
    have hnone' := Reporter.shown_json rs (p := p.fixed) (hformat.trans hjson) t
    have hstart : ¬ (verbose = true ∧ format = .text) := by simp [hjson]
    refine ⟨_, hlast.trans hjson, ?_, ?_⟩
    · rw [hnone, if_neg hstart, Output.empty_append, Output.append_empty]
    · rw [hnone', if_neg hstart, hreports, Output.empty_append, Output.append_empty]
  · obtain ⟨htree, hreports, hshown, hamended⟩ := hrun order hp
    exact ⟨hamended.of_perm hperm, htree, hreports, hshown⟩

theorem amend_once_of_alias :
    let text : Text := "\x7b\"name\":\"foo\"\x7d"
    let t : FileTree :=
      ⟨[(["d"], .directory), (["module.json"], .file (Text.Utf8.encode text)),
        ([Configuration.fileName], .file (Text.Utf8.encode "module:foo\ninclude:b\n"))], []⟩
    let paths : List Text := ["module.json", "d/../module.json"]
    let amended : Descriptor := ⟨⟨"foo", none⟩, [], [⟨⟨"b", none⟩, false, false⟩]⟩
    ∃ fixed checked, amend false paths true false {} {} t = .ok fixed ∧
      amend false paths false false {} {} t = .ok checked ∧
      (DescriptorFiles.collect t paths).files =
        (["d/../module.json", "module.json"] : List Text) ∧
      fixed.tree.entry? ["module.json"] = some (.file (Text.Utf8.encode amended.render)) ∧
      checked.tree = t := by
  intro text t paths amended
  have hread : t.read "/module-rewrite.conf" =
      .ok (Text.Utf8.encode "module:foo\ninclude:b\n") := by decide +kernel
  have hparse : Descriptor.parse? text = some ⟨⟨"foo", none⟩, [], []⟩ := by decide +kernel
  have hfiles : (DescriptorFiles.collect t paths).files =
      (["d/../module.json", "module.json"] : List Text) := by decide +kernel
  have hstart : Path.absolute t.workingPath t.workingPath = .ok "/" := by decide +kernel
  have hfound : Configuration.discover t "/" = (["/module-rewrite.conf"] : List Text) := by
    decide +kernel
  obtain ⟨loaded, hload, hrules⟩ : ∃ loaded,
      Configuration.loadProject t (BuildProperties.get? {}) t.workingPath = .ok loaded ∧
        loaded.store.rulesOf ⟨"foo", "main"⟩ ++ loaded.store.rulesOf ModuleId.wildcard =
          [.add ⟨"b", none⟩] :=
    ⟨_, (Configuration.load_eq hstart hfound).trans (Loaded.addFiles_cons hread rfl _), rfl⟩
  have hamend : loaded.store.amend ⟨⟨"foo", none⟩, [], []⟩ =
      (amended, [⟨"include", "Add dependency b"⟩]) :=
    (RuleStore.amend_of_rules ⟨⟨"foo", none⟩, [], []⟩ hrules).trans rfl
  have hs : Sources.load {} t = .ok loaded := by
    rw [load_of_no_sources, hload]
    rfl
  obtain ⟨fixed, checked, hfixed, hchecked, htree, hsame, -⟩ :=
    amend_once (f := {}) (by decide +kernel) rfl hs false paths false
  refine ⟨fixed, checked, hfixed, hchecked, hfiles, ?_, hsame⟩
  have hentry : t.entry? ["module.json"] = some (.file (Text.Utf8.encode text)) := by decide +kernel
  have hleads : t.resolve "module.json" = .ok ["module.json"] := by decide +kernel
  have hbytes := RuleStore.amendBytes?_encode hparse hamend
  rw [htree.entry, if_pos ⟨_, by simp [hfiles], hleads⟩, hentry]
  simp [Entry.amended, hbytes]

end CommandLine

end ModuleRules
