import ModuleRules.Proofs.Configuration.Meaning
import ModuleRules.Proofs.Descriptor.Json
import ModuleRules.Proofs.Report.Check
import ModuleRules.Proofs.Rule.Entries

/-!
# What a revision writes

The text after the rules reads back as the descriptor that the rules left when
the versions in it are segments and no plain coordinate looks like an
expression (`parse?_after_iff`). It is the text before the rules when these
leave every entry as it is written (`after_eq_before_iff`), and even then the
revision is pending: a check reports it.
-/

namespace ModuleRules

open Text

/-! ## Descriptors that stay as they are written -/

theorem map_append_eq_self_iff {α : Type} {f : α → α} {xs ys : List α} :
    xs.map f ++ ys = xs ↔ ys = [] ∧ ∀ x ∈ xs, f x = x := by
  constructor
  · intro h
    have hys : ys = [] := by
      have := congrArg List.length h
      rw [List.length_append, List.length_map] at this
      exact List.eq_nil_of_length_eq_zero (by omega)
    rw [hys, List.append_nil] at h
    exact ⟨hys, List.map_inj_left.1 (h.trans (List.map_id xs).symm)⟩
  · rintro ⟨rfl, h⟩
    rw [List.append_nil]
    exact (List.map_inj_left.2 h).trans (List.map_id xs)

theorem map_filterMap_eq_map_iff {α β : Type} {f : α → Option α} {g : α → β} : ∀ {xs : List α},
    (xs.filterMap f).map g = xs.map g ↔ ∀ x ∈ xs, ∃ y, f x = some y ∧ g y = g x
  | [] => by simp
  | x :: xs => by
    rw [List.forall_mem_cons, ← map_filterMap_eq_map_iff]
    cases hx : f x with
    | none =>
      have hlength := List.length_filterMap_le f xs
      rw [List.filterMap_cons_none hx]
      refine iff_of_false (fun h => ?_) (by simp)
      have := congrArg List.length h
      simp only [List.length_map, List.length_cons] at this
      omega
    | some y =>
      rw [List.filterMap_cons_some hx]
      simp

/-- The rules leave every entry as it is written, and bring in none. -/
structure Descriptor.KeptBy (d : Descriptor) (rs : List Rule) : Prop where
  dependencies : ∀ x ∈ d.dependencies, x.through rs = x
  resources : ∀ x ∈ d.resources, ∃ y, x.through rs = some y ∧ y.toJson = x.toJson
  newcomers : ∀ r ∈ rs, r.newcomer? = none

theorem Descriptor.render_apply_eq_iff {d : Descriptor} {rs : List Rule} :
    (RuleSet.apply rs d).1.render = d.render ↔ d.KeptBy rs := by
  rw [render_eq_iff, toJson_eq_iff (self_apply rs d), resources_apply, dependencies_apply,
    map_filterMap_eq_map_iff, map_append_eq_self_iff, newcomers_eq_nil_iff]
  exact ⟨fun ⟨h, h', h''⟩ => ⟨h'', h, h'⟩, fun h => ⟨h.resources, h.newcomers, h.dependencies⟩⟩

/-! ## Revisions -/

namespace Revision

variable {tree : FileTree} {store : RuleStore} {path : Text} {rev : Revision}

theorem ofFile_eq_ok : ofFile tree store path = .ok rev ↔ ∃ text d,
    tree.readText path = .ok text ∧ Descriptor.parse? text = some d ∧ rev = of store d := by
  unfold ofFile
  cases tree.readText path with
  | error fault => simp
  | ok text =>
    simp only [Except.ok.injEq, exists_and_left, exists_eq_left']
    cases Descriptor.parse? text <;> simp [eq_comm]

theorem after_of {d : Descriptor} {new : Text} (h : (of store d).after = some new) :
    new = (store.amend d).1.render := by
  simp only [of] at h
  split at h
  next => cases h
  next => exact (Option.some.inj h).symm

/-- The revision of a file that holds `d`, when the rules have something to do. -/
theorem ofFile_of_amend {text : Text} {d d' : Descriptor} {c : Change} {cs : List Change}
    (htext : tree.readText path = .ok text) (hd : Descriptor.parse? text = some d)
    (h : store.amend d = (d', c :: cs)) :
    ofFile tree store path = .ok ⟨d.identity, c :: cs, d.render, some d'.render⟩ := by
  refine ofFile_eq_ok.2 ⟨text, d, htext, hd, ?_⟩
  simp [of, h]

/-! ## Reading back -/

/-- What can keep an amended coordinate from reading back, since the rest of it was read. -/
theorem isStable_iff_of_parse? {text : Text} {d : Descriptor} (hd : Descriptor.parse? text = some d)
    {c : Coordinate} (hc : .artifact c ∈ (store.amend d).1.resources) :
    c.IsStable ↔ (∀ v ∈ c.version, IsSegment v) ∧
      (c.expression = false → placeholder? c.bareText = none) := by
  have hsound : c.segments.IsSound ↔ ∀ v ∈ c.version, IsSegment v := by
    rw [RuleStore.amend, resources_apply, List.mem_filterMap] at hc
    obtain ⟨x, hx, hthrough⟩ := hc
    rcases Resource.through_eq_some hthrough with rfl | ⟨c₀, version, rfl, heq⟩
    · have h := Descriptor.isSound_of_parse? hd hx
      exact iff_of_true h h.third
    · have h := Descriptor.isSound_of_parse? hd hx
      cases heq
      exact ⟨fun h' => h'.third, fun hv => ⟨h.group, h.artifact, hv, h.fourth⟩⟩
  rw [← hsound]
  exact ⟨fun h => ⟨h.segments, h.plain⟩, fun h => ⟨h.1, h.2⟩⟩

/-- **What is written reads back** if and only if each version of the amended descriptor is a
segment and no coordinate that is not written as an expression looks like one. -/
theorem parse?_after_iff {new : Text} (h : ofFile tree store path = .ok rev)
    (hnew : rev.after = some new) : ∃ text d,
      tree.readText path = .ok text ∧ Descriptor.parse? text = some d ∧
        (Descriptor.parse? new = some (store.amend d).1 ↔
          ∀ c, .artifact c ∈ (store.amend d).1.resources →
            (∀ v ∈ c.version, IsSegment v) ∧
              (c.expression = false → placeholder? c.bareText = none)) := by
  obtain ⟨text, d, htext, hd, rfl⟩ := ofFile_eq_ok.1 h
  refine ⟨text, d, htext, hd, ?_⟩
  rw [after_of hnew, Descriptor.parse?_render_iff]
  constructor
  · intro hstable c hc
    exact (isStable_iff_of_parse? hd hc).1 (hstable _ hc)
  · intro hall r hr
    cases r with
    | root => trivial
    | artifact c => exact (isStable_iff_of_parse? hd hr).2 (hall c hr)

theorem parse?_after_of_forced :
    let text : Text := "\x7b\"name\":\"foo\",\"resources\":[\x7b\"artifact\":\"g:a:1\"\x7d]\x7d"
    let tree : FileTree := ⟨[(["module.json"], .file (Utf8.encode text))], []⟩
    let sources : List (Text × Text) := [("a.conf", "module:foo\nforce-artifact-version:g:a=2\n")]
    let amended : Descriptor := ⟨⟨"foo", none⟩, [.artifact ⟨"g", "a", some "2", none, false⟩], []⟩
    ∃ l rev new, Loaded.addTexts Properties.none sources {} = .ok l ∧
      ofFile tree l.store "module.json" = .ok rev ∧ rev.after = some new ∧
        Descriptor.parse? new = some amended := by
  intro text tree sources amended
  have hread : tree.readText "module.json" = .ok text := by decide +kernel
  have hparse : Descriptor.parse? text =
      some ⟨⟨"foo", none⟩, [.artifact ⟨"g", "a", some "1", none, false⟩], []⟩ := by decide +kernel
  obtain ⟨l, hl, hamend⟩ : ∃ l, Loaded.addTexts Properties.none sources {} = .ok l ∧
      l.store.amend ⟨⟨"foo", none⟩, [.artifact ⟨"g", "a", some "1", none, false⟩], []⟩ =
        (amended, [⟨"force-artifact-version", "Set version of g:a to 2"⟩]) := ⟨_, rfl, rfl⟩
  have hrev := ofFile_of_amend hread hparse hamend
  refine ⟨l, _, _, hl, hrev, rfl, ?_⟩
  obtain ⟨text', d, htext, hd, hiff⟩ := parse?_after_iff hrev rfl
  rw [hread] at htext
  cases htext
  rw [hparse] at hd
  cases hd
  rw [hamend] at hiff
  refine hiff.2 fun c hc => ?_
  cases List.mem_singleton.1 hc
  decide

theorem parse?_after_of_colons :
    let text : Text := "\x7b\"name\":\"foo\",\"resources\":[\x7b\"artifact\":\"g:a:1\"\x7d]\x7d"
    let tree : FileTree := ⟨[(["module.json"], .file (Utf8.encode text))], []⟩
    let sources : List (Text × Text) :=
      [("a.conf", "module:foo\nforce-artifact-version:g:a=1:2:3\n")]
    ∃ l rev new, Loaded.addTexts Properties.none sources {} = .ok l ∧
      ofFile tree l.store "module.json" = .ok rev ∧ rev.after = some new ∧
        Descriptor.parse? new = none := by
  intro text tree sources
  have hread : tree.readText "module.json" = .ok text := by decide +kernel
  have hparse : Descriptor.parse? text =
      some ⟨⟨"foo", none⟩, [.artifact ⟨"g", "a", some "1", none, false⟩], []⟩ := by decide +kernel
  obtain ⟨l, hl, hamend⟩ : ∃ l, Loaded.addTexts Properties.none sources {} = .ok l ∧
      l.store.amend ⟨⟨"foo", none⟩, [.artifact ⟨"g", "a", some "1", none, false⟩], []⟩ =
        (⟨⟨"foo", none⟩, [.artifact ⟨"g", "a", some "1:2:3", none, false⟩], []⟩,
          [⟨"force-artifact-version", "Set version of g:a to 1:2:3"⟩]) := ⟨_, rfl, rfl⟩
  refine ⟨l, _, _, hl, ofFile_of_amend hread hparse hamend, rfl, ?_⟩
  decide +kernel

/-! ## Pending revisions -/

/-- **A pending revision changes the text** unless the rules leave every entry as it is written
and bring in none. A check counts it all the same, and ends with 2 when nothing fails. -/
theorem after_eq_before_iff {new : Text} (h : ofFile tree store path = .ok rev)
    (hnew : rev.after = some new) : ∃ text d,
      tree.readText path = .ok text ∧ Descriptor.parse? text = some d ∧
        (new = rev.before ↔
          d.KeptBy (store.rulesOf d.identity ++ store.rulesOf ModuleId.wildcard)) ∧
        (Report.settle .check path (.ok rev) tree).1.outcome = .amended rev.changes false ∧
        ∀ (p : Reporter) (rs : List (Text × Except RevisionError Revision)),
          p.mode = .check → p.summary = {} → (path, .ok rev) ∈ rs → (∀ r ∈ rs, r.2.isOk = true) →
            (p.settleAll tree rs).1.summary.exitCode .check = 2 := by
  obtain ⟨text, d, htext, hd, rfl⟩ := ofFile_eq_ok.1 h
  refine ⟨text, d, htext, hd, ?_, ?_, fun p rs hmode hsummary hmem hok => ?_⟩
  · rw [after_of hnew, ← RuleStore.rulesFor_eq]
    exact Descriptor.render_apply_eq_iff
  · simp only [Report.settle, hnew]
  · rw [Reporter.exitCode_settleAll rs p tree hmode hsummary]
    exact ⟨hok, _, hmem, by rw [isPending, hnew]; rfl⟩

theorem after_ne_before_of_made_optional :
    let text : Text := "\x7b\"name\":\"foo\",\"dependencies\":[\x7b\"name\":\"b\"\x7d]\x7d"
    let tree : FileTree := ⟨[(["module.json"], .file (Utf8.encode text))], []⟩
    let sources : List (Text × Text) := [("a.conf", "module:foo\noptional:b\n")]
    ∃ l rev new, Loaded.addTexts Properties.none sources {} = .ok l ∧
      ofFile tree l.store "module.json" = .ok rev ∧ rev.after = some new ∧ new ≠ rev.before := by
  intro text tree sources
  have hread : tree.readText "module.json" = .ok text := by decide +kernel
  have hparse : Descriptor.parse? text =
      some ⟨⟨"foo", none⟩, [], [⟨⟨"b", none⟩, false, false⟩]⟩ := by decide +kernel
  obtain ⟨l, hl, hrules, hamend⟩ : ∃ l, Loaded.addTexts Properties.none sources {} = .ok l ∧
      l.store.rulesOf ⟨"foo", "main"⟩ ++ l.store.rulesOf ModuleId.wildcard =
        [.makeOptional ⟨"b", "main"⟩] ∧
      l.store.amend ⟨⟨"foo", none⟩, [], [⟨⟨"b", none⟩, false, false⟩]⟩ =
        (⟨⟨"foo", none⟩, [], [⟨⟨"b", none⟩, true, false⟩]⟩,
          [⟨"optional", "Mark dependency b:main optional"⟩]) := ⟨_, rfl, rfl, rfl⟩
  have hrev := ofFile_of_amend hread hparse hamend
  refine ⟨l, _, _, hl, hrev, rfl, ?_⟩
  obtain ⟨text', d, htext, hd, hiff, -⟩ := after_eq_before_iff hrev rfl
  rw [hread] at htext
  cases htext
  rw [hparse] at hd
  cases hd
  rw [Ne, hiff]
  intro hkept
  have hid : Descriptor.identity ⟨⟨"foo", none⟩, [], [⟨⟨"b", none⟩, false, false⟩]⟩ =
    ⟨"foo", "main"⟩ := rfl
  have hthrough := hkept.dependencies _ (List.mem_singleton.2 rfl)
  rw [hid, hrules] at hthrough
  revert hthrough
  decide

theorem after_eq_before_of_optional :
    let text : Text :=
      "\x7b\"name\":\"foo\",\"dependencies\":[\x7b\"name\":\"b\",\"optional\":true\x7d]\x7d"
    let tree : FileTree := ⟨[(["module.json"], .file (Utf8.encode text))], []⟩
    let sources : List (Text × Text) := [("a.conf", "module:foo\noptional:b\n")]
    let reporter : Reporter := ⟨.text, .check, false, false, [], {}⟩
    ∃ l rev, Loaded.addTexts Properties.none sources {} = .ok l ∧
      ofFile tree l.store "module.json" = .ok rev ∧ rev.after = some rev.before ∧
        (reporter.settleAll tree [("module.json", .ok rev)]).1.summary.exitCode .check = 2 := by
  intro text tree sources reporter
  have hread : tree.readText "module.json" = .ok text := by decide +kernel
  have hparse : Descriptor.parse? text =
      some ⟨⟨"foo", none⟩, [], [⟨⟨"b", none⟩, true, false⟩]⟩ := by decide +kernel
  obtain ⟨l, hl, hamend⟩ : ∃ l, Loaded.addTexts Properties.none sources {} = .ok l ∧
      l.store.amend ⟨⟨"foo", none⟩, [], [⟨⟨"b", none⟩, true, false⟩]⟩ =
        (⟨⟨"foo", none⟩, [], [⟨⟨"b", none⟩, true, false⟩]⟩,
          [⟨"optional", "Mark dependency b:main optional"⟩]) := ⟨_, rfl, rfl⟩
  have hrev := ofFile_of_amend hread hparse hamend
  refine ⟨l, _, hl, hrev, rfl, ?_⟩
  rw [Reporter.exitCode_settleAll _ _ _ rfl rfl]
  exact ⟨by simp [Except.isOk, Except.toBool], _, List.mem_singleton.2 rfl, rfl⟩

end Revision

end ModuleRules
