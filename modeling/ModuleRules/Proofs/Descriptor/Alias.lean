import ModuleRules.Proofs.Descriptor.Collection
import ModuleRules.Proofs.Report.Tally

/-!
# Files that are collected twice

Collected paths differ in their components, but paths that differ can lead to
one file. So a file is collected twice if it is meant by two paths that are not
aligned: what the second has behind the components of the first is not the
names between the places that they lead to (`reported_once_iff`). Paths are
aligned when none has double dots and all start alike.
-/

namespace ModuleRules

open ModuleRules.Path FileTree

namespace DescriptorFiles

variable {t : FileTree} {paths : List Text} {p q : Text} {l f : Location} {way : List Text}

/-- Of two paths that mean the same file, the one that leads further down has the components of the
other and the names between the two places. -/
def AreAligned (t : FileTree) (paths : List Text) : Prop :=
  ∀ p ∈ paths, ∀ q ∈ paths, ∀ l between way, Means t p l (between ++ way) →
    Means t q (l ++ between) way → components q = components p ++ between.map .name

def AreMeant (t : FileTree) (paths : List Text) (f : Location) : Prop :=
  ∃ p ∈ paths, ∃ l way, Means t p l way ∧ f = l ++ way

theorem Means.exists_mem_files (ht : t.IsSound) (hp : p ∈ paths) (h : Means t p l way) :
    ∃ e ∈ (collect t paths).files, components e = components p ++ way.map .name ∧
      t.follow e = .ok (l ++ way) := by
  obtain ⟨e, he, hcomponents⟩ := List.mem_map.1
    ((mem_components_files_iff ht).2 ⟨p, hp, l, way, h, rfl⟩)
  refine ⟨e, he, hcomponents, ?_⟩
  obtain ⟨p', -, l', way', h', rfl⟩ := exists_means_of_mem_files ht he
  rw [h'.follow_under ht]
  -- the path that was kept may be spelled differently, with the same components
  rw [← components_under p (h.isProper_way ht)] at hcomponents
  exact congrArg Except.ok
    (ht.follow_eq_of_components hcomponents (h'.follow_under ht) (h.follow_under ht))

theorem mem_follow_files_iff (ht : t.IsSound) :
    .ok f ∈ (collect t paths).files.map t.follow ↔ AreMeant t paths f := by
  rw [List.mem_map]
  refine ⟨fun ⟨e, he, hf⟩ => ?_, fun ⟨p, hp, l, way, h, hf⟩ => ?_⟩
  · obtain ⟨p, hp, l, way, h, rfl⟩ := exists_means_of_mem_files ht he
    rw [h.follow_under ht] at hf
    exact ⟨p, hp, l, way, h, (Except.ok.inj hf).symm⟩
  · obtain ⟨e, he, -, hfollow⟩ := h.exists_mem_files ht hp
    exact ⟨e, he, hf ▸ hfollow⟩

theorem AreAligned.components_under_eq (ht : t.IsSound) (h : AreAligned t paths) (hp : p ∈ paths)
    (hq : q ∈ paths) {l m : Location} {way way' : List Text} (hmeans : Means t p l way)
    (hmeans' : Means t q m way') (heq : l ++ way = m ++ way') :
    components (under p way) = components (under q way') := by
  rw [components_under p (hmeans.isProper_way ht), components_under q (hmeans'.isProper_way ht)]
  rcases List.append_eq_append_iff.1 heq with ⟨between, rfl, rfl⟩ | ⟨between, rfl, rfl⟩
  · rw [h p hp q hq l between way' hmeans hmeans', List.append_assoc, ← List.map_append]
  · rw [h q hq p hp m between way hmeans' hmeans, List.append_assoc, ← List.map_append]

theorem nodup_follow_iff (ht : t.IsSound) :
    ((collect t paths).files.map t.follow).Nodup ↔ AreAligned t paths := by
  refine ⟨fun h => ?_, fun h => ?_⟩
  · intro p hp q hq l between way hmeans hmeans'
    obtain ⟨e, he, hcomponents, hfollow⟩ := hmeans.exists_mem_files ht hp
    obtain ⟨e', he', hcomponents', hfollow'⟩ := hmeans'.exists_mem_files ht hq
    rw [List.append_assoc] at hfollow'
    obtain rfl := List.inj_on_of_nodup_map h he he' (hfollow.trans hfollow'.symm)
    rw [hcomponents', List.map_append, ← List.append_assoc] at hcomponents
    exact List.append_cancel_right hcomponents
  · refine List.pairwise_map.2 ((pairwise_files t paths).imp_of_mem ?_)
    intro e e' he he' hlt heq
    obtain ⟨p, hp, l, way, hmeans, rfl⟩ := exists_means_of_mem_files ht he
    obtain ⟨q, hq, m, way', hmeans', rfl⟩ := exists_means_of_mem_files ht he'
    rw [hmeans.follow_under ht, hmeans'.follow_under ht] at heq
    rw [h.components_under_eq ht hp hq hmeans hmeans' (Except.ok.inj heq)] at hlt
    exact irrefl _ hlt

/-- Paths that start alike and have no double dots are told apart by their names. -/
theorem areAligned_of_plain (ht : t.IsSound)
    (h : ∀ p ∈ paths, dots ∉ pieces p ∧ ∀ q ∈ paths, origin p = origin q) :
    AreAligned t paths := by
  intro p hp q hq l between way hmeans hmeans'
  have horigin := (h p hp).2 q hq
  have hstart : t.start p = t.start q := by rw [start, start, isAbsolute_congr horigin]
  have hplace {r : Text} {m : Location} {way : List Text} (hr : r ∈ paths)
      (hmeans : Means t r m way) : m = t.start r ++ steps r := by
    have hm := ht.eq_of_follow (follow_of_resolve hmeans.resolve_eq)
    rwa [foldl_move (ht.dots_not_mem_stepsTo (h r hr).1), List.nil_append] at hm
  have hl := hplace hp hmeans
  have hm := hplace hq hmeans'
  rw [hl, hstart, List.append_assoc] at hm
  have hsteps : steps q = steps p ++ between := (List.append_cancel_left hm).symm
  rw [components_eq, components_eq, stepComponents_of_no_dots (h p hp).1,
    stepComponents_of_no_dots (h q hq).1, hsteps, horigin, List.map_append, List.append_assoc]

/-! ## Reports -/

theorem path_settle (mode : Mode) (path : Text) (r : Except RevisionError Revision)
    (u : FileTree) : (Report.settle mode path r u).1.path = path := by
  cases r with
  | error e => rfl
  | ok r =>
    obtain ⟨id, changes, before, after⟩ := r
    cases after with
    | none => rfl
    | some after =>
      cases mode with
      | check => rfl
      | fix =>
        simp only [Report.settle]
        cases Revision.writeText path after u <;> rfl

theorem reports_settleAll (format : Format) (mode : Mode) (verbose color : Bool)
    (store : RuleStore) (paths : List Text) :
    let q := (Reporter.settleAll ⟨format, mode, verbose, color, [], {}⟩ t
      (Revision.ofFiles t store paths)).1
    q.reports.map (·.path) = paths ∧ q.summary.descriptors = paths.length := by
  intro q
  obtain ⟨xs, hxs, hq⟩ := Reporter.exists_settlings (Revision.ofFiles t store paths)
    ⟨format, mode, verbose, color, [], {}⟩ t
  have hpaths : xs.map (·.path) = paths := by
    have h := congrArg (List.map Prod.fst) hxs
    simpa [Revision.ofFiles, Function.comp_def] using h
  have hreflects := Reporter.recordAll_reflects (p := ⟨format, mode, verbose, color, [], {}⟩)
    rfl rfl xs
  rw [← hq] at hreflects
  refine ⟨?_, ?_⟩
  · rw [hreflects.reports, List.map_map, ← hpaths]
    exact List.map_congr_left fun x _ => path_settle ..
  · rw [hreflects.descriptors, ← hpaths, List.length_map]

/-- **No file is collected twice if and only if the given paths are aligned**, as they are when they
start alike and have no double dots. A run has one report for each collected path and counts as
many descriptors, so it is then, and only then, that each file has exactly one report. -/
theorem reported_once_iff (ht : t.IsSound) (paths : List Text) :
    (((collect t paths).files.map t.follow).Nodup ↔ AreAligned t paths) ∧
      (∀ f, .ok f ∈ (collect t paths).files.map t.follow ↔ AreMeant t paths f) ∧
      ((∀ p ∈ paths, dots ∉ pieces p ∧ ∀ q ∈ paths, origin p = origin q) →
        AreAligned t paths) ∧
      ∀ format mode verbose color store,
        let q := (Reporter.settleAll ⟨format, mode, verbose, color, [], {}⟩ t
          (Revision.ofFiles t store (collect t paths).files)).1
        q.summary.descriptors = (collect t paths).files.length ∧
          (AreAligned t paths ↔
            ∀ f, AreMeant t paths f → q.reports.countP (fun r => t.follow r.path = .ok f) = 1) := by
  refine ⟨nodup_follow_iff ht, fun f => mem_follow_files_iff ht, areAligned_of_plain ht, ?_⟩
  intro format mode verbose color store q
  obtain ⟨hreports, hcount⟩ := reports_settleAll (t := t) format mode verbose color store
    (collect t paths).files
  refine ⟨hcount, ?_⟩
  have hcountP (f : Location) : q.reports.countP (fun r => t.follow r.path = .ok f) =
      ((collect t paths).files.map t.follow).count (.ok f) := by
    rw [← hreports, List.count, List.countP_map, List.countP_map]
    rfl
  rw [← nodup_follow_iff ht]
  refine ⟨fun h f hf => ?_, fun h => List.nodup_iff_count_le_one.2 fun x => ?_⟩
  · rw [hcountP]
    exact List.count_eq_one_of_mem h ((mem_follow_files_iff ht).2 hf)
  · by_cases hx : x ∈ (collect t paths).files.map t.follow
    · obtain ⟨e, he, rfl⟩ := List.mem_map.1 hx
      obtain ⟨p, -, l, way, hmeans, rfl⟩ := exists_means_of_mem_files ht he
      rw [hmeans.follow_under ht] at hx ⊢
      rw [← hcountP, h _ ((mem_follow_files_iff ht).1 hx)]
    · rw [List.count_eq_zero_of_not_mem hx]
      exact Nat.zero_le 1

theorem reported_once_nested :
    let t : FileTree :=
      ⟨[(["a"], .directory), (["a", "b"], .directory), (["a", fileName], .file []),
        (["a", "b", fileName], .file [])], []⟩
    let paths : List Text := ["a/", "a//b", "a/b/module.json", "a/./b/"]
    t.IsSound ∧
      (collect t paths).files = (["a/b/module.json", "a/module.json"] : List Text) ∧
      AreAligned t paths ∧ ((collect t paths).files.map t.follow).Nodup := by
  intro t paths
  have ht : t.IsSound := by decide +kernel
  obtain ⟨hnodup, -, hplain, -⟩ := reported_once_iff ht paths
  have haligned := hplain (by decide +kernel)
  exact ⟨ht, by decide +kernel, haligned, hnodup.2 haligned⟩

theorem not_nodup_of_dot :
    let t : FileTree := ⟨[([fileName], .file [])], []⟩
    let paths : List Text := [".", "module.json"]
    t.IsSound ∧ (collect t paths).files = (["./module.json", "module.json"] : List Text) ∧
      t.resolve "./module.json" = .ok [fileName] ∧ t.resolve "module.json" = .ok [fileName] ∧
      ¬ ((collect t paths).files.map t.follow).Nodup := by
  decide +kernel

end DescriptorFiles

end ModuleRules
