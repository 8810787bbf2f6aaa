import Mathlib.Data.List.Nodup
import ModuleRules.Configuration.Discovery
import ModuleRules.Proofs.Configuration.Content
import ModuleRules.Proofs.File.Tree
import ModuleRules.Proofs.Text.Utf8

/-!
# Which configuration files a project has

The files that are found for a path stand in the directories that its steps
pass through, the last first. Double dots are not undone first, so these
directories are those above the project only if the path goes back to none it
has left (`sources_of_loadProject`).
-/

namespace ModuleRules

open ModuleRules.Path Text.Utf8

def FileTree.isConfigured (t : FileTree) (d : Location) : Bool :=
  t.holdsFile (d ++ [Configuration.fileName])

/-! ## Sources -/

theorem Loaded.sources_of_addFiles {t : FileTree} {properties : Properties} :
    ∀ {paths : List Text} {l l' : Loaded}, addFiles t properties paths l = .ok l' →
      l'.sources = l.sources ++ paths
  | [], l, l', h => by
    cases h
    simp
  | path :: paths, l, l', h => by
    unfold addFiles at h
    split at h
    next l₁ hadd =>
      unfold addFile at hadd
      split at hadd
      next content hread =>
        obtain ⟨s, -, rfl⟩ := feedAll_of_addLines hadd
        simpa using sources_of_addFiles h
      next => cases hadd
    next => cases h

namespace Configuration

variable {t : FileTree}

theorem sources_of_load {properties : Properties} {directory start : Text} {l : Loaded}
    (h : loadProject t properties directory = .ok l)
    (hstart : absolute t.workingPath directory = .ok start) : l.sources = discover t start := by
  unfold loadProject at h
  rw [hstart] at h
  simpa using Loaded.sources_of_addFiles h

theorem load_eq {t : FileTree} {properties : Properties} {directory start : Text}
    {paths : List Text} (hstart : absolute t.workingPath directory = .ok start)
    (hfound : discover t start = paths) :
    loadProject t properties directory = loadFiles t properties paths := by
  rw [loadProject, hstart, ← hfound]

/-! ## Paths of candidates -/

theorem not_mem_of_steps {p : Text} (h : ∀ n ∈ steps p, '\x00' ∉ n) : '\x00' ∉ p := by
  intro hmem
  obtain ⟨n, hn, hc⟩ := (Text.exists_mem_split_iff (by decide : '\x00' ≠ '/')).2 hmem
  by_cases hstep : isStep n = true
  · exact h n (List.mem_filter.2 ⟨hn, hstep⟩) hc
  · have hempty : n = [] ∨ n = dot := by
      by_cases hn : n = []
      · exact .inl hn
      · simp_all [isStep]
    rcases hempty with rfl | rfl <;> revert hc <;> decide

theorem length_encode_join {base : Text} (h : base ≠ []) :
    (encode base).length + (encode fileName).length ≤ (encode (join base fileName)).length ∧
      (encode (join base fileName)).length ≤
        (encode base).length + (encode fileName).length + 1 := by
  have hslash : (encode ('/' :: fileName)).length = (encode fileName).length + 1 := by
    rw [encode_cons, List.length_append, Nat.add_comm]
    rfl
  rcases join_eq h (rfl : isAbsolute fileName = false) with hjoin | hjoin <;>
    rw [hjoin, encode_append, List.length_append] <;> omega

/-- Nothing keeps the candidates from being followed if the first is short enough. -/
theorem pathFault?_candidate {start q : Text} (hnul : '\x00' ∉ start) (hbegin : q <+: start)
    (hq : q ≠ []) (hfits : (encode (join start fileName)).length ≤ FileTree.maxPath) :
    FileTree.pathFault? (join q fileName) = none := by
  obtain ⟨r, rfl⟩ := hbegin
  have hlength : (encode (join q fileName)).length ≤ FileTree.maxPath := by
    cases r with
    | nil => simpa using hfits
    | cons c r =>
      have hc : (encode (c :: r)).length ≠ 0 := by
        simp [List.length_eq_zero_iff, encode_eq_nil_iff]
      have hlong := (length_encode_join (by simp : q ++ c :: r ≠ [])).1
      have hshort := (length_encode_join hq).2
      rw [encode_append, List.length_append] at hlong
      omega
  have hnul' : '\x00' ∉ join q fileName := by
    have hq : '\x00' ∉ q := fun h => hnul (List.mem_append_left r h)
    have hname : '\x00' ∉ fileName := by decide
    rcases join_eq ‹q ≠ []› (rfl : isAbsolute fileName = false) with hjoin | hjoin <;>
      simp [hjoin, hq, hname]
  have hne : join q fileName ≠ [] := by
    rcases join_eq hq (rfl : isAbsolute fileName = false) with hjoin | hjoin <;> simp [hjoin, hq]
  unfold FileTree.pathFault?
  rw [if_neg hnul', if_neg hne, if_neg (Nat.not_lt.2 hlength)]

/-! ## Directories -/

section
variable {directory start : Text} {loc : Location}
  (ht : t.IsSound) (hdir : t.resolve directory = .ok loc) (hloc : t.entry? loc = some .directory)
  (hstart : absolute t.workingPath directory = .ok start)

include ht hdir hstart in
theorem steps_of_absolute : isAbsolute start = true ∧ steps start = t.stepsTo directory := by
  obtain ⟨q, hq, h⟩ := ht.exists_absolute hdir
  rw [hq] at hstart
  cases hstart
  exact h

include ht hdir hstart in
theorem nul_not_mem_start : '\x00' ∉ start := by
  refine not_mem_of_steps ?_
  rw [(steps_of_absolute ht hdir hstart).2]
  intro n hn hc
  rcases List.mem_append.1 hn with hn | hn
  · unfold FileTree.start at hn
    split at hn
    · cases hn
    · exact (FileTree.isProper_iff.1 (ht.isProper_of_mem_workingDirectory n hn)).2.2.1 hc
  · have hmem := (Text.exists_mem_split_iff (by decide)).1 ⟨n, (List.mem_filter.1 hn).1, hc⟩
    have hfault := FileTree.pathFault?_of_resolve hdir
    simp [FileTree.pathFault?, hmem] at hfault

include ht hdir hloc hstart in
/-- Each candidate leads into a directory that the path passes through. -/
theorem resolve_candidate {q : Text} (hq : q ∈ ancestors start)
    (hfits : (encode (join start fileName)).length ≤ FileTree.maxPath) :
    t.resolve (join q fileName) = .ok ((steps q).foldl move [] ++ [fileName]) := by
  obtain ⟨habsolute, hsteps⟩ := steps_of_absolute ht hdir hstart
  obtain ⟨hmap, hmem⟩ := map_steps_ancestors habsolute
  obtain ⟨hqabsolute, hbegin⟩ := hmem q hq
  have hne : q ≠ [] := by
    rintro rfl
    cases hqabsolute
  have hbefore : steps q <+: t.stepsTo directory := by
    rw [← hsteps, ← mem_upward, ← hmap]
    exact List.mem_map_of_mem hq
  obtain ⟨hway, hisdir⟩ := FileTree.foldlM_enter_prefix ht.isStep_of_mem_stepsTo
    (ht.foldlM_stepsTo hdir) hloc hbefore
  obtain ⟨a, ha, hsame, -⟩ := exists_join_eq hne (rfl : isAbsolute fileName = false)
  have hroot : t.start (join q fileName) = [] :=
    if_pos (isAbsolute_join hqabsolute rfl)
  have hpieces : pieces (join q fileName) = pieces a ++ [fileName] := by
    rw [ha, pieces, Text.split_append_sep]
    rfl
  rw [FileTree.resolve_of_pathFault? (pathFault?_candidate (nul_not_mem_start ht hdir hstart)
    hbegin hne hfits), hroot, hpieces, FileTree.foldlM_enter_filter]
  change (steps a ++ [fileName]).foldlM t.enter [] = _
  rw [hsame, FileTree.foldlM_enter_append hway,
    FileTree.foldlM_enter_cons (FileTree.enter_of_isProper hisdir (by decide))]
  rfl

include ht hdir hloc hstart in
theorem map_resolve_discover
    (hfits : (encode (join start fileName)).length ≤ FileTree.maxPath) :
    (discover t start).map t.resolve =
      ((t.passed directory).filter t.isConfigured).map fun d => .ok (d ++ [fileName]) := by
  obtain ⟨habsolute, hsteps⟩ := steps_of_absolute ht hdir hstart
  have hpassed : t.passed directory =
      (ancestors start).map fun q => (steps q).foldl move [] := by
    rw [FileTree.passed, ← hsteps, ← (map_steps_ancestors habsolute).1, List.map_map]
    rfl
  have hresolve := fun q hq => resolve_candidate ht hdir hloc hstart (q := q) hq hfits
  rw [discover, hpassed, List.filter_map, List.filter_map, List.map_map, List.map_map]
  have hfilter : (ancestors start).filter (t.isFile ∘ (join · fileName)) =
      (ancestors start).filter (t.isConfigured ∘ fun q => (steps q).foldl move []) :=
    List.filter_congr fun q hq => FileTree.isFile_of_resolve (hresolve q hq)
  rw [hfilter]
  exact List.map_congr_left fun q hq => hresolve q (List.mem_of_mem_filter hq)

end

/-! ## Chains -/

/-- The sources are the files of the directories from `d` up to the root that hold one, the closest
first, and none of them twice. -/
structure IsChain (t : FileTree) (sources : List Text) (d : Location) : Prop where
  files : sources.map t.resolve =
    ((upward d).filter t.isConfigured).map fun e => .ok (e ++ [fileName])
  once : (sources.map t.resolve).Nodup

theorem ok_file_injective :
    Function.Injective fun e : Location => (.ok (e ++ [fileName]) : Except FileFault Location) :=
  fun _ _ h => List.append_cancel_right (Except.ok.inj h)

theorem isChain_iff {sources : List Text} {passed : List Location} {d : Location}
    (h : sources.map t.resolve =
      (passed.filter t.isConfigured).map fun e => .ok (e ++ [fileName])) :
    IsChain t sources d ↔ passed.filter t.isConfigured = (upward d).filter t.isConfigured := by
  constructor
  · intro hchain
    exact ok_file_injective.list_map (h.symm.trans hchain.files)
  · intro heq
    rw [heq] at h
    refine ⟨h, ?_⟩
    rw [h]
    exact List.Nodup.map ok_file_injective ((nodup_upward d).filter _)

theorem passed_of_no_dots {directory : Text} {loc : Location} (ht : t.IsSound)
    (hdir : t.resolve directory = .ok loc) (hdots : dots ∉ pieces directory) :
    t.passed directory = upward loc := by
  have hnone := ht.dots_not_mem_stepsTo hdots
  have hloc := FileTree.eq_foldl_of_foldlM_enter ht.isStep_of_mem_stepsTo (ht.foldlM_stepsTo hdir)
  rw [foldl_move hnone, List.nil_append] at hloc
  rw [FileTree.passed, hloc]
  refine (List.map_congr_left fun ss hss => ?_).trans (List.map_id _)
  simpa using foldl_move (fun h => hnone ((mem_upward.1 hss).mem h)) []

/-- **The files of a project are those of the directories that its path passes through**, the last
first. They are those of the project's directory and the ones above it, each once, exactly if these
are the directories with a file that the path passes through, in this order; and so they are when
the path has no double dots. The path of the first candidate must not be too long. -/
theorem sources_of_loadProject {properties : Properties} {directory : Text} {loc : Location}
    {l : Loaded} (ht : t.IsSound) (hdir : t.resolve directory = .ok loc)
    (hloc : t.entry? loc = some .directory)
    (hfits : ∀ start, absolute t.workingPath directory = .ok start →
      (encode (join start fileName)).length ≤ FileTree.maxPath)
    (h : loadProject t properties directory = .ok l) :
    l.sources.map t.resolve =
        ((t.passed directory).filter t.isConfigured).map (fun d => .ok (d ++ [fileName])) ∧
      (IsChain t l.sources loc ↔
        (t.passed directory).filter t.isConfigured = (upward loc).filter t.isConfigured) ∧
      (dots ∉ pieces directory → IsChain t l.sources loc) := by
  obtain ⟨start, hstart, -⟩ := ht.exists_absolute hdir
  have hsources := map_resolve_discover ht hdir hloc hstart (hfits start hstart)
  rw [← sources_of_load h hstart] at hsources
  refine ⟨hsources, isChain_iff hsources, fun hdots => (isChain_iff hsources).2 ?_⟩
  rw [passed_of_no_dots ht hdir hdots]

theorem sources_of_loadProject_spelled :
    let t : FileTree :=
      ⟨[(["p"], .directory), (["p", "q"], .directory), (["p", fileName], .file []),
        ([fileName], .file [])], ["p"]⟩
    ∃ l, loadProject t Properties.none ".//q/" = .ok l ∧
      l.sources = (["/p/module-rewrite.conf", "/module-rewrite.conf"] : List Text) ∧
      IsChain t l.sources ["p", "q"] := by
  intro t
  have hstart : absolute t.workingPath ".//q/" = .ok "/p/q/" := by decide +kernel
  have hfound : discover t "/p/q/" =
      (["/p/module-rewrite.conf", "/module-rewrite.conf"] : List Text) := by decide +kernel
  have hnear : t.read "/p/module-rewrite.conf" = .ok (encode []) := by decide +kernel
  have hfar : t.read "/module-rewrite.conf" = .ok (encode []) := by decide +kernel
  obtain ⟨l, hl⟩ : ∃ l, loadProject t Properties.none ".//q/" = .ok l := by
    rw [load_eq hstart hfound, loadFiles, Loaded.addFiles_cons hnear rfl,
      Loaded.addFiles_cons hfar rfl]
    exact ⟨_, rfl⟩
  refine ⟨l, hl, (sources_of_load hl hstart).trans hfound, ?_⟩
  have ht : t.IsSound := by decide +kernel
  have hdir : t.resolve ".//q/" = .ok ["p", "q"] := by decide +kernel
  refine (sources_of_loadProject ht hdir (by decide +kernel) ?_ hl).2.2 (by decide +kernel)
  intro start h
  rw [hstart] at h
  cases h
  decide +kernel

theorem not_isChain_of_dots :
    let t : FileTree :=
      ⟨[(["p"], .directory), (["p", "q"], .directory),
        (["p", fileName], .file (encode "module:foo\ninclude:b\n"))], ["p"]⟩
    ∃ l, loadProject t Properties.none "q/.." = .ok l ∧
      t.IsSound ∧ t.resolve "q/.." = .ok ["p"] ∧ t.entry? ["p"] = some .directory ∧
      l.sources = (["/p/q/../module-rewrite.conf", "/p/module-rewrite.conf"] : List Text) ∧
      l.store.get? ⟨"foo", "main"⟩ = some [.add ⟨"b", none⟩, .add ⟨"b", none⟩] ∧
      ¬ IsChain t l.sources ["p"] := by
  intro t
  have hstart : absolute t.workingPath "q/.." = .ok "/p/q/.." := by decide +kernel
  have hfound : discover t "/p/q/.." =
      (["/p/q/../module-rewrite.conf", "/p/module-rewrite.conf"] : List Text) := by decide +kernel
  have hnear : t.read "/p/q/../module-rewrite.conf" =
      .ok (encode "module:foo\ninclude:b\n") := by decide +kernel
  have hfar : t.read "/p/module-rewrite.conf" =
      .ok (encode "module:foo\ninclude:b\n") := by decide +kernel
  have hsame : t.resolve "/p/q/../module-rewrite.conf" = t.resolve "/p/module-rewrite.conf" := by
    decide +kernel
  obtain ⟨l, hl, hrules⟩ : ∃ l, loadProject t Properties.none "q/.." = .ok l ∧
      l.store.get? ⟨"foo", "main"⟩ = some [.add ⟨"b", none⟩, .add ⟨"b", none⟩] :=
    ⟨_, (load_eq hstart hfound).trans
      ((Loaded.addFiles_cons hnear rfl _).trans (Loaded.addFiles_cons hfar rfl _)), rfl⟩
  have hsources := (sources_of_load hl hstart).trans hfound
  refine ⟨l, hl, by decide +kernel, by decide +kernel, by decide +kernel, hsources, hrules, ?_⟩
  intro h
  have honce := h.once
  rw [hsources, List.map_cons, List.map_cons, hsame] at honce
  simp at honce

end Configuration

end ModuleRules
