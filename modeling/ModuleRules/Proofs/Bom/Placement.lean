import ModuleRules.Proofs.Bom.Generation
import ModuleRules.Proofs.File.Creation

/-!
# Where a generated project is placed

A generation makes directories of the places that the path of the project's
directory passes through, and writes one file. These are places on the way to
the target directory, one directory in it and a file in that one if and only
if no bill of materials has a slash in its name (`isPlaced_iff`). With a slash
the path can lead up again, and the project comes to be elsewhere.
-/

namespace ModuleRules

open ModuleRules.Path FileTree Text.Utf8

/-- The text is a component of a path and stays below what it is joined to. -/
def Path.IsSingle (n : Text) : Prop := '/' ∉ n ∧ n ≠ dot ∧ n ≠ dots

/-- In `u` the file is at its place, the places in the list are directories, and all else is as
in `t`. -/
def FileTree.Gains (t u : FileTree) (file : Location) (content : Bytes)
    (directories : List Location) : Prop :=
  ∀ k, u.entry? k =
    if k = file then some (.file content)
    else if k ∈ directories then some .directory
    else t.entry? k

namespace Bom

theorem projectName_eq (boms : List Bom) : projectName boms =
    ("generated-project" : Text) ++ (boms.map fun bom => '_' :: bom.artifact).flatten := by
  have h : projectName boms =
      ("generated-project" : Text) ++ ((boms.map fun bom => '_' :: bom.artifact).map id).flatten :=
    List.foldl_append_eq_append
  rwa [List.map_id] at h

theorem slash_not_mem_projectName_iff {boms : List Bom} :
    '/' ∉ projectName boms ↔ ∀ bom ∈ boms, '/' ∉ bom.artifact := by
  simp [projectName_eq]

theorem isName_projectName (boms : List Bom) : isName (projectName boms) = true := by
  rw [projectName_eq]
  rfl

theorem isSingle_projectName_iff {boms : List Bom} :
    IsSingle (projectName boms) ↔ ∀ bom ∈ boms, '/' ∉ bom.artifact := by
  have hname : projectName boms ≠ dot ∧ projectName boms ≠ dots := by
    have h := isName_projectName boms
    simp_all [isName]
  rw [IsSingle, and_iff_left hname, ← slash_not_mem_projectName_iff]

end Bom

namespace ProjectBuilder

variable {b : ProjectBuilder} {paths : List Text} {t u v : FileTree} {l : Location}
  {d n template text : Text} {boms : List Bom} {content : Bytes}

theorem writeProject_eq_ok (h : writeProject template boms d v = .ok u) : ∃ text,
    (Template.parse template).bind (·.render (Bom.projectData boms)) = .ok text ∧
      v.write (join d projectFile) (encode text) = .ok u := by
  obtain ⟨text, hrender, hwrite⟩ := bind_eq_ok.1 h
  exact ⟨text, mapError_eq_ok.1 hrender, mapError_eq_ok.1 hwrite⟩

theorem generate_eq_ok (h : b.generate paths t = (u, .ok d)) :
    ∃ template boms text v, b.inputs paths t = .ok (template, boms) ∧ d = b.directory boms ∧
      (Template.parse template).bind (·.render (Bom.projectData boms)) = .ok text ∧
      t.makeDirectories d = (v, none) ∧ v.write (join d projectFile) (encode text) = .ok u := by
  cases ends_of_generate h with
  | written hinputs hmade hwrite =>
    obtain ⟨text, hrender, hwrite⟩ := writeProject_eq_ok hwrite
    exact ⟨_, _, text, _, hinputs, rfl, hrender, hmade, hwrite⟩

/-- A file in a new directory comes into being with the directories that its path passes through. -/
theorem gains_of_write (ht : t.IsSound) (hmade : t.makeDirectories d = (v, none))
    (hwrite : v.write (join d projectFile) content = .ok u) :
    u.IsSound ∧ u.workingDirectory = t.workingDirectory ∧
      ∃ l, u.follow d = .ok l ∧ t.Gains u (l ++ [projectFile]) content (t.passed d) := by
  have hgrows := ht.growsTo_of_makeDirectories hmade
  obtain ⟨l, hl, hdir, hproper, hfile, rfl⟩ :=
    write_join_eq_ok (by decide) (by decide) (by decide) hwrite
  have hkeep := fun k => directory_put (k := k) (e := .file content)
    (by simp : l ++ [projectFile] ≠ []) fun h => absurd h hfile
  refine ⟨hgrows.sound.put hdir hproper fun h => absurd h hfile, hgrows.working, l,
    foldlM_enter_of_directories hkeep hl, fun k => ?_⟩
  rw [entry?_put (by simp), ht.entry?_of_makeDirectories hmade]

/-- The project's directory is named in the target directory and holds the project file, and
nothing else comes into being but directories on the way to the target directory. -/
def IsPlaced (t u : FileTree) (target name : Text) (content : Bytes) : Prop :=
  ∃ l, u.follow target = .ok l ∧
    t.Gains u (l ++ [name, projectFile]) content ((l ++ [name]) :: t.passed target)

theorem slash_not_mem_of_isPlaced (hu : u.IsSound) (h : IsPlaced t u d n content) : '/' ∉ n := by
  obtain ⟨l, -, hgains⟩ := h
  have hfile := (hgains (l ++ [n, projectFile])).trans (if_pos rfl)
  exact (isProper_iff.1 (hu.isProper_names hfile n (by simp))).2.1

theorem isPlaced_of_gains (hu : u.IsSound) (hworking : u.workingDirectory = t.workingDirectory)
    (hname : isName n = true) (hn : '/' ∉ n) (hl : u.follow (join d n) = .ok l)
    (hgains : t.Gains u (l ++ [projectFile]) content (t.passed (join d n))) :
    IsPlaced t u d n content := by
  obtain ⟨m, hm, henter⟩ := (follow_join_eq_ok hn).1 hl
  obtain rfl := eq_append_of_enter hname henter
  rw [← passed_congr hworking, hu.passed_join hname hn hm, passed_congr hworking,
    List.append_assoc] at hgains
  exact ⟨m, hm, hgains⟩

/-- **A project is placed below the target directory if and only if no bill of materials has a slash
in its name**, which is also when the project's name is a single component. In any case the project
file is in the directory that the result leads to, and what the path of that directory passes
through is all that comes into being beside it. -/
theorem isPlaced_iff (ht : t.IsSound) (h : b.generate paths t = (u, .ok d)) :
    (∀ boms, IsSingle (Bom.projectName boms) ↔ ∀ bom ∈ boms, '/' ∉ bom.artifact) ∧
      ∃ template boms text, b.inputs paths t = .ok (template, boms) ∧
        d = join b.target (Bom.projectName boms) ∧
        (Template.parse template).bind (·.render (Bom.projectData boms)) = .ok text ∧
        (∃ l, u.follow d = .ok l ∧
          t.Gains u (l ++ [projectFile]) (encode text) (t.passed d)) ∧
        (IsPlaced t u b.target (Bom.projectName boms) (encode text) ↔
          ∀ bom ∈ boms, '/' ∉ bom.artifact) := by
  refine ⟨fun boms => Bom.isSingle_projectName_iff, ?_⟩
  obtain ⟨template, boms, text, v, hinputs, rfl, hrender, hmade, hwrite⟩ := generate_eq_ok h
  obtain ⟨hu, hworking, l, hl, hgains⟩ := gains_of_write ht hmade hwrite
  refine ⟨template, boms, text, hinputs, rfl, hrender, ⟨l, hl, hgains⟩, ?_⟩
  rw [← Bom.slash_not_mem_projectName_iff]
  refine ⟨slash_not_mem_of_isPlaced hu, fun hslash => ?_⟩
  exact isPlaced_of_gains hu hworking (Bom.isName_projectName boms) hslash hl hgains

theorem isPlaced_two_boms :
    let t : FileTree :=
      ⟨[(["t"], .file (encode "\x7b\x7bname\x7d\x7d")),
        (["a"], .file (encode "<project><artifactId>..</artifactId></project>")),
        (["b"], .file (encode "<project><artifactId>b</artifactId></project>"))], []⟩
    let b : ProjectBuilder := ⟨"t", "new/../deep/", []⟩
    t.IsSound ∧ ∃ u, b.generate ["a", "b"] t = (u, .ok "new/../deep/generated-project_.._b") ∧
      IsPlaced t u "new/../deep/" "generated-project_.._b" (encode "generated-project_.._b") := by
  intro t b
  have ht : t.IsSound := by decide +kernel
  have hd : (b.generate ["a", "b"] t).2 = .ok "new/../deep/generated-project_.._b" := by
    decide +kernel
  have hread : b.inputs ["a", "b"] t =
      .ok ("\x7b\x7bname\x7d\x7d", [{ artifact := ".." }, { artifact := "b" }]) := by
    decide +kernel
  have hwritten : (Template.parse "\x7b\x7bname\x7d\x7d").bind
      (·.render (Bom.projectData [{ artifact := ".." }, { artifact := "b" }])) =
        .ok "generated-project_.._b" := by decide +kernel
  refine ⟨ht, ?_⟩
  cases h : b.generate ["a", "b"] t with
  | mk u r =>
    rw [h] at hd
    obtain rfl : r = .ok "new/../deep/generated-project_.._b" := hd
    obtain ⟨-, template, boms, text, hinputs, -, hrender, -, hplaced⟩ := isPlaced_iff ht h
    obtain ⟨rfl, rfl⟩ := Prod.mk.inj (Except.ok.inj (hinputs.symm.trans hread))
    obtain rfl := Except.ok.inj (hrender.symm.trans hwritten)
    exact ⟨u, rfl, hplaced.2 (by decide +kernel)⟩

/-- The project of one bill of materials is made beside the target directory. -/
theorem not_isPlaced_of_dots :
    let bom : Text := "<project><artifactId>/../../x</artifactId></project>"
    let t : FileTree :=
      ⟨[(["t"], .file (encode "\x7b\x7bname\x7d\x7d")), (["bom"], .file (encode bom))], []⟩
    let b : ProjectBuilder := ⟨"t", "out", []⟩
    let u := (b.generate ["bom"] t).1
    let name : Text := "generated-project_/../../x"
    Bom.parse? bom = some { artifact := "/../../x" } ∧
      Bom.projectName [{ artifact := "/../../x" }] = name ∧ ¬ IsSingle name ∧
      (b.generate ["bom"] t).2 = .ok (join "out" name) ∧
      t.entry? ["x"] = none ∧ u.entry? ["x", projectFile] = some (.file (encode name)) ∧
      ¬ IsPlaced t u "out" name (encode name) := by
  intro bom t b u name
  have hrun : (b.generate ["bom"] t).2 = .ok (join "out" name) ∧ u.follow "out" = .ok ["out"] ∧
      u.entry? ["x", projectFile] = some (.file (encode name)) := by decide +kernel
  obtain ⟨hd, hfollow, hfile⟩ := hrun
  refine ⟨by decide +kernel, by decide +kernel, ?_, hd, by decide +kernel, hfile, ?_⟩
  · intro h
    exact h.1 (by decide +kernel)
  · intro ⟨l, hl, hgains⟩
    obtain rfl := Except.ok.inj (hfollow.symm.trans hl)
    have hx := hgains ["x", projectFile]
    rw [hfile, if_neg (by decide +kernel), if_neg (by decide +kernel)] at hx
    have hnone : t.entry? ["x", projectFile] = none := by decide +kernel
    rw [hnone] at hx
    cases hx

end ProjectBuilder

end ModuleRules
